import Gridnet.IncrementalVerification

/-! The run from the common point compared with the run from the genesis block: the variables after the
first key block, and exactly when both runs accept with the same work. -/

namespace Gridnet

variable {Trie : Type}

/-! ### The two runs -/

section Agreement

variable (services : HeaderServices Trie) (node : ProofNode) (call : ProofArguments Trie)
  (checkpoints : List CBCheckpoint) (position : ℕ)

/-- What the loop of the optimized run has at hand. -/
def laterContext : ScanContext Trie where
  services := services
  node := node
  call := call
  checkpoints := checkpoints
  optimizing := true
  startFromPosition := position

/-- The variables of the full run after so many headers. -/
def fullState (n : ℕ) : ScanState Trie :=
  (call.chainProof.zipIdx.take n).foldl
    (Sequential.next (laterContext services node call checkpoints position).fromGenesis) call.genesisState

/-- The variables of the optimized run after its first key block. -/
def laterState : ScanState Trie :=
  ((call.elementsFrom position).take 1).foldl
    (Sequential.next (laterContext services node call checkpoints position))
    (call.optimizedState services position)

/-- The hard fork blocks before the parent of the first key block of the optimized run. -/
def forkBeforeStart : Bool :=
  (fullState services node call checkpoints position position).parentIsHardForkBlock

/-- The variables of the optimized run, had it met the hard fork blocks before its start. -/
def sharedState : ScanState Trie :=
  (laterState services node call checkpoints position).remembering
    (forkBeforeStart services node call checkpoints position)

namespace ProofRule

variable (rule : ProofRule Trie)

/-- Both runs check the headers after the first key block of the optimized one. -/
structure PassesRest : Prop where
  headers : Scan.Passes (rule.header (laterContext services node call checkpoints position))
    (Sequential.next (laterContext services node call checkpoints position))
    (sharedState services node call checkpoints position) (call.elementsFrom (position + 1))
  leader : ((call.elementsFrom (position + 1)).foldl
    (Sequential.next (laterContext services node call checkpoints position))
    (sharedState services node call checkpoints position)).leaderPubKey.length = 32

/-- What only the full run asks: a sound front, and times that need no lock. -/
structure PassesFull : Prop where
  whole : rule.whole services node call.fromGenesis checkpoints 0
  front : Scan.Passes (rule.header (laterContext services node call checkpoints position).fromGenesis)
    (Sequential.next (laterContext services node call checkpoints position).fromGenesis) call.genesisState
    (call.chainProof.zipIdx.take (position + 1))
  unlocked : Scan.Passes
    (fun st element =>
      rule.excusedByLock (laterContext services node call checkpoints position) st element = false)
    (Sequential.next (laterContext services node call checkpoints position))
    (sharedState services node call checkpoints position) (call.elementsFrom (position + 1))

/-- What only the optimized run asks: a first key block that passes without what came before it, and times
that need no hard fork block from before. -/
structure PassesLater (header : CBlockHeader Trie) : Prop where
  whole : rule.whole services node call checkpoints position
  pubKey : header.getPubKey.length = 32
  first : Scan.Passes (rule.header (laterContext services node call checkpoints position))
    (Sequential.next (laterContext services node call checkpoints position))
    (call.optimizedState services position) ((call.elementsFrom position).take 1)
  unexcused : Scan.Passes
    (fun st element =>
      rule.excusedBeforeStart (laterContext services node call checkpoints position) st
        (forkBeforeStart services node call checkpoints position) element = false)
    (Sequential.next (laterContext services node call checkpoints position))
    (laterState services node call checkpoints position) (call.elementsFrom (position + 1))

end ProofRule

variable {services node call checkpoints position} {header : CBlockHeader Trie}

theorem fullState_succ {n : ℕ} {bytes : Bytes} (hbytes : call.chainProof[n]? = some bytes) :
    fullState services node call checkpoints position (n + 1) =
      Sequential.next (laterContext services node call checkpoints position).fromGenesis
        (fullState services node call checkpoints position n) (bytes, n) := by
  unfold fullState
  rw [List.take_add_one, List.getElem?_zipIdx, hbytes, List.foldl_append]
  simp

theorem fullState_work (n : ℕ) :
    (fullState services node call checkpoints position n).work = workOf services (call.chainProof.take n) := by
  have hfull : (laterContext services node call checkpoints position).fromGenesis.optimizing = false := rfl
  have hwork := foldl_next_work call.genesisState (call.chainProof.zipIdx.take n) fun _ _ => .inl hfull
  rw [List.map_take, List.zipIdx_map_fst] at hwork
  exact hwork

theorem laterState_eq {bytes : Bytes} (hbytes : call.chainProof[position]? = some bytes) :
    laterState services node call checkpoints position =
      Sequential.next (laterContext services node call checkpoints position)
        (call.optimizedState services position) (bytes, position) := by
  unfold laterState
  rw [ProofArguments.elementsFrom_eq_cons hbytes]
  rfl

/-- The work that the optimized run finds at its start is not added again. -/
theorem laterState_work {bytes : Bytes} (hbytes : call.chainProof[position]? = some bytes)
    (hheader : services.instantiate bytes = some header) (hkey : header.isKeyBlock = true) :
    (laterState services node call checkpoints position).work =
      workOf services (call.chainProof.take (position + 1)) := by
  have hhere : (laterContext services node call checkpoints position).services.instantiate
      (bytes, position).1 = some header := hheader
  rw [laterState_eq hbytes, next_of_some hhere]
  unfold Sequential.advance
  rw [hkey, show ((laterContext services node call checkpoints position).optimizing &&
    (bytes, position).2 == (laterContext services node call checkpoints position).startFromPosition) = true
      by simp [laterContext]]
  rfl

/-- The hard fork blocks that the optimized run knows of are those that the full one has met since. -/
theorem Continued.forkBefore (hcontinued : Continued services node call)
    (hlatest : LatestKey services call.chainProof call.startFromPosition position header) :
    ((fullState services node call checkpoints position position).forkBefore ||
        isHardForkBlock (some header)) =
      (forkBeforeStart services node call checkpoints position ||
        ((call.optimizedState services position).forkBefore || isHardForkBlock (some header))) := by
  obtain ⟨bytes, hbytes, hheader⟩ := hlatest.here
  have hlength := hcontinued.lt_length
  have hstart := hcontinued.start
  cases position with
  | zero =>
      -- The header before the common point is the genesis block or a data block.
      have hparent : isHardForkBlock (call.optimizedState services 0).previousHeader = true →
          isHardForkBlock (some header) = true := by
        show isHardForkBlock (call.chainProof[call.startFromPosition - 1]?.bind services.instantiate) =
          true → _
        rcases Nat.eq_or_lt_of_le hstart with hone | htwo
        · rw [← hone, Nat.sub_self, hbytes, Option.bind_some, hheader]
          exact id
        · obtain ⟨last, lastHeader, hlast, hlastHeader, hdata⟩ :=
            hlatest.later (call.startFromPosition - 1) (by omega) (by omega)
          rw [hlast, Option.bind_some, hlastHeader]
          intro hfork
          simp [isHardForkBlock, hdata] at hfork
      have hfull : (fullState services node call checkpoints 0 0).forkBefore = false := rfl
      have hnone : forkBeforeStart services node call checkpoints 0 = false := rfl
      have hlater : (call.optimizedState services 0).forkBefore =
          isHardForkBlock (call.optimizedState services 0).previousHeader := Bool.false_or _
      rw [hfull, hnone, hlater, Bool.false_or, Bool.false_or]
      cases hfork : isHardForkBlock (call.optimizedState services 0).previousHeader with
      | false => rw [Bool.false_or]
      | true => rw [hparent hfork, Bool.or_self]
  | succ n =>
      have hn : n < call.chainProof.length := by
        have := (List.getElem?_eq_some_iff.mp hbytes).1
        omega
      have hbefore : call.chainProof[n]? = some call.chainProof[n] := List.getElem?_eq_getElem hn
      have hupTo := hlatest.upTo
      obtain ⟨parent, hparent⟩ := Option.isSome_iff_exists.mp (hcontinued.decodes _
        (List.mem_take_iff_getElem.mpr ⟨n, by omega, rfl⟩))
      have hfull : (fullState services node call checkpoints (n + 1) (n + 1)).previousHeader =
          some parent := by
        rw [fullState_succ hbefore]
        exact next_previousHeader hparent
      have hlater : (call.optimizedState services (n + 1)).previousHeader = some parent := by
        show call.chainProof[n]?.bind services.instantiate = _
        rw [hbefore]
        exact hparent
      unfold ScanState.forkBefore forkBeforeStart
      rw [hfull, hlater, Bool.or_assoc]
      rfl

/-- After its first key block the optimized run has the variables of the full one, but for the two flags
of what came before. -/
theorem Continued.alike (hcontinued : Continued services node call)
    (hlatest : LatestKey services call.chainProof call.startFromPosition position header) :
    (fullState services node call checkpoints position (position + 1)).Alike
      (forkBeforeStart services node call checkpoints position)
      (laterState services node call checkpoints position) := by
  obtain ⟨bytes, hbytes, hheader⟩ := hlatest.here
  have hhere : (laterContext services node call checkpoints position).services.instantiate
      (bytes, position).1 = some header := hheader
  have hgenesis : (laterContext services node call checkpoints position).fromGenesis.services.instantiate
      (bytes, position).1 = some header := hheader
  have hwork : (fullState services node call checkpoints position (position + 1)).work =
      (laterState services node call checkpoints position).work := by
    rw [fullState_work, laterState_work hbytes hheader hlatest.isKey]
  have hdiff : (fullState services node call checkpoints position (position + 1)).cumulativeDiff =
      (laterState services node call checkpoints position).cumulativeDiff := congrArg Prod.fst hwork
  have hPoWs : (fullState services node call checkpoints position (position + 1)).PoWs =
      (laterState services node call checkpoints position).PoWs := congrArg Prod.snd hwork
  constructor
  · have hsame := next_of_key (laterContext services node call checkpoints position).fromGenesis
      (laterContext services node call checkpoints position)
      (fullState services node call checkpoints position position) (call.optimizedState services position)
      rfl hgenesis hlatest.isKey
    rw [← fullState_succ hbytes, ← laterState_eq hbytes, hdiff, hPoWs] at hsame
    exact hsame
  · rw [fullState_succ hbytes, laterState_eq hbytes, next_forkBefore hgenesis, next_forkBefore hhere]
    exact hcontinued.forkBefore hlatest

variable (services node call checkpoints position) in
/-- The headers after the start pass the full run where they pass the shared checks and need no lock. -/
theorem ProofRule.passes_full_iff (rule : ProofRule Trie) {earlier : Bool} {full later : ScanState Trie}
    (halike : full.Alike earlier later) :
    Scan.Passes (rule.header (laterContext services node call checkpoints position).fromGenesis)
        (Sequential.next (laterContext services node call checkpoints position).fromGenesis) full
        (call.elementsFrom (position + 1)) ↔
      Scan.Passes (rule.header (laterContext services node call checkpoints position))
        (Sequential.next (laterContext services node call checkpoints position))
        (later.remembering earlier) (call.elementsFrom (position + 1)) ∧
      Scan.Passes
        (fun st element =>
          rule.excusedByLock (laterContext services node call checkpoints position) st element = false)
        (Sequential.next (laterContext services node call checkpoints position))
        (later.remembering earlier) (call.elementsFrom (position + 1)) := by
  have hlater : ∀ element ∈ call.elementsFrom (position + 1), element.2 ≠ position := by
    intro element hmem
    have := (Parallel.mem_drop_zipIdx.mp hmem).1
    omega
  rw [← Scan.passes_and]
  apply Scan.passes_rel (ScanState.Alike false) (call.elementsFrom (position + 1))
  · intro element hmem st st' hst
    exact hst.next (hlater element hmem)
  · intro element _ st st' hst
    obtain ⟨hheader, hlock⟩ :=
      rule.alike (laterContext services node call checkpoints position) st st' element hst
    rw [rule.fromGenesis, hheader, hlock]
  · exact halike.remembered

variable (services node call checkpoints position) in
/-- The headers after the start pass the optimized run where they pass the shared checks and need no hard
fork block from before. -/
theorem ProofRule.passes_later_iff (rule : ProofRule Trie) (earlier : Bool) (later : ScanState Trie)
    (elements : List (Bytes × ℕ)) :
    Scan.Passes (rule.header (laterContext services node call checkpoints position))
        (Sequential.next (laterContext services node call checkpoints position)) later elements ↔
      Scan.Passes (rule.header (laterContext services node call checkpoints position))
        (Sequential.next (laterContext services node call checkpoints position))
        (later.remembering earlier) elements ∧
      Scan.Passes
        (fun st element =>
          rule.excusedBeforeStart (laterContext services node call checkpoints position) st earlier
            element = false)
        (Sequential.next (laterContext services node call checkpoints position)) later elements := by
  have hshared : Scan.Passes
      (fun st element =>
        rule.header (laterContext services node call checkpoints position) (st.remembering earlier) element)
      (Sequential.next (laterContext services node call checkpoints position)) later elements ↔
      Scan.Passes (rule.header (laterContext services node call checkpoints position))
        (Sequential.next (laterContext services node call checkpoints position))
        (later.remembering earlier) elements := by
    apply Scan.passes_rel (fun (st st' : ScanState Trie) => st' = st.remembering earlier) elements
    · rintro element _ st st' rfl
      exact next_remembering earlier
    · rintro element _ st st' rfl
      exact Iff.rfl
    · rfl
  rw [Scan.passes_congr (fun st element =>
    rule.remembering (laterContext services node call checkpoints position) st earlier element),
    Scan.passes_and, hshared]

theorem activateCheckpoints_fromGenesis :
    activateCheckpoints services node call.fromGenesis = activateCheckpoints services node call :=
  activateCheckpoints_congr rfl rfl

/-- Where the full run begins. -/
theorem Continued.ready_full (hcontinued : Continued services node call)
    (hactivated : activateCheckpoints services node call = .ok checkpoints) :
    Ready services node call.fromGenesis { optimizing := false, startFromPosition := 0 } checkpoints 0
      call.genesisState := by
  obtain ⟨bytes, header, hbytes, hheader, hkey, hlength⟩ := hcontinued.genesis
  have hlatest : LatestKey services call.fromGenesis.chainProof 0 0 header := by
    refine ⟨le_rfl, ⟨bytes, hbytes, hheader⟩, hkey, ?_⟩
    intro i hi hi'
    omega
  refine ⟨rfl, activateCheckpoints_fromGenesis.trans hactivated, ?_, rfl⟩
  exact hlatest.findStart.trans (if_neg (not_not.mpr hlength))

variable (services node call checkpoints position) in
/-- The two runs end alike. -/
theorem ScanState.Alike.foldl {earlier : Bool} {full later : ScanState Trie}
    (halike : full.Alike earlier later) :
    ((call.elementsFrom (position + 1)).foldl
        (Sequential.next (laterContext services node call checkpoints position).fromGenesis) full).Alike
      earlier
      ((call.elementsFrom (position + 1)).foldl
        (Sequential.next (laterContext services node call checkpoints position)) later) := by
  apply Scan.foldl_rel (ScanState.Alike earlier) (call.elementsFrom (position + 1))
  · intro element hmem st st' hst
    have hlater : element.2 ≠ position := by
      have := (Parallel.mem_drop_zipIdx.mp hmem).1
      omega
    exact hst.next hlater
  · exact halike

/-- What the full run accepts. -/
theorem Continued.full_accepts_iff (hcontinued : Continued services node call)
    (hactivated : activateCheckpoints services node call = .ok checkpoints)
    (hlatest : LatestKey services call.chainProof call.startFromPosition position header)
    (rule : ProofRule Trie) (verdict : ProofVerdict Trie) :
    rule.Accepts services node call.fromGenesis verdict ↔
      rule.PassesRest services node call checkpoints position ∧
        rule.PassesFull services node call checkpoints position ∧
        verdict = call.fromGenesis.accepted ((call.elementsFrom (position + 1)).foldl
          (Sequential.next (laterContext services node call checkpoints position).fromGenesis)
          (fullState services node call checkpoints position (position + 1))) := by
  have hready := hcontinued.ready_full hactivated
  have halike : (fullState services node call checkpoints position (position + 1)).Alike
    (forkBeforeStart services node call checkpoints position)
    (laterState services node call checkpoints position) := hcontinued.alike hlatest
  have hrest := ProofRule.passes_full_iff services node call checkpoints position rule halike
  have hend := ScanState.Alike.foldl services node call checkpoints position halike
  have hleader : ((call.elementsFrom (position + 1)).foldl
        (Sequential.next (laterContext services node call checkpoints position).fromGenesis)
        (fullState services node call checkpoints position (position + 1))).leaderPubKey =
      ((call.elementsFrom (position + 1)).foldl
        (Sequential.next (laterContext services node call checkpoints position))
        (sharedState services node call checkpoints position)).leaderPubKey := by
    unfold sharedState
    rw [foldl_remembering, hend.same]
    rfl
  have helements : call.fromGenesis.elementsFrom 0 =
      call.chainProof.zipIdx.take (position + 1) ++ call.elementsFrom (position + 1) :=
    (List.take_append_drop _ _).symm
  have hsplit : Scan.Passes (rule.header (laterContext services node call checkpoints position).fromGenesis)
        (Sequential.next (laterContext services node call checkpoints position).fromGenesis)
        call.genesisState (call.fromGenesis.elementsFrom 0) ↔
      Scan.Passes (rule.header (laterContext services node call checkpoints position).fromGenesis)
        (Sequential.next (laterContext services node call checkpoints position).fromGenesis)
        call.genesisState (call.chainProof.zipIdx.take (position + 1)) ∧
      Scan.Passes (rule.header (laterContext services node call checkpoints position).fromGenesis)
        (Sequential.next (laterContext services node call checkpoints position).fromGenesis)
        (fullState services node call checkpoints position (position + 1))
        (call.elementsFrom (position + 1)) := by
    rw [helements]
    exact Scan.passes_append _ _ _
  have hfold : (call.fromGenesis.elementsFrom 0).foldl
        (Sequential.next (laterContext services node call checkpoints position).fromGenesis)
        call.genesisState =
      (call.elementsFrom (position + 1)).foldl
        (Sequential.next (laterContext services node call checkpoints position).fromGenesis)
        (fullState services node call checkpoints position (position + 1)) := by
    rw [helements, List.foldl_append]
    rfl
  constructor
  · rintro ⟨start, checkpoints', position', st, hready', -, hpasses, hlength, hwhole, hverdict⟩
    obtain ⟨rfl, rfl, rfl, rfl⟩ := hready.unique hready'
    obtain ⟨hfront, hpasses⟩ := hsplit.mp hpasses
    obtain ⟨hshared, hunlocked⟩ := hrest.mp hpasses
    have hlength' := (congrArg (fun st : ScanState Trie => st.leaderPubKey.length) hfold).symm.trans hlength
    exact ⟨⟨hshared, (congrArg List.length hleader).symm.trans hlength'⟩, ⟨hwhole, hfront, hunlocked⟩,
      hverdict.trans (congrArg call.fromGenesis.accepted hfold)⟩
  · rintro ⟨⟨hshared, hlength⟩, ⟨hwhole, hfront, hunlocked⟩, hverdict⟩
    have hlength' := (congrArg List.length hleader).trans hlength
    refine ⟨_, checkpoints, 0, call.genesisState, hready, ?_, ?_, ?_, hwhole, ?_⟩
    · intro hone
      exact absurd hone (by omega)
    · exact hsplit.mpr ⟨hfront, hrest.mpr ⟨hshared, hunlocked⟩⟩
    · exact (congrArg (fun st : ScanState Trie => st.leaderPubKey.length) hfold).trans hlength'
    · exact hverdict.trans (congrArg call.fromGenesis.accepted hfold.symm)

/-- What the optimized run accepts. -/
theorem Continued.later_accepts_iff (hcontinued : Continued services node call)
    (hactivated : activateCheckpoints services node call = .ok checkpoints)
    (hlatest : LatestKey services call.chainProof call.startFromPosition position header)
    (rule : ProofRule Trie) (verdict : ProofVerdict Trie) :
    rule.Accepts services node call verdict ↔
      rule.PassesRest services node call checkpoints position ∧
        rule.PassesLater services node call checkpoints position header ∧
        verdict = call.accepted ((call.elementsFrom (position + 1)).foldl
          (Sequential.next (laterContext services node call checkpoints position))
          (laterState services node call checkpoints position)) := by
  obtain ⟨bytes, hbytes, hheader⟩ := hlatest.here
  have hrest := ProofRule.passes_later_iff services node call checkpoints position rule
    (forkBeforeStart services node call checkpoints position)
    (laterState services node call checkpoints position) (call.elementsFrom (position + 1))
  have helements : call.elementsFrom position =
      (call.elementsFrom position).take 1 ++ call.elementsFrom (position + 1) := by
    rw [ProofArguments.elementsFrom_eq_cons hbytes]
    rfl
  have hsplit : Scan.Passes (rule.header (laterContext services node call checkpoints position))
        (Sequential.next (laterContext services node call checkpoints position))
        (call.optimizedState services position) (call.elementsFrom position) ↔
      Scan.Passes (rule.header (laterContext services node call checkpoints position))
        (Sequential.next (laterContext services node call checkpoints position))
        (call.optimizedState services position) ((call.elementsFrom position).take 1) ∧
      Scan.Passes (rule.header (laterContext services node call checkpoints position))
        (Sequential.next (laterContext services node call checkpoints position))
        (laterState services node call checkpoints position) (call.elementsFrom (position + 1)) := by
    conv_lhs => rw [helements]
    exact Scan.passes_append _ _ _
  have hfold : (call.elementsFrom position).foldl
        (Sequential.next (laterContext services node call checkpoints position))
        (call.optimizedState services position) =
      (call.elementsFrom (position + 1)).foldl
        (Sequential.next (laterContext services node call checkpoints position))
        (laterState services node call checkpoints position) := by
    conv_lhs => rw [helements]
    rw [List.foldl_append]
    rfl
  have hleader : ((call.elementsFrom (position + 1)).foldl
        (Sequential.next (laterContext services node call checkpoints position))
        (laterState services node call checkpoints position)).leaderPubKey =
      ((call.elementsFrom (position + 1)).foldl
        (Sequential.next (laterContext services node call checkpoints position))
        (sharedState services node call checkpoints position)).leaderPubKey := by
    unfold sharedState
    rw [foldl_remembering]
    rfl
  constructor
  · rintro ⟨start, checkpoints', position', st, hready', -, hpasses, hlength, hwhole, hverdict⟩
    obtain ⟨parent, cumulativeDiff, -, hprepared⟩ := hcontinued.prepared
    cases hprepared.symm.trans hready'.prepared
    cases hactivated.symm.trans hready'.activated
    have hfound := hlatest.findStart.symm.trans hready'.found
    split at hfound
    next => cases hfound
    next hpubKey =>
        cases hfound
        cases (hcontinued.initial hlatest.upTo hprepared).symm.trans hready'.initial
        obtain ⟨hfirst, hpasses⟩ := hsplit.mp hpasses
        obtain ⟨hshared, hunexcused⟩ := hrest.mp hpasses
        have hlength' :=
          (congrArg (fun st : ScanState Trie => st.leaderPubKey.length) hfold).symm.trans hlength
        exact ⟨⟨hshared, (congrArg List.length hleader).symm.trans hlength'⟩,
          ⟨hwhole, not_not.mp hpubKey, hfirst, hunexcused⟩,
          hverdict.trans (congrArg call.accepted hfold)⟩
  · rintro ⟨⟨hshared, hlength⟩, ⟨hwhole, hpubKey, hfirst, hunexcused⟩, hverdict⟩
    obtain ⟨parent, cumulativeDiff, -, hprepared⟩ := hcontinued.prepared
    have hlength' := (congrArg List.length hleader).trans hlength
    have hlong := hcontinued.lt_length
    have hupTo := hlatest.upTo
    refine ⟨_, checkpoints, position, call.optimizedState services position,
      ⟨hprepared, hactivated, hlatest.findStart.trans (if_neg (not_not.mpr hpubKey)),
        hcontinued.initial hlatest.upTo hprepared⟩, ?_, ?_, ?_, hwhole, ?_⟩
    · intro hone
      exact ⟨_, List.getElem?_eq_getElem (by omega),
        hcontinued.decodes _ (List.mem_take_iff_getElem.mpr ⟨position - 1, by omega, rfl⟩)⟩
    · exact hsplit.mpr ⟨hfirst, hrest.mpr ⟨hshared, hunexcused⟩⟩
    · exact (congrArg (fun st : ScanState Trie => st.leaderPubKey.length) hfold).trans hlength'
    · exact hverdict.trans (congrArg call.accepted hfold.symm)

/-- Headers that pass decode. -/
theorem ProofRule.passes_decodes (rule : ProofRule Trie) {ctx : ScanContext Trie} {st : ScanState Trie} {n : ℕ}
    (hpasses : Scan.Passes (rule.header ctx) (Sequential.next ctx) st (call.elementsFrom n)) :
    ∀ bytes ∈ call.chainProof.drop n, (ctx.services.instantiate bytes).isSome = true := by
  intro bytes hbytes
  have helements : (call.elementsFrom n).map Prod.fst = call.chainProof.drop n := by
    unfold ProofArguments.elementsFrom
    rw [List.map_drop, List.zipIdx_map_fst]
  rw [← helements] at hbytes
  obtain ⟨element, hmem, rfl⟩ := List.mem_map.mp hbytes
  obtain ⟨k, hk, rfl⟩ := List.mem_iff_getElem.mp hmem
  exact rule.decodes _ _ _ ((Scan.passes_iff_getElem _ _).mp hpasses k hk)

/-- The optimized run ends with the work of the whole chain-proof, one entry for each header. -/
theorem Continued.final_work (hcontinued : Continued services node call)
    (hlatest : LatestKey services call.chainProof call.startFromPosition position header)
    {rule : ProofRule Trie} (hrest : rule.PassesRest services node call checkpoints position) :
    ((call.elementsFrom (position + 1)).foldl
        (Sequential.next (laterContext services node call checkpoints position).fromGenesis)
        (fullState services node call checkpoints position (position + 1))).work =
      workOf services call.chainProof ∧
    ((call.elementsFrom (position + 1)).foldl
        (Sequential.next (laterContext services node call checkpoints position))
        (laterState services node call checkpoints position)).work = workOf services call.chainProof ∧
    (workOf services call.chainProof).2.length = call.chainProof.length := by
  have halike : (fullState services node call checkpoints position (position + 1)).Alike
    (forkBeforeStart services node call checkpoints position)
    (laterState services node call checkpoints position) := hcontinued.alike hlatest
  have hend := ScanState.Alike.foldl services node call checkpoints position halike
  have hfull : ((call.elementsFrom (position + 1)).foldl
        (Sequential.next (laterContext services node call checkpoints position).fromGenesis)
        (fullState services node call checkpoints position (position + 1))).work =
      workOf services call.chainProof := by
    have hnever : (laterContext services node call checkpoints position).fromGenesis.optimizing = false :=
      rfl
    have hwork := foldl_next_work call.genesisState call.chainProof.zipIdx fun _ _ => .inl hnever
    rw [List.zipIdx_map_fst, ← List.take_append_drop (position + 1) call.chainProof.zipIdx,
      List.foldl_append] at hwork
    exact hwork
  refine ⟨hfull, hend.work.symm.trans hfull, workOf_length ?_⟩
  intro bytes hbytes
  rw [← List.take_append_drop (position + 1) call.chainProof, List.mem_append] at hbytes
  rcases hbytes with hfront | hlast
  · exact hcontinued.decodes bytes
      (List.take_subset_take_left _ (Nat.succ_le_succ hlatest.upTo) hfront)
  · exact rule.passes_decodes hrest.headers bytes hlast

/-! ### Verdicts -/

/-- A rule accepts with a cumulative difficulty and a list of cumulative work. -/
def ProofRule.AcceptsWith (rule : ProofRule Trie) (services : HeaderServices Trie) (node : ProofNode)
    (call : ProofArguments Trie) (cumulativeDiff : ℕ) (PoWs : List ℕ) : Prop :=
  ∃ verdict, rule.Accepts services node call verdict ∧ verdict.cumulativeDiff = cumulativeDiff ∧
    verdict.PoWs = PoWs

theorem Continued.full_acceptsWith_iff (hcontinued : Continued services node call)
    (hactivated : activateCheckpoints services node call = .ok checkpoints)
    (hlatest : LatestKey services call.chainProof call.startFromPosition position header)
    (rule : ProofRule Trie) (cumulativeDiff : ℕ) (PoWs : List ℕ) :
    rule.AcceptsWith services node call.fromGenesis cumulativeDiff PoWs ↔
      rule.PassesRest services node call checkpoints position ∧
        rule.PassesFull services node call checkpoints position ∧
        workOf services call.chainProof = (cumulativeDiff, PoWs) := by
  unfold ProofRule.AcceptsWith
  constructor
  · rintro ⟨verdict, haccepts, rfl, rfl⟩
    obtain ⟨hrest, hfull, rfl⟩ := (hcontinued.full_accepts_iff hactivated hlatest rule verdict).mp haccepts
    exact ⟨hrest, hfull, (hcontinued.final_work hlatest hrest).1.symm⟩
  · rintro ⟨hrest, hfull, hwork⟩
    have hend := (hcontinued.final_work hlatest hrest).1.trans hwork
    exact ⟨_, (hcontinued.full_accepts_iff hactivated hlatest rule _).mpr ⟨hrest, hfull, rfl⟩,
      congrArg Prod.fst hend, congrArg Prod.snd hend⟩

theorem Continued.later_acceptsWith_iff (hcontinued : Continued services node call)
    (hactivated : activateCheckpoints services node call = .ok checkpoints)
    (hlatest : LatestKey services call.chainProof call.startFromPosition position header)
    (rule : ProofRule Trie) (cumulativeDiff : ℕ) (PoWs : List ℕ) :
    rule.AcceptsWith services node call cumulativeDiff PoWs ↔
      rule.PassesRest services node call checkpoints position ∧
        rule.PassesLater services node call checkpoints position header ∧
        workOf services call.chainProof = (cumulativeDiff, PoWs) := by
  unfold ProofRule.AcceptsWith
  constructor
  · rintro ⟨verdict, haccepts, rfl, rfl⟩
    obtain ⟨hrest, hlater, rfl⟩ :=
      (hcontinued.later_accepts_iff hactivated hlatest rule verdict).mp haccepts
    exact ⟨hrest, hlater, (hcontinued.final_work hlatest hrest).2.1.symm⟩
  · rintro ⟨hrest, hlater, hwork⟩
    have hend := (hcontinued.final_work hlatest hrest).2.1.trans hwork
    exact ⟨_, (hcontinued.later_accepts_iff hactivated hlatest rule _).mpr ⟨hrest, hlater, rfl⟩,
      congrArg Prod.fst hend, congrArg Prod.snd hend⟩

/-- Some key block lies at the common point or before it. -/
theorem Continued.exists_latestKey (hcontinued : Continued services node call) :
    ∃ position header, LatestKey services call.chainProof call.startFromPosition position header := by
  obtain ⟨bytes, header, hbytes, hheader, hkey, -⟩ := hcontinued.genesis
  exact Gridnet.exists_latestKey hbytes hheader hkey hcontinued.lt_length hcontinued.decodes

/-- Two runs accept with the same work, one entry of its list for each of so many headers. -/
def SameWork (later full : (cumulativeDiff : ℕ) → (PoWs : List ℕ) → Prop) (length : ℕ) : Prop :=
  ∀ cumulativeDiff PoWs, (later cumulativeDiff PoWs ↔ full cumulativeDiff PoWs) ∧
    (later cumulativeDiff PoWs → PoWs.length = length)

/-- The runs of a rule agree exactly where the headers after the first key block fail, or pass what each
run asks on its own in both or in none. -/
theorem Continued.sameWork_iff (hcontinued : Continued services node call)
    (rule : ProofRule Trie) :
    SameWork (rule.AcceptsWith services node call) (rule.AcceptsWith services node call.fromGenesis)
        call.chainProof.length ↔
      ∀ checkpoints position header, activateCheckpoints services node call = .ok checkpoints →
        LatestKey services call.chainProof call.startFromPosition position header →
        rule.PassesRest services node call checkpoints position →
        (rule.PassesFull services node call checkpoints position ↔
          rule.PassesLater services node call checkpoints position header) := by
  constructor
  · intro hsame checkpoints position header hactivated hlatest hrest
    obtain ⟨hiff, -⟩ := hsame (workOf services call.chainProof).1 (workOf services call.chainProof).2
    rw [hcontinued.later_acceptsWith_iff hactivated hlatest,
      hcontinued.full_acceptsWith_iff hactivated hlatest] at hiff
    constructor
    · intro hfull
      exact (hiff.mpr ⟨hrest, hfull, rfl⟩).2.1
    · intro hlater
      exact (hiff.mp ⟨hrest, hlater, rfl⟩).2.1
  · intro hmatch cumulativeDiff PoWs
    obtain ⟨position, header, hlatest⟩ := hcontinued.exists_latestKey
    cases hactivated : activateCheckpoints services node call with
    | error reason =>
        have hlater : ¬ rule.AcceptsWith services node call cumulativeDiff PoWs := by
          rintro ⟨verdict, ⟨start, checkpoints, position, st, hready, -⟩, -, -⟩
          cases hactivated.symm.trans hready.activated
        have hfull : ¬ rule.AcceptsWith services node call.fromGenesis cumulativeDiff PoWs := by
          rintro ⟨verdict, ⟨start, checkpoints, position, st, hready, -⟩, -, -⟩
          cases (activateCheckpoints_fromGenesis.trans hactivated).symm.trans hready.activated
        exact ⟨iff_of_false hlater hfull, fun haccepts => absurd haccepts hlater⟩
    | ok checkpoints =>
        rw [hcontinued.later_acceptsWith_iff hactivated hlatest,
          hcontinued.full_acceptsWith_iff hactivated hlatest]
        constructor
        · apply and_congr_right
          intro hrest
          rw [hmatch checkpoints position header hactivated hlatest hrest]
        · rintro ⟨hrest, -, hwork⟩
          obtain ⟨-, -, hlength⟩ := hcontinued.final_work hlatest hrest
          rw [hwork] at hlength
          exact hlength

end Agreement

/-- The sequential verifier accepts with a cumulative difficulty and a list of cumulative work. -/
def Sequential.AcceptsWith (services : HeaderServices Trie) (node : ProofNode) (call : ProofArguments Trie)
    (cumulativeDiff : ℕ) (PoWs : List ℕ) : Prop :=
  ∃ verdict, Sequential.verifyChainProof services node call = .ok verdict ∧ verdict.result = .valid ∧
    verdict.cumulativeDiff = cumulativeDiff ∧ verdict.PoWs = PoWs

/-- So does the multi-threaded one. -/
def Parallel.AcceptsWith (numThreads : ℕ) (services : HeaderServices Trie) (node : ProofNode)
    (call : ProofArguments Trie) (cumulativeDiff : ℕ) (PoWs : List ℕ) : Prop :=
  ∃ verdict fuel, Parallel.verifyChainProofMT services node call numThreads fuel = some (.ok verdict) ∧
    verdict.result = .valid ∧ verdict.cumulativeDiff = cumulativeDiff ∧ verdict.PoWs = PoWs

/-- Verification from the common point equals verification from the genesis block, for both verifiers. -/
def IncrementalAgrees (services : HeaderServices Trie) (node : ProofNode) (call : ProofArguments Trie)
    (numThreads : ℕ) : Prop :=
  SameWork (Sequential.AcceptsWith services node call)
      (Sequential.AcceptsWith services node call.fromGenesis) call.chainProof.length ∧
    SameWork (Parallel.AcceptsWith numThreads services node call)
      (Parallel.AcceptsWith numThreads services node call.fromGenesis) call.chainProof.length

section Verdicts

variable {services : HeaderServices Trie} {node : ProofNode} {call : ProofArguments Trie}

theorem sequential_acceptsWith_eq (hsize : call.chainProof.length < 2 ^ 63) :
    Sequential.AcceptsWith services node call = sequentialRule.AcceptsWith services node call := by
  funext cumulativeDiff PoWs
  apply propext
  unfold Sequential.AcceptsWith ProofRule.AcceptsWith
  constructor
  · rintro ⟨verdict, hrun, hvalid, hwork⟩
    exact ⟨verdict, (sequentialRule_accepts_iff hsize hvalid).mp hrun, hwork⟩
  · rintro ⟨verdict, haccepts, hwork⟩
    have hvalid : verdict.result = .valid := by
      obtain ⟨_, _, _, _, -, -, -, -, -, rfl⟩ := haccepts
      rfl
    exact ⟨verdict, (sequentialRule_accepts_iff hsize hvalid).mpr haccepts, hvalid, hwork⟩

theorem parallel_acceptsWith_eq {numThreads : ℕ} (hthreads : 1 ≤ numThreads) :
    Parallel.AcceptsWith numThreads services node call =
      (parallelRule numThreads).AcceptsWith services node call := by
  funext cumulativeDiff PoWs
  apply propext
  unfold Parallel.AcceptsWith ProofRule.AcceptsWith
  constructor
  · rintro ⟨verdict, fuel, hrun, hvalid, hwork⟩
    exact ⟨verdict, (parallelRule_accepts_iff hthreads hvalid).mp ⟨fuel, hrun⟩, hwork⟩
  · rintro ⟨verdict, haccepts, hwork⟩
    have hvalid : verdict.result = .valid := by
      obtain ⟨_, _, _, _, -, -, -, -, -, rfl⟩ := haccepts
      rfl
    obtain ⟨fuel, hrun⟩ := (parallelRule_accepts_iff hthreads hvalid).mpr haccepts
    exact ⟨verdict, fuel, hrun, hvalid, hwork⟩

end Verdicts

/-- The optimized run equals the full one exactly where, for both verifiers, a chain-proof whose later
headers pass meets what only the full run asks and what only the optimized run asks in both or in none. -/
theorem incremental_agrees_iff {services : HeaderServices Trie} {node : ProofNode}
    {call : ProofArguments Trie} {heaviest : List Bytes}
    (hincremental : Incremental services node call heaviest) (hsize : call.chainProof.length < 2 ^ 63)
    {numThreads : ℕ} (hthreads : 1 ≤ numThreads) :
    IncrementalAgrees services node call numThreads ↔
      ∀ rule ∈ [sequentialRule, parallelRule numThreads], ∀ checkpoints position header,
        activateCheckpoints services node call = .ok checkpoints →
        LatestKey services call.chainProof call.startFromPosition position header →
        ProofRule.PassesRest services node call checkpoints position rule →
        (ProofRule.PassesFull services node call checkpoints position rule ↔
          ProofRule.PassesLater services node call checkpoints position rule header) := by
  have hgenesis : Sequential.AcceptsWith services node call.fromGenesis =
      sequentialRule.AcceptsWith services node call.fromGenesis := sequential_acceptsWith_eq hsize
  unfold IncrementalAgrees
  rw [sequential_acceptsWith_eq hsize, hgenesis,
    parallel_acceptsWith_eq hthreads, parallel_acceptsWith_eq hthreads,
    hincremental.continued.sameWork_iff, hincremental.continued.sameWork_iff]
  simp only [List.forall_mem_cons, List.not_mem_nil, false_imp_iff, implies_true, and_true]

/-! ### A genesis block and two data blocks -/

/-- The node whose heaviest chain-proof these are. -/
def epochNode : ProofNode :=
  { freshNode with
    mHeaviestChainProofCumulativePoWs := [1, 1, 1]
    mHeaviestPath := [0, 1, 2].map fun height => List.replicate 31 (0 : UInt8) ++ [height] }

/-- The same chain-proof again, from its last header. -/
def epochCall : ProofArguments Unit where
  chainProof := [[0], [1], [2]]
  startFromPosition := 2
  optimize := true

theorem epoch_verified (dataTime : ℕ) : VerifiedFromZero (epochServices dataTime) [[0], [1], [2]] [1, 1, 1] :=
  ⟨freshNode, { chainProof := [[0], [1], [2]] }, _, rfl, rfl, by decide, rfl, rfl, .inl rfl⟩

theorem epoch_incremental (dataTime : ℕ) :
    Incremental (epochServices dataTime) epochNode epochCall [[0], [1], [2]] where
  verified := epoch_verified dataTime
  path := rfl
  optimize := rfl
  start := by decide
  reaches := by decide
  agrees := rfl

/-- Data blocks as old as the genesis block pass both runs. -/
theorem epoch_agrees : IncrementalAgrees (epochServices 100) epochNode epochCall 4 := by
  apply (incremental_agrees_iff (epoch_incremental 100) (by decide) (by decide)).mpr
  intro rule hrule checkpoints position header hactivated hlatest _
  cases hactivated
  have hgenesis : LatestKey (epochServices 100) epochCall.chainProof epochCall.startFromPosition 0
      (epochHeader 100 0) := by
    refine ⟨by decide, ⟨_, rfl, rfl⟩, rfl, ?_⟩
    intro i hi hi'
    have hcases : i = 1 ∨ i = 2 := by
      have : i ≤ 2 := hi'
      omega
    rcases hcases with rfl | rfl
    · exact ⟨_, _, rfl, rfl, rfl⟩
    · exact ⟨_, _, rfl, rfl, rfl⟩
  obtain ⟨rfl, rfl⟩ := hgenesis.unique hlatest
  simp only [List.mem_cons, List.not_mem_nil, or_false] at hrule
  rcases hrule with rfl | rfl
  · apply iff_of_true
    · exact ⟨rfl, ⟨⟨⟨⟨_, rfl, by decide⟩, ⟨_, rfl, rfl⟩⟩, rfl, rfl⟩, trivial⟩, ⟨rfl, rfl, trivial⟩⟩
    · exact ⟨rfl, rfl, ⟨⟨⟨⟨_, rfl, by decide⟩, ⟨_, rfl, rfl⟩⟩, rfl, rfl⟩, trivial⟩, ⟨rfl, rfl, trivial⟩⟩
  · apply iff_of_true
    · exact ⟨⟨rfl, .inl (.inl rfl)⟩,
        ⟨⟨⟨_, rfl, by decide⟩, ⟨_, rfl, rfl⟩⟩, trivial⟩, ⟨rfl, rfl, trivial⟩⟩
    · exact ⟨⟨rfl, .inl (.inl rfl)⟩, rfl,
        ⟨⟨⟨_, rfl, by decide⟩, ⟨_, rfl, rfl⟩⟩, trivial⟩, ⟨rfl, rfl, trivial⟩⟩

/-- Data blocks without a time-stamp pass the full run, which does not look at it. The optimized run takes
the first of them for the parent of the genesis block. -/
theorem timeless_parent_refused :
    Incremental (epochServices 0) epochNode epochCall [[0], [1], [2]] ∧
      ¬ IncrementalAgrees (epochServices 0) epochNode epochCall 4 := by
  refine ⟨epoch_incremental 0, ?_⟩
  rintro ⟨hsequential, -⟩
  have hfull : Sequential.AcceptsWith (epochServices 0) epochNode epochCall.fromGenesis 1 [1, 1, 1] :=
    ⟨_, rfl, rfl, rfl, rfl⟩
  obtain ⟨verdict, hrun, hvalid, -⟩ := (hsequential 1 [1, 1, 1]).1.mpr hfull
  have hrefused : ∃ refused, Sequential.verifyChainProof (epochServices 0) epochNode epochCall =
      .ok refused ∧ refused.result = .blockTimeOutOfRange := ⟨_, rfl, rfl⟩
  obtain ⟨refused, hrun', hresult⟩ := hrefused
  cases hrun.symm.trans hrun'
  rw [hvalid] at hresult
  cases hresult

end Gridnet
