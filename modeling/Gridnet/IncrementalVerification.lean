import Gridnet.ProofRules

/-! Verification that begins at the common point with the heaviest chain: what the work list of the node is
worth, which key block the run begins at, and the variables that it rebuilds there. -/

namespace Gridnet

variable {Trie : Type}

/-! ### Cumulative work -/

section Work

variable (services : HeaderServices Trie)

/-- The cumulative difficulty and the list of cumulative work after one more header. -/
def addWork (work : ℕ × List ℕ) (bytes : Bytes) : ℕ × List ℕ :=
  match services.instantiate bytes with
  | none => work
  | some header =>
      let cumulativeDiff :=
        if header.isKeyBlock then (work.1 + services.getDifficulty header) % 2 ^ 64 else work.1
      (cumulativeDiff, work.2 ++ [cumulativeDiff])

/-- The cumulative difficulty and the list of cumulative work of a chain-proof. -/
def workOf (chainProof : List Bytes) : ℕ × List ℕ := chainProof.foldl (addWork services) (0, [])

def ScanState.work (st : ScanState Trie) : ℕ × List ℕ := (st.cumulativeDiff, st.PoWs)

variable {services}

theorem addWork_of_isSome {bytes : Bytes} (hdecodes : (services.instantiate bytes).isSome = true)
    (work : ℕ × List ℕ) :
    (addWork services work bytes).2 = work.2 ++ [(addWork services work bytes).1] := by
  obtain ⟨header, hheader⟩ := Option.isSome_iff_exists.mp hdecodes
  unfold addWork
  rw [hheader]

theorem foldl_addWork_length {chainProof : List Bytes}
    (hdecodes : ∀ bytes ∈ chainProof, (services.instantiate bytes).isSome = true) (work : ℕ × List ℕ) :
    (chainProof.foldl (addWork services) work).2.length = work.2.length + chainProof.length := by
  induction chainProof generalizing work with
  | nil => rfl
  | cons bytes rest ih =>
      rw [List.foldl_cons, ih fun b hb => hdecodes b (List.mem_cons_of_mem _ hb),
        addWork_of_isSome (hdecodes bytes List.mem_cons_self), List.length_append,
        List.length_singleton, List.length_cons]
      omega

theorem workOf_length {chainProof : List Bytes}
    (hdecodes : ∀ bytes ∈ chainProof, (services.instantiate bytes).isSome = true) :
    (workOf services chainProof).2.length = chainProof.length := by
  unfold workOf
  rw [foldl_addWork_length hdecodes, List.length_nil, Nat.zero_add]

/-- The list of cumulative work only grows. -/
theorem foldl_addWork_prefix (chainProof : List Bytes) (work : ℕ × List ℕ) :
    work.2 <+: (chainProof.foldl (addWork services) work).2 := by
  induction chainProof generalizing work with
  | nil => exact List.prefix_rfl
  | cons bytes rest ih =>
      rw [List.foldl_cons]
      apply List.IsPrefix.trans _ (ih _)
      unfold addWork
      cases services.instantiate bytes with
      | none => exact List.prefix_rfl
      | some header => exact List.prefix_append _ _

/-- The front of the list is the list of the front. -/
theorem workOf_take {chainProof : List Bytes}
    (hdecodes : ∀ bytes ∈ chainProof, (services.instantiate bytes).isSome = true) {n : ℕ}
    (hn : n ≤ chainProof.length) :
    (workOf services chainProof).2.take n = (workOf services (chainProof.take n)).2 := by
  have hfront : (workOf services (chainProof.take n)).2.length = n := by
    rw [workOf_length fun bytes hbytes => hdecodes bytes (List.mem_of_mem_take hbytes), List.length_take]
    omega
  have hprefix : (workOf services (chainProof.take n)).2 <+: (workOf services chainProof).2 := by
    conv_rhs => rw [← List.take_append_drop n chainProof]
    unfold workOf
    rw [List.foldl_append]
    exact foldl_addWork_prefix _ _
  have htake := List.prefix_iff_eq_take.mp hprefix
  rw [hfront] at htake
  exact htake.symm

/-- The last of the list is the cumulative difficulty. -/
theorem workOf_getElem {chainProof : List Bytes}
    (hdecodes : ∀ bytes ∈ chainProof, (services.instantiate bytes).isSome = true) {n : ℕ}
    (hn : n < chainProof.length) :
    (workOf services (chainProof.take (n + 1))).2[n]? = some (workOf services (chainProof.take (n + 1))).1 := by
  have hfront : ∀ bytes ∈ chainProof.take n, (services.instantiate bytes).isSome = true :=
    fun bytes hbytes => hdecodes bytes (List.mem_of_mem_take hbytes)
  have hlength : (workOf services (chainProof.take n)).2.length = n := by
    rw [workOf_length hfront, List.length_take]
    omega
  have hlast : workOf services (chainProof.take (n + 1)) =
      addWork services (workOf services (chainProof.take n)) chainProof[n] := by
    unfold workOf
    rw [← List.take_concat_get' chainProof n hn, List.foldl_append]
    rfl
  rw [hlast, addWork_of_isSome (hdecodes _ (List.getElem_mem hn)), List.getElem?_append_right hlength.le,
    hlength]
  simp

variable {ctx : ScanContext Trie}

/-- A turn adds the work of its header, but at the start of an optimized run. -/
theorem next_work (st : ScanState Trie) {element : Bytes × ℕ}
    (hadds : ctx.optimizing = false ∨ element.2 ≠ ctx.startFromPosition) :
    (Sequential.next ctx st element).work = addWork ctx.services st.work element.1 := by
  have hnot : (ctx.optimizing && element.2 == ctx.startFromPosition) = false := by
    rcases hadds with hfull | hne
    · rw [hfull, Bool.false_and]
    · simp [hne]
  unfold Sequential.next addWork
  cases ctx.services.instantiate element.1 with
  | none => rfl
  | some header =>
      unfold Sequential.advance
      dsimp only
      rw [hnot]
      cases header.isKeyBlock with
      | true => rfl
      | false => rfl

theorem foldl_next_work (st : ScanState Trie) (elements : List (Bytes × ℕ))
    (hadds : ∀ element ∈ elements, ctx.optimizing = false ∨ element.2 ≠ ctx.startFromPosition) :
    (elements.foldl (Sequential.next ctx) st).work =
      (elements.map Prod.fst).foldl (addWork ctx.services) st.work := by
  rw [List.foldl_map]
  apply Scan.foldl_rel (fun (st : ScanState Trie) work => st.work = work) elements
  · rintro element hmem st work rfl
    exact next_work st (hadds element hmem)
  · rfl

end Work

/-! ### The nearest key block -/

/-- The latest key block of a chain-proof up to a position. -/
structure LatestKey (services : HeaderServices Trie) (chainProof : List Bytes) (bound position : ℕ)
    (header : CBlockHeader Trie) : Prop where
  upTo : position ≤ bound
  here : ∃ bytes, chainProof[position]? = some bytes ∧ services.instantiate bytes = some header
  isKey : header.isKeyBlock = true
  later : ∀ i, position < i → i ≤ bound → ∃ bytes header, chainProof[i]? = some bytes ∧
    services.instantiate bytes = some header ∧ header.isKeyBlock = false

section Start

variable {services : HeaderServices Trie} {node : ProofNode} {call : ProofArguments Trie}
  {chainProof : List Bytes} {bound position : ℕ} {header : CBlockHeader Trie}

theorem LatestKey.unique {position' : ℕ} {header' : CBlockHeader Trie}
    (hlatest : LatestKey services chainProof bound position header)
    (hlatest' : LatestKey services chainProof bound position' header') :
    position = position' ∧ header = header' := by
  have hclash : ∀ {i j : ℕ} {h h' : CBlockHeader Trie}, LatestKey services chainProof bound i h →
      LatestKey services chainProof bound j h' → ¬ i < j := by
    intro i j h h' hi hj hlt
    obtain ⟨bytes, key, hbytes, hkey, hdata⟩ := hi.later j hlt hj.upTo
    obtain ⟨bytes', hbytes', hkey'⟩ := hj.here
    cases hbytes.symm.trans hbytes'
    cases hkey.symm.trans hkey'
    rw [hj.isKey] at hdata
    cases hdata
  have hpositions : position = position' :=
    Nat.le_antisymm (Nat.le_of_not_lt (hclash hlatest' hlatest))
      (Nat.le_of_not_lt (hclash hlatest hlatest'))
  subst hpositions
  obtain ⟨bytes, hbytes, hkey⟩ := hlatest.here
  obtain ⟨bytes', hbytes', hkey'⟩ := hlatest'.here
  cases hbytes.symm.trans hbytes'
  cases hkey.symm.trans hkey'
  exact ⟨rfl, rfl⟩

/-- Some block of a front that begins with a key block is its latest. -/
theorem exists_latestKey {genesis : Bytes} {genesisHeader : CBlockHeader Trie}
    (hgenesis : chainProof[0]? = some genesis)
    (hgenesisHeader : services.instantiate genesis = some genesisHeader)
    (hkey : genesisHeader.isKeyBlock = true) (hbound : bound < chainProof.length)
    (hdecodes : ∀ bytes ∈ chainProof.take (bound + 1), (services.instantiate bytes).isSome = true) :
    ∃ position header, LatestKey services chainProof bound position header := by
  induction bound with
  | zero =>
      refine ⟨0, genesisHeader, le_rfl, ⟨genesis, hgenesis, hgenesisHeader⟩, hkey, ?_⟩
      intro i hi hi'
      omega
  | succ bound ih =>
      have hmem : chainProof[bound + 1] ∈ chainProof.take (bound + 1 + 1) :=
        List.mem_take_iff_getElem.mpr ⟨bound + 1, by omega, rfl⟩
      obtain ⟨last, hlast⟩ := Option.isSome_iff_exists.mp (hdecodes _ hmem)
      cases hlastKey : last.isKeyBlock with
      | true =>
          refine ⟨bound + 1, last, le_rfl, ⟨_, List.getElem?_eq_getElem hbound, hlast⟩, hlastKey, ?_⟩
          intro i hi hi'
          omega
      | false =>
          obtain ⟨position, header, hlatest⟩ := ih (by omega) fun bytes hbytes =>
            hdecodes bytes (List.take_subset_take_left _ (Nat.le_succ _) hbytes)
          refine ⟨position, header, Nat.le_succ_of_le hlatest.upTo, hlatest.here, hlatest.isKey, ?_⟩
          intro i hi hi'
          rcases Nat.lt_or_eq_of_le hi' with hlt | rfl
          · exact hlatest.later i hi (Nat.le_of_lt_succ hlt)
          · exact ⟨_, last, List.getElem?_eq_getElem hbound, hlast, hlastKey⟩

/-- The search ends at the latest key block, if its public key is sound. -/
theorem LatestKey.findStart (hlatest : LatestKey services call.chainProof bound position header) :
    Gridnet.findStart services call bound =
      if header.getPubKey.length ≠ 32 then
        .error (.verdict (call.refused { result := .invalidKeyBlockPubKey }))
      else .ok (some position) := by
  obtain ⟨bytes, hbytes, hheader⟩ := hlatest.here
  induction bound with
  | zero =>
      have hzero : position = 0 := Nat.le_zero.mp hlatest.upTo
      subst hzero
      unfold Gridnet.findStart
      rw [indexed_eq_ok_iff.mpr hbytes]
      show (match services.instantiate bytes with | none => _ | some currentHeader => _) = _
      rw [hheader]
      simp [hlatest.isKey]
  | succ bound ih =>
      unfold Gridnet.findStart
      rcases Nat.lt_or_eq_of_le hlatest.upTo with hlt | rfl
      · obtain ⟨last, lastHeader, hlast, hlastHeader, hdata⟩ := hlatest.later (bound + 1) hlt le_rfl
        rw [indexed_eq_ok_iff.mpr hlast]
        show (match services.instantiate last with | none => _ | some currentHeader => _) = _
        rw [hlastHeader]
        dsimp only
        rw [if_pos hdata]
        exact ih ⟨Nat.le_of_lt_succ hlt, hlatest.here, hlatest.isKey,
          fun i hi hi' => hlatest.later i hi (Nat.le_succ_of_le hi')⟩
      · rw [indexed_eq_ok_iff.mpr hbytes]
        show (match services.instantiate bytes with | none => _ | some currentHeader => _) = _
        rw [hheader]
        simp [hlatest.isKey]

end Start

/-! ### The two starts -/

/-- The variables of a run before the genesis block. -/
def ProofArguments.genesisState (call : ProofArguments Trie) : ScanState Trie where
  currentHeight := 0
  keyLeader := call.keyLeader
  containsGenesisBlock := call.containsGenesisBlock

/-- The variables of an optimized run before the key block at which it begins. Where that is the genesis
block, the header before the common point still counts as the previous one. -/
def ProofArguments.optimizedState (services : HeaderServices Trie) (call : ProofArguments Trie)
    (position : ℕ) : ScanState Trie :=
  let parent :=
    call.chainProof[(if 1 ≤ position then position else call.startFromPosition) - 1]?
  let previousHeader := parent.bind services.instantiate
  { currentHeight := position - 1
    previousHeaderHash := (parent.map services.getSHA2_256Vec).getD []
    previousHeader
    previousHeaderTimestamp :=
      if 1 ≤ position then (previousHeader.map CBlockHeader.getSolvedAtTime).getD 0 else 0
    cumulativeDiff := (workOf services (call.chainProof.take (position + 1))).1
    PoWs := (workOf services (call.chainProof.take (position + 1))).2
    keyLeader := call.keyLeader
    containsGenesisBlock := call.containsGenesisBlock }

/-- Some verifier accepted a chain-proof from position 0, with a list of cumulative work. -/
def VerifiedFromZero (services : HeaderServices Trie) (chainProof : List Bytes) (works : List ℕ) : Prop :=
  ∃ (node : ProofNode) (call : ProofArguments Trie) (verdict : ProofVerdict Trie),
    call.chainProof = chainProof ∧ call.startFromPosition = 0 ∧ chainProof.length < 2 ^ 63 ∧
      verdict.result = .valid ∧ verdict.PoWs = works ∧
      (Sequential.verifyChainProof services node call = .ok verdict ∨
        ∃ numThreads fuel, 1 ≤ numThreads ∧
          Parallel.verifyChainProofMT services node call numThreads fuel = some (.ok verdict))

/-- A call whose chain-proof agrees with the verified heaviest one up to its start. -/
structure Incremental (services : HeaderServices Trie) (node : ProofNode) (call : ProofArguments Trie)
    (heaviest : List Bytes) : Prop where
  verified : VerifiedFromZero services heaviest node.mHeaviestChainProofCumulativePoWs
  path : node.mHeaviestPath = heaviest.map services.getSHA2_256Vec
  optimize : call.optimize = true
  start : 1 ≤ call.startFromPosition
  reaches : call.startFromPosition < heaviest.length
  agrees : call.chainProof.take (call.startFromPosition + 1) =
    heaviest.take (call.startFromPosition + 1)

/-- What an optimized run relies on up to its start: the headers decode, the first is a key block, and the
node's list of work and path are those of the headers. -/
structure Continued (services : HeaderServices Trie) (node : ProofNode) (call : ProofArguments Trie) : Prop where
  optimize : call.optimize = true
  start : 1 ≤ call.startFromPosition
  lt_length : call.startFromPosition < call.chainProof.length
  decodes : ∀ bytes ∈ call.chainProof.take (call.startFromPosition + 1),
    (services.instantiate bytes).isSome = true
  genesis : ∃ bytes header, call.chainProof[0]? = some bytes ∧ services.instantiate bytes = some header ∧
    header.isKeyBlock = true ∧ header.getPubKey.length = 32
  allWorks : node.mHeaviestChainProofCumulativePoWs.take (call.startFromPosition + 1) =
    (workOf services (call.chainProof.take (call.startFromPosition + 1))).2
  path : node.mHeaviestPath[call.startFromPosition - 1]? =
    (call.chainProof[call.startFromPosition - 1]?).map services.getSHA2_256Vec

section Starts

variable {services : HeaderServices Trie} {node : ProofNode} {call : ProofArguments Trie}
  {heaviest : List Bytes}

theorem Ready.fromZero {start : ProofStart Trie} {checkpoints : List CBCheckpoint} {position : ℕ}
    {st : ScanState Trie} (hready : Ready services node call start checkpoints position st)
    (hzero : call.startFromPosition = 0) :
    start = { optimizing := false, startFromPosition := 0 } ∧ position = 0 ∧ st = call.genesisState := by
  obtain ⟨hstart, -, hfound, hst⟩ := hready
  have hprepared : prepareStart services node call =
      .ok { optimizing := false, startFromPosition := 0 } := by
    unfold prepareStart
    rw [hzero, if_neg (by simp)]
  cases hprepared.symm.trans hstart
  have hposition : position = 0 := Nat.le_zero.mp (findStart_some hfound).1
  subst hposition
  cases hst
  exact ⟨rfl, rfl, rfl⟩

/-- A run from position 0 does not look whether it was to be optimized. -/
theorem parallelRule_accepts_of_zero {numThreads : ℕ} (hzero : call.startFromPosition = 0) (optimize : Bool)
    {verdict : ProofVerdict Trie} (haccepts : (parallelRule numThreads).Accepts services node call verdict) :
    (parallelRule numThreads).Accepts services node { call with optimize } verdict := by
  obtain ⟨start, checkpoints, position, st, hready, hparent, hpasses, hleader, hwhole, hverdict⟩ := haccepts
  obtain ⟨rfl, rfl, rfl⟩ := hready.fromZero hzero
  have hlocked : ({ call with optimize } : ProofArguments Trie).heaviestChainLocked =
      call.heaviestChainLocked := by
    unfold ProofArguments.heaviestChainLocked
    dsimp only
    rw [hzero]
    simp [ProofArguments.isHeaviestChainProof]
  have hexcused : excusedByHardFork node { call with optimize } = excusedByHardFork node call := by
    unfold excusedByHardFork
    rw [hlocked]
    rfl
  have hready' : Ready services node { call with optimize } { optimizing := false, startFromPosition := 0 }
      checkpoints 0 call.genesisState := by
    have hactivated : activateCheckpoints services node { call with optimize } =
        activateCheckpoints services node call := activateCheckpoints_congr rfl rfl
    refine ⟨?_, hactivated.trans hready.activated, ?_, rfl⟩
    · unfold prepareStart
      rw [if_neg (by simp [hzero])]
      dsimp only
      rw [hzero]
    · have hfound := hready.found
      unfold findStart ProofArguments.refused at hfound ⊢
      rw [hlocked]
      exact hfound
  refine ⟨_, checkpoints, 0, _, hready', hparent, ?_, hleader, hwhole, ?_⟩
  · refine (Scan.passes_congr (fun st element => ?_) _ _).mpr hpasses
    unfold parallelRule Common commonChecks commonKeyChecks
    simp only [scanContext, hexcused]
    rfl
  · rw [hverdict]
    unfold ProofArguments.accepted
    rw [hlocked]
    rfl

/-- What is known of a chain-proof that was verified from position 0. -/
theorem VerifiedFromZero.spec {works : List ℕ} (hverified : VerifiedFromZero services heaviest works) :
    works = (workOf services heaviest).2 ∧
      (∀ bytes ∈ heaviest, (services.instantiate bytes).isSome = true) ∧
      ∃ bytes header, heaviest[0]? = some bytes ∧ services.instantiate bytes = some header ∧
        header.isKeyBlock = true ∧ header.getPubKey.length = 32 := by
  obtain ⟨node, call, verdict, rfl, hzero, hsize, hvalid, rfl, hrun⟩ := hverified
  have hpasses : ∃ start checkpoints position st,
      Ready services node call start checkpoints position st ∧
      PassesCommon services node call start checkpoints position st ∧
      verdict = call.accepted ((call.elementsFrom position).foldl
        (Sequential.next (scanContext services node call start checkpoints position)) st) := by
    rcases hrun with hrun | ⟨numThreads, fuel, hthreads, hrun⟩
    · obtain ⟨start, checkpoints, position, st, hready, hshared, -, hverdict⟩ :=
        (sequential_accepts_iff hsize hvalid).mp hrun
      exact ⟨start, checkpoints, position, st, hready, hshared, hverdict⟩
    · obtain ⟨start, checkpoints, position, st, hready, hshared, -, hverdict⟩ :=
        (parallel_accepts_iff hthreads hvalid).mp ⟨fuel, hrun⟩
      exact ⟨start, checkpoints, position, st, hready, hshared, hverdict⟩
  obtain ⟨start, checkpoints, position, st, hready, hshared, rfl⟩ := hpasses
  obtain ⟨rfl, rfl, rfl⟩ := hready.fromZero hzero
  obtain ⟨-, hgenesis⟩ := findStart_some hready.found
  have helements : (call.elementsFrom 0).map Prod.fst = call.chainProof := by
    unfold ProofArguments.elementsFrom
    rw [List.drop_zero, List.zipIdx_map_fst]
  refine ⟨?_, ?_, hgenesis⟩
  · let ctx := scanContext services node call { optimizing := false, startFromPosition := 0 } checkpoints 0
    have hfull : ctx.optimizing = false := rfl
    have hwork := foldl_next_work call.genesisState (call.elementsFrom 0) fun _ _ => .inl hfull
    rw [helements] at hwork
    exact congrArg Prod.snd hwork
  · intro bytes hbytes
    rw [← helements] at hbytes
    obtain ⟨element, hmem, rfl⟩ := List.mem_map.mp hbytes
    exact hshared.decodes hmem

/-- The verified chain-proof is what they rely on. -/
theorem Incremental.continued (hincremental : Incremental services node call heaviest) :
    Continued services node call := by
  obtain ⟨hworks, hdecodes, hgenesis⟩ := hincremental.verified.spec
  have hreaches := hincremental.reaches
  have hsame : ∀ {i : ℕ}, i ≤ call.startFromPosition → call.chainProof[i]? = heaviest[i]? := by
    intro i hi
    have hfront := congrArg (fun front : List Bytes => front[i]?) hincremental.agrees
    rwa [List.getElem?_take_of_lt (Nat.lt_succ_of_le hi), List.getElem?_take_of_lt (Nat.lt_succ_of_le hi)]
      at hfront
  refine ⟨hincremental.optimize, hincremental.start, ?_, ?_, ?_, ?_, ?_⟩
  · have hlengths := congrArg List.length hincremental.agrees
    rw [List.length_take, List.length_take] at hlengths
    omega
  · intro bytes hbytes
    rw [hincremental.agrees] at hbytes
    exact hdecodes bytes (List.mem_of_mem_take hbytes)
  · rw [hsame (Nat.zero_le _)]
    exact hgenesis
  · rw [hworks, hincremental.agrees]
    exact workOf_take hdecodes (by omega)
  · rw [hincremental.path, List.getElem?_map, hsame (Nat.sub_le _ _)]

namespace Continued

variable (hcontinued : Continued services node call)

include hcontinued

/-- The work list of the node is right up to the start. -/
theorem works {n : ℕ} (hn : n ≤ call.startFromPosition) :
    node.mHeaviestChainProofCumulativePoWs.take (n + 1) =
      (workOf services (call.chainProof.take (n + 1))).2 := by
  have hlength := hcontinued.lt_length
  have hall := congrArg (List.take (n + 1)) hcontinued.allWorks
  rw [workOf_take hcontinued.decodes (by rw [List.length_take]; omega), List.take_take, List.take_take,
    Nat.min_eq_left (Nat.succ_le_succ hn)] at hall
  exact hall

theorem work {n : ℕ} (hn : n ≤ call.startFromPosition) :
    node.mHeaviestChainProofCumulativePoWs[n]? =
      some (workOf services (call.chainProof.take (n + 1))).1 := by
  have hlength := hcontinued.lt_length
  have hdecodes := hcontinued.decodes
  have hfront : (call.chainProof.take (call.startFromPosition + 1)).take (n + 1) =
      call.chainProof.take (n + 1) := by
    rw [List.take_take, Nat.min_eq_left (Nat.succ_le_succ hn)]
  have hlast := workOf_getElem hdecodes
    (show n < (call.chainProof.take (call.startFromPosition + 1)).length by
      rw [List.length_take]
      omega)
  rw [hfront, ← hcontinued.works hn, List.getElem?_take_of_lt (Nat.lt_succ_self n)] at hlast
  exact hlast

/-- What is known before the start is fixed. -/
theorem prepared : ∃ parent cumulativeDiff,
    call.chainProof[call.startFromPosition - 1]? = some parent ∧
      prepareStart services node call = .ok
        { optimizing := true
          startFromPosition := call.startFromPosition
          PoWs := node.mHeaviestChainProofCumulativePoWs.take (call.startFromPosition + 1)
          cumulativeDiff
          previousHeaderHash := services.getSHA2_256Vec parent
          previousHeader := services.instantiate parent } := by
  have hstart := hcontinued.start
  have hlength := hcontinued.lt_length
  have hparent : call.chainProof[call.startFromPosition - 1]? =
      some call.chainProof[call.startFromPosition - 1] := List.getElem?_eq_getElem _
  have hwork := hcontinued.work le_rfl
  have hlong := (List.getElem?_eq_some_iff.mp hwork).1
  have hpath : node.mHeaviestPath[call.startFromPosition - 1]? =
      some (services.getSHA2_256Vec call.chainProof[call.startFromPosition - 1]) := by
    rw [hcontinued.path, hparent]
    rfl
  refine ⟨_, (workOf services (call.chainProof.take (call.startFromPosition + 1))).1, hparent, ?_⟩
  unfold prepareStart
  rw [if_pos (by simp [hcontinued.optimize, hstart])]
  dsimp only
  rw [if_neg (by omega), if_pos (by omega),
    indexed_eq_ok_iff.mpr ((List.getElem?_take_of_lt (Nat.lt_succ_self _)).trans hwork),
    indexed_eq_ok_iff.mpr hpath, indexed_eq_ok_iff.mpr hparent]
  rfl

/-- The variables of the optimized run before its first header. -/
theorem initial {start : ProofStart Trie} {position : ℕ} (hposition : position ≤ call.startFromPosition)
    (hprepared : prepareStart services node call = .ok start) :
    Sequential.initialState services node call start (some position) =
      .ok (call.optimizedState services position) := by
  obtain ⟨parent, cumulativeDiff, hparent, hstart⟩ := hcontinued.prepared
  cases hprepared.symm.trans hstart
  have hlength := hcontinued.lt_length
  have hwork : indexed (node.mHeaviestChainProofCumulativePoWs.take (call.startFromPosition + 1)) position =
      (.ok (workOf services (call.chainProof.take (position + 1))).1 : Except (ProofStop Trie) ℕ) :=
    indexed_eq_ok_iff.mpr
      ((List.getElem?_take_of_lt (Nat.lt_succ_of_le hposition)).trans (hcontinued.work hposition))
  unfold Sequential.initialState startingWork Sequential.fixedStart ProofArguments.optimizedState
  dsimp only
  rw [if_pos rfl, hwork, hcontinued.works hposition]
  by_cases hone : 1 ≤ position
  · have hbefore : call.chainProof[position - 1]? = some call.chainProof[position - 1] :=
      List.getElem?_eq_getElem _
    rw [if_pos hone, if_pos hone, hbefore]
    show (if 1 ≤ position then indexed call.chainProof (position - 1) >>= _ else _) = _
    rw [if_pos hone, indexed_eq_ok_iff.mpr hbefore]
    rfl
  · rw [if_neg hone, if_neg hone, hparent]
    show (if 1 ≤ position then _ else _) = _
    rw [if_neg hone]
    rfl

end Continued

end Starts

/-! ### One turn -/

section Turn

variable {ctx : ScanContext Trie} {st : ScanState Trie} {element : Bytes × ℕ}
  {header : CBlockHeader Trie}

theorem next_of_some (hheader : ctx.services.instantiate element.1 = some header) :
    Sequential.next ctx st element = Sequential.advance ctx st element.2 element.1 header := by
  unfold Sequential.next
  rw [hheader]

theorem next_previousHeader (hheader : ctx.services.instantiate element.1 = some header) :
    (Sequential.next ctx st element).previousHeader = some header := by
  rw [next_of_some hheader]
  unfold Sequential.advance
  cases header.isKeyBlock with
  | true => cases ctx.optimizing && element.2 == ctx.startFromPosition <;> rfl
  | false => rfl

theorem next_flag (hheader : ctx.services.instantiate element.1 = some header) :
    (Sequential.next ctx st element).parentIsHardForkBlock = st.forkBefore := by
  rw [next_of_some hheader]
  unfold Sequential.advance
  cases header.isKeyBlock with
  | true => cases ctx.optimizing && element.2 == ctx.startFromPosition <;> rfl
  | false => rfl

theorem next_forkBefore (hheader : ctx.services.instantiate element.1 = some header) :
    (Sequential.next ctx st element).forkBefore = (st.forkBefore || isHardForkBlock (some header)) := by
  show ((Sequential.next ctx st element).parentIsHardForkBlock ||
    isHardForkBlock (Sequential.next ctx st element).previousHeader) = _
  rw [next_flag hheader, next_previousHeader hheader]

/-- A key block leaves nothing of the variables before it but the flags and the work. -/
theorem next_of_key (ctx ctx' : ScanContext Trie) (st st' : ScanState Trie)
    (hservices : ctx'.services = ctx.services)
    (hheader : ctx.services.instantiate element.1 = some header) (hkey : header.isKeyBlock = true) :
    Sequential.next ctx st element =
      { Sequential.next ctx' st' element with
        parentIsHardForkBlock := (Sequential.next ctx st element).parentIsHardForkBlock
        containsGenesisBlock := (Sequential.next ctx st element).containsGenesisBlock
        cumulativeDiff := (Sequential.next ctx st element).cumulativeDiff
        PoWs := (Sequential.next ctx st element).PoWs } := by
  have hheader' : ctx'.services.instantiate element.1 = some header := by rw [hservices, hheader]
  rw [next_of_some hheader, next_of_some hheader']
  unfold Sequential.advance
  rw [hservices, hkey]
  cases ctx.optimizing && element.2 == ctx.startFromPosition <;>
    cases ctx'.optimizing && element.2 == ctx'.startFromPosition <;> rfl

/-- The hard fork blocks before the start do not matter for the other variables. -/
theorem next_remembering (earlier : Bool) :
    Sequential.next ctx (st.remembering earlier) element =
      (Sequential.next ctx st element).remembering earlier := by
  unfold Sequential.next
  cases ctx.services.instantiate element.1 with
  | none => rfl
  | some header =>
      unfold Sequential.advance ScanState.remembering
      dsimp only
      cases header.isKeyBlock with
      | true =>
          cases ctx.optimizing && element.2 == ctx.startFromPosition <;> simp [Bool.or_assoc]
      | false => simp only [Bool.or_assoc, Bool.false_eq_true, if_false]

theorem foldl_remembering (earlier : Bool) (st : ScanState Trie) (elements : List (Bytes × ℕ)) :
    elements.foldl (Sequential.next ctx) (st.remembering earlier) =
      (elements.foldl (Sequential.next ctx) st).remembering earlier := by
  apply Scan.foldl_rel (fun (st st' : ScanState Trie) => st = st'.remembering earlier) elements
  · rintro element _ st st' rfl
    exact next_remembering earlier
  · rfl

namespace ScanState.Alike

variable {earlier : Bool} {full later : ScanState Trie}

theorem remembered (halike : full.Alike earlier later) : full.Alike false (later.remembering earlier) := by
  obtain ⟨hsame, hfork⟩ := halike
  refine ⟨hsame, ?_⟩
  rw [hfork, Bool.false_or]
  exact (Bool.or_assoc _ _ _).symm

theorem work (halike : full.Alike earlier later) : full.work = later.work := by
  rw [halike.same]
  rfl

theorem next (halike : full.Alike earlier later) (hlater : element.2 ≠ ctx.startFromPosition) :
    (Sequential.next ctx.fromGenesis full element).Alike earlier (Sequential.next ctx later element) := by
  obtain ⟨hsame, hfork⟩ := halike
  have hnot : (ctx.optimizing && element.2 == ctx.startFromPosition) = false := by simp [hlater]
  cases hheader : ctx.services.instantiate element.1 with
  | none =>
      have hfull : Sequential.next ctx.fromGenesis full element = full := by
        unfold Sequential.next
        rw [show ctx.fromGenesis.services = ctx.services from rfl, hheader]
      have hlater : Sequential.next ctx later element = later := by
        unfold Sequential.next
        rw [hheader]
      rw [hfull, hlater]
      exact ⟨hsame, hfork⟩
  | some header =>
      constructor
      · rw [next_of_some hheader, next_of_some (show ctx.fromGenesis.services.instantiate _ = _ from hheader),
          hsame]
        unfold Sequential.advance
        rw [hnot]
        cases header.isKeyBlock with
        | true => rfl
        | false => rfl
      · rw [next_forkBefore hheader,
          next_forkBefore (show ctx.fromGenesis.services.instantiate _ = _ from hheader), hfork,
          Bool.or_assoc]

end ScanState.Alike

end Turn

end Gridnet
