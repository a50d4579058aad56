import Gridnet.ChainProofUpdate
import Gridnet.ChainWork

/-! The structures that are kept in step with the heaviest chain-proof, over every sequence of updates: the
path, the list of cumulative work, the recorded difficulty and the index of key blocks. -/

namespace Gridnet

variable {Trie : Type}

/-! ### In step -/

/-- The index has the id of every key block at its key height. -/
def KeyBlocksIndexed (services : HeaderServices Trie) (chainProof index : List Bytes) : Prop :=
  ∀ bytes ∈ chainProof, ∀ header, services.instantiate bytes = some header →
    header.isKeyBlock = true → index[header.getKeyHeight]? = some (services.getSHA2_256Vec bytes)

/-- The path and the work are those of the chain-proof. -/
structure Aligned (services : HeaderServices Trie) (heaviest : HeaviestChain Trie) : Prop where
  path : heaviest.mHeaviestPath = heaviest.mHeaviestChainProof.map services.getSHA2_256Vec
  pathDouble : heaviest.mHeaviestPathDouble = heaviest.mHeaviestChainProof.map services.getSHA2_256Vec
  works : heaviest.mHeaviestChainProofCumulativePoWs = worksOf services heaviest.mHeaviestChainProof
  total : heaviest.mHeaviestChainProofTotalDifficulty =
    workUpTo services heaviest.mHeaviestChainProof heaviest.mHeaviestChainProof.length

/-- Everything is. -/
structure InStep (services : HeaderServices Trie) (heaviest : HeaviestChain Trie) : Prop extends
    Aligned services heaviest where
  index : KeyBlocksIndexed services heaviest.mHeaviestChainProof heaviest.mHeaviestKeyBlockIDsAtHeights

/-- An update left everything as it was. -/
structure Untouched (before after : HeaviestChain Trie) : Prop where
  chainProof : after.mHeaviestChainProof = before.mHeaviestChainProof
  path : after.mHeaviestPath = before.mHeaviestPath
  pathDouble : after.mHeaviestPathDouble = before.mHeaviestPathDouble
  works : after.mHeaviestChainProofCumulativePoWs = before.mHeaviestChainProofCumulativePoWs
  total : after.mHeaviestChainProofTotalDifficulty = before.mHeaviestChainProofTotalDifficulty
  index : after.mHeaviestKeyBlockIDsAtHeights = before.mHeaviestKeyBlockIDsAtHeights

theorem Untouched.refl (heaviest : HeaviestChain Trie) : Untouched heaviest heaviest :=
  ⟨rfl, rfl, rfl, rfl, rfl, rfl⟩

/-! ### The common point -/

section CommonPoint

variable {services : HeaderServices Trie} {chainProof subChain : List Bytes}

/-- What the search finds: the last header of the received chain-proof that is known, at its first place in
the chain-proof. -/
theorem commonPointBelow_some {y i j : ℕ}
    (hfound : commonPointBelow services chainProof subChain y = some (i, j)) :
    j < y ∧ (∃ bytes, subChain[j]? = some bytes ∧
      (chainProof.map services.getSHA2_256Vec).idxOf? (services.getSHA2_256Vec bytes) = some i) ∧
      ∀ k, j < k → k < y → ∀ bytes, subChain[k]? = some bytes →
        services.getSHA2_256Vec bytes ∉ chainProof.map services.getSHA2_256Vec := by
  induction y with
  | zero => cases hfound
  | succ y ih =>
      unfold commonPointBelow at hfound
      split at hfound
      next found hhere =>
          cases hfound
          obtain ⟨bytes, hbytes, hindex⟩ := Option.bind_eq_some_iff.mp hhere
          refine ⟨Nat.lt_succ_self _, ⟨bytes, hbytes, hindex⟩, ?_⟩
          intro k hk hk'
          omega
      next hnone =>
          obtain ⟨hlt, hhere, hlater⟩ := ih hfound
          refine ⟨Nat.lt_succ_of_lt hlt, hhere, ?_⟩
          intro k hk hk' bytes hbytes
          rcases Nat.lt_or_eq_of_le (Nat.le_of_lt_succ hk') with hlt' | rfl
          · exact hlater k hk hlt' bytes hbytes
          · rw [hbytes, Option.bind_some] at hnone
            exact List.idxOf?_eq_none_iff.mp hnone

theorem commonPointBelow_none {y : ℕ} (hnone : commonPointBelow services chainProof subChain y = none) :
    ∀ k, k < y → ∀ bytes, subChain[k]? = some bytes →
      services.getSHA2_256Vec bytes ∉ chainProof.map services.getSHA2_256Vec := by
  induction y with
  | zero =>
      intro k hk
      omega
  | succ y ih =>
      unfold commonPointBelow at hnone
      split at hnone
      next => cases hnone
      next hhere =>
          intro k hk bytes hbytes
          rcases Nat.lt_or_eq_of_le (Nat.le_of_lt_succ hk) with hlt | rfl
          · exact ih hnone k hlt bytes hbytes
          · rw [hbytes, Option.bind_some] at hhere
            exact List.idxOf?_eq_none_iff.mp hhere

/-- The common point lies in the chain-proof. -/
theorem commonPoint_lt {i j : ℕ} (hfound : commonPoint services chainProof subChain = some (i, j)) :
    i < chainProof.length := by
  obtain ⟨-, ⟨bytes, -, hindex⟩, -⟩ := commonPointBelow_some hfound
  obtain ⟨hlt, -⟩ := List.idxOf?_eq_some_iff.mp hindex
  rwa [List.length_map] at hlt

end CommonPoint

/-! ### Verified proposals -/

/-- The multi-threaded verifier, which has the last word here, returns a verdict. -/
def Verifies (services : HeaderServices Trie) (node : ProofNode) (numThreads : ℕ)
    (arguments : ProofArguments Trie) (verdict : ProofVerdict Trie) : Prop :=
  ∃ fuel, Parallel.verifyChainProofMT services node arguments numThreads fuel = some (.ok verdict)

section Verified

variable {services : HeaderServices Trie} {node : ProofNode} {numThreads : ℕ}
  {arguments : ProofArguments Trie} {verdict verdict' : ProofVerdict Trie}

theorem Verifies.unique (hverdict : Verifies services node numThreads arguments verdict)
    (hverdict' : Verifies services node numThreads arguments verdict') : verdict = verdict' := by
  obtain ⟨fuel, hrun⟩ := hverdict
  obtain ⟨fuel', hrun'⟩ := hverdict'
  exact Except.ok.inj (Parallel.verifyChainProofMT_unique hrun hrun')

/-- Once a leading key block is known there is one. -/
theorem foldl_next_keyLeader {ctx : ScanContext Trie} {st : ScanState Trie}
    (elements : List (Bytes × ℕ)) (hleader : st.keyLeader.isSome = true) :
    (elements.foldl (Sequential.next ctx) st).keyLeader.isSome = true := by
  induction elements generalizing st with
  | nil => exact hleader
  | cons element rest ih =>
      apply ih
      cases hheader : ctx.services.instantiate element.1 with
      | none =>
          unfold Sequential.next
          rw [hheader]
          exact hleader
      | some header =>
          rw [next_of_some hheader]
          unfold Sequential.advance
          cases header.isKeyBlock with
          | true => cases ctx.optimizing && element.2 == ctx.startFromPosition <;> rfl
          | false => exact hleader

/-- What a valid verdict says of a chain-proof. -/
theorem Verifies.spec (hthreads : 1 ≤ numThreads)
    (hverdict : Verifies services node numThreads arguments verdict) (hvalid : verdict.result = .valid)
    (hzero : arguments.optimize = false → arguments.startFromPosition = 0)
    (hworks : 1 ≤ arguments.startFromPosition →
      node.mHeaviestChainProofCumulativePoWs.take (arguments.startFromPosition + 1) =
        (worksOf services arguments.chainProof).take (arguments.startFromPosition + 1)) :
    verdict.cumulativeDiff = workUpTo services arguments.chainProof arguments.chainProof.length ∧
      verdict.PoWs = worksOf services arguments.chainProof ∧ verdict.keyLeader.isSome = true ∧
      arguments.chainProof ≠ [] := by
  obtain ⟨start, checkpoints, position, st, hready, hshared, -, rfl⟩ :=
    (parallel_accepts_iff hthreads hvalid).mp hverdict
  have hwork := hready.final_work hshared hzero hworks
  obtain ⟨-, bytes, header, hbytes, hheader, hkey, -⟩ := findStart_some hready.found
  refine ⟨congrArg Prod.fst hwork, congrArg Prod.snd hwork, ?_, ?_⟩
  · show ((arguments.elementsFrom position).foldl _ st).keyLeader.isSome = true
    rw [ProofArguments.elementsFrom_eq_cons hbytes, List.foldl_cons]
    apply foldl_next_keyLeader
    rw [next_of_some (show (scanContext services node arguments start checkpoints
      position).services.instantiate (bytes, position).1 = some header from hheader)]
    unfold Sequential.advance
    rw [hkey]
    rfl
  · rintro hempty
    rw [hempty] at hbytes
    cases hbytes

end Verified

/-! ### Taking a proposal over -/

section Proposals

variable (services : HeaderServices Trie) (numThreads : ℕ) (node : ProofNode) (call : UpdateCall)
  (heaviest : HeaviestChain Trie)

/-- The common point with a received chain-proof. -/
def commonPointOf : Option (ℕ × ℕ) :=
  commonPoint services heaviest.mHeaviestChainProof (preprocessed call.subChain)

/-- The proposal that a received chain-proof makes. -/
def proposalOf : List Bytes :=
  newChainProofProposal heaviest.mHeaviestChainProof (preprocessed call.subChain)
    (commonPointOf services call heaviest)

/-- The arguments of its verification. -/
def argumentsOf : ProofArguments Trie :=
  proposalCall (proposalOf services call heaviest) (commonPointOf services call heaviest)

/-- The difficulty that the proposal has to beat: the recorded one, or that of the received chain-proof
where none is recorded. -/
def HasToBeat (currentTotalDiff : ℕ) : Prop :=
  if heaviest.mHeaviestChainProofTotalDifficulty = 0 then
    ∃ own, Verifies services (heaviest.node node) numThreads
        { chainProof := preprocessed call.subChain } own ∧
      own.result = .valid ∧ own.cumulativeDiff = currentTotalDiff
  else currentTotalDiff = heaviest.mHeaviestChainProofTotalDifficulty

/-- The proposal is valid and outweighs the chain-proof. -/
structure TakenOver (verdict : ProofVerdict Trie) : Prop where
  received : (preprocessed call.subChain).length ≠ 0
  verified : Verifies services (heaviest.node node) numThreads (argumentsOf services call heaviest) verdict
  valid : verdict.result = .valid
  outweighs : ∃ currentTotalDiff, HasToBeat services numThreads node call heaviest currentTotalDiff ∧
    outweighs services node.mCheckpoints heaviest.mHeaviestChainProof (proposalOf services call heaviest)
      currentTotalDiff verdict.cumulativeDiff = true

/-- A call of `analyzeAndUpdateChainProof` returns. -/
def Updates (before : HeaviestChain Trie) (report : UpdateReport) (after : HeaviestChain Trie) : Prop :=
  ∃ fuel, analyzeAndUpdateChainProof services node numThreads fuel call before = some (.ok (report, after))

variable {services numThreads node call heaviest}

theorem HasToBeat.unique {diff diff' : ℕ} (hbeat : HasToBeat services numThreads node call heaviest diff)
    (hbeat' : HasToBeat services numThreads node call heaviest diff') : diff = diff' := by
  unfold HasToBeat at hbeat hbeat'
  split at hbeat
  next hzero =>
      rw [if_pos hzero] at hbeat'
      obtain ⟨own, hown, -, rfl⟩ := hbeat
      obtain ⟨own', hown', -, rfl⟩ := hbeat'
      rw [hown.unique hown']
  next hpositive =>
      rw [if_neg hpositive] at hbeat'
      exact hbeat.trans hbeat'.symm

/-- The first verification finds the difficulty to beat, or refuses the received chain-proof. -/
theorem currentDifficulty_spec {fuel : ℕ} {current : ProofVerdict Trie}
    (hcurrent : currentDifficulty heaviest (preprocessed call.subChain)
      (fun arguments => Parallel.verifyChainProofMT services (heaviest.node node) arguments numThreads fuel) =
        some (.ok current)) :
    (current.result = .valid → HasToBeat services numThreads node call heaviest current.cumulativeDiff) ∧
      (current.result ≠ .valid → ∀ diff, ¬ HasToBeat services numThreads node call heaviest diff) := by
  unfold currentDifficulty at hcurrent
  unfold HasToBeat
  split at hcurrent
  next hzero =>
      have hown : Verifies services (heaviest.node node) numThreads
        { chainProof := preprocessed call.subChain } current := ⟨fuel, hcurrent⟩
      simp only [if_pos hzero]
      constructor
      · intro hvalid
        exact ⟨current, hown, hvalid, rfl⟩
      · rintro hinvalid diff ⟨own, hown', hvalid, -⟩
        rw [hown'.unique hown] at hvalid
        exact hinvalid hvalid
  next hpositive =>
      cases hcurrent
      simp only [if_neg hpositive]
      exact ⟨fun _ => trivial, fun hinvalid => absurd rfl hinvalid⟩

/-- What a call that returns has done. -/
theorem Updates.cases {report : UpdateReport} {after : HeaviestChain Trie}
    (hupdates : Updates services numThreads node call heaviest report after) :
    (after = heaviest ∧ report.updateResult ≠ .updatedLocalBestKnown ∧
        ∀ verdict, ¬ TakenOver services numThreads node call heaviest verdict) ∨
      ∃ verdict, TakenOver services numThreads node call heaviest verdict ∧
        heaviest.adopt services node call (commonPointOf services call heaviest)
          (proposalOf services call heaviest) verdict = .ok (report.updateResult, after) := by
  obtain ⟨fuel, hrun⟩ := hupdates
  unfold analyzeAndUpdateChainProof at hrun
  dsimp only at hrun
  split at hrun
  next hempty =>
      cases hrun
      refine .inl ⟨rfl, by simp, ?_⟩
      intro verdict htaken
      exact htaken.received hempty
  next hreceived =>
      cases hcurrent : currentDifficulty heaviest (preprocessed call.subChain) (fun arguments =>
          Parallel.verifyChainProofMT services (heaviest.node node) arguments numThreads fuel) with
      | none =>
          rw [hcurrent] at hrun
          cases hrun
      | some outcome =>
          cases outcome with
          | error reason =>
              rw [hcurrent] at hrun
              cases hrun
          | ok current =>
              obtain ⟨hbeat, hnone⟩ := currentDifficulty_spec hcurrent
              rw [hcurrent] at hrun
              dsimp only [onVerdict] at hrun
              split at hrun
              next hinvalid =>
                  cases hrun
                  refine .inl ⟨rfl, by simp, ?_⟩
                  rintro verdict ⟨-, -, -, diff, hdiff, -⟩
                  exact hnone hinvalid diff hdiff
              next hvalid =>
                  have hbeat := hbeat (not_not.mp hvalid)
                  split at hrun
                  next => cases hrun
                  next => cases hrun
                  next verdict hverify =>
                      have hverified : Verifies services (heaviest.node node) numThreads
                        (argumentsOf services call heaviest) verdict := ⟨fuel, hverify⟩
                      split at hrun
                      next hinvalid =>
                          cases hrun
                          refine .inl ⟨rfl, by simp, ?_⟩
                          rintro verdict' ⟨-, hverified', hvalid', -⟩
                          rw [hverified'.unique hverified] at hvalid'
                          exact hinvalid hvalid'
                      next hvalid' =>
                          split at hrun
                          next houtweighs =>
                              refine .inr ⟨verdict, ⟨hreceived, hverified, not_not.mp hvalid',
                                current.cumulativeDiff, hbeat, houtweighs⟩, ?_⟩
                              have hmap := Option.some.inj hrun
                              cases hadopt : heaviest.adopt services node call
                                  (commonPointOf services call heaviest)
                                  (proposalOf services call heaviest) verdict with
                              | error reason =>
                                  rw [← commonPointOf, ← proposalOf, hadopt] at hmap
                                  cases hmap
                              | ok outcome =>
                                  rw [← commonPointOf, ← proposalOf, hadopt] at hmap
                                  cases hmap
                                  rfl
                          next hlighter =>
                              cases hrun
                              refine .inl ⟨rfl, by simp, ?_⟩
                              rintro verdict' ⟨-, hverified', -, diff, hdiff, houtweighs⟩
                              rw [hverified'.unique hverified, hdiff.unique hbeat] at houtweighs
                              exact hlighter houtweighs

end Proposals

/-! ### What an update does -/

section Adopting

/-- A list that is cut behind the common point and continued, unless it holds one element only. -/
theorem front_append {α : Type} (current target : List α) {n c : ℕ} (hlength : current.length = n)
    (hone : n ≠ 1) (hc : n = 0 ∧ c = 0 ∨ c < n)
    (hsame : 1 ≤ c → current.take (c + 1) = target.take (c + 1)) :
    (if n ≠ 0 ∧ c < n - 1 then current.take (if c = 0 then 0 else c + 1) else current) ++
        target.drop (if c = 0 then 0 else c + 1) = target := by
  cases c with
  | zero =>
      rw [if_pos rfl, List.drop_zero, List.take_zero]
      by_cases hcut : n ≠ 0 ∧ 0 < n - 1
      · rw [if_pos hcut, List.nil_append]
      · have hnil : current = [] := List.length_eq_zero_iff.mp (by omega)
        rw [if_neg hcut, hnil, List.nil_append]
  | succ c =>
      have hfront := hsame (Nat.succ_pos c)
      rw [if_neg (Nat.succ_ne_zero c)]
      by_cases hcut : n ≠ 0 ∧ c + 1 < n - 1
      · rw [if_pos hcut, hfront, List.take_append_drop]
      · have hwhole : current.take (c + 1 + 1) = current := List.take_of_length_le (by omega)
        rw [if_neg hcut, ← hwhole, hfront, List.take_append_drop]

variable {services : HeaderServices Trie} {numThreads : ℕ} {node : ProofNode} {call : UpdateCall}
  {heaviest after : HeaviestChain Trie} {verdict : ProofVerdict Trie}

/-- The place of the common point, zero if there is none. -/
def commonIndex (services : HeaderServices Trie) (call : UpdateCall) (heaviest : HeaviestChain Trie) : ℕ :=
  ((commonPointOf services call heaviest).map Prod.fst).getD 0

theorem commonIndex_lt (services : HeaderServices Trie) (call : UpdateCall)
    (heaviest : HeaviestChain Trie) :
    heaviest.mHeaviestChainProof.length = 0 ∧ commonIndex services call heaviest = 0 ∨
    commonIndex services call heaviest < heaviest.mHeaviestChainProof.length := by
  unfold commonIndex
  cases hcommon : commonPointOf services call heaviest with
  | none =>
      rcases Nat.eq_zero_or_pos heaviest.mHeaviestChainProof.length with hzero | hpos
      · exact .inl ⟨hzero, rfl⟩
      · exact .inr hpos
  | some point => exact .inr (commonPoint_lt hcommon)

/-- The proposal begins with the chain-proof up to a common point. -/
theorem proposalOf_take (hone : 1 ≤ commonIndex services call heaviest) :
    heaviest.mHeaviestChainProof.take (commonIndex services call heaviest + 1) =
      (proposalOf services call heaviest).take (commonIndex services call heaviest + 1) := by
  have hlt := commonIndex_lt services call heaviest
  unfold proposalOf
  revert hone hlt
  unfold commonIndex
  cases commonPointOf services call heaviest with
  | none =>
      intro hone
      exact absurd hone (by simp)
  | some point =>
      intro hone hlt
      have hlength : (heaviest.mHeaviestChainProof.take (point.1 + 1)).length = point.1 + 1 := by
        have hlt' : heaviest.mHeaviestChainProof.length = 0 ∧ point.1 = 0 ∨
          point.1 < heaviest.mHeaviestChainProof.length := hlt
        have hone' : 1 ≤ point.1 := hone
        rw [List.length_take]
        omega
      show _ = (heaviest.mHeaviestChainProof.take (point.1 + 1) ++ _).take (point.1 + 1)
      rw [List.take_append_of_le_length hlength.ge, List.take_of_length_le hlength.le]
      rfl

theorem argumentsOf_start : (argumentsOf services call heaviest).startFromPosition =
    commonIndex services call heaviest := by
  unfold argumentsOf commonIndex
  cases commonPointOf services call heaviest <;> rfl

theorem argumentsOf_chainProof : (argumentsOf services call heaviest).chainProof =
    proposalOf services call heaviest := by
  unfold argumentsOf
  cases commonPointOf services call heaviest <;> rfl

theorem argumentsOf_optimize (hfull : (argumentsOf services call heaviest).optimize = false) :
    (argumentsOf services call heaviest).startFromPosition = 0 := by
  unfold argumentsOf at hfull ⊢
  cases hcommon : commonPointOf services call heaviest with
  | none => rfl
  | some point =>
      rw [hcommon] at hfull
      cases hfull

/-- What a valid proposal is worth. -/
theorem Verifies.proposal_spec (hthreads : 1 ≤ numThreads) (haligned : Aligned services heaviest)
    (hverdict : Verifies services (heaviest.node node) numThreads (argumentsOf services call heaviest)
      verdict) (hvalid : verdict.result = .valid) :
    verdict.cumulativeDiff = workUpTo services (proposalOf services call heaviest)
        (proposalOf services call heaviest).length ∧
      verdict.PoWs = worksOf services (proposalOf services call heaviest) ∧
      verdict.keyLeader.isSome = true ∧ proposalOf services call heaviest ≠ [] := by
  have hspec := hverdict.spec hthreads hvalid argumentsOf_optimize
  rw [argumentsOf_start, argumentsOf_chainProof] at hspec
  apply hspec
  intro hone
  show heaviest.mHeaviestChainProofCumulativePoWs.take _ = _
  rw [haligned.works]
  exact worksOf_take_eq (proposalOf_take hone)

theorem TakenOver.spec (hthreads : 1 ≤ numThreads) (haligned : Aligned services heaviest)
    (htaken : TakenOver services numThreads node call heaviest verdict) :
    verdict.cumulativeDiff = workUpTo services (proposalOf services call heaviest)
        (proposalOf services call heaviest).length ∧
      verdict.PoWs = worksOf services (proposalOf services call heaviest) ∧
      verdict.keyLeader.isSome = true ∧ proposalOf services call heaviest ≠ [] :=
  htaken.verified.proposal_spec hthreads haligned htaken.valid

/-- With more than one header, or none, the path and the list of cumulative work become those of the
proposal. -/
theorem extendedBy_of_ne_one (call : UpdateCall) (haligned : Aligned services heaviest)
    (hone : heaviest.mHeaviestChainProof.length ≠ 1) :
    heaviest.extendedBy services (commonIndex services call heaviest) (proposalOf services call heaviest)
        (worksOf services (proposalOf services call heaviest)) =
      { heaviest with
        mHeaviestChainProof := proposalOf services call heaviest
        mHeaviestPath := (proposalOf services call heaviest).map services.getSHA2_256Vec
        mHeaviestPathDouble := (proposalOf services call heaviest).map services.getSHA2_256Vec
        mHeaviestChainProofCumulativePoWs := worksOf services (proposalOf services call heaviest) } := by
  have hlength : heaviest.mHeaviestPath.length = heaviest.mHeaviestChainProof.length := by
    rw [haligned.path, List.length_map]
  have hids : 1 ≤ commonIndex services call heaviest →
      (heaviest.mHeaviestChainProof.map services.getSHA2_256Vec).take
          (commonIndex services call heaviest + 1) =
        ((proposalOf services call heaviest).map services.getSHA2_256Vec).take
          (commonIndex services call heaviest + 1) := by
    intro hstart
    rw [← List.map_take, ← List.map_take, proposalOf_take hstart]
  have hpath := front_append (heaviest.mHeaviestChainProof.map services.getSHA2_256Vec)
    ((proposalOf services call heaviest).map services.getSHA2_256Vec) (List.length_map _) hone
    (commonIndex_lt services call heaviest) hids
  have hworks := front_append (worksOf services heaviest.mHeaviestChainProof)
    (worksOf services (proposalOf services call heaviest)) worksOf_length hone
    (commonIndex_lt services call heaviest) fun hstart => worksOf_take_eq (proposalOf_take hstart)
  rw [← List.map_drop] at hpath
  unfold HeaviestChain.extendedBy
  dsimp only
  rw [hlength, haligned.path, haligned.pathDouble, haligned.works, hpath, hworks]

/-- With one header they get longer than the proposal. -/
theorem extendedBy_of_one (call : UpdateCall) (haligned : Aligned services heaviest)
    (hone : heaviest.mHeaviestChainProof.length = 1) (PoWs : List ℕ) :
    (heaviest.extendedBy services (commonIndex services call heaviest)
      (proposalOf services call heaviest) PoWs).mHeaviestPath.length =
        (proposalOf services call heaviest).length + 1 := by
  have hzero : commonIndex services call heaviest = 0 := by
    have := commonIndex_lt services call heaviest
    omega
  have hlength : heaviest.mHeaviestPath.length = 1 := by
    rw [haligned.path, List.length_map, hone]
  unfold HeaviestChain.extendedBy
  dsimp only
  rw [hzero, hlength, if_pos rfl, if_neg (by omega), List.length_append, List.length_map,
    List.drop_zero, hlength]
  omega

/-! ### The leading block and the index -/

/-- The leading block after a chain-proof is taken over. A genesis block alone does not become it. -/
def leaderAfter (services : HeaderServices Trie) (heaviest : HeaviestChain Trie)
    (chainProof : List Bytes) : Option (CBlockHeader Trie) :=
  if chainProof.length ≤ 1 then heaviest.mHeaviestChainProofLeaderBlock
  else (chainProof[chainProof.length - 1]?).bind services.instantiate

/-- The index after a chain-proof is taken over: what it was, cut behind the key height of the leading
block. -/
def indexAfter (services : HeaderServices Trie) (heaviest : HeaviestChain Trie)
    (chainProof : List Bytes) : List Bytes :=
  match leaderAfter services heaviest chainProof with
  | none => heaviest.mHeaviestKeyBlockIDsAtHeights
  | some leader =>
      truncateKeyBlockIDsFromKeyHeight heaviest.mHeaviestKeyBlockIDsAtHeights
        (successor leader.getKeyHeight)

theorem leadersFrom_some {chainProof : List Bytes} {i : ℕ} {leader : CBlockHeader Trie}
    {leaders : Option (CBlockHeader Trie) × Option (CBlockHeader Trie)}
    (hleaders : leadersFrom services chainProof i (some leader) = .ok leaders) : leaders.1 = some leader := by
  induction i with
  | zero =>
      cases hleaders
      rfl
  | succ i ih =>
      unfold leadersFrom at hleaders
      split at hleaders
      next => cases hleaders
      next =>
          split at hleaders
          next => cases hleaders
          next =>
              dsimp only at hleaders
              split at hleaders
              next =>
                  cases hleaders
                  rfl
              next => exact ih hleaders

/-- The loop finds the last header of a chain-proof. -/
theorem leadersFrom_none {chainProof : List Bytes} {i : ℕ}
    {leaders : Option (CBlockHeader Trie) × Option (CBlockHeader Trie)}
    (hleaders : leadersFrom services chainProof i none = .ok leaders) :
    i = 0 ∧ leaders.1 = none ∨
      1 ≤ i ∧ ∃ leader, (chainProof[i]?).bind services.instantiate = some leader ∧
        leaders.1 = some leader := by
  cases i with
  | zero =>
      cases hleaders
      exact .inl ⟨rfl, rfl⟩
  | succ i =>
      unfold leadersFrom at hleaders
      split at hleaders
      next => cases hleaders
      next bytes hbytes =>
          split at hleaders
          next => cases hleaders
          next header hheader =>
              refine .inr ⟨Nat.succ_pos i, header, ?_, ?_⟩
              · rw [hbytes, Option.bind_some, hheader]
              · dsimp only at hleaders
                split at hleaders
                next =>
                    cases hleaders
                    rfl
                next => exact leadersFrom_some hleaders

/-- The indexes after an update, everything else unchanged. -/
theorem reindexed_spec {extended : HeaviestChain Trie} (hreindexed : extended.reindexed services = .ok after) :
    after.mHeaviestChainProof = extended.mHeaviestChainProof ∧
      after.mHeaviestPath = extended.mHeaviestPath ∧
      after.mHeaviestPathDouble = extended.mHeaviestPathDouble ∧
      after.mHeaviestChainProofCumulativePoWs = extended.mHeaviestChainProofCumulativePoWs ∧
      after.mHeaviestKeyBlockIDsAtHeights =
        indexAfter services extended extended.mHeaviestChainProof := by
  unfold HeaviestChain.reindexed HeaviestChain.updateHeaviestPathLeaders at hreindexed
  obtain ⟨led, hled, hreindexed⟩ := ok_of_bind hreindexed
  obtain ⟨leaders, hleaders, hled⟩ := ok_of_bind hled
  have hafter : (leaders.1 <|> extended.mHeaviestChainProofLeaderBlock) =
      leaderAfter services extended extended.mHeaviestChainProof := by
    unfold leaderAfter
    rcases leadersFrom_none hleaders with ⟨hshort, hnone⟩ | ⟨hlong, leader, hleader, hsome⟩
    · have hlength : extended.mHeaviestChainProof.length - 1 = 0 := hshort
      rw [hnone, if_pos (by omega)]
      rfl
    · have hlength : 1 ≤ extended.mHeaviestChainProof.length - 1 := hlong
      rw [hsome, if_neg (by omega)]
      exact hleader.symm
  cases hled
  unfold indexAfter
  rw [← hafter]
  dsimp only at hreindexed
  split at hreindexed
  next hnone =>
      cases hreindexed
      rw [hnone]
      exact ⟨rfl, rfl, rfl, rfl, rfl⟩
  next leader hsome =>
      cases hreindexed
      rw [hsome]
      exact ⟨rfl, rfl, rfl, rfl, rfl⟩

/-- A chain-proof of one header gets out of step with its path, and what solid storage holds of both is
loaded. -/
theorem TakenOver.adopt_of_one (hthreads : 1 ≤ numThreads) (haligned : Aligned services heaviest)
    (hone : heaviest.mHeaviestChainProof.length = 1)
    (htaken : TakenOver services numThreads node call heaviest verdict) :
    ∃ restored, heaviest.adopt services node call (commonPointOf services call heaviest)
        (proposalOf services call heaviest) verdict = .ok (.Error, restored) ∧
      restored.mHeaviestChainProof = heaviest.storedChainProof ∧
      restored.mHeaviestPath = heaviest.storedPath ∧
      restored.mHeaviestPathDouble = heaviest.storedPath ∧
      restored.mHeaviestChainProofCumulativePoWs = heaviest.mHeaviestChainProofCumulativePoWs ∧
      restored.mHeaviestChainProofTotalDifficulty = heaviest.mHeaviestChainProofTotalDifficulty ∧
      restored.mHeaviestKeyBlockIDsAtHeights = heaviest.mHeaviestKeyBlockIDsAtHeights := by
  obtain ⟨-, hPoWs, hleader, -⟩ := htaken.spec hthreads haligned
  obtain ⟨keyLeader, hkeyLeader⟩ := Option.isSome_iff_exists.mp hleader
  have hlength := extendedBy_of_one call haligned hone verdict.PoWs
  have hbroken : ¬ ((heaviest.extendedBy services (commonIndex services call heaviest)
        (proposalOf services call heaviest) verdict.PoWs).mHeaviestPath.length =
      (proposalOf services call heaviest).length ∧
      (proposalOf services call heaviest).length =
        (heaviest.extendedBy services (commonIndex services call heaviest)
          (proposalOf services call heaviest) verdict.PoWs).mHeaviestChainProofCumulativePoWs.length) := by
    rintro ⟨hsame, -⟩
    omega
  unfold HeaviestChain.adopt
  rw [hkeyLeader]
  exact ⟨_, if_pos hbroken, rfl, rfl, rfl, rfl, rfl, rfl⟩

/-- Otherwise everything is that of the proposal, but the index, which no key block of the proposal is
entered into. -/
theorem TakenOver.adopt_of_ne_one (hthreads : 1 ≤ numThreads) (haligned : Aligned services heaviest)
    (hone : heaviest.mHeaviestChainProof.length ≠ 1)
    (htaken : TakenOver services numThreads node call heaviest verdict)
    {updateResult : eChainProofUpdateResult}
    (hadopt : heaviest.adopt services node call (commonPointOf services call heaviest)
      (proposalOf services call heaviest) verdict = .ok (updateResult, after)) :
    updateResult = .updatedLocalBestKnown ∧ Aligned services after ∧
      after.mHeaviestChainProof = proposalOf services call heaviest ∧
      after.mHeaviestKeyBlockIDsAtHeights =
        indexAfter services heaviest (proposalOf services call heaviest) := by
  obtain ⟨hdiff, hPoWs, hleader, -⟩ := htaken.spec hthreads haligned
  obtain ⟨keyLeader, hkeyLeader⟩ := Option.isSome_iff_exists.mp hleader
  have hextended := extendedBy_of_ne_one call haligned hone
  unfold HeaviestChain.adopt at hadopt
  rw [hkeyLeader] at hadopt
  dsimp only at hadopt
  rw [← commonIndex, hPoWs, hextended] at hadopt
  dsimp only at hadopt
  rw [if_neg (by simp)] at hadopt
  obtain ⟨reindexed, hreindexed, hadopt⟩ := ok_of_bind hadopt
  obtain ⟨hchain, hpath, hpathDouble, hworks, hindex⟩ := reindexed_spec hreindexed
  split at hadopt
  next => cases hadopt
  next leadingBlockID hlast =>
      obtain ⟨activated, -, hadopt⟩ := ok_of_bind hadopt
      cases hadopt
      refine ⟨rfl, ⟨?_, ?_, ?_, ?_⟩, hchain, hindex⟩
      · show reindexed.mHeaviestPath = reindexed.mHeaviestChainProof.map services.getSHA2_256Vec
        rw [hpath, hchain]
        rfl
      · show reindexed.mHeaviestPathDouble = reindexed.mHeaviestChainProof.map services.getSHA2_256Vec
        rw [hpathDouble, hchain]
        rfl
      · show reindexed.mHeaviestChainProofCumulativePoWs = worksOf services reindexed.mHeaviestChainProof
        rw [hworks, hchain]
        rfl
      · show verdict.cumulativeDiff =
          workUpTo services reindexed.mHeaviestChainProof reindexed.mHeaviestChainProof.length
        rw [hchain]
        exact hdiff

end Adopting

/-! ### Runs -/

/-- What a call has to leave behind: everything in step where it updates, and everything as it was
elsewhere. -/
def KeptInStep (services : HeaderServices Trie) (before : HeaviestChain Trie) (report : UpdateReport)
    (after : HeaviestChain Trie) : Prop :=
  if report.updateResult = .updatedLocalBestKnown then InStep services after else Untouched before after

/-- If a proposal is taken over, a chain-proof of one header is in solid storage with its path, and with
more headers or none the index, cut behind the last header of the proposal, has its key blocks
already. -/
def SoundUpdate (services : HeaderServices Trie) (numThreads : ℕ) (node : ProofNode) (call : UpdateCall)
    (heaviest : HeaviestChain Trie) : Prop :=
  ∀ verdict, TakenOver services numThreads node call heaviest verdict →
    if heaviest.mHeaviestChainProof.length = 1 then
      heaviest.storedChainProof = heaviest.mHeaviestChainProof ∧
        heaviest.storedPath = heaviest.mHeaviestPath
    else
      KeyBlocksIndexed services (proposalOf services call heaviest)
        (indexAfter services heaviest (proposalOf services call heaviest))

section Runs

variable {services : HeaderServices Trie} {numThreads : ℕ} {node : ProofNode} {call : UpdateCall}
  {heaviest after : HeaviestChain Trie} {report : UpdateReport}

/-- One call. -/
theorem keptInStep_iff (hthreads : 1 ≤ numThreads) (hinStep : InStep services heaviest)
    (hupdates : Updates services numThreads node call heaviest report after) :
    KeptInStep services heaviest report after ↔ SoundUpdate services numThreads node call heaviest := by
  unfold KeptInStep SoundUpdate
  rcases hupdates.cases with ⟨rfl, hresult, hnone⟩ | ⟨verdict, htaken, hadopt⟩
  · rw [if_neg hresult]
    exact iff_of_true (Untouched.refl _) fun verdict htaken => absurd htaken (hnone verdict)
  · by_cases hone : heaviest.mHeaviestChainProof.length = 1
    · obtain ⟨restored, hrestored, hchain, hpath, hpathDouble, hworks, htotal, hindex⟩ :=
        htaken.adopt_of_one hthreads hinStep.toAligned hone
      obtain ⟨hresult, rfl⟩ : report.updateResult = .Error ∧ after = restored :=
        Prod.mk.inj (Except.ok.inj (hadopt.symm.trans hrestored))
      rw [if_neg (by rw [hresult]; simp)]
      simp only [if_pos hone]
      constructor
      · intro huntouched _ _
        exact ⟨hchain.symm.trans huntouched.chainProof, hpath.symm.trans huntouched.path⟩
      · intro hstored
        obtain ⟨hstoredChain, hstoredPath⟩ := hstored verdict htaken
        refine ⟨hchain.trans hstoredChain, hpath.trans hstoredPath, ?_, hworks, htotal, hindex⟩
        rw [hpathDouble, hstoredPath, hinStep.path, hinStep.pathDouble]
    · obtain ⟨hresult, haligned, hchain, hindex⟩ :=
        htaken.adopt_of_ne_one hthreads hinStep.toAligned hone hadopt
      rw [if_pos hresult]
      simp only [if_neg hone]
      constructor
      · intro hafter _ _
        have hkeys := hafter.index
        rwa [hchain, hindex] at hkeys
      · intro hindexed
        refine ⟨haligned, ?_⟩
        rw [hchain, hindex]
        exact hindexed verdict htaken

/-- A sequence of calls that meet the condition. The rest of the node may change between them. -/
inductive SoundRun (services : HeaderServices Trie) (numThreads : ℕ) (start : HeaviestChain Trie) :
    HeaviestChain Trie → Prop where
  | refl : SoundRun services numThreads start start
  | step {before after : HeaviestChain Trie} {node : ProofNode} {call : UpdateCall}
      {report : UpdateReport} :
      SoundRun services numThreads start before →
      Updates services numThreads node call before report after →
      SoundUpdate services numThreads node call before → SoundRun services numThreads start after

theorem KeptInStep.inStep (hkept : KeptInStep services heaviest report after)
    (hinStep : InStep services heaviest) : InStep services after := by
  unfold KeptInStep at hkept
  split at hkept
  · exact hkept
  · obtain ⟨hchain, hpath, hpathDouble, hworks, htotal, hindex⟩ := hkept
    refine ⟨⟨?_, ?_, ?_, ?_⟩, ?_⟩
    · rw [hpath, hchain, hinStep.path]
    · rw [hpathDouble, hchain, hinStep.pathDouble]
    · rw [hworks, hchain, hinStep.works]
    · rw [htotal, hchain, hinStep.total]
    · rw [hchain, hindex]
      exact hinStep.index

/-- The structures stay in step along every sequence of calls that meet the condition, and the next call
keeps them in step exactly if it meets it as well. -/
theorem stays_in_step (hthreads : 1 ≤ numThreads) {start : HeaviestChain Trie}
    (hstart : InStep services start) (hrun : SoundRun services numThreads start heaviest) :
    InStep services heaviest ∧
      ∀ node call report after, Updates services numThreads node call heaviest report after →
        (KeptInStep services heaviest report after ↔
          SoundUpdate services numThreads node call heaviest) := by
  have hinStep : InStep services heaviest := by
    induction hrun with
    | refl => exact hstart
    | step _ hupdates hsound ih => exact ((keptInStep_iff hthreads ih hupdates).mpr hsound).inStep ih
  exact ⟨hinStep, fun node call report after hupdates => keptInStep_iff hthreads hinStep hupdates⟩

end Runs

/-! ### The first header -/

/-- A node without any chain-proof. -/
def emptyChain (index : List Bytes) : HeaviestChain Unit where
  mHeaviestChainProof := []
  mHeaviestPath := []
  mHeaviestPathDouble := []
  mHeaviestChainProofCumulativePoWs := []
  mHeaviestChainProofTotalDifficulty := 0
  mHeaviestChainProofLeaderBlock := none
  mHeaviestChainProofLeaderKeyBlock := none
  mHeaviestChainProofLeadingBlockID := []
  mHeaviestKeyBlockIDsAtHeights := index
  storedPath := []
  storedChainProof := []

/-- The node after it took the genesis block over. -/
def genesisChain (index : List Bytes) : HeaviestChain Unit where
  mHeaviestChainProof := [[0]]
  mHeaviestPath := [[0]]
  mHeaviestPathDouble := [[0]]
  mHeaviestChainProofCumulativePoWs := [1]
  mHeaviestChainProofTotalDifficulty := 1
  mHeaviestChainProofLeaderBlock := none
  mHeaviestChainProofLeaderKeyBlock := some (loneHeader 0)
  mHeaviestChainProofLeadingBlockID := [0]
  mHeaviestKeyBlockIDsAtHeights := index
  storedPath := [[0]]
  storedChainProof := [[0]]

theorem emptyChain_inStep (index : List Bytes) : InStep loneServices (emptyChain index) := by
  refine ⟨⟨rfl, rfl, rfl, rfl⟩, ?_⟩
  intro bytes hbytes
  cases hbytes

/-- What the caller learns where a chain-proof of one key block is taken over. -/
def takenOverReport (chainProof : List Bytes) : UpdateReport where
  updateResult := .updatedLocalBestKnown
  result := some .valid
  totalDiffOfNewChainProof := some 1
  resultingCompleteChainProof := chainProof

/-- The genesis block and data blocks that are received are indexed where the index has the genesis block. -/
theorem epoch_indexed {proposal : List Bytes}
    (hproposal : ∀ bytes ∈ proposal, bytes = [0] ∨ bytes = [1] ∨ bytes = [2]) :
    KeyBlocksIndexed (epochServices 100) proposal [List.replicate 32 (0 : UInt8)] := by
  intro bytes hbytes header hheader hkey
  rcases hproposal bytes hbytes with rfl | rfl | rfl
  · cases hheader
    rfl
  · cases hheader
    cases hkey
  · cases hheader
    cases hkey

/-- A node whose heaviest chain-proof is the genesis block with data blocks up to a leading one. -/
def epochChain (leading : UInt8) (heights : List UInt8) : HeaviestChain Unit where
  mHeaviestChainProof := heights.map fun height => [height]
  mHeaviestPath := heights.map fun height => List.replicate 31 (0 : UInt8) ++ [height]
  mHeaviestPathDouble := heights.map fun height => List.replicate 31 (0 : UInt8) ++ [height]
  mHeaviestChainProofCumulativePoWs := heights.map fun _ => 1
  mHeaviestChainProofTotalDifficulty := 1
  mHeaviestChainProofLeaderBlock := some (epochHeader 100 leading.toNat)
  mHeaviestChainProofLeaderKeyBlock := some (epochHeader 100 0)
  mHeaviestChainProofLeadingBlockID := List.replicate 31 (0 : UInt8) ++ [leading]
  mHeaviestKeyBlockIDsAtHeights := [List.replicate 32 (0 : UInt8)]
  storedPath := heights.map fun height => List.replicate 31 (0 : UInt8) ++ [height]
  storedChainProof := heights.map fun height => [height]

/-- A node stays in step whose index knows the genesis block, when it receives that with a data block, and then a
chain-proof that has the data block in common. -/
theorem epoch_in_step : InStep (epochServices 100) (epochChain 2 [0, 1, 2]) := by
  have hstart : InStep (epochServices 100) (emptyChain [List.replicate 32 (0 : UInt8)]) := by
    refine ⟨⟨rfl, rfl, rfl, rfl⟩, ?_⟩
    intro bytes hbytes
    cases hbytes
  have hfirst : Updates (epochServices 100) 4 freshNode { subChain := [[0], [1]] }
    (emptyChain [List.replicate 32 (0 : UInt8)]) (takenOverReport [[0], [1]]) (epochChain 1 [0, 1]) := ⟨0, rfl⟩
  have hsecond : Updates (epochServices 100) 4 freshNode { subChain := [[1], [2]] } (epochChain 1 [0, 1])
    (takenOverReport [[0], [1], [2]]) (epochChain 2 [0, 1, 2]) := ⟨0, rfl⟩
  have hsound : SoundUpdate (epochServices 100) 4 freshNode { subChain := [[0], [1]] }
      (emptyChain [List.replicate 32 (0 : UInt8)]) := by
    intro verdict _
    rw [if_neg (by decide)]
    refine epoch_indexed fun bytes hbytes => ?_
    have hmem : bytes ∈ ([[0], [1]] : List Bytes) := hbytes
    simp only [List.mem_cons, List.not_mem_nil, or_false] at hmem
    tauto
  have hsound' : SoundUpdate (epochServices 100) 4 freshNode { subChain := [[1], [2]] } (epochChain 1 [0, 1]) := by
    intro verdict _
    rw [if_neg (by decide)]
    refine epoch_indexed fun bytes hbytes => ?_
    have hmem : bytes ∈ ([[0], [1], [2]] : List Bytes) := hbytes
    simpa using hmem
  exact (stays_in_step (by decide) hstart (.step (.step .refl hfirst hsound) hsecond hsound')).1

/-- A node with an empty index does not: the genesis block is never entered into it. -/
theorem genesis_not_indexed :
    InStep loneServices (emptyChain []) ∧
      ∃ report after, Updates loneServices 4 freshNode { subChain := [[0]] } (emptyChain []) report after ∧
        ¬ KeptInStep loneServices (emptyChain []) report after := by
  have hupdates : Updates loneServices 4 freshNode { subChain := [[0]] } (emptyChain []) (takenOverReport [[0]])
    (genesisChain []) := ⟨0, rfl⟩
  refine ⟨emptyChain_inStep [], _, _, hupdates, ?_⟩
  intro hkept
  have hinStep : InStep loneServices (genesisChain []) := hkept.inStep (emptyChain_inStep [])
  have hindexed := hinStep.index [0] (List.mem_singleton.mpr rfl) (loneHeader 0) rfl rfl
  cases hindexed

end Gridnet
