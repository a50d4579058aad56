import Gridnet.IncrementalVerification

/-! The cumulative work of a chain-proof as a sum, and what an accepted verification leaves of it, whatever
its starting position. -/

namespace Gridnet

variable {Trie : Type}

section Sums

variable (services : HeaderServices Trie)

/-- What a header adds to the cumulative work. -/
def keyDifficulty (bytes : Bytes) : ℕ :=
  match services.instantiate bytes with
  | none => 0
  | some header => if header.isKeyBlock then services.getDifficulty header else 0

/-- The difficulties of the key blocks among the first headers. -/
def workUpTo (chainProof : List Bytes) (n : ℕ) : ℕ :=
  ((chainProof.take n).map (keyDifficulty services)).sum % 2 ^ 64

/-- The cumulative work at every header. -/
def worksOf (chainProof : List Bytes) : List ℕ :=
  (List.range chainProof.length).map fun i => workUpTo services chainProof (i + 1)

variable {services} {chainProof : List Bytes}

@[simp] theorem worksOf_length : (worksOf services chainProof).length = chainProof.length := by
  simp [worksOf]

theorem worksOf_getElem? {i : ℕ} (hi : i < chainProof.length) :
    (worksOf services chainProof)[i]? = some (workUpTo services chainProof (i + 1)) := by
  unfold worksOf
  rw [List.getElem?_map, List.getElem?_range hi]
  rfl

/-- A front of the list depends on that front of the chain-proof only. -/
theorem worksOf_take_eq {chainProof' : List Bytes} {n : ℕ}
    (hfront : chainProof.take n = chainProof'.take n) :
    (worksOf services chainProof).take n = (worksOf services chainProof').take n := by
  have hlengths := congrArg List.length hfront
  rw [List.length_take, List.length_take] at hlengths
  apply List.ext_getElem?
  intro i
  rcases Nat.lt_or_ge i n with hin | hni
  · rw [List.getElem?_take_of_lt hin, List.getElem?_take_of_lt hin]
    by_cases hi : i < chainProof.length
    · have hi' : i < chainProof'.length := by omega
      have hsame : chainProof.take (i + 1) = chainProof'.take (i + 1) := by
        have htake := congrArg (List.take (i + 1)) hfront
        rwa [List.take_take, List.take_take, Nat.min_eq_left (by omega)] at htake
      rw [worksOf_getElem? hi, worksOf_getElem? hi']
      unfold workUpTo
      rw [hsame]
    · have hi' : ¬ i < chainProof'.length := by omega
      rw [List.getElem?_eq_none (by rw [worksOf_length]; omega),
        List.getElem?_eq_none (by rw [worksOf_length]; omega)]
  · rw [List.getElem?_eq_none (by rw [List.length_take]; omega),
      List.getElem?_eq_none (by rw [List.length_take]; omega)]

/-- One more header. -/
theorem addWork_workUpTo {n : ℕ} (hn : n < chainProof.length)
    (hdecodes : (services.instantiate chainProof[n]).isSome = true) :
    addWork services (workUpTo services chainProof n, (worksOf services chainProof).take n)
        chainProof[n] =
      (workUpTo services chainProof (n + 1), (worksOf services chainProof).take (n + 1)) := by
  obtain ⟨header, hheader⟩ := Option.isSome_iff_exists.mp hdecodes
  have hnext : workUpTo services chainProof (n + 1) =
      (((chainProof.take n).map (keyDifficulty services)).sum +
        keyDifficulty services chainProof[n]) % 2 ^ 64 := by
    unfold workUpTo
    rw [← List.take_concat_get' chainProof n hn, List.map_append, List.sum_append]
    simp
  have hdiff : (if header.isKeyBlock then
        (workUpTo services chainProof n + services.getDifficulty header) % 2 ^ 64
      else workUpTo services chainProof n) = workUpTo services chainProof (n + 1) := by
    have hadds : keyDifficulty services chainProof[n] =
        if header.isKeyBlock then services.getDifficulty header else 0 := by
      unfold keyDifficulty
      rw [hheader]
    rw [hnext, hadds]
    unfold workUpTo
    split
    · rw [Nat.mod_add_mod]
    · rw [Nat.add_zero]
  have htake : (worksOf services chainProof).take (n + 1) =
      (worksOf services chainProof).take n ++ [workUpTo services chainProof (n + 1)] := by
    rw [List.take_add_one, worksOf_getElem? hn]
    rfl
  unfold addWork
  rw [hheader]
  dsimp only
  rw [hdiff, htake]

/-- The rest of the headers. -/
theorem foldl_addWork_drop {n : ℕ} (hn : n ≤ chainProof.length)
    (hdecodes : ∀ bytes ∈ chainProof.drop n, (services.instantiate bytes).isSome = true) :
    (chainProof.drop n).foldl (addWork services)
        (workUpTo services chainProof n, (worksOf services chainProof).take n) =
      (workUpTo services chainProof chainProof.length, worksOf services chainProof) := by
  induction hrest : chainProof.length - n generalizing n with
  | zero =>
      have hend : n = chainProof.length := by omega
      rw [hend, List.drop_length, List.foldl_nil, List.take_of_length_le (by rw [worksOf_length])]
  | succ k ih =>
      have hlt : n < chainProof.length := by omega
      have hcons := List.drop_eq_getElem_cons hlt
      rw [hcons] at hdecodes
      rw [hcons, List.foldl_cons, addWork_workUpTo hlt (hdecodes _ List.mem_cons_self)]
      apply ih hlt
      · intro bytes hbytes
        exact hdecodes bytes (List.mem_cons_of_mem _ hbytes)
      · omega

end Sums

/-! ### What an accepted run leaves -/

section Final

variable {services : HeaderServices Trie} {node : ProofNode} {call : ProofArguments Trie}
  {start : ProofStart Trie} {checkpoints : List CBCheckpoint} {startFromPosition : ℕ}
  {st : ScanState Trie}

/-- Where a run begins: at the position asked for and with the work of the node, or at the genesis
block. -/
theorem prepareStart_cases (hstart : prepareStart services node call = .ok start)
    (hzero : call.optimize = false → call.startFromPosition = 0) :
    start.optimizing = true ∧ 1 ≤ call.startFromPosition ∧
        start.startFromPosition = call.startFromPosition ∧
        start.PoWs = node.mHeaviestChainProofCumulativePoWs.take (call.startFromPosition + 1) ∨
      start.optimizing = false ∧ start.startFromPosition = 0 := by
  unfold prepareStart at hstart
  dsimp only at hstart
  split at hstart
  next hoptimize =>
      have hone : 1 ≤ call.startFromPosition := by
        simp only [Bool.and_eq_true, decide_eq_true_eq] at hoptimize
        exact hoptimize.2
      split at hstart
      · cases hstart
      · split at hstart
        · obtain ⟨cumulativeDiff, -, hstart⟩ := ok_of_bind hstart
          obtain ⟨previousHeaderHash, -, hstart⟩ := ok_of_bind hstart
          obtain ⟨parent, -, hstart⟩ := ok_of_bind hstart
          cases hstart
          exact .inl ⟨rfl, hone, rfl, rfl⟩
        · cases hstart
          exact .inr ⟨rfl, rfl⟩
  next hoptimize =>
      cases hstart
      refine .inr ⟨rfl, ?_⟩
      cases hflag : call.optimize with
      | false => exact hzero hflag
      | true =>
          rw [hflag, Bool.true_and, decide_eq_true_eq] at hoptimize
          show call.startFromPosition = 0
          omega

/-- The work before the first header of an optimized run. -/
theorem initialState_work (hst : Sequential.initialState services node call start (some startFromPosition) =
    .ok st) : startingWork node start startFromPosition = .ok st.work := by
  obtain ⟨work, hwork, hrest⟩ := ok_of_bind hst
  have hsame : st.work = work := by
    by_cases hone : 1 ≤ Sequential.fixedStart (some startFromPosition)
    · dsimp only at hrest
      rw [if_pos hone] at hrest
      obtain ⟨parent, -, hst⟩ := ok_of_bind hrest
      cases hst
      rfl
    · dsimp only at hrest
      rw [if_neg hone] at hrest
      cases hrest
      rfl
  rw [hsame]
  exact hwork

/-- A run that passes all checks ends with the work of the whole chain-proof, if the list of the node is
right up to the starting position. -/
theorem Ready.final_work (hready : Ready services node call start checkpoints startFromPosition st)
    (hshared : PassesCommon services node call start checkpoints startFromPosition st)
    (hzero : call.optimize = false → call.startFromPosition = 0)
    (hworks : 1 ≤ call.startFromPosition →
      node.mHeaviestChainProofCumulativePoWs.take (call.startFromPosition + 1) =
        (worksOf services call.chainProof).take (call.startFromPosition + 1)) :
    ((call.elementsFrom startFromPosition).foldl
      (Sequential.next (scanContext services node call start checkpoints startFromPosition)) st).work =
      (workUpTo services call.chainProof call.chainProof.length, worksOf services call.chainProof) := by
  obtain ⟨hupTo, bytes, header, hbytes, hheader, hkey, -⟩ := findStart_some hready.found
  have hcons := ProofArguments.elementsFrom_eq_cons hbytes
  have hlt := (List.getElem?_eq_some_iff.mp hbytes).1
  have hwork := initialState_work hready.initial
  have helements : ∀ n, (call.elementsFrom n).map Prod.fst = call.chainProof.drop n := by
    intro n
    unfold ProofArguments.elementsFrom
    rw [List.map_drop, List.zipIdx_map_fst]
  have hdecodes : ∀ bytes ∈ call.chainProof.drop startFromPosition,
      (services.instantiate bytes).isSome = true := by
    intro bytes hmem
    rw [← helements startFromPosition] at hmem
    obtain ⟨element, helement, rfl⟩ := List.mem_map.mp hmem
    exact hshared.decodes helement
  rcases prepareStart_cases hready.prepared hzero with ⟨hoptimizing, hone, hposition, hPoWs⟩ | ⟨hfull, hposition⟩
  · -- The first key block finds its work in the list.
    rw [hposition] at hupTo
    unfold startingWork at hwork
    rw [if_pos hoptimizing] at hwork
    obtain ⟨cumulativeDiff, hindexed, hrest⟩ := ok_of_bind hwork
    rw [indexed_eq_ok_iff, hPoWs, hworks hone, List.getElem?_take_of_lt (Nat.lt_succ_of_le hupTo),
      worksOf_getElem? hlt] at hindexed
    cases hindexed
    have hfront : node.mHeaviestChainProofCumulativePoWs.take (startFromPosition + 1) =
        (worksOf services call.chainProof).take (startFromPosition + 1) := by
      have htake := congrArg (List.take (startFromPosition + 1)) (hworks hone)
      rwa [List.take_take, List.take_take, Nat.min_eq_left (Nat.succ_le_succ hupTo)] at htake
    rw [hfront] at hrest
    have hstate : st.work = (workUpTo services call.chainProof (startFromPosition + 1),
        (worksOf services call.chainProof).take (startFromPosition + 1)) := (Except.ok.inj hrest).symm
    have hfirst : (Sequential.next (scanContext services node call start checkpoints startFromPosition) st
        (bytes, startFromPosition)).work = st.work := by
      rw [next_of_some (show (scanContext services node call start checkpoints
        startFromPosition).services.instantiate (bytes, startFromPosition).1 = some header from hheader)]
      unfold Sequential.advance
      rw [hkey, show ((scanContext services node call start checkpoints startFromPosition).optimizing &&
        (bytes, startFromPosition).2 == (scanContext services node call start checkpoints
          startFromPosition).startFromPosition) = true by simp [scanContext, hoptimizing]]
      rfl
    have hlater : ∀ element ∈ call.elementsFrom (startFromPosition + 1),
        (scanContext services node call start checkpoints startFromPosition).optimizing = false ∨
          element.2 ≠ (scanContext services node call start checkpoints
            startFromPosition).startFromPosition := by
      intro element hmem
      have := (Parallel.mem_drop_zipIdx.mp hmem).1
      right
      show element.2 ≠ startFromPosition
      omega
    rw [hcons, List.foldl_cons, foldl_next_work _ _ hlater, hfirst, hstate, helements]
    apply foldl_addWork_drop (Nat.succ_le_of_lt hlt)
    intro bytes hmem
    exact hdecodes bytes (List.drop_subset_drop_left _ (Nat.le_succ _) hmem)
  · rw [hposition, Nat.le_zero] at hupTo
    subst hupTo
    unfold startingWork at hwork
    rw [if_neg (by rw [hfull]; simp)] at hwork
    have hstate : st.work = (0, []) := (Except.ok.inj hwork).symm
    rw [foldl_next_work _ _ fun _ _ => .inl (show (scanContext services node call start checkpoints
      0).optimizing = false from hfull), hstate, helements]
    exact foldl_addWork_drop (Nat.zero_le _) hdecodes

end Final

end Gridnet
