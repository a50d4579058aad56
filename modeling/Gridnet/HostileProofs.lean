import Gridnet.VerifiersAgree

/-! Chain-proofs from a hostile peer: where the verifiers read behind the end of a list, never come to an
end or return with the lock of the heaviest path still held, and exactly which node states and
chain-proofs spare them that. -/

namespace Gridnet

open Parallel (Decodes AllSigned Outdated CutsCleanly keysFrom)

variable {Trie : Type}

/-! ### Reads behind the end -/

section Reads

variable {services : HeaderServices Trie} {node : ProofNode} {call : ProofArguments Trie}

/-- The path of the heaviest chain is long enough for an optimized start. -/
def PathReaches (node : ProofNode) (call : ProofArguments Trie) : Prop :=
  call.optimize = true → 1 ≤ call.startFromPosition →
    call.startFromPosition < node.mHeaviestChainProofCumulativePoWs.length →
    call.startFromPosition ≤ node.mHeaviestPath.length

/-- A run does not stop at a crash. -/
def Crashless {α : Type} (run : Except (ProofStop Trie) α) : Prop :=
  ∀ reason, run ≠ .error (.crash reason)

theorem crashless_ok {α : Type} (a : α) : Crashless (.ok a : Except (ProofStop Trie) α) := by
  intro reason hrun
  cases hrun

theorem crashless_verdict {α : Type} (verdict : ProofVerdict Trie) :
    Crashless (.error (.verdict verdict) : Except (ProofStop Trie) α) := by
  intro reason hrun
  cases hrun

theorem Crashless.bind {α β : Type} {run : Except (ProofStop Trie) α}
    {f : α → Except (ProofStop Trie) β} (hrun : Crashless run)
    (hf : ∀ a, run = .ok a → Crashless (f a)) : Crashless (run >>= f) := by
  intro reason hcrash
  cases run with
  | error stop =>
      cases hcrash
      exact hrun reason rfl
  | ok a => exact hf a rfl reason hcrash

theorem crashless_indexed {α : Type} {vector : List α} {i : ℕ} (hi : i < vector.length) :
    Crashless (indexed vector i : Except (ProofStop Trie) α) := by
  unfold indexed
  rw [List.getElem?_eq_getElem hi]
  exact crashless_ok _

theorem crashless_orRefused {α : Type} (x : Except ProofExit α) : Crashless (orRefused call x) := by
  cases x with
  | error exit => exact crashless_verdict _
  | ok a => exact crashless_ok a

theorem prepareStart_crashless_iff (hstart : call.startFromPosition < call.chainProof.length) :
    Crashless (prepareStart services node call) ↔ PathReaches node call := by
  unfold prepareStart PathReaches
  dsimp only
  by_cases hoptimize : call.optimize = true ∧ 1 ≤ call.startFromPosition
  · rw [if_pos (by simpa using hoptimize)]
    by_cases hlong : node.mHeaviestChainProofCumulativePoWs.length ≠ 0 ∧
        node.mHeaviestChainProofCumulativePoWs.length - 1 < call.startFromPosition
    · rw [if_pos hlong]
      refine ⟨fun _ _ _ hlt => ?_, fun _ => crashless_verdict _⟩
      omega
    · rw [if_neg hlong]
      by_cases hsome : node.mHeaviestChainProofCumulativePoWs.length ≠ 0
      · rw [if_pos hsome]
        have hwork : call.startFromPosition <
            (node.mHeaviestChainProofCumulativePoWs.take (call.startFromPosition + 1)).length := by
          rw [List.length_take]
          omega
        constructor
        · intro hcrashless _ _ _
          by_contra hpath
          have hnone : node.mHeaviestPath[call.startFromPosition - 1]? = none :=
            List.getElem?_eq_none (by omega)
          apply hcrashless .outOfRange
          unfold indexed
          rw [List.getElem?_eq_getElem hwork, hnone]
          rfl
        · intro hpath
          have hreaches := hpath hoptimize.1 hoptimize.2 (by omega)
          apply (crashless_indexed hwork).bind
          intro cumulativeDiff _
          apply (crashless_indexed (by omega)).bind
          intro previousHeaderHash _
          apply (crashless_indexed (by omega)).bind
          intro parent _
          exact crashless_ok _
      · rw [if_neg hsome]
        refine ⟨fun _ _ _ hlt => ?_, fun _ => crashless_ok _⟩
        omega
  · rw [if_neg (by simpa using hoptimize)]
    refine ⟨fun _ hopt hone => absurd ⟨hopt, hone⟩ hoptimize, fun _ => crashless_ok _⟩

theorem prepareStart_le {start : ProofStart Trie} (hprepared : prepareStart services node call = .ok start) :
    start.startFromPosition ≤ call.startFromPosition := by
  unfold prepareStart at hprepared
  dsimp only at hprepared
  split at hprepared
  · split at hprepared
    · cases hprepared
    · split at hprepared
      · obtain ⟨cumulativeDiff, -, hprepared⟩ := ok_of_bind hprepared
        obtain ⟨previousHeaderHash, -, hprepared⟩ := ok_of_bind hprepared
        obtain ⟨parent, -, hprepared⟩ := ok_of_bind hprepared
        cases hprepared
        exact le_rfl
      · cases hprepared
        exact Nat.zero_le _
  · cases hprepared
    exact le_rfl

theorem findStart_crashless {i : ℕ} (hi : i < call.chainProof.length) :
    Crashless (findStart services call i) := by
  induction i with
  | zero =>
      apply (crashless_indexed hi).bind
      intro bytes _
      split
      · exact crashless_verdict _
      · split
        · exact crashless_ok _
        · split
          · exact crashless_verdict _
          · exact crashless_ok _
  | succ i ih =>
      apply (crashless_indexed hi).bind
      intro bytes _
      split
      · exact crashless_verdict _
      · split
        · exact ih (by omega)
        · split
          · exact crashless_verdict _
          · exact crashless_ok _

/-! ### Checkpoints -/

/-- Every checkpoint whose hash is compared has a place in the list it is compared with. -/
def CheckpointsInRange (services : HeaderServices Trie) (node : ProofNode)
    (call : ProofArguments Trie) : Prop :=
  ∀ (i : ℕ) (checkpoint : CBCheckpoint), node.mCheckpoints[i]? = some checkpoint →
    checkpoint.obligatory = false → checkpoint.mHeight ≤ call.chainProof.length - 1 →
    if call.isHeaviestChainProof then
      call.chainProof ≠ [] → checkpoint.mHeight < node.mHeaviestPath.length
    else
      (∃ leading, call.chainProof.getLast? = some leading ∧
        (services.instantiate leading).isSome = true) → i < call.chainProof.length

theorem activates_ok_iff {checkpoint : CBCheckpoint} {i : ℕ} :
    (∃ isActivated, activates services node call checkpoint i = .ok isActivated) ↔
      (checkpoint.obligatory = false → checkpoint.mHeight ≤ call.chainProof.length - 1 →
        if call.isHeaviestChainProof then checkpoint.mHeight < node.mHeaviestPath.length
        else i < call.chainProof.length) := by
  unfold activates
  cases hobligatory : checkpoint.obligatory with
  | true => simp
  | false =>
      by_cases hheight : call.chainProof.length - 1 < checkpoint.mHeight
      · simp [hheight]
      · simp only [Bool.false_eq_true, if_false, if_neg hheight]
        cases hheaviest : call.isHeaviestChainProof with
        | true =>
            by_cases hlt : checkpoint.mHeight < node.mHeaviestPath.length
            · simp [hlt]
            · simp [hlt]
              omega
        | false =>
            by_cases hlt : i < call.chainProof.length
            · simp [hlt]
            · simp [hlt]
              omega

theorem activateFrom_ok_iff {checkpoints : List CBCheckpoint} {i : ℕ} :
    (∃ activated, activateFrom services node call checkpoints i = .ok activated) ↔
      ∀ (k : ℕ) (checkpoint : CBCheckpoint), checkpoints[k]? = some checkpoint →
        ∃ isActivated, activates services node call checkpoint (i + k) = .ok isActivated := by
  induction checkpoints generalizing i with
  | nil => simp [activateFrom]
  | cons first rest ih =>
      constructor
      · rintro ⟨activated, hrun⟩ k checkpoint hget
        obtain ⟨isActivated, hfirst, hrun⟩ := ok_of_bind hrun
        obtain ⟨activated', hrest, -⟩ := ok_of_bind hrun
        cases k with
        | zero =>
            cases hget
            exact ⟨isActivated, hfirst⟩
        | succ k =>
            have hlater := ih.mp ⟨activated', hrest⟩ k checkpoint (by simpa using hget)
            rw [show i + 1 + k = i + (k + 1) by omega] at hlater
            exact hlater
      · intro hall
        obtain ⟨isActivated, hfirst⟩ := hall 0 first rfl
        have hlater : ∀ (k : ℕ) (checkpoint : CBCheckpoint), rest[k]? = some checkpoint →
            ∃ isActivated, activates services node call checkpoint (i + 1 + k) = .ok isActivated := by
          intro k checkpoint hget
          rw [show i + 1 + k = i + (k + 1) by omega]
          exact hall (k + 1) checkpoint (by simpa using hget)
        obtain ⟨activated, hrest⟩ := ih.mpr hlater
        refine ⟨if isActivated then first.setIsActive true :: activated else activated, ?_⟩
        unfold activateFrom
        rw [show activates services node call first i = .ok isActivated from hfirst]
        show (activateFrom services node call rest (i + 1) >>= _) = _
        rw [hrest]
        rfl

theorem activateCheckpoints_ok_iff :
    (∃ checkpoints, activateCheckpoints services node call = .ok checkpoints) ↔
      CheckpointsInRange services node call := by
  have hinactive : (∃ activated, activateFrom services node call
      (node.mCheckpoints.map fun checkpoint => checkpoint.setIsActive false) 0 = .ok activated) ↔
        ∀ (i : ℕ) (checkpoint : CBCheckpoint), node.mCheckpoints[i]? = some checkpoint →
          checkpoint.obligatory = false → checkpoint.mHeight ≤ call.chainProof.length - 1 →
          if call.isHeaviestChainProof then checkpoint.mHeight < node.mHeaviestPath.length
          else i < call.chainProof.length := by
    rw [activateFrom_ok_iff]
    constructor
    · intro hall i checkpoint hget
      have hone := activates_ok_iff.mp (hall i (checkpoint.setIsActive false) (by simp [hget]))
      simpa [CBCheckpoint.setIsActive] using hone
    · intro hall i checkpoint hget
      rw [List.getElem?_map] at hget
      obtain ⟨original, horiginal, rfl⟩ := Option.map_eq_some_iff.mp hget
      apply activates_ok_iff.mpr
      simpa [CBCheckpoint.setIsActive] using hall i original horiginal
  unfold CheckpointsInRange activateCheckpoints
  dsimp only
  cases hheaviest : call.isHeaviestChainProof with
  | true =>
      simp only [hheaviest, if_true] at hinactive ⊢
      by_cases hempty : call.chainProof.length = 0
      · rw [if_pos hempty]
        have hnil : call.chainProof = [] := List.length_eq_zero_iff.mp hempty
        simp [hnil]
      · rw [if_neg hempty, hinactive]
        have hne : call.chainProof ≠ [] := by
          intro hnil
          exact hempty (by rw [hnil]; rfl)
        simp [hne]
  | false =>
      simp only [hheaviest, Bool.false_eq_true, if_false] at hinactive ⊢
      cases hlast : call.chainProof.getLast? with
      | none => simp
      | some leading =>
          cases hheader : services.instantiate leading with
          | none => simp [hheader]
          | some header => simp [hheader, hinactive]

end Reads

/-! ### The lock -/

section Lock

variable {call : ProofArguments Trie}

/-- A call that returns, with the lock released as often as it was acquired. -/
def Settled (outcome : Except Crash (ProofVerdict Trie)) : Prop :=
  ∃ verdict, outcome = .ok verdict ∧ verdict.released = verdict.acquired

theorem refused_balanced_iff {exit : ProofExit} :
    (call.refused exit).released = (call.refused exit).acquired ↔
      (call.heaviestChainLocked = true → exit.unlocks = true) := by
  unfold ProofArguments.refused
  cases call.heaviestChainLocked with
  | true => cases exit.unlocks <;> simp
  | false => simp

theorem accepted_balanced (st : ScanState Trie) :
    (call.accepted st).released = (call.accepted st).acquired := rfl

/-- A run that refuses harmlessly settles where it does not crash. -/
theorem settled_concluded_iff {run : Except (ProofStop Trie) (ProofVerdict Trie)}
    (hrefuses : Refuses call Harmless run)
    (haccepts : ∀ verdict, run = .ok verdict → ∃ st, verdict = call.accepted st) :
    Settled (concluded run) ↔ Crashless run := by
  unfold Settled
  constructor
  · rintro ⟨verdict, hok, -⟩ reason rfl
    cases hok
  · intro hcrashless
    cases run with
    | error stop =>
        cases stop with
        | crash reason => exact absurd rfl (hcrashless reason)
        | verdict verdict =>
            obtain ⟨exit, rfl, -, hunlocks⟩ := hrefuses verdict rfl
            exact ⟨_, rfl, refused_balanced_iff.mpr fun _ => hunlocks⟩
    | ok verdict =>
        obtain ⟨st, rfl⟩ := haccepts verdict rfl
        exact ⟨_, rfl, accepted_balanced st⟩

end Lock

/-! ### The sequential verifier -/

namespace Sequential

section Survives

variable (services : HeaderServices Trie) (node : ProofNode) (call : ProofArguments Trie)

/-- Every header up to a position is a data block. -/
def OnlyDataBlocks (position : ℕ) : Prop :=
  ∀ j ≤ position, ∃ bytes header, call.chainProof[j]? = some bytes ∧
    services.instantiate bytes = some header ∧ header.isKeyBlock = false

/-- What spares the sequential verifier all reads behind an end. -/
structure Spared : Prop where
  path : PathReaches node call
  checkpoints : ∀ start, prepareStart services node call = .ok start →
    CheckpointsInRange services node call
  key : ∀ start checkpoints, prepareStart services node call = .ok start →
    activateCheckpoints services node call = .ok checkpoints →
    (call.requireCheckpoints && node.getRequireObligatoryCheckpoints &&
      checkpoints.any (missesCheckpoint services node call)) = false →
    ¬ OnlyDataBlocks services call start.startFromPosition

variable {services node call}

theorem findStart_zero_none :
    findStart services call 0 = .ok none ↔ ∃ bytes header, call.chainProof[0]? = some bytes ∧
      services.instantiate bytes = some header ∧ header.isKeyBlock = false := by
  rw [findStart, indexed]
  cases hget : call.chainProof[0]? with
  | none => simp [bind, Except.bind]
  | some bytes =>
      cases hheader : services.instantiate bytes with
      | none => simp [bind, Except.bind, hheader]
      | some header =>
          cases hkey : header.isKeyBlock with
          | true =>
              by_cases hlength : header.getPubKey.length = 32
              · simp [bind, Except.bind, hheader, hkey, hlength]
              · simp [bind, Except.bind, hheader, hkey, hlength]
          | false => simp [bind, Except.bind, hheader, hkey]

theorem findStart_succ_none (i : ℕ) :
    findStart services call (i + 1) = .ok none ↔ ∃ bytes header, call.chainProof[i + 1]? = some bytes ∧
      services.instantiate bytes = some header ∧ header.isKeyBlock = false ∧ findStart services call i = .ok none := by
  rw [findStart, indexed]
  cases hget : call.chainProof[i + 1]? with
  | none => simp [bind, Except.bind]
  | some bytes =>
      cases hheader : services.instantiate bytes with
      | none => simp [bind, Except.bind, hheader]
      | some header =>
          cases hkey : header.isKeyBlock with
          | true =>
              by_cases hlength : header.getPubKey.length = 32
              · simp [bind, Except.bind, hheader, hkey, hlength]
              · simp [bind, Except.bind, hheader, hkey, hlength]
          | false => simp [bind, Except.bind, hheader, hkey]

theorem findStart_none_iff (i : ℕ) :
    findStart services call i = .ok none ↔ OnlyDataBlocks services call i := by
  induction i with
  | zero =>
      refine findStart_zero_none.trans ?_
      constructor
      · rintro ⟨bytes, header, hget, hheader, hkey⟩ j hj
        rw [Nat.le_zero.mp hj]
        exact ⟨bytes, header, hget, hheader, hkey⟩
      · intro hall
        exact hall 0 le_rfl
  | succ i ih =>
      refine (findStart_succ_none i).trans ?_
      constructor
      · rintro ⟨bytes, header, hget, hheader, hkey, hrest⟩ j hj
        rcases Nat.le_succ_iff.mp hj with hlt | rfl
        · exact ih.mp hrest j hlt
        · exact ⟨bytes, header, hget, hheader, hkey⟩
      · intro hall
        obtain ⟨bytes, header, hget, hheader, hkey⟩ := hall (i + 1) le_rfl
        exact ⟨bytes, header, hget, hheader, hkey,
          ih.mpr fun j hj => hall j (Nat.le_succ_of_le hj)⟩

theorem startingWork_crashless {start : ProofStart Trie} {startFromPosition : ℕ}
    (hworks : start.optimizing = true → startFromPosition < start.PoWs.length) :
    Crashless (startingWork node start startFromPosition) := by
  unfold startingWork
  split
  next hoptimizing =>
      apply (crashless_indexed (hworks hoptimizing)).bind
      intro cumulativeDiff _
      exact crashless_ok _
  next => exact crashless_ok _

/-- An optimized start has the work of every position up to it. -/
theorem prepareStart_works {start : ProofStart Trie}
    (hprepared : prepareStart services node call = .ok start) (hoptimizing : start.optimizing = true) :
    start.startFromPosition < start.PoWs.length := by
  unfold prepareStart at hprepared
  dsimp only at hprepared
  split at hprepared
  · split at hprepared
    · cases hprepared
    · split at hprepared
      · obtain ⟨cumulativeDiff, hdiff, hprepared⟩ := ok_of_bind hprepared
        obtain ⟨previousHeaderHash, -, hprepared⟩ := ok_of_bind hprepared
        obtain ⟨parent, -, hprepared⟩ := ok_of_bind hprepared
        cases hprepared
        rw [indexed_eq_ok_iff] at hdiff
        exact (List.getElem?_eq_some_iff.mp hdiff).1
      · cases hprepared
        cases hoptimizing
  · cases hprepared
    cases hoptimizing

theorem initialState_crashless {start : ProofStart Trie} {startFromPosition : ℕ}
    (hprepared : prepareStart services node call = .ok start)
    (hle : startFromPosition ≤ start.startFromPosition)
    (hlt : startFromPosition < call.chainProof.length) :
    Crashless (initialState services node call start (some startFromPosition)) := by
  apply (startingWork_crashless fun hoptimizing =>
    Nat.lt_of_le_of_lt hle (prepareStart_works hprepared hoptimizing)).bind
  intro work _
  dsimp only
  split
  · have hbefore : fixedStart (some startFromPosition) - 1 < call.chainProof.length := by
      show startFromPosition - 1 < call.chainProof.length
      omega
    apply (crashless_indexed hbefore).bind
    intro parent _
    exact crashless_ok _
  · exact crashless_ok _

/-- Where no key block was found, the position before zero is read. -/
theorem initialState_none_crashes (hsize : call.chainProof.length < 2 ^ 63) (start : ProofStart Trie) :
    ¬ Crashless (initialState services node call start none) := by
  intro hcrashless
  cases hinitial : initialState services node call start none with
  | ok st => exact initialState_none hsize start st hinitial
  | error stop =>
      cases stop with
      | crash reason => exact hcrashless reason hinitial
      | verdict verdict =>
          have hnever : Refuses call (fun _ => False) (initialState services node call start none) :=
            refuses_initialState start none
          obtain ⟨-, -, hfalse⟩ := hnever verdict hinitial
          exact hfalse

theorem run_crashless_iff (hsize : call.chainProof.length < 2 ^ 63)
    (hstart : call.startFromPosition < call.chainProof.length) :
    Crashless (run services node call) ↔ Spared services node call := by
  have hempty : call.chainProof.length ≠ 0 := by omega
  constructor
  · intro hcrashless
    have hactivated : ∀ start, prepareStart services node call = .ok start →
        CheckpointsInRange services node call := by
      intro start hprepared
      by_contra hrange
      rw [← activateCheckpoints_ok_iff] at hrange
      cases hactivate : activateCheckpoints services node call with
      | ok checkpoints => exact hrange ⟨checkpoints, hactivate⟩
      | error reason =>
          apply hcrashless reason
          unfold run
          rw [hprepared]
          show (if call.chainProof.length = 0 then _ else _) = _
          rw [if_neg hempty, hactivate]
          rfl
    refine ⟨?_, hactivated, ?_⟩
    · have hprepare : Crashless (prepareStart services node call) := by
        intro reason hcrash
        apply hcrashless reason
        unfold run
        rw [hcrash]
        rfl
      exact (prepareStart_crashless_iff hstart).mp hprepare
    · intro start checkpoints hprepared hactivate hmissing honly
      have hnone := (findStart_none_iff _).mpr honly
      have hcrashes : ¬ Crashless (initialState services node call start none) :=
        initialState_none_crashes hsize start
      apply hcrashes
      intro reason hinitial
      apply hcrashless reason
      unfold run
      rw [hprepared]
      show (if call.chainProof.length = 0 then _ else _) = _
      rw [if_neg hempty, hactivate]
      show (if _ then _ else _) = _
      rw [if_neg (by rw [hmissing]; simp), hnone]
      show (initialState services node call start none >>= _) = _
      rw [hinitial]
      rfl
  · rintro ⟨hpath, hrange, hkey⟩
    apply ((prepareStart_crashless_iff hstart).mpr hpath).bind
    intro start hprepared
    rw [if_neg hempty]
    obtain ⟨checkpoints, hactivate⟩ := activateCheckpoints_ok_iff.mpr (hrange start hprepared)
    rw [hactivate]
    show Crashless (if _ then _ else _)
    split
    next => exact crashless_verdict _
    next hmissing =>
        have hle := prepareStart_le hprepared
        apply (findStart_crashless (by omega)).bind
        intro found hfound
        cases found with
        | none =>
            have honly := (findStart_none_iff _).mp hfound
            exact absurd honly (hkey start checkpoints hprepared hactivate (by simpa using hmissing))
        | some startFromPosition =>
            obtain ⟨hbefore, -⟩ := findStart_some hfound
            apply (initialState_crashless hprepared hbefore (by omega)).bind
            intro st _
            apply (crashless_orRefused _).bind
            intro st' _
            split
            · exact crashless_verdict _
            · exact crashless_ok _

/-- Exactly what the sequential verifier survives. -/
theorem settled_iff (hsize : call.chainProof.length < 2 ^ 63)
    (hstart : call.startFromPosition < call.chainProof.length) :
    Settled (verifyChainProof services node call) ↔ Spared services node call := by
  unfold verifyChainProof
  rw [settled_concluded_iff (refuses_run services node call), run_crashless_iff hsize hstart]
  intro verdict hrun
  obtain ⟨start, -, hrun⟩ := ok_of_bind hrun
  split at hrun
  next => cases hrun
  next =>
      obtain ⟨checkpoints, -, hrun⟩ := ok_of_bind hrun
      split at hrun
      next => cases hrun
      next =>
          obtain ⟨found, -, hrun⟩ := ok_of_bind hrun
          obtain ⟨st, -, hrun⟩ := ok_of_bind hrun
          obtain ⟨st', -, hrun⟩ := ok_of_bind hrun
          split at hrun
          next => cases hrun
          next =>
              cases hrun
              exact ⟨st', rfl⟩

end Survives

end Sequential

/-! ### The multi-threaded verifier -/

namespace Parallel

open Ranges

section Survives

variable (services : HeaderServices Trie) (node : ProofNode) (call : ProofArguments Trie)

/-- The final pass stops at a check whose return does not release the lock: the first failing check
of the first failing header is one of the key height, the parent key block or the parent. -/
def StopsLocked (ctx : ScanContext Trie) (st : ScanState Trie) : Prop :=
  ∃ (k : ℕ) (hk : k < (ctx.call.elementsFrom ctx.startFromPosition).length),
    Scan.Passes (Checked ctx) (next ctx) st ((ctx.call.elementsFrom ctx.startFromPosition).take k) ∧
    ∃ header exit,
      ctx.services.instantiate (ctx.call.elementsFrom ctx.startFromPosition)[k].1 = some header ∧
      firstFailure (headerChecks ctx
        (((ctx.call.elementsFrom ctx.startFromPosition).take k).foldl (next ctx) st)
        (ctx.call.elementsFrom ctx.startFromPosition)[k].2
        (ctx.call.elementsFrom ctx.startFromPosition)[k].1 header) = some exit ∧
      exit.unlocks = false

/-- What spares the multi-threaded verifier endless turns, reads behind an end and a forgotten lock. -/
structure Spared (numThreads : ℕ) : Prop where
  path : PathReaches node call
  begun : ∀ start startFromPosition startHeader st, prepareStart services node call = .ok start →
    findStart services call start.startFromPosition = .ok (some startFromPosition) →
    (call.chainProof[startFromPosition]?).bind services.instantiate = some startHeader →
    initialState services node call start startFromPosition startHeader = .ok st →
    numThreads ≠ 0 ∧
    ((∀ element ∈ call.elementsFrom startFromPosition, Decodes services element) →
      CutsCleanly (keysFrom services call.chainProof startFromPosition) call.chainProof.length
        startFromPosition numThreads ∧
      (¬ Outdated services startHeader ∧
          AllSigned services [] (call.elementsFrom startFromPosition) →
        CheckpointsInRange services node call ∧
        ∀ checkpoints, activateCheckpoints services node call = .ok checkpoints →
          (call.requireCheckpoints && node.getRequireObligatoryCheckpoints &&
            checkpoints.any (missesCheckpoint services node call
              [(startFromPosition, call.chainProof.length)])) = false →
          call.heaviestChainLocked = true →
          ¬ StopsLocked (scanContext services node call start checkpoints startFromPosition) st))

/-- A call that returns in the end, and settles when it does. -/
def Settles (numThreads : ℕ) : Prop :=
  (∃ fuel, (verifyChainProofMT services node call numThreads fuel).isSome = true) ∧
    ∀ fuel outcome, verifyChainProofMT services node call numThreads fuel = some outcome →
      Settled outcome

variable {services node call}

theorem stopsLocked_iff {ctx : ScanContext Trie} {st : ScanState Trie} :
    StopsLocked ctx st ↔
      ∃ exit, (ctx.call.elementsFrom ctx.startFromPosition).foldlM (verifyElement ctx) st = .error exit ∧
        exit.unlocks = false := by
  simp only [Scan.foldlM_error_iff (verifyElement_ok_iff ctx)]
  unfold StopsLocked
  constructor
  · rintro ⟨k, hk, hpasses, header, exit, hheader, hfailure, hlocked⟩
    refine ⟨exit, ⟨k, hk, hpasses, ?_⟩, hlocked⟩
    unfold verifyElement
    rw [hheader]
    dsimp only
    rw [hfailure]
  · rintro ⟨exit, ⟨k, hk, hpasses, hfail⟩, hlocked⟩
    unfold verifyElement at hfail
    split at hfail
    next =>
        cases hfail
        cases hlocked
    next header hheader =>
        split at hfail
        next exit' hfailure =>
            cases hfail
            exact ⟨k, hk, hpasses, header, _, hheader, hfailure, hlocked⟩
        next => cases hfail

/-- The second and third phase, over a layout without an empty chunk. -/
theorem verifyInChunks_settled_iff {start : ProofStart Trie} {startFromPosition : ℕ}
    {startHeader : CBlockHeader Trie} {st : ScanState Trie} {chunks : List (ℕ × ℕ)}
    (hlt : startFromPosition < call.chainProof.length)
    (hcover : Cover chunks startFromPosition call.chainProof.length)
    (hkeys : ∀ chunk ∈ chunks, chunk.1 ∈ keysFrom services call.chainProof startFromPosition)
    (hstart : ∀ bytes, call.chainProof[startFromPosition]? = some bytes →
      isKeyElement services (bytes, startFromPosition) = true)
    (hproper : ∀ chunk ∈ chunks, chunk.1 < chunk.2) :
    Settled (concluded
        (verifyInChunks services node call start startFromPosition startHeader st chunks)) ↔
      (¬ Outdated services startHeader ∧
          AllSigned services [] (call.elementsFrom startFromPosition) →
        CheckpointsInRange services node call ∧
        ∀ checkpoints, activateCheckpoints services node call = .ok checkpoints →
          (call.requireCheckpoints && node.getRequireObligatoryCheckpoints &&
            checkpoints.any (missesCheckpoint services node call
              [(startFromPosition, call.chainProof.length)])) = false →
          call.heaviestChainLocked = true →
          ¬ StopsLocked (scanContext services node call start checkpoints startFromPosition) st) := by
  have hsigned := verifyChunks_signed_iff hlt hcover hkeys hstart startHeader
  have hnone : ∀ exit : ProofExit, Harmless exit →
      Settled (.ok (call.refused exit) : Except Crash (ProofVerdict Trie)) :=
    fun exit hexit => ⟨_, rfl, refused_balanced_iff.mpr fun _ => hexit.2⟩
  unfold verifyInChunks
  rw [missesCheckpoint_eq hlt hcover]
  cases hrun : verifyChunks services call.chainProof startHeader chunks with
  | error reason =>
      exfalso
      obtain ⟨-, chunk, hchunk, hempty⟩ := verifyChunks_error_iff.mp hrun
      obtain ⟨-, -, hend⟩ := hcover.within hchunk
      have hbelow := hproper chunk hchunk
      rw [show chunk = (chunk.1, chunk.2) from rfl, slice_cons (by omega) hbelow hend] at hempty
      cases hempty
  | ok outcomes =>
      cases houtcomes : outcomes with
      | error exit =>
          have hharmless := verifyChunks_harmless hrun houtcomes
          refine ⟨fun _ hpremise => ?_, fun _ => hnone exit hharmless⟩
          obtain ⟨leaders, hleaders⟩ := hsigned.mpr ⟨hproper, hpremise.1, hpremise.2⟩
          rw [hrun, houtcomes] at hleaders
          cases hleaders
      | ok leaders =>
          rw [houtcomes] at hrun
          have hpremise : ¬ Outdated services startHeader ∧
              AllSigned services [] (call.elementsFrom startFromPosition) :=
            (hsigned.mp ⟨leaders, hrun⟩).2
          rw [forall_prop_of_true hpremise]
          show Settled (concluded (orCrash (activateCheckpoints services node call) >>= _)) ↔ _
          cases hactivate : activateCheckpoints services node call with
          | error reason =>
              constructor
              · rintro ⟨verdict, hverdict, -⟩
                cases hverdict
              · rintro ⟨hrange, -⟩
                obtain ⟨checkpoints, hok⟩ := activateCheckpoints_ok_iff.mpr hrange
                rw [hactivate] at hok
                cases hok
          | ok checkpoints =>
              have hrange := activateCheckpoints_ok_iff.mp ⟨checkpoints, hactivate⟩
              rw [and_iff_right hrange]
              simp only [Except.ok.injEq, forall_eq']
              show Settled (concluded (if _ then _ else _)) ↔ _
              split
              next hmissing =>
                  refine ⟨fun _ hclear => ?_, fun _ => hnone _ (by simp [Harmless])⟩
                  rw [hmissing] at hclear
                  cases hclear
              next hmissing =>
                  rw [Bool.not_eq_true] at hmissing
                  rw [forall_prop_of_true hmissing, stopsLocked_iff]
                  have hscan := Scan.foldlM_congr (call.elementsFrom startFromPosition)
                    (fun element hmem st => verifyHeader_eq (scanContext services node call start
                      checkpoints startFromPosition) hcover st hmem) st
                  show Settled (concluded (orRefused call ((call.elementsFrom
                    startFromPosition).foldlM (fun st => verifyHeader (scanContext services node call
                      start checkpoints startFromPosition) st chunks) st) >>= _)) ↔ _
                  rw [hscan]
                  cases hfold : (call.elementsFrom startFromPosition).foldlM (verifyElement
                      (scanContext services node call start checkpoints startFromPosition)) st with
                  | error exit =>
                      have hfold' : ((scanContext services node call start checkpoints
                        startFromPosition).call.elementsFrom (scanContext services node call start
                        checkpoints startFromPosition).startFromPosition).foldlM (verifyElement
                        (scanContext services node call start checkpoints startFromPosition)) st =
                          .error exit := hfold
                      rw [hfold']
                      constructor
                      · rintro ⟨verdict, hverdict, hbalanced⟩ hlocked ⟨exit', hexit', hkeeps⟩
                        cases hverdict
                        cases hexit'
                        rw [refused_balanced_iff.mp hbalanced hlocked] at hkeeps
                        cases hkeeps
                      · intro hclear
                        refine ⟨_, rfl, refused_balanced_iff.mpr fun hlocked => ?_⟩
                        by_contra hkeeps
                        exact hclear hlocked ⟨exit, rfl, by simpa using hkeeps⟩
                  | ok st' =>
                      have hfold' : ((scanContext services node call start checkpoints
                        startFromPosition).call.elementsFrom (scanContext services node call start
                        checkpoints startFromPosition).startFromPosition).foldlM (verifyElement
                        (scanContext services node call start checkpoints startFromPosition)) st =
                          .ok st' := hfold
                      rw [hfold']
                      constructor
                      · rintro - - ⟨exit, hexit, -⟩
                        cases hexit
                      · intro _
                        show Settled (concluded (if _ then _ else _))
                        split
                        · exact hnone _ (by simp [Harmless])
                        · exact ⟨_, rfl, accepted_balanced st'⟩

theorem prepare_ok_threads {numThreads : ℕ} {prepared : Prepared Trie}
    (hprepare : prepare services node call numThreads = .ok prepared) : 1 ≤ numThreads := by
  obtain ⟨start, -, hrun⟩ := ok_of_bind hprepare
  split at hrun
  next => cases hrun
  next =>
      obtain ⟨found, -, hrun⟩ := ok_of_bind hrun
      split at hrun
      next => cases hrun
      next =>
          split at hrun
          next => cases hrun
          next =>
              obtain ⟨st, -, hrun⟩ := ok_of_bind hrun
              split at hrun
              next => cases hrun
              next hthreads => omega

theorem initialState_crashless {start : ProofStart Trie} {startFromPosition : ℕ}
    {startHeader : CBlockHeader Trie} (hprepared : prepareStart services node call = .ok start)
    (hle : startFromPosition ≤ start.startFromPosition)
    (hlt : startFromPosition < call.chainProof.length) :
    Crashless (initialState services node call start startFromPosition startHeader) := by
  apply (Sequential.startingWork_crashless fun hoptimizing =>
    Nat.lt_of_le_of_lt hle (Sequential.prepareStart_works hprepared hoptimizing)).bind
  intro work _
  dsimp only
  split
  · have hbefore : startFromPosition - 1 < call.chainProof.length := by omega
    apply (crashless_indexed hbefore).bind
    intro parent _
    split
    · exact crashless_verdict _
    · exact crashless_ok _
  · exact crashless_ok _

theorem prepare_crashless_iff (services : HeaderServices Trie) (node : ProofNode) (numThreads : ℕ)
    (hstart : call.startFromPosition < call.chainProof.length) :
    Crashless (prepare services node call numThreads) ↔
      PathReaches node call ∧
        ∀ start startFromPosition startHeader st, prepareStart services node call = .ok start →
          findStart services call start.startFromPosition = .ok (some startFromPosition) →
          (call.chainProof[startFromPosition]?).bind services.instantiate = some startHeader →
          initialState services node call start startFromPosition startHeader = .ok st →
          numThreads ≠ 0 := by
  have hempty : call.chainProof.length ≠ 0 := by omega
  constructor
  · intro hcrashless
    constructor
    · have hprepare : Crashless (prepareStart services node call) := by
        intro reason hcrash
        apply hcrashless reason
        unfold prepare
        rw [hcrash]
        rfl
      exact (prepareStart_crashless_iff hstart).mp hprepare
    · rintro start startFromPosition startHeader st hprepared hfound hheader hst rfl
      apply hcrashless .divisionByZero
      unfold prepare
      rw [hprepared]
      show (if call.chainProof.length = 0 then _ else _) = _
      rw [if_neg hempty, hfound]
      dsimp only [bind, Except.bind]
      rw [hheader]
      show (initialState services node call start startFromPosition startHeader >>= _) = _
      rw [hst]
      rfl
  · rintro ⟨hpath, hthreads⟩
    apply ((prepareStart_crashless_iff hstart).mpr hpath).bind
    intro start hprepared
    rw [if_neg hempty]
    have hle := prepareStart_le hprepared
    apply (findStart_crashless (by omega)).bind
    intro found hfound
    split
    next => exact crashless_verdict _
    next startFromPosition =>
        obtain ⟨hbefore, -⟩ := findStart_some hfound
        split
        next => exact crashless_verdict _
        next startHeader hheader =>
            apply (initialState_crashless hprepared hbefore (by omega)).bind
            intro st hst
            rw [if_neg (hthreads start startFromPosition startHeader st hprepared hfound hheader hst)]
            apply (crashless_orRefused _).bind
            intro keys _
            exact crashless_ok _

/-- Once the run is prepared: it settles when the chunks are cut cleanly and the later phases do. -/
theorem prepared_settles_iff {numThreads : ℕ} {prepared : Prepared Trie}
    (hprepare : prepare services node call numThreads = .ok prepared) :
    Settles services node call numThreads ↔
      CutsCleanly prepared.keys call.chainProof.length prepared.startFromPosition numThreads ∧
      (¬ Outdated services prepared.startHeader ∧
          AllSigned services [] (call.elementsFrom prepared.startFromPosition) →
        CheckpointsInRange services node call ∧
        ∀ checkpoints, activateCheckpoints services node call = .ok checkpoints →
          (call.requireCheckpoints && node.getRequireObligatoryCheckpoints &&
            checkpoints.any (missesCheckpoint services node call
              [(prepared.startFromPosition, call.chainProof.length)])) = false →
          call.heaviestChainLocked = true →
          ¬ StopsLocked (scanContext services node call prepared.start checkpoints
            prepared.startFromPosition) prepared.st) := by
  have hthreads := prepare_ok_threads hprepare
  obtain ⟨-, hfound, -, -, -, hkeys⟩ := (prepare_ok_iff hthreads prepared).mp hprepare
  obtain ⟨hlt, hkeyed, hstartKey⟩ := prepare_ok_start hthreads hprepare
  unfold Settles
  rw [cutsCleanly_iff hkeyed]
  simp only [verifyChainProofMT_prepared hprepare, Option.isSome_map, Option.map_eq_some_iff]
  constructor
  · rintro ⟨⟨fuel, hsome⟩, hsettled⟩
    obtain ⟨outcome, houtcome⟩ := Option.isSome_iff_exists.mp hsome
    have hone := hsettled fuel _ ⟨outcome, houtcome, rfl⟩
    cases outcome with
    | error reason =>
        obtain ⟨verdict, hverdict, -⟩ := hone
        cases hverdict
    | ok chunks =>
        obtain ⟨hcover, hstarts⟩ := prepareChunks_cover hkeyed houtcome
        have hproper : ∀ chunk ∈ chunks, chunk.1 < chunk.2 := by
          by_contra hempty
          push Not at hempty
          obtain ⟨chunk, hchunk, hle⟩ := hempty
          have hcrash : verifyChunks services call.chainProof prepared.startHeader chunks =
              .error .outOfRange :=
            verifyChunks_error_iff.mpr ⟨rfl, chunk, hchunk, slice_eq_nil hle⟩
          obtain ⟨verdict, hverdict, -⟩ := hone
          change concluded (verifyInChunks services node call prepared.start
            prepared.startFromPosition prepared.startHeader prepared.st chunks) = _ at hverdict
          unfold verifyInChunks at hverdict
          rw [hcrash] at hverdict
          cases hverdict
        refine ⟨⟨fuel, chunks, houtcome, hproper⟩, ?_⟩
        rw [hkeys] at hstarts
        exact (verifyInChunks_settled_iff hlt hcover hstarts hstartKey hproper).mp hone
  · rintro ⟨⟨fuel, chunks, houtcome, hproper⟩, hlater⟩
    refine ⟨⟨fuel, by rw [houtcome]; rfl⟩, ?_⟩
    rintro fuel' outcome ⟨chunks', houtcome', rfl⟩
    cases prepareChunks_unique houtcome houtcome'
    obtain ⟨hcover, hstarts⟩ := prepareChunks_cover hkeyed houtcome
    rw [hkeys] at hstarts
    exact (verifyInChunks_settled_iff hlt hcover hstarts hstartKey hproper).mpr hlater

/-- Exactly what the multi-threaded verifier survives. -/
theorem settles_iff {numThreads : ℕ} (hstart : call.startFromPosition < call.chainProof.length) :
    Settles services node call numThreads ↔ Spared services node call numThreads := by
  have hcrashless := prepare_crashless_iff services node numThreads hstart
  cases hprepare : prepare services node call numThreads with
  | error stop =>
      have hMT : ∀ fuel, verifyChainProofMT services node call numThreads fuel =
          some (concluded (.error stop)) := by
        intro fuel
        unfold verifyChainProofMT
        rw [hprepare]
      rw [hprepare] at hcrashless
      constructor
      · rintro ⟨-, hsettled⟩
        have hone := hsettled 0 _ (hMT 0)
        have hnocrash : Crashless (.error stop : Except (ProofStop Trie) (Prepared Trie)) := by
          rintro reason hreason
          cases hreason
          obtain ⟨verdict, hverdict, -⟩ := hone
          cases hverdict
        obtain ⟨hpath, hthreads⟩ := hcrashless.mp hnocrash
        refine ⟨hpath, ?_⟩
        intro start startFromPosition startHeader st hprepared hfound hheader hst
        have hne := hthreads start startFromPosition startHeader st hprepared hfound hheader hst
        refine ⟨hne, fun hdecodes => ?_⟩
        have hthreads' : 1 ≤ numThreads := Nat.one_le_iff_ne_zero.mpr hne
        have hok := (prepare_ok_iff hthreads' ⟨start, startFromPosition, startHeader, st,
          keysFrom services call.chainProof startFromPosition⟩).mpr
            ⟨hprepared, hfound, hheader, hst, hdecodes, rfl⟩
        rw [hprepare] at hok
        cases hok
      · rintro ⟨hpath, hbegun⟩
        have hnocrash := hcrashless.mpr ⟨hpath, fun start startFromPosition startHeader st hprepared
          hfound hheader hst => (hbegun start startFromPosition startHeader st hprepared hfound hheader
            hst).1⟩
        refine ⟨⟨0, by rw [hMT]; rfl⟩, ?_⟩
        intro fuel outcome houtcome
        rw [hMT] at houtcome
        cases houtcome
        cases stop with
        | crash reason => exact absurd rfl (hnocrash reason)
        | verdict verdict =>
            obtain ⟨exit, rfl, hharmless⟩ := refuses_prepare services node call numThreads verdict hprepare
            exact ⟨_, rfl, refused_balanced_iff.mpr fun _ => hharmless.2⟩
  | ok prepared =>
      have hthreads := prepare_ok_threads hprepare
      obtain ⟨hprepared, hfound, hheader, hst, hdecodes, hkeys⟩ :=
        (prepare_ok_iff hthreads prepared).mp hprepare
      rw [prepared_settles_iff hprepare]
      rw [hprepare] at hcrashless
      obtain ⟨hpath, -⟩ := hcrashless.mp (crashless_ok prepared)
      constructor
      · rintro ⟨hclean, hlater⟩
        refine ⟨hpath, ?_⟩
        intro start startFromPosition startHeader st hprepared' hfound' hheader' hst'
        cases hprepared.symm.trans hprepared'
        cases hfound.symm.trans hfound'
        cases hheader.symm.trans hheader'
        cases hst.symm.trans hst'
        refine ⟨by omega, fun _ => ⟨?_, hlater⟩⟩
        rw [← hkeys]
        exact hclean
      · rintro ⟨-, hbegun⟩
        obtain ⟨-, hrest⟩ := hbegun _ _ _ _ hprepared hfound hheader hst
        obtain ⟨hclean, hlater⟩ := hrest hdecodes
        rw [← hkeys] at hclean
        exact ⟨hclean, hlater⟩

end Survives

end Parallel

/-! ### Both verifiers -/

/-- Both verifiers return, read nothing behind an end and release the lock as often as they take it. -/
def SurvivesProof (services : HeaderServices Trie) (node : ProofNode) (call : ProofArguments Trie)
    (numThreads : ℕ) : Prop :=
  Settled (Sequential.verifyChainProof services node call) ∧
    Parallel.Settles services node call numThreads

/-- Exactly which chain-proofs the verifiers survive. -/
theorem proof_survived_iff (services : HeaderServices Trie) (node : ProofNode)
    (call : ProofArguments Trie) (numThreads : ℕ) (hsize : call.chainProof.length < 2 ^ 63)
    (hstart : call.startFromPosition < call.chainProof.length) :
    SurvivesProof services node call numThreads ↔
      Sequential.Spared services node call ∧ Parallel.Spared services node call numThreads := by
  unfold SurvivesProof
  rw [Sequential.settled_iff hsize hstart, Parallel.settles_iff hstart]

/-- A genesis block with two data blocks is survived. -/
theorem epoch_survived : SurvivesProof (epochServices 100) freshNode epochProof 4 := by
  refine (proof_survived_iff (epochServices 100) freshNode epochProof 4 (by decide) (by decide)).mpr ⟨?_, ?_⟩
  · refine ⟨fun hoptimize => (by cases hoptimize), ?_, ?_⟩
    · intro start _ i checkpoint hget
      cases hget
    · intro start checkpoints _ _ _ honly
      obtain ⟨bytes, header, hget, hheader, hdata⟩ := honly 0 (Nat.zero_le _)
      cases hget
      cases hheader
      cases hdata
  · refine ⟨fun hoptimize => (by cases hoptimize), ?_⟩
    intro start startFromPosition startHeader st hprepared hfound _ _
    cases hprepared
    cases hfound
    refine ⟨by decide, fun _ => ⟨.inl (.inl rfl), fun _ => ⟨?_, ?_⟩⟩⟩
    · intro i checkpoint hget
      cases hget
    · intro checkpoints _ _ hlocked
      cases hlocked

/-- A node that knows two headers, and an optimized call whose second header names no parent. -/
def knowingNode : ProofNode :=
  { freshNode with
    mHeaviestChainProofCumulativePoWs := [1, 2]
    mHeaviestPath := [[0], [1]] }

def orphanCall : ProofArguments Unit :=
  { chainProof := [[0], [1]]
    startFromPosition := 1
    optimize := true }

/-- It is refused with the lock of the heaviest path still held. -/
theorem orphan_keeps_lock : ¬ SurvivesProof loneServices knowingNode orphanCall 4 := by
  rintro ⟨-, -, hsettled⟩
  have hrun : ∃ verdict,
      Parallel.verifyChainProofMT loneServices knowingNode orphanCall 4 0 = some (.ok verdict) ∧
        verdict.acquired = 1 ∧ verdict.released = 0 := ⟨_, rfl, rfl, rfl⟩
  obtain ⟨verdict, hverdict, hacquired, hreleased⟩ := hrun
  obtain ⟨verdict', hsame, hbalanced⟩ := hsettled 0 _ hverdict
  cases hsame
  rw [hacquired, hreleased] at hbalanced
  cases hbalanced

end Gridnet
