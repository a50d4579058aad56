import Gridnet.GuardedScan
import Gridnet.SequentialVerifier

/-! What the sequential verifier accepts: every header of the scanned part decodes and passes all checks
at the state that the headers before it lead to. The rest of a run is straight-line code, and no way out
of it but the last reports a valid chain-proof. -/

namespace Gridnet

variable {Trie : Type}

/-! ### Lists of checks -/

theorem firstFailure_eq_none_iff {checks : List (Bool × ProofExit)} :
    firstFailure checks = none ↔ ∀ check ∈ checks, check.1 = false := by
  unfold firstFailure
  rw [Option.map_eq_none_iff, List.find?_eq_none]
  simp

theorem firstFailure_mem {checks : List (Bool × ProofExit)} {exit : ProofExit}
    (hfailure : firstFailure checks = some exit) : ∃ check ∈ checks, check.2 = exit := by
  obtain ⟨check, hfind, hexit⟩ := Option.map_eq_some_iff.mp hfailure
  exact ⟨check, List.mem_of_find?_eq_some hfind, hexit⟩

/-! ### Ways out -/

/-- An early end does not report a valid chain-proof. -/
def Invalid (exit : ProofExit) : Prop := exit.result ≠ .valid

/-- An early end that releases the lock as well. -/
def Harmless (exit : ProofExit) : Prop := exit.result ≠ .valid ∧ exit.unlocks = true

/-- Every early end of a run is a refusal of a kind. -/
def Refuses {α : Type} (call : ProofArguments Trie) (kind : ProofExit → Prop)
    (run : Except (ProofStop Trie) α) : Prop :=
  ∀ verdict, run = .error (.verdict verdict) → ∃ exit, verdict = call.refused exit ∧ kind exit

section Refuses

variable {α β : Type} {call : ProofArguments Trie} {kind : ProofExit → Prop}

theorem refuses_ok (a : α) : Refuses call kind (.ok a) := by
  intro verdict hrun
  cases hrun

theorem Refuses.bind {run : Except (ProofStop Trie) α} {f : α → Except (ProofStop Trie) β}
    (hrun : Refuses call kind run) (hf : ∀ a, Refuses call kind (f a)) :
    Refuses call kind (run >>= f) := by
  intro verdict hverdict
  cases run with
  | error stop =>
      cases hverdict
      exact hrun verdict rfl
  | ok a => exact hf a verdict hverdict

theorem Refuses.mono {kind' : ProofExit → Prop} {run : Except (ProofStop Trie) α}
    (hrun : Refuses call kind run) (hkind : ∀ exit, kind exit → kind' exit) :
    Refuses call kind' run := by
  intro verdict hverdict
  obtain ⟨exit, hexit, hexitKind⟩ := hrun verdict hverdict
  exact ⟨exit, hexit, hkind exit hexitKind⟩

theorem refuses_refused {exit : ProofExit} (hexit : kind exit) :
    Refuses call kind (.error (.verdict (call.refused exit)) : Except (ProofStop Trie) α) := by
  intro verdict hverdict
  cases hverdict
  exact ⟨exit, rfl, hexit⟩

theorem refuses_indexed (vector : List α) (i : ℕ) : Refuses call kind (indexed vector i) := by
  intro verdict hverdict
  unfold indexed at hverdict
  cases hget : vector[i]? with
  | none =>
      rw [hget] at hverdict
      cases hverdict
  | some a =>
      rw [hget] at hverdict
      cases hverdict

theorem refuses_orCrash (x : Except Crash α) : Refuses call kind (orCrash x) := by
  intro verdict hverdict
  cases x with
  | error reason => cases hverdict
  | ok a => cases hverdict

theorem refuses_orRefused {x : Except ProofExit α} (hx : ∀ exit, x = .error exit → kind exit) :
    Refuses call kind (orRefused call x) := by
  intro verdict hverdict
  cases x with
  | error exit =>
      cases hverdict
      exact ⟨exit, rfl, hx exit rfl⟩
  | ok a => cases hverdict

/-- A valid verdict comes from the end of the run. -/
theorem concluded_eq_ok_iff {run : Except (ProofStop Trie) (ProofVerdict Trie)}
    (hrun : Refuses call Invalid run) {verdict : ProofVerdict Trie} (hvalid : verdict.result = .valid) :
    concluded run = .ok verdict ↔ run = .ok verdict := by
  constructor
  · intro hconcluded
    cases run with
    | error stop =>
        cases stop with
        | crash reason => cases hconcluded
        | verdict refused =>
            cases hconcluded
            obtain ⟨exit, rfl, hinvalid⟩ := hrun verdict rfl
            exact absurd hvalid hinvalid
    | ok accepted =>
        cases hconcluded
        rfl
  · rintro rfl
    rfl

theorem orCrash_eq_ok_iff {x : Except Crash α} {a : α} :
    (orCrash x : Except (ProofStop Trie) α) = .ok a ↔ x = .ok a := by
  cases x with
  | error reason => simp [orCrash]
  | ok b => simp [orCrash]

theorem orRefused_eq_ok_iff {x : Except ProofExit α} {a : α} :
    orRefused call x = .ok a ↔ x = .ok a := by
  cases x with
  | error reason => simp [orRefused]
  | ok b => simp [orRefused]

theorem indexed_eq_ok_iff {vector : List α} {i : ℕ} {a : α} :
    (indexed vector i : Except (ProofStop Trie) α) = .ok a ↔ vector[i]? = some a := by
  unfold indexed
  cases vector[i]? with
  | none => simp
  | some b => simp

end Refuses

/-! ### Where a run begins -/

section Start

variable (services : HeaderServices Trie) (node : ProofNode) (call : ProofArguments Trie)

theorem refuses_prepareStart : Refuses call Harmless (prepareStart services node call) := by
  unfold prepareStart
  dsimp only
  split
  · split
    · exact refuses_refused (by simp [Harmless])
    · split
      · apply (refuses_indexed _ _).bind
        intro cumulativeDiff
        apply (refuses_indexed _ _).bind
        intro previousHeaderHash
        apply (refuses_indexed _ _).bind
        intro parent
        exact refuses_ok _
      · exact refuses_ok _
  · exact refuses_ok _

theorem refuses_findStart (i : ℕ) : Refuses call Harmless (findStart services call i) := by
  induction i with
  | zero =>
      apply (refuses_indexed _ _).bind
      intro bytes
      split
      · exact refuses_refused (by simp [Harmless])
      · split
        · exact refuses_ok _
        · split
          · exact refuses_refused (by simp [Harmless])
          · exact refuses_ok _
  | succ i ih =>
      apply (refuses_indexed _ _).bind
      intro bytes
      split
      · exact refuses_refused (by simp [Harmless])
      · split
        · exact ih
        · split
          · exact refuses_refused (by simp [Harmless])
          · exact refuses_ok _

theorem refuses_startingWork {kind : ProofExit → Prop} (start : ProofStart Trie)
    (startFromPosition : ℕ) : Refuses call kind (startingWork node start startFromPosition) := by
  unfold startingWork
  split
  · apply (refuses_indexed _ _).bind
    intro cumulativeDiff
    exact refuses_ok _
  · exact refuses_ok _

variable {services node call}

/-- The checkpoints depend on the chain-proof and on which one it is. -/
theorem activateCheckpoints_congr {call' : ProofArguments Trie} (hproof : call'.chainProof = call.chainProof)
    (hwhich : call'.whichOne = call.whichOne) :
    activateCheckpoints services node call' = activateCheckpoints services node call := by
  have hturn : ∀ checkpoint i,
      activates services node call' checkpoint i = activates services node call checkpoint i := by
    intro checkpoint i
    unfold activates ProofArguments.isHeaviestChainProof
    rw [hproof, hwhich]
  have hfrom : ∀ checkpoints i,
      activateFrom services node call' checkpoints i = activateFrom services node call checkpoints i := by
    intro checkpoints
    induction checkpoints with
    | nil =>
        intro i
        rfl
    | cons checkpoint rest ih =>
        intro i
        unfold activateFrom
        rw [hturn, ih]
  unfold activateCheckpoints ProofArguments.isHeaviestChainProof
  simp only [hfrom, hproof, hwhich]

/-- The start that is found is a key block with a key of the right length. -/
theorem findStart_some {i start : ℕ} (hfound : findStart services call i = .ok (some start)) :
    start ≤ i ∧ ∃ bytes header, call.chainProof[start]? = some bytes ∧
      services.instantiate bytes = some header ∧ header.isKeyBlock = true ∧
        header.getPubKey.length = 32 := by
  induction i with
  | zero =>
      obtain ⟨bytes, hbytes, hrest⟩ := ok_of_bind hfound
      rw [indexed_eq_ok_iff] at hbytes
      split at hrest
      next => cases hrest
      next header hheader =>
          split at hrest
          next => cases hrest
          next hkey =>
              split at hrest
              next => cases hrest
              next hlength =>
                  cases hrest
                  exact ⟨le_rfl, bytes, header, hbytes, hheader, by simpa using hkey,
                    by simpa using hlength⟩
  | succ i ih =>
      obtain ⟨bytes, hbytes, hrest⟩ := ok_of_bind hfound
      rw [indexed_eq_ok_iff] at hbytes
      split at hrest
      next => cases hrest
      next header hheader =>
          split at hrest
          next =>
              obtain ⟨hle, hspec⟩ := ih hrest
              exact ⟨Nat.le_succ_of_le hle, hspec⟩
          next hkey =>
              split at hrest
              next => cases hrest
              next hlength =>
                  cases hrest
                  exact ⟨le_rfl, bytes, header, hbytes, hheader, by simpa using hkey,
                    by simpa using hlength⟩

end Start

/-- What the loop of a run has at hand, from where the run begins. -/
def scanContext (services : HeaderServices Trie) (node : ProofNode) (call : ProofArguments Trie)
    (start : ProofStart Trie) (checkpoints : List CBCheckpoint) (startFromPosition : ℕ) :
    ScanContext Trie where
  services := services
  node := node
  call := call
  checkpoints := checkpoints
  optimizing := start.optimizing
  startFromPosition := startFromPosition

/-- The headers from a position on. -/
def ProofArguments.elementsFrom (call : ProofArguments Trie) (startFromPosition : ℕ) :
    List (Bytes × ℕ) :=
  call.chainProof.zipIdx.drop startFromPosition

/-- The scan passes from its start to the end of the chain-proof, with a leader, and that is the verdict. -/
structure ProofArguments.ConcludesWith (call : ProofArguments Trie) (startFromPosition : ℕ)
    (checked : ScanState Trie → Bytes × ℕ → Prop) (next : ScanState Trie → Bytes × ℕ → ScanState Trie)
    (st : ScanState Trie) (verdict : ProofVerdict Trie) : Prop where
  passes : Scan.Passes checked next st (call.elementsFrom startFromPosition)
  leader : ((call.elementsFrom startFromPosition).foldl next st).leaderPubKey.length = 32
  verdict_eq : verdict = call.accepted ((call.elementsFrom startFromPosition).foldl next st)

theorem ProofArguments.elementsFrom_eq_cons {call : ProofArguments Trie} {position : ℕ} {bytes : Bytes}
    (hbytes : call.chainProof[position]? = some bytes) :
    call.elementsFrom position = (bytes, position) :: call.elementsFrom (position + 1) := by
  obtain ⟨hlt, hget⟩ := List.getElem?_eq_some_iff.mp hbytes
  unfold ProofArguments.elementsFrom
  rw [List.drop_eq_getElem_cons (by rw [List.length_zipIdx]; exact hlt)]
  simp [hget]

/-! ### The sequential verifier -/

namespace Sequential

section Turn

variable (ctx : ScanContext Trie)

/-- A header decodes and passes all checks. -/
def Checked (st : ScanState Trie) (element : Bytes × ℕ) : Prop :=
  ∃ header, ctx.services.instantiate element.1 = some header ∧
    ∀ check ∈ headerChecks ctx st element.2 element.1 header, check.1 = false

/-- The variables after a header. -/
def next (st : ScanState Trie) (element : Bytes × ℕ) : ScanState Trie :=
  match ctx.services.instantiate element.1 with
  | none => st
  | some header => advance ctx st element.2 element.1 header

theorem verifyHeader_ok_iff (st : ScanState Trie) (element : Bytes × ℕ) (st' : ScanState Trie) :
    verifyHeader ctx st element = .ok st' ↔ Checked ctx st element ∧ st' = next ctx st element := by
  unfold verifyHeader Checked next
  cases ctx.services.instantiate element.1 with
  | none => simp
  | some header =>
      simp only [Option.some.injEq, exists_eq_left', ← firstFailure_eq_none_iff]
      cases firstFailure (headerChecks ctx st element.2 element.1 header) with
      | none =>
          simp
          exact eq_comm
      | some exit => simp

theorem broke_harmless {leaderPubKey : Bytes} {result : eChainProofValidationResult}
    (hresult : result ≠ .valid) : Harmless (broke leaderPubKey result) := by
  unfold broke
  refine ⟨?_, rfl⟩
  dsimp only
  split
  · simp
  · exact hresult

theorem headerChecks_harmless (st : ScanState Trie) (i : ℕ) (bytes : Bytes) (header : CBlockHeader Trie)
    {check : Bool × ProofExit} (hcheck : check ∈ headerChecks ctx st i bytes header) :
    Harmless check.2 := by
  unfold headerChecks at hcheck
  rw [List.mem_append, List.mem_append] at hcheck
  rcases hcheck with (hfront | hkind) | hback
  · simp only [List.mem_cons, List.not_mem_nil, or_false] at hfront
    rcases hfront with rfl | rfl | rfl
    · simp [Harmless]
    · simp [Harmless]
    · exact broke_harmless (by simp)
  · split at hkind
    · simp only [keyChecks, List.mem_cons, List.not_mem_nil, or_false] at hkind
      rcases hkind with rfl | rfl | rfl | rfl | rfl | rfl | rfl | rfl | rfl | rfl
      all_goals first
        | simp [Harmless]; done
        | exact broke_harmless (by simp)
    · simp only [dataChecks, List.mem_cons, List.not_mem_nil, or_false] at hkind
      rcases hkind with rfl | rfl
      · simp [Harmless]
      · exact broke_harmless (by simp)
  · simp only [List.mem_cons, List.not_mem_nil, or_false] at hback
    rcases hback with rfl | rfl | rfl
    · exact broke_harmless (by simp)
    · exact broke_harmless (by simp)
    · simp [Harmless]

theorem verifyHeader_harmless {st : ScanState Trie} {element : Bytes × ℕ} {exit : ProofExit}
    (hrun : verifyHeader ctx st element = .error exit) : Harmless exit := by
  unfold verifyHeader at hrun
  split at hrun
  next =>
      cases hrun
      simp [Harmless]
  next header _ =>
      split at hrun
      next exit' hfailure =>
          cases hrun
          obtain ⟨check, hmem, rfl⟩ := firstFailure_mem hfailure
          exact headerChecks_harmless ctx st _ _ header hmem
      next => cases hrun

end Turn

section Accepting

variable {services : HeaderServices Trie} {node : ProofNode} {call : ProofArguments Trie}

theorem refuses_initialState {kind : ProofExit → Prop} (start : ProofStart Trie)
    (found : Option ℕ) : Refuses call kind (initialState services node call start found) := by
  apply (refuses_startingWork node call start _).bind
  intro work
  dsimp only
  split
  · apply (refuses_indexed _ _).bind
    intro parent
    exact refuses_ok _
  · exact refuses_ok _

/-- Without a key block the start has no place in the chain-proof. -/
theorem initialState_none (hsize : call.chainProof.length < 2 ^ 63) (start : ProofStart Trie)
    (st : ScanState Trie) : initialState services node call start none ≠ .ok st := by
  intro hrun
  obtain ⟨work, -, hrest⟩ := ok_of_bind hrun
  rw [if_pos (by simp [fixedStart])] at hrest
  obtain ⟨parent, hparent, -⟩ := ok_of_bind hrest
  rw [indexed_eq_ok_iff, List.getElem?_eq_none (by simp [fixedStart]; omega)] at hparent
  cases hparent

variable (services node call)

/-- Every early end of the sequential verifier releases the lock. -/
theorem refuses_run : Refuses call Harmless (run services node call) := by
  apply (refuses_prepareStart services node call).bind
  intro start
  split
  · exact refuses_refused (by simp [Harmless])
  · apply (refuses_orCrash _).bind
    intro checkpoints
    split
    · exact refuses_refused (by simp [Harmless])
    · apply (refuses_findStart services call _).bind
      intro found
      apply (refuses_initialState start found).bind
      intro st
      apply Refuses.bind
      · apply refuses_orRefused
        intro exit hexit
        obtain ⟨st', element, hstep⟩ := Scan.exists_of_foldlM_error hexit
        exact verifyHeader_harmless _ hstep
      · intro st'
        split
        · exact refuses_refused (by simp [Harmless])
        · exact refuses_ok _

variable {services node call}

/-- What the sequential verifier accepts, and the verdict then. -/
theorem verifyChainProof_ok_iff (hsize : call.chainProof.length < 2 ^ 63)
    {verdict : ProofVerdict Trie} (hvalid : verdict.result = .valid) :
    verifyChainProof services node call = .ok verdict ↔
      ∃ start checkpoints startFromPosition st,
        prepareStart services node call = .ok start ∧
        activateCheckpoints services node call = .ok checkpoints ∧
        (call.requireCheckpoints && node.getRequireObligatoryCheckpoints &&
          checkpoints.any (missesCheckpoint services node call)) = false ∧
        findStart services call start.startFromPosition = .ok (some startFromPosition) ∧
        initialState services node call start (some startFromPosition) = .ok st ∧
        call.ConcludesWith startFromPosition
          (Checked (scanContext services node call start checkpoints startFromPosition))
          (next (scanContext services node call start checkpoints startFromPosition)) st verdict := by
  unfold verifyChainProof
  rw [concluded_eq_ok_iff ((refuses_run services node call).mono fun exit hexit => hexit.1) hvalid]
  constructor
  · intro hrun
    obtain ⟨start, hstart, hrun⟩ := ok_of_bind hrun
    by_cases hempty : call.chainProof.length = 0
    · rw [if_pos hempty] at hrun
      cases hrun
    · rw [if_neg hempty] at hrun
      obtain ⟨checkpoints, hcheckpoints, hrun⟩ := ok_of_bind hrun
      rw [orCrash_eq_ok_iff] at hcheckpoints
      split at hrun
      next => cases hrun
      next hmissing =>
          obtain ⟨found, hfound, hrun⟩ := ok_of_bind hrun
          obtain ⟨st, hst, hrun⟩ := ok_of_bind hrun
          obtain ⟨st', hscan, hrun⟩ := ok_of_bind hrun
          cases found with
          | none => exact absurd hst (initialState_none hsize start st)
          | some startFromPosition =>
              rw [orRefused_eq_ok_iff] at hscan
              obtain ⟨hpasses, rfl⟩ := (Scan.foldlM_ok_iff
                (verifyHeader_ok_iff (scanContext services node call start checkpoints
                  startFromPosition)) st st' (call.elementsFrom startFromPosition)).mp hscan
              split at hrun
              next => cases hrun
              next hleader =>
                  cases hrun
                  exact ⟨start, checkpoints, startFromPosition, st, hstart, hcheckpoints,
                    by simpa using hmissing, hfound, hst, hpasses, by simpa using hleader, rfl⟩
  · rintro ⟨start, checkpoints, startFromPosition, st, hstart, hcheckpoints, hmissing, hfound, hst,
      hpasses, hleader, rfl⟩
    obtain ⟨-, bytes, -, hbytes, -⟩ := findStart_some hfound
    have hempty : call.chainProof.length ≠ 0 := by
      have := (List.getElem?_eq_some_iff.mp hbytes).1
      omega
    have hscan := (Scan.foldlM_ok_iff (verifyHeader_ok_iff (scanContext services node call start
      checkpoints startFromPosition)) st _ (call.elementsFrom startFromPosition)).mpr ⟨hpasses, rfl⟩
    unfold run
    rw [hstart]
    show (if call.chainProof.length = 0 then _ else _) = _
    rw [if_neg hempty, hcheckpoints]
    show (if (call.requireCheckpoints && node.getRequireObligatoryCheckpoints &&
        checkpoints.any (missesCheckpoint services node call)) = true then _ else _) = _
    rw [if_neg (by rw [hmissing]; simp), hfound]
    show (initialState services node call start (some startFromPosition) >>= _) = _
    rw [hst]
    show (orRefused call ((call.elementsFrom startFromPosition).foldlM (verifyHeader (scanContext
      services node call start checkpoints startFromPosition)) st) >>= _) = _
    rw [hscan]
    show (if _ then _ else _) = _
    rw [if_neg (by simpa using hleader)]

end Accepting

end Sequential

end Gridnet
