import Gridnet.ChunkLayout

/-! The second phase: the signatures of all chunks together are those of one scan that carries the key
of the last key block, since every chunk begins at a key block. -/

namespace Gridnet.Parallel

open Ranges

variable {Trie : Type} (services : HeaderServices Trie)

/-- The key under which a header has to be signed is its own for a key block. -/
def Signed (leaderPubKey : Bytes) (element : Bytes × ℕ) : Prop :=
  ∃ header, services.instantiate element.1 = some header ∧
    services.verifyBlockSignature header (if header.isKeyBlock then [] else leaderPubKey) = true

/-- The key of the last key block. -/
def leaderAfter (leaderPubKey : Bytes) (element : Bytes × ℕ) : Bytes :=
  match services.instantiate element.1 with
  | none => leaderPubKey
  | some header => if header.isKeyBlock then header.getPubKey else leaderPubKey

/-- All signatures from a position on. -/
abbrev AllSigned (leaderPubKey : Bytes) (elements : List (Bytes × ℕ)) : Prop :=
  Scan.Passes (Signed services) (leaderAfter services) leaderPubKey elements

variable {services}

theorem verifySignature_ok_iff (services : HeaderServices Trie) (leaderPubKey : Bytes) (element : Bytes × ℕ) (leaderPubKey' : Bytes) :
    verifySignature services leaderPubKey element = .ok leaderPubKey' ↔
      Signed services leaderPubKey element ∧
        leaderPubKey' = leaderAfter services leaderPubKey element := by
  unfold verifySignature Signed leaderAfter
  cases services.instantiate element.1 with
  | none => simp
  | some header =>
      cases hkey : header.isKeyBlock with
      | true =>
          cases hsigned : services.verifyBlockSignature header [] with
          | true =>
              simp [hkey, hsigned]
              exact eq_comm
          | false => simp [hkey, hsigned]
      | false =>
          cases hsigned : services.verifyBlockSignature header leaderPubKey with
          | true =>
              simp [hkey, hsigned]
              exact eq_comm
          | false => simp [hkey, hsigned]

theorem isKeyElement_iff {element : Bytes × ℕ} :
    isKeyElement services element = true ↔
      ∃ header, services.instantiate element.1 = some header ∧ header.isKeyBlock = true := by
  unfold isKeyElement
  cases services.instantiate element.1 with
  | none => simp
  | some header => simp

/-- What comes before a key block does not matter to it. -/
theorem allSigned_of_key {first : Bytes × ℕ} (hkey : isKeyElement services first = true)
    (rest : List (Bytes × ℕ)) (leaderPubKey leaderPubKey' : Bytes) :
    AllSigned services leaderPubKey (first :: rest) ↔
      AllSigned services leaderPubKey' (first :: rest) := by
  obtain ⟨header, hheader, hisKey⟩ := isKeyElement_iff.mp hkey
  have hnext : leaderAfter services leaderPubKey first = leaderAfter services leaderPubKey' first := by
    unfold leaderAfter
    simp [hheader, hisKey]
  have hcheck : Signed services leaderPubKey first ↔ Signed services leaderPubKey' first := by
    unfold Signed
    simp [hheader, hisKey]
  unfold AllSigned
  rw [Scan.passes_cons, Scan.passes_cons, hcheck, hnext]

/-- A chunk that is not empty, with a key block first. -/
def BeginsWithKey (services : HeaderServices Trie) (elements : List (Bytes × ℕ)) : Prop :=
  ∃ first rest, elements = first :: rest ∧ isKeyElement services first = true

theorem allSigned_flatMap {α : Type} (f : α → List (Bytes × ℕ)) (l : List α)
    (hkeys : ∀ a ∈ l, BeginsWithKey services (f a)) (leaderPubKey : Bytes) :
    AllSigned services leaderPubKey (l.flatMap f) ↔ ∀ a ∈ l, AllSigned services [] (f a) := by
  induction l generalizing leaderPubKey with
  | nil => simp
  | cons a l ih =>
      obtain ⟨first, rest, heq, hkey⟩ := hkeys a List.mem_cons_self
      have htail := ih (fun b hb => hkeys b (List.mem_cons_of_mem a hb))
      rw [List.flatMap_cons, List.forall_mem_cons]
      unfold AllSigned at htail ⊢
      rw [Scan.passes_append, htail, heq]
      exact and_congr_left' (allSigned_of_key hkey rest leaderPubKey [])

section Chunks

variable {chainProof : List Bytes} {startHeader : CBlockHeader Trie}

/-- The version that every chunk compares. -/
def Outdated (services : HeaderServices Trie) (startHeader : CBlockHeader Trie) : Prop :=
  startHeader.getCoreVersion < services.getRequiredVersionNumber startHeader.getHeight

theorem verifyChunk_ok_iff (startHeader : CBlockHeader Trie) {chunk : ℕ × ℕ}
    (hkey : BeginsWithKey services (slice chainProof chunk)) :
    ∃ outcome, verifyChunk services chainProof startHeader chunk = .ok outcome ∧
      ((∃ leaderPubKey, outcome = .ok leaderPubKey) ↔
        ¬ Outdated services startHeader ∧ AllSigned services [] (slice chainProof chunk)) := by
  obtain ⟨first, rest, heq, hkey⟩ := hkey
  obtain ⟨header, hheader, hisKey⟩ := isKeyElement_iff.mp hkey
  unfold verifyChunk
  rw [heq]
  refine ⟨_, rfl, ?_⟩
  have hscan := Scan.foldlM_ok_iff (verifySignature_ok_iff services) header.getPubKey
  by_cases houtdated : Outdated services startHeader
  · have hdecide := houtdated
    unfold Outdated at hdecide
    simp [hheader, hdecide, houtdated]
  · have hdecide := houtdated
    unfold Outdated at hdecide
    rw [allSigned_of_key hkey rest [] header.getPubKey]
    have hboth : (∃ leaderPubKey, (do
        let currentLeaderPubKey ← verifySignature services header.getPubKey first
        rest.foldlM (verifySignature services) currentLeaderPubKey) = Except.ok leaderPubKey) ↔
          AllSigned services header.getPubKey (first :: rest) := by
      constructor
      · rintro ⟨leaderPubKey, hrun⟩
        rw [← List.foldlM_cons] at hrun
        exact ((hscan leaderPubKey (first :: rest)).mp hrun).1
      · intro hall
        refine ⟨(first :: rest).foldl (leaderAfter services) header.getPubKey, ?_⟩
        rw [← List.foldlM_cons]
        exact (hscan _ (first :: rest)).mpr ⟨hall, rfl⟩
    simp only [hheader, hdecide, hisKey, houtdated]
    simpa using hboth

/-- The signatures of all chunks are verified where no chunk is empty. -/
theorem verifyChunks_ok_iff (startHeader : CBlockHeader Trie) {chunks : List (ℕ × ℕ)}
    (hkeys : ∀ chunk ∈ chunks, BeginsWithKey services (slice chainProof chunk)) :
    ∃ outcomes, verifyChunks services chainProof startHeader chunks = .ok outcomes ∧
      ((∃ leaders, outcomes = .ok leaders) ↔
        ∀ chunk ∈ chunks, ¬ Outdated services startHeader ∧
          AllSigned services [] (slice chainProof chunk)) := by
  have hrun : ∃ outcomes, chunks.mapM (verifyChunk services chainProof startHeader) = .ok outcomes ∧
      ((∃ leaders, outcomes.mapM id = .ok leaders) ↔
        ∀ chunk ∈ chunks, ¬ Outdated services startHeader ∧
          AllSigned services [] (slice chainProof chunk)) := by
    induction chunks with
    | nil => exact ⟨[], rfl, by simp; exact ⟨[], rfl⟩⟩
    | cons chunk chunks ih =>
        rw [List.forall_mem_cons] at hkeys
        obtain ⟨outcome, hfirst, houtcome⟩ := verifyChunk_ok_iff startHeader hkeys.1
        obtain ⟨outcomes, hrest, houtcomes⟩ := ih hkeys.2
        refine ⟨outcome :: outcomes, ?_, ?_⟩
        · rw [List.mapM_cons, hfirst]
          show (chunks.mapM (verifyChunk services chainProof startHeader) >>=
            fun outcomes => pure (outcome :: outcomes)) = _
          rw [hrest]
          rfl
        · rw [List.mapM_cons, List.forall_mem_cons, ← houtcome, ← houtcomes]
          constructor
          · rintro ⟨leaders, hleaders⟩
            obtain ⟨leader, hleader, hmore⟩ := ok_of_bind hleaders
            obtain ⟨leaders', hleaders', -⟩ := ok_of_bind hmore
            exact ⟨⟨leader, hleader⟩, leaders', hleaders'⟩
          · rintro ⟨⟨leader, rfl⟩, leaders, hleaders⟩
            refine ⟨leader :: leaders, ?_⟩
            show (outcomes.mapM id >>= fun leaders => pure (leader :: leaders)) = _
            rw [hleaders]
            rfl
  obtain ⟨outcomes, hrun, hiff⟩ := hrun
  refine ⟨outcomes.mapM id, ?_, hiff⟩
  unfold verifyChunks
  rw [hrun]
  rfl

theorem verifyChunk_error_iff {chunk : ℕ × ℕ} {reason : Crash} :
    verifyChunk services chainProof startHeader chunk = .error reason ↔
      reason = .outOfRange ∧ slice chainProof chunk = [] := by
  unfold verifyChunk
  cases slice chainProof chunk with
  | nil =>
      simp
      exact eq_comm
  | cons first rest => simp

/-- An empty chunk is read behind its end. -/
theorem verifyChunks_error_iff {chunks : List (ℕ × ℕ)} {reason : Crash} :
    verifyChunks services chainProof startHeader chunks = .error reason ↔
      reason = .outOfRange ∧ ∃ chunk ∈ chunks, slice chainProof chunk = [] := by
  have hmapM : chunks.mapM (verifyChunk services chainProof startHeader) = .error reason ↔
      reason = .outOfRange ∧ ∃ chunk ∈ chunks, slice chainProof chunk = [] := by
    induction chunks with
    | nil => simp [pure, Except.pure]
    | cons chunk chunks ih =>
        rw [List.mapM_cons, List.exists_mem_cons_iff]
        cases hfirst : verifyChunk services chainProof startHeader chunk with
        | error reason' =>
            obtain ⟨rfl, hempty⟩ := verifyChunk_error_iff.mp hfirst
            show Except.error Crash.outOfRange = Except.error reason ↔ _
            simp only [Except.error.injEq, hempty, true_or, and_true]
            exact eq_comm
        | ok outcome =>
            have hnonempty : slice chainProof chunk ≠ [] := by
              intro hempty
              have hcrash : verifyChunk services chainProof startHeader chunk = .error .outOfRange :=
                verifyChunk_error_iff.mpr ⟨rfl, hempty⟩
              rw [hfirst] at hcrash
              cases hcrash
            rw [or_iff_right hnonempty, ← ih]
            show (chunks.mapM (verifyChunk services chainProof startHeader) >>=
              fun outcomes => pure (outcome :: outcomes)) = _ ↔ _
            cases chunks.mapM (verifyChunk services chainProof startHeader) with
            | error reason' => rfl
            | ok outcomes => simp [bind, Except.bind, pure, Except.pure]
  rw [← hmapM]
  unfold verifyChunks
  cases chunks.mapM (verifyChunk services chainProof startHeader) with
  | error reason' => simp [bind, Except.bind]
  | ok outcomes => simp [bind, Except.bind]

end Chunks

/-! ### Over a layout -/

section Layout

variable {chainProof : List Bytes} {start : ℕ} {chunks : List (ℕ × ℕ)}

theorem slice_cons {a b : ℕ} (ha : a < chainProof.length) (hab : a < b) (hb : b ≤ chainProof.length) :
    slice chainProof (a, b) = (chainProof[a], a) :: slice chainProof (a + 1, b) := by
  have hlength : a < (chainProof.zipIdx.take b).length := by
    rw [List.length_take, List.length_zipIdx]
    omega
  unfold slice
  rw [List.drop_eq_getElem_cons hlength]
  simp

theorem slice_eq_nil {a b : ℕ} (hab : b ≤ a) : slice chainProof (a, b) = [] := by
  unfold slice
  apply List.drop_eq_nil_of_le
  rw [List.length_take]
  omega

/-- A chunk of a layout is empty or begins with a key block. -/
theorem beginsWithKey_of_layout (hcover : Cover chunks start chainProof.length)
    (hkeys : ∀ chunk ∈ chunks, chunk.1 ∈ keysFrom services chainProof start)
    (hstart : ∀ bytes, chainProof[start]? = some bytes → isKeyElement services (bytes, start) = true)
    {chunk : ℕ × ℕ} (hchunk : chunk ∈ chunks) (hlt : chunk.1 < chunk.2) :
    BeginsWithKey services (slice chainProof chunk) := by
  obtain ⟨-, -, hend⟩ := hcover.within hchunk
  have hbound : chunk.1 < chainProof.length := by omega
  refine ⟨_, _, slice_cons hbound hlt hend, ?_⟩
  rcases mem_keysFrom.mp (hkeys chunk hchunk) with heq | ⟨-, bytes, hget, hkey⟩
  · rw [← heq] at hstart
    exact hstart _ (List.getElem?_eq_getElem hbound)
  · rw [List.getElem?_eq_getElem hbound, Option.some.injEq] at hget
    rw [hget]
    exact hkey

/-- The second phase succeeds when no chunk is empty, the start is not outdated and every header from
it on is signed. -/
theorem verifyChunks_signed_iff (hlt : start < chainProof.length)
    (hcover : Cover chunks start chainProof.length)
    (hkeys : ∀ chunk ∈ chunks, chunk.1 ∈ keysFrom services chainProof start)
    (hstart : ∀ bytes, chainProof[start]? = some bytes → isKeyElement services (bytes, start) = true)
    (startHeader : CBlockHeader Trie) :
    (∃ leaders, verifyChunks services chainProof startHeader chunks = .ok (.ok leaders)) ↔
      (∀ chunk ∈ chunks, chunk.1 < chunk.2) ∧ ¬ Outdated services startHeader ∧
        AllSigned services [] (chainProof.zipIdx.drop start) := by
  by_cases hproper : ∀ chunk ∈ chunks, chunk.1 < chunk.2
  · have hbegins : ∀ chunk ∈ chunks, BeginsWithKey services (slice chainProof chunk) :=
      fun chunk hchunk => beginsWithKey_of_layout hcover hkeys hstart hchunk (hproper chunk hchunk)
    obtain ⟨outcomes, hrun, houtcomes⟩ := verifyChunks_ok_iff startHeader hbegins
    have hflat : chunks.flatMap (slice chainProof) = chainProof.zipIdx.drop start :=
      (hcover.flatMap_slice chainProof.zipIdx).trans (slice_to_end chainProof start)
    obtain ⟨some, hsome, -, -⟩ := hcover.mem le_rfl hlt
    have hsigned := allSigned_flatMap (slice chainProof) chunks hbegins []
    rw [hflat] at hsigned
    rw [hrun, hsigned]
    simp only [Except.ok.injEq, houtcomes]
    constructor
    · intro hall
      exact ⟨hproper, (hall some hsome).1, fun chunk hchunk => (hall chunk hchunk).2⟩
    · rintro ⟨-, houtdated, hall⟩ chunk hchunk
      exact ⟨houtdated, hall chunk hchunk⟩
  · constructor
    · rintro ⟨leaders, hrun⟩
      exfalso
      push Not at hproper
      obtain ⟨chunk, hchunk, hle⟩ := hproper
      have hcrash : verifyChunks services chainProof startHeader chunks = .error .outOfRange :=
        verifyChunks_error_iff.mpr ⟨rfl, chunk, hchunk, slice_eq_nil hle⟩
      rw [hrun] at hcrash
      cases hcrash
    · rintro ⟨hall, -⟩
      exact absurd hall hproper

/-- The combined results are the headers from the start on. -/
theorem blockResult_eq (hcover : Cover chunks start chainProof.length) (i : ℕ) :
    blockResult services chainProof chunks i =
      if start ≤ i then (chainProof[i]?).bind services.instantiate else none := by
  unfold blockResult
  by_cases hi : start ≤ i
  · rw [if_pos hi]
    by_cases hlt : i < chainProof.length
    · rw [if_pos]
      rw [List.any_eq_true]
      obtain ⟨chunk, hchunk, hfrom, hto⟩ := hcover.mem hi hlt
      exact ⟨chunk, hchunk, by simp [hfrom, hto]⟩
    · rw [List.getElem?_eq_none (by omega)]
      simp
  · rw [if_neg hi, if_neg]
    rw [List.any_eq_true]
    rintro ⟨chunk, hchunk, hin⟩
    have hwithin := hcover.within hchunk
    simp only [Bool.and_eq_true, decide_eq_true_eq] at hin
    omega

end Layout

end Gridnet.Parallel
