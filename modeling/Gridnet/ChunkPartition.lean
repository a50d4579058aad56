import Mathlib.Logic.Relation
import Gridnet.ChunkLayout

/-! Where the chunks are proper. The loop that cuts them jumps from key block to key block: it ends where the
key blocks have no gap, and its last two jumps decide whether the balancing leaves an empty chunk. -/

namespace Gridnet.Parallel

open Ranges Relation

/-! ### Jumps -/

variable {keys : List ℕ} {start stop size a b p q p' q' : ℕ}

/-- From a position that key blocks lie further than `size` from, to the last key block up to there. -/
@[mk_iff]
structure Jump (keys : List ℕ) (size a b : ℕ) : Prop where
  beyond : ∃ key ∈ keys, a + size < key
  mem : b ∈ keys
  le : b ≤ a + size
  greatest : ∀ key ∈ keys, key ≤ a + size → key ≤ b

/-- The positions that jumps lead to. -/
def Reached (keys : List ℕ) (size start : ℕ) : ℕ → Prop := ReflTransGen (Jump keys size) start

/-- No key block lies further than `size` from here. -/
def Final (keys : List ℕ) (size a : ℕ) : Prop := ∀ key ∈ keys, key ≤ a + size

theorem jump_rightUnique : Relator.RightUnique (Jump keys size) :=
  fun _ _ _ hjump hjump' =>
    le_antisymm (hjump'.greatest _ hjump.mem hjump.le) (hjump.greatest _ hjump'.mem hjump'.le)

theorem Final.no_jump (hfinal : Final keys size a) : ¬ Jump keys size a b := by
  intro hjump
  obtain ⟨key, hkey, hbeyond⟩ := hjump.beyond
  exact absurd (hfinal key hkey) (Nat.not_le.mpr hbeyond)

theorem Reached.mem (hreached : Reached keys size a b) (ha : a ∈ keys) : b ∈ keys := by
  cases hreached with
  | refl => exact ha
  | tail _ hjump => exact hjump.mem

theorem Reached.le (hreached : Reached keys size a b) (ha : a ∈ keys) : a ≤ b := by
  induction hreached with
  | refl => exact le_rfl
  | tail hbefore hjump ih =>
      exact ih.trans (hjump.greatest _ (Reached.mem hbefore ha) (Nat.le_add_right _ _))

/-- Jumps end in one place. -/
theorem Reached.final_unique (hq : Reached keys size start q) (hfinal : Final keys size q)
    (hq' : Reached keys size start q') (hfinal' : Final keys size q') : q = q' := by
  rcases ReflTransGen.total_of_right_unique jump_rightUnique hq hq' with hforth | hback
  · rcases hforth.cases_head with heq | ⟨_, hjump, -⟩
    · exact heq
    · exact absurd hjump hfinal.no_jump
  · rcases hback.cases_head with heq | ⟨_, hjump, -⟩
    · exact heq.symm
    · exact absurd hjump hfinal'.no_jump

/-- A position that jumps lead on from comes before what they lead to. -/
theorem Reached.eq_or_le (hforth : Reached keys size p p') (hjump : Jump keys size p q) : p = p' ∨ q ≤ p' := by
  rcases hforth.cases_head with heq | ⟨_, hfirst, hrest⟩
  · exact .inl heq
  · rw [jump_rightUnique hfirst hjump] at hrest
    exact .inr (Reached.le hrest hjump.mem)

/-- One position is jumped from to a later one. -/
theorem Reached.before_unique (hp : Reached keys size start p) (hjump : Jump keys size p q) (hlt : p < q)
    (hp' : Reached keys size start p') (hjump' : Jump keys size p' q) (hlt' : p' < q) : p = p' := by
  rcases ReflTransGen.total_of_right_unique jump_rightUnique hp hp' with hforth | hback
  · rcases Reached.eq_or_le hforth hjump with heq | hle
    · exact heq
    · exact absurd hle (Nat.not_le.mpr hlt')
  · rcases Reached.eq_or_le hback hjump' with heq | hle
    · exact heq.symm
    · exact absurd hle (Nat.not_le.mpr hlt)

/-! ### The jumps of the loop -/

/-- The chunks end with the last jump, if there was one. -/
def EndsWith (keys : List ℕ) (start size q : ℕ) (chunks : List (ℕ × ℕ)) : Prop :=
  chunks = [] ∧ q = start ∨
    ∃ earlier p, chunks = earlier ++ [(p, q)] ∧ Reached keys size start p ∧ Jump keys size p q ∧ p < q

theorem jump_greatest (hkeyed : Keyed keys start stop) (ha : a ∈ keys)
    (hmore : countUpTo keys (a + size) < keys.length) : Jump keys size a (greatestUpTo keys (a + size)) := by
  obtain ⟨hmem, -, hle, hmax⟩ := greatest_of_mem hkeyed size ha
  exact ⟨(countUpTo_lt_iff hkeyed.sorted).mp hmore, hmem, hle, hmax⟩

theorem final_of_count (hkeyed : Keyed keys start stop) (hmore : ¬ countUpTo keys (a + size) < keys.length) :
    Final keys size a := by
  rw [countUpTo_lt_iff hkeyed.sorted] at hmore
  push Not at hmore
  exact hmore

/-- The last chunk goes from where the jumps end to the end, and the one before it is the last jump. -/
theorem cutChunks_jumps (hkeyed : Keyed keys start stop) (fuel : ℕ) {keyBlockIndex : ℕ}
    {chunks outcome : List (ℕ × ℕ)} (hcut : Cutting keys start size a keyBlockIndex chunks)
    (hreached : Reached keys size start a) (hends : EndsWith keys start size a chunks)
    (hrun : cutChunks keys stop size fuel a keyBlockIndex chunks = some (.ok outcome)) :
    ∃ q cut, outcome = cut ++ [(q, stop)] ∧ Reached keys size start q ∧ Final keys size q ∧
      EndsWith keys start size q cut := by
  induction fuel generalizing a keyBlockIndex chunks with
  | zero => cases hrun
  | succ fuel ih =>
      rw [cutChunks_succ hkeyed hcut.current hcut.counted] at hrun
      by_cases hmore : countUpTo keys (a + size) < keys.length
      · rw [if_pos hmore] at hrun
        have hjump := jump_greatest hkeyed hcut.current hmore
        apply ih (hcut.next hkeyed) (hreached.tail hjump) ?_ hrun
        by_cases hlt : a < greatestUpTo keys (a + size)
        · rw [if_pos hlt]
          exact .inr ⟨chunks, a, rfl, hreached, hjump, hlt⟩
        · have hstays : greatestUpTo keys (a + size) = a :=
            le_antisymm (Nat.not_lt.mp hlt) (hjump.greatest _ hcut.current (Nat.le_add_right _ _))
          rw [if_neg hlt, hstays]
          exact hends
      · rw [if_neg hmore] at hrun
        cases fuel with
        | zero => cases hrun
        | succ fuel =>
            rw [cutChunks, if_neg (lt_irrefl stop)] at hrun
            cases hrun
            exact ⟨a, chunks, rfl, hreached, final_of_count hkeyed hmore, hends⟩

/-! ### Balancing -/

/-- The last two chunks need no balancing, or a key block lies in the first half of them. -/
def Balanced (keys : List ℕ) (start stop size : ℕ) : Prop :=
  ∀ p q, Reached keys size start p → Jump keys size p q → p < q → Final keys size q →
    (q - p) / 2 ≤ stop - q ∨ ∃ key ∈ keys, p < key ∧ key ≤ p + (stop - p) / 2

/-- Only which positions are key blocks counts. -/
theorem balanced_congr {keys' : List ℕ} (hkeys : ∀ key, key ∈ keys ↔ key ∈ keys') :
    Balanced keys start stop size ↔ Balanced keys' start stop size := by
  have hjump : Jump keys size = Jump keys' size := by
    funext a b
    simp only [jump_iff, hkeys]
  simp only [Balanced, Reached, Final, hjump, hkeys]

theorem gapless_congr {keys' : List ℕ} (hkeys : ∀ key, key ∈ keys ↔ key ∈ keys') :
    Gapless keys size ↔ Gapless keys' size := by
  simp only [Gapless, hkeys]

theorem balanceChunks_concat (keys : List ℕ) (earlier : List (ℕ × ℕ)) (hpq : p ≤ q) (hstop : q ≤ stop) :
    balanceChunks keys (earlier ++ [(p, q)] ++ [(q, stop)]) =
      if stop - q < (q - p) / 2 then
        earlier ++ [(p, nearestKey keys (p + (stop - p) / 2)), (nearestKey keys (p + (stop - p) / 2), stop)]
      else earlier ++ [(p, q)] ++ [(q, stop)] := by
  have hsum : q - p + (stop - q) = stop - p := by omega
  simp [balanceChunks, hsum]

/-- A chunk before the last one stays non-empty where a key block lies in the first half of the two. -/
theorem lt_nearestKey_iff (hkeyed : Keyed keys start stop) (hp : p ∈ keys) (boundary : ℕ) :
    p < nearestKey keys (p + boundary) ↔ ∃ key ∈ keys, p < key ∧ key ≤ p + boundary := by
  have hsome : ∃ key ∈ keys, key ≤ p + boundary := ⟨p, hp, Nat.le_add_right _ _⟩
  obtain ⟨hmem, hle, hmax⟩ := greatestUpTo_spec hkeyed.sorted hsome
  rw [nearestKey_eq hkeyed.sorted hsome]
  constructor
  · intro hlt
    exact ⟨_, hmem, hlt, hle⟩
  · rintro ⟨key, hkey, hlt, hbound⟩
    exact hlt.trans_le (hmax key hkey hbound)

/-- The balancing leaves no chunk empty exactly where the last two jumps are balanced. -/
theorem balanceChunks_nonempty_iff (hkeyed : Keyed keys start stop) {fuel : ℕ} {cut : List (ℕ × ℕ)}
    (hrun : cutChunks keys stop size fuel start 0 [] = some (.ok cut)) :
    (∀ chunk ∈ balanceChunks keys cut, chunk.1 < chunk.2) ↔ Balanced keys start stop size := by
  obtain ⟨_, houtcome, -, hproper⟩ := cutChunks_cover hkeyed fuel (Cutting.first hkeyed) hrun
  cases houtcome
  obtain ⟨q, before, rfl, hreached, hfinal, hends⟩ :=
    cutChunks_jumps hkeyed fuel (Cutting.first hkeyed) ReflTransGen.refl (.inl ⟨rfl, rfl⟩) hrun
  rcases hends with ⟨rfl, rfl⟩ | ⟨earlier, p, rfl, hp, hjump, hlt⟩
  · refine iff_of_true (fun chunk hchunk => (hproper chunk hchunk).2) ?_
    intro p q' hp hjump hlt hfinal'
    have heq : q' = q := Reached.final_unique (hp.tail hjump) hfinal' hreached hfinal
    exact absurd (Reached.le hp hkeyed.first) (by omega)
  · have hpkey : p ∈ keys := Reached.mem hp hkeyed.first
    have hstop : q < stop := (hkeyed.bounds q hjump.mem).2
    have hbalanced : Balanced keys start stop size ↔
        (q - p) / 2 ≤ stop - q ∨ ∃ key ∈ keys, p < key ∧ key ≤ p + (stop - p) / 2 := by
      constructor
      · intro hall
        exact hall p q hp hjump hlt hfinal
      · intro hthis p' q' hp' hjump' hlt' hfinal'
        have hq : q' = q := Reached.final_unique (hp'.tail hjump') hfinal' hreached hfinal
        subst hq
        rw [Reached.before_unique hp' hjump' hlt' hp hjump hlt]
        exact hthis
    rw [hbalanced, balanceChunks_concat keys earlier hlt.le hstop.le]
    by_cases hsmall : stop - q < (q - p) / 2
    · have hboundary := greatestUpTo_spec hkeyed.sorted ⟨p, hpkey, Nat.le_add_right p ((stop - p) / 2)⟩
      have hbelow : nearestKey keys (p + (stop - p) / 2) < stop := by
        rw [nearestKey_eq hkeyed.sorted ⟨p, hpkey, Nat.le_add_right _ _⟩]
        exact (hkeyed.bounds _ hboundary.1).2
      rw [if_pos hsmall, or_iff_right (Nat.not_le.mpr hsmall), ← lt_nearestKey_iff hkeyed hpkey]
      generalize nearestKey keys (p + (stop - p) / 2) = boundary at hbelow
      constructor
      · intro hall
        exact hall (p, boundary) (by simp)
      · intro hmoved chunk hchunk
        rcases List.mem_append.mp hchunk with hold | hnew
        · exact (hproper chunk (by simp [hold])).2
        · simp only [List.mem_cons, List.not_mem_nil, or_false] at hnew
          rcases hnew with rfl | rfl
          · exact hmoved
          · exact hbelow
    · rw [if_neg hsmall]
      exact iff_of_true (fun chunk hchunk => (hproper chunk hchunk).2) (.inl (Nat.not_lt.mp hsmall))

/-! ### Preparation -/

/-- There is one chunk, or the key blocks have no gap and the last two cuts are balanced. -/
def CutsCleanly (keys : List ℕ) (stop start numThreads : ℕ) : Prop :=
  let threads := effectiveThreads (stop - start) numThreads
  let idealChunkSize := (stop - start + threads - 1) / threads
  (threads = 1 ∨ keys.length ≤ 2) ∨
    threads ≠ 0 ∧ Gapless keys idealChunkSize ∧ Balanced keys start stop idealChunkSize

/-- The preparation ends with chunks of which none is empty. -/
def CutsProperly (keys : List ℕ) (stop start numThreads : ℕ) : Prop :=
  ∃ fuel chunks, prepareChunks keys stop start numThreads fuel = some (.ok chunks) ∧
    ∀ chunk ∈ chunks, chunk.1 < chunk.2

/-- Then the chunks follow each other, each from a key block on. -/
theorem CutsCleanly.chunks (hkeyed : Keyed keys start stop) {numThreads : ℕ}
    (hclean : CutsCleanly keys stop start numThreads) :
    ∃ fuel chunks, prepareChunks keys stop start numThreads fuel = some (.ok chunks) ∧
      Cover chunks start stop ∧ ∀ chunk ∈ chunks, chunk.1 < chunk.2 ∧ chunk.1 ∈ keys := by
  have hbounds := hkeyed.bounds _ hkeyed.first
  by_cases hsingle : effectiveThreads (stop - start) numThreads = 1 ∨ keys.length ≤ 2
  · refine ⟨0, [(start, stop)], if_pos hsingle, cover_single rfl rfl hbounds.2.le, ?_⟩
    simpa using ⟨hbounds.2, hkeyed.first⟩
  · obtain ⟨hzero, hgapless, hbalanced⟩ := hclean.resolve_left hsingle
    obtain ⟨fuel, hends⟩ := (cutChunks_ends_iff hkeyed).mpr hgapless
    obtain ⟨outcome, hcut⟩ := Option.isSome_iff_exists.mp hends
    obtain ⟨cut, rfl, hcover, hproper⟩ := cutChunks_cover hkeyed fuel (Cutting.first hkeyed) hcut
    obtain ⟨hcover', hkeys⟩ := balanceChunks_cover hkeyed hcover fun chunk hchunk => (hproper chunk hchunk).1
    refine ⟨fuel, balanceChunks keys cut, ?_, hcover', ?_⟩
    · unfold prepareChunks
      dsimp only
      rw [if_neg hsingle, if_neg hzero, hcut]
      rfl
    · intro chunk hchunk
      exact ⟨(balanceChunks_nonempty_iff hkeyed hcut).mpr hbalanced chunk hchunk, hkeys chunk hchunk⟩

theorem cutsCleanly_iff (hkeyed : Keyed keys start stop) (numThreads : ℕ) :
    CutsCleanly keys stop start numThreads ↔ CutsProperly keys stop start numThreads := by
  constructor
  · intro hclean
    obtain ⟨fuel, chunks, hrun, -, hproper⟩ := hclean.chunks hkeyed
    exact ⟨fuel, chunks, hrun, fun chunk hchunk => (hproper chunk hchunk).1⟩
  · rintro ⟨fuel, chunks, hrun, hproper⟩
    by_cases hsingle : effectiveThreads (stop - start) numThreads = 1 ∨ keys.length ≤ 2
    · exact .inl hsingle
    unfold prepareChunks at hrun
    dsimp only at hrun
    rw [if_neg hsingle] at hrun
    by_cases hzero : effectiveThreads (stop - start) numThreads = 0
    · rw [if_pos hzero] at hrun
      cases hrun
    rw [if_neg hzero] at hrun
    obtain ⟨outcome, hcut, hmap⟩ := Option.map_eq_some_iff.mp hrun
    obtain ⟨cut, rfl, -, -⟩ := cutChunks_cover hkeyed fuel (Cutting.first hkeyed) hcut
    cases hmap
    exact .inr ⟨hzero, (cutChunks_ends_iff hkeyed).mp ⟨fuel, by rw [hcut]; rfl⟩,
      (balanceChunks_nonempty_iff hkeyed hcut).mp hproper⟩

/-! ### The chunks of a chain-proof -/

/-- What the chunks are prepared from: the key blocks are in the order in which the threads found them. -/
structure ChunkInput where
  chainSize : ℕ
  startFromPosition : ℕ
  numThreads : ℕ
  keyBlocks : List ℕ
  nodup : keyBlocks.Nodup
  first : startFromPosition ∈ keyBlocks
  bounds : ∀ key ∈ keyBlocks, startFromPosition ≤ key ∧ key < chainSize
  threads : 1 ≤ numThreads

namespace ChunkInput

/-- The start is listed first, and all are sorted. -/
def keyBlockIndices (input : ChunkInput) : List ℕ :=
  (input.startFromPosition :: input.keyBlocks).mergeSort fun i j => decide (i ≤ j)

def effectiveThreads (input : ChunkInput) : ℕ :=
  Parallel.effectiveThreads (input.chainSize - input.startFromPosition) input.numThreads

def idealChunkSize (input : ChunkInput) : ℕ :=
  (input.chainSize - input.startFromPosition + input.effectiveThreads - 1) / input.effectiveThreads

/-- The preparation ends with chunks that follow each other, none empty, each from a key block on. -/
def ProperlyChunked (input : ChunkInput) : Prop :=
  ∃ fuel chunks,
    prepareChunks input.keyBlockIndices input.chainSize input.startFromPosition input.numThreads fuel =
        some (.ok chunks) ∧
      Cover chunks input.startFromPosition input.chainSize ∧
      ∀ chunk ∈ chunks, chunk.1 < chunk.2 ∧ chunk.1 ∈ input.keyBlocks

/-- There is one thread or one key block. -/
def SingleChunk (input : ChunkInput) : Prop := input.effectiveThreads = 1 ∨ input.keyBlocks.length ≤ 1

theorem mem_keyBlockIndices {input : ChunkInput} {key : ℕ} :
    key ∈ input.keyBlockIndices ↔ key ∈ input.keyBlocks := by
  unfold keyBlockIndices
  rw [List.mem_mergeSort, List.mem_cons]
  constructor
  · rintro (rfl | hkey)
    · exact input.first
    · exact hkey
  · exact .inr

theorem keyed (input : ChunkInput) : Keyed input.keyBlockIndices input.startFromPosition input.chainSize where
  sorted := by
    have hsorted := @List.pairwise_mergeSort ℕ (fun i j => decide (i ≤ j))
      (by intro a b c; simp; omega) (by intro a b; simp; omega) (input.startFromPosition :: input.keyBlocks)
    simpa [keyBlockIndices] using hsorted
  first := mem_keyBlockIndices.mpr input.first
  bounds := fun key hkey => input.bounds key (mem_keyBlockIndices.mp hkey)

theorem singleChunk_iff (input : ChunkInput) :
    input.SingleChunk ↔ input.effectiveThreads = 1 ∨ input.keyBlockIndices.length ≤ 2 := by
  simp [SingleChunk, keyBlockIndices]

end ChunkInput

open ChunkInput in
theorem properlyChunked_iff (input : ChunkInput) :
    input.ProperlyChunked ↔
      input.SingleChunk ∨
        input.effectiveThreads ≠ 0 ∧ Gapless input.keyBlocks input.idealChunkSize ∧
          Balanced input.keyBlocks input.startFromPosition input.chainSize input.idealChunkSize := by
  have hmem : ∀ key, key ∈ input.keyBlocks ↔ key ∈ input.keyBlockIndices := fun _ => mem_keyBlockIndices.symm
  rw [gapless_congr hmem, balanced_congr hmem, singleChunk_iff]
  unfold ProperlyChunked
  simp only [hmem]
  constructor
  · rintro ⟨fuel, chunks, hrun, -, hproper⟩
    exact (cutsCleanly_iff input.keyed input.numThreads).mpr
      ⟨fuel, chunks, hrun, fun chunk hchunk => (hproper chunk hchunk).1⟩
  · intro hclean
    exact CutsCleanly.chunks input.keyed hclean

/-- Two key blocks that are 500 blocks apart, for ten threads that take 100 blocks each. -/
def sparseChunks : ChunkInput where
  chainSize := 1000
  startFromPosition := 0
  numThreads := 10
  keyBlocks := [0, 500]
  nodup := by decide
  first := by decide
  bounds := by decide
  threads := by decide

/-- The loop stays at the first of them for ever. -/
theorem sparseChunks_endless : ¬ sparseChunks.ProperlyChunked := by
  rintro ⟨fuel, chunks, hrun, -⟩
  have hkeys : sparseChunks.keyBlockIndices = [0, 0, 500] := List.mergeSort_of_pairwise (by decide)
  have hstuck : cutChunks sparseChunks.keyBlockIndices 1000 100 fuel 0 0 [] = none := by
    refine cutChunks_stuck sparseChunks.keyed ⟨500, ?_, by decide⟩ ?_ fuel
      (Cutting.first sparseChunks.keyed) le_rfl
    · exact ChunkInput.mem_keyBlockIndices.mpr (by decide)
    · intro b hb hlt
      rw [hkeys] at hb
      simp at hb
      omega
  rw [hkeys] at hrun hstuck
  change (cutChunks [0, 0, 500] 1000 100 fuel 0 0 []).map _ = _ at hrun
  rw [hstuck] at hrun
  cases hrun

end Gridnet.Parallel
