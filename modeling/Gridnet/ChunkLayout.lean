import Mathlib.Data.List.Sort
import Gridnet.GuardedScan
import Gridnet.ParallelVerifier
import Gridnet.Ranges

/-! The layout of the chunks: the segments cover the scanned part, the key blocks that they find are
those of the sequential scan, and the chunks, where the loop that cuts them ends, cover it again and
begin at key blocks. The loop ends exactly where no two key blocks are too far apart. -/

namespace Gridnet.Parallel

open Ranges

variable {Trie : Type}

/-! ### Segments -/

theorem takeWhile_range (p : ℕ → Bool) (n : ℕ) :
    ∃ m ≤ n, (List.range n).takeWhile p = List.range m ∧ (∀ t < m, p t = true) ∧
      (m < n → p m = false) := by
  induction n with
  | zero =>
      refine ⟨0, le_rfl, rfl, ?_, ?_⟩
      · intro t ht
        omega
      · intro hlt
        omega
  | succ n ih =>
      obtain ⟨m, hm, heq, hall, hstop⟩ := ih
      rw [List.range_succ, List.takeWhile_append, heq, List.length_range, List.length_range]
      by_cases hfull : m = n
      · subst hfull
        cases hp : p m with
        | true =>
            refine ⟨m + 1, le_rfl, ?_, ?_, ?_⟩
            · rw [if_pos rfl, List.takeWhile_cons, if_pos hp, List.takeWhile_nil, List.range_succ]
            · intro t ht
              rcases Nat.lt_succ_iff_lt_or_eq.mp ht with hlt | rfl
              · exact hall t hlt
              · exact hp
            · intro hlt
              omega
        | false =>
            refine ⟨m, Nat.le_succ m, ?_, hall, fun _ => hp⟩
            rw [if_pos rfl, List.takeWhile_cons, if_neg (by simp [hp]), List.append_nil]
      · refine ⟨m, Nat.le_succ_of_le hm, by rw [if_neg hfull], hall, ?_⟩
        intro _
        exact hstop (by omega)

theorem cover_steps (start size k : ℕ) (f : ℕ → ℕ × ℕ)
    (hf : ∀ t < k, f t = (start + t * size, start + t * size + size)) :
    Cover ((List.range k).map f) start (start + k * size) := by
  induction k with
  | zero => simp [Cover]
  | succ k ih =>
      rw [List.range_succ, List.map_append, cover_append]
      refine ⟨start + k * size, ih fun t ht => hf t (by omega), ?_⟩
      rw [List.map_singleton, hf k (Nat.lt_succ_self k)]
      exact cover_single rfl (by rw [Nat.succ_mul]; simp [Nat.add_assoc]) (by
        rw [Nat.succ_mul]
        omega)

/-- The segments follow each other over the whole scanned part. -/
theorem cover_segments {chainSize start numThreads : ℕ} (hstart : start < chainSize)
    (hthreads : 1 ≤ numThreads) :
    Cover (segments chainSize start numThreads) start chainSize := by
  unfold segments
  generalize hsize : max ((chainSize - start) / numThreads) 1 = size
  have hpos : 1 ≤ size := by
    rw [← hsize]
    exact le_max_right _ _
  obtain ⟨m, hm, heq, hall, hstop⟩ :=
    takeWhile_range (fun t => decide (start + t * size < chainSize)) numThreads
  simp only [heq]
  simp only [decide_eq_true_eq, decide_eq_false_iff_not] at hall hstop
  by_cases hfull : m = numThreads
  · subst hfull
    obtain ⟨k, rfl⟩ : ∃ k, m = k + 1 := ⟨m - 1, by omega⟩
    rw [List.range_succ, List.map_append, cover_append]
    refine ⟨start + k * size, cover_steps start size k _ ?_, ?_⟩
    · intro t ht
      simp only [Nat.add_sub_cancel]
      rw [if_neg (by omega)]
    · have := hall k (Nat.lt_succ_self k)
      exact cover_single rfl (by simp) (by omega)
  · have hend : start + m * size = chainSize := by
      have hge := hstop (by omega)
      obtain ⟨k, rfl⟩ : ∃ k, m = k + 1 := by
        refine ⟨m - 1, ?_⟩
        rcases Nat.eq_zero_or_pos m with rfl | hmpos
        · simp at hge
          omega
        · omega
      have hlast := hall k (Nat.lt_succ_self k)
      rcases Nat.eq_or_lt_of_le hpos with hone | htwo
      · rw [← hone] at hge hlast ⊢
        omega
      · exfalso
        have hquot : (chainSize - start) / numThreads = size := by omega
        have hmul : size * numThreads ≤ chainSize - start := by
          rw [← hquot]
          exact Nat.div_mul_le_self _ _
        have hless : (k + 1) * size < size * numThreads := by
          rw [Nat.mul_comm]
          exact (Nat.mul_lt_mul_left (by omega)).mpr (by omega)
        omega
    have hcover := cover_steps start size m
      (fun t => (start + t * size, if t = numThreads - 1 then chainSize else start + t * size + size))
      (by
        intro t ht
        rw [if_neg (by omega)])
    rw [hend] at hcover
    exact hcover

/-! ### Key blocks -/

/-- The header of an element decodes. -/
def Decodes (services : HeaderServices Trie) (element : Bytes × ℕ) : Prop :=
  (services.instantiate element.1).isSome = true

def isKeyElement (services : HeaderServices Trie) (element : Bytes × ℕ) : Bool :=
  (services.instantiate element.1).any CBlockHeader.isKeyBlock

/-- The positions of key blocks. -/
def keyPositions (services : HeaderServices Trie) (elements : List (Bytes × ℕ)) : List ℕ :=
  (elements.filter (isKeyElement services)).map Prod.snd

theorem keyPositions_append (services : HeaderServices Trie) (l l' : List (Bytes × ℕ)) :
    keyPositions services (l ++ l') = keyPositions services l ++ keyPositions services l' := by
  unfold keyPositions
  rw [List.filter_append, List.map_append]

theorem keyPositions_flatMap {α : Type} (services : HeaderServices Trie) (l : List α)
    (f : α → List (Bytes × ℕ)) :
    keyPositions services (l.flatMap f) = l.flatMap fun a => keyPositions services (f a) := by
  induction l with
  | nil => rfl
  | cons a l ih => rw [List.flatMap_cons, keyPositions_append, ih, List.flatMap_cons]

theorem foldl_identify (services : HeaderServices Trie) (elements : List (Bytes × ℕ)) (found : List ℕ) :
    elements.foldl
        (fun found element => if isKeyElement services element then found ++ [element.2] else found)
        found =
      found ++ keyPositions services elements := by
  induction elements generalizing found with
  | nil => simp [keyPositions]
  | cons element elements ih =>
      rw [List.foldl_cons, ih]
      unfold keyPositions
      rw [List.filter_cons]
      cases isKeyElement services element with
      | true => simp
      | false => simp

theorem identifyHeader_ok_iff (services : HeaderServices Trie) (found : List ℕ)
    (element : Bytes × ℕ) (found' : List ℕ) :
    identifyHeader services found element = .ok found' ↔
      Decodes services element ∧
        found' = if isKeyElement services element then found ++ [element.2] else found := by
  unfold identifyHeader Decodes isKeyElement
  cases services.instantiate element.1 with
  | none => simp
  | some header =>
      rw [Except.ok.injEq]
      exact ⟨fun hfound => ⟨rfl, hfound.symm⟩, fun hfound => hfound.2.symm⟩

theorem identify_ok_iff (services : HeaderServices Trie) (elements : List (Bytes × ℕ)) (found : List ℕ) :
    identify services elements = .ok found ↔
      (∀ element ∈ elements, Decodes services element) ∧ found = keyPositions services elements := by
  unfold identify
  rw [Scan.foldlM_ok_iff (identifyHeader_ok_iff services), foldl_identify, List.nil_append, Scan.passes_iff_getElem]
  constructor
  · rintro ⟨hall, hfound⟩
    refine ⟨?_, hfound⟩
    intro element helement
    obtain ⟨k, hk, rfl⟩ := List.mem_iff_getElem.mp helement
    exact hall k hk
  · rintro ⟨hall, hfound⟩
    exact ⟨fun k hk => hall _ (List.getElem_mem hk), hfound⟩

/-- The whole list of a chain-proof from a position on, with the positions. -/
theorem slice_to_end (chainProof : List Bytes) (start : ℕ) :
    slice chainProof (start, chainProof.length) = chainProof.zipIdx.drop start := by
  unfold slice
  rw [List.take_of_length_le]
  rw [List.length_zipIdx]

theorem mem_drop_zipIdx {chainProof : List Bytes} {start : ℕ} {element : Bytes × ℕ} :
    element ∈ chainProof.zipIdx.drop start ↔
      start ≤ element.2 ∧ chainProof[element.2]? = some element.1 := by
  rw [List.mem_iff_getElem?]
  constructor
  · rintro ⟨k, hk⟩
    rw [List.getElem?_drop, List.getElem?_zipIdx] at hk
    obtain ⟨bytes, hbytes, rfl⟩ := Option.map_eq_some_iff.mp hk
    simp only [Nat.zero_add]
    exact ⟨Nat.le_add_right _ _, hbytes⟩
  · rintro ⟨hle, hget⟩
    refine ⟨element.2 - start, ?_⟩
    rw [List.getElem?_drop, List.getElem?_zipIdx, Nat.add_sub_cancel' hle, hget]
    simp

/-- The sorted positions of key blocks, with the start once more. -/
def keysFrom (services : HeaderServices Trie) (chainProof : List Bytes) (start : ℕ) : List ℕ :=
  (start :: keyPositions services (chainProof.zipIdx.drop start)).mergeSort fun i j => decide (i ≤ j)

theorem mem_keysFrom {services : HeaderServices Trie} {chainProof : List Bytes} {start key : ℕ} :
    key ∈ keysFrom services chainProof start ↔
      key = start ∨ start ≤ key ∧ ∃ bytes, chainProof[key]? = some bytes ∧
        isKeyElement services (bytes, key) = true := by
  unfold keysFrom keyPositions
  rw [List.mem_mergeSort, List.mem_cons, List.mem_map]
  apply or_congr_right
  constructor
  · rintro ⟨element, hmem, rfl⟩
    rw [List.mem_filter, mem_drop_zipIdx] at hmem
    exact ⟨hmem.1.1, element.1, hmem.1.2, hmem.2⟩
  · rintro ⟨hle, bytes, hget, hkey⟩
    refine ⟨(bytes, key), ?_, rfl⟩
    rw [List.mem_filter, mem_drop_zipIdx]
    exact ⟨⟨hle, hget⟩, hkey⟩

/-- The first phase finds every key block once and the start twice, where all headers decode. -/
theorem keyBlockIndices_ok_iff {services : HeaderServices Trie} {chainProof : List Bytes}
    {start numThreads : ℕ} (hstart : start < chainProof.length) (hthreads : 1 ≤ numThreads)
    (keys : List ℕ) :
    keyBlockIndices services chainProof start numThreads = .ok keys ↔
      (∀ element ∈ chainProof.zipIdx.drop start, Decodes services element) ∧
        keys = keysFrom services chainProof start := by
  have hflat : (segments chainProof.length start numThreads).flatMap (slice chainProof) =
      chainProof.zipIdx.drop start :=
    ((cover_segments hstart hthreads).flatMap_slice chainProof.zipIdx).trans
      (slice_to_end chainProof start)
  have hmapM := mapM_ok_iff (f := fun segment => identify services (slice chainProof segment))
    (fun segment found => identify_ok_iff services (slice chainProof segment) found)
    (segments chainProof.length start numThreads)
  have hall : (∀ element ∈ chainProof.zipIdx.drop start, Decodes services element) ↔
      ∀ segment ∈ segments chainProof.length start numThreads,
        ∀ element ∈ slice chainProof segment, Decodes services element := by
    rw [← hflat]
    simp only [List.mem_flatMap]
    constructor
    · intro hall segment hsegment element helement
      exact hall element ⟨segment, hsegment, helement⟩
    · rintro hall element ⟨segment, hsegment, helement⟩
      exact hall segment hsegment element helement
  have hfound : ((segments chainProof.length start numThreads).map fun segment =>
      keyPositions services (slice chainProof segment)).flatten =
        keyPositions services (chainProof.zipIdx.drop start) := by
    rw [← hflat, keyPositions_flatMap, List.flatMap_def]
  unfold keyBlockIndices
  constructor
  · intro hrun
    obtain ⟨found, hfind, hkeys⟩ := ok_of_bind hrun
    obtain ⟨hdecodes, rfl⟩ := (hmapM found).mp hfind
    rw [hfound] at hkeys
    cases hkeys
    exact ⟨hall.mpr hdecodes, rfl⟩
  · rintro ⟨hdecodes, rfl⟩
    unfold keysFrom
    rw [(hmapM _).mpr ⟨hall.mp hdecodes, rfl⟩, ← hfound]
    rfl

/-! ### Cutting -/

/-- Sorted positions from `start` on. -/
structure Keyed (keys : List ℕ) (start stop : ℕ) : Prop where
  sorted : keys.Pairwise (· ≤ ·)
  first : start ∈ keys
  bounds : ∀ key ∈ keys, start ≤ key ∧ key < stop

/-- No key but the last is further than `size` from the next. -/
def Gapless (keys : List ℕ) (size : ℕ) : Prop :=
  ∀ a ∈ keys, (∃ key ∈ keys, a < key) → ∃ b ∈ keys, a < b ∧ b ≤ a + size

theorem keyed_keysFrom {services : HeaderServices Trie} {chainProof : List Bytes} {start : ℕ}
    (hstart : start < chainProof.length) :
    Keyed (keysFrom services chainProof start) start chainProof.length where
  sorted := by
    unfold keysFrom
    have hsorted := @List.pairwise_mergeSort ℕ (fun i j => decide (i ≤ j))
      (by intro a b c; simp; omega) (by intro a b; simp; omega)
      (start :: keyPositions services (chainProof.zipIdx.drop start))
    simpa using hsorted
  first := mem_keysFrom.mpr (.inl rfl)
  bounds := by
    intro key hkey
    rcases mem_keysFrom.mp hkey with rfl | ⟨hle, bytes, hget, -⟩
    · exact ⟨le_rfl, hstart⟩
    · exact ⟨hle, (List.getElem?_eq_some_iff.mp hget).1⟩

variable {keys : List ℕ} {start stop size : ℕ}

theorem skipKeys_eq {keyBlockIndex chunkEnd : ℕ} (hle : keyBlockIndex ≤ countUpTo keys chunkEnd) :
    skipKeys keys keyBlockIndex chunkEnd = countUpTo keys chunkEnd := by
  have hprefix : keys.takeWhile (fun key => key ≤ chunkEnd) <+: keys := List.takeWhile_prefix _
  have hfront : ∀ key ∈ keys.take keyBlockIndex, decide (key ≤ chunkEnd) = true := by
    intro key hkey
    have hsame : keys.take keyBlockIndex =
        (keys.takeWhile fun key => key ≤ chunkEnd).take keyBlockIndex := by
      rw [List.prefix_iff_eq_take.mp hprefix, List.take_take]
      congr 1
      exact (min_eq_left hle).symm
    rw [hsame] at hkey
    have hmem : key ∈ keys.takeWhile fun key => key ≤ chunkEnd := List.mem_of_mem_take hkey
    have hle := List.mem_takeWhile_imp hmem
    exact hle
  have hsplit : (keys.take keyBlockIndex ++ keys.drop keyBlockIndex).takeWhile
      (fun key => key ≤ chunkEnd) =
        keys.take keyBlockIndex ++ (keys.drop keyBlockIndex).takeWhile fun key => key ≤ chunkEnd :=
    List.takeWhile_append_of_pos hfront
  have hlength : keyBlockIndex ≤ keys.length := hle.trans countUpTo_le_length
  unfold skipKeys
  unfold countUpTo
  rw [List.take_append_drop] at hsplit
  rw [hsplit, List.length_append, List.length_take, min_eq_left hlength]

/-- One turn of the loop, at a key block. -/
theorem cutChunks_succ (hkeyed : Keyed keys start stop) {fuel currentStart keyBlockIndex : ℕ}
    {chunks : List (ℕ × ℕ)} (hcurrent : currentStart ∈ keys)
    (hcounted : keyBlockIndex ≤ countUpTo keys (currentStart + size)) :
    cutChunks keys stop size (fuel + 1) currentStart keyBlockIndex chunks =
      if countUpTo keys (currentStart + size) < keys.length then
        cutChunks keys stop size fuel (greatestUpTo keys (currentStart + size))
          (countUpTo keys (currentStart + size))
          (if currentStart < greatestUpTo keys (currentStart + size) then
            chunks ++ [(currentStart, greatestUpTo keys (currentStart + size))]
          else chunks)
      else
        cutChunks keys stop size fuel stop (countUpTo keys (currentStart + size))
          (chunks ++ [(currentStart, stop)]) := by
  have hlt : currentStart < stop := (hkeyed.bounds _ hcurrent).2
  have hpos : countUpTo keys (currentStart + size) ≠ 0 :=
    (countUpTo_pos_iff hkeyed.sorted).mpr ⟨currentStart, hcurrent, Nat.le_add_right _ _⟩
  rw [cutChunks, if_pos hlt]
  simp only [skipKeys_eq hcounted]
  by_cases hmore : countUpTo keys (currentStart + size) < keys.length
  · rw [if_pos hmore, if_pos hmore, if_neg hpos]
    rfl
  · rw [if_neg hmore, if_neg hmore, if_pos hlt]

/-- What holds whenever the loop is at a key block. -/
structure Cutting (keys : List ℕ) (start size currentStart keyBlockIndex : ℕ)
    (chunks : List (ℕ × ℕ)) : Prop where
  current : currentStart ∈ keys
  counted : keyBlockIndex ≤ countUpTo keys (currentStart + size)
  cover : Cover chunks start currentStart
  proper : ∀ chunk ∈ chunks, chunk.1 ∈ keys ∧ chunk.1 < chunk.2

theorem Cutting.first (hkeyed : Keyed keys start stop) : Cutting keys start size start 0 [] where
  current := hkeyed.first
  counted := Nat.zero_le _
  cover := rfl
  proper := fun _ hmem => by cases hmem

theorem greatest_of_mem (hkeyed : Keyed keys start stop) (size : ℕ) {currentStart : ℕ}
    (hcurrent : currentStart ∈ keys) :
    greatestUpTo keys (currentStart + size) ∈ keys ∧
      currentStart ≤ greatestUpTo keys (currentStart + size) ∧
      greatestUpTo keys (currentStart + size) ≤ currentStart + size ∧
      ∀ key ∈ keys, key ≤ currentStart + size → key ≤ greatestUpTo keys (currentStart + size) := by
  have hsome : ∃ key ∈ keys, key ≤ currentStart + size := ⟨currentStart, hcurrent, Nat.le_add_right _ _⟩
  obtain ⟨hmem, hle, hmax⟩ := greatestUpTo_spec hkeyed.sorted hsome
  exact ⟨hmem, hmax _ hcurrent (Nat.le_add_right _ _), hle, hmax⟩

theorem Cutting.next (hkeyed : Keyed keys start stop) {currentStart keyBlockIndex : ℕ}
    {chunks : List (ℕ × ℕ)} (hcut : Cutting keys start size currentStart keyBlockIndex chunks) :
    Cutting keys start size (greatestUpTo keys (currentStart + size))
      (countUpTo keys (currentStart + size))
      (if currentStart < greatestUpTo keys (currentStart + size) then
        chunks ++ [(currentStart, greatestUpTo keys (currentStart + size))]
      else chunks) := by
  obtain ⟨hmem, hge, -, -⟩ := greatest_of_mem hkeyed size hcut.current
  refine ⟨hmem, countUpTo_mono (by omega), ?_, ?_⟩
  · by_cases hlt : currentStart < greatestUpTo keys (currentStart + size)
    · rw [if_pos hlt, cover_append]
      exact ⟨currentStart, hcut.cover, cover_single rfl rfl hlt.le⟩
    · rw [if_neg hlt, show greatestUpTo keys (currentStart + size) = currentStart by omega]
      exact hcut.cover
  · by_cases hlt : currentStart < greatestUpTo keys (currentStart + size)
    · rw [if_pos hlt]
      intro chunk hchunk
      rcases List.mem_append.mp hchunk with hold | hnew
      · exact hcut.proper chunk hold
      · rw [List.mem_singleton] at hnew
        subst hnew
        exact ⟨hcut.current, hlt⟩
    · rw [if_neg hlt]
      exact hcut.proper

/-- The loop ends with chunks that cover the scanned part, or does not end. -/
theorem cutChunks_cover (hkeyed : Keyed keys start stop) (fuel : ℕ) {currentStart keyBlockIndex : ℕ}
    {chunks : List (ℕ × ℕ)} (hcut : Cutting keys start size currentStart keyBlockIndex chunks)
    {outcome : Except Crash (List (ℕ × ℕ))}
    (hrun : cutChunks keys stop size fuel currentStart keyBlockIndex chunks = some outcome) :
    ∃ chunks, outcome = .ok chunks ∧ Cover chunks start stop ∧
      ∀ chunk ∈ chunks, chunk.1 ∈ keys ∧ chunk.1 < chunk.2 := by
  induction fuel generalizing currentStart keyBlockIndex chunks with
  | zero => cases hrun
  | succ fuel ih =>
      rw [cutChunks_succ hkeyed hcut.current hcut.counted] at hrun
      by_cases hmore : countUpTo keys (currentStart + size) < keys.length
      · rw [if_pos hmore] at hrun
        exact ih (hcut.next hkeyed) hrun
      · rw [if_neg hmore] at hrun
        cases fuel with
        | zero => cases hrun
        | succ fuel =>
            have hlt : currentStart < stop := (hkeyed.bounds _ hcut.current).2
            rw [cutChunks, if_neg (lt_irrefl stop)] at hrun
            cases hrun
            refine ⟨_, rfl, ?_, ?_⟩
            · rw [cover_append]
              exact ⟨currentStart, hcut.cover, cover_single rfl rfl hlt.le⟩
            · intro chunk hchunk
              rcases List.mem_append.mp hchunk with hold | hnew
              · exact hcut.proper chunk hold
              · rw [List.mem_singleton] at hnew
                subst hnew
                exact ⟨hcut.current, hlt⟩

/-- More turns do not change the chunks. -/
theorem cutChunks_mono {fuel fuel' currentStart keyBlockIndex : ℕ} {chunks : List (ℕ × ℕ)}
    {outcome : Except Crash (List (ℕ × ℕ))} (hle : fuel ≤ fuel')
    (hrun : cutChunks keys stop size fuel currentStart keyBlockIndex chunks = some outcome) :
    cutChunks keys stop size fuel' currentStart keyBlockIndex chunks = some outcome := by
  induction fuel generalizing fuel' currentStart keyBlockIndex chunks with
  | zero => cases hrun
  | succ fuel ih =>
      obtain ⟨fuel', rfl⟩ : ∃ k, fuel' = k + 1 := ⟨fuel' - 1, by omega⟩
      have hle' : fuel ≤ fuel' := Nat.le_of_succ_le_succ hle
      unfold cutChunks at hrun ⊢
      dsimp only at hrun ⊢
      split at hrun
      next hlt =>
          rw [if_pos hlt]
          split at hrun
          next hmore =>
              rw [if_pos hmore]
              split at hrun
              next hzero => rw [if_pos hzero, hrun]
              next hzero =>
                  rw [if_neg hzero]
                  exact ih hle' hrun
          next hmore =>
              rw [if_neg hmore, if_pos hlt]
              exact ih hle' hrun
      next hlt => rw [if_neg hlt, hrun]

/-- Without a gap every turn moves on. -/
theorem cutChunks_ends (hkeyed : Keyed keys start stop) (hgapless : Gapless keys size) (fuel : ℕ)
    {currentStart keyBlockIndex : ℕ} {chunks : List (ℕ × ℕ)}
    (hcut : Cutting keys start size currentStart keyBlockIndex chunks)
    (hfuel : stop < currentStart + fuel) :
    (cutChunks keys stop size fuel currentStart keyBlockIndex chunks).isSome = true := by
  induction fuel generalizing currentStart keyBlockIndex chunks with
  | zero =>
      have := (hkeyed.bounds _ hcut.current).2
      omega
  | succ fuel ih =>
      rw [cutChunks_succ hkeyed hcut.current hcut.counted]
      by_cases hmore : countUpTo keys (currentStart + size) < keys.length
      · rw [if_pos hmore]
        obtain ⟨key, hkey, hlater⟩ := (countUpTo_lt_iff hkeyed.sorted).mp hmore
        obtain ⟨b, hb, hlt, hle⟩ := hgapless currentStart hcut.current ⟨key, hkey, by omega⟩
        have hmax := (greatest_of_mem hkeyed size hcut.current).2.2.2 b hb hle
        exact ih (hcut.next hkeyed) (by omega)
      · rw [if_neg hmore]
        have hlt : currentStart < stop := (hkeyed.bounds _ hcut.current).2
        obtain ⟨fuel, rfl⟩ : ∃ k, fuel = k + 1 := ⟨fuel - 1, by omega⟩
        rw [cutChunks, if_neg (lt_irrefl stop)]
        rfl

/-- At a gap the loop stays where it is for ever. -/
theorem cutChunks_stuck (hkeyed : Keyed keys start stop) {a : ℕ} (hlater : ∃ key ∈ keys, a < key)
    (hgap : ∀ b ∈ keys, a < b → a + size < b) (fuel : ℕ) {currentStart keyBlockIndex : ℕ}
    {chunks : List (ℕ × ℕ)} (hcut : Cutting keys start size currentStart keyBlockIndex chunks)
    (hbefore : currentStart ≤ a) :
    cutChunks keys stop size fuel currentStart keyBlockIndex chunks = none := by
  induction fuel generalizing currentStart keyBlockIndex chunks with
  | zero => rfl
  | succ fuel ih =>
      obtain ⟨key, hkey, hlt⟩ := hlater
      have hfar := hgap key hkey hlt
      have hmore : countUpTo keys (currentStart + size) < keys.length :=
        (countUpTo_lt_iff hkeyed.sorted).mpr ⟨key, hkey, by omega⟩
      rw [cutChunks_succ hkeyed hcut.current hcut.counted, if_pos hmore]
      apply ih (hcut.next hkeyed)
      obtain ⟨hmem, -, hle, -⟩ := greatest_of_mem hkeyed size hcut.current
      by_contra hbeyond
      have := hgap _ hmem (by omega)
      omega

/-- The loop ends exactly where the keys have no gap. -/
theorem cutChunks_ends_iff (hkeyed : Keyed keys start stop) :
    (∃ fuel, (cutChunks keys stop size fuel start 0 []).isSome = true) ↔ Gapless keys size := by
  constructor
  · rintro ⟨fuel, hsome⟩
    by_contra hgap
    unfold Gapless at hgap
    push Not at hgap
    obtain ⟨a, ha, hlater, hgap⟩ := hgap
    rw [cutChunks_stuck hkeyed hlater hgap fuel (Cutting.first hkeyed) (hkeyed.bounds a ha).1] at hsome
    cases hsome
  · intro hgapless
    exact ⟨stop + 1, cutChunks_ends hkeyed hgapless (stop + 1) (Cutting.first hkeyed) (by omega)⟩

/-! ### Balancing -/

theorem lt_countBelow_iff (hsorted : keys.Pairwise (· ≤ ·)) {boundary i : ℕ} (hi : i < keys.length) :
    i < (keys.takeWhile fun key => key < boundary).length ↔ keys[i] < boundary := by
  cases boundary with
  | zero =>
      have hnone : keys.takeWhile (fun key => key < 0) = [] := by
        rw [List.takeWhile_eq_nil_iff]
        simp
      rw [hnone]
      simp
  | succ boundary =>
      simp only [Nat.lt_succ_iff]
      exact lt_countUpTo_iff hsorted boundary hi

/-- `lower_bound` and the step back find the greatest key up to the boundary. -/
theorem nearestKey_eq (hsorted : keys.Pairwise (· ≤ ·)) {boundary : ℕ}
    (hsome : ∃ key ∈ keys, key ≤ boundary) :
    nearestKey keys boundary = greatestUpTo keys boundary := by
  obtain ⟨-, hle, hmax⟩ := greatestUpTo_spec hsorted hsome
  have hpos := (countUpTo_pos_iff hsorted).mpr hsome
  have hcount : countUpTo keys boundary ≤ keys.length := countUpTo_le_length
  have hbelow := @lt_countBelow_iff keys hsorted boundary
  have hit : (keys.takeWhile fun key => key < boundary).length ≤ keys.length :=
    (List.takeWhile_prefix _).length_le
  unfold nearestKey
  generalize (keys.takeWhile fun key => key < boundary).length = it at hbelow hit
  by_cases hback : it ≠ 0 ∧ (it = keys.length ∨ boundary < keys.getD it 0)
  · simp only [if_pos hback]
    unfold greatestUpTo
    congr 2
    apply le_antisymm
    · by_contra hmore
      have hi : countUpTo keys boundary < keys.length := by omega
      have hsmall := (hbelow hi).mp (by omega)
      have := (lt_countUpTo_iff hsorted boundary hi).mpr hsmall.le
      omega
    · by_contra hless
      have hi : it < keys.length := by omega
      have hsmall := (lt_countUpTo_iff hsorted boundary hi).mp (by omega)
      rcases hback.2 with hend | hgreater
      · omega
      · simp only [List.getD, List.getElem?_eq_getElem hi, Option.getD_some] at hgreater
        omega
  · simp only [if_neg hback]
    have hi : it < keys.length := by
      by_contra hend
      exact hback ⟨by omega, .inl (by omega)⟩
    have hget : keys.getD it 0 = keys[it] := by
      simp [List.getD, hi]
    have hfirst : keys[it] ≤ boundary := by
      by_contra hgreater
      rcases Nat.eq_zero_or_pos it with rfl | hitpos
      · exact hgreater ((lt_countUpTo_iff hsorted boundary hi).mp (by omega))
      · exact hback ⟨by omega, .inr (by rw [hget]; omega)⟩
    have hnot := (hbelow hi).not.mp (lt_irrefl it)
    have hge := hmax keys[it] (List.getElem_mem hi) hfirst
    rw [hget]
    omega

/-- Moving the last boundary back to a key block keeps the layout. -/
theorem balanceChunks_cover (hkeyed : Keyed keys start stop) {chunks : List (ℕ × ℕ)}
    (hcover : Cover chunks start stop) (hkeys : ∀ chunk ∈ chunks, chunk.1 ∈ keys) :
    Cover (balanceChunks keys chunks) start stop ∧
      ∀ chunk ∈ balanceChunks keys chunks, chunk.1 ∈ keys := by
  unfold balanceChunks
  split
  next lastChunk secondLastChunk earlier hreverse =>
      dsimp only
      split
      next hsmall =>
          have hsplit : chunks = earlier.reverse ++ [secondLastChunk, lastChunk] := by
            rw [← List.reverse_reverse chunks, hreverse]
            simp
          rw [hsplit, cover_append] at hcover
          obtain ⟨b, hearlier, hsecond, hsecondLe, hlast, hlastLe, hend⟩ := hcover
          have hsecondKey : secondLastChunk.1 ∈ keys := hkeys _ (by rw [hsplit]; simp)
          generalize hboundary : secondLastChunk.1 +
            (secondLastChunk.2 - secondLastChunk.1 + (lastChunk.2 - lastChunk.1)) / 2 = boundary
          have hsome : ∃ key ∈ keys, key ≤ boundary := ⟨_, hsecondKey, by omega⟩
          obtain ⟨hmem, hle, hmax⟩ := greatestUpTo_spec hkeyed.sorted hsome
          have hge := hmax _ hsecondKey (by omega)
          rw [nearestKey_eq hkeyed.sorted hsome]
          refine ⟨?_, ?_⟩
          · rw [cover_append]
            exact ⟨b, hearlier, hsecond, hge, rfl, by omega, hend⟩
          · intro chunk hchunk
            rcases List.mem_append.mp hchunk with hold | hnew
            · apply hkeys
              rw [hsplit]
              exact List.mem_append_left _ hold
            · simp only [List.mem_cons, List.not_mem_nil, or_false] at hnew
              rcases hnew with rfl | rfl
              · exact hsecondKey
              · exact hmem
      next => exact ⟨hcover, hkeys⟩
  next => exact ⟨hcover, hkeys⟩

/-- The chunks, where their preparation ends, cover the scanned part and begin at key blocks. -/
theorem prepareChunks_cover (hkeyed : Keyed keys start stop) {numThreads fuel : ℕ}
    {chunks : List (ℕ × ℕ)}
    (hprepared : prepareChunks keys stop start numThreads fuel = some (.ok chunks)) :
    Cover chunks start stop ∧ ∀ chunk ∈ chunks, chunk.1 ∈ keys := by
  unfold prepareChunks at hprepared
  dsimp only at hprepared
  split at hprepared
  next =>
      cases hprepared
      refine ⟨cover_single rfl rfl (hkeyed.bounds _ hkeyed.first).2.le, ?_⟩
      intro chunk hchunk
      rw [List.mem_singleton] at hchunk
      subst hchunk
      exact hkeyed.first
  next =>
      split at hprepared
      next => cases hprepared
      next =>
          obtain ⟨outcome, hcut, hmap⟩ := Option.map_eq_some_iff.mp hprepared
          obtain ⟨cut, rfl, hcover, hproper⟩ := cutChunks_cover hkeyed fuel (Cutting.first hkeyed) hcut
          cases hmap
          exact balanceChunks_cover hkeyed hcover fun chunk hchunk => (hproper chunk hchunk).1

/-- More turns do not change the chunks that the threads get. -/
theorem prepareChunks_mono {numThreads fuel fuel' : ℕ} {outcome : Except Crash (List (ℕ × ℕ))}
    (hle : fuel ≤ fuel') (hprepared : prepareChunks keys stop start numThreads fuel = some outcome) :
    prepareChunks keys stop start numThreads fuel' = some outcome := by
  unfold prepareChunks at hprepared ⊢
  dsimp only at hprepared ⊢
  split at hprepared
  next hsingle => rw [if_pos hsingle, hprepared]
  next hsingle =>
      rw [if_neg hsingle]
      split at hprepared
      next hzero => rw [if_pos hzero, hprepared]
      next hzero =>
          rw [if_neg hzero]
          obtain ⟨cut, hcut, rfl⟩ := Option.map_eq_some_iff.mp hprepared
          rw [cutChunks_mono hle hcut]
          rfl

/-- The chunks do not depend on the number of turns, once it is enough. -/
theorem prepareChunks_unique {numThreads fuel fuel' : ℕ} {outcome outcome' : Except Crash (List (ℕ × ℕ))}
    (hprepared : prepareChunks keys stop start numThreads fuel = some outcome)
    (hprepared' : prepareChunks keys stop start numThreads fuel' = some outcome') :
    outcome = outcome' := by
  have hmax := prepareChunks_mono (Nat.le_max_left fuel fuel') hprepared
  rw [prepareChunks_mono (Nat.le_max_right fuel fuel') hprepared'] at hmax
  exact (Option.some.inj hmax).symm

end Gridnet.Parallel
