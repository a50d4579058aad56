import Mathlib.Logic.Equiv.Basic
import Gridnet.Sha256

/-! The chain-proofs a node has just processed: a table of fingerprints and times, asked before a chain-proof is
followed. A chain-proof of more than 10 KB enters its fingerprint through ten samples of 1 KB. -/

namespace Gridnet

/-- One portion of 1024 bytes: `std::next` twice and the range between, which has to lie inside the vector. -/
def portionAt (chainProofBytes : Bytes) (start : ℕ) : Option Bytes :=
  if start + 1024 ≤ chainProofBytes.length then some ((chainProofBytes.drop start).take 1024) else none

/-- `interval`, between the starts of two portions. -/
def portionInterval (chainProofBytes : Bytes) : ℕ := (chainProofBytes.length - 1024) / 9

/-- `subsetBytes`; `none` where a portion reaches over the end. -/
def subsetBytes (chainProofBytes : Bytes) : Option Bytes :=
  (List.range 10).foldlM
    (fun subset i => (portionAt chainProofBytes (i * portionInterval chainProofBytes)).map (subset ++ ·)) []

/-- The bytes that are hashed. -/
def fingerprinted (chainProofBytes : Bytes) : Option Bytes :=
  if chainProofBytes.length ≤ 10 * 1024 then some chainProofBytes else subsetBytes chainProofBytes

/-- The fields of the blockchain manager that the three functions share. -/
structure RecentChainProofs where
  mRecentlyProcessedChainProofs : Bytes → Option UInt64
  mRecentlyProcessedChainProofsClearedTimestamp : UInt64

def RecentChainProofs.fresh : RecentChainProofs := ⟨fun _ => none, 0⟩

/-- `mRecentlyProcessedChainProofs[hash] = now`. -/
def RecentChainProofs.stamp (st : RecentChainProofs) (hash : Bytes) (now : UInt64) : RecentChainProofs :=
  { st with mRecentlyProcessedChainProofs := Function.update st.mRecentlyProcessedChainProofs hash (some now) }

/-- `mRecentlyProcessedChainProofs.erase`. -/
def RecentChainProofs.erase (st : RecentChainProofs) (hash : Bytes) : RecentChainProofs :=
  { st with mRecentlyProcessedChainProofs := Function.update st.mRecentlyProcessedChainProofs hash none }

section Calls

/- `getSHA2_256Vec`, and what `std::time(0)` says during the call. -/
variable (getSHA2_256Vec : Bytes → Bytes) (now : UInt64)

def markChainProofAsProcessed (chainProofBytes : Bytes) (st : RecentChainProofs) :
    Option (Bool × RecentChainProofs) :=
  if chainProofBytes = [] then some (false, st)
  else (fingerprinted chainProofBytes).map fun bytes => (true, st.stamp (getSHA2_256Vec bytes) now)

/-- What is left to do where the answer is `false`. -/
def markIfAsked (markAsProcessed : Bool) (hash : Bytes) (st : RecentChainProofs) : Bool × RecentChainProofs :=
  (false, if markAsProcessed then st.stamp hash now else st)

def wasChainProofRecentlyProcessed (chainProofBytes : Bytes) (markAsProcessed : Bool) (st : RecentChainProofs) :
    Option (Bool × RecentChainProofs) :=
  if chainProofBytes = [] then some (false, st)
  else
    (fingerprinted chainProofBytes).map fun bytes =>
      let hash := getSHA2_256Vec bytes
      match st.mRecentlyProcessedChainProofs hash with
      | some stored =>
          if now - stored ≤ 30 then (true, st) else markIfAsked now markAsProcessed hash (st.erase hash)
      | none => markIfAsked now markAsProcessed hash st

def cleanUpRecentlyProcessedChainProofs (pruneEverySec : UInt64) (st : RecentChainProofs) : Bool × RecentChainProofs :=
  if now - st.mRecentlyProcessedChainProofsClearedTimestamp > pruneEverySec then (true, ⟨fun _ => none, now⟩)
  else (false, st)

/-- A call of one of the three functions. -/
inductive ChainProofCall where
  | mark (chainProofBytes : Bytes)
  | was (chainProofBytes : Bytes) (markAsProcessed : Bool)
  | cleanUp (pruneEverySec : UInt64)

def ChainProofCall.answered : ChainProofCall → RecentChainProofs → Option (Bool × RecentChainProofs)
  | .mark c, st => markChainProofAsProcessed getSHA2_256Vec now c st
  | .was c markAsProcessed, st => wasChainProofRecentlyProcessed getSHA2_256Vec now c markAsProcessed st
  | .cleanUp pruneEverySec, st => some (cleanUpRecentlyProcessedChainProofs now pruneEverySec st)

/-- The byte strings that a call with this answer marks, each with the time. -/
def ChainProofCall.marks (answer : Bool) : ChainProofCall → List (UInt64 × Bytes)
  | .mark c => if c = [] then [] else [(now, c)]
  | .was c markAsProcessed => if c ≠ [] ∧ markAsProcessed = true ∧ answer = false then [(now, c)] else []
  | .cleanUp _ => []

end Calls

variable {getSHA2_256Vec : Bytes → Bytes}

/-! ### The samples -/

/-- **No sample reaches over the end of a long chain-proof.** -/
theorem portionAt_isSome {c : Bytes} (hlong : 10 * 1024 < c.length) {i : ℕ} (hi : i < 10) :
    portionAt c (i * portionInterval c) = some ((c.drop (i * portionInterval c)).take 1024) := by
  have hfit : i * portionInterval c ≤ 9 * portionInterval c := Nat.mul_le_mul_right _ (by omega)
  have hlast : 9 * portionInterval c ≤ c.length - 1024 := Nat.mul_div_le _ 9
  rw [portionAt, if_pos (by omega)]

/-- Once the portions are inside, the loop concatenates them. -/
theorem foldlM_portions {c : Bytes} (hlong : 10 * 1024 < c.length) {indices : List ℕ}
    (hindices : ∀ i ∈ indices, i < 10) (subset : Bytes) :
    indices.foldlM (fun subset i => (portionAt c (i * portionInterval c)).map (subset ++ ·)) subset =
      some (subset ++ indices.flatMap fun i => (c.drop (i * portionInterval c)).take 1024) := by
  induction indices generalizing subset with
  | nil => simp
  | cons i indices ih =>
      rw [List.foldlM_cons, portionAt_isSome hlong (hindices i (by simp))]
      simp [ih fun j hj => hindices j (List.mem_cons_of_mem i hj)]

theorem subsetBytes_of_long {c : Bytes} (hlong : 10 * 1024 < c.length) :
    subsetBytes c = some ((List.range 10).flatMap fun i => (c.drop (i * portionInterval c)).take 1024) := by
  rw [subsetBytes, foldlM_portions hlong fun i hi => List.mem_range.mp hi, List.nil_append]

/-- The sampling never reads out of range. -/
theorem exists_fingerprinted (c : Bytes) : ∃ bytes, fingerprinted c = some bytes := by
  unfold fingerprinted
  split_ifs with hshort
  · exact ⟨c, rfl⟩
  · exact ⟨_, subsetBytes_of_long (by omega)⟩

/-- Up to 10 KB the fingerprint is that of the whole chain-proof. -/
theorem fingerprinted_of_short {c : Bytes} (hshort : c.length ≤ 10 * 1024) : fingerprinted c = some c := if_pos hshort

/-- All long chain-proofs of one repeated byte give the same samples. -/
theorem fingerprinted_replicate {n : ℕ} (hlong : 10 * 1024 < n) (b : UInt8) :
    fingerprinted (List.replicate n b) = some (List.replicate (10 * 1024) b) := by
  have hlong' : 10 * 1024 < (List.replicate n b).length := by simpa using hlong
  rw [fingerprinted, if_neg (by simpa using hlong), subsetBytes_of_long hlong']
  have hportion : ∀ i ∈ List.range 10,
      ((List.replicate n b).drop (i * portionInterval (List.replicate n b))).take 1024 = List.replicate 1024 b := by
    intro i hi
    have hfit : i * portionInterval (List.replicate n b) ≤ 9 * portionInterval (List.replicate n b) :=
      Nat.mul_le_mul_right _ (by have := List.mem_range.mp hi; omega)
    have hlast : 9 * portionInterval (List.replicate n b) ≤ (List.replicate n b).length - 1024 := Nat.mul_div_le _ 9
    rw [List.length_replicate] at hlast
    rw [List.drop_replicate, List.take_replicate, Nat.min_eq_left (by omega)]
  rw [List.flatMap_congr hportion, Option.some_inj, List.eq_replicate_iff]
  constructor
  · rw [List.length_flatMap]
    simp only [List.length_replicate, List.map_const', List.length_range, List.sum_replicate]
    rfl
  · intro byte hbyte
    obtain ⟨-, -, hmem⟩ := List.mem_flatMap.mp hbyte
    exact List.eq_of_mem_replicate hmem

/-! ### Histories -/

section Runs

variable (getSHA2_256Vec)

/-- Every call of the history reads inside its bytes, and where a chain-proof is skipped, exactly that byte string was
marked within the last 30 seconds. `marked` is what was marked so far. -/
def SkipsOnlyProcessed (marked : List (UInt64 × Bytes)) :
    List (UInt64 × ChainProofCall) → RecentChainProofs → Prop
  | [], _ => True
  | (now, call) :: calls, st =>
      ∃ answer st', call.answered getSHA2_256Vec now st = some (answer, st') ∧
        (∀ c markAsProcessed, call = .was c markAsProcessed → answer = true →
          ∃ stored, (stored, c) ∈ marked ∧ stored ≤ now ∧ now - stored ≤ 30) ∧
        SkipsOnlyProcessed (marked ++ call.marks now answer) calls st'

end Runs

/-- A call that may mark a byte string. -/
def ChainProofCall.mayMark : ChainProofCall → Option Bytes
  | .mark c => some c
  | .was c markAsProcessed => if markAsProcessed then some c else none
  | .cleanUp _ => none

/-- Where a chain-proof is asked for, its hashed bytes tell it from what was marked within the 30 seconds before. -/
def TellsApart (mark : UInt64 × Bytes) (later : UInt64 × ChainProofCall) : Prop :=
  ∀ c markAsProcessed, later.2 = .was c markAsProcessed → later.1 - mark.1 ≤ 30 →
    fingerprinted mark.2 = fingerprinted c → mark.2 = c

/-- A call is told apart from what an earlier one may have marked. -/
def ToldApart (earlier later : UInt64 × ChainProofCall) : Prop :=
  ∀ d, earlier.2.mayMark = some d → TellsApart (earlier.1, d) later

theorem ChainProofCall.mayMark_of_marks {now stored : UInt64} {answer : Bool} {call : ChainProofCall} {c : Bytes}
    (hmarks : (stored, c) ∈ call.marks now answer) : stored = now ∧ call.mayMark = some c := by
  cases call with
  | mark d =>
      simp only [marks] at hmarks
      split_ifs at hmarks
      · cases hmarks
      · cases List.mem_singleton.mp hmarks
        exact ⟨rfl, rfl⟩
  | was d markAsProcessed =>
      simp only [marks] at hmarks
      split_ifs at hmarks with hcond
      · cases List.mem_singleton.mp hmarks
        exact ⟨rfl, by simp [mayMark, hcond.2.1]⟩
      · cases hmarks
  | cleanUp pruneEverySec => cases hmarks

/-- What the table holds was marked. -/
def Logged (getSHA2_256Vec : Bytes → Bytes) (marked : List (UInt64 × Bytes)) (st : RecentChainProofs) : Prop :=
  ∀ hash stored, st.mRecentlyProcessedChainProofs hash = some stored →
    ∃ c bytes, (stored, c) ∈ marked ∧ fingerprinted c = some bytes ∧ getSHA2_256Vec bytes = hash

theorem Logged.mono {marked marked' : List (UInt64 × Bytes)} {st : RecentChainProofs}
    (hlogged : Logged getSHA2_256Vec marked st) : Logged getSHA2_256Vec (marked ++ marked') st := by
  intro hash stored hentry
  obtain ⟨c, bytes, hmem, hrest⟩ := hlogged hash stored hentry
  exact ⟨c, bytes, List.mem_append_left _ hmem, hrest⟩

theorem Logged.erase {marked : List (UInt64 × Bytes)} {st : RecentChainProofs}
    (hlogged : Logged getSHA2_256Vec marked st) (hash : Bytes) : Logged getSHA2_256Vec marked (st.erase hash) := by
  intro hash' stored hentry
  by_cases hsame : hash' = hash
  · simp [RecentChainProofs.erase, hsame] at hentry
  · exact hlogged hash' stored (by simpa [RecentChainProofs.erase, hsame] using hentry)

theorem Logged.stamp {marked : List (UInt64 × Bytes)} {st : RecentChainProofs} {c bytes : Bytes} {now : UInt64}
    (hlogged : Logged getSHA2_256Vec marked st) (hbytes : fingerprinted c = some bytes) :
    Logged getSHA2_256Vec (marked ++ [(now, c)]) (st.stamp (getSHA2_256Vec bytes) now) := by
  intro hash stored hentry
  by_cases hsame : hash = getSHA2_256Vec bytes
  · have hstored : stored = now := by simpa [RecentChainProofs.stamp, hsame, eq_comm] using hentry
    exact ⟨c, bytes, by simp [hstored], hbytes, hsame.symm⟩
  · exact hlogged.mono hash stored (by simpa [RecentChainProofs.stamp, hsame] using hentry)

/-- What the table holds after a call was marked by then. -/
theorem Logged.answered {marked : List (UInt64 × Bytes)} {st st' : RecentChainProofs} {now : UInt64}
    {call : ChainProofCall} {answer : Bool} (hlogged : Logged getSHA2_256Vec marked st)
    (hcall : call.answered getSHA2_256Vec now st = some (answer, st')) :
    Logged getSHA2_256Vec (marked ++ call.marks now answer) st' := by
  cases call with
  | mark c =>
      simp only [ChainProofCall.answered, markChainProofAsProcessed] at hcall
      split_ifs at hcall with hempty
      · cases hcall
        exact hlogged.mono
      · obtain ⟨bytes, hbytes, heq⟩ := Option.map_eq_some_iff.mp hcall
        cases heq
        simpa [ChainProofCall.marks, hempty] using hlogged.stamp hbytes
  | was c markAsProcessed =>
      simp only [ChainProofCall.answered, wasChainProofRecentlyProcessed] at hcall
      split_ifs at hcall with hempty
      · cases hcall
        exact hlogged.mono
      · obtain ⟨bytes, hbytes, heq⟩ := Option.map_eq_some_iff.mp hcall
        -- whatever is left of the table, the entry of `c` is written only where it is asked for
        have hasked : ∀ table, Logged getSHA2_256Vec marked table →
            markIfAsked now markAsProcessed (getSHA2_256Vec bytes) table = (answer, st') →
            Logged getSHA2_256Vec (marked ++ ChainProofCall.marks now answer (.was c markAsProcessed)) st' := by
          intro table htable hmark
          cases hmark
          cases markAsProcessed with
          | false => exact htable.mono
          | true => simpa [ChainProofCall.marks, hempty] using htable.stamp hbytes
        split at heq
        case h_1 stored hentry =>
          split_ifs at heq with hrecent
          · cases heq
            exact hlogged.mono
          · exact hasked _ (hlogged.erase _) heq
        case h_2 => exact hasked _ hlogged heq
  | cleanUp pruneEverySec =>
      simp only [ChainProofCall.answered, cleanUpRecentlyProcessedChainProofs, Option.some.injEq] at hcall
      split_ifs at hcall
      · cases hcall
        intro hash stored hentry
        cases hentry
      · cases hcall
        exact hlogged.mono

/-- A chain-proof is skipped for an entry of its fingerprint that is not older than 30 seconds. -/
theorem entry_of_skipped {st st' : RecentChainProofs} {now : UInt64} {c : Bytes} {markAsProcessed : Bool}
    (hcall : wasChainProofRecentlyProcessed getSHA2_256Vec now c markAsProcessed st = some (true, st')) :
    ∃ bytes stored, fingerprinted c = some bytes ∧
      st.mRecentlyProcessedChainProofs (getSHA2_256Vec bytes) = some stored ∧ now - stored ≤ 30 := by
  simp only [wasChainProofRecentlyProcessed] at hcall
  split_ifs at hcall
  · cases hcall
  · obtain ⟨bytes, hbytes, heq⟩ := Option.map_eq_some_iff.mp hcall
    split at heq
    case h_1 stored hentry =>
      split_ifs at heq with hrecent
      · exact ⟨bytes, stored, hbytes, hentry, hrecent⟩
      · cases heq
    case h_2 => cases heq

theorem exists_answered (call : ChainProofCall) (now : UInt64) (st : RecentChainProofs) :
    ∃ answer st', call.answered getSHA2_256Vec now st = some (answer, st') := by
  cases call with
  | mark c =>
      obtain ⟨bytes, hbytes⟩ := exists_fingerprinted c
      simp only [ChainProofCall.answered, markChainProofAsProcessed, hbytes, Option.map_some]
      split_ifs <;> exact ⟨_, _, rfl⟩
  | was c markAsProcessed =>
      obtain ⟨bytes, hbytes⟩ := exists_fingerprinted c
      simp only [ChainProofCall.answered, wasChainProofRecentlyProcessed, hbytes, Option.map_some]
      split_ifs <;> exact ⟨_, _, rfl⟩
  | cleanUp pruneEverySec => exact ⟨_, _, rfl⟩

theorem skipsOnlyProcessed_of_logged (hsha : Function.Injective getSHA2_256Vec)
    {calls : List (UInt64 × ChainProofCall)} (hinOrder : calls.Pairwise fun earlier later => earlier.1 ≤ later.1)
    (happart : calls.Pairwise ToldApart) {marked : List (UInt64 × Bytes)} {st : RecentChainProofs}
    (hlogged : Logged getSHA2_256Vec marked st)
    (hbefore : ∀ mark ∈ marked, ∀ later ∈ calls, mark.1 ≤ later.1 ∧ TellsApart mark later) :
    SkipsOnlyProcessed getSHA2_256Vec marked calls st := by
  induction calls generalizing marked st with
  | nil => trivial
  | cons timed calls ih =>
      obtain ⟨now, call⟩ := timed
      obtain ⟨answer, st', hcall⟩ : ∃ answer st', call.answered getSHA2_256Vec now st = some (answer, st') :=
        exists_answered call now st
      rw [List.pairwise_cons] at hinOrder happart
      refine ⟨answer, st', hcall, ?_, ih hinOrder.2 happart.2 (hlogged.answered hcall) ?_⟩
      · rintro c markAsProcessed rfl rfl
        obtain ⟨bytes, stored, hbytes, hentry, hrecent⟩ := entry_of_skipped hcall
        obtain ⟨d, bytes', hmem, hbytes', hhash⟩ := hlogged _ _ hentry
        obtain ⟨htime, htells⟩ := hbefore _ hmem _ List.mem_cons_self
        have hsamples : fingerprinted d = fingerprinted c := by rw [hbytes', hbytes, hsha hhash]
        obtain rfl : d = c := htells c markAsProcessed rfl hrecent hsamples
        exact ⟨stored, hmem, htime, hrecent⟩
      · intro mark hmark later hlater
        rcases List.mem_append.mp hmark with hold | hnew
        · exact hbefore mark hold later (List.mem_cons_of_mem _ hlater)
        · obtain ⟨rfl, hmay⟩ := ChainProofCall.mayMark_of_marks hnew
          exact ⟨hinOrder.1 later hlater, happart.1 later hlater _ hmay⟩

/-- In a history whose calls tell apart what was marked shortly before, a chain-proof is skipped only if it was
processed itself. -/
theorem skipsOnlyProcessed_of_toldApart (hsha : Function.Injective getSHA2_256Vec)
    {calls : List (UInt64 × ChainProofCall)} (hinOrder : calls.Pairwise fun earlier later => earlier.1 ≤ later.1)
    (happart : calls.Pairwise ToldApart) : SkipsOnlyProcessed getSHA2_256Vec [] calls .fresh := by
  apply skipsOnlyProcessed_of_logged hsha hinOrder happart
  · intro hash stored hentry
    cases hentry
  · intro mark hmark
    cases hmark

/-- The calls tell apart what their fingerprints tell apart. -/
theorem pairwise_toldApart_of_injOn (proofs : Set Bytes) (hinj : Set.InjOn fingerprinted proofs)
    {calls : List (UInt64 × ChainProofCall)} (hmarked : ∀ timed ∈ calls, ∀ d, timed.2.mayMark = some d → d ∈ proofs)
    (hasked : ∀ timed ∈ calls, ∀ c markAsProcessed, timed.2 = .was c markAsProcessed → c ∈ proofs) :
    calls.Pairwise ToldApart := by
  apply List.pairwise_of_forall_mem_list
  intro earlier hearlier later hlater d hmay c markAsProcessed hlaterAsks _ hsame
  exact hinj (hmarked earlier hearlier d hmay) (hasked later hlater c markAsProcessed hlaterAsks) hsame

def longProof : Bytes := List.replicate 20000 7

def longSamples : Bytes := List.replicate (10 * 1024) 7

theorem fingerprinted_longProof : fingerprinted longProof = some longSamples := fingerprinted_replicate (by decide) 7

/-- SHA-256 where a long chain-proof and a short one are asked for. -/
def sampledHash : Bytes ≃ Bytes :=
  (Equiv.swap [8] (sha256 [8]).val).trans (Equiv.swap longSamples (sha256 longSamples).val)

theorem skipsOnlyProcessed_longProof :
    SkipsOnlyProcessed sampledHash []
      [(0, .mark longProof), (12, .was longProof true), (20, .was [8] true), (43, .was [8] false), (60, .cleanUp 50)]
      .fresh := by
  apply skipsOnlyProcessed_of_toldApart sampledHash.injective (by decide)
  have hdistinct : longSamples ≠ [8] := by
    intro heq
    have hlength := congrArg List.length heq
    rw [longSamples, List.length_replicate, List.length_singleton] at hlength
    omega
  apply pairwise_toldApart_of_injOn {longProof, [8]}
  · rw [Set.injOn_pair, fingerprinted_longProof, fingerprinted_of_short (c := [8]) (by decide), Option.some.injEq]
    exact fun heq => absurd heq hdistinct
  · simp [ChainProofCall.mayMark]
  · simp

/-- A chain-proof is skipped for another one with the same samples. -/
theorem skipped_of_sameSamples {c d : Bytes} (hd : d ≠ []) (hc : c ≠ []) (hsame : fingerprinted d = fingerprinted c)
    {now : UInt64} (hdistinct : d ≠ c) (markAsProcessed : Bool) :
    ¬SkipsOnlyProcessed getSHA2_256Vec [] [(now, .mark d), (now, .was c markAsProcessed)] .fresh := by
  rintro ⟨answer, st, hmark, -, answer', st', hwas, hskips, -⟩
  obtain ⟨bytes, hbytes⟩ := exists_fingerprinted d
  simp only [ChainProofCall.answered, markChainProofAsProcessed, if_neg hd, hbytes, Option.map_some,
    Option.some.injEq, Prod.mk.injEq] at hmark
  obtain ⟨rfl, rfl⟩ := hmark
  have hanswer : answer' = true := by
    simp only [ChainProofCall.answered, wasChainProofRecentlyProcessed, if_neg hc, ← hsame, hbytes, Option.map_some,
      RecentChainProofs.stamp, Function.update_self, UInt64.sub_self] at hwas
    simpa using (congrArg (Option.map Prod.fst) hwas).symm
  obtain ⟨stored, hmem, -⟩ := hskips c markAsProcessed rfl hanswer
  simp [ChainProofCall.marks, hd] at hmem
  exact hdistinct hmem.2.symm

/-- Two runs of zero bytes of different lengths have the same samples. -/
theorem zeros_skipped :
    ¬∀ (getSHA2_256Vec : Bytes → Bytes) (calls : List (UInt64 × ChainProofCall)), Function.Injective getSHA2_256Vec →
      calls.Pairwise (fun earlier later => earlier.1 ≤ later.1) →
        SkipsOnlyProcessed getSHA2_256Vec [] calls .fresh := by
  intro hskips
  have hsame : fingerprinted (List.replicate 30000 0) = fingerprinted (List.replicate 20000 0) :=
    (fingerprinted_replicate (by omega) 0).trans (fingerprinted_replicate (by omega) 0).symm
  have hdistinct : List.replicate 30000 (0 : UInt8) ≠ List.replicate 20000 0 := by
    intro heq
    have hlength := congrArg List.length heq
    rw [List.length_replicate, List.length_replicate] at hlength
    omega
  refine skipped_of_sameSamples ?_ ?_ hsame hdistinct true
    (hskips id [(0, .mark (List.replicate 30000 0)), (0, .was (List.replicate 20000 0) true)] Function.injective_id ?_)
  · rw [Ne, List.replicate_eq_nil_iff]
    omega
  · rw [Ne, List.replicate_eq_nil_iff]
    omega
  · exact List.pairwise_pair.mpr UInt64.le_rfl

end Gridnet
