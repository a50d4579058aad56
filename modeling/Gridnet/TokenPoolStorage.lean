import Gridnet.Base58Exact
import Gridnet.KeyedStore
import Gridnet.PoolCodec

/-! Token pools in the storage of a state domain. A pool is stored under its friendly ID, or under the Base58 text of
the first four bytes of its ID, and whatever was there is replaced. -/

namespace Gridnet

namespace CStateDomain

/-- `CTools::base58Encode` and the directory of the token pools, whose code is not at hand. -/
structure PoolStorage (σ : Type) extends KeyedStore σ Bytes Asn1 where
  base58Encode : Bytes → Bytes
  base58Encode_inj : ∀ {a b}, a.length = 4 → b.length = 4 → base58Encode a = base58Encode b → a = b

variable {σ : Type} (S : PoolStorage σ)

/-- The key of a pool. To erase from the fifth byte of a shorter ID is undefined. -/
def poolKey (pool : CTokenPool) : Option Bytes :=
  if pool.mFriendlyID.length > 0 then some pool.mFriendlyID
  else if 4 ≤ pool.mTokenPoolID.length then some (S.base58Encode (pool.mTokenPoolID.take 4))
  else none

/-- `addTokenPool`, with the key that it hands back. -/
def addTokenPool (s : σ) (pool : CTokenPool) : Option (Bool × Bytes × σ) :=
  (poolKey S pool).map fun key =>
    let saved := S.save s key (pool.getPackedData true)
    (saved.1, key, saved.2)

/-- `updateTokenPool`, a simple overwrite. -/
def updateTokenPool (s : σ) (pool : CTokenPool) : Option (Bool × σ) :=
  (addTokenPool S s pool).map fun added => (added.1, added.2.2)

def getTokenPoolP1 (cf : CCryptoFactory) (random : Bytes32) (s : σ) (id : Bytes) : Option CTokenPool :=
  (S.load s id).bind fun data => CTokenPool.instantiate cf random data []

/-- Calls of `addTokenPool`, one after the other: the pools for which it returned true, and the storage at the end. -/
def addTokenPools : σ → List CTokenPool → Option (List CTokenPool × σ)
  | s, [] => some ([], s)
  | s, pool :: pools => do
      let added ← addTokenPool S s pool
      let rest ← addTokenPools added.2.2 pools
      return (if added.1 then pool :: rest.1 else rest.1, rest.2)

/-! ### Keys -/

/-- A pool that has a key. -/
def HasKey (pool : CTokenPool) : Prop := pool.mFriendlyID ≠ [] ∨ 4 ≤ pool.mTokenPoolID.length

/-- Both pools have one friendly ID, or none and IDs that start with the same four bytes, or the friendly ID of one is
the Base58 text of the first four bytes of the ID of the other. -/
def SameKey (p q : CTokenPool) : Prop :=
  (p.mFriendlyID ≠ [] ∧ p.mFriendlyID = q.mFriendlyID) ∨
    (p.mFriendlyID = [] ∧ q.mFriendlyID = [] ∧ p.mTokenPoolID.take 4 = q.mTokenPoolID.take 4) ∨
    (p.mFriendlyID ≠ [] ∧ q.mFriendlyID = [] ∧ p.mFriendlyID = S.base58Encode (q.mTokenPoolID.take 4)) ∨
    (p.mFriendlyID = [] ∧ q.mFriendlyID ≠ [] ∧ q.mFriendlyID = S.base58Encode (p.mTokenPoolID.take 4))

instance : DecidablePred HasKey := fun _ => inferInstanceAs (Decidable (_ ∨ _))

instance (p q : CTokenPool) : Decidable (SameKey S p q) := inferInstanceAs (Decidable (_ ∨ _))

variable {S} {p q pool : CTokenPool} {s : σ}

theorem poolKey_of_friendly (hfriendly : pool.mFriendlyID ≠ []) : poolKey S pool = some pool.mFriendlyID :=
  if_pos (List.length_pos_iff.mpr hfriendly)

theorem poolKey_of_id (hplain : pool.mFriendlyID = []) (hid : 4 ≤ pool.mTokenPoolID.length) :
    poolKey S pool = some (S.base58Encode (pool.mTokenPoolID.take 4)) := by
  rw [poolKey, hplain, if_neg (by decide), if_pos hid]

theorem hasKey_iff : HasKey pool ↔ ∃ key, poolKey S pool = some key := by
  by_cases hfriendly : pool.mFriendlyID = []
  · by_cases hid : 4 ≤ pool.mTokenPoolID.length
    · exact iff_of_true (.inr hid) ⟨_, poolKey_of_id hfriendly hid⟩
    · refine iff_of_false (fun hkey => hkey.elim (· hfriendly) hid) ?_
      rintro ⟨key, hkey⟩
      rw [poolKey, hfriendly, if_neg (by decide), if_neg hid] at hkey
      cases hkey
  · exact iff_of_true (.inl hfriendly) ⟨_, poolKey_of_friendly hfriendly⟩

/-- Keys are the same exactly if the pools say so. -/
theorem poolKey_eq_iff (hp : HasKey p) (hq : HasKey q) : poolKey S p = poolKey S q ↔ SameKey S p q := by
  by_cases hpf : p.mFriendlyID = [] <;> by_cases hqf : q.mFriendlyID = []
  · have hpid : 4 ≤ p.mTokenPoolID.length := hp.resolve_left (not_not_intro hpf)
    have hqid : 4 ≤ q.mTokenPoolID.length := hq.resolve_left (not_not_intro hqf)
    have hlength : ∀ {id : Bytes}, 4 ≤ id.length → (id.take 4).length = 4 := by
      intro id hid
      rw [List.length_take]
      omega
    rw [poolKey_of_id hpf hpid, poolKey_of_id hqf hqid, Option.some_inj]
    simp only [SameKey, hpf, hqf, ne_eq, not_true_eq_false, false_and, true_and, or_false, false_or]
    exact ⟨S.base58Encode_inj (hlength hpid) (hlength hqid), congrArg _⟩
  · have hpid : 4 ≤ p.mTokenPoolID.length := hp.resolve_left (not_not_intro hpf)
    rw [poolKey_of_id hpf hpid, poolKey_of_friendly hqf, Option.some_inj]
    simp only [SameKey, hpf, hqf, ne_eq, not_true_eq_false, not_false_eq_true, false_and, true_and, false_or]
    exact eq_comm
  · have hqid : 4 ≤ q.mTokenPoolID.length := hq.resolve_left (not_not_intro hqf)
    rw [poolKey_of_friendly hpf, poolKey_of_id hqf hqid, Option.some_inj]
    simp [SameKey, hpf, hqf]
  · rw [poolKey_of_friendly hpf, poolKey_of_friendly hqf, Option.some_inj]
    simp [SameKey, hpf, hqf]

/-! ### What is stored -/

/-- The content of the pool is what is stored under its key. -/
def Retrievable (S : PoolStorage σ) (s : σ) (pool : CTokenPool) : Prop :=
  ∃ key, poolKey S pool = some key ∧ S.load s key = some (pool.getPackedData true)

/-- What `getTokenPoolP1` brings to life of a pool that is retrievable. -/
theorem Retrievable.getTokenPoolP1_eq (hretrievable : Retrievable S s pool) (cf : CCryptoFactory) (random : Bytes32) :
    ∃ key, poolKey S pool = some key ∧
      getTokenPoolP1 S cf random s key = CTokenPool.instantiate cf random (pool.getPackedData true) [] := by
  obtain ⟨key, hkey, hload⟩ := hretrievable
  refine ⟨key, hkey, ?_⟩
  rw [getTokenPoolP1, hload, Option.bind_some]

theorem retrievable_iff {write : Bytes × Asn1} (hkey : poolKey S pool = some write.1)
    (hdata : write.2 = pool.getPackedData true) : Retrievable S s pool ↔ S.load s write.1 = some write.2 := by
  rw [hdata]
  constructor
  · rintro ⟨key, hsome, hload⟩
    rwa [← Option.some.inj (hkey.symm.trans hsome)] at hload
  · exact fun hload => ⟨write.1, hkey, hload⟩

/-- The packed data tell the ID. -/
theorem mTokenPoolID_of_getPackedData (heq : p.getPackedData true = q.getPackedData true) :
    p.mTokenPoolID = q.mTokenPoolID := by
  simp only [CTokenPool.getPackedData, List.cons_append, Asn1.sequence.injEq, Asn1.octets.injEq,
    List.cons.injEq] at heq
  exact heq.2.1.2.2.2.2.2.2.1

/-! ### Runs -/

/-- What `addTokenPool` saves of a pool with a key. -/
def poolWrite (S : PoolStorage σ) (pool : CTokenPool) : Bytes × Asn1 :=
  ((poolKey S pool).getD [], pool.getPackedData true)

theorem poolKey_eq_poolWrite (hkey : HasKey pool) : poolKey S pool = some (poolWrite S pool).1 := by
  obtain ⟨key, hsome⟩ := hasKey_iff.mp hkey
  rw [poolWrite, hsome, Option.getD_some]

theorem addTokenPool_eq (hkey : HasKey pool) (s : σ) :
    addTokenPool S s pool = some ((S.save s (poolWrite S pool).1 (poolWrite S pool).2).1, (poolWrite S pool).1,
      (S.save s (poolWrite S pool).1 (poolWrite S pool).2).2) := by
  rw [addTokenPool, poolKey_eq_poolWrite hkey]
  rfl

/-- Calls for pools with keys are writes to the store. -/
theorem addTokenPools_eq {pools : List CTokenPool} (hkeys : ∀ p ∈ pools, HasKey p) (s : σ) :
    ∃ stored, addTokenPools S s pools = some (stored, (S.saveAll s (pools.map (poolWrite S))).2) ∧
      stored.map (poolWrite S) = (S.saveAll s (pools.map (poolWrite S))).1 ∧ stored.Sublist pools := by
  induction pools generalizing s with
  | nil => exact ⟨[], rfl, rfl, List.Sublist.slnil⟩
  | cons pool pools ih =>
      obtain ⟨hkey, hrest⟩ := List.forall_mem_cons.mp hkeys
      obtain ⟨stored, hrun, hwrites, hsublist⟩ := ih hrest (S.save s (poolWrite S pool).1 (poolWrite S pool).2).2
      rw [addTokenPools, addTokenPool_eq hkey, Option.bind_eq_bind, Option.bind_some, hrun, Option.bind_eq_bind,
        Option.bind_some, List.map_cons, KeyedStore.saveAll]
      cases (S.save s (poolWrite S pool).1 (poolWrite S pool).2).1 with
      | true => exact ⟨pool :: stored, rfl, congrArg _ hwrites, hsublist.cons_cons pool⟩
      | false => exact ⟨stored, rfl, hwrites, hsublist.cons pool⟩

/-- Without a key there is no telling what a call does. -/
theorem hasKey_of_addTokenPools {pools : List CTokenPool} {result : List CTokenPool × σ}
    (hrun : addTokenPools S s pools = some result) : ∀ p ∈ pools, HasKey p := by
  induction pools generalizing s result with
  | nil => exact fun p hp => absurd hp List.not_mem_nil
  | cons pool pools ih =>
      rw [addTokenPools] at hrun
      obtain ⟨added, hadd, hrest⟩ := Option.bind_eq_some_iff.mp hrun
      obtain ⟨rest, hcalls, -⟩ := Option.bind_eq_some_iff.mp hrest
      obtain ⟨key, hkey, -⟩ := Option.map_eq_some_iff.mp hadd
      exact List.forall_mem_cons.mpr ⟨hasKey_iff.mpr ⟨key, hkey⟩, ih hcalls⟩

/-- Every pool for which a call returned true is still there at the end. -/
def KeepsAll (S : PoolStorage σ) (s : σ) (pools : List CTokenPool) : Prop :=
  ∃ stored s', addTokenPools S s pools = some (stored, s') ∧ ∀ p ∈ stored, Retrievable S s' p

/-- Of the pools whose writes the storage accepts no two have one key, and every pool has a key. -/
def KeysDiffer (S : PoolStorage σ) (s : σ) (pools : List CTokenPool) : Prop :=
  (∀ p ∈ pools, HasKey p) ∧
    ∀ stored s', addTokenPools S s pools = some (stored, s') → stored.Pairwise fun p q => ¬SameKey S p q

/-- Pools are kept when the writes of those that were stored are. -/
theorem keepsAll_iff_kept {pools stored : List CTokenPool} (hkeys : ∀ p ∈ stored, HasKey p)
    (hrun : addTokenPools S s pools = some (stored, (S.saveAll s (pools.map (poolWrite S))).2))
    (hwrites : stored.map (poolWrite S) = (S.saveAll s (pools.map (poolWrite S))).1) :
    KeepsAll S s pools ↔ ∀ w ∈ stored.map (poolWrite S),
      KeyedStore.overwrite w.1 (S.load s w.1) (stored.map (poolWrite S)) = some w.2 := by
  rw [List.forall_mem_map]
  constructor
  · rintro ⟨stored', s', hrun', hkept⟩ p hp
    obtain ⟨rfl, rfl⟩ := Prod.mk.inj (Option.some.inj (hrun.symm.trans hrun'))
    rw [hwrites, ← KeyedStore.load_saveAll]
    exact (retrievable_iff (poolKey_eq_poolWrite (hkeys p hp)) rfl).mp (hkept p hp)
  · intro hkept
    refine ⟨stored, _, hrun, fun p hp => (retrievable_iff (poolKey_eq_poolWrite (hkeys p hp)) rfl).mpr ?_⟩
    rw [KeyedStore.load_saveAll, ← hwrites]
    exact hkept p hp

/-- Writes have different keys when the pools do. -/
theorem pairwise_poolWrite_iff {stored : List CTokenPool} (hkeys : ∀ p ∈ stored, HasKey p) :
    ((stored.map (poolWrite S)).Pairwise fun a b => a.1 ≠ b.1) ↔ stored.Pairwise fun p q => ¬SameKey S p q := by
  have hsame : ∀ {p q : CTokenPool}, p ∈ stored → q ∈ stored →
      ((poolWrite S p).1 ≠ (poolWrite S q).1 ↔ ¬SameKey S p q) := by
    intro p q hp hq
    rw [← poolKey_eq_iff (hkeys p hp) (hkeys q hq), poolKey_eq_poolWrite (hkeys p hp),
      poolKey_eq_poolWrite (hkeys q hq), Option.some_inj]
  rw [List.pairwise_map, List.Pairwise.iff_of_mem hsame]

theorem keepsAll_iff_keysDiffer {pools : List CTokenPool}
    (hids : pools.Pairwise fun p q => p.mTokenPoolID ≠ q.mTokenPoolID) : KeepsAll S s pools ↔ KeysDiffer S s pools := by
  by_cases hkeys : ∀ p ∈ pools, HasKey p
  case neg =>
    refine iff_of_false ?_ fun hdiffer => hkeys hdiffer.1
    rintro ⟨stored, s', hrun, -⟩
    exact hkeys (hasKey_of_addTokenPools hrun)
  case pos =>
    obtain ⟨stored, hrun, hwrites, hsublist⟩ := addTokenPools_eq (S := S) hkeys s
    have hstored : ∀ p ∈ stored, HasKey p := fun p hp => hkeys p (hsublist.mem hp)
    have hvalues : (stored.map (poolWrite S)).Pairwise fun a b => a.2 ≠ b.2 :=
      List.pairwise_map.mpr ((hids.sublist hsublist).imp fun hne heq => hne (mTokenPoolID_of_getPackedData heq))
    have hdiffer : KeysDiffer S s pools ↔ stored.Pairwise fun p q => ¬SameKey S p q := by
      constructor
      · exact fun hdiffer => hdiffer.2 stored _ hrun
      · intro hpairs
        refine ⟨hkeys, fun stored' s' hrun' => ?_⟩
        rwa [← (Prod.mk.inj (Option.some.inj (hrun.symm.trans hrun'))).1]
    rw [keepsAll_iff_kept hstored hrun hwrites, hdiffer, ← pairwise_poolWrite_iff hstored]
    exact KeyedStore.kept_iff (S.load s) hvalues

/-! ### Updates -/

/-- The update of a pool replaces that pool, if it is accepted, and leaves every other one retrievable. -/
def ReplacesOnly (S : PoolStorage σ) (s : σ) (pool : CTokenPool) : Prop :=
  ∃ accepted s', updateTokenPool S s pool = some (accepted, s') ∧ (accepted = true → Retrievable S s' pool) ∧
    ∀ other, other.mTokenPoolID ≠ pool.mTokenPoolID → Retrievable S s other → Retrievable S s' other

/-- The storage rejects what an update of the pool saves. -/
def Rejected (S : PoolStorage σ) (s : σ) (pool : CTokenPool) : Prop :=
  ∃ key, poolKey S pool = some key ∧ (S.save s key (pool.getPackedData true)).1 = false

/-- The pool has a key that no other pool is stored under, unless the storage rejects it anyway. -/
def KeyIsFree (S : PoolStorage σ) (s : σ) (pool : CTokenPool) : Prop :=
  HasKey pool ∧ (Rejected S s pool ∨
    ∀ other, other.mTokenPoolID ≠ pool.mTokenPoolID → Retrievable S s other → ¬SameKey S other pool)

theorem updateTokenPool_eq (hkey : HasKey pool) (s : σ) :
    updateTokenPool S s pool = some ((S.save s (poolWrite S pool).1 (poolWrite S pool).2).1,
      (S.save s (poolWrite S pool).1 (poolWrite S pool).2).2) := by
  rw [updateTokenPool, addTokenPool_eq hkey]
  rfl

theorem rejected_iff (hkey : HasKey pool) :
    Rejected S s pool ↔ (S.save s (poolWrite S pool).1 (poolWrite S pool).2).1 = false := by
  constructor
  · rintro ⟨key, hsome, hrejected⟩
    rwa [Option.some.inj (hsome.symm.trans (poolKey_eq_poolWrite hkey))] at hrejected
  · exact fun hrejected => ⟨_, poolKey_eq_poolWrite hkey, hrejected⟩

/-- Another pool stays behind an accepted update exactly if it has another key. -/
theorem retrievable_saved_iff {other : CTokenPool} (hkey : HasKey pool)
    (hsaved : (S.save s (poolWrite S pool).1 (poolWrite S pool).2).1 = true)
    (hid : other.mTokenPoolID ≠ pool.mTokenPoolID) (hother : Retrievable S s other) :
    Retrievable S (S.save s (poolWrite S pool).1 (poolWrite S pool).2).2 other ↔ ¬SameKey S other pool := by
  obtain ⟨key, hsome, hload⟩ := hother
  have hhas : HasKey other := hasKey_iff.mpr ⟨key, hsome⟩
  rw [← poolKey_eq_iff hhas hkey, poolKey_eq_poolWrite hkey, hsome, Option.some_inj]
  constructor
  · rintro ⟨key', hsome', hload'⟩ hsame
    obtain rfl := Option.some.inj (hsome'.symm.trans hsome)
    rw [hsame, S.load_saved hsaved] at hload'
    exact hid (mTokenPoolID_of_getPackedData (Option.some.inj hload')).symm
  · intro hdiffers
    refine ⟨key, hsome, ?_⟩
    rw [S.load_other hdiffers, hload]

theorem replacesOnly_iff_keyIsFree : ReplacesOnly S s pool ↔ KeyIsFree S s pool := by
  by_cases hkey : HasKey pool
  case neg =>
    refine iff_of_false ?_ fun hfree => hkey hfree.1
    rintro ⟨accepted, s', hupdate, -⟩
    obtain ⟨added, hadd, -⟩ := Option.map_eq_some_iff.mp hupdate
    obtain ⟨key, hsome, -⟩ := Option.map_eq_some_iff.mp hadd
    exact hkey (hasKey_iff.mpr ⟨key, hsome⟩)
  case pos =>
    have hupdate := updateTokenPool_eq (S := S) hkey s
    cases hsaved : (S.save s (poolWrite S pool).1 (poolWrite S pool).2).1 with
    | false =>
        -- nothing changes: under the key of the pool, nor under any other
        refine iff_of_true ⟨false, _, hsaved ▸ hupdate, fun hfalse => absurd hfalse Bool.false_ne_true, ?_⟩
          ⟨hkey, .inl ((rejected_iff hkey).mpr hsaved)⟩
        rintro other - ⟨key, hsome, hload⟩
        refine ⟨key, hsome, ?_⟩
        by_cases hsame : key = (poolWrite S pool).1
        · subst hsame
          rw [S.load_rejected hsaved, hload]
        · rw [S.load_other hsame, hload]
    | true =>
        constructor
        · rintro ⟨accepted, s', hresult, -, hothers⟩
          obtain ⟨-, rfl⟩ := Prod.mk.inj (Option.some.inj (hupdate.symm.trans hresult))
          refine ⟨hkey, .inr fun other hid hother => ?_⟩
          exact (retrievable_saved_iff hkey hsaved hid hother).mp (hothers other hid hother)
        · rintro ⟨-, hfree⟩
          refine ⟨true, _, hsaved ▸ hupdate, fun _ => ?_, fun other hid hother => ?_⟩
          · exact ⟨_, poolKey_eq_poolWrite hkey, S.load_saved hsaved⟩
          · rcases hfree with hrejected | hfree
            · exact absurd (hsaved.symm.trans ((rejected_iff hkey).mp hrejected)) Bool.noConfusion
            · exact (retrievable_saved_iff hkey hsaved hid hother).mpr (hfree other hid hother)

/-- Of pools with different IDs all that were stored with success are kept exactly if no two of them have one key; an
update replaces its own pool alone exactly if its key is free; and a pool that is kept comes back as it was. -/
theorem tokenPools_kept_iff (S : PoolStorage σ) :
    (∀ (s : σ) (pools : List CTokenPool), (pools.Pairwise fun p q => p.mTokenPoolID ≠ q.mTokenPoolID) →
      (KeepsAll S s pools ↔ KeysDiffer S s pools)) ∧
    (∀ (s : σ) (pool : CTokenPool), ReplacesOnly S s pool ↔ KeyIsFree S s pool) ∧
    ∀ (cf : CCryptoFactory) (s : σ) (pool : CTokenPool), pool.Plain cf → pool.Inferable → Retrievable S s pool →
      ∀ random, ∃ key copy, poolKey S pool = some key ∧ getTokenPoolP1 S cf random s key = some copy ∧
        pool.equals copy = true := by
  refine ⟨fun s pools hids => ?_, fun s pool => ?_, fun cf s pool hplain hinferable hretrievable random => ?_⟩
  · exact keepsAll_iff_keysDiffer hids
  · exact replacesOnly_iff_keyIsFree
  · obtain ⟨key, hkey, hget⟩ := hretrievable.getTokenPoolP1_eq cf random
    obtain ⟨copy, hcopy, hequals, -⟩ := CTokenPool.survivesPacking_of_inferable hplain hinferable random
    exact ⟨key, copy, hkey, hget.trans hcopy, hequals⟩

/-! ### Pools that are kept, and one that is lost -/

/-- A storage that accepts everything, the last value of a key in front. -/
def listStorage : PoolStorage (List (Bytes × Asn1)) where
  load s key := (s.find? fun entry => entry.1 = key).map Prod.snd
  save s key value := (true, (key, value) :: s)
  load_saved _ := by simp
  load_rejected hrejected := absurd hrejected Bool.noConfusion
  load_other hother := by simp [hother.symm]
  base58Encode := base58Encode
  base58Encode_inj {a b} ha hb heq := by
    have hdecoded := congrArg base58Decode heq
    rw [base58Decode_base58Encode (List.ne_nil_of_length_pos (by omega)),
      base58Decode_base58Encode (List.ne_nil_of_length_pos (by omega))] at hdecoded
    exact Option.some.inj hdecoded

/-- A pool without a friendly ID. -/
def lockedPool (mTokenPoolID : Bytes) (mTotalValue : BigInt) : CTokenPool where
  mDimensionsCount := 1
  mTotalValue := mTotalValue
  mTokenPoolID := mTokenPoolID
  mOwnerID := List.replicate 34 7

/-- The pool with the ID of ones, and another. -/
def lockedPools (otherID : Bytes) : List CTokenPool :=
  [lockedPool (List.replicate 32 1) 500, lockedPool otherID 700]

theorem lockedPools_kept : KeepsAll listStorage [] (lockedPools (List.replicate 32 2)) := by
  refine ((tokenPools_kept_iff listStorage).1 [] _ (by decide)).mpr ⟨by decide, fun stored s' hrun => ?_⟩
  have hboth : stored = lockedPools (List.replicate 32 2) := (Prod.mk.inj (Option.some.inj hrun)).1.symm
  rw [hboth]
  decide +kernel

/-- The IDs of the pools differ behind their fourth byte: the second pool takes the place of the first. -/
theorem lockedPool_lost :
    (lockedPools (List.replicate 4 1 ++ List.replicate 28 2)).Pairwise (fun p q => p.mTokenPoolID ≠ q.mTokenPoolID) ∧
      ¬KeepsAll listStorage [] (lockedPools (List.replicate 4 1 ++ List.replicate 28 2)) := by
  have hids : (lockedPools (List.replicate 4 1 ++ List.replicate 28 2)).Pairwise
      (fun p q => p.mTokenPoolID ≠ q.mTokenPoolID) := by decide
  refine ⟨hids, fun hkept => ?_⟩
  have hpairs := ((keepsAll_iff_keysDiffer hids).mp hkept).2 _ _ rfl
  exact List.rel_of_pairwise_cons hpairs List.mem_cons_self (.inr (.inl ⟨rfl, rfl, rfl⟩))

end CStateDomain

end Gridnet
