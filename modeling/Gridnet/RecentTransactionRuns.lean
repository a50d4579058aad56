import Gridnet.Machine
import Gridnet.RecentTransactions
import Mathlib.Tactic.SplitIfs

/-! The order of the recent transactions over every sequence of calls: where an entry is placed, which one
leaves, and exactly which calls keep the newest entry first and the cache coherent. -/

namespace Gridnet

variable {Transaction Receipt Description : Type}

namespace TransactionCache

variable {tools : TransactionReadings Transaction}
  {cache : TransactionCache Transaction Receipt Description}

/-! ### The order -/

/-- At the lower bound for the comparison that fits the order, an entry keeps it. -/
theorem ordered_insertIdx {l : List ℕ}
    (hordered : l.Pairwise fun newer older => cache.timeAt tools older ≤ cache.timeAt tools newer) {txTime a : ℕ}
    (htime : cache.timeAt tools a = txTime) :
    (l.insertIdx (HalvingSearch.lowerBound (fun info => decide (txTime < cache.timeAt tools info)) l)
      a).Pairwise fun newer older => cache.timeAt tools older ≤ cache.timeAt tools newer := by
  let r : ℕ → ℕ → Prop := fun newer older => cache.timeAt tools older ≤ cache.timeAt tools newer
  have : IsTrans ℕ r := ⟨fun _ _ _ hab hbc => Nat.le_trans hbc hab⟩
  have : Std.Total r := ⟨fun a b => Nat.le_total (cache.timeAt tools b) (cache.timeAt tools a)⟩
  have : DecidableRel r := fun _ _ => Nat.decLe _ _
  have htest : (fun info => decide (txTime < cache.timeAt tools info)) = fun info => !decide (r a info) := by
    funext info
    simp only [r, htime, ← Nat.not_le, decide_not]
  rw [htest, HalvingSearch.insertIdx_lowerBound hordered a]
  exact List.Pairwise.orderedInsert a l hordered

theorem Ordered.insertNew (hordered : Ordered tools cache) {newInfo txTime : ℕ}
    (htime : cache.timeAt tools newInfo = txTime) (txHash : Bytes) :
    Ordered tools (cache.insertNew tools (fun time => decide (txTime < time)) newInfo txHash) :=
  ordered_insertIdx hordered htime

theorem Ordered.evictOldest (hordered : Ordered tools cache) : Ordered tools (cache.evictOldest tools) := by
  rcases Nat.lt_or_ge cache.mMaxRecentTransactions cache.mRecentTransactions.length with hfull | hroom
  · obtain ⟨oldest, -, hevict⟩ := evictOldest_of_lt tools hfull
    rw [hevict]
    exact List.Pairwise.sublist (List.dropLast_sublist _) hordered
  · rw [evictOldest_of_le hroom]
    exact hordered

/-- The last of the entries is an oldest one. -/
theorem Ordered.last_oldest (hordered : Ordered tools cache) {front : List ℕ} {oldest : ℕ}
    (hsplit : cache.mRecentTransactions = front ++ [oldest]) :
    ∀ info ∈ cache.mRecentTransactions, cache.timeAt tools oldest ≤ cache.timeAt tools info := by
  unfold Ordered at hordered
  rw [hsplit, List.pairwise_append] at hordered
  intro info hinfo
  rw [hsplit, List.mem_append, List.mem_singleton] at hinfo
  rcases hinfo with hinfo | rfl
  · exact hordered.2.2 info hinfo oldest (List.mem_singleton.mpr rfl)
  · exact Nat.le_refl _

/-- A new entry in order, and then the removal: the entries stay within the limit, and the newest are kept. -/
theorem keepsNewest_evictOldest {before inserted : TransactionCache Transaction Receipt Description}
    {newInfo : ℕ} (hordered : Ordered tools inserted)
    (hperm : inserted.mRecentTransactions.Perm (newInfo :: before.mRecentTransactions))
    (hlimit : inserted.mMaxRecentTransactions = before.mMaxRecentTransactions)
    (hbounded : before.mRecentTransactions.length ≤ before.mMaxRecentTransactions) :
    (inserted.evictOldest tools).mRecentTransactions.length ≤
        (inserted.evictOldest tools).mMaxRecentTransactions ∧
      KeepsNewest tools before (inserted.evictOldest tools) newInfo := by
  have hlength := hperm.length_eq
  rw [List.length_cons] at hlength
  unfold KeepsNewest
  by_cases hroom : before.mRecentTransactions.length < before.mMaxRecentTransactions
  · rw [if_pos hroom, evictOldest_of_le (by omega)]
    exact ⟨by omega, hperm⟩
  · rw [if_neg hroom]
    have hfull : inserted.mMaxRecentTransactions < inserted.mRecentTransactions.length := by omega
    obtain ⟨oldest, hsplit, hevict⟩ := evictOldest_of_lt tools hfull
    rw [hevict]
    refine ⟨?_, oldest, ?_, ?_⟩
    · simp only [List.length_dropLast]
      omega
    · refine List.Perm.trans ?_ hperm
      conv_rhs => rw [hsplit]
      exact (List.perm_append_singleton oldest _).symm
    · intro info hinfo
      exact hordered.last_oldest hsplit info (hperm.mem_iff.mpr hinfo)

/-! ### Known transactions -/

/-- A known transaction is updated in place: the object changes, and the entry moves to where its time
belongs. -/
theorem updateExisting_coherent (hcoherent : Coherent tools cache) {transaction : Transaction}
    {existingInfo : ℕ} (hknown : cache.mRecentTransactionsMap (tools.getHash transaction) = some existingInfo)
    (receipt : Option Receipt) (description : Option Description) (reindexed : Bool) :
    Coherent tools (cache.updateExisting tools reindexed existingInfo transaction receipt description) ∧
      (cache.updateExisting tools reindexed existingInfo transaction receipt description).memory =
        cache.memory.set existingInfo
          { mTransaction := some transaction, mReceipt := receipt, mDescription := description } ∧
      (cache.updateExisting tools reindexed existingInfo transaction receipt description).mRecentTransactions.Perm
        cache.mRecentTransactions := by
  obtain ⟨hmem, hhash⟩ := hcoherent.byHash.some_iff.mp hknown
  let info : RecentTXInfo Transaction Receipt Description :=
    { mTransaction := some transaction, mReceipt := receipt, mDescription := description }
  let updated := { cache with memory := cache.memory.set existingInfo info }
  have hset : updated.memory = cache.memory.set existingInfo info := rfl
  have hself : updated.transactionAt existingInfo = some transaction :=
    transactionAt_set_self hset (lt_of_held (hcoherent.held existingInfo hmem))
  have hother : ∀ i, i ≠ existingInfo → updated.transactionAt i = cache.transactionAt i :=
    fun i hi => transactionAt_set_of_ne hset hi
  have hkey : updated.hashAt tools existingInfo = tools.getHash transaction := hashAt_of_some hself
  let rest := cache.mRecentTransactions.erase existingInfo
  let insertPos := HalvingSearch.lowerBound
    (fun i => decide (tools.getTime transaction < updated.timeAt tools i)) rest
  have hrun : cache.updateExisting tools reindexed existingInfo transaction receipt description =
      { updated with mRecentTransactions := rest.insertIdx insertPos existingInfo } := by
    unfold updateExisting
    simp only
    rw [if_neg fun h => h.2 (congrArg _ hkey.symm)]
    unfold reinsert
    rw [if_pos hmem]
  have hperm : (rest.insertIdx insertPos existingInfo).Perm cache.mRecentTransactions :=
    (List.perm_insertIdx _ _ (HalvingSearch.lowerBound_le _ _)).trans
      (List.perm_cons_erase hmem).symm
  rw [hrun]
  refine ⟨⟨?_, ?_, ?_⟩, rfl, hperm⟩
  · refine hcoherent.toIndexed.congr hperm rfl rfl ?_ ?_
    · intro i hi
      by_cases hsame : i = existingInfo
      · rw [hsame]
        exact Option.isSome_iff_exists.mpr ⟨transaction, hself⟩
      · show (updated.transactionAt i).isSome = true
        rw [hother i hsame]
        exact hcoherent.held i hi
    · intro i _
      by_cases hsame : i = existingInfo
      · rw [hsame]
        exact hkey.trans hhash.symm
      · exact hashAt_congr (hother i hsame)
  · have hrest : rest.Pairwise fun newer older => updated.timeAt tools older ≤ updated.timeAt tools newer := by
      have hkept : rest.Pairwise fun newer older => cache.timeAt tools older ≤ cache.timeAt tools newer :=
        List.Pairwise.sublist List.erase_sublist hcoherent.ordered
      refine List.Pairwise.imp_of_mem ?_ hkept
      intro newer older hnewer holder hle
      have hne : ∀ i ∈ rest, i ≠ existingInfo := by
        rintro i hi rfl
        exact hcoherent.nodup.not_mem_erase hi
      rw [timeAt_congr (hother newer (hne newer hnewer)), timeAt_congr (hother older (hne older holder))]
      exact hle
    exact ordered_insertIdx hrest (timeAt_of_some hself)
  · show (rest.insertIdx insertPos existingInfo).length ≤ _
    rw [hperm.length_eq]
    exact hcoherent.bounded

/-! ### New transactions -/

/-- One more object leaves the cache coherent. -/
theorem Coherent.append (hcoherent : Coherent tools cache) (info : RecentTXInfo Transaction Receipt Description) :
    Coherent tools { cache with memory := cache.memory ++ [info] } := by
  let made := { cache with memory := cache.memory ++ [info] }
  have hmade : made.memory = cache.memory ++ [info] := rfl
  have hsame : ∀ i ∈ cache.mRecentTransactions, made.transactionAt i = cache.transactionAt i :=
    fun i hi => transactionAt_append hmade (lt_of_held (hcoherent.held i hi))
  refine ⟨hcoherent.toIndexed.congr (List.Perm.refl _) rfl rfl ?_ ?_, ?_, hcoherent.bounded⟩
  · intro i hi
    rw [hsame i hi]
    exact hcoherent.held i hi
  · intro i hi
    exact hashAt_congr (hsame i hi)
  · refine List.Pairwise.imp_of_mem ?_ hcoherent.ordered
    intro newer older hnewer holder hle
    rw [timeAt_congr (hsame newer hnewer), timeAt_congr (hsame older holder)]
    exact hle

/-- The comparison the other way places a new entry behind all others, if the middle one is older, and
before all others, if it is not. -/
theorem insertNew_otherWay (hordered : Ordered tools cache) (txTime newInfo : ℕ) (txHash : Bytes) :
    (cache.insertNew tools (fun time => decide (time < txTime)) newInfo txHash).mRecentTransactions =
      if (cache.mRecentTransactions[cache.mRecentTransactions.length / 2]?).any
          (fun info => decide (cache.timeAt tools info < txTime)) then
        cache.mRecentTransactions ++ [newInfo]
      else newInfo :: cache.mRecentTransactions := by
  have hback : cache.mRecentTransactions.Pairwise fun newer older =>
      decide (cache.timeAt tools newer < txTime) = true →
        decide (cache.timeAt tools older < txTime) = true := by
    apply hordered.imp
    intro newer older hle hlt
    simp only [decide_eq_true_eq] at hlt ⊢
    omega
  show cache.mRecentTransactions.insertIdx (HalvingSearch.lowerBound _ _) newInfo = _
  rw [HalvingSearch.lowerBound_of_back hback]
  split_ifs
  · exact List.insertIdx_length_self
  · exact List.insertIdx_zero

/-- The entries up to the middle one are not older than it. -/
theorem Ordered.middle_le (hordered : Ordered tools cache) {middle : ℕ}
    (hmiddle : cache.mRecentTransactions[cache.mRecentTransactions.length / 2]? = some middle) :
    ∀ info ∈ cache.mRecentTransactions.take (cache.mRecentTransactions.length / 2 + 1),
      cache.timeAt tools middle ≤ cache.timeAt tools info := by
  intro info hinfo
  have hfront : (cache.mRecentTransactions.take (cache.mRecentTransactions.length / 2 + 1)).Pairwise
      fun newer older => cache.timeAt tools older ≤ cache.timeAt tools newer :=
    List.Pairwise.sublist (List.take_sublist _ _) hordered
  rw [List.take_add_one, hmiddle, Option.toList_some, List.pairwise_append] at hfront
  rw [List.take_add_one, hmiddle, Option.toList_some, List.mem_append, List.mem_singleton] at hinfo
  rcases hinfo with hinfo | rfl
  · exact hfront.2.2 info hinfo middle (List.mem_singleton.mpr rfl)
  · exact Nat.le_refl _

/-- While the newer half has the time of the new entry, it is placed first and keeps the order. -/
theorem ordered_insertNew_otherWay (hordered : Ordered tools cache) {txTime newInfo : ℕ}
    (htime : cache.timeAt tools newInfo = txTime)
    (hhalf : ∀ info ∈ cache.mRecentTransactions.take (cache.mRecentTransactions.length / 2 + 1),
      cache.timeAt tools info = txTime) (txHash : Bytes) :
    Ordered tools (cache.insertNew tools (fun time => decide (time < txTime)) newInfo txHash) := by
  have hplaced := insertNew_otherWay hordered txTime newInfo txHash
  have hfirst : ¬ (cache.mRecentTransactions[cache.mRecentTransactions.length / 2]?).any
      (fun info => decide (cache.timeAt tools info < txTime)) = true := by
    cases hmiddle : cache.mRecentTransactions[cache.mRecentTransactions.length / 2]? with
    | none => simp
    | some middle =>
        have hmem : middle ∈
            cache.mRecentTransactions.take (cache.mRecentTransactions.length / 2 + 1) := by
          rw [List.take_add_one, hmiddle]
          simp
        simp [hhalf middle hmem]
  rw [if_neg hfirst] at hplaced
  show ((cache.insertNew tools (fun time => decide (time < txTime)) newInfo
    txHash).mRecentTransactions).Pairwise fun newer older =>
      cache.timeAt tools older ≤ cache.timeAt tools newer
  rw [hplaced, List.pairwise_cons]
  refine ⟨?_, hordered⟩
  intro info hinfo
  rw [htime]
  obtain ⟨first, rest, hdeque⟩ := List.exists_cons_of_ne_nil (List.ne_nil_of_mem hinfo)
  have hhead : cache.timeAt tools first = txTime := by
    apply hhalf
    rw [hdeque]
    simp
  have hall := hordered
  unfold Ordered at hall
  rw [hdeque, List.pairwise_cons] at hall
  rw [hdeque] at hinfo
  rcases List.mem_cons.mp hinfo with rfl | hinfo
  · exact hhead.le
  · exact hhead ▸ hall.1 info hinfo

variable (tools cache) in
/-- The removal leaves all entries or all but the last. -/
theorem evictOldest_entries :
    (cache.evictOldest tools).mRecentTransactions = cache.mRecentTransactions ∨
      (cache.evictOldest tools).mRecentTransactions = cache.mRecentTransactions.dropLast := by
  rcases Nat.lt_or_ge cache.mMaxRecentTransactions cache.mRecentTransactions.length with hfull | hroom
  · obtain ⟨oldest, -, hevict⟩ := evictOldest_of_lt tools hfull
    rw [hevict]
    exact .inr rfl
  · rw [evictOldest_of_le hroom]
    exact .inl rfl

variable (tools cache) in
theorem evictOldest_memory : (cache.evictOldest tools).memory = cache.memory := by
  rcases Nat.lt_or_ge cache.mMaxRecentTransactions cache.mRecentTransactions.length with hfull | hroom
  · obtain ⟨oldest, -, hevict⟩ := evictOldest_of_lt tools hfull
    rw [hevict]
  · rw [evictOldest_of_le hroom]

/-- Who is not kept is an oldest one. -/
theorem KeepsNewest.mem_or_oldest {before after : TransactionCache Transaction Receipt Description}
    {newInfo : ℕ} (hkeeps : KeepsNewest tools before after newInfo) :
    ∀ info ∈ newInfo :: before.mRecentTransactions, info ∈ after.mRecentTransactions ∨
      ∀ other ∈ newInfo :: before.mRecentTransactions,
        after.timeAt tools info ≤ after.timeAt tools other := by
  intro info hinfo
  unfold KeepsNewest at hkeeps
  split_ifs at hkeeps with hroom
  · exact .inl (hkeeps.mem_iff.mpr hinfo)
  · obtain ⟨oldest, hperm, holdest⟩ := hkeeps
    rcases List.mem_cons.mp (hperm.mem_iff.mpr hinfo) with rfl | hkept
    · exact .inr holdest
    · exact .inl hkept

/-- If what the comparison the other way leaves is in order and has the newest entries, then the newer half
had the time of the new entry. -/
theorem half_of_ordered (hordered : Ordered tools cache) {txTime newInfo : ℕ} {txHash : Bytes}
    (htime : cache.timeAt tools newInfo = txTime) (hnew : newInfo ∉ cache.mRecentTransactions)
    {after : TransactionCache Transaction Receipt Description}
    (hafter : after.mRecentTransactions =
        (cache.insertNew tools (fun time => decide (time < txTime)) newInfo txHash).mRecentTransactions ∨
      after.mRecentTransactions = (cache.insertNew tools (fun time => decide (time < txTime)) newInfo
        txHash).mRecentTransactions.dropLast)
    (hmemory : after.memory = cache.memory) (hordered' : Ordered tools after)
    (hkeeps : KeepsNewest tools cache after newInfo) :
    ∀ info ∈ cache.mRecentTransactions.take (cache.mRecentTransactions.length / 2 + 1),
      cache.timeAt tools info = txTime := by
  have htimes : ∀ i, after.timeAt tools i = cache.timeAt tools i := by
    intro i
    apply timeAt_congr
    unfold transactionAt
    rw [hmemory]
  have hkept := hkeeps.mem_or_oldest
  simp only [htimes] at hkept
  have hpairs : after.mRecentTransactions.Pairwise fun newer older =>
      cache.timeAt tools older ≤ cache.timeAt tools newer := by
    have hpairs := hordered'
    unfold Ordered at hpairs
    simpa only [htimes] using hpairs
  rw [insertNew_otherWay hordered] at hafter
  cases hmiddle : cache.mRecentTransactions[cache.mRecentTransactions.length / 2]? with
  | none =>
      have hnil : cache.mRecentTransactions = [] := by
        rw [List.getElem?_eq_none_iff] at hmiddle
        exact List.eq_nil_of_length_eq_zero (by omega)
      simp [hnil]
  | some middle =>
      have hmem : middle ∈ cache.mRecentTransactions := List.mem_of_getElem? hmiddle
      rw [hmiddle, Option.any_some] at hafter
      by_cases holder : cache.timeAt tools middle < txTime
      · -- placed last: the new entry is there, behind an older one, or is gone and not an oldest one
        rw [if_pos (decide_eq_true holder), List.dropLast_concat] at hafter
        rcases hkept newInfo List.mem_cons_self with hthere | holdest
        · rcases hafter with hafter | hafter
          · rw [hafter, List.pairwise_append] at hpairs
            have hle := hpairs.2.2 middle hmem newInfo (List.mem_singleton.mpr rfl)
            omega
          · rw [hafter] at hthere
            exact absurd hthere hnew
        · have hle := holdest middle (List.mem_cons_of_mem _ hmem)
          omega
      · -- placed first: no entry is newer
        rw [if_neg (by simpa using holder),
          List.dropLast_cons_of_ne_nil (List.ne_nil_of_mem hmem)] at hafter
        obtain ⟨rest, hrest⟩ : ∃ rest, after.mRecentTransactions = newInfo :: rest := by
          rcases hafter with hafter | hafter <;> exact ⟨_, hafter⟩
        rw [hrest, List.pairwise_cons] at hpairs
        have hnewest : ∀ info ∈ cache.mRecentTransactions, cache.timeAt tools info ≤ txTime := by
          intro info hinfo
          rw [← htime]
          rcases hkept info (List.mem_cons_of_mem _ hinfo) with hthere | holdest
          · rw [hrest] at hthere
            rcases List.mem_cons.mp hthere with rfl | hthere
            · exact Nat.le_refl _
            · exact hpairs.1 info hthere
          · exact holdest newInfo List.mem_cons_self
        intro info hinfo
        have hle := hordered.middle_le hmiddle info hinfo
        have hle' := hnewest info (List.take_subset _ _ hinfo)
        omega

/-! ### The calls -/

theorem updateTransactionCache_refused {txInfo : ℕ} (hnone : cache.transactionAt txInfo = none)
    (unlocked : Bool) : cache.updateTransactionCache tools txInfo unlocked = cache := by
  unfold updateTransactionCache
  unfold transactionAt at hnone
  cases hinfo : cache.memory[txInfo]? with
  | none => rfl
  | some info =>
      rw [hinfo, Option.bind_some] at hnone
      simp only [hnone]

theorem updateTransactionCache_known {txInfo existingInfo : ℕ}
    {info : RecentTXInfo Transaction Receipt Description} {transaction : Transaction}
    (hinfo : cache.memory[txInfo]? = some info) (htransaction : info.mTransaction = some transaction)
    (hknown : cache.mRecentTransactionsMap (tools.getHash transaction) = some existingInfo)
    (unlocked : Bool) :
    cache.updateTransactionCache tools txInfo unlocked =
      cache.updateExisting tools (!unlocked) existingInfo transaction info.mReceipt info.mDescription := by
  simp [updateTransactionCache, hinfo, htransaction, hknown]

theorem updateTransactionCache_new {txInfo : ℕ} {info : RecentTXInfo Transaction Receipt Description}
    {transaction : Transaction} (hinfo : cache.memory[txInfo]? = some info)
    (htransaction : info.mTransaction = some transaction)
    (hfree : cache.mRecentTransactionsMap (tools.getHash transaction) = none) (unlocked : Bool) :
    cache.updateTransactionCache tools txInfo unlocked =
      if unlocked then
        cache.insertNew tools (fun time => decide (time < tools.getTime transaction)) txInfo
          (tools.getHash transaction)
      else
        (cache.insertNew tools (fun time => decide (time < tools.getTime transaction)) txInfo
          (tools.getHash transaction)).evictOldest tools := by
  simp [updateTransactionCache, hinfo, htransaction, hfree]

section Calls

variable {call : CacheCall Transaction Receipt Description}
  {after : TransactionCache Transaction Receipt Description} {transaction : Transaction}
  {info : RecentTXInfo Transaction Receipt Description} {newInfo : ℕ}

theorem serves_idle (hsubject : subject cache call = none)
    (hsame : after.mRecentTransactions = cache.mRecentTransactions) : Serves tools cache call after where
  idle _ := hsame
  inPlace transaction info newInfo existingInfo hsome := by
    rw [hsubject] at hsome
    cases hsome
  enters transaction info newInfo hsome := by
    rw [hsubject] at hsome
    cases hsome

theorem serves_known {existingInfo : ℕ} (hsubject : subject cache call = some (transaction, info, newInfo))
    (hknown : cache.mRecentTransactionsMap (tools.getHash transaction) = some existingInfo)
    (hmemory : after.memory = cache.memory.set existingInfo info)
    (hperm : after.mRecentTransactions.Perm cache.mRecentTransactions) :
    Serves tools cache call after where
  idle hnone := by
    rw [hsubject] at hnone
    cases hnone
  inPlace transaction' info' newInfo' existingInfo' hsome hknown' := by
    rw [hsubject] at hsome
    cases hsome
    rw [hknown] at hknown'
    cases hknown'
    exact ⟨hmemory, hperm⟩
  enters transaction' info' newInfo' hsome hfree := by
    rw [hsubject] at hsome
    cases hsome
    rw [hknown] at hfree
    cases hfree

theorem serves_new (hsubject : subject cache call = some (transaction, info, newInfo))
    (hfree : cache.mRecentTransactionsMap (tools.getHash transaction) = none)
    (hkeeps : KeepsNewest tools cache after newInfo) : Serves tools cache call after where
  idle hnone := by
    rw [hsubject] at hnone
    cases hnone
  inPlace transaction' info' newInfo' existingInfo' hsome hknown := by
    rw [hsubject] at hsome
    cases hsome
    rw [hfree] at hknown
    cases hknown
  enters transaction' info' newInfo' hsome _ := by
    rw [hsubject] at hsome
    cases hsome
    exact hkeeps

end Calls

theorem staysCoherent_makeInfo (hcoherent : Coherent tools cache)
    (info : RecentTXInfo Transaction Receipt Description) : StaysCoherent tools cache (.makeInfo info) :=
  ⟨hcoherent.append info, serves_idle rfl rfl⟩

/-- `addTransactionToCache` keeps the cache coherent. -/
theorem staysCoherent_add (hcoherent : Coherent tools cache)
    (hinjective : Function.Injective tools.getReceiptIDForTransaction) (transaction : Option Transaction)
    (receipt : Option Receipt) (description : Option Description) (unlocked : Bool) :
    StaysCoherent tools cache (.add transaction receipt description unlocked) := by
  match transaction, receipt with
  | none, _ => exact ⟨hcoherent, serves_idle rfl rfl⟩
  | some _, none => exact ⟨hcoherent, serves_idle rfl rfl⟩
  | some transaction, some receipt =>
      let info : RecentTXInfo Transaction Receipt Description :=
        { mTransaction := some transaction, mReceipt := some receipt, mDescription := description }
      have hsubject : subject cache (.add (some transaction) (some receipt) description unlocked) =
          some (transaction, info, cache.memory.length) := rfl
      cases hknown : cache.mRecentTransactionsMap (tools.getHash transaction) with
      | some existingInfo =>
          obtain ⟨hafter, hmemory, hperm⟩ :=
            updateExisting_coherent hcoherent hknown (some receipt) description true
          have hstep : (step tools cache (.add (some transaction) (some receipt) description unlocked)).2 =
              cache.updateExisting tools true existingInfo transaction receipt description := by
            simp [step, addTransactionToCache, hknown]
          unfold StaysCoherent
          rw [hstep]
          exact ⟨hafter, serves_known hsubject hknown hmemory hperm⟩
      | none =>
          let made := { cache with memory := cache.memory ++ [info] }
          have hmade : Coherent tools made := hcoherent.append info
          have hnew : made.transactionAt cache.memory.length = some transaction :=
            transactionAt_append_self (show made.memory = cache.memory ++ [info] from rfl)
          let inserted := made.insertNew tools (fun time => decide (tools.getTime transaction < time))
            cache.memory.length (tools.getHash transaction)
          have hstep : (step tools cache (.add (some transaction) (some receipt) description unlocked)).2 =
              inserted.evictOldest tools := by
            simp [step, addTransactionToCache, hknown, inserted, made, info]
          have hindexed : Indexed tools inserted :=
            hmade.toIndexed.insertNew hinjective _ hnew hknown
          have hordered : Ordered tools inserted :=
            hmade.ordered.insertNew (timeAt_of_some hnew) _
          obtain ⟨hbounded, hkeeps⟩ := keepsNewest_evictOldest hordered
            (insertNew_perm tools made _ _ _) rfl hmade.bounded
          unfold StaysCoherent
          rw [hstep]
          exact ⟨⟨hindexed.evictOldest, hordered.evictOldest, hbounded⟩,
            serves_new hsubject hknown hkeeps⟩

/-- `updateTransactionCache` keeps the cache coherent exactly where the comparison the other way does no
harm. -/
theorem staysCoherent_update_iff (hcoherent : Coherent tools cache)
    (hinjective : Function.Injective tools.getReceiptIDForTransaction) (txInfo : ℕ) (unlocked : Bool) :
    StaysCoherent tools cache (.update txInfo unlocked) ↔ Harmless tools cache (.update txInfo unlocked) := by
  cases htransaction : cache.transactionAt txInfo with
  | none =>
      have hsubject : subject cache (.update txInfo unlocked) = none := by
        apply Option.bind_eq_none_iff.mpr
        intro info hinfo
        rw [Option.map_eq_none_iff]
        exact Option.bind_eq_none_iff.mp htransaction info hinfo
      refine iff_of_true ?_ ?_
      · unfold StaysCoherent
        show Coherent tools (cache.updateTransactionCache tools txInfo unlocked) ∧
          Serves tools cache _ (cache.updateTransactionCache tools txInfo unlocked)
        rw [updateTransactionCache_refused htransaction]
        exact ⟨hcoherent, serves_idle hsubject rfl⟩
      · intro transaction hsome
        rw [htransaction] at hsome
        cases hsome
  | some transaction =>
      obtain ⟨info, hinfo, hheld⟩ := Option.bind_eq_some_iff.mp htransaction
      have hsubject : subject cache (.update txInfo unlocked) = some (transaction, info, txInfo) := by
        simp [subject, hinfo, hheld]
      unfold StaysCoherent
      show Coherent tools (cache.updateTransactionCache tools txInfo unlocked) ∧
        Serves tools cache _ (cache.updateTransactionCache tools txInfo unlocked) ↔ _
      cases hknown : cache.mRecentTransactionsMap (tools.getHash transaction) with
      | some existingInfo =>
          rw [updateTransactionCache_known hinfo hheld hknown]
          obtain ⟨hafter, hmemory, hperm⟩ :=
            updateExisting_coherent hcoherent hknown info.mReceipt info.mDescription (!unlocked)
          rw [← hheld] at hmemory
          refine iff_of_true ⟨hafter, serves_known hsubject hknown hmemory hperm⟩ ?_
          intro transaction' hsome hfree
          rw [htransaction] at hsome
          cases hsome
          rw [hknown] at hfree
          cases hfree
      | none =>
          rw [updateTransactionCache_new hinfo hheld hknown]
          have htime : cache.timeAt tools txInfo = tools.getTime transaction := timeAt_of_some htransaction
          have hfree : cache.mRecentTransactionsMap (cache.hashAt tools txInfo) = none := by
            rw [hashAt_of_some htransaction, hknown]
          have hnew := hcoherent.byHash.notMem_of_none hfree
          let inserted := cache.insertNew tools (fun time => decide (time < tools.getTime transaction))
            txInfo (tools.getHash transaction)
          have hperm : inserted.mRecentTransactions.Perm (txInfo :: cache.mRecentTransactions) :=
            insertNew_perm tools cache _ _ _
          have hindexed : Indexed tools inserted :=
            hcoherent.toIndexed.insertNew hinjective _ htransaction hknown
          show Coherent tools (if unlocked then inserted else inserted.evictOldest tools) ∧ _ ↔ _
          constructor
          · rintro ⟨hafter, hserves⟩
            have hkeeps := hserves.enters transaction info txInfo hsubject hknown
            intro transaction' hsome _
            rw [htransaction] at hsome
            cases hsome
            constructor
            · let after := if unlocked then inserted else inserted.evictOldest tools
              have hplaced : after.mRecentTransactions = inserted.mRecentTransactions ∨
                  after.mRecentTransactions = inserted.mRecentTransactions.dropLast := by
                cases unlocked with
                | true => exact .inl rfl
                | false => exact inserted.evictOldest_entries tools
              have hmemory : after.memory = cache.memory := by
                cases unlocked with
                | true => rfl
                | false => exact inserted.evictOldest_memory tools
              exact half_of_ordered hcoherent.ordered htime hnew hplaced hmemory hafter.ordered hkeeps
            · rintro rfl
              have hbounded := hafter.bounded
              have hlength := hperm.length_eq
              rw [List.length_cons] at hlength
              rw [if_pos rfl] at hbounded
              exact Nat.lt_of_lt_of_le (by omega) hbounded
          · intro hharmless
            obtain ⟨hhalf, hroom⟩ := hharmless transaction htransaction hknown
            have hordered : Ordered tools inserted :=
              ordered_insertNew_otherWay hcoherent.ordered htime hhalf _
            cases unlocked with
            | true =>
                have hlt := hroom rfl
                have hlength := hperm.length_eq
                rw [List.length_cons] at hlength
                refine ⟨⟨hindexed, hordered, ?_⟩, serves_new hsubject hknown ?_⟩
                · exact Nat.le_trans hlength.le hlt
                · unfold KeepsNewest
                  rw [if_pos hlt]
                  exact hperm
            | false =>
                obtain ⟨hbounded, hkeeps⟩ :=
                  keepsNewest_evictOldest hordered hperm rfl hcoherent.bounded
                exact ⟨⟨hindexed.evictOldest, hordered.evictOldest, hbounded⟩,
                  serves_new hsubject hknown hkeeps⟩

/-! ### Runs -/

theorem staysCoherent_iff (hcoherent : Coherent tools cache)
    (hinjective : Function.Injective tools.getReceiptIDForTransaction)
    (call : CacheCall Transaction Receipt Description) :
    StaysCoherent tools cache call ↔ Harmless tools cache call := by
  cases call with
  | makeInfo info => exact iff_of_true (staysCoherent_makeInfo hcoherent info) trivial
  | update txInfo unlocked => exact staysCoherent_update_iff hcoherent hinjective txInfo unlocked
  | add transaction receipt description unlocked =>
      exact iff_of_true (staysCoherent_add hcoherent hinjective _ _ _ _) trivial

theorem empty_coherent (memory : List (RecentTXInfo Transaction Receipt Description)) (limit : ℕ) :
    Coherent tools (empty memory limit) where
  nodup := List.nodup_nil
  held _ hinfo := absurd hinfo List.not_mem_nil
  byHash := IndexOf.nil _
  byReceiptID := IndexOf.nil _
  ordered := List.Pairwise.nil
  bounded := Nat.zero_le _

/-- Over every run from the empty cache: every call serves its transaction and leaves the cache coherent
exactly if every new transaction that enters through `updateTransactionCache` meets only entries of its own
time in the newer half, and room where nothing is removed. -/
theorem recentTransactions_coherent_iff (tools : TransactionReadings Transaction)
    (hinjective : Function.Injective tools.getReceiptIDForTransaction)
    (memory : List (RecentTXInfo Transaction Receipt Description)) (limit : ℕ)
    (calls : List (CacheCall Transaction Receipt Description)) :
    Machine.EveryStep (step tools) (StaysCoherent tools) (empty memory limit) calls ↔
      Machine.EveryStep (step tools) (Harmless tools) (empty memory limit) calls := by
  have hsame : ∀ (cache : TransactionCache Transaction Receipt Description) call,
      Coherent tools cache → (StaysCoherent tools cache call ↔ Harmless tools cache call) :=
    fun cache call hcoherent => staysCoherent_iff hcoherent hinjective call
  exact Machine.everyStep_iff_of_invariant hsame
    (fun cache call hcoherent hharmless => ((hsame cache call hcoherent).mpr hharmless).1)
    (empty_coherent memory limit) calls

/-! ### Two transactions -/

/-- Transactions of a number and a time. -/
def numberedReadings : TransactionReadings (ℕ × ℕ) where
  getHash transaction := [UInt8.ofNat transaction.1]
  getTime transaction := transaction.2
  getReceiptIDForTransaction txHash := 1 :: txHash

theorem numberedReadings_injective :
    Function.Injective numberedReadings.getReceiptIDForTransaction := by
  intro hash hash' hsame
  exact (List.cons.inj hsame).2

def numberedInfo (number time : ℕ) : RecentTXInfo (ℕ × ℕ) Unit Unit where
  mTransaction := some (number, time)
  mReceipt := none
  mDescription := none

/-- A first transaction through `updateTransactionCache`, and all others through `addTransactionToCache`. -/
theorem added_coherent :
    Machine.EveryStep (step numberedReadings) (StaysCoherent numberedReadings)
      (empty [numberedInfo 1 5] 2)
      [.update 0 false, .add (some (2, 3)) (some ()) none false, .add (some (3, 9)) (some ()) none true] := by
  rw [recentTransactions_coherent_iff numberedReadings numberedReadings_injective]
  refine ⟨?_, trivial, trivial, trivial⟩
  intro transaction _ _
  refine ⟨?_, ?_⟩
  · intro info hinfo
    cases hinfo
  · intro hunlocked
    cases hunlocked

/-- An older transaction through `updateTransactionCache` is placed before a newer one. -/
theorem updated_not_coherent :
    (Machine.final (step numberedReadings) (empty [numberedInfo 1 5, numberedInfo 2 3] 2)
        [.update 0 false, .update 1 false]).mRecentTransactions = [1, 0] ∧
      ¬ Machine.EveryStep (step numberedReadings) (StaysCoherent numberedReadings)
        (empty [numberedInfo 1 5, numberedInfo 2 3] 2) [.update 0 false, .update 1 false] := by
  refine ⟨rfl, ?_⟩
  rintro ⟨-, ⟨hcoherent, -⟩, -⟩
  have hordered := hcoherent.ordered
  have hentries : (step numberedReadings (step numberedReadings
      (empty [numberedInfo 1 5, numberedInfo 2 3] 2) (.update 0 false)).2
      (.update 1 false)).2.mRecentTransactions = [1, 0] := rfl
  unfold Ordered at hordered
  rw [hentries, List.pairwise_cons] at hordered
  have hle := hordered.1 0 (List.mem_singleton.mpr rfl)
  revert hle
  decide

end TransactionCache

end Gridnet
