import Gridnet.MemPool
import Gridnet.PreValidation
import Mathlib.Data.List.Perm.Basic

/-! Whether the order of the pending transactions is fair to the accounts. Transactions are grouped by the issuer that
they name, and the account that a transaction is charged to is that of its key; the order is fair, whatever is bid,
exactly where the two agree as far as it matters. -/

namespace Gridnet

section Accounts

variable (S : NodeServices) (l : Ledger)

/-- The account of a transaction: the one of the key that it has to be signed with. -/
def accountOf (tx : PoolTransaction) : Option Bytes :=
  (keyOf l tx).map fun pubKey => Ledger.addressOf (S.genAddress pubKey).2

end Accounts

/-! ### Fairness -/

section Fairness

variable (account : PoolTransaction → Option Bytes)

/-- No other transaction of its account that is left has a lower nonce. -/
def ReadyAmong (left : List PoolTransaction) (tx : PoolTransaction) : Prop :=
  ∃ a, account tx = some a ∧ ∀ other ∈ left, account other = some a → tx.mNonce ≤ other.mNonce

/-- Each account's transactions come by their nonces, and at no place is a better bid left that is the next of its
account. -/
structure FairlyOrdered (result : List PoolTransaction) : Prop where
  nonces : result.Pairwise fun tx later =>
    ∀ a, account tx = some a → account later = some a → tx.mNonce ≤ later.mNonce
  prices : ∀ before tx left, result = before ++ tx :: left →
    ∀ other ∈ tx :: left, ReadyAmong account (tx :: left) other → other.mErgPrice ≤ tx.mErgPrice

/-- Two transactions of the pool do not get into each other's way, as far as the account of the second goes: under one
issuer, what the nonces let come first is of that account, with a lower nonce; under different issuers transactions of
one account have the same nonce. -/
structure KeptApart (tx other : PoolTransaction) : Prop where
  sameIssuer : tx.mIssuer = other.mIssuer → tx.mNonce ≤ other.mNonce → ∀ a, account other = some a →
    account tx = some a ∧ tx.mNonce < other.mNonce
  otherIssuer : tx.mIssuer ≠ other.mIssuer → ∀ a, account tx = some a → account other = some a →
    tx.mNonce = other.mNonce

/-- The issuers that the transactions name tell their accounts. -/
def IssuersTell (pending : List PoolTransaction) : Prop :=
  pending.Pairwise fun tx other => KeptApart account tx other ∧ KeptApart account other tx

variable {account}

/-- A transaction that is left is ready, or one of its account with a lower nonce is. -/
theorem readyAmong_or_exists {left : List PoolTransaction} {tx : PoolTransaction} (htx : tx ∈ left) {a : Bytes}
    (ha : account tx = some a) :
    ReadyAmong account left tx ∨
      ∃ first ∈ left, account first = some a ∧ ReadyAmong account left first ∧ first.mNonce < tx.mNonce := by
  have hmem : tx ∈ left.filter fun other => account other = some a := by simp [htx, ha]
  cases hmin : (left.filter fun other => account other = some a).argmin fun other => other.mNonce.toNat with
  | none =>
      rw [List.argmin_eq_none.mp hmin] at hmem
      exact absurd hmem List.not_mem_nil
  | some first =>
      have hfirst := List.mem_filter.mp (List.argmin_mem hmin)
      have haccount : account first = some a := of_decide_eq_true hfirst.2
      have hleast : ∀ other ∈ left, account other = some a → first.mNonce ≤ other.mNonce := by
        intro other hother hsame
        have hle := List.le_of_mem_argmin (List.mem_filter.mpr ⟨hother, decide_eq_true hsame⟩) hmin
        exact UInt64.le_iff_toNat_le.mpr hle
      by_cases hlt : first.mNonce < tx.mNonce
      · exact Or.inr ⟨first, hfirst.1, haccount, ⟨a, haccount, hleast⟩, hlt⟩
      · refine Or.inl ⟨a, ha, fun other hother hsame => ?_⟩
        exact UInt64.le_trans (UInt64.not_lt.mp hlt) (hleast other hother hsame)

/-- Where a transaction is left, and all of its account with lower nonces bid as much, so does the one that is taken. -/
theorem FairlyOrdered.bid_le {result before left : List PoolTransaction} {tx other : PoolTransaction}
    (hfair : FairlyOrdered account result) (hsplit : result = before ++ tx :: left) (hother : other ∈ tx :: left)
    {a : Bytes} (ha : account other = some a)
    (hbids : ∀ first ∈ result, account first = some a → first.mNonce < other.mNonce →
      other.mErgPrice ≤ first.mErgPrice) :
    other.mErgPrice ≤ tx.mErgPrice := by
  rcases readyAmong_or_exists hother ha with hready | ⟨first, hfirst, haccount, hready, hlt⟩
  · exact hfair.prices before tx left hsplit other hother hready
  · have hmem : first ∈ result := by
      rw [hsplit]
      exact List.mem_append_right _ hfirst
    exact BitVec.le_trans (hbids first hmem haccount hlt) (hfair.prices before tx left hsplit first hfirst hready)

end Fairness

/-! ### The order -/

section Order

variable {std : UnstableSort PoolTransaction} {pending : List PoolTransaction}

theorem noncesAscending_strictWeak : StrictWeak noncesAscending where
  asymm a b hless := by simp only [noncesAscending, decide_eq_true_eq, decide_eq_false_iff_not] at *; grind
  trans a b c hab hbc := by simp only [noncesAscending, decide_eq_false_iff_not] at *; grind

theorem issuerGroups_eq (std : UnstableSort PoolTransaction) (pending : List PoolTransaction) :
    issuerGroups std pending = (GreedyMerge.keysOf (fun tx => tx.mIssuer) pending).map fun issuer =>
      (issuer, std.sort noncesAscending (pending.filter fun tx => tx.mIssuer = issuer)) := by
  rw [issuerGroups, GreedyMerge.groupBy_eq, List.map_map]
  rfl

theorem issuer_of_mem_queue (pending : List PoolTransaction) {issuer : Bytes} {tx : PoolTransaction}
    (htx : tx ∈ std.sort noncesAscending (pending.filter fun tx => tx.mIssuer = issuer)) : tx.mIssuer = issuer :=
  of_decide_eq_true (List.mem_filter.mp ((std.perm _ _).mem_iff.mp htx)).2

theorem sum_queues_le (pending : List PoolTransaction) :
    ((GreedyMerge.keysOf (fun tx => tx.mIssuer) pending).map fun issuer =>
      ((std.sort noncesAscending (pending.filter fun tx => tx.mIssuer = issuer)).drop 0).length).sum ≤
        pending.length := by
  simp only [List.drop_zero, (std.perm _ _).length_eq]
  exact GreedyMerge.sum_length_filter_le _ (GreedyMerge.keysOf_nodup _ _) _

/-- The transactions of an issuer, in the order of the sort. -/
theorem feesHighestFirstNonce_filter (std : UnstableSort PoolTransaction) (pending : List PoolTransaction)
    (issuer : Bytes) :
    (feesHighestFirstNonce std pending).filter (fun tx => tx.mIssuer = issuer) =
      std.sort noncesAscending (pending.filter fun tx => tx.mIssuer = issuer) := by
  rw [feesHighestFirstNonce, issuerGroups_eq]
  by_cases hissuer : issuer ∈ GreedyMerge.keysOf (fun tx => tx.mIssuer) pending
  · rw [GreedyMerge.merge_filter _ (fun issuer _ tx htx => issuer_of_mem_queue pending htx) (sum_queues_le pending)
      hissuer, List.drop_zero]
  · have hnone : pending.filter (fun tx => tx.mIssuer = issuer) = [] :=
      List.filter_eq_nil_iff.mpr fun tx htx hsame =>
        hissuer (GreedyMerge.mem_keysOf.mpr ⟨tx, htx, of_decide_eq_true hsame⟩)
    rw [hnone, List.Perm.eq_nil (std.perm _ _), List.filter_eq_nil_iff]
    intro tx htx hsame
    have hkey := GreedyMerge.merge_key_mem (fun issuer _ tx htx => issuer_of_mem_queue pending htx) htx
    exact hissuer (of_decide_eq_true hsame ▸ hkey)

theorem feesHighestFirstNonce_greedy (std : UnstableSort PoolTransaction) (pending : List PoolTransaction) :
    GreedyMerge.Greedy (fun tx => tx.mErgPrice.toNat) (fun tx => tx.mIssuer) (feesHighestFirstNonce std pending) := by
  rw [feesHighestFirstNonce, issuerGroups_eq]
  exact GreedyMerge.merge_greedy (fun issuer _ tx htx => issuer_of_mem_queue pending htx) (sum_queues_le pending)

theorem feesHighestFirstNonce_perm (std : UnstableSort PoolTransaction) (pending : List PoolTransaction) :
    (feesHighestFirstNonce std pending).Perm pending := by
  refine List.perm_iff_count.mpr fun tx => ?_
  have hcount := congrArg (List.count tx) (feesHighestFirstNonce_filter std pending tx.mIssuer)
  rwa [(std.perm _ _).count_eq, List.count_filter (by simp), List.count_filter (by simp)] at hcount

theorem nonce_le_of_pair_sublist {tx later : PoolTransaction}
    (hpair : [tx, later].Sublist (feesHighestFirstNonce std pending)) (hissuer : tx.mIssuer = later.mIssuer) :
    tx.mNonce ≤ later.mNonce := by
  have hfilter := hpair.filter fun other => other.mIssuer = later.mIssuer
  rw [feesHighestFirstNonce_filter] at hfilter
  have hsorted := (std.sorted _ noncesAscending_strictWeak _).sublist hfilter
  simpa [hissuer, noncesAscending] using hsorted

/-! ### When it is fair -/

variable {account : PoolTransaction → Option Bytes}

theorem fairlyOrdered_of_issuersTell (htell : IssuersTell account pending) :
    FairlyOrdered account (feesHighestFirstNonce std pending) := by
  have hpairs : (feesHighestFirstNonce std pending).Pairwise fun tx other =>
      KeptApart account tx other ∧ KeptApart account other tx :=
    ((feesHighestFirstNonce_perm std pending).pairwise_iff And.symm).mpr htell
  constructor
  · refine List.pairwise_iff_forall_sublist.mpr ?_
    intro tx later hpair a htx hlater
    by_cases hissuer : tx.mIssuer = later.mIssuer
    · exact nonce_le_of_pair_sublist hpair hissuer
    · have hapart := List.pairwise_iff_forall_sublist.mp hpairs hpair
      exact UInt64.le_of_eq (hapart.1.otherIssuer hissuer a htx hlater)
  · intro before tx left hsplit other hother hready
    have hgreedy := feesHighestFirstNonce_greedy std pending
    rw [hsplit] at hgreedy
    cases hqueue : (tx :: left).filter fun x => x.mIssuer = other.mIssuer with
    | nil => exact absurd hother (by simpa using List.filter_eq_nil_iff.mp hqueue other hother)
    | cons next rest =>
        have hnext := hgreedy.of_append.1 other.mIssuer next (by rw [hqueue]; rfl)
        have hmem : other ∈ next :: rest := by
          rw [← hqueue]
          simpa using hother
        rcases List.mem_cons.mp hmem with rfl | hrest
        · exact BitVec.le_def.mpr hnext
        · obtain ⟨a, ha, hleast⟩ := hready
          have hpair : [next, other].Sublist (feesHighestFirstNonce std pending) := by
            rw [hsplit]
            refine List.Sublist.trans ?_ (List.sublist_append_right before _)
            refine List.Sublist.trans ?_ (List.filter_sublist (p := fun x => x.mIssuer = other.mIssuer))
            rw [hqueue]
            exact (List.singleton_sublist.mpr hrest).cons_cons next
          obtain ⟨hnextMem, hissuer⟩ := List.mem_filter.mp (hqueue ▸ List.mem_cons_self)
          have hissuer := of_decide_eq_true hissuer
          have hapart := List.pairwise_iff_forall_sublist.mp hpairs hpair
          obtain ⟨haccount, hlt⟩ :=
            hapart.1.sameIssuer hissuer (nonce_le_of_pair_sublist hpair hissuer) a ha
          exact absurd hlt (UInt64.not_lt.mpr (hleast next hnextMem haccount))

end Order

/-! ### Other bids -/

def PoolTransaction.rebid (tx : PoolTransaction) (bid : BigInt) : PoolTransaction := { tx with mErgPrice := bid }

/-- A transaction but for what it bids. -/
def PoolTransaction.withoutBid (tx : PoolTransaction) : PoolTransaction := tx.rebid 0

def PoolObject.withoutBid : PoolObject → PoolObject
  | .transaction tx mReceivedAt => .transaction tx.withoutBid mReceivedAt
  | .verifiable ver mReceivedAt => .verifiable ver mReceivedAt
  | .other HotProperties => .other HotProperties

@[simp] theorem PoolTransaction.withoutBid_rebid (tx : PoolTransaction) (bid : BigInt) :
    (tx.rebid bid).withoutBid = tx.withoutBid := rfl

section Bids

/-- The bids of a pool may be other ones, each by itself. -/
theorem exists_rebid {pending : List PoolTransaction} {tx other : PoolTransaction} {rest : List PoolTransaction}
    (hperm : pending.Perm (tx :: other :: rest)) (bid : PoolTransaction → BigInt) (bidOther : BigInt) :
    ∃ pending' : List PoolTransaction,
      pending'.map PoolTransaction.withoutBid = pending.map PoolTransaction.withoutBid ∧
      pending'.Perm (tx.rebid (bid tx) :: other.rebid bidOther :: rest.map fun x => x.rebid (bid x)) := by
  have hrebid : List.Forall₂ (fun x y : PoolTransaction => y.withoutBid = x.withoutBid) (tx :: other :: rest)
      (tx.rebid (bid tx) :: other.rebid bidOther :: rest.map fun x => x.rebid (bid x)) := by
    simp
  obtain ⟨pending', hsame, hperm'⟩ := List.perm_comp_forall₂ hperm hrebid
  refine ⟨pending', ?_, hperm'⟩
  rw [← List.forall₂_eq_eq_eq, List.forall₂_map_left_iff, List.forall₂_map_right_iff]
  exact hsame.flip

variable {account : PoolTransaction → Option Bytes} (haccount : ∀ tx, account tx.withoutBid = account tx)
variable {pending : List PoolTransaction}

/-- Whatever the bids are and however the sort orders equal nonces, the order is fair. -/
def FairWhateverBid (account : PoolTransaction → Option Bytes) (pending : List PoolTransaction) : Prop :=
  ∀ (std : UnstableSort PoolTransaction) (pending' : List PoolTransaction),
    pending'.map PoolTransaction.withoutBid = pending.map PoolTransaction.withoutBid →
    FairlyOrdered account (feesHighestFirstNonce std pending')

/-- The sort that puts the lowest bid first among equal nonces. -/
def lowestBidFirst : UnstableSort PoolTransaction := UnstableSort.breakingTies fun a b => a.mErgPrice ≤ b.mErgPrice

theorem pair_sublist_lowestBidFirst {tx other : PoolTransaction} (htx : tx ∈ pending) (hother : other ∈ pending)
    (hissuer : tx.mIssuer = other.mIssuer) (hle : tx.mNonce ≤ other.mNonce) (hbid : tx.mErgPrice < other.mErgPrice) :
    [tx, other].Sublist (feesHighestFirstNonce lowestBidFirst pending) := by
  have hsorted : [tx, other].Sublist
      (lowestBidFirst.sort noncesAscending (pending.filter fun x => x.mIssuer = other.mIssuer)) := by
    refine UnstableSort.pair_sublist_breakingTies (fun a b c hab hbc => ?_) (fun a b => ?_)
      noncesAscending_strictWeak (by simpa [hissuer] using htx) (by simpa using hother) ?_ ?_
    · simp only [decide_eq_true_eq] at *
      exact BitVec.le_trans hab hbc
    · simpa using BitVec.le_total a.mErgPrice b.mErgPrice
    · simpa using hbid
    · simpa [noncesAscending] using hle
  rw [← feesHighestFirstNonce_filter] at hsorted
  exact hsorted.trans List.filter_sublist

include haccount

/-- Under one issuer, what the nonces let come first before a transaction of an account: otherwise that one may outbid
it, together with all that its account has before it. -/
theorem FairWhateverBid.sameIssuer (hfair : FairWhateverBid account pending) {tx other : PoolTransaction}
    {rest : List PoolTransaction} (hperm : pending.Perm (tx :: other :: rest)) (hissuer : tx.mIssuer = other.mIssuer)
    (hle : tx.mNonce ≤ other.mNonce) {a : Bytes} (ha : account other = some a) :
    account tx = some a ∧ tx.mNonce < other.mNonce := by
  by_contra hlate
  let bid : PoolTransaction → BigInt := fun x => if account x = some a ∧ x.mNonce < other.mNonce then 1 else 0
  obtain ⟨pending', hsame, hperm'⟩ := exists_rebid hperm bid 1
  have hfair := hfair lowestBidFirst pending' hsame
  have hpair : [tx.rebid (bid tx), other.rebid 1].Sublist (feesHighestFirstNonce lowestBidFirst pending') := by
    refine pair_sublist_lowestBidFirst (hperm'.mem_iff.mpr (by simp)) (hperm'.mem_iff.mpr (by simp)) hissuer hle ?_
    simp [PoolTransaction.rebid, bid, hlate]
  obtain ⟨before, left, hsplit, hother⟩ := List.exists_split_of_pair_sublist hpair
  have hrebid : ∀ x b, account (PoolTransaction.rebid x b) = account x := fun x b => by
    rw [← haccount, PoolTransaction.withoutBid_rebid, haccount]
  have hbid := hfair.bid_le hsplit (List.mem_cons_of_mem _ hother) ((hrebid other 1).trans ha) ?_
  · simp [PoolTransaction.rebid, bid, hlate] at hbid
  · intro first hfirst hfirstAccount hlt
    have hmem := hperm'.mem_iff.mp ((feesHighestFirstNonce_perm _ _).mem_iff.mp hfirst)
    simp only [List.mem_cons, List.mem_map] at hmem
    rcases hmem with rfl | rfl | ⟨x, -, rfl⟩
    · rw [hrebid] at hfirstAccount
      exact absurd ⟨hfirstAccount, hlt⟩ hlate
    · exact BitVec.le_refl _
    · rw [hrebid] at hfirstAccount
      have hone : bid x = 1 := if_pos ⟨hfirstAccount, hlt⟩
      simp [PoolTransaction.rebid, hone]

/-- Under different issuers the later of two nonces of an account may be bid for, together with all of its issuer. -/
theorem FairWhateverBid.otherIssuer (hfair : FairWhateverBid account pending) {tx other : PoolTransaction}
    {rest : List PoolTransaction} (hperm : pending.Perm (tx :: other :: rest)) (hissuer : tx.mIssuer ≠ other.mIssuer)
    {a : Bytes} (htx : account tx = some a) (ha : account other = some a) : other.mNonce ≤ tx.mNonce := by
  by_contra hlt
  let bid : PoolTransaction → BigInt := fun x => if x.mIssuer = other.mIssuer then 1 else 0
  obtain ⟨pending', hsame, hperm'⟩ := exists_rebid hperm bid 1
  have hfair := hfair lowestBidFirst pending' hsame
  have hrebid : ∀ x b, account (PoolTransaction.rebid x b) = account x := fun x b => by
    rw [← haccount, PoolTransaction.withoutBid_rebid, haccount]
  have hmem : ∀ x, x ∈ feesHighestFirstNonce lowestBidFirst pending' ↔ x ∈ pending' := fun x =>
    (feesHighestFirstNonce_perm _ _).mem_iff
  have hpair : [tx.rebid (bid tx), other.rebid 1].Sublist (feesHighestFirstNonce lowestBidFirst pending') := by
    refine List.pair_sublist_of_pairwise hfair.nonces ((hmem _).mpr (hperm'.mem_iff.mpr (by simp)))
      ((hmem _).mpr (hperm'.mem_iff.mpr (by simp))) ?_ ?_
    · intro heq
      exact hissuer (congrArg (fun x => x.mIssuer) heq)
    · intro hnonces
      exact hlt (hnonces a ((hrebid other 1).trans ha) ((hrebid tx _).trans htx))
  obtain ⟨before, left, hsplit, hother⟩ := List.exists_split_of_pair_sublist hpair
  have hgreedy := feesHighestFirstNonce_greedy lowestBidFirst pending'
  rw [hsplit] at hgreedy
  cases hqueue : (tx.rebid (bid tx) :: left).filter fun x => x.mIssuer = other.mIssuer with
  | nil =>
      have := List.filter_eq_nil_iff.mp hqueue _ (List.mem_cons_of_mem _ hother)
      simp [PoolTransaction.rebid] at this
  | cons next queue =>
      have hnext := hgreedy.of_append.1 other.mIssuer next (by rw [hqueue]; rfl)
      obtain ⟨hnextMem, hnextIssuer⟩ := List.mem_filter.mp (hqueue ▸ List.mem_cons_self)
      have hnextPending := (hmem next).mp (by rw [hsplit]; exact List.mem_append_right _ hnextMem)
      have hbid : next.mErgPrice = 1 := by
        have hcases := hperm'.mem_iff.mp hnextPending
        simp only [List.mem_cons, List.mem_map] at hcases
        rcases hcases with rfl | rfl | ⟨x, -, rfl⟩
        · exact absurd (of_decide_eq_true hnextIssuer) hissuer
        · rfl
        · exact if_pos (of_decide_eq_true hnextIssuer)
      simp [PoolTransaction.rebid, bid, hissuer, hbid] at hnext

theorem issuersTell_of_fairWhateverBid (hfair : FairWhateverBid account pending) : IssuersTell account pending := by
  refine List.pairwise_iff_forall_sublist.mpr ?_
  intro tx other hpair
  obtain ⟨rest, hperm⟩ := hpair.exists_perm_append
  have hswap := hperm.trans (List.Perm.swap other tx rest)
  have hsymm : ∀ {t u : PoolTransaction} {rest}, pending.Perm (t :: u :: rest) → KeptApart account t u := by
    intro t u rest hperm
    refine ⟨fun hissuer hle a ha => hfair.sameIssuer haccount hperm hissuer hle ha, fun hissuer a ht hu => ?_⟩
    have hswap := hperm.trans (List.Perm.swap u t rest)
    exact UInt64.le_antisymm (hfair.otherIssuer haccount hswap (Ne.symm hissuer) hu ht)
      (hfair.otherIssuer haccount hperm hissuer ht hu)
  exact ⟨hsymm hperm, hsymm hswap⟩

end Bids

theorem KeptApart.of_withoutBid {account : PoolTransaction → Option Bytes}
    (haccount : ∀ tx, account tx.withoutBid = account tx) {tx tx' other other' : PoolTransaction}
    (htx : tx'.withoutBid = tx.withoutBid) (hother : other'.withoutBid = other.withoutBid)
    (hapart : KeptApart account tx other) : KeptApart account tx' other' := by
  have hissuer : tx'.mIssuer = tx.mIssuer ∧ other'.mIssuer = other.mIssuer :=
    ⟨congrArg (fun x => x.mIssuer) htx, congrArg (fun x => x.mIssuer) hother⟩
  have hnonce : tx'.mNonce = tx.mNonce ∧ other'.mNonce = other.mNonce :=
    ⟨congrArg (fun x => x.mNonce) htx, congrArg (fun x => x.mNonce) hother⟩
  have haccounts : account tx' = account tx ∧ account other' = account other := by
    rw [← haccount tx', htx, haccount, ← haccount other', hother, haccount]
    exact ⟨rfl, rfl⟩
  constructor
  · rw [hissuer.1, hissuer.2, hnonce.1, hnonce.2, haccounts.1, haccounts.2]
    exact hapart.sameIssuer
  · rw [hissuer.1, hissuer.2, hnonce.1, hnonce.2, haccounts.1, haccounts.2]
    exact hapart.otherIssuer

theorem IssuersTell.of_withoutBid {account : PoolTransaction → Option Bytes}
    (haccount : ∀ tx, account tx.withoutBid = account tx) {pending pending' : List PoolTransaction}
    (hsame : pending'.map PoolTransaction.withoutBid = pending.map PoolTransaction.withoutBid)
    (htell : IssuersTell account pending) : IssuersTell account pending' := by
  induction pending generalizing pending' with
  | nil =>
      rw [List.map_eq_nil_iff.mp hsame]
      exact List.Pairwise.nil
  | cons tx pending ih =>
      cases pending' with
      | nil => exact List.Pairwise.nil
      | cons tx' pending' =>
          obtain ⟨htx, hrest⟩ := List.cons.inj hsame
          obtain ⟨hhead, htail⟩ := List.pairwise_cons.mp htell
          refine List.pairwise_cons.mpr ⟨fun other' hother' => ?_, ih hrest htail⟩
          have hmem : other'.withoutBid ∈ pending.map PoolTransaction.withoutBid :=
            hrest ▸ List.mem_map_of_mem hother'
          obtain ⟨other, hother, hbid⟩ := List.mem_map.mp hmem
          obtain ⟨hapart, hapart'⟩ := hhead other hother
          exact ⟨hapart.of_withoutBid haccount htx hbid.symm, hapart'.of_withoutBid haccount hbid.symm htx⟩

/-! ### The pool -/

theorem accountOf_withoutBid (S : NodeServices) (l : Ledger) (tx : PoolTransaction) :
    accountOf S l tx.withoutBid = accountOf S l tx := rfl

theorem eligible_withoutBid {ommitTriggering : Bool} {triggerID : Bytes} {tx : PoolTransaction} :
    Eligible ommitTriggering triggerID tx.withoutBid ↔ Eligible ommitTriggering triggerID tx :=
  ⟨fun h => ⟨h.1, h.2, h.3, h.4⟩, fun h => ⟨h.1, h.2, h.3, h.4⟩⟩

/-- Other bids of the pending transactions come from a pool that differs in bids only. -/
theorem exists_pool {ommitTriggering : Bool} {triggerID : Bytes} (mMemPool : List PoolObject)
    {pending' : List PoolTransaction}
    (hpending : pending'.map PoolTransaction.withoutBid =
      (preFlight ommitTriggering triggerID mMemPool).map PoolTransaction.withoutBid) :
    ∃ mMemPool' : List PoolObject, mMemPool'.map PoolObject.withoutBid = mMemPool.map PoolObject.withoutBid ∧
      preFlight ommitTriggering triggerID mMemPool' = pending' := by
  simp only [preFlight_eq] at hpending ⊢
  induction mMemPool generalizing pending' with
  | nil => exact ⟨[], rfl, (List.map_eq_nil_iff.mp hpending).symm⟩
  | cons object mMemPool ih =>
      cases object with
      | transaction tx mReceivedAt =>
          rw [transactionsOf, List.filter_cons] at hpending
          split_ifs at hpending with heligible
          · cases pending' with
            | nil => simp at hpending
            | cons tx' pending' =>
                obtain ⟨htx, hpending⟩ := List.cons.inj hpending
                obtain ⟨mMemPool', hpool, hrest⟩ := ih hpending
                have heligible' : Eligible ommitTriggering triggerID tx' := by
                  rw [← eligible_withoutBid, htx, eligible_withoutBid]
                  exact of_decide_eq_true heligible
                refine ⟨.transaction tx' mReceivedAt :: mMemPool', ?_, ?_⟩
                · rw [List.map_cons, hpool, PoolObject.withoutBid, htx]
                  rfl
                · rw [transactionsOf, List.filter_cons, if_pos (decide_eq_true heligible'), hrest]
          · obtain ⟨mMemPool', hpool, hrest⟩ := ih hpending
            refine ⟨.transaction tx mReceivedAt :: mMemPool', by rw [List.map_cons, hpool, List.map_cons], ?_⟩
            rw [transactionsOf, List.filter_cons, if_neg heligible, hrest]
      | verifiable ver mReceivedAt =>
          obtain ⟨mMemPool', hpool, hrest⟩ := ih hpending
          exact ⟨.verifiable ver mReceivedAt :: mMemPool', by rw [List.map_cons, hpool, List.map_cons], hrest⟩
      | other HotProperties =>
          obtain ⟨mMemPool', hpool, hrest⟩ := ih hpending
          exact ⟨.other HotProperties :: mMemPool', by rw [List.map_cons, hpool, List.map_cons], hrest⟩

theorem preFlight_withoutBid {ommitTriggering : Bool} {triggerID : Bytes} {mMemPool mMemPool' : List PoolObject}
    (hpool : mMemPool'.map PoolObject.withoutBid = mMemPool.map PoolObject.withoutBid) :
    (preFlight ommitTriggering triggerID mMemPool').map PoolTransaction.withoutBid =
      (preFlight ommitTriggering triggerID mMemPool).map PoolTransaction.withoutBid := by
  have hstep : ∀ pool : List PoolObject, (preFlight ommitTriggering triggerID pool).map PoolTransaction.withoutBid =
      preFlight ommitTriggering triggerID (pool.map PoolObject.withoutBid) := by
    intro pool
    simp only [preFlight_eq]
    induction pool with
    | nil => rfl
    | cons object pool ih =>
        cases object with
        | transaction tx mReceivedAt =>
            simp only [List.map_cons, PoolObject.withoutBid, transactionsOf, List.filter_cons, eligible_withoutBid]
            split_ifs with heligible
            · rw [List.map_cons, ih]
            · exact ih
        | verifiable ver mReceivedAt => exact ih
        | other HotProperties => exact ih
  rw [hstep, hstep, hpool]

/-- The eligible transactions, each as often as in the pool, in an order that is fair to the accounts. -/
def FairOrdering (S : NodeServices) (l : Ledger) (std : UnstableSort PoolTransaction) (ommitTriggering : Bool)
    (triggerID : Bytes) (mMemPool : List PoolObject) : Prop :=
  let result := getUnprocessedTransactions std .feesHighestFirstNonce ommitTriggering triggerID mMemPool
  result.Perm ((transactionsOf mMemPool).filter fun tx => Eligible ommitTriggering triggerID tx) ∧
    FairlyOrdered (accountOf S l) result

theorem fairOrdering_iff_fairlyOrdered {S : NodeServices} {l : Ledger} {std : UnstableSort PoolTransaction}
    {ommitTriggering : Bool} {triggerID : Bytes} {mMemPool : List PoolObject} :
    FairOrdering S l std ommitTriggering triggerID mMemPool ↔
      FairlyOrdered (accountOf S l) (feesHighestFirstNonce std (preFlight ommitTriggering triggerID mMemPool)) := by
  rw [FairOrdering, ← preFlight_eq]
  exact and_iff_right (feesHighestFirstNonce_perm std _)

/-- The order is fair, whatever is bid and however equal nonces are sorted, if and only if the issuers that the eligible
transactions name tell their accounts. -/
theorem fairOrdering_iff_issuersTell (S : NodeServices) (l : Ledger) (ommitTriggering : Bool) (triggerID : Bytes)
    (mMemPool : List PoolObject) :
    (∀ (std : UnstableSort PoolTransaction) (mMemPool' : List PoolObject),
        mMemPool'.map PoolObject.withoutBid = mMemPool.map PoolObject.withoutBid →
          FairOrdering S l std ommitTriggering triggerID mMemPool') ↔
      IssuersTell (accountOf S l)
        ((transactionsOf mMemPool).filter fun tx => Eligible ommitTriggering triggerID tx) := by
  simp only [fairOrdering_iff_fairlyOrdered, ← preFlight_eq]
  constructor
  · intro hfair
    refine issuersTell_of_fairWhateverBid (accountOf_withoutBid S l) fun std pending' hpending => ?_
    obtain ⟨mMemPool', hpool, rfl⟩ := exists_pool mMemPool hpending
    exact hfair std mMemPool' hpool
  · intro htell std mMemPool' hpool
    exact fairlyOrdered_of_issuersTell (htell.of_withoutBid (accountOf_withoutBid S l) (preFlight_withoutBid hpool))

/-- The bid of an owner that gives its key and leaves its address out. -/
def keyOnly (owner : UInt8) (nonce : UInt64) (bid : BigInt) : PoolTransaction :=
  { sampleTransaction owner with mNonce := nonce, mErgPrice := bid }

/-- Two owners who leave their addresses out are taken for one issuer: the next transaction of the second waits behind
one of the first, although it bids more. -/
theorem fairOrdering_fails_keyOnly :
    ¬FairOrdering sampleServices sampleLedger lowestBidFirst true []
      [.transaction (keyOnly 1 1 1) 0, .transaction (keyOnly 2 2 5) 0] := by
  rw [fairOrdering_iff_fairlyOrdered]
  intro hfair
  have hpending : preFlight true [] [.transaction (keyOnly 1 1 1) 0, .transaction (keyOnly 2 2 5) 0] =
      [keyOnly 1 1 1, keyOnly 2 2 5] := by decide
  rw [hpending] at hfair
  have hpair : [keyOnly 1 1 1, keyOnly 2 2 5].Sublist
      (feesHighestFirstNonce lowestBidFirst [keyOnly 1 1 1, keyOnly 2 2 5]) :=
    pair_sublist_lowestBidFirst (by simp) (by simp) rfl (by decide) (by decide)
  obtain ⟨before, left, hsplit, hother⟩ := List.exists_split_of_pair_sublist hpair
  have haccount : accountOf sampleServices sampleLedger (keyOnly 2 2 5) = some (sampleAddress 2) := by decide
  have hbid := hfair.bid_le hsplit (List.mem_cons_of_mem _ hother) haccount ?_
  · exact absurd hbid (by decide)
  intro first hfirst hsame hlt
  rcases List.mem_cons.mp ((feesHighestFirstNonce_perm _ _).mem_iff.mp hfirst) with rfl | hrest
  · exact absurd hsame (by decide)
  · obtain rfl := List.mem_singleton.mp hrest
    exact absurd hlt (by decide)

end Gridnet
