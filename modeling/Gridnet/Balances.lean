import Gridnet.LedgerModel

/-! Balances as numbers: what a credit adds to the balance of a domain, and the total of the balances of
some addresses. -/

namespace Gridnet

/-- What adding `R` to a 256-bit number makes of it: `R` more, unless the sum wraps. -/
def raised (x R : BigInt) : ℤ := (x + R).toNat - x.toNat

theorem raised_of_lt {x R : BigInt} (hfits : x.toNat + R.toNat < 2 ^ 256) :
    raised x R = R.toNat := by
  rw [raised, BitVec.toNat_add_of_lt hfits]
  omega

theorem raised_eq_iff {x R : BigInt} : raised x R = R.toNat ↔ x.toNat + R.toNat < 2 ^ 256 := by
  constructor
  · intro hraised
    rw [raised, BitVec.toNat_add] at hraised
    have hsum : (x.toNat + R.toNat) % 2 ^ 256 = x.toNat + R.toNat := by omega
    rw [← hsum]
    exact Nat.mod_lt _ (by decide)
  · exact raised_of_lt

theorem raised_le (x R : BigInt) : raised x R ≤ R.toNat := by
  have hle := Nat.mod_le (x.toNat + R.toNat) (2 ^ 256)
  rw [raised, BitVec.toNat_add]
  omega

/-- A share is rounded down, and less still if the product wraps. -/
theorem share_toNat_le (R : BigInt) (m : ℕ) (d : BigInt) :
    (R * BitVec.ofNat 256 m / d).toNat ≤ R.toNat * m / d.toNat := by
  rw [BitVec.toNat_udiv, BitVec.toNat_mul, BitVec.toNat_ofNat]
  exact Nat.div_le_div_right ((Nat.mod_le _ _).trans (Nat.mul_le_mul_left _ (Nat.mod_le _ _)))

theorem share_toNat_of_lt {R : BigInt} {m : ℕ} (hm : m < 2 ^ 256) (hfits : R.toNat * m < 2 ^ 256) (d : BigInt) :
    (R * BitVec.ofNat 256 m / d).toNat = R.toNat * m / d.toNat := by
  rw [BitVec.toNat_udiv, BitVec.toNat_mul, BitVec.toNat_ofNat, Nat.mod_eq_of_lt hm, Nat.mod_eq_of_lt hfits]

namespace StateDomain

/-- A balance that is not there reads as zero. -/
def Readable (d : StateDomain) : Prop := d.assetType = .noData → d.assetValue = 0

/-- What a credit adds to the balance; nothing, where the variable is of another type. -/
def credited (d : StateDomain) (R : BigInt) : ℤ :=
  if d.assetType = .unsignedInteger then 0 else raised d.getBalance R

theorem ofInt_add (x R : BigInt) : BitVec.ofInt 256 (x.toNat + R.toNat) = x + R := by
  rw [← Int.natCast_add, BitVec.ofInt_natCast, BitVec.ofNat_add, BitVec.ofNat_toNat,
    BitVec.ofNat_toNat, BitVec.setWidth_eq, BitVec.setWidth_eq]

/-- A change that is not negative is added to a balance that is a number. -/
theorem changeBalanceBy_bigInt {d : StateDomain} (htype : d.assetType = .BigInt) (R : BigInt) :
    d.changeBalanceBy R.toNat = some { d with assetValue := d.assetValue + R } := by
  have hpos : ¬((R.toNat : ℤ) < 0 ∧ (R.toNat : ℤ) < -(d.assetValue.toNat : ℤ)) := by omega
  unfold changeBalanceBy
  rw [htype]
  dsimp only
  rw [if_neg hpos, ofInt_add]

theorem changeBalanceBy_noData {d : StateDomain} (htype : d.assetType = .noData) (R : BigInt) :
    d.changeBalanceBy R.toNat = some { d with assetType := .BigInt, assetValue := R } := by
  unfold changeBalanceBy
  rw [htype]
  dsimp only
  rw [BitVec.ofInt_natCast, BitVec.ofNat_toNat, BitVec.setWidth_eq]

theorem changeBalanceBy_unsigned {d : StateDomain} (htype : d.assetType = .unsignedInteger)
    (modBy : ℤ) : d.changeBalanceBy modBy = none := by
  unfold changeBalanceBy
  rw [htype]

/-- The balance after a credit whose outcome is not looked at. -/
theorem getBalance_credit {d : StateDomain} (hread : d.Readable) (R : BigInt) :
    (((d.changeBalanceBy R.toNat).getD d).getBalance.toNat : ℤ) =
      d.getBalance.toNat + d.credited R := by
  cases htype : d.assetType with
  | BigInt =>
      have hcredited : d.credited R = raised d.getBalance R := if_neg (by rw [htype]; decide)
      rw [changeBalanceBy_bigInt htype, Option.getD_some, hcredited, raised]
      show ((d.assetValue + R).toNat : ℤ) = d.assetValue.toNat + ((d.assetValue + R).toNat - d.assetValue.toNat)
      omega
  | noData =>
      have hcredited : d.credited R = raised d.getBalance R := if_neg (by rw [htype]; decide)
      have hzero : d.assetValue = 0 := hread htype
      rw [changeBalanceBy_noData htype, Option.getD_some, hcredited, raised]
      show (R.toNat : ℤ) = d.assetValue.toNat + ((d.assetValue + R).toNat - d.assetValue.toNat)
      have hsum : (0 : BigInt) + R = R := BitVec.zero_add R
      rw [hzero, hsum]
      omega
  | unsignedInteger =>
      have hcredited : d.credited R = 0 := if_pos htype
      rw [changeBalanceBy_unsigned htype, Option.getD_none, hcredited]
      omega

end StateDomain

namespace Ledger

/-- All balances that are not there read as zero. -/
def Readable (l : Ledger) : Prop := ∀ a d, l a = some d → d.Readable

/-- The balance of an address; zero, if it has no domain. -/
def balanceAt (l : Ledger) (a : Bytes) : BigInt := ((l a).map StateDomain.getBalance).getD 0

/-- The total of the balances of some addresses. -/
def total (s : Finset Bytes) (l : Ledger) : ℤ := ∑ a ∈ s, ((l.balanceAt a).toNat : ℤ)

/-- The balance of one address is another by `x`. -/
def Gains (l l' : Ledger) (a : Bytes) (x : ℤ) : Prop :=
  ∀ b, ((l'.balanceAt b).toNat : ℤ) = (l.balanceAt b).toNat + if b = a then x else 0

theorem balanceAt_of_some {l : Ledger} {a : Bytes} {d : StateDomain} (hd : l a = some d) :
    l.balanceAt a = d.getBalance := by
  rw [balanceAt, hd, Option.map_some, Option.getD_some]

theorem balanceAt_save (l : Ledger) (id : Bytes) (d : StateDomain) :
    (l.save id d).balanceAt (addressOf id) = d.getBalance := balanceAt_of_some (l.save_self id d)

theorem balanceAt_save_of_ne (l : Ledger) {id a : Bytes} (d : StateDomain) (hne : a ≠ addressOf id) :
    (l.save id d).balanceAt a = l.balanceAt a := by
  rw [balanceAt, balanceAt, l.save_of_ne d hne]

/-- What is gained by an address is gained by the total, if it counts there. -/
theorem Gains.total {l l' : Ledger} {a : Bytes} {x : ℤ} (hgains : l.Gains l' a x)
    (s : Finset Bytes) : l'.total s = l.total s + if a ∈ s then x else 0 := by
  have hsum : ∑ b ∈ s, (if b = a then x else 0) = if a ∈ s then x else 0 := Finset.sum_ite_eq' s a _
  rw [Ledger.total, Ledger.total, Finset.sum_congr rfl fun b _ => hgains b, Finset.sum_add_distrib,
    hsum]

/-- A domain that is saved makes a difference at its address. -/
theorem gains_save (l : Ledger) (id : Bytes) (d : StateDomain) {x : ℤ}
    (hx : (d.getBalance.toNat : ℤ) = (l.balanceAt (addressOf id)).toNat + x) :
    l.Gains (l.save id d) (addressOf id) x := by
  intro b
  by_cases hb : b = addressOf id
  · rw [hb, balanceAt_save, if_pos rfl, hx]
  · rw [balanceAt_save_of_ne _ _ hb, if_neg hb, add_zero]

end Ledger

end Gridnet
