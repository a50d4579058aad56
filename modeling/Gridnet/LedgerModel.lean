import Mathlib.Data.Int.Cast.Lemmas
import Mathlib.Logic.Function.Basic
import Gridnet.DomainSupply
import Gridnet.FlowModel
import Gridnet.LockedAssets

/-! The state domains that a flow reads and writes: the data of a domain that transactions and
verifiables touch, the ledger of all domains, and the trie that holds it. -/

namespace Gridnet

/-- The data of a `CStateDomain` in a flow, beside its locked assets: its nonce, the variable of the
global asset as a type and the number its bytes read as, the public key of its identity token, and the
containers of receipts and of transaction statistics. -/
structure StateDomain extends CStateDomain where
  mNonce : UInt64 := 0
  assetType : eDataType := .noData
  assetValue : BigInt := 0
  IDToken : Option Bytes := none
  receiptIDs : List Bytes := []
  TXNibbles : List Bytes := []

namespace StateDomain

/-- `getBalance` reads the bytes whatever their type is. -/
def getBalance (d : StateDomain) : BigInt := d.assetValue

def incNonce (d : StateDomain) : StateDomain := { d with mNonce := d.mNonce + 1 }

/-- `changeValueBy` of the global asset, the save succeeding; `none` where the source returns false.
A balance that is not there yet is not checked against what is taken from it. -/
def changeBalanceBy (d : StateDomain) (modBy : ℤ) : Option StateDomain :=
  match d.assetType with
  | .BigInt =>
      if modBy < 0 ∧ modBy < -(d.assetValue.toNat : ℤ) then none
      else some { d with assetValue := BitVec.ofInt 256 (d.assetValue.toNat + modBy) }
  | .noData => some { d with assetType := .BigInt, assetValue := BitVec.ofInt 256 modBy }
  | .unsignedInteger => none

def addReceipt (d : StateDomain) (receiptID : Bytes) : StateDomain :=
  { d with receiptIDs := d.receiptIDs ++ [receiptID] }

/-- An entry of the statistics: flags, receipt, recipient and value. -/
def addTXStats (d : StateDomain) (nibbles : List Bytes) : StateDomain :=
  { d with TXNibbles := d.TXNibbles ++ nibbles }

@[simp] theorem incNonce_mNonce (d : StateDomain) : d.incNonce.mNonce = d.mNonce + 1 := rfl
@[simp] theorem incNonce_getBalance (d : StateDomain) : d.incNonce.getBalance = d.getBalance := rfl
@[simp] theorem addReceipt_mNonce (d : StateDomain) (receiptID : Bytes) :
    (d.addReceipt receiptID).mNonce = d.mNonce := rfl
@[simp] theorem addReceipt_getBalance (d : StateDomain) (receiptID : Bytes) :
    (d.addReceipt receiptID).getBalance = d.getBalance := rfl
@[simp] theorem addTXStats_mNonce (d : StateDomain) (nibbles : List Bytes) :
    (d.addTXStats nibbles).mNonce = d.mNonce := rfl
@[simp] theorem addTXStats_getBalance (d : StateDomain) (nibbles : List Bytes) :
    (d.addTXStats nibbles).getBalance = d.getBalance := rfl

/-- A change that succeeds touches the balance alone. -/
theorem changeBalanceBy_mNonce {d d' : StateDomain} {modBy : ℤ}
    (hchange : d.changeBalanceBy modBy = some d') : d'.mNonce = d.mNonce := by
  unfold changeBalanceBy at hchange
  cases htype : d.assetType with
  | BigInt =>
      simp only [htype] at hchange
      split_ifs at hchange
      obtain rfl := Option.some.inj hchange
      rfl
  | noData =>
      simp only [htype] at hchange
      obtain rfl := Option.some.inj hchange
      rfl
  | unsignedInteger =>
      simp only [htype] at hchange
      cases hchange

end StateDomain

/-- The domains as `findByID` finds them, by their filled-up IDs. -/
abbrev Ledger := Bytes → Option StateDomain

namespace Ledger

/-- The address of the domain that `findByID` looks for. -/
def addressOf (id : Bytes) : Bytes := StateDomainManager.paddedID id

def findByID (l : Ledger) (id : Bytes) : Option StateDomain := l (addressOf id)

/-- The ledger after a domain was saved. -/
def save (l : Ledger) (id : Bytes) (d : StateDomain) : Ledger :=
  Function.update l (addressOf id) (some d)

theorem addressOf_addressOf (id : Bytes) : addressOf (addressOf id) = addressOf id := by
  have hlength : 34 ≤ (StateDomainManager.paddedID id).length := by
    simp only [StateDomainManager.paddedID, List.length_append, List.length_replicate]
    omega
  show addressOf id ++ List.replicate (34 - (addressOf id).length) 0 = addressOf id
  rw [addressOf, Nat.sub_eq_zero_of_le hlength, List.replicate_zero, List.append_nil]

theorem addressOf_ne_nil (id : Bytes) : addressOf id ≠ [] := by
  intro hnil
  have hlength := congrArg List.length hnil
  simp only [addressOf, StateDomainManager.paddedID, List.length_append, List.length_replicate,
    List.length_nil] at hlength
  omega

@[simp] theorem findByID_addressOf (l : Ledger) (id : Bytes) :
    l.findByID (addressOf id) = l.findByID id := by
  rw [findByID, findByID, addressOf_addressOf]

@[simp] theorem save_addressOf (l : Ledger) (id : Bytes) (d : StateDomain) :
    l.save (addressOf id) d = l.save id d := by
  rw [save, save, addressOf_addressOf]

theorem save_self (l : Ledger) (id : Bytes) (d : StateDomain) :
    l.save id d (addressOf id) = some d := Function.update_self ..

@[simp] theorem findByID_save (l : Ledger) (id : Bytes) (d : StateDomain) :
    (l.save id d).findByID id = some d := Function.update_self ..

theorem save_of_ne (l : Ledger) {id a : Bytes} (d : StateDomain) (hne : a ≠ addressOf id) :
    l.save id d a = l a := Function.update_of_ne hne ..

@[simp] theorem save_save (l : Ledger) (id : Bytes) (d d' : StateDomain) :
    (l.save id d).save id d' = l.save id d' := Function.update_idem ..

/-- No domain is lost, and no nonce changes. -/
def KeepsNonces (l l' : Ledger) : Prop :=
  ∀ a d, l a = some d → ∃ d', l' a = some d' ∧ d'.mNonce = d.mNonce

theorem KeepsNonces.refl (l : Ledger) : l.KeepsNonces l := fun _ d hd => ⟨d, hd, rfl⟩

end Ledger

/-- What a flow uses of the trie that holds the domains, beside the undo stack. -/
structure LedgerTrie (DB : Type) extends TrieDB DB where
  domains : DB → Ledger
  withDomains : DB → Ledger → DB

/-- The documented behaviour: copies and loaded tries hold the same domains, and the perspective is a
hash of 32 bytes of the domains. -/
structure LedgerTrie.Documented {DB : Type} (T : LedgerTrie DB) : Prop
    extends TrieDB.Documented T.toTrieDB where
  domains_copy : ∀ d, T.domains (T.copy d) = T.domains d
  domains_setAssociatedObjectID : ∀ d id, T.domains (T.setAssociatedObjectID d id) = T.domains d
  domains_withDomains : ∀ d l, T.domains (T.withDomains d l) = l
  domains_setPerspective : ∀ d t,
    (T.setPerspective d (T.getPerspective t) t).1 = true →
      T.domains (T.setPerspective d (T.getPerspective t) t).2 = T.domains t
  domains_assign : ∀ d t, T.domains (T.assign d t) = T.domains t
  perspective_of_domains : ∀ d d', T.domains d = T.domains d' →
    T.getPerspective d = T.getPerspective d'
  perspective_length : ∀ d, (T.getPerspective d).length = 32

end Gridnet
