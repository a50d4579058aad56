import Gridnet.Machine
import Gridnet.TransactionProcessing

/-! The identity token of a state domain. It is stored under one key of the domain's storage and cached by the first
`getIDToken` that finds one. Neither a later `setIDToken` nor a change of the perspective touches the cache, so the
token read is the token stored as long as no step changes what is stored behind a cached token. -/

namespace Gridnet

/-! ### Tokens -/

/-- The types by name; a number that is none of theirs stays as it is. -/
inductive eIdentityTokenType where
  | identityOnly
  | PoW
  | Stake
  | Hybrid
  | Basic
  | unnamed (beyond : Nat)
  deriving DecidableEq, Repr

namespace eIdentityTokenType

def packed : eIdentityTokenType → Nat
  | identityOnly => 0
  | PoW => 1
  | Stake => 2
  | Hybrid => 3
  | Basic => 4
  | unnamed beyond => beyond + 5

def unpacked : Nat → eIdentityTokenType
  | 0 => identityOnly
  | 1 => PoW
  | 2 => Stake
  | 3 => Hybrid
  | 4 => Basic
  | beyond + 5 => unnamed beyond

/-- A token of this type carries a proof of work. -/
def hasWork (type : eIdentityTokenType) : Bool := type = Hybrid ∨ type = PoW

/-- A token of this type carries consumed coins. -/
def hasStake (type : eIdentityTokenType) : Bool := type = Hybrid ∨ type = Stake

end eIdentityTokenType

structure CPoW where
  mNonce : UInt32
  mHash : Bytes
  mNrOfConcats : UInt32
  deriving DecidableEq, Repr

structure CIdentityToken where
  mVersion : Nat := 1
  mType : eIdentityTokenType
  mPublicKey : Bytes
  mFriendlyID : Bytes := []
  mSignature : Bytes := []
  mAdditionalData : Bytes := []
  mPow : Option CPoW := none
  mConsumedCoins : BigInt := 0
  mConsumedInTXReceiptID : Bytes := []
  mSenderAddress : Bytes := []
  deriving DecidableEq, Repr

namespace CIdentityToken

def packedWork (token : CIdentityToken) : List Asn1 :=
  match token.mPow with
  | none => []
  | some pow =>
      if token.mType.hasWork then
        [.octets pow.mHash, .integer pow.mNonce.toNat, .integer pow.mNrOfConcats.toNat]
      else []

def packedStake (token : CIdentityToken) : List Asn1 :=
  if token.mType.hasStake then
    [.octets (BigIntToBytes token.mConsumedCoins.toNat), .octets token.mConsumedInTXReceiptID,
      .octets token.mSenderAddress]
  else []

def getPackedData (token : CIdentityToken) (ommitSig : Bool) : Asn1 :=
  .sequence [.integer token.mVersion, .sequence (
    [.integer token.mType.packed, .octets token.mPublicKey, .octets token.mFriendlyID,
      .octets (if ommitSig then [] else token.mSignature), .octets token.mAdditionalData] ++
    token.packedWork ++ token.packedStake)]

/-- The proof of work, if the type has one, and the objects behind it. Numbers over 32 bits are thrown at. -/
def readWork (token : CIdentityToken) (objects : List Asn1) : Option (CIdentityToken × List Asn1) :=
  if token.mType.hasWork then
    match objects with
    | .octets hash :: .integer nonce :: .integer concats :: rest =>
        if nonce ≥ 2 ^ 32 ∨ concats ≥ 2 ^ 32 then none
        else some ({ token with mPow := some ⟨.ofNat nonce, hash, .ofNat concats⟩ }, rest)
    | _ => none
  else some (token, objects)

def readStake (token : CIdentityToken) (objects : List Asn1) : Option (CIdentityToken × List Asn1) :=
  if token.mType.hasStake then
    match objects with
    | .octets temp :: .octets receiptID :: .octets senderAddress :: rest =>
        some ({ token with
          mConsumedCoins := .ofNat 256 (BytesToBigInt temp)
          mConsumedInTXReceiptID := receiptID
          mSenderAddress := senderAddress }, rest)
    | _ => none
  else some (token, objects)

/-- `none` for `nullptr`, also where an exception is caught. -/
def instantiate (serializedToken : Asn1) : Option CIdentityToken :=
  match serializedToken with
  | .sequence (.integer version :: .sequence objects :: behind) =>
      if version ≠ 1 then none
      else match objects with
        | .integer type :: .octets publicKey :: .octets friendlyID :: .octets signature :: .octets data :: rest =>
            if type ≥ 2 ^ 32 then none
            else do
              let token : CIdentityToken :=
                { mVersion := version, mType := .unpacked type, mPublicKey := publicKey, mFriendlyID := friendlyID
                  mSignature := signature, mAdditionalData := data }
              let worked ← token.readWork rest
              let staked ← worked.1.readStake worked.2
              if staked.2 = [] ∧ behind = [] then some staked.1 else none
        | _ => none
  | _ => none

variable {token read : CIdentityToken} {rest : List Asn1}

end CIdentityToken

/-! ### The domain -/

/-- What a domain uses of its storage, under the key of the identity token, and of its local state trie. The storage
holds what it accepts. -/
structure IdentityStorage (σ τ : Type) where
  loadValue : σ → Option Asn1
  saveValue : σ → Asn1 → (sandBoxMode : Bool) → Bool × σ
  getPerspective : σ → Bytes
  setPerspective : σ → Bytes → Bool × σ
  statePerspective : τ → Bytes
  setStatePerspective : τ → Bytes → Bool × τ
  storageOfVersion : τ → Option Bytes
  load_saved : ∀ {s value sandBoxMode}, (saveValue s value sandBoxMode).1 = true →
    loadValue (saveValue s value sandBoxMode).2 = some value

/-- The fields of a state domain that its identity token depends on. -/
structure IdentityDomain (σ τ : Type) where
  mIDToken : Option CIdentityToken := none
  mStorageDB : σ
  mStoragePerspective : Bytes
  mLocalStateDB : τ

namespace IdentityStorage

variable {σ τ : Type} (S : IdentityStorage σ τ)

def getIDToken (d : IdentityDomain σ τ) : Option CIdentityToken × IdentityDomain σ τ :=
  match d.mIDToken with
  | some token => (some token, d)
  | none =>
      match S.loadValue d.mStorageDB with
      | none => (none, d)
      | some serializedIDToken =>
          let token := CIdentityToken.instantiate serializedIDToken
          (token, { d with mIDToken := token })

/-- `saveValueDB` of the token's key for the system, with its update of the storage perspective. -/
def saveValueDB (d : IdentityDomain σ τ) (value : Asn1) (sandBoxMode : Bool) : Bool × IdentityDomain σ τ :=
  let d := { d with mStoragePerspective := S.getPerspective d.mStorageDB }
  let saved := S.saveValue d.mStorageDB value sandBoxMode
  let d := { d with mStorageDB := saved.2 }
  if saved.1 then (true, { d with mStoragePerspective := S.getPerspective d.mStorageDB }) else (false, d)

def setIDToken (d : IdentityDomain σ τ) (token : CIdentityToken) (sandBoxMode : Bool) : Bool × IdentityDomain σ τ :=
  let saved := S.saveValueDB d (token.getPackedData false) sandBoxMode
  let d := saved.2
  if saved.1 then (true, { d with mStoragePerspective := S.getPerspective d.mStorageDB }) else (false, d)

/-- It answers false also when the perspective was set. -/
def setStoragePerspective (d : IdentityDomain σ τ) (perspective : Bytes) : Bool × IdentityDomain σ τ :=
  if perspective.length ≠ 32 then (false, d)
  else
    let set := S.setPerspective d.mStorageDB perspective
    let d := { d with mStorageDB := set.2 }
    if set.1 = false then (false, d) else (false, { d with mStoragePerspective := perspective })

/-- The storage follows the version of the domain that is visible in the local state trie, if there is one. -/
def refresh (d : IdentityDomain σ τ) : IdentityDomain σ τ :=
  match S.storageOfVersion d.mLocalStateDB with
  | some perspective =>
      { d with
        mStoragePerspective := perspective
        mStorageDB := (S.setPerspective d.mStorageDB perspective).2 }
  | none =>
      let storage := (S.setPerspective d.mStorageDB d.mStoragePerspective).2
      { d with mStorageDB := storage, mStoragePerspective := S.getPerspective storage }

/-- The local state trie goes to a perspective it is not at. -/
def setLocalPerspective (d : IdentityDomain σ τ) (perspectiveID : Bytes) : Bool × IdentityDomain σ τ :=
  if (S.statePerspective d.mLocalStateDB).take 32 ≠ perspectiveID.take 32 then
    let set := S.setStatePerspective d.mLocalStateDB perspectiveID
    (set.1, { d with mLocalStateDB := set.2 })
  else (true, d)

def setPerspectiveOf (d : IdentityDomain σ τ) (perspectiveID : Bytes) (refreshInnerData : Bool) :
    Bool × IdentityDomain σ τ :=
  if perspectiveID.length ≠ 32 then (false, d)
  else
    let set := S.setLocalPerspective d perspectiveID
    let d := set.2
    if set.1 = false then (false, d)
    else
      let d := if refreshInnerData then S.refresh d else d
      (true, { d with mStorageDB := (S.setPerspective d.mStorageDB d.mStoragePerspective).2 })

/-- What is called on a domain. -/
inductive Call where
  | getIDToken
  | setIDToken (token : CIdentityToken) (sandBoxMode : Bool)
  | setStoragePerspective (perspective : Bytes)
  | setPerspective (perspectiveID : Bytes) (refreshInnerData : Bool)

/-- A call: the token it returns, if it does, and the domain behind it. -/
def step (d : IdentityDomain σ τ) : Call → Option CIdentityToken × IdentityDomain σ τ
  | .getIDToken => S.getIDToken d
  | .setIDToken token sandBoxMode => (none, (S.setIDToken d token sandBoxMode).2)
  | .setStoragePerspective perspective => (none, (S.setStoragePerspective d perspective).2)
  | .setPerspective perspectiveID refreshInnerData => (none, (S.setPerspectiveOf d perspectiveID refreshInnerData).2)

/-- The public key of a token, by which a transaction is authenticated. -/
def tokenKey : Option CIdentityToken → Except eTransactionValidationResult Bytes
  | none => .error .noIDToken
  | some ID => if ID.mPublicKey.length ≠ 32 then .error .invalid else .ok ID.mPublicKey

/-- The token that the value in the storage decodes to. -/
def storedToken (d : IdentityDomain σ τ) : Option CIdentityToken :=
  (S.loadValue d.mStorageDB).bind CIdentityToken.instantiate

/-- The token read is the token stored, and so is the key by which the domain's transactions are authenticated. -/
structure ReadsStored (d : IdentityDomain σ τ) : Prop where
  token : (S.getIDToken d).1 = S.storedToken d
  key : tokenKey (S.getIDToken d).1 = tokenKey (S.storedToken d)

/-- The call finds no token cached, or leaves the stored token as it is. -/
def LeavesToken (d : IdentityDomain σ τ) (c : Call) : Prop :=
  d.mIDToken = none ∨ S.storedToken (S.step d c).2 = S.storedToken d

variable {S} {d : IdentityDomain σ τ}

theorem readsStored_iff : S.ReadsStored d ↔ d.mIDToken = none ∨ d.mIDToken = S.storedToken d := by
  have htoken : (S.getIDToken d).1 = d.mIDToken.or (S.storedToken d) := by
    rw [getIDToken, storedToken]
    cases d.mIDToken with
    | some token => rfl
    | none => cases S.loadValue d.mStorageDB <;> rfl
  have hkey : S.ReadsStored d ↔ (S.getIDToken d).1 = S.storedToken d :=
    ⟨fun h => h.token, fun h => ⟨h, congrArg tokenKey h⟩⟩
  rw [hkey, htoken]
  cases d.mIDToken with
  | none => simp
  | some token => simp

/-- Only `getIDToken` touches the cache. -/
theorem mIDToken_step (c : Call) (hread : c ≠ .getIDToken) : (S.step d c).2.mIDToken = d.mIDToken := by
  cases c with
  | getIDToken => exact absurd rfl hread
  | setIDToken token sandBoxMode =>
      simp only [step, setIDToken, saveValueDB]
      split_ifs <;> rfl
  | setStoragePerspective perspective =>
      simp only [step, setStoragePerspective]
      split_ifs <;> rfl
  | setPerspective perspectiveID refreshInnerData =>
      simp only [step, setPerspectiveOf, setLocalPerspective, refresh]
      split_ifs <;> first | rfl | (split <;> rfl)

/-- Reading the token leaves the storage as it is, and what is cached behind it is the token that was read. -/
theorem getIDToken_readsStored (hreads : S.ReadsStored d) : S.ReadsStored (S.step d .getIDToken).2 ∧
    S.storedToken (S.step d .getIDToken).2 = S.storedToken d := by
  have hstored : S.storedToken (S.getIDToken d).2 = S.storedToken d := by
    rw [getIDToken]
    split
    · rfl
    · split <;> rfl
  refine ⟨readsStored_iff.mpr ?_, hstored⟩
  rw [step, hstored]
  cases htoken : d.mIDToken with
  | some token =>
      have hsame : (S.getIDToken d).2 = d := by rw [getIDToken, htoken]
      rw [hsame]
      exact readsStored_iff.mp hreads
  | none =>
      rw [getIDToken, htoken, storedToken]
      cases hload : S.loadValue d.mStorageDB with
      | none => exact .inl htoken
      | some serialized => exact .inr rfl

/-- Behind a call the token read is the token stored if none was cached, or the stored token is left as it is. -/
theorem readsStored_step_iff (c : Call) (hreads : S.ReadsStored d) :
    S.ReadsStored (S.step d c).2 ↔ S.LeavesToken d c := by
  by_cases hread : c = .getIDToken
  · subst hread
    obtain ⟨hthen, hleft⟩ := getIDToken_readsStored hreads
    exact iff_of_true hthen (.inr hleft)
  · rw [readsStored_iff, mIDToken_step c hread, LeavesToken]
    rcases readsStored_iff.mp hreads with hnone | hcached
    · exact iff_of_true (.inl hnone) (.inl hnone)
    · rw [hcached]
      exact or_congr_right eq_comm

variable (S) in
/-- In a run from a domain that has cached nothing, the token read is the token stored behind every call exactly if no
call changes the stored token behind a cached one. -/
theorem readsStored_iff_leavesToken (hfresh : d.mIDToken = none) (calls : List Call) :
    Machine.EveryStep S.step (fun d c => S.ReadsStored (S.step d c).2) d calls ↔
      Machine.EveryStep S.step S.LeavesToken d calls := by
  have hsame : ∀ d c, S.ReadsStored d → (S.ReadsStored (S.step d c).2 ↔ S.LeavesToken d c) :=
    fun _ c hreads => readsStored_step_iff c hreads
  have hkeep : ∀ d c, S.ReadsStored d → S.LeavesToken d c → S.ReadsStored (S.step d c).2 :=
    fun d c hreads => (hsame d c hreads).mpr
  exact Machine.everyStep_iff_of_invariant hsame hkeep (readsStored_iff.mpr (.inl hfresh)) calls

/-! ### A token set twice -/

section Sample

/-- A storage of one value; the perspective of zeros is that of the empty storage. -/
def singleValue : IdentityStorage (Option Asn1) Unit where
  loadValue s := s
  saveValue _ value _ := (true, some value)
  getPerspective s := List.replicate 32 (if s.isSome then 1 else 0)
  setPerspective s perspective := if perspective = List.replicate 32 0 then (true, none) else (false, s)
  statePerspective _ := List.replicate 32 0
  setStatePerspective _ _ := (true, ())
  storageOfVersion _ := none
  load_saved _ := rfl

def newDomain : IdentityDomain (Option Asn1) Unit where
  mStorageDB := none
  mStoragePerspective := List.replicate 32 0
  mLocalStateDB := ()

def tokenOf (key : UInt8) : CIdentityToken where
  mType := .Basic
  mPublicKey := List.replicate 32 key

/-- A token that is read once it is set is the token that was set. -/
theorem readsStored_setOnce : Machine.EveryStep singleValue.step
    (fun d c => singleValue.ReadsStored (singleValue.step d c).2) newDomain
    [.setIDToken (tokenOf 1) true, .getIDToken] :=
  (readsStored_iff_leavesToken singleValue rfl _).mpr ⟨.inl rfl, .inl rfl, trivial⟩

/-- A token set behind one that was read is never read: its key authenticates nothing. -/
theorem not_readsStored_setTwice : ¬Machine.EveryStep singleValue.step
    (fun d c => singleValue.ReadsStored (singleValue.step d c).2) newDomain
    [.setIDToken (tokenOf 1) true, .getIDToken, .setIDToken (tokenOf 2) true] := by
  rintro ⟨-, -, hreads, -⟩
  have hkey : tokenKey (some (tokenOf 1)) = tokenKey (some (tokenOf 2)) := hreads.key
  cases hkey

end Sample

end IdentityStorage
end Gridnet
