import Gridnet.BalanceChanges
import Gridnet.TransactionProcessing

/-! The transfer totals of a domain. `getDomainTransferTotals` goes over the entries of the statistics from the
last one down and sums them up; `createDomainDescription` takes its two counts in the other order. -/

namespace Gridnet

/-- The flags of an entry of the statistics. -/
structure txStatFlags where
  valueTransfer : Bool := false
  genesisReward : Bool := false
  blockReward : Bool := false
  fraudProcessing : Bool := false
  deriving DecidableEq, Repr

/-- How the fields of an entry are read, by code that is not at hand. -/
structure StatReader where
  BytesToBigSInt : Bytes → BigSInt
  txStatFlags : Bytes → Gridnet.txStatFlags

/-- How the two functions can end early. -/
inductive StatFault where
  | outOfRange
  | invalidArgument (text : String)
  deriving DecidableEq, Repr

/-- The local variables of `getDomainTransferTotals` that it returns. -/
structure TransferTotals where
  totalReceived : BigInt := 0
  totalSent : BigInt := 0
  totalGenesisRewards : BigInt := 0
  totalMiningRewards : BigInt := 0
  txCountOut : UInt64 := 0
  txCountIn : UInt64 := 0
  deriving DecidableEq, Repr

/-- The six components in the order in which they are returned. -/
def TransferTotals.returned (t : TransferTotals) : BigInt × BigInt × UInt64 × UInt64 × BigInt × BigInt :=
  (t.totalReceived, t.totalSent, t.txCountOut, t.txCountIn, t.totalGenesisRewards, t.totalMiningRewards)

section Source

variable (R : StatReader) (findReceipt : Bytes → Option CReceipt)

/-- The body of the loop. -/
def addStats (flags receiptID value : Bytes) (t : TransferTotals) : TransferTotals :=
  let valueAtto := R.BytesToBigSInt value
  let txsf := R.txStatFlags flags
  let isValidTx := (findReceipt receiptID).all fun receipt => receipt.mResult == .valid
  if !isValidTx then t
  else if txsf.genesisReward then
    { t with totalGenesisRewards := t.totalGenesisRewards + valueAtto.toBigInt }
  else if txsf.blockReward then
    { t with totalMiningRewards := t.totalMiningRewards + valueAtto.toBigInt }
  else if 0 < valueAtto.val then
    { t with totalReceived := t.totalReceived + valueAtto.toBigInt, txCountIn := t.txCountIn + 1 }
  else if valueAtto.val < 0 then
    { t with totalSent := t.totalSent + BitVec.ofInt 256 (-valueAtto.val), txCountOut := t.txCountOut + 1 }
  else t

def FIELDS_COUNT : UInt64 := 4

/-- The loop from `i` down, for as many turns as `fuel` allows: `none` while it is still running. -/
def totalsLoop (TXNibbles : List Bytes) : ℕ → UInt64 → TransferTotals → Option (Except StatFault TransferTotals)
  | 0, _, _ => none
  | fuel + 1, i, t =>
      if i = -1 then some (.ok t)
      else
        match TXNibbles[i.toNat]?, TXNibbles[(i - 3).toNat]?, TXNibbles[(i - 2).toNat]? with
        | some value, some flags, some receiptID =>
            totalsLoop TXNibbles fuel (i - FIELDS_COUNT) (addStats R findReceipt flags receiptID value t)
        | _, _, _ => some (.error .outOfRange)

/-- `getDomainTransferTotals`, given the receipts of the blockchain manager, if there is one. -/
def getDomainTransferTotals (bm : Option (Bytes → Option CReceipt)) (l : Ledger) (domainID : Bytes) (fuel : ℕ) :
    Option (Except StatFault (BigInt × BigInt × UInt64 × UInt64 × BigInt × BigInt)) :=
  match bm, l.findByID domainID with
  | some findReceipt, some domain =>
      let TXNibbles := domain.TXNibbles
      if UInt64.ofNat TXNibbles.length % FIELDS_COUNT ≠ 0 then some (.ok ({} : TransferTotals).returned)
      else
        (totalsLoop R findReceipt TXNibbles fuel (UInt64.ofNat TXNibbles.length - 1) {}).map fun totals =>
          totals.map TransferTotals.returned
  | _, _ => some (.ok ({} : TransferTotals).returned)

/-- The part of a `CDomainDesc` that comes from the totals and the domain. -/
structure CDomainDesc where
  mDomain : Bytes
  mTxInCount : UInt64
  mTxOutCount : UInt64
  mBalance : BigInt
  mTxTotalReceived : BigInt
  mTxTotalSent : BigInt
  mGNCTotalMined : BigInt
  mGNCTotalGenesisRewards : BigInt
  mIdentityToken : Option Bytes
  mNonce : UInt64
  deriving DecidableEq, Repr

def CDomainDesc.validateInputs (desc : CDomainDesc) : Except StatFault CDomainDesc :=
  if desc.mDomain = [] ∧ desc.mIdentityToken = none then
    .error (.invalidArgument "Either fully qualified domain address or an Identity Token must be available")
  else .ok desc

/-- `createDomainDescription` of the domain with this ID. -/
def createDomainDescription (bm : Option (Bytes → Option CReceipt)) (l : Ledger) (id : Bytes)
    (domain : StateDomain) (fuel : ℕ) : Option (Except StatFault CDomainDesc) :=
  let address := Ledger.addressOf id
  (getDomainTransferTotals R bm l address fuel).map fun totals => do
    let (totalReceived, totalSent, txCountIn, txCountOut, totalGenesisRewards, totalMinerRewards) ← totals
    CDomainDesc.validateInputs
      { mDomain := address, mTxInCount := txCountIn, mTxOutCount := txCountOut, mBalance := domain.getBalance,
        mTxTotalReceived := totalReceived, mTxTotalSent := totalSent, mGNCTotalMined := totalMinerRewards,
        mGNCTotalGenesisRewards := totalGenesisRewards, mIdentityToken := domain.IDToken,
        mNonce := domain.mNonce }

end Source

/-! ### Entries -/

/-- An entry of the statistics. -/
structure TXRecord where
  flags : Bytes
  receiptID : Bytes
  recipient : Bytes
  value : Bytes
  deriving DecidableEq, Repr

def TXRecord.nibbles (r : TXRecord) : List Bytes := [r.flags, r.receiptID, r.recipient, r.value]

/-- As many entries as the size of a vector can count the fields of. -/
structure TXContainer where
  records : List TXRecord
  size_lt : 4 * records.length < 2 ^ 64

def TXContainer.nibbles (c : TXContainer) : List Bytes := c.records.flatMap TXRecord.nibbles

theorem length_nibbles (records : List TXRecord) :
    (records.flatMap TXRecord.nibbles).length = 4 * records.length := by
  induction records with
  | nil => rfl
  | cons r records ih =>
      rw [List.flatMap_cons, List.length_append, ih]
      simp [TXRecord.nibbles]
      omega

/-- A field of the entry after `front`. -/
theorem getElem?_nibbles (front rest : List TXRecord) (r : TXRecord) {k : ℕ} (hk : k < 4) :
    ((front ++ r :: rest).flatMap TXRecord.nibbles)[4 * front.length + k]? = r.nibbles[k]? := by
  rw [List.flatMap_append, ← length_nibbles front, List.getElem?_append_right (Nat.le_add_right _ _),
    Nat.add_sub_cancel_left, List.flatMap_cons, List.getElem?_append_left]
  simpa [TXRecord.nibbles] using hk

section Totals

variable (R : StatReader) (findReceipt : Bytes → Option CReceipt)

def addRecord (t : TransferTotals) (r : TXRecord) : TransferTotals :=
  addStats R findReceipt r.flags r.receiptID r.value t

theorem index_sub {m k : ℕ} (hk : k ≤ m) (hm : m < 2 ^ 64) :
    UInt64.ofNat m - UInt64.ofNat k = UInt64.ofNat (m - k) := by
  apply UInt64.toNat_inj.mp
  rw [UInt64.toNat_sub, UInt64.toNat_ofNat', UInt64.toNat_ofNat', UInt64.toNat_ofNat']
  omega

theorem index_toNat {m : ℕ} (hm : m < 2 ^ 64) : (UInt64.ofNat m).toNat = m := by
  rw [UInt64.toNat_ofNat', Nat.mod_eq_of_lt hm]

/-- One turn, at the last entry that is not yet visited. -/
theorem totalsLoop_turn (front rest : List TXRecord) (r : TXRecord) (t : TransferTotals) (fuel : ℕ)
    (hsize : 4 * (front.length + 1) < 2 ^ 64) :
    totalsLoop R findReceipt ((front ++ r :: rest).flatMap TXRecord.nibbles) (fuel + 1)
        (UInt64.ofNat (4 * (front.length + 1)) - 1) t =
      totalsLoop R findReceipt ((front ++ r :: rest).flatMap TXRecord.nibbles) fuel
        (UInt64.ofNat (4 * front.length) - 1) (addRecord R findReceipt t r) := by
  have hvalue := getElem?_nibbles front rest r (show 3 < 4 by decide)
  have hflags := getElem?_nibbles front rest r (show 0 < 4 by decide)
  have hreceipt := getElem?_nibbles front rest r (show 1 < 4 by decide)
  have hlast : UInt64.ofNat (4 * (front.length + 1)) - 1 = UInt64.ofNat (4 * front.length + 3) :=
    index_sub (k := 1) (by omega) hsize
  have hnext : UInt64.ofNat (4 * front.length + 3) - FIELDS_COUNT = UInt64.ofNat (4 * front.length) - 1 := by
    apply UInt64.toNat_inj.mp
    rw [UInt64.toNat_sub, UInt64.toNat_sub, index_toNat (by omega), index_toNat (by omega), UInt64.toNat_one,
      show FIELDS_COUNT.toNat = 4 from rfl]
    omega
  have hrunning : UInt64.ofNat (4 * front.length + 3) ≠ -1 := by
    intro hend
    have htoNat := congrArg UInt64.toNat hend
    rw [index_toNat (by omega), show (-1 : UInt64).toNat = 2 ^ 64 - 1 from rfl] at htoNat
    omega
  have hthree : UInt64.ofNat (4 * front.length + 3) - 3 = UInt64.ofNat (4 * front.length) :=
    index_sub (Nat.le_add_left _ _) (by omega)
  have htwo : UInt64.ofNat (4 * front.length + 3) - 2 = UInt64.ofNat (4 * front.length + 1) :=
    index_sub (k := 2) (by omega) (by omega)
  rw [totalsLoop, hlast, if_neg hrunning, hthree, htwo, hnext, index_toNat (by omega), index_toNat (by omega),
    index_toNat (by omega), hvalue, hreceipt]
  simp only [Nat.add_zero] at hflags
  rw [hflags]
  rfl

/-- Every entry is visited once, the last one first, and no field is read that is not there. -/
theorem totalsLoop_eq (front rest : List TXRecord) (t : TransferTotals) {fuel : ℕ}
    (hsize : 4 * front.length < 2 ^ 64) (hfuel : front.length < fuel) :
    totalsLoop R findReceipt ((front ++ rest).flatMap TXRecord.nibbles) fuel
        (UInt64.ofNat (4 * front.length) - 1) t =
      some (.ok (front.reverse.foldl (addRecord R findReceipt) t)) := by
  induction front using List.reverseRecOn generalizing rest t fuel with
  | nil =>
      obtain ⟨fuel, rfl⟩ : ∃ k, fuel = k + 1 := ⟨fuel - 1, by omega⟩
      exact if_pos (by decide)
  | append_singleton front r ih =>
      obtain ⟨fuel, rfl⟩ : ∃ k, fuel = k + 1 := ⟨fuel - 1, by omega⟩
      rw [List.length_append, List.length_singleton] at hsize hfuel ⊢
      rw [List.append_assoc, List.singleton_append, totalsLoop_turn R findReceipt front rest r t fuel hsize,
        ih (r :: rest) _ (by omega) (by omega), List.reverse_append, List.reverse_singleton,
        List.singleton_append, List.foldl_cons]

/-! ### Sums -/

/-- What an entry counts as. -/
inductive TXKind where
  | skipped
  | genesisReward
  | miningReward
  | transfer
  deriving DecidableEq, Repr

/-- Skipped is what has a receipt that is not valid. -/
def TXRecord.kind (r : TXRecord) : TXKind :=
  if (findReceipt r.receiptID).any fun receipt => receipt.mResult != .valid then .skipped
  else if (R.txStatFlags r.flags).genesisReward then .genesisReward
  else if (R.txStatFlags r.flags).blockReward then .miningReward
  else .transfer

def TXRecord.amount (r : TXRecord) : ℤ := (R.BytesToBigSInt r.value).val

def ofKind (kind : TXKind) (records : List TXRecord) : List TXRecord :=
  records.filter fun r => decide (r.kind R findReceipt = kind)

def incoming (records : List TXRecord) : List TXRecord :=
  (ofKind R findReceipt .transfer records).filter fun r => decide (0 < r.amount R)

def outgoing (records : List TXRecord) : List TXRecord :=
  (ofKind R findReceipt .transfer records).filter fun r => decide (r.amount R < 0)

/-- A sum of amounts, as a `BigInt` holds it. -/
def sumOf (amount : TXRecord → ℤ) (records : List TXRecord) : BigInt := BitVec.ofInt 256 (records.map amount).sum

/-- What the totals are of these entries, in the arithmetic of their types. -/
structure Totalled (records : List TXRecord) (t : TransferTotals) : Prop where
  transfers : t.totalReceived - t.totalSent = sumOf (·.amount R) (ofKind R findReceipt .transfer records)
  received : t.totalReceived = sumOf (·.amount R) (incoming R findReceipt records)
  sent : t.totalSent = sumOf (-·.amount R) (outgoing R findReceipt records)
  genesis : t.totalGenesisRewards = sumOf (·.amount R) (ofKind R findReceipt .genesisReward records)
  mining : t.totalMiningRewards = sumOf (·.amount R) (ofKind R findReceipt .miningReward records)
  countIn : t.txCountIn = UInt64.ofNat (incoming R findReceipt records).length
  countOut : t.txCountOut = UInt64.ofNat (outgoing R findReceipt records).length

variable {R findReceipt}

@[simp] theorem sumOf_cons (amount : TXRecord → ℤ) (r : TXRecord) (records : List TXRecord) :
    sumOf amount (r :: records) = sumOf amount records + BitVec.ofInt 256 (amount r) := by
  rw [sumOf, List.map_cons, List.sum_cons, BitVec.ofInt_add, BitVec.add_comm]
  rfl

@[simp] theorem ofKind_cons (kind : TXKind) (r : TXRecord) (records : List TXRecord) :
    ofKind R findReceipt kind (r :: records) =
      if r.kind R findReceipt = kind then r :: ofKind R findReceipt kind records
      else ofKind R findReceipt kind records := by
  simp [ofKind, List.filter_cons]

/-- What a turn of the loop adds, by what the entry counts as. -/
theorem addRecord_eq (t : TransferTotals) (r : TXRecord) :
    addRecord R findReceipt t r =
      match r.kind R findReceipt with
      | .skipped => t
      | .genesisReward =>
          { t with totalGenesisRewards := t.totalGenesisRewards + BitVec.ofInt 256 (r.amount R) }
      | .miningReward => { t with totalMiningRewards := t.totalMiningRewards + BitVec.ofInt 256 (r.amount R) }
      | .transfer =>
          if 0 < r.amount R then
            { t with
              totalReceived := t.totalReceived + BitVec.ofInt 256 (r.amount R), txCountIn := t.txCountIn + 1 }
          else if r.amount R < 0 then
            { t with totalSent := t.totalSent + BitVec.ofInt 256 (-r.amount R), txCountOut := t.txCountOut + 1 }
          else t := by
  have hvalid : (!(findReceipt r.receiptID).all fun receipt => receipt.mResult == .valid) =
      (findReceipt r.receiptID).any fun receipt => receipt.mResult != .valid := by
    cases findReceipt r.receiptID <;> rfl
  unfold addRecord addStats TXRecord.kind TXRecord.amount BigSInt.toBigInt
  simp only [hvalid]
  split_ifs <;> rfl

theorem totalled_nil : Totalled R findReceipt [] {} := ⟨rfl, rfl, rfl, rfl, rfl, rfl, rfl⟩

/-- One entry more. -/
theorem Totalled.add {records : List TXRecord} {t : TransferTotals} (ht : Totalled R findReceipt records t)
    (r : TXRecord) : Totalled R findReceipt (r :: records) (addRecord R findReceipt t r) := by
  obtain ⟨htransfers, hreceived, hsent, hgenesis, hmining, hin, hout⟩ := ht
  rw [addRecord_eq]
  cases hkind : r.kind R findReceipt with
  | skipped => constructor <;> simpa [incoming, outgoing, hkind]
  | genesisReward => constructor <;> simpa [incoming, outgoing, hkind]
  | miningReward => constructor <;> simpa [incoming, outgoing, hkind]
  | transfer =>
      rcases lt_trichotomy (r.amount R) 0 with hneg | hzero | hpos
      · simp only [if_neg hneg.not_gt, if_pos hneg]
        exact
          { transfers := by
              rw [ofKind_cons, if_pos hkind, sumOf_cons, ← htransfers, BitVec.ofInt_neg]
              ring
            received := by simpa [incoming, hkind, hneg.not_gt] using hreceived
            sent := by simp [outgoing, hkind, hneg, hsent]
            genesis := by simpa [hkind] using hgenesis
            mining := by simpa [hkind] using hmining
            countIn := by simpa [incoming, hkind, hneg.not_gt] using hin
            countOut := by simp [outgoing, hkind, hneg, hout] }
      · simp only [hzero, lt_irrefl, if_false]
        constructor <;> simpa [incoming, outgoing, hkind, hzero]
      · simp only [if_pos hpos]
        exact
          { transfers := by
              rw [ofKind_cons, if_pos hkind, sumOf_cons, ← htransfers]
              ring
            received := by simp [incoming, hkind, hpos, hreceived]
            sent := by simpa [outgoing, hkind, hpos.not_gt] using hsent
            genesis := by simpa [hkind] using hgenesis
            mining := by simpa [hkind] using hmining
            countIn := by simp [incoming, hkind, hpos, hin]
            countOut := by simpa [outgoing, hkind, hpos.not_gt] using hout }

theorem totalled_foldl (records : List TXRecord) :
    Totalled R findReceipt records (records.reverse.foldl (addRecord R findReceipt) {}) := by
  rw [List.foldl_reverse]
  induction records with
  | nil => exact totalled_nil
  | cons r records ih => exact ih.add r

/-- The whole function, on a domain with these entries. -/
theorem getDomainTransferTotals_eq {l : Ledger} {domainID : Bytes} {domain : StateDomain} {c : TXContainer}
    (hdomain : l.findByID domainID = some domain) (hstats : domain.TXNibbles = c.nibbles) {fuel : ℕ}
    (hfuel : c.records.length < fuel) :
    getDomainTransferTotals R (some findReceipt) l domainID fuel =
      some (.ok (c.records.reverse.foldl (addRecord R findReceipt) {}).returned) := by
  have hlength : domain.TXNibbles.length = 4 * c.records.length := hstats ▸ length_nibbles c.records
  have hwhole : UInt64.ofNat domain.TXNibbles.length % FIELDS_COUNT = 0 := by
    apply UInt64.toNat_inj.mp
    rw [UInt64.toNat_mod, hlength, index_toNat c.size_lt, show FIELDS_COUNT.toNat = 4 from rfl]
    exact Nat.mul_mod_right 4 _
  have hloop := totalsLoop_eq R findReceipt c.records [] {} c.size_lt hfuel
  rw [List.append_nil] at hloop
  unfold getDomainTransferTotals
  simp only [hdomain]
  rw [if_neg (not_not.mpr hwhole), hlength, hstats, TXContainer.nibbles, hloop]
  rfl

end Totals

/-! ### Descriptions -/

section Descriptions

variable (R : StatReader) (findReceipt : Bytes → Option CReceipt)

/-- The totals are those of the entries, and the description has the number of incoming entries as incoming and
that of outgoing ones as outgoing. -/
structure ProperlyReported (l : Ledger) (id : Bytes) (domain : StateDomain) (records : List TXRecord) : Prop where
  totals : ∃ t, Totalled R findReceipt records t ∧ ∀ fuel > records.length,
    getDomainTransferTotals R (some findReceipt) l (Ledger.addressOf id) fuel = some (.ok t.returned)
  counts : ∃ desc, (∀ fuel > records.length,
      createDomainDescription R (some findReceipt) l id domain fuel = some (.ok desc)) ∧
    desc.mTxInCount.toNat = (incoming R findReceipt records).length ∧
    desc.mTxOutCount.toNat = (outgoing R findReceipt records).length

variable {R findReceipt}

/-- The description that comes from these totals: it takes the counts in the other order. -/
def described (id : Bytes) (domain : StateDomain) (t : TransferTotals) : CDomainDesc where
  mDomain := Ledger.addressOf id
  mTxInCount := t.txCountOut
  mTxOutCount := t.txCountIn
  mBalance := domain.getBalance
  mTxTotalReceived := t.totalReceived
  mTxTotalSent := t.totalSent
  mGNCTotalMined := t.totalMiningRewards
  mGNCTotalGenesisRewards := t.totalGenesisRewards
  mIdentityToken := domain.IDToken
  mNonce := domain.mNonce

theorem createDomainDescription_eq {l : Ledger} {id : Bytes} (domain : StateDomain) {fuel : ℕ} {t : TransferTotals}
    (htotals : getDomainTransferTotals R (some findReceipt) l (Ledger.addressOf id) fuel = some (.ok t.returned)) :
    createDomainDescription R (some findReceipt) l id domain fuel = some (.ok (described id domain t)) := by
  have hvalid : (described id domain t).validateInputs = .ok (described id domain t) :=
    if_neg fun hempty => Ledger.addressOf_ne_nil id hempty.1
  unfold createDomainDescription
  dsimp only
  rw [htotals]
  exact congrArg some hvalid

theorem length_incoming_lt (c : TXContainer) : (incoming R findReceipt c.records).length < 2 ^ 64 := by
  have hsize := c.size_lt
  have hle : (incoming R findReceipt c.records).length ≤ c.records.length :=
    (List.length_filter_le ..).trans (List.length_filter_le ..)
  omega

theorem length_outgoing_lt (c : TXContainer) : (outgoing R findReceipt c.records).length < 2 ^ 64 := by
  have hsize := c.size_lt
  have hle : (outgoing R findReceipt c.records).length ≤ c.records.length :=
    (List.length_filter_le ..).trans (List.length_filter_le ..)
  omega

end Descriptions

theorem properlyReported_iff (R : StatReader) (findReceipt : Bytes → Option CReceipt) (l : Ledger) (id : Bytes)
    (domain : StateDomain) (c : TXContainer) :
    ProperlyReported R findReceipt (l.save id { domain with TXNibbles := c.nibbles }) id
        { domain with TXNibbles := c.nibbles } c.records ↔
      (incoming R findReceipt c.records).length = (outgoing R findReceipt c.records).length := by
  have htotalled := @totalled_foldl R findReceipt c.records
  generalize ht : c.records.reverse.foldl (addRecord R findReceipt) {} = t at htotalled
  have htotals : ∀ fuel > c.records.length, getDomainTransferTotals R (some findReceipt)
      (l.save id { domain with TXNibbles := c.nibbles }) (Ledger.addressOf id) fuel = some (.ok t.returned) := by
    intro fuel hfuel
    rw [← ht]
    exact getDomainTransferTotals_eq ((Ledger.findByID_addressOf _ id).trans (Ledger.findByID_save l id _)) rfl hfuel
  have hdescribed := fun fuel hfuel =>
    createDomainDescription_eq { domain with TXNibbles := c.nibbles } (htotals fuel hfuel)
  have hin : t.txCountIn.toNat = (incoming R findReceipt c.records).length := by
    rw [htotalled.countIn, index_toNat (length_incoming_lt c)]
  have hout : t.txCountOut.toNat = (outgoing R findReceipt c.records).length := by
    rw [htotalled.countOut, index_toNat (length_outgoing_lt c)]
  constructor
  · rintro ⟨-, desc, hdesc, hreported, -⟩
    have hsame := (hdesc _ (Nat.lt_succ_self _)).symm.trans (hdescribed _ (Nat.lt_succ_self _))
    rw [Option.some.injEq, Except.ok.injEq] at hsame
    rw [← hreported, hsame, ← hout]
    rfl
  · intro hsame
    exact ⟨⟨t, htotalled, htotals⟩, _, hdescribed, hout.trans hsame.symm, hin.trans hsame⟩

/-- Values as signed bytes, and one transfer that was received. -/
def oneReceived : StatReader × TXContainer :=
  ({ BytesToBigSInt := fun bytes => ⟨if bytes = [5] then 5 else 0, by split_ifs <;> decide⟩
     txStatFlags := fun bytes => { valueTransfer := bytes = [1] } },
    { records := [{ flags := [1], receiptID := [9], recipient := [8], value := [5] }]
      size_lt := by decide })

/-- It is reported as sent. -/
theorem received_reported_as_sent :
    ¬ ProperlyReported oneReceived.1 (fun _ => none)
      (Ledger.save (fun _ => none) [1] { TXNibbles := oneReceived.2.nibbles }) [1]
      { TXNibbles := oneReceived.2.nibbles } oneReceived.2.records := by
  rintro ⟨-, desc, hdesc, hreported, -⟩
  have htotals : getDomainTransferTotals oneReceived.1 (some fun _ => none)
      (Ledger.save (fun _ => none) [1] { TXNibbles := oneReceived.2.nibbles }) (Ledger.addressOf [1]) 2 =
        some (.ok (oneReceived.2.records.reverse.foldl (addRecord oneReceived.1 fun _ => none) {}).returned) :=
    getDomainTransferTotals_eq ((Ledger.findByID_addressOf _ [1]).trans (Ledger.findByID_save _ [1] _)) rfl
      (by decide)
  have hsame := (hdesc 2 (by decide)).symm.trans
    (createDomainDescription_eq { TXNibbles := oneReceived.2.nibbles } htotals)
  rw [Option.some.injEq, Except.ok.injEq] at hsame
  rw [hsame] at hreported
  revert hreported
  decide

end Gridnet
