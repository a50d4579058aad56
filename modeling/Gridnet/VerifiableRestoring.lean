import Gridnet.VerifiableSealing

/-! Which verifiables `genNode` restores from what `prepare` packs, and what becomes of a verifiable that is signed,
verified and stored. -/

namespace Gridnet

open Ber ASN1_Tag

variable {S : SealingTools}

namespace VerifiableNode

/-! ### Affected domains -/

/-- A change whose domain keeps its address when it is added. -/
def Addable (S : SealingTools) (change : BalanceChange) : Prop :=
  S.isDomainIDValid change.address = true ∧ change.address.length = 34

theorem expandAddress_length (address : Bytes) : 34 ≤ (expandAddress address).length := by
  unfold expandAddress
  split_ifs
  · rw [List.length_append, List.length_replicate]
    omega
  · omega

theorem addBalanceChange_of_addable {change : BalanceChange} (haddable : Addable S change)
    (changes : List BalanceChange) : addBalanceChange S changes change = some (changes ++ [change]) := by
  have hsame : expandAddress change.address = change.address := if_neg (by rw [haddable.2]; decide)
  rw [addBalanceChange, if_neg (by simp [haddable.1])]
  simp only [hsame, haddable.2, true_or, if_true]

/-- One turn adds no change, or one, with its address expanded. -/
theorem addBalanceChange_cases {changes changes' : List BalanceChange} {change : BalanceChange}
    (hadd : addBalanceChange S changes change = some changes') :
    changes' = changes ∨ S.isDomainIDValid change.address = true ∧ (expandAddress change.address).length = 34 ∧
      changes' = changes ++ [{ change with address := expandAddress change.address }] := by
  unfold addBalanceChange at hadd
  split_ifs at hadd with hinvalid
  · exact .inl (Option.some.inj hadd).symm
  · dsimp only at hadd
    split_ifs at hadd with hlength
    have hmin := expandAddress_length change.address
    exact .inr ⟨Bool.of_not_eq_false hinvalid, by omega, (Option.some.inj hadd).symm⟩

/-- What was added stays in front, and there is no more than was handed over. -/
theorem foldlM_addBalanceChange {changes acc result : List BalanceChange}
    (hfold : changes.foldlM (addBalanceChange S) acc = some result) :
    acc <+: result ∧ result.length ≤ acc.length + changes.length := by
  induction changes generalizing acc with
  | nil =>
      cases hfold
      exact ⟨List.prefix_rfl, le_rfl⟩
  | cons change changes ih =>
      rw [List.foldlM_cons] at hfold
      obtain ⟨next, hadd, hrest⟩ := Option.bind_eq_some_iff.mp hfold
      obtain ⟨hfront, hlength⟩ := ih hrest
      rw [List.length_cons]
      rcases addBalanceChange_cases hadd with rfl | ⟨-, -, rfl⟩
      · exact ⟨hfront, by omega⟩
      · rw [List.length_append, List.length_singleton] at hlength
        exact ⟨(List.prefix_append _ _).trans hfront, by omega⟩

/-- All the changes are added as they are exactly if each of them can be. -/
theorem foldlM_addBalanceChange_iff {changes acc : List BalanceChange} :
    changes.foldlM (addBalanceChange S) acc = some (acc ++ changes) ↔ ∀ change ∈ changes, Addable S change := by
  induction changes generalizing acc with
  | nil => simp
  | cons change changes ih =>
      rw [List.foldlM_cons, List.forall_mem_cons]
      constructor
      · intro hfold
        obtain ⟨next, hadd, hrest⟩ := Option.bind_eq_some_iff.mp hfold
        obtain ⟨hfront, hlength⟩ := foldlM_addBalanceChange hrest
        rcases addBalanceChange_cases hadd with rfl | ⟨hvalid, hexpanded, rfl⟩
        · rw [List.length_append, List.length_cons] at hlength
          omega
        · rw [List.prefix_append_right_inj, List.cons_prefix_cons] at hfront
          have haddress : expandAddress change.address = change.address := congrArg BalanceChange.address hfront.1
          rw [haddress] at hexpanded hrest
          refine ⟨⟨hvalid, hexpanded⟩, ih.mp (hrest.trans ?_)⟩
          rw [List.append_assoc, List.singleton_append]
      · rintro ⟨haddable, hothers⟩
        rw [addBalanceChange_of_addable haddable, Option.bind_eq_bind, Option.bind_some, ih.mpr hothers,
          List.append_assoc, List.singleton_append]

/-- Octets are no longer than what they are part of. -/
theorem length_lt_of_encodeOctets_append {contents contents' : Bytes} {n : ℕ}
    (hlen : (encodeOctets contents ++ encodeOctets contents').length < n) :
    contents.length < n ∧ contents'.length < n := by
  have hfirst : contents.length ≤ (encodeOctets contents).length := length_le_addObject OCTET_STRING UNIVERSAL contents
  have hsecond : contents'.length ≤ (encodeOctets contents').length :=
    length_le_addObject OCTET_STRING UNIVERSAL contents'
  rw [List.length_append] at hlen
  constructor <;> omega

theorem packedChange_ne_nil (change : BalanceChange) : packedChange S change ≠ [] := by
  intro hnil
  have hlength := congrArg List.length hnil
  simp only [packedChange, cons, addObject, List.length_append, length_encodeTag shortTag_sequence,
    List.length_nil] at hlength
  omega

/-- The domains are read one after the other. -/
theorem readDomains_packed (hS : S.Documented) {changes : List BalanceChange}
    (hrange : ∀ change ∈ changes, change.pendingPreTaxBalanceChange.natAbs < 2 ^ 256)
    (hlen : (changes.flatMap (packedChange S)).length < 2 ^ 32) {turns : ℕ} (hturns : changes.length < turns)
    (acc : List BalanceChange) :
    readDomains S turns acc (changes.flatMap (packedChange S)) = changes.foldlM (addBalanceChange S) acc := by
  induction changes generalizing turns acc with
  | nil =>
      cases turns with
      | zero => rfl
      | succ turns => rfl
  | cons change changes ih =>
      obtain ⟨hhead, hrest⟩ := List.forall_mem_cons.mp hrange
      rw [List.flatMap_cons, List.length_append] at hlen
      cases turns with
      | zero => exact absurd hturns (Nat.not_lt_zero _)
      | succ turns =>
          have hbody : (encodeOctets change.address ++
              encodeOctets (S.BigSIntToBytes change.pendingPreTaxBalanceChange)).length < 2 ^ 32 :=
            (length_le_addObject SEQUENCE (UNIVERSAL ||| CONSTRUCTED) _).trans_lt
              (show (packedChange S change).length < 2 ^ 32 by omega)
          have hnext := shortTag_sequence.getNextObject_addObject hbody (changes.flatMap (packedChange S))
          obtain ⟨haddress, hvalue⟩ := length_lt_of_encodeOctets_append hbody
          have hsecond := decodeOctets_encodeOctets hvalue []
          rw [List.append_nil] at hsecond
          rw [List.flatMap_cons, readDomains,
            if_neg fun hnil => packedChange_ne_nil change (List.append_eq_nil_iff.mp hnil).1, List.foldlM_cons]
          show (getNextObject (addObject _ _ _ ++ _) >>= _) = _
          rw [hnext]
          simp only [Option.bind_eq_bind, Option.bind_some, ne_eq, not_true_eq_false, if_false,
            decodeOctets_encodeOctets haddress, hsecond, hS.bigSInt_round _ hhead]
          refine Option.bind_congr fun next _ => ?_
          exact ih hrest (by omega) (by rw [List.length_cons] at hturns; omega) next

/-! ### The other fields -/

/-- What is read where the affected domains are read as these. -/
def readAs (v : CVerifiable) (mAffectedDomains : List BalanceChange) : ReadVerifiable where
  mGUID := v.mGUID
  mErgLimit := v.mErgLimit
  mErgPrice := v.mErgPrice.toNat
  mVerifiableType := v.mVerifiableType.number
  mProof := v.mProof
  mPubKey := v.mPubKey
  mSignature := v.mSignature
  mAffectedDomains := mAffectedDomains

variable {v : CVerifiable}

/-- Every domain has a byte at least. -/
theorem length_le_packedChanges (changes : List BalanceChange) :
    changes.length ≤ (changes.flatMap (packedChange S)).length := by
  induction changes with
  | nil => exact le_rfl
  | cons change changes ih =>
      have hpos := List.length_pos_iff.mpr (packedChange_ne_nil (S := S) change)
      rw [List.flatMap_cons, List.length_append, List.length_cons]
      omega

/-- Every field is no longer than what it is part of. -/
theorem length_fields_lt (hlen : (v.packedBody S true).length < 2 ^ 32) :
    (v.mGUID.length < 2 ^ 32 ∧ (S.BigIntToBytes v.mErgLimit).length < 2 ^ 32) ∧
      (v.mProof.length < 2 ^ 32 ∧ v.mPubKey.length < 2 ^ 32) ∧
      v.mSignature.length < 2 ^ 32 ∧ (v.mAffectedDomains.flatMap (packedChange S)).length < 2 ^ 32 := by
  have hdomains : (v.mAffectedDomains.flatMap (packedChange S)).length ≤
      (cons SEQUENCE UNIVERSAL (v.mAffectedDomains.flatMap (packedChange S))).length := length_le_addObject _ _ _
  have hoctets : ∀ contents : Bytes, contents.length ≤ (encodeOctets contents).length :=
    fun contents => length_le_addObject OCTET_STRING UNIVERSAL contents
  have hGUID := hoctets v.mGUID
  have hlimit := hoctets (S.BigIntToBytes v.mErgLimit)
  have hproof := hoctets v.mProof
  have hkey := hoctets v.mPubKey
  have hsignature := hoctets v.mSignature
  simp only [CVerifiable.packedBody, List.length_append, if_true] at hlen
  refine ⟨⟨?_, ?_⟩, ⟨?_, ?_⟩, ?_, ?_⟩ <;> omega

theorem readFields_packedBody (hS : S.Documented)
    (hrange : ∀ change ∈ v.mAffectedDomains, change.pendingPreTaxBalanceChange.natAbs < 2 ^ 256)
    (hlen : (v.packedBody S true).length < 2 ^ 32) :
    readFields S (v.packedBody S true) =
      if v.mErgPrice.toNat < 2 ^ 32 then (v.mAffectedDomains.foldlM (addBalanceChange S) []).map (readAs v)
      else none := by
  obtain ⟨⟨hGUID, hlimit⟩, ⟨hproof, hkey⟩, hsignature, hdomains⟩ := length_fields_lt hlen
  have hobject : ∀ rest, getNextObject (encodeOctets v.mSignature ++ rest) =
      some (⟨OCTET_STRING, UNIVERSAL, v.mSignature⟩, rest) := shortTag_octets.getNextObject_addObject hsignature
  have hlast : getNextObject (cons SEQUENCE UNIVERSAL (v.mAffectedDomains.flatMap (packedChange S))) =
      some (⟨SEQUENCE, UNIVERSAL ||| CONSTRUCTED, v.mAffectedDomains.flatMap (packedChange S)⟩, []) :=
    shortTag_sequence.getNextObject_addObject_last hdomains
  have hread := readDomains_packed hS hrange hdomains
    (Nat.lt_succ_of_le (length_le_packedChanges (S := S) v.mAffectedDomains)) []
  simp only [readFields, CVerifiable.packedBody, decodeOctets_encodeOctets hGUID, decodeOctets_encodeOctets hlimit,
    hS.bigInt_round, Option.bind_eq_bind, Option.bind_some, decodeSmall_encodeSmall_eq v.mErgPrice.toNat_lt]
  split_ifs with hprice
  · simp only [Option.bind_some, decodeSmall_encodeSmall v.mVerifiableType.number_lt,
      decodeOctets_encodeOctets hproof, decodeOctets_encodeOctets hkey, hobject, hlast, hread, ne_eq,
      not_true_eq_false, if_false, if_true]
    cases v.mAffectedDomains.foldlM (addBalanceChange S) [] <;> rfl
  · rfl

/-! ### The node -/

theorem toNat_mVersion_eq_one_iff : v.mVersion.toNat = 1 ↔ v.mVersion = 1 :=
  UInt64.toNat_inj (b := 1)

theorem readVerifiable_packed (hlen : (numbered 4 v.mVersion.toNat (v.packedBody S true)).length < 2 ^ 32) :
    readVerifiable S (v.packedRawData S true) =
      if v.mVersion.toNat < 2 ^ 32 then
        if v.mVersion.toNat = 1 then
          (readFields S (v.packedBody S true)).map fun fields => (v.mVersion.toNat, some fields)
        else some (v.mVersion.toNat, none)
      else none := by
  have hcontents := (length_le_numbered 4 v.mVersion.toNat (v.packedBody S true)).trans_lt hlen
  have hobject : getNextObject (cons SEQUENCE UNIVERSAL (v.packedBody S true)) =
      some (⟨SEQUENCE, UNIVERSAL ||| CONSTRUCTED, v.packedBody S true⟩, []) :=
    shortTag_sequence.getNextObject_addObject_last hcontents
  rw [readVerifiable, CVerifiable.packedRawData, enterCons_nodeData hlen]
  simp only [Option.bind_eq_bind, Option.bind_some, numbered, decodeSmall_encodeSmall (by decide : 4 < 2 ^ 32),
    decodeSmall_encodeSmall_eq v.mVersion.toNat_lt, ne_eq, not_true_eq_false, if_false]
  by_cases hversion : v.mVersion.toNat < 2 ^ 32
  case pos =>
    simp only [hversion, if_true, Option.bind_some, hobject, not_true_eq_false, if_false]
    split_ifs with hone
    · cases readFields S (v.packedBody S true) <;> rfl
    · rfl
  case neg => simp only [hversion, if_false, Option.bind_none]

/-- What is too long is not read. -/
theorem length_of_readVerifiable {read : ℕ × Option ReadVerifiable}
    (hsize : (v.packedRawData S true).length < 2 ^ 64)
    (hread : readVerifiable S (v.packedRawData S true) = some read) :
    (numbered 4 v.mVersion.toNat (v.packedBody S true)).length < 2 ^ 32 := by
  rw [readVerifiable] at hread
  obtain ⟨entered, henter, -⟩ := Option.bind_eq_some_iff.mp hread
  exact length_of_enterCons_nodeData hsize henter

/-- `genNode` restores what `prepare` packed, with the same hash, whatever ID is drawn meanwhile. -/
def RoundTrips (S : SealingTools) (v : VerifiableNode) : Prop :=
  ∀ random, ∃ restored, genNode S random (v.prepare S true).mMainRAWData = .ok restored ∧
    restored.toCVerifiable = v.toCVerifiable ∧
      ∀ nodeHash : NodeHash S, nodeHash.getHash restored = nodeHash.getHash (v.prepare S true)

/-- Version 1, a price of 32 bits, affected domains that can be added as they are, and no more than can be read. -/
structure Restorable (S : SealingTools) (v : CVerifiable) : Prop where
  version : v.mVersion = 1
  price : v.mErgPrice.toNat < 2 ^ 32
  domains : ∀ change ∈ v.mAffectedDomains, Addable S change
  length : (numbered 4 1 (v.packedBody S true)).length < 2 ^ 32

variable {w : VerifiableNode}

theorem roundTrips_of_restorable (hS : S.Documented)
    (hrange : ∀ change ∈ w.mAffectedDomains, change.pendingPreTaxBalanceChange.natAbs < 2 ^ 256)
    (hrestorable : Restorable S w.toCVerifiable) : w.RoundTrips S := by
  intro random
  have hone := toNat_mVersion_eq_one_iff.mpr hrestorable.version
  have hlen : (numbered 4 w.mVersion.toNat (w.toCVerifiable.packedBody S true)).length < 2 ^ 32 := by
    rw [hone]
    exact hrestorable.length
  have hfields := readFields_packedBody hS hrange ((length_le_numbered 4 1 _).trans_lt hrestorable.length)
  have hdomains : w.mAffectedDomains.foldlM (addBalanceChange S) [] = some ([] ++ w.mAffectedDomains) :=
    foldlM_addBalanceChange_iff.mpr hrestorable.domains
  rw [if_pos hrestorable.price, hdomains, List.nil_append, Option.map_some] at hfields
  have hread := readVerifiable_packed hlen
  rw [hone, if_pos (by decide), if_pos rfl, hfields, Option.map_some] at hread
  have hnode : genNode S random (w.prepare S true).mMainRAWData =
      .ok { w with mMainRAWData := w.toCVerifiable.packedRawData S true, mIsPrepared := false } := by
    show genNode S random (w.toCVerifiable.packedRawData S true) = _
    simp only [genNode, hread, readAs, eVerifiableType.ofNumber_number, UInt64.ofNat_toNat]
    rw [← hone, UInt64.ofNat_toNat]
  refine ⟨_, hnode, rfl, fun nodeHash => ?_⟩
  rw [nodeHash.unprepared _ rfl, nodeHash.prepared _ rfl]
  rfl

theorem restorable_of_roundTrips (hS : S.Documented)
    (hrange : ∀ change ∈ w.mAffectedDomains, change.pendingPreTaxBalanceChange.natAbs < 2 ^ 256)
    (hsize : (w.toCVerifiable.packedRawData S true).length < 2 ^ 64) (htrips : w.RoundTrips S) :
    Restorable S w.toCVerifiable := by
  have hnode : ∀ random, ∃ restored, genNode S random (w.toCVerifiable.packedRawData S true) = .ok restored ∧
      restored.toCVerifiable = w.toCVerifiable := fun random => by
    obtain ⟨restored, hok, hsame, -⟩ := htrips random
    exact ⟨restored, hok, hsame⟩
  cases hread : readVerifiable S (w.toCVerifiable.packedRawData S true) with
  | none =>
      obtain ⟨restored, hok, -⟩ := hnode []
      rw [genNode, hread] at hok
      cases hok
  | some read =>
      have hlen := length_of_readVerifiable hsize hread
      have hpacked := readVerifiable_packed hlen
      split_ifs at hpacked with hversion hone
      · rw [hone] at hlen
        have hbody := (length_le_numbered 4 1 _).trans_lt hlen
        rw [hread, readFields_packedBody hS hrange hbody] at hpacked
        split_ifs at hpacked with hprice
        · cases hdomains : w.mAffectedDomains.foldlM (addBalanceChange S) [] with
          | none =>
              rw [hdomains] at hpacked
              cases hpacked
          | some domains =>
              rw [hdomains, Option.map_some, Option.map_some] at hpacked
              obtain ⟨restored, hok, hsame⟩ := hnode []
              rw [hpacked] at hread
              simp only [genNode, hread, readAs, eVerifiableType.ofNumber_number] at hok
              have hrestored : domains = w.mAffectedDomains := congrArg CVerifiable.mAffectedDomains
                ((congrArg VerifiableNode.toCVerifiable (Except.ok.inj hok)).trans hsame)
              replace hdomains : w.mAffectedDomains.foldlM (addBalanceChange S) [] = some ([] ++ w.mAffectedDomains) :=
                hdomains.trans (congrArg some hrestored)
              exact ⟨toNat_mVersion_eq_one_iff.mp hone, hprice, foldlM_addBalanceChange_iff.mp hdomains, hlen⟩
        · cases hpacked
      · -- of another version the node is new, with the ID that its constructor drew
        have hdrawn : ∀ random, w.mGUID = random := fun random => by
          obtain ⟨restored, hok, hsame⟩ := hnode random
          rw [genNode, hpacked] at hok
          rw [← hsame, ← Except.ok.inj hok]
        cases (hdrawn []).symm.trans (hdrawn [0])
      · rw [hread] at hpacked
        cases hpacked

theorem roundTrips_iff_restorable (hS : S.Documented)
    (hrange : ∀ change ∈ w.mAffectedDomains, change.pendingPreTaxBalanceChange.natAbs < 2 ^ 256)
    (hsize : (w.toCVerifiable.packedRawData S true).length < 2 ^ 64) :
    w.RoundTrips S ↔ Restorable S w.toCVerifiable := by
  constructor
  · exact restorable_of_roundTrips hS hrange hsize
  · exact roundTrips_of_restorable hS hrange

/-- A verifiable that was signed is verified, whatever key is handed over. Verifying leaves its packed data and its hash
as they were exactly if it is quiet, and exactly the restorable ones are restored from storage. -/
theorem verifiable_unchanged_iff (S : SealingTools) (hS : S.Documented) :
    (∀ (v : VerifiableNode) (privKey publicKey : Bytes), privKey.length = 32 →
      ∃ signed, v.sign S privKey = some signed ∧ (signed.verifySignature S publicKey).1 = true) ∧
    (∀ (v : VerifiableNode) (publicKey : Bytes), v.Undisturbed S publicKey ↔ v.Quiet S publicKey) ∧
    ∀ v : VerifiableNode, (∀ change ∈ v.mAffectedDomains, change.pendingPreTaxBalanceChange.natAbs < 2 ^ 256) →
      (v.toCVerifiable.packedRawData S true).length < 2 ^ 64 →
        (v.RoundTrips S ↔ Restorable S v.toCVerifiable) := by
  refine ⟨fun v privKey publicKey hkey => ?_, fun v publicKey => ?_, fun v hrange hsize => ?_⟩
  · exact verifySignature_sign hS v publicKey hkey
  · exact undisturbed_iff_quiet
  · exact roundTrips_iff_restorable hS hrange hsize

/-! ### A verifiable that verifying changes, and one that is not restored -/

/-- Tools whose conversions are those of the node, with a signature that shows what was signed, and for whom. -/
def plainTools : SealingTools where
  BigIntToBytes n := BigIntToBytes n.toNat
  BytesToBigInt b := some (.ofNat 256 (BytesToBigInt b))
  BigSIntToBytes n := (if n < 0 then 1 else 0) :: BigIntToBytes n.natAbs
  BytesToBigSInt b := b.head?.map fun sign =>
    if sign = 0 then (BytesToBigInt b.tail : ℤ) else -(BytesToBigInt b.tail : ℤ)
  isDomainIDValid address := address.length = 34
  BERVector := id
  getSHA2_256Vec b := (b ++ List.replicate 32 0).take 32
  getPubFromPriv := id
  signData data key := 1 :: (key ++ data)
  verifySignature signature data key := signature = 1 :: (key ++ data)

theorem plainTools_documented : plainTools.Documented where
  bigInt_round n := by
    show some (BitVec.ofNat 256 (Gridnet.BytesToBigInt (Gridnet.BigIntToBytes n.toNat))) = some n
    rw [BytesToBigInt_BigIntToBytes, BitVec.ofNat_toNat, BitVec.setWidth_eq]
  bigSInt_round n _ := by
    simp only [plainTools, List.head?_cons, List.tail_cons, Option.map_some, BytesToBigInt_BigIntToBytes]
    by_cases hnegative : n < 0
    · have habs : (n.natAbs : ℤ) = -n := by omega
      simp [hnegative, habs]
    · have habs : (n.natAbs : ℤ) = n := by omega
      simp [hnegative, habs]
  getPubFromPriv_length _ hlength := hlength
  signData_ne_nil _ _ := List.cons_ne_nil _ _
  verifySignature_signData _ _ _ := decide_eq_true rfl

/-- A proof of fraud that rewards one domain, at this price. -/
def fraudReport (mErgPrice : UInt64) : VerifiableNode where
  mGUID := List.replicate 32 4
  mErgLimit := 500
  mErgPrice := mErgPrice
  mVerifiableType := .proofOfFraud
  mProof := [1, 2, 3]
  mAffectedDomains := [⟨List.replicate 34 6, 70⟩]

/-- The report when it is signed with the key of sevens. -/
def signedReport : VerifiableNode := ((fraudReport 1).sign plainTools (List.replicate 32 7)).getD {}

theorem signedReport_unchanged :
    (signedReport.verifySignature plainTools []).1 = true ∧ (fraudReport 1).RoundTrips plainTools := by
  have hresults := verifiable_unchanged_iff plainTools plainTools_documented
  refine ⟨?_, (hresults.2.2 (fraudReport 1) (by decide) (by decide +kernel)).mpr ?_⟩
  · obtain ⟨signed, hsigned, hvalid⟩ := hresults.1 (fraudReport 1) (List.replicate 32 7) [] (by decide)
    rw [signedReport, hsigned]
    exact hvalid
  · refine ⟨rfl, by decide, fun change hmem => ?_, by decide +kernel⟩
    obtain rfl := List.mem_singleton.mp hmem
    exact ⟨by decide, by decide⟩

/-- Verifying the report, with success, changes its hash, and with a price of 33 bits it is not read again. -/
theorem signedReport_changed :
    (signedReport.verifySignature plainTools []).1 = true ∧
      (NodeHash.ofData plainTools id).getHash (signedReport.verifySignature plainTools []).2 ≠
        (NodeHash.ofData plainTools id).getHash signedReport ∧
      ¬signedReport.Undisturbed plainTools [] ∧ ¬(fraudReport (2 ^ 32)).RoundTrips plainTools := by
  have hhash : (NodeHash.ofData plainTools id).getHash (signedReport.verifySignature plainTools []).2 ≠
      (NodeHash.ofData plainTools id).getHash signedReport := by
    decide +kernel
  refine ⟨by decide +kernel, hhash, fun hundisturbed => hhash (hundisturbed id (.ofData plainTools id) []).2, fun htrips => ?_⟩
  have hread : genNode plainTools [] ((fraudReport (2 ^ 32)).prepare plainTools true).mMainRAWData =
      .error .assertion := by
    decide +kernel
  obtain ⟨restored, hok, -⟩ := htrips []
  cases hread.symm.trans hok

end VerifiableNode
end Gridnet
