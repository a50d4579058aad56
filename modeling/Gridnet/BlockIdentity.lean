import Gridnet.BlockModel
import Gridnet.Sha256

/-! The identity of blocks. A block is known by the hash of the header bytes it came with and by the hash
of the header packed again from its fields. The two agree for a header in the one form that
`getPackedData` writes, and for no other: the reader accepts more forms than the writer has, and
versions that have no form at all. -/

namespace Gridnet

open Ber ASN1_Tag

variable {Trie : Type} (services : ChainServices Trie)

/-- The contents of a field in the one form in which its value is written. -/
def FieldKind.Shortest : FieldKind → Bytes → Prop
  | .number, contents => MinimalInteger contents
  | .octets, _ => True
  | .bigInt, contents =>
      ∀ n, services.BytesToBigInt contents = some n → services.BigIntToBytes n = contents

namespace CBlockHeader

/-- These bytes are the distinguished form of a header of this version and kind with these contents of
its fields: every length and every number in its shortest form, nothing behind the last field, a
signature, roots and identifiers in place. -/
structure CanonicalForm (headerBER : Bytes) (version : ℕ) (isKeyBlock : Bool)
    (contents : HeaderField → Bytes) : Prop where
  known : KnownVersion version
  form : headerBER =
    cons (if isKeyBlock then eBERObjectType.keyBlockHeader else eBERObjectType.regularBlockHeader)
      PRIVATE (encodeSmall version ++
        cons SEQUENCE UNIVERSAL ((headerCodec services).row (decodedFields version isKeyBlock) contents))
  shortest : ∀ f ∈ decodedFields version isKeyBlock, f.kind.Shortest services (contents f)
  signature : contents .mSignature ≠ []
  receiptsRoot : contents .mReceiptsRootID ≠ []
  verifiablesRoot : contents .mVerifiablesRootID ≠ []
  publicKey : isKeyBlock = true → (contents .mPublicKey).length = 32
  parent : contents .mHeight ≠ [0] → (contents .mParentBlockID).length = 32

def Canonical (headerBER : Bytes) : Prop :=
  ∃ version isKeyBlock contents, CanonicalForm services headerBER version isKeyBlock contents

/-- The two tables of the source list the same fields in the same order. -/
theorem packedFields_eq_decodedFields (version : ℕ) (isKeyBlock : Bool) :
    packedFields version isKeyBlock = decodedFields version isKeyBlock := by
  match version with
  | 0 => rfl
  | 1 => cases isKeyBlock <;> rfl
  | 2 => cases isKeyBlock <;> rfl
  | 3 => cases isKeyBlock <;> rfl
  | 4 => cases isKeyBlock <;> rfl
  | _ + 5 => rfl

theorem decodedFields_nodup (version : ℕ) (isKeyBlock : Bool) :
    (decodedFields version isKeyBlock).Nodup := by
  match version with
  | 0 => exact List.nodup_nil
  | 1 => cases isKeyBlock <;> decide
  | 2 => cases isKeyBlock <;> decide
  | 3 => cases isKeyBlock <;> decide
  | 4 => cases isKeyBlock <;> decide
  | _ + 5 => exact List.nodup_nil

theorem known_cases {version : ℕ} (hknown : KnownVersion version) :
    version = 1 ∨ version = 2 ∨ version = 3 ∨ version = 4 := by
  simpa [KnownVersion] using hknown

/-- The fields that every known version has. -/
theorem common_mem_decodedFields {version : ℕ} (hknown : KnownVersion version) (isKeyBlock : Bool) :
    ∀ f ∈ [HeaderField.mHeight, .mSignature, .mParentBlockID, .mReceiptsRootID, .mVerifiablesRootID],
      f ∈ decodedFields version isKeyBlock := by
  rcases known_cases hknown with rfl | rfl | rfl | rfl <;> cases isKeyBlock <;> decide

theorem key_mem_decodedFields {version : ℕ} (hknown : KnownVersion version) :
    HeaderField.mPublicKey ∈ decodedFields version true := by
  rcases known_cases hknown with rfl | rfl | rfl | rfl <;> decide

/-! ### What is packed is canonical -/

variable {services}

theorem packed_eq_row (header : CBlockHeader Trie) :
    header.packed services true =
      cons (if header.mIsKeyBlock then eBERObjectType.keyBlockHeader
          else eBERObjectType.regularBlockHeader)
        PRIVATE (encodeSmall header.mVersion ++
          cons SEQUENCE UNIVERSAL ((headerCodec services).encode
            (decodedFields header.mVersion header.mIsKeyBlock) header.fields)) := by
  have hfield : packField services header true = fun f =>
      addObject ((headerCodec services).type_tag f) UNIVERSAL
        ((headerCodec services).write f (header.fields f)) := by
    funext f
    simp [packField]
  rw [packed, packedFields_eq_decodedFields, hfield]
  rfl

theorem fillRoot_ne_nil (db : Trie) (rootID : Bytes) : fillRoot services db rootID ≠ [] := by
  unfold fillRoot
  split_ifs with hroot
  · intro hnil
    have hlen := services.cf.getSHA2_256Vec_length (services.getPerspective db)
    rw [hnil] at hlen
    exact absurd hlen (by decide)
  · exact fun hnil => hroot (by rw [hnil, List.length_nil])

theorem fillRoots_other (header : CBlockHeader Trie) {f : HeaderField}
    (hf : f ∉ [HeaderField.mTransactionsRootID, .mReceiptsRootID, .mVerifiablesRootID]) :
    (header.fillRoots services).fields f = header.fields f := by
  simp only [List.mem_cons, List.not_mem_nil, or_false, not_or] at hf
  obtain ⟨htransactions, hreceipts, hverifiables⟩ := hf
  simp only [fillRoots]
  rw [Function.update_of_ne hverifiables, Function.update_of_ne hreceipts]
  split_ifs
  · rfl
  · rw [Function.update_of_ne htransactions]

/-- What `validate` asks of a header that is packed with its signature. -/
structure Valid (header : CBlockHeader Trie) : Prop where
  publicKey : header.mIsKeyBlock = true → (header.fields .mPublicKey).length = 32
  parentKey : header.mIsKeyBlock = true → header.fields .mHeight ≠ (0 : ℕ) →
    (header.fields .mParentKeyBlockID).length = 32
  parent : header.fields .mHeight ≠ (0 : ℕ) → (header.fields .mParentBlockID).length = 32
  signature : header.fields .mSignature ≠ []

theorem validate_iff (header : CBlockHeader Trie) : header.validate true = true ↔ header.Valid := by
  have hpos : 0 < header.fields .mHeight ↔ header.fields .mHeight ≠ (0 : ℕ) := Nat.pos_iff_ne_zero
  constructor
  · intro hvalid
    simp only [validate, hpos] at hvalid
    split_ifs at hvalid with hkey hparentKey hparent hsig
    simp only [Bool.and_eq_true, bne_iff_ne, decide_eq_true_eq, not_and, not_not, beq_iff_eq,
      List.length_eq_zero_iff, Bool.true_and] at hkey hparentKey hparent hsig
    exact ⟨hkey, hparentKey, hparent, hsig⟩
  · rintro ⟨hkey, hparentKey, hparent, hsig⟩
    simp only [validate, hpos]
    rw [if_neg, if_neg, if_neg, if_neg] <;>
      simp only [Bool.and_eq_true, bne_iff_ne, decide_eq_true_eq, not_and, not_not, beq_iff_eq,
        List.length_eq_zero_iff, Bool.true_and]
    · exact hsig
    · exact hparent
    · exact hparentKey
    · exact hkey

/-- Packing succeeds for a valid header of a known version. -/
theorem getPackedData_fst_iff (header : CBlockHeader Trie) (data : Bytes) :
    (header.getPackedData services data true).1 = true ↔
      header.Valid ∧ KnownVersion header.mVersion := by
  rw [← validate_iff, getPackedData]
  cases header.validate true <;> by_cases hknown : KnownVersion header.mVersion <;> simp [hknown]

theorem getPackedData_eq {header : CBlockHeader Trie} (hvalid : header.Valid)
    (hknown : KnownVersion header.mVersion) (data : Bytes) :
    header.getPackedData services data true =
      (true, (header.fillRoots services).packed services true, header.fillRoots services) := by
  rw [getPackedData, (validate_iff header).mpr hvalid, if_neg (by decide), if_pos hknown]

theorem shortest_write (hround : ∀ n, services.BytesToBigInt (services.BigIntToBytes n) = some n)
    (k : FieldKind) (value : k.Value) : k.Shortest services (k.write services value) := by
  cases k with
  | number => exact minimalInteger_integerContents value
  | octets => exact trivial
  | bigInt =>
      intro n hn
      rw [← Option.some.inj ((hround value).symm.trans hn)]
      rfl

theorem write_of_read {k : FieldKind} {contents : Bytes} (hshort : k.Shortest services contents)
    {value : k.Value} (hread : k.read services contents = some value) :
    k.write services value = contents := by
  cases k with
  | number => exact integerContents_of_smallInteger hshort hread
  | octets => exact (Option.some.inj hread).symm
  | bigInt => exact hshort value hread

theorem canonicalForm_of_valid
    (hround : ∀ n, services.BytesToBigInt (services.BigIntToBytes n) = some n)
    {header : CBlockHeader Trie} (hvalid : header.Valid) (hknown : KnownVersion header.mVersion) :
    CanonicalForm services ((header.fillRoots services).packed services true) header.mVersion
      header.mIsKeyBlock fun f => (headerCodec services).write f ((header.fillRoots services).fields f) := by
  have hother : ∀ f, f ∉ [HeaderField.mTransactionsRootID, .mReceiptsRootID, .mVerifiablesRootID] →
      (header.fillRoots services).fields f = header.fields f := fun f hf => fillRoots_other header hf
  constructor
  case known => exact hknown
  case form => rw [packed_eq_row]; rfl
  case shortest => exact fun f _ => shortest_write hround f.kind _
  case signature =>
    rw [hother .mSignature (by decide)]
    exact hvalid.signature
  case receiptsRoot =>
    simp only [fillRoots]
    rw [Function.update_of_ne (by decide), Function.update_self]
    exact fillRoot_ne_nil _ _
  case verifiablesRoot =>
    simp only [fillRoots]
    rw [Function.update_self]
    exact fillRoot_ne_nil _ _
  case publicKey =>
    rw [hother .mPublicKey (by decide)]
    exact hvalid.publicKey
  case parent =>
    intro hheight
    rw [hother .mParentBlockID (by decide)]
    refine hvalid.parent fun hzero => hheight ?_
    rw [hother .mHeight (by decide), hzero]
    rfl

/-- Whatever the fields are, what `getPackedData` writes is canonical. -/
theorem canonical_of_packed
    (hround : ∀ n, services.BytesToBigInt (services.BigIntToBytes n) = some n)
    {header : CBlockHeader Trie} {data headerBER : Bytes}
    (hpacked : (header.getPackedData services data true).1 = true)
    (hdata : (header.getPackedData services data true).2.1 = headerBER) :
    Canonical services headerBER := by
  obtain ⟨hvalid, hknown⟩ := (getPackedData_fst_iff header data).mp hpacked
  rw [getPackedData_eq hvalid hknown] at hdata
  rw [← hdata]
  exact ⟨_, _, _, canonicalForm_of_valid hround hvalid hknown⟩

/-! ### What is canonical is read back -/

/-- The versions are numbers of one octet. -/
theorem smallInteger_known {version : ℕ} (hknown : KnownVersion version) :
    (integerContents version).length < 2 ^ 32 ∧
      smallInteger (integerContents version) = some version := by
  rcases known_cases hknown with rfl | rfl | rfl | rfl <;> decide +kernel

theorem shortTag_header (isKeyBlock : Bool) :
    ShortTag (if isKeyBlock then eBERObjectType.keyBlockHeader else eBERObjectType.regularBlockHeader)
      (PRIVATE ||| CONSTRUCTED) := by
  cases isKeyBlock <;> decide

/-- Whoever reads a canonical header finds its version, its kind and its contents. -/
theorem readHeader_canonical {headerBER : Bytes} {version : ℕ} {isKeyBlock : Bool}
    {contents : HeaderField → Bytes}
    (hform : CanonicalForm services headerBER version isKeyBlock contents)
    (hsize : headerBER.length < 2 ^ 64) {bh read : CBlockHeader Trie}
    (hread : readHeader services bh headerBER = .ok read) :
    read.mVersion = version ∧ read.mIsKeyBlock = isKeyBlock ∧
      ∀ f ∈ decodedFields version isKeyBlock,
        f.kind.read services (contents f) = some (read.fields f) := by
  let row := (headerCodec services).row (decodedFields version isKeyBlock) contents
  let body := encodeSmall version ++ cons SEQUENCE UNIVERSAL row
  let type_tag := if isKeyBlock then eBERObjectType.keyBlockHeader else eBERObjectType.regularBlockHeader
  have htag : ShortTag type_tag (PRIVATE ||| CONSTRUCTED) := shortTag_header isKeyBlock
  have hbytes : headerBER = addObject type_tag (PRIVATE ||| CONSTRUCTED) body ++ [] := by
    rw [List.append_nil]
    exact hform.form
  have hbody : body.length < 2 ^ 64 := by
    refine (length_le_addObject type_tag (PRIVATE ||| CONSTRUCTED) body).trans_lt ?_
    rwa [← List.append_nil (addObject _ _ _), ← hbytes]
  obtain ⟨outer, rest, dec2, inner, rest', houter, hkind, hversion, hinner, hfields, _⟩ :=
    readHeader_ok hread
  -- a body that the reader takes has less than `2 ^ 32` octets
  rcases Nat.lt_or_ge body.length (2 ^ 32) with hlt | hge
  swap
  · rw [hbytes, htag.getNextObject_addObject_none hge hbody] at houter
    cases houter
  rw [hbytes, htag.getNextObject_addObject hlt] at houter
  cases houter
  have hkey : isKeyBlock = read.mIsKeyBlock := by
    cases isKeyBlock <;> exact Except.ok.inj hkind
  obtain ⟨hlen, hsmall⟩ := smallInteger_known hform.known
  have hbodyVersion : decodeSmall body = some (version, cons SEQUENCE UNIVERSAL row) := by
    refine (decodeSmall_addObject hlen _).trans ?_
    rw [hsmall]
    rfl
  obtain ⟨rfl, rfl⟩ := Prod.mk.inj (Option.some.inj (hbodyVersion.symm.trans hversion))
  have hrow : row.length < 2 ^ 32 := by
    refine lt_of_le_of_lt ((length_le_addObject SEQUENCE (UNIVERSAL ||| CONSTRUCTED) row).trans ?_) hlt
    rw [List.length_append]
    exact Nat.le_add_left _ _
  have hnext := shortTag_sequence.getNextObject_addObject_last hrow
  obtain ⟨rfl, rfl⟩ := Prod.mk.inj (Option.some.inj (hnext.symm.trans hinner))
  subst hkey
  have hdecode : (headerCodec services).decode (decodedFields read.mVersion read.mIsKeyBlock) bh.fields
      (row ++ []) = some read.fields := by
    rw [List.append_nil]
    exact hfields
  exact ⟨rfl, rfl, (headerCodec services).read_of_decode_row (decodedFields_nodup _ _)
    (fun f hf => ((headerCodec services).length_contents_le hf).trans_lt hrow) hdecode⟩

/-- A header with a root in every place is not changed by packing it. -/
theorem fillRoots_of_ne_nil {header : CBlockHeader Trie}
    (htransactions : header.mIsKeyBlock = false → header.fields .mTransactionsRootID ≠ [])
    (hreceipts : header.fields .mReceiptsRootID ≠ [])
    (hverifiables : header.fields .mVerifiablesRootID ≠ []) : header.fillRoots services = header := by
  have hfill : ∀ (db : Trie) {rootID : Bytes}, rootID ≠ [] → fillRoot services db rootID = rootID :=
    fun db rootID hroot => if_neg fun hlen => hroot (List.length_eq_zero_iff.mp hlen)
  obtain ⟨version, isKeyBlock, fields, transactionsDB, receiptsDB, verifiablesDB, hash, loaded⟩ := header
  dsimp only at htransactions hreceipts hverifiables
  unfold fillRoots
  cases isKeyBlock with
  | true =>
      simp only [if_true, hfill _ hreceipts, Function.update_eq_self, hfill _ hverifiables]
  | false =>
      simp only [Bool.false_eq_true, if_false, hfill _ (htransactions rfl), Function.update_eq_self,
        hfill _ hreceipts, hfill _ hverifiables]

/-- A regular header of a known version has a root of its transactions. -/
theorem transactionsRoot_ne_nil {version : ℕ} {fields : HeaderFields} (hknown : KnownVersion version)
    (hverify : verifyPerspectives version false fields = .ok ()) : fields .mTransactionsRootID ≠ [] := by
  intro hnil
  rw [verifyPerspectives, if_pos ⟨hknown, rfl⟩, hnil] at hverify
  simp at hverify

/-- The values of a canonical header satisfy what `validate` asks. -/
theorem CanonicalForm.valid {headerBER : Bytes} {contents : HeaderField → Bytes}
    {header : CBlockHeader Trie}
    (hform : CanonicalForm services headerBER header.mVersion header.mIsKeyBlock contents)
    (hcontents : ∀ f ∈ decodedFields header.mVersion header.mIsKeyBlock,
      f.kind.read services (contents f) = some (header.fields f))
    (hparentKey : header.mIsKeyBlock = true → header.fields .mHeight ≠ (0 : ℕ) →
      (header.fields .mParentKeyBlockID).length = 32) : header.Valid := by
  have hcommon := common_mem_decodedFields hform.known header.mIsKeyBlock
  have hsignature : contents .mSignature = header.fields .mSignature :=
    Option.some.inj (hcontents .mSignature (hcommon _ (by decide)))
  have hparent : contents .mParentBlockID = header.fields .mParentBlockID :=
    Option.some.inj (hcontents .mParentBlockID (hcommon _ (by decide)))
  have hheight : smallInteger (contents .mHeight) = some (header.fields .mHeight) :=
    hcontents .mHeight (hcommon _ (by decide))
  refine ⟨fun hkey => ?_, hparentKey, fun hpos => ?_, ?_⟩
  · have hmem : HeaderField.mPublicKey ∈ decodedFields header.mVersion header.mIsKeyBlock := by
      rw [hkey]
      exact key_mem_decodedFields hform.known
    have hpublic : contents .mPublicKey = header.fields .mPublicKey :=
      Option.some.inj (hcontents .mPublicKey hmem)
    rw [← hpublic]
    exact hform.publicKey hkey
  · rw [← hparent]
    refine hform.parent fun hzero => hpos ?_
    rw [hzero] at hheight
    exact (Option.some.inj hheight).symm
  · rw [← hsignature]
    exact hform.signature

/-- A canonical header is packed as it was received. The tries of the header play no part in it. -/
theorem getPackedData_of_canonical {headerBER : Bytes} (hcanonical : Canonical services headerBER)
    (hsize : headerBER.length < 2 ^ 64) {bh read header : CBlockHeader Trie}
    (hread : readHeader services bh headerBER = .ok read) (hversion : header.mVersion = read.mVersion)
    (hkind : header.mIsKeyBlock = read.mIsKeyBlock) (hfields : header.fields = read.fields)
    (hparentKey : read.mIsKeyBlock = true → read.fields .mHeight ≠ (0 : ℕ) →
      (read.fields .mParentKeyBlockID).length = 32) (data : Bytes) :
    KnownVersion header.mVersion ∧ header.packed services true = headerBER ∧
      header.getPackedData services data true = (true, headerBER, header) := by
  obtain ⟨version, isKeyBlock, contents, hform⟩ := hcanonical
  obtain ⟨rfl, rfl, hcontents⟩ := readHeader_canonical hform hsize hread
  obtain ⟨_, _, _, _, _, _, _, _, _, _, hverify⟩ := readHeader_ok hread
  rw [← hversion, ← hkind] at hform
  rw [← hversion, ← hkind, ← hfields] at hcontents hverify
  rw [← hkind, ← hfields] at hparentKey
  have hcommon := common_mem_decodedFields hform.known header.mIsKeyBlock
  have hreceipts : contents .mReceiptsRootID = header.fields .mReceiptsRootID :=
    Option.some.inj (hcontents .mReceiptsRootID (hcommon _ (by decide)))
  have hverifiables : contents .mVerifiablesRootID = header.fields .mVerifiablesRootID :=
    Option.some.inj (hcontents .mVerifiablesRootID (hcommon _ (by decide)))
  have hfilled : header.fillRoots services = header := by
    refine fillRoots_of_ne_nil (fun hregular => ?_) (hreceipts ▸ hform.receiptsRoot)
      (hverifiables ▸ hform.verifiablesRoot)
    rw [hregular] at hverify
    exact transactionsRoot_ne_nil hform.known hverify
  have hpacked : header.packed services true = headerBER := by
    rw [packed_eq_row, (headerCodec services).encode_eq_row fun f hf =>
      write_of_read (hform.shortest f hf) (hcontents f hf)]
    exact hform.form.symm
  refine ⟨hform.known, hpacked, ?_⟩
  rw [getPackedData_eq (hform.valid hcontents hparentKey) hform.known, hfilled, hpacked]

/-! ### Loading the tries -/

/-- The same version, kind and fields. -/
structure Same (header header' : CBlockHeader Trie) : Prop where
  mVersion : header.mVersion = header'.mVersion
  mIsKeyBlock : header.mIsKeyBlock = header'.mIsKeyBlock
  fields : header.fields = header'.fields

theorem Same.refl (header : CBlockHeader Trie) : Same header header := ⟨rfl, rfl, rfl⟩

theorem Same.packed_eq {header header' : CBlockHeader Trie} (hsame : Same header header') :
    header.packed services true = header'.packed services true := by
  rw [packed_eq_row, packed_eq_row, hsame.mVersion, hsame.mIsKeyBlock, hsame.fields]

theorem loadSequences_same (tries : List eTrieID) (header : CBlockHeader Trie) (dec2 : Bytes) :
    Same (loadSequences services tries header dec2).2 header := by
  induction tries generalizing header dec2 with
  | nil => exact .refl header
  | cons trie tries ih =>
      unfold loadSequences
      cases getNextObject dec2 with
      | none => exact .refl header
      | some next =>
          cases trie with
          | state => exact ih header next.2
          | transactions | receipts | verifiables =>
              dsimp only
              split_ifs
              · exact ⟨(ih _ _).mVersion, (ih _ _).mIsKeyBlock, (ih _ _).fields⟩
              · exact ⟨rfl, rfl, rfl⟩

theorem loadBody_same (header : CBlockHeader Trie) (dec2 : Bytes) :
    Same (header.loadBody services dec2).2 header := by
  unfold loadBody
  cases getNextObject dec2 with
  | none => exact .refl header
  | some next =>
      dsimp only
      split_ifs
      · exact .refl header
      · exact loadSequences_same _ _ _
      · exact loadSequences_same _ _ _

/-- Loading the tries changes nothing that is packed. -/
theorem loadTries_same (header : CBlockHeader Trie) (blockBER : Bytes) :
    Same (header.loadTries services blockBER).2 header := by
  unfold loadTries
  split
  · exact .refl header
  dsimp only
  split_ifs
  · exact .refl header
  · obtain ⟨hversion, hkind, hfields⟩ := loadBody_same header _
    exact ⟨hversion, hkind, hfields⟩
  · exact ⟨rfl, rfl, rfl⟩

end CBlockHeader

namespace CBlock

/-- The bytes of the header in the packed form of a block. -/
def receivedHeader (blockBER : Bytes) : Option Bytes := do
  let (_, dec2) ← readBlock blockBER
  let (obj, _) ← getNextObject dec2
  return obj.value

/-- Some call of `instantiateBlock` returns this block and reports success. -/
def Accepts (blockBER : Bytes) (block : CBlock Trie) : Prop :=
  ∃ pupulateTries result errorInfo blockchainMode info,
    instantiateBlock services pupulateTries blockBER result errorInfo blockchainMode =
      (some block, .OK, info)

/-- The block and its header are of known versions, and the identifier taken from the header bytes is
the one of the header packed again, which gives these bytes. -/
structure IdentifiedBy (block : CBlock Trie) (headerData : Bytes) : Prop where
  blockVersion : block.mVersion = 1
  headerVersion : KnownVersion block.mBlockHeader.mVersion
  packs : (block.mBlockHeader.getPackedData services [] true).1 = true
  packed : (block.mBlockHeader.getPackedData services [] true).2.1 = headerData
  temporalID : block.mTemporalID = (block.getID services false).1
  hotStorageID : (block.getHotStorageID services).1 = (block.getID services false).1
  hash : ∃ header, block.mBlockHeader.getHash services false = some ((block.getID services false).1, header)

def OneIdentity (blockBER : Bytes) (block : CBlock Trie) : Prop :=
  ∃ headerData, receivedHeader blockBER = some headerData ∧ block.IdentifiedBy services headerData

/-- A block of version 1 whose header bytes are canonical. -/
def Canonical (blockBER : Bytes) : Prop :=
  (∃ dec2, readBlock blockBER = some (1, dec2)) ∧
    ∃ headerData, receivedHeader blockBER = some headerData ∧ CBlockHeader.Canonical services headerData

variable {services}

theorem receivedHeader_length {blockBER headerData : Bytes}
    (hreceived : receivedHeader blockBER = some headerData) : headerData.length ≤ blockBER.length := by
  obtain ⟨⟨version, dec2⟩, hread, hreceived⟩ := Option.bind_eq_some_iff.mp hreceived
  obtain ⟨⟨obj, rest⟩, hnext, hreceived⟩ := Option.bind_eq_some_iff.mp hreceived
  obtain ⟨⟨ob, left⟩, houter, hread⟩ := Option.bind_eq_some_iff.mp hread
  dsimp only at hread
  split_ifs at hread
  obtain rfl := Option.some.inj hreceived
  calc obj.value.length ≤ dec2.length := (getNextObject_length hnext).1
    _ ≤ ob.value.length := decodeSmall_length hread
    _ ≤ blockBER.length := (getNextObject_length houter).1

theorem populateTries_frame (block : CBlock Trie) (blockBER : Bytes) :
    CBlockHeader.Same (block.populateTries services blockBER).1.mBlockHeader block.mBlockHeader ∧
      (block.populateTries services blockBER).1.mID = block.mID ∧
      (block.populateTries services blockBER).1.mVersion = block.mVersion :=
  ⟨CBlockHeader.loadTries_same block.mBlockHeader blockBER, rfl, rfl⟩

theorem instantiateBody_some {pupulateTries : Bool} {block block' : CBlock Trie}
    {blockBER headerData : Bytes} {blockchainMode : eBlockchainMode} {result : eBlockInstantiationResult}
    {info : String}
    (hbody : instantiateBody services pupulateTries block blockBER headerData blockchainMode =
      (some block', result, info)) :
    ∃ header resultHeader info',
      CBlockHeader.instantiate services headerData .OK "" blockchainMode =
        (some header, resultHeader, info') ∧
      CBlockHeader.Same block'.mBlockHeader header ∧
      block'.mTemporalID = services.cf.getSHA2_256Vec headerData ∧ block'.mID = block.mID ∧
      block'.mVersion = block.mVersion := by
  unfold instantiateBody at hbody
  split at hbody
  · cases hbody
  · rename_i header resultHeader mErrorInfo hinst
    dsimp only at hbody
    split_ifs at hbody with hroots hpopulate
    · cases hbody
      obtain ⟨hsame, hid, hversion⟩ :=
        @populateTries_frame _ services { block with mBlockHeader := header } blockBER
      exact ⟨header, resultHeader, _, hinst, hsame, rfl, hid, hversion⟩
    · cases hbody
      exact ⟨header, resultHeader, _, hinst, .refl header, rfl, rfl, rfl⟩
    · cases hbody

/-- What an accepted block is made of: a block of an unknown version keeps the version alone, any other
the header that was read from its bytes. -/
theorem Accepts.made {blockBER : Bytes} {block : CBlock Trie} (haccepts : Accepts services blockBER block) :
    ∃ dec2, readBlock blockBER = some (block.mVersion, dec2) ∧
      (block.mVersion = 1 → ∃ headerData bh read header result,
        receivedHeader blockBER = some headerData ∧
        CBlockHeader.readHeader services bh headerData = .ok read ∧
        CBlockHeader.openTries services read = .ok (header, result) ∧
        CBlockHeader.Same block.mBlockHeader header ∧
        block.mTemporalID = services.cf.getSHA2_256Vec headerData ∧ block.mID = []) := by
  obtain ⟨pupulateTries, result, errorInfo, blockchainMode, info, hinst⟩ := haccepts
  unfold instantiateBlock at hinst
  split at hinst
  · cases hinst
  rename_i freshBlock hnew
  dsimp only at hinst
  split at hinst
  · cases hinst
  rename_i version dec2 hread
  have hid : freshBlock.mID = [] := by
    obtain ⟨header, _, rfl⟩ := Option.map_eq_some_iff.mp hnew
    rfl
  split_ifs at hinst with hversion
  · subst hversion
    split at hinst
    · cases hinst
    rename_i obj rest hnext
    split_ifs at hinst with htype
    · cases hinst
    split at hinst
    · cases hinst
    rename_i block' result' info' hbody
    cases hinst
    obtain ⟨header, resultHeader, info'', hheader, hsame, htemporal, hid', hversion'⟩ :=
      instantiateBody_some hbody
    obtain ⟨bh, read, hreadHeader, hopen⟩ := CBlockHeader.instantiate_some hheader
    refine ⟨dec2, by rw [hversion']; exact hread, fun _ => ⟨obj.value, bh, read, header, resultHeader,
      ?_, hreadHeader, hopen, hsame, htemporal, hid'.trans hid⟩⟩
    simp [receivedHeader, hread, hnext]
  · cases hinst
    exact ⟨dec2, hread, fun hone => absurd hone hversion⟩

/-- The identifiers of an accepted block whose header bytes are canonical. -/
theorem Accepts.identifiedBy {blockBER : Bytes} (hsize : blockBER.length < 2 ^ 64) {block : CBlock Trie}
    (haccepts : Accepts services blockBER block) (hcanonical : Canonical services blockBER) :
    ∃ headerData, receivedHeader blockBER = some headerData ∧ block.IdentifiedBy services headerData ∧
      block.mBlockHeader.packed services true = headerData := by
  obtain ⟨dec2, hread, hmade⟩ := haccepts.made
  obtain ⟨⟨dec2', hread'⟩, headerData', hreceived', hheader⟩ := hcanonical
  have hversion : block.mVersion = 1 := congrArg Prod.fst (Option.some.inj (hread.symm.trans hread'))
  obtain ⟨headerData, bh, read, header, result, hreceived, hreadHeader, hopen, hsame, htemporal, hid⟩ :=
    hmade hversion
  obtain rfl := Option.some.inj (hreceived.symm.trans hreceived')
  have hheaderSize : headerData.length < 2 ^ 64 := lt_of_le_of_lt (receivedHeader_length hreceived) hsize
  obtain ⟨⟨hver, hkind, hfields⟩, hparentKey⟩ := CBlockHeader.openTries_ok hopen
  obtain ⟨hknown, hpacked, hpack⟩ := CBlockHeader.getPackedData_of_canonical hheader hheaderSize
    hreadHeader (hsame.mVersion.trans hver) (hsame.mIsKeyBlock.trans hkind) (hsame.fields.trans hfields)
    hparentKey []
  have hgetID : (block.getID services false).1 = services.cf.getSHA2_256Vec headerData := by
    rw [getID, hid, if_pos (by rfl), hpack]
  have hhot : block.mTemporalID.length = 32 := by
    rw [htemporal]
    exact services.cf.getSHA2_256Vec_length headerData
  refine ⟨headerData, hreceived, ⟨hversion, hknown, ?_, ?_, ?_, ?_, ?_⟩, hpacked⟩
  · rw [hpack]
  · rw [hpack]
  · rw [hgetID, htemporal]
  · rw [hgetID, getHotStorageID, if_pos hhot, htemporal]
  · rw [hgetID, CBlockHeader.getHash, hpack]
    exact ⟨_, rfl⟩

/-- An accepted block has one identity exactly when it is of version 1 and its header bytes are in the
form in which headers are packed; and such bytes are determined by the header they are read as. -/
theorem oneIdentity_iff (services : ChainServices Trie)
    (hround : ∀ n, services.BytesToBigInt (services.BigIntToBytes n) = some n) {blockBER : Bytes}
    (hsize : blockBER.length < 2 ^ 64) {block : CBlock Trie}
    (haccepts : Accepts services blockBER block) :
    (OneIdentity services blockBER block ↔ Canonical services blockBER) ∧
      (Canonical services blockBER → ∀ {blockBER' : Bytes} {block' : CBlock Trie},
        blockBER'.length < 2 ^ 64 → Accepts services blockBER' block' → Canonical services blockBER' →
        CBlockHeader.Same block.mBlockHeader block'.mBlockHeader →
        receivedHeader blockBER' = receivedHeader blockBER) := by
  refine ⟨⟨?_, fun hcanonical => ?_⟩, ?_⟩
  · rintro ⟨headerData, hreceived, hidentified⟩
    obtain ⟨dec2, hread, _⟩ := haccepts.made
    rw [hidentified.blockVersion] at hread
    exact ⟨⟨dec2, hread⟩, headerData, hreceived,
      CBlockHeader.canonical_of_packed hround hidentified.packs hidentified.packed⟩
  · obtain ⟨headerData, hreceived, hidentified, _⟩ := haccepts.identifiedBy hsize hcanonical
    exact ⟨headerData, hreceived, hidentified⟩
  · intro hcanonical blockBER' block' hsize' haccepts' hcanonical' hsame
    obtain ⟨headerData, hreceived, _, hpacked⟩ := haccepts.identifiedBy hsize hcanonical
    obtain ⟨headerData', hreceived', _, hpacked'⟩ := haccepts'.identifiedBy hsize' hcanonical'
    rw [hreceived, hreceived', ← hpacked, ← hpacked', hsame.packed_eq]

/-! ### Three blocks -/

/-- A node with the functions of the code and tries that hold nothing. -/
def emptyNode : ChainServices Bytes where
  cf :=
    { getSHA2_256Vec := fun data => (sha256 data).val
      getSHA2_256Vec_length := fun data => (sha256 data).property
      verifySignature := fun _ _ _ => false }
  getEmptyNodeHash := List.replicate 32 0
  BLOCK_HEADER_LATEST_VERSION := 4
  BytesToBigInt b := some (.ofNat 256 (BytesToBigInt b))
  BigIntToBytes n := BigIntToBytes n.toNat
  newTrieDB _ rootHash _ _ _ := .ok rootHash
  isEmpty _ := true
  hasRoot _ := true
  getPerspective db := db
  trackKnownNodes db := db
  addNode _ _ db := some db
  setIsTrieFullyInRAM db := db
  getKnownNodeIDs _ := []

theorem emptyNode_round (n : BigInt) : emptyNode.BytesToBigInt (emptyNode.BigIntToBytes n) = some n := by
  change some (BitVec.ofNat 256 (BytesToBigInt (BigIntToBytes n.toNat))) = some n
  rw [BytesToBigInt_BigIntToBytes, BitVec.ofNat_toNat, BitVec.setWidth_eq]

/-- The contents of a key block's header at height zero. -/
def genesisContents (f : HeaderField) : Bytes :=
  match f, f.kind with
  | .mPublicKey, _ | .mReceiptsRootID, _ | .mVerifiablesRootID, _ => List.replicate 32 7
  | .mSignature, _ => [1]
  | _, .octets => []
  | _, _ => [0]

def genesisHeader : Bytes :=
  cons eBERObjectType.keyBlockHeader PRIVATE <|
    encodeSmall 4 ++
    cons SEQUENCE UNIVERSAL ((headerCodec emptyNode).row (decodedFields 4 true) genesisContents)

/-- A key block without a body. -/
def blockOf (headerBER : Bytes) : Bytes :=
  cons eBERObjectType.keyBlock PRIVATE (encodeSmall 1 ++ addObject OCTET_STRING UNIVERSAL headerBER)

/-- What `instantiateBlock` answers for it when the caller expects a failure. -/
def answer (headerBER : Bytes) : Option (CBlock Bytes) × eBlockInstantiationResult × String :=
  instantiateBlock emptyNode false (blockOf headerBER) .Failure "" .TestNet

theorem accepts_of_answer {headerBER : Bytes}
    (hanswer : (answer headerBER).1.isSome = true ∧ (answer headerBER).2.1 = .OK) :
    ∃ block, (answer headerBER).1 = some block ∧ Accepts emptyNode (blockOf headerBER) block := by
  obtain ⟨block, hblock⟩ := Option.isSome_iff_exists.mp hanswer.1
  exact ⟨block, hblock, false, .Failure, "", .TestNet, (answer headerBER).2.2,
    Prod.ext hblock (Prod.ext hanswer.2 rfl)⟩

theorem answer_eq {α : Type} {headerBER : Bytes} {block : CBlock Bytes}
    (hblock : (answer headerBER).1 = some block) (g : CBlock Bytes → α) {a : α}
    (hmap : (answer headerBER).1.map g = some a) : g block = a := by
  rw [hblock] at hmap
  exact Option.some.inj hmap

/-- The identity of the block at height zero. -/
theorem oneIdentity_genesis :
    ∃ block, Accepts emptyNode (blockOf genesisHeader) block ∧
      (OneIdentity emptyNode (blockOf genesisHeader) block ↔
        Canonical emptyNode (blockOf genesisHeader)) := by
  have hanswer : (answer genesisHeader).1.isSome = true ∧ (answer genesisHeader).2.1 = .OK := by
    decide +kernel
  obtain ⟨block, _, haccepts⟩ := accepts_of_answer hanswer
  exact ⟨block, haccepts, (oneIdentity_iff emptyNode emptyNode_round (by decide +kernel) haccepts).1⟩

/-- A header that ends behind its version, which is unknown. -/
def unknownHeader : Bytes := cons eBERObjectType.keyBlockHeader PRIVATE (encodeSmall 5)

/-- The header at height zero with one more object behind it. -/
def trailedHeader : Bytes := genesisHeader ++ encodeNull

theorem fields_trailed (f : HeaderField) :
    (answer trailedHeader).1.map (fun block => block.mBlockHeader.fields f) =
      (answer genesisHeader).1.map fun block => block.mBlockHeader.fields f := by
  have hall : ∀ f ∈ HeaderField.mCoreVersion :: .mTransactionsRootID :: .mLogsBloom :: .mErgLimit ::
      .mErgUsed :: .mNrOfTransactions :: decodedFields 4 true,
      (answer trailedHeader).1.map (fun block => block.mBlockHeader.fields f) =
        (answer genesisHeader).1.map fun block => block.mBlockHeader.fields f := by decide +kernel
  exact hall f (by cases f <;> decide)

/-- Two encodings of one header are accepted, and so is a header of a version without fields. -/
theorem identity_fails :
    (∃ block block', Accepts emptyNode (blockOf genesisHeader) block ∧
      Accepts emptyNode (blockOf trailedHeader) block' ∧
      CBlockHeader.Same block.mBlockHeader block'.mBlockHeader ∧
      receivedHeader (blockOf genesisHeader) ≠ receivedHeader (blockOf trailedHeader) ∧
      ¬OneIdentity emptyNode (blockOf trailedHeader) block') ∧
    ∃ block, Accepts emptyNode (blockOf unknownHeader) block ∧ block.mBlockHeader.mVersion = 5 ∧
      block.mBlockHeader.fields .mHeight = (0 : ℕ) ∧
      ¬OneIdentity emptyNode (blockOf unknownHeader) block := by
  have hgenesis : (answer genesisHeader).1.isSome = true ∧ (answer genesisHeader).2.1 = .OK := by
    decide +kernel
  have htrailed : (answer trailedHeader).1.isSome = true ∧ (answer trailedHeader).2.1 = .OK := by
    decide +kernel
  have hunknown : (answer unknownHeader).1.isSome = true ∧ (answer unknownHeader).2.1 = .OK := by
    decide +kernel
  obtain ⟨block, hblock, haccepts⟩ := accepts_of_answer hgenesis
  obtain ⟨block', hblock', haccepts'⟩ := accepts_of_answer htrailed
  obtain ⟨other, hother, haccepts''⟩ := accepts_of_answer hunknown
  constructor
  · have hreceived : receivedHeader (blockOf genesisHeader) = some genesisHeader := by decide +kernel
    have hreceived' : receivedHeader (blockOf trailedHeader) = some trailedHeader := by decide +kernel
    have hne : genesisHeader ≠ trailedHeader := by decide +kernel
    refine ⟨block, block', haccepts, haccepts', ⟨?_, ?_, ?_⟩, ?_, ?_⟩
    · have hversion : block.mBlockHeader.mVersion = 4 :=
        answer_eq hblock (·.mBlockHeader.mVersion) (by decide +kernel)
      rw [hversion]
      exact (answer_eq hblock' (·.mBlockHeader.mVersion) (by decide +kernel)).symm
    · have hkind : block.mBlockHeader.mIsKeyBlock = true :=
        answer_eq hblock (·.mBlockHeader.mIsKeyBlock) (by decide +kernel)
      rw [hkind]
      exact (answer_eq hblock' (·.mBlockHeader.mIsKeyBlock) (by decide +kernel)).symm
    · funext f
      have hfield := fields_trailed f
      rw [hblock, hblock'] at hfield
      exact (Option.some.inj hfield).symm
    · rw [hreceived, hreceived']
      exact fun heq => hne (Option.some.inj heq)
    · rintro ⟨headerData, hdata, hidentified⟩
      have hpacked : (block'.mBlockHeader.getPackedData emptyNode [] true).2.1 = genesisHeader :=
        answer_eq hblock' (fun block => (block.mBlockHeader.getPackedData emptyNode [] true).2.1)
          (by decide +kernel)
      refine hne (hpacked.symm.trans (hidentified.packed.trans ?_))
      exact Option.some.inj (hdata.symm.trans hreceived')
  · have hversion : other.mBlockHeader.mVersion = 5 :=
      answer_eq hother (·.mBlockHeader.mVersion) (by decide +kernel)
    have hheight : other.mBlockHeader.fields .mHeight = (0 : ℕ) :=
      answer_eq hother (·.mBlockHeader.fields .mHeight) (by decide +kernel)
    refine ⟨other, haccepts'', hversion, hheight, ?_⟩
    rintro ⟨headerData, _, hidentified⟩
    have hknown := hidentified.headerVersion
    rw [hversion] at hknown
    exact absurd hknown (by decide)

end CBlock

end Gridnet
