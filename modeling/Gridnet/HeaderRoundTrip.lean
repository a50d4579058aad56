import Gridnet.BlockIdentity

/-! The round trip of block headers. What `getPackedData` writes of a header is read back by `instantiate` where its
numbers have no more than 32 bits; without the signature it still determines every other field. -/

namespace Gridnet

open Ber ASN1_Tag

variable {Trie : Type} (services : ChainServices Trie)

namespace CBlockHeader

/-! ### Packing -/

structure RootsSized (header : CBlockHeader Trie) : Prop where
  initialState : (header.fields .mInitiallStateRootID).length = 32
  finalState : (header.fields .mFinalStateRootID).length = 32
  receipts : (header.fields .mReceiptsRootID).length = 32
  verifiables : (header.fields .mVerifiablesRootID).length = 32
  transactions : (header.fields .mTransactionsRootID).length = 32

/-- `getPackedData` accepts the header and writes these bytes, whatever is in `data` before. -/
structure Packs (includeSig : Bool) (header : CBlockHeader Trie) (headerBER : Bytes) : Prop where
  roots : header.RootsSized
  packs : ∃ data after, header.getPackedData services data includeSig = (true, headerBER, after)
  size_lt : headerBER.length < 2 ^ 64

variable {services} {includeSig : Bool} {header header' : CBlockHeader Trie} {headerBER : Bytes}

/-- The row of the fields of a header. -/
def packedRow (services : ChainServices Trie) (includeSig : Bool) (header : CBlockHeader Trie) : Bytes :=
  (decodedFields header.mVersion header.mIsKeyBlock).flatMap (packField services header includeSig)

/-- What is inside of the outermost object. -/
def packedBody (services : ChainServices Trie) (includeSig : Bool) (header : CBlockHeader Trie) : Bytes :=
  encodeSmall header.mVersion ++ cons SEQUENCE UNIVERSAL (packedRow services includeSig header)

theorem packed_eq_body (header : CBlockHeader Trie) (includeSig : Bool) :
    header.packed services includeSig =
      addObject (if header.mIsKeyBlock then eBERObjectType.keyBlockHeader else eBERObjectType.regularBlockHeader)
        (PRIVATE ||| CONSTRUCTED) (packedBody services includeSig header) := by
  rw [packed, packedFields_eq_decodedFields]
  rfl

theorem fillRoots_of_sized (hroots : header.RootsSized) : header.fillRoots services = header := by
  have hne : ∀ {root : Bytes}, root.length = 32 → root ≠ [] := by
    rintro _ hlength rfl
    cases hlength
  exact fillRoots_of_ne_nil (fun _ => hne hroots.transactions) (hne hroots.receipts) (hne hroots.verifiables)

/-- What it takes to be packed, and what is written. -/
theorem Packs.spec (hpacks : Packs services includeSig header headerBER) :
    header.validate includeSig = true ∧ KnownVersion header.mVersion ∧
      headerBER = header.packed services includeSig := by
  obtain ⟨data, after, hpacked⟩ := hpacks.packs
  unfold getPackedData at hpacked
  cases hvalid : header.validate includeSig with
  | false =>
      rw [hvalid] at hpacked
      cases hpacked
  | true =>
      rw [hvalid, if_neg (by decide)] at hpacked
      split_ifs at hpacked with hknown
      · simp only [Prod.mk.injEq, true_and, fillRoots_of_sized hpacks.roots] at hpacked
        exact ⟨rfl, hknown, hpacked.1.symm⟩
      · cases hpacked

/-! ### Without the signature -/

/-- The tag and the contents of a field as it is written. -/
def fieldTag (includeSig : Bool) (f : HeaderField) : ASN1_Tag :=
  if f = .mSignature ∧ !includeSig then NULL_TAG else f.kind.type_tag

def fieldContents (services : ChainServices Trie) (includeSig : Bool) (header : CBlockHeader Trie)
    (f : HeaderField) : Bytes :=
  if f = .mSignature ∧ !includeSig then [] else f.kind.write services (header.fields f)

theorem packField_eq (header : CBlockHeader Trie) (includeSig : Bool) (f : HeaderField) :
    packField services header includeSig f =
      addObject (fieldTag includeSig f) UNIVERSAL (fieldContents services includeSig header f) := by
  unfold packField fieldTag fieldContents
  split_ifs <;> rfl

theorem write_injective (hround : ∀ n, services.BytesToBigInt (services.BigIntToBytes n) = some n) (k : FieldKind) :
    Function.Injective (k.write services) := by
  cases k with
  | number => exact integerContents_injective
  | octets => exact fun _ _ heq => heq
  | bigInt =>
      intro n m heq
      change services.BigIntToBytes n = services.BigIntToBytes m at heq
      have hvalue := congrArg services.BytesToBigInt heq
      rw [hround, hround] at hvalue
      exact Option.some.inj hvalue

/-- The tag of the outermost object tells the kind. -/
theorem encodeTag_header_inj {isKeyBlock isKeyBlock' : Bool} {rest rest' : Bytes}
    (heq : encodeTag (if isKeyBlock then eBERObjectType.keyBlockHeader else eBERObjectType.regularBlockHeader)
          (PRIVATE ||| CONSTRUCTED) ++ rest =
        encodeTag (if isKeyBlock' then eBERObjectType.keyBlockHeader else eBERObjectType.regularBlockHeader)
          (PRIVATE ||| CONSTRUCTED) ++ rest') : isKeyBlock = isKeyBlock' := by
  have htags := congrArg decodeTag heq
  rw [(shortTag_header isKeyBlock).decodeTag_encodeTag, (shortTag_header isKeyBlock').decodeTag_encodeTag,
    Option.some.injEq, Prod.mk.injEq] at htags
  have htypes := htags.1
  cases isKeyBlock <;> cases isKeyBlock'
  · rfl
  · exact absurd htypes (by decide)
  · exact absurd htypes (by decide)
  · rfl

theorem length_integerContents_known {version : ℕ} (hknown : KnownVersion version) :
    (integerContents version).length < 2 ^ 64 :=
  (smallInteger_known hknown).1.trans (by decide)

/-- The bytes determine the version, the kind and every field, the signature where it is included. -/
theorem packed_inj (hround : ∀ n, services.BytesToBigInt (services.BigIntToBytes n) = some n)
    (hpacks : Packs services includeSig header headerBER) (hpacks' : Packs services includeSig header' headerBER) :
    header.mVersion = header'.mVersion ∧ header.mIsKeyBlock = header'.mIsKeyBlock ∧
      ∀ f ∈ decodedFields header.mVersion header.mIsKeyBlock, ¬ (f = .mSignature ∧ !includeSig) →
        header.fields f = header'.fields f := by
  obtain ⟨-, hknown, rfl⟩ := hpacks.spec
  obtain ⟨-, hknown', heq⟩ := hpacks'.spec
  have hsize := hpacks.size_lt
  have hsize' := heq ▸ hsize
  rw [packed_eq_body] at heq hsize hsize'
  rw [packed_eq_body] at heq
  have hbody := (length_le_addObject _ _ _).trans_lt hsize
  have hbody' := (length_le_addObject _ _ _).trans_lt hsize'
  have hkind : header.mIsKeyBlock = header'.mIsKeyBlock := by
    simp only [addObject, List.append_assoc] at heq
    exact encodeTag_header_inj heq
  rw [hkind] at heq
  have hbodies := (addObject_append_inj hbody hbody' (congrArg (· ++ []) heq)).1
  obtain ⟨hcontents, hrows⟩ := addObject_append_inj (length_integerContents_known hknown)
    (length_integerContents_known hknown') hbodies
  have hversion : header.mVersion = header'.mVersion := integerContents_injective hcontents
  have hrowSize : (packedRow services includeSig header).length < 2 ^ 64 := by
    refine lt_of_le_of_lt ((length_le_addObject SEQUENCE (UNIVERSAL ||| CONSTRUCTED) _).trans ?_) hbody
    rw [packedBody, List.length_append]
    exact Nat.le_add_left _ _
  have hrowSize' : (packedRow services includeSig header').length < 2 ^ 64 := by
    refine lt_of_le_of_lt ((length_le_addObject SEQUENCE (UNIVERSAL ||| CONSTRUCTED) _).trans ?_) hbody'
    rw [packedBody, List.length_append]
    exact Nat.le_add_left _ _
  have hrow := (addObject_append_inj hrowSize hrowSize' (congrArg (· ++ []) hrows)).1
  refine ⟨hversion, hkind, fun f hf hsig => ?_⟩
  have hobjects : ∀ header : CBlockHeader Trie, packedRow services includeSig header =
      (decodedFields header.mVersion header.mIsKeyBlock).flatMap fun f =>
        addObject (fieldTag includeSig f) UNIVERSAL (fieldContents services includeSig header f) := by
    intro header
    unfold packedRow
    congr 1
    funext f
    exact packField_eq header includeSig f
  rw [hobjects, hobjects header', ← hversion, ← hkind] at hrow
  rw [hobjects] at hrowSize
  have hfield := objects_inj (fieldTag includeSig) hrowSize hrow f hf
  rw [fieldContents, fieldContents, if_neg hsig, if_neg hsig] at hfield
  exact write_injective hround f.kind hfield

/-! ### With the signature -/

end CBlockHeader

/-- A number that is read back. -/
def FieldKind.Small : (k : FieldKind) → k.Value → Prop
  | .number, n => n < 2 ^ 32
  | .octets, _ => True
  | .bigInt, _ => True

instance : (k : FieldKind) → (value : k.Value) → Decidable (k.Small value)
  | .number, n => inferInstanceAs (Decidable (n < 2 ^ 32))
  | .octets, _ => inferInstanceAs (Decidable True)
  | .bigInt, _ => inferInstanceAs (Decidable True)

/-- The documented behaviour of the constructor of a trie: it does not throw for the hash of an empty node, nor for
a root of 32 bytes where it is not asked to. -/
structure TriesOpen (services : ChainServices Trie) : Prop where
  emptyNodeHash_length : services.getEmptyNodeHash.length = 32
  virgin : ∀ trie, ∃ db, services.newTrieDB trie services.getEmptyNodeHash true true false = .ok db
  rooted : ∀ trie rootHash trackNodes, rootHash.length = 32 →
    ∃ db, services.newTrieDB trie rootHash trackNodes false false = .ok db

namespace CBlockHeader

variable {services : ChainServices Trie} {header header' : CBlockHeader Trie} {headerBER : Bytes}

theorem read_write (hround : ∀ n, services.BytesToBigInt (services.BigIntToBytes n) = some n) {k : FieldKind}
    {value : k.Value} (hsmall : k.Small value) : k.read services (k.write services value) = some value := by
  cases k with
  | number => exact (smallInteger_integerContents value).trans (if_pos hsmall)
  | octets => rfl
  | bigInt => exact hround value

theorem small_of_read {k : FieldKind} {value value' : k.Value}
    (hread : k.read services (k.write services value) = some value') : k.Small value := by
  cases k with
  | number =>
      by_contra hbig
      have hnone : smallInteger (integerContents value) = none :=
        (smallInteger_integerContents value).trans (if_neg hbig)
      exact absurd (hnone.symm.trans hread) nofun
  | octets => trivial
  | bigInt => trivial

/-- Every number that the version carries has at most 32 bits, and the contents are shorter than `2 ^ 32`. -/
structure Readable (services : ChainServices Trie) (header : CBlockHeader Trie) : Prop where
  numbers : ∀ f ∈ decodedFields header.mVersion header.mIsKeyBlock, f.kind.Small (header.fields f)
  length_lt : (packedBody services true header).length < 2 ^ 32

/-- `instantiate` reads the header back: its version, its kind and the fields that the version carries; the others
are those of a new header. -/
def RoundTrips (services : ChainServices Trie) (header : CBlockHeader Trie) (headerBER : Bytes) : Prop :=
  ∀ result errorInfo, ∃ restored result' info fresh,
    instantiate services headerBER result errorInfo .TestNet = (some restored, result', info) ∧
      newBlockHeader services .TestNet true = some fresh ∧
      restored.mVersion = header.mVersion ∧ restored.mIsKeyBlock = header.mIsKeyBlock ∧
      (∀ f ∈ decodedFields header.mVersion header.mIsKeyBlock, restored.fields f = header.fields f) ∧
      ∀ f ∉ decodedFields header.mVersion header.mIsKeyBlock, restored.fields f = fresh.fields f

theorem packedRow_eq (header : CBlockHeader Trie) : packedRow services true header =
    (headerCodec services).row (decodedFields header.mVersion header.mIsKeyBlock) fun f =>
      (headerCodec services).write f (header.fields f) := by
  unfold packedRow FieldCodec.row
  congr 1
  funext f
  simp [packField]

theorem length_packedRow_le (header : CBlockHeader Trie) :
    (packedRow services true header).length ≤ (packedBody services true header).length := by
  refine (length_le_addObject SEQUENCE (UNIVERSAL ||| CONSTRUCTED) _).trans ?_
  rw [packedBody, List.length_append]
  exact Nat.le_add_left _ _

theorem bind_of_ok {α β : Type} {x : Except Failure α} {a : α} (hok : x = .ok a) (f : α → Except Failure β) :
    x >>= f = f a := by
  rw [hok]
  rfl

/-- A regular header carries the roots that are checked. -/
theorem roots_mem_decodedFields {version : ℕ} (hknown : KnownVersion version) :
    ∀ f ∈ [HeaderField.mFinalStateRootID, .mTransactionsRootID, .mReceiptsRootID],
      f ∈ decodedFields version false := by
  rcases known_cases hknown with rfl | rfl | rfl | rfl <;> decide

theorem parentKey_mem_decodedFields {version : ℕ} (hknown : KnownVersion version) :
    ∀ f ∈ [HeaderField.mParentKeyBlockID, .mHeight], f ∈ decodedFields version true := by
  rcases known_cases hknown with rfl | rfl | rfl | rfl <;> decide

/-- A readable header is read from its bytes. -/
theorem readHeader_packed (hround : ∀ n, services.BytesToBigInt (services.BigIntToBytes n) = some n)
    (hpacks : Packs services true header headerBER) (hreadable : Readable services header) (bh : CBlockHeader Trie) :
    ∃ fields, readHeader services bh headerBER =
        .ok { bh with mVersion := header.mVersion, mIsKeyBlock := header.mIsKeyBlock, fields } ∧
      (∀ f ∈ decodedFields header.mVersion header.mIsKeyBlock, fields f = header.fields f) ∧
      ∀ f ∉ decodedFields header.mVersion header.mIsKeyBlock, fields f = bh.fields f := by
  obtain ⟨-, hknown, rfl⟩ := hpacks.spec
  have hrow : (packedRow services true header).length < 2 ^ 32 :=
    (length_packedRow_le header).trans_lt hreadable.length_lt
  have hcontents : ∀ f ∈ decodedFields header.mVersion header.mIsKeyBlock,
      ((headerCodec services).write f (header.fields f)).length < 2 ^ 32 := fun f hf =>
    ((headerCodec services).length_contents_le hf).trans_lt (packedRow_eq header ▸ hrow)
  have hread : ∀ f ∈ decodedFields header.mVersion header.mIsKeyBlock,
      (headerCodec services).read f ((headerCodec services).write f (header.fields f)) = some (header.fields f) :=
    fun f hf => read_write hround (hreadable.numbers f hf)
  obtain ⟨fields, hdecode⟩ := Option.isSome_iff_exists.mp <|
    (headerCodec services).decode_row_isSome hcontents (fun f hf => by rw [hread f hf]; rfl) bh.fields []
  have hfields : ∀ f ∈ decodedFields header.mVersion header.mIsKeyBlock, fields f = header.fields f := by
    intro f hf
    have hvalue := (headerCodec services).read_of_decode_row (decodedFields_nodup _ _) hcontents hdecode f hf
    rw [hread f hf] at hvalue
    exact (Option.some.inj hvalue).symm
  refine ⟨fields, ?_, hfields, fun f hf => (headerCodec services).decode_other hdecode hf⟩
  have houter := (shortTag_header header.mIsKeyBlock).getNextObject_addObject_last hreadable.length_lt
  have hversion : decodeSmall (packedBody services true header) =
      some (header.mVersion, cons SEQUENCE UNIVERSAL (packedRow services true header)) := by
    obtain ⟨hlength, hsmall⟩ := smallInteger_known hknown
    refine (decodeSmall_addObject hlength _).trans ?_
    rw [hsmall]
    rfl
  have hinner := shortTag_sequence.getNextObject_addObject_last hrow
  rw [← packed_eq_body] at houter
  rw [List.append_nil] at hdecode
  change getNextObject (cons SEQUENCE UNIVERSAL (packedRow services true header)) = _ at hinner
  rw [← packedRow_eq] at hdecode
  have hkind : isKeyBlockHeader ⟨if header.mIsKeyBlock then eBERObjectType.keyBlockHeader
      else eBERObjectType.regularBlockHeader, PRIVATE ||| CONSTRUCTED, packedBody services true header⟩ =
        .ok header.mIsKeyBlock := by
    cases header.mIsKeyBlock <;> rfl
  have hverify : verifyPerspectives header.mVersion header.mIsKeyBlock fields = .ok () := by
    unfold verifyPerspectives
    cases hregular : header.mIsKeyBlock with
    | true => rw [if_neg (by simp)]
    | false =>
        have hmem := roots_mem_decodedFields hknown
        rw [hregular] at hfields
        rw [if_pos ⟨hknown, rfl⟩, hfields _ (hmem _ (by decide)), hfields _ (hmem _ (by decide)),
          hfields _ (hmem _ (by decide)), hpacks.roots.finalState, hpacks.roots.transactions,
          hpacks.roots.receipts]
        rfl
  rw [readHeader, bind_of_ok (congrArg orCaught houter)]
  dsimp only
  rw [bind_of_ok hkind, bind_of_ok (congrArg orCaught hversion)]
  dsimp only
  rw [bind_of_ok (congrArg orCaught hinner)]
  dsimp only
  rw [bind_of_ok (congrArg orCaught hdecode), bind_of_ok hverify]
  rfl

/-- A new header has the root of an empty trie. -/
theorem newBlockHeader_some (hopens : TriesOpen services) : ∃ fresh,
    newBlockHeader services .TestNet true = some fresh ∧
      fresh.fields .mTransactionsRootID = services.getEmptyNodeHash := by
  obtain ⟨transactionsDB, htransactions⟩ := hopens.virgin .transactions
  obtain ⟨receiptsDB, hreceipts⟩ := hopens.virgin .receipts
  obtain ⟨verifiablesDB, hverifiables⟩ := hopens.virgin .verifiables
  unfold newBlockHeader
  rw [if_neg (by decide)]
  simp only [htransactions, hreceipts, hverifiables]
  exact ⟨_, rfl, rfl⟩

/-- The tries open over roots of 32 bytes. -/
theorem openTries_some (hopens : TriesOpen services) {read : CBlockHeader Trie}
    (htransactions : (read.fields .mTransactionsRootID).length = 32)
    (hreceipts : (read.fields .mReceiptsRootID).length = 32)
    (hverifiables : (read.fields .mVerifiablesRootID).length = 32)
    (hparent : read.mIsKeyBlock = true → read.fields .mHeight ≠ (0 : ℕ) →
      (read.fields .mParentKeyBlockID).length = 32) :
    ∃ restored result, openTries services read = .ok (restored, result) := by
  obtain ⟨transactionsDB, hfirst⟩ := hopens.rooted .transactions _ false htransactions
  obtain ⟨receiptsDB, hsecond⟩ := hopens.rooted .receipts _ true hreceipts
  obtain ⟨verifiablesDB, hthird⟩ := hopens.rooted .verifiables _ false hverifiables
  have hopen : ∀ {trie rootHash trackNodes db}, services.newTrieDB trie rootHash trackNodes false false = .ok db →
      openTrie services trie rootHash trackNodes = .ok db := by
    intro trie rootHash trackNodes db hdb
    rw [openTrie, hdb]
  rw [openTries, bind_of_ok (hopen hfirst), bind_of_ok (hopen hsecond), bind_of_ok (hopen hthird)]
  dsimp only
  rw [if_neg]
  · exact ⟨_, _, rfl⟩
  · intro hmissing
    simp only [Bool.and_eq_true, bne_iff_ne, ne_eq] at hmissing
    exact hmissing.1.2 (hparent hmissing.1.1 hmissing.2)

theorem roundTrips_of_readable (hround : ∀ n, services.BytesToBigInt (services.BigIntToBytes n) = some n)
    (hopens : TriesOpen services) (hpacks : Packs services true header headerBER)
    (hreadable : Readable services header) : RoundTrips services header headerBER := by
  intro result errorInfo
  obtain ⟨hvalid, hknown, -⟩ := hpacks.spec
  obtain ⟨fresh, hfresh, hroot⟩ := newBlockHeader_some hopens
  obtain ⟨fields, hread, hfields, hothers⟩ := readHeader_packed hround hpacks hreadable fresh
  have hcommon := common_mem_decodedFields hknown header.mIsKeyBlock
  have htransactions : (fields .mTransactionsRootID).length = 32 := by
    by_cases hmem : HeaderField.mTransactionsRootID ∈ decodedFields header.mVersion header.mIsKeyBlock
    · rw [hfields _ hmem, hpacks.roots.transactions]
    · rw [hothers _ hmem, hroot, hopens.emptyNodeHash_length]
  have hreceipts : (fields .mReceiptsRootID).length = 32 := by
    rw [hfields _ (hcommon _ (by decide)), hpacks.roots.receipts]
  have hverifiables : (fields .mVerifiablesRootID).length = 32 := by
    rw [hfields _ (hcommon _ (by decide)), hpacks.roots.verifiables]
  have hparent : header.mIsKeyBlock = true → fields .mHeight ≠ (0 : ℕ) →
      (fields .mParentKeyBlockID).length = 32 := by
    intro hkey hheight
    have hmem := parentKey_mem_decodedFields hknown
    rw [← hkey] at hmem
    rw [hfields _ (hmem _ (by decide))] at hheight ⊢
    exact ((validate_iff header).mp hvalid).parentKey hkey hheight
  obtain ⟨restored, result', hopen⟩ := @openTries_some _ services hopens
    { fresh with mVersion := header.mVersion, mIsKeyBlock := header.mIsKeyBlock, fields }
    htransactions hreceipts hverifiables hparent
  obtain ⟨⟨hversion, hkind, hsame⟩, -⟩ := openTries_ok hopen
  refine ⟨restored, result', errorInfo, fresh, ?_, hfresh, hversion, hkind, ?_, ?_⟩
  · unfold instantiate
    simp only [hfresh]
    rw [bind_of_ok hread, hopen]
  · intro f hf
    rw [hsame]
    exact hfields f hf
  · intro f hf
    rw [hsame]
    exact hothers f hf

theorem readable_of_roundTrips (hround : ∀ n, services.BytesToBigInt (services.BigIntToBytes n) = some n)
    (hpacks : Packs services true header headerBER) (htrips : RoundTrips services header headerBER) :
    Readable services header := by
  obtain ⟨hvalid, hknown, rfl⟩ := hpacks.spec
  obtain ⟨restored, result', info, fresh, hinstantiate, -, -, -, -, -⟩ := htrips .OK ""
  obtain ⟨bh, read, hread, -⟩ := instantiate_some hinstantiate
  have hform := canonicalForm_of_valid hround ((validate_iff header).mp hvalid) hknown
  rw [fillRoots_of_sized hpacks.roots] at hform
  obtain ⟨-, -, hcontents⟩ := readHeader_canonical hform hpacks.size_lt hread
  refine ⟨fun f hf => small_of_read (hcontents f hf), ?_⟩
  by_contra hlong
  obtain ⟨outer, rest, _, _, _, houter, -⟩ := readHeader_ok hread
  have hsize := hpacks.size_lt
  rw [packed_eq_body] at hsize
  have hbody := (length_le_addObject _ _ _).trans_lt hsize
  have hnone := (shortTag_header header.mIsKeyBlock).getNextObject_addObject_last_none (Nat.not_lt.mp hlong) hbody
  rw [← packed_eq_body, houter] at hnone
  cases hnone

end CBlockHeader

open CBlockHeader in
theorem header_roundTrips_iff (services : ChainServices Trie)
    (hround : ∀ n, services.BytesToBigInt (services.BigIntToBytes n) = some n) (hopens : TriesOpen services) :
    (∀ header headerBER, Packs services true header headerBER →
      (RoundTrips services header headerBER ↔ Readable services header)) ∧
    ∀ header header' headerBER, Packs services false header headerBER → Packs services false header' headerBER →
      header.mVersion = header'.mVersion ∧ header.mIsKeyBlock = header'.mIsKeyBlock ∧
        ∀ f ∈ decodedFields header.mVersion header.mIsKeyBlock, f ≠ .mSignature →
          header.fields f = header'.fields f := by
  refine ⟨fun header headerBER hpacks => ⟨readable_of_roundTrips hround hpacks,
    roundTrips_of_readable hround hopens hpacks⟩, fun header header' headerBER hpacks hpacks' => ?_⟩
  obtain ⟨hversion, hkind, hfields⟩ := packed_inj hround hpacks hpacks'
  exact ⟨hversion, hkind, fun f hf hsig => hfields f hf fun hleft => hsig hleft.1⟩

/-! ### A key block's header -/

namespace CBlock

/-- Its nonce is the only number that is not zero. -/
def minedHeader (nonce : ℕ) : CBlockHeader Bytes where
  mVersion := 4
  mIsKeyBlock := true
  fields
    | .mNonce => nonce
    | .mSignature => [1]
    | .mPublicKey => List.replicate 32 7
    | .mInitiallStateRootID => List.replicate 32 1
    | .mFinalStateRootID => List.replicate 32 2
    | .mReceiptsRootID => List.replicate 32 3
    | .mVerifiablesRootID => List.replicate 32 4
    | .mTransactionsRootID => List.replicate 32 5
    | f => f.kind.zero
  mTransactionsDB := []
  mReceiptsDB := []
  mVerifiablesDB := []

def minedData (nonce : ℕ) : Bytes := ((minedHeader nonce).getPackedData emptyNode [] true).2.1

theorem triesOpen_emptyNode : TriesOpen emptyNode where
  emptyNodeHash_length := rfl
  virgin := fun _ => ⟨_, rfl⟩
  rooted := fun _ _ _ _ => ⟨_, rfl⟩

theorem packs_minedHeader {nonce : ℕ} (hpacked : ((minedHeader nonce).getPackedData emptyNode [] true).1 = true)
    (hsize : (minedData nonce).length < 2 ^ 64) :
    CBlockHeader.Packs emptyNode true (minedHeader nonce) (minedData nonce) where
  roots := ⟨rfl, rfl, rfl, rfl, rfl⟩
  packs := ⟨[], _, Prod.ext hpacked rfl⟩
  size_lt := hsize

theorem minedHeader_roundTrips : CBlockHeader.RoundTrips emptyNode (minedHeader 70000) (minedData 70000) :=
  ((header_roundTrips_iff emptyNode emptyNode_round triesOpen_emptyNode).1 _ _
    (packs_minedHeader (by decide +kernel) (by decide +kernel))).mpr
      ⟨by decide +kernel, by decide +kernel⟩

/-- A nonce of 33 bits is written but not read. -/
theorem minedHeader_lost : ∃ headerBER, CBlockHeader.Packs emptyNode true (minedHeader (2 ^ 32)) headerBER ∧
    ¬ CBlockHeader.RoundTrips emptyNode (minedHeader (2 ^ 32)) headerBER := by
  refine ⟨minedData (2 ^ 32), packs_minedHeader (by decide +kernel) (by decide +kernel), fun htrips => ?_⟩
  obtain ⟨restored, result', info, fresh, hinstantiate, -⟩ := htrips .OK ""
  have hnone : (CBlockHeader.instantiate emptyNode (minedData (2 ^ 32)) .OK "" .TestNet).1.isNone = true := by
    decide +kernel
  rw [hinstantiate] at hnone
  cases hnone

end CBlock

end Gridnet
