import Gridnet.DerTrees
import Gridnet.FraudProofs
import Gridnet.Machine

/-! How the node spots frauds among the blocks that reach it. The first header of a height under a key block is
logged before its signature is checked, and every other one is compared with it: the alarms are as sound as what
was logged first. -/

namespace Gridnet

inductive eFraudCheckResult where
  | keyBlockUnavailable
  | newFraud
  | OK
  | error
  | alreadyReported
  deriving DecidableEq, Repr

/-- What is looked up in a stored block: of a receipt the ID of its verifiable. -/
structure ReportingBlock where
  getReceipt : Bytes → Option Bytes
  getVerifiable : Bytes → Option CVerifiable

/-- A block that reaches `doCommonVerification`, with what it finds in the node: whether the block was scheduled for
processing and forks, whether its parent is there, the ID of its key block, the version its height requires, the
links and blocks of the solid storage, and the signature of the node under a verifiable. -/
structure Arrival (Trie : Type) where
  header : CBlockHeader Trie
  analyzeAsLeaderCandidate : Bool
  isForking : Bool
  parentKnown : Bool
  keyBlockID : Option Bytes
  requiredVersion : ℕ
  loadLink : Bytes → eLinkType → Option Bytes
  getBlockByHash : Bytes → Option ReportingBlock
  sign : CVerifiable → Option (Bytes × Bytes)

namespace Arrival

variable {Trie : Type}

/-- `doCommonVerification` returns before it logs the block. -/
def discarded (a : Arrival Trie) : Bool :=
  (a.analyzeAsLeaderCandidate && a.isForking && (a.keyBlockID.isNone || !a.parentKnown)) ||
    decide (a.header.fields .mCoreVersion < a.requiredVersion)

/-- Whether a proof of the fraud is in a stored block; `none` where a link or an object it leads to is missing. -/
def cashedOutAlready (a : Arrival Trie) (fraudID : Bytes) : Option Bool :=
  match a.loadLink fraudID .PoFIDtoReceiptID with
  | none => some false
  | some receiptGUID => do
      let receiptsHash ← a.loadLink receiptGUID .receiptsGUIDtoReceiptsHash
      let blockID ← a.loadLink receiptsHash .receiptHashToBlockID
      match a.getBlockByHash blockID with
      | none => some false
      | some block => do
          let verifiableID ← block.getReceipt receiptsHash
          let _ ← block.getVerifiable verifiableID
          some true

/-- A proof of the fraud is in a stored block. -/
def Reported (a : Arrival Trie) (fraudID : Bytes) : Prop :=
  ∃ receiptGUID receiptsHash blockID block verifiableID v,
    a.loadLink fraudID .PoFIDtoReceiptID = some receiptGUID ∧
    a.loadLink receiptGUID .receiptsGUIDtoReceiptsHash = some receiptsHash ∧
    a.loadLink receiptsHash .receiptHashToBlockID = some blockID ∧
    a.getBlockByHash blockID = some block ∧
    block.getReceipt receiptsHash = some verifiableID ∧
    block.getVerifiable verifiableID = some v

theorem reported_of_cashedOutAlready {a : Arrival Trie} {fraudID : Bytes}
    (hcashed : a.cashedOutAlready fraudID = some true) : a.Reported fraudID := by
  unfold cashedOutAlready at hcashed
  split at hcashed
  case h_1 => cases hcashed
  case h_2 receiptGUID hguid =>
    obtain ⟨receiptsHash, hreceipt, hcashed⟩ := Option.bind_eq_some_iff.mp hcashed
    obtain ⟨blockID, hblockID, hcashed⟩ := Option.bind_eq_some_iff.mp hcashed
    split at hcashed
    case h_1 => cases hcashed
    case h_2 block hblock =>
      obtain ⟨verifiableID, hid, hcashed⟩ := Option.bind_eq_some_iff.mp hcashed
      obtain ⟨v, hv, -⟩ := Option.bind_eq_some_iff.mp hcashed
      exact ⟨receiptGUID, receiptsHash, blockID, block, verifiableID, v, hguid, hreceipt, hblockID, hblock, hid, hv⟩

end Arrival

section Detection

variable {Trie : Type} (S : VerifiableServices Trie) (keyBlocks : Bytes → CBlockHeader Trie)

/-- `getHeight`, as the log hashes it. -/
def CBlockHeader.loggedHeight (header : CBlockHeader Trie) : UInt64 := .ofNat (header.fields .mHeight)

/-- The links of type `BHeightPKtoBlockHeader`. -/
abbrev HeaderLog := Bytes → Option Bytes

/-- The bytes of a height under a key block. -/
def logData (keyBlockID : Bytes) (height : UInt64) : Bytes :=
  ((({} : CDataConcatenator).addVec keyBlockID).add height).getData

def logKey (keyBlockID : Bytes) (height : UInt64) : Bytes :=
  S.headers.cf.getSHA2_256Vec (logData keyBlockID height)

/-- `getID` of a block: the hash of its packed header. -/
def blockIDOf (header : CBlockHeader Trie) : Bytes :=
  S.headers.cf.getSHA2_256Vec (header.getPackedData S.headers [] true).2.1

/-- A key block is logged under its own ID. -/
def logBlock (log : HeaderLog) (header : CBlockHeader Trie) (keyBlockID : Bytes) : Bool × HeaderLog :=
  let keyBlockID := if header.mIsKeyBlock then blockIDOf S header else keyBlockID
  let key := logKey S keyBlockID header.loggedHeight
  if (log key).isSome then (false, log)
  else match header.getPackedData S.headers [] true with
    | (true, headerBody, _) => (true, Function.update log key (some headerBody))
    | (false, _, _) => (false, log)

/-- The proof with the bodies of the three headers, once it is known that the last two differ. -/
def reportFraud (a : Arrival Trie) (keyBlock : CBlockHeader Trie) (previousHeaderBody currentBlockHeaderBody : Bytes) :
    eFraudCheckResult × CVerifiable :=
  match keyBlock.getPackedData S.headers [] true with
  | (true, packedKeyBlockHeader, keyBlock) =>
      match setPoFProof packedKeyBlockHeader previousHeaderBody currentBlockHeaderBody,
        keyBlock.getHash S.headers false with
      | some mProof, some (hash, _) =>
          match a.cashedOutAlready (S.getProofOfFraudID hash) with
          | none => (.error, {})
          | some true => (.alreadyReported, {})
          | some false =>
              match a.sign { mVerifiableType := .proofOfFraud, mProof } with
              | none => (.error, {})
              | some (mPubKey, mSignature) =>
                  (.newFraud, { mVerifiableType := .proofOfFraud, mProof, mPubKey, mSignature })
      | _, _ => (.error, {})
  | (false, _, _) => (.error, {})

/-- The answer, and the proof of a new fraud. Key blocks are found by their IDs. -/
def checkForFraud (log : HeaderLog) (a : Arrival Trie) : eFraudCheckResult × CVerifiable :=
  if a.header.mIsKeyBlock then (.error, {})
  else match a.keyBlockID with
    | none => (.keyBlockUnavailable, {})
    | some keyBlockID =>
        if keyBlockID.length ≠ 32 then (.error, {})
        else match log (logKey S keyBlockID a.header.loggedHeight) with
          | none => (.OK, {})
          | some previousHeaderBody =>
              if blockIDOf S a.header = S.headers.cf.getSHA2_256Vec previousHeaderBody then (.OK, {})
              else reportFraud S a (keyBlocks keyBlockID) previousHeaderBody
                (a.header.getPackedData S.headers [] true).2.1

/-- What `doCommonVerification` logs. -/
def logArrival (log : HeaderLog) (a : Arrival Trie) : HeaderLog :=
  if a.header.mIsKeyBlock then (logBlock S log a.header []).2
  else match a.keyBlockID with
    | none => log
    | some keyBlockID => (logBlock S log a.header keyBlockID).2

/-- The part of `doCommonVerification` up to the check for frauds; no answer where it returns before. -/
def receive (log : HeaderLog) (a : Arrival Trie) : Option (eFraudCheckResult × CVerifiable) × HeaderLog :=
  if a.discarded then (none, log)
  else (some (checkForFraud S keyBlocks (logArrival S log a) a), logArrival S log a)

/-! ### What detection should be -/

/-- The header is packed into these bytes. -/
def Packs (header : CBlockHeader Trie) (body : Bytes) : Prop :=
  ∃ filled, header.getPackedData S.headers [] true = (true, body, filled)

/-- The fraud that a proof shows: two different data blocks that arrived for one height under one key block, both
signed with its key. -/
structure ShowsFraud (first second : Arrival Trie) (keyBlockID : Bytes) (proof : CVerifiable) : Prop where
  dataBlocks : first.header.mIsKeyBlock = false ∧ second.header.mIsKeyBlock = false
  sameKeyBlock : first.keyBlockID = some keyBlockID ∧ second.keyBlockID = some keyBlockID
  sameHeight : first.header.loggedHeight = second.header.loggedHeight
  bodies : ∃ kbBody body₁ body₂, Packs S (keyBlocks keyBlockID) kbBody ∧ Packs S first.header body₁ ∧
    Packs S second.header body₂ ∧ body₁ ≠ body₂ ∧ setPoFProof kbBody body₁ body₂ = some proof.mProof
  signed : S.verifyBlockSignature first.header ((keyBlocks keyBlockID).fields .mPublicKey) = true ∧
    S.verifyBlockSignature second.header ((keyBlocks keyBlockID).fields .mPublicKey) = true

/-- Two different data blocks for one height under one key block. -/
structure Conflict (first second : Arrival Trie) (keyBlockID : Bytes) : Prop where
  length : keyBlockID.length = 32
  dataBlocks : first.header.mIsKeyBlock = false ∧ second.header.mIsKeyBlock = false
  sameKeyBlock : first.keyBlockID = some keyBlockID ∧ second.keyBlockID = some keyBlockID
  sameHeight : first.header.loggedHeight = second.header.loggedHeight
  different : blockIDOf S first.header ≠ blockIDOf S second.header

/-- The check reaches an answer: the block and its key block are packed, the links of an earlier report lead to what
they say, and the node signs its proofs. -/
structure Answerable (a : Arrival Trie) (keyBlockID : Bytes) : Prop where
  reached : a.discarded = false
  packs : ∃ body, Packs S a.header body
  keyBlockPacks : ∃ body, Packs S (keyBlocks keyBlockID) body
  links : ∀ fraudID, a.cashedOutAlready fraudID ≠ none
  signs : ∀ v, (a.sign v).isSome = true

/-- The log after blocks arrived, from an empty one on. -/
def logAfter (arrivals : List (Arrival Trie)) : HeaderLog :=
  Machine.final (receive S keyBlocks) (fun _ => none) arrivals

def answerAfter (arrivals : List (Arrival Trie)) (a : Arrival Trie) : Option (eFraudCheckResult × CVerifiable) :=
  (receive S keyBlocks (logAfter S keyBlocks arrivals) a).1

def Detects (arrivals : List (Arrival Trie)) (a : Arrival Trie) : Prop :=
  ∃ proof, answerAfter S keyBlocks arrivals a = some (.newFraud, proof) ∨
    answerAfter S keyBlocks arrivals a = some (.alreadyReported, proof)

/-- There are no false alarms, and no conflict is overlooked. -/
structure Vigilant (arrivals : List (Arrival Trie)) : Prop where
  alarms : ∀ before a after proof, arrivals = before ++ a :: after →
    answerAfter S keyBlocks before a = some (.newFraud, proof) →
      ∃ first ∈ before, ∃ keyBlockID, ShowsFraud S keyBlocks first a keyBlockID proof
  reported : ∀ before a after proof, arrivals = before ++ a :: after →
    answerAfter S keyBlocks before a = some (.alreadyReported, proof) →
      ∃ keyBlockID hash, a.keyBlockID = some keyBlockID ∧
        ((keyBlocks keyBlockID).getHash S.headers false).map Prod.fst = some hash ∧
        a.Reported (S.getProofOfFraudID hash)
  detected : ∀ before first between second after keyBlockID,
    arrivals = before ++ first :: (between ++ second :: after) → Conflict S first second keyBlockID →
      Answerable S keyBlocks first keyBlockID → Answerable S keyBlocks second keyBlockID →
        Detects S keyBlocks before first ∨ Detects S keyBlocks (before ++ first :: between) second

/-- A block that gives no false alarm later on: a data block is signed with the key of its key block, and not for the
height of that; a key block is the one that is found by its ID. -/
structure Genuine (a : Arrival Trie) : Prop where
  signed : a.header.mIsKeyBlock = false → ∀ keyBlockID, a.keyBlockID = some keyBlockID →
    S.verifyBlockSignature a.header ((keyBlocks keyBlockID).fields .mPublicKey) = true
  above : a.header.mIsKeyBlock = false → ∀ keyBlockID, a.keyBlockID = some keyBlockID →
    a.header.loggedHeight ≠ (keyBlocks keyBlockID).loggedHeight
  found : a.header.mIsKeyBlock = true → (keyBlocks (blockIDOf S a.header)).loggedHeight = a.header.loggedHeight

/-- What a block is logged under. -/
def loggedUnder (a : Arrival Trie) : Option Bytes :=
  if a.header.mIsKeyBlock then some (logData (blockIDOf S a.header) a.header.loggedHeight)
  else a.keyBlockID.map fun keyBlockID => logData keyBlockID a.header.loggedHeight

/-- No two of the blocks are logged under different heights and key blocks of the same hash. -/
def CollisionFree (arrivals : List (Arrival Trie)) : Prop :=
  ∀ first ∈ arrivals, ∀ second ∈ arrivals, ∀ data ∈ loggedUnder S first, ∀ data' ∈ loggedUnder S second,
    S.headers.cf.getSHA2_256Vec data = S.headers.cf.getSHA2_256Vec data' → data = data'

/-! ### Packed headers -/

variable {S keyBlocks} {header : CBlockHeader Trie} {body : Bytes}

theorem Packs.blockIDOf_eq (hpacks : Packs S header body) :
    blockIDOf S header = S.headers.cf.getSHA2_256Vec body := by
  obtain ⟨filled, hpacked⟩ := hpacks
  rw [blockIDOf, hpacked]

/-- A header that is not packed leaves nothing. -/
theorem packs_of_ne_nil (hne : (header.getPackedData S.headers [] true).2.1 ≠ []) :
    Packs S header (header.getPackedData S.headers [] true).2.1 := by
  unfold Packs
  unfold CBlockHeader.getPackedData at hne ⊢
  split_ifs at hne ⊢
  · exact absurd rfl hne
  · exact ⟨_, rfl⟩
  · exact absurd rfl hne

theorem Packs.ne_nil (hpacks : Packs S header body) : body ≠ [] := by
  obtain ⟨filled, hpacked⟩ := hpacks
  unfold CBlockHeader.getPackedData at hpacked
  split_ifs at hpacked
  · cases hpacked
  · obtain rfl := (Prod.mk.inj (Prod.mk.inj hpacked).2).1
    exact Framing.distinguished.add_ne_nil _ _ _
  · cases hpacked

/-- Packing a header again changes nothing. -/
theorem getPackedData_filled {filled : CBlockHeader Trie}
    (hpacked : header.getPackedData S.headers [] true = (true, body, filled)) :
    filled.getPackedData S.headers [] true = (true, body, filled) := by
  have hfst : (header.getPackedData S.headers [] true).1 = true := by rw [hpacked]
  obtain ⟨hvalid, hknown⟩ := (CBlockHeader.getPackedData_fst_iff header []).mp hfst
  rw [CBlockHeader.getPackedData_eq hvalid hknown] at hpacked
  obtain ⟨hbody, hfilled⟩ := Prod.mk.inj (Prod.mk.inj hpacked).2
  subst hbody
  subst hfilled
  have hsame : ∀ {f : HeaderField}, f ∉ [HeaderField.mTransactionsRootID, .mReceiptsRootID, .mVerifiablesRootID] →
      (header.fillRoots S.headers).fields f = header.fields f := fun hf => CBlockHeader.fillRoots_other header hf
  have hvalidAgain : (header.fillRoots S.headers).Valid := by
    refine ⟨?_, ?_, ?_, ?_⟩
    · rw [hsame (by decide)]
      exact hvalid.publicKey
    · rw [hsame (by decide), hsame (by decide)]
      exact hvalid.parentKey
    · rw [hsame (by decide), hsame (by decide)]
      exact hvalid.parent
    · rw [hsame (by decide)]
      exact hvalid.signature
  have hroots : (header.fillRoots S.headers).fillRoots S.headers = header.fillRoots S.headers := by
    apply CBlockHeader.fillRoots_of_ne_nil
    · intro hregular
      change header.mIsKeyBlock = false at hregular
      simp only [CBlockHeader.fillRoots, hregular]
      exact CBlockHeader.fillRoot_ne_nil _ _
    · simp only [CBlockHeader.fillRoots]
      exact CBlockHeader.fillRoot_ne_nil _ _
    · simp only [CBlockHeader.fillRoots]
      exact CBlockHeader.fillRoot_ne_nil _ _
  rw [CBlockHeader.getPackedData_eq hvalidAgain hknown, hroots]

theorem getHash_of_packed {filled : CBlockHeader Trie}
    (hpacked : header.getPackedData S.headers [] true = (true, body, filled)) :
    (header.getHash S.headers false).map Prod.fst = some (S.headers.cf.getSHA2_256Vec body) := by
  have hcached : ¬(false && !header.mHashTemp.isEmpty) = true := Bool.false_ne_true
  rw [CBlockHeader.getHash, if_neg hcached, hpacked]
  rfl

/-! ### The log -/

theorem logData_eq (keyBlockID : Bytes) (height : UInt64) :
    logData keyBlockID height = keyBlockID ++ fixedBytes 8 height.toNat := by
  have hempty : ({} : CDataConcatenator).addVec keyBlockID = ⟨keyBlockID, keyBlockID.length, 0⟩ := by
    unfold CDataConcatenator.addVec
    split_ifs with hlength hlimit
    · rw [List.length_eq_zero_iff.mp hlength]
      rfl
    · exact absurd rfl hlimit.1
    · simp [CDataConcatenator.write, CDataConcatenator.memcpy]
  rw [logData, hempty]
  simp [CDataConcatenator.add, CDataConcatenator.write, CDataConcatenator.memcpy, CDataConcatenator.getData,
    fixedBytes_length]

theorem logData_injective {keyBlockID keyBlockID' : Bytes} {height height' : UInt64}
    (heq : logData keyBlockID height = logData keyBlockID' height') :
    keyBlockID = keyBlockID' ∧ height = height' := by
  rw [logData_eq, logData_eq] at heq
  have hlength : (fixedBytes 8 height.toNat).length = (fixedBytes 8 height'.toNat).length := by
    rw [fixedBytes_length, fixedBytes_length]
  obtain ⟨hid, hheight⟩ := List.append_inj' heq hlength
  exact ⟨hid, CTransaction.fixedBytes_uint64 hheight⟩

theorem logBlock_cases (log : HeaderLog) (header : CBlockHeader Trie) (keyBlockID : Bytes) :
    (logBlock S log header keyBlockID).2 = log ∨
      ∃ body, Packs S header body ∧
        log (logKey S (if header.mIsKeyBlock then blockIDOf S header else keyBlockID) header.loggedHeight) = none ∧
        (logBlock S log header keyBlockID).2 = Function.update log
          (logKey S (if header.mIsKeyBlock then blockIDOf S header else keyBlockID) header.loggedHeight) (some body) := by
  unfold logBlock
  dsimp only
  split_ifs with hkey hlogged hlogged
  · exact .inl rfl
  · split
    case h_1 body filled hpacked => exact .inr ⟨body, ⟨filled, hpacked⟩, Option.not_isSome_iff_eq_none.mp hlogged, rfl⟩
    case h_2 => exact .inl rfl
  · exact .inl rfl
  · split
    case h_1 body filled hpacked => exact .inr ⟨body, ⟨filled, hpacked⟩, Option.not_isSome_iff_eq_none.mp hlogged, rfl⟩
    case h_2 => exact .inl rfl

/-- What a block adds to the log. -/
theorem logArrival_cases (log : HeaderLog) (a : Arrival Trie) :
    logArrival S log a = log ∨ ∃ data ∈ loggedUnder S a, ∃ body, Packs S a.header body ∧
      log (S.headers.cf.getSHA2_256Vec data) = none ∧
      logArrival S log a = Function.update log (S.headers.cf.getSHA2_256Vec data) (some body) := by
  unfold logArrival loggedUnder
  split_ifs with hkey
  · rcases logBlock_cases log a.header [] with hsame | ⟨body, hpacks, hfree, hupdate⟩
    · exact .inl hsame
    · rw [if_pos hkey] at hfree hupdate
      exact .inr ⟨_, rfl, body, hpacks, hfree, hupdate⟩
  · cases hid : a.keyBlockID with
    | none => exact .inl rfl
    | some keyBlockID =>
        rcases logBlock_cases log a.header keyBlockID with hsame | ⟨body, hpacks, hfree, hupdate⟩
        · exact .inl hsame
        · rw [if_neg hkey] at hfree hupdate
          exact .inr ⟨_, rfl, body, hpacks, hfree, hupdate⟩

/-- What is logged stays. -/
theorem logArrival_of_some {log : HeaderLog} {a : Arrival Trie} {key : Bytes} (hlogged : log key = some body) :
    logArrival S log a key = some body := by
  rcases logArrival_cases (S := S) log a with hsame | ⟨data, hdata, body', hpacks, hfree, hupdate⟩
  · rw [hsame, hlogged]
  · rw [hupdate, Function.update_of_ne, hlogged]
    rintro rfl
    rw [hfree] at hlogged
    cases hlogged

/-- A data block that is packed is logged, or another one was before it. -/
theorem logArrival_isSome {a : Arrival Trie} {keyBlockID : Bytes} (hdata : a.header.mIsKeyBlock = false)
    (hid : a.keyBlockID = some keyBlockID) (hpacks : Packs S a.header body) (log : HeaderLog) :
    ∃ logged, logArrival S log a (logKey S keyBlockID a.header.loggedHeight) = some logged := by
  obtain ⟨filled, hpacked⟩ := hpacks
  have hregular : ¬ a.header.mIsKeyBlock = true := by rw [hdata]; exact Bool.false_ne_true
  rw [logArrival, if_neg hregular, hid]
  dsimp only
  unfold logBlock
  rw [if_neg hregular, hpacked]
  dsimp only
  split_ifs with hlogged
  · exact Option.isSome_iff_exists.mp hlogged
  · exact ⟨body, Function.update_self _ _ _⟩

/-- Everything that is logged is the packed header of one of the blocks, logged under what it says. -/
def LogOf (arrivals : List (Arrival Trie)) (log : HeaderLog) : Prop :=
  ∀ key body, log key = some body → ∃ b ∈ arrivals, b.discarded = false ∧ Packs S b.header body ∧
    ∃ data ∈ loggedUnder S b, key = S.headers.cf.getSHA2_256Vec data

theorem receive_log (log : HeaderLog) (a : Arrival Trie) :
    (receive S keyBlocks log a).2 = if a.discarded then log else logArrival S log a := by
  unfold receive
  split_ifs <;> rfl

theorem logOf_receive {arrivals : List (Arrival Trie)} {log : HeaderLog} (hlog : LogOf (S := S) arrivals log)
    {a : Arrival Trie} (ha : a ∈ arrivals) : LogOf (S := S) arrivals (receive S keyBlocks log a).2 := by
  intro key body hbody
  rw [receive_log] at hbody
  split_ifs at hbody with hdiscarded
  · exact hlog key body hbody
  · rcases logArrival_cases (S := S) log a with hsame | ⟨data, hdata, body', hpacks, -, hupdate⟩
    · rw [hsame] at hbody
      exact hlog key body hbody
    · rw [hupdate] at hbody
      by_cases hkey : key = S.headers.cf.getSHA2_256Vec data
      · rw [hkey, Function.update_self] at hbody
        obtain rfl := Option.some.inj hbody
        exact ⟨a, ha, Bool.not_eq_true _ ▸ hdiscarded, hpacks, data, hdata, hkey⟩
      · rw [Function.update_of_ne hkey] at hbody
        exact hlog key body hbody

/-- The blocks of a run account for its log. -/
theorem logOf_logAfter (arrivals : List (Arrival Trie)) : LogOf (S := S) arrivals (logAfter S keyBlocks arrivals) := by
  have hrun : ∀ (rest : List (Arrival Trie)) (log : HeaderLog), rest ⊆ arrivals → LogOf (S := S) arrivals log →
      LogOf (S := S) arrivals (Machine.final (receive S keyBlocks) log rest) := by
    intro rest
    induction rest with
    | nil => exact fun log _ hlog => hlog
    | cons a rest ih =>
        intro log hsub hlog
        exact ih _ (List.subset_of_cons_subset hsub) (logOf_receive hlog (hsub List.mem_cons_self))
  exact hrun arrivals _ (List.Subset.refl _) nofun

theorem logged_final {log : HeaderLog} {key : Bytes} (hlogged : log key = some body) (rest : List (Arrival Trie)) :
    Machine.final (receive S keyBlocks) log rest key = some body := by
  induction rest generalizing log with
  | nil => exact hlogged
  | cons a rest ih =>
      apply ih
      rw [receive_log]
      split_ifs
      · exact hlogged
      · exact logArrival_of_some hlogged

/-! ### Alarms -/

/-- What a report that goes out is made of. -/
theorem reportFraud_newFraud {a : Arrival Trie} {keyBlock : CBlockHeader Trie} {previous current : Bytes}
    {proof : CVerifiable} (hreport : reportFraud S a keyBlock previous current = (.newFraud, proof)) :
    ∃ kbBody, Packs S keyBlock kbBody ∧ setPoFProof kbBody previous current = some proof.mProof := by
  unfold reportFraud at hreport
  split at hreport
  case h_2 => cases hreport
  case h_1 kbBody filled hpacked =>
    split at hreport
    case h_2 => cases hreport
    case h_1 mProof hash _ hproof hhash =>
      split at hreport
      case h_1 => cases hreport
      case h_2 => cases hreport
      case h_3 =>
        split at hreport
        case h_1 => cases hreport
        case h_2 =>
          obtain rfl := (Prod.mk.inj hreport).2
          exact ⟨kbBody, ⟨filled, hpacked⟩, hproof⟩

theorem reportFraud_alreadyReported {a : Arrival Trie} {keyBlock : CBlockHeader Trie} {previous current : Bytes}
    {proof : CVerifiable} (hreport : reportFraud S a keyBlock previous current = (.alreadyReported, proof)) :
    ∃ hash, (keyBlock.getHash S.headers false).map Prod.fst = some hash ∧
      a.Reported (S.getProofOfFraudID hash) := by
  unfold reportFraud at hreport
  split at hreport
  case h_2 => cases hreport
  case h_1 kbBody filled hpacked =>
    split at hreport
    case h_2 => cases hreport
    case h_1 mProof hash _ hproof hhash =>
      have hsame : (keyBlock.getHash S.headers false).map Prod.fst = some hash := by
        rw [getHash_of_packed hpacked, ← getHash_of_packed (getPackedData_filled hpacked), hhash]
        rfl
      split at hreport
      case h_1 => cases hreport
      case h_2 hcashed => exact ⟨hash, hsame, Arrival.reported_of_cashedOutAlready hcashed⟩
      case h_3 =>
        split at hreport
        case h_1 => cases hreport
        case h_2 => cases hreport

/-- A report is answered, one way or the other, where nothing is missing. -/
theorem reportFraud_answers {a : Arrival Trie} {keyBlockID previous current : Bytes}
    (hable : Answerable S keyBlocks a keyBlockID) (hprevious : previous ≠ []) (hcurrent : current ≠ []) :
    ∃ proof, reportFraud S a (keyBlocks keyBlockID) previous current = (.newFraud, proof) ∨
      reportFraud S a (keyBlocks keyBlockID) previous current = (.alreadyReported, proof) := by
  obtain ⟨kbBody, hpacks⟩ := hable.keyBlockPacks
  obtain ⟨filled, hpacked⟩ := hpacks
  have hproof : setPoFProof kbBody previous current = some (Ber.cons Ber.ASN1_Tag.SEQUENCE Ber.ASN1_Tag.UNIVERSAL
      (Ber.encodeBits kbBody ++ Ber.encodeBits previous ++ Ber.encodeBits current)) := by
    apply if_neg
    rintro (hnil | hnil | hnil)
    · exact Packs.ne_nil ⟨filled, hpacked⟩ hnil
    · exact hprevious hnil
    · exact hcurrent hnil
  obtain ⟨⟨hash, rehashed⟩, hhash, -⟩ := Option.map_eq_some_iff.mp (getHash_of_packed (getPackedData_filled hpacked))
  unfold reportFraud
  rw [hpacked]
  dsimp only
  rw [hproof, hhash]
  dsimp only
  cases hcashed : a.cashedOutAlready (S.getProofOfFraudID hash) with
  | none => exact absurd hcashed (hable.links _)
  | some cashedOut =>
      cases cashedOut with
      | true => exact ⟨{}, .inr rfl⟩
      | false =>
          obtain ⟨⟨mPubKey, mSignature⟩, hsign⟩ := Option.isSome_iff_exists.mp (hable.signs
            { mVerifiableType := .proofOfFraud
              mProof := Ber.cons Ber.ASN1_Tag.SEQUENCE Ber.ASN1_Tag.UNIVERSAL
                (Ber.encodeBits kbBody ++ Ber.encodeBits previous ++ Ber.encodeBits current) })
          dsimp only
          rw [hsign]
          exact ⟨_, .inl rfl⟩

/-- An answer other than these two harmless ones comes of a header that was logged and differs. -/
theorem checkForFraud_cases {log : HeaderLog} {a : Arrival Trie} {result : eFraudCheckResult} {proof : CVerifiable}
    (hcheck : checkForFraud S keyBlocks log a = (result, proof))
    (halarm : result = .newFraud ∨ result = .alreadyReported) :
    ∃ keyBlockID previous, a.header.mIsKeyBlock = false ∧ a.keyBlockID = some keyBlockID ∧
      log (logKey S keyBlockID a.header.loggedHeight) = some previous ∧
      blockIDOf S a.header ≠ S.headers.cf.getSHA2_256Vec previous ∧
      reportFraud S a (keyBlocks keyBlockID) previous (a.header.getPackedData S.headers [] true).2.1 =
        (result, proof) := by
  have hother : ∀ {other : eFraudCheckResult} {none' : CVerifiable}, (other, none') = (result, proof) →
      other ≠ .newFraud → other ≠ .alreadyReported → False := by
    intro other none' heq hnew hreported
    obtain rfl := (Prod.mk.inj heq).1
    exact halarm.elim hnew hreported
  unfold checkForFraud at hcheck
  split_ifs at hcheck with hkey
  · exact (hother hcheck nofun nofun).elim
  · split at hcheck
    case h_1 => exact (hother hcheck nofun nofun).elim
    case h_2 keyBlockID hid =>
      split_ifs at hcheck with hlength
      · exact (hother hcheck nofun nofun).elim
      · split at hcheck
        case h_1 => exact (hother hcheck nofun nofun).elim
        case h_2 previous hprevious =>
          split_ifs at hcheck with hsame
          · exact (hother hcheck nofun nofun).elim
          · exact ⟨keyBlockID, previous, Bool.not_eq_true _ ▸ hkey, hid, hprevious, hsame, hcheck⟩

theorem answerAfter_eq_some {before : List (Arrival Trie)} {a : Arrival Trie} {answer : eFraudCheckResult × CVerifiable}
    (hanswer : answerAfter S keyBlocks before a = some answer) :
    a.discarded = false ∧ checkForFraud S keyBlocks (logArrival S (logAfter S keyBlocks before) a) a = answer := by
  unfold answerAfter receive at hanswer
  split_ifs at hanswer with hdiscarded
  exact ⟨Bool.not_eq_true _ ▸ hdiscarded, Option.some.inj hanswer⟩

/-- What a block differs from was logged before it. -/
theorem logged_before {log : HeaderLog} {a : Arrival Trie} {key previous : Bytes}
    (hlogged : logArrival S log a key = some previous)
    (hne : blockIDOf S a.header ≠ S.headers.cf.getSHA2_256Vec previous) : log key = some previous := by
  rcases logArrival_cases (S := S) log a with hsame | ⟨data, -, body, hpacks, -, hupdate⟩
  · rw [← hsame]
    exact hlogged
  · rw [hupdate] at hlogged
    by_cases hkey : key = S.headers.cf.getSHA2_256Vec data
    · rw [hkey, Function.update_self] at hlogged
      obtain rfl := Option.some.inj hlogged
      exact absurd hpacks.blockIDOf_eq hne
    · rw [Function.update_of_ne hkey] at hlogged
      exact hlogged

theorem loggedUnder_of_data {a : Arrival Trie} {keyBlockID : Bytes} (hdata : a.header.mIsKeyBlock = false)
    (hid : a.keyBlockID = some keyBlockID) :
    loggedUnder S a = some (logData keyBlockID a.header.loggedHeight) := by
  rw [loggedUnder, hdata, hid]
  rfl

/-- Genuine blocks that are logged under the same are data blocks for one height under one key block. -/
theorem sameHeight_of_loggedUnder {first second : Arrival Trie} {keyBlockID : Bytes}
    (hgenuine : Genuine S keyBlocks first) (hgenuine' : Genuine S keyBlocks second)
    (hdata : second.header.mIsKeyBlock = false) (hid : second.keyBlockID = some keyBlockID)
    (hsame : loggedUnder S first = some (logData keyBlockID second.header.loggedHeight)) :
    first.header.mIsKeyBlock = false ∧ first.keyBlockID = some keyBlockID ∧
      first.header.loggedHeight = second.header.loggedHeight := by
  cases hkey : first.header.mIsKeyBlock with
  | true =>
      rw [loggedUnder, if_pos hkey] at hsame
      obtain ⟨hown, hheight⟩ := logData_injective (Option.some.inj hsame)
      have hfound := hgenuine.found hkey
      rw [hown, hheight] at hfound
      exact absurd hfound.symm (hgenuine'.above hdata keyBlockID hid)
  | false =>
      rw [loggedUnder, hkey, if_neg Bool.false_ne_true] at hsame
      obtain ⟨otherID, hother, hsame⟩ := Option.map_eq_some_iff.mp hsame
      obtain ⟨rfl, hheight⟩ := logData_injective hsame
      exact ⟨rfl, hother, hheight⟩

/-- An alarm after genuine blocks shows a fraud. -/
theorem showsFraud_of_newFraud {before : List (Arrival Trie)} {a : Arrival Trie} {proof : CVerifiable}
    (hgenuine : ∀ b ∈ before, b.discarded = false → Genuine S keyBlocks b) (hgenuine' : Genuine S keyBlocks a)
    (hfree : ∀ b ∈ before, ∀ data ∈ loggedUnder S b, ∀ data' ∈ loggedUnder S a,
      S.headers.cf.getSHA2_256Vec data = S.headers.cf.getSHA2_256Vec data' → data = data')
    (hanswer : answerAfter S keyBlocks before a = some (.newFraud, proof)) :
    ∃ first ∈ before, ∃ keyBlockID, ShowsFraud S keyBlocks first a keyBlockID proof := by
  obtain ⟨-, hcheck⟩ := answerAfter_eq_some hanswer
  obtain ⟨keyBlockID, previous, hdata, hid, hlogged, hne, hreport⟩ := checkForFraud_cases hcheck (.inl rfl)
  obtain ⟨kbBody, hkbPacks, hproof⟩ := reportFraud_newFraud hreport
  obtain ⟨first, hfirst, hkept, hpacks, data, hunder, hkey⟩ :=
    logOf_logAfter before _ _ (logged_before hlogged hne)
  have hown := loggedUnder_of_data (S := S) hdata hid
  obtain rfl := hfree first hfirst data hunder _ hown hkey.symm
  have hfirstGenuine := hgenuine first hfirst hkept
  obtain ⟨hfirstData, hfirstID, hheight⟩ := sameHeight_of_loggedUnder hfirstGenuine hgenuine' hdata hid hunder
  have hcurrent : Packs S a.header (a.header.getPackedData S.headers [] true).2.1 := by
    apply packs_of_ne_nil
    intro hnil
    rw [setPoFProof, if_pos (.inr (.inr hnil))] at hproof
    cases hproof
  refine ⟨first, hfirst, keyBlockID, ⟨hfirstData, hdata⟩, ⟨hfirstID, hid⟩, hheight, ?_, ?_⟩
  · refine ⟨kbBody, previous, _, hkbPacks, hpacks, hcurrent, ?_, hproof⟩
    intro hbodies
    apply hne
    rw [hcurrent.blockIDOf_eq, hbodies]
  · exact ⟨hfirstGenuine.signed hfirstData keyBlockID hfirstID, hgenuine'.signed hdata keyBlockID hid⟩

/-- What is logged when a block arrives is not empty. -/
theorem logged_ne_nil {before : List (Arrival Trie)} {a : Arrival Trie} {key logged : Bytes}
    (hlogged : logArrival S (logAfter S keyBlocks before) a key = some logged) : logged ≠ [] := by
  rcases logArrival_cases (S := S) (logAfter S keyBlocks before) a with hsame | ⟨data, -, body, hpacks, -, hupdate⟩
  · rw [hsame] at hlogged
    obtain ⟨b, -, -, hpacks, -⟩ := logOf_logAfter before key logged hlogged
    exact hpacks.ne_nil
  · by_cases hkey : key = S.headers.cf.getSHA2_256Vec data
    · rw [hupdate, hkey, Function.update_self] at hlogged
      obtain rfl := Option.some.inj hlogged
      exact hpacks.ne_nil
    · rw [hupdate, Function.update_of_ne hkey] at hlogged
      obtain ⟨b, -, -, hpacks, -⟩ := logOf_logAfter before key logged hlogged
      exact hpacks.ne_nil

theorem detects_of_differs {before : List (Arrival Trie)} {a : Arrival Trie} {keyBlockID logged : Bytes}
    (hable : Answerable S keyBlocks a keyBlockID) (hlength : keyBlockID.length = 32)
    (hdata : a.header.mIsKeyBlock = false) (hid : a.keyBlockID = some keyBlockID)
    (hlogged : logArrival S (logAfter S keyBlocks before) a (logKey S keyBlockID a.header.loggedHeight) = some logged)
    (hne : blockIDOf S a.header ≠ S.headers.cf.getSHA2_256Vec logged) : Detects S keyBlocks before a := by
  obtain ⟨body, hpacks⟩ := hable.packs
  obtain ⟨filled, hpacked⟩ := hpacks
  have hcurrent : (a.header.getPackedData S.headers [] true).2.1 ≠ [] := by
    rw [hpacked]
    exact Packs.ne_nil ⟨filled, hpacked⟩
  have hcheck : checkForFraud S keyBlocks (logArrival S (logAfter S keyBlocks before) a) a =
      reportFraud S a (keyBlocks keyBlockID) logged (a.header.getPackedData S.headers [] true).2.1 := by
    rw [checkForFraud, hdata, if_neg Bool.false_ne_true, hid]
    dsimp only
    rw [if_neg (not_not_intro hlength), hlogged]
    exact if_neg hne
  have hanswer : answerAfter S keyBlocks before a =
      some (reportFraud S a (keyBlocks keyBlockID) logged (a.header.getPackedData S.headers [] true).2.1) := by
    rw [answerAfter, receive, hable.reached, if_neg Bool.false_ne_true, ← hcheck]
  obtain ⟨proof, hreport⟩ := reportFraud_answers hable (logged_ne_nil hlogged) hcurrent
  exact ⟨proof, hreport.imp (fun hnew => hanswer.trans (congrArg some hnew))
    fun hreported => hanswer.trans (congrArg some hreported)⟩

/-- Of two blocks in conflict, one is not the header that their height is logged with. -/
theorem detects_of_conflict {before between : List (Arrival Trie)} {first second : Arrival Trie} {keyBlockID : Bytes}
    (hconflict : Conflict S first second keyBlockID) (hfirst : Answerable S keyBlocks first keyBlockID)
    (hsecond : Answerable S keyBlocks second keyBlockID) :
    Detects S keyBlocks before first ∨ Detects S keyBlocks (before ++ first :: between) second := by
  obtain ⟨hlength, ⟨hdata, hdata'⟩, ⟨hid, hid'⟩, hheight, hdifferent⟩ := hconflict
  obtain ⟨body, hpacks⟩ := hfirst.packs
  obtain ⟨logged, hlogged⟩ := logArrival_isSome hdata hid hpacks (logAfter S keyBlocks before)
  have hafter : logAfter S keyBlocks (before ++ first :: between)
      (logKey S keyBlockID first.header.loggedHeight) = some logged := by
    rw [logAfter, Machine.final_append, Machine.final_cons]
    apply logged_final
    rw [receive_log, hfirst.reached]
    exact hlogged
  by_cases hsame : blockIDOf S first.header = S.headers.cf.getSHA2_256Vec logged
  · right
    rw [hheight] at hafter
    apply detects_of_differs hsecond hlength hdata' hid' (logArrival_of_some hafter)
    rw [← hsame]
    exact hdifferent.symm
  · left
    exact detects_of_differs hfirst hlength hdata hid hlogged hsame

/-- **Among genuine blocks there are no false alarms, and no conflict is overlooked.** -/
theorem vigilant_of_genuine (S : VerifiableServices Trie) (keyBlocks : Bytes → CBlockHeader Trie)
    (arrivals : List (Arrival Trie)) (hgenuine : ∀ a ∈ arrivals, a.discarded = false → Genuine S keyBlocks a)
    (hfree : CollisionFree S arrivals) : Vigilant S keyBlocks arrivals := by
  constructor
  case alarms =>
    rintro before a after proof rfl hanswer
    have ha : a ∈ before ++ a :: after := List.mem_append_right _ List.mem_cons_self
    have hbefore : ∀ b ∈ before, b ∈ before ++ a :: after := fun b hb => List.mem_append_left _ hb
    exact showsFraud_of_newFraud (fun b hb => hgenuine b (hbefore b hb))
      (hgenuine a ha (answerAfter_eq_some hanswer).1) (fun b hb => hfree b (hbefore b hb) a ha) hanswer
  case reported =>
    intro before a after proof _ hanswer
    obtain ⟨keyBlockID, previous, -, hid, -, -, hreport⟩ :=
      checkForFraud_cases (answerAfter_eq_some hanswer).2 (.inr rfl)
    obtain ⟨hash, hhash, hreported⟩ := reportFraud_alreadyReported hreport
    exact ⟨keyBlockID, hash, hid, hhash, hreported⟩
  case detected =>
    intro before first between second after keyBlockID _ hconflict hfirst hsecond
    exact detects_of_conflict hconflict hfirst hsecond

end Detection

/-! ### A forged block before a genuine one -/

section Sample

def sampleKeyBlock : CBlockHeader Bytes where
  mVersion := 4
  mIsKeyBlock := true
  fields
    | .mHeight => (1 : ℕ)
    | .mPublicKey | .mSignature | .mParentBlockID | .mParentKeyBlockID => List.replicate 32 7
    | f => f.kind.zero
  mTransactionsDB := []
  mReceiptsDB := []
  mVerifiablesDB := []

/-- A data block for the height after the one of the key block. -/
def sampleDataBlock (signature extraData : Bytes) : CBlockHeader Bytes where
  mVersion := 4
  mIsKeyBlock := false
  fields
    | .mHeight => (2 : ℕ)
    | .mSignature => signature
    | .mParentBlockID => List.replicate 32 7
    | .mExtraData => extraData
    | f => f.kind.zero
  mTransactionsDB := []
  mReceiptsDB := []
  mVerifiablesDB := []

def sampleArrival (header : CBlockHeader Bytes) : Arrival Bytes where
  header := header
  analyzeAsLeaderCandidate := false
  isForking := false
  parentKnown := true
  keyBlockID := some (blockIDOf sampleVerifiables sampleKeyBlock)
  requiredVersion := 0
  loadLink _ _ := none
  getBlockByHash _ := none
  sign _ := some (List.replicate 32 1, List.replicate 32 1)

/-- The key block, and two data blocks that its operator signed for one height. -/
def equivocation : List (Arrival Bytes) :=
  [sampleArrival sampleKeyBlock, sampleArrival (sampleDataBlock (List.replicate 32 7) [1]),
    sampleArrival (sampleDataBlock (List.replicate 32 7) [2])]

theorem genuine_sampleKeyBlock :
    Genuine sampleVerifiables (fun _ => sampleKeyBlock) (sampleArrival sampleKeyBlock) where
  signed := nofun
  above := nofun
  found _ := rfl

theorem genuine_sampleDataBlock (extraData : Bytes) : Genuine sampleVerifiables (fun _ => sampleKeyBlock)
    (sampleArrival (sampleDataBlock (List.replicate 32 7) extraData)) where
  signed _ _ _ := decide_eq_true (p := (List.replicate 32 7 : Bytes) = List.replicate 32 7) rfl
  above _ _ _ := (by decide : UInt64.ofNat 2 ≠ UInt64.ofNat 1)
  found := nofun

theorem equivocation_collisionFree : CollisionFree sampleVerifiables equivocation := by
  have hkey : ∀ a ∈ equivocation, loggedUnder sampleVerifiables a =
        some (logData (blockIDOf sampleVerifiables sampleKeyBlock) 1) ∨
      loggedUnder sampleVerifiables a = some (logData (blockIDOf sampleVerifiables sampleKeyBlock) 2) := by
    simp only [equivocation, List.forall_mem_cons, List.not_mem_nil, false_implies, implies_true, and_true]
    exact ⟨.inl rfl, .inr rfl, .inr rfl⟩
  have hne : sampleVerifiables.headers.cf.getSHA2_256Vec (logData (blockIDOf sampleVerifiables sampleKeyBlock) 1) ≠
      sampleVerifiables.headers.cf.getSHA2_256Vec (logData (blockIDOf sampleVerifiables sampleKeyBlock) 2) := by
    decide +kernel
  intro first hfirst second hsecond data hdata data' hdata' hhash
  rcases hkey first hfirst with hunder | hunder <;> rcases hkey second hsecond with hunder' | hunder' <;>
    (rw [hunder] at hdata; rw [hunder'] at hdata'; cases hdata; cases hdata')
  · rfl
  · exact absurd hhash hne
  · exact absurd hhash.symm hne
  · rfl

theorem equivocation_vigilant : Vigilant sampleVerifiables (fun _ => sampleKeyBlock) equivocation := by
  apply vigilant_of_genuine
  · simp only [equivocation, List.forall_mem_cons, List.not_mem_nil, false_implies, implies_true, and_true]
    exact ⟨fun _ => genuine_sampleKeyBlock, fun _ => genuine_sampleDataBlock [1], fun _ => genuine_sampleDataBlock [2]⟩
  · exact equivocation_collisionFree

/-- A block that somebody else signed, for the height of a block of the operator. -/
def forgery : List (Arrival Bytes) := [sampleArrival (sampleDataBlock (List.replicate 32 9) [1])]

theorem forgery_collisionFree :
    CollisionFree sampleVerifiables (forgery ++ [sampleArrival (sampleDataBlock (List.replicate 32 7) [2])]) := by
  have hkey : ∀ a ∈ forgery ++ [sampleArrival (sampleDataBlock (List.replicate 32 7) [2])],
      loggedUnder sampleVerifiables a = some (logData (blockIDOf sampleVerifiables sampleKeyBlock) 2) := by
    simp only [forgery, List.singleton_append, List.forall_mem_cons, List.not_mem_nil, false_implies, implies_true,
      and_true]
    exact ⟨rfl, rfl⟩
  intro first hfirst second hsecond data hdata data' hdata' _
  rw [hkey first hfirst] at hdata
  rw [hkey second hsecond] at hdata'
  cases hdata
  cases hdata'
  rfl

theorem forgery_conflict : Conflict sampleVerifiables (sampleArrival (sampleDataBlock (List.replicate 32 9) [1]))
    (sampleArrival (sampleDataBlock (List.replicate 32 7) [2])) (blockIDOf sampleVerifiables sampleKeyBlock) where
  length := sampleVerifiables.headers.cf.getSHA2_256Vec_length _
  dataBlocks := ⟨rfl, rfl⟩
  sameKeyBlock := ⟨rfl, rfl⟩
  sameHeight := rfl
  different := by decide +kernel

theorem sampleKeyBlock_valid : sampleKeyBlock.Valid where
  publicKey _ := rfl
  parentKey _ _ := rfl
  parent _ := rfl
  signature := nofun

theorem sampleDataBlock_valid {signature : Bytes} (hsignature : signature ≠ []) (extraData : Bytes) :
    (sampleDataBlock signature extraData).Valid where
  publicKey := nofun
  parentKey := nofun
  parent _ := rfl
  signature := hsignature

theorem sampleArrival_answerable {signature : Bytes} (hsignature : signature ≠ []) (extraData : Bytes) :
    Answerable sampleVerifiables (fun _ => sampleKeyBlock) (sampleArrival (sampleDataBlock signature extraData))
      (blockIDOf sampleVerifiables sampleKeyBlock) where
  reached := rfl
  packs := ⟨_, _, CBlockHeader.getPackedData_eq (sampleDataBlock_valid hsignature extraData)
    (by decide : KnownVersion 4) []⟩
  keyBlockPacks := ⟨_, _, CBlockHeader.getPackedData_eq sampleKeyBlock_valid (by decide : KnownVersion 4) []⟩
  links _ := nofun
  signs _ := rfl

theorem sampleArrival_not_reported (header : CBlockHeader Bytes) (fraudID : Bytes) :
    ¬(sampleArrival header).Reported fraudID := by
  rintro ⟨receiptGUID, -, -, -, -, -, hlink, -⟩
  cases hlink

/-- The forgery is logged, and the next block of the operator is taken for a fraud. -/
theorem honest_leader_reported : ¬∀ arrivals : List (Arrival Bytes),
    CollisionFree sampleVerifiables arrivals → Vigilant sampleVerifiables (fun _ => sampleKeyBlock) arrivals := by
  intro hvigilant
  obtain ⟨halarms, hreported, hdetected⟩ := hvigilant _ forgery_collisionFree
  have hsigned : (List.replicate 32 9 : Bytes) ≠ [] ∧ (List.replicate 32 7 : Bytes) ≠ [] := ⟨nofun, nofun⟩
  rcases hdetected [] _ [] _ [] _ rfl forgery_conflict (sampleArrival_answerable hsigned.1 _)
    (sampleArrival_answerable hsigned.2 _) with ⟨proof, hnew | hknown⟩ | ⟨proof, hnew | hknown⟩
  · obtain ⟨first, hfirst, -⟩ := halarms [] _ _ proof rfl hnew
    cases hfirst
  · obtain ⟨keyBlockID, hash, -, -, hstored⟩ := hreported [] _ _ proof rfl hknown
    exact sampleArrival_not_reported _ _ hstored
  · obtain ⟨first, hfirst, keyBlockID, hshows⟩ := halarms forgery _ [] proof rfl hnew
    obtain rfl := List.mem_singleton.mp hfirst
    have hkey : (List.replicate 32 9 : Bytes) = List.replicate 32 7 := of_decide_eq_true hshows.signed.1
    exact absurd hkey (by decide)
  · obtain ⟨keyBlockID, hash, -, -, hstored⟩ := hreported forgery _ [] proof rfl hknown
    exact sampleArrival_not_reported _ _ hstored

end Sample

end Gridnet
