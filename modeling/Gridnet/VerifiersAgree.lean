import Gridnet.ParallelChecks

/-! The two verifiers of a chain-proof compared: the checks that both make, the refusals that only one of
them knows, and exactly when both accept the same chain-proofs with the same verdict. -/

namespace Gridnet

open Parallel (Signed AllSigned Decodes Outdated CutsCleanly keysFrom leaderAfter)

variable {Trie : Type}

/-! ### One header -/

section Turn

variable (ctx : ScanContext Trie) (st : ScanState Trie)

/-- The checks of a key block that both verifiers make, its signature apart. -/
def commonKeyChecks (header : CBlockHeader Trie) : List Bool :=
  let nowProposal := header.getSolvedAtTime
  let nowChain := st.previousHeaderTimestamp
  let parentIsHardForkBlock := st.parentIsHardForkBlock || isHardForkBlock st.previousHeader
  let isCheckpointed := ctx.isCheckpointed (some header)
  let excused := excusedByHardFork ctx.node ctx.call || isCheckpointed
  [nowProposal == 0 && !isCheckpointed,
    nowChain == 0 && header.getHeight != 0 &&
      (st.previousHeader.isSome && !ctx.isCheckpointed st.previousHeader),
    tooFarIntoThePast ctx.services nowProposal nowChain && !excused,
    (tooFarAfterParent ctx.services st.previousHeader parentIsHardForkBlock nowProposal ||
      tooFarAfterClock ctx.services ctx.node nowProposal) && !excused,
    !ctx.services.verifyNonce header && !isCheckpointed,
    !st.firstKeyBlock && header.getKeyHeight != successor st.currentKeyHeight,
    !st.firstKeyBlock && st.previousKeyBlockID != header.getParentKeyBlockID]

/-- The checks of a header that both verifiers make, its signature apart. -/
def commonChecks (i : ℕ) (bytes : Bytes) (header : CBlockHeader Trie) : List Bool :=
  [decide (header.getCoreVersion < ctx.services.getRequiredVersionNumber header.getHeight),
    (ctx.call.isVerifiedChainProof || ctx.call.isHeaviestChainProof) && i != header.getHeight,
    i != 0 && header.getHeight != successor st.currentHeight] ++
  (if header.isKeyBlock then commonKeyChecks ctx st header else [st.leaderPubKey.length == 0]) ++
  [decide (0 < i) && header.getParentID.length != 32,
    decide (0 < i) && header.getParentID != st.previousHeaderHash,
    ctx.node.isBlacklisted (ctx.services.getSHA2_256Vec bytes)]

/-- A header passes what both verifiers check. -/
def Common (element : Bytes × ℕ) : Prop :=
  (∃ header, ctx.services.instantiate element.1 = some header ∧
    ∀ check ∈ commonChecks ctx st element.2 element.1 header, check = false) ∧
  Signed ctx.services st.leaderPubKey element

/-- Some header of an element is a key block with a property. -/
def keyBlockWith (p : CBlockHeader Trie → Bool) (element : Bytes × ℕ) : Bool :=
  (ctx.services.instantiate element.1).any fun header => header.isKeyBlock && p header

/-- A key block right after another with too much more work. Only the sequential verifier minds. -/
def excessiveWork (element : Bytes × ℕ) : Bool :=
  keyBlockWith ctx
    (fun header => !st.firstKeyBlock && (st.previousHeader.any fun previousHeader =>
      previousHeader.isKeyBlock && ctx.services.exceedsParentWork previousHeader header) &&
        !ctx.isCheckpointed (some header))
    element

/-- A key block above the genesis block without a known parent. Only the sequential verifier minds. -/
def withoutParent (element : Bytes × ℕ) : Bool :=
  keyBlockWith ctx
    (fun header => st.previousHeaderTimestamp == 0 && header.getHeight != 0 &&
      st.previousHeader.isNone)
    element

/-- A key block too far ahead of a parent that is no hard fork block, while an earlier one was. Only the
multi-threaded verifier minds. -/
def excusedByEarlierHardFork (element : Bytes × ℕ) : Bool :=
  keyBlockWith ctx
    (fun header => st.parentIsHardForkBlock &&
      tooFarAfterParent ctx.services st.previousHeader (isHardForkBlock st.previousHeader)
        header.getSolvedAtTime &&
        !(excusedByHardFork ctx.node ctx.call || ctx.isCheckpointed (some header)))
    element

variable {ctx st}

theorem keyBlockWith_eq_false {p : CBlockHeader Trie → Bool} {element : Bytes × ℕ}
    {header : CBlockHeader Trie} (hheader : ctx.services.instantiate element.1 = some header) :
    keyBlockWith ctx p element = false ↔ (header.isKeyBlock = true → p header = false) := by
  unfold keyBlockWith
  rw [hheader, Option.any_some]
  cases header.isKeyBlock with
  | true => simp
  | false => simp

theorem signed_iff {leaderPubKey : Bytes} {element : Bytes × ℕ} {header : CBlockHeader Trie}
    {services : HeaderServices Trie} (hheader : services.instantiate element.1 = some header) :
    Signed services leaderPubKey element ↔
      services.verifyBlockSignature header (if header.isKeyBlock then [] else leaderPubKey) = true := by
  unfold Signed
  rw [hheader]
  simp only [Option.some.injEq, exists_eq_left']

/-- A missing nonce is reported in two ways. -/
theorem nonce_iff (nonceMissing zero checkpointed : Bool) :
    (nonceMissing && zero && checkpointed) = false ∧ (nonceMissing && !zero && checkpointed) = false ↔
      (nonceMissing && checkpointed) = false := by
  cases zero with
  | true => cases nonceMissing <;> simp
  | false => cases nonceMissing <;> simp

theorem parentTime_iff (previousHeader : Option (CBlockHeader Trie)) (unknown : Bool) :
    (unknown && !ctx.isCheckpointed previousHeader) = false ↔
      (unknown && (previousHeader.isSome && !ctx.isCheckpointed previousHeader)) = false ∧
        (unknown && previousHeader.isNone) = false := by
  cases previousHeader with
  | none =>
      have hnone : ctx.isCheckpointed none = false := rfl
      cases unknown <;> simp [hnone]
  | some header => cases unknown <;> simp

theorem sequential_keyChecks_iff (header : CBlockHeader Trie) :
    (∀ check ∈ Sequential.keyChecks ctx st header, check.1 = false) ↔
      (∀ check ∈ commonKeyChecks ctx st header, check = false) ∧
        ctx.services.verifyBlockSignature header [] = true ∧
        (!st.firstKeyBlock && (st.previousHeader.any fun previousHeader =>
          previousHeader.isKeyBlock && ctx.services.exceedsParentWork previousHeader header) &&
            !ctx.isCheckpointed (some header)) = false ∧
        (st.previousHeaderTimestamp == 0 && header.getHeight != 0 &&
          st.previousHeader.isNone) = false := by
  unfold Sequential.keyChecks commonKeyChecks
  simp only [List.forall_mem_cons, List.not_mem_nil, false_imp_iff, implies_true, and_true]
  rw [parentTime_iff st.previousHeader]
  have hnonce := nonce_iff (!ctx.services.verifyNonce header) (header.getNonce == 0)
    (!ctx.isCheckpointed (some header))
  have hsigned : (!ctx.services.verifyBlockSignature header []) = false ↔
      ctx.services.verifyBlockSignature header [] = true := by simp
  rw [hsigned]
  constructor
  · rintro ⟨hzero, ⟨hparent, hwithout⟩, hpast, hahead, hfork, hwork, hexcessive, hsign, hheight, hkey⟩
    exact ⟨⟨hzero, hparent, hpast, hahead, hnonce.mp ⟨hfork, hwork⟩, hheight, hkey⟩, hsign, hexcessive,
      hwithout⟩
  · rintro ⟨⟨hzero, hparent, hpast, hahead, hwork, hheight, hkey⟩, hsign, hexcessive, hwithout⟩
    obtain ⟨hfork, hwork⟩ := hnonce.mpr hwork
    exact ⟨hzero, ⟨hparent, hwithout⟩, hpast, hahead, hfork, hwork, hexcessive, hsign, hheight, hkey⟩

/-- The sequential verifier checks what both check and what it alone minds. -/
theorem sequential_checked_iff (element : Bytes × ℕ) :
    Sequential.Checked ctx st element ↔
      Common ctx st element ∧ excessiveWork ctx st element = false ∧
        withoutParent ctx st element = false := by
  unfold Sequential.Checked Common
  cases hheader : ctx.services.instantiate element.1 with
  | none => simp
  | some header =>
      unfold excessiveWork withoutParent
      rw [keyBlockWith_eq_false hheader, keyBlockWith_eq_false hheader, signed_iff hheader]
      simp only [Option.some.injEq, exists_eq_left']
      unfold Sequential.headerChecks commonChecks
      simp only [List.forall_mem_append]
      cases hkey : header.isKeyBlock with
      | true =>
          simp only [if_true, sequential_keyChecks_iff, forall_const]
          simp only [List.forall_mem_cons]
          tauto
      | false =>
          simp only [Sequential.dataChecks, List.forall_mem_cons]
          simp
          tauto

/-- The excuse of an earlier hard fork block. -/
theorem afterParent_iff (ctx : ScanContext Trie) (previousHeader : Option (CBlockHeader Trie))
    (earlier after clock excused : Bool) (nowProposal : ℕ) :
    ((tooFarAfterParent ctx.services previousHeader after nowProposal || clock) && !excused) = false ↔
      ((tooFarAfterParent ctx.services previousHeader (earlier || after) nowProposal || clock) &&
          !excused) = false ∧
        (earlier && tooFarAfterParent ctx.services previousHeader after nowProposal && !excused) =
          false := by
  cases earlier with
  | false => simp
  | true =>
      have hexcused : tooFarAfterParent ctx.services previousHeader true nowProposal = false := by
        unfold tooFarAfterParent
        cases previousHeader <;> simp
      rw [Bool.true_or, hexcused]
      cases tooFarAfterParent ctx.services previousHeader after nowProposal <;> cases clock <;>
        cases excused <;> simp

theorem parallel_keyChecks_iff (keyLeader : Option (CBlockHeader Trie)) (previousHeaderHash : Bytes)
    (header : CBlockHeader Trie) :
    (∀ check ∈ Parallel.keyChecks ctx
        { st with parentIsHardForkBlock := false, keyLeader, previousHeaderHash } header,
        check.1 = false) ↔
      (∀ check ∈ commonKeyChecks ctx st header, check = false) ∧
        (st.parentIsHardForkBlock &&
          tooFarAfterParent ctx.services st.previousHeader (isHardForkBlock st.previousHeader)
            header.getSolvedAtTime &&
          !(excusedByHardFork ctx.node ctx.call || ctx.isCheckpointed (some header))) = false := by
  unfold Parallel.keyChecks commonKeyChecks
  simp only [List.forall_mem_cons, List.not_mem_nil, false_imp_iff, implies_true, and_true]
  rw [afterParent_iff ctx st.previousHeader st.parentIsHardForkBlock]
  have hnonce := nonce_iff (!ctx.services.verifyNonce header) (header.getNonce == 0)
    (!ctx.isCheckpointed (some header))
  have hswap : ∀ a b c : Bool, (a && b && c) = (a && c && b) := by decide
  rw [hswap (!ctx.services.verifyNonce header) (!ctx.isCheckpointed (some header))
      (header.getNonce == 0),
    hswap (!ctx.services.verifyNonce header) (!ctx.isCheckpointed (some header))
      (header.getNonce != 0)]
  constructor
  · rintro ⟨hfork, hwork, hzero, hparent, hpast, ⟨hahead, hearlier⟩, hheight, hkey⟩
    exact ⟨⟨hzero, hparent, hpast, hahead, hnonce.mp ⟨hfork, hwork⟩, hheight, hkey⟩, hearlier⟩
  · rintro ⟨⟨hzero, hparent, hpast, hahead, hwork, hheight, hkey⟩, hearlier⟩
    obtain ⟨hfork, hwork⟩ := hnonce.mpr hwork
    exact ⟨hfork, hwork, hzero, hparent, hpast, ⟨hahead, hearlier⟩, hheight, hkey⟩

/-- So does the multi-threaded verifier, if its threads verify the signature. -/
theorem parallel_checked_iff (ctx : ScanContext Trie) (st : ScanState Trie)
    (keyLeader : Option (CBlockHeader Trie)) {previousHeaderHash : Bytes} (element : Bytes × ℕ)
    (hhash : element.2 = 0 ∨ previousHeaderHash = st.previousHeaderHash) :
    (Parallel.Checked ctx
        { st with parentIsHardForkBlock := false, keyLeader, previousHeaderHash } element ∧
      Signed ctx.services st.leaderPubKey element) ↔
      Common ctx st element ∧ excusedByEarlierHardFork ctx st element = false := by
  unfold Parallel.Checked Common
  cases hheader : ctx.services.instantiate element.1 with
  | none => simp
  | some header =>
      unfold excusedByEarlierHardFork
      rw [keyBlockWith_eq_false hheader]
      simp only [Option.some.injEq, exists_eq_left']
      have hsame : (decide (0 < element.2) && header.getParentID != previousHeaderHash) =
          (decide (0 < element.2) && header.getParentID != st.previousHeaderHash) := by
        rcases hhash with hzero | rfl
        · simp [hzero]
        · rfl
      unfold Parallel.headerChecks commonChecks
      simp only [List.forall_mem_append]
      cases hkey : header.isKeyBlock with
      | true =>
          simp only [if_true, parallel_keyChecks_iff, forall_const]
          simp only [List.forall_mem_cons, hsame]
          tauto
      | false =>
          simp only [Parallel.dataChecks, List.forall_mem_cons, hsame]
          simp
          tauto

end Turn

/-! ### The whole scan -/

/-- The variables as the multi-threaded verifier carries them: it keeps no flag of a hard fork block. -/
def ScanState.withoutFlag (st : ScanState Trie) : ScanState Trie :=
  { st with parentIsHardForkBlock := false }

section Run

variable {ctx : ScanContext Trie}

theorem next_withoutFlag {st : ScanState Trie} {element : Bytes × ℕ}
    (hlater : element.2 ≠ ctx.startFromPosition) :
    Parallel.next ctx st.withoutFlag element = (Sequential.next ctx st element).withoutFlag := by
  have hposition : (ctx.optimizing && element.2 == ctx.startFromPosition) = false := by simp [hlater]
  unfold Parallel.next Sequential.next
  cases ctx.services.instantiate element.1 with
  | none => rfl
  | some header =>
      dsimp only
      unfold Parallel.advance Sequential.advance
      dsimp only
      rw [hposition]
      cases header.isKeyBlock with
      | true => rfl
      | false => rfl

/-- The first header sets what the two verifiers have before it in different ways. -/
theorem next_first {st : ScanState Trie} {element : Bytes × ℕ}
    (hkey : Parallel.isKeyElement ctx.services element = true)
    (hfirst : element.2 = ctx.startFromPosition)
    (hworks : ctx.optimizing = true → element.2 < st.PoWs.length)
    (keyLeader : Option (CBlockHeader Trie)) (previousHeaderHash : Bytes) :
    Parallel.next ctx { st.withoutFlag with keyLeader, previousHeaderHash } element =
      (Sequential.next ctx st element).withoutFlag := by
  obtain ⟨header, hheader, hisKey⟩ := Parallel.isKeyElement_iff.mp hkey
  unfold Parallel.next Sequential.next
  rw [hheader]
  dsimp only
  unfold Parallel.advance Sequential.advance
  dsimp only
  rw [hisKey]
  cases hoptimizing : ctx.optimizing with
  | true =>
      have hnone : element.2 + 1 - st.PoWs.length = 0 := by
        have := hworks hoptimizing
        omega
      have hposition : (true && element.2 == ctx.startFromPosition) = true := by simp [hfirst]
      rw [hposition]
      simp [ScanState.withoutFlag, hnone]
  | false => rfl

/-- The key of the last key block is the same in the scan for signatures. -/
theorem allSigned_iff (ctx : ScanContext Trie) (st : ScanState Trie) (elements : List (Bytes × ℕ)) :
    AllSigned ctx.services st.leaderPubKey elements ↔
      Scan.Passes (fun st element => Signed ctx.services st.leaderPubKey element)
        (Sequential.next ctx) st elements := by
  symm
  apply Scan.passes_rel (fun (st : ScanState Trie) leaderPubKey => st.leaderPubKey = leaderPubKey) elements
  · rintro element - st leaderPubKey rfl
    unfold Sequential.next leaderAfter
    cases ctx.services.instantiate element.1 with
    | none => rfl
    | some header =>
        dsimp only
        unfold Sequential.advance
        dsimp only
        cases header.isKeyBlock with
        | true => rfl
        | false => rfl
  · rintro element - st leaderPubKey rfl
    rfl
  · rfl

theorem sequential_passes_iff (st : ScanState Trie) (elements : List (Bytes × ℕ)) :
    Scan.Passes (Sequential.Checked ctx) (Sequential.next ctx) st elements ↔
      Scan.Passes (Common ctx) (Sequential.next ctx) st elements ∧
        Scan.Passes (fun st element => excessiveWork ctx st element = false ∧
          withoutParent ctx st element = false) (Sequential.next ctx) st elements := by
  rw [← Scan.passes_and]
  exact Scan.passes_congr (fun st element => sequential_checked_iff element) st elements

/-- The final pass over a part behind the start, with its signatures. -/
theorem parallel_later_iff (st : ScanState Trie) (elements : List (Bytes × ℕ))
    (hlater : ∀ element ∈ elements, element.2 ≠ ctx.startFromPosition) :
    (Scan.Passes (Parallel.Checked ctx) (Parallel.next ctx) st.withoutFlag elements ∧
      AllSigned ctx.services st.leaderPubKey elements) ↔
      Scan.Passes (Common ctx) (Sequential.next ctx) st elements ∧
        Scan.Passes (fun st element => excusedByEarlierHardFork ctx st element = false)
          (Sequential.next ctx) st elements := by
  have hparallel : Scan.Passes (Parallel.Checked ctx) (Parallel.next ctx) st.withoutFlag elements ↔
      Scan.Passes (fun st element => Parallel.Checked ctx st.withoutFlag element)
        (Sequential.next ctx) st elements := by
    symm
    apply Scan.passes_rel (fun (st : ScanState Trie) t => t = st.withoutFlag) elements
    · rintro element hmem st t rfl
      exact next_withoutFlag (hlater element hmem)
    · rintro element - st t rfl
      rfl
    · rfl
  rw [hparallel, allSigned_iff, ← Scan.passes_and, ← Scan.passes_and]
  apply Scan.passes_congr
  intro st element
  exact parallel_checked_iff ctx st st.keyLeader element (.inr rfl)

theorem foldl_later (st : ScanState Trie) (elements : List (Bytes × ℕ))
    (hlater : ∀ element ∈ elements, element.2 ≠ ctx.startFromPosition) :
    elements.foldl (Parallel.next ctx) st.withoutFlag =
      (elements.foldl (Sequential.next ctx) st).withoutFlag := by
  apply Scan.foldl_rel (fun t (st : ScanState Trie) => t = st.withoutFlag) elements
  · rintro element hmem t st rfl
    exact next_withoutFlag (hlater element hmem)
  · rfl

variable {first : Bytes × ℕ} {rest : List (Bytes × ℕ)} {st : ScanState Trie}

/-- The whole final pass, with its signatures. -/
theorem parallel_passes_iff (ctx : ScanContext Trie) (keyLeader : Option (CBlockHeader Trie))
    {previousHeaderHash : Bytes} (hkey : Parallel.isKeyElement ctx.services first = true)
    (hfirst : first.2 = ctx.startFromPosition)
    (hlater : ∀ element ∈ rest, element.2 ≠ ctx.startFromPosition)
    (hworks : ctx.optimizing = true → first.2 < st.PoWs.length)
    (hhash : first.2 = 0 ∨ previousHeaderHash = st.previousHeaderHash) :
    (Scan.Passes (Parallel.Checked ctx) (Parallel.next ctx)
        { st.withoutFlag with keyLeader, previousHeaderHash } (first :: rest) ∧
      AllSigned ctx.services st.leaderPubKey (first :: rest)) ↔
      Scan.Passes (Common ctx) (Sequential.next ctx) st (first :: rest) ∧
        Scan.Passes (fun st element => excusedByEarlierHardFork ctx st element = false)
          (Sequential.next ctx) st (first :: rest) := by
  have htail := parallel_later_iff (Sequential.next ctx st first) rest hlater
  have hhead := parallel_checked_iff ctx st keyLeader first hhash
  have hleader := allSigned_iff ctx st (first :: rest)
  rw [Scan.passes_cons, ← allSigned_iff] at hleader
  rw [hleader, Scan.passes_cons, Scan.passes_cons, Scan.passes_cons,
    next_first hkey hfirst hworks]
  constructor
  · rintro ⟨⟨hcheck, hpasses⟩, hsigned, hsignedRest⟩
    obtain ⟨hcommon, hearlier⟩ := hhead.mp ⟨hcheck, hsigned⟩
    obtain ⟨hcommonRest, hearlierRest⟩ := htail.mp ⟨hpasses, hsignedRest⟩
    exact ⟨⟨hcommon, hcommonRest⟩, hearlier, hearlierRest⟩
  · rintro ⟨⟨hcommon, hcommonRest⟩, hearlier, hearlierRest⟩
    obtain ⟨hcheck, hsigned⟩ := hhead.mpr ⟨hcommon, hearlier⟩
    obtain ⟨hpasses, hsignedRest⟩ := htail.mpr ⟨hcommonRest, hearlierRest⟩
    exact ⟨⟨hcheck, hpasses⟩, hsigned, hsignedRest⟩

theorem foldl_parallel (ctx : ScanContext Trie) (keyLeader : Option (CBlockHeader Trie))
    (previousHeaderHash : Bytes) (hkey : Parallel.isKeyElement ctx.services first = true)
    (hfirst : first.2 = ctx.startFromPosition)
    (hlater : ∀ element ∈ rest, element.2 ≠ ctx.startFromPosition)
    (hworks : ctx.optimizing = true → first.2 < st.PoWs.length) :
    (first :: rest).foldl (Parallel.next ctx) { st.withoutFlag with keyLeader, previousHeaderHash } =
      ((first :: rest).foldl (Sequential.next ctx) st).withoutFlag := by
  rw [List.foldl_cons, List.foldl_cons, next_first hkey hfirst hworks]
  exact foldl_later _ rest hlater

end Run

/-! ### Where the scans begin -/

section Begin

variable {services : HeaderServices Trie} {node : ProofNode} {call : ProofArguments Trie}
  {start : ProofStart Trie} {startFromPosition : ℕ} {st : ScanState Trie}

/-- The header before the start decodes. -/
def ParentKnown (services : HeaderServices Trie) (call : ProofArguments Trie)
    (startFromPosition : ℕ) : Prop :=
  1 ≤ startFromPosition →
    ∃ bytes, call.chainProof[startFromPosition - 1]? = some bytes ∧
      (services.instantiate bytes).isSome = true

theorem startingWork_length {work : ℕ × List ℕ}
    (hwork : startingWork node start startFromPosition = .ok work)
    (hPoWs : start.optimizing = true → ∃ n, start.PoWs = node.mHeaviestChainProofCumulativePoWs.take n)
    (hoptimizing : start.optimizing = true) : startFromPosition < work.2.length := by
  unfold startingWork at hwork
  rw [if_pos hoptimizing] at hwork
  obtain ⟨cumulativeDiff, hindexed, hrest⟩ := ok_of_bind hwork
  cases hrest
  rw [indexed_eq_ok_iff] at hindexed
  have hlt := (List.getElem?_eq_some_iff.mp hindexed).1
  obtain ⟨n, hn⟩ := hPoWs hoptimizing
  rw [hn, List.length_take] at hlt
  show startFromPosition < (node.mHeaviestChainProofCumulativePoWs.take (startFromPosition + 1)).length
  rw [List.length_take]
  omega

/-- An optimized start keeps a front of the node's list of cumulative work. -/
theorem prepareStart_PoWs (hstart : prepareStart services node call = .ok start)
    (hoptimizing : start.optimizing = true) :
    ∃ n, start.PoWs = node.mHeaviestChainProofCumulativePoWs.take n := by
  unfold prepareStart at hstart
  dsimp only at hstart
  split at hstart
  · split at hstart
    · cases hstart
    · split at hstart
      · obtain ⟨cumulativeDiff, -, hstart⟩ := ok_of_bind hstart
        obtain ⟨previousHeaderHash, -, hstart⟩ := ok_of_bind hstart
        obtain ⟨parent, -, hstart⟩ := ok_of_bind hstart
        cases hstart
        exact ⟨_, rfl⟩
      · cases hstart
        cases hoptimizing
  · cases hstart
    cases hoptimizing

/-- What the variables are before the first header. -/
structure Begun (services : HeaderServices Trie) (call : ProofArguments Trie)
    (start : ProofStart Trie) (startFromPosition : ℕ) (st : ScanState Trie) : Prop where
  leader : st.leaderPubKey = []
  flag : st.parentIsHardForkBlock = false
  firstKeyBlock : st.firstKeyBlock = true
  height : st.currentHeight = startFromPosition - 1
  works : start.optimizing = true → startFromPosition < st.PoWs.length
  parent : ∀ bytes, 1 ≤ startFromPosition → call.chainProof[startFromPosition - 1]? = some bytes →
    services.instantiate bytes = none → st.previousHeader = none ∧ st.previousHeaderTimestamp = 0

theorem initialState_begun (hstart : prepareStart services node call = .ok start)
    (hinitial : Sequential.initialState services node call start (some startFromPosition) = .ok st) :
    Begun services call start startFromPosition st := by
  obtain ⟨work, hwork, hrest⟩ := ok_of_bind hinitial
  have hlength := startingWork_length hwork (prepareStart_PoWs hstart)
  by_cases hone : 1 ≤ Sequential.fixedStart (some startFromPosition)
  · dsimp only at hrest
    rw [if_pos hone] at hrest
    obtain ⟨parent, hparent, hst⟩ := ok_of_bind hrest
    rw [indexed_eq_ok_iff] at hparent
    cases hst
    refine ⟨rfl, rfl, rfl, rfl, hlength, ?_⟩
    intro bytes _ hbytes hnone
    have hsame : some parent = some bytes := hparent.symm.trans hbytes
    cases hsame
    simp [hnone]
  · dsimp only at hrest
    rw [if_neg hone] at hrest
    cases hrest
    exact ⟨rfl, rfl, rfl, rfl, hlength, fun bytes hone' => absurd hone' hone⟩

/-- The multi-threaded verifier begins with the same variables, the leading key block set and the hash
of the header before the genesis position left empty, if the header before the start decodes. -/
theorem parallel_initialState_iff {startHeader : CBlockHeader Trie} {t : ScanState Trie} :
    Parallel.initialState services node call start startFromPosition startHeader = .ok t ↔
      ∃ st, Sequential.initialState services node call start (some startFromPosition) = .ok st ∧
        ParentKnown services call startFromPosition ∧
        t = { st.withoutFlag with
          keyLeader := some startHeader
          previousHeaderHash := if 1 ≤ startFromPosition then st.previousHeaderHash else [] } := by
  unfold Parallel.initialState Sequential.initialState
  cases hwork : startingWork node start startFromPosition with
  | error stop =>
      simp [hwork, bind, Except.bind, Sequential.fixedStart]
  | ok work =>
      by_cases hone : 1 ≤ startFromPosition
      · cases hparent : call.chainProof[startFromPosition - 1]? with
        | none =>
            simp [hwork, bind, Except.bind, Sequential.fixedStart, hone, indexed, hparent]
        | some parent =>
            cases hheader : services.instantiate parent with
            | none =>
                simp [hwork, bind, Except.bind, Sequential.fixedStart, hone, indexed, hparent, hheader,
                  ParentKnown]
            | some header =>
                simp [hwork, bind, Except.bind, Sequential.fixedStart, hone, indexed, hparent, hheader,
                  ParentKnown, ScanState.withoutFlag]
                exact eq_comm
      · have hknown : ParentKnown services call startFromPosition := fun hone' => absurd hone' hone
        simp [hwork, bind, Except.bind, Sequential.fixedStart, hone, hknown, ScanState.withoutFlag]
        exact eq_comm

end Begin

/-! ### Agreement -/

section Agreement

variable (services : HeaderServices Trie) (node : ProofNode) (call : ProofArguments Trie)

/-- Both verifiers come to their scan from the same point. -/
structure Ready (start : ProofStart Trie) (checkpoints : List CBCheckpoint) (startFromPosition : ℕ)
    (st : ScanState Trie) : Prop where
  prepared : prepareStart services node call = .ok start
  activated : activateCheckpoints services node call = .ok checkpoints
  found : findStart services call start.startFromPosition = .ok (some startFromPosition)
  initial : Sequential.initialState services node call start (some startFromPosition) = .ok st

/-- Everything that both verifiers check. -/
structure PassesCommon (start : ProofStart Trie) (checkpoints : List CBCheckpoint)
    (startFromPosition : ℕ) (st : ScanState Trie) : Prop where
  parent : ParentKnown services call startFromPosition
  headers : Scan.Passes (Common (scanContext services node call start checkpoints startFromPosition))
    (Sequential.next (scanContext services node call start checkpoints startFromPosition)) st
    (call.elementsFrom startFromPosition)
  leader : ((call.elementsFrom startFromPosition).foldl
    (Sequential.next (scanContext services node call start checkpoints startFromPosition))
    st).leaderPubKey.length = 32

/-- Some scanned header has a property, at the variables that the headers before it lead to. -/
def SomeHeader (ctx : ScanContext Trie) (st : ScanState Trie)
    (p : ScanState Trie → Bytes × ℕ → Bool) : Prop :=
  ∃ (k : ℕ) (hk : k < (ctx.call.elementsFrom ctx.startFromPosition).length),
    p (((ctx.call.elementsFrom ctx.startFromPosition).take k).foldl (Sequential.next ctx) st)
      ((ctx.call.elementsFrom ctx.startFromPosition)[k]) = true

/-- The refusals that only the sequential verifier knows. -/
def RefusedSequentially (start : ProofStart Trie) (checkpoints : List CBCheckpoint)
    (startFromPosition : ℕ) (st : ScanState Trie) : Prop :=
  let ctx := scanContext services node call start checkpoints startFromPosition
  (call.requireCheckpoints && node.getRequireObligatoryCheckpoints &&
      checkpoints.any (Sequential.missesCheckpoint services node call)) = true ∨
    SomeHeader ctx st fun st element => excessiveWork ctx st element || withoutParent ctx st element

/-- The refusals, endless runs and crashes that only the multi-threaded verifier knows. -/
def RefusedInParallel (numThreads : ℕ) (start : ProofStart Trie) (checkpoints : List CBCheckpoint)
    (startFromPosition : ℕ) (st : ScanState Trie) : Prop :=
  let ctx := scanContext services node call start checkpoints startFromPosition
  (call.requireCheckpoints && node.getRequireObligatoryCheckpoints &&
      checkpoints.any (Parallel.missesCheckpoint services node call
        [(startFromPosition, call.chainProof.length)])) = true ∨
    ¬ CutsCleanly (keysFrom services call.chainProof startFromPosition) call.chainProof.length
      startFromPosition numThreads ∨
    SomeHeader ctx st (excusedByEarlierHardFork ctx)

/-- Both verifiers accept the same, with the same verdict. -/
def VerifiersAgree (numThreads : ℕ) : Prop :=
  ∀ verdict : ProofVerdict Trie, verdict.result = .valid →
    (Sequential.verifyChainProof services node call = .ok verdict ↔
      ∃ fuel, Parallel.verifyChainProofMT services node call numThreads fuel = some (.ok verdict))

variable {services node call}

theorem not_someHeader_iff {ctx : ScanContext Trie} {st : ScanState Trie}
    {p : ScanState Trie → Bytes × ℕ → Bool} :
    ¬ SomeHeader ctx st p ↔
      Scan.Passes (fun st element => p st element = false) (Sequential.next ctx) st
        (ctx.call.elementsFrom ctx.startFromPosition) := by
  rw [Scan.passes_iff_getElem]
  unfold SomeHeader
  constructor
  · intro hnone k hk
    rw [← Bool.not_eq_true]
    exact fun hp => hnone ⟨k, hk, hp⟩
  · rintro hall ⟨k, hk, hp⟩
    rw [hall k hk] at hp
    cases hp

variable {start : ProofStart Trie} {checkpoints : List CBCheckpoint} {startFromPosition : ℕ}
  {st : ScanState Trie}

/-- The scanned part begins with a key block. -/
theorem Ready.elements (hready : Ready services node call start checkpoints startFromPosition st) :
    ∃ first rest, call.elementsFrom startFromPosition = first :: rest ∧
      first.2 = startFromPosition ∧ call.chainProof[startFromPosition]? = some first.1 ∧
      Parallel.isKeyElement services first = true ∧
      (∀ element ∈ rest, element.2 ≠ startFromPosition) := by
  obtain ⟨-, bytes, header, hbytes, hheader, hkey, -⟩ := findStart_some hready.found
  refine ⟨(bytes, startFromPosition), _, ProofArguments.elementsFrom_eq_cons hbytes, rfl, hbytes,
    Parallel.isKeyElement_iff.mpr ⟨header, hheader, hkey⟩, ?_⟩
  intro element hmem
  have := (Parallel.mem_drop_zipIdx.mp hmem).1
  omega

/-- A header that no known parent precedes is refused by the sequential verifier as well. -/
theorem parentKnown_of_sequential (hsize : call.chainProof.length < 2 ^ 63)
    (hready : Ready services node call start checkpoints startFromPosition st)
    (hpasses : Scan.Passes
      (Sequential.Checked (scanContext services node call start checkpoints startFromPosition))
      (Sequential.next (scanContext services node call start checkpoints startFromPosition)) st
      (call.elementsFrom startFromPosition)) :
    ParentKnown services call startFromPosition := by
  intro hone
  obtain ⟨first, rest, hcons, hfirst, hbytes, hkey, -⟩ := hready.elements
  have hlt := (List.getElem?_eq_some_iff.mp hbytes).1
  have hbefore : startFromPosition - 1 < call.chainProof.length := by omega
  refine ⟨call.chainProof[startFromPosition - 1], List.getElem?_eq_getElem hbefore, ?_⟩
  by_contra hunknown
  have hbegun := initialState_begun hready.prepared hready.initial
  obtain ⟨hprevious, htime⟩ := hbegun.parent _ hone (List.getElem?_eq_getElem hbefore)
    (by simpa using hunknown)
  rw [hcons, Scan.passes_cons, sequential_checked_iff] at hpasses
  obtain ⟨⟨hcommon, -, hwithout⟩, -⟩ := hpasses
  obtain ⟨header, hheader, hisKey⟩ := Parallel.isKeyElement_iff.mp hkey
  obtain ⟨⟨header', hheader', hchecks⟩, -⟩ := hcommon
  have hsame : some header = some header' := hheader.symm.trans hheader'
  cases hsame
  have hheight : (first.2 != 0 && header.getHeight != successor st.currentHeight) = false :=
    hchecks _ (by simp [commonChecks])
  rw [hbegun.height, hfirst] at hheight
  have hpositive : header.getHeight ≠ 0 := by
    have hone' : (startFromPosition != 0) = true := by simp; omega
    rw [hone', Bool.true_and, bne_eq_false_iff_eq] at hheight
    rw [hheight]
    unfold successor
    omega
  unfold withoutParent at hwithout
  rw [keyBlockWith_eq_false hheader, hprevious, htime] at hwithout
  simp [hisKey, hpositive] at hwithout

/-- What it means for the sequential verifier not to refuse over its own checks. -/
theorem not_refusedSequentially_iff :
    ¬ RefusedSequentially services node call start checkpoints startFromPosition st ↔
      (call.requireCheckpoints && node.getRequireObligatoryCheckpoints &&
        checkpoints.any (Sequential.missesCheckpoint services node call)) = false ∧
      Scan.Passes
        (fun st element =>
          excessiveWork (scanContext services node call start checkpoints startFromPosition)
            st element = false ∧
          withoutParent (scanContext services node call start checkpoints startFromPosition)
            st element = false)
        (Sequential.next (scanContext services node call start checkpoints startFromPosition)) st
        (call.elementsFrom startFromPosition) := by
  unfold RefusedSequentially
  rw [not_or, not_someHeader_iff, Bool.not_eq_true]
  simp only [Bool.or_eq_false_iff]
  rfl

/-- What the sequential verifier accepts, by the common checks. -/
theorem sequential_accepts_iff (hsize : call.chainProof.length < 2 ^ 63)
    {verdict : ProofVerdict Trie} (hvalid : verdict.result = .valid) :
    Sequential.verifyChainProof services node call = .ok verdict ↔
      ∃ start checkpoints startFromPosition st,
        Ready services node call start checkpoints startFromPosition st ∧
        PassesCommon services node call start checkpoints startFromPosition st ∧
        ¬ RefusedSequentially services node call start checkpoints startFromPosition st ∧
        verdict = call.accepted ((call.elementsFrom startFromPosition).foldl
          (Sequential.next (scanContext services node call start checkpoints startFromPosition)) st) := by
  rw [Sequential.verifyChainProof_ok_iff hsize hvalid]
  constructor
  · rintro ⟨start, checkpoints, startFromPosition, st, hstart, hcheckpoints, hmissing, hfound, hst,
      hpasses, hleader, hverdict⟩
    have hready : Ready services node call start checkpoints startFromPosition st :=
      ⟨hstart, hcheckpoints, hfound, hst⟩
    obtain ⟨hcommon, hnone⟩ := (sequential_passes_iff _ _).mp hpasses
    exact ⟨start, checkpoints, startFromPosition, st, hready,
      ⟨parentKnown_of_sequential hsize hready hpasses, hcommon, hleader⟩,
      not_refusedSequentially_iff.mpr ⟨hmissing, hnone⟩, hverdict⟩
  · rintro ⟨start, checkpoints, startFromPosition, st, hready, hshared, hrefused, hverdict⟩
    obtain ⟨hmissing, hnone⟩ := not_refusedSequentially_iff.mp hrefused
    exact ⟨start, checkpoints, startFromPosition, st, hready.prepared, hready.activated, hmissing,
      hready.found, hready.initial, (sequential_passes_iff _ _).mpr ⟨hshared.headers, hnone⟩,
      hshared.leader, hverdict⟩

/-- What the scan of the multi-threaded verifier finds, in terms of the sequential one's. -/
theorem Ready.parallel_scan (hready : Ready services node call start checkpoints startFromPosition st)
    (startHeader : CBlockHeader Trie) :
    let ctx := scanContext services node call start checkpoints startFromPosition
    let t : ScanState Trie :=
      { st.withoutFlag with
        keyLeader := some startHeader
        previousHeaderHash := if 1 ≤ startFromPosition then st.previousHeaderHash else [] }
    ((Scan.Passes (Parallel.Checked ctx) (Parallel.next ctx) t (call.elementsFrom startFromPosition) ∧
        AllSigned services [] (call.elementsFrom startFromPosition)) ↔
      Scan.Passes (Common ctx) (Sequential.next ctx) st (call.elementsFrom startFromPosition) ∧
        ¬ SomeHeader ctx st (excusedByEarlierHardFork ctx)) ∧
      (call.elementsFrom startFromPosition).foldl (Parallel.next ctx) t =
        ((call.elementsFrom startFromPosition).foldl (Sequential.next ctx) st).withoutFlag := by
  intro ctx t
  obtain ⟨first, rest, hcons, hfirst, hbytes, hkey, hlater⟩ := hready.elements
  have hbegun := initialState_begun hready.prepared hready.initial
  have hworks : ctx.optimizing = true → first.2 < st.PoWs.length := by
    rw [hfirst]
    exact hbegun.works
  have hhash : first.2 = 0 ∨
      (if 1 ≤ startFromPosition then st.previousHeaderHash else []) = st.previousHeaderHash := by
    by_cases hone : 1 ≤ startFromPosition
    · exact .inr (if_pos hone)
    · exact .inl (by omega)
  have hpasses := parallel_passes_iff ctx (some startHeader) hkey hfirst hlater hworks hhash
  have hfold := foldl_parallel ctx (some startHeader)
    (if 1 ≤ startFromPosition then st.previousHeaderHash else []) hkey hfirst hlater hworks
  rw [not_someHeader_iff]
  show (Scan.Passes _ _ t (call.elementsFrom startFromPosition) ∧ _ ↔
    _ ∧ Scan.Passes _ _ st (call.elementsFrom startFromPosition)) ∧ _
  rw [hcons]
  rw [hbegun.leader] at hpasses
  exact ⟨hpasses, hfold⟩

/-- Common checks imply what the first two phases look at. -/
theorem PassesCommon.decodes
    (hshared : PassesCommon services node call start checkpoints startFromPosition st)
    {element : Bytes × ℕ} (hmem : element ∈ call.elementsFrom startFromPosition) :
    Decodes services element := by
  obtain ⟨k, hk, rfl⟩ := List.mem_iff_getElem.mp hmem
  obtain ⟨⟨header, hheader, -⟩, -⟩ := (Scan.passes_iff_getElem _ _).mp hshared.headers k hk
  have hsome : services.instantiate (call.elementsFrom startFromPosition)[k].1 = some header := hheader
  unfold Decodes
  rw [hsome]
  rfl

/-- What the multi-threaded verifier accepts, by the common checks. -/
theorem parallel_accepts_iff {numThreads : ℕ} (hthreads : 1 ≤ numThreads)
    {verdict : ProofVerdict Trie} (hvalid : verdict.result = .valid) :
    (∃ fuel, Parallel.verifyChainProofMT services node call numThreads fuel = some (.ok verdict)) ↔
      ∃ start checkpoints startFromPosition st,
        Ready services node call start checkpoints startFromPosition st ∧
        PassesCommon services node call start checkpoints startFromPosition st ∧
        ¬ RefusedInParallel services node call numThreads start checkpoints startFromPosition st ∧
        verdict = call.accepted ((call.elementsFrom startFromPosition).foldl
          (Sequential.next (scanContext services node call start checkpoints startFromPosition)) st) := by
  rw [Parallel.verifyChainProofMT_ok_iff hthreads hvalid]
  constructor
  · rintro ⟨start, checkpoints, startFromPosition, startHeader, t, hstart, hcheckpoints, hmissing,
      hfound, hheader, ht, hdecodes, hclean, houtdated, hsigned, hpasses, hleader, hverdict⟩
    obtain ⟨st, hst, hparent, rfl⟩ := parallel_initialState_iff.mp ht
    have hready : Ready services node call start checkpoints startFromPosition st :=
      ⟨hstart, hcheckpoints, hfound, hst⟩
    obtain ⟨hscan, hfold⟩ := hready.parallel_scan startHeader
    obtain ⟨hcommon, hnone⟩ := hscan.mp ⟨hpasses, hsigned⟩
    rw [hfold] at hleader hverdict
    refine ⟨start, checkpoints, startFromPosition, st, hready, ⟨hparent, hcommon, hleader⟩, ?_, hverdict⟩
    unfold RefusedInParallel
    rw [not_or, not_or, not_not, Bool.not_eq_true]
    exact ⟨hmissing, hclean, hnone⟩
  · rintro ⟨start, checkpoints, startFromPosition, st, hready, hshared, hrefused, hverdict⟩
    unfold RefusedInParallel at hrefused
    rw [not_or, not_or, not_not, Bool.not_eq_true] at hrefused
    obtain ⟨hmissing, hclean, hnone⟩ := hrefused
    obtain ⟨first, rest, hcons, hfirst, hbytes, hkey, -⟩ := hready.elements
    obtain ⟨startHeader, hheader, -⟩ := Parallel.isKeyElement_iff.mp hkey
    obtain ⟨hscan, hfold⟩ := hready.parallel_scan startHeader
    obtain ⟨hpasses, hsigned⟩ := hscan.mpr ⟨hshared.headers, hnone⟩
    have houtdated : ¬ Outdated services startHeader := by
      have hfirstCommon := hshared.headers
      rw [hcons] at hfirstCommon
      obtain ⟨⟨⟨header, hheader', hchecks⟩, -⟩, -⟩ := hfirstCommon
      have hsame : some startHeader = some header := hheader.symm.trans hheader'
      cases hsame
      unfold commonChecks at hchecks
      have hversion := hchecks _ (List.mem_append_left _ (List.mem_append_left _ List.mem_cons_self))
      unfold Outdated
      exact of_decide_eq_false hversion
    refine ⟨start, checkpoints, startFromPosition, startHeader, _, hready.prepared, hready.activated,
      hmissing, hready.found, ?_, parallel_initialState_iff.mpr ⟨st, hready.initial, hshared.parent, rfl⟩,
      fun element hmem => hshared.decodes hmem, hclean, houtdated, hsigned, hpasses, ?_, ?_⟩
    · rw [hbytes]
      exact hheader
    · rw [hfold]
      exact hshared.leader
    · rw [hfold]
      exact hverdict

end Agreement

section Determined

variable {services : HeaderServices Trie} {node : ProofNode} {call : ProofArguments Trie}

/-- Where the scan begins is determined by the call. -/
theorem Ready.unique {start start' : ProofStart Trie} {checkpoints checkpoints' : List CBCheckpoint}
    {startFromPosition startFromPosition' : ℕ} {st st' : ScanState Trie}
    (hready : Ready services node call start checkpoints startFromPosition st)
    (hready' : Ready services node call start' checkpoints' startFromPosition' st') :
    start = start' ∧ checkpoints = checkpoints' ∧ startFromPosition = startFromPosition' ∧ st = st' := by
  obtain ⟨hstart, hcheckpoints, hfound, hst⟩ := hready
  obtain ⟨hstart', hcheckpoints', hfound', hst'⟩ := hready'
  cases hstart.symm.trans hstart'
  cases hcheckpoints.symm.trans hcheckpoints'
  cases hfound.symm.trans hfound'
  cases hst.symm.trans hst'
  exact ⟨rfl, rfl, rfl, rfl⟩

end Determined

/-- The verifiers agree exactly where a chain-proof that passes the common checks meets a refusal of
both or of none of them. -/
theorem verifiers_agree_iff (services : HeaderServices Trie) (node : ProofNode)
    (call : ProofArguments Trie) (hsize : call.chainProof.length < 2 ^ 63) {numThreads : ℕ}
    (hthreads : 1 ≤ numThreads) :
    VerifiersAgree services node call numThreads ↔
      ∀ start checkpoints startFromPosition st,
        Ready services node call start checkpoints startFromPosition st →
        PassesCommon services node call start checkpoints startFromPosition st →
        (RefusedSequentially services node call start checkpoints startFromPosition st ↔
          RefusedInParallel services node call numThreads start checkpoints startFromPosition st) := by
  unfold VerifiersAgree
  constructor
  · intro hagree start checkpoints startFromPosition st hready hshared
    have hverdict := hagree (call.accepted ((call.elementsFrom startFromPosition).foldl
      (Sequential.next (scanContext services node call start checkpoints startFromPosition)) st)) rfl
    rw [sequential_accepts_iff hsize rfl, parallel_accepts_iff hthreads rfl] at hverdict
    apply not_iff_not.mp
    constructor
    · intro hclear
      obtain ⟨_, _, _, _, hready', -, hclear', -⟩ := hverdict.mp ⟨_, _, _, _, hready, hshared, hclear, rfl⟩
      obtain ⟨rfl, rfl, rfl, rfl⟩ := hready.unique hready'
      exact hclear'
    · intro hclear
      obtain ⟨_, _, _, _, hready', -, hclear', -⟩ := hverdict.mpr ⟨_, _, _, _, hready, hshared, hclear, rfl⟩
      obtain ⟨rfl, rfl, rfl, rfl⟩ := hready.unique hready'
      exact hclear'
  · intro hsame verdict hvalid
    rw [sequential_accepts_iff hsize hvalid, parallel_accepts_iff hthreads hvalid]
    constructor
    · rintro ⟨start, checkpoints, startFromPosition, st, hready, hshared, hclear, hverdict⟩
      have hclear' := (not_congr (hsame _ _ _ _ hready hshared)).mp hclear
      exact ⟨start, checkpoints, startFromPosition, st, hready, hshared, hclear', hverdict⟩
    · rintro ⟨start, checkpoints, startFromPosition, st, hready, hshared, hclear, hverdict⟩
      have hclear' := (not_congr (hsame _ _ _ _ hready hshared)).mpr hclear
      exact ⟨start, checkpoints, startFromPosition, st, hready, hshared, hclear', hverdict⟩

/-! ### Chain-proofs of one header -/

/-- A signed key block. -/
def loneHeader (height : ℕ) : CBlockHeader Unit where
  mVersion := 2
  mIsKeyBlock := true
  fields
    | .mHeight => height
    | .mSolvedAt => (100 : ℕ)
    | .mNonce => (1 : ℕ)
    | .mPublicKey => List.replicate 32 (7 : UInt8)
    | f => f.kind.zero
  mTransactionsDB := ()
  mReceiptsDB := ()
  mVerifiablesDB := ()

/-- Headers whose work and signatures are sound. -/
def loneServices : HeaderServices Unit where
  instantiate
    | [height] => some (loneHeader height.toNat)
    | _ => none
  getSHA2_256Vec bytes := bytes
  verifyNonce _ := true
  verifyBlockSignature _ _ := true
  getDifficulty _ := 1
  exceedsParentWork _ _ := false
  getRequiredVersionNumber _ := 0
  getMaxIntoThePastBlockTimeSkewSec := 60
  getMaxIntoTheFutureBlockParentTimeSkewSec := 60
  getMaxIntoTheFutureBlockNativeTimeSkewSec := 60

def freshNode : ProofNode where
  mHeaviestChainProofCumulativePoWs := []
  mHeaviestPath := []
  mCheckpoints := []
  isBlacklisted _ := false
  getRequireObligatoryCheckpoints := true
  getIsOperatorLeadingAHardFork := false
  nowNative := 100

/-- The chain-proof of one header. -/
def loneCall (height : UInt8) : ProofArguments Unit := { chainProof := [[height]] }

/-- A chain-proof that begins at height 5 is valid for the threads only. -/
theorem fifth_verifiers_disagree : ¬ VerifiersAgree loneServices freshNode (loneCall 5) 4 := by
  intro hagree
  obtain ⟨verdict, hparallel, hvalid⟩ : ∃ verdict,
      Parallel.verifyChainProofMT loneServices freshNode (loneCall 5) 4 0 = some (.ok verdict) ∧
        verdict.result = .valid := ⟨_, rfl, rfl⟩
  have hsequential := (hagree verdict hvalid).mpr ⟨0, hparallel⟩
  have hrefused : ∃ refused, Sequential.verifyChainProof loneServices freshNode (loneCall 5) =
      .ok refused ∧ refused.result = .blockTimeOutOfRange := ⟨_, rfl, rfl⟩
  obtain ⟨refused, hrun, hresult⟩ := hrefused
  rw [hrun] at hsequential
  cases hsequential
  rw [hvalid] at hresult
  cases hresult

/-! ### A genesis block and two data blocks -/

/-- The genesis block at height 0, and data blocks of one time-stamp above it. -/
def epochHeader (dataTime height : ℕ) : CBlockHeader Unit where
  mVersion := 2
  mIsKeyBlock := height == 0
  fields
    | .mHeight => height
    | .mSolvedAt => if height = 0 then (100 : ℕ) else dataTime
    | .mNonce => (1 : ℕ)
    | .mPublicKey => List.replicate 32 (7 : UInt8)
    | .mParentBlockID => List.replicate 31 (0 : UInt8) ++ [UInt8.ofNat (height - 1)]
    | f => f.kind.zero
  mTransactionsDB := ()
  mReceiptsDB := ()
  mVerifiablesDB := ()

def epochServices (dataTime : ℕ) : HeaderServices Unit :=
  { loneServices with
    instantiate
      | [height] => some (epochHeader dataTime height.toNat)
      | _ => none
    getSHA2_256Vec bytes := List.replicate 31 (0 : UInt8) ++ bytes }

/-- The chain-proof of the three. -/
def epochProof : ProofArguments Unit := { chainProof := [[0], [1], [2]] }

theorem epochProof_ready (dataTime : ℕ) :
    Ready (epochServices dataTime) freshNode epochProof { optimizing := false, startFromPosition := 0 } [] 0
      { currentHeight := 0 } :=
  ⟨rfl, rfl, rfl, rfl⟩

/-- The verifiers agree on them. -/
theorem epoch_verifiers_agree : VerifiersAgree (epochServices 100) freshNode epochProof 4 := by
  refine (verifiers_agree_iff (epochServices 100) freshNode epochProof (by decide) (by decide)).mpr ?_
  intro start checkpoints startFromPosition st hready _
  obtain ⟨rfl, rfl, rfl, rfl⟩ := (epochProof_ready 100).unique hready
  have hthree : ∀ k < (epochProof.elementsFrom 0).length, k = 0 ∨ k = 1 ∨ k = 2 := by
    intro k hk
    have hk' : k < 3 := hk
    omega
  apply iff_of_false
  · rintro (hmissing | ⟨k, hk, hheader⟩)
    · cases hmissing
    · rcases hthree k hk with rfl | rfl | rfl <;> cases hheader
  · rintro (hmissing | hcut | ⟨k, hk, hheader⟩)
    · cases hmissing
    · exact hcut (.inl (.inl rfl))
    · rcases hthree k hk with rfl | rfl | rfl <;> cases hheader

end Gridnet
