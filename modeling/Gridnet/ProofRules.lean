import Gridnet.VerifiersAgree

/-! What each verifier asks of a header and of a whole chain-proof, and how that changes between a run that
begins at a common point with the heaviest chain and a run from the genesis block. -/

namespace Gridnet

open Parallel (Signed Decodes CutsCleanly keysFrom)

variable {Trie : Type}

/-! ### What the two runs excuse -/

/-- The run over the same chain-proof from the genesis block. -/
def ProofArguments.fromGenesis (call : ProofArguments Trie) : ProofArguments Trie :=
  { call with
    startFromPosition := 0
    optimize := false }

/-- The loop of the run from the genesis block has the same at hand, but its place and its lock. -/
def ScanContext.fromGenesis (ctx : ScanContext Trie) : ScanContext Trie :=
  { ctx with
    call := ctx.call.fromGenesis
    optimizing := false
    startFromPosition := 0 }

/-- The variables, when some header before the start was a hard fork block. -/
def ScanState.remembering (earlier : Bool) (st : ScanState Trie) : ScanState Trie :=
  { st with parentIsHardForkBlock := earlier || st.parentIsHardForkBlock }

/-- The hard fork blocks up to the parent. -/
def ScanState.forkBefore (st : ScanState Trie) : Bool :=
  st.parentIsHardForkBlock || isHardForkBlock st.previousHeader

section Excuses

variable (ctx : ScanContext Trie) (st : ScanState Trie)

/-- The variables of a run from the genesis block and of a run that began later, where `earlier` is
whether the first met a hard fork block before the second began. -/
structure ScanState.Alike (earlier : Bool) (full later : ScanState Trie) : Prop where
  same : full =
    { later with
      parentIsHardForkBlock := full.parentIsHardForkBlock
      containsGenesisBlock := full.containsGenesisBlock }
  forkBefore : full.forkBefore = (earlier || later.forkBefore)

/-- A key block whose time only the lock of an optimized run excuses. -/
def excusedByLock (element : Bytes × ℕ) : Bool :=
  keyBlockWith ctx
    (fun header => excusedByHardFork ctx.node ctx.call &&
      !excusedByHardFork ctx.node ctx.call.fromGenesis && !ctx.isCheckpointed (some header) &&
      (tooFarIntoThePast ctx.services header.getSolvedAtTime st.previousHeaderTimestamp ||
        (tooFarAfterParent ctx.services st.previousHeader st.forkBefore header.getSolvedAtTime ||
          tooFarAfterClock ctx.services ctx.node header.getSolvedAtTime)))
    element

/-- A key block whose time only a hard fork block before the start excuses. -/
def excusedBeforeStart (earlier : Bool) (element : Bytes × ℕ) : Bool :=
  keyBlockWith ctx
    (fun header => earlier &&
      tooFarAfterParent ctx.services st.previousHeader st.forkBefore header.getSolvedAtTime &&
      !(excusedByHardFork ctx.node ctx.call || ctx.isCheckpointed (some header)))
    element

variable {ctx st}

theorem excusedByHardFork_fromGenesis (node : ProofNode) (call : ProofArguments Trie) :
    excusedByHardFork node call.fromGenesis = true → excusedByHardFork node call = true := by
  unfold excusedByHardFork ProofArguments.heaviestChainLocked ProofArguments.fromGenesis
    ProofArguments.isHeaviestChainProof ProofArguments.isVerifiedChainProof
  simp only [Bool.and_eq_true, Bool.or_eq_true]
  rintro ⟨hleading, (hheaviest | hfalse) | hverified⟩
  · exact ⟨hleading, .inl (.inl hheaviest)⟩
  · simp at hfalse
  · exact ⟨hleading, .inr hverified⟩

/-- An excuse that implies another leaves the difference. -/
theorem times_iff (past ahead genesis locked checkpointed : Bool)
    (himplies : genesis = true → locked = true) :
    ((past && !(genesis || checkpointed)) = false ∧ (ahead && !(genesis || checkpointed)) = false) ↔
      ((past && !(locked || checkpointed)) = false ∧ (ahead && !(locked || checkpointed)) = false) ∧
        (locked && !genesis && !checkpointed && (past || ahead)) = false := by
  revert himplies
  revert past ahead genesis locked checkpointed
  decide

theorem commonKeyChecks_fromGenesis_iff (header : CBlockHeader Trie) :
    (∀ check ∈ commonKeyChecks ctx.fromGenesis st header, check = false) ↔
      (∀ check ∈ commonKeyChecks ctx st header, check = false) ∧
        (excusedByHardFork ctx.node ctx.call &&
          !excusedByHardFork ctx.node ctx.call.fromGenesis && !ctx.isCheckpointed (some header) &&
          (tooFarIntoThePast ctx.services header.getSolvedAtTime st.previousHeaderTimestamp ||
            (tooFarAfterParent ctx.services st.previousHeader st.forkBefore header.getSolvedAtTime ||
              tooFarAfterClock ctx.services ctx.node header.getSolvedAtTime))) = false := by
  have htimes := times_iff
    (tooFarIntoThePast ctx.services header.getSolvedAtTime st.previousHeaderTimestamp)
    (tooFarAfterParent ctx.services st.previousHeader st.forkBefore header.getSolvedAtTime ||
      tooFarAfterClock ctx.services ctx.node header.getSolvedAtTime)
    (excusedByHardFork ctx.node ctx.call.fromGenesis) (excusedByHardFork ctx.node ctx.call)
    (ctx.isCheckpointed (some header)) (excusedByHardFork_fromGenesis ctx.node ctx.call)
  unfold commonKeyChecks
  simp only [List.forall_mem_cons, List.not_mem_nil, false_imp_iff, implies_true, and_true]
  constructor
  · rintro ⟨hzero, hparent, hpast, hahead, hwork, hheight, hkey⟩
    obtain ⟨⟨hpast, hahead⟩, hlock⟩ := htimes.mp ⟨hpast, hahead⟩
    exact ⟨⟨hzero, hparent, hpast, hahead, hwork, hheight, hkey⟩, hlock⟩
  · rintro ⟨⟨hzero, hparent, hpast, hahead, hwork, hheight, hkey⟩, hlock⟩
    obtain ⟨hpast, hahead⟩ := htimes.mpr ⟨⟨hpast, hahead⟩, hlock⟩
    exact ⟨hzero, hparent, hpast, hahead, hwork, hheight, hkey⟩

theorem commonKeyChecks_remembering_iff (earlier : Bool) (header : CBlockHeader Trie) :
    (∀ check ∈ commonKeyChecks ctx st header, check = false) ↔
      (∀ check ∈ commonKeyChecks ctx (st.remembering earlier) header, check = false) ∧
        (earlier && tooFarAfterParent ctx.services st.previousHeader st.forkBefore
          header.getSolvedAtTime &&
            !(excusedByHardFork ctx.node ctx.call || ctx.isCheckpointed (some header))) = false := by
  have hafter := afterParent_iff ctx st.previousHeader earlier st.forkBefore
    (tooFarAfterClock ctx.services ctx.node header.getSolvedAtTime)
    (excusedByHardFork ctx.node ctx.call || ctx.isCheckpointed (some header)) header.getSolvedAtTime
  have hflag : (earlier || st.forkBefore) =
      ((st.remembering earlier).parentIsHardForkBlock ||
        isHardForkBlock (st.remembering earlier).previousHeader) :=
    (Bool.or_assoc _ _ _).symm
  rw [hflag] at hafter
  unfold commonKeyChecks
  simp only [List.forall_mem_cons, List.not_mem_nil, false_imp_iff, implies_true, and_true]
  constructor
  · rintro ⟨hzero, hparent, hpast, hahead, hwork, hheight, hkey⟩
    obtain ⟨hahead, hearlier⟩ := hafter.mp hahead
    exact ⟨⟨hzero, hparent, hpast, hahead, hwork, hheight, hkey⟩, hearlier⟩
  · rintro ⟨⟨hzero, hparent, hpast, hahead, hwork, hheight, hkey⟩, hearlier⟩
    exact ⟨hzero, hparent, hpast, hafter.mpr ⟨hahead, hearlier⟩, hwork, hheight, hkey⟩

/-- Two states whose key block checks differ by one condition. -/
theorem common_iff_of_keyChecks (ctx ctx' : ScanContext Trie) (st st' : ScanState Trie)
    (p : CBlockHeader Trie → Bool) (hservices : ctx'.services = ctx.services) (hnode : ctx'.node = ctx.node)
    (hverified : ctx'.call.isVerifiedChainProof = ctx.call.isVerifiedChainProof)
    (hheaviest : ctx'.call.isHeaviestChainProof = ctx.call.isHeaviestChainProof)
    (hheight : st'.currentHeight = st.currentHeight)
    (hhash : st'.previousHeaderHash = st.previousHeaderHash)
    (hleader : st'.leaderPubKey = st.leaderPubKey)
    (hkeys : ∀ header, (∀ check ∈ commonKeyChecks ctx' st' header, check = false) ↔
      (∀ check ∈ commonKeyChecks ctx st header, check = false) ∧ p header = false)
    (element : Bytes × ℕ) :
    Common ctx' st' element ↔ Common ctx st element ∧ keyBlockWith ctx p element = false := by
  unfold Common
  rw [hservices, hleader]
  cases hheader : ctx.services.instantiate element.1 with
  | none => simp
  | some header =>
      rw [keyBlockWith_eq_false hheader]
      simp only [Option.some.injEq, exists_eq_left']
      unfold commonChecks
      rw [hservices, hnode, hverified, hheaviest, hheight, hhash, hleader]
      simp only [List.forall_mem_append]
      cases hkey : header.isKeyBlock with
      | true =>
          simp only [if_true, hkeys, forall_const]
          tauto
      | false =>
          simp

/-- The run from the genesis block makes the same checks without the lock's excuse. -/
theorem common_fromGenesis_iff (ctx : ScanContext Trie) (st : ScanState Trie) (element : Bytes × ℕ) :
    Common ctx.fromGenesis st element ↔
      Common ctx st element ∧ excusedByLock ctx st element = false :=
  common_iff_of_keyChecks ctx ctx.fromGenesis st st _ rfl rfl rfl rfl rfl rfl rfl
    commonKeyChecks_fromGenesis_iff element

/-- Forgetting a hard fork block before the start takes an excuse away. -/
theorem common_remembering_iff (ctx : ScanContext Trie) (st : ScanState Trie) (earlier : Bool)
    (element : Bytes × ℕ) :
    Common ctx st element ↔
      Common ctx (st.remembering earlier) element ∧ excusedBeforeStart ctx st earlier element = false :=
  common_iff_of_keyChecks ctx ctx (st.remembering earlier) st _ rfl rfl rfl rfl rfl rfl rfl
    (commonKeyChecks_remembering_iff earlier) element

/-- Both look alike to the checks of the same run. -/
theorem commonKeyChecks_alike {full later : ScanState Trie} (halike : full.Alike false later)
    (header : CBlockHeader Trie) : commonKeyChecks ctx full header = commonKeyChecks ctx later header := by
  obtain ⟨hsame, hfork⟩ := halike
  rw [Bool.false_or] at hfork
  unfold ScanState.forkBefore at hfork
  unfold commonKeyChecks
  rw [hfork, hsame]

theorem common_alike {full later : ScanState Trie} (halike : full.Alike false later)
    (element : Bytes × ℕ) : Common ctx full element ↔ Common ctx later element := by
  have hkeys : ∀ header, commonKeyChecks ctx full header = commonKeyChecks ctx later header :=
    fun header => commonKeyChecks_alike halike header
  obtain ⟨hsame, -⟩ := halike
  unfold Common commonChecks
  simp only [hkeys]
  rw [hsame]

theorem Common.decodes {element : Bytes × ℕ} (hcommon : Common ctx st element) :
    (ctx.services.instantiate element.1).isSome = true := by
  obtain ⟨⟨header, hheader, -⟩, -⟩ := hcommon
  rw [hheader]
  rfl

theorem excusedByLock_alike {full later : ScanState Trie} (halike : full.Alike false later)
    (element : Bytes × ℕ) : excusedByLock ctx full element = excusedByLock ctx later element := by
  obtain ⟨hsame, hfork⟩ := halike
  rw [Bool.false_or] at hfork
  unfold excusedByLock
  rw [hfork, hsame]

end Excuses

/-! ### Rules -/

/-- What a verifier asks of the headers that it scans and of the whole chain-proof. What it asks of a
header in a run from the genesis block differs by the two excuses from what it asks in a later run. -/
structure ProofRule (Trie : Type) where
  header : ScanContext Trie → ScanState Trie → Bytes × ℕ → Prop
  whole : HeaderServices Trie → ProofNode → ProofArguments Trie → List CBCheckpoint → ℕ → Prop
  excusedByLock : ScanContext Trie → ScanState Trie → Bytes × ℕ → Bool
  excusedBeforeStart : ScanContext Trie → ScanState Trie → (earlier : Bool) → Bytes × ℕ → Bool
  fromGenesis : ∀ ctx st element,
    header ctx.fromGenesis st element ↔ header ctx st element ∧ excusedByLock ctx st element = false
  remembering : ∀ ctx st earlier element,
    header ctx st element ↔
      header ctx (st.remembering earlier) element ∧ excusedBeforeStart ctx st earlier element = false
  alike : ∀ ctx full later element, ScanState.Alike false full later →
    (header ctx full element ↔ header ctx later element) ∧
      excusedByLock ctx full element = excusedByLock ctx later element
  decodes : ∀ ctx st element, header ctx st element → (ctx.services.instantiate element.1).isSome = true

def sequentialRule : ProofRule Trie where
  header ctx st element :=
    Common ctx st element ∧ excessiveWork ctx st element = false ∧ withoutParent ctx st element = false
  excusedByLock := Gridnet.excusedByLock
  excusedBeforeStart := Gridnet.excusedBeforeStart
  fromGenesis ctx st element := by
    have hrest : excessiveWork ctx.fromGenesis st element = excessiveWork ctx st element ∧
        withoutParent ctx.fromGenesis st element = withoutParent ctx st element := ⟨rfl, rfl⟩
    rw [common_fromGenesis_iff, hrest.1, hrest.2, and_assoc, and_assoc]
    tauto
  remembering ctx st earlier element := by
    have hrest : excessiveWork ctx (st.remembering earlier) element = excessiveWork ctx st element ∧
        withoutParent ctx (st.remembering earlier) element = withoutParent ctx st element := ⟨rfl, rfl⟩
    rw [common_remembering_iff ctx st earlier, hrest.1, hrest.2, and_assoc, and_assoc]
    tauto
  alike ctx full later element halike := by
    refine ⟨?_, excusedByLock_alike halike element⟩
    rw [common_alike halike, halike.same]
    rfl
  decodes ctx st element hheader := hheader.1.decodes
  whole services node call checkpoints _ :=
    (call.requireCheckpoints && node.getRequireObligatoryCheckpoints &&
      checkpoints.any (Sequential.missesCheckpoint services node call)) = false

def parallelRule (numThreads : ℕ) : ProofRule Trie where
  header ctx st element := Common ctx st.withoutFlag element
  excusedByLock ctx st element := Gridnet.excusedByLock ctx st.withoutFlag element
  excusedBeforeStart _ _ _ _ := false
  fromGenesis ctx st element := common_fromGenesis_iff ctx st.withoutFlag element
  remembering ctx st earlier element := (and_iff_left rfl).symm
  alike ctx full later element halike := by
    have hflagless : ScanState.Alike false full.withoutFlag later.withoutFlag := by
      have hsame : full.withoutFlag =
          { later.withoutFlag with containsGenesisBlock := full.containsGenesisBlock } := by
        rw [halike.same]
        rfl
      refine ⟨hsame, ?_⟩
      rw [hsame]
      rfl
    exact ⟨common_alike hflagless element, excusedByLock_alike hflagless element⟩
  decodes ctx st element hheader := hheader.decodes
  whole services node call checkpoints startFromPosition :=
    (call.requireCheckpoints && node.getRequireObligatoryCheckpoints &&
      checkpoints.any (Parallel.missesCheckpoint services node call
        [(startFromPosition, call.chainProof.length)])) = false ∧
    CutsCleanly (keysFrom services call.chainProof startFromPosition) call.chainProof.length
      startFromPosition numThreads

section Rules

variable {services : HeaderServices Trie} {node : ProofNode} {call : ProofArguments Trie}

/-- A chain-proof that a rule accepts, with its verdict. -/
def ProofRule.Accepts (rule : ProofRule Trie) (services : HeaderServices Trie) (node : ProofNode)
    (call : ProofArguments Trie) (verdict : ProofVerdict Trie) : Prop :=
  ∃ start checkpoints startFromPosition st,
    Ready services node call start checkpoints startFromPosition st ∧
    ParentKnown services call startFromPosition ∧
    Scan.Passes (rule.header (scanContext services node call start checkpoints startFromPosition))
      (Sequential.next (scanContext services node call start checkpoints startFromPosition)) st
      (call.elementsFrom startFromPosition) ∧
    ((call.elementsFrom startFromPosition).foldl
      (Sequential.next (scanContext services node call start checkpoints startFromPosition))
      st).leaderPubKey.length = 32 ∧
    rule.whole services node call checkpoints startFromPosition ∧
    verdict = call.accepted ((call.elementsFrom startFromPosition).foldl
      (Sequential.next (scanContext services node call start checkpoints startFromPosition)) st)

theorem sequentialRule_accepts_iff (hsize : call.chainProof.length < 2 ^ 63)
    {verdict : ProofVerdict Trie} (hvalid : verdict.result = .valid) :
    Sequential.verifyChainProof services node call = .ok verdict ↔
      sequentialRule.Accepts services node call verdict := by
  rw [sequential_accepts_iff hsize hvalid]
  refine exists₄_congr fun start checkpoints startFromPosition st => and_congr_right fun _ => ?_
  rw [not_refusedSequentially_iff]
  have hsplit : Scan.Passes
        (sequentialRule.header (scanContext services node call start checkpoints startFromPosition))
        (Sequential.next (scanContext services node call start checkpoints startFromPosition)) st
        (call.elementsFrom startFromPosition) ↔ _ :=
    Scan.passes_and st (call.elementsFrom startFromPosition)
  rw [hsplit]
  constructor
  · rintro ⟨⟨hparent, hheaders, hleader⟩, ⟨hwhole, hpasses⟩, hverdict⟩
    exact ⟨hparent, ⟨hheaders, hpasses⟩, hleader, hwhole, hverdict⟩
  · rintro ⟨hparent, ⟨hheaders, hpasses⟩, hleader, hwhole, hverdict⟩
    exact ⟨⟨hparent, hheaders, hleader⟩, ⟨hwhole, hpasses⟩, hverdict⟩

/-- The multi-threaded verifier checks a header as if no hard fork block came before its parent. -/
theorem common_withoutFlag_iff (ctx : ScanContext Trie) (st : ScanState Trie) (element : Bytes × ℕ) :
    Common ctx st.withoutFlag element ↔
      Common ctx st element ∧ excusedByEarlierHardFork ctx st element = false := by
  have hnone : excusedByEarlierHardFork ctx st.withoutFlag element = false := by
    unfold excusedByEarlierHardFork keyBlockWith ScanState.withoutFlag
    cases ctx.services.instantiate element.1 with
    | none => rfl
    | some header => simp
  have hwith := parallel_checked_iff ctx st st.keyLeader element
    (.inr rfl : _ ∨ st.previousHeaderHash = st.previousHeaderHash)
  have hwithout := parallel_checked_iff ctx st.withoutFlag st.keyLeader element
    (.inr rfl : _ ∨ st.previousHeaderHash = st.withoutFlag.previousHeaderHash)
  rw [hnone, and_iff_left rfl] at hwithout
  exact hwithout.symm.trans hwith

theorem parallelRule_accepts_iff {numThreads : ℕ} (hthreads : 1 ≤ numThreads)
    {verdict : ProofVerdict Trie} (hvalid : verdict.result = .valid) :
    (∃ fuel, Parallel.verifyChainProofMT services node call numThreads fuel = some (.ok verdict)) ↔
      (parallelRule numThreads).Accepts services node call verdict := by
  rw [parallel_accepts_iff hthreads hvalid]
  refine exists₄_congr fun start checkpoints startFromPosition st => and_congr_right fun _ => ?_
  have hnone : ¬ RefusedInParallel services node call numThreads start checkpoints
        startFromPosition st ↔
      (parallelRule numThreads).whole services node call checkpoints startFromPosition ∧
      Scan.Passes
        (fun st element => excusedByEarlierHardFork
          (scanContext services node call start checkpoints startFromPosition) st element = false)
        (Sequential.next (scanContext services node call start checkpoints startFromPosition)) st
        (call.elementsFrom startFromPosition) := by
    unfold RefusedInParallel parallelRule
    rw [not_or, not_or, not_not, not_someHeader_iff, Bool.not_eq_true, and_assoc]
    rfl
  have hheader : ∀ ctx : ScanContext Trie, (parallelRule numThreads).header ctx =
      fun st element => Common ctx st element ∧ excusedByEarlierHardFork ctx st element = false := by
    intro ctx
    funext st element
    exact propext (common_withoutFlag_iff ctx st element)
  rw [hnone, hheader, Scan.passes_and]
  constructor
  · rintro ⟨⟨hparent, hheaders, hleader⟩, ⟨hwhole, hpasses⟩, hverdict⟩
    exact ⟨hparent, ⟨hheaders, hpasses⟩, hleader, hwhole, hverdict⟩
  · rintro ⟨hparent, ⟨hheaders, hpasses⟩, hleader, hwhole, hverdict⟩
    exact ⟨⟨hparent, hheaders, hleader⟩, ⟨hwhole, hpasses⟩, hverdict⟩

end Rules

end Gridnet
