import Gridnet.ChainInStep
import Gridnet.HostileProofs
import Gridnet.IncrementalAgreement

/-! The choice between the heaviest chain-proof and the one that a received chain-proof proposes: what the
proposal is, when it is better, and exactly when the better one is taken over and nothing else. -/

namespace Gridnet

variable {Trie : Type}

/-! ### The proposal -/

/-- A chain-proof up to the common header that is latest in another, followed by the rest of the other, or
the other alone. Headers are told apart by their hashes. -/
inductive Spliced (services : HeaderServices Trie) (chainProof subChain : List Bytes) : List Bytes → Prop where
  | alone : (∀ bytes ∈ subChain,
        services.getSHA2_256Vec bytes ∉ chainProof.map services.getSHA2_256Vec) →
      Spliced services chainProof subChain subChain
  | common {i j : ℕ} {bytes : Bytes} : subChain[j]? = some bytes →
      (chainProof.map services.getSHA2_256Vec).idxOf? (services.getSHA2_256Vec bytes) = some i →
      (∀ later ∈ subChain.drop (j + 1),
        services.getSHA2_256Vec later ∉ chainProof.map services.getSHA2_256Vec) →
      Spliced services chainProof subChain (chainProof.take (i + 1) ++ subChain.drop (j + 1))

section Splice

variable {services : HeaderServices Trie} {chainProof subChain proposal : List Bytes}

/-- What is proposed is such a splice. -/
theorem spliced_newChainProofProposal (services : HeaderServices Trie) (chainProof subChain : List Bytes) :
    Spliced services chainProof subChain
      (newChainProofProposal chainProof subChain (commonPoint services chainProof subChain)) := by
  cases hcommon : commonPoint services chainProof subChain with
  | none =>
      apply Spliced.alone
      intro bytes hmem
      obtain ⟨k, hk, rfl⟩ := List.mem_iff_getElem.mp hmem
      exact commonPointBelow_none hcommon k hk _ (List.getElem?_eq_getElem hk)
  | some point =>
      obtain ⟨hlt, ⟨bytes, hbytes, hindex⟩, hlater⟩ := commonPointBelow_some hcommon
      apply Spliced.common hbytes hindex
      intro later hmem
      obtain ⟨k, hk, rfl⟩ := List.mem_iff_getElem.mp hmem
      rw [List.length_drop] at hk
      have hget : subChain[point.2 + 1 + k]? = some (subChain.drop (point.2 + 1))[k] := by
        rw [List.getElem_drop]
        exact List.getElem?_eq_getElem (by omega)
      exact hlater (point.2 + 1 + k) (by omega) (by omega) _ hget

/-- There is one splice. -/
theorem Spliced.unique {proposal' : List Bytes} (hspliced : Spliced services chainProof subChain proposal)
    (hspliced' : Spliced services chainProof subChain proposal') : proposal = proposal' := by
  have hclash : ∀ {i j : ℕ} {bytes : Bytes}, subChain[j]? = some bytes →
      (chainProof.map services.getSHA2_256Vec).idxOf? (services.getSHA2_256Vec bytes) = some i →
      services.getSHA2_256Vec bytes ∈ chainProof.map services.getSHA2_256Vec ∧ bytes ∈ subChain := by
    intro i j bytes hbytes hindex
    obtain ⟨hi, hget, -⟩ := List.idxOf?_eq_some_iff.mp hindex
    exact ⟨hget ▸ List.getElem_mem hi, List.mem_of_getElem? hbytes⟩
  have horder : ∀ {j j' : ℕ} {bytes : Bytes}, subChain[j]? = some bytes → j' < j →
      bytes ∈ subChain.drop (j' + 1) := by
    intro j j' bytes hbytes hlt
    apply List.mem_of_getElem? (i := j - (j' + 1))
    rw [List.getElem?_drop]
    have hsame : j' + 1 + (j - (j' + 1)) = j := by omega
    rw [hsame, hbytes]
  cases hspliced with
  | alone hnone =>
      cases hspliced' with
      | alone _ => rfl
      | common hbytes hindex _ =>
          obtain ⟨hknown, hmem⟩ := hclash hbytes hindex
          exact absurd hknown (hnone _ hmem)
  | common hbytes hindex hlater =>
      cases hspliced' with
      | alone hnone =>
          obtain ⟨hknown, hmem⟩ := hclash hbytes hindex
          exact absurd hknown (hnone _ hmem)
      | common hbytes' hindex' hlater' =>
          rename_i i j bytes i' j' bytes'
          rcases Nat.lt_trichotomy j j' with hlt | rfl | hlt
          · exact absurd (hclash hbytes' hindex').1 (hlater _ (horder hbytes' hlt))
          · cases hbytes.symm.trans hbytes'
            cases hindex.symm.trans hindex'
            rfl
          · exact absurd (hclash hbytes hindex).1 (hlater' _ (horder hbytes hlt))

end Splice

/-! ### The law -/

/-- A higher total difficulty than the one to beat, an equal one and more headers, or checkpoints matched up
to a greater height. -/
def Beats (services : HeaderServices Trie) (checkpoints : List CBCheckpoint)
    (chainProof proposal : List Bytes) (totalDiff : ℕ) : Prop :=
  totalDiff < workUpTo services proposal proposal.length ∨
    workUpTo services proposal proposal.length = totalDiff ∧ chainProof.length < proposal.length ∨
    latestCheckpoint services chainProof 0 checkpoints < latestCheckpoint services proposal 0 checkpoints

/-- The difficulty to beat is that of the chain-proof. -/
def Better (services : HeaderServices Trie) (checkpoints : List CBCheckpoint)
    (chainProof proposal : List Bytes) : Prop :=
  Beats services checkpoints chainProof proposal (workUpTo services chainProof chainProof.length)

/-- Every obligatory checkpoint that a chain-proof reaches is the header there. -/
def MatchesObligatory (services : HeaderServices Trie) (checkpoints : List CBCheckpoint)
    (chainProof : List Bytes) : Prop :=
  ∀ checkpoint ∈ checkpoints, checkpoint.obligatory = true → checkpoint.mHeight < chainProof.length →
    (chainProof[checkpoint.mHeight]?).map services.getSHA2_256Vec = some checkpoint.mHash

section Law

variable (services : HeaderServices Trie) (numThreads : ℕ) (node : ProofNode) (call : UpdateCall)
  (heaviest : HeaviestChain Trie)

/-- A splice of the chain-proof with the received one that is a valid chain-proof: verification from its first
header accepts it. -/
def ValidProposal (proposal : List Bytes) : Prop :=
  Spliced services heaviest.mHeaviestChainProof (preprocessed call.subChain) proposal ∧
    ∃ verdict, Verifies services (heaviest.node node) numThreads
        { chainProof := proposal, requireCheckpoints := true } verdict ∧
      verdict.result = .valid

/-- A valid and better proposal replaces the chain-proof, nothing else does, and what replaces it matches
the obligatory checkpoints. -/
structure ForkChoice : Prop where
  replaces : ∀ proposal, ValidProposal services numThreads node call heaviest proposal →
    Better services node.mCheckpoints heaviest.mHeaviestChainProof proposal →
    ∃ report after, Updates services numThreads node call heaviest report after ∧
      report.updateResult = .updatedLocalBestKnown ∧ after.mHeaviestChainProof = proposal
  keeps : ∀ report after, Updates services numThreads node call heaviest report after →
    (∀ proposal, ValidProposal services numThreads node call heaviest proposal →
      ¬ Better services node.mCheckpoints heaviest.mHeaviestChainProof proposal) →
    after.mHeaviestChainProof = heaviest.mHeaviestChainProof
  checkpointed : ∀ report after, Updates services numThreads node call heaviest report after →
    report.updateResult = .updatedLocalBestKnown →
    MatchesObligatory services node.mCheckpoints after.mHeaviestChainProof

/-- Where the chain-proof has headers but no recorded difficulty, the received one is valid alone and its own
difficulty is beaten. -/
def BeatsReceived (proposal : List Bytes) : Prop :=
  heaviest.mHeaviestChainProof ≠ [] → heaviest.mHeaviestChainProofTotalDifficulty = 0 →
    (∃ own, Verifies services (heaviest.node node) numThreads
        { chainProof := preprocessed call.subChain } own ∧ own.result = .valid) ∧
      Beats services node.mCheckpoints heaviest.mHeaviestChainProof proposal
        (workUpTo services (preprocessed call.subChain) (preprocessed call.subChain).length)

/-- A better proposal that is verified from its first header finds a chain-proof that does not have exactly one, and
matches the obligatory checkpoints. One that is verified from a later header passes from its first exactly if it
passes from the latest key block up to there, with what is rebuilt at that block. -/
structure SoundChoice : Prop where
  fromStart : commonIndex services call heaviest = 0 → ∀ proposal,
    ValidProposal services numThreads node call heaviest proposal →
    Better services node.mCheckpoints heaviest.mHeaviestChainProof proposal →
    heaviest.mHeaviestChainProof.length ≠ 1 ∧
      BeatsReceived services numThreads node call heaviest proposal ∧
      MatchesObligatory services node.mCheckpoints proposal
  fromCommonPoint : 1 ≤ commonIndex services call heaviest → ∀ proposal,
    Spliced services heaviest.mHeaviestChainProof (preprocessed call.subChain) proposal →
    Better services node.mCheckpoints heaviest.mHeaviestChainProof proposal →
    ∀ checkpoints position header,
      activateCheckpoints services (heaviest.node node)
        (proposalCall proposal (commonPointOf services call heaviest) : ProofArguments Trie) = .ok checkpoints →
      LatestKey services proposal (commonIndex services call heaviest) position header →
      (parallelRule numThreads).PassesRest services (heaviest.node node)
        (proposalCall proposal (commonPointOf services call heaviest)) checkpoints position →
      ((parallelRule numThreads).PassesFull services (heaviest.node node)
          (proposalCall proposal (commonPointOf services call heaviest)) checkpoints position ↔
        (parallelRule numThreads).PassesLater services (heaviest.node node)
            (proposalCall proposal (commonPointOf services call heaviest)) checkpoints position header ∧
          BeatsReceived services numThreads node call heaviest proposal) ∧
      ((parallelRule numThreads).PassesFull services (heaviest.node node)
          (proposalCall proposal (commonPointOf services call heaviest)) checkpoints position →
        MatchesObligatory services node.mCheckpoints proposal)

end Law

/-! ### Updates that come to an end -/

section Ending

variable {services : HeaderServices Trie} {numThreads : ℕ} {node : ProofNode} {call : UpdateCall}
  {heaviest : HeaviestChain Trie} {verdict : ProofVerdict Trie}

/-- The loop for the leaders ends at a key block above which every header decodes. -/
theorem leadersFrom_ok {chainProof : List Bytes} {i s : ℕ} (hs : s ≤ i)
    (hdecodes : ∀ k, s ≤ k → k ≤ i → ∃ bytes header, chainProof[k]? = some bytes ∧
      services.instantiate bytes = some header ∧ (k = s → header.isKeyBlock = true))
    (leader : Option (CBlockHeader Trie)) :
    ∃ leaders, leadersFrom services chainProof i leader = .ok leaders := by
  induction i generalizing leader with
  | zero => exact ⟨_, rfl⟩
  | succ i ih =>
      obtain ⟨bytes, header, hbytes, hheader, hkey⟩ := hdecodes (i + 1) hs le_rfl
      unfold leadersFrom
      rw [hbytes]
      dsimp only
      rw [hheader]
      dsimp only
      split
      next => exact ⟨_, rfl⟩
      next hdata =>
          have hlt : s ≤ i := by
            by_contra hnot
            exact hdata (hkey (by omega))
          exact ih hlt (fun k hk hk' => hdecodes k hk (Nat.le_succ_of_le hk')) _

/-- The headers that a verification scans decode, and the first is a key block. -/
theorem Verifies.scanned (hthreads : 1 ≤ numThreads) {node : ProofNode} {arguments : ProofArguments Trie}
    (hverdict : Verifies services node numThreads arguments verdict) (hvalid : verdict.result = .valid) :
    ∃ s, s < arguments.chainProof.length ∧ ∀ k, s ≤ k → k < arguments.chainProof.length →
      ∃ bytes header, arguments.chainProof[k]? = some bytes ∧ services.instantiate bytes = some header ∧
        (k = s → header.isKeyBlock = true) := by
  obtain ⟨start, checkpoints, s, st, hready, hshared, -, -⟩ := (parallel_accepts_iff hthreads hvalid).mp hverdict
  obtain ⟨-, bytes, header, hbytes, hheader, hkey, -⟩ := findStart_some hready.found
  refine ⟨s, (List.getElem?_eq_some_iff.mp hbytes).1, ?_⟩
  intro k hk hlt
  have hget : arguments.chainProof[k]? = some arguments.chainProof[k] := List.getElem?_eq_getElem hlt
  have hmem : (arguments.chainProof[k], k) ∈ arguments.elementsFrom s :=
    Parallel.mem_drop_zipIdx.mpr ⟨hk, hget⟩
  obtain ⟨header', hheader'⟩ := Option.isSome_iff_exists.mp (hshared.decodes hmem)
  refine ⟨_, header', hget, hheader', ?_⟩
  rintro rfl
  cases hget.symm.trans hbytes
  cases hheader.symm.trans hheader'
  exact hkey

/-- The update of the indexes ends where the loop for the leaders does. -/
theorem reindexed_ok {extended : HeaviestChain Trie}
    {leaders : Option (CBlockHeader Trie) × Option (CBlockHeader Trie)}
    (hleaders : leadersFrom services extended.mHeaviestChainProof
      (extended.mHeaviestChainProof.length - 1) none = .ok leaders) :
    ∃ after, extended.reindexed services = .ok after := by
  unfold HeaviestChain.reindexed HeaviestChain.updateHeaviestPathLeaders
  dsimp only
  rw [hleaders]
  dsimp only [bind, Except.bind]
  split
  next => exact ⟨_, rfl⟩
  next => exact ⟨_, rfl⟩

/-- Every checkpoint of the heaviest chain-proof has a place in a path of its length. -/
theorem activates_heaviest {node : ProofNode} {chainProof : List Bytes}
    (hlength : node.mHeaviestPath.length = chainProof.length) (hne : chainProof ≠ []) :
    ∃ activated, activateCheckpoints services node
      ({ chainProof, whichOne := .heaviest } : ProofArguments Trie) = .ok activated := by
  apply activateCheckpoints_ok_iff.mpr
  intro i checkpoint _ _ hheight
  have hpos := List.length_pos_iff.mpr hne
  have hheight' : checkpoint.mHeight ≤ chainProof.length - 1 := hheight
  show chainProof ≠ [] → checkpoint.mHeight < node.mHeaviestPath.length
  intro _
  omega

/-- What is accepted with the obligatory checkpoints is accepted without. -/
theorem Verifies.unchecked (hthreads : 1 ≤ numThreads) {node : ProofNode}
    {arguments : ProofArguments Trie} (hverdict : Verifies services node numThreads arguments verdict)
    (hvalid : verdict.result = .valid) :
    Verifies services node numThreads { arguments with requireCheckpoints := false } verdict := by
  obtain ⟨start, checkpoints, position, st, hready, hshared, hrefused, hverdict⟩ :=
    (parallel_accepts_iff hthreads hvalid).mp hverdict
  have hfound : ∀ i, findStart services { arguments with requireCheckpoints := false } i =
      findStart services arguments i := by
    intro i
    induction i with
    | zero => rfl
    | succ i ih =>
        unfold findStart
        rw [ih]
        rfl
  apply (parallel_accepts_iff hthreads hvalid).mpr
  refine ⟨start, checkpoints, position, st, ⟨hready.prepared, ?_, ?_, hready.initial⟩,
    ⟨hshared.parent, hshared.headers, hshared.leader⟩, ?_, hverdict⟩
  · have hsame : activateCheckpoints services node { arguments with requireCheckpoints := false } =
      activateCheckpoints services node arguments := activateCheckpoints_congr rfl rfl
    rw [hsame]
    exact hready.activated
  · rw [hfound]
    exact hready.found
  · rintro (hmisses | hcuts | hexcused)
    · cases hmisses
    · exact hrefused (.inr (.inl hcuts))
    · exact hrefused (.inr (.inr hexcused))

/-- Taking a proposal over comes to an end. -/
theorem TakenOver.adopt_ok (hthreads : 1 ≤ numThreads) (haligned : Aligned services heaviest)
    (hone : heaviest.mHeaviestChainProof.length ≠ 1)
    (htaken : TakenOver services numThreads node call heaviest verdict) :
    ∃ outcome, heaviest.adopt services node call (commonPointOf services call heaviest)
      (proposalOf services call heaviest) verdict = .ok outcome := by
  obtain ⟨-, hPoWs, hleader, hne⟩ := htaken.spec hthreads haligned
  obtain ⟨keyLeader, hkeyLeader⟩ := Option.isSome_iff_exists.mp hleader
  have hextended := extendedBy_of_ne_one call haligned hone
  obtain ⟨s, hs, hscanned⟩ := htaken.verified.scanned hthreads htaken.valid
  rw [argumentsOf_chainProof] at hs hscanned
  obtain ⟨leaders, hleaders⟩ := leadersFrom_ok (Nat.le_sub_one_of_lt hs)
    (fun k hk hk' => hscanned k hk (by omega)) none
  unfold HeaviestChain.adopt
  rw [hkeyLeader]
  dsimp only
  rw [← commonIndex, hPoWs, hextended]
  dsimp only
  rw [if_neg (by simp)]
  generalize hextension : ({ heaviest with
      mHeaviestChainProof := proposalOf services call heaviest
      mHeaviestPath := (proposalOf services call heaviest).map services.getSHA2_256Vec
      mHeaviestPathDouble := (proposalOf services call heaviest).map services.getSHA2_256Vec
      mHeaviestChainProofCumulativePoWs := worksOf services (proposalOf services call heaviest)
      } : HeaviestChain Trie).stored call (commonPointOf services call heaviest).isSome = extension
  have hextensionChain : extension.mHeaviestChainProof = proposalOf services call heaviest := by
    rw [← hextension]
    rfl
  have hextensionPath : extension.mHeaviestPath =
      (proposalOf services call heaviest).map services.getSHA2_256Vec := by
    rw [← hextension]
    rfl
  rw [← hextensionChain] at hleaders
  obtain ⟨reindexed, hreindexed⟩ := reindexed_ok hleaders
  obtain ⟨hchain, hpath, -, -, -⟩ := reindexed_spec hreindexed
  rw [hextensionChain] at hchain
  rw [hextensionPath] at hpath
  have hlast : reindexed.mHeaviestPath.getLast? =
      some (services.getSHA2_256Vec ((proposalOf services call heaviest).getLast hne)) := by
    rw [hpath, List.getLast?_map, List.getLast?_eq_some_getLast hne, Option.map_some]
  rw [hreindexed]
  dsimp only [bind, Except.bind]
  rw [hlast]
  dsimp only
  have hlength : reindexed.mHeaviestPath.length = reindexed.mHeaviestChainProof.length := by
    rw [hpath, hchain, List.length_map]
  have hne' : reindexed.mHeaviestChainProof ≠ [] := by
    rw [hchain]
    exact hne
  obtain ⟨activated, hactivated⟩ : ∃ activated, activateCheckpoints services
      (({ reindexed with
        mHeaviestChainProofTotalDifficulty := verdict.cumulativeDiff
        mHeaviestChainProofLeaderKeyBlock := some keyLeader
        mHeaviestChainProofLeadingBlockID :=
          services.getSHA2_256Vec ((proposalOf services call heaviest).getLast hne)
        } : HeaviestChain Trie).node node)
      ({ chainProof := reindexed.mHeaviestChainProof, whichOne := .heaviest } : ProofArguments Trie) =
        .ok activated := activates_heaviest hlength hne'
  rw [hactivated]
  exact ⟨_, rfl⟩

/-- So does the call. -/
theorem TakenOver.updates (hthreads : 1 ≤ numThreads) (haligned : Aligned services heaviest)
    (hone : heaviest.mHeaviestChainProof.length ≠ 1)
    (htaken : TakenOver services numThreads node call heaviest verdict) :
    ∃ report after, Updates services numThreads node call heaviest report after ∧
      report.updateResult = .updatedLocalBestKnown ∧
      after.mHeaviestChainProof = proposalOf services call heaviest := by
  obtain ⟨outcome, hadopt⟩ := htaken.adopt_ok hthreads haligned hone
  obtain ⟨hresult, -, hchain, -⟩ := htaken.adopt_of_ne_one hthreads haligned hone hadopt
  obtain ⟨hreceived, ⟨fuel, hrun⟩, hvalid, diff, hbeat, houtweighs⟩ := htaken
  obtain ⟨fuel', current, hcurrent, hcurrentValid, rfl⟩ : ∃ fuel' current,
      currentDifficulty heaviest (preprocessed call.subChain) (fun arguments =>
        Parallel.verifyChainProofMT services (heaviest.node node) arguments numThreads
          (max fuel fuel')) = some (.ok current) ∧ current.result = .valid ∧
      current.cumulativeDiff = diff := by
    unfold HasToBeat at hbeat
    unfold currentDifficulty
    split at hbeat
    next hzero =>
        obtain ⟨own, ⟨fuel', hown⟩, hownValid, hownDiff⟩ := hbeat
        refine ⟨fuel', own, ?_, hownValid, hownDiff⟩
        rw [if_pos hzero]
        exact Parallel.verifyChainProofMT_mono (Nat.le_max_right _ _) hown
    next hpositive =>
        refine ⟨0, _, if_neg hpositive, rfl, hbeat.symm⟩
  have hverify := Parallel.verifyChainProofMT_mono (Nat.le_max_left fuel fuel') hrun
  refine ⟨⟨outcome.1, some verdict.result, some verdict.cumulativeDiff, proposalOf services call heaviest⟩,
    outcome.2, ⟨max fuel fuel', ?_⟩, hresult, hchain⟩
  unfold analyzeAndUpdateChainProof
  dsimp only
  rw [if_neg hreceived, hcurrent]
  dsimp only [onVerdict]
  rw [if_neg (not_not.mpr hcurrentValid), ← commonPointOf, ← proposalOf, ← argumentsOf, hverify]
  dsimp only
  rw [if_neg (not_not.mpr hvalid), if_pos houtweighs, hadopt]
  rfl

end Ending

/-! ### Chain-proofs that were verified -/

/-- What verification leaves of a heaviest chain-proof: path and work are its own, its headers decode, and it begins
with a key block. -/
structure Proven (services : HeaderServices Trie) (heaviest : HeaviestChain Trie) : Prop extends
    Aligned services heaviest where
  decodes : ∀ bytes ∈ heaviest.mHeaviestChainProof, (services.instantiate bytes).isSome = true
  genesis : ∀ bytes, heaviest.mHeaviestChainProof[0]? = some bytes → ∃ header,
    services.instantiate bytes = some header ∧ header.isKeyBlock = true ∧ header.getPubKey.length = 32

section Proven

variable {services : HeaderServices Trie} {numThreads : ℕ} {node : ProofNode} {call : UpdateCall}
  {heaviest after : HeaviestChain Trie} {verdict : ProofVerdict Trie} {checkpoints : List CBCheckpoint}
  {position : ℕ} {header : CBlockHeader Trie}

/-- The work of headers that decode. -/
theorem workOf_eq {chainProof : List Bytes}
    (hdecodes : ∀ bytes ∈ chainProof, (services.instantiate bytes).isSome = true) :
    workOf services chainProof = (workUpTo services chainProof chainProof.length, worksOf services chainProof) :=
  foldl_addWork_drop (n := 0) (Nat.zero_le _) hdecodes

theorem Proven.front (hproven : Proven services heaviest) (hone : 1 ≤ commonIndex services call heaviest) :
    ∀ bytes ∈ (proposalOf services call heaviest).take (commonIndex services call heaviest + 1),
      (services.instantiate bytes).isSome = true := by
  intro bytes hbytes
  rw [← proposalOf_take hone] at hbytes
  exact hproven.decodes bytes (List.mem_of_mem_take hbytes)

/-- The verification of a proposal from a common point behind the first header relies on the chain-proof. -/
theorem Proven.continued (hproven : Proven services heaviest) (hone : 1 ≤ commonIndex services call heaviest) :
    Continued services (heaviest.node node) (argumentsOf services call heaviest) := by
  have hfront := proposalOf_take hone
  have hget : ∀ {i : ℕ}, i ≤ commonIndex services call heaviest →
      heaviest.mHeaviestChainProof[i]? = (proposalOf services call heaviest)[i]? := by
    intro i hi
    have hsame := congrArg (fun front : List Bytes => front[i]?) hfront
    rwa [List.getElem?_take_of_lt (Nat.lt_succ_of_le hi), List.getElem?_take_of_lt (Nat.lt_succ_of_le hi)] at hsame
  have hlt : commonIndex services call heaviest < (proposalOf services call heaviest).length := by
    have hlengths := congrArg List.length hfront
    have hbound := commonIndex_lt services call heaviest
    rw [List.length_take, List.length_take] at hlengths
    omega
  refine ⟨?_, ?_, ?_, ?_, ?_, ?_, ?_⟩
  · cases hoptimize : (argumentsOf services call heaviest).optimize with
    | true => rfl
    | false =>
        have hzero := argumentsOf_optimize hoptimize
        rw [argumentsOf_start] at hzero
        omega
  · rw [argumentsOf_start]
    exact hone
  · rw [argumentsOf_start, argumentsOf_chainProof]
    exact hlt
  · rw [argumentsOf_start, argumentsOf_chainProof]
    exact hproven.front hone
  · obtain ⟨bytes, hbytes⟩ : ∃ bytes, heaviest.mHeaviestChainProof[0]? = some bytes := by
      have hbound := commonIndex_lt services call heaviest
      exact ⟨_, List.getElem?_eq_getElem (by omega)⟩
    obtain ⟨header, hgenesis⟩ := hproven.genesis bytes hbytes
    rw [argumentsOf_chainProof]
    exact ⟨bytes, header, (hget (Nat.zero_le _)).symm.trans hbytes, hgenesis⟩
  · have hworks : (proposalOf services call heaviest).take (commonIndex services call heaviest + 1) =
        ((proposalOf services call heaviest).take (commonIndex services call heaviest + 1)).take
          (commonIndex services call heaviest + 1) := by
      rw [List.take_take, Nat.min_self]
    rw [argumentsOf_start, argumentsOf_chainProof, workOf_eq (hproven.front hone)]
    show heaviest.mHeaviestChainProofCumulativePoWs.take _ = _
    rw [hproven.works, worksOf_take_eq hfront, worksOf_take_eq hworks]
    exact List.take_of_length_le (by rw [worksOf_length, List.length_take]; omega)
  · rw [argumentsOf_start, argumentsOf_chainProof]
    show heaviest.mHeaviestPath[_]? = _
    rw [hproven.path, List.getElem?_map, hget (Nat.sub_le _ _)]

/-- Verification from the first header. -/
theorem argumentsOf_fromGenesis : (argumentsOf services call heaviest).fromGenesis =
    { chainProof := proposalOf services call heaviest, requireCheckpoints := true } := by
  unfold argumentsOf
  cases commonPointOf services call heaviest <;> rfl

theorem exists_verifies_iff (hthreads : 1 ≤ numThreads) (node : ProofNode) (arguments : ProofArguments Trie) :
    (∃ verdict, Verifies services node numThreads arguments verdict ∧ verdict.result = .valid) ↔
      ∃ verdict, (parallelRule numThreads).Accepts services node arguments verdict := by
  constructor
  · rintro ⟨verdict, hrun, hvalid⟩
    exact ⟨verdict, (parallelRule_accepts_iff hthreads hvalid).mp hrun⟩
  · rintro ⟨verdict, haccepts⟩
    have hvalid : verdict.result = .valid := by
      obtain ⟨_, _, _, _, -, -, -, -, -, rfl⟩ := haccepts
      rfl
    exact ⟨verdict, (parallelRule_accepts_iff hthreads hvalid).mpr haccepts, hvalid⟩

/-- A proposal that shares at most the first header is verified from there. -/
theorem verified_of_zero (hthreads : 1 ≤ numThreads) (node : ProofNode)
    (hzero : commonIndex services call heaviest = 0) :
    (∃ verdict, Verifies services node numThreads (argumentsOf services call heaviest) verdict ∧
        verdict.result = .valid) ↔
      ∃ verdict, Verifies services node numThreads (argumentsOf services call heaviest).fromGenesis verdict ∧
        verdict.result = .valid := by
  have hstart : (argumentsOf services call heaviest).startFromPosition = 0 := argumentsOf_start.trans hzero
  rw [exists_verifies_iff hthreads, exists_verifies_iff hthreads]
  revert hstart
  generalize argumentsOf services call heaviest = arguments
  rintro hstart
  have hback : arguments = { arguments.fromGenesis with optimize := arguments.optimize } := by
    cases arguments
    cases hstart
    rfl
  have hforth : arguments.fromGenesis = { arguments with optimize := false } := by
    cases arguments
    cases hstart
    rfl
  constructor
  · rintro ⟨verdict, haccepts⟩
    rw [hforth]
    exact ⟨verdict, parallelRule_accepts_of_zero hstart false haccepts⟩
  · rintro ⟨verdict, haccepts⟩
    rw [hback]
    exact ⟨verdict, parallelRule_accepts_of_zero rfl arguments.optimize haccepts⟩

/-- Otherwise it is verified from the latest key block up to the common point. -/
theorem verified_later_iff (hthreads : 1 ≤ numThreads) (hproven : Proven services heaviest)
    (hone : 1 ≤ commonIndex services call heaviest)
    (hactivated : activateCheckpoints services (heaviest.node node) (argumentsOf services call heaviest) =
      .ok checkpoints)
    (hlatest : LatestKey services (proposalOf services call heaviest) (commonIndex services call heaviest) position
      header) :
    (∃ verdict, Verifies services (heaviest.node node) numThreads (argumentsOf services call heaviest) verdict ∧
        verdict.result = .valid) ↔
      (parallelRule numThreads).PassesRest services (heaviest.node node) (argumentsOf services call heaviest)
          checkpoints position ∧
        (parallelRule numThreads).PassesLater services (heaviest.node node) (argumentsOf services call heaviest)
          checkpoints position header := by
  rw [← argumentsOf_chainProof, ← argumentsOf_start] at hlatest
  rw [exists_verifies_iff hthreads]
  constructor
  · rintro ⟨verdict, haccepts⟩
    obtain ⟨hrest, hlater, -⟩ :=
      ((hproven.continued hone).later_accepts_iff hactivated hlatest (parallelRule numThreads) verdict).mp haccepts
    exact ⟨hrest, hlater⟩
  · rintro ⟨hrest, hlater⟩
    exact ⟨_, ((hproven.continued hone).later_accepts_iff hactivated hlatest (parallelRule numThreads) _).mpr
      ⟨hrest, hlater, rfl⟩⟩

theorem verified_full_iff (hthreads : 1 ≤ numThreads) (hproven : Proven services heaviest)
    (hone : 1 ≤ commonIndex services call heaviest)
    (hactivated : activateCheckpoints services (heaviest.node node) (argumentsOf services call heaviest) =
      .ok checkpoints)
    (hlatest : LatestKey services (proposalOf services call heaviest) (commonIndex services call heaviest) position
      header) :
    (∃ verdict, Verifies services (heaviest.node node) numThreads (argumentsOf services call heaviest).fromGenesis
        verdict ∧ verdict.result = .valid) ↔
      (parallelRule numThreads).PassesRest services (heaviest.node node) (argumentsOf services call heaviest)
          checkpoints position ∧
        (parallelRule numThreads).PassesFull services (heaviest.node node) (argumentsOf services call heaviest)
          checkpoints position := by
  rw [← argumentsOf_chainProof, ← argumentsOf_start] at hlatest
  rw [exists_verifies_iff hthreads]
  constructor
  · rintro ⟨verdict, haccepts⟩
    obtain ⟨hrest, hfull, -⟩ :=
      ((hproven.continued hone).full_accepts_iff hactivated hlatest (parallelRule numThreads) verdict).mp haccepts
    exact ⟨hrest, hfull⟩
  · rintro ⟨hrest, hfull⟩
    exact ⟨_, ((hproven.continued hone).full_accepts_iff hactivated hlatest (parallelRule numThreads) _).mpr
      ⟨hrest, hfull, rfl⟩⟩

/-- Verification comes to the checkpoints, and to a key block. -/
theorem Verifies.start (hthreads : 1 ≤ numThreads) (hproven : Proven services heaviest)
    (hone : 1 ≤ commonIndex services call heaviest)
    (hverified : (∃ verdict, Verifies services (heaviest.node node) numThreads (argumentsOf services call heaviest)
        verdict ∧ verdict.result = .valid) ∨
      ∃ verdict, Verifies services (heaviest.node node) numThreads
        (argumentsOf services call heaviest).fromGenesis verdict ∧ verdict.result = .valid) :
    ∃ checkpoints position header,
      activateCheckpoints services (heaviest.node node) (argumentsOf services call heaviest) = .ok checkpoints ∧
      LatestKey services (proposalOf services call heaviest) (commonIndex services call heaviest) position
        header := by
  have hcontinued : Continued services (heaviest.node node) (argumentsOf services call heaviest) :=
    hproven.continued hone
  obtain ⟨position, header, hlatest⟩ := hcontinued.exists_latestKey
  rw [argumentsOf_chainProof, argumentsOf_start] at hlatest
  rw [exists_verifies_iff hthreads, exists_verifies_iff hthreads] at hverified
  rcases hverified with ⟨verdict, _, checkpoints, _, _, hready, -⟩ | ⟨verdict, _, checkpoints, _, _, hready, -⟩
  · exact ⟨checkpoints, position, header, hready.activated, hlatest⟩
  · exact ⟨checkpoints, position, header, activateCheckpoints_fromGenesis.symm.trans hready.activated, hlatest⟩

/-- What is taken over decodes and begins with a key block. -/
theorem TakenOver.decodes (hthreads : 1 ≤ numThreads) (hproven : Proven services heaviest)
    (htaken : TakenOver services numThreads node call heaviest verdict) :
    (∀ bytes ∈ proposalOf services call heaviest, (services.instantiate bytes).isSome = true) ∧
      ∀ bytes, (proposalOf services call heaviest)[0]? = some bytes → ∃ header,
        services.instantiate bytes = some header ∧ header.isKeyBlock = true ∧ header.getPubKey.length = 32 := by
  have hverified : ∃ verdict, Verifies services (heaviest.node node) numThreads
      (argumentsOf services call heaviest) verdict ∧ verdict.result = .valid :=
    ⟨verdict, htaken.verified, htaken.valid⟩
  rcases Nat.eq_zero_or_pos (commonIndex services call heaviest) with hzero | hone
  · obtain ⟨_, start, checkpoints, position, st, hready, -, hpasses, -⟩ :=
      (exists_verifies_iff hthreads _ _).mp hverified
    obtain ⟨rfl, rfl, rfl⟩ := hready.fromZero (argumentsOf_start.trans hzero)
    have hall := (parallelRule numThreads).passes_decodes hpasses
    obtain ⟨-, first, header, hfirst, hgenesis⟩ := findStart_some hready.found
    rw [argumentsOf_chainProof] at hall hfirst
    refine ⟨hall, fun bytes hbytes => ?_⟩
    cases hfirst.symm.trans hbytes
    exact ⟨header, hgenesis⟩
  · obtain ⟨checkpoints, position, header, hactivated, hlatest⟩ :=
      Verifies.start hthreads hproven hone (.inl hverified)
    obtain ⟨hrest, -⟩ := (verified_later_iff hthreads hproven hone hactivated hlatest).mp hverified
    have hlast := (parallelRule numThreads).passes_decodes hrest.headers
    have hcontinued : Continued services (heaviest.node node) (argumentsOf services call heaviest) :=
      hproven.continued hone
    obtain ⟨first, genesis, hfirst, hgenesis⟩ := hcontinued.genesis
    rw [argumentsOf_chainProof] at hlast hfirst
    constructor
    · intro bytes hbytes
      rw [← List.take_append_drop (position + 1) (proposalOf services call heaviest), List.mem_append] at hbytes
      rcases hbytes with hfront | hrear
      · exact hproven.front hone bytes (List.take_subset_take_left _ (Nat.succ_le_succ hlatest.upTo) hfront)
      · exact hlast bytes hrear
    · intro bytes hbytes
      cases hfirst.symm.trans hbytes
      exact ⟨genesis, hgenesis⟩

/-- A call that keeps everything in step leaves a chain-proof that was verified. -/
theorem Proven.kept (hthreads : 1 ≤ numThreads) (hproven : Proven services heaviest) {report : UpdateReport}
    (hupdates : Updates services numThreads node call heaviest report after)
    (hsound : SoundUpdate services numThreads node call heaviest) : Proven services after := by
  rcases hupdates.cases with ⟨rfl, -, -⟩ | ⟨verdict, htaken, hadopt⟩
  · exact hproven
  · have hstored := hsound verdict htaken
    by_cases hone : heaviest.mHeaviestChainProof.length = 1
    · rw [if_pos hone] at hstored
      obtain ⟨restored, hrestored, hchain, hpath, hpathDouble, hworks, htotal, -⟩ :=
        htaken.adopt_of_one hthreads hproven.toAligned hone
      obtain ⟨-, rfl⟩ := Prod.mk.inj (Except.ok.inj (hadopt.symm.trans hrestored))
      have hsame := hchain.trans hstored.1
      refine ⟨⟨?_, ?_, ?_, ?_⟩, ?_, ?_⟩
      · rw [hpath, hstored.2, hsame, hproven.path]
      · rw [hpathDouble, hstored.2, hsame, hproven.path]
      · rw [hworks, hsame, hproven.works]
      · rw [htotal, hsame, hproven.total]
      · rw [hsame]
        exact hproven.decodes
      · rw [hsame]
        exact hproven.genesis
    · obtain ⟨-, haligned, hchain, -⟩ := htaken.adopt_of_ne_one hthreads hproven.toAligned hone hadopt
      obtain ⟨hdecodes, hgenesis⟩ := htaken.decodes hthreads hproven
      rw [← hchain] at hdecodes hgenesis
      exact ⟨haligned, hdecodes, hgenesis⟩

/-- So does every sequence of them. -/
theorem SoundRun.proven (hthreads : 1 ≤ numThreads) {start : HeaviestChain Trie} (hstart : Proven services start)
    (hrun : SoundRun services numThreads start heaviest) : Proven services heaviest := by
  induction hrun with
  | refl => exact hstart
  | step _ hupdates hsound ih => exact ih.kept hthreads hupdates hsound

end Proven

/-! ### The choice -/

section Choice

variable {services : HeaderServices Trie} {numThreads : ℕ} {node : ProofNode} {call : UpdateCall}
  {heaviest : HeaviestChain Trie} {verdict : ProofVerdict Trie} {proposal : List Bytes}

/-- The only splice is the proposal that the call makes. -/
theorem spliced_iff : Spliced services heaviest.mHeaviestChainProof (preprocessed call.subChain) proposal ↔
    proposal = proposalOf services call heaviest := by
  have hspliced : Spliced services heaviest.mHeaviestChainProof (preprocessed call.subChain)
    (proposalOf services call heaviest) := spliced_newChainProofProposal _ _ _
  constructor
  · intro hspliced'
    exact hspliced'.unique hspliced
  · rintro rfl
    exact hspliced

theorem validProposal_iff :
    ValidProposal services numThreads node call heaviest proposal ↔
      proposal = proposalOf services call heaviest ∧
        ∃ verdict, Verifies services (heaviest.node node) numThreads
          (argumentsOf services call heaviest).fromGenesis verdict ∧ verdict.result = .valid := by
  unfold ValidProposal
  rw [spliced_iff, argumentsOf_fromGenesis]
  constructor
  · rintro ⟨rfl, hverdict⟩
    exact ⟨rfl, hverdict⟩
  · rintro ⟨rfl, hverdict⟩
    exact ⟨rfl, hverdict⟩

theorem outweighs_iff {checkpoints : List CBCheckpoint} {chainProof : List Bytes} {totalDiff : ℕ} :
    outweighs services checkpoints chainProof proposal totalDiff
        (workUpTo services proposal proposal.length) = true ↔
      Beats services checkpoints chainProof proposal totalDiff := by
  unfold outweighs Beats
  simp only [Bool.or_eq_true, Bool.and_eq_true, decide_eq_true_eq, beq_iff_eq, or_assoc]

/-- The difficulty that a valid received chain-proof has for itself. -/
theorem Verifies.own_difficulty (hthreads : 1 ≤ numThreads) {node : ProofNode} {subChain : List Bytes}
    (hown : Verifies services node numThreads { chainProof := subChain } verdict)
    (hvalid : verdict.result = .valid) :
    verdict.cumulativeDiff = workUpTo services subChain subChain.length := by
  have hzero : ¬ 1 ≤ ({ chainProof := subChain } : ProofArguments Trie).startFromPosition :=
    Nat.not_succ_le_zero 0
  exact (hown.spec hthreads hvalid (fun _ => rfl) fun hone => absurd hone hzero).1

/-- What is taken over is verified and better, also than the received chain-proof where nothing is recorded. -/
theorem TakenOver.better (hthreads : 1 ≤ numThreads) (haligned : Aligned services heaviest)
    (htaken : TakenOver services numThreads node call heaviest verdict) :
    Better services node.mCheckpoints heaviest.mHeaviestChainProof (proposalOf services call heaviest) ∧
      BeatsReceived services numThreads node call heaviest (proposalOf services call heaviest) := by
  obtain ⟨diff, hbeat, houtweighs⟩ := htaken.outweighs
  rw [(htaken.spec hthreads haligned).1, outweighs_iff] at houtweighs
  have htotal := haligned.total
  unfold HasToBeat at hbeat
  constructor
  · unfold Better
    split at hbeat
    next hzero =>
        rw [← htotal, hzero]
        unfold Beats at houtweighs ⊢
        omega
    next =>
        rw [← htotal, ← hbeat]
        exact houtweighs
  · intro _ hzero
    rw [if_pos hzero] at hbeat
    obtain ⟨own, hown, hvalid, rfl⟩ := hbeat
    rw [hown.own_difficulty hthreads hvalid] at houtweighs
    exact ⟨⟨own, hown, hvalid⟩, houtweighs⟩

/-- On an empty chain-proof the proposal is the received one, and its own difficulty is its own. -/
theorem hasToBeat_of_empty (hthreads : 1 ≤ numThreads) (hempty : heaviest.mHeaviestChainProof = [])
    (hzero : heaviest.mHeaviestChainProofTotalDifficulty = 0)
    (hverdict : Verifies services (heaviest.node node) numThreads (argumentsOf services call heaviest)
      verdict) (hvalid : verdict.result = .valid) :
    HasToBeat services numThreads node call heaviest verdict.cumulativeDiff := by
  have hcommon : commonPointOf services call heaviest = none := by
    cases hsome : commonPointOf services call heaviest with
    | none => rfl
    | some point =>
        have hlt := commonPoint_lt hsome
        rw [hempty] at hlt
        exact absurd hlt (Nat.not_lt_zero _)
  have hunchecked := hverdict.unchecked hthreads hvalid
  unfold argumentsOf proposalOf at hunchecked
  rw [hcommon] at hunchecked
  unfold HasToBeat
  rw [if_pos hzero]
  exact ⟨verdict, hunchecked, hvalid, rfl⟩

/-- A valid and better proposal is taken over, unless the chain-proof has no recorded difficulty and the
received one does not count. -/
theorem takenOver_of_better (hthreads : 1 ≤ numThreads) (haligned : Aligned services heaviest)
    (hverdict : Verifies services (heaviest.node node) numThreads (argumentsOf services call heaviest)
      verdict) (hvalid : verdict.result = .valid)
    (hbetter : Better services node.mCheckpoints heaviest.mHeaviestChainProof
      (proposalOf services call heaviest))
    (hzero : BeatsReceived services numThreads node call heaviest (proposalOf services call heaviest)) :
    TakenOver services numThreads node call heaviest verdict := by
  obtain ⟨hdiff, -, -, hne⟩ := hverdict.proposal_spec hthreads haligned hvalid
  refine ⟨?_, hverdict, hvalid, ?_⟩
  · intro hempty
    apply hne
    unfold proposalOf commonPointOf commonPoint
    rw [List.length_eq_zero_iff.mp hempty]
    rfl
  · by_cases htotal : heaviest.mHeaviestChainProofTotalDifficulty = 0
    · by_cases hempty : heaviest.mHeaviestChainProof = []
      · refine ⟨_, hasToBeat_of_empty hthreads hempty htotal hverdict hvalid, ?_⟩
        rw [hdiff, outweighs_iff, hempty]
        exact .inr (.inl ⟨rfl, List.length_pos_iff.mpr hne⟩)
      · obtain ⟨⟨own, hown, hownValid⟩, hbeats⟩ := hzero hempty htotal
        refine ⟨own.cumulativeDiff, ?_, ?_⟩
        · unfold HasToBeat
          rw [if_pos htotal]
          exact ⟨own, hown, hownValid, rfl⟩
        · rw [hdiff, outweighs_iff, hown.own_difficulty hthreads hownValid]
          exact hbeats
    · refine ⟨heaviest.mHeaviestChainProofTotalDifficulty, ?_, ?_⟩
      · unfold HasToBeat
        rw [if_neg htotal]
      · rw [hdiff, outweighs_iff, haligned.total]
        exact hbetter

/-- What an update comes from. -/
theorem Updates.takenOver (hthreads : 1 ≤ numThreads) (haligned : Aligned services heaviest)
    {report : UpdateReport} {after : HeaviestChain Trie}
    (hupdates : Updates services numThreads node call heaviest report after)
    (hupdated : report.updateResult = .updatedLocalBestKnown) :
    heaviest.mHeaviestChainProof.length ≠ 1 ∧
      after.mHeaviestChainProof = proposalOf services call heaviest ∧
      ∃ verdict, TakenOver services numThreads node call heaviest verdict := by
  rcases hupdates.cases with ⟨-, hresult, -⟩ | ⟨verdict, htaken, hadopt⟩
  · exact absurd hupdated hresult
  · by_cases hone : heaviest.mHeaviestChainProof.length = 1
    · obtain ⟨restored, hrestored, -⟩ := htaken.adopt_of_one hthreads haligned hone
      obtain ⟨hresult, -⟩ := Prod.mk.inj (Except.ok.inj (hadopt.symm.trans hrestored))
      rw [hresult] at hupdated
      cases hupdated
    · obtain ⟨-, -, hchain, -⟩ := htaken.adopt_of_ne_one hthreads haligned hone hadopt
      exact ⟨hone, hchain, verdict, htaken⟩

/-- Nothing is better than itself. -/
theorem not_better_self (checkpoints : List CBCheckpoint) (chainProof : List Bytes) :
    ¬ Better services checkpoints chainProof chainProof := by
  unfold Better Beats
  omega

/-- The choice by what is taken over. -/
theorem forkChoice_iff_takenOver (hthreads : 1 ≤ numThreads) (haligned : Aligned services heaviest) :
    ForkChoice services numThreads node call heaviest ↔
      (ValidProposal services numThreads node call heaviest (proposalOf services call heaviest) →
        Better services node.mCheckpoints heaviest.mHeaviestChainProof (proposalOf services call heaviest) →
        heaviest.mHeaviestChainProof.length ≠ 1 ∧
          (∃ verdict, TakenOver services numThreads node call heaviest verdict) ∧
          MatchesObligatory services node.mCheckpoints (proposalOf services call heaviest)) ∧
      ((∃ verdict, TakenOver services numThreads node call heaviest verdict) →
        ValidProposal services numThreads node call heaviest (proposalOf services call heaviest)) := by
  constructor
  · intro hchoice
    constructor
    · intro hproposal hbetter
      obtain ⟨report, after, hupdates, hupdated, hafter⟩ := hchoice.replaces _ hproposal hbetter
      obtain ⟨hone, -, htaken⟩ := hupdates.takenOver hthreads haligned hupdated
      have hmatches := hchoice.checkpointed report after hupdates hupdated
      rw [hafter] at hmatches
      exact ⟨hone, htaken, hmatches⟩
    · rintro ⟨verdict, htaken⟩
      by_cases hone : heaviest.mHeaviestChainProof.length = 1
      · have hzero : commonIndex services call heaviest = 0 := by
          have hbound := commonIndex_lt services call heaviest
          omega
        exact validProposal_iff.mpr
          ⟨rfl, (verified_of_zero hthreads _ hzero).mp ⟨verdict, htaken.verified, htaken.valid⟩⟩
      · by_contra hinvalid
        obtain ⟨report, after, hupdates, -, hafter⟩ := htaken.updates hthreads haligned hone
        have hkept := hchoice.keeps report after hupdates fun proposal hproposal =>
          absurd ((validProposal_iff.mp hproposal).1 ▸ hproposal) hinvalid
        have hbetter := (htaken.better hthreads haligned).1
        rw [← hafter, hkept] at hbetter
        exact not_better_self _ _ hbetter
  · rintro ⟨hsound, hvalid⟩
    refine ⟨?_, ?_, ?_⟩
    · intro proposal hproposal hbetter
      obtain ⟨rfl, -⟩ := validProposal_iff.mp hproposal
      obtain ⟨hone, ⟨verdict, htaken⟩, -⟩ := hsound hproposal hbetter
      exact htaken.updates hthreads haligned hone
    · intro report after hupdates hnone
      rcases hupdates.cases with ⟨rfl, -, -⟩ | ⟨verdict, htaken, -⟩
      · rfl
      · exact absurd (htaken.better hthreads haligned).1 (hnone _ (hvalid ⟨verdict, htaken⟩))
    · intro report after hupdates hupdated
      obtain ⟨-, hchain, verdict, htaken⟩ := hupdates.takenOver hthreads haligned hupdated
      rw [hchain]
      exact (hsound (hvalid ⟨verdict, htaken⟩) (htaken.better hthreads haligned).1).2.2

theorem exists_takenOver_iff (hthreads : 1 ≤ numThreads) (haligned : Aligned services heaviest)
    (hbetter : Better services node.mCheckpoints heaviest.mHeaviestChainProof (proposalOf services call heaviest)) :
    (∃ verdict, TakenOver services numThreads node call heaviest verdict) ↔
      (∃ verdict, Verifies services (heaviest.node node) numThreads (argumentsOf services call heaviest) verdict ∧
        verdict.result = .valid) ∧
      BeatsReceived services numThreads node call heaviest (proposalOf services call heaviest) := by
  constructor
  · rintro ⟨verdict, htaken⟩
    exact ⟨⟨verdict, htaken.verified, htaken.valid⟩, (htaken.better hthreads haligned).2⟩
  · rintro ⟨⟨verdict, hverdict, hvalid⟩, hbeats⟩
    exact ⟨verdict, takenOver_of_better hthreads haligned hverdict hvalid hbetter hbeats⟩

/-- **The choice is the right one exactly under the condition.** -/
theorem forkChoice_iff (hthreads : 1 ≤ numThreads) (hproven : Proven services heaviest) :
    ForkChoice services numThreads node call heaviest ↔
      SoundChoice services numThreads node call heaviest := by
  rw [forkChoice_iff_takenOver hthreads hproven.toAligned]
  rcases Nat.eq_zero_or_pos (commonIndex services call heaviest) with hzero | hone
  · -- The proposal is verified from its first header, as a chain-proof alone is.
    have hverified := verified_of_zero hthreads (heaviest.node node) hzero
    constructor
    · rintro ⟨hsound, -⟩
      refine ⟨fun _ proposal hproposal hbetter => ?_, fun hone => absurd hone (by omega)⟩
      obtain ⟨rfl, -⟩ := validProposal_iff.mp hproposal
      obtain ⟨hone, ⟨verdict, htaken⟩, hmatches⟩ := hsound hproposal hbetter
      exact ⟨hone, (htaken.better hthreads hproven.toAligned).2, hmatches⟩
    · intro hsound
      constructor
      · intro hproposal hbetter
        obtain ⟨hone, hbeats, hmatches⟩ := hsound.fromStart hzero _ hproposal hbetter
        have hverdict := hverified.mpr (validProposal_iff.mp hproposal).2
        exact ⟨hone, (exists_takenOver_iff hthreads hproven.toAligned hbetter).mpr ⟨hverdict, hbeats⟩, hmatches⟩
      · rintro ⟨verdict, htaken⟩
        exact validProposal_iff.mpr ⟨rfl, hverified.mp ⟨verdict, htaken.verified, htaken.valid⟩⟩
  · -- It is verified from the latest key block up to the common point.
    have hmany : heaviest.mHeaviestChainProof.length ≠ 1 := by
      have hbound := commonIndex_lt services call heaviest
      omega
    constructor
    · rintro ⟨hsound, hvalid⟩
      refine ⟨fun hzero => absurd hzero (by omega), ?_⟩
      rintro _ proposal hspliced hbetter checkpoints position header hactivated hlatest hrest
      obtain rfl := spliced_iff.mp hspliced
      have hlater := verified_later_iff hthreads hproven hone hactivated hlatest
      have hfull := verified_full_iff hthreads hproven hone hactivated hlatest
      have htaken := exists_takenOver_iff hthreads hproven.toAligned hbetter
      have hproposal : (parallelRule numThreads).PassesFull services (heaviest.node node)
          (argumentsOf services call heaviest) checkpoints position →
          ValidProposal services numThreads node call heaviest (proposalOf services call heaviest) :=
        fun hpasses => validProposal_iff.mpr ⟨rfl, hfull.mpr ⟨hrest, hpasses⟩⟩
      refine ⟨⟨fun hpasses => ?_, fun hpasses => ?_⟩, fun hpasses => (hsound (hproposal hpasses) hbetter).2.2⟩
      · obtain ⟨hverdict, hbeats⟩ := htaken.mp (hsound (hproposal hpasses) hbetter).2.1
        exact ⟨(hlater.mp hverdict).2, hbeats⟩
      · have hvalidProposal := hvalid (htaken.mpr ⟨hlater.mpr ⟨hrest, hpasses.1⟩, hpasses.2⟩)
        exact (hfull.mp (validProposal_iff.mp hvalidProposal).2).2
    · intro hsound
      have hcommon := hsound.fromCommonPoint hone _ (spliced_iff.mpr rfl)
      constructor
      · intro hproposal hbetter
        have hverdict := (validProposal_iff.mp hproposal).2
        obtain ⟨checkpoints, position, header, hactivated, hlatest⟩ :=
          Verifies.start hthreads hproven hone (.inr hverdict)
        obtain ⟨hrest, hpasses⟩ := (verified_full_iff hthreads hproven hone hactivated hlatest).mp hverdict
        obtain ⟨hsame, hmatches⟩ := hcommon hbetter checkpoints position header hactivated hlatest hrest
        obtain ⟨hlater, hbeats⟩ := hsame.mp hpasses
        have hverified := (verified_later_iff hthreads hproven hone hactivated hlatest).mpr ⟨hrest, hlater⟩
        exact ⟨hmany, (exists_takenOver_iff hthreads hproven.toAligned hbetter).mpr ⟨hverified, hbeats⟩,
          hmatches hpasses⟩
      · rintro ⟨verdict, htaken⟩
        obtain ⟨hbetter, hbeats⟩ := htaken.better hthreads hproven.toAligned
        have hverdict : ∃ verdict, Verifies services (heaviest.node node) numThreads
            (argumentsOf services call heaviest) verdict ∧ verdict.result = .valid :=
          ⟨verdict, htaken.verified, htaken.valid⟩
        obtain ⟨checkpoints, position, header, hactivated, hlatest⟩ :=
          Verifies.start hthreads hproven hone (.inl hverdict)
        obtain ⟨hrest, hlater⟩ := (verified_later_iff hthreads hproven hone hactivated hlatest).mp hverdict
        obtain ⟨hsame, -⟩ := hcommon hbetter checkpoints position header hactivated hlatest hrest
        exact validProposal_iff.mpr ⟨rfl, (verified_full_iff hthreads hproven hone hactivated hlatest).mpr
          ⟨hrest, hsame.mpr ⟨hlater, hbeats⟩⟩⟩

end Choice

/-! ### The first data blocks -/

theorem epochChain_proven (leading : UInt8) : Proven (epochServices 100) (epochChain leading [0, 1]) := by
  refine ⟨⟨rfl, rfl, rfl, rfl⟩, ?_, ?_⟩
  · intro bytes hbytes
    have hmem : bytes ∈ ([[0], [1]] : List Bytes) := hbytes
    simp only [List.mem_cons, List.not_mem_nil, or_false] at hmem
    rcases hmem with rfl | rfl <;> rfl
  · intro bytes hbytes
    cases hbytes
    exact ⟨_, rfl, rfl, rfl⟩

/-- A second data block is taken over by a node that has the first. -/
theorem epoch_extended : ∃ report after,
    Updates (epochServices 100) 4 freshNode { subChain := [[1], [2]] } (epochChain 1 [0, 1]) report after ∧
      report.updateResult = .updatedLocalBestKnown ∧ after.mHeaviestChainProof = [[0], [1], [2]] := by
  have hproposal : proposalOf (epochServices 100) { subChain := [[1], [2]] } (epochChain 1 [0, 1]) =
    [[0], [1], [2]] := rfl
  refine ((forkChoice_iff (by decide) (epochChain_proven 1)).mpr ⟨?_, ?_⟩).replaces _
    (validProposal_iff.mpr ⟨hproposal.symm, _, ⟨0, rfl⟩, rfl⟩) (.inr (.inl ⟨rfl, by decide⟩))
  · intro hzero
    cases (hzero : 1 = 0)
  · rintro _ proposal hspliced _ checkpoints position header hactivated hlatest _
    obtain rfl := spliced_iff.mp hspliced
    cases hactivated
    have hgenesis : LatestKey (epochServices 100) [[0], [1], [2]] 1 0 (epochHeader 100 0) := by
      refine ⟨by decide, ⟨_, rfl, rfl⟩, rfl, ?_⟩
      intro i hi hi'
      obtain rfl : i = 1 := by omega
      exact ⟨_, _, rfl, rfl, rfl⟩
    obtain ⟨rfl, rfl⟩ := hgenesis.unique hlatest
    have hfull : ProofRule.PassesFull (epochServices 100) ((epochChain 1 [0, 1]).node freshNode)
        (argumentsOf (epochServices 100) { subChain := [[1], [2]] } (epochChain 1 [0, 1])) [] 0 (parallelRule 4) :=
      ⟨⟨rfl, .inl (.inl rfl)⟩, ⟨⟨⟨_, rfl, by decide⟩, ⟨_, rfl, rfl⟩⟩, trivial⟩, ⟨rfl, rfl, trivial⟩⟩
    have hlater : ProofRule.PassesLater (epochServices 100) ((epochChain 1 [0, 1]).node freshNode)
        (argumentsOf (epochServices 100) { subChain := [[1], [2]] } (epochChain 1 [0, 1])) [] 0 (parallelRule 4)
        (epochHeader 100 0) :=
      ⟨⟨rfl, .inl (.inl rfl)⟩, rfl, ⟨⟨⟨_, rfl, by decide⟩, ⟨_, rfl, rfl⟩⟩, trivial⟩, ⟨rfl, rfl, trivial⟩⟩
    refine ⟨iff_of_true hfull ⟨hlater, ?_⟩, ?_⟩
    · intro _ hzero
      cases hzero
    · intro _ checkpoint hmem
      cases hmem

/-- A node whose heaviest chain-proof is the genesis block does not take a data block over: its path would get longer
than the chain-proof. One that has two data blocks without a time-stamp does not take over a third, although the four
headers are a valid chain-proof: from the common point the first data block counts as the parent of the genesis block. -/
theorem epoch_not_extended :
    ¬ ForkChoice (epochServices 100) 4 freshNode { subChain := [[0], [1]] } (epochChain 0 [0]) ∧
      ¬ ForkChoice (epochServices 0) 4 freshNode { subChain := [[2], [3]] } (epochChain 2 [0, 1, 2]) := by
  constructor
  · intro hchoice
    have haligned : Aligned (epochServices 100) (epochChain 0 [0]) := ⟨rfl, rfl, rfl, rfl⟩
    obtain ⟨hone, -⟩ := ((forkChoice_iff_takenOver (by decide) haligned).mp hchoice).1
      (validProposal_iff.mpr ⟨rfl, _, ⟨0, rfl⟩, rfl⟩) (.inr (.inl ⟨rfl, by decide⟩))
    exact hone rfl
  · intro hchoice
    have haligned : Aligned (epochServices 0) (epochChain 2 [0, 1, 2]) := ⟨rfl, rfl, rfl, rfl⟩
    obtain ⟨-, ⟨verdict, htaken⟩, -⟩ := ((forkChoice_iff_takenOver (by decide) haligned).mp hchoice).1
      (validProposal_iff.mpr ⟨rfl, _, ⟨0, rfl⟩, rfl⟩) (.inr (.inl ⟨rfl, by decide⟩))
    have hrefused : ∃ refused, Verifies (epochServices 0) ((epochChain 2 [0, 1, 2]).node freshNode) 4
        (argumentsOf (epochServices 0) { subChain := [[2], [3]] } (epochChain 2 [0, 1, 2])) refused ∧
      refused.result = .blockTimeOutOfRange := ⟨_, ⟨0, rfl⟩, rfl⟩
    obtain ⟨refused, hrun, hresult⟩ := hrefused
    have hvalid := htaken.valid
    rw [← hrun.unique htaken.verified, hresult] at hvalid
    cases hvalid

end Gridnet
