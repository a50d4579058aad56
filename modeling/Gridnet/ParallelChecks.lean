import Gridnet.ChunkPartition
import Gridnet.SignaturePhase
import Gridnet.VerifierChecks

/-! What the multi-threaded verifier accepts: beside the checks of its final pass, every signature under
the key of the last key block and a layout of chunks none of which is empty. -/

namespace Gridnet

variable {Trie : Type}

namespace Parallel

open Ranges

section Turn

variable (ctx : ScanContext Trie)

/-- A header decodes and passes all checks of the final pass. -/
def Checked (st : ScanState Trie) (element : Bytes × ℕ) : Prop :=
  ∃ header, ctx.services.instantiate element.1 = some header ∧
    ∀ check ∈ headerChecks ctx st element.2 element.1 header, check.1 = false

/-- The variables after a header. -/
def next (st : ScanState Trie) (element : Bytes × ℕ) : ScanState Trie :=
  match ctx.services.instantiate element.1 with
  | none => st
  | some header => advance ctx st element.2 element.1 header

/-- One turn without the detour over the combined results. -/
def verifyElement (st : ScanState Trie) (element : Bytes × ℕ) : Except ProofExit (ScanState Trie) :=
  match ctx.services.instantiate element.1 with
  | none => .error { result := .blockHeaderInstantiationFailed }
  | some header =>
      match firstFailure (headerChecks ctx st element.2 element.1 header) with
      | some exit => .error exit
      | none => .ok (advance ctx st element.2 element.1 header)

theorem verifyElement_ok_iff (st : ScanState Trie) (element : Bytes × ℕ) (st' : ScanState Trie) :
    verifyElement ctx st element = .ok st' ↔ Checked ctx st element ∧ st' = next ctx st element := by
  unfold verifyElement Checked next
  cases ctx.services.instantiate element.1 with
  | none => simp
  | some header =>
      simp only [Option.some.injEq, exists_eq_left', ← firstFailure_eq_none_iff]
      cases firstFailure (headerChecks ctx st element.2 element.1 header) with
      | none =>
          simp
          exact eq_comm
      | some exit => simp

theorem headerChecks_result (st : ScanState Trie) (i : ℕ) (bytes : Bytes) (header : CBlockHeader Trie)
    {check : Bool × ProofExit} (hcheck : check ∈ headerChecks ctx st i bytes header) :
    check.2.result ≠ .valid := by
  unfold headerChecks at hcheck
  rw [List.mem_append, List.mem_append] at hcheck
  rcases hcheck with (hfront | hkind) | hback
  · simp only [List.mem_cons, List.not_mem_nil, or_false] at hfront
    rcases hfront with rfl | rfl | rfl
    all_goals simp
  · split at hkind
    · simp only [keyChecks, List.mem_cons, List.not_mem_nil, or_false] at hkind
      rcases hkind with rfl | rfl | rfl | rfl | rfl | rfl | rfl | rfl
      all_goals simp
    · simp only [dataChecks, List.mem_cons, List.not_mem_nil, or_false] at hkind
      subst hkind
      simp
  · simp only [List.mem_cons, List.not_mem_nil, or_false] at hback
    rcases hback with rfl | rfl | rfl
    all_goals simp

theorem verifyHeader_refuses {st : ScanState Trie} {chunks : List (ℕ × ℕ)} {element : Bytes × ℕ}
    {exit : ProofExit} (hrun : verifyHeader ctx st chunks element = .error exit) :
    exit.result ≠ .valid := by
  unfold verifyHeader at hrun
  split at hrun
  next =>
      cases hrun
      simp
  next header _ =>
      split at hrun
      next exit' hfailure =>
          cases hrun
          obtain ⟨check, hmem, rfl⟩ := firstFailure_mem hfailure
          exact headerChecks_result ctx st _ _ header hmem
      next => cases hrun

/-- Over a layout the combined result of a scanned position is its header. -/
theorem verifyHeader_eq {chunks : List (ℕ × ℕ)}
    (hcover : Cover chunks ctx.startFromPosition ctx.call.chainProof.length) (st : ScanState Trie)
    {element : Bytes × ℕ} (hmem : element ∈ ctx.call.elementsFrom ctx.startFromPosition) :
    verifyHeader ctx st chunks element = verifyElement ctx st element := by
  obtain ⟨hle, hget⟩ := mem_drop_zipIdx.mp hmem
  unfold verifyHeader verifyElement
  rw [blockResult_eq hcover, if_pos hle, hget]
  rfl

end Turn

section Accepting

variable {services : HeaderServices Trie} {node : ProofNode} {call : ProofArguments Trie}

/-- Which obligatory checkpoints are missed depends on where the scan begins, not on its chunks. -/
theorem missesCheckpoint_eq {chunks : List (ℕ × ℕ)} {startFromPosition : ℕ}
    (hstart : startFromPosition < call.chainProof.length)
    (hcover : Cover chunks startFromPosition call.chainProof.length) :
    missesCheckpoint services node call chunks =
      missesCheckpoint services node call [(startFromPosition, call.chainProof.length)] := by
  have hwhole : Cover [(startFromPosition, call.chainProof.length)] startFromPosition
      call.chainProof.length := cover_single rfl rfl hstart.le
  funext checkpoint
  unfold missesCheckpoint headerHash
  rw [blockResult_eq hcover, blockResult_eq hwhole]

/-- What happens once the chunks are known. -/
theorem verifyInChunks_ok_iff {start : ProofStart Trie} {startFromPosition : ℕ}
    {startHeader : CBlockHeader Trie} {st : ScanState Trie} {chunks : List (ℕ × ℕ)}
    (hlt : startFromPosition < call.chainProof.length)
    (hcover : Cover chunks startFromPosition call.chainProof.length)
    (hkeys : ∀ chunk ∈ chunks, chunk.1 ∈ keysFrom services call.chainProof startFromPosition)
    (hstart : ∀ bytes, call.chainProof[startFromPosition]? = some bytes →
      isKeyElement services (bytes, startFromPosition) = true) (verdict : ProofVerdict Trie) :
    verifyInChunks services node call start startFromPosition startHeader st chunks = .ok verdict ↔
      (∀ chunk ∈ chunks, chunk.1 < chunk.2) ∧ ¬ Outdated services startHeader ∧
        AllSigned services [] (call.elementsFrom startFromPosition) ∧
        ∃ checkpoints, activateCheckpoints services node call = .ok checkpoints ∧
        (call.requireCheckpoints && node.getRequireObligatoryCheckpoints &&
          checkpoints.any (missesCheckpoint services node call
            [(startFromPosition, call.chainProof.length)])) = false ∧
        call.ConcludesWith startFromPosition
          (Checked (scanContext services node call start checkpoints startFromPosition))
          (next (scanContext services node call start checkpoints startFromPosition)) st verdict := by
  have hsigned := verifyChunks_signed_iff hlt hcover hkeys hstart startHeader
  have hscan : ∀ checkpoints st',
      (call.elementsFrom startFromPosition).foldlM (fun st => verifyHeader (scanContext services node
        call start checkpoints startFromPosition) st chunks) st = .ok st' ↔
        Scan.Passes (Checked (scanContext services node call start checkpoints startFromPosition))
            (next (scanContext services node call start checkpoints startFromPosition)) st
            (call.elementsFrom startFromPosition) ∧
          st' = (call.elementsFrom startFromPosition).foldl
            (next (scanContext services node call start checkpoints startFromPosition)) st := by
    intro checkpoints st'
    rw [Scan.foldlM_congr (call.elementsFrom startFromPosition) fun element hmem st =>
      verifyHeader_eq (scanContext services node call start checkpoints startFromPosition) hcover st hmem]
    exact Scan.foldlM_ok_iff (verifyElement_ok_iff (scanContext services node call start checkpoints
      startFromPosition)) st st' (call.elementsFrom startFromPosition)
  unfold verifyInChunks
  rw [missesCheckpoint_eq hlt hcover]
  constructor
  · intro hrun
    obtain ⟨outcomes, houtcomes, hafter⟩ := ok_of_bind hrun
    obtain ⟨leaders, hleaders, hfinal⟩ := ok_of_bind hafter
    rw [orCrash_eq_ok_iff] at houtcomes
    rw [orRefused_eq_ok_iff] at hleaders
    rw [hleaders] at houtcomes
    obtain ⟨hproper, houtdated, hall⟩ := hsigned.mp ⟨leaders, houtcomes⟩
    obtain ⟨checkpoints, hcheckpoints, hrun⟩ := ok_of_bind hfinal
    rw [orCrash_eq_ok_iff] at hcheckpoints
    refine ⟨hproper, houtdated, hall, checkpoints, hcheckpoints, ?_⟩
    split at hrun
    next => cases hrun
    next hmissing =>
        obtain ⟨st', hst', hrun⟩ := ok_of_bind hrun
        rw [orRefused_eq_ok_iff] at hst'
        obtain ⟨hpasses, rfl⟩ := (hscan checkpoints st').mp hst'
        split at hrun
        next => cases hrun
        next hleader =>
            cases hrun
            exact ⟨by simpa using hmissing, hpasses, by simpa using hleader, rfl⟩
  · rintro ⟨hproper, houtdated, hall, checkpoints, hcheckpoints, hmissing, hpasses, hleader, rfl⟩
    obtain ⟨leaders, hleaders⟩ := hsigned.mpr ⟨hproper, houtdated, hall⟩
    rw [hleaders, hcheckpoints]
    show (if (call.requireCheckpoints && node.getRequireObligatoryCheckpoints &&
      checkpoints.any (missesCheckpoint services node call
        [(startFromPosition, call.chainProof.length)])) = true then _ else _) = _
    rw [if_neg (by rw [hmissing]; simp)]
    show (orRefused call ((call.elementsFrom startFromPosition).foldlM (fun st => verifyHeader
      (scanContext services node call start checkpoints startFromPosition) st chunks) st) >>= _) = _
    rw [(hscan checkpoints _).mpr ⟨hpasses, rfl⟩]
    show (if _ then _ else _) = _
    rw [if_neg (by simpa using hleader)]

theorem refuses_initialState (start : ProofStart Trie) (startFromPosition : ℕ)
    (startHeader : CBlockHeader Trie) :
    Refuses call Harmless (initialState services node call start startFromPosition startHeader) := by
  apply (refuses_startingWork node call start _).bind
  intro work
  dsimp only
  split
  · apply (refuses_indexed _ _).bind
    intro parent
    split
    · exact refuses_refused (by simp [Harmless])
    · exact refuses_ok _
  · exact refuses_ok _

theorem keyBlockIndices_harmless {chainProof : List Bytes} {startFromPosition numThreads : ℕ}
    {exit : ProofExit}
    (hrun : keyBlockIndices services chainProof startFromPosition numThreads = .error exit) :
    Harmless exit := by
  unfold keyBlockIndices at hrun
  cases hfound : (segments chainProof.length startFromPosition numThreads).mapM fun segment =>
      identify services (slice chainProof segment) with
  | ok found =>
      rw [hfound] at hrun
      cases hrun
  | error exit' =>
      rw [hfound] at hrun
      cases hrun
      obtain ⟨segment, -, hsegment⟩ := exists_mem_of_mapM_error hfound
      obtain ⟨found, element, hstep⟩ := Scan.exists_of_foldlM_error hsegment
      unfold identifyHeader at hstep
      split at hstep
      next =>
          cases hstep
          simp [Harmless]
      next => cases hstep

theorem verifySignature_harmless {leaderPubKey : Bytes} {element : Bytes × ℕ} {exit : ProofExit}
    (hrun : verifySignature services leaderPubKey element = .error exit) : Harmless exit := by
  unfold verifySignature at hrun
  split at hrun
  next =>
      cases hrun
      simp [Harmless]
  next =>
      split at hrun
      · split at hrun
        · cases hrun
        · cases hrun
          simp [Harmless]
      · split at hrun
        · cases hrun
        · cases hrun
          simp [Harmless]

theorem verifyChunk_harmless {chainProof : List Bytes} {startHeader : CBlockHeader Trie}
    {chunk : ℕ × ℕ} {outcome : Except ProofExit Bytes}
    (hrun : verifyChunk services chainProof startHeader chunk = .ok outcome) {exit : ProofExit}
    (hexit : outcome = .error exit) : Harmless exit := by
  unfold verifyChunk at hrun
  split at hrun
  next => cases hrun
  next first rest _ =>
      cases hrun
      split at hexit
      next =>
          cases hexit
          simp [Harmless]
      next header _ =>
          split at hexit
          next =>
              cases hexit
              simp [Harmless]
          next =>
              split at hexit
              next =>
                  cases hexit
                  simp [Harmless]
              next =>
                  rw [← List.foldlM_cons] at hexit
                  obtain ⟨leaderPubKey, element, hstep⟩ := Scan.exists_of_foldlM_error hexit
                  exact verifySignature_harmless hstep

theorem verifyChunks_harmless {chainProof : List Bytes} {startHeader : CBlockHeader Trie}
    {chunks : List (ℕ × ℕ)} {outcomes : Except ProofExit (List Bytes)}
    (hrun : verifyChunks services chainProof startHeader chunks = .ok outcomes) {exit : ProofExit}
    (hexit : outcomes = .error exit) : Harmless exit := by
  obtain ⟨list, hlist, houtcomes⟩ := ok_of_bind hrun
  cases houtcomes
  obtain ⟨outcome, hmem, houtcome⟩ := exists_mem_of_mapM_error hexit
  obtain ⟨chunk, hchunk⟩ := exists_of_mem_mapM hlist hmem
  exact verifyChunk_harmless hchunk houtcome

theorem refuses_verifyInChunks (start : ProofStart Trie) (startFromPosition : ℕ)
    (startHeader : CBlockHeader Trie) (st : ScanState Trie) (chunks : List (ℕ × ℕ)) :
    Refuses call Invalid
      (verifyInChunks services node call start startFromPosition startHeader st chunks) := by
  unfold verifyInChunks
  cases houtcomes : verifyChunks services call.chainProof startHeader chunks with
  | error reason =>
      intro verdict hverdict
      cases hverdict
  | ok outcomes =>
      show Refuses call Invalid (orRefused call outcomes >>= _)
      apply (refuses_orRefused fun exit hexit => (verifyChunks_harmless houtcomes hexit).1).bind
      intro leaders
      apply (refuses_orCrash _).bind
      intro checkpoints
      dsimp only
      split
      · exact refuses_refused (by simp)
      · apply Refuses.bind
        · apply refuses_orRefused
          intro exit hexit
          obtain ⟨st', element, hstep⟩ := Scan.exists_of_foldlM_error hexit
          exact verifyHeader_refuses _ hstep
        · intro st'
          split
          · exact refuses_refused (by simp)
          · exact refuses_ok _

variable (services node call)

/-- Every early end before the chunks releases the lock. -/
theorem refuses_prepare (numThreads : ℕ) :
    Refuses call Harmless (prepare services node call numThreads) := by
  apply (refuses_prepareStart services node call).bind
  intro start
  split
  · exact refuses_refused (by simp [Harmless])
  · apply (refuses_findStart services call _).bind
    intro found
    split
    · exact refuses_refused (by simp [Harmless])
    · split
      · exact refuses_refused (by simp [Harmless])
      · apply (refuses_initialState _ _ _).bind
        intro st
        split
        · intro verdict hverdict
          cases hverdict
        · apply Refuses.bind
          · exact refuses_orRefused fun exit hexit => keyBlockIndices_harmless hexit
          · intro keys
            exact refuses_ok _

variable {services node call}

theorem prepare_ok_iff {numThreads : ℕ} (hthreads : 1 ≤ numThreads) (prepared : Prepared Trie) :
    prepare services node call numThreads = .ok prepared ↔
      prepareStart services node call = .ok prepared.start ∧
      findStart services call prepared.start.startFromPosition = .ok (some prepared.startFromPosition) ∧
      (call.chainProof[prepared.startFromPosition]?).bind services.instantiate =
        some prepared.startHeader ∧
      initialState services node call prepared.start prepared.startFromPosition prepared.startHeader =
        .ok prepared.st ∧
      (∀ element ∈ call.elementsFrom prepared.startFromPosition, Decodes services element) ∧
      prepared.keys = keysFrom services call.chainProof prepared.startFromPosition := by
  constructor
  · intro hrun
    obtain ⟨start, hstart, hrun⟩ := ok_of_bind hrun
    split at hrun
    next => cases hrun
    next =>
        obtain ⟨found, hfound, hrun⟩ := ok_of_bind hrun
        split at hrun
        next => cases hrun
        next startFromPosition =>
            split at hrun
            next => cases hrun
            next startHeader hheader =>
                obtain ⟨st, hst, hrun⟩ := ok_of_bind hrun
                rw [if_neg (by omega)] at hrun
                obtain ⟨keys, hkeys, hrun⟩ := ok_of_bind hrun
                cases hrun
                obtain ⟨-, bytes, -, hbytes, -⟩ := findStart_some hfound
                have hlt := (List.getElem?_eq_some_iff.mp hbytes).1
                rw [orRefused_eq_ok_iff, keyBlockIndices_ok_iff hlt hthreads] at hkeys
                exact ⟨hstart, hfound, hheader, hst, hkeys⟩
  · rintro ⟨hstart, hfound, hheader, hst, hkeys⟩
    obtain ⟨-, bytes, -, hbytes, -⟩ := findStart_some hfound
    have hlt := (List.getElem?_eq_some_iff.mp hbytes).1
    have hindices := (keyBlockIndices_ok_iff hlt hthreads prepared.keys).mpr hkeys
    unfold prepare
    rw [hstart]
    show (if call.chainProof.length = 0 then _ else _) = _
    rw [if_neg (by omega), hfound]
    show (match (call.chainProof[prepared.startFromPosition]?).bind services.instantiate with
      | none => _
      | some startHeader => _) = _
    rw [hheader]
    show (initialState services node call prepared.start prepared.startFromPosition
      prepared.startHeader >>= _) = _
    rw [hst]
    show (if numThreads = 0 then _ else _) = _
    rw [if_neg (by omega)]
    show (orRefused call (keyBlockIndices services call.chainProof prepared.startFromPosition
      numThreads) >>= _) = _
    rw [hindices]
    rfl

/-- Where a prepared run starts: at a key block, the first of the sorted keys. -/
theorem prepare_ok_start {numThreads : ℕ} (hthreads : 1 ≤ numThreads) {prepared : Prepared Trie}
    (hprepare : prepare services node call numThreads = .ok prepared) :
    prepared.startFromPosition < call.chainProof.length ∧
      Keyed prepared.keys prepared.startFromPosition call.chainProof.length ∧
      ∀ bytes, call.chainProof[prepared.startFromPosition]? = some bytes →
        isKeyElement services (bytes, prepared.startFromPosition) = true := by
  obtain ⟨-, hfound, -, -, -, hkeys⟩ := (prepare_ok_iff hthreads prepared).mp hprepare
  obtain ⟨-, bytes, header, hbytes, hinstantiate, hkey, -⟩ := findStart_some hfound
  have hlt := (List.getElem?_eq_some_iff.mp hbytes).1
  refine ⟨hlt, hkeys ▸ keyed_keysFrom hlt, fun bytes' hbytes' => ?_⟩
  cases hbytes.symm.trans hbytes'
  exact isKeyElement_iff.mpr ⟨header, hinstantiate, hkey⟩

/-- The phases behind the preparation. -/
theorem verifyChainProofMT_prepared {numThreads : ℕ} {prepared : Prepared Trie}
    (hprepare : prepare services node call numThreads = .ok prepared) (fuel : ℕ) :
    verifyChainProofMT services node call numThreads fuel =
      (prepareChunks prepared.keys call.chainProof.length prepared.startFromPosition numThreads
        fuel).map fun chunks => concluded (orCrash chunks >>= fun chunks =>
          verifyInChunks services node call prepared.start prepared.startFromPosition
            prepared.startHeader prepared.st chunks) := by
  unfold verifyChainProofMT
  rw [hprepare]

/-- What the multi-threaded verifier accepts, and the verdict then. -/
theorem verifyChainProofMT_ok_iff {numThreads : ℕ} (hthreads : 1 ≤ numThreads)
    {verdict : ProofVerdict Trie} (hvalid : verdict.result = .valid) :
    (∃ fuel, verifyChainProofMT services node call numThreads fuel = some (.ok verdict)) ↔
      ∃ start checkpoints startFromPosition startHeader st,
        prepareStart services node call = .ok start ∧
        activateCheckpoints services node call = .ok checkpoints ∧
        (call.requireCheckpoints && node.getRequireObligatoryCheckpoints &&
          checkpoints.any (missesCheckpoint services node call
            [(startFromPosition, call.chainProof.length)])) = false ∧
        findStart services call start.startFromPosition = .ok (some startFromPosition) ∧
        (call.chainProof[startFromPosition]?).bind services.instantiate = some startHeader ∧
        initialState services node call start startFromPosition startHeader = .ok st ∧
        (∀ element ∈ call.elementsFrom startFromPosition, Decodes services element) ∧
        CutsCleanly (keysFrom services call.chainProof startFromPosition) call.chainProof.length
          startFromPosition numThreads ∧
        ¬ Outdated services startHeader ∧
        AllSigned services [] (call.elementsFrom startFromPosition) ∧
        call.ConcludesWith startFromPosition
          (Checked (scanContext services node call start checkpoints startFromPosition))
          (next (scanContext services node call start checkpoints startFromPosition)) st verdict := by
  cases hprepare : prepare services node call numThreads with
  | error stop =>
      constructor
      · rintro ⟨fuel, hrun⟩
        unfold verifyChainProofMT at hrun
        rw [hprepare] at hrun
        have hrefuses := refuses_prepare services node call numThreads
        rw [hprepare] at hrefuses
        have hstop : Refuses call Invalid (.error stop : Except (ProofStop Trie) (ProofVerdict Trie)) := by
          intro refused hrefused
          cases hrefused
          obtain ⟨exit, hexit, hharmless⟩ := hrefuses refused rfl
          exact ⟨exit, hexit, hharmless.1⟩
        have hconcluded := (concluded_eq_ok_iff hstop hvalid).mp (Option.some.inj hrun)
        cases hconcluded
      · rintro ⟨start, checkpoints, startFromPosition, startHeader, st, hstart, -, -, hfound, hheader,
          hst, hdecodes, -⟩
        have hok := (prepare_ok_iff hthreads ⟨start, startFromPosition, startHeader, st,
          keysFrom services call.chainProof startFromPosition⟩).mpr ⟨hstart, hfound, hheader, hst, hdecodes, rfl⟩
        rw [hprepare] at hok
        cases hok
  | ok prepared =>
      obtain ⟨hstart, hfound, hheader, hst, hdecodes, hkeys⟩ := (prepare_ok_iff hthreads prepared).mp hprepare
      obtain ⟨hlt, hkeyed, hstartKey⟩ := prepare_ok_start hthreads hprepare
      simp only [verifyChainProofMT_prepared hprepare, Option.map_eq_some_iff]
      constructor
      · rintro ⟨fuel, outcome, hcut, hrun⟩
        have hrefuses : Refuses call Invalid (orCrash outcome >>= fun chunks => verifyInChunks services node call
            prepared.start prepared.startFromPosition prepared.startHeader prepared.st chunks) :=
          (refuses_orCrash outcome).bind fun chunks => refuses_verifyInChunks _ _ _ _ chunks
        obtain ⟨chunks, hchunks, hverify⟩ := ok_of_bind ((concluded_eq_ok_iff hrefuses hvalid).mp hrun)
        rw [orCrash_eq_ok_iff] at hchunks
        rw [hchunks] at hcut
        obtain ⟨hcover, hstarts⟩ := prepareChunks_cover hkeyed hcut
        rw [hkeys] at hstarts
        obtain ⟨hproper, houtdated, hsigned, checkpoints, hcheckpoints, hmissing, hpasses, hleader,
          hverdict⟩ := (verifyInChunks_ok_iff hlt hcover hstarts hstartKey verdict).mp hverify
        refine ⟨prepared.start, checkpoints, prepared.startFromPosition, prepared.startHeader,
          prepared.st, hstart, hcheckpoints, hmissing, hfound, hheader, hst, hdecodes, ?_, houtdated,
          hsigned, hpasses, hleader, hverdict⟩
        rw [← hkeys]
        exact (cutsCleanly_iff hkeyed numThreads).mpr ⟨fuel, chunks, hcut, hproper⟩
      · rintro ⟨start, checkpoints, startFromPosition, header, st, hstart', hcheckpoints, hmissing,
          hfound', hheader', hst', hdecodes', hclean, houtdated, hsigned, hpasses, hleader, hverdict⟩
        have hok := (prepare_ok_iff hthreads ⟨start, startFromPosition, header, st,
          keysFrom services call.chainProof startFromPosition⟩).mpr ⟨hstart', hfound', hheader', hst', hdecodes', rfl⟩
        rw [hprepare] at hok
        cases hok
        obtain ⟨fuel, chunks, hcut, hproper⟩ := (cutsCleanly_iff hkeyed numThreads).mp hclean
        obtain ⟨hcover, hstarts⟩ := prepareChunks_cover hkeyed hcut
        refine ⟨fuel, .ok chunks, hcut, ?_⟩
        have hverify := (verifyInChunks_ok_iff hlt hcover hstarts hstartKey verdict).mpr
          ⟨hproper, houtdated, hsigned, checkpoints, hcheckpoints, hmissing, hpasses, hleader, hverdict⟩
        show concluded (verifyInChunks services node call start startFromPosition header st chunks) = _
        rw [hverify]
        rfl

end Accepting

/-! ### Turns -/

section Turns

variable {services : HeaderServices Trie} {node : ProofNode} {call : ProofArguments Trie}
  {numThreads fuel fuel' : ℕ} {outcome outcome' : Except Crash (ProofVerdict Trie)}

/-- More turns do not change an outcome. -/
theorem verifyChainProofMT_mono (hle : fuel ≤ fuel')
    (hrun : verifyChainProofMT services node call numThreads fuel = some outcome) :
    verifyChainProofMT services node call numThreads fuel' = some outcome := by
  unfold verifyChainProofMT at hrun ⊢
  cases hprepare : prepare services node call numThreads with
  | error stop =>
      rw [hprepare] at hrun
      exact hrun
  | ok prepared =>
      rw [hprepare] at hrun
      obtain ⟨chunks, hcut, rfl⟩ := Option.map_eq_some_iff.mp hrun
      dsimp only
      rw [prepareChunks_mono hle hcut]
      rfl

/-- There is at most one outcome. -/
theorem verifyChainProofMT_unique
    (hrun : verifyChainProofMT services node call numThreads fuel = some outcome)
    (hrun' : verifyChainProofMT services node call numThreads fuel' = some outcome') :
    outcome = outcome' := by
  have hmax := verifyChainProofMT_mono (Nat.le_max_left fuel fuel') hrun
  rw [verifyChainProofMT_mono (Nat.le_max_right fuel fuel') hrun'] at hmax
  exact (Option.some.inj hmax).symm

end Turns

end Parallel

end Gridnet
