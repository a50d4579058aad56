import Gridnet.PollWinner
import Gridnet.RightsModel

/-! The entries that stem from polls. The abstract picture is that every poll gives its permission to
its own winner and to nobody else; the code hands the best candidate of each poll on to the next
one. This module says exactly when the two agree. -/

namespace Gridnet

/-- The permission a system poll is about. -/
def AEFlags.permits (flags : AEFlags) : eSystemPollID → Bool
  | .spendingsAcessRightsPoll => flags.mAssets
  | .writeAccessRightsPoll => flags.mWrite
  | .ownershipChangeAccessRightsPoll => flags.mOwnership
  | .executeAccessRightsPoll => flags.mExecute
  | .removalAccessRightsPoll => flags.mRemoval

namespace CSecDescriptor

/-- Some entry of the list gives the permission of the poll `id` to the entity `e`. -/
def Grants (entries : List CAccessEntry) (id : eSystemPollID) (e : Bytes) : Prop :=
  ∃ entry ∈ entries, entry.mSDID = e ∧ entry.mFlags.permits id = true

@[simp] theorem grantDynamic_mSDID (id : eSystemPollID) (entry : CAccessEntry) :
    (grantDynamic id entry).mSDID = entry.mSDID := by
  cases id <;> rfl

/-- A dynamic grant adds the permission of its poll and nothing else. -/
theorem grantDynamic_permits (id id' : eSystemPollID) (entry : CAccessEntry) :
    (grantDynamic id entry).mFlags.permits id' = true ↔
      id' = id ∨ entry.mFlags.permits id' = true := by
  cases id <;> cases id' <;> simp [grantDynamic, AEFlags.permits, CAccessEntry.grantAssets,
    CAccessEntry.grantWrite, CAccessEntry.grantOwnership, CAccessEntry.grantExecute,
    CAccessEntry.grantRemoval, AEFlags.setAssets, AEFlags.setWrite, AEFlags.setOwner,
    AEFlags.setExecute, AEFlags.setRemoval]

/-- A new entry carries no permission but a removal bit the memory had set. -/
theorem construct_permits (memory : AEFlags) (e : Bytes) (id : eSystemPollID) :
    ((CAccessEntry.constructDefault memory e).setIsDynamic true).mFlags.permits id = true ↔
      id = .removalAccessRightsPoll ∧ memory.mRemoval = true := by
  cases id <;> simp [CAccessEntry.constructDefault, CAccessEntry.construct, AEFlags.construct,
    CAccessEntry.setIsDynamic, AEFlags.setIsDynamicEntry, AEFlags.permits]

/-- Who has what after a poll was given to `e`. -/
theorem grants_grantWinner (memory : Memory) (id id' : eSystemPollID) (e e' : Bytes)
    (entries : List CAccessEntry) :
    Grants (grantWinner memory id e entries) id' e' ↔
      Grants entries id' e' ∨ e' = e ∧ (id' = id ∨ id' = .removalAccessRightsPoll ∧
        (memory (some id)).mRemoval = true ∧ ∀ entry ∈ entries, entry.mSDID ≠ e) := by
  unfold grantWinner
  by_cases hfound : ∃ entry ∈ entries, entry.mSDID = e
  · have hany : (entries.any fun entry => entry.mSDID = e) = true := by simpa using hfound
    rw [if_pos hany]
    constructor
    · rintro ⟨entry', hentry', rfl, hpermits⟩
      obtain ⟨entry, hentry, rfl⟩ := List.mem_map.mp hentry'
      by_cases hsame : entry.mSDID = e
      · rw [if_pos hsame, grantDynamic_permits] at hpermits
        rw [if_pos hsame, grantDynamic_mSDID]
        rcases hpermits with hid | hbefore
        · exact Or.inr ⟨hsame, Or.inl hid⟩
        · exact Or.inl ⟨entry, hentry, rfl, hbefore⟩
      · rw [if_neg hsame] at hpermits ⊢
        exact Or.inl ⟨entry, hentry, rfl, hpermits⟩
    · rintro (⟨entry, hentry, rfl, hpermits⟩ | ⟨rfl, rfl | ⟨-, -, hnone⟩⟩)
      · refine ⟨_, List.mem_map_of_mem hentry, ?_, ?_⟩
        · split_ifs <;> simp
        · split_ifs
          · exact (grantDynamic_permits _ _ _).mpr (Or.inr hpermits)
          · exact hpermits
      · obtain ⟨entry, hentry, hsame⟩ := hfound
        refine ⟨_, List.mem_map_of_mem hentry, ?_, ?_⟩
        · rw [if_pos hsame, grantDynamic_mSDID, hsame]
        · rw [if_pos hsame]
          exact (grantDynamic_permits _ _ _).mpr (Or.inl rfl)
      · obtain ⟨entry, hentry, hsame⟩ := hfound
        exact absurd hsame (hnone entry hentry)
  · have hnone : ∀ entry ∈ entries, entry.mSDID ≠ e := fun entry hentry hsame =>
      hfound ⟨entry, hentry, hsame⟩
    have hany : ¬ (entries.any fun entry => entry.mSDID = e) = true := by simpa using hnone
    rw [if_neg hany]
    constructor
    · rintro ⟨entry, hentry, rfl, hpermits⟩
      rcases List.mem_append.mp hentry with hold | hnew
      · exact Or.inl ⟨entry, hold, rfl, hpermits⟩
      · rw [List.mem_singleton] at hnew
        subst hnew
        rw [grantDynamic_permits, construct_permits] at hpermits
        refine Or.inr ⟨grantDynamic_mSDID _ _, ?_⟩
        exact hpermits.imp_right fun hstale => ⟨hstale.1, hstale.2, hnone⟩
    · rintro (⟨entry, hentry, rfl, hpermits⟩ | ⟨rfl, hwhy⟩)
      · exact ⟨entry, List.mem_append_left _ hentry, rfl, hpermits⟩
      · refine ⟨_, List.mem_append_right _ List.mem_cons_self, grantDynamic_mSDID _ _, ?_⟩
        rw [grantDynamic_permits, construct_permits]
        exact hwhy.imp_right fun hstale => ⟨hstale.1, hstale.2.1⟩

/-- Who has an entry after a poll was given to `e`. -/
theorem exists_entry_grantWinner (memory : Memory) (id : eSystemPollID) (e e' : Bytes)
    (entries : List CAccessEntry) :
    (∃ entry ∈ grantWinner memory id e entries, entry.mSDID = e') ↔
      (∃ entry ∈ entries, entry.mSDID = e') ∨ e' = e := by
  unfold grantWinner
  split_ifs with hany
  · have hsame : ∀ entry : CAccessEntry,
        (if entry.mSDID = e then grantDynamic id entry else entry).mSDID = entry.mSDID := by
      intro entry
      split_ifs <;> simp
    have hfound : ∃ entry ∈ entries, entry.mSDID = e := by simpa using hany
    simp only [List.mem_map, exists_exists_and_eq_and, hsame]
    refine ⟨Or.inl, ?_⟩
    rintro (hentry | rfl)
    · exact hentry
    · exact hfound
  · simp only [List.mem_append, List.mem_singleton, or_and_right, exists_or, exists_eq_left,
      grantDynamic_mSDID]
    exact or_congr_right eq_comm

/-- The permissions given away in turn, each to one entity. -/
def give (memory : Memory) (entries : List CAccessEntry) (ds : List (eSystemPollID × Bytes)) :
    List CAccessEntry :=
  ds.foldl (fun entries d => grantWinner memory d.1 d.2 entries) entries

/-- Who has what after permissions were given away in turn: what each was given, and for removal
also who got a new entry on memory that had the bit set. -/
theorem grants_give (memory : Memory) (ds : List (eSystemPollID × Bytes)) (id : eSystemPollID)
    (e : Bytes) (entries : List CAccessEntry) :
    Grants (give memory entries ds) id e ↔
      Grants entries id e ∨ (id, e) ∈ ds ∨ id = .removalAccessRightsPoll ∧
        (∀ entry ∈ entries, entry.mSDID ≠ e) ∧
        ∃ d, ds.find? (fun d => d.2 = e) = some d ∧ (memory (some d.1)).mRemoval = true := by
  induction ds generalizing entries with
  | nil => simp [give]
  | cons d ds ih =>
      obtain ⟨id₁, e₁⟩ := d
      have hentry : (∀ entry ∈ grantWinner memory id₁ e₁ entries, entry.mSDID ≠ e) ↔
          (∀ entry ∈ entries, entry.mSDID ≠ e) ∧ e ≠ e₁ := by
        have hsome := not_congr (exists_entry_grantWinner memory id₁ e₁ e entries)
        simpa only [not_exists, not_and, not_or, ne_eq] using hsome
      rw [give, List.foldl_cons, ← give, ih, grants_grantWinner, hentry]
      by_cases hsame : e₁ = e
      · subst hsame
        rw [List.find?_cons_of_pos (by simp)]
        simp only [List.mem_cons, Prod.mk.injEq, Option.some_inj]
        grind
      · rw [List.find?_cons_of_neg (by simpa using hsame)]
        simp only [List.mem_cons, Prod.mk.injEq]
        grind

variable (pollExt : CPollFileElem) (sdm : Option CStateDomainManager)

/-- What the code decides at the poll `id`: the permission goes to the leader of the polls asked. -/
def decision (best : BestCandidate) (ids : List eSystemPollID) (id : eSystemPollID) :
    Option (eSystemPollID × Bytes) :=
  if pollExt.decided sdm id then some (id, (pollExt.leader sdm best ids id).id) else none

/-- One poll asked: the candidates are scanned, and the permission given away if it decides. -/
theorem askPoll_eq (memory : Memory) (best : BestCandidate) (entries : List CAccessEntry)
    (id : eSystemPollID) :
    askPoll pollExt sdm memory (best, entries) id =
      (pollExt.leader sdm best [id] id, give memory entries (decision pollExt sdm best [id] id).toList) := by
  have hleader : pollExt.leader sdm best [id] id =
      (pollExt.candidates id).foldl (BestScan.keepBest BestCandidate.points (CVoter.standing sdm))
        best := by
    simp [CPollFileElem.leader, CPollFileElem.rivals]
  rw [decision, hleader]
  unfold askPoll CPollFileElem.candidates CPollFileElem.decided
  cases pollExt.getPollWithLocalID id.toID with
  | none => rfl
  | some poll =>
      cases hactive : poll.getFlags.getIsActive with
      | false => simp [hactive, CPollElem.decides, give]
      | true =>
          have hdecides : poll.decides sdm = (poll.checkTrigger sdm best).1 := by
            rw [CPollElem.decides, hactive, Bool.true_and]
            exact poll.checkTrigger_fst sdm {} best
          have hwinner := poll.checkTrigger_snd sdm best
          cases htrigger : (poll.checkTrigger sdm best).1 with
          | false => simp [hactive, hdecides, htrigger, hwinner, give]
          | true => simp [hactive, hdecides, htrigger, hwinner, give]

/-- The polls asked in turn. -/
theorem foldl_askPoll (memory : Memory) {ids : List eSystemPollID} (hids : ids.Nodup)
    (best : BestCandidate) (entries : List CAccessEntry) :
    (ids.foldl (askPoll pollExt sdm memory) (best, entries)).2 =
      give memory entries (ids.filterMap (decision pollExt sdm best ids)) := by
  induction ids generalizing best entries with
  | nil => rfl
  | cons id ids ih =>
      obtain ⟨hfresh, hids⟩ := List.nodup_cons.mp hids
      have hhead : decision pollExt sdm best (id :: ids) id = decision pollExt sdm best [id] id := by
        simp [decision, CPollFileElem.leader, CPollFileElem.rivals]
      have htail : ∀ id' ∈ ids, decision pollExt sdm best (id :: ids) id' =
          decision pollExt sdm (pollExt.leader sdm best [id] id) ids id' := by
        intro id' hid'
        have hne : id ≠ id' := fun hsame => hfresh (hsame ▸ hid')
        simp [decision, CPollFileElem.leader, CPollFileElem.rivals, hne]
      rw [List.foldl_cons, askPoll_eq, ih hids]
      rw [← List.filterMap_congr htail, ← hhead]
      cases hdecision : decision pollExt sdm best (id :: ids) id with
      | none => simp [hdecision, give]
      | some d => simp [hdecision, give]

/-- The dynamic entries of a descriptor, seen as what they grant to whom. -/
theorem grants_dynamic (desc : CSecDescriptor) (hext : desc.mPollExt = some pollExt) (memory : Memory)
    (id : eSystemPollID) (e : Bytes) :
    Grants (desc.getDynamicACEEntries sdm memory) id e ↔
      (id, e) ∈ systemPolls.filterMap (decision pollExt sdm {} systemPolls) ∨
        id = .removalAccessRightsPoll ∧
          ∃ d, (systemPolls.filterMap (decision pollExt sdm {} systemPolls)).find?
            (fun d => d.2 = e) = some d ∧ (memory (some d.1)).mRemoval = true := by
  unfold getDynamicACEEntries
  rw [hext]
  dsimp only
  rw [foldl_askPoll pollExt sdm memory (by decide), grants_give]
  simp [Grants]

/-- The permission of a poll goes to that poll's own winner only. -/
def OnlyOwnWinners (desc : CSecDescriptor) (sdm : Option CStateDomainManager) (memory : Memory) :
    Prop :=
  ∀ id e, Grants (desc.getDynamicACEEntries sdm memory) id e →
    (desc.mPollExt.bind fun pollExt => pollExt.winner sdm id) = some e

/-- The first poll in the order asked that an entity wins; its section constructs the entry. -/
def firstWon (pollExt : CPollFileElem) (sdm : Option CStateDomainManager) (e : Bytes) :
    Option eSystemPollID :=
  systemPolls.find? fun id => pollExt.winner sdm id = some e

/-- Every decided poll has a winner of its own that holds against the polls asked before it, and a
winner whose entry is constructed on memory with the removal bit set is the winner of the removal
poll as well. -/
def WinnersPrevail (desc : CSecDescriptor) (sdm : Option CStateDomainManager) (memory : Memory) :
    Prop :=
  ∀ pollExt, desc.mPollExt = some pollExt →
    (∀ id, pollExt.decided sdm id = true → pollExt.Prevails sdm systemPolls id) ∧
      ∀ e id, firstWon pollExt sdm e = some id → (memory (some id)).mRemoval = true →
        pollExt.winner sdm .removalAccessRightsPoll = some e

variable {pollExt sdm}

/-- Where every winner prevails, the code decides as the polls on their own do. -/
theorem decision_eq_winner
    (hprevail : ∀ id, pollExt.decided sdm id = true → pollExt.Prevails sdm systemPolls id)
    (id : eSystemPollID) :
    decision pollExt sdm {} systemPolls id = (pollExt.winner sdm id).map fun e => (id, e) := by
  unfold decision
  cases hdecided : pollExt.decided sdm id with
  | true =>
      rw [(CPollFileElem.winner_eq_leader_iff hdecided).mpr (hprevail id hdecided)]
      rfl
  | false =>
      cases hwin : pollExt.winner sdm id with
      | none => rfl
      | some e =>
          rw [CPollFileElem.decided_of_winner hwin] at hdecided
          cases hdecided

theorem mem_systemPolls (id : eSystemPollID) : id ∈ systemPolls := by
  cases id <;> decide

/-- Where every winner prevails, the entries grant exactly what the polls on their own decide, but
for the removal bits left over in memory. -/
theorem grants_iff_winner (desc : CSecDescriptor) (hext : desc.mPollExt = some pollExt)
    (memory : Memory)
    (hprevail : ∀ id, pollExt.decided sdm id = true → pollExt.Prevails sdm systemPolls id)
    (id : eSystemPollID) (e : Bytes) :
    Grants (desc.getDynamicACEEntries sdm memory) id e ↔
      pollExt.winner sdm id = some e ∨ id = .removalAccessRightsPoll ∧
        ∃ id', firstWon pollExt sdm e = some id' ∧ (memory (some id')).mRemoval = true := by
  rw [grants_dynamic pollExt sdm desc hext, funext (decision_eq_winner hprevail)]
  refine or_congr ?_ (and_congr_right fun _ => ?_)
  · rw [List.mem_filterMap]
    constructor
    · rintro ⟨id', -, hd⟩
      obtain ⟨e', hwin, hpair⟩ := Option.map_eq_some_iff.mp hd
      cases hpair
      exact hwin
    · intro hwin
      exact ⟨id, mem_systemPolls id, by rw [hwin]; rfl⟩
  · have hfirst : (fun id' => ((pollExt.winner sdm id').map fun e' => (id', e')).any
        fun d => decide (d.2 = e)) = fun id' => decide (pollExt.winner sdm id' = some e) := by
      funext id'
      cases pollExt.winner sdm id' <;> simp
    rw [List.find?_filterMap, hfirst]
    change (∃ d, (firstWon pollExt sdm e).bind _ = some d ∧ _) ↔ _
    cases hwon : firstWon pollExt sdm e with
    | none => simp
    | some id' =>
        have hwin : pollExt.winner sdm id' = some e := by
          simpa using List.find?_some hwon
        simp [hwin]

/-- Only own winners are granted anything exactly when every winner prevails. -/
theorem onlyOwnWinners_iff (desc : CSecDescriptor) (sdm : Option CStateDomainManager)
    (memory : Memory) : desc.OnlyOwnWinners sdm memory ↔ desc.WinnersPrevail sdm memory := by
  cases hext : desc.mPollExt with
  | none => simp [OnlyOwnWinners, WinnersPrevail, getDynamicACEEntries, hext, Grants]
  | some pollExt =>
      unfold OnlyOwnWinners WinnersPrevail
      simp only [hext, Option.bind_some, Option.some_inj, forall_eq']
      constructor
      · intro hown
        have hprevail : ∀ id, pollExt.decided sdm id = true → pollExt.Prevails sdm systemPolls id := by
          intro id hdecided
          apply (CPollFileElem.winner_eq_leader_iff hdecided).mp
          apply hown id
          apply (grants_dynamic pollExt sdm desc hext memory id _).mpr
          exact Or.inl (List.mem_filterMap.mpr ⟨id, mem_systemPolls id, if_pos hdecided⟩)
        refine ⟨hprevail, fun e id hwon hbit => hown _ e ?_⟩
        exact (grants_iff_winner desc hext memory hprevail _ e).mpr (Or.inr ⟨rfl, id, hwon, hbit⟩)
      · rintro ⟨hprevail, hclear⟩ id e hgrants
        rcases (grants_iff_winner desc hext memory hprevail id e).mp hgrants with
          hwin | ⟨rfl, id', hwon, hbit⟩
        · exact hwin
        · exact hclear e id' hwon hbit

/-- Where every winner prevails, a permission goes to an entity exactly when that entity wins the
poll for it. -/
theorem WinnersPrevail.grants_iff {desc : CSecDescriptor} {memory : Memory}
    (hprevail : desc.WinnersPrevail sdm memory) (id : eSystemPollID) (e : Bytes) :
    Grants (desc.getDynamicACEEntries sdm memory) id e ↔
      (desc.mPollExt.bind fun pollExt => pollExt.winner sdm id) = some e := by
  refine ⟨(onlyOwnWinners_iff desc sdm memory).mpr hprevail id e, fun hwin => ?_⟩
  obtain ⟨pollExt, hext, hwin⟩ := Option.bind_eq_some_iff.mp hwin
  exact (grants_iff_winner desc hext memory (hprevail pollExt hext).1 id e).mpr (Or.inl hwin)

/-- Two descriptors whose system poll `id` is the same poll; what else they hold, the votes cast in
the other polls in particular, is their own. -/
def SamePoll (desc desc' : CSecDescriptor) (id : eSystemPollID) : Prop :=
  (desc.mPollExt.bind fun pollExt => pollExt.getPollWithLocalID id.toID) =
    desc'.mPollExt.bind fun pollExt => pollExt.getPollWithLocalID id.toID

theorem SamePoll.winner_eq {desc desc' : CSecDescriptor} {id : eSystemPollID}
    (hsame : SamePoll desc desc' id) :
    (desc.mPollExt.bind fun pollExt => pollExt.winner sdm id) =
      desc'.mPollExt.bind fun pollExt => pollExt.winner sdm id := by
  have hwinner : ∀ desc : CSecDescriptor, (desc.mPollExt.bind fun pollExt => pollExt.winner sdm id) =
      ((desc.mPollExt.bind fun pollExt => pollExt.getPollWithLocalID id.toID).bind fun poll =>
        poll.ownWinner sdm).map CVoter.mID := by
    intro desc
    cases desc.mPollExt <;> rfl
  rw [hwinner desc, hwinner desc', hsame]

/-- In two evaluations that share the poll `id`, permissions go to own winners only and that of `id`
goes to the same entities, exactly when every winner of the two prevails. -/
theorem permission_of_own_winner_iff (id : eSystemPollID) (desc desc' : CSecDescriptor)
    (sdm : Option CStateDomainManager) (memory memory' : Memory)
    (hsame : SamePoll desc desc' id) :
    (desc.OnlyOwnWinners sdm memory ∧ desc'.OnlyOwnWinners sdm memory' ∧
      ∀ e, Grants (desc.getDynamicACEEntries sdm memory) id e ↔
        Grants (desc'.getDynamicACEEntries sdm memory') id e) ↔
      desc.WinnersPrevail sdm memory ∧ desc'.WinnersPrevail sdm memory' := by
  rw [onlyOwnWinners_iff, onlyOwnWinners_iff]
  constructor
  · rintro ⟨hprevail, hprevail', -⟩
    exact ⟨hprevail, hprevail'⟩
  · rintro ⟨hprevail, hprevail'⟩
    refine ⟨hprevail, hprevail', fun e => ?_⟩
    rw [hprevail.grants_iff, hprevail'.grants_iff, hsame.winner_eq]

/-- A spendings poll with the candidate 1 and a write poll with one other candidate, both active. -/
def twoPolls (writer : Bytes) : CSecDescriptor :=
  { mPollExt := some { mPolls := [
      { mLocalPollElemID := eSystemPollID.spendingsAcessRightsPoll.toID, mRequiredScoring := 1,
        mFlags := { mActive := true }, mVoters := [{ mID := [1] }] },
      { mLocalPollElemID := eSystemPollID.writeAccessRightsPoll.toID, mRequiredScoring := 1,
        mFlags := { mActive := true }, mVoters := [{ mID := writer }] }] } }

/-- The candidate 1 has a stake of 10, everybody else one of 5. -/
def tenAgainstFive : CStateDomainManager := fun id => some (if id = [1] then 10 else 5)

theorem permission_of_own_winner_iff_two_polls :
    ((twoPolls [2]).OnlyOwnWinners (some tenAgainstFive) (fun _ => {}) ∧
      (twoPolls [3]).OnlyOwnWinners (some tenAgainstFive) (fun _ => {}) ∧
      ∀ e, Grants ((twoPolls [2]).getDynamicACEEntries (some tenAgainstFive) fun _ => {})
          .spendingsAcessRightsPoll e ↔
        Grants ((twoPolls [3]).getDynamicACEEntries (some tenAgainstFive) fun _ => {})
          .spendingsAcessRightsPoll e) ↔
      (twoPolls [2]).WinnersPrevail (some tenAgainstFive) (fun _ => {}) ∧
        (twoPolls [3]).WinnersPrevail (some tenAgainstFive) (fun _ => {}) :=
  permission_of_own_winner_iff .spendingsAcessRightsPoll (twoPolls [2]) (twoPolls [3])
    (some tenAgainstFive) (fun _ => {}) (fun _ => {}) rfl

/-- The write permission goes to the winner of the spendings poll, who has no vote in the write
poll. -/
theorem write_granted_to_spendings_winner :
    ¬ ∀ (desc : CSecDescriptor) (sdm : Option CStateDomainManager) (memory : Memory),
      desc.OnlyOwnWinners sdm memory := by
  intro hall
  have hgrants : Grants ((twoPolls [2]).getDynamicACEEntries (some tenAgainstFive) fun _ => {})
      .writeAccessRightsPoll [1] := ⟨_, List.mem_cons_self, by decide, by decide⟩
  have hwinner := hall (twoPolls [2]) (some tenAgainstFive) (fun _ => {}) _ _ hgrants
  revert hwinner
  decide

end CSecDescriptor
end Gridnet
