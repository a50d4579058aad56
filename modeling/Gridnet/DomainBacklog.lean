import Mathlib.Data.List.DropRight
import Gridnet.DomainBodies

/-! The backlog of a state domain: the IDs of its previous bodies, each with a perspective. Pruning drops the oldest
entries, but what it deletes from solid storage is the body the domain has, and an ID is searched for in backlogs of
32 entries alone, where all but itself count as it. -/

namespace Gridnet

/-- What `CSolidStorage` deletes nodes by. The status is that of RocksDB under the key of the node. -/
structure CSolidStorage where
  mAbortAllWrites : Bool := false
  Delete : Bytes → Bool := fun _ => true

/-- The result, and the nodes that were deleted. -/
def CSolidStorage.deleteNode (storage : CSolidStorage) (nodeID : Bytes) : Bool × List Bytes :=
  if storage.mAbortAllWrites then (true, [])
  else if storage.Delete nodeID then (true, [nodeID])
  else (false, [])

/-- `deleteDomainBody` of `CStateDomainManager`. -/
def CSolidStorage.deleteDomainBody (storage : CSolidStorage) (bodyHash : Bytes) : Bool × List Bytes :=
  if bodyHash.length ≠ 32 then (false, []) else storage.deleteNode bodyHash

/-- `getHash` of the nodes that state domains are. The fields that `prepare` leaves out of the hash do not matter. -/
structure DomainHash (codec : DerCodec) where
  getHash : DomainBody → Bytes
  getHash_congr : ∀ d d' : DomainBody, d.packedAccountData codec true = d'.packedAccountData codec true →
    getHash d = getHash d'

/-- A domain after an update of its backlog, with the number returned and the bodies deleted from solid storage. -/
structure BacklogUpdate where
  domain : DomainBody
  deletedBodiesCount : ℕ := 0
  deletedBodies : List Bytes := []

namespace DomainBody

variable {codec : DerCodec} (hash : DomainHash codec) (storage : CSolidStorage) (limit : ℕ)

/-- The loop of the pruning over the IDs there are; `none` where a deletion fails, which is asserted. -/
def dropBodies (d : DomainBody) : List Bytes32 → Option BacklogUpdate
  | [] => some { domain := { d with mPreviousBodyIDs := [] } }
  | id :: ids =>
      if (id :: ids).length > limit then
        let d := { d with mPreviousBodyIDs := ids }
        match storage.deleteDomainBody (hash.getHash d) with
        | (false, _) => none
        | (true, deleted) => (dropBodies d ids).map fun update =>
            { update with
              deletedBodiesCount := update.deletedBodiesCount + 1
              deletedBodies := deleted ++ update.deletedBodies }
      else some { domain := { d with mPreviousBodyIDs := id :: ids } }

def pruneBacklog (d : DomainBody) : Option BacklogUpdate :=
  (dropBodies hash storage limit d d.mPreviousBodyIDs).map fun update =>
    if update.deletedBodiesCount > 0 then
      { update with
        domain := { update.domain with
          mPreviousPerspectives := update.domain.mPreviousPerspectives.drop update.deletedBodiesCount } }
    else update

def markModified (d : DomainBody) : DomainBody :=
  if d.mInFlow then { d with mWasAlreadyModifiedInFlow := true } else d

/-- The loop that looks for the ID returns at the first entry that is not it. -/
def refuses (d : DomainBody) (id : Bytes) : Bool :=
  d.mPreviousBodyIDs.any fun entry => d.mPreviousBodyIDs.length = 32 ∧ entry.val ≠ id

def pushEntry (d : DomainBody) (id : Bytes32) (perspective : Bytes) : DomainBody :=
  { d with
    mPreviousBodyIDs := d.mPreviousBodyIDs ++ [id]
    mPreviousPerspectives := d.mPreviousPerspectives ++ [perspective] }

def addPreviousBodyID (d : DomainBody) (id perspective : Bytes) (doColdStorageCleanUp : Bool) :
    Option BacklogUpdate :=
  if hid : id.length = 32 then
    if d.refuses id then some { domain := d }
    else
      let d := (d.pushEntry ⟨id, hid⟩ perspective).invalidateNode
      (if doColdStorageCleanUp then d.pruneBacklog hash storage limit else some { domain := d }).map
        fun update => { update with domain := update.domain.markModified }
  else some { domain := d }

/-! ### What pruning does -/

variable {hash storage limit} {d : DomainBody}

theorem refuses_iff {id : Bytes32} :
    d.refuses id.val = true ↔ d.mPreviousBodyIDs.length = 32 ∧ ∃ entry ∈ d.mPreviousBodyIDs, entry ≠ id := by
  simp only [refuses, List.any_eq_true, decide_eq_true_eq, ne_eq, Subtype.val_inj]
  tauto

/-- Nothing but the node of the hash is deleted. -/
theorem mem_of_deleteDomainBody {bodyHash body : Bytes} (hbody : body ∈ (storage.deleteDomainBody bodyHash).2) :
    body = bodyHash := by
  unfold CSolidStorage.deleteDomainBody CSolidStorage.deleteNode at hbody
  split_ifs at hbody
  · cases hbody
  · cases hbody
  · exact List.mem_singleton.mp hbody
  · cases hbody

theorem dropBodies_of_le {ids : List Bytes32} (hlength : ids.length ≤ limit) :
    dropBodies hash storage limit d ids = some { domain := { d with mPreviousBodyIDs := ids } } := by
  cases ids with
  | nil => rfl
  | cons id ids => rw [dropBodies, if_neg (Nat.not_lt.mpr hlength)]

/-- The oldest IDs are dropped, and as often the body that the domain has is deleted. -/
theorem dropBodies_eq_some {ids : List Bytes32} {update : BacklogUpdate}
    (hdrop : dropBodies hash storage limit d ids = some update) :
    update.domain = { d with mPreviousBodyIDs := ids.rtake limit } ∧
      update.deletedBodiesCount = ids.length - limit ∧ ∀ body ∈ update.deletedBodies, body = hash.getHash d := by
  induction ids generalizing d update with
  | nil =>
      obtain rfl := Option.some.inj hdrop
      exact ⟨by rw [List.rtake_nil], (Nat.zero_sub _).symm, List.forall_mem_nil _⟩
  | cons id ids ih =>
      rw [dropBodies] at hdrop
      split_ifs at hdrop with hlong
      · have hsame : hash.getHash { d with mPreviousBodyIDs := ids } = hash.getHash d := hash.getHash_congr _ _ rfl
        have hdropped : (id :: ids).length - limit = ids.length - limit + 1 := by
          rw [List.length_cons] at hlong ⊢
          omega
        dsimp only at hdrop
        split at hdrop
        case h_1 => cases hdrop
        case h_2 deleted hdelete =>
          obtain ⟨rest, hrest, rfl⟩ := Option.map_eq_some_iff.mp hdrop
          obtain ⟨hdomain, hcount, hbodies⟩ := ih hrest
          refine ⟨?_, by rw [hdropped, hcount], ?_⟩
          · rw [hdomain, List.rtake, List.rtake, hdropped, List.drop_succ_cons]
          · intro body hbody
            rcases List.mem_append.mp hbody with hhere | hthere
            · rw [show deleted = (true, deleted).2 from rfl, ← hdelete] at hhere
              exact (mem_of_deleteDomainBody hhere).trans hsame
            · exact (hbodies body hthere).trans hsame
      · obtain rfl := Option.some.inj hdrop
        have hshort : (id :: ids).length - limit = 0 := Nat.sub_eq_zero_of_le (Nat.not_lt.mp hlong)
        refine ⟨?_, hshort.symm, List.forall_mem_nil _⟩
        rw [List.rtake, hshort, List.drop_zero]

/-- Pruning keeps the newest entries. All that it deletes is the body of the domain. -/
theorem pruneBacklog_eq_some {update : BacklogUpdate} (hprune : d.pruneBacklog hash storage limit = some update) :
    update.domain = { d with
        mPreviousBodyIDs := d.mPreviousBodyIDs.rtake limit
        mPreviousPerspectives := d.mPreviousPerspectives.drop (d.mPreviousBodyIDs.length - limit) } ∧
      update.deletedBodiesCount = d.mPreviousBodyIDs.length - limit ∧
      ∀ body ∈ update.deletedBodies, body = hash.getHash d := by
  obtain ⟨dropped, hdrop, rfl⟩ := Option.map_eq_some_iff.mp hprune
  obtain ⟨hdomain, hcount, hbodies⟩ := dropBodies_eq_some hdrop
  split_ifs with hany
  · exact ⟨by rw [hdomain, hcount], hcount, hbodies⟩
  · have hzero : d.mPreviousBodyIDs.length - limit = 0 := by omega
    exact ⟨by rw [hdomain, hzero, List.drop_zero], hcount, hbodies⟩

theorem pruneBacklog_of_le (hlength : d.mPreviousBodyIDs.length ≤ limit) :
    d.pruneBacklog hash storage limit = some { domain := d } := by
  rw [pruneBacklog, dropBodies_of_le hlength, Option.map_some, if_neg (lt_irrefl 0)]

@[simp]
theorem markModified_mPreviousBodyIDs : d.markModified.mPreviousBodyIDs = d.mPreviousBodyIDs := by
  unfold markModified
  split_ifs <;> rfl

@[simp]
theorem markModified_mPreviousPerspectives : d.markModified.mPreviousPerspectives = d.mPreviousPerspectives := by
  unfold markModified
  split_ifs <;> rfl

theorem packedAccountData_markModified (preparehashOnly : Bool) :
    d.markModified.packedAccountData codec preparehashOnly = d.packedAccountData codec preparehashOnly := by
  unfold markModified
  split_ifs <;> rfl

theorem addPreviousBodyID_of_refuses {id : Bytes32} (hrefuses : d.refuses id.val = true) (perspective : Bytes)
    (doColdStorageCleanUp : Bool) :
    d.addPreviousBodyID hash storage limit id.val perspective doColdStorageCleanUp = some { domain := d } := by
  rw [addPreviousBodyID, dif_pos id.property, if_pos hrefuses]

theorem addPreviousBodyID_of_not_refuses {id : Bytes32} (hrefuses : ¬ d.refuses id.val = true)
    (perspective : Bytes) :
    d.addPreviousBodyID hash storage limit id.val perspective true =
      ((d.pushEntry id perspective).invalidateNode.pruneBacklog hash storage limit).map fun update =>
        { update with domain := update.domain.markModified } := by
  rw [addPreviousBodyID, dif_pos id.property, if_neg hrefuses]
  rfl

/-- What comes of an entry that is added. -/
theorem addPreviousBodyID_eq_some {id : Bytes32} {perspective : Bytes} {update : BacklogUpdate}
    (hrefuses : ¬ d.refuses id.val = true)
    (hadd : d.addPreviousBodyID hash storage limit id.val perspective true = some update) :
    update.domain = markModified { d with
        mPreviousBodyIDs := (d.mPreviousBodyIDs ++ [id]).rtake limit
        mPreviousPerspectives := (d.mPreviousPerspectives ++ [perspective]).drop
          (d.mPreviousBodyIDs.length + 1 - limit)
        mIsPrepared := false
        mPreComputedHash := [] } ∧
      update.deletedBodiesCount = d.mPreviousBodyIDs.length + 1 - limit ∧
      ∀ body ∈ update.deletedBodies, body = hash.getHash update.domain := by
  rw [addPreviousBodyID_of_not_refuses hrefuses] at hadd
  obtain ⟨pruned, hprune, rfl⟩ := Option.map_eq_some_iff.mp hadd
  obtain ⟨hdomain, hcount, hbodies⟩ := pruneBacklog_eq_some hprune
  have hlength : (d.pushEntry id perspective).invalidateNode.mPreviousBodyIDs.length =
      d.mPreviousBodyIDs.length + 1 := List.length_append
  refine ⟨?_, by rw [hcount, hlength], ?_⟩
  · rw [hdomain, hlength]
    rfl
  · intro body hbody
    rw [hbodies body hbody]
    apply hash.getHash_congr
    rw [packedAccountData_markModified, hdomain]
    rfl

/-! ### Pruning as it should be -/

/-- The newest entries are left of those there were and the new one, and what was deleted is the bodies of the
others. -/
structure Pruned (hash : DomainHash codec) (limit : ℕ) (d : DomainBody) (id : Bytes32) (perspective : Bytes)
    (update : BacklogUpdate) : Prop where
  bodyIDs : update.domain.mPreviousBodyIDs = (d.mPreviousBodyIDs ++ [id]).rtake limit
  perspectives : update.domain.mPreviousPerspectives = (d.mPreviousPerspectives ++ [perspective]).rtake limit
  lengths : update.domain.mPreviousBodyIDs.length = update.domain.mPreviousPerspectives.length
  count : update.deletedBodiesCount = ((d.mPreviousBodyIDs ++ [id]).rdrop limit).length
  deleted : ∀ body, body ∈ update.deletedBodies ↔
    ∃ dropped ∈ (d.mPreviousBodyIDs ++ [id]).rdrop limit, dropped.val = body
  current : hash.getHash update.domain ∉ update.deletedBodies

/-- A new ID is added and the backlog pruned; for one that is there already nothing changes. -/
def PrunesOldest (hash : DomainHash codec) (storage : CSolidStorage) (limit : ℕ) (d : DomainBody) (id : Bytes32)
    (perspective : Bytes) : Prop :=
  ∃ update, d.addPreviousBodyID hash storage limit id.val perspective true = some update ∧
    if id ∈ d.mPreviousBodyIDs then
      update.domain = d ∧ update.deletedBodiesCount = 0 ∧ update.deletedBodies = []
    else Pruned hash limit d id perspective update

/-- An ID that is there already is refused exactly by a backlog of 32 entries with another one. -/
theorem prunesOldest_iff_of_mem {id : Bytes32} (hmem : id ∈ d.mPreviousBodyIDs) (perspective : Bytes) :
    PrunesOldest hash storage limit d id perspective ↔
      d.mPreviousBodyIDs.length = 32 ∧ ∃ entry ∈ d.mPreviousBodyIDs, entry ≠ id := by
  rw [← refuses_iff]
  unfold PrunesOldest
  simp only [if_pos hmem]
  constructor
  · rintro ⟨update, hadd, hdomain, hcount, -⟩
    by_contra hrefuses
    obtain ⟨hupdate, hdropped, -⟩ := addPreviousBodyID_eq_some hrefuses hadd
    have hids := congrArg mPreviousBodyIDs hupdate
    have hlonger : (d.mPreviousBodyIDs ++ [id]).length = d.mPreviousBodyIDs.length + 1 := List.length_append
    have hnone : (d.mPreviousBodyIDs ++ [id]).length - limit = 0 := by omega
    rw [hdomain, markModified_mPreviousBodyIDs] at hids
    dsimp only at hids
    rw [List.rtake, hnone, List.drop_zero] at hids
    have hlengths := congrArg List.length hids
    omega
  · intro hrefuses
    exact ⟨_, addPreviousBodyID_of_refuses hrefuses perspective true, rfl, rfl, rfl⟩

/-- A new ID is added and the backlog pruned exactly if there is nothing to prune, in a backlog of another length
than that at which every new ID is refused. -/
theorem prunesOldest_iff_of_not_mem {id : Bytes32} (hmem : id ∉ d.mPreviousBodyIDs) (perspective : Bytes)
    (hlengths : d.mPreviousBodyIDs.length = d.mPreviousPerspectives.length) :
    PrunesOldest hash storage limit d id perspective ↔
      d.mPreviousBodyIDs.length ≠ 32 ∧ d.mPreviousBodyIDs.length < limit := by
  unfold PrunesOldest
  simp only [if_neg hmem]
  have hlonger : (d.mPreviousBodyIDs ++ [id]).length = d.mPreviousBodyIDs.length + 1 := List.length_append
  constructor
  · rintro ⟨update, hadd, hpruned⟩
    have hrefuses : ¬ d.refuses id.val = true := by
      intro hrefuses
      rw [addPreviousBodyID_of_refuses hrefuses] at hadd
      obtain rfl := Option.some.inj hadd
      have hids := hpruned.bodyIDs
      cases limit with
      | zero =>
          rw [List.rtake_zero] at hids
          rw [refuses, hids] at hrefuses
          cases hrefuses
      | succ limit =>
          rw [List.rtake_concat_succ] at hids
          apply hmem
          rw [hids]
          exact List.mem_append_right _ (List.mem_singleton_self id)
    refine ⟨?_, ?_⟩
    · intro hlength
      apply hrefuses
      have hpos : 0 < d.mPreviousBodyIDs.length := by omega
      obtain ⟨entry, hentry⟩ := List.exists_mem_of_length_pos hpos
      exact refuses_iff.mpr ⟨hlength, entry, hentry, fun heq => hmem (heq ▸ hentry)⟩
    · by_contra hfull
      obtain ⟨-, -, hbodies⟩ := addPreviousBodyID_eq_some hrefuses hadd
      have hdrops : 0 < ((d.mPreviousBodyIDs ++ [id]).rdrop limit).length := by
        rw [List.rdrop, List.length_take]
        omega
      obtain ⟨dropped, hdropped⟩ := List.exists_mem_of_length_pos hdrops
      have hdeleted := (hpruned.deleted dropped.val).mpr ⟨dropped, hdropped, rfl⟩
      apply hpruned.current
      rw [← hbodies _ hdeleted]
      exact hdeleted
  · rintro ⟨hlength, hroom⟩
    have hrefuses : ¬ d.refuses id.val = true := fun hrefuses => hlength (refuses_iff.mp hrefuses).1
    have hnone : (d.mPreviousBodyIDs ++ [id]).length - limit = 0 := by omega
    have hnoneToo : (d.mPreviousPerspectives ++ [perspective]).length - limit = 0 := by
      rw [List.length_append, ← hlengths, List.length_singleton]
      omega
    have hfits : (d.pushEntry id perspective).invalidateNode.mPreviousBodyIDs.length ≤ limit :=
      Nat.le_of_sub_eq_zero hnone
    refine ⟨_, by rw [addPreviousBodyID_of_not_refuses hrefuses, pruneBacklog_of_le hfits, Option.map_some], ?_⟩
    have hdropped : (d.mPreviousBodyIDs ++ [id]).rdrop limit = [] := by rw [List.rdrop, hnone, List.take_zero]
    constructor
    · rw [List.rtake, hnone, markModified_mPreviousBodyIDs]
      rfl
    · rw [List.rtake, hnoneToo, markModified_mPreviousPerspectives]
      rfl
    · rw [markModified_mPreviousBodyIDs, markModified_mPreviousPerspectives]
      change (d.mPreviousBodyIDs ++ [id]).length = (d.mPreviousPerspectives ++ [perspective]).length
      rw [List.length_append, List.length_append, hlengths]
      rfl
    · rw [hdropped]
      rfl
    · intro body
      rw [hdropped]
      simp
    · exact List.not_mem_nil

/-- Exactly when the backlog of a domain is kept as it should be. -/
theorem prunesOldest_iff (hash : DomainHash codec) (storage : CSolidStorage) (limit : ℕ) (d : DomainBody)
    (id : Bytes32) (perspective : Bytes)
    (hlengths : d.mPreviousBodyIDs.length = d.mPreviousPerspectives.length) :
    PrunesOldest hash storage limit d id perspective ↔
      if id ∈ d.mPreviousBodyIDs then
        d.mPreviousBodyIDs.length = 32 ∧ ∃ entry ∈ d.mPreviousBodyIDs, entry ≠ id
      else d.mPreviousBodyIDs.length ≠ 32 ∧ d.mPreviousBodyIDs.length < limit := by
  split_ifs with hmem
  · exact prunesOldest_iff_of_mem hmem perspective
  · exact prunesOldest_iff_of_not_mem hmem perspective hlengths

/-- A backlog of 32 entries that are not all the same takes no other one. -/
theorem refuses_of_full (hlength : d.mPreviousBodyIDs.length = 32) {first second : Bytes32}
    (hfirst : first ∈ d.mPreviousBodyIDs) (hsecond : second ∈ d.mPreviousBodyIDs) (hne : first ≠ second)
    (id : Bytes32) : d.refuses id.val = true := by
  rw [refuses_iff]
  refine ⟨hlength, ?_⟩
  by_cases heq : first = id
  · exact ⟨second, hsecond, fun hother => hne (heq.trans hother.symm)⟩
  · exact ⟨first, hfirst, heq⟩

/-- Whatever is added to such a backlog from then on, the domain stays as it is. -/
theorem backlog_frozen (hlength : d.mPreviousBodyIDs.length = 32) {first second : Bytes32}
    (hfirst : first ∈ d.mPreviousBodyIDs) (hsecond : second ∈ d.mPreviousBodyIDs) (hne : first ≠ second)
    (entries : List (Bytes32 × Bytes)) :
    entries.foldlM (fun d entry =>
      (addPreviousBodyID hash storage limit d entry.1.val entry.2 true).map BacklogUpdate.domain) d = some d := by
  induction entries with
  | nil => rfl
  | cons entry entries ih =>
      have hrefuses := refuses_of_full hlength hfirst hsecond hne entry.1
      rw [List.foldlM_cons, addPreviousBodyID_of_refuses hrefuses, Option.map_some]
      exact ih

end DomainBody

/-- The hash of a domain as `prepare` leaves it. -/
def DomainHash.prepared (codec : DerCodec) : DomainHash codec where
  getHash d := (d.prepare codec (fun data => (sha256 data).val) true true).mPreComputedHash
  getHash_congr d d' hpacked := by
    simp [DomainBody.prepare, hpacked]

namespace DomainBody

/-- The second entry of a backlog. -/
theorem prunesOldest_oneBody :
    PrunesOldest (.prepared .standard) {} 3 (oneBody 3) ⟨List.replicate 32 2, rfl⟩ (List.replicate 32 2) :=
  (prunesOldest_iff (.prepared .standard) {} 3 (oneBody 3) ⟨List.replicate 32 2, rfl⟩ (List.replicate 32 2) rfl).mpr
    (by decide)

/-- What is deleted for the entry that a full backlog drops is the body of the domain. -/
theorem current_body_deleted :
    ¬ ∀ (storage : CSolidStorage) (limit : ℕ) (d : DomainBody) (id : Bytes32) (perspective : Bytes),
      d.mPreviousBodyIDs.length = d.mPreviousPerspectives.length →
        PrunesOldest (.prepared .standard) storage limit d id perspective := by
  intro hprunes
  let id : Bytes32 := ⟨List.replicate 32 2, rfl⟩
  have hmem : id ∉ (oneBody 3).mPreviousBodyIDs := by decide
  have hroom := (prunesOldest_iff_of_not_mem hmem [] rfl).mp (hprunes {} 1 (oneBody 3) id [] rfl)
  exact absurd hroom.2 (lt_irrefl 1)

end DomainBody
end Gridnet
