import Gridnet.ObjectLists
import Gridnet.RightsModel

/-! The permissions a new object inherits in `saveValueDB`. Descriptors, poll extensions, polls and access entries are
objects behind shared pointers; a voter belongs to one poll and stands in it. An object over pointers is one in memory,
an object over what they point to is one that is read. -/

namespace Gridnet

open ObjectLists

def PollElemFlags.setFired (flags : PollElemFlags) (didIt : Bool) : PollElemFlags := { flags with mFired := didIt }

def PollElemFlags.setWasInherited (flags : PollElemFlags) (wasIt : Bool) : PollElemFlags :=
  { flags with mInherited := wasIt }

/-- A poll; the weak pointer to the element that holds it, or whether it is to that element. -/
structure PollObject (Holder : Type) where
  mNeedsProcessing : Bool := false
  mExclusiveGroupID : UInt64 := 0
  mVersion : UInt64 := 1
  mLocalPollElemID : UInt64 := 0
  mDescription : Bytes := []
  mRequiredScoring : BigInt := 0
  mFlags : PollElemFlags := {}
  mVoters : List CVoter := []
  mFileElem : Holder
  deriving DecidableEq

/-- The element that holds the polls of an object. -/
structure PollFileObject (Poll : Type) where
  mFlags : UInt8 := 0
  mVersion : UInt64 := 1
  mPolls : List Poll := []
  deriving DecidableEq

structure DescriptorObject (PollExt Entry : Type) where
  mVersion : UInt64 := 3
  mPollExt : Option PollExt := none
  mFlags : CRTFlags := {}
  mImplicitOwner : Bytes := []
  mOwner : Bytes := []
  mExtensionBytes : Bytes := []
  mAccessEntries : List Entry := []
  deriving DecidableEq

/-- A poll, the polls and a descriptor as they are read. -/
abbrev Poll := PollObject Bool
abbrev PollFile := PollFileObject Poll
abbrev Descriptor := DescriptorObject PollFile CAccessEntry

/-- The objects shared pointers are to. -/
structure SharedObjects where
  polls : List (PollObject (Option Addr)) := []
  files : List (PollFileObject Addr) := []
  entries : List CAccessEntry := []
  descriptors : List (DescriptorObject Addr Addr) := []

/-! ### The code -/

namespace PollObject

variable {Holder : Type}

def reset (poll : PollObject Holder) : PollObject Holder :=
  { poll with mVoters := [], mFlags := poll.mFlags.setFired false }

def setFlags (poll : PollObject Holder) (flags : PollElemFlags) : PollObject Holder := { poll with mFlags := flags }

/-- The flags of a poll are taken, marked and set again. -/
def markInherited (poll : PollObject Holder) : PollObject Holder :=
  poll.setFlags (poll.mFlags.setWasInherited true)

end PollObject

namespace SharedObjects

/-- `CPollFileElem(const CPollFileElem &)`: the polls are copied, with the weak pointers they have; the flags of the
element are left as they are constructed. -/
def copyPollFileElem (mem : SharedObjects) (t : Addr) : Option (SharedObjects × Addr) := do
  let elem ← mem.files[t]?
  let (polls, mPolls) ← copyAll mem.polls elem.mPolls
  let (files, copy) := construct mem.files { mVersion := elem.mVersion, mPolls := mPolls }
  some ({ mem with polls := polls, files := files }, copy)

/-- `CSecDescriptor(std::shared_ptr<CSecDescriptor>)` on a pointer that is set: the entries stay shared. -/
def copySecDescriptor (mem : SharedObjects) (sibling : Addr) : Option (SharedObjects × Addr) := do
  let desc ← mem.descriptors[sibling]?
  match desc.mPollExt with
  | none =>
      let (descriptors, copy) := construct mem.descriptors desc
      some ({ mem with descriptors := descriptors }, copy)
  | some t =>
      let (mem, mPollExt) ← mem.copyPollFileElem t
      let (descriptors, copy) := construct mem.descriptors { desc with mPollExt := some mPollExt }
      some ({ mem with descriptors := descriptors }, copy)

/-- An update of the polls of an element, one after the other. -/
def modifyPolls (mem : SharedObjects) (elem : Addr)
    (f : PollObject (Option Addr) → PollObject (Option Addr)) : Option SharedObjects := do
  let file ← mem.files[elem]?
  some { mem with polls := modifyAll f file.mPolls mem.polls }

def resetPollsState (mem : SharedObjects) (elem : Addr) : Option SharedObjects :=
  mem.modifyPolls elem PollObject.reset

def setPollExt (mem : SharedObjects) (desc : Addr) (pollExt : Option Addr) : SharedObjects :=
  { mem with descriptors := mem.descriptors.modify desc fun desc => { desc with mPollExt := pollExt } }

/-- The descriptor `saveValueDB` saves a value with: the one it is given, else one inherited from that of the
directory. `none` for a pointer to no object. -/
def applySecDescriptor (mem : SharedObjects) (parentToken secDescriptor : Option Addr) (inheritPermissions : Bool) :
    Option (SharedObjects × Option Addr) :=
  match secDescriptor, inheritPermissions, parentToken with
  | some secDescriptor, _, _ => some (mem, some secDescriptor)
  | none, false, _ => some (mem, none)
  | none, true, none => some (mem, none)
  | none, true, some parentToken => do
      let (mem, secDescriptor) ← mem.copySecDescriptor parentToken
      let desc ← mem.descriptors[secDescriptor]?
      match desc.mPollExt with
      | none => some (mem, some secDescriptor)
      | some pollExt =>
          let (mem, pollExtNew) ← mem.copyPollFileElem pollExt
          let mem ← mem.resetPollsState pollExtNew
          -- the new element is set in the descriptor of the parent
          let mem := mem.setPollExt parentToken (some pollExtNew)
          let mem ← mem.modifyPolls pollExtNew PollObject.markInherited
          some (mem, some secDescriptor)

/-! ### What is read -/

/-- A poll of the element at `holder`; `none` where its weak pointer is to nothing that was ever constructed. -/
def viewPoll (mem : SharedObjects) (holder : Addr) (poll : PollObject (Option Addr)) : Option Poll :=
  match poll.mFileElem with
  | none => some { poll with mFileElem := false }
  | some elem => (mem.files[elem]?).map fun _ => { poll with mFileElem := elem = holder }

def readPollFile (mem : SharedObjects) (elem : Addr) : Option PollFile := do
  let file ← mem.files[elem]?
  let mPolls ← file.mPolls.mapM fun poll => (mem.polls[poll]?).bind (mem.viewPoll elem)
  some { file with mPolls := mPolls }

/-- The extension behind the pointer of a descriptor. -/
def viewPollExt (mem : SharedObjects) (pollExt : Option Addr) : Option (Option PollFile) :=
  pollExt.elim (some none) fun elem => (mem.readPollFile elem).map some

def viewDescriptor (mem : SharedObjects) (desc : DescriptorObject Addr Addr) : Option Descriptor := do
  let mPollExt ← mem.viewPollExt desc.mPollExt
  let mAccessEntries ← desc.mAccessEntries.mapM fun entry => mem.entries[entry]?
  some { desc with mPollExt := mPollExt, mAccessEntries := mAccessEntries }

def readDescriptor (mem : SharedObjects) (desc : Addr) : Option Descriptor :=
  (mem.descriptors[desc]?).bind mem.viewDescriptor

end SharedObjects

/-! ### What inheritance is for -/

/-- What a poll is set to: all but its state. -/
def PollObject.settings (poll : Poll) : Poll :=
  { poll with
    mNeedsProcessing := false, mVoters := [], mFileElem := false
    mFlags := (poll.mFlags.setFired false).setWasInherited false }

/-- The poll an object inherits. -/
structure PollObject.Inherits (poll child : Poll) : Prop where
  settings : child.settings = poll.settings
  voters : child.mVoters = []
  fired : child.mFlags.getFired = false
  inherited : child.mFlags.mInherited = true

def DescriptorObject.polls (desc : Descriptor) : List Poll := desc.mPollExt.elim [] PollFileObject.mPolls

/-- The descriptor an object inherits. -/
structure DescriptorObject.Inherits (parent child : Descriptor) : Prop where
  flags : child.mFlags = parent.mFlags
  owner : child.mOwner = parent.mOwner
  entries : child.mAccessEntries = parent.mAccessEntries
  polls : ∀ poll ∈ parent.polls, ∃ inherited ∈ child.polls, poll.Inherits inherited

/-- A value that is saved with inheritance leaves the descriptor of the parent as it was, and inherits it. -/
def SharedObjects.InheritsCleanly (mem : SharedObjects) (parentToken : Addr) (parent : Descriptor) : Prop :=
  ∃ mem' secDescriptor child, mem.applySecDescriptor (some parentToken) none true = some (mem', some secDescriptor) ∧
    mem'.readDescriptor parentToken = some parent ∧ mem'.readDescriptor secDescriptor = some child ∧
    parent.Inherits child

/-- A poll that is as one that was just inherited, but for the weak pointer. -/
structure PollObject.Pristine (poll : Poll) : Prop where
  voters : poll.mVoters = []
  fired : poll.mFlags.getFired = false
  inherited : poll.mFlags.mInherited = true
  unlinked : poll.mFileElem = false

/-- An extension that copying, resetting and marking its polls do not change. -/
structure PollFileObject.Pristine (file : PollFile) : Prop where
  flags : file.mFlags = 0
  polls : ∀ poll ∈ file.mPolls, poll.Pristine

/-! ### Reading in a memory that has grown -/

/-- A copy of a poll is linked to the element the poll was linked to. -/
def PollObject.unlinked (poll : Poll) : Poll := { poll with mFileElem := false }

@[simp]
theorem PollObject.unlinked_unlinked (poll : Poll) : poll.unlinked.unlinked = poll.unlinked := rfl

namespace SharedObjects

variable {mem later : SharedObjects} {elem holder : Addr} {poll : PollObject (Option Addr)} {view : Poll}

/-- The objects that were there are as they were. -/
structure Extends (mem later : SharedObjects) : Prop where
  polls : mem.polls <+: later.polls
  files : mem.files <+: later.files
  entries : mem.entries = later.entries

theorem viewPoll_of_extends (hext : mem.Extends later) (hview : mem.viewPoll holder poll = some view) :
    later.viewPoll holder poll = some view := by
  unfold viewPoll at hview ⊢
  cases hlink : poll.mFileElem with
  | none =>
      rw [hlink] at hview
      exact hview
  | some elem =>
      rw [hlink] at hview
      obtain ⟨file, hfile, rfl⟩ := Option.map_eq_some_iff.mp hview
      dsimp only
      rw [getElem?_of_isPrefix hext.files hfile]
      rfl

/-- In an element that is newer than the poll, the poll is linked to another one. -/
theorem viewPoll_newer (hview : mem.viewPoll holder poll = some view) (hext : mem.Extends later)
    (hnewer : mem.files.length ≤ elem) : later.viewPoll elem poll = some view.unlinked := by
  unfold viewPoll at hview ⊢
  cases hlink : poll.mFileElem with
  | none =>
      rw [hlink] at hview
      cases hview
      rfl
  | some linked =>
      rw [hlink] at hview
      obtain ⟨file, hfile, rfl⟩ := Option.map_eq_some_iff.mp hview
      have hlt : linked < mem.files.length := (List.getElem?_eq_some_iff.mp hfile).1
      dsimp only
      rw [getElem?_of_isPrefix hext.files hfile, decide_eq_false (hlt.trans_le hnewer).ne]
      rfl

theorem viewPoll_reset (hview : mem.viewPoll holder poll = some view) :
    mem.viewPoll holder poll.reset.markInherited = some view.reset.markInherited := by
  unfold viewPoll at hview ⊢
  dsimp only [PollObject.markInherited, PollObject.setFlags, PollObject.reset]
  cases hlink : poll.mFileElem with
  | none =>
      rw [hlink] at hview
      cases hview
      rfl
  | some linked =>
      rw [hlink] at hview
      obtain ⟨file, hfile, rfl⟩ := Option.map_eq_some_iff.mp hview
      dsimp only
      rw [hfile]
      rfl

theorem readPollFile_eq_some_iff {file : PollFile} :
    mem.readPollFile elem = some file ↔
      ∃ obj xs, mem.files[elem]? = some obj ∧ Points mem.polls obj.mPolls xs ∧
        List.Forall₂ (fun x view => mem.viewPoll elem x = some view) xs file.mPolls ∧
        obj.mFlags = file.mFlags ∧ obj.mVersion = file.mVersion := by
  constructor
  · intro hread
    obtain ⟨obj, hobj, hread⟩ := Option.bind_eq_some_iff.mp hread
    obtain ⟨views, hviews, hread⟩ := Option.bind_eq_some_iff.mp hread
    obtain ⟨xs, hxs, hviews⟩ := forall₂_bind (mapM_eq_some_iff.mp hviews)
    cases hread
    exact ⟨obj, xs, hobj, hxs, hviews, rfl, rfl⟩
  · rintro ⟨obj, xs, hobj, hxs, hviews, hflags, hversion⟩
    have hpolls : obj.mPolls.mapM (fun poll => (mem.polls[poll]?).bind (mem.viewPoll elem)) = some file.mPolls :=
      mapM_eq_some_iff.mpr (bind_forall₂ hxs hviews)
    rw [readPollFile, hobj, Option.bind_eq_bind, Option.bind_some, hpolls, Option.bind_eq_bind, Option.bind_some,
      hflags, hversion]

theorem readPollFile_of_extends {file : PollFile} (hext : mem.Extends later)
    (hread : mem.readPollFile elem = some file) : later.readPollFile elem = some file := by
  obtain ⟨obj, xs, hobj, hxs, hviews, hflags, hversion⟩ := readPollFile_eq_some_iff.mp hread
  refine readPollFile_eq_some_iff.mpr ⟨obj, xs, getElem?_of_isPrefix hext.files hobj, hxs.of_isPrefix hext.polls, ?_,
    hflags, hversion⟩
  exact hviews.imp fun _ _ => viewPoll_of_extends hext

theorem viewDescriptor_eq_some_iff {desc : DescriptorObject Addr Addr} {view : Descriptor} :
    mem.viewDescriptor desc = some view ↔
      ∃ pollExt entries, mem.viewPollExt desc.mPollExt = some pollExt ∧
        Points mem.entries desc.mAccessEntries entries ∧
        { desc with mPollExt := pollExt, mAccessEntries := entries } = view := by
  constructor
  · intro hview
    obtain ⟨pollExt, hpollExt, hview⟩ := Option.bind_eq_some_iff.mp hview
    obtain ⟨entries, hentries, hview⟩ := Option.bind_eq_some_iff.mp hview
    exact ⟨pollExt, entries, hpollExt, mapM_eq_some_iff.mp hentries, Option.some.inj hview⟩
  · rintro ⟨pollExt, entries, hpollExt, hentries, rfl⟩
    exact Option.bind_eq_some_iff.mpr
      ⟨pollExt, hpollExt, Option.bind_eq_some_iff.mpr ⟨entries, mapM_eq_some_iff.mpr hentries, rfl⟩⟩

theorem viewPollExt_of_extends {pollExt : Option Addr} {view : Option PollFile} (hext : mem.Extends later)
    (hview : mem.viewPollExt pollExt = some view) : later.viewPollExt pollExt = some view := by
  cases pollExt with
  | none => exact hview
  | some elem =>
      obtain ⟨file, hfile, rfl⟩ := Option.map_eq_some_iff.mp hview
      exact Option.map_eq_some_iff.mpr ⟨file, readPollFile_of_extends hext hfile, rfl⟩

theorem viewDescriptor_of_extends {desc : DescriptorObject Addr Addr} {view : Descriptor} (hext : mem.Extends later)
    (hview : mem.viewDescriptor desc = some view) : later.viewDescriptor desc = some view := by
  obtain ⟨pollExt, entries, hpollExt, hentries, hview⟩ := viewDescriptor_eq_some_iff.mp hview
  rw [hext.entries] at hentries
  exact viewDescriptor_eq_some_iff.mpr ⟨pollExt, entries, viewPollExt_of_extends hext hpollExt, hentries, hview⟩

/-- Another extension is read in its place. -/
theorem viewDescriptor_setPollExt {desc : DescriptorObject Addr Addr} {view : Descriptor} {file : PollFile}
    (hview : mem.viewDescriptor desc = some view) (hfile : mem.readPollFile elem = some file) :
    mem.viewDescriptor { desc with mPollExt := some elem } = some { view with mPollExt := some file } := by
  obtain ⟨pollExt, entries, -, hentries, rfl⟩ := viewDescriptor_eq_some_iff.mp hview
  have hpollExt : mem.viewPollExt (some elem) = some (some file) := Option.map_eq_some_iff.mpr ⟨file, hfile, rfl⟩
  exact viewDescriptor_eq_some_iff.mpr ⟨some file, entries, hpollExt, hentries, rfl⟩

end SharedObjects

/-! ### What inheritance leaves -/

namespace PollFileObject

/-- The element the copy constructor makes. -/
def copied (file : PollFile) : PollFile :=
  { mVersion := file.mVersion, mPolls := file.mPolls.map PollObject.unlinked }

/-- The copy whose polls are reset and marked. -/
def cleared (file : PollFile) : PollFile :=
  { mVersion := file.mVersion, mPolls := file.mPolls.map fun poll => poll.unlinked.reset.markInherited }

end PollFileObject

namespace SharedObjects

variable {mem later : SharedObjects} {elem : Addr} {file : PollFile}

theorem copyPollFileElem_eq (hread : mem.readPollFile elem = some file) :
    ∃ xs, List.Forall₂ (fun x view => mem.viewPoll elem x = some view) xs file.mPolls ∧
      mem.copyPollFileElem elem =
        some ({ mem with
                polls := mem.polls ++ xs
                files := mem.files ++ [{ mVersion := file.mVersion, mPolls := newAddrs mem.polls xs }] },
              mem.files.length) := by
  obtain ⟨obj, xs, hobj, hxs, hviews, -, hversion⟩ := readPollFile_eq_some_iff.mp hread
  refine ⟨xs, hviews, ?_⟩
  rw [copyPollFileElem, hobj, Option.bind_eq_bind, Option.bind_some, copyAll_eq hxs, Option.bind_eq_bind,
    Option.bind_some, hversion]
  rfl

/-- New polls are read as they were made. -/
theorem readPollFile_new {polls xs : List (PollObject (Option Addr))} {version : UInt64} {views : List Poll}
    (hobj : mem.files[elem]? = some { mVersion := version, mPolls := newAddrs polls xs })
    (hpolls : polls ++ xs <+: mem.polls)
    (hviews : List.Forall₂ (fun x view => mem.viewPoll elem x = some view) xs views) :
    mem.readPollFile elem = some { mVersion := version, mPolls := views } :=
  readPollFile_eq_some_iff.mpr
    ⟨_, xs, hobj, (points_newAddrs polls xs).of_isPrefix hpolls, hviews, rfl, rfl⟩

theorem modifyPolls_new {polls xs : List (PollObject (Option Addr))} {obj : PollFileObject Addr}
    (f : PollObject (Option Addr) → PollObject (Option Addr)) (hobj : mem.files[elem]? = some obj)
    (haddrs : obj.mPolls = newAddrs polls xs) (hpolls : mem.polls = polls ++ xs) :
    mem.modifyPolls elem f = some { mem with polls := polls ++ xs.map f } := by
  rw [modifyPolls, hobj, Option.bind_eq_bind, Option.bind_some, haddrs, hpolls, modifyAll_newAddrs]

/-- The copies of a poll that end in the descriptor of the parent. -/
theorem viewPoll_cleared {holder : Addr} {xs : List (PollObject (Option Addr))} {views : List Poll}
    (hext : mem.Extends later) (hnewer : mem.files.length ≤ elem)
    (hviews : List.Forall₂ (fun x view => mem.viewPoll holder x = some view) xs views) :
    List.Forall₂ (fun x view => later.viewPoll elem x = some view) (xs.map fun x => x.reset.markInherited)
      (views.map fun view => view.unlinked.reset.markInherited) := by
  rw [List.forall₂_map_left_iff, List.forall₂_map_right_iff]
  exact hviews.imp fun _ _ hview => viewPoll_reset (viewPoll_newer hview hext hnewer)

theorem viewPoll_copied {holder : Addr} {xs : List (PollObject (Option Addr))} {views : List Poll}
    (hext : mem.Extends later) (hnewer : mem.files.length ≤ elem)
    (hviews : List.Forall₂ (fun x view => mem.viewPoll holder x = some view) xs views) :
    List.Forall₂ (fun x view => later.viewPoll elem x = some view) xs (views.map PollObject.unlinked) := by
  rw [List.forall₂_map_right_iff]
  exact hviews.imp fun _ _ hview => viewPoll_newer hview hext hnewer

theorem applySecDescriptor_noPollExt {parentToken : Addr} {desc : DescriptorObject Addr Addr}
    (hdesc : mem.descriptors[parentToken]? = some desc) (hext : desc.mPollExt = none) :
    mem.applySecDescriptor (some parentToken) none true =
      some ({ mem with descriptors := mem.descriptors ++ [desc] }, some mem.descriptors.length) := by
  have hcopied : mem.copySecDescriptor parentToken =
      some ({ mem with descriptors := mem.descriptors ++ [desc] }, mem.descriptors.length) := by
    rw [copySecDescriptor, hdesc, Option.bind_eq_bind, Option.bind_some, hext]
    rfl
  refine Option.bind_eq_some_iff.mpr ⟨_, hcopied, Option.bind_eq_some_iff.mpr ⟨desc, by simp, ?_⟩⟩
  dsimp only
  rw [hext]

/-- What is there after an extension was inherited: the polls of both copies, those of the second one cleared. -/
theorem applySecDescriptor_pollExt {parentToken : Addr} {desc : DescriptorObject Addr Addr}
    (hdesc : mem.descriptors[parentToken]? = some desc) (hext : desc.mPollExt = some elem)
    (hread : mem.readPollFile elem = some file) :
    ∃ mem', mem.applySecDescriptor (some parentToken) none true = some (mem', some mem.descriptors.length) ∧
      mem.Extends mem' ∧
      mem'.descriptors = (mem.descriptors ++ [{ desc with mPollExt := some mem.files.length }]).modify parentToken
        (fun desc => { desc with mPollExt := some (mem.files.length + 1) }) ∧
      mem'.readPollFile mem.files.length = some file.copied ∧
      mem'.readPollFile (mem.files.length + 1) = some file.cleared := by
  obtain ⟨xs, hxs, hcopy⟩ := copyPollFileElem_eq hread
  let copyObj : PollFileObject Addr := { mVersion := file.mVersion, mPolls := newAddrs mem.polls xs }
  let child : DescriptorObject Addr Addr := { desc with mPollExt := some mem.files.length }
  -- the memory with the copy the constructor of the descriptor makes
  let mem₁ : SharedObjects :=
    { mem with
      polls := mem.polls ++ xs, files := mem.files ++ [copyObj], descriptors := mem.descriptors ++ [child] }
  have hext₁ : mem.Extends mem₁ := ⟨List.prefix_append _ _, List.prefix_append _ _, rfl⟩
  have hread₁ : mem₁.readPollFile mem.files.length = some file.copied :=
    readPollFile_new (by simp [mem₁, copyObj]) (List.prefix_refl _) (viewPoll_copied hext₁ le_rfl hxs)
  obtain ⟨ys, hys, hcopy₁⟩ := copyPollFileElem_eq hread₁
  let copyObj₁ : PollFileObject Addr := { mVersion := file.mVersion, mPolls := newAddrs mem₁.polls ys }
  have hlength : mem₁.files.length = mem.files.length + 1 := by simp [mem₁]
  -- the memory with the second copy, with its polls reset, set in the descriptor of the parent, and marked
  let mem₂ : SharedObjects := { mem₁ with polls := mem₁.polls ++ ys, files := mem₁.files ++ [copyObj₁] }
  let mem₃ : SharedObjects := { mem₂ with polls := mem₁.polls ++ ys.map PollObject.reset }
  let mem₄ : SharedObjects := mem₃.setPollExt parentToken (some mem₁.files.length)
  let mem₅ : SharedObjects := { mem₄ with polls := mem₁.polls ++ (ys.map PollObject.reset).map PollObject.markInherited }
  have hobj : mem₂.files[mem₁.files.length]? = some copyObj₁ := by simp [mem₂]
  have hreset : mem₂.resetPollsState mem₁.files.length = some mem₃ := modifyPolls_new _ hobj rfl rfl
  have hmark : mem₄.modifyPolls mem₁.files.length PollObject.markInherited = some mem₅ :=
    modifyPolls_new _ hobj (by simp [copyObj₁, newAddrs]) rfl
  have hext₅ : mem₁.Extends mem₅ := ⟨List.prefix_append _ _, List.prefix_append _ _, rfl⟩
  refine ⟨mem₅, ?_, ?_, ?_, readPollFile_of_extends hext₅ hread₁, ?_⟩
  · have hchild : mem₁.descriptors[mem.descriptors.length]? = some child := by simp [mem₁]
    have hcopied : mem.copySecDescriptor parentToken = some (mem₁, mem.descriptors.length) := by
      rw [copySecDescriptor, hdesc, Option.bind_eq_bind, Option.bind_some, hext]
      dsimp only
      rw [hcopy]
      rfl
    refine Option.bind_eq_some_iff.mpr ⟨_, hcopied, Option.bind_eq_some_iff.mpr ⟨child, hchild, ?_⟩⟩
    refine Option.bind_eq_some_iff.mpr ⟨_, hcopy₁, Option.bind_eq_some_iff.mpr ⟨mem₃, hreset, ?_⟩⟩
    exact Option.bind_eq_some_iff.mpr ⟨mem₅, hmark, rfl⟩
  · exact ⟨hext₁.polls.trans hext₅.polls, hext₁.files.trans hext₅.files, rfl⟩
  · rw [← hlength]
    rfl
  · have haddrs : newAddrs mem₁.polls ys =
        newAddrs mem₁.polls ((ys.map PollObject.reset).map PollObject.markInherited) := by
      simp [newAddrs]
    have hviews := viewPoll_cleared hext₅ (le_refl mem₁.files.length) hys
    rw [← hlength]
    refine readPollFile_new (hobj.trans ?_) (List.prefix_refl _) ?_
    · rw [← haddrs]
    · simpa [PollFileObject.copied, PollObject.unlinked_unlinked, Function.comp_def] using hviews

theorem readDescriptor_of_extends {desc : Addr} {view : Descriptor} (hext : mem.Extends later)
    (hdescs : ∀ obj, mem.descriptors[desc]? = some obj → later.descriptors[desc]? = some obj)
    (hread : mem.readDescriptor desc = some view) : later.readDescriptor desc = some view := by
  obtain ⟨obj, hobj, hview⟩ := Option.bind_eq_some_iff.mp hread
  exact Option.bind_eq_some_iff.mpr ⟨obj, hdescs obj hobj, viewDescriptor_of_extends hext hview⟩

/-- The descriptor of the parent has the cleared copy of its polls then, and the new descriptor the other copy. All
other descriptors are as they were. -/
theorem applySecDescriptor_reads {parentToken : Addr} {parent : Descriptor}
    (hread : mem.readDescriptor parentToken = some parent) :
    ∃ mem' secDescriptor, mem.applySecDescriptor (some parentToken) none true = some (mem', some secDescriptor) ∧
      mem'.readDescriptor parentToken = some { parent with mPollExt := parent.mPollExt.map PollFileObject.cleared } ∧
      mem'.readDescriptor secDescriptor = some { parent with mPollExt := parent.mPollExt.map PollFileObject.copied } ∧
      ∀ other ≠ parentToken, ∀ desc, mem.readDescriptor other = some desc → mem'.readDescriptor other = some desc := by
  obtain ⟨desc, hdesc, hview⟩ := Option.bind_eq_some_iff.mp hread
  have hlt : parentToken < mem.descriptors.length := (List.getElem?_eq_some_iff.mp hdesc).1
  obtain ⟨pollExt, entries, hpollExt, hentries, hparent⟩ := viewDescriptor_eq_some_iff.mp hview
  cases hext : desc.mPollExt with
  | none =>
      rw [hext] at hpollExt
      cases hpollExt
      let mem' : SharedObjects := { mem with descriptors := mem.descriptors ++ [desc] }
      have hext' : mem.Extends mem' := ⟨List.prefix_refl _, List.prefix_refl _, rfl⟩
      have hchild : mem'.descriptors[mem.descriptors.length]? = some desc := by simp [mem']
      have hothers : ∀ other desc, mem.readDescriptor other = some desc → mem'.readDescriptor other = some desc :=
        fun _ _ => readDescriptor_of_extends hext' fun _ => getElem?_of_isPrefix (List.prefix_append _ _)
      subst hparent
      exact ⟨mem', mem.descriptors.length, applySecDescriptor_noPollExt hdesc hext, hothers parentToken _ hread,
        Option.bind_eq_some_iff.mpr ⟨desc, hchild, viewDescriptor_of_extends hext' hview⟩, fun other _ => hothers other⟩
  | some elem =>
      rw [hext] at hpollExt
      obtain ⟨file, hfile, rfl⟩ := Option.map_eq_some_iff.mp hpollExt
      obtain ⟨mem', happly, hext', hdescs, hcopied, hcleared⟩ := applySecDescriptor_pollExt hdesc hext hfile
      have hview' := viewDescriptor_of_extends hext' hview
      have hparent' : mem'.descriptors[parentToken]? = some { desc with mPollExt := some (mem.files.length + 1) } := by
        rw [hdescs, List.getElem?_modify_eq, List.getElem?_append_left hlt, hdesc]
        rfl
      have hchild : mem'.descriptors[mem.descriptors.length]? = some { desc with mPollExt := some mem.files.length } := by
        rw [hdescs, List.getElem?_modify_ne _ _ hlt.ne]
        simp
      have hothers : ∀ other ≠ parentToken, ∀ obj, mem.descriptors[other]? = some obj →
          mem'.descriptors[other]? = some obj := by
        intro other hother obj hobj
        rw [hdescs, List.getElem?_modify_ne _ _ (Ne.symm hother)]
        exact getElem?_of_isPrefix (List.prefix_append _ _) hobj
      subst hparent
      exact ⟨mem', mem.descriptors.length, happly,
        Option.bind_eq_some_iff.mpr ⟨_, hparent', viewDescriptor_setPollExt hview' hcleared⟩,
        Option.bind_eq_some_iff.mpr ⟨_, hchild, viewDescriptor_setPollExt hview' hcopied⟩,
        fun other hother _ => readDescriptor_of_extends hext' (hothers other hother)⟩

end SharedObjects

/-! ### When inheritance is clean -/

theorem PollObject.cleared_eq_self_iff (poll : Poll) : poll.unlinked.reset.markInherited = poll ↔ poll.Pristine := by
  constructor
  · intro hself
    rw [← hself]
    exact ⟨rfl, rfl, rfl, rfl⟩
  · rintro ⟨hvoters, hfired, hinherited, hunlinked⟩
    obtain ⟨_, _, _, _, _, _, flags, _, _⟩ := poll
    cases flags
    cases hvoters
    cases hfired
    cases hinherited
    cases hunlinked
    rfl

theorem PollFileObject.cleared_eq_self_iff (file : PollFile) : file.cleared = file ↔ file.Pristine := by
  obtain ⟨flags, version, polls⟩ := file
  have hpolls : polls.map (fun poll => poll.unlinked.reset.markInherited) = polls ↔ ∀ poll ∈ polls, poll.Pristine := by
    conv_lhs => rw [← List.map_id polls, List.map_map, List.map_inj_left]
    exact forall₂_congr fun poll _ => poll.cleared_eq_self_iff
  constructor
  · intro hself
    rw [cleared, mk.injEq] at hself
    exact ⟨hself.1.symm, hpolls.mp hself.2.2⟩
  · rintro ⟨rfl, hpristine⟩
    rw [cleared, hpolls.mpr hpristine]

/-- What has no state passes all of it on. -/
theorem PollObject.Pristine.inherits {poll : Poll} (hpristine : poll.Pristine) : poll.Inherits poll.unlinked :=
  ⟨rfl, hpristine.voters, hpristine.fired, hpristine.inherited⟩

namespace SharedObjects

variable {mem : SharedObjects} {parentToken : Addr} {parent : Descriptor}

theorem InheritsCleanly.pristine (hclean : mem.InheritsCleanly parentToken parent)
    (hread : mem.readDescriptor parentToken = some parent) : ∀ file ∈ parent.mPollExt, file.Pristine := by
  obtain ⟨mem', secDescriptor, child, happly, hparent, -⟩ := hclean
  obtain ⟨mem'', secDescriptor', happly', hparent', -⟩ := applySecDescriptor_reads hread
  obtain ⟨rfl, -⟩ := Prod.mk.inj (Option.some.inj (happly.symm.trans happly'))
  have hself : parent.mPollExt.map PollFileObject.cleared = parent.mPollExt :=
    congrArg DescriptorObject.mPollExt (Option.some.inj (hparent'.symm.trans hparent))
  intro file hfile
  rw [Option.mem_def.mp hfile] at hself
  exact file.cleared_eq_self_iff.mp (Option.some.inj hself)

/-- Inheritance is clean exactly if the parent has no extension with polls, or one that copying it, resetting and
marking its polls leaves as it is. -/
theorem inheritsCleanly_iff (hread : mem.readDescriptor parentToken = some parent) :
    mem.InheritsCleanly parentToken parent ↔ ∀ file ∈ parent.mPollExt, file.Pristine := by
  constructor
  · exact fun hclean => hclean.pristine hread
  · intro hpristine
    obtain ⟨mem', secDescriptor, happly, hparent, hchild, -⟩ := applySecDescriptor_reads hread
    have hself : parent.mPollExt.map PollFileObject.cleared = parent.mPollExt := by
      cases hext : parent.mPollExt with
      | none => rfl
      | some file => exact congrArg some (file.cleared_eq_self_iff.mpr (hpristine file hext))
    rw [hself] at hparent
    refine ⟨mem', secDescriptor, _, happly, hparent, hchild, rfl, rfl, rfl, ?_⟩
    intro poll hpoll
    cases hext : parent.mPollExt with
    | none =>
        rw [DescriptorObject.polls, hext] at hpoll
        cases hpoll
    | some file =>
        rw [DescriptorObject.polls, hext] at hpoll
        refine ⟨poll.unlinked, ?_, ((hpristine file hext).polls poll hpoll).inherits⟩
        exact List.mem_map_of_mem hpoll

/-- A directory whose poll has fired and has a voter. -/
def votedDirectory : SharedObjects where
  polls := [{ mFlags := { mActive := true, mFired := true }, mVoters := [{ mID := [1] }], mFileElem := none }]
  files := [{ mPolls := [0] }]
  descriptors := [{ mPollExt := some 0 }]

/-- A directory whose poll was inherited itself and has not been voted in. -/
def unvotedDirectory : SharedObjects where
  polls := [{ mFlags := { mActive := true, mInherited := true }, mFileElem := none }]
  files := [{ mPolls := [0] }]
  descriptors := [{ mPollExt := some 0 }]

theorem unvotedDirectory_inheritsCleanly : ∃ parent, unvotedDirectory.InheritsCleanly 0 parent := by
  refine ⟨_, (inheritsCleanly_iff rfl).mpr ?_⟩
  rintro _ ⟨rfl⟩
  refine ⟨rfl, ?_⟩
  intro poll hpoll
  rw [List.mem_singleton.mp hpoll]
  exact ⟨rfl, rfl, rfl, rfl⟩

/-- The votes of the parent go over to the child. -/
theorem votes_inherited : ¬ ∀ (mem : SharedObjects) (parentToken : Addr) (parent : Descriptor),
    mem.readDescriptor parentToken = some parent → mem.InheritsCleanly parentToken parent := by
  intro hclean
  have hread : ∃ parent, votedDirectory.readDescriptor 0 = some parent ∧
      ∃ file ∈ parent.mPollExt, ∃ poll ∈ file.mPolls, poll.mVoters ≠ [] :=
    ⟨_, rfl, _, rfl, _, List.mem_singleton_self _, List.cons_ne_nil _ _⟩
  obtain ⟨parent, hparent, file, hfile, poll, hpoll, hvoters⟩ := hread
  exact hvoters (((hclean _ _ _ hparent).pristine hparent file hfile).polls poll hpoll).voters

end SharedObjects
end Gridnet
