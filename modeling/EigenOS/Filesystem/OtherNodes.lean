import EigenOS.Filesystem.FileGrowth
import EigenOS.Filesystem.Trash

/-!
# What a call leaves of other nodes

In any table, tree or not, the calls leave the content of a file that they are not about: a
deletion clears only what hangs below the node it names, a new node takes a free slot, and a
node that moves keeps its bytes.
-/

namespace EigenOS.Filesystem

open Function

/-! ## Deletions -/

/-- Reached from `top` through entries of directories. -/
inductive HangsBelow (files : Table) (top : Slot) : Slot → Prop
  | self : HangsBelow files top top
  | entry {slot above : Slot} (hroot : slot ≠ rootSlot) (hused : (files slot).inUse = true)
      (hparent : (files slot).parentDir = above.val) (hup : HangsBelow files top above) :
      HangsBelow files top slot

theorem HangsBelow.trans {files : Table} {top middle slot : Slot}
    (hupper : HangsBelow files top middle) (hlower : HangsBelow files middle slot) :
    HangsBelow files top slot := by
  induction hlower with
  | self => exact hupper
  | entry hroot hused hparent _ ih => exact ih.entry hroot hused hparent

/-- Every slot is as it was, or is cleared and was one of `gone`. -/
def Clears (gone : Slot → Prop) (files after : Table) : Prop :=
  ∀ slot, after slot = files slot ∨ after slot = FileNode.zero ∧ gone slot

namespace Clears

variable {gone : Slot → Prop} {files middle after : Table}

theorem refl (gone : Slot → Prop) (files : Table) : Clears gone files files :=
  fun _ => Or.inl rfl

theorem trans (hfirst : Clears gone files middle) (hsecond : Clears gone middle after) :
    Clears gone files after := by
  intro slot
  rcases hsecond slot with heq | hzero
  · rw [heq]
    exact hfirst slot
  · exact Or.inr hzero

theorem clearSlot {idx : Slot} (hidx : gone idx) (files : Table) :
    Clears gone files (Filesystem.clearSlot files idx) := by
  intro slot
  by_cases heq : slot = idx
  · subst heq
    exact Or.inr ⟨update_self .., hidx⟩
  · exact Or.inl (update_of_ne heq _ _)

theorem eq_of_used (h : Clears gone files after) {slot : Slot}
    (hused : (after slot).inUse = true) : after slot = files slot := by
  rcases h slot with heq | ⟨hzero, _⟩
  · exact heq
  · rw [hzero] at hused
    cases hused

theorem hangsBelow (h : Clears gone files after) {top slot : Slot}
    (hbelow : HangsBelow after top slot) : HangsBelow files top slot := by
  induction hbelow with
  | self => exact HangsBelow.self
  | entry hroot hused hparent _ ih =>
      have heq := h.eq_of_used hused
      rw [heq] at hused hparent
      exact ih.entry hroot hused hparent

/-- What hangs below an entry of `middle` hangs below it in the table before. -/
theorem widen {top : Slot} (h : Clears gone files middle) (htop : ∀ slot,
    HangsBelow files top slot → gone slot) (hnext : Clears (HangsBelow middle top) middle after) :
    Clears gone files after := by
  refine h.trans fun slot => ?_
  rcases hnext slot with heq | ⟨hzero, hbelow⟩
  · exact Or.inl heq
  · exact Or.inr ⟨hzero, htop slot (h.hangsBelow hbelow)⟩

end Clears

/-- A loop whose rounds each clear some of `gone` clears some of `gone`. -/
theorem clears_foldlM (gone : Slot → Prop) (files : Table)
    {step : Table → Slot → Option Table}
    (hstep : ∀ middle i next, Clears gone files middle → step middle i = some next →
      Clears gone files next)
    (slots : List Slot) {middle after : Table} (hmiddle : Clears gone files middle)
    (h : slots.foldlM step middle = some after) : Clears gone files after := by
  induction slots generalizing middle with
  | nil =>
      cases h
      exact hmiddle
  | cons i rest ih =>
      rw [List.foldlM_cons] at h
      obtain ⟨next, hnext, hrest⟩ := Option.bind_eq_some_iff.mp h
      exact ih (hstep middle i next hmiddle hnext) hrest

theorem clears_deletePass {files : Table} {idx : Slot} {second : Bool}
    {delete : Table → Slot → Option Table}
    (hdelete : ∀ middle i next, delete middle i = some next →
      Clears (HangsBelow middle i) middle next)
    {middle after : Table} (hmiddle : Clears (HangsBelow files idx) files middle)
    (h : deletePass delete idx second middle = some after) :
    Clears (HangsBelow files idx) files after := by
  refine clears_foldlM _ _ (fun middle i next hmiddle hnext => ?_) _ hmiddle h
  unfold deleteChild at hnext
  split at hnext
  · rename_i hchild
    obtain ⟨hroot, hused, hparent⟩ := hchild
    have heq := hmiddle.eq_of_used hused
    rw [heq] at hused hparent
    have hbelow : HangsBelow files idx i := HangsBelow.self.entry hroot hused hparent
    split at hnext
    · exact hmiddle.widen (fun slot hslot => hbelow.trans hslot) (hdelete _ _ _ hnext)
    · split at hnext
      · cases hnext
        exact hmiddle.trans (Clears.clearSlot hbelow _)
      · cases hnext
        exact hmiddle
  · cases hnext
    exact hmiddle

theorem clears_deleteRecursive {depth : ℕ} {files after : Table} {idx : Slot}
    (h : deleteRecursive depth files idx = some after) :
    Clears (HangsBelow files idx) files after := by
  induction depth generalizing files after idx with
  | zero => cases h
  | succ depth ih =>
      rw [deleteRecursive] at h
      split at h
      · cases h
        exact Clears.refl _ _
      · obtain ⟨first, hfirst, hrest⟩ := Option.bind_eq_some_iff.mp h
        obtain ⟨last, hlast, hclear⟩ := Option.bind_eq_some_iff.mp hrest
        cases hclear
        have hdelete : ∀ middle i next, deleteRecursive depth middle i = some next →
            Clears (HangsBelow middle i) middle next := fun _ _ _ hnext => ih hnext
        have hone := clears_deletePass hdelete (Clears.refl _ files) hfirst
        have hboth : Clears (HangsBelow files idx) files last := by
          split at hlast
          · exact clears_deletePass hdelete hone hlast
          · cases hlast
            exact hone
        exact hboth.trans (Clears.clearSlot HangsBelow.self _)

/-! ## The other calls -/

theorem SameContent.refl (fp : FileNode) : SameContent fp fp := ⟨rfl, rfl, rfl, rfl, rfl, rfl⟩

/-- The calls that change the content of a node, or delete it. -/
def IsAbout (fs : FileSystem) (caller : Caller) (e : Slot) : FsCall → Prop
  | .delete path => ∃ top, fsResolveImpl fs.files caller.cwd path = some top ∧
      HangsBelow fs.files top e
  | .emptyTrash => ∃ top, top ≠ rootSlot ∧ (fs.files top).inUse = true ∧
      (fs.files top).parentDir = fs.trashDir ∧ HangsBelow fs.files top e
  | .truncate path => fsResolveImpl fs.files caller.cwd path = some e
  | .write fd _ _ => fd = e.val
  | _ => False

section Other

variable {files : Table} {e : Slot}

theorem createEntry_other (hused : (files e).inUse = true) (name : List UInt8)
    (type : FsType) (parent : ℤ) (flags : UInt8) (now : UInt32) :
    (createEntry files name type parent flags now).1 e = files e ∧
      ∀ d, (createEntry files name type parent flags now).2 = some d → e ≠ d := by
  unfold createEntry
  split
  · exact ⟨rfl, fun d h => nomatch h⟩
  · split
    · exact ⟨rfl, fun d h => nomatch h⟩
    · split
      · exact ⟨rfl, fun d h => nomatch h⟩
      · rename_i idx hidx
        have hne : e ≠ idx := by
          rintro rfl
          rw [(findFreeSlot_eq_some hidx).2] at hused
          cases hused
        refine ⟨update_of_ne hne _ _, ?_⟩
        rintro d ⟨⟩
        exact hne

theorem copyContents_other {s d : Slot} (hne : e ≠ d) (caller : Caller) :
    (copyContents files s d caller).1 e = files e := by
  unfold copyContents
  split
  · split
    · split
      · exact update_of_ne hne _ _
      · rfl
    · exact update_of_ne hne _ _
  · exact update_of_ne hne _ _

theorem copyInto_other (hused : (files e).inUse = true) (s : Slot) (name : List UInt8)
    (parent : ℤ) (caller : Caller) : (copyInto files s name parent caller).1 e = files e := by
  obtain ⟨hsame, hne⟩ :=
    createEntry_other hused name .file parent (files s).flags caller.now
  unfold copyInto
  split
  · rename_i created d hcreate
    rw [hcreate] at hsame hne
    rw [copyContents_other (hne d rfl)]
    exact hsame
  · rename_i created hcreate
    rw [hcreate] at hsame
    exact hsame

theorem sameContent_update {slot : Slot} {fp : FileNode} (h : SameContent (files slot) fp) :
    SameContent (files e) (update files slot fp e) := by
  by_cases heq : e = slot
  · subst heq
    rw [update_self]
    exact h
  · rw [update_of_ne heq]
    exact SameContent.refl _

theorem sameContent_relink (slot : Slot) (name : List UInt8) (parent : ℤ) (now : UInt32) :
    SameContent (files e) (relink files slot name parent now e) :=
  sameContent_update ⟨rfl, rfl, rfl, rfl, rfl, rfl⟩

theorem sameContent_of_eq {fp after : FileNode} (h : after = fp) : SameContent fp after :=
  h ▸ SameContent.refl after

end Other

theorem fsWrite_other {files : Table} {caller : Caller} {fd count : ℤ} {buf : List UInt8}
    {reply : Reply} {e : Slot} (hfd : fd ≠ e.val)
    (h : fsWrite files caller fd buf count = some reply) : reply.1 e = files e := by
  by_cases hfile : 0 ≤ fd ∧ fd < maxFiles ∧
      (files (slotAt fd)).inUse = true ∧ (files (slotAt fd)).type = .file
  · obtain ⟨hlow, hhigh, hused, htype⟩ := hfile
    have hne : e ≠ slotAt fd := by
      rintro rfl
      apply hfd
      rw [slotAt, dif_pos (by omega)]
      exact (Int.toNat_of_nonneg hlow).symm
    rw [fsWrite_file hlow hhigh hused htype] at h
    split at h
    · cases h
    · split at h
      · cases h
      · cases h
        rfl
      · split at h
        · cases h
        · cases h
          exact update_of_ne hne _ _
  · rw [fsWrite_refused hfile] at h
    cases h
    rfl

theorem fsEmptyTrash_other {fs : FileSystem} {caller : Caller} {reply : Reply} {e : Slot}
    (hother : ¬ IsAbout fs caller e .emptyTrash) (h : fsEmptyTrash fs = some reply) :
    reply.1 e = fs.files e := by
  unfold fsEmptyTrash at h
  split at h
  · cases h
    rfl
  · obtain ⟨after, hafter, rfl⟩ := Option.map_eq_some_iff.mp h
    have hclears := clears_foldlM (fun slot => slot ≠ e) fs.files ?_ _ (Clears.refl _ fs.files)
      hafter
    · rcases hclears e with heq | ⟨_, hne⟩
      · exact heq
      · exact absurd rfl hne
    · intro middle i next hmiddle hnext
      split at hnext
      · rename_i hentry
        obtain ⟨hroot, hused, hparent⟩ := hentry
        have heq := hmiddle.eq_of_used hused
        rw [heq] at hused hparent
        refine hmiddle.widen (fun slot hbelow => ?_) (clears_deleteRecursive hnext)
        rintro rfl
        exact hother ⟨i, hroot, hused, hparent, hbelow⟩
      · cases hnext
        exact hmiddle

section Calls

variable {fs : FileSystem} {caller : Caller} {e : Slot}

theorem fsMkdir_other (hused : (fs.files e).inUse = true) (path : CString) :
    (fsMkdir fs.files caller path).1 e = fs.files e := by
  unfold fsMkdir
  split
  · rfl
  · split
    · rfl
    · exact (createEntry_other hused _ _ _ _ _).1

theorem fsCreate_other (hused : (fs.files e).inUse = true) (path : CString) :
    (fsCreate fs.files caller path).1 e = fs.files e := by
  unfold fsCreate
  split
  · rfl
  · split
    · rfl
    · split
      · rfl
      · exact (createEntry_other hused _ _ _ _ _).1

theorem fsCopyFile_other (hused : (fs.files e).inUse = true) (source target : CString) :
    (fsCopyFile fs.files caller source target).1 e = fs.files e := by
  unfold fsCopyFile
  split
  · rfl
  · split
    · rfl
    · split
      · exact copyInto_other hused _ _ _ _
      · split
        · rfl
        · split
          · rfl
          · exact copyInto_other hused _ _ _ _

theorem fsCopyFileToDir_other (hused : (fs.files e).inUse = true) (srcDir : ℤ) (srcName : CString)
    (dstDir : ℤ) (dstName : CString) :
    (fsCopyFileToDir fs.files caller srcDir srcName dstDir dstName).1 e = fs.files e := by
  unfold fsCopyFileToDir
  split
  · rfl
  · exact copyInto_other hused _ _ _ _

theorem fsDelete_other {path : CString} {reply : Reply}
    (hother : ¬ IsAbout fs caller e (.delete path))
    (h : fsDelete fs.files caller path = some reply) : reply.1 e = fs.files e := by
  unfold fsDelete at h
  split at h
  · cases h
    rfl
  · rename_i top htop
    split at h
    · cases h
      rfl
    · obtain ⟨after, hafter, rfl⟩ := Option.map_eq_some_iff.mp h
      rcases clears_deleteRecursive hafter e with heq | ⟨_, hbelow⟩
      · exact heq
      · exact absurd ⟨top, htop, hbelow⟩ hother

theorem fsRmdir_other (hfile : (fs.files e).type = .file) (path : CString) :
    (fsRmdir fs.files caller path).1 e = fs.files e := by
  unfold fsRmdir
  split
  · rfl
  · split
    · rfl
    · split
      · rfl
      · rename_i hdir
        rw [not_not] at hdir
        split
        · rfl
        · apply update_of_ne
          rintro rfl
          rw [hfile] at hdir
          cases hdir

theorem fsTruncate_other {path : CString} (hother : ¬ IsAbout fs caller e (.truncate path)) :
    (fsTruncate fs.files caller path).1 e = fs.files e := by
  unfold fsTruncate
  split
  · rfl
  · rename_i d hd
    split
    · rfl
    · apply update_of_ne
      rintro rfl
      exact hother hd

theorem sameContent_fsRename (oldname newname : CString) :
    SameContent (fs.files e) ((fsRename fs.files caller oldname newname).1 e) := by
  unfold fsRename
  split
  · exact SameContent.refl _
  · split
    · exact SameContent.refl _
    · split
      · exact SameContent.refl _
      · split
        · exact SameContent.refl _
        · split
          · split
            · exact sameContent_relink _ _ _ _
            · exact SameContent.refl _
          · exact sameContent_relink _ _ _ _

theorem sameContent_fsTrashFile (path : CString) :
    SameContent (fs.files e) ((fsTrashFile fs caller path).1 e) := by
  unfold fsTrashFile
  split
  · exact SameContent.refl _
  · split
    · exact SameContent.refl _
    · split
      · exact SameContent.refl _
      · dsimp only
        split
        · exact sameContent_relink _ _ _ _
        · exact SameContent.refl _

theorem sameContent_fsRestoreFromTrash (filename : CString) :
    SameContent (fs.files e) ((fsRestoreFromTrash fs caller filename).1 e) := by
  unfold fsRestoreFromTrash
  split
  · exact SameContent.refl _
  · split
    · exact SameContent.refl _
    · exact sameContent_update ⟨rfl, rfl, rfl, rfl, rfl, rfl⟩

theorem sameContent_of_not_isAbout {call : FsCall} {reply : Reply}
    (hused : (fs.files e).inUse = true) (hfile : (fs.files e).type = .file)
    (hother : ¬ IsAbout fs caller e call) (h : call.run fs caller = some reply) :
    SameContent (fs.files e) (reply.1 e) := by
  cases call with
  | mkdir path =>
      cases h
      exact sameContent_of_eq (fsMkdir_other hused path)
  | create path =>
      cases h
      exact sameContent_of_eq (fsCreate_other hused path)
  | delete path => exact sameContent_of_eq (fsDelete_other hother h)
  | rmdir path =>
      cases h
      exact sameContent_of_eq (fsRmdir_other hfile path)
  | rename oldname newname =>
      cases h
      exact sameContent_fsRename oldname newname
  | copyFile source target =>
      cases h
      exact sameContent_of_eq (fsCopyFile_other hused source target)
  | copyFileToDir srcDir srcName dstDir dstName =>
      cases h
      exact sameContent_of_eq (fsCopyFileToDir_other hused srcDir srcName dstDir dstName)
  | trashFile path =>
      cases h
      exact sameContent_fsTrashFile path
  | restoreFromTrash filename =>
      cases h
      exact sameContent_fsRestoreFromTrash filename
  | emptyTrash => exact sameContent_of_eq (fsEmptyTrash_other hother h)
  | truncate path =>
      cases h
      exact sameContent_of_eq (fsTruncate_other hother)
  | write fd buf count => exact sameContent_of_eq (fsWrite_other hother h)

end Calls

end EigenOS.Filesystem
