import EigenOS.Filesystem.WorkingDirectory
import EigenOS.Persist.RoundTrip

/-!
# The tree after a restart

A snapshot keeps every node in its slot, with its name, type and parent.  So the restored table is
a tree again, every path leads to the slot it led to before, and a directory has the path it had.
-/

namespace EigenOS.Persist

open EigenOS.Filesystem EigenOS.ParentTree

/-- The same nodes in the same slots, whatever their bytes are. -/
structure SameTree (files restored : Table) : Prop where
  inUse : ∀ slot, (restored slot).inUse = (files slot).inUse
  metadata : ∀ slot, (files slot).inUse = true → SameMetadata (files slot) (restored slot)
  terminated : ∀ slot, (files slot).inUse = true → Terminated (restored slot).name

theorem Storable.sameTree {files : Table} (hfiles : Storable files) (beyond : ℕ → UInt8) :
    SameTree files (restoreTable (LoadEnv.succeeding beyond) (snapshotBytes files)) where
  inUse slot := by
    cases hused : (files slot).inUse with
    | true => exact (hfiles.restored_metadata beyond hused).inUse
    | false =>
        have hrecord := hfiles.recordAt_eq beyond slot
        have hzero : recordOf (files slot) = PkRec.zero := by simp [recordOf, hused]
        simp [restoreTable, restoreNode, hrecord, hzero, PkRec.zero]
  metadata _ hused := hfiles.restored_metadata beyond hused
  terminated slot hused := by
    have hrecord := hfiles.recordAt_eq beyond slot
    have hone : (recordOf (files slot)).used ≠ 0 := by
      rw [used_recordOf hused]
      decide
    by_cases hbody : (recordOf (files slot)).type = 0 ∧ 0 < (recordOf (files slot)).size
    · simp [restoreTable, restoreNode, hrecord, hone, hbody, Terminated]
    · simp [restoreTable, restoreNode, hrecord, hone, hbody, Terminated]

namespace SameTree

variable {files restored : Table} (h : SameTree files restored)

include h

theorem parentOf_eq {slot : Fin maxFiles} (hused : (files slot).inUse = true) :
    parentOf restored slot = parentOf files slot :=
  congrArg slotAt (h.metadata slot hused).parentDir

theorem isDirectory {slot : Fin maxFiles} (hdir : IsDirectory (files slot)) :
    IsDirectory (restored slot) where
  inUse := (h.metadata slot hdir.inUse).inUse
  type_eq := (h.metadata slot hdir.inUse).type_eq.trans hdir.type_eq

theorem used {slot : Fin maxFiles} (hslot : (restored slot).inUse = true) :
    (files slot).inUse = true :=
  (h.inUse slot).symm.trans hslot

theorem treeInvariant (hfiles : TreeInvariant files) : TreeInvariant restored where
  root_directory := h.isDirectory hfiles.root_directory
  root_parent := by
    rw [(h.metadata rootSlot hfiles.root_directory.inUse).parentDir, hfiles.root_parent]
  parent_index slot hslot := by
    rw [(h.metadata slot (h.used hslot)).parentDir, h.parentOf_eq (h.used hslot),
      hfiles.parent_index slot (h.used hslot)]
  parent_directory slot hslot := by
    rw [h.parentOf_eq (h.used hslot)]
    exact h.isDirectory (hfiles.parent_directory slot (h.used hslot))
  reaches_root slot hslot :=
    (hfiles.reaches_root slot (h.used hslot)).congr_on hfiles.parent_inUse
      (fun _ hnode => h.parentOf_eq hnode) (h.used hslot)
  name_terminated slot hslot := h.terminated slot (h.used hslot)
  name_nonempty slot hslot := by
    rw [(h.metadata slot (h.used hslot)).name]
    exact hfiles.name_nonempty slot (h.used hslot)
  siblings_distinct left right hleft hright hleftUsed hrightUsed hdir hname := by
    have hl := h.metadata left (h.used hleftUsed)
    have hr := h.metadata right (h.used hrightUsed)
    rw [hl.parentDir, hr.parentDir] at hdir
    rw [hl.name, hr.name] at hname
    exact hfiles.siblings_distinct left right hleft hright (h.used hleftUsed)
      (h.used hrightUsed) hdir hname

theorem findInDir_eq : findInDir restored = findInDir files := by
  funext dir name
  have hchild : isChild restored (clampDir dir) name = isChild files (clampDir dir) name := by
    funext slot
    cases hused : (files slot).inUse with
    | false => simp only [isChild, h.inUse, hused, Bool.and_false, Bool.false_and]
    | true =>
        have hmetadata := h.metadata slot hused
        simp only [isChild, h.inUse, hmetadata.name, hmetadata.parentDir]
  unfold findInDir
  rw [hchild]

theorem walk_eq (hfiles : TreeInvariant files) (pieces : List (List UInt8)) {dir : Fin maxFiles}
    (hused : (files dir).inUse = true) : walk restored dir pieces = walk files dir pieces := by
  induction pieces generalizing dir with
  | nil => rfl
  | cons piece rest ih =>
      rw [walk, walk, h.findInDir_eq, h.parentOf_eq hused, ih hused,
        ih (hfiles.parent_inUse dir hused)]
      cases hfind : findInDir files dir (piece.take (maxFilename - 1)) with
      | none => rfl
      | some found => simp only [ih (findInDir_eq_some hfind).2.1]

theorem fsResolveImpl_eq (hfiles : TreeInvariant files) {cwd : Fin maxFiles}
    (hcwd : (files cwd).inUse = true) : fsResolveImpl restored cwd = fsResolveImpl files cwd := by
  funext path
  have hstart : (files (startDir cwd path.bytes)).inUse = true := by
    rw [startDir]
    split
    · exact hfiles.root_directory.inUse
    · exact hcwd
  rw [fsResolveImpl, fsResolveImpl, h.walk_eq hfiles _ hstart]

theorem pwdLoop_eq (hfiles : TreeInvariant files) (fuel : ℕ) {dir : Fin maxFiles}
    (hused : (files dir).inUse = true) (tmp : List UInt8) :
    pwdLoop restored fuel dir tmp = pwdLoop files fuel dir tmp := by
  induction fuel generalizing dir tmp with
  | zero => rfl
  | succ fuel ih =>
      rw [pwdLoop, pwdLoop, (h.metadata dir hused).name, h.parentOf_eq hused]
      simp only [ih (hfiles.parent_inUse dir hused)]

theorem fsPwd_eq (hfiles : TreeInvariant files) {cwd : Fin maxFiles}
    (hcwd : (files cwd).inUse = true) : fsPwd restored cwd = fsPwd files cwd := by
  funext maxLen
  rw [fsPwd, fsPwd, h.pwdLoop_eq hfiles _ hcwd]

end SameTree

/-- After a save and a restart the table is a tree again.  From every node in use all paths lead
where they led before, and the path of the node is the same. -/
theorem resolve_after_restart {m : Machine} (hm : FaultFree m) (hfiles : Storable m.files)
    (hseq : m.seq.toNat + 1 < 2 ^ 32) (hdirty : m.dirty = true)
    (hsaved : (persistSync true [] m).dirty = false) (beyond : ℕ → UInt8) :
    let restored := (boot (LoadEnv.succeeding beyond) (persistSync true [] m)).files
    TreeInvariant restored ∧ ∀ cwd, (m.files cwd).inUse = true →
      fsResolveImpl restored cwd = fsResolveImpl m.files cwd ∧
        fsPwd restored cwd = fsPwd m.files cwd := by
  rw [boot_persistSync_files hm hfiles.backed hseq hdirty hsaved]
  have hsame := hfiles.sameTree beyond
  exact ⟨hsame.treeInvariant hfiles.tree, fun cwd hcwd =>
    ⟨hsame.fsResolveImpl_eq hfiles.tree hcwd, hsame.fsPwd_eq hfiles.tree hcwd⟩⟩

theorem resolve_after_restart_twoFiles :
    TreeInvariant (boot (LoadEnv.succeeding fun _ => 0)
      (persistSync true [] (unsavedMachine externalSecond))).files :=
  (resolve_after_restart (faultFree_unsavedMachine externalSecond)
    (storable_twoFiles 7 5 Int.one_nonneg le_rfl) (by decide) rfl
    (persistSync_clean (by decide +kernel)) fun _ => 0).1

end EigenOS.Persist
