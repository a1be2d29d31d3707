import EigenOS.Filesystem.Deletion

/-!
# The tree over whole runs

Which calls keep the tree.  Deleting always does; a call that creates or moves a node does
when it puts the node below a directory, a moved one outside its own subtree, under a name
that no sibling has once it is cut to the name field.  The calls check the last of these
only in part and the others not at all.
-/

namespace EigenOS.Filesystem

open EigenOS.ParentTree EigenOS.Transition Function

/-- A node that is created goes below a directory. -/
def CreatesBelowDir (files : Table) (name : List UInt8) (parent : ℤ) : Prop :=
  name ≠ [] → findInDir files parent name = none → findFreeSlot files ≠ none →
    IsDirIndex files (clampDir parent)

/-- A node that is created does not get the stored name of a sibling. -/
def CreatesNewName (files : Table) (name : List UInt8) (parent : ℤ) : Prop :=
  name ≠ [] → findInDir files parent name = none → findFreeSlot files ≠ none →
    NameFree files (clampDir parent) name rootSlot

/-- A node in use is moved below a directory that is not below the node. -/
def MovesOutside (files : Table) (e : Slot) (parent : ℤ) : Prop :=
  (files e).inUse = true →
    IsDirIndex files parent ∧ ¬ Climbs (parentOf files) (slotAt parent) e

/-- A node in use does not get the stored name of a sibling. -/
def MovesToNewName (files : Table) (e : Slot) (name : List UInt8) (parent : ℤ) : Prop :=
  (files e).inUse = true → NameFree files parent name e

/-- A write to a file appends a byte count, and the file's capacity does not overflow.  A
write without memory to grow is refused before it looks at the count's sign. -/
def WriteFits (fs : FileSystem) (caller : Caller) (fd count : ℤ) : Prop :=
  0 ≤ fd → fd < maxFiles → (fs.files (slotAt fd)).inUse = true →
    (fs.files (slotAt fd)).type = .file →
      (fs.files (slotAt fd)).size + count ≤ intMax ∧
      fileEnsureCap (fs.files (slotAt fd)) ((fs.files (slotAt fd)).size + count)
        caller.allocated ≠ none ∧
      (0 ≤ count ∨ fileEnsureCap (fs.files (slotAt fd))
        ((fs.files (slotAt fd)).size + count) caller.allocated = some none)

/-- The condition on a call, and on the state it is made in. -/
def KeepsTree (fs : FileSystem) (caller : Caller) : FsCall → Prop
  | .mkdir path | .create path => ∀ parent leaf,
      fsResolveParent fs.files caller.cwd path = some (parent, leaf) →
        CreatesBelowDir fs.files leaf parent.val
  | .rename oldname newname => ∀ e parent leaf,
      fsResolveImpl fs.files caller.cwd oldname = some e → e ≠ rootSlot →
        fsResolveParent fs.files caller.cwd newname = some (parent, leaf) → leaf ≠ [] →
          MovesOutside fs.files e parent.val
  | .copyFile source target => ∀ s,
      fsResolveImpl fs.files caller.cwd source = some s → (fs.files s).type = .file →
        (∀ d, fsResolveImpl fs.files caller.cwd target = some d →
          (fs.files d).type = .directory →
            CreatesBelowDir fs.files (cString (fs.files s).name) d.val ∧
            CreatesNewName fs.files (cString (fs.files s).name) d.val) ∧
        ∀ parent leaf, fsResolveParent fs.files caller.cwd target = some (parent, leaf) →
          CreatesBelowDir fs.files leaf parent.val
  | .copyFileToDir srcDir srcName dstDir dstName => ∀ s,
      findInDir fs.files srcDir srcName.bytes = some s →
        let name := if dstName.bytes = [] then srcName.bytes else dstName.bytes
        CreatesBelowDir fs.files name dstDir ∧ CreatesNewName fs.files name dstDir
  | .trashFile path => 0 ≤ fs.trashDir → ∀ e,
      fsResolveImpl fs.files caller.cwd path = some e → e ≠ rootSlot →
        ∀ name, freeTrashName fs ((cString (fs.files e).name).take (maxFilename - 1)) =
            some name →
          MovesOutside fs.files e fs.trashDir ∧
            MovesToNewName fs.files e name fs.trashDir
  | .restoreFromTrash filename => 0 ≤ fs.trashDir → ∀ e,
      findInDir fs.files fs.trashDir filename.bytes = some e →
        MovesOutside fs.files e (restoreDir fs) ∧
          MovesToNewName fs.files e (cString (fs.files e).name) (restoreDir fs)
  | .write fd _ count => WriteFits fs caller fd count
  | .delete _ | .rmdir _ | .emptyTrash | .truncate _ => True

/-! ## Creating -/

variable {name leaf : List UInt8} {files : Table} {parent : ℤ} {now : UInt32} {path : CString}
  {caller : Caller}

theorem take_ne_nil (hname : name ≠ []) : name.take (maxFilename - 1) ≠ [] := by
  rw [Ne, List.take_eq_nil_iff]
  rintro (h | h)
  · exact absurd h (by decide)
  · exact hname h

theorem nameFree_of_findInDir (hshort : name.length < maxFilename)
    (hfind : findInDir files parent name = none) (self : Slot) :
    NameFree files (clampDir parent) name self := by
  intro slot hslot _ hused hparent hname
  refine findInDir_eq_none_iff.mp hfind slot hslot hused hparent ?_
  rw [hname, List.take_of_length_le (by omega), List.take_of_length_le (by omega)]

theorem treeInvariant_createEntry {type : FsType} {flags : UInt8} (hfiles : TreeInvariant files)
    (hnul : 0 ∉ name) (hdir : CreatesBelowDir files name parent)
    (hnew : CreatesNewName files name parent) :
    TreeInvariant (createEntry files name type parent flags now).1 := by
  unfold createEntry
  split
  · exact hfiles
  · rename_i hname
    split
    · exact hfiles
    · rename_i hfind
      rw [not_not] at hfind
      split
      · exact hfiles
      · rename_i idx hidx
        have hsome : findFreeSlot files ≠ none := by
          rw [hidx]
          exact Option.some_ne_none idx
        have hstored : cString (newEntry name type parent flags now).name =
            name.take (maxFilename - 1) := cString_strncpy terminated_zero hnul
        obtain ⟨hroot, hfree⟩ := findFreeSlot_eq_some hidx
        refine hfiles.create hroot hfree rfl (hdir hname hfind hsome) ?_ ?_ ?_
        · exact terminated_strncpy.mpr terminated_zero
        · rw [hstored]
          exact take_ne_nil hname
        · intro slot hslot _ hused hsame
          rw [hstored]
          exact hnew hname hfind hsome slot hslot hslot hused hsame

theorem createsNewName_of_short (hshort : name.length < maxFilename) :
    CreatesNewName files name parent :=
  fun _ hfind _ => nameFree_of_findInDir hshort hfind rootSlot

theorem treeInvariant_createLeaf {cwd dir : Slot} {type : FsType} {flags : UInt8}
    (hfiles : TreeInvariant files) (hpath : fsResolveParent files cwd path = some (dir, leaf))
    (hleaf : leaf ≠ []) (hdir : CreatesBelowDir files leaf dir.val) :
    TreeInvariant (createEntry files leaf type dir.val flags now).1 := by
  obtain ⟨hshort, hnul, _⟩ := fsResolveParent_leaf hpath hleaf
  exact treeInvariant_createEntry hfiles hnul hdir (createsNewName_of_short hshort)

theorem treeInvariant_copyContents (hfiles : TreeInvariant files) (s d : Slot) (caller : Caller) :
    TreeInvariant (copyContents files s d caller).1 := by
  unfold copyContents
  split
  · split
    · split
      · exact hfiles.congr_node rfl rfl rfl rfl
      · exact hfiles
    · exact hfiles.congr_node rfl rfl rfl rfl
  · exact hfiles.congr_node rfl rfl rfl rfl

theorem treeInvariant_copyInto {s : Slot}
    (hcreate : TreeInvariant (createEntry files name .file parent (files s).flags caller.now).1) :
    TreeInvariant (copyInto files s name parent caller).1 := by
  unfold copyInto
  split
  · rename_i created d heq
    rw [heq] at hcreate
    exact treeInvariant_copyContents hcreate s d caller
  · rename_i created heq
    rw [heq] at hcreate
    exact hcreate

/-! ## Moving -/

theorem treeInvariant_relink {e : Slot} (hfiles : TreeInvariant files) (he : e ≠ rootSlot)
    (hname : (files e).inUse = true → name ≠ []) (hnul : 0 ∉ name)
    (houtside : MovesOutside files e parent) (hnew : MovesToNewName files e name parent) :
    TreeInvariant (relink files e name parent now) := by
  unfold relink
  by_cases hused : (files e).inUse = true
  · have hterminated := hfiles.name_terminated e hused
    have hstored := cString_strncpy hterminated hnul
    obtain ⟨hparent, hbelow⟩ := houtside hused
    refine hfiles.move he hused hused rfl hparent hbelow ?_ ?_ ?_
    · exact terminated_strncpy.mpr hterminated
    · rw [hstored]
      exact take_ne_nil (hname hused)
    · intro slot hslot hne hslotUsed hsame
      rw [hstored]
      exact hnew hused slot hslot hne hslotUsed hsame
  · rw [Bool.not_eq_true] at hused
    exact hfiles.update_free hused hused

theorem treeInvariant_fsRename {oldname newname : CString} (hfiles : TreeInvariant files)
    (hguard : ∀ e parent leaf, fsResolveImpl files caller.cwd oldname = some e →
      e ≠ rootSlot → fsResolveParent files caller.cwd newname = some (parent, leaf) →
        leaf ≠ [] → MovesOutside files e parent.val) :
    TreeInvariant (fsRename files caller oldname newname).1 := by
  unfold fsRename
  split
  · exact hfiles
  · rename_i e he
    split
    · exact hfiles
    · rename_i hroot
      split
      · exact hfiles
      · rename_i parent leaf hpath
        split
        · exact hfiles
        · rename_i hleaf
          obtain ⟨hshort, hnul, hfind⟩ := fsResolveParent_leaf hpath hleaf
          rw [hfind]
          refine treeInvariant_relink hfiles hroot (fun _ => hleaf) hnul
            (hguard e parent leaf he hroot hpath hleaf) ?_
          intro _
          have hfree := nameFree_of_findInDir hshort hfind e
          rw [clampDir_natCast] at hfree
          exact hfree

theorem zero_notMem_decimalDigits (width v : ℕ) : 0 ∉ decimalDigits width v := by
  induction width generalizing v with
  | zero => simp [decimalDigits]
  | succ width ih =>
      cases v with
      | zero => simp [decimalDigits]
      | succ v =>
          simp only [decimalDigits, List.mem_cons, not_or]
          refine ⟨?_, ih _⟩
          intro hzero
          have hnat := congrArg UInt8.toNat hzero
          simp at hnat
          omega

theorem zero_notMem_trashName (hleaf : 0 ∉ leaf) (attempt : ℕ) : 0 ∉ trashName leaf attempt := by
  intro hzero
  rcases List.mem_append.mp (List.mem_of_mem_take hzero) with h | h
  · exact hleaf h
  · exact zero_notMem_decimalDigits 7 attempt (List.mem_reverse.mp h)

theorem trashName_ne_nil (hleaf : leaf ≠ []) (attempt : ℕ) : trashName leaf attempt ≠ [] := by
  unfold trashName
  rw [Ne, List.take_eq_nil_iff]
  rintro (h | h)
  · exact absurd h (by decide)
  · exact hleaf (List.append_eq_nil_iff.mp h).1

variable {fs : FileSystem}

theorem freeTrashName_eq_some (h : freeTrashName fs leaf = some name) :
    ∃ attempt, name = trashName leaf attempt := by
  obtain ⟨attempt, _, hname⟩ := Option.map_eq_some_iff.mp h
  exact ⟨attempt, hname.symm⟩

theorem treeInvariant_fsTrashFile (hfiles : TreeInvariant fs.files)
    (hguard : KeepsTree fs caller (.trashFile path)) :
    TreeInvariant (fsTrashFile fs caller path).1 := by
  unfold fsTrashFile
  split
  · exact hfiles
  · rename_i htrash
    split
    · exact hfiles
    · rename_i e he
      split
      · exact hfiles
      · rename_i hroot
        dsimp only
        split
        · rename_i name hname
          obtain ⟨houtside, hnew⟩ := hguard (not_lt.mp htrash) e he hroot name hname
          obtain ⟨attempt, rfl⟩ := freeTrashName_eq_some hname
          refine treeInvariant_relink hfiles hroot ?_ ?_ houtside hnew
          · intro hused
            exact trashName_ne_nil (take_ne_nil (hfiles.name_nonempty e hused)) attempt
          · apply zero_notMem_trashName
            intro hzero
            exact zero_notMem_cString _ (List.mem_of_mem_take hzero)
        · exact hfiles

theorem treeInvariant_fsRestoreFromTrash {filename : CString} (hfiles : TreeInvariant fs.files)
    (hguard : KeepsTree fs caller (.restoreFromTrash filename)) :
    TreeInvariant (fsRestoreFromTrash fs caller filename).1 := by
  unfold fsRestoreFromTrash
  split
  · exact hfiles
  · rename_i htrash
    split
    · exact hfiles
    · rename_i e he
      obtain ⟨hroot, hused, _, _⟩ := findInDir_eq_some he
      obtain ⟨houtside, hnew⟩ := hguard (not_lt.mp htrash) e he
      obtain ⟨hparent, hbelow⟩ := houtside hused
      refine hfiles.move hroot hused hused rfl hparent hbelow
        (hfiles.name_terminated e hused) (hfiles.name_nonempty e hused) ?_
      intro slot hslot hne hslotUsed hsame heq
      refine hnew hused slot hslot hne hslotUsed hsame ?_
      have hshort := length_cString_lt (hfiles.name_terminated e hused)
      rw [heq]
      exact (List.take_of_length_le (Nat.le_pred_of_lt hshort)).symm

/-! ## Deleting -/

theorem exists_fsDelete (hfiles : TreeInvariant files) (caller : Caller) (path : CString) :
    ∃ reply, fsDelete files caller path = some reply ∧ TreeInvariant reply.1 := by
  unfold fsDelete
  split
  · exact ⟨_, rfl, hfiles⟩
  · rename_i e he
    split
    · exact ⟨_, rfl, hfiles⟩
    · rename_i hlive
      rw [not_or, Bool.not_eq_false] at hlive
      obtain ⟨after, hafter, hpruned, _⟩ := deleteRecursive_maxFiles hfiles hlive.1 hlive.2
      rw [hafter]
      exact ⟨_, rfl, hpruned.tree⟩

theorem treeInvariant_fsRmdir (hfiles : TreeInvariant files) (caller : Caller) (path : CString) :
    TreeInvariant (fsRmdir files caller path).1 := by
  unfold fsRmdir
  split
  · exact hfiles
  · rename_i e he
    split
    · exact hfiles
    · rename_i hroot
      split
      · exact hfiles
      · split
        · exact hfiles
        · rename_i hempty
          refine hfiles.clear hroot ?_
          rintro slot hslot rfl
          apply hempty
          have hne : slot ≠ rootSlot := by
            rintro rfl
            exact hroot hfiles.parentOf_root
          have hparent := hfiles.parent_index slot hslot
          unfold fsIsDirectoryEmpty
          rw [Option.isNone_eq_false_iff, Fin.isSome_find?_iff]
          exact ⟨slot, by simp [hne, hslot, hparent]⟩

theorem exists_emptyTrash (hfiles : TreeInvariant files) (trashDir : ℤ) (slots : List Slot) :
    ∃ after, slots.foldlM
      (fun files i =>
        if i ≠ rootSlot ∧ (files i).inUse = true ∧ (files i).parentDir = trashDir then
          deleteRecursive maxFiles files i
        else some files) files = some after ∧ TreeInvariant after := by
  induction slots generalizing files with
  | nil => exact ⟨files, rfl, hfiles⟩
  | cons i rest ih =>
      rw [List.foldlM_cons]
      split
      · rename_i hchild
        obtain ⟨after, hafter, hpruned, _⟩ :=
          deleteRecursive_maxFiles hfiles hchild.1 hchild.2.1
        rw [hafter]
        exact ih hpruned.tree
      · exact ih hfiles

theorem exists_fsEmptyTrash (hfiles : TreeInvariant fs.files) :
    ∃ reply, fsEmptyTrash fs = some reply ∧ TreeInvariant reply.1 := by
  unfold fsEmptyTrash
  split
  · exact ⟨_, rfl, hfiles⟩
  · obtain ⟨after, hafter, htree⟩ :=
      exists_emptyTrash hfiles fs.trashDir (List.finRange maxFiles)
    rw [hafter]
    exact ⟨_, rfl, htree⟩

/-! ## The other calls -/

theorem treeInvariant_fsMkdir (hfiles : TreeInvariant files)
    (hguard : ∀ parent leaf, fsResolveParent files caller.cwd path = some (parent, leaf) →
      CreatesBelowDir files leaf parent.val) : TreeInvariant (fsMkdir files caller path).1 := by
  unfold fsMkdir
  split
  · exact hfiles
  · rename_i parent leaf hpath
    split
    · exact hfiles
    · rename_i hleaf
      exact treeInvariant_createLeaf hfiles hpath hleaf (hguard parent leaf hpath)

theorem treeInvariant_fsCreate (hfiles : TreeInvariant files)
    (hguard : ∀ parent leaf, fsResolveParent files caller.cwd path = some (parent, leaf) →
      CreatesBelowDir files leaf parent.val) : TreeInvariant (fsCreate files caller path).1 := by
  unfold fsCreate
  split
  · exact hfiles
  · split
    · exact hfiles
    · rename_i parent leaf hpath
      split
      · exact hfiles
      · rename_i hleaf
        exact treeInvariant_createLeaf hfiles hpath hleaf (hguard parent leaf hpath)

theorem treeInvariant_fsCopyFile {source target : CString} (hfiles : TreeInvariant fs.files)
    (hguard : KeepsTree fs caller (.copyFile source target)) :
    TreeInvariant (fsCopyFile fs.files caller source target).1 := by
  unfold fsCopyFile
  split
  · exact hfiles
  · rename_i s hs
    split
    · exact hfiles
    · rename_i htype
      rw [not_not] at htype
      obtain ⟨hinto, hleafDir⟩ := hguard s hs htype
      split
      · rename_i d hd
        rw [Option.filter_eq_some_iff] at hd
        obtain ⟨hdir, hnew⟩ := hinto d hd.1 (by simpa using hd.2)
        exact treeInvariant_copyInto
          (treeInvariant_createEntry hfiles (zero_notMem_cString _) hdir hnew)
      · split
        · exact hfiles
        · rename_i parent leaf hpath
          split
          · exact hfiles
          · rename_i hleaf
            exact treeInvariant_copyInto
              (treeInvariant_createLeaf hfiles hpath hleaf (hleafDir parent leaf hpath))

theorem treeInvariant_fsCopyFileToDir {srcDir dstDir : ℤ} {srcName dstName : CString}
    (hfiles : TreeInvariant fs.files)
    (hguard : KeepsTree fs caller (.copyFileToDir srcDir srcName dstDir dstName)) :
    TreeInvariant (fsCopyFileToDir fs.files caller srcDir srcName dstDir dstName).1 := by
  unfold fsCopyFileToDir
  split
  · exact hfiles
  · rename_i s hs
    obtain ⟨hdir, hnew⟩ := hguard s hs
    apply treeInvariant_copyInto
    refine treeInvariant_createEntry hfiles ?_ hdir hnew
    split
    · exact srcName.noNul
    · exact dstName.noNul

theorem treeInvariant_fsTruncate (hfiles : TreeInvariant files) (caller : Caller) (path : CString) :
    TreeInvariant (fsTruncate files caller path).1 := by
  unfold fsTruncate
  split
  · exact hfiles
  · split
    · exact hfiles
    · exact hfiles.congr_node rfl rfl rfl rfl

theorem fileEnsureCap_same {fp grown : FileNode} {need : ℤ} {allocated : Bool}
    (h : fileEnsureCap fp need allocated = some (some grown)) :
    grown.inUse = fp.inUse ∧ grown.type = fp.type ∧ grown.parentDir = fp.parentDir ∧
      grown.name = fp.name := by
  unfold fileEnsureCap at h
  split at h
  · cases h
    exact ⟨rfl, rfl, rfl, rfl⟩
  · split at h
    · cases h
    · split at h
      · cases h
        exact ⟨rfl, rfl, rfl, rfl⟩
      · cases h

theorem exists_fsWrite {fd count : ℤ} {buf : List UInt8} (hfiles : TreeInvariant fs.files)
    (hguard : WriteFits fs caller fd count) :
    ∃ reply, fsWrite fs.files caller fd buf count = some reply ∧ TreeInvariant reply.1 := by
  unfold fsWrite
  split
  · exact ⟨_, rfl, hfiles⟩
  · rename_i hrange
    rw [not_or, not_lt, not_le] at hrange
    dsimp only
    split
    · exact ⟨_, rfl, hfiles⟩
    · rename_i hfile
      rw [not_or, Bool.not_eq_false, not_not] at hfile
      obtain ⟨hsize, hcap, hcount⟩ := hguard hrange.1 hrange.2 hfile.1 hfile.2
      rw [if_neg (not_lt.mpr hsize)]
      split
      · rename_i hnone
        exact absurd hnone hcap
      · exact ⟨_, rfl, hfiles⟩
      · rename_i grown hgrown
        have hpos : ¬ count < 0 := by
          rcases hcount with hpos | hfail
          · exact not_lt.mpr hpos
          · rw [hfail] at hgrown
            cases hgrown
        rw [if_neg hpos]
        obtain ⟨hused, htype, hparent, hname⟩ := fileEnsureCap_same hgrown
        exact ⟨_, rfl, hfiles.congr_node hused htype hparent hname⟩

/-! ## Runs -/

theorem exists_run {call : FsCall} (hfiles : TreeInvariant fs.files)
    (hguard : KeepsTree fs caller call) :
    ∃ reply, call.run fs caller = some reply ∧ TreeInvariant reply.1 := by
  cases call with
  | mkdir path => exact ⟨_, rfl, treeInvariant_fsMkdir hfiles hguard⟩
  | create path => exact ⟨_, rfl, treeInvariant_fsCreate hfiles hguard⟩
  | delete path => exact exists_fsDelete hfiles caller path
  | rmdir path => exact ⟨_, rfl, treeInvariant_fsRmdir hfiles caller path⟩
  | rename oldname newname => exact ⟨_, rfl, treeInvariant_fsRename hfiles hguard⟩
  | copyFile source target => exact ⟨_, rfl, treeInvariant_fsCopyFile hfiles hguard⟩
  | copyFileToDir srcDir srcName dstDir dstName =>
      exact ⟨_, rfl, treeInvariant_fsCopyFileToDir hfiles hguard⟩
  | trashFile path => exact ⟨_, rfl, treeInvariant_fsTrashFile hfiles hguard⟩
  | restoreFromTrash filename =>
      exact ⟨_, rfl, treeInvariant_fsRestoreFromTrash hfiles hguard⟩
  | emptyTrash => exact exists_fsEmptyTrash hfiles
  | truncate path => exact ⟨_, rfl, treeInvariant_fsTruncate hfiles caller path⟩
  | write fd buf count => exact exists_fsWrite hfiles hguard

theorem treeInvariant_step (fs : FileSystem) (event : Caller × FsCall) (next : FileSystem)
    (hfiles : TreeInvariant fs.files) (hguard : KeepsTree fs event.1 event.2)
    (hstep : FsStep fs event next) : TreeInvariant next.files := by
  obtain ⟨reply, hrun, htree⟩ := exists_run hfiles hguard
  rw [hstep reply hrun]
  exact htree

theorem treeInvariant_initialTable : TreeInvariant initialTable := by
  have hused : ∀ slot, (initialTable slot).inUse = true → slot = rootSlot := by
    intro slot hslot
    by_contra hne
    rw [initialTable, if_neg hne] at hslot
    cases hslot
  have hroot : initialTable rootSlot = rootNode := if_pos rfl
  have hparent : parentOf initialTable rootSlot = rootSlot := by
    unfold parentOf
    rw [hroot]
    exact slotAt_natCast rootSlot
  have hterminated : Terminated rootNode.name := terminated_strncpy.mpr terminated_zero
  refine ⟨hroot ▸ ⟨rfl, rfl⟩, hroot ▸ rfl, ?_, ?_, ?_, ?_, ?_, ?_⟩
  · intro slot hslot
    rw [hused slot hslot, hparent, hroot]
    rfl
  · intro slot hslot
    rw [hused slot hslot, hparent, hroot]
    exact ⟨rfl, rfl⟩
  · intro slot hslot
    rw [hused slot hslot]
  · intro slot hslot
    rw [hused slot hslot, hroot]
    exact hterminated
  · intro slot hslot
    have hstored : cString rootNode.name = _ := cString_strncpy terminated_zero (by decide)
    rw [hused slot hslot, hroot, hstored]
    decide
  · intro left right hleft _ hleftUse _
    exact absurd (hused left hleftUse) hleft

/-- A tree of directories, which is all there is before the first file. -/
structure DirectoryTree (files : Table) : Prop where
  tree : TreeInvariant files
  directories : ∀ slot, (files slot).inUse = true → (files slot).type = .directory

/-- A component `init_filesystem` uses. -/
def IsPlain (comp : List UInt8) : Prop := 0 ∉ comp ∧ comp.length < maxFilename

instance (comp : List UInt8) : Decidable (IsPlain comp) :=
  inferInstanceAs (Decidable (_ ∧ _))

theorem IsDirectory.isDirIndex {dir : Slot} (h : IsDirectory (files dir)) :
    IsDirIndex files dir.val := by
  unfold IsDirIndex
  rw [slotAt_natCast]
  exact ⟨rfl, h⟩

theorem ensureDir_spec (now : UInt32) {files : Table} {dir : Slot} {comp : List UInt8}
    (hfiles : DirectoryTree files) (hdir : (files dir).inUse = true) (hcomp : IsPlain comp) :
    DirectoryTree (ensureDir now files dir comp).1 ∧
      ∀ e, (ensureDir now files dir comp).2 = some e →
        ((ensureDir now files dir comp).1 e).inUse = true := by
  unfold ensureDir
  split
  · rename_i e he
    refine ⟨hfiles, ?_⟩
    rintro _ ⟨⟩
    exact (findInDir_eq_some he).2.1
  · have htree : TreeInvariant (createEntry files comp .directory dir.val 0 now).1 := by
      refine treeInvariant_createEntry hfiles.tree hcomp.1 ?_
        (createsNewName_of_short hcomp.2)
      intro _ _ _
      rw [clampDir_natCast]
      exact IsDirectory.isDirIndex ⟨hdir, hfiles.directories dir hdir⟩
    revert htree
    unfold createEntry
    split
    · exact fun _ => ⟨hfiles, fun e he => nomatch he⟩
    · split
      · exact fun _ => ⟨hfiles, fun e he => nomatch he⟩
      · split
        · exact fun _ => ⟨hfiles, fun e he => nomatch he⟩
        · rename_i idx _
          intro htree
          refine ⟨⟨htree, ?_⟩, ?_⟩
          · intro slot hslot
            by_cases heq : slot = idx
            · subst heq
              dsimp only
              rw [update_self]
              rfl
            · dsimp only at hslot ⊢
              rw [update_of_ne heq] at hslot ⊢
              exact hfiles.directories slot hslot
          · rintro _ ⟨⟩
            dsimp only
            rw [update_self]
            rfl

theorem directoryTree_ensureDirs {dir : Slot} {comps : List (List UInt8)}
    (hfiles : DirectoryTree files) (hdir : (files dir).inUse = true)
    (hcomps : ∀ comp ∈ comps, IsPlain comp) : DirectoryTree (ensureDirs now files dir comps).1 := by
  induction comps generalizing files dir with
  | nil => exact hfiles
  | cons comp rest ih =>
      obtain ⟨hnext, hused⟩ :=
        ensureDir_spec now hfiles hdir (hcomps comp List.mem_cons_self)
      have hrest : ∀ comp ∈ rest, IsPlain comp :=
        fun comp hcomp => hcomps comp (List.mem_cons_of_mem _ hcomp)
      rw [ensureDirs]
      split
      · rename_i next e heq
        rw [heq] at hnext hused
        exact ih hnext (hused e rfl) hrest
      · rename_i next heq
        rw [heq] at hnext
        exact hnext

theorem directoryTree_ensureDirChain (now : UInt32) {files : Table} (path : List UInt8)
    (hfiles : DirectoryTree files) (hpath : ∀ comp ∈ components path, IsPlain comp) :
    DirectoryTree (ensureDirChain now files path).1 := by
  apply directoryTree_ensureDirs hfiles hfiles.tree.root_directory.inUse
  intro comp hcomp
  exact hpath comp (List.mem_of_mem_filter hcomp)

theorem directoryTree_initialTable : DirectoryTree initialTable := by
  refine ⟨treeInvariant_initialTable, ?_⟩
  intro slot
  unfold initialTable
  split
  · exact fun _ => rfl
  · exact nofun

theorem treeInvariant_initFilesystem (now : UInt32) :
    TreeInvariant (initFilesystem now).files := by
  have hdefault : DirectoryTree
      (defaultDirs.foldl (fun files path => (ensureDirChain now files path).1)
        initialTable) := by
    refine List.foldlRecOn defaultDirs _ directoryTree_initialTable ?_
    intro files hfiles path hpath
    have hplain : ∀ path ∈ defaultDirs, ∀ comp ∈ components path, IsPlain comp := by
      decide
    exact directoryTree_ensureDirChain _ _ hfiles (hplain path hpath)
  have hhome := directoryTree_ensureDirChain now (bytes "home/eigen") hdefault
    (by decide)
  have hdesktop := directoryTree_ensureDirChain now (bytes "home/eigen/Desktop") hhome
    (by decide)
  exact (directoryTree_ensureDirChain _ _ hdesktop (by decide)).tree

/-- In every run from `init_filesystem` whose calls all meet their condition, the tree
invariant holds in every state. -/
theorem treeInvariant_always {now : UInt32} {run : List ((Caller × FsCall) × FileSystem)}
    (hrun : Along FsStep (initFilesystem now) run)
    (hguard : Along (fun fs event _ => KeepsTree fs event.1 event.2) (initFilesystem now)
      run) :
    Always (fun fs => TreeInvariant fs.files) (initFilesystem now) run :=
  always_of_guarded (fun fs => TreeInvariant fs.files)
    treeInvariant_step (treeInvariant_initFilesystem now) hrun hguard

/-! ## Two runs -/

/-- The calls of a run, each with the state it leaves. -/
def runCalls : FileSystem → List (Caller × FsCall) → List ((Caller × FsCall) × FileSystem)
  | _, [] => []
  | fs, event :: rest =>
      let next := { fs with files := ((event.2.run fs event.1).getD (fs.files, -1)).1 }
      (event, next) :: runCalls next rest

theorem along_runCalls (fs : FileSystem) (events : List (Caller × FsCall)) :
    Along FsStep fs (runCalls fs events) := by
  induction events generalizing fs with
  | nil => trivial
  | cons event rest ih =>
      refine ⟨?_, ih _⟩
      intro reply hreply
      rw [hreply]
      rfl

def shell : Caller where
  cwd := rootSlot
  now := 0
  allocated := true

def binPath : CString := ⟨bytes "/bin", by decide⟩
def belowBinPath : CString := ⟨bytes "/bin/x", by decide⟩

theorem ensureDirs_induction {P : Table → Prop} {comps : List (List UInt8)}
    (hcreate : ∀ files idx comp parent, P files → comp ∈ comps →
      findFreeSlot files = some idx →
        P (update files idx (newEntry comp .directory parent 0 now))) {dir : Slot}
    (hfiles : P files) : P (ensureDirs now files dir comps).1 := by
  induction comps generalizing files dir with
  | nil => exact hfiles
  | cons comp rest ih =>
      have hnext : P (ensureDir now files dir comp).1 := by
        unfold ensureDir
        split
        · exact hfiles
        · unfold createEntry
          split
          · exact hfiles
          · split
            · exact hfiles
            · split
              · exact hfiles
              · rename_i idx hidx
                exact hcreate files idx comp dir.val hfiles List.mem_cons_self hidx
      have hrest : ∀ files idx comp parent, P files → comp ∈ rest →
          findFreeSlot files = some idx →
            P (update files idx (newEntry comp .directory parent 0 now)) :=
        fun files idx comp parent hP hcomp =>
          hcreate files idx comp parent hP (List.mem_cons_of_mem _ hcomp)
      rw [ensureDirs]
      split
      · rename_i next e heq
        rw [heq] at hnext
        exact ih hrest hnext
      · rename_i next heq
        rw [heq] at hnext
        exact hnext

/-- There is a "/bin", and nothing is called "x". -/
structure BinWithoutX (files : Table) : Prop where
  bin : findInDir files 0 (bytes "bin") ≠ none
  noX : ∀ slot, (files slot).inUse = true → cString (files slot).name ≠ bytes "x"

theorem cString_newEntry {comp : List UInt8} (hcomp : IsPlain comp) (type : FsType)
    (parent : ℤ) (flags : UInt8) (now : UInt32) :
    cString (newEntry comp type parent flags now).name = comp := by
  have hstored : cString (newEntry comp type parent flags now).name =
      comp.take (maxFilename - 1) := cString_strncpy terminated_zero hcomp.1
  rw [hstored]
  exact List.take_of_length_le (Nat.le_pred_of_lt hcomp.2)

theorem noX_update {idx : Slot} {comp : List UInt8}
    (hfiles : ∀ slot, (files slot).inUse = true → cString (files slot).name ≠ bytes "x")
    (hcomp : IsPlain comp) (hx : comp ≠ bytes "x") (slot : Slot)
    (hslot : (update files idx (newEntry comp .directory parent 0 now)
      slot).inUse = true) :
    cString (update files idx (newEntry comp .directory parent 0 now) slot).name ≠
      bytes "x" := by
  by_cases heq : slot = idx
  · subst heq
    rw [update_self, cString_newEntry hcomp]
    exact hx
  · rw [update_of_ne heq] at hslot ⊢
    exact hfiles slot hslot

theorem BinWithoutX.update {idx : Slot} {comp : List UInt8} (hfiles : BinWithoutX files)
    (hfree : findFreeSlot files = some idx) (hcomp : IsPlain comp) (hx : comp ≠ bytes "x") :
    BinWithoutX (update files idx (newEntry comp .directory parent 0 now)) := by
  refine ⟨?_, noX_update hfiles.noX hcomp hx⟩
  obtain ⟨e, he⟩ := Option.ne_none_iff_exists'.mp hfiles.bin
  obtain ⟨hroot, hused, hparent, hname⟩ := findInDir_eq_some he
  have hne : e ≠ idx := by
    rintro rfl
    rw [(findFreeSlot_eq_some hfree).2] at hused
    cases hused
  intro hnone
  refine findInDir_eq_none_iff.mp hnone e hroot ?_ ?_ ?_
  · rw [update_of_ne hne]
    exact hused
  · rw [update_of_ne hne]
    exact hparent
  · rw [update_of_ne hne]
    exact hname

theorem BinWithoutX.ensureDirChain {files : Table} (hfiles : BinWithoutX files)
    (now : UInt32) (path : List UInt8)
    (hpath : ∀ comp ∈ components path, IsPlain comp ∧ comp ≠ bytes "x") :
    BinWithoutX (ensureDirChain now files path).1 := by
  refine ensureDirs_induction ?_ hfiles
  intro files idx comp parent hP hcomp hfree
  obtain ⟨hplain, hx⟩ := hpath comp (List.mem_of_mem_filter hcomp)
  exact hP.update hfree hplain hx

theorem binWithoutX_first (now : UInt32) :
    BinWithoutX (ensureDirChain now initialTable (bytes "bin")).1 := by
  have hused : ∀ slot, (initialTable slot).inUse = true → slot = rootSlot := by
    intro slot hslot
    by_contra hne
    rw [initialTable, if_neg hne] at hslot
    cases hslot
  have hnone : findInDir initialTable (rootSlot.val : ℤ) (bytes "bin") = none := by
    rw [findInDir_eq_none_iff]
    intro slot hne hslot
    exact absurd (hused slot hslot) hne
  have hplain : IsPlain (bytes "bin") := by decide
  have hchain : ensureDirChain now initialTable (bytes "bin") =
      ensureDirs now initialTable rootSlot [bytes "bin"] := rfl
  have hcreate : ensureDir now initialTable rootSlot (bytes "bin") =
      createEntry initialTable (bytes "bin") .directory (rootSlot.val : ℤ) 0 now := by
    rw [ensureDir, hnone]
  have hsome : findFreeSlot initialTable ≠ none := by
    unfold findFreeSlot
    rw [Ne, Fin.find?_eq_none_iff]
    intro hall
    exact absurd (hall ⟨1, by decide⟩) (by decide)
  obtain ⟨idx, hidx⟩ := Option.ne_none_iff_exists'.mp hsome
  have hne : bytes "bin" ≠ [] := by decide
  have htable : (ensureDirChain now initialTable (bytes "bin")).1 =
      update initialTable idx
        (newEntry (bytes "bin") .directory (rootSlot.val : ℤ) 0 now) := by
    rw [hchain, ensureDirs, hcreate, createEntry, if_neg hne, hnone, if_neg (by simp),
      hidx]
    rfl
  rw [htable]
  refine ⟨?_, noX_update ?_ hplain (by decide)⟩
  · intro hall
    refine findInDir_eq_none_iff.mp hall idx (findFreeSlot_eq_some hidx).1 ?_ ?_ ?_
    · rw [update_self]
      rfl
    · rw [update_self]
      rfl
    · rw [update_self, cString_newEntry hplain]
      decide
  · intro slot hslot
    have hstored : cString rootNode.name = _ := cString_strncpy terminated_zero (by decide)
    rw [hused slot hslot, initialTable, if_pos rfl, hstored]
    decide

theorem binWithoutX_initFilesystem (now : UInt32) :
    BinWithoutX (initFilesystem now).files := by
  have hcomps : ∀ path ∈ defaultDirs.tail, ∀ comp ∈ components path,
      IsPlain comp ∧ comp ≠ bytes "x" := by decide
  have hdefault : BinWithoutX
      (defaultDirs.foldl (fun files path => (ensureDirChain now files path).1)
        initialTable) := by
    have hdirs : defaultDirs = bytes "bin" :: defaultDirs.tail := rfl
    rw [hdirs, List.foldl_cons]
    refine List.foldlRecOn defaultDirs.tail _ (binWithoutX_first now) ?_
    intro files hfiles path hpath
    exact hfiles.ensureDirChain _ _ (hcomps path hpath)
  have hhome := hdefault.ensureDirChain now (bytes "home/eigen") (by decide)
  have hdesktop := hhome.ensureDirChain now (bytes "home/eigen/Desktop") (by decide)
  exact hdesktop.ensureDirChain _ _ (by decide)

theorem walk_slash (files : Table) (dir : Slot) (rest : List (List UInt8)) :
    walk files dir ([] :: rest) = walk files dir rest := by
  rw [walk]
  exact if_pos (Or.inl rfl)

/-- `rename("/bin", "/bin/x")` makes a directory its own parent. -/
theorem fsRename_bin (hfiles : BinWithoutX files) :
    ∃ e, e ≠ rootSlot ∧ (files e).inUse = true ∧
      fsRename files shell binPath belowBinPath =
        (relink files e (bytes "x") e.val shell.now, 0) := by
  obtain ⟨e, he⟩ := Option.ne_none_iff_exists'.mp hfiles.bin
  obtain ⟨hroot, hused, _, _⟩ := findInDir_eq_some he
  refine ⟨e, hroot, hused, ?_⟩
  have hbin : findInDir files (rootSlot.val : ℤ) ((bytes "bin").take (maxFilename - 1)) =
      some e := he
  have hx : findInDir files (e.val : ℤ) ((bytes "x").take (maxFilename - 1)) = none := by
    rw [findInDir_eq_none_iff]
    intro slot _ hslot _
    exact hfiles.noX slot hslot
  have hwalk : walk files rootSlot [[], bytes "bin"] = .found e := by
    rw [walk_slash, walk, if_neg (by decide), if_neg (by decide), hbin]
    rfl
  have hwalkBelow : walk files rootSlot [[], bytes "bin", bytes "x"] =
      .missing e (bytes "x") := by
    rw [walk_slash, walk, if_neg (by decide), if_neg (by decide), hbin]
    dsimp only
    rw [walk, if_neg (by decide), if_neg (by decide), hx]
    rfl
  have hold : fsResolveImpl files shell.cwd binPath = some e := by
    have hpieces : components binPath.bytes = [[], bytes "bin"] := by decide
    have hstart : startDir shell.cwd binPath.bytes = rootSlot := by decide
    rw [fsResolveImpl, if_neg (by decide), hpieces, hstart, hwalk]
  have hnew : fsResolveParent files shell.cwd belowBinPath = some (e, bytes "x") := by
    have hpieces : components belowBinPath.bytes = [[], bytes "bin", bytes "x"] := by decide
    have hstart : startDir shell.cwd belowBinPath.bytes = rootSlot := by decide
    rw [fsResolveParent, if_neg (by decide), hpieces, hstart, hwalkBelow]
  have hleaf : bytes "x" ≠ [] := by decide
  have hfind : findInDir files (e.val : ℤ) (bytes "x") = none := hx
  rw [fsRename, hold]
  dsimp only
  rw [if_neg hroot, hnew]
  dsimp only
  rw [if_neg hleaf, hfind]

theorem not_tree_renameBin (hfs : BinWithoutX fs.files) :
    ¬ TreeInvariant (fsRename fs.files shell binPath belowBinPath).1 := by
  intro hafter
  obtain ⟨e, hroot, hused, hrename⟩ := fsRename_bin hfs
  rw [hrename] at hafter
  have hfixed : parentOf (relink fs.files e (bytes "x") e.val shell.now) e = e := by
    unfold parentOf relink
    rw [update_self]
    exact slotAt_natCast e
  have hstill : (relink fs.files e (bytes "x") e.val shell.now e).inUse = true := by
    unfold relink
    rw [update_self]
    exact hused
  exact hroot (Climbs.eq_of_fixed hfixed (hafter.reaches_root e hstill)).symm

theorem not_always_renameBin (hfs : BinWithoutX fs.files) :
    ¬ Always (fun fs => TreeInvariant fs.files) fs
      (runCalls fs [(shell, .rename binPath belowBinPath)]) := by
  intro htree
  rw [runCalls, always_cons] at htree
  exact not_tree_renameBin hfs htree.2.start

/-- Renaming a directory into itself breaks the tree. -/
theorem renameIntoItself_not_tree :
    ¬ Always (fun fs => TreeInvariant fs.files) (initFilesystem 0)
      (runCalls (initFilesystem 0) [(shell, .rename binPath belowBinPath)]) :=
  not_always_renameBin (binWithoutX_initFilesystem 0)

def newPath : CString := ⟨bytes "/new", by decide⟩

theorem keepsTree_mkdir_new (hfiles : TreeInvariant fs.files) :
    KeepsTree fs shell (.mkdir newPath) := by
  intro parent leaf hpath hleaf _ _
  have hpieces : components newPath.bytes = [[], bytes "new"] := by decide
  have hstart : startDir shell.cwd newPath.bytes = rootSlot := by decide
  have hparent : parent = rootSlot := by
    rw [fsResolveParent, if_neg (by decide), hpieces, hstart, walk_slash, walk,
      if_neg (by decide), if_neg (by decide)] at hpath
    cases hfind : findInDir fs.files (rootSlot.val : ℤ)
      ((bytes "new").take (maxFilename - 1)) with
    | some e =>
        rw [hfind] at hpath
        cases hpath
        exact absurd rfl hleaf
    | none =>
        rw [hfind] at hpath
        cases hpath
        rfl
  subst hparent
  rw [clampDir_natCast]
  exact IsDirectory.isDirIndex hfiles.root_directory

/-- A directory is made and removed, and the trash emptied. -/
theorem mkdirThenDelete_tree :
    Always (fun fs => TreeInvariant fs.files) (initFilesystem 0)
      (runCalls (initFilesystem 0)
        [(shell, .mkdir newPath), (shell, .rmdir newPath), (shell, .emptyTrash)]) :=
  treeInvariant_always (along_runCalls _ _)
    ⟨keepsTree_mkdir_new (treeInvariant_initFilesystem 0), trivial, trivial, trivial⟩

end EigenOS.Filesystem
