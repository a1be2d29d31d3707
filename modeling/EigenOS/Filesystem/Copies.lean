import EigenOS.Filesystem.Planting

/-!
# Copies that fail

`fs_copy_file` and `fs_copy_file_to_dir` create the copy's node before they ask for the memory
of its bytes.  A copy that fails after that leaves an empty node behind.
-/

namespace EigenOS.Filesystem

open Function

/-- The bytes of a node. -/
def contentOf (fp : FileNode) : List UInt8 := (fp.data.getD []).take fp.size.toNat

/-- One new file holds exactly what the source held, and nothing else has changed. -/
def CopiedFrom (files after : Table) (s : Slot) : Prop :=
  ∃ d, (files d).inUse = false ∧ (after d).inUse = true ∧ (after d).type = .file ∧
    (after d).size = (files s).size ∧ contentOf (after d) = contentOf (files s) ∧
    ∀ slot, slot ≠ d → after slot = files slot

/-- The call fails with the table as it was. -/
def Refused (files : Table) (reply : Reply) : Prop := reply.2 = -1 ∧ reply.1 = files

/-- The call copies the source, or changes nothing. -/
def CopiesOrKeeps (files : Table) (s : Slot) (reply : Reply) : Prop :=
  reply.2 = 0 ∧ CopiedFrom files reply.1 s ∨ Refused files reply

def CopyFileRight (files : Table) (caller : Caller) (source : CString) (reply : Reply) : Prop :=
  (∃ s, fsResolveImpl files caller.cwd source = some s ∧ (files s).type = .file ∧
    reply.2 = 0 ∧ CopiedFrom files reply.1 s) ∨ Refused files reply

def CopyFileToDirRight (files : Table) (srcDir : ℤ) (srcName : CString) (reply : Reply) : Prop :=
  (∃ s, findInDir files srcDir srcName.bytes = some s ∧
    reply.2 = 0 ∧ CopiedFrom files reply.1 s) ∨ Refused files reply

/-! ## When a copy is complete -/

/-- The source has bytes to copy; it has none once the copy's node was made in its slot. -/
def HasBytes (files : Table) (s d : Slot) : Prop :=
  s ≠ d ∧ 0 < (files s).size ∧ (files s).data ≠ none

/-- Where a node is created in slot `d`, there is memory for the bytes of the source, or there
are no bytes and the source's size says so. -/
def CopyFits (files : Table) (s : Slot) (name : List UInt8) (parent : ℤ) (allocated : Bool) :
    Prop :=
  ∀ d, name ≠ [] → findInDir files parent name = none → findFreeSlot files = some d →
    (HasBytes files s d → allocated = true) ∧ (¬ HasBytes files s d → (files s).size = 0)

/-- The name and the directory that `fs_copy_file` makes the copy in. -/
def copyPlace (files : Table) (cwd s : Slot) (target : CString) : Option (List UInt8 × ℤ) :=
  match (fsResolveImpl files cwd target).filter fun d => (files d).type = .directory with
  | some d => some (cString (files s).name, d.val)
  | none =>
      match fsResolveParent files cwd target with
      | none => none
      | some (parent, leaf) => if leaf = [] then none else some (leaf, parent.val)

/-- The condition on `fs_copy_file`. -/
def CopyFileFits (files : Table) (caller : Caller) (source target : CString) : Prop :=
  ∀ s name parent, fsResolveImpl files caller.cwd source = some s → (files s).type = .file →
    copyPlace files caller.cwd s target = some (name, parent) →
      CopyFits files s name parent caller.allocated

/-- The condition on `fs_copy_file_to_dir`. -/
def CopyFileToDirFits (files : Table) (caller : Caller) (srcDir : ℤ) (srcName : CString)
    (dstDir : ℤ) (dstName : CString) : Prop :=
  ∀ s, findInDir files srcDir srcName.bytes = some s →
    CopyFits files s (if dstName.bytes = [] then srcName.bytes else dstName.bytes) dstDir
      caller.allocated

theorem fsCopyFile_eq_copyPlace (files : Table) (caller : Caller) (source target : CString) :
    fsCopyFile files caller source target =
      match fsResolveImpl files caller.cwd source with
      | none => (files, -1)
      | some s =>
          if (files s).type ≠ .file then (files, -1)
          else
            match copyPlace files caller.cwd s target with
            | none => (files, -1)
            | some (name, parent) => copyInto files s name parent caller := by
  unfold fsCopyFile copyPlace
  cases fsResolveImpl files caller.cwd source with
  | none => rfl
  | some s =>
      dsimp only
      split
      · rfl
      · cases (fsResolveImpl files caller.cwd target).filter
          fun d => (files d).type = .directory with
        | some d => rfl
        | none =>
            cases fsResolveParent files caller.cwd target with
            | none => rfl
            | some found =>
                dsimp only
                split <;> rfl

/-! ## Making the copy -/

theorem refused (files : Table) : Refused files (files, -1) := ⟨rfl, rfl⟩

theorem copyInto_of_free {files : Table} {s d : Slot} {name : List UInt8} {parent : ℤ}
    {caller : Caller} (hname : name ≠ []) (hnew : findInDir files parent name = none)
    (hfree : findFreeSlot files = some d) :
    copyInto files s name parent caller =
      copyContents (update files d
        (newEntry name .file parent (files s).flags caller.now)) s d caller := by
  unfold copyInto createEntry
  rw [if_neg hname, if_neg (not_not.mpr hnew), hfree]

theorem copyInto_refused {files : Table} {s : Slot} {name : List UInt8} {parent : ℤ}
    {caller : Caller} (h : ¬ (name ≠ [] ∧ findInDir files parent name = none ∧
      findFreeSlot files ≠ none)) :
    copyInto files s name parent caller = (files, -1) := by
  unfold copyInto createEntry
  by_cases hname : name = []
  · rw [if_pos hname]
  · rw [if_neg hname]
    by_cases hnew : findInDir files parent name = none
    · rw [if_neg (not_not.mpr hnew)]
      cases hfree : findFreeSlot files with
      | none => rfl
      | some d => exact absurd ⟨hname, hnew, by rw [hfree]; exact Option.some_ne_none d⟩ h
    · rw [if_pos hnew]

section Made

variable {files : Table} {s d : Slot} {fp : FileNode} {caller : Caller}

theorem copiedFrom_update (hfree : (files d).inUse = false) (hused : fp.inUse = true)
    (htype : fp.type = .file) (hsize : fp.size = (files s).size)
    (hcontent : contentOf fp = contentOf (files s)) :
    CopiedFrom files (update files d fp) s := by
  refine ⟨d, hfree, ?_, ?_, ?_, ?_, fun slot hslot => update_of_ne hslot _ _⟩
  all_goals rw [update_self]
  exacts [hused, htype, hsize, hcontent]

theorem CopiedFrom.size_eq (h : CopiedFrom files (update files d fp) s) :
    fp.size = (files s).size := by
  obtain ⟨made, hfree, hused, _, hsize, _, _⟩ := h
  by_cases hmade : made = d
  · subst hmade
    rw [update_self] at hsize
    exact hsize
  · rw [update_of_ne hmade, hfree] at hused
    cases hused

end Made

theorem contentOf_of_size_zero {fp : FileNode} (h : fp.size = 0) : contentOf fp = [] := by
  rw [contentOf, h]
  rfl

theorem copiesOrKeeps_copyContents_iff {files : Table} {s d : Slot} {entry : FileNode}
    {caller : Caller} (hfree : (files d).inUse = false) (hused : entry.inUse = true)
    (htype : entry.type = .file) (hsize : entry.size = 0) (hdata : entry.data = none) :
    CopiesOrKeeps files s (copyContents (update files d entry) s d caller) ↔
      (HasBytes files s d → caller.allocated = true) ∧
        (¬ HasBytes files s d → (files s).size = 0) := by
  have hkept : ¬ Refused files (update files d entry, -1) := by
    rintro ⟨_, hsame⟩
    have hslot : update files d entry d = files d := congrFun hsame d
    rw [update_self] at hslot
    rw [hslot, hfree] at hused
    cases hused
  by_cases hbytes : HasBytes files s d
  · obtain ⟨hne, hpos, hsome⟩ := hbytes
    obtain ⟨data, hdataSome⟩ := Option.ne_none_iff_exists'.mp hsome
    have hsource : update files d entry s = files s := update_of_ne hne _ _
    have hcopied : copyContents (update files d entry) s d caller =
        if caller.allocated then
          (update files d
            { entry.stamp caller.now with
              data := some (data.take (files s).size.toNat)
              size := (files s).size
              capacity := (files s).size }, 0)
        else (update files d entry, -1) := by
      unfold copyContents
      rw [hsource, hdataSome]
      dsimp only
      rw [if_pos hpos, update_idem, update_self]
    rw [hcopied]
    by_cases halloc : caller.allocated = true
    · rw [if_pos halloc]
      refine iff_of_true (Or.inl ⟨rfl, ?_⟩) ⟨fun _ => halloc, fun hnot => absurd ?_ hnot⟩
      · refine copiedFrom_update hfree ?_ ?_ rfl ?_
        · exact hused
        · exact htype
        · simp only [contentOf, hdataSome, Option.getD_some, List.take_take, Nat.min_self]
      · exact ⟨hne, hpos, hsome⟩
    · rw [if_neg halloc]
      refine iff_of_false ?_ fun h => halloc (h.1 ⟨hne, hpos, hsome⟩)
      rintro (⟨hret, _⟩ | hrefused)
      · cases hret
      · exact hkept hrefused
  · have hempty : copyContents (update files d entry) s d caller =
        (update files d (entry.stamp caller.now), 0) := by
      have hstamp : update (update files d entry) d
          ((update files d entry d).stamp caller.now) =
            update files d (entry.stamp caller.now) := by
        rw [update_idem, update_self]
      unfold copyContents
      by_cases hs : s = d
      · subst hs
        rw [update_self, hdata]
        dsimp only
        rw [update_idem]
      · rw [update_of_ne hs, hstamp]
        cases hsource : (files s).data with
        | none => rfl
        | some data =>
            dsimp only
            rw [if_neg]
            exact fun hpos => hbytes ⟨hs, hpos, by rw [hsource]; exact Option.some_ne_none _⟩
    rw [hempty]
    constructor
    · rintro (⟨_, hcopied⟩ | ⟨hret, _⟩)
      · exact ⟨fun h => absurd h hbytes, fun _ => hcopied.size_eq.symm.trans hsize⟩
      · cases hret
    · rintro ⟨_, hzero⟩
      refine Or.inl ⟨rfl, copiedFrom_update hfree ?_ ?_ ?_ ?_⟩
      · exact hused
      · exact htype
      · exact hsize.trans (hzero hbytes).symm
      · rw [contentOf_of_size_zero (hzero hbytes)]
        exact contentOf_of_size_zero hsize

theorem copiesOrKeeps_copyInto_iff (files : Table) (s : Slot) (name : List UInt8)
    (parent : ℤ) (caller : Caller) :
    CopiesOrKeeps files s (copyInto files s name parent caller) ↔
      CopyFits files s name parent caller.allocated := by
  by_cases hmade : name ≠ [] ∧ findInDir files parent name = none ∧ findFreeSlot files ≠ none
  · obtain ⟨hname, hnew, hsome⟩ := hmade
    obtain ⟨d, hfree⟩ := Option.ne_none_iff_exists'.mp hsome
    rw [copyInto_of_free hname hnew hfree,
      copiesOrKeeps_copyContents_iff (findFreeSlot_eq_some hfree).2 rfl rfl rfl rfl]
    constructor
    · intro h found _ _ hfound
      rw [hfree] at hfound
      cases hfound
      exact h
    · exact fun h => h d hname hnew hfree
  · rw [copyInto_refused hmade]
    refine iff_of_true (Or.inr (refused files)) ?_
    intro d hname hnew hfree
    exact absurd ⟨hname, hnew, by rw [hfree]; exact Option.some_ne_none d⟩ hmade

theorem copyFileRight_of_resolved {files : Table} {caller : Caller} {source : CString} {s : Slot}
    (hsource : fsResolveImpl files caller.cwd source = some s) (htype : (files s).type = .file)
    (reply : Reply) :
    CopyFileRight files caller source reply ↔ CopiesOrKeeps files s reply := by
  unfold CopyFileRight CopiesOrKeeps
  rw [hsource]
  simp only [Option.some.injEq, exists_eq_left', htype, true_and]

theorem copyFileFits_of_resolved {files : Table} {caller : Caller} {source : CString} {s : Slot}
    (hsource : fsResolveImpl files caller.cwd source = some s) (htype : (files s).type = .file)
    (target : CString) :
    CopyFileFits files caller source target ↔
      ∀ name parent, copyPlace files caller.cwd s target = some (name, parent) →
        CopyFits files s name parent caller.allocated := by
  unfold CopyFileFits
  constructor
  · exact fun h name parent => h s name parent hsource htype
  · intro h s' name parent hsource' _
    obtain rfl : s = s' := Option.some.inj (hsource.symm.trans hsource')
    exact h name parent

theorem copyFileRight_iff (files : Table) (caller : Caller) (source target : CString) :
    CopyFileRight files caller source (fsCopyFile files caller source target) ↔
      CopyFileFits files caller source target := by
  have hkept : CopyFileRight files caller source (files, -1) := Or.inr (refused files)
  rw [fsCopyFile_eq_copyPlace]
  cases hsource : fsResolveImpl files caller.cwd source with
  | none =>
      refine iff_of_true hkept fun s _ _ hsome => ?_
      rw [hsource] at hsome
      cases hsome
  | some s =>
      dsimp only
      by_cases htype : (files s).type = .file
      · rw [if_neg (not_not.mpr htype), copyFileRight_of_resolved hsource htype,
          copyFileFits_of_resolved hsource htype]
        cases hplace : copyPlace files caller.cwd s target with
        | none => exact iff_of_true (Or.inr (refused files)) nofun
        | some place =>
            rw [copiesOrKeeps_copyInto_iff]
            constructor
            · rintro h name parent ⟨⟩
              exact h
            · exact fun h => h place.1 place.2 rfl
      · rw [if_pos htype]
        refine iff_of_true hkept fun s' _ _ hsome hfile => ?_
        obtain rfl : s = s' := Option.some.inj (hsource.symm.trans hsome)
        exact absurd hfile htype

theorem copyFileToDirRight_iff (files : Table) (caller : Caller) (srcDir : ℤ) (srcName : CString)
    (dstDir : ℤ) (dstName : CString) :
    CopyFileToDirRight files srcDir srcName
        (fsCopyFileToDir files caller srcDir srcName dstDir dstName) ↔
      CopyFileToDirFits files caller srcDir srcName dstDir dstName := by
  unfold CopyFileToDirRight CopyFileToDirFits fsCopyFileToDir
  cases hsource : findInDir files srcDir srcName.bytes with
  | none => exact iff_of_true (Or.inr (refused files)) nofun
  | some s =>
      simp only [Option.some.injEq, exists_eq_left', forall_eq']
      exact copiesOrKeeps_copyInto_iff files s _ dstDir caller

/-- A copy is made whole or not at all exactly when, once its node is made, its bytes can be
had. -/
theorem copies_iff (files : Table) (caller : Caller) :
    (∀ source target,
      CopyFileRight files caller source (fsCopyFile files caller source target) ↔
        CopyFileFits files caller source target) ∧
    ∀ srcDir srcName dstDir dstName,
      CopyFileToDirRight files srcDir srcName
          (fsCopyFileToDir files caller srcDir srcName dstDir dstName) ↔
        CopyFileToDirFits files caller srcDir srcName dstDir dstName :=
  ⟨copyFileRight_iff files caller, copyFileToDirRight_iff files caller⟩

def oneFile : List FileNode :=
  [{ newEntry (bytes "f") .file 0 0 0 with data := some [1, 2], size := 2, capacity := 128 }]

def fPath : CString := ⟨bytes "/f", by decide⟩
def gPath : CString := ⟨bytes "/g", by decide⟩

/-- Without memory the copy fails, and leaves an empty "/g". -/
theorem not_copyFileRight_oneFile :
    TreeInvariant (plant oneFile) ∧
      ¬ CopyFileRight (plant oneFile) { shell with allocated := false } fPath
        (fsCopyFile (plant oneFile) { shell with allocated := false } fPath gPath) := by
  refine ⟨treeInvariant_plant (by decide +kernel), ?_⟩
  rintro (⟨_, _, _, hret, _⟩ | ⟨_, hsame⟩)
  · exact absurd hret (by decide +kernel)
  · have hslot := congrArg FileNode.inUse (congrFun hsame (plantSlot 1 (by decide)))
    exact absurd hslot (by decide +kernel)

end EigenOS.Filesystem
