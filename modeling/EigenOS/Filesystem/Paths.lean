import EigenOS.Filesystem.TreeChanges

/-!
# Absolute paths

In a tree every node has one list of names that leads to it from the root, and a list leads
to at most one node.  How a path string breaks into pieces, and how the resolver follows the
names of an absolute path.
-/

namespace EigenOS.Filesystem

open EigenOS.ParentTree

/-! ## The names above a node -/

/-- The names on the way from the root down to a node. -/
inductive IsPath (files : Table) : Slot → List (List UInt8) → Prop
  | root : IsPath files rootSlot []
  | child {slot : Slot} {names : List (List UInt8)} (hroot : slot ≠ rootSlot)
      (hused : (files slot).inUse = true) (hup : IsPath files (parentOf files slot) names) :
      IsPath files slot (names ++ [cString (files slot).name])

theorem TreeInvariant.exists_isPath {files : Table} (hfiles : TreeInvariant files)
    {slot : Slot} (hused : (files slot).inUse = true) : ∃ names, IsPath files slot names := by
  have hclimbs := hfiles.reaches_root slot hused
  induction hclimbs using Relation.ReflTransGen.head_induction_on with
  | refl => exact ⟨[], IsPath.root⟩
  | @head child above hstep _ ih =>
      by_cases hroot : child = rootSlot
      · subst hroot
        exact ⟨[], IsPath.root⟩
      · subst hstep
        obtain ⟨names, hnames⟩ := ih (hfiles.parent_inUse child hused)
        exact ⟨_, hnames.child hroot hused⟩

/-! ## Pieces of a path -/

/-- Every name behind a slash of its own. -/
def slashed (names : List (List UInt8)) : List UInt8 := names.flatMap (slash :: ·)

/-! ## Following names -/

theorem findInDir_eq_some_iff {files : Table} (hfiles : TreeInvariant files) {dir slot : Slot}
    {name : List UInt8} (hname : name.length < maxFilename) :
    findInDir files dir.val name = some slot ↔
      slot ≠ rootSlot ∧ (files slot).inUse = true ∧ parentOf files slot = dir ∧
        cString (files slot).name = name := by
  have htake : name.take maxFilename = name := List.take_of_length_le hname.le
  constructor
  · intro hfind
    obtain ⟨hroot, hused, hparent, hstored⟩ := findInDir_eq_some hfind
    refine ⟨hroot, hused, ?_, htake ▸ hstored⟩
    rw [parentOf, hparent, clampDir_natCast, slotAt_natCast]
  · rintro ⟨hroot, hused, hparent, hstored⟩
    have hindex : (files slot).parentDir = clampDir (dir.val : ℤ) := by
      rw [hfiles.parent_index slot hused, hparent, clampDir_natCast]
    cases hfind : findInDir files dir.val name with
    | none =>
        exact absurd (hstored.trans htake.symm)
          (findInDir_eq_none_iff.mp hfind slot hroot hused hindex)
    | some found =>
        obtain ⟨hfoundRoot, hfoundUsed, hfoundParent, hfoundName⟩ := findInDir_eq_some hfind
        rw [htake] at hfoundName
        exact congrArg some (hfiles.siblings_distinct found slot hfoundRoot hroot hfoundUsed
          hused (hfoundParent.trans hindex.symm) (hfoundName.trans hstored.symm))

theorem walk_append {files : Table} {start dir : Slot} {before : List (List UInt8)}
    (h : walk files start before = .found dir) (after : List (List UInt8)) :
    walk files start (before ++ after) = walk files dir after := by
  induction before generalizing start with
  | nil =>
      cases h
      rfl
  | cons piece rest ih =>
      rw [walk] at h
      rw [List.cons_append, walk]
      split at h
      · rename_i hskip
        rw [if_pos hskip]
        exact ih h
      · rename_i hskip
        rw [if_neg hskip]
        split at h
        · rename_i hup
          rw [if_pos hup]
          exact ih h
        · rename_i hup
          rw [if_neg hup]
          split at h
          · exact ih h
          · split at h <;> cases h

end EigenOS.Filesystem
