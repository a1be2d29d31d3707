import EigenOS.Filesystem.Table

/-!
# Looking up names and paths

`find_in_dir`, `find_free_slot` and the path resolver, for any table.  The resolver takes
a missing component for the final one as soon as no slash follows the next component.
-/

namespace EigenOS.Filesystem

abbrev Slot := Fin maxFiles

/-- The byte `'/'`. -/
def slash : UInt8 := 47

/-- The byte `'.'`. -/
def dot : UInt8 := 46

/-- The pieces of a path between its slashes. -/
def components : List UInt8 → List (List UInt8)
  | [] => [[]]
  | byte :: rest =>
      if byte = slash then [] :: components rest
      else
        match components rest with
        | [] => [[byte]]
        | first :: more => (byte :: first) :: more

/-- `strncmp(files[i].name, name, MAX_FILENAME) == 0` for a node in use below `dir`. -/
def isChild (files : Table) (dir : ℤ) (name : List UInt8) (slot : Slot) : Bool :=
  decide (slot ≠ rootSlot) && (files slot).inUse && decide ((files slot).parentDir = dir) &&
    decide (cString (files slot).name = name.take maxFilename)

/-- A negative directory index stands for the root. -/
def clampDir (dir : ℤ) : ℤ := if dir < 0 then 0 else dir

@[irreducible]
def findInDir (files : Table) (dir : ℤ) (name : List UInt8) : Option Slot :=
  Fin.find? (isChild files (clampDir dir) name)

@[irreducible]
def findFreeSlot (files : Table) : Option Slot :=
  Fin.find? fun slot => decide (slot ≠ rootSlot) && !(files slot).inUse

/-- What `walk` finds: a node, a missing name below a directory, or nothing. -/
inductive WalkResult where
  | found (node : Slot)
  | missing (dir : Slot) (leaf : List UInt8)
  | noEntry

def walk (files : Table) : Slot → List (List UInt8) → WalkResult
  | dir, [] => .found dir
  | dir, piece :: rest =>
      let comp := piece.take (maxFilename - 1)
      if comp = [] ∨ comp = [dot] then walk files dir rest
      else if comp = [dot, dot] then walk files (parentOf files dir) rest
      else
        match findInDir files dir.val comp with
        | some e => walk files e rest
        | none =>
            -- A slash in what is left of the path means more components.
            if 2 ≤ rest.length then .noEntry else .missing dir comp

def startDir (cwd : Slot) (path : List UInt8) : Slot :=
  if path.head? = some slash then rootSlot else cwd

def fsResolveImpl (files : Table) (cwd : Slot) (path : CString) : Option Slot :=
  if path.bytes = [] then some rootSlot
  else
    match walk files (startDir cwd path.bytes) (components path.bytes) with
    | .found node => some node
    | _ => none

/-- The parent of the final component and the component itself, which is empty when the
whole path exists. -/
def fsResolveParent (files : Table) (cwd : Slot) (path : CString) :
    Option (Slot × List UInt8) :=
  if path.bytes = [] then none
  else
    match walk files (startDir cwd path.bytes) (components path.bytes) with
    | .found node => some (node, [])
    | .missing dir leaf => some (dir, leaf)
    | .noEntry => none

/-! ## What a lookup says -/

theorem mem_of_mem_components {path piece : List UInt8} {byte : UInt8}
    (hpiece : piece ∈ components path) (hbyte : byte ∈ piece) : byte ∈ path := by
  induction path generalizing piece with
  | nil =>
      rw [components, List.mem_singleton] at hpiece
      rw [hpiece] at hbyte
      exact hbyte
  | cons head rest ih =>
      rw [components] at hpiece
      split at hpiece
      · rcases List.mem_cons.mp hpiece with rfl | hpiece
        · cases hbyte
        · exact List.mem_cons_of_mem _ (ih hpiece hbyte)
      · split at hpiece
        · rw [List.mem_singleton] at hpiece
          subst hpiece
          exact List.mem_cons.mpr (Or.inl (List.mem_singleton.mp hbyte))
        · rename_i first more hrest
          rcases List.mem_cons.mp hpiece with rfl | hpiece
          · rcases List.mem_cons.mp hbyte with rfl | hbyte
            · exact List.mem_cons_self
            · exact List.mem_cons_of_mem _ (ih (hrest ▸ List.mem_cons_self) hbyte)
          · exact List.mem_cons_of_mem _ (ih (hrest ▸ List.mem_cons_of_mem _ hpiece) hbyte)

theorem findInDir_eq_some {files : Table} {dir : ℤ} {name : List UInt8} {slot : Slot}
    (h : findInDir files dir name = some slot) :
    slot ≠ rootSlot ∧ (files slot).inUse = true ∧ (files slot).parentDir = clampDir dir ∧
      cString (files slot).name = name.take maxFilename := by
  unfold findInDir at h
  have hchild := Fin.eq_true_of_find?_eq_some h
  simpa [isChild, and_assoc] using hchild

theorem findInDir_eq_none_iff {files : Table} {dir : ℤ} {name : List UInt8} :
    findInDir files dir name = none ↔
      ∀ slot, slot ≠ rootSlot → (files slot).inUse = true →
        (files slot).parentDir = clampDir dir →
        cString (files slot).name ≠ name.take maxFilename := by
  unfold findInDir
  rw [Fin.find?_eq_none_iff]
  simp [isChild]

theorem findFreeSlot_eq_some {files : Table} {slot : Slot}
    (h : findFreeSlot files = some slot) : slot ≠ rootSlot ∧ (files slot).inUse = false := by
  unfold findFreeSlot at h
  have hfree := Fin.eq_true_of_find?_eq_some h
  simpa using hfree

@[simp]
theorem clampDir_natCast (n : ℕ) : clampDir n = n := by
  simp [clampDir]

theorem walk_missing {files : Table} {start dir : Slot} {pieces : List (List UInt8)}
    {leaf : List UInt8} (h : walk files start pieces = .missing dir leaf) :
    leaf ≠ [] ∧ leaf.length < maxFilename ∧ findInDir files dir.val leaf = none ∧
      ∃ piece ∈ pieces, ∀ byte ∈ leaf, byte ∈ piece := by
  induction pieces generalizing start with
  | nil =>
      rw [walk] at h
      cases h
  | cons piece rest ih =>
      have hlater : ∀ next, walk files next rest = .missing dir leaf →
          leaf ≠ [] ∧ leaf.length < maxFilename ∧ findInDir files dir.val leaf = none ∧
            ∃ found ∈ piece :: rest, ∀ byte ∈ leaf, byte ∈ found := by
        intro next hnext
        obtain ⟨hne, hshort, hfind, found, hfound, hbytes⟩ := ih hnext
        exact ⟨hne, hshort, hfind, found, List.mem_cons_of_mem _ hfound, hbytes⟩
      rw [walk] at h
      split at h
      · exact hlater _ h
      · rename_i hcomp
        split at h
        · exact hlater _ h
        · split at h
          · exact hlater _ h
          · rename_i hfind
            split at h
            · cases h
            · cases h
              refine ⟨fun hempty => hcomp (Or.inl hempty), ?_, hfind, piece,
                List.mem_cons_self, fun byte hbyte => List.mem_of_mem_take hbyte⟩
              rw [List.length_take]
              exact lt_of_le_of_lt (Nat.min_le_left _ _) (by decide)

theorem fsResolveParent_leaf {files : Table} {cwd dir : Slot} {path : CString}
    {leaf : List UInt8} (h : fsResolveParent files cwd path = some (dir, leaf))
    (hleaf : leaf ≠ []) :
    leaf.length < maxFilename ∧ 0 ∉ leaf ∧ findInDir files dir.val leaf = none := by
  unfold fsResolveParent at h
  split at h
  · cases h
  · split at h
    · cases h
      exact absurd rfl hleaf
    · rename_i hwalk
      cases h
      obtain ⟨_, hshort, hfind, piece, hpiece, hbytes⟩ := walk_missing hwalk
      refine ⟨hshort, ?_, hfind⟩
      intro hzero
      exact path.noNul (mem_of_mem_components hpiece (hbytes 0 hzero))
    · cases h

end EigenOS.Filesystem
