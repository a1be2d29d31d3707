import Mathlib.Data.Fintype.Pi
import Mathlib.Data.List.TakeWhile
import Mathlib.Data.UInt
import EigenOS.Library.ParentTree

/-!
# The node table

`files[]` holds 256 nodes and slot 0 is always "/".  A directory owns its
children purely by their `parentDir` slot.  A node owns its bytes exactly when
its capacity is positive; a positive size over capacity 0 marks external
storage, aliased straight to boot-module memory.
-/

namespace EigenOS.Filesystem

def maxFiles : ℕ := 256
def maxFilename : ℕ := 64

/-! ## Names -/

/-- A `char[MAX_FILENAME]` buffer. -/
abbrev Name := Fin maxFilename → UInt8

/-- A string argument: the bytes before its terminating NUL. -/
structure CString where
  bytes : List UInt8
  noNul : 0 ∉ bytes

/-- What a string routine reads from a name buffer. -/
def cString (name : Name) : List UInt8 :=
  (List.ofFn name).takeWhile (· ≠ 0)

/-- `strncpy`: the source, then zeros up to `count`; the rest of the buffer stays. -/
def strncpy (dest : Name) (source : List UInt8) (count : ℕ) : Name :=
  fun index => if index.val < count then source.getD index 0 else dest index

/-- The buffer's last byte is NUL, so every read of it stops inside the field. -/
def Terminated (name : Name) : Prop :=
  name ⟨maxFilename - 1, by decide⟩ = 0

instance (name : Name) : Decidable (Terminated name) :=
  inferInstanceAs (Decidable (_ = _))

theorem zero_notMem_cString (name : Name) : 0 ∉ cString name := by
  intro hmem
  have hne := List.mem_takeWhile_imp hmem
  simp at hne

theorem length_cString_lt {name : Name} (hname : Terminated name) :
    (cString name).length < maxFilename := by
  by_contra hlong
  have hall : cString name = List.ofFn name := by
    have hprefix : cString name <+: List.ofFn name := List.takeWhile_prefix _
    exact hprefix.eq_of_length_le (by simpa using hlong)
  have hlast : (0 : UInt8) ∈ cString name := by
    rw [hall, List.mem_ofFn]
    exact ⟨_, hname⟩
  exact zero_notMem_cString name hlast

@[simp]
theorem terminated_strncpy {dest : Name} {source : List UInt8} :
    Terminated (strncpy dest source (maxFilename - 1)) ↔ Terminated dest := by
  simp [Terminated, strncpy]

theorem ofFn_strncpy {dest : Name} (source : List UInt8) (hdest : Terminated dest) :
    List.ofFn (strncpy dest source (maxFilename - 1)) =
      source.take (maxFilename - 1) ++
        List.replicate (maxFilename - (source.take (maxFilename - 1)).length) 0 := by
  apply List.ext_getElem
  · simp only [List.length_ofFn, List.length_append, List.length_take,
      List.length_replicate]
    omega
  · intro index hleft _
    have hindex : index < maxFilename := by simpa using hleft
    rw [List.getElem_ofFn, List.getElem_append]
    by_cases hlast : index < maxFilename - 1
    · by_cases hsource : index < source.length
      · simp [strncpy, hlast, hsource]
      · simp [strncpy, hlast, hsource]
    · have heq : index = maxFilename - 1 := by omega
      subst heq
      have hzero : strncpy dest source (maxFilename - 1) ⟨maxFilename - 1, hindex⟩ = 0 :=
        terminated_strncpy.mpr hdest
      simp [hzero]

theorem cString_strncpy {dest : Name} {source : List UInt8} (hdest : Terminated dest)
    (hsource : 0 ∉ source) :
    cString (strncpy dest source (maxFilename - 1)) = source.take (maxFilename - 1) := by
  have hkeep : ∀ byte ∈ source.take (maxFilename - 1), decide (byte ≠ 0) = true := by
    intro byte hmem
    have hne : byte ≠ 0 := fun heq => hsource (heq ▸ List.mem_of_mem_take hmem)
    simpa using hne
  rw [cString, ofFn_strncpy source hdest, List.takeWhile_append_of_pos hkeep]
  simp

/-! ## Nodes -/

/-- `fs_type_t`.  A snapshot stores it as one byte, which need not be one of the
two enumerators. -/
inductive FsType where
  | file
  | directory
  | other (code : UInt8)
  deriving DecidableEq, Repr

/-- `file_t`.  `data` is what the data pointer leads to, `none` being NULL. -/
structure FileNode where
  name : Name
  data : Option (List UInt8)
  size : ℤ
  capacity : ℤ
  inUse : Bool
  type : FsType
  parentDir : ℤ
  flags : UInt8
  creationTime : UInt32
  modifiedTime : UInt32
  deriving DecidableEq

/-- A node after `memset(f, 0, sizeof *f)`. -/
def FileNode.zero : FileNode where
  name := fun _ => 0
  data := none
  size := 0
  capacity := 0
  inUse := false
  type := .file
  parentDir := 0
  flags := 0
  creationTime := 0
  modifiedTime := 0

@[simp] theorem FileNode.zero_inUse : FileNode.zero.inUse = false := rfl
@[simp] theorem FileNode.zero_parentDir : FileNode.zero.parentDir = 0 := rfl

theorem terminated_zero : Terminated FileNode.zero.name := rfl

/-- `files[MAX_FILES]`. -/
abbrev Table := Fin maxFiles → FileNode

def rootSlot : Fin maxFiles := ⟨0, by decide⟩

/-- The node `init_filesystem` puts in slot 0. -/
def rootNode : FileNode :=
  { FileNode.zero with
    inUse := true
    type := .directory
    name := strncpy (fun _ => 0) [47] (maxFilename - 1) }

/-- The table `init_filesystem` starts from: the root alone. -/
def initialTable : Table :=
  fun slot => if slot = rootSlot then rootNode else FileNode.zero

end EigenOS.Filesystem

/-!
## The tree invariant

What makes the node table a tree below "/": every node in use hangs off a
directory in use, following parents ends in slot 0, names are non-empty strings
inside their field, and siblings have different names.
-/

namespace EigenOS.Filesystem

open EigenOS.ParentTree

/-- The slot a parent index denotes; an index outside the table denotes none, and the
invariant rules it out. -/
def slotAt (index : ℤ) : Fin maxFiles :=
  if hindex : index.toNat < maxFiles then ⟨index.toNat, hindex⟩ else rootSlot

def parentOf (files : Table) (slot : Fin maxFiles) : Fin maxFiles :=
  slotAt (files slot).parentDir

@[simp]
theorem slotAt_natCast (slot : Fin maxFiles) : slotAt (slot.val : ℤ) = slot := by
  simp [slotAt]

/-- A directory in use. -/
structure IsDirectory (fp : FileNode) : Prop where
  inUse : fp.inUse = true
  type_eq : fp.type = .directory

structure TreeInvariant (files : Table) : Prop where
  root_directory : IsDirectory (files rootSlot)
  root_parent : (files rootSlot).parentDir = 0
  parent_index : ∀ slot, (files slot).inUse = true →
    (files slot).parentDir = (parentOf files slot).val
  parent_directory : ∀ slot, (files slot).inUse = true →
    IsDirectory (files (parentOf files slot))
  reaches_root : ∀ slot, (files slot).inUse = true →
    Climbs (parentOf files) slot rootSlot
  name_terminated : ∀ slot, (files slot).inUse = true → Terminated (files slot).name
  name_nonempty : ∀ slot, (files slot).inUse = true → cString (files slot).name ≠ []
  siblings_distinct : ∀ left right, left ≠ rootSlot → right ≠ rootSlot →
    (files left).inUse = true → (files right).inUse = true →
    (files left).parentDir = (files right).parentDir →
    cString (files left).name = cString (files right).name → left = right

end EigenOS.Filesystem
