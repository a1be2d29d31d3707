import EigenOS.Filesystem.Planting

/-!
# Trashing and restoring

`fs_trash_file` links a node into the trash under a name that it first looks for and then cuts
to the field; `fs_restore_from_trash` links it to the home directory and looks at nothing.
Neither asks whether the directory lies below the node.  When a node goes to the trash and
comes back the way it should, whatever happens to other nodes in between.
-/

namespace EigenOS.Filesystem

open EigenOS.ParentTree EigenOS.Transition Function

/-! ## What moving a node means -/

/-- Everything of a node but its name, its place and its time stamps. -/
structure SameContent (fp after : FileNode) : Prop where
  inUse : after.inUse = fp.inUse
  type_eq : after.type = fp.type
  flags : after.flags = fp.flags
  data : after.data = fp.data
  size : after.size = fp.size
  capacity : after.capacity = fp.capacity

/-- The node is a child of a directory outside of it, under a name that no other child has,
and the other nodes, those below it among them, are as they were. -/
structure Moved (files after : Table) (e : Slot) (dir : ℤ) : Prop where
  used : (after e).inUse = true
  directory : IsDirIndex after dir
  parent : (after e).parentDir = dir
  outside : ¬ Climbs (parentOf after) (slotAt dir) e
  name_free : ∀ other, other ≠ rootSlot → other ≠ e → (after other).inUse = true →
    (after other).parentDir = dir → cString (after other).name ≠ cString (after e).name
  content : SameContent (files e) (after e)
  others : ∀ slot, slot ≠ e → after slot = files slot

/-- A successful call moves the named node to the trash, and every node still hangs off the
root. -/
def TrashRight (fs : FileSystem) (caller : Caller) (path : CString) : Prop :=
  (fsTrashFile fs caller path).2 = 0 →
    ∃ e, fsResolveImpl fs.files caller.cwd path = some e ∧
      Moved fs.files (fsTrashFile fs caller path).1 e fs.trashDir ∧
      ∀ slot, ((fsTrashFile fs caller path).1 slot).inUse = true →
        Climbs (parentOf (fsTrashFile fs caller path).1) slot rootSlot

def storedName (fp : FileNode) : CString := ⟨cString fp.name, zero_notMem_cString fp.name⟩

/-- A successful call with the name of the node moves that node to the home directory. -/
def RestoreRight (fs : FileSystem) (caller : Caller) (e : Slot) : Prop :=
  (fsRestoreFromTrash fs caller (storedName (fs.files e))).2 = 0 →
    Moved fs.files (fsRestoreFromTrash fs caller (storedName (fs.files e))).1 e fs.homeDir

/-- A call that returns and is about other nodes. -/
def LeavesNode (e : Slot) (fs : FileSystem) (event : Caller × FsCall) (next : FileSystem) :
    Prop :=
  ∃ reply, event.2.run fs event.1 = some reply ∧ next = { fs with files := reply.1 } ∧
    next.files e = fs.files e

/-- The path names the node, and trashing it succeeds. -/
def Trashes (fs : FileSystem) (caller : Caller) (path : CString) (e : Slot) : Prop :=
  fsResolveImpl fs.files caller.cwd path = some e ∧ (fsTrashFile fs caller path).2 = 0

def afterTrash (fs : FileSystem) (caller : Caller) (path : CString) : FileSystem :=
  { fs with files := (fsTrashFile fs caller path).1 }

/-- The node goes to the trash, any calls about other nodes follow, and it comes back. -/
def TrashRestoreRight (fs : FileSystem) (caller : Caller) (path : CString)
    (run : List ((Caller × FsCall) × FileSystem)) (later : Caller) : Prop :=
  TrashRight fs caller path ∧ ∀ e, Trashes fs caller path e →
    Along (LeavesNode e) (afterTrash fs caller path) run →
      RestoreRight (final (afterTrash fs caller path) run) later e

/-! ## The exact conditions -/

/-- The node is in use, the directory lies outside of it, and no other child has the name. -/
structure MoveFits (files : Table) (e : Slot) (dir : ℤ) (stored : List UInt8) : Prop where
  used : (files e).inUse = true
  directory : IsDirIndex files dir
  outside : ¬ Climbs (parentOf files) (slotAt dir) e
  name_free : ∀ other, other ≠ rootSlot → other ≠ e → (files other).inUse = true →
    (files other).parentDir = dir → cString (files other).name ≠ stored

/-- The node's name as `fs_trash_file` copies it. -/
def trashLeaf (fp : FileNode) : List UInt8 := (cString fp.name).take (maxFilename - 1)

/-- One of the 64 names that are tried is free in the trash. -/
def AttemptFree (fs : FileSystem) (leaf : List UInt8) (attempt : ℕ) : Prop :=
  attempt < 64 ∧ findInDir fs.files fs.trashDir (trashName leaf attempt) = none

/-- A name that fits the field is free, or the node is in the trash already under a name
that fills the field. -/
def NameFits (fs : FileSystem) (e : Slot) : Prop :=
  (∃ attempt, AttemptFree fs (trashLeaf (fs.files e)) attempt ∧
      (trashName (trashLeaf (fs.files e)) attempt).length < maxFilename) ∨
    ((fs.files e).parentDir = fs.trashDir ∧
      (trashLeaf (fs.files e)).length = maxFilename - 1)

/-- When the call finds a name, the node may go to the trash under it. -/
def TrashFits (fs : FileSystem) (caller : Caller) (path : CString) : Prop :=
  0 ≤ fs.trashDir → ∀ e, fsResolveImpl fs.files caller.cwd path = some e → e ≠ rootSlot →
    (∃ attempt, AttemptFree fs (trashLeaf (fs.files e)) attempt) →
      (fs.files e).inUse = true ∧ IsDirIndex fs.files fs.trashDir ∧
      ¬ Climbs (parentOf fs.files) (slotAt fs.trashDir) e ∧ NameFits fs e

/-- No entry of the trash in a lower slot has the name, and the node may go to the home
directory under it. -/
def RestoreFits (fs : FileSystem) (e : Slot) : Prop :=
  (∀ other, other < e → other ≠ rootSlot → (fs.files other).inUse = true →
    (fs.files other).parentDir = fs.trashDir →
      cString (fs.files other).name ≠ cString (fs.files e).name) ∧
  MoveFits fs.files e fs.homeDir (cString (fs.files e).name)

def TrashRestoreFits (fs : FileSystem) (caller : Caller) (path : CString)
    (run : List ((Caller × FsCall) × FileSystem)) : Prop :=
  TrashFits fs caller path ∧ ∀ e, Trashes fs caller path e →
    Along (LeavesNode e) (afterTrash fs caller path) run →
      RestoreFits (final (afterTrash fs caller path) run) e

/-! ## Moving -/

variable {e : Slot}

theorem moved_iff {files : Table} {fp : FileNode} {dir : ℤ} {stored : List UInt8}
    (hparent : fp.parentDir = dir) (hname : cString fp.name = stored)
    (hcontent : SameContent (files e) fp) :
    Moved files (update files e fp) e dir ↔ MoveFits files e dir stored := by
  have hself : update files e fp e = fp := update_self ..
  have hothers : ∀ slot, slot ≠ e → update files e fp slot = files slot :=
    fun slot hslot => update_of_ne hslot _ _
  have hclimbs : Climbs (parentOf (update files e fp)) (slotAt dir) e ↔
      Climbs (parentOf files) (slotAt dir) e := by
    rw [parentOf_update]
    exact climbs_update_iff
  have hdirectory : slotAt dir ≠ e →
      (IsDirIndex (update files e fp) dir ↔ IsDirIndex files dir) := by
    intro hne
    unfold IsDirIndex
    rw [hothers _ hne]
  have hne : ¬ Climbs (parentOf files) (slotAt dir) e → slotAt dir ≠ e := by
    rintro hout heq
    rw [heq] at hout
    exact hout (Climbs.refl e)
  constructor
  · intro h
    have hout := mt hclimbs.mpr h.outside
    refine ⟨?_, (hdirectory (hne hout)).mp h.directory, hout, ?_⟩
    · have hused := h.used
      rw [hself, hcontent.inUse] at hused
      exact hused
    · intro other hroot hother hused hsame
      have hfree := h.name_free other hroot hother
      rw [hothers other hother, hself, hname] at hfree
      exact hfree hused hsame
  · intro h
    refine ⟨?_, (hdirectory (hne h.outside)).mpr h.directory, ?_, mt hclimbs.mp h.outside, ?_, ?_,
      hothers⟩
    · rw [hself, hcontent.inUse]
      exact h.used
    · rw [hself]
      exact hparent
    · intro other hroot hother
      rw [hothers other hother, hself, hname]
      exact h.name_free other hroot hother
    · rw [hself]
      exact hcontent

/-! ## The name in the trash -/

theorem length_decimalDigits : ∀ k < 64,
    (decimalDigits 7 k).length = if k = 0 then 0 else if k < 10 then 1 else 2 := by decide

theorem decimalDigits_two : ∀ k < 64, 10 ≤ k → (decimalDigits 7 k).reverse =
    (decimalDigits 7 (k / 10)).reverse ++ [UInt8.ofNat (48 + k % 10)] := by decide

theorem length_trashLeaf (fp : FileNode) : (trashLeaf fp).length < maxFilename :=
  lt_of_le_of_lt (List.length_take_le _ _) (by decide)

theorem trashLeaf_of_terminated {fp : FileNode} (h : Terminated fp.name) :
    trashLeaf fp = cString fp.name :=
  List.take_of_length_le (Nat.le_sub_one_of_lt (length_cString_lt h))

section Name

variable {leaf : List UInt8} {k : ℕ} (hleaf : leaf.length < maxFilename) (hk : k < 64)
include hleaf hk

theorem trashName_eq : trashName leaf k = leaf ++ (decimalDigits 7 k).reverse := by
  apply List.take_of_length_le
  rw [List.length_append, List.length_reverse, length_decimalDigits k hk]
  unfold maxFilename at *
  split <;> [skip; split] <;> omega

theorem length_trashName : (trashName leaf k).length =
    leaf.length + if k = 0 then 0 else if k < 10 then 1 else 2 := by
  rw [trashName_eq hleaf hk, List.length_append, List.length_reverse, length_decimalDigits k hk]

theorem length_trashName_mono {j : ℕ} (hkj : j ≤ k) :
    (trashName leaf j).length ≤ (trashName leaf k).length := by
  rw [length_trashName hleaf hk, length_trashName hleaf (by omega)]
  apply Nat.add_le_add_left
  split_ifs <;> omega

theorem take_trashName_of_long (hlong : maxFilename ≤ (trashName leaf k).length) :
    (leaf.length = maxFilename - 1 ∧ 0 < k ∧
        (trashName leaf k).take (maxFilename - 1) = trashName leaf 0) ∨
      (leaf.length = maxFilename - 2 ∧ 10 ≤ k ∧
        (trashName leaf k).take (maxFilename - 1) = trashName leaf (k / 10)) := by
  have hlen := length_trashName hleaf hk
  have hpos : 0 < k := by
    rcases Nat.eq_zero_or_pos k with rfl | hpos
    · rw [hlen, if_pos rfl] at hlong
      omega
    · exact hpos
  by_cases hfull : leaf.length = maxFilename - 1
  · refine Or.inl ⟨hfull, hpos, ?_⟩
    rw [trashName_eq hleaf hk, List.take_left' hfull, trashName_eq hleaf (by omega)]
    exact (List.append_nil leaf).symm
  · have hten : 10 ≤ k := by
      by_contra hsmall
      rw [hlen, if_neg (by omega), if_pos (by omega)] at hlong
      unfold maxFilename at *
      omega
    rw [hlen, if_neg (by omega), if_neg (by omega)] at hlong
    have htwo : leaf.length = maxFilename - 2 := by
      unfold maxFilename at *
      omega
    have hdigit := length_decimalDigits (k / 10) (by omega)
    rw [if_neg (by omega), if_pos (by omega)] at hdigit
    refine Or.inr ⟨htwo, hten, ?_⟩
    rw [trashName_eq hleaf hk, trashName_eq hleaf (by omega), decimalDigits_two k hk hten,
      ← List.append_assoc]
    apply List.take_left'
    rw [List.length_append, List.length_reverse, hdigit, htwo]
    rfl

end Name

variable {fs : FileSystem}

theorem freeTrashName_iff {leaf name : List UInt8} :
    freeTrashName fs leaf = some name ↔
      ∃ k, AttemptFree fs leaf k ∧ name = trashName leaf k ∧
        ∀ j, j < k → ¬ AttemptFree fs leaf j := by
  unfold freeTrashName AttemptFree
  rw [Option.map_eq_some_iff]
  constructor
  · rintro ⟨k, hfind, rfl⟩
    obtain ⟨hfree, hk, hearlier⟩ := List.find?_range_eq_some.mp hfind
    refine ⟨k, ⟨List.mem_range.mp hk, Option.isNone_iff_eq_none.mp hfree⟩, rfl, ?_⟩
    rintro j hj ⟨_, hnone⟩
    have hused := hearlier j hj
    rw [hnone] at hused
    cases hused
  · rintro ⟨k, ⟨hk, hfree⟩, rfl, hearlier⟩
    refine ⟨k, List.find?_range_eq_some.mpr ⟨?_, List.mem_range.mpr hk, ?_⟩, rfl⟩
    · rw [hfree]
      rfl
    · intro j hj
      rw [Bool.not_eq_true', ← Bool.not_eq_true, Option.isNone_iff_eq_none]
      exact fun hnone => hearlier j hj ⟨by omega, hnone⟩

theorem freeTrashName_eq_none_iff {leaf : List UInt8} :
    freeTrashName fs leaf = none ↔ ¬ ∃ attempt, AttemptFree fs leaf attempt := by
  unfold freeTrashName AttemptFree
  rw [Option.map_eq_none_iff, List.find?_eq_none]
  constructor
  · rintro hnone ⟨k, hk, hfree⟩
    refine hnone k (List.mem_range.mpr hk) ?_
    rw [hfree]
    rfl
  · intro hnone k hk hfree
    exact hnone ⟨k, List.mem_range.mp hk, Option.isNone_iff_eq_none.mp hfree⟩

theorem clampDir_of_nonneg {dir : ℤ} (h : 0 ≤ dir) : clampDir dir = dir := if_neg (not_lt.mpr h)

theorem exists_entry (htrash : 0 ≤ fs.trashDir) {leaf : List UInt8} {j : ℕ} (hj : j < 64)
    (hshort : (trashName leaf j).length ≤ maxFilename) (h : ¬ AttemptFree fs leaf j) :
    ∃ other, other ≠ rootSlot ∧ (fs.files other).inUse = true ∧
      (fs.files other).parentDir = fs.trashDir ∧
      cString (fs.files other).name = trashName leaf j := by
  obtain ⟨other, hother⟩ := Option.ne_none_iff_exists'.mp fun hnone => h ⟨hj, hnone⟩
  obtain ⟨hroot, hused, hparent, hname⟩ := findInDir_eq_some hother
  rw [clampDir_of_nonneg htrash] at hparent
  rw [List.take_of_length_le hshort] at hname
  exact ⟨other, hroot, hused, hparent, hname⟩

theorem nameFits_iff (hfiles : TreeInvariant fs.files) (he : e ≠ rootSlot)
    (hused : (fs.files e).inUse = true) (htrash : 0 ≤ fs.trashDir) {k : ℕ}
    (hk : AttemptFree fs (trashLeaf (fs.files e)) k)
    (hfirst : ∀ j, j < k → ¬ AttemptFree fs (trashLeaf (fs.files e)) j) :
    (∀ other, other ≠ rootSlot → other ≠ e → (fs.files other).inUse = true →
      (fs.files other).parentDir = fs.trashDir → cString (fs.files other).name ≠
        (trashName (trashLeaf (fs.files e)) k).take (maxFilename - 1)) ↔
      NameFits fs e := by
  have hleaf := length_trashLeaf (fs.files e)
  have hname := trashLeaf_of_terminated (hfiles.name_terminated e hused)
  have hlen := fun j => length_trashName (k := j) hleaf
  constructor
  · intro hfree
    by_cases hshort : (trashName (trashLeaf (fs.files e)) k).length < maxFilename
    · exact Or.inl ⟨k, hk, hshort⟩
    · rcases take_trashName_of_long hleaf hk.1 (not_lt.mp hshort) with
        ⟨hfull, hpos, htake⟩ | ⟨htwo, hten, htake⟩
      · -- The leaf fills the field: the entry that has it already can only be the node itself.
        obtain ⟨other, hroot, hotherUsed, hparent, hother⟩ :=
          exists_entry htrash (by omega) (by rw [hlen 0 (by omega), if_pos rfl]; omega)
            (hfirst 0 hpos)
        by_cases hself : other = e
        · subst hself
          exact Or.inr ⟨hparent, hfull⟩
        · exact absurd (hother.trans htake.symm) (hfree other hroot hself hotherUsed hparent)
      · have hten' : (trashName (trashLeaf (fs.files e)) (k / 10)).length = maxFilename - 1 := by
          have hdigits := hk.1
          rw [hlen (k / 10) (by omega), htwo, if_neg (by omega), if_pos (by omega)]
          rfl
        obtain ⟨other, hroot, hotherUsed, hparent, hother⟩ :=
          exists_entry htrash (by have := hk.1; omega) (by rw [hten']; decide)
            (hfirst (k / 10) (by omega))
        have hself : other ≠ e := by
          rintro rfl
          rw [← hname] at hother
          rw [← hother, htwo] at hten'
          exact absurd hten' (by decide)
        exact absurd (hother.trans htake.symm) (hfree other hroot hself hotherUsed hparent)
  · rintro (⟨j, hj, hshort⟩ | ⟨hparent, hfull⟩) other hroot hself hotherUsed hotherParent hother
    · have hkj : k ≤ j := not_lt.mp fun hlt => hfirst j hlt hj
      have hshortK : (trashName (trashLeaf (fs.files e)) k).length < maxFilename :=
        lt_of_le_of_lt (length_trashName_mono hleaf hj.1 hkj) hshort
      rw [List.take_of_length_le (Nat.le_sub_one_of_lt hshortK)] at hother
      refine findInDir_eq_none_iff.mp hk.2 other hroot hotherUsed ?_ ?_
      · rw [clampDir_of_nonneg htrash]
        exact hotherParent
      · rw [hother, List.take_of_length_le hshortK.le]
    · rw [trashName_eq hleaf hk.1, List.take_left' hfull, hname] at hother
      exact hself (hfiles.siblings_distinct other e hroot he hotherUsed hused
        (hotherParent.trans hparent.symm) hother)

/-! ## Trashing -/

/-- A trashed node is stored under the first 63 bytes of its new name. -/
theorem moved_relink_iff {files : Table} {name : List UInt8} {dir : ℤ} {now : UInt32}
    (hterminated : Terminated (files e).name) (hnul : 0 ∉ name) :
    Moved files (relink files e name dir now) e dir ↔
      MoveFits files e dir (name.take (maxFilename - 1)) :=
  moved_iff rfl (cString_strncpy hterminated hnul) ⟨rfl, rfl, rfl, rfl, rfl, rfl⟩

theorem zero_notMem_trashLeaf (fp : FileNode) : 0 ∉ trashLeaf fp :=
  fun hzero => zero_notMem_cString _ (List.mem_of_mem_take hzero)

variable {caller : Caller} {path : CString}

theorem trashRight_of_fails (h : fsTrashFile fs caller path = (fs.files, -1)) :
    TrashRight fs caller path := by
  intro hret
  rw [h] at hret
  cases hret

/-- The call moves the node of the path to the trash, under the first attempt that is free. -/
structure TrashesAs (fs : FileSystem) (caller : Caller) (path : CString) (e : Slot) (k : ℕ) :
    Prop where
  trash : 0 ≤ fs.trashDir
  found : fsResolveImpl fs.files caller.cwd path = some e
  ne_root : e ≠ rootSlot
  free : AttemptFree fs (trashLeaf (fs.files e)) k
  first : ∀ j, j < k → ¬ AttemptFree fs (trashLeaf (fs.files e)) j

theorem fsTrashFile_eq {k : ℕ} (h : TrashesAs fs caller path e k) :
    fsTrashFile fs caller path =
      (relink fs.files e (trashName (trashLeaf (fs.files e)) k) fs.trashDir caller.now, 0) := by
  have hname : freeTrashName fs ((cString (fs.files e).name).take (maxFilename - 1)) =
      some (trashName (trashLeaf (fs.files e)) k) :=
    freeTrashName_iff.mpr ⟨k, h.free, rfl, h.first⟩
  rw [fsTrashFile, if_neg (not_lt.mpr h.trash), h.found]
  dsimp only
  rw [if_neg h.ne_root, hname]

theorem fsTrashFile_refused (hnone : ∀ e k, ¬ TrashesAs fs caller path e k) :
    fsTrashFile fs caller path = (fs.files, -1) := by
  rw [fsTrashFile]
  by_cases htrash : fs.trashDir < 0
  · exact if_pos htrash
  · rw [if_neg htrash]
    cases he : fsResolveImpl fs.files caller.cwd path with
    | none => rfl
    | some e =>
        dsimp only
        by_cases hroot : e = rootSlot
        · exact if_pos hroot
        · rw [if_neg hroot]
          cases hname : freeTrashName fs ((cString (fs.files e).name).take (maxFilename - 1)) with
          | none => rfl
          | some name =>
              obtain ⟨k, hfree, _, hfirst⟩ := freeTrashName_iff.mp hname
              exact absurd ⟨not_lt.mp htrash, he, hroot, hfree, hfirst⟩ (hnone e k)

theorem exists_trashes (htrash : 0 ≤ fs.trashDir)
    (he : fsResolveImpl fs.files caller.cwd path = some e) (hroot : e ≠ rootSlot)
    (hfree : ∃ attempt, AttemptFree fs (trashLeaf (fs.files e)) attempt) :
    ∃ k, TrashesAs fs caller path e k := by
  cases hname : freeTrashName fs (trashLeaf (fs.files e)) with
  | none => exact absurd hfree (freeTrashName_eq_none_iff.mp hname)
  | some name =>
      obtain ⟨k, hk, _, hfirst⟩ := freeTrashName_iff.mp hname
      exact ⟨k, htrash, he, hroot, hk, hfirst⟩

theorem trashRight_iff (hfiles : TreeInvariant fs.files) (caller : Caller) (path : CString) :
    TrashRight fs caller path ↔ TrashFits fs caller path := by
  by_cases htrashes : ∃ e k, TrashesAs fs caller path e k
  · obtain ⟨e, k, h⟩ := htrashes
    have hnul := zero_notMem_trashName (zero_notMem_trashLeaf (fs.files e)) k
    unfold TrashRight
    rw [fsTrashFile_eq h, h.found]
    constructor
    · intro hright _ other hsome _ _
      obtain rfl : e = other := Option.some.inj (h.found.symm.trans hsome)
      obtain ⟨_, ⟨⟩, hmoved, _⟩ := hright rfl
      have hused : (fs.files e).inUse = true := hmoved.content.inUse ▸ hmoved.used
      have hfits := (moved_relink_iff (hfiles.name_terminated e hused) hnul).mp hmoved
      exact ⟨hused, hfits.directory, hfits.outside,
        (nameFits_iff hfiles h.ne_root hused h.trash h.free h.first).mp hfits.name_free⟩
    · intro hfits _
      obtain ⟨hused, hdir, houtside, hfit⟩ := hfits h.trash e h.found h.ne_root ⟨k, h.free⟩
      have hfree := (nameFits_iff hfiles h.ne_root hused h.trash h.free h.first).mpr hfit
      have hne : trashName (trashLeaf (fs.files e)) k ≠ [] :=
        trashName_ne_nil (take_ne_nil (hfiles.name_nonempty e hused)) k
      have htree : TreeInvariant (relink fs.files e
          (trashName (trashLeaf (fs.files e)) k) fs.trashDir caller.now) :=
        treeInvariant_relink hfiles h.ne_root (fun _ => hne) hnul
          (fun _ => ⟨hdir, houtside⟩) fun _ => hfree
      exact ⟨e, rfl, (moved_relink_iff (hfiles.name_terminated e hused) hnul).mpr
        ⟨hused, hdir, houtside, hfree⟩, htree.reaches_root⟩
  · have hnone : ∀ e k, ¬ TrashesAs fs caller path e k := fun e k h => htrashes ⟨e, k, h⟩
    refine iff_of_true (trashRight_of_fails (fsTrashFile_refused hnone)) ?_
    intro htrash e he hroot hfree
    obtain ⟨k, h⟩ := exists_trashes htrash he hroot hfree
    exact absurd h (hnone e k)

/-! ## Restoring -/

theorem length_cString_le (name : Name) : (cString name).length ≤ maxFilename := by
  have hprefix : cString name <+: List.ofFn name := List.takeWhile_prefix _
  have hlen := hprefix.length_le
  rw [List.length_ofFn] at hlen
  exact hlen

theorem findInDir_first {files : Table} {dir : ℤ} {name : List UInt8} {slot other : Slot}
    (h : findInDir files dir name = some slot) (hother : other < slot)
    (hroot : other ≠ rootSlot) (hused : (files other).inUse = true)
    (hparent : (files other).parentDir = clampDir dir) :
    cString (files other).name ≠ name.take maxFilename := by
  unfold findInDir at h
  have hnot := Fin.eq_false_of_find?_eq_some_of_lt h other hother
  intro hname
  simp [isChild, hroot, hused, hparent, hname] at hnot

/-- The node that `fs_restore_from_trash` leaves in the slot it finds. -/
def restored (fs : FileSystem) (caller : Caller) (e : Slot) : FileNode :=
  { (fs.files e).stamp caller.now with parentDir := restoreDir fs }

theorem sameContent_restored (fs : FileSystem) (caller : Caller) (e : Slot) :
    SameContent (fs.files e) (restored fs caller e) := ⟨rfl, rfl, rfl, rfl, rfl, rfl⟩

theorem restoreRight_iff (later : Caller) (he : e ≠ rootSlot) (hused : (fs.files e).inUse = true)
    (htrash : 0 ≤ fs.trashDir) (hparent : (fs.files e).parentDir = fs.trashDir) :
    RestoreRight fs later e ↔ RestoreFits fs e := by
  have hclamp := clampDir_of_nonneg htrash
  have htake : (cString (fs.files e).name).take maxFilename = cString (fs.files e).name :=
    List.take_of_length_le (length_cString_le _)
  cases hfind : findInDir fs.files fs.trashDir (cString (fs.files e).name) with
  | none =>
      exact absurd htake.symm
        (findInDir_eq_none_iff.mp hfind e he hused (hparent.trans hclamp.symm))
  | some found =>
      obtain ⟨hfoundRoot, hfoundUsed, hfoundParent, hfoundName⟩ := findInDir_eq_some hfind
      have hreply : fsRestoreFromTrash fs later (storedName (fs.files e)) =
          (update fs.files found (restored fs later found), 0) := by
        rw [fsRestoreFromTrash, if_neg (not_lt.mpr htrash), storedName, hfind]
        rfl
      have hhome : ∀ {files : Table}, IsDirIndex files fs.homeDir → restoreDir fs = fs.homeDir := by
        intro files hdir
        apply if_pos
        rw [hdir.1]
        exact Int.natCast_nonneg _
      unfold RestoreRight
      rw [hreply]
      dsimp only
      constructor
      · intro hright
        have hmoved := hright rfl
        have hrestore := hhome hmoved.directory
        have hsame : found = e := by
          -- Another entry with the name would end up beside the node in the home directory.
          by_contra hne
          have hnode : update fs.files found (restored fs later found) e =
              fs.files e := update_of_ne (Ne.symm hne) _ _
          refine hmoved.name_free found hfoundRoot hne ?_ ?_ ?_
          · rw [update_self]
            exact hfoundUsed
          · rw [update_self]
            exact hrestore
          · rw [update_self, hnode]
            exact hfoundName.trans htake
        subst hsame
        refine ⟨fun other hlt hroot hotherUsed hotherParent hname => ?_,
          (moved_iff hrestore rfl (sameContent_restored fs later found)).mp hmoved⟩
        exact findInDir_first hfind hlt hroot hotherUsed (hotherParent.trans hclamp.symm)
          (hname.trans htake.symm)
      · rintro ⟨hfirst, hfits⟩ _
        have hsame : found = e := by
          rcases lt_trichotomy found e with hlt | heq | hgt
          · exact absurd (hfoundName.trans htake)
              (hfirst found hlt hfoundRoot hfoundUsed (hfoundParent.trans hclamp))
          · exact heq
          · exact absurd htake.symm
              (findInDir_first hfind hgt he hused (hparent.trans hclamp.symm))
        subst hsame
        exact (moved_iff (hhome hfits.directory) rfl
          (sameContent_restored fs later found)).mpr hfits

/-! ## There and back -/

/-- Calls about other nodes leave the node, and none changes the two directories' indices. -/
theorem final_of_leavesNode {run : List ((Caller × FsCall) × FileSystem)}
    (h : Along (LeavesNode e) fs run) :
    (final fs run).files e = fs.files e ∧ (final fs run).trashDir = fs.trashDir ∧
      (final fs run).homeDir = fs.homeDir := by
  induction run generalizing fs with
  | nil => exact ⟨rfl, rfl, rfl⟩
  | cons step rest ih =>
      obtain ⟨event, next⟩ := step
      obtain ⟨⟨reply, _, rfl, hnode⟩, hrest⟩ := h
      obtain ⟨hfiles, htrash, hhome⟩ := ih hrest
      exact ⟨hfiles.trans hnode, htrash, hhome⟩

/-- Trashing and restoring a node are right exactly when the names and places fit, whatever
calls about other nodes come in between. -/
theorem trash_restore_iff {fs : FileSystem} (hfiles : TreeInvariant fs.files) (caller : Caller)
    (path : CString) (run : List ((Caller × FsCall) × FileSystem)) (later : Caller) :
    TrashRestoreRight fs caller path run later ↔ TrashRestoreFits fs caller path run := by
  unfold TrashRestoreRight TrashRestoreFits
  rw [trashRight_iff hfiles caller path]
  refine and_congr_right fun hfits => forall_congr' fun e => ?_
  refine forall_congr' fun htrashes => forall_congr' fun hrun => ?_
  obtain ⟨he, hret⟩ := htrashes
  obtain ⟨_, hsome, hmoved, hreach⟩ := (trashRight_iff hfiles caller path).mpr hfits hret
  rw [he] at hsome
  cases hsome
  obtain ⟨hnode, htrash, _⟩ := final_of_leavesNode hrun
  have hroot : e ≠ rootSlot := by
    rintro rfl
    exact hmoved.outside (hreach _ hmoved.directory.2.inUse)
  have hnonneg : 0 ≤ fs.trashDir := by
    rw [hmoved.directory.1]
    exact Int.natCast_nonneg _
  apply restoreRight_iff later hroot
  · rw [hnode]
    exact hmoved.used
  · rw [htrash]
    exact hnonneg
  · rw [hnode, htrash]
    exact hmoved.parent

/-- The directories "/home", "/home/eigen" and "/home/eigen/.Trash". -/
def trashBelowHome : FileSystem where
  files := plant [newEntry (bytes "home") .directory 0 0 0,
    newEntry (bytes "eigen") .directory 1 0 0, newEntry (bytes ".Trash") .directory 2 0 0]
  homeDir := 2
  trashDir := 3

def homePath : CString := ⟨bytes "/home", by decide⟩

theorem treeInvariant_trashBelowHome : TreeInvariant trashBelowHome.files :=
  treeInvariant_plant (by decide +kernel)

/-- Trashing "/home" succeeds and puts it below itself. -/
theorem not_trashRestoreRight_trashBelowHome :
    TreeInvariant trashBelowHome.files ∧ (fsTrashFile trashBelowHome shell homePath).2 = 0 ∧
      ¬ TrashRestoreRight trashBelowHome shell homePath [] shell := by
  have hret : (fsTrashFile trashBelowHome shell homePath).2 = 0 := by decide +kernel
  refine ⟨treeInvariant_trashBelowHome, hret, ?_⟩
  rintro ⟨hright, _⟩
  have hhome : fsResolveImpl trashBelowHome.files shell.cwd homePath =
      some (plantSlot 0 (by decide)) := by decide +kernel
  have hfits := (trashRight_iff treeInvariant_trashBelowHome shell homePath).mp hright
    (by decide) _ hhome (plantSlot_ne_root _) ⟨0, by decide, by decide +kernel⟩
  refine hfits.2.2.1 ?_
  have htrash : parentOf trashBelowHome.files (slotAt trashBelowHome.trashDir) =
      plantSlot 1 (by decide) := by decide +kernel
  have heigen : parentOf trashBelowHome.files (plantSlot 1 (by decide)) =
      plantSlot 0 (by decide) := by decide +kernel
  apply Climbs.step
  rw [htrash]
  apply Climbs.step
  rw [heigen]

theorem trash_restore_trashBelowHome :
    TrashRestoreRight trashBelowHome shell homePath [] shell ↔
      TrashRestoreFits trashBelowHome shell homePath [] :=
  trash_restore_iff treeInvariant_trashBelowHome shell homePath [] shell

end EigenOS.Filesystem
