import EigenOS.Filesystem.Paths
import EigenOS.Filesystem.Planting

/-!
# The path of the working directory

`fs_pwd` collects the names from the current directory up in a buffer of 512 bytes, last byte
first, and turns them around behind a slash.  Every name already brings its own slash, so the
path of any directory but the root starts with two.
-/

namespace EigenOS.Filesystem

/-- `sizeof(tmp)`. -/
def pwdTmpSize : ℕ := maxFilename * 8

/-- The loop of `fs_pwd` from directory `dir` on; `tmp` holds what is written so far. -/
def pwdLoop (files : Table) : ℕ → Slot → List UInt8 → Option (List UInt8)
  | 0, _, _ => none
  | fuel + 1, dir, tmp =>
      if dir = rootSlot then some tmp
      else
        let name := cString (files dir).name
        if pwdTmpSize ≤ tmp.length + name.length + 1 then some tmp
        else pwdLoop files fuel (parentOf files dir) (tmp ++ name.reverse ++ [slash])

/-- The string left in `output`, when one is written, and the result. -/
abbrev PwdReply := Option (List UInt8) × ℤ

def fsPwd (files : Table) (cwd : Slot) (maxLen : ℤ) : Option PwdReply :=
  if cwd = rootSlot then some (if 1 < maxLen then some [slash] else none, 1)
  else
    (pwdLoop files pwdTmpSize cwd []).map fun tmp =>
      let output := slash :: tmp.reverse.take (maxLen - 2).toNat
      (some output, output.length)

/-! ## What the path is for -/

/-- One slash, or names with one slash in front of each. -/
def IsCanonical (path : List UInt8) : Prop :=
  path = [slash] ∨
    ∃ names, names ≠ [] ∧ (∀ name ∈ names, name ≠ [] ∧ slash ∉ name) ∧ path = slashed names

/-- Resolving the path from any directory yields the node. -/
def LeadsTo (files : Table) (path : List UInt8) (node : Slot) : Prop :=
  ∃ string : CString, string.bytes = path ∧
    ∀ cwd, IsDirectory (files cwd) → fsResolveImpl files cwd string = some node

/-- The call fails or writes a canonical path that leads back to the directory. -/
def PwdRight (files : Table) (cwd : Slot) (maxLen : ℤ) : Prop :=
  ∃ reply, fsPwd files cwd maxLen = some reply ∧
    (reply.2 < 0 ∨ ∃ path, reply.1 = some path ∧ IsCanonical path ∧ LeadsTo files path cwd)

/-! ## What the call writes -/

/-- Every round but the last writes a byte, so there are at most `pwdTmpSize` of them; the
last byte of a round is a slash. -/
theorem exists_pwdLoop (files : Table) (fuel : ℕ) (dir : Slot) (tmp : List UInt8)
    (hfuel : pwdTmpSize ≤ tmp.length + fuel) (htmp : tmp.length < pwdTmpSize) :
    ∃ all, pwdLoop files fuel dir tmp = some (tmp ++ all) ∧
      (all = [] ∨ ∃ front, all = front ++ [slash]) := by
  induction fuel generalizing dir tmp with
  | zero => omega
  | succ fuel ih =>
      have hstop : ∃ all, some tmp = some (tmp ++ all) ∧
          (all = [] ∨ ∃ front, all = front ++ [slash]) :=
        ⟨[], by rw [List.append_nil], Or.inl rfl⟩
      rw [pwdLoop]
      by_cases hroot : dir = rootSlot
      · rw [if_pos hroot]
        exact hstop
      · rw [if_neg hroot]
        dsimp only
        by_cases hroom : pwdTmpSize ≤ tmp.length + (cString (files dir).name).length + 1
        · rw [if_pos hroom]
          exact hstop
        · rw [if_neg hroom]
          have hlen : (tmp ++ (cString (files dir).name).reverse ++ [slash]).length =
              tmp.length + (cString (files dir).name).length + 1 := by
            rw [List.length_append, List.length_append, List.length_reverse,
              List.length_singleton]
          obtain ⟨all, hall, hend⟩ := ih (parentOf files dir)
            (tmp ++ (cString (files dir).name).reverse ++ [slash]) (by omega) (by omega)
          refine ⟨(cString (files dir).name).reverse ++ [slash] ++ all, ?_, Or.inr ?_⟩
          · rw [hall]
            simp only [List.append_assoc]
          · rcases hend with rfl | ⟨front, rfl⟩
            · exact ⟨_, List.append_nil _⟩
            · exact ⟨_, (List.append_assoc _ _ _).symm⟩

/-- The buffer holds the name of a directory below the root, and a slash comes out first. -/
theorem pwdLoop_of_ne_root {files : Table} (hfiles : TreeInvariant files) {cwd : Slot}
    (hroot : cwd ≠ rootSlot) (hused : (files cwd).inUse = true) :
    ∃ front, pwdLoop files pwdTmpSize cwd [] = some (front ++ [slash]) := by
  have hshort := length_cString_lt (hfiles.name_terminated cwd hused)
  have hroom : ¬ pwdTmpSize ≤ ([] : List UInt8).length + (cString (files cwd).name).length + 1 := by
    rw [List.length_nil]
    unfold pwdTmpSize maxFilename at *
    omega
  have hlen : ([] ++ (cString (files cwd).name).reverse ++ [slash] : List UInt8).length =
      (cString (files cwd).name).length + 1 := by
    rw [List.nil_append, List.length_append, List.length_reverse, List.length_singleton]
  obtain ⟨all, hall, hend⟩ := exists_pwdLoop files 511 (parentOf files cwd)
    ([] ++ (cString (files cwd).name).reverse ++ [slash])
    (by rw [hlen]; unfold pwdTmpSize maxFilename; omega)
    (by rw [hlen]; unfold pwdTmpSize maxFilename at *; omega)
  have hloop : pwdLoop files pwdTmpSize cwd [] =
      some ([] ++ (cString (files cwd).name).reverse ++ [slash] ++ all) := by
    change pwdLoop files (511 + 1) cwd [] = _
    rw [pwdLoop, if_neg hroot]
    dsimp only
    rw [if_neg hroom, hall]
  rw [hloop]
  rcases hend with rfl | ⟨front, rfl⟩
  · exact ⟨_, congrArg some (List.append_nil _)⟩
  · exact ⟨_, congrArg some (List.append_assoc _ _ _).symm⟩

theorem not_isCanonical_of_two (rest : List UInt8) : ¬ IsCanonical (slash :: slash :: rest) := by
  rintro (heq | ⟨names, hne, hnames, heq⟩)
  · cases heq
  · cases names with
    | nil => exact hne rfl
    | cons name names =>
        obtain ⟨hname, hslash⟩ := hnames name List.mem_cons_self
        cases name with
        | nil => exact hname rfl
        | cons byte name =>
            injection heq with _ heq
            injection heq with hbyte
            exact hslash (hbyte ▸ List.mem_cons_self)

theorem fsResolveImpl_slash (files : Table) (cwd : Slot) {string : CString}
    (h : string.bytes = [slash]) : fsResolveImpl files cwd string = some rootSlot := by
  unfold fsResolveImpl
  rw [h, if_neg (List.cons_ne_nil _ _)]
  rfl

theorem not_pwdRight_of_ne_root {files : Table} (hfiles : TreeInvariant files) {cwd : Slot}
    (hroot : cwd ≠ rootSlot) (hused : (files cwd).inUse = true) {maxLen : ℤ} :
    ¬ PwdRight files cwd maxLen := by
  obtain ⟨front, hfront⟩ := pwdLoop_of_ne_root hfiles hroot hused
  rintro ⟨reply, hreply, hright⟩
  unfold fsPwd at hreply
  rw [if_neg hroot, hfront] at hreply
  cases hreply
  dsimp only at hright
  rw [List.reverse_append, List.reverse_singleton, List.singleton_append] at hright
  rcases hright with hfails | ⟨path, hpath, hcanonical, string, hstring, hleads⟩
  · exact absurd hfails (not_lt.mpr (Int.natCast_nonneg _))
  · cases hpath
    cases hroom : (maxLen - 2).toNat with
    | zero =>
        rw [hroom, List.take_zero] at hstring
        have hnode := hleads rootSlot hfiles.root_directory
        rw [fsResolveImpl_slash files rootSlot hstring] at hnode
        exact hroot (Option.some.inj hnode).symm
    | succ room =>
        rw [hroom, List.take_succ_cons] at hcanonical
        exact not_isCanonical_of_two _ hcanonical

/-! ## Where the path leads -/

/-- The path of the working directory is right exactly in the root. -/
theorem pwdRight_iff {files : Table} (hfiles : TreeInvariant files) {cwd : Slot}
    (hcwd : IsDirectory (files cwd)) {maxLen : ℤ} (hlen : 2 ≤ maxLen) :
    PwdRight files cwd maxLen ↔ cwd = rootSlot := by
  constructor
  · intro hright
    by_contra hroot
    exact not_pwdRight_of_ne_root hfiles hroot hcwd.inUse hright
  · rintro rfl
    have hreply : fsPwd files rootSlot maxLen = some (some [slash], 1) := by
      unfold fsPwd
      rw [if_pos rfl, if_pos (by omega)]
    refine ⟨_, hreply, Or.inr ⟨[slash], rfl, Or.inl rfl, ⟨[slash], by decide⟩, rfl, ?_⟩⟩
    exact fun cwd _ => fsResolveImpl_slash files cwd rfl

def oneDirectory : List FileNode := [newEntry (bytes "d") .directory 0 0 0]

/-- In "/d" the call writes "//d". -/
theorem not_pwdRight_oneDirectory :
    TreeInvariant (plant oneDirectory) ∧
      IsDirectory (plant oneDirectory (plantSlot 0 (by decide))) ∧
      (fsPwd (plant oneDirectory) (plantSlot 0 (by decide)) 64 = some (some (bytes "//d"), 3)) ∧
      ¬ PwdRight (plant oneDirectory) (plantSlot 0 (by decide)) 64 := by
  have hfiles : TreeInvariant (plant oneDirectory) := treeInvariant_plant (by decide +kernel)
  exact ⟨hfiles, ⟨by decide +kernel, by decide +kernel⟩, by decide +kernel,
    not_pwdRight_of_ne_root hfiles (plantSlot_ne_root _) (by decide +kernel)⟩

theorem pwdRight_oneDirectory :
    PwdRight (plant oneDirectory) (plantSlot 0 (by decide)) 64 ↔
      plantSlot 0 (by decide) = rootSlot :=
  pwdRight_iff (treeInvariant_plant (by decide +kernel))
    ⟨by decide +kernel, by decide +kernel⟩ (by decide)

end EigenOS.Filesystem
