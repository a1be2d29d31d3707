import EigenOS.Programs.ElfBounds

/-!
# The memory image of an executable

Each segment is put on new pages that are filled with zeros.  Where the pages of two segments
meet, the later one takes the page with it, and what the earlier one had there is gone.
-/

namespace EigenOS.Programs

open EigenOS.Paging
open EigenOS.Rounds (NeverStops)
open EigenOS.SparseMemory (blit distance)

namespace Image

variable (image : Image)

/-- Segments that are in the file and in the address space, and have no byte in common. -/
structure Proper : Prop where
  fileSize : ∀ i < image.ePhnum.toNat, image.pType i = ptLoad →
    (image.pFilesz i).toNat ≤ (image.pMemsz i).toNat
  inFile : ∀ i < image.ePhnum.toNat, image.pType i = ptLoad →
    (image.pOffset i).toNat + (image.pFilesz i).toNat ≤ image.size.toNat
  inSpace : ∀ i < image.ePhnum.toNat, image.pType i = ptLoad →
    (image.pVaddr i).toNat + (image.pMemsz i).toNat ≤ 2 ^ 64
  apart : ∀ i < image.ePhnum.toNat, ∀ j < image.ePhnum.toNat, image.pType i = ptLoad →
    image.pType j = ptLoad → i ≠ j →
      image.pMemsz i = 0#64 ∨ image.pMemsz j = 0#64 ∨
        (image.pVaddr i).toNat + (image.pMemsz i).toNat ≤ (image.pVaddr j).toNat ∨
          (image.pVaddr j).toNat + (image.pMemsz j).toNat ≤ (image.pVaddr i).toNat

def segmentByte (i k : ℕ) : Byte :=
  if k < (image.pFilesz i).toNat then image.byte (image.pOffset i + BitVec.ofNat 64 k) else 0#8

/-! The access that a segment asks for. -/

def pfX : Word := 1#64
def pfW : Word := 2#64

def Allows (flags : Word) (r : Rights) : Prop :=
  r.user = true ∧ (isSet flags pfW = true → r.writable = true) ∧
    (isSet flags pfX = true → r.executable = true)

/-- The program finds each segment in its memory, with the access that it asks for. -/
def InMemory (root : PhysPage) (m : PageTables) : Prop :=
  ∀ i < image.ePhnum.toNat, image.pType i = ptLoad → ∀ k < (image.pMemsz i).toNat,
    userView m root (image.pVaddr i + BitVec.ofNat 64 k) = some (image.segmentByte i k) ∧
      ∃ r, rightsOf m root (image.pVaddr i + BitVec.ofNat 64 k) = some r ∧
        Allows (image.pFlags i) r

def OnPages (j : ℕ) (addr : Word) : Prop :=
  (image.first j).toNat ≤ addr.toNat ∧ addr.toNat < (image.last j).toNat

instance (j : ℕ) (addr : Word) : Decidable (image.OnPages j addr) :=
  inferInstanceAs (Decidable (_ ∧ _))

/-- The end of each segment can be rounded up to a page, and bytes of the file that are not zero
are on no page of a later segment. -/
structure Survives : Prop where
  reached : ∀ i < image.ePhnum.toNat, image.pType i = ptLoad → image.pMemsz i ≠ 0#64 →
    image.EndFits i
  kept : ∀ i < image.ePhnum.toNat, image.pType i = ptLoad → ∀ k < (image.pFilesz i).toNat,
    image.byte (image.pOffset i + BitVec.ofNat 64 k) ≠ 0#8 →
      ∀ j < image.ePhnum.toNat, i < j → image.Covers j →
        ¬ image.OnPages j (image.pVaddr i + BitVec.ofNat 64 k)

end Image

section Views

variable {image : Image} {i j count k : ℕ} {addr : Word} {view : SparseMemory.Memory 64 Byte}

theorem segmentsView_add (first rest : ℕ) (i : ℕ) (view : SparseMemory.Memory 64 Byte) :
    image.segmentsView (first + rest) i view =
      image.segmentsView rest (i + first) (image.segmentsView first i view) := by
  induction first generalizing i view with
  | zero => rw [Nat.zero_add]; rfl
  | succ first ih =>
      rw [Nat.succ_add_eq_add_succ, Nat.add_succ, Image.segmentsView, ih, Image.segmentsView,
        Nat.succ_add_eq_add_succ]

theorem onPages_iff (h : image.Placed j) :
    image.OnPages j addr ↔ distance (image.first j) addr < image.span j := by
  obtain ⟨_, hspan, htop⟩ := h.bounds
  rw [SparseMemory.distance_lt_iff (by omega), hspan, Image.OnPages]

variable (view) in
/-- Beside the bytes of the file a segment is zero on its pages, and nothing elsewhere. -/
theorem segmentView_beside (h : image.Placed j)
    (hbeside : ¬ distance (image.pVaddr j) addr < (image.copied j).toNat) :
    image.segmentView j view addr = if image.OnPages j addr then some 0#8 else view addr := by
  rw [Image.segmentView, SparseMemory.blit_of_not_lt hbeside]
  split_ifs with hon
  · exact SparseMemory.blit_of_lt ((onPages_iff h).mp hon)
  · exact SparseMemory.blit_of_not_lt fun hlt => hon ((onPages_iff h).mpr hlt)

theorem segmentsView_of_off
    (hplaced : ∀ j, i ≤ j → j < i + count → image.Covers j → image.Placed j)
    (hoff : ∀ j, i ≤ j → j < i + count → image.Covers j → ¬ image.OnPages j addr) :
    image.segmentsView count i view addr = view addr := by
  induction count generalizing i view with
  | zero => rfl
  | succ count ih =>
      rw [Image.segmentsView, ih (fun j hlow hhigh => hplaced j (by omega) (by omega))
        (fun j hlow hhigh => hoff j (by omega) (by omega))]
      split_ifs with hcovers
      · have hi := hplaced i (Nat.le_refl i) (by omega) hcovers
        have hnot := hoff i (Nat.le_refl i) (by omega) hcovers
        rw [segmentView_beside _ hi, if_neg hnot]
        obtain ⟨hstart, hend⟩ := hi.copied_inside
        obtain ⟨_, _, htop⟩ := hi.bounds
        rw [SparseMemory.distance_lt_iff (by omega)]
        unfold Image.OnPages at hnot
        omega
      · rfl

/-- Where no later segment has bytes of its own, what is zero stays zero, and the pages of each
become zero. -/
theorem segmentsView_of_beside
    (hplaced : ∀ j, i ≤ j → j < i + count → image.Covers j → image.Placed j)
    (hbeside : ∀ j, i ≤ j → j < i + count → image.Covers j →
      ¬ distance (image.pVaddr j) addr < (image.copied j).toNat)
    (hzero : view addr = some 0#8 ∨
      ∃ j, i ≤ j ∧ j < i + count ∧ image.Covers j ∧ image.OnPages j addr) :
    image.segmentsView count i view addr = some 0#8 := by
  induction count generalizing i view with
  | zero =>
      rcases hzero with hzero | ⟨j, hlow, hhigh, _⟩
      · exact hzero
      · exact absurd hhigh (by omega)
  | succ count ih =>
      rw [Image.segmentsView]
      apply ih (fun j hlow hhigh => hplaced j (by omega) (by omega))
        (fun j hlow hhigh => hbeside j (by omega) (by omega))
      by_cases hcovers : image.Covers i
      · have hview := segmentView_beside view
          (hplaced i (Nat.le_refl i) (by omega) hcovers)
          (hbeside i (Nat.le_refl i) (by omega) hcovers)
        rw [if_pos hcovers, hview]
        by_cases hon : image.OnPages i addr
        · exact Or.inl (if_pos hon)
        · rw [if_neg hon]
          refine hzero.imp_right fun ⟨j, hlow, hhigh, hj, honj⟩ => ⟨j, ?_, by omega, hj, honj⟩
          rcases Nat.eq_or_lt_of_le hlow with rfl | hlater
          · exact absurd honj hon
          · exact hlater
      · rw [if_neg hcovers]
        refine hzero.imp_right fun ⟨j, hlow, hhigh, hj, honj⟩ => ⟨j, ?_, by omega, hj, honj⟩
        rcases Nat.eq_or_lt_of_le hlow with rfl | hlater
        · exact absurd hj hcovers
        · exact hlater

end Views

/-! ## Segments of a proper image -/

section Proper

variable {image : Image} {i j k : ℕ} {view : SparseMemory.Memory 64 Byte}

theorem Image.Proper.endFits (h : image.Proper) (hi : i < image.ePhnum.toNat)
    (hcovers : image.Covers i) : image.EndFits i := by
  by_contra hwraps
  have hspace := h.inSpace i hi hcovers.1
  have hmem := (image.pMemsz i).isLt
  have hvaddr := (image.pVaddr i).isLt
  have hlow : (0xFFF#64 : Word).toNat = 4095 := rfl
  unfold Image.EndFits at hwraps
  have hsum : (image.pVaddr i + image.pMemsz i + 0xFFF#64).toNat < 4096 := by
    rw [BitVec.toNat_add, BitVec.toNat_add, Nat.mod_add_mod, hlow]
    omega
  have hlast : (image.last i).toNat = 0 := by
    rw [Image.last, toNat_pageFloor]
    omega
  have hlt := BitVec.lt_def.mp hcovers.2
  omega

theorem covers_of_memsz (hload : image.pType i = ptLoad) (hfits : image.EndFits i)
    (hsome : 0 < (image.pMemsz i).toNat) : image.Covers i := by
  refine ⟨hload, ?_⟩
  have hfirst := Image.toNat_first image i
  have hlast := Image.toNat_last hfits
  rw [BitVec.lt_def]
  omega

theorem Image.Proper.copied_eq (h : image.Proper) (hi : i < image.ePhnum.toNat)
    (hload : image.pType i = ptLoad) : image.copied i = image.pFilesz i := by
  have hsize := h.fileSize i hi hload
  have hfile := h.inFile i hi hload
  have hbound := image.size.isLt
  have hwanted : image.wanted i = image.pFilesz i := by
    rw [Image.wanted, if_neg]
    rw [BitVec.lt_def]
    omega
  have hsum : (image.pOffset i + image.pFilesz i).toNat =
      (image.pOffset i).toNat + (image.pFilesz i).toNat := by
    rw [BitVec.toNat_add, Nat.mod_eq_of_lt (by omega)]
  rw [Image.copied, hwanted, if_neg]
  rw [BitVec.lt_def, hsum]
  omega

theorem segmentView_self (h : image.Proper) (hi : i < image.ePhnum.toNat)
    (hplaced : image.Placed i) (hload : image.pType i = ptLoad)
    (hk : k < (image.pMemsz i).toNat) :
    image.segmentView i view (image.pVaddr i + BitVec.ofNat 64 k) =
      some (image.segmentByte i k) := by
  have hcopied := h.copied_eq hi hload
  have hmem := (image.pMemsz i).isLt
  have hlast := Image.toNat_last hplaced.endFits
  have hdistance : distance (image.pVaddr i) (image.pVaddr i + BitVec.ofNat 64 k) = k :=
    SparseMemory.distance_add (by omega)
  unfold Image.segmentByte
  split_ifs with hfile
  · rw [Image.segmentView, SparseMemory.blit_of_lt, hdistance]
    rw [hdistance, hcopied]
    exact hfile
  · rw [segmentView_beside _ hplaced, if_pos]
    · have hfirst := Image.toNat_first image i
      have hwrap := hplaced.endFits
      unfold Image.EndFits at hwrap
      have haddr : (image.pVaddr i + BitVec.ofNat 64 k).toNat = (image.pVaddr i).toNat + k :=
        toNat_add_ofNat _ _ (by omega)
      rw [Image.OnPages, haddr]
      omega
    · rw [hdistance, hcopied]
      exact hfile

theorem Image.Proper.beside (h : image.Proper) (hi : i < image.ePhnum.toNat)
    (hj : j < image.ePhnum.toNat) (hne : i ≠ j) (hload : image.pType i = ptLoad)
    (hcovers : image.Covers j) (hk : k < (image.pMemsz i).toNat) (hfits : image.EndFits i) :
    ¬ distance (image.pVaddr j) (image.pVaddr i + BitVec.ofNat 64 k) < (image.copied j).toNat := by
  have hfits' := h.endFits hj hcovers
  have hsize := h.fileSize j hj hcovers.1
  unfold Image.EndFits at hfits hfits'
  have haddr : (image.pVaddr i + BitVec.ofNat 64 k).toNat = (image.pVaddr i).toNat + k :=
    toNat_add_ofNat _ _ (by omega)
  rw [h.copied_eq hj hcovers.1, SparseMemory.distance_lt_iff (by omega), haddr]
  rcases h.apart i hi j hj hload hcovers.1 hne with hzero | hzero | horder
  · rw [hzero] at hk
    exact absurd hk (Nat.not_lt_zero k)
  · have hnone : (image.pMemsz j).toNat = 0 := by
      rw [hzero]
      rfl
    omega
  · omega

end Proper

/-! ## The whole image -/

section Memory

variable {image : Image} {root : PhysPage} {m m' : PageTables} {i k : ℕ}

theorem userView_segment (h : image.Proper) (hi : i < image.ePhnum.toNat)
    (hload : image.pType i = ptLoad) (hk : k < (image.pMemsz i).toNat)
    (hfits : image.EndFits i)
    (hplaced : ∀ j < image.ePhnum.toNat, image.Covers j → image.Placed j)
    (view : SparseMemory.Memory 64 Byte) :
    image.segmentsView image.ePhnum.toNat 0 view (image.pVaddr i + BitVec.ofNat 64 k) =
        some (image.segmentByte i k) ↔
      (image.segmentByte i k ≠ 0#8 → ∀ j < image.ePhnum.toNat, i < j → image.Covers j →
        ¬ image.OnPages j (image.pVaddr i + BitVec.ofNat 64 k)) := by
  have hcovers := covers_of_memsz hload hfits (Nat.zero_lt_of_lt hk)
  have hself : ∀ before, image.segmentView i before (image.pVaddr i + BitVec.ofNat 64 k) =
      some (image.segmentByte i k) :=
    fun before => segmentView_self h hi (hplaced i hi hcovers) hload hk
  obtain ⟨later, hlater⟩ : ∃ later, image.ePhnum.toNat = i + (later + 1) :=
    ⟨image.ePhnum.toNat - i - 1, by omega⟩
  have hplacedLater : ∀ j, i + 1 ≤ j → j < i + 1 + later → image.Covers j → image.Placed j :=
    fun j _ hhigh => hplaced j (by omega)
  rw [hlater, segmentsView_add, Nat.zero_add, Image.segmentsView, if_pos hcovers]
  by_cases hoff : ∀ j, i + 1 ≤ j → j < i + 1 + later → image.Covers j →
      ¬ image.OnPages j (image.pVaddr i + BitVec.ofNat 64 k)
  · rw [segmentsView_of_off hplacedLater hoff, hself]
    exact iff_of_true rfl fun _ j hj hij hcovers' => hoff j hij (by omega) hcovers'
  · push Not at hoff
    obtain ⟨j, hlow, hhigh, hcovers', hon⟩ := hoff
    rw [segmentsView_of_beside hplacedLater
      (fun j hlow hhigh hcovers' =>
        h.beside hi (by omega) (by omega) hload hcovers' hk hfits)
      (Or.inr ⟨j, hlow, hhigh, hcovers', hon⟩)]
    constructor
    · intro hzero hne
      exact absurd (Option.some.inj hzero).symm hne
    · intro hkept
      by_contra hne
      exact hkept (fun hzero => hne (by rw [hzero])) j (by omega) hlow hcovers' hon

/-- An image is in memory, with the access that its segments ask for, when no segment is put on a
page that holds something of an earlier one. -/
theorem inMemory_iff_of_userSpace (h : image.Proper) (hspace : UserSpace m root)
    (hdone : (elfLoad image root m).2 = .done m') : image.InMemory root m' ↔ image.Survives := by
  obtain ⟨⟨_, _, hscan⟩, hsegments⟩ := elfLoad_done hdone
  obtain ⟨hplaced, hspace', hview⟩ := loadSegments_spec hspace
    (fun j _ hhigh => h.endFits (by omega)) hsegments
  have hplaced' : ∀ j < image.ePhnum.toNat, image.Covers j → image.Placed j :=
    fun j hj => hplaced j (Nat.zero_le j) (by omega)
  have hbyte : ∀ i k, k < (image.pFilesz i).toNat →
      image.segmentByte i k = image.byte (image.pOffset i + BitVec.ofNat 64 k) :=
    fun i k hk => if_pos hk
  constructor
  · intro hmemory
    have hreached : ∀ i < image.ePhnum.toNat, image.pType i = ptLoad → image.pMemsz i ≠ 0#64 →
        image.EndFits i := by
      intro i hi hload hsome
      have hpos : 0 < (image.pMemsz i).toNat := by
        rw [Nat.pos_iff_ne_zero]
        exact fun hzero => hsome (BitVec.eq_of_toNat_eq hzero)
      have hmapped := (hmemory i hi hload 0 hpos).1
      have huser : User (image.pVaddr i) := by
        by_contra hnot
        rw [BitVec.add_zero, userView_of_not_user hnot] at hmapped
        cases hmapped
      have hsmall : ¬ maxSegment < image.pMemsz i := by
        intro hlarge
        exact hscan i (Nat.zero_le i) (by omega) (Or.inr ⟨hload, Or.inl hlarge⟩)
      have hmax : maxSegment.toNat = 2 ^ 28 := by decide
      rw [BitVec.lt_def] at hsmall
      unfold User at huser
      unfold Image.EndFits
      omega
    refine ⟨hreached, fun i hi hload k hk hne => ?_⟩
    have hk' : k < (image.pMemsz i).toNat := Nat.lt_of_lt_of_le hk (h.fileSize i hi hload)
    have hsome : image.pMemsz i ≠ 0#64 := by
      intro hzero
      rw [hzero] at hk'
      exact Nat.not_lt_zero k hk'
    have hfits := hreached i hi hload hsome
    have hmapped := (hmemory i hi hload k hk').1
    rw [hview, userView_segment h hi hload hk' hfits hplaced', hbyte i k hk] at hmapped
    exact hmapped hne
  · rintro ⟨hreached, hkept⟩ i hi hload k hk
    have hsome : image.pMemsz i ≠ 0#64 := by
      intro hzero
      rw [hzero] at hk
      exact Nat.not_lt_zero k hk
    have hmapped : userView m' root (image.pVaddr i + BitVec.ofNat 64 k) =
        some (image.segmentByte i k) := by
      rw [hview, userView_segment h hi hload hk (hreached i hi hload hsome) hplaced']
      intro hne
      have hfile : k < (image.pFilesz i).toNat := by
        by_contra hbeyond
        exact hne (if_neg hbeyond)
      rw [hbyte i k hfile] at hne
      exact hkept i hi hload k hfile hne
    refine ⟨hmapped, ⟨true, true, true⟩, hspace'.rightsOf_eq ?_, rfl, fun _ => rfl, fun _ => rfl⟩
    rw [hmapped]
    rfl

/-- The loader in an address space that was made for the program. -/
theorem inMemory_iff {kernel : PageTables} {active : PhysPage} (h : image.Proper)
    (hkernel : WellFormed kernel active) (hnew : vmmNewUserPml4 kernel active = (some root, m))
    (hdone : (elfLoad image root m).2 = .done m') : image.InMemory root m' ↔ image.Survives :=
  inMemory_iff_of_userSpace h (userSpace_newUserPml4 hkernel hnew).1 hdone

end Memory

/-! ## Two segments -/

/-- Two segments of a byte each, the second one at an address. -/
def twoSegments (second : ℕ) : Image :=
  imageOfBytes (headerBytes 0x400000 64 2 ++ phdrBytes 1 5 176 0x400000 1 1 ++
    phdrBytes 1 6 177 second 1 1 ++ [0xAA#8, 0xBB#8])

def sharedPage : Image := twoSegments 0x400800

def separatePages : Image := twoSegments 0x401000

theorem proper_of_apart {image : Image}
    (hinside : ∀ i < image.ePhnum.toNat, (image.pFilesz i).toNat ≤ (image.pMemsz i).toNat ∧
      (image.pOffset i).toNat + (image.pFilesz i).toNat ≤ image.size.toNat ∧
        (image.pVaddr i).toNat + (image.pMemsz i).toNat ≤ 2 ^ 64)
    (hapart : ∀ i < image.ePhnum.toNat, ∀ j < image.ePhnum.toNat, i ≠ j →
      (image.pVaddr i).toNat + (image.pMemsz i).toNat ≤ (image.pVaddr j).toNat ∨
        (image.pVaddr j).toNat + (image.pMemsz j).toNat ≤ (image.pVaddr i).toNat) :
    image.Proper where
  fileSize i hi _ := (hinside i hi).1
  inFile i hi _ := (hinside i hi).2.1
  inSpace i hi _ := (hinside i hi).2.2
  apart i hi j hj _ _ hne := Or.inr (Or.inr (hapart i hi j hj hne))

theorem proper_sharedPage : sharedPage.Proper :=
  proper_of_apart (by decide +kernel) (by decide +kernel)

theorem proper_separatePages : separatePages.Proper :=
  proper_of_apart (by decide +kernel) (by decide +kernel)

theorem exists_load (image : Image) (hload : image.Loadable) : ∃ m m',
    vmmNewUserPml4 (emptySpace (2 ^ 29 + 1)) (frame 0) = (some (frame 1), m) ∧
      UserSpace m (frame 1) ∧ (elfLoad image (frame 1) m).2 = .done m' := by
  obtain ⟨m, hnew, hcount⟩ := newUserPml4_emptySpace (2 ^ 29)
  have hkernel := (userSpace_emptySpace (2 ^ 29 + 1) (by omega)).1.wellFormed
  have hspace := (userSpace_newUserPml4 hkernel hnew).1
  obtain ⟨m', hdone, _⟩ := elfLoad_of_frames image (frame 1) m 0 hspace hload (by omega)
  exact ⟨m, m', hnew, hspace, hdone⟩

theorem inMemory_separatePages : ∃ m m',
    vmmNewUserPml4 (emptySpace (2 ^ 29 + 1)) (frame 0) = (some (frame 1), m) ∧
      (elfLoad separatePages (frame 1) m).2 = .done m' ∧
        separatePages.InMemory (frame 1) m' := by
  obtain ⟨m, m', hnew, _, hdone⟩ := exists_load separatePages (by decide +kernel)
  have hkernel := (userSpace_emptySpace (2 ^ 29 + 1) (by omega)).1.wellFormed
  have hbeside : ∀ i < separatePages.ePhnum.toNat, ∀ k < (separatePages.pFilesz i).toNat,
      ∀ j < separatePages.ePhnum.toNat, i < j →
        ¬ separatePages.OnPages j (separatePages.pVaddr i + BitVec.ofNat 64 k) := by decide +kernel
  exact ⟨m, m', hnew, hdone, (inMemory_iff proper_separatePages hkernel hnew hdone).mpr
    ⟨by decide +kernel, fun i hi _ k hk _ j hj hlt _ => hbeside i hi k hk j hj hlt⟩⟩

/-- The byte of the first segment is gone. -/
theorem not_inMemory_sharedPage : ∃ m m',
    vmmNewUserPml4 (emptySpace (2 ^ 29 + 1)) (frame 0) = (some (frame 1), m) ∧
      (elfLoad sharedPage (frame 1) m).2 = .done m' ∧ sharedPage.Proper ∧
        ¬ sharedPage.InMemory (frame 1) m' := by
  obtain ⟨m, m', hnew, hspace, hdone⟩ := exists_load sharedPage (by decide +kernel)
  refine ⟨m, m', hnew, hdone, proper_sharedPage, ?_⟩
  rw [inMemory_iff_of_userSpace proper_sharedPage hspace hdone]
  rintro ⟨_, hkept⟩
  exact hkept 0 (by decide +kernel) (by decide +kernel) 0 (by decide +kernel) (by decide +kernel) 1
    (by decide +kernel) (by decide) (by decide +kernel) (by decide +kernel)

end EigenOS.Programs
