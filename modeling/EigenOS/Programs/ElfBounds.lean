import EigenOS.Library.Rounds
import EigenOS.Programs.ElfSegments

/-!
# The bounds of an image

The first loop reads program headers before anything has checked that they are in the image, and
the checks of the second loop add numbers of 64 bits without a look at their size.
-/

namespace EigenOS.Programs

open EigenOS.Paging
open EigenOS.Rounds (NeverStops UntilStop)

namespace Image

variable (image : Image)

/-- What is read stays in the image, no sum wraps around, and pages are mapped in the user range
only, whatever memory there is. -/
def Bounded : Prop :=
  ∀ root m, ∀ access ∈ (elfLoad image root m).1, access.Fine image

/-! ## What has to fit -/

/-- A program header is in the image as far as the first loop reads it. -/
def HeaderInside (i : ℕ) : Prop :=
  image.ePhoff.toNat + 56 * i + 4 ≤ image.size.toNat ∧
    (image.pType i = ptLoad → image.ePhoff.toNat + 56 * i + 48 ≤ image.size.toNat)

/-- `total_memsz` before a round. -/
def totalBefore : ℕ → Word
  | 0 => 0#64
  | i + 1 => if image.pType i = ptLoad then totalBefore i + image.pMemsz i else totalBefore i

/-- The first loop returns an error. -/
def ScanStops (i : ℕ) : Prop :=
  image.pType i = ptInterp ∨ image.pType i = ptLoad ∧
    (maxSegment < image.pMemsz i ∨ maxTotal < image.totalBefore i + image.pMemsz i)

/-- The second loop returns an error on account of a header. -/
def SegmentStops (i : ℕ) : Prop :=
  image.size < image.phdr i + phdrSize ∨ image.Covers i ∧ image.OutOfRange i

/-- The sums that the second loop comes to for a header do not wrap around. -/
def SumsFit (i : ℕ) : Prop :=
  image.ePhoff.toNat + 56 * i + 56 < 2 ^ 64 ∧
    (¬ image.size < image.phdr i + phdrSize → image.pType i = ptLoad →
      image.EndFits i ∧ (image.Covers i → ¬ image.OutOfRange i →
        (image.pOffset i).toNat + (image.wanted i).toNat < 2 ^ 64))

/-- Each loop meets headers and sums that fit, up to the header that it returns an error for. -/
def Fits : Prop :=
  UntilStop image.ScanStops image.HeaderInside 0 image.ePhnum.toNat ∧
    (NeverStops image.ScanStops 0 image.ePhnum.toNat →
      UntilStop image.SegmentStops image.SumsFit 0 image.ePhnum.toNat)

end Image

instance (image : Image) (i : ℕ) : Decidable (image.ScanStops i) :=
  inferInstanceAs (Decidable (_ ∨ _))

/-! ## The first loop -/

section Scan

variable {image : Image} {i count : ℕ} {total : Word}

theorem toNat_phdrOffset (hi : i ≤ 1024) :
    (BitVec.ofNat 64 i * Image.phdrSize).toNat = 56 * i := by
  rw [BitVec.toNat_mul, BitVec.toNat_ofNat, Nat.mod_eq_of_lt (by omega : i < 2 ^ 64)]
  change i * 56 % 2 ^ 64 = 56 * i
  omega

theorem toNat_phdr (hi : i ≤ 1024) (hfits : image.ePhoff.toNat + 56 * i < 2 ^ 64) :
    (image.phdr i).toNat = image.ePhoff.toNat + 56 * i := by
  rw [Image.phdr, BitVec.toNat_add, toNat_phdrOffset hi, Nat.mod_eq_of_lt hfits]

variable (image i) in
theorem fine_start_iff (hi : i ≤ 1024) :
    (Access.sum image.ePhoff (BitVec.ofNat 64 i * Image.phdrSize)).Fine image ∧
        (Access.read (image.phdr i) 0 4).Fine image ↔
      image.ePhoff.toNat + 56 * i + 4 ≤ image.size.toNat := by
  have hsize := image.size.isLt
  simp only [Access.Fine, toNat_phdrOffset hi]
  constructor
  · rintro ⟨hsum, hread⟩
    rwa [toNat_phdr hi hsum] at hread
  · intro h
    have hsum : image.ePhoff.toNat + 56 * i < 2 ^ 64 := by omega
    rw [toNat_phdr hi hsum]
    exact ⟨hsum, h⟩

variable (image i) in
theorem scanHeader_fine_iff (hi : i ≤ 1024) (htotal : total.toNat ≤ maxTotal.toNat) :
    (∀ access ∈ (scanHeader image i total).1, access.Fine image) ↔ image.HeaderInside i := by
  have hstart := fine_start_iff image i hi
  have hsize := image.size.isLt
  have hmax : maxTotal.toNat = 2 ^ 29 := by decide
  have hmax' : maxSegment.toNat = 2 ^ 28 := by decide
  have hread : image.ePhoff.toNat + 56 * i + 4 ≤ image.size.toNat →
      ((Access.read (image.phdr i) 40 8).Fine image ↔
        image.ePhoff.toNat + 56 * i + 48 ≤ image.size.toNat) := by
    intro h
    rw [Access.Fine, toNat_phdr hi (by omega)]
  unfold scanHeader Image.HeaderInside
  by_cases hinterp : image.pType i = ptInterp
  · have hload : image.pType i ≠ ptLoad := by
      rw [hinterp]
      decide
    rw [if_pos hinterp]
    simp only [List.forall_mem_cons, List.not_mem_nil, false_implies, implies_true, and_true,
      hstart, hload]
  · rw [if_neg hinterp]
    by_cases hload : image.pType i = ptLoad
    · rw [if_pos hload]
      by_cases hlarge : maxSegment < image.pMemsz i
      · rw [if_pos hlarge]
        simp only [List.cons_append, List.nil_append, List.forall_mem_cons, List.not_mem_nil,
          false_implies, implies_true, and_true, hload, true_implies, ← and_assoc, hstart]
        exact and_congr_right hread
      · have hsum : (Access.sum total (image.pMemsz i)).Fine image := by
          rw [BitVec.lt_def] at hlarge
          rw [Access.Fine]
          omega
        rw [if_neg hlarge, apply_ite Prod.fst, ite_self]
        simp only [List.cons_append, List.nil_append, List.forall_mem_cons, List.not_mem_nil,
          false_implies, implies_true, and_true, hload, true_implies, hsum, ← and_assoc, hstart]
        exact and_congr_right hread
    · rw [if_neg hload]
      simp only [List.forall_mem_cons, List.not_mem_nil, false_implies, implies_true, and_true,
        hstart, hload]

variable (image i) in
theorem scanHeader_result : (scanHeader image i (image.totalBefore i)).2 =
    if image.ScanStops i then none else some (image.totalBefore (i + 1)) := by
  unfold scanHeader
  rw [Image.totalBefore]
  by_cases hinterp : image.pType i = ptInterp
  · have hstops : image.ScanStops i := Or.inl hinterp
    rw [if_pos hinterp, if_pos hstops]
  · rw [if_neg hinterp]
    by_cases hload : image.pType i = ptLoad
    · rw [if_pos hload, if_pos hload]
      by_cases hlarge : maxSegment < image.pMemsz i
      · have hstops : image.ScanStops i := Or.inr ⟨hload, Or.inl hlarge⟩
        rw [if_pos hlarge, if_pos hstops]
      · rw [if_neg hlarge]
        by_cases htotal : maxTotal < image.totalBefore i + image.pMemsz i
        · have hstops : image.ScanStops i := Or.inr ⟨hload, Or.inr htotal⟩
          rw [if_pos htotal, if_pos hstops]
        · have hgoes : ¬ image.ScanStops i := by
            rintro (hyes | ⟨_, hyes | hyes⟩)
            · exact hinterp hyes
            · exact hlarge hyes
            · exact htotal hyes
          rw [if_neg htotal, if_neg hgoes]
    · have hgoes : ¬ image.ScanStops i := by
        rintro (hyes | ⟨hyes, _⟩)
        · exact hinterp hyes
        · exact hload hyes
      rw [if_neg hload, if_neg hload, if_neg hgoes]

theorem total_le (h : ¬ image.ScanStops i)
    (htotal : (image.totalBefore i).toNat ≤ maxTotal.toNat) :
    (image.totalBefore (i + 1)).toNat ≤ maxTotal.toNat := by
  rw [Image.totalBefore]
  split_ifs with hload
  · apply BitVec.le_def.mp
    apply BitVec.not_lt.mp
    exact fun hlarge => h (Or.inr ⟨hload, Or.inr hlarge⟩)
  · exact htotal

theorem scanHeaders_fine_iff (hcount : i + count ≤ 1024)
    (htotal : (image.totalBefore i).toNat ≤ maxTotal.toNat) :
    (∀ access ∈ (scanHeaders image count i (image.totalBefore i)).1, access.Fine image) ↔
      UntilStop image.ScanStops image.HeaderInside i count := by
  induction count generalizing i with
  | zero => exact iff_of_true nofun Rounds.untilStop_zero
  | succ count ih =>
      have hround := scanHeader_fine_iff image i (by omega) htotal
      have hresult := scanHeader_result image i
      rw [Rounds.untilStop_succ, ← hround, scanHeaders]
      cases hscan : scanHeader image i (image.totalBefore i) with
      | mk log result =>
          rw [hscan] at hresult
          dsimp only at hresult
          by_cases hstops : image.ScanStops i
          · rw [if_pos hstops] at hresult
            rw [hresult]
            exact (and_iff_left fun hgoes => absurd hstops hgoes).symm
          · rw [if_neg hstops] at hresult
            rw [hresult]
            dsimp only
            rw [List.forall_mem_append, ih (by omega) (total_le hstops htotal)]
            apply and_congr_right
            intro _
            exact ⟨fun hrest _ => hrest, fun hrest => hrest hstops⟩

variable (image i count) in
theorem scanHeaders_true_iff :
    (scanHeaders image count i (image.totalBefore i)).2 = true ↔
      NeverStops image.ScanStops i count := by
  induction count generalizing i with
  | zero => exact iff_of_true rfl Rounds.neverStops_zero
  | succ count ih =>
      have hresult := scanHeader_result image i
      rw [Rounds.neverStops_succ, scanHeaders]
      cases hscan : scanHeader image i (image.totalBefore i) with
      | mk log result =>
          rw [hscan] at hresult
          dsimp only at hresult
          by_cases hstops : image.ScanStops i
          · rw [if_pos hstops] at hresult
            rw [hresult]
            exact iff_of_false Bool.false_ne_true fun hboth => hboth.1 hstops
          · rw [if_neg hstops] at hresult
            rw [hresult]
            dsimp only
            rw [ih]
            exact (and_iff_right hstops).symm

end Scan

/-! ## The second loop -/

section Load

variable {image : Image} {root : PhysPage} {m m' : PageTables} {i count rest : ℕ} {cur : Word}

variable (image root m count cur) in
theorem mapPages_fine (hbase : userBase.toNat ≤ cur.toNat)
    (hrange : cur.toNat + 4096 * count ≤ 2 ^ 47) :
    ∀ access ∈ (mapPages root count cur m).1, access.Fine image := by
  induction count generalizing cur m with
  | zero => exact List.forall_mem_nil _
  | succ count ih =>
      have hone : 4096 ≤ 4096 * (count + 1) := Nat.le_mul_of_pos_right 4096 (Nat.succ_pos count)
      have hend : cur.toNat + 4096 ≤ 2 ^ 47 := Nat.le_trans (Nat.add_le_add_left hone _) hrange
      have hmap : (Access.map cur).Fine image := ⟨hbase, hend⟩
      rw [mapPages]
      cases mapNewPage root cur m with
      | refused mid => exact List.forall_mem_nil _
      | fault => exact List.forall_mem_singleton.mpr hmap
      | done mid =>
          have hnext : (cur + 4096#64).toNat = cur.toNat + 4096 :=
            toNat_add_ofNat cur 4096 (by omega)
          have hsum : (Access.sum cur 4096#64).Fine image := by
            change cur.toNat + 4096 < 2 ^ 64
            omega
          exact List.forall_mem_cons.mpr
            ⟨hmap, List.forall_mem_cons.mpr ⟨hsum, ih _ _ (by omega) (by omega)⟩⟩

theorem copied_inside (hsum : (image.pOffset i).toNat + (image.wanted i).toNat < 2 ^ 64)
    (hsome : image.copied i ≠ 0#64) :
    (image.pOffset i).toNat + (image.copied i).toNat ≤ image.size.toNat := by
  have htoNat : (image.pOffset i + image.wanted i).toNat =
      (image.pOffset i).toNat + (image.wanted i).toNat := by
    rw [BitVec.toNat_add, Nat.mod_eq_of_lt hsum]
  unfold Image.copied at hsome ⊢
  split_ifs at hsome ⊢ with hbehind hinside
  · rw [BitVec.toNat_sub_of_le (BitVec.le_of_lt hinside)]
    rw [BitVec.lt_def] at hinside
    omega
  · exact absurd rfl hsome
  · rw [BitVec.lt_def, htoNat] at hbehind
    omega

theorem fillSegment_fine (hplaced : image.Placed i)
    (hheader : (image.phdr i).toNat + 56 ≤ image.size.toNat)
    (hsum : (image.pOffset i).toNat + (image.wanted i).toNat < 2 ^ 64) :
    ∀ access ∈ (fillSegment image root i m).1, access.Fine image := by
  obtain ⟨hbase, hspan, htop⟩ := hplaced.bounds
  have hpages := hplaced.toNat_pages
  have hmapped := mapPages_fine image root m (image.pages i).toNat (image.first i) hbase (by omega)
  have hfields : ∀ access ∈ [Access.read (image.phdr i) 32 8, Access.read (image.phdr i) 8 8,
      Access.sum (image.pOffset i) (image.wanted i)], access.Fine image := by
    simp only [List.forall_mem_cons, Access.Fine, List.not_mem_nil, false_implies, implies_true,
      and_true]
    omega
  unfold fillSegment
  cases hmap : mapPages root (image.pages i).toNat (image.first i) m with
  | mk log outcome =>
      rw [hmap] at hmapped
      cases outcome with
      | refused mid => exact hmapped
      | fault => exact hmapped
      | done mid =>
          dsimp only
          cases zeroPages root (image.first i) (image.pages i) mid with
          | none => exact hmapped
          | some cleared =>
              dsimp only
              by_cases hnothing : image.copied i = 0#64
              · rw [if_pos hnothing]
                exact List.forall_mem_append.mpr ⟨hmapped, hfields⟩
              · rw [if_neg hnothing]
                refine List.forall_mem_append.mpr
                  ⟨List.forall_mem_append.mpr ⟨hmapped, hfields⟩, ?_⟩
                have hcopied := copied_inside hsum hnothing
                simp only [List.forall_mem_cons, Access.Fine, List.not_mem_nil, false_implies,
                  implies_true, and_true]
                omega

theorem sum_mem_fillSegment (hdone : (fillSegment image root i m).2 = .done m') :
    Access.sum (image.pOffset i) (image.wanted i) ∈ (fillSegment image root i m).1 := by
  unfold fillSegment at hdone ⊢
  cases hmap : mapPages root (image.pages i).toNat (image.first i) m with
  | mk log outcome =>
      rw [hmap] at hdone
      cases outcome with
      | refused mid => cases hdone
      | fault => cases hdone
      | done mid =>
          dsimp only at hdone ⊢
          cases hzero : zeroPages root (image.first i) (image.pages i) mid with
          | none =>
              rw [hzero] at hdone
              cases hdone
          | some cleared =>
              dsimp only
              by_cases hnothing : image.copied i = 0#64
              · rw [if_pos hnothing]
                simp
              · rw [if_neg hnothing]
                simp

theorem loadSegment_log : (loadSegment image root i m).1 =
    [.sum image.ePhoff (BitVec.ofNat 64 i * image.ePhentsize),
        .sum (image.phdr i) Image.phdrSize] ++
      if image.size < image.phdr i + Image.phdrSize then []
      else .read (image.phdr i) 0 4 ::
        if image.pType i = ptLoad then
          [.read (image.phdr i) 16 8, .read (image.phdr i) 40 8,
            .sum (image.pVaddr i) (image.pMemsz i),
            .sum (image.pVaddr i + image.pMemsz i) 0xFFF#64] ++
          if image.Covers i ∧ ¬ image.OutOfRange i then (fillSegment image root i m).1 else []
        else [] := by
  unfold loadSegment
  by_cases hinside : image.size < image.phdr i + Image.phdrSize
  · rw [if_pos hinside, if_pos hinside, List.append_nil]
  · rw [if_neg hinside, if_neg hinside]
    by_cases hload : image.pType i = ptLoad
    · rw [if_neg (not_not_intro hload), if_pos hload]
      by_cases hpages : image.last i ≤ image.first i
      · have hnone : ¬ (image.Covers i ∧ ¬ image.OutOfRange i) :=
          fun h => absurd h.1.2 (BitVec.not_lt.mpr hpages)
        rw [if_pos hpages, if_neg hnone]
        rfl
      · have hcovers : image.Covers i := ⟨hload, BitVec.not_le.mp hpages⟩
        rw [if_neg hpages]
        by_cases hrange : image.OutOfRange i
        · have hends : image.first i < userBase ∨ userTop < image.last i := hrange
          rw [if_pos hends, if_neg fun h => h.2 hrange]
          rfl
        · have hends : ¬ (image.first i < userBase ∨ userTop < image.last i) := hrange
          rw [if_neg hends, if_pos ⟨hcovers, hrange⟩]
          rfl
    · rw [if_pos hload, if_neg hload]

/-! ### Headers that fit -/

theorem phdrSize_toNat : Image.phdrSize.toNat = 56 := by decide

theorem toNat_header_end (hi : i ≤ 1024) (hfits : image.ePhoff.toNat + 56 * i + 56 < 2 ^ 64) :
    (image.phdr i + Image.phdrSize).toNat = image.ePhoff.toNat + 56 * i + 56 := by
  rw [BitVec.toNat_add, toNat_phdr hi (by omega), phdrSize_toNat, Nat.mod_eq_of_lt hfits]

variable (image root m i) in
theorem loadSegment_fine (hsize : image.ePhentsize = Image.phdrSize) (hi : i ≤ 1024)
    (hfits : image.SumsFit i) : ∀ access ∈ (loadSegment image root i m).1, access.Fine image := by
  obtain ⟨hend, hsums⟩ := hfits
  have hphdr := toNat_phdr hi (by omega : image.ePhoff.toNat + 56 * i < 2 ^ 64)
  have hheader := toNat_header_end hi hend
  have hstart : ∀ access ∈ [Access.sum image.ePhoff (BitVec.ofNat 64 i * image.ePhentsize),
      Access.sum (image.phdr i) Image.phdrSize], access.Fine image := by
    simp only [List.forall_mem_cons, Access.Fine, hsize, toNat_phdrOffset hi, phdrSize_toNat, hphdr,
      List.not_mem_nil, false_implies, implies_true, and_true]
    omega
  rw [loadSegment_log]
  refine List.forall_mem_append.mpr ⟨hstart, ?_⟩
  by_cases hinside : image.size < image.phdr i + Image.phdrSize
  · rw [if_pos hinside]
    exact nofun
  · have hread : (image.phdr i).toNat + 56 ≤ image.size.toNat := by
      rw [BitVec.lt_def, hheader] at hinside
      omega
    have htype : (Access.read (image.phdr i) 0 4).Fine image := by
      rw [Access.Fine]
      omega
    rw [if_neg hinside]
    refine List.forall_mem_cons.mpr ⟨htype, ?_⟩
    by_cases hload : image.pType i = ptLoad
    · obtain ⟨hsegment, hfile⟩ := hsums hinside hload
      have hfields : ∀ access ∈ [Access.read (image.phdr i) 16 8, Access.read (image.phdr i) 40 8,
          Access.sum (image.pVaddr i) (image.pMemsz i),
          Access.sum (image.pVaddr i + image.pMemsz i) 0xFFF#64], access.Fine image := by
        have hsum : (image.pVaddr i).toNat + (image.pMemsz i).toNat + 0xFFF < 2 ^ 64 := hsegment
        have hlow : (0xFFF#64 : Word).toNat = 0xFFF := rfl
        have htoNat : (image.pVaddr i + image.pMemsz i).toNat =
            (image.pVaddr i).toNat + (image.pMemsz i).toNat := by
          rw [BitVec.toNat_add, Nat.mod_eq_of_lt (by omega)]
        simp only [List.forall_mem_cons, Access.Fine, htoNat, hlow, List.not_mem_nil,
          false_implies, implies_true, and_true]
        omega
      rw [if_pos hload]
      refine List.forall_mem_append.mpr ⟨hfields, ?_⟩
      split_ifs with hplaces
      · obtain ⟨hcovers, hrange⟩ := hplaces
        exact fillSegment_fine (placed_of_covers hcovers hrange hsegment) hread
          (hfile hcovers hrange)
      · exact nofun
    · rw [if_neg hload]
      exact nofun

variable (image root m i) in
theorem loadSegment_refused (hstops : image.SegmentStops i) :
    (loadSegment image root i m).2 = .refused m := by
  rw [loadSegment_outcome]
  by_cases hinside : image.size < image.phdr i + Image.phdrSize
  · exact if_pos hinside
  · obtain ⟨hcovers, hrange⟩ := hstops.resolve_left hinside
    rw [if_neg hinside, if_pos hcovers, if_pos hrange]

theorem loadSegments_fine (hsize : image.ePhentsize = Image.phdrSize) (hcount : i + count ≤ 1024)
    (hfits : UntilStop image.SegmentStops image.SumsFit i count) :
    ∀ access ∈ (loadSegments image root count i m).1, access.Fine image := by
  induction count generalizing i m with
  | zero => exact nofun
  | succ count ih =>
      obtain ⟨hfirst, hrest⟩ := Rounds.untilStop_succ.mp hfits
      have hround := loadSegment_fine image root m i hsize (by omega) hfirst
      rw [loadSegments]
      cases hload : loadSegment image root i m with
      | mk log outcome =>
          rw [hload] at hround
          cases outcome with
          | refused mid => exact hround
          | fault => exact hround
          | done mid =>
              have hgoes : ¬ image.SegmentStops i := by
                intro hstops
                have hrefused := loadSegment_refused image root m i hstops
                rw [hload] at hrefused
                cases hrefused
              exact List.forall_mem_append.mpr ⟨hround, ih (by omega) (hrest hgoes)⟩

/-! ### Memory enough -/

theorem pages_le (hplaced : image.Placed i)
    (hsmall : (image.pMemsz i).toNat ≤ maxSegment.toNat) : 4 * (image.pages i).toNat ≤ 2 ^ 19 := by
  have hmax : maxSegment.toNat = 2 ^ 28 := by decide
  have hfirst := Image.toNat_first image i
  have hlast := Image.toNat_last hplaced.endFits
  have hpages := hplaced.toNat_pages
  unfold Image.span at hpages
  omega

variable (image root m i rest) in
/-- Where memory is no concern, a round that stays in its bounds has sums that fit, and goes on
unless there is an error. -/
theorem loadSegment_of_frames (h : UserSpace m root) (hsize : image.ePhentsize = Image.phdrSize)
    (hi : i ≤ 1024)
    (hsmall : image.pType i = ptLoad → (image.pMemsz i).toNat ≤ maxSegment.toNat)
    (hframes : rest + 2 ^ 19 ≤ m.supply.length)
    (hfine : ∀ access ∈ (loadSegment image root i m).1, access.Fine image) :
    image.SumsFit i ∧ (¬ image.SegmentStops i →
      ∃ m', (loadSegment image root i m).2 = .done m' ∧ UserSpace m' root ∧
        rest ≤ m'.supply.length) := by
  rw [loadSegment_log] at hfine
  obtain ⟨hstart, hlater⟩ := List.forall_mem_append.mp hfine
  obtain ⟨hphoff, hheader⟩ : image.ePhoff.toNat + 56 * i < 2 ^ 64 ∧
      (image.phdr i).toNat + 56 < 2 ^ 64 := by
    simpa only [List.forall_mem_cons, Access.Fine, hsize, toNat_phdrOffset hi, phdrSize_toNat,
      List.not_mem_nil, false_implies, implies_true, and_true] using hstart
  rw [toNat_phdr hi hphoff] at hheader
  by_cases hinside : image.size < image.phdr i + Image.phdrSize
  · refine ⟨⟨hheader, fun hgoes => absurd hinside hgoes⟩, fun hgoes => ?_⟩
    exact absurd (Or.inl hinside) hgoes
  · rw [if_neg hinside] at hlater
    have hrest := (List.forall_mem_cons.mp hlater).2
    have hfits : image.pType i = ptLoad → image.EndFits i := by
      intro hload
      rw [if_pos hload] at hrest
      have hsums := (List.forall_mem_append.mp hrest).1
      have hlow : (0xFFF#64 : Word).toNat = 0xFFF := rfl
      obtain ⟨_, _, hfirst, hsecond⟩ : _ ∧ _ ∧
          (image.pVaddr i).toNat + (image.pMemsz i).toNat < 2 ^ 64 ∧
            (image.pVaddr i + image.pMemsz i).toNat + 0xFFF < 2 ^ 64 := by
        simpa only [List.forall_mem_cons, Access.Fine, hlow, List.not_mem_nil, false_implies,
          implies_true, and_true] using hsums
      rwa [BitVec.toNat_add, Nat.mod_eq_of_lt hfirst] at hsecond
    have hfill : image.Covers i → ¬ image.OutOfRange i →
        ∃ m', (fillSegment image root i m).2 = .done m' ∧ UserSpace m' root ∧
          rest ≤ m'.supply.length := by
      intro hcovers hrange
      have hplaced := placed_of_covers hcovers hrange (hfits hcovers.1)
      have hpages := pages_le hplaced (hsmall hcovers.1)
      obtain ⟨m', hdone, hleft⟩ := fillSegment_of_frames image root m i rest h hplaced (by omega)
      exact ⟨m', hdone, (fillSegment_spec h hplaced hdone).1, hleft⟩
    refine ⟨⟨hheader, fun _ hload => ⟨hfits hload, fun hcovers hrange => ?_⟩⟩, fun hgoes => ?_⟩
    · obtain ⟨m', hdone, _, _⟩ := hfill hcovers hrange
      rw [if_pos hload, if_pos ⟨hcovers, hrange⟩] at hrest
      exact (List.forall_mem_append.mp hrest).2 _ (sum_mem_fillSegment hdone)
    · rw [loadSegment_outcome, if_neg hinside]
      by_cases hcovers : image.Covers i
      · have hrange : ¬ image.OutOfRange i := fun hout => hgoes (Or.inr ⟨hcovers, hout⟩)
        rw [if_pos hcovers, if_neg hrange]
        exact hfill hcovers hrange
      · rw [if_neg hcovers]
        exact ⟨m, rfl, h, by omega⟩

theorem loadSegments_of_frames (h : UserSpace m root)
    (hsize : image.ePhentsize = Image.phdrSize) (hcount : i + count ≤ 1024)
    (hscan : NeverStops image.ScanStops i count)
    (hframes : count * 2 ^ 19 ≤ m.supply.length)
    (hfine : ∀ access ∈ (loadSegments image root count i m).1, access.Fine image) :
    UntilStop image.SegmentStops image.SumsFit i count := by
  induction count generalizing i m with
  | zero => exact Rounds.untilStop_zero
  | succ count ih =>
      obtain ⟨hgoes, hscan'⟩ := Rounds.neverStops_succ.mp hscan
      have hsmall : image.pType i = ptLoad → (image.pMemsz i).toNat ≤ maxSegment.toNat := by
        intro hload
        apply BitVec.le_def.mp
        apply BitVec.not_lt.mp
        exact fun hlarge => hgoes (Or.inr ⟨hload, Or.inl hlarge⟩)
      have hfirst : ∀ access ∈ (loadSegment image root i m).1, access.Fine image := by
        intro access hmem
        apply hfine
        rw [loadSegments]
        cases hload : loadSegment image root i m with
        | mk log outcome =>
            rw [hload] at hmem
            cases outcome with
            | refused mid => exact hmem
            | fault => exact hmem
            | done mid => exact List.mem_append_left _ hmem
      obtain ⟨hsums, hnext⟩ :=
        loadSegment_of_frames image root m i (count * 2 ^ 19) h hsize (by omega) hsmall
          (by omega) hfirst
      refine Rounds.untilStop_succ.mpr ⟨hsums, fun hround => ?_⟩
      obtain ⟨mid, hdone, hspace, hleft⟩ := hnext hround
      apply ih hspace (by omega) hscan' hleft
      intro access hmem
      apply hfine
      rw [loadSegments]
      cases hload : loadSegment image root i m with
      | mk log outcome =>
          rw [hload] at hdone
          cases hdone
          exact List.mem_append_right _ hmem

end Load

/-! ## The whole loader -/

/-- The checks of the header and the first loop let the image through. -/
def Image.Scanned (image : Image) : Prop :=
  Image.headerSize ≤ image.size ∧ image.HeaderValid ∧
    NeverStops image.ScanStops 0 image.ePhnum.toNat

theorem elfLoad_cases (image : Image) (root : PhysPage) (m : PageTables) :
    ¬ image.Scanned ∧ (elfLoad image root m).2 = .refused m ∨
      image.Scanned ∧
        (elfLoad image root m).2 = (loadSegments image root image.ePhnum.toNat 0 m).2 := by
  have htrue := scanHeaders_true_iff image 0 image.ePhnum.toNat
  have hzero : image.totalBefore 0 = 0#64 := rfl
  rw [hzero] at htrue
  rw [elfLoad]
  by_cases hsize : image.size < Image.headerSize
  · rw [if_pos hsize]
    exact Or.inl ⟨fun h => BitVec.not_lt.mpr h.1 hsize, rfl⟩
  · rw [if_neg hsize]
    by_cases hvalid : image.HeaderValid
    · rw [if_neg (not_not_intro hvalid)]
      cases hloop : scanHeaders image image.ePhnum.toNat 0 0#64 with
      | mk scan accepted =>
          rw [hloop] at htrue
          cases accepted with
          | false => exact Or.inl ⟨fun h => Bool.false_ne_true (htrue.mpr h.2.2), rfl⟩
          | true => exact Or.inr ⟨⟨BitVec.not_lt.mp hsize, hvalid, htrue.mp rfl⟩, rfl⟩
    · rw [if_pos hvalid]
      exact Or.inl ⟨fun h => hvalid h.2.1, rfl⟩

theorem elfLoad_done {image : Image} {root : PhysPage} {m m' : PageTables}
    (hdone : (elfLoad image root m).2 = .done m') :
    image.Scanned ∧ (loadSegments image root image.ePhnum.toNat 0 m).2 = .done m' := by
  rcases elfLoad_cases image root m with ⟨_, hrefused⟩ | ⟨hscanned, hrest⟩
  · cases hrefused.symm.trans hdone
  · exact ⟨hscanned, hrest.symm.trans hdone⟩

/-- Exactly the images whose headers and sums fit are read within their bounds.  An image that the
checks of the header refuse is read no further. -/
theorem bounded_iff (image : Image) :
    image.Bounded ↔ (Image.headerSize ≤ image.size → image.HeaderValid → image.Fits) := by
  have hzero : image.totalBefore 0 = 0#64 := rfl
  have hread : Image.headerSize ≤ image.size →
      (Access.read 0#64 0 Image.headerSize.toNat).Fine image := by
    intro hsize
    have hle := BitVec.le_def.mp hsize
    change 0 + 0 + Image.headerSize.toNat ≤ image.size.toNat
    omega
  have hscan : image.HeaderValid →
      ((∀ access ∈ (scanHeaders image image.ePhnum.toNat 0 0#64).1, access.Fine image) ↔
        UntilStop image.ScanStops image.HeaderInside 0 image.ePhnum.toNat) := by
    rintro ⟨_, _, _, _, _, _, hcount⟩
    have hle : image.ePhnum.toNat ≤ 1024 := BitVec.le_def.mp hcount
    rw [← hzero]
    exact scanHeaders_fine_iff (by omega) (Nat.zero_le _)
  constructor
  · intro hbounded hsize hvalid
    have hcount : image.ePhnum.toNat ≤ 1024 := BitVec.le_def.mp hvalid.2.2.2.2.2.2
    obtain ⟨hspace, _⟩ := userSpace_emptySpace (image.ePhnum.toNat * 2 ^ 19) (by omega)
    have hfine := hbounded (frame 0) (emptySpace (image.ePhnum.toNat * 2 ^ 19))
    rw [elfLoad, if_neg (BitVec.not_lt.mpr hsize), if_neg (not_not_intro hvalid)] at hfine
    have htrue := scanHeaders_true_iff image 0 image.ePhnum.toNat
    rw [hzero] at htrue
    rw [Image.Fits, ← hscan hvalid]
    cases hloop : scanHeaders image image.ePhnum.toNat 0 0#64 with
    | mk scan accepted =>
        rw [hloop] at hfine htrue
        cases accepted with
        | false =>
            refine ⟨(List.forall_mem_append.mp hfine).2, fun hnever => ?_⟩
            exact absurd (htrue.mpr hnever) Bool.false_ne_true
        | true =>
            obtain ⟨hbefore, hload⟩ := List.forall_mem_append.mp hfine
            refine ⟨(List.forall_mem_append.mp hbefore).2, fun hnever => ?_⟩
            refine loadSegments_of_frames hspace hvalid.2.2.2.2.1 (by omega) hnever ?_ hload
            rw [emptySpace, List.length_map, List.length_range]
  · intro hfits root m
    rw [elfLoad]
    by_cases hsize : image.size < Image.headerSize
    · rw [if_pos hsize]
      exact List.forall_mem_nil _
    · have hstart : ∀ access ∈ [Access.read 0#64 0 Image.headerSize.toNat], access.Fine image :=
        List.forall_mem_singleton.mpr (hread (BitVec.not_lt.mp hsize))
      rw [if_neg hsize]
      by_cases hvalid : image.HeaderValid
      · have hcount : image.ePhnum.toNat ≤ 1024 := BitVec.le_def.mp hvalid.2.2.2.2.2.2
        obtain ⟨hheaders, hsums⟩ := hfits (BitVec.not_lt.mp hsize) hvalid
        have hloopFine := (hscan hvalid).mpr hheaders
        have htrue := scanHeaders_true_iff image 0 image.ePhnum.toNat
        rw [hzero] at htrue
        rw [if_neg (not_not_intro hvalid)]
        cases hloop : scanHeaders image image.ePhnum.toNat 0 0#64 with
        | mk scan accepted =>
            rw [hloop] at hloopFine htrue
            cases accepted with
            | false => exact List.forall_mem_append.mpr ⟨hstart, hloopFine⟩
            | true =>
                refine List.forall_mem_append.mpr
                  ⟨List.forall_mem_append.mpr ⟨hstart, hloopFine⟩, ?_⟩
                exact loadSegments_fine hvalid.2.2.2.2.1 (by omega) (hsums (htrue.mp rfl))
      · rw [if_pos hvalid]
        exact hstart

/-! ## Images that can be loaded -/

/-- An image that passes both loops, with sums that fit. -/
def Image.Loadable (image : Image) : Prop :=
  Image.headerSize ≤ image.size ∧ image.HeaderValid ∧ ∀ i < image.ePhnum.toNat,
    ¬ image.ScanStops i ∧ ¬ image.SegmentStops i ∧ image.SumsFit i

instance (image : Image) (i : ℕ) : Decidable (image.SegmentStops i) :=
  inferInstanceAs (Decidable (_ ∨ _))

instance (image : Image) (i : ℕ) : Decidable (image.EndFits i) :=
  inferInstanceAs (Decidable (_ < _))

instance (image : Image) (i : ℕ) : Decidable (image.SumsFit i) :=
  inferInstanceAs (Decidable (_ ∧ (_ → _ → _ ∧ (_ → _ → _))))

instance (image : Image) : Decidable image.Loadable :=
  inferInstanceAs (Decidable (_ ∧ _ ∧ _))

section Loadable

variable {image : Image} {root : PhysPage} {m : PageTables} {i count rest : ℕ}

variable (image root m i count rest) in
/-- Where there are frames enough, the second loop comes to its end unless a header stops it. -/
theorem loadSegments_result (h : UserSpace m root) (hsize : image.ePhentsize = Image.phdrSize)
    (hcount : i + count ≤ 1024) (hframes : rest + count * 2 ^ 19 ≤ m.supply.length)
    (hscan : NeverStops image.ScanStops i count)
    (hsums : UntilStop image.SegmentStops image.SumsFit i count) :
    (NeverStops image.SegmentStops i count →
        ∃ m', (loadSegments image root count i m).2 = .done m' ∧ rest ≤ m'.supply.length) ∧
      (¬ NeverStops image.SegmentStops i count →
        ∃ m', (loadSegments image root count i m).2 = .refused m') := by
  induction count generalizing i m with
  | zero => exact ⟨fun _ => ⟨m, rfl, by omega⟩, fun h => absurd Rounds.neverStops_zero h⟩
  | succ count ih =>
      obtain ⟨hgoes, hscan'⟩ := Rounds.neverStops_succ.mp hscan
      obtain ⟨hfirst, hsums'⟩ := Rounds.untilStop_succ.mp hsums
      have hsmall : image.pType i = ptLoad → (image.pMemsz i).toNat ≤ maxSegment.toNat := by
        intro htype
        apply BitVec.le_def.mp
        apply BitVec.not_lt.mp
        exact fun hlarge => hgoes (Or.inr ⟨htype, Or.inl hlarge⟩)
      rw [Rounds.neverStops_succ, loadSegments]
      by_cases hstops : image.SegmentStops i
      · have hrefused := loadSegment_refused image root m i hstops
        refine ⟨fun hnever => absurd hstops hnever.1, fun _ => ⟨m, ?_⟩⟩
        cases hround : loadSegment image root i m with
        | mk log outcome =>
            rw [hround] at hrefused
            cases hrefused
            rfl
      · obtain ⟨mid, hdone, hspace, hleft⟩ :=
          (loadSegment_of_frames image root m i (rest + count * 2 ^ 19) h hsize (by omega) hsmall
            (by omega) (loadSegment_fine _ _ _ _ hsize (by omega) hfirst)).2 hstops
        rw [and_iff_right hstops]
        have hlater := ih mid (i + 1) hspace (by omega) hleft hscan' (hsums' hstops)
        cases hround : loadSegment image root i m with
        | mk log outcome =>
            rw [hround] at hdone
            cases hdone
            exact hlater

variable (image root m rest) in
theorem elfLoad_of_frames (h : UserSpace m root) (hload : image.Loadable)
    (hframes : rest + 2 ^ 29 ≤ m.supply.length) :
    ∃ m', (elfLoad image root m).2 = .done m' ∧ rest ≤ m'.supply.length := by
  obtain ⟨hsize, hvalid, hall⟩ := hload
  have hcount : image.ePhnum.toNat ≤ 1024 := BitVec.le_def.mp hvalid.2.2.2.2.2.2
  have hscan : NeverStops image.ScanStops 0 image.ePhnum.toNat :=
    fun k _ hhigh => (hall k (by omega)).1
  obtain ⟨m', hdone, hrest⟩ := (loadSegments_result image root m 0 image.ePhnum.toNat rest h
    hvalid.2.2.2.2.1 (by omega) (by omega) hscan fun k _ hhigh _ => (hall k (by omega)).2.2).1
      fun k _ hhigh => (hall k (by omega)).2.1
  refine ⟨m', ?_, hrest⟩
  rcases elfLoad_cases image root m with ⟨hnot, _⟩ | ⟨_, hsegments⟩
  · exact absurd ⟨hsize, hvalid, hscan⟩ hnot
  · exact hsegments.trans hdone

variable (image root m) in
/-- Of the images that are read within their bounds, `elf_load` refuses those which the checks of
the header or one of the loops stop at, where there are frames enough. -/
theorem elfLoad_refused_iff (h : UserSpace m root) (hframes : 2 ^ 29 ≤ m.supply.length)
    (hfits : image.Scanned → image.Fits) :
    (∃ m', (elfLoad image root m).2 = .refused m') ↔
      ¬ (image.Scanned ∧ NeverStops image.SegmentStops 0 image.ePhnum.toNat) := by
  rcases elfLoad_cases image root m with ⟨hnot, hrefused⟩ | ⟨hscanned, hsegments⟩
  · exact iff_of_true ⟨m, hrefused⟩ fun hboth => hnot hboth.1
  · obtain ⟨_, hvalid, hscan⟩ := id hscanned
    have hcount : image.ePhnum.toNat ≤ 1024 := BitVec.le_def.mp hvalid.2.2.2.2.2.2
    obtain ⟨hdone, hrefused⟩ := loadSegments_result image root m 0 image.ePhnum.toNat 0 h
      hvalid.2.2.2.2.1 (by omega) (by omega) hscan ((hfits hscanned).2 hscan)
    rw [hsegments, and_iff_right hscanned]
    constructor
    · rintro ⟨m', hm'⟩ hnever
      obtain ⟨last, hlast, _⟩ := hdone hnever
      cases hm'.symm.trans hlast
    · exact hrefused

end Loadable

/-! ## Images of a few bytes -/

def littleEndian (width value : ℕ) : List Byte :=
  (List.range width).map fun k => BitVec.ofNat 8 (value / 256 ^ k)

/-- The header of an executable. -/
def headerBytes (entry phoff phnum : ℕ) : List Byte :=
  littleEndian 4 0x464C457F ++ littleEndian 12 2 ++ littleEndian 2 2 ++ littleEndian 2 62 ++
    littleEndian 4 1 ++ littleEndian 8 entry ++ littleEndian 8 phoff ++ littleEndian 12 0 ++
      littleEndian 2 64 ++ littleEndian 2 56 ++ littleEndian 2 phnum ++ littleEndian 6 0

/-- A program header. -/
def phdrBytes (type flags offset vaddr filesz memsz : ℕ) : List Byte :=
  littleEndian 4 type ++ littleEndian 4 flags ++ littleEndian 8 offset ++ littleEndian 8 vaddr ++
    littleEndian 8 vaddr ++ littleEndian 8 filesz ++ littleEndian 8 memsz ++ littleEndian 8 4096

def imageOfBytes (bytes : List Byte) : Image where
  byte := fun offset => bytes.getD offset.toNat 0#8
  size := BitVec.ofNat 64 bytes.length

/-- A header that says that the program headers are far behind the end. -/
def farHeaders : Image := imageOfBytes (headerBytes 0x400000 0x10000000000 1)

/-- The type of a program header is read where there is no image. -/
theorem not_bounded_farHeaders : ¬ farHeaders.Bounded := by
  intro h
  have hread : Access.read 0x10000000000#64 0 4 ∈
      (elfLoad farHeaders (frame 0) (emptySpace 0)).1 := by decide +kernel
  have hfine : 0x10000000000 + 0 + 4 ≤ farHeaders.size.toNat :=
    h (frame 0) (emptySpace 0) _ hread
  exact absurd hfine (by decide)

end EigenOS.Programs
