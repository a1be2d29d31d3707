import EigenOS.Library.MachineInt
import EigenOS.Programs.ElfLoader

/-!
# What a segment leaves in memory

The pages of a segment are filled with zeros, and then its bytes in the file are laid over them.
The rest of the memory stays what it was.
-/

namespace EigenOS.Programs

open EigenOS.Paging
open EigenOS.SparseMemory (blit distance)

/-! ## Page boundaries -/

theorem toNat_pageFloor (addr : Word) :
    (addr &&& ~~~0xFFF#64).toNat = addr.toNat / 4096 * 4096 := by
  have hsum := MachineInt.toNat_and_add_and_not addr 0xFFF#64
  have hlow : (addr &&& 0xFFF#64).toNat = addr.toNat % 4096 := by
    rw [BitVec.toNat_and]
    exact Nat.and_two_pow_sub_one_eq_mod addr.toNat 12
  omega

theorem pageOf_eq_iff (addr other : Word) :
    pageOf other = pageOf addr ↔ other.toNat / 4096 = addr.toNat / 4096 := by
  rw [← BitVec.toNat_inj, pageOf, pageOf, BitVec.toNat_ushiftRight, BitVec.toNat_ushiftRight,
    Nat.shiftRight_eq_div_pow, Nat.shiftRight_eq_div_pow]

/-! ## The pages of a segment -/

section MapPages

variable {m m' : PageTables} {root : PhysPage} {cur addr : Word} {count rest : ℕ}

theorem mapPages_spec (h : UserSpace m root) (haligned : cur.toNat % 4096 = 0)
    (hrange : cur.toNat + 4096 * count ≤ 2 ^ 47)
    (hmap : (mapPages root count cur m).2 = .done m') :
    UserSpace m' root ∧
      (∀ addr, ¬ distance cur addr < 4096 * count → userView m' root addr = userView m root addr) ∧
      ∀ addr, (userView m root addr).isSome = true → (userView m' root addr).isSome = true := by
  induction count generalizing cur m with
  | zero =>
      cases hmap
      exact ⟨h, fun _ _ => rfl, fun _ hsome => hsome⟩
  | succ count ih =>
      rw [mapPages] at hmap
      cases hfirst : mapNewPage root cur m with
      | refused mid | fault =>
          rw [hfirst] at hmap
          cases hmap
      | done mid =>
          rw [hfirst] at hmap
          have hnext : (cur + 4096#64).toNat = cur.toNat + 4096 :=
            toNat_add_ofNat cur 4096 (by omega)
          obtain ⟨hspace, hkept, hstill⟩ := mapNewPage_spec h (by rw [User]; omega) hfirst
          obtain ⟨hspace', hkept', hstill'⟩ := ih hspace (by omega) (by omega) hmap
          refine ⟨hspace', fun addr hoff => ?_, fun addr hsome => hstill' addr (hstill addr hsome)⟩
          rw [SparseMemory.distance_lt_iff (by omega)] at hoff
          rw [hkept' addr, hkept addr]
          · rw [Ne, pageOf_eq_iff]
            omega
          · rw [SparseMemory.distance_lt_iff (by omega)]
            omega

theorem mapPages_of_frames (h : UserSpace m root) (haligned : cur.toNat % 4096 = 0)
    (hrange : cur.toNat + 4096 * count ≤ 2 ^ 47) (hframes : rest + 4 * count ≤ m.supply.length) :
    ∃ m', (mapPages root count cur m).2 = .done m' ∧ rest ≤ m'.supply.length ∧
      ∀ addr, distance cur addr < 4096 * count → (userView m' root addr).isSome = true := by
  induction count generalizing cur m with
  | zero => exact ⟨m, rfl, by omega, fun _ hlt => absurd hlt (Nat.not_lt_zero _)⟩
  | succ count ih =>
      have huser : User cur := by
        rw [User]
        omega
      have hnext : (cur + 4096#64).toNat = cur.toNat + 4096 :=
        toNat_add_ofNat cur 4096 (by omega)
      obtain ⟨mid, hfirst, hleft, hon⟩ :=
        mapNewPage_of_frames m root cur (rest + 4 * count) h huser (by omega)
      obtain ⟨hspace, _, _⟩ := mapNewPage_spec h huser hfirst
      obtain ⟨m', hmap, hrest, hmapped⟩ := @ih mid (cur + 4096#64) hspace (by omega) (by omega) hleft
      have hstill := (mapPages_spec hspace (by omega) (by omega) hmap).2.2
      refine ⟨m', ?_, hrest, fun addr hlt => ?_⟩
      · rw [mapPages, hfirst]
        exact hmap
      · rw [SparseMemory.distance_lt_iff (by omega)] at hlt
        by_cases hpage : addr.toNat < cur.toNat + 4096
        · refine hstill addr (hon addr ?_ ?_)
          · rw [User]
            omega
          · rw [pageOf_eq_iff]
            omega
        · refine hmapped addr ?_
          rw [SparseMemory.distance_lt_iff (by omega)]
          omega

end MapPages

/-! ## A segment -/

namespace Image

variable (image : Image) (i : ℕ)

/-- The end of a segment is found without wrapping around. -/
def EndFits : Prop := (image.pVaddr i).toNat + (image.pMemsz i).toNat + 0xFFF < 2 ^ 64

/-- A segment that is put on pages of the user range. -/
structure Placed : Prop where
  endFits : image.EndFits i
  nonempty : image.first i < image.last i
  base : userBase ≤ image.first i
  top : image.last i ≤ userTop

/-- How many bytes the pages of a segment have. -/
def span : ℕ := (image.last i).toNat - (image.first i).toNat

/-- The memory of a program after a segment is put into it. -/
def segmentView (view : SparseMemory.Memory 64 Byte) : SparseMemory.Memory 64 Byte :=
  blit (blit view (image.first i) (image.span i) fun _ => 0#8) (image.pVaddr i)
    (image.copied i).toNat fun k => image.byte (image.pOffset i + BitVec.ofNat 64 k)

variable {image i}

variable (image i) in
theorem toNat_first : (image.first i).toNat = (image.pVaddr i).toNat / 4096 * 4096 :=
  toNat_pageFloor _

theorem toNat_last (h : image.EndFits i) : (image.last i).toNat =
    ((image.pVaddr i).toNat + (image.pMemsz i).toNat + 4095) / 4096 * 4096 := by
  have hsum : (image.pVaddr i + image.pMemsz i + 0xFFF#64).toNat =
      (image.pVaddr i).toNat + (image.pMemsz i).toNat + 4095 := by
    unfold EndFits at h
    rw [BitVec.toNat_add, BitVec.toNat_add, Nat.mod_add_mod, Nat.mod_eq_of_lt]
    · rfl
    · exact h
  rw [last, toNat_pageFloor, hsum]

theorem Placed.toNat_pages (h : image.Placed i) :
    4096 * (image.pages i).toNat = image.span i := by
  have hfirst := toNat_first image i
  have hlast := toNat_last h.endFits
  have hlt := BitVec.lt_def.mp h.nonempty
  rw [pages, BitVec.toNat_udiv, BitVec.toNat_sub_of_le (BitVec.le_of_lt h.nonempty)]
  change 4096 * (((image.last i).toNat - (image.first i).toNat) / 4096) = image.span i
  unfold span
  omega

theorem Placed.bounds (h : image.Placed i) : userBase.toNat ≤ (image.first i).toNat ∧
    (image.first i).toNat + image.span i = (image.last i).toNat ∧
      (image.last i).toNat ≤ 2 ^ 47 := by
  have hlt := BitVec.lt_def.mp h.nonempty
  exact ⟨BitVec.le_def.mp h.base, by unfold span; omega, BitVec.le_def.mp h.top⟩

variable (image i) in
theorem copied_le_wanted : (image.copied i).toNat ≤ (image.wanted i).toNat := by
  have hoffset := (image.pOffset i).isLt
  have hwanted := (image.wanted i).isLt
  have hsize := image.size.isLt
  unfold copied
  split_ifs with hbehind hinside
  · rw [BitVec.lt_def, BitVec.toNat_add] at hbehind
    rw [BitVec.toNat_sub_of_le (BitVec.le_of_lt hinside)]
    rw [BitVec.lt_def] at hinside
    by_cases hwrap : (image.pOffset i).toNat + (image.wanted i).toNat < 2 ^ 64
    · rw [Nat.mod_eq_of_lt hwrap] at hbehind
      omega
    · rw [show (image.pOffset i).toNat + (image.wanted i).toNat =
        (image.pOffset i).toNat + (image.wanted i).toNat - 2 ^ 64 + 2 ^ 64 by omega,
        Nat.add_mod_right, Nat.mod_eq_of_lt (by omega)] at hbehind
      omega
  · exact Nat.zero_le _
  · exact Nat.le_refl _

variable (image i) in
theorem wanted_le_memsz : (image.wanted i).toNat ≤ (image.pMemsz i).toNat := by
  unfold wanted
  split_ifs with hlarge
  · exact Nat.le_refl _
  · exact BitVec.le_def.mp (BitVec.not_lt.mp hlarge)

theorem Placed.copied_inside (h : image.Placed i) :
    (image.first i).toNat ≤ (image.pVaddr i).toNat ∧
      (image.pVaddr i).toNat + (image.copied i).toNat ≤ (image.last i).toNat := by
  have hfirst := toNat_first image i
  have hlast := toNat_last h.endFits
  have hcopied := copied_le_wanted image i
  have hwanted := wanted_le_memsz image i
  constructor
  · omega
  · omega

end Image

section Segment

variable {image : Image} {root : PhysPage} {m m' : PageTables} {i rest : ℕ}

theorem fillSegment_spec (h : UserSpace m root) (hplaced : image.Placed i)
    (hdone : (fillSegment image root i m).2 = .done m') :
    UserSpace m' root ∧ userView m' root = image.segmentView i (userView m root) := by
  obtain ⟨hbase, hspan, htop⟩ := hplaced.bounds
  obtain ⟨hstart, hend⟩ := hplaced.copied_inside
  have haligned : (image.first i).toNat % 4096 = 0 := by
    rw [Image.toNat_first, Nat.mul_mod_left]
  have hpages := hplaced.toNat_pages
  unfold fillSegment at hdone
  cases hmap : mapPages root (image.pages i).toNat (image.first i) m with
  | mk log outcome =>
      rw [hmap] at hdone
      cases outcome with
      | refused mid => cases hdone
      | fault => cases hdone
      | done mid =>
          dsimp only at hdone
          obtain ⟨hspace, hkept, _⟩ := mapPages_spec h haligned (by omega) (congrArg Prod.snd hmap)
          cases hzero : zeroPages root (image.first i) (image.pages i) mid with
          | none =>
              rw [hzero] at hdone
              cases hdone
          | some cleared =>
              rw [hzero] at hdone
              dsimp only at hdone
              obtain ⟨hsame, hview⟩ := storeBytes_spec hspace (by omega) hzero
              have hspace' := hsame.userSpace hspace
              have hcleared : userView cleared root =
                  blit (userView m root) (image.first i) (image.span i) fun _ => 0#8 := by
                rw [hview, hpages]
                funext addr
                by_cases hon : distance (image.first i) addr < image.span i
                · rw [SparseMemory.blit_of_lt hon, SparseMemory.blit_of_lt hon]
                · rw [SparseMemory.blit_of_not_lt hon, SparseMemory.blit_of_not_lt hon,
                    hkept addr (by rw [hpages]; exact hon)]
              by_cases hnothing : image.copied i = 0#64
              · rw [if_pos hnothing] at hdone
                cases hdone
                have hnone : (image.copied i).toNat = 0 := by
                  rw [hnothing]
                  rfl
                rw [hcleared, Image.segmentView, hnone, SparseMemory.blit_zero]
                exact ⟨hspace', rfl⟩
              · rw [if_neg hnothing] at hdone
                have hcopy := Outcome.ofOption_eq_done.mp hdone
                obtain ⟨hsame', hview'⟩ := storeBytes_spec hspace' (by omega) hcopy
                rw [hview', hcleared]
                exact ⟨hsame'.userSpace hspace', rfl⟩

variable (image root m i rest) in
theorem fillSegment_of_frames (h : UserSpace m root) (hplaced : image.Placed i)
    (hframes : rest + 4 * (image.pages i).toNat ≤ m.supply.length) :
    ∃ m', (fillSegment image root i m).2 = .done m' ∧ rest ≤ m'.supply.length := by
  obtain ⟨hbase, hspan, htop⟩ := hplaced.bounds
  obtain ⟨hstart, hend⟩ := hplaced.copied_inside
  have haligned : (image.first i).toNat % 4096 = 0 := by
    rw [Image.toNat_first, Nat.mul_mod_left]
  have hpages := hplaced.toNat_pages
  obtain ⟨mid, hmap, hrest, hmapped⟩ :=
    mapPages_of_frames h haligned (by omega) hframes
  have hspace := (mapPages_spec h haligned (by omega) hmap).1
  obtain ⟨cleared, hzero⟩ := storeBytes_of_mapped mid root (image.first i) (fun _ => 0#8)
    (4096 * (image.pages i).toNat) hspace (by omega) fun k hk => by
      apply hmapped
      rw [SparseMemory.distance_add (by omega)]
      exact hk
  obtain ⟨hsame, hview⟩ := storeBytes_spec hspace (by omega) hzero
  obtain ⟨m', hcopy⟩ := storeBytes_of_mapped cleared root (image.pVaddr i)
    (fun k => image.byte (image.pOffset i + BitVec.ofNat 64 k)) (image.copied i).toNat
    (hsame.userSpace hspace) (by omega) fun k hk => by
      rw [hview]
      apply SparseMemory.blit_isSome
      apply hmapped
      have haddr : (image.pVaddr i + BitVec.ofNat 64 k).toNat = (image.pVaddr i).toNat + k :=
        toNat_add_ofNat _ _ (by omega)
      rw [SparseMemory.distance_lt_iff (by omega), haddr]
      omega
  have hkept : cleared.supply = mid.supply := hsame.supply
  have hzero' : zeroPages root (image.first i) (image.pages i) mid = some cleared := hzero
  have hcopy' : copySegment image root i cleared = some m' := hcopy
  have hkept' : m'.supply = cleared.supply :=
    (storeBytes_spec (hsame.userSpace hspace) (by omega) hcopy).1.supply
  unfold fillSegment
  cases hpair : mapPages root (image.pages i).toNat (image.first i) m with
  | mk log outcome =>
      rw [hpair] at hmap
      cases hmap
      dsimp only
      rw [hzero']
      dsimp only
      by_cases hnothing : image.copied i = 0#64
      · rw [if_pos hnothing]
        exact ⟨cleared, rfl, hkept ▸ hrest⟩
      · rw [if_neg hnothing, hcopy']
        exact ⟨m', rfl, by rw [hkept', hkept]; exact hrest⟩

end Segment

/-! ## All segments -/

namespace Image

/-- A segment with pages. -/
def Covers (image : Image) (i : ℕ) : Prop :=
  image.pType i = ptLoad ∧ image.first i < image.last i

instance (image : Image) (i : ℕ) : Decidable (image.Covers i) :=
  inferInstanceAs (Decidable (_ ∧ _))

/-- A segment outside of the user range. -/
def OutOfRange (image : Image) (i : ℕ) : Prop :=
  image.first i < userBase ∨ userTop < image.last i

instance (image : Image) (i : ℕ) : Decidable (image.OutOfRange i) :=
  inferInstanceAs (Decidable (_ ∨ _))

/-- The segments of headers from one on are put into memory. -/
def segmentsView (image : Image) : ℕ → ℕ → SparseMemory.Memory 64 Byte →
    SparseMemory.Memory 64 Byte
  | 0, _, view => view
  | count + 1, i, view =>
      segmentsView image count (i + 1) (if image.Covers i then image.segmentView i view else view)

end Image

section Segments

variable {image : Image} {root : PhysPage} {m m' : PageTables} {i count : ℕ}

theorem loadSegment_outcome : (loadSegment image root i m).2 =
    if image.size < image.phdr i + Image.phdrSize then .refused m
    else if image.Covers i then
      if image.OutOfRange i then .refused m else (fillSegment image root i m).2
    else .done m := by
  unfold loadSegment
  by_cases hinside : image.size < image.phdr i + Image.phdrSize
  · rw [if_pos hinside, if_pos hinside]
  · rw [if_neg hinside, if_neg hinside]
    by_cases hload : image.pType i = ptLoad
    · rw [if_neg (not_not_intro hload)]
      by_cases hpages : image.last i ≤ image.first i
      · rw [if_pos hpages, if_neg fun h => absurd h.2 (BitVec.not_lt.mpr hpages)]
      · have hcovers : image.Covers i := ⟨hload, BitVec.not_le.mp hpages⟩
        rw [if_neg hpages, if_pos hcovers]
        by_cases hrange : image.OutOfRange i
        · have hends : image.first i < userBase ∨ userTop < image.last i := hrange
          rw [if_pos hrange, if_pos hends]
        · have hends : ¬ (image.first i < userBase ∨ userTop < image.last i) := hrange
          rw [if_neg hrange, if_neg hends]
    · rw [if_pos hload, if_neg fun h => hload h.1]

theorem placed_of_covers (hcovers : image.Covers i) (hrange : ¬ image.OutOfRange i)
    (hfits : image.EndFits i) : image.Placed i := by
  obtain ⟨hbase, htop⟩ := not_or.mp hrange
  exact ⟨hfits, hcovers.2, BitVec.not_lt.mp hbase, BitVec.not_lt.mp htop⟩

theorem loadSegment_spec (h : UserSpace m root) (hfits : image.Covers i → image.EndFits i)
    (hdone : (loadSegment image root i m).2 = .done m') :
    (image.Covers i → image.Placed i) ∧ UserSpace m' root ∧
      userView m' root =
        if image.Covers i then image.segmentView i (userView m root) else userView m root := by
  rw [loadSegment_outcome] at hdone
  by_cases hinside : image.size < image.phdr i + Image.phdrSize
  · rw [if_pos hinside] at hdone
    cases hdone
  · rw [if_neg hinside] at hdone
    by_cases hcovers : image.Covers i
    · rw [if_pos hcovers] at hdone ⊢
      by_cases hrange : image.OutOfRange i
      · rw [if_pos hrange] at hdone
        cases hdone
      · rw [if_neg hrange] at hdone
        have hplaced := placed_of_covers hcovers hrange (hfits hcovers)
        exact ⟨fun _ => hplaced, fillSegment_spec h hplaced hdone⟩
    · rw [if_neg hcovers] at hdone ⊢
      cases hdone
      exact ⟨fun hyes => absurd hyes hcovers, h, rfl⟩

theorem loadSegments_spec (h : UserSpace m root)
    (hfits : ∀ k, i ≤ k → k < i + count → image.Covers k → image.EndFits k)
    (hdone : (loadSegments image root count i m).2 = .done m') :
    (∀ k, i ≤ k → k < i + count → image.Covers k → image.Placed k) ∧ UserSpace m' root ∧
      userView m' root = image.segmentsView count i (userView m root) := by
  induction count generalizing i m with
  | zero =>
      cases hdone
      exact ⟨fun k hlow hhigh => absurd hhigh (by omega), h, rfl⟩
  | succ count ih =>
      rw [loadSegments] at hdone
      cases hround : loadSegment image root i m with
      | mk log outcome =>
          rw [hround] at hdone
          cases outcome with
          | refused mid => cases hdone
          | fault => cases hdone
          | done mid =>
              obtain ⟨hplaced, hspace, hview⟩ := loadSegment_spec h
                (hfits i (Nat.le_refl i) (by omega)) (congrArg Prod.snd hround)
              obtain ⟨hplaced', hspace', hview'⟩ := ih hspace
                (fun k hlow hhigh => hfits k (by omega) (by omega)) hdone
              refine ⟨fun k hlow hhigh => ?_, hspace', ?_⟩
              · rcases Nat.eq_or_lt_of_le hlow with rfl | hlater
                · exact hplaced
                · exact hplaced' k hlater (by omega)
              · rw [hview', hview]
                rfl

end Segments

end EigenOS.Programs
