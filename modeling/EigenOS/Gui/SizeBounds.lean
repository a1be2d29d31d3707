import EigenOS.Gui.WindowSizes
import EigenOS.Library.Downscaling
import EigenOS.Library.Transition
import Mathlib.Algebra.Order.Ring.Int

/-!
# Contents stay within their buffers

The size of a content and the size it is asked to take fit the fixed buffer in every state, so
that flushing and drawing a window use no pixel outside it.  The width of a window is that of a
screen at most, which keeps the factor of the scaling an `int`.  Each window operation is one step.
-/

namespace EigenOS.Gui.Sizes

open EigenOS.MachineInt EigenOS.Downscaling EigenOS.Transition

/-! ## The scaling -/

theorem maxPx_eq : maxPx = 2 ^ 20 := by decide

theorem area_eq {w h : ℤ} (hw : 0 ≤ w ∧ w < 2 ^ 20) (hh : 0 ≤ h ∧ h < 2 ^ 31) :
    area w h = w * h ∧ 0 ≤ w * h ∧ w * h ≤ (2 ^ 20 - 1) * (2 ^ 31 - 1) := by
  have hnonneg : 0 ≤ w * h := mul_nonneg hw.1 hh.1
  have hle : w * h ≤ (2 ^ 20 - 1) * (2 ^ 31 - 1) :=
    mul_le_mul (by omega) (by omega) hh.1 (by decide)
  refine ⟨?_, hnonneg, hle⟩
  rw [area, asUInt64_eq hw.1 (by omega), asUInt64_eq hh.1 (by omega),
    asUInt64_eq hnonneg (by omega)]

theorem lowerFactor_eq {w h : ℤ} {f : ℕ} (hfit : overBudget w h f = false) :
    lowerFactor w h f = f := by
  cases f with
  | zero => rfl
  | succ f =>
    have hkept : ¬ (1 < f + 1 ∧ overBudget w h (f + 1) = true) := by
      rintro ⟨_, hover⟩
      exact absurd (hover.symm.trans hfit) (by decide)
    rw [lowerFactor, if_neg hkept]

theorem fitFactor_eq {w h : ℕ} (hw : 0 < w ∧ w < 2 ^ 20) (hh : 0 < h ∧ h < 2 ^ 31)
    (harea : 2 ^ 20 < w * h) : fitFactor w h = factor w h (2 ^ 20) := by
  have harea' : area w h = (w * h : ℕ) ∧ w * h ≤ (2 ^ 20 - 1) * (2 ^ 31 - 1) := by
    refine ⟨?_, Nat.mul_le_mul (by omega) (by omega)⟩
    rw [Int.natCast_mul]
    exact (area_eq (by omega) (by omega)).1
  have hone := one_lt_factor (by decide) harea
  have hscaled := scaled_le (by decide) harea
  have hfactor : asUInt64 (area w h + maxPx - 1) / maxPx = (factor w h (2 ^ 20) : ℕ) := by
    rw [harea'.1, maxPx_eq, asUInt64_eq (by omega) (by omega), factor]
    omega
  have hlt : factor w h (2 ^ 20) < 2 ^ 31 := by
    rw [factor]
    omega
  have hkept : overBudget w h (factor w h (2 ^ 20) : ℕ) = false := by
    have hwidth : asUInt64 w = w := asUInt64_eq (by omega) (by omega)
    have hheight : asUInt64 h = h := asUInt64_eq (by omega) (by omega)
    apply decide_eq_false
    rw [hwidth, hheight, maxPx_eq, ← Int.natCast_div, ← Int.natCast_div, ← Int.natCast_mul,
      asUInt64_eq (by omega) (by omega)]
    omega
  rw [fitFactor, hfactor, asInt_eq (by omega) (by omega), Int.toNat_natCast,
    lowerFactor_eq hkept]
  omega

/-- A size that fits the buffer. -/
structure Fits (w h : ℤ) : Prop where
  width : 0 ≤ w
  height : 0 ≤ h
  area : w * h ≤ maxPx

theorem fits_zero : Fits 0 0 := ⟨le_rfl, le_rfl, by decide⟩

theorem Fits.area_eq {w h : ℤ} (hfits : Fits w h) : Sizes.area w h = w * h := by
  obtain ⟨hw, hh, harea⟩ := hfits
  rw [maxPx_eq] at harea
  rcases hw.eq_or_lt with rfl | hw'
  · rw [zero_mul, Sizes.area, asUInt64_eq le_rfl (by decide), zero_mul]
    rfl
  rcases hh.eq_or_lt with rfl | hh'
  · rw [mul_zero, Sizes.area, asUInt64_eq le_rfl (by decide), mul_zero]
    rfl
  have hwidth : w ≤ w * h := le_mul_of_one_le_right hw hh'
  have hheight : h ≤ w * h := le_mul_of_one_le_left hh hw'
  rw [Sizes.area, asUInt64_eq hw (by omega), asUInt64_eq hh (by omega),
    asUInt64_eq (by omega) (by omega)]

theorem scaleDown_of_fits {w h : ℤ} (hfits : Fits w h) : scaleDown w h = (w, h) := by
  rw [scaleDown, hfits.area_eq, if_neg (not_lt.mpr hfits.area)]

theorem scaleDown_fits {w h : ℤ} (hw : 0 < w ∧ w < 2 ^ 20) (hh : 0 < h ∧ h < 2 ^ 31) :
    Fits (max (scaleDown w h).1 1) (max (scaleDown w h).2 1) := by
  obtain ⟨w, rfl⟩ := Int.eq_ofNat_of_zero_le hw.1.le
  obtain ⟨h, rfl⟩ := Int.eq_ofNat_of_zero_le hh.1.le
  have harea := (area_eq (w := w) (h := h) (by omega) (by omega)).1
  refine ⟨by omega, by omega, ?_⟩
  rw [scaleDown, harea]
  by_cases hlarge : maxPx < (w : ℤ) * h
  · have hlarge' : 2 ^ 20 < w * h := by
      rw [maxPx_eq] at hlarge
      exact_mod_cast hlarge
    have hfits := scaled_max_le (by omega) (by omega) (by decide) hlarge'
    rw [if_pos hlarge, fitFactor_eq (by omega) (by omega) hlarge', maxPx_eq]
    dsimp only
    have hcast : ∀ n : ℕ, max (n : ℤ) 1 = (max n 1 : ℕ) := by omega
    rw [← Int.ofNat_tdiv, ← Int.ofNat_tdiv, hcast, hcast, ← Int.natCast_mul]
    exact Int.ofNat_le.mpr hfits
  · rw [if_neg hlarge]
    dsimp only
    rw [max_eq_left (by omega), max_eq_left (by omega)]
    exact not_lt.mp hlarge

/-! ## Single windows -/

/-- What is kept of a window: its content fits, also once it takes the size it is asked to take,
and a ring-3 window is no wider than a screen. -/
structure Window.Bounded (win : Window) : Prop where
  current : Fits win.userBufW win.userBufH
  pending : Fits win.userPendingW win.userPendingH
  width : win.user = true → 0 ≤ win.w ∧ win.w < 2 ^ 20
  saved : win.user = true → 0 ≤ win.savedW ∧ win.savedW < 2 ^ 20

variable {win : Window} {screen : Screen} {layoutSize : ℤ}

theorem bounded_empty : emptyWindow.Bounded := ⟨fits_zero, fits_zero, nofun, nofun⟩

theorem userMarkResize_bounded (h : win.Bounded) {cw ch : ℤ} (hcw : cw < 2 ^ 20)
    (hch : ch < 2 ^ 31) : (win.userMarkResize cw ch).Bounded := by
  refine { h with pending := ?_ }
  have hw : 0 < max cw 1 ∧ max cw 1 < 2 ^ 20 := by omega
  have hh : 0 < max ch 1 ∧ max ch 1 < 2 ^ 31 := by omega
  have hfits := scaleDown_fits hw hh
  rw [Window.userMarkResize]
  dsimp only
  by_cases hlarge : maxPx < area (max cw 1) (max ch 1)
  · rw [if_pos hlarge, if_pos hlarge]
    exact hfits
  · rw [if_neg hlarge, if_neg hlarge]
    rw [scaleDown, if_neg hlarge] at hfits
    have hsame : ∀ side : ℤ, max (max side 1) 1 = max side 1 := by omega
    rwa [hsame, hsame] at hfits

theorem resized_bounded (h : win.Bounded) : win.resized.Bounded := by
  rw [Window.resized]
  dsimp only
  have hcontent : ({ win with
      contentW := win.w, contentH := asInt (win.h - titlebarH) } : Window).Bounded := { h with }
  by_cases huser : win.user = true
  · rw [if_pos huser]
    obtain ⟨hnonneg, hlt⟩ := h.width huser
    apply userMarkResize_bounded hcontent _ (asInt_bounds _).2
    rw [asInt_eq (by omega) (by omega)]
    omega
  · rw [if_neg huser]
    exact hcontent

theorem userFlush_bounded (h : win.Bounded) : win.userFlush.Bounded := by
  rw [Window.userFlush]
  split_ifs
  · exact h
  · exact { h with current := h.pending, pending := fits_zero }
  · exact h

theorem minW_max {w : ℤ} (hw : w < 2 ^ 20) : 0 ≤ max w minW ∧ max w minW < 2 ^ 20 := by
  rw [minW]
  omega

theorem restore_bounded (h : win.Bounded) : (win.restore screen).Bounded :=
  resized_bounded { h with width := fun huser => minW_max (h.saved huser).2 }

theorem guiGetWorkArea_width (screen : Screen) (layoutSize : ℤ) :
    0 ≤ (guiGetWorkArea screen layoutSize).w ∧ (guiGetWorkArea screen layoutSize).w < 2 ^ 20 := by
  have hnonneg := screen.width_nonneg
  have hlt := screen.width_lt
  rw [guiGetWorkArea]
  dsimp only
  split_ifs
  · decide
  · rw [asInt_eq (by omega) (by omega)]
    exact ⟨hnonneg, hlt⟩

theorem snapped_width (mode : ℤ) {rect : Rect} (hrect : 0 ≤ rect.w ∧ rect.w < 2 ^ 20) :
    (snapped mode rect).w < 2 ^ 20 := by
  have hhalf : rect.w.tdiv 2 = rect.w / 2 := Int.tdiv_eq_ediv_of_nonneg hrect.1
  unfold snapped
  split
  · dsimp only
    omega
  · dsimp only
    rw [asInt_eq (by omega) (by omega)]
    omega
  · exact hrect.2
  · exact hrect.2
  · exact hrect.2

theorem maximize_bounded (h : win.Bounded) (mode : ℤ) :
    (win.maximize screen layoutSize mode).Bounded := by
  rw [Window.maximize]
  by_cases hnone : screen.fbWidth = 0 ∨ screen.fbHeight = 0
  · rw [if_pos hnone]
    exact h
  · rw [if_neg hnone]
    have hsnapped := minW_max (snapped_width mode (guiGetWorkArea_width screen layoutSize))
    have hwin : (if win.maximized then win.restore screen else win).Bounded := by
      split_ifs
      · exact restore_bounded h
      · exact h
    dsimp only
    generalize (if win.maximized then win.restore screen else win) = restored at hwin ⊢
    exact resized_bounded { hwin with width := fun _ => hsnapped, saved := hwin.width }

theorem toggleMaximize_bounded (h : win.Bounded) :
    (win.toggleMaximize screen layoutSize).Bounded := by
  rw [Window.toggleMaximize]
  split_ifs
  · exact restore_bounded h
  · exact maximize_bounded h 0

theorem minimize_bounded (h : win.Bounded) : win.minimize.Bounded := by
  rw [Window.minimize]
  split_ifs
  · exact h
  · exact { h with saved := h.width }

variable {tiling held : Bool} {mx my : ℤ}

theorem drag_bounded (h : win.Bounded) :
    (win.drag screen layoutSize tiling held mx my).Bounded := by
  rw [Window.drag]
  dsimp only
  split_ifs
  · exact h
  · exact { h with }
  · exact { h with width := h.saved }
  · exact { h with }

theorem dragResize_bounded (h : win.Bounded) :
    (win.dragResize screen layoutSize tiling held mx my).Bounded := by
  have hnonneg := screen.width_nonneg
  have hlt := screen.width_lt
  have hscreen : ∀ w, 0 ≤ min (max w minW) (asInt screen.fbWidth) ∧
      min (max w minW) (asInt screen.fbWidth) < 2 ^ 20 := by
    intro w
    rw [asInt_eq (by omega) (by omega), minW]
    omega
  rw [Window.dragResize]
  split_ifs
  · exact h
  · exact { h with }
  · exact resized_bounded { h with width := fun _ => hscreen _ }
  · exact resized_bounded { h with width := fun _ => hscreen _ }

theorem free_bounded (h : win.Bounded) : win.free.Bounded :=
  ⟨fits_zero, h.pending, nofun, nofun⟩

theorem close_bounded (h : win.Bounded) : win.close.Bounded := by
  rw [Window.close]
  split_ifs
  · exact h
  · exact { h with }
  · exact free_bounded h

/-! ## New windows -/

theorem fitted_width (screen : Screen) (layoutSize : ℤ) (rect : Rect) :
    (fitted screen layoutSize rect).w = rect.w := by
  rw [fitted]
  dsimp only
  split_ifs <;> rfl

theorem fitted_height (screen : Screen) (layoutSize : ℤ) {rect : Rect}
    (hrect : 0 ≤ rect.h ∧ rect.h ≤ 2048) :
    -8 ≤ (fitted screen layoutSize rect).h ∧ (fitted screen layoutSize rect).h ≤ 2048 := by
  have harea := (asInt_bounds (asInt
    (if screen.fbWidth = 0 ∨ screen.fbHeight = 0 then 768 else screen.fbHeight) -
      if layoutSize < 16 then 16 else layoutSize)).2
  change (guiGetWorkArea screen layoutSize).h < _ at harea
  rw [fitted]
  dsimp only
  by_cases hpos : 0 < (guiGetWorkArea screen layoutSize).h
  · have heq : asInt ((guiGetWorkArea screen layoutSize).h - 8) =
        (guiGetWorkArea screen layoutSize).h - 8 := asInt_eq (by omega) (by omega)
    rw [if_pos hpos, heq]
    dsimp only
    omega
  · rw [if_neg hpos]
    omega

theorem scaleDown_of_neg {w h : ℤ} (hw : 0 < w ∧ w < 2 ^ 11) (hh : -64 ≤ h ∧ h < 0) :
    scaleDown w h = (w, h) := by
  have hlow : w * -64 ≤ w * h := mul_le_mul_of_nonneg_left hh.1 hw.1.le
  have hhigh : w * h < 0 := mul_neg_of_pos_of_neg hw.1 hh.2
  have harea : area w h = w * h + 2 ^ 64 := by
    have hneg : asUInt64 h = h + 2 ^ 64 := by
      unfold asUInt64
      omega
    rw [area, asUInt64_eq hw.1.le (by omega), hneg, mul_add]
    unfold asUInt64
    omega
  have hfactor : fitFactor w h = 1 := by
    have hzero : asUInt64 (area w h + maxPx - 1) / maxPx = 0 := by
      rw [harea, maxPx_eq]
      unfold asUInt64
      omega
    rw [fitFactor, hzero]
    rfl
  rw [scaleDown, hfactor, Int.tdiv_one, Int.tdiv_one]
  split_ifs <;> rfl

theorem contentSize_fits (rect : Rect) (hw : 16 ≤ rect.w ∧ rect.w ≤ 2048)
    (hh : -8 ≤ rect.h ∧ rect.h ≤ 2048) :
    Fits (contentSize rect).1 (contentSize rect).2 := by
  rw [contentSize, asInt_eq (by omega) (by omega), titlebarH, asInt_eq (by omega) (by omega)]
  generalize hbw : rect.w - 2 = bw
  generalize hbh : rect.h - 24 - 2 = bh
  have hsize : ∀ size : ℤ × ℤ, Fits (max size.1 1) (max size.2 1) →
      Fits (scaleDown (max size.1 1) (max size.2 1)).1
        (scaleDown (max size.1 1) (max size.2 1)).2 := by
    intro size hfits
    rw [scaleDown_of_fits hfits]
    exact hfits
  apply hsize
  by_cases hpos : 0 < bh
  · have hfits := scaleDown_fits (w := bw) (h := bh) (by omega) (by omega)
    split_ifs with hlarge
    · exact hfits
    · have hsmall : bw * bh ≤ maxPx := by
        obtain ⟨harea, hnonneg, hle⟩ := area_eq (w := bw) (h := bh) (by omega) (by omega)
        rw [harea, asUInt64_eq (by omega) (by omega), userWinMaxBuf] at hlarge
        rw [maxPx_eq]
        omega
      rwa [scaleDown_of_fits ⟨by omega, by omega, hsmall⟩] at hfits
  · have hflat : Fits (max bw 1) (max bh 1) := by
      refine ⟨by omega, by omega, ?_⟩
      rw [max_eq_right (show bh ≤ 1 by omega), mul_one, maxPx_eq]
      omega
    have hsame : scaleDown bw bh = (bw, bh) := by
      rcases (not_lt.mp hpos).lt_or_eq with hneg | rfl
      · exact scaleDown_of_neg (by omega) (by omega)
      · exact scaleDown_of_fits ⟨by omega, le_rfl, by rw [mul_zero]; decide⟩
    rw [hsame, ite_self]
    exact hflat

example : contentSize ⟨0, 0, 2048, 2000⟩ = (511, 493) := by decide

/-! ## The window table -/

def Desktop.Bounded (s : Desktop) : Prop := ∀ i, (s.windows i).Bounded

variable {s : Desktop}

theorem bounded_wmInit : wmInit.Bounded := fun _ => bounded_empty

theorem setWindow_bounded (h : s.Bounded) (i : Slot) (hwin : win.Bounded) :
    (s.setWindow i win).Bounded := by
  intro j
  rw [Desktop.setWindow]
  dsimp only
  by_cases hj : j = i
  · rw [if_pos hj]
    exact hwin
  · rw [if_neg hj]
    exact h j

theorem onWindow_bounded (h : s.Bounded) (id : ℤ) {change : Window → Window}
    (hchange : ∀ win, win.Bounded → (change win).Bounded) : (s.onWindow id change).Bounded := by
  rw [Desktop.onWindow]
  split
  · exact h
  · exact setWindow_bounded h _ (hchange _ (h _))

theorem place_bounded (h : s.Bounded) (id : ℤ) {rect : Rect} (hrect : rect.w < 2 ^ 20) :
    (s.place id rect).Bounded := by
  apply onWindow_bounded h
  intro win hwin
  rw [Window.fixAfterTile]
  have hwidth := minW_max hrect
  exact resized_bounded { hwin with width := fun _ => hwidth, saved := fun _ => hwidth }

theorem wmTileAll_bounded (h : s.Bounded) : (wmTileAll screen s).Bounded := by
  obtain ⟨hnonneg, hlt⟩ := guiGetWorkArea_width screen s.layoutSize
  have hwidth : asInt ((guiGetWorkArea screen s.layoutSize).w - 4 * 2) =
      (guiGetWorkArea screen s.layoutSize).w - 4 * 2 := asInt_eq (by omega) (by omega)
  rw [wmTileAll]
  dsimp only
  rw [hwidth]
  generalize haw : max ((guiGetWorkArea screen s.layoutSize).w - 4 * 2) 80 = aw
  have hmaster : (asInt (aw * 55)).tdiv 100 = aw * 55 / 100 := by
    rw [asInt_eq (by omega) (by omega)]
    exact Int.tdiv_eq_ediv_of_nonneg (by omega)
  rw [hmaster, asInt_eq (n := aw - aw * 55 / 100 - 4) (by omega) (by omega)]
  split
  · exact h
  · exact place_bounded h _ (show aw < 2 ^ 20 by omega)
  · have hfirst := fun id rect => @place_bounded s h id rect
    generalize (List.zipIdx _) = entries
    generalize hstart : s.place _ _ = start
    have hbounded : start.Bounded := by
      rw [← hstart]
      exact place_bounded h _ (show aw * 55 / 100 < 2 ^ 20 by omega)
    clear hstart
    induction entries generalizing start with
    | nil => exact hbounded
    | cons entry rest ih =>
      exact ih _ (place_bounded hbounded _ (show aw - aw * 55 / 100 - 4 < 2 ^ 20 by omega))

theorem retiled_bounded (h : s.Bounded) : (s.retiled screen).Bounded := by
  rw [Desktop.retiled]
  split_ifs
  · exact wmTileAll_bounded h
  · exact h

theorem wmOpenWindow_bounded (h : s.Bounded) (rect : Rect) :
    (wmOpenWindow screen s rect).Bounded := by
  rw [wmOpenWindow]
  split
  · exact h
  · rename_i slot _
    apply retiled_bounded
    exact setWindow_bounded h slot ⟨(h slot).current, (h slot).pending, nofun, nofun⟩

theorem winCreate_bounded (h : s.Bounded) (x y w h' : UInt16) (buffers : Bool × Bool) :
    (winCreate screen s x y w h' buffers).Bounded := by
  rw [winCreate, wmOpenWindowUser]
  split
  · exact h
  · rename_i slot _
    split_ifs
    · exact h
    · apply retiled_bounded
      generalize hrect : (⟨x.toNat, y.toNat, min (max w.toNat 16) 2048,
        min (max h'.toNat 24) 2048⟩ : Rect) = rect
      have hw : 16 ≤ rect.w ∧ rect.w ≤ 2048 := by
        rw [← hrect]
        dsimp only
        omega
      have hh : 0 ≤ rect.h ∧ rect.h ≤ 2048 := by
        rw [← hrect]
        dsimp only
        omega
      have hfits := contentSize_fits (fitted screen s.layoutSize rect)
        (by rw [fitted_width]; exact hw) (fitted_height screen s.layoutSize hh)
      have hwidth : 0 ≤ (fitted screen s.layoutSize rect).w ∧
          (fitted screen s.layoutSize rect).w < 2 ^ 20 := by
        rw [fitted_width]
        omega
      exact setWindow_bounded h slot
        ⟨hfits, (h slot).pending, fun _ => hwidth, fun _ => hwidth⟩

theorem act_bounded (h : s.Bounded) (action : Action) : (act screen s action).Bounded := by
  cases action with
  | winCreate x y w h' buffers => exact winCreate_bounded h x y w h' buffers
  | openWindow rect => exact wmOpenWindow_bounded h rect
  | setTiling on => exact h
  | tileAll => exact wmTileAll_bounded h
  | maximize id mode => exact onWindow_bounded h id fun _ hwin => maximize_bounded hwin mode
  | restore id => exact onWindow_bounded h id fun _ => restore_bounded
  | toggleMaximize id => exact onWindow_bounded h id fun _ => toggleMaximize_bounded
  | minimize id => exact onWindow_bounded h id fun _ => minimize_bounded
  | flush id => exact onWindow_bounded h id fun _ => userFlush_bounded
  | close id => exact onWindow_bounded h id fun _ => close_bounded
  | expire i =>
    rw [act]
    split_ifs
    · exact setWindow_bounded h i (free_bounded (h i))
    · exact h
  | settle i | startDrag i mx my | startResize i mx my | scroll i viewY =>
      exact setWindow_bounded h i { h i with }
  | drag held mx my =>
    intro i
    rw [act, Desktop.dragAll, Desktop.onAll]
    dsimp only
    split_ifs
    · exact dragResize_bounded (drag_bounded (h i))
    · exact h i
  | settings layoutSize openAnim => exact h

/-! ## The pixels that are used -/

/-- The place in the buffer of the pixel at `(x, y)`. -/
def pixelIndex (width x y : ℤ) : ℤ := y * width + x

section Pixels

variable {w h x y : ℤ}

theorem pixelIndex_lt (hx : 0 ≤ x ∧ x < w) (hy : 0 ≤ y ∧ y < h) :
    0 ≤ pixelIndex w x y ∧ pixelIndex w x y < w * h := by
  have hnonneg : 0 ≤ y * w := Int.mul_nonneg hy.1 (by omega)
  have hlast : (y + 1) * w ≤ h * w := Int.mul_le_mul_of_nonneg_right hy.2 (by omega)
  rw [Int.add_mul, Int.one_mul, Int.mul_comm h w] at hlast
  rw [pixelIndex]
  omega

theorem asInt_pixelIndex (hfits : Fits w h) (hx : 0 ≤ x ∧ x < w) (hy : 0 ≤ y ∧ y < h) :
    asInt (asInt (y * w) + x) = pixelIndex w x y := by
  have hindex := pixelIndex_lt hx hy
  have hnonneg : 0 ≤ y * w := Int.mul_nonneg hy.1 hfits.width
  have harea := hfits.area
  rw [maxPx_eq] at harea
  rw [pixelIndex] at hindex ⊢
  rw [asInt_eq (n := y * w) (by omega) (by omega), asInt_eq (by omega) (by omega)]

end Pixels

theorem clamped_lt {side v : ℤ} (hside : 0 < side) :
    0 ≤ (if side ≤ (if v < 0 then 0 else v) then side - 1 else if v < 0 then 0 else v) ∧
      (if side ≤ (if v < 0 then 0 else v) then side - 1 else if v < 0 then 0 else v) < side := by
  omega

/-- A pixel that is read is one of the content, and stands where the content has it. -/
theorem blitIndex_eq (h : Fits win.userBufW win.userBufH) {rect : Rect} {r cc i : ℤ}
    (hread : win.blitIndex screen rect r cc = some i) :
    ∃ x y, (0 ≤ x ∧ x < win.userBufW) ∧ (0 ≤ y ∧ y < win.userBufH) ∧
      i = pixelIndex win.userBufW x y := by
  rw [Window.blitIndex] at hread
  extract_lets at hread
  split at hread
  · exact nomatch hread
  · rename_i hsides
    have hwidth : 0 < win.userBufW := by
      by_contra hnone
      exact hsides (.inr (.inl (not_lt.mp hnone)))
    have hheight : 0 < win.userBufH := by
      by_contra hnone
      exact hsides (.inr (.inr (.inl (not_lt.mp hnone))))
    split at hread
    · exact nomatch hread
    split at hread
    · -- The stretched content.
      cases hread
      exact ⟨_, _, clamped_lt hwidth, clamped_lt hheight,
        asInt_pixelIndex h (clamped_lt hwidth) (clamped_lt hheight)⟩
    · split at hread
      · rename_i hinside
        cases hread
        exact ⟨_, _, hinside.2.2, ⟨hinside.1, hinside.2.1⟩,
          asInt_pixelIndex h hinside.2.2 ⟨hinside.1, hinside.2.1⟩⟩
      · exact nomatch hread

theorem blitIndex_lt (h : Fits win.userBufW win.userBufH) {rect : Rect} {r cc i : ℤ}
    (hread : win.blitIndex screen rect r cc = some i) : 0 ≤ i ∧ i < maxPx := by
  obtain ⟨x, y, hx, hy, rfl⟩ := blitIndex_eq h hread
  exact ⟨(pixelIndex_lt hx hy).1, (pixelIndex_lt hx hy).2.trans_le h.area⟩

theorem flushIndex_lt (h : win.Bounded) {i : ℤ} (hused : win.flushIndex i) :
    0 ≤ i ∧ i < maxPx := by
  obtain ⟨_, hnonneg, hcopied | ⟨_, _, hcleared⟩⟩ := hused
  · rw [h.current.area_eq] at hcopied
    exact ⟨hnonneg, hcopied.trans_le h.current.area⟩
  · rw [h.pending.area_eq] at hcleared
    exact ⟨hnonneg, hcleared.trans_le h.pending.area⟩

/-- A ring-3 window whose sizes fit its buffers, with every pixel that is used inside them. -/
structure Window.Safe (screen : Screen) (win : Window) : Prop where
  current_nonneg : 0 ≤ win.userBufW ∧ 0 ≤ win.userBufH
  pending_nonneg : 0 ≤ win.userPendingW ∧ 0 ≤ win.userPendingH
  current_le : win.userBufW * win.userBufH * 4 ≤ userWinMaxBuf
  pending_le : win.userPendingW * win.userPendingH * 4 ≤ userWinMaxBuf
  flush : ∀ i, win.flushIndex i → 0 ≤ i ∧ i < maxPx
  blit : ∀ rect r cc i, win.blitIndex screen rect r cc = some i → 0 ≤ i ∧ i < maxPx

theorem Fits.bytes_le {w h : ℤ} (hfits : Fits w h) : w * h * 4 ≤ userWinMaxBuf := by
  have harea := hfits.area
  rw [maxPx_eq] at harea
  rw [userWinMaxBuf]
  omega

theorem Window.Bounded.safe (h : win.Bounded) : win.Safe screen where
  current_nonneg := ⟨h.current.width, h.current.height⟩
  pending_nonneg := ⟨h.pending.width, h.pending.height⟩
  current_le := h.current.bytes_le
  pending_le := h.pending.bytes_le
  flush := fun _ => flushIndex_lt h
  blit := fun _ _ _ _ => blitIndex_lt h.current

/-- In every state the contents of the ring-3 windows fit their buffers. -/
theorem always_safe (screen : Screen) (actions : List Action) :
    Always (fun s => ∀ i, (s.windows i).user = true → (s.windows i).Safe screen) wmInit
      (trace (act screen) wmInit actions) := by
  have hbounded : Always Desktop.Bounded wmInit (trace (act screen) wmInit actions) := by
    apply always_of_invariant Desktop.Bounded _ bounded_wmInit (along_trace (act screen) _ _)
    rintro s action _ h rfl
    exact act_bounded h action
  exact hbounded.mono fun _ h i _ => (h i).safe

end EigenOS.Gui.Sizes
