import EigenOS.Gui.SizeBounds

/-!
# The picture of a window that is resized

A content buffer holds the rows of a window one after another, each as long as the content is
wide.  `wm_user_flush` gives the content a new size and leaves the pixels where they are in the
buffer, so that with another width the rows begin elsewhere.
-/

namespace EigenOS.Gui.Sizes

open EigenOS.MachineInt

/-- `user_buf`, which the program draws in, and `user_cbuf`, which the screen is made of. -/
structure Buffers where
  userBuf : ℤ → UInt32
  userCbuf : ℤ → UInt32

/-- The colour of a pixel that comes into view. -/
def clearColor : UInt32 := 0x0B0E14

/-- One of the loops of `wm_user_flush`, over the pixels from `first` to `last`. -/
def overPixels (first last : ℤ) (value rest : ℤ → UInt32) (i : ℤ) : UInt32 :=
  if first ≤ i ∧ i < last then value i else rest i

/-- What `wm_user_flush` does with the pixels. -/
def Window.flushPixels (win : Window) (buffers : Buffers) : Buffers :=
  if win.flushable = false then buffers
  else
    let oldPx := area win.userBufW win.userBufH
    let committed := overPixels 0 oldPx buffers.userBuf buffers.userCbuf
    if win.pending then
      let newPx := area win.userPendingW win.userPendingH
      { userBuf := overPixels oldPx newPx (fun _ => clearColor) buffers.userBuf
        userCbuf := overPixels oldPx newPx (fun _ => clearColor) committed }
    else { buffers with userCbuf := committed }

section Pixels

variable {w h x y : ℤ}

theorem le_pixelIndex (hx : 0 ≤ x) (hw : 0 ≤ w) (hy : h ≤ y) : w * h ≤ pixelIndex w x y := by
  have hrows : h * w ≤ y * w := Int.mul_le_mul_of_nonneg_right hy hw
  rw [Int.mul_comm h w] at hrows
  rw [pixelIndex]
  omega

end Pixels

/-- The picture in the frame that is flushed, and the clear colour around it. -/
def expectedPixel (win : Window) (buffers : Buffers) (x y : ℤ) : UInt32 :=
  if x < win.userBufW ∧ y < win.userBufH then buffers.userBuf (pixelIndex win.userBufW x y)
  else clearColor

/-- Both buffers show the expected picture in the new size. -/
def KeepsPicture (win : Window) (buffers : Buffers) : Prop :=
  ∀ x y, 0 ≤ x ∧ x < win.userFlush.userBufW → 0 ≤ y ∧ y < win.userFlush.userBufH →
    (win.flushPixels buffers).userBuf (pixelIndex win.userFlush.userBufW x y) =
        expectedPixel win buffers x y ∧
      (win.flushPixels buffers).userCbuf (pixelIndex win.userFlush.userBufW x y) =
        expectedPixel win buffers x y

/-- The width stays, or there is one row that becomes longer, or the first row stays with some of
its pixels. -/
def Window.RowsStay (win : Window) : Prop :=
  win.userPendingW = win.userBufW ∨ (win.userBufH = 1 ∧ win.userBufW ≤ win.userPendingW) ∨
    (win.userPendingH = 1 ∧ win.userPendingW ≤ win.userBufW)

/-! ## A flush that changes the size -/

section Flush

variable {win : Window}

/-- After a flush that changes the size, both buffers hold the frame where it was, and the clear
colour behind it. -/
theorem flushPixels_eq (hflushable : win.flushable = true) (hpending : win.pending)
    (hold : Fits win.userBufW win.userBufH) (hnew : Fits win.userPendingW win.userPendingH)
    (buffers : Buffers) {i : ℤ} (hi : 0 ≤ i ∧ i < win.userPendingW * win.userPendingH) :
    (win.flushPixels buffers).userBuf i =
        (if i < win.userBufW * win.userBufH then buffers.userBuf i else clearColor) ∧
      (win.flushPixels buffers).userCbuf i =
        (if i < win.userBufW * win.userBufH then buffers.userBuf i else clearColor) := by
  have hflushed : ¬ win.flushable = false := by
    rw [hflushable]
    decide
  rw [Window.flushPixels, if_neg hflushed, if_pos hpending, hold.area_eq, hnew.area_eq]
  dsimp only
  rw [overPixels, overPixels, overPixels]
  by_cases hkept : i < win.userBufW * win.userBufH
  · rw [if_pos hkept, if_neg (by omega), if_neg (by omega), if_pos ⟨hi.1, hkept⟩]
    exact ⟨rfl, rfl⟩
  · rw [if_neg hkept, if_pos (by omega), if_pos (by omega)]
    exact ⟨rfl, rfl⟩

theorem userFlush_size (hflushable : win.flushable = true) (hpending : win.pending) :
    win.userFlush.userBufW = win.userPendingW ∧ win.userFlush.userBufH = win.userPendingH := by
  rw [Window.userFlush, hflushable, if_neg (by decide), if_pos hpending]
  exact ⟨rfl, rfl⟩

theorem keepsPicture_of_rowsStay (hflushable : win.flushable = true) (hpending : win.pending)
    (hold : Fits win.userBufW win.userBufH) (hnew : Fits win.userPendingW win.userPendingH)
    (hstay : win.RowsStay) (buffers : Buffers) : KeepsPicture win buffers := by
  obtain ⟨hw, hh⟩ := userFlush_size hflushable hpending
  intro x y hx hy
  rw [hw] at hx ⊢
  rw [hh] at hy
  have hbuffers := flushPixels_eq hflushable hpending hold hnew buffers (pixelIndex_lt hx hy)
  suffices hsame : (if pixelIndex win.userPendingW x y < win.userBufW * win.userBufH then
      buffers.userBuf (pixelIndex win.userPendingW x y) else clearColor) =
      expectedPixel win buffers x y by rwa [hsame] at hbuffers
  have hwidth := hold.width
  rw [expectedPixel]
  by_cases hkept : x < win.userBufW ∧ y < win.userBufH
  · have hplace : pixelIndex win.userPendingW x y = pixelIndex win.userBufW x y := by
      rcases hstay with hsame | ⟨hone, -⟩ | ⟨hone, -⟩
      · rw [hsame]
      · have hrow : y = 0 := by omega
        rw [hrow, pixelIndex, pixelIndex, Int.zero_mul, Int.zero_mul]
      · have hrow : y = 0 := by omega
        rw [hrow, pixelIndex, pixelIndex, Int.zero_mul, Int.zero_mul]
    rw [if_pos hkept, hplace, if_pos (pixelIndex_lt ⟨hx.1, hkept.1⟩ ⟨hy.1, hkept.2⟩).2]
  · rw [if_neg hkept, if_neg]
    rw [not_lt]
    rcases hstay with hsame | ⟨hone, hwider⟩ | ⟨hone, hnarrower⟩
    · rw [hsame] at hx ⊢
      exact le_pixelIndex hx.1 hwidth (by omega)
    · rw [hone, Int.mul_one, pixelIndex]
      by_cases hrow : y = 0
      · rw [hrow, Int.zero_mul]
        omega
      · have hbelow : 1 * win.userPendingW ≤ y * win.userPendingW :=
          Int.mul_le_mul_of_nonneg_right (by omega) hnew.width
        omega
    · have hrows : win.userBufH ≤ 0 := by omega
      have hnone : win.userBufW * win.userBufH ≤ 0 :=
        Int.mul_nonpos_of_nonneg_of_nonpos hwidth hrows
      have hplace := (pixelIndex_lt hx hy).1
      omega

/-- A frame in which one pixel differs from the others. -/
def markedFrame (place : ℤ) : Buffers where
  userBuf := fun i => if i = place then 1 else 0
  userCbuf := fun _ => 0

theorem rowsStay_of_keepsPicture (hflushable : win.flushable = true) (hpending : win.pending)
    (hold : Fits win.userBufW win.userBufH) (hnew : Fits win.userPendingW win.userPendingH)
    (hpos : 0 < win.userBufW ∧ 0 < win.userBufH)
    (hkeeps : KeepsPicture win (markedFrame win.userBufW)) : win.RowsStay := by
  obtain ⟨hw, hh⟩ := userFlush_size hflushable hpending
  have hclear : clearColor ≠ 0 ∧ clearColor ≠ 1 := by decide
  have hpixel : ∀ x y, 0 ≤ x ∧ x < win.userPendingW → 0 ≤ y ∧ y < win.userPendingH →
      (if pixelIndex win.userPendingW x y < win.userBufW * win.userBufH then
        (markedFrame win.userBufW).userBuf (pixelIndex win.userPendingW x y) else clearColor) =
        expectedPixel win (markedFrame win.userBufW) x y := by
    intro x y hx hy
    have hshown := (hkeeps x y (hw.symm ▸ hx) (hh.symm ▸ hy)).1
    rwa [hw, (flushPixels_eq hflushable hpending hold hnew _ (pixelIndex_lt hx hy)).1] at hshown
  obtain ⟨hpendingW, hpendingH, -⟩ := hpending
  by_contra hnot
  rw [Window.RowsStay, not_or, not_or] at hnot
  obtain ⟨hwidth, hlonger, hfirst⟩ := hnot
  have hrow : win.userBufW ≤ win.userBufW * win.userBufH :=
    le_mul_of_one_le_right hpos.1.le hpos.2
  by_cases hwider : win.userBufW < win.userPendingW
  · -- The pixel behind the end of the first row was the first of the second row.
    have hsecond : win.userBufW < win.userBufW * win.userBufH :=
      lt_mul_of_one_lt_right hpos.1 (by omega)
    have hshown := hpixel win.userBufW 0 (by omega) (by omega)
    rw [pixelIndex, Int.zero_mul, Int.zero_add, if_pos hsecond, expectedPixel,
      if_neg (by omega)] at hshown
    exact hclear.2 (hshown.symm.trans (if_pos rfl))
  · -- The first pixel of the second row was one of the first row.
    have hshown := hpixel 0 1 (by omega) (by omega)
    rw [pixelIndex, Int.one_mul, Int.add_zero, if_pos (by omega)] at hshown
    change (if win.userPendingW = win.userBufW then (1 : UInt32) else 0) = _ at hshown
    rw [if_neg hwidth, expectedPixel] at hshown
    split at hshown
    · change 0 = if 1 * win.userBufW + 0 = win.userBufW then (1 : UInt32) else 0 at hshown
      rw [if_pos (by omega)] at hshown
      exact absurd hshown (by decide)
    · exact hclear.1 hshown.symm

/-- A flush that changes the size keeps every picture exactly if the rows stay where they are. -/
theorem keepsPicture_iff (hflushable : win.flushable = true) (hpending : win.pending)
    (hold : Fits win.userBufW win.userBufH) (hnew : Fits win.userPendingW win.userPendingH)
    (hpos : 0 < win.userBufW ∧ 0 < win.userBufH) :
    (∀ buffers, KeepsPicture win buffers) ↔ win.RowsStay :=
  ⟨fun h => rowsStay_of_keepsPicture hflushable hpending hold hnew hpos (h _),
    keepsPicture_of_rowsStay hflushable hpending hold hnew⟩

end Flush

/-- A ring-3 window of 300 by 200 pixels of which a new size is asked for. -/
def resizedWindow (w h : ℤ) : Window :=
  { emptyWindow with
    id := 1
    user := true
    userBuf := true
    userCbuf := true
    userBufW := 300
    userBufH := 200
    userPendingW := w
    userPendingH := h }

theorem keepsPicture_higher : KeepsPicture (resizedWindow 300 250) (markedFrame 300) :=
  (@keepsPicture_iff (resizedWindow 300 250) rfl (by decide) ⟨by decide, by decide, by decide⟩
    ⟨by decide, by decide, by decide⟩ (by decide)).mpr (.inl rfl) (markedFrame 300)

/-- In a window that becomes wider, the second row begins behind the end of the first one. -/
theorem not_keepsPicture_wider :
    ¬ KeepsPicture (resizedWindow 400 200) (markedFrame 300) := by
  intro h
  exact absurd (h 300 0 (by decide) (by decide)).1 (by decide)

end EigenOS.Gui.Sizes
