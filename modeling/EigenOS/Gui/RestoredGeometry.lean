import EigenOS.Gui.TileLayout

/-!
# The rectangle that a window is restored to

`wm_maximize_window` and `wm_minimize_window` save the rectangle of a window in the same fields,
and `wm_restore_window` takes it from there.  Where both save one, the second is the rectangle of
the maximized window.
-/

namespace EigenOS.Gui.Sizes

open EigenOS.MachineInt EigenOS.Transition

inductive Change where
  | maximize (mode : ℤ)
  /-- With the end of the animation, when `wm_tick` hides the window. -/
  | minimize
  | restore

def change (screen : Screen) (layoutSize : ℤ) (win : Window) : Change → Window
  | .maximize mode => win.maximize screen layoutSize mode
  | .minimize => win.minimize.settle
  | .restore => win.restore screen

def Window.normal (win : Window) : Prop := win.maximized = false ∧ win.minimized = false

def Window.saved (win : Window) : Rect := ⟨win.savedX, win.savedY, win.savedW, win.savedH⟩

/-- The rectangle of the window, or what a maximized one is restored to. -/
def Window.normalRect (screen : Screen) (win : Window) : Rect :=
  if win.maximized then restored screen win.saved else win.rect

/-- A window that is neither maximized nor minimized has its original rectangle, and another one
gets it when it is restored. -/
def Kept (screen : Screen) (original : Rect) (win : Window) : Prop :=
  (win.normal → win.rect = original) ∧
    (¬ win.normal → (win.restore screen).rect = original)

/-- No window is minimized while it is maximized, and none is restored that is neither. -/
def Undisturbed (win : Window) : Change → Prop
  | .maximize _ => True
  | .minimize => win.maximized = true → win.minimized = true
  | .restore => ¬ win.normal

/-- The rectangle that a step saves is one that `wm_restore_window` leaves alone: not the one of a
maximized window.  A restore of a window that is as it was finds its rectangle saved. -/
def KeepsSaved (screen : Screen) (win : Window) : Change → Prop
  | .maximize _ => screen.fbWidth = 0 ∨ screen.fbHeight = 0 ∨
      restored screen (win.normalRect screen) = win.normalRect screen
  | .minimize => win.minimized = true ∨ restored screen win.rect = win.normalRect screen
  | .restore => restored screen win.saved = win.normalRect screen

/-! ## One step -/

section Step

variable {screen : Screen} {layoutSize : ℤ} {original : Rect} {win : Window}

theorem rect_restore (screen : Screen) (win : Window) :
    (win.restore screen).rect = restored screen win.saved := rect_resized _

theorem flags_resized (win : Window) :
    win.resized.maximized = win.maximized ∧ win.resized.minimized = win.minimized ∧
      win.resized.saved = win.saved := by
  rw [Window.resized]
  dsimp only
  split <;> exact ⟨rfl, rfl, rfl⟩

theorem normal_restore (screen : Screen) (win : Window) : (win.restore screen).normal :=
  ⟨(flags_resized _).1, (flags_resized _).2.1⟩

/-- What the code relies on between the steps. -/
structure Recoverable (screen : Screen) (original : Rect) (win : Window) : Prop where
  rect : win.normalRect screen = original
  saved : win.minimized = true → restored screen win.saved = original

theorem recoverable_of_normal (hnormal : win.normal) : Recoverable screen win.rect win where
  rect := by rw [Window.normalRect, hnormal.1, if_neg Bool.false_ne_true]
  saved hmin := absurd (hmin.symm.trans hnormal.2) (by decide)

theorem Recoverable.normal_of_not_saved (h : Recoverable screen original win)
    (hsaved : restored screen win.saved ≠ original) : win.normal := by
  refine ⟨Bool.eq_false_of_not_eq_true fun hmax => hsaved ?_,
    Bool.eq_false_of_not_eq_true fun hmin => hsaved (h.saved hmin)⟩
  have hrect := h.rect
  rwa [Window.normalRect, if_pos hmax] at hrect

theorem Recoverable.kept (h : Recoverable screen original win) : Kept screen original win := by
  constructor
  · intro hnormal
    have hrect := h.rect
    rwa [Window.normalRect, hnormal.1, if_neg Bool.false_ne_true] at hrect
  · intro hnot
    rw [rect_restore]
    by_contra hsaved
    exact hnot (h.normal_of_not_saved hsaved)

variable (screen layoutSize win) in
theorem maximize_spec (hfb : ¬(screen.fbWidth = 0 ∨ screen.fbHeight = 0)) (mode : ℤ) :
    (win.maximize screen layoutSize mode).maximized = true ∧
      (win.maximize screen layoutSize mode).minimized = false ∧
      (win.maximize screen layoutSize mode).saved = win.normalRect screen := by
  rw [Window.maximize, if_neg hfb]
  refine ⟨(flags_resized _).1, (flags_resized _).2.1, (flags_resized _).2.2.trans ?_⟩
  rw [Window.normalRect]
  split
  · exact rect_restore screen win
  · rfl

theorem minimize_spec (hmin : win.minimized = false) :
    win.minimize.settle.minimized = true ∧ win.minimize.settle.maximized = win.maximized ∧
      win.minimize.settle.rect = win.rect ∧ win.minimize.settle.saved = win.rect := by
  rw [Window.minimize, hmin, if_neg Bool.false_ne_true]
  exact ⟨rfl, rfl, rfl, rfl⟩

theorem minimize_of_minimized (hmin : win.minimized = true) :
    win.minimize.settle = { win with geomAnim := 0 } := by
  rw [Window.minimize, if_pos hmin, Window.settle, hmin]
  cases win
  cases hmin
  rfl

theorem kept_normal_iff (hnormal : win.normal) : Kept screen original win ↔ win.rect = original :=
  ⟨fun h => h.1 hnormal, fun h => ⟨fun _ => h, fun hnot => absurd hnormal hnot⟩⟩

theorem kept_saved_iff (hnot : ¬ win.normal) :
    Kept screen original win ↔ restored screen win.saved = original := by
  rw [Kept, rect_restore]
  exact ⟨fun h => h.2 hnot, fun h => ⟨fun hnormal => absurd hnormal hnot, fun _ => h⟩⟩

variable (screen layoutSize) in
/-- A step keeps the rectangle exactly if what it saves leads back to it. -/
theorem kept_change_iff (h : Recoverable screen original win) (step : Change) :
    Kept screen original (change screen layoutSize win step) ↔ KeepsSaved screen win step := by
  cases step with
  | maximize mode =>
      by_cases hfb : screen.fbWidth = 0 ∨ screen.fbHeight = 0
      · have hsame : change screen layoutSize win (.maximize mode) = win := if_pos hfb
        rw [hsame]
        exact iff_of_true h.kept (or_assoc.mp (.inl hfb))
      · obtain ⟨hmax, -, hsaved⟩ := maximize_spec screen layoutSize win hfb mode
        have hnot : ¬ (win.maximize screen layoutSize mode).normal := fun hnormal =>
          absurd (hmax.symm.trans hnormal.1) (by decide)
        rw [change, kept_saved_iff hnot, hsaved, KeepsSaved, ← or_assoc, or_iff_right hfb, h.rect]
  | minimize =>
      rw [change, KeepsSaved]
      by_cases hmin : win.minimized = true
      · have hnot : ¬ win.minimize.settle.normal := by
          rw [minimize_of_minimized hmin]
          exact fun hnormal => absurd (hmin.symm.trans hnormal.2) (by decide)
        refine iff_of_true ((kept_saved_iff hnot).mpr ?_) (.inl hmin)
        rw [minimize_of_minimized hmin]
        exact h.saved hmin
      · obtain ⟨hhidden, -, -, hsaved⟩ := minimize_spec (Bool.eq_false_of_not_eq_true hmin)
        have hnot : ¬ win.minimize.settle.normal := fun hnormal =>
          absurd (hhidden.symm.trans hnormal.2) (by decide)
        rw [kept_saved_iff hnot, hsaved, h.rect, or_iff_right hmin]
  | restore => rw [change, kept_normal_iff (normal_restore screen win), rect_restore, KeepsSaved, h.rect]

theorem recoverable_change (h : Recoverable screen original win) {step : Change}
    (hkeeps : KeepsSaved screen win step) :
    Recoverable screen original (change screen layoutSize win step) := by
  cases step with
  | maximize mode =>
      by_cases hfb : screen.fbWidth = 0 ∨ screen.fbHeight = 0
      · rw [change, Window.maximize, if_pos hfb]
        exact h
      · obtain ⟨hmax, hmin, hsaved⟩ := maximize_spec screen layoutSize win hfb mode
        rw [KeepsSaved, ← or_assoc, or_iff_right hfb, h.rect] at hkeeps
        constructor
        · rw [change, Window.normalRect, if_pos hmax, hsaved, h.rect, hkeeps]
        · exact fun htrue => absurd (htrue.symm.trans hmin) (by decide)
  | minimize =>
      by_cases hmin : win.minimized = true
      · rw [change, minimize_of_minimized hmin]
        exact ⟨h.rect, h.saved⟩
      · obtain ⟨-, hmax, hrect, hsaved⟩ := minimize_spec (Bool.eq_false_of_not_eq_true hmin)
        rw [KeepsSaved, or_iff_right hmin, h.rect] at hkeeps
        constructor
        · rw [change, Window.normalRect, hmax, hsaved, hrect]
          split
          · exact hkeeps
          · have hnormalRect := h.rect
            rwa [Window.normalRect, if_neg ‹_›] at hnormalRect
        · rw [change, hsaved]
          exact fun _ => hkeeps
  | restore =>
      obtain ⟨hmax, hmin⟩ := normal_restore screen win
      rw [KeepsSaved, h.rect] at hkeeps
      constructor
      · rw [change, Window.normalRect, hmax, if_neg Bool.false_ne_true, rect_restore]
        exact hkeeps
      · exact fun htrue => absurd (htrue.symm.trans hmin) (by decide)

end Step

/-! ## Runs -/

section Runs

variable {screen : Screen} {layoutSize : ℤ} {original : Rect} {win : Window}

theorem always_kept_iff (h : Recoverable screen original win) (steps : List Change) :
    Always (Kept screen original) win (trace (change screen layoutSize) win steps) ↔
      Along (fun before step _ => KeepsSaved screen before step) win
        (trace (change screen layoutSize) win steps) := by
  induction steps generalizing win with
  | nil => exact iff_of_true h.kept trivial
  | cons step rest ih =>
      have hstep := kept_change_iff screen layoutSize h step
      constructor
      · rintro ⟨-, hrest⟩
        have hkeeps := hstep.mp hrest.start
        exact ⟨hkeeps, (ih (recoverable_change h hkeeps)).mp hrest⟩
      · rintro ⟨hkeeps, hrest⟩
        exact ⟨h.kept, (ih (recoverable_change h hkeeps)).mpr hrest⟩

/-- However a window is maximized, minimized and restored, it comes back to the rectangle it had
exactly if each step keeps what is saved. -/
theorem rectangle_kept_iff (hnormal : win.normal) (steps : List Change) :
    Always (Kept screen win.rect) win (trace (change screen layoutSize) win steps) ↔
      Along (fun before step _ => KeepsSaved screen before step) win
        (trace (change screen layoutSize) win steps) :=
  always_kept_iff (recoverable_of_normal hnormal) steps

theorem restored_of_inside {rect : Rect} (hinside : rect.Inside (guiGetWorkArea screen layoutSize))
    (hlayout : layoutSize < 2 ^ 31) (hwidth : screen.fbWidth ≠ 0)
    (hheight : screen.fbHeight ≠ 0 ∧ screen.fbHeight < 2 ^ 31) (hw : minW ≤ rect.w)
    (hh : minH ≤ rect.h) : restored screen rect = rect := by
  obtain ⟨hleft, htop, hright, hbottom⟩ := hinside
  have hx := screen.width_lt
  have hnonneg := screen.width_nonneg
  have hy := screen.height_nonneg
  have hsize : 16 ≤ (if layoutSize < 16 then 16 else layoutSize) ∧
      (if layoutSize < 16 then 16 else layoutSize) < 2 ^ 31 := by
    split <;> omega
  rw [guiGetWorkArea, if_neg (not_or.mpr ⟨hwidth, hheight.1⟩),
    if_neg (not_or.mpr ⟨hwidth, hheight.1⟩)] at hleft htop hright hbottom
  dsimp only at hleft htop hright hbottom
  generalize (if layoutSize < 16 then 16 else layoutSize) = size at *
  rw [asInt_eq (n := 0 + size) (by omega) (by omega)] at htop hbottom
  rw [asInt_eq (n := screen.fbHeight) (by omega) (by omega),
    asInt_eq (n := screen.fbHeight - size) (by omega) (by omega)] at hbottom
  rw [asInt_eq (n := screen.fbWidth) (by omega) (by omega)] at hright
  have htop : 0 ≤ rect.y := by omega
  unfold minW minH at *
  rw [restored, minW, minH, max_eq_left hw, max_eq_left hh, max_eq_left hleft, max_eq_left htop,
    asInt_eq (n := screen.fbWidth) (by omega) (by omega),
    asInt_eq (n := screen.fbHeight) (by omega) (by omega),
    asInt_eq (n := rect.x + rect.w) (by omega) (by omega),
    asInt_eq (n := rect.y + rect.h) (by omega) (by omega)]
  rw [if_neg (by omega), if_neg (by omega), max_eq_left hleft]

theorem keepsSaved_of_undisturbed (h : Recoverable screen original win)
    (hsame : restored screen original = original) {step : Change} (hstep : Undisturbed win step) :
    KeepsSaved screen win step := by
  cases step with
  | maximize mode =>
      rw [KeepsSaved, h.rect, hsame]
      exact .inr (.inr rfl)
  | minimize =>
      by_cases hmin : win.minimized = true
      · exact .inl hmin
      · have hmax : win.maximized ≠ true := fun hmax => hmin (hstep hmax)
        have hrect := h.rect
        rw [Window.normalRect, if_neg hmax] at hrect
        rw [KeepsSaved, h.rect, hrect, hsame]
        exact .inr rfl
  | restore =>
      rw [KeepsSaved, h.rect]
      by_contra hsaved
      exact hstep (h.normal_of_not_saved hsaved)

/-- A rectangle inside the work area of a screen is kept as long as no step disturbs it. -/
theorem rectangle_kept_of_undisturbed (hnormal : win.normal)
    (hinside : win.rect.Inside (guiGetWorkArea screen layoutSize)) (hlayout : layoutSize < 2 ^ 31)
    (hwidth : screen.fbWidth ≠ 0) (hheight : screen.fbHeight ≠ 0 ∧ screen.fbHeight < 2 ^ 31)
    (hw : minW ≤ win.w) (hh : minH ≤ win.h) (steps : List Change)
    (hsteps : Along (fun before step _ => Undisturbed before step) win
      (trace (change screen layoutSize) win steps)) :
    Always (Kept screen win.rect) win (trace (change screen layoutSize) win steps) := by
  refine (rectangle_kept_iff hnormal steps).mpr (along_of_guarded (Recoverable screen win.rect) ?_
    (recoverable_of_normal hnormal) (along_trace _ _ _) hsteps)
  rintro before step _ h hstep rfl
  have hkeeps := keepsSaved_of_undisturbed h
    (restored_of_inside hinside hlayout hwidth hheight hw hh) hstep
  exact ⟨recoverable_change h hkeeps, hkeeps⟩

end Runs

/-! ## A window that is maximized and then minimized -/

/-- A screen of 1024 by 768 pixels. -/
def fullScreen : Screen where
  fbWidth := 1024
  fbHeight := 768
  width_nonneg := by decide
  width_lt := by decide
  height_nonneg := by decide
  height_lt := by decide

/-- A window in the middle of the screen. -/
def someWindow : Window :=
  { emptyWindow with
    id := 1
    x := 100
    y := 100
    w := 300
    h := 200
    visible := true
    savedX := 100
    savedY := 100
    savedW := 300
    savedH := 200 }

theorem rectangle_kept_iff_maximized :
    Always (Kept fullScreen someWindow.rect) someWindow
      (trace (change fullScreen 36) someWindow [.maximize 0, .restore, .minimize, .restore]) :=
  (rectangle_kept_iff ⟨rfl, rfl⟩ _).mpr
    ⟨.inr (.inr rfl), rfl, .inr rfl, rfl, trivial⟩

/-- It comes back as large as it was when it was maximized. -/
theorem not_rectangle_kept_minimized :
    (final someWindow (trace (change fullScreen 36) someWindow
        [.maximize 0, .minimize, .restore])).normal ∧
      (final someWindow (trace (change fullScreen 36) someWindow
        [.maximize 0, .minimize, .restore])).rect ≠ someWindow.rect := by
  refine ⟨⟨by decide, by decide⟩, fun h => ?_⟩
  exact absurd (congrArg Rect.w h) (by decide)

end EigenOS.Gui.Sizes
