import EigenOS.Library.Transition
import EigenOS.Terminal.Emulator

/-!
# The emulator stays inside its screen

Every byte leaves the cursor on the screen or one column right of it and writes inside the arrays,
but for the four relative moves, whose parameter may be negative or overflow, and the erasure of a
line up to the cursor when that is right of the screen.
-/

namespace EigenOS.Terminal

open EigenOS.MachineInt EigenOS.Transition

/-- A control sequence leaves the cursor in range, and does not erase beyond the row. -/
def Stays (t : Term) : Command → Prop
  | .up => t.cy - t.param 0 < ROWS ∨ 2 ^ 31 ≤ t.cy - t.param 0
  | .down => 0 ≤ t.cy + t.param 0 ∧ t.cy + t.param 0 < 2 ^ 31
  | .forward => 0 ≤ t.cx + t.param 0 ∧ t.cx + t.param 0 < 2 ^ 31
  | .back => t.cx - t.param 0 ≤ COLS ∨ 2 ^ 31 ≤ t.cx - t.param 0
  | .eraseLine => t.param 0 = 1 → t.cx < COLS
  | .position | .eraseDisplay | .graphics | .save | .restore | .other => True

/-- A byte that ends a control sequence ends one that stays inside. -/
def StaysInside (t : Term) (fed : Fed) : Prop :=
  (t.skip && !fed.first) = false → t.pstate = .csi → isFinal fed.byte = true →
    Stays t (command fed.byte)

/-! ## What is written -/

/-- What has been written lies inside the arrays, and the next row of the scrollback will. -/
structure Screen.Sound (s : Screen) : Prop where
  writes : ∀ w ∈ s.writes, w.InBounds
  head : 0 ≤ s.sbHead ∧ s.sbHead < SB_LINES

theorem Screen.Sound.write {s : Screen} (h : s.Sound) {w : Write} (hw : w.InBounds) :
    ({ s with writes := w :: s.writes } : Screen).Sound :=
  ⟨List.forall_mem_cons.mpr ⟨hw, h.writes⟩, h.head⟩

theorem inBounds_cell {row col : ℤ} (hrow : 0 ≤ row ∧ row < ROWS) (hcol : 0 ≤ col ∧ col < COLS) :
    (Write.cells row col 1 1).InBounds := ⟨hrow.1, hrow.2, hcol.1, hcol.2⟩

theorem Screen.Sound.setCell {row col : ℤ} {s : Screen} (h : s.Sound)
    (hrow : 0 ≤ row ∧ row < ROWS) (hcol : 0 ≤ col ∧ col < COLS) (cell : Cell) :
    (s.setCell row col cell).Sound := ⟨(h.write (inBounds_cell hrow hcol)).writes, h.head⟩

theorem Screen.Sound.setCells {row col : ℤ} {change : Cell → Cell} {n : ℕ} {s : Screen}
    (h : s.Sound) (hrow : 0 ≤ row ∧ row < ROWS) (hcol : 0 ≤ col) (hlast : col + n ≤ COLS) :
    (Screen.setCells row col change n s).Sound := by
  induction n generalizing col s with
  | zero => exact h
  | succ n ih =>
    push_cast at hlast
    exact ih (h.setCell hrow ⟨hcol, by omega⟩ _) (by omega) (by omega)

theorem Screen.Sound.eraseRows {row : ℤ} {n : ℕ} {s : Screen} (h : s.Sound) (hrow : 0 ≤ row)
    (hlast : row + n ≤ ROWS) : (eraseRows row n s).Sound := by
  induction n generalizing row s with
  | zero => exact h
  | succ n ih =>
    push_cast at hlast
    refine ih (h.setCells ⟨hrow, by omega⟩ (Int.le_refl 0) (by decide)) (by omega) (by omega)

theorem Screen.Sound.sbPushRow {s : Screen} (h : s.Sound) (malloc : Bool) :
    (sbPushRow s malloc).Sound := by
  have hinBounds : (Write.scrollback s.sbHead).InBounds := h.head
  have hslot := h.write hinBounds
  rw [Terminal.sbPushRow]
  dsimp only
  by_cases hnone : s.sb s.sbHead = none ∧ malloc = false
  · rw [if_pos hnone]
    exact hslot
  · rw [if_neg hnone]
    refine ⟨hslot.writes, ?_⟩
    unfold SB_LINES
    dsimp only
    omega

theorem Screen.Sound.gridScrollUp {s : Screen} (h : s.Sound) (style : Style) (malloc : Bool) :
    (gridScrollUp s style malloc).Sound := by
  have hpushed := h.sbPushRow malloc
  have hmoved : (Write.cells 0 0 (ROWS - 1) COLS).InBounds := by
    unfold Write.InBounds
    decide
  rw [Terminal.gridScrollUp]
  refine Screen.Sound.setCells ?_ (by decide) (Int.le_refl 0) (by decide)
  exact ⟨List.forall_mem_cons.mpr ⟨hmoved, hpushed.writes⟩, hpushed.head⟩

theorem mem_setCells {row col : ℤ} {change : Cell → Cell} {n : ℕ} {s : Screen} {w : Write}
    (hw : w ∈ s.writes ∨ ∃ i : ℕ, i < n ∧ w = .cells row (col + i) 1 1) :
    w ∈ (Screen.setCells row col change n s).writes := by
  induction n generalizing col s with
  | zero => exact hw.resolve_right fun ⟨_, hlt, _⟩ => Nat.not_lt_zero _ hlt
  | succ n ih =>
    apply ih
    rcases hw with hw | ⟨i, hlt, rfl⟩
    · exact .inl (List.mem_cons_of_mem _ hw)
    · cases i with
      | zero => exact .inl (by simp [Screen.setCell])
      | succ i =>
        refine .inr ⟨i, Nat.lt_of_succ_lt_succ hlt, ?_⟩
        push_cast
        rw [Int.add_assoc, Int.add_comm 1]

/-! ## Parameters -/

theorem digit_bounds {c : UInt8} (h : isDigit c = true) : 0 ≤ digit c ∧ digit c ≤ 9 := by
  obtain ⟨hlow, hhigh⟩ := of_decide_eq_true h
  rw [UInt8.le_iff_toNat_le] at hlow hhigh
  have hlow : 48 ≤ c.toNat := hlow
  have hhigh : c.toNat ≤ 57 := hhigh
  unfold digit
  omega

theorem csiParamsLoop_bounds (pb : List UInt8) (n : List ℤ) (fresh : Bool)
    (h : ∀ v ∈ n, -2 ^ 31 ≤ v ∧ v < 2 ^ 31) :
    ∀ v ∈ csiParamsLoop pb n fresh, -2 ^ 31 ≤ v ∧ v < 2 ^ 31 := by
  have happend : ∀ {init : List ℤ} {last : ℤ}, (∀ v ∈ init, -2 ^ 31 ≤ v ∧ v < 2 ^ 31) →
      -2 ^ 31 ≤ last ∧ last < 2 ^ 31 → ∀ v ∈ init ++ [last], -2 ^ 31 ≤ v ∧ v < 2 ^ 31 := by
    intro init last hinit hlast v hv
    rcases List.mem_append.mp hv with hmem | hmem
    · exact hinit v hmem
    · rwa [List.mem_singleton.mp hmem]
  induction pb generalizing n fresh with
  | nil => exact h
  | cons c rest ih =>
    rw [csiParamsLoop]
    split_ifs with hfull hsemicolon hone hdigit hfresh
    · exact h
    · exact ih _ _ (happend h (by decide))
    · exact ih _ _ (happend h (by decide))
    · obtain ⟨hlow, hhigh⟩ := digit_bounds hdigit
      exact ih _ _ (happend h ⟨by omega, by omega⟩)
    · exact ih _ _ (happend (fun v hv => h v (List.dropLast_subset n hv)) (asInt_bounds _))
    · exact ih _ _ h

theorem param_bounds (t : Term) (i : ℕ) : -2 ^ 31 ≤ t.param i ∧ t.param i < 2 ^ 31 := by
  have hall : ∀ v ∈ csiParams t.pb, -2 ^ 31 ≤ v ∧ v < 2 ^ 31 := by
    have hloop := csiParamsLoop_bounds t.pb [] true nofun
    rw [csiParams]
    split
    · exact fun v hv => List.mem_singleton.mp hv ▸ by decide
    · exact hloop
  rw [Term.param, List.getD_eq_getElem?_getD]
  cases hget : (csiParams t.pb)[i]? with
  | none => decide
  | some v => exact hall v (List.mem_of_getElem? hget)

/-! ## What every byte keeps -/

structure Good (t : Term) : Prop where
  row : 0 ≤ t.cy ∧ t.cy < ROWS
  col : 0 ≤ t.cx ∧ t.cx ≤ COLS
  savedRow : 0 ≤ t.savedCy ∧ t.savedCy < ROWS
  savedCol : 0 ≤ t.savedCx ∧ t.savedCx ≤ COLS
  parser : t.pb.length ≤ 30
  screen : t.screen.Sound

theorem Good.safe {t : Term} (h : Good t) : Safe t :=
  ⟨h.row, h.col, Nat.lt_of_le_of_lt h.parser (by decide), h.screen.writes⟩

section Keeps

variable {t : Term}

theorem Good.moveTo (h : Good t) {cx cy : ℤ} (hrow : 0 ≤ cy ∧ cy < ROWS)
    (hcol : 0 ≤ cx ∧ cx ≤ COLS) : Good { t with cx := cx, cy := cy } :=
  { h with row := hrow, col := hcol }

theorem Good.draw (h : Good t) {screen : Screen} (hscreen : screen.Sound) :
    Good { t with screen := screen } := { h with screen := hscreen }

theorem Good.reset (h : Good t) {screen : Screen} (hscreen : screen.Sound) :
    Good { t with
      screen := screen, style := ⟨FG_DEF, BG_DEF⟩, cx := 0, cy := 0, pstate := .ground } :=
  { h.moveTo ⟨Int.le_refl 0, by decide⟩ ⟨Int.le_refl 0, by decide⟩ with screen := hscreen }

theorem Good.lineFeed (h : Good t) (malloc : Bool) : Good (lineFeed t malloc) := by
  rw [Terminal.lineFeed]
  split_ifs with hlast
  · exact h.draw (h.screen.gridScrollUp t.style malloc)
  · have hrow := h.row
    refine h.moveTo ⟨by omega, ?_⟩ h.col
    unfold scrollBot at hlast
    omega

theorem Good.putcCell (h : Good t) (c : UInt8) (malloc : Bool) : Good (putcCell t c malloc) := by
  have hput : ∀ {t : Term}, Good t → t.cx < COLS →
      Good { t with screen := t.screen.setCell t.cy t.cx ⟨c, t.style.fg, t.style.bg⟩
                    cx := t.cx + 1 } := by
    intro t h hcol
    have hlow := h.col.1
    have hscreen := h.screen.setCell h.row ⟨hlow, hcol⟩ ⟨c, t.style.fg, t.style.bg⟩
    exact (h.draw hscreen).moveTo h.row ⟨Int.le_trans hlow (Int.le_add_one (Int.le_refl _)), hcol⟩
  rw [Terminal.putcCell]
  by_cases hend : COLS ≤ t.cx
  · rw [if_pos hend]
    have hstart := (h.moveTo h.row ⟨Int.le_refl 0, by decide⟩).lineFeed malloc
    refine hput hstart ?_
    rw [Terminal.lineFeed]
    split_ifs <;> exact (by decide : (0 : ℤ) < COLS)
  · rw [if_neg hend]
    exact hput h (Int.not_le.mp hend)

theorem Good.eraseCols (h : Good t) {first last : ℤ} (hfirst : 0 ≤ first) (hlast : last ≤ COLS)
    (hle : first ≤ last) : Good (eraseCols t first last) := by
  refine h.draw (h.screen.setCells h.row hfirst ?_)
  rw [Int.toNat_of_nonneg (by omega)]
  omega

theorem Good.eraseDisplay (h : Good t) : Good (eraseDisplay t) := by
  have hcol := h.col
  rw [Terminal.eraseDisplay]
  split_ifs
  · exact h.draw (h.screen.eraseRows (Int.le_refl 0) (by decide))
  · exact h.eraseCols hcol.1 (Int.le_refl COLS) hcol.2
  · exact h.eraseCols (Int.le_refl 0) (Int.min_le_right _ _) (Int.le_min.mpr ⟨by omega, by decide⟩)
  · exact h

theorem clamp_bounds (high : ℤ) (hhigh : 0 ≤ high) (v : ℤ) :
    0 ≤ clamp high v ∧ clamp high v ≤ high := by
  unfold clamp
  dsimp only
  split_ifs <;> omega

theorem Good.feedGround (h : Good t) (c : UInt8) (malloc : Bool) :
    Good (feedGround t c malloc) := by
  have hcol := h.col
  rw [Terminal.feedGround]
  split_ifs with hesc hcr hlf hbs hzero htab hprint
  · exact { h with parser := Nat.zero_le _ }
  · exact h.moveTo h.row ⟨Int.le_refl 0, by decide⟩
  · exact h.lineFeed malloc
  · exact h
  · exact h.moveTo h.row ⟨by omega, by omega⟩
  · refine h.moveTo h.row ?_
    unfold COLS at *
    split_ifs <;> omega
  · exact h.putcCell c malloc
  · exact h

theorem Good.feedEsc (h : Good t) (c : UInt8) : Good (feedEsc t c) := by
  rw [Terminal.feedEsc]
  split
  · exact { h with parser := Nat.zero_le _ }
  · have hmemset : (Write.cells 0 0 ROWS COLS).InBounds := by
      unfold Write.InBounds
      decide
    exact h.reset ((h.screen.write hmemset).eraseRows (Int.le_refl 0) (by decide))
  · exact { h with savedRow := h.row, savedCol := h.col }
  · exact { h with row := h.savedRow, col := h.savedCol }
  all_goals exact { h with }

/-! ## Relative moves -/

theorem Good.cursorUp (h : Good t) (hstays : Stays t .up) : Good (cursorUp t) := by
  have hrow := h.row
  obtain ⟨hlow, hhigh⟩ := param_bounds t 0
  refine h.moveTo ?_ h.col
  unfold Stays at hstays
  unfold ROWS at *
  rcases hstays with hfits | hover
  · rw [asInt_eq (by omega) (by omega)]
    split_ifs <;> omega
  · rw [asInt_of_le hover (by omega)]
    split_ifs <;> omega

theorem Good.not_safe_cursorUp (h : Good t) (hnot : ¬ Stays t .up) :
    ¬ Safe (Terminal.cursorUp t) := by
  have hrow := h.row
  obtain ⟨hlow, hhigh⟩ := param_bounds t 0
  obtain ⟨hbelow, hfits⟩ := not_or.mp hnot
  intro hsafe
  have hcy := hsafe.row.2
  dsimp only [Terminal.cursorUp] at hcy
  unfold ROWS at *
  rw [asInt_eq (by omega) (by omega)] at hcy
  split_ifs at hcy <;> omega

theorem Good.cursorDown (h : Good t) (hstays : Stays t .down) : Good (cursorDown t) := by
  have hrow := h.row
  obtain ⟨hpos, hfits⟩ := hstays
  refine h.moveTo ?_ h.col
  unfold scrollBot ROWS at *
  rw [asInt_eq (Int.le_trans (by decide) hpos) hfits]
  split_ifs <;> omega

theorem Good.not_safe_cursorDown (h : Good t) (hnot : ¬ Stays t .down) :
    ¬ Safe (Terminal.cursorDown t) := by
  have hrow := h.row
  obtain ⟨hlow, hhigh⟩ := param_bounds t 0
  intro hsafe
  have hcy := hsafe.row.1
  dsimp only [Terminal.cursorDown] at hcy
  unfold scrollBot ROWS at *
  rcases not_and_or.mp hnot with hneg | hover
  · rw [asInt_eq (by omega) (by omega)] at hcy
    split_ifs at hcy <;> omega
  · rw [asInt_of_le (by omega) (by omega)] at hcy
    split_ifs at hcy <;> omega

theorem Good.cursorForward (h : Good t) (hstays : Stays t .forward) : Good (cursorForward t) := by
  have hcol := h.col
  obtain ⟨hpos, hfits⟩ := hstays
  refine h.moveTo h.row ?_
  unfold COLS at *
  rw [asInt_eq (Int.le_trans (by decide) hpos) hfits]
  split_ifs <;> omega

theorem Good.not_safe_cursorForward (h : Good t) (hnot : ¬ Stays t .forward) :
    ¬ Safe (Terminal.cursorForward t) := by
  have hcol := h.col
  obtain ⟨hlow, hhigh⟩ := param_bounds t 0
  intro hsafe
  have hcx := hsafe.col.1
  dsimp only [Terminal.cursorForward] at hcx
  unfold COLS at *
  rcases not_and_or.mp hnot with hneg | hover
  · rw [asInt_eq (by omega) (by omega)] at hcx
    split_ifs at hcx <;> omega
  · rw [asInt_of_le (by omega) (by omega)] at hcx
    split_ifs at hcx <;> omega

theorem Good.cursorBack (h : Good t) (hstays : Stays t .back) : Good (cursorBack t) := by
  have hcol := h.col
  obtain ⟨hlow, hhigh⟩ := param_bounds t 0
  refine h.moveTo h.row ?_
  unfold Stays at hstays
  unfold COLS at *
  rcases hstays with hfits | hover
  · rw [asInt_eq (by omega) (by omega)]
    split_ifs <;> omega
  · rw [asInt_of_le hover (by omega)]
    split_ifs <;> omega

theorem Good.not_safe_cursorBack (h : Good t) (hnot : ¬ Stays t .back) :
    ¬ Safe (Terminal.cursorBack t) := by
  have hcol := h.col
  obtain ⟨hlow, hhigh⟩ := param_bounds t 0
  obtain ⟨hbeyond, hfits⟩ := not_or.mp hnot
  intro hsafe
  have hcx := hsafe.col.2
  dsimp only [Terminal.cursorBack] at hcx
  unfold COLS at *
  rw [asInt_eq (by omega) (by omega)] at hcx
  split_ifs at hcx <;> omega

/-! ## Control sequences -/

theorem Good.eraseLine (h : Good t) (hstays : Stays t .eraseLine) : Good (eraseLine t) := by
  have hcol := h.col
  rw [Terminal.eraseLine]
  split_ifs with hzero hone
  · exact h.eraseCols hcol.1 (Int.le_refl COLS) hcol.2
  · exact h.eraseCols (Int.le_refl 0) (hstays hone) (by omega)
  · exact h.eraseCols (Int.le_refl 0) (Int.le_refl COLS) (by decide)

/-- With the cursor right of the screen, the erasure up to it writes the column after the last. -/
theorem not_safe_eraseLine (hnot : ¬ Stays t .eraseLine) : ¬ Safe (eraseLine t) := by
  obtain ⟨hone, hend⟩ := Classical.not_imp.mp hnot
  intro hsafe
  rw [eraseLine, hone, if_neg (by decide), if_pos rfl] at hsafe
  have hwrite : Write.cells t.cy (0 + ((80 : ℕ) : ℤ)) 1 1 ∈
      (eraseCols t 0 (t.cx + 1)).screen.writes := by
    refine mem_setCells (.inr ⟨80, ?_, rfl⟩)
    unfold COLS at hend
    omega
  exact absurd (hsafe.writes _ hwrite).2.2.2 (by decide)

theorem Good.csiDispatch (h : Good t) {fin : UInt8} (hstays : Stays t (command fin)) :
    Good (csiDispatch t fin) := by
  rw [Terminal.csiDispatch]
  cases hcommand : command fin with
  | up => exact h.cursorUp (hcommand ▸ hstays)
  | down => exact h.cursorDown (hcommand ▸ hstays)
  | forward => exact h.cursorForward (hcommand ▸ hstays)
  | back => exact h.cursorBack (hcommand ▸ hstays)
  | eraseLine => exact h.eraseLine (hcommand ▸ hstays)
  | position =>
    have hcy := clamp_bounds scrollBot (by decide) (coordinate (t.param 0))
    have hcx := clamp_bounds (COLS - 1) (by decide) (coordinate (t.param 1))
    exact h.moveTo ⟨hcy.1, Int.lt_of_le_sub_one hcy.2⟩
      ⟨hcx.1, Int.le_of_lt (Int.lt_of_le_sub_one hcx.2)⟩
  | eraseDisplay => exact h.eraseDisplay
  | graphics =>
    dsimp only
    rw [selectGraphics]
    split_ifs
    · exact { h with }
    · exact { h with }
  | save => exact { h with savedRow := h.row, savedCol := h.col }
  | restore => exact { h with row := h.savedRow, col := h.savedCol }
  | other => exact h

theorem Good.not_safe_csiDispatch (h : Good t) {fin : UInt8} (hnot : ¬ Stays t (command fin)) :
    ¬ Safe (Terminal.csiDispatch t fin) := by
  rw [Terminal.csiDispatch]
  cases hcommand : command fin with
  | up => exact h.not_safe_cursorUp (hcommand ▸ hnot)
  | down => exact h.not_safe_cursorDown (hcommand ▸ hnot)
  | forward => exact h.not_safe_cursorForward (hcommand ▸ hnot)
  | back => exact h.not_safe_cursorBack (hcommand ▸ hnot)
  | eraseLine => exact not_safe_eraseLine (hcommand ▸ hnot)
  | position | eraseDisplay | graphics | save | restore | other =>
    rw [hcommand] at hnot
    exact absurd trivial hnot

/-! ## Every byte -/

theorem Good.begin (h : Good t) : Good t.begin := { h with screen := ⟨nofun, h.screen.head⟩ }

theorem Good.feedCsi (h : Good t) {c : UInt8} (hstays : isFinal c = true → Stays t (command c)) :
    Good (feedCsi t c) := by
  have hparser := h.parser
  rw [Terminal.feedCsi]
  split_ifs with hfinal hroom
  · exact { h.csiDispatch (hstays hfinal) with }
  · have hinBounds : (Write.parser t.pb.length).InBounds := ⟨Int.natCast_nonneg _, by omega⟩
    refine { h with parser := ?_, screen := h.screen.write hinBounds }
    rw [List.length_append, List.length_singleton]
    omega
  · exact { h with }

theorem Good.vtFeed (h : Good t) {fed : Fed} (hstays : StaysInside t fed) :
    Good (vtFeed t fed) := by
  rw [Terminal.vtFeed]
  split_ifs with hskip
  · exact h.begin
  · have hstate : t.begin.pstate = t.pstate := rfl
    rw [feedByte]
    cases hpstate : t.begin.pstate with
    | ground => exact h.begin.feedGround fed.byte fed.malloc
    | esc => exact h.begin.feedEsc fed.byte
    | csi =>
      exact h.begin.feedCsi (hstays (Bool.eq_false_iff.mpr hskip) (hstate.symm.trans hpstate))

theorem Good.not_safe_vtFeed (h : Good t) {fed : Fed} (hnot : ¬ StaysInside t fed) :
    ¬ Safe (Terminal.vtFeed t fed) := by
  obtain ⟨hskip, hnot⟩ := Classical.not_imp.mp hnot
  obtain ⟨hstate, hnot⟩ := Classical.not_imp.mp hnot
  obtain ⟨hfinal, hnot⟩ := Classical.not_imp.mp hnot
  have hpstate : t.begin.pstate = .csi := hstate
  rw [Terminal.vtFeed, hskip, if_neg Bool.false_ne_true, feedByte, hpstate]
  dsimp only
  rw [Terminal.feedCsi, if_pos hfinal]
  intro hsafe
  exact h.begin.not_safe_csiDispatch hnot ⟨hsafe.row, hsafe.col, hsafe.parser, hsafe.writes⟩

end Keeps

/-- After every byte of any stream the emulator is inside its bounds exactly if the control
sequences all stay inside. -/
theorem always_safe_iff (stream : List Fed) :
    Always Safe Term.initial (trace vtFeed Term.initial stream) ↔
      Along (fun t fed _ => StaysInside t fed) Term.initial (trace vtFeed Term.initial stream) := by
  have hinitial : Good Term.initial :=
    { row := by decide, col := by decide, savedRow := by decide, savedCol := by decide
      parser := by decide, screen := ⟨nofun, by decide⟩ }
  exact always_trace_iff_of_kept vtFeed (fun _ h => h.safe) (fun _ _ h hstays => h.vtFeed hstays)
    (fun _ _ h hnot => h.not_safe_vtFeed hnot) hinitial stream

/-- A full row, and `ESC [ 1 K`. -/
def eraseFullRow : List Fed :=
  (List.replicate 80 65 ++ [27, 91, 49, 75]).map fun byte => ⟨UInt8.ofNat byte, false, true⟩

theorem not_safe_eraseFullRow :
    ¬ Always Safe Term.initial (trace vtFeed Term.initial eraseFullRow) := by
  intro h
  have hwrite : Write.cells 0 80 1 1 ∈
      (final Term.initial (trace vtFeed Term.initial eraseFullRow)).screen.writes := by
    decide +kernel
  exact absurd (h.final.writes _ hwrite).2.2.2 (by decide)

end EigenOS.Terminal
