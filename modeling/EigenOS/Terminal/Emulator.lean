import EigenOS.Library.MachineInt

/-!
# The terminal emulator

`vt_feed` takes the bytes of a program apart and changes the grid of cells.  The grid is a function
of any row and column; what is written where is recorded, since an index may lie outside.
-/

namespace EigenOS.Terminal

open EigenOS.MachineInt Function

def COLS : ℤ := 80
def ROWS : ℤ := 24
def SB_LINES : ℤ := 400
def scrollBot : ℤ := ROWS - 1

def BG_DEF : UInt32 := 0x2E3440
def FG_DEF : UInt32 := 0xD8DEE9

def pal : List UInt32 :=
  [0x2E3440, 0xBF616A, 0xA3BE8C, 0xEBCB8B, 0x81A1C1, 0xB48EAD, 0x88C0D0, 0xD8DEE9,
    0x4C566A, 0xBF616A, 0xA3BE8C, 0xEBCB8B, 0x81A1C1, 0xB48EAD, 0x8FBCBB, 0xECEFF4]

/-- An entry of the palette. -/
def palette (i : ℤ) : UInt32 := pal.getD i.toNat 0

/-- `style_t`. -/
structure Style where
  fg : UInt32
  bg : UInt32
  deriving DecidableEq

/-- `cell_t`. -/
structure Cell where
  ch : UInt8
  fg : UInt32
  bg : UInt32
  deriving DecidableEq

/-- What is written: a block of grid cells, a row of the scrollback, or an entry of the parser's
buffer. -/
inductive Write where
  | cells (row col rows cols : ℤ)
  | scrollback (slot : ℤ)
  | parser (index : ℤ)
  deriving DecidableEq

/-- The arrays are as large as they are declared. -/
def Write.InBounds : Write → Prop
  | .cells row col rows cols =>
    0 ≤ row ∧ row + rows ≤ ROWS ∧ 0 ≤ col ∧ col + cols ≤ COLS
  | .scrollback slot => 0 ≤ slot ∧ slot < SB_LINES
  | .parser index => 0 ≤ index ∧ index < 32

/-- The grid and the scrollback, and what the current byte has written. -/
structure Screen where
  grid : ℤ → ℤ → Cell
  sb : ℤ → Option (ℤ → Cell)
  sbHead : ℤ
  sbCount : ℤ
  writes : List Write

inductive PState where
  | ground
  | esc
  | csi
  deriving DecidableEq

/-- The state of the emulator.  `skip` is that the loop of `vt_feed` passes over the next byte. -/
structure Term where
  screen : Screen
  cx : ℤ
  cy : ℤ
  style : Style
  pstate : PState
  pb : List UInt8
  savedCx : ℤ
  savedCy : ℤ
  skip : Bool

/-! ## The grid -/

def Screen.setCell (s : Screen) (row col : ℤ) (cell : Cell) : Screen :=
  { s with
    grid := update s.grid row (update (s.grid row) col cell)
    writes := .cells row col 1 1 :: s.writes }

/-- The loops over the columns of one row. -/
def Screen.setCells (row col : ℤ) (change : Cell → Cell) : ℕ → Screen → Screen
  | 0, s => s
  | n + 1, s => setCells row (col + 1) change n (s.setCell row col (change (s.grid row col)))

/-- `sb_push_row`.  A row of the scrollback is allocated when it is first needed. -/
def sbPushRow (s : Screen) (malloc : Bool) : Screen :=
  let s := { s with writes := .scrollback s.sbHead :: s.writes }
  if s.sb s.sbHead = none ∧ malloc = false then s
  else
    { s with
      sb := update s.sb s.sbHead (some (s.grid 0))
      sbHead := (s.sbHead + 1) % SB_LINES
      sbCount := if s.sbCount < SB_LINES then s.sbCount + 1 else s.sbCount }

/-- `grid_scroll_up`. -/
def gridScrollUp (s : Screen) (style : Style) (malloc : Bool) : Screen :=
  let s := sbPushRow s malloc
  let s :=
    { s with
      grid := fun row col =>
        if 0 ≤ row ∧ row < ROWS - 1 ∧ 0 ≤ col ∧ col < COLS then s.grid (row + 1) col
        else s.grid row col
      writes := .cells 0 0 (ROWS - 1) COLS :: s.writes }
  s.setCells scrollBot 0 (fun _ => ⟨32, style.fg, style.bg⟩) COLS.toNat

/-- The cursor goes to the next row. -/
def lineFeed (t : Term) (malloc : Bool) : Term :=
  if t.cy = scrollBot then { t with screen := gridScrollUp t.screen t.style malloc }
  else { t with cy := t.cy + 1 }

/-- `putc_cell`. -/
def putcCell (t : Term) (c : UInt8) (malloc : Bool) : Term :=
  let t := if COLS ≤ t.cx then lineFeed { t with cx := 0 } malloc else t
  { t with screen := t.screen.setCell t.cy t.cx ⟨c, t.style.fg, t.style.bg⟩, cx := t.cx + 1 }

/-- A cell that is erased by `J` or `K` keeps its background. -/
def eraseCell (style : Style) (cell : Cell) : Cell := { cell with ch := 32, fg := style.fg }

/-- Erases the columns from `first` up to `last` of the cursor's row. -/
def eraseCols (t : Term) (first last : ℤ) : Term :=
  { t with screen := t.screen.setCells t.cy first (eraseCell t.style) (last - first).toNat }

/-- Rows of blank cells in the default colours. -/
def eraseRows (row : ℤ) : ℕ → Screen → Screen
  | 0, s => s
  | n + 1, s =>
    eraseRows (row + 1) n (s.setCells row 0 (fun _ => ⟨32, FG_DEF, BG_DEF⟩) COLS.toNat)

/-! ## Control sequences -/

def isDigit (c : UInt8) : Bool := decide (48 ≤ c ∧ c ≤ 57)

def digit (c : UInt8) : ℤ := c.toNat - 48

/-- The loop of `csi_dispatch` that reads the parameters.  Before a semicolon that ends a
parameter the next entry of `n` has not been set, so the semicolon adds another, which is 0. -/
def csiParamsLoop : List UInt8 → List ℤ → Bool → List ℤ
  | [], n, _ => n
  | c :: rest, n, fresh =>
    if 8 ≤ n.length then n
    else if c = 59 then csiParamsLoop rest (n ++ [if fresh then 1 else 0]) true
    else if isDigit c then
      if fresh then csiParamsLoop rest (n ++ [digit c]) false
      else csiParamsLoop rest (n.dropLast ++ [asInt (n.getLastD 0 * 10 + digit c)]) false
    else csiParamsLoop rest n fresh

def csiParams (pb : List UInt8) : List ℤ :=
  match csiParamsLoop pb [] true with
  | [] => [1]
  | n => n

/-- `n[i]`. -/
def Term.param (t : Term) (i : ℕ) : ℤ := (csiParams t.pb).getD i 0

/-- A coordinate of `H`, counted from 1, where 0 stands for 1. -/
def coordinate (n : ℤ) : ℤ := asInt ((if n = 0 then 1 else n) - 1)

/-- `if (v > high) v = high; if (v < 0) v = 0;` -/
def clamp (high v : ℤ) : ℤ :=
  let v := if high < v then high else v
  if v < 0 then 0 else v

def cursorUp (t : Term) : Term :=
  let cy := asInt (t.cy - t.param 0)
  { t with cy := if cy < 0 then 0 else cy }

def cursorDown (t : Term) : Term :=
  let cy := asInt (t.cy + t.param 0)
  { t with cy := if scrollBot < cy then scrollBot else cy }

def cursorForward (t : Term) : Term :=
  let cx := asInt (t.cx + t.param 0)
  { t with cx := if COLS - 1 < cx then COLS - 1 else cx }

def cursorBack (t : Term) : Term :=
  let cx := asInt (t.cx - t.param 0)
  { t with cx := if cx < 0 then 0 else cx }

def cursorPosition (t : Term) : Term :=
  { t with
    cy := clamp scrollBot (coordinate (t.param 0))
    cx := clamp (COLS - 1) (coordinate (t.param 1)) }

def eraseDisplay (t : Term) : Term :=
  if t.param 0 = 2 ∨ t.param 0 = 3 ∨ t.param 0 = 0 ∧ t.pb.length = 0 then
    { t with screen := eraseRows 0 ROWS.toNat t.screen }
  else if t.param 0 = 0 then eraseCols t t.cx COLS
  else if t.param 0 = 1 then eraseCols t 0 (min (t.cx + 1) COLS)
  else t

def eraseLine (t : Term) : Term :=
  if t.param 0 = 0 then eraseCols t t.cx COLS
  else if t.param 0 = 1 then eraseCols t 0 (t.cx + 1)
  else eraseCols t 0 COLS

def atoiDigits : List UInt8 → ℤ → ℤ
  | [], v => v
  | c :: rest, v => if isDigit c then atoiDigits rest (asInt (v * 10 + digit c)) else v

/-- `atoi` of the C library. -/
def atoi (s : List UInt8) : ℤ :=
  match s.dropWhile fun c => c = 32 ∨ c = 9 with
  | 45 :: rest => asInt (-atoiDigits rest 0)
  | 43 :: rest => atoiDigits rest 0
  | rest => atoiDigits rest 0

/-- The loop that reads the colours, with the text of the current one in `tmp[8]`. -/
def sgrParamsLoop : List UInt8 → List UInt8 → List ℤ → List ℤ
  | rest, tmp, v =>
    if 16 ≤ v.length then v
    else
      let v' := v ++ [if tmp = [] then 0 else atoi tmp]
      match rest with
      | [] => v'
      | c :: rest =>
        if c = 59 then sgrParamsLoop rest [] v'
        else sgrParamsLoop rest (if tmp.length < 7 then tmp ++ [c] else tmp) v

/-- `idx_of`. -/
def idxOf (color : UInt32) : ℤ := if color ∈ pal then pal.idxOf color % 8 else 7

def selectColor (style : Style) (p : ℤ) : Style :=
  if p = 0 then ⟨FG_DEF, BG_DEF⟩
  else if p = 1 then
    if style.fg < palette 8 then
      { style with fg := palette (if style.fg = FG_DEF then 7 else idxOf style.fg) }
    else style
  else if 30 ≤ p ∧ p ≤ 37 then { style with fg := palette (p - 30) }
  else if 90 ≤ p ∧ p ≤ 97 then { style with fg := palette (p - 90 + 8) }
  else if 40 ≤ p ∧ p ≤ 47 then { style with bg := palette (p - 40) }
  else if 100 ≤ p ∧ p ≤ 107 then { style with bg := palette (p - 100 + 8) }
  else if p = 39 then { style with fg := FG_DEF }
  else if p = 49 then { style with bg := BG_DEF }
  else style

def selectGraphics (t : Term) : Term :=
  if t.pb.length = 0 then { t with style := ⟨FG_DEF, BG_DEF⟩ }
  else { t with style := (sgrParamsLoop t.pb [] []).foldl selectColor t.style }

def saveCursor (t : Term) : Term := { t with savedCx := t.cx, savedCy := t.cy }

def restoreCursor (t : Term) : Term := { t with cx := t.savedCx, cy := t.savedCy }

/-- What the last byte of a control sequence asks for. -/
inductive Command where
  | up
  | down
  | forward
  | back
  | position
  | eraseDisplay
  | eraseLine
  | graphics
  | save
  | restore
  | other
  deriving DecidableEq

def command (fin : UInt8) : Command :=
  match Char.ofUInt8 fin with
  | 'A' => .up
  | 'B' => .down
  | 'C' => .forward
  | 'D' => .back
  | 'H' | 'f' => .position
  | 'J' => .eraseDisplay
  | 'K' => .eraseLine
  | 'm' => .graphics
  | 's' => .save
  | 'u' => .restore
  | _ => .other

/-- `csi_dispatch`. -/
def csiDispatch (t : Term) (fin : UInt8) : Term :=
  match command fin with
  | .up => cursorUp t
  | .down => cursorDown t
  | .forward => cursorForward t
  | .back => cursorBack t
  | .position => cursorPosition t
  | .eraseDisplay => eraseDisplay t
  | .eraseLine => eraseLine t
  | .graphics => selectGraphics t
  | .save => saveCursor t
  | .restore => restoreCursor t
  | .other => t

/-! ## The parser -/

def feedGround (t : Term) (c : UInt8) (malloc : Bool) : Term :=
  if c = 27 then { t with pstate := .esc, pb := [] }
  else if c = 13 then { t with cx := 0 }
  else if c = 10 then lineFeed t malloc
  else if c = 8 then if t.cx = 0 then t else { t with cx := t.cx - 1 }
  else if c = 9 then
    let cx := (t.cx + 8) / 8 * 8
    { t with cx := if COLS ≤ cx then COLS - 1 else cx }
  else if 32 ≤ c then putcCell t c malloc
  else t

def feedEsc (t : Term) (c : UInt8) : Term :=
  match Char.ofUInt8 c with
  | '[' => { t with pstate := .csi, pb := [] }
  | 'c' =>
    -- `memset` of the whole grid, and the blank cells
    { t with
      screen := eraseRows 0 ROWS.toNat
        { t.screen with writes := .cells 0 0 ROWS COLS :: t.screen.writes }
      style := ⟨FG_DEF, BG_DEF⟩, cx := 0, cy := 0, pstate := .ground }
  | '7' => { saveCursor t with pstate := .ground }
  | '8' => { restoreCursor t with pstate := .ground }
  | ')' | '(' => { t with skip := true, pstate := .ground }
  | _ => { t with pstate := .ground }

/-- A byte from `@` to `~` ends a control sequence; digits, `;` and `?` are below. -/
def isFinal (c : UInt8) : Bool := decide (0x40 ≤ c ∧ c ≤ 0x7E)

def feedCsi (t : Term) (c : UInt8) : Term :=
  if isFinal c then { csiDispatch t c with pstate := .ground }
  else if t.pb.length < 30 then
    { t with
      pb := t.pb ++ [c]
      screen := { t.screen with writes := .parser t.pb.length :: t.screen.writes } }
  else { t with pstate := .ground }

/-- A byte as it is fed: whether it is the first of a call of `vt_feed`, and whether memory can be
had for a row of the scrollback. -/
structure Fed where
  byte : UInt8
  first : Bool
  malloc : Bool

def feedByte (t : Term) (c : UInt8) (malloc : Bool) : Term :=
  match t.pstate with
  | .ground => feedGround t c malloc
  | .esc => feedEsc t c
  | .csi => feedCsi t c

/-- Nothing is passed over any more, and nothing written yet. -/
def Term.begin (t : Term) : Term :=
  { t with skip := false, screen := { t.screen with writes := [] } }

/-- One turn of the loop of `vt_feed`. -/
def vtFeed (t : Term) (fed : Fed) : Term :=
  if t.skip && !fed.first then t.begin else feedByte t.begin fed.byte fed.malloc

/-- The emulator when `main` has blanked the grid. -/
def Term.initial : Term where
  screen :=
    { grid := fun _ _ => ⟨32, FG_DEF, BG_DEF⟩
      sb := fun _ => none
      sbHead := 0
      sbCount := 0
      writes := [] }
  cx := 0
  cy := 0
  style := ⟨FG_DEF, BG_DEF⟩
  pstate := .ground
  pb := []
  savedCx := 0
  savedCy := 0
  skip := false

/-! ## What is to hold after every byte -/

/-- The cursor is on the screen or right of it, the parser's buffer holds its index, and what was
written lies inside the arrays. -/
structure Safe (t : Term) : Prop where
  row : 0 ≤ t.cy ∧ t.cy < ROWS
  col : 0 ≤ t.cx ∧ t.cx ≤ COLS
  parser : t.pb.length < 32
  writes : ∀ w ∈ t.screen.writes, w.InBounds

end EigenOS.Terminal
