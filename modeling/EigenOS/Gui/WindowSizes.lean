import EigenOS.Library.MachineInt

/-!
# Sizes of windows and of their contents

The geometry of windows as the window manager changes it: opening, tiling, maximizing, restoring,
minimizing, dragging and closing, and the size of the content of a ring-3 window, which follows
the window when the program flushes its buffer.  A content buffer has a fixed size.  Each window
operation is one step.
-/

namespace EigenOS.Gui.Sizes

open EigenOS.MachineInt

abbrev Slot := Fin 8

/-- `USER_WIN_MAX_BUF`. -/
def userWinMaxBuf : ℤ := 0x400000

/-- The pixels of a buffer, `USER_WIN_MAX_BUF / 4`. -/
def maxPx : ℤ := userWinMaxBuf / 4

/-- `WM_TITLEBAR_H`. -/
def titlebarH : ℤ := 24

/-- `WM_MIN_W`. -/
def minW : ℤ := 200

/-- `WM_MIN_H`. -/
def minH : ℤ := 120

/-- What the boot loader says of the frame buffer.  No screen is a million pixels wide. -/
structure Screen where
  fbWidth : ℤ
  fbHeight : ℤ
  width_nonneg : 0 ≤ fbWidth
  width_lt : fbWidth < 2 ^ 20
  height_nonneg : 0 ≤ fbHeight
  height_lt : fbHeight < 2 ^ 32

structure Window where
  id : ℤ
  x : ℤ
  y : ℤ
  w : ℤ
  h : ℤ
  viewX : ℤ
  viewY : ℤ
  contentW : ℤ
  contentH : ℤ
  visible : Bool
  dragging : Bool
  resizing : Bool
  minimized : Bool
  /-- One of the three flags of a maximized window. -/
  maximized : Bool
  closing : Bool
  floating : Bool
  /-- `WM_FLAG_USER`. -/
  user : Bool
  savedX : ℤ
  savedY : ℤ
  savedW : ℤ
  savedH : ℤ
  dragOffsetX : ℤ
  dragOffsetY : ℤ
  startW : ℤ
  startH : ℤ
  animType : ℤ
  geomAnim : ℤ
  /-- Whether there is a buffer. -/
  userBuf : Bool
  userCbuf : Bool
  userBufW : ℤ
  userBufH : ℤ
  userPendingW : ℤ
  userPendingH : ℤ

/-- A slot after `wm_init`. -/
def emptyWindow : Window where
  id := -1
  x := 0
  y := 0
  w := 0
  h := 0
  viewX := 0
  viewY := 0
  contentW := 0
  contentH := 0
  visible := false
  dragging := false
  resizing := false
  minimized := false
  maximized := false
  closing := false
  floating := false
  user := false
  savedX := 0
  savedY := 0
  savedW := 0
  savedH := 0
  dragOffsetX := 0
  dragOffsetY := 0
  startW := 0
  startH := 0
  animType := 0
  geomAnim := 0
  userBuf := false
  userCbuf := false
  userBufW := 0
  userBufH := 0
  userPendingW := 0
  userPendingH := 0

structure Rect where
  x : ℤ
  y : ℤ
  w : ℤ
  h : ℤ

/-- `gui_get_work_area`, with the `size` of the layout, which the settings can make any `int`. -/
def guiGetWorkArea (screen : Screen) (layoutSize : ℤ) : Rect :=
  let none := screen.fbWidth = 0 ∨ screen.fbHeight = 0
  let fw := if none then 1024 else screen.fbWidth
  let fh := if none then 768 else screen.fbHeight
  let size := if layoutSize < 16 then 16 else layoutSize
  ⟨0, asInt (0 + size), asInt fw, asInt (asInt fh - size)⟩

/-! ## Scaling to the buffer -/

/-- The area of a content, as the code computes it. -/
def area (w h : ℤ) : ℤ := asUInt64 (asUInt64 w * asUInt64 h)

def overBudget (w h f : ℤ) : Bool :=
  maxPx < asUInt64 (asUInt64 w / f * (asUInt64 h / f))

/-- The loop that makes the factor smaller. -/
def lowerFactor (w h : ℤ) : ℕ → ℕ
  | 0 => 0
  | f + 1 => if 1 < f + 1 ∧ overBudget w h (f + 1) then lowerFactor w h f else f + 1

/-- The factor by which a content that is too large is made smaller. -/
def fitFactor (w h : ℤ) : ℤ :=
  let f := asInt (asUInt64 (area w h + maxPx - 1) / maxPx)
  max (lowerFactor w h f.toNat) 1

/-- A content that is scaled down if it is too large. -/
def scaleDown (w h : ℤ) : ℤ × ℤ :=
  if maxPx < area w h then (w.tdiv (fitFactor w h), h.tdiv (fitFactor w h)) else (w, h)

/-- `wm_user_mark_resize`. -/
def Window.userMarkResize (win : Window) (cw ch : ℤ) : Window :=
  let cw := max cw 1
  let ch := max ch 1
  { win with
    userPendingW := if maxPx < area cw ch then max (scaleDown cw ch).1 1 else cw
    userPendingH := if maxPx < area cw ch then max (scaleDown cw ch).2 1 else ch }

/-- What follows a new size: the content of the window, and a request to the program of a ring-3
window. -/
def Window.resized (win : Window) : Window :=
  let win := { win with contentW := win.w, contentH := asInt (win.h - titlebarH) }
  if win.user then win.userMarkResize (asInt (win.w - 2)) (asInt (win.h - titlebarH - 2)) else win

/-! ## Single windows -/

/-- Whether `wm_user_flush` does anything for a window. -/
def Window.flushable (win : Window) : Bool := win.user && win.userBuf && win.userCbuf

/-- Whether a flush changes the size of the content. -/
def Window.pending (win : Window) : Prop :=
  0 < win.userPendingW ∧ 0 < win.userPendingH ∧
    (win.userPendingW ≠ win.userBufW ∨ win.userPendingH ≠ win.userBufH)

instance (win : Window) : Decidable win.pending := inferInstanceAs (Decidable (_ ∧ _))

/-- `wm_user_flush`. -/
def Window.userFlush (win : Window) : Window :=
  if win.flushable = false then win
  else if win.pending then
    { win with
      userBufW := win.userPendingW
      userBufH := win.userPendingH
      userPendingW := 0
      userPendingH := 0 }
  else win

/-- The pixels of the two buffers that `wm_user_flush` copies, and those that it clears after a
size that grows. -/
def Window.flushIndex (win : Window) (i : ℤ) : Prop :=
  win.flushable = true ∧ 0 ≤ i ∧
    (i < area win.userBufW win.userBufH ∨
      win.pending ∧ area win.userBufW win.userBufH ≤ i ∧
        i < area win.userPendingW win.userPendingH)

/-- `fix_after_tile`. -/
def Window.fixAfterTile (win : Window) : Window :=
  let win := { win with w := max win.w minW, h := max win.h minH }
  let win := { win with savedX := win.x, savedY := win.y, savedW := win.w, savedH := win.h }
  win.resized

/-- A saved rectangle as `wm_restore_window` moves it into the screen. -/
def restored (screen : Screen) (rect : Rect) : Rect :=
  let w := max rect.w minW
  let h := max rect.h minH
  let x := max rect.x 0
  let y := max rect.y 0
  let x := if asInt screen.fbWidth < asInt (x + w) then asInt (asInt screen.fbWidth - w) else x
  let y := if asInt screen.fbHeight < asInt (y + h) then asInt (asInt screen.fbHeight - h) else y
  ⟨max x 0, y, w, h⟩

/-- `wm_restore_window`, without the keys. -/
def Window.restore (screen : Screen) (win : Window) : Window :=
  let rect := restored screen ⟨win.savedX, win.savedY, win.savedW, win.savedH⟩
  let win := { win with
    maximized := false
    minimized := false
    x := rect.x
    y := rect.y
    w := rect.w
    h := rect.h
    geomAnim := 1 }
  win.resized

/-- The part of the work area that a mode of `wm_maximize_window` gives. -/
def snapped (mode : ℤ) (area : Rect) : Rect :=
  match mode with
  | 2 => ⟨area.x, area.y, area.w.tdiv 2, area.h⟩
  | 3 => ⟨asInt (area.x + area.w.tdiv 2), area.y, asInt (area.w - area.w.tdiv 2), area.h⟩
  | 1 => ⟨area.x, area.y, area.w, area.h.tdiv 2⟩
  | 4 => ⟨area.x, asInt (area.y + area.h.tdiv 2), area.w, asInt (area.h - area.h.tdiv 2)⟩
  | _ => area

/-- `wm_maximize_window`, without the keys. -/
def Window.maximize (screen : Screen) (layoutSize mode : ℤ) (win : Window) : Window :=
  if screen.fbWidth = 0 ∨ screen.fbHeight = 0 then win
  else
    let win := if win.maximized then win.restore screen else win
    let rect := snapped mode (guiGetWorkArea screen layoutSize)
    let win := { win with
      savedX := win.x
      savedY := win.y
      savedW := win.w
      savedH := win.h
      x := rect.x
      y := rect.y
      w := max rect.w minW
      h := max rect.h minH
      maximized := true
      visible := true
      minimized := false
      geomAnim := 1 }
    win.resized

/-- `wm_toggle_maximize`, also `EIGEN_WIN_MAXIMIZE` and the clicks on a title bar. -/
def Window.toggleMaximize (screen : Screen) (layoutSize : ℤ) (win : Window) : Window :=
  if win.maximized then win.restore screen else win.maximize screen layoutSize 0

/-- `wm_minimize_window`. -/
def Window.minimize (win : Window) : Window :=
  if win.minimized then win
  else
    { win with
      savedX := win.x
      savedY := win.y
      savedW := win.w
      savedH := win.h
      geomAnim := 2 }

/-- The clamp of a position that is dragged. -/
def clampTo (low size extent pos : ℤ) : ℤ :=
  let pos := max pos low
  let top := asInt (low + size - extent)
  if top < pos then if 0 < top then top else low else pos

/-- A window that is dragged, in `wm_tick`. -/
def Window.drag (screen : Screen) (layoutSize : ℤ) (tiling held : Bool) (mx my : ℤ)
    (win : Window) : Window :=
  if win.dragging = false then win
  else if tiling ∨ held = false then { win with dragging := false }
  else
    let x := asInt (mx - win.dragOffsetX)
    let y := asInt (my - win.dragOffsetY)
    let win :=
      if win.maximized then
        { win with
          maximized := false
          w := win.savedW
          h := win.savedH
          dragOffsetX := asInt (mx - x)
          dragOffsetY := asInt (my - y) }
      else win
    let area := guiGetWorkArea screen layoutSize
    { win with x := clampTo area.x area.w win.w x, y := clampTo area.y area.h win.h y }

/-- A window that is resized, in `wm_tick`. -/
def Window.dragResize (screen : Screen) (layoutSize : ℤ) (tiling held : Bool) (mx my : ℤ)
    (win : Window) : Window :=
  if win.resizing = false then win
  else if tiling ∨ held = false then { win with resizing := false }
  else
    let win :=
      if win.maximized then
        { win with
          maximized := false
          x := win.savedX
          y := win.savedY
          w := win.savedW
          h := win.savedH
          dragOffsetX := asInt (mx - win.savedX)
          dragOffsetY := asInt (my - win.savedY) }
      else win
    let w := asInt (win.startW + asInt (mx - win.dragOffsetX))
    let h := asInt (win.startH + asInt (my - win.dragOffsetY))
    let win := { win with
      w := min (max w minW) (asInt screen.fbWidth)
      h := min (max h minH) (guiGetWorkArea screen layoutSize).h }
    win.resized

/-- `wm_user_free_buffer` and a slot that becomes free. -/
def Window.free (win : Window) : Window :=
  { win with
    id := -1
    visible := false
    dragging := false
    resizing := false
    minimized := false
    maximized := false
    closing := false
    floating := false
    user := false
    userBuf := false
    userCbuf := false
    userBufW := 0
    userBufH := 0 }

/-- `wm_close_window`: the window is freed at once, or marked. -/
def Window.close (win : Window) : Window :=
  if win.closing then win
  else if win.animType ≠ 0 ∧ win.maximized = false then { win with closing := true }
  else win.free

/-! ## Reading a buffer onto the screen -/

/-- The pixel of the buffer that `wm_blit_user_buffer` reads at one place of the screen. -/
def Window.blitIndex (screen : Screen) (win : Window) (rect : Rect) (r cc : ℤ) : Option ℤ :=
  let cx := asInt (rect.x + 1)
  let cy := asInt (rect.y + titlebarH + 1)
  let cw := asInt (rect.w - 2)
  let ch := asInt (rect.h - titlebarH - 2)
  let fw := asInt screen.fbWidth
  let fh := asInt screen.fbHeight
  let swPx := win.userBufW
  let shPx := win.userBufH
  if win.userCbuf = false ∨ swPx ≤ 0 ∨ shPx ≤ 0 ∨ cw ≤ 0 ∨ ch ≤ 0 then none
  else
    let sw := if cx < 0 then asInt (cw + cx) else cw
    let sx := max cx 0
    let sh := if cy < 0 then asInt (ch + cy) else ch
    let sy := max cy 0
    let sw := if fw < asInt (sx + sw) then asInt (fw - sx) else sw
    let sh := if fh < asInt (sy + sh) then asInt (fh - sy) else sh
    if sw ≤ 0 ∨ sh ≤ 0 ∨ ¬ (0 ≤ r ∧ r < sh ∧ 0 ≤ cc ∧ cc < sw) then none
    else if win.geomAnim ≠ 0 ∨ win.animType ≠ 0 ∨ cw ≠ swPx ∨ ch ≠ shPx then
      let srcY := (asInt (asInt (asInt (sy - cy) + r) * shPx)).tdiv ch
      let srcY := if srcY < 0 then 0 else srcY
      let srcY := if shPx ≤ srcY then shPx - 1 else srcY
      let srcX := (asInt (asInt (asInt (sx - cx) + cc) * swPx)).tdiv cw
      let srcX := if srcX < 0 then 0 else srcX
      let srcX := if swPx ≤ srcX then swPx - 1 else srcX
      some (asInt (asInt (srcY * swPx) + srcX))
    else
      let srcY := asInt (asInt (asInt (sy - cy) + win.viewY) + r)
      let srcX := asInt (asInt (asInt (sx - cx) + win.viewX) + cc)
      if 0 ≤ srcY ∧ srcY < shPx ∧ 0 ≤ srcX ∧ srcX < swPx then
        some (asInt (asInt (srcY * swPx) + srcX))
      else none

/-! ## The window table -/

structure Desktop where
  windows : Slot → Window
  nextWinId : ℤ
  tileEnabled : Bool
  openAnim : ℤ
  layoutSize : ℤ

/-- After `wm_init`, with the defaults of the settings. -/
def wmInit : Desktop where
  windows := fun _ => emptyWindow
  nextWinId := 1
  tileEnabled := false
  openAnim := 1
  layoutSize := 36

def Desktop.setWindow (s : Desktop) (i : Slot) (win : Window) : Desktop :=
  { s with windows := fun j => if j = i then win else s.windows j }

/-- The first slot with a given window number. -/
def Desktop.slotOf (s : Desktop) (id : ℤ) : Option Slot :=
  (List.finRange 8).find? fun i => (s.windows i).id = id

def findWindow (s : Desktop) (id : ℤ) : Option Slot := if id < 0 then none else s.slotOf id

/-- A function on the window with a number, if there is one. -/
def Desktop.onWindow (s : Desktop) (id : ℤ) (change : Window → Window) : Desktop :=
  match findWindow s id with
  | none => s
  | some i => s.setWindow i (change (s.windows i))

def Desktop.onAll (s : Desktop) (change : Window → Window) : Desktop :=
  { s with windows := fun i => change (s.windows i) }

/-- A window at its place in the tiling. -/
def Desktop.place (s : Desktop) (id : ℤ) (rect : Rect) : Desktop :=
  s.onWindow id fun win =>
    { win with x := rect.x, y := rect.y, w := rect.w, h := rect.h }.fixAfterTile

/-- The numbers of the windows that are tiled. -/
def Desktop.tiled (s : Desktop) : List ℤ :=
  ((List.finRange 8).filter fun i =>
    (s.windows i).visible && !(s.windows i).minimized && !(s.windows i).floating).map fun i =>
      (s.windows i).id

/-- `wm_tile_all`. -/
def wmTileAll (screen : Screen) (s : Desktop) : Desktop :=
  let area := guiGetWorkArea screen s.layoutSize
  let gap : ℤ := 4
  let ax := asInt (area.x + gap)
  let ay := asInt (area.y + gap)
  let aw := max (asInt (area.w - gap * 2)) 80
  let ah := max (asInt (area.h - gap * 2)) 80
  match s.tiled with
  | [] => s
  | [id] => s.place id ⟨ax, ay, aw, ah⟩
  | id :: stack =>
      let masterW := (asInt (aw * 55)).tdiv 100
      let stackX := asInt (ax + masterW + gap)
      let stackW := asInt (aw - masterW - gap)
      let stackH := (asInt (ah - gap * (stack.length - 1))).tdiv stack.length
      stack.zipIdx.foldl
        (fun s entry =>
          s.place entry.1 ⟨stackX, asInt (ay + entry.2 * (stackH + gap)), stackW, stackH⟩)
        (s.place id ⟨ax, ay, masterW, ah⟩)

/-- A tiling that is on lays out the windows anew. -/
def Desktop.retiled (screen : Screen) (s : Desktop) : Desktop :=
  if s.tileEnabled then wmTileAll screen s else s

/-- Where a new window of this size and position comes to lie. -/
def fitted (screen : Screen) (layoutSize : ℤ) (rect : Rect) : Rect :=
  let area := guiGetWorkArea screen layoutSize
  if 0 < area.h then
    let h := min rect.h (asInt (area.h - 8))
    let bottom := asInt (area.y + area.h - 4)
    let y := if bottom < asInt (rect.y + h) then asInt (bottom - h) else rect.y
    let y := max y area.y
    let x := max rect.x area.x
    let right := asInt (area.x + area.w)
    let x := if right < asInt (x + rect.w) then asInt (right - rect.w) else x
    ⟨x, y, rect.w, h⟩
  else rect

/-- The fields that both ways to open a window set. -/
def Window.opened (win : Window) (id animType : ℤ) (rect : Rect) : Window :=
  { win with
    id
    x := max rect.x 0
    y := rect.y
    w := rect.w
    h := rect.h
    viewX := 0
    viewY := 0
    savedX := rect.x
    savedY := rect.y
    savedW := rect.w
    savedH := rect.h
    visible := true
    dragging := false
    resizing := false
    minimized := false
    maximized := false
    closing := false
    floating := false
    animType }

/-- `wm_open_window`: a window of the kernel. -/
def wmOpenWindow (screen : Screen) (s : Desktop) (rect : Rect) : Desktop :=
  match s.slotOf (-1) with
  | none => s
  | some slot =>
      let rect := fitted screen s.layoutSize rect
      let win := (s.windows slot).opened s.nextWinId s.openAnim rect
      Desktop.retiled screen
        { s.setWindow slot { win with
            user := false
            contentW := rect.w
            contentH := asInt (rect.h - titlebarH) } with
          nextWinId := asInt (s.nextWinId + 1) }

/-- The content of a new ring-3 window. -/
def contentSize (rect : Rect) : ℤ × ℤ :=
  let bw := asInt (rect.w - 2)
  let bh := asInt (rect.h - titlebarH - 2)
  let size := if userWinMaxBuf < asUInt64 (area bw bh * 4) then scaleDown bw bh else (bw, bh)
  scaleDown (max size.1 1) (max size.2 1)

/-- `wm_open_window_user`, where `buffers` says which of the two buffers there is memory for. -/
def wmOpenWindowUser (screen : Screen) (s : Desktop) (rect : Rect) (buffers : Bool × Bool) :
    Desktop :=
  match s.slotOf (-1) with
  | none => s
  | some slot =>
      if buffers.1 = false ∨ buffers.2 = false then s
      else
        let rect := fitted screen s.layoutSize rect
        let size := contentSize rect
        let win := (s.windows slot).opened s.nextWinId s.openAnim rect
        Desktop.retiled screen
          { s.setWindow slot { win with
              user := true
              contentW := size.1
              contentH := size.2
              userBuf := true
              userCbuf := true
              userBufW := size.1
              userBufH := size.2 } with
            nextWinId := asInt (s.nextWinId + 1) }

/-- `EIGEN_WIN_CREATE`. -/
def winCreate (screen : Screen) (s : Desktop) (x y w h : UInt16) (buffers : Bool × Bool) :
    Desktop :=
  wmOpenWindowUser screen s
    ⟨x.toNat, y.toNat, min (max w.toNat 16) 2048, min (max h.toNat 24) 2048⟩ buffers

/-! ## Steps -/

inductive Action where
  | winCreate (x y w h : UInt16) (buffers : Bool × Bool)
  | openWindow (rect : Rect)
  | setTiling (on : Bool)
  | tileAll
  | maximize (id mode : ℤ)
  | restore (id : ℤ)
  | toggleMaximize (id : ℤ)
  | minimize (id : ℤ)
  | flush (id : ℤ)
  | close (id : ℤ)
  /-- The end of a close animation. -/
  | expire (i : Slot)
  /-- The end of another animation, after which a minimized window is hidden. -/
  | settle (i : Slot)
  | startDrag (i : Slot) (mx my : ℤ)
  | startResize (i : Slot) (mx my : ℤ)
  | drag (held : Bool) (mx my : ℤ)
  | scroll (i : Slot) (viewY : ℤ)
  | settings (layoutSize openAnim : ℤ)

def Window.settle (win : Window) : Window :=
  { win with minimized := win.minimized || win.geomAnim == 2, geomAnim := 0 }

def Window.startDrag (mx my : ℤ) (win : Window) : Window :=
  { win with
    dragging := true
    dragOffsetX := asInt (mx - win.x)
    dragOffsetY := asInt (my - win.y) }

def Window.startResize (mx my : ℤ) (win : Window) : Window :=
  { win with
    resizing := true
    startW := win.w
    startH := win.h
    dragOffsetX := mx
    dragOffsetY := my }

/-- The part of `wm_tick` for the windows that are dragged or resized. -/
def Desktop.dragAll (screen : Screen) (s : Desktop) (held : Bool) (mx my : ℤ) : Desktop :=
  s.onAll fun win =>
    if win.visible then
      (win.drag screen s.layoutSize s.tileEnabled held mx my).dragResize screen s.layoutSize
        s.tileEnabled held mx my
    else win

def act (screen : Screen) (s : Desktop) : Action → Desktop
  | .winCreate x y w h buffers => winCreate screen s x y w h buffers
  | .openWindow rect => wmOpenWindow screen s rect
  | .setTiling on => { s with tileEnabled := on }
  | .tileAll => wmTileAll screen s
  | .maximize id mode => s.onWindow id (Window.maximize screen s.layoutSize mode)
  | .restore id => s.onWindow id (Window.restore screen)
  | .toggleMaximize id => s.onWindow id (Window.toggleMaximize screen s.layoutSize)
  | .minimize id => s.onWindow id Window.minimize
  | .flush id => s.onWindow id Window.userFlush
  | .close id => s.onWindow id Window.close
  | .expire i =>
      if (s.windows i).closing then s.setWindow i (s.windows i).free else s
  | .settle i => s.setWindow i (s.windows i).settle
  | .startDrag i mx my => s.setWindow i ((s.windows i).startDrag mx my)
  | .startResize i mx my => s.setWindow i ((s.windows i).startResize mx my)
  | .drag held mx my => s.dragAll screen held mx my
  | .scroll i viewY => s.setWindow i { s.windows i with viewY }
  | .settings layoutSize openAnim => { s with layoutSize, openAnim }

end EigenOS.Gui.Sizes
