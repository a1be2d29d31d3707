import EigenOS.Gui.SizeBounds

/-!
# The layout of the tiling

`wm_tile_all` gives the left part of the work area to the first window and stacks the others on
the right.  A window that comes out lower than the smallest height is made that high, so that the
windows of a stack with too many of them reach into each other.
-/

namespace EigenOS.Gui.Sizes

open EigenOS.MachineInt

def Window.rect (win : Window) : Rect := ⟨win.x, win.y, win.w, win.h⟩

/-- No pixel is in both. -/
def Rect.Disjoint (a b : Rect) : Prop :=
  a.x + a.w ≤ b.x ∨ b.x + b.w ≤ a.x ∨ a.y + a.h ≤ b.y ∨ b.y + b.h ≤ a.y

theorem Rect.Disjoint.symm {a b : Rect} (h : a.Disjoint b) : b.Disjoint a := by
  rw [Rect.Disjoint] at h ⊢
  omega

structure Rect.Inside (a area : Rect) : Prop where
  left : area.x ≤ a.x
  top : area.y ≤ a.y
  right : a.x + a.w ≤ area.x + area.w
  bottom : a.y + a.h ≤ area.y + area.h

/-- The windows that `wm_tile_all` arranges. -/
def Window.arranged (win : Window) : Bool := win.visible && !win.minimized && !win.floating

/-- The windows that are shown have numbers of their own. -/
structure Desktop.Numbered (s : Desktop) : Prop where
  nonneg : ∀ i, (s.windows i).visible = true → 0 ≤ (s.windows i).id
  unique : ∀ i j, 0 ≤ (s.windows i).id → (s.windows i).id = (s.windows j).id → i = j

/-- The windows that are arranged lie beside each other in the work area. -/
structure LaidOut (screen : Screen) (s : Desktop) : Prop where
  inside : ∀ i, (s.windows i).arranged = true →
    ((wmTileAll screen s).windows i).rect.Inside (guiGetWorkArea screen s.layoutSize)
  disjoint : ∀ i j, (s.windows i).arranged = true → (s.windows j).arranged = true → i ≠ j →
    ((wmTileAll screen s).windows i).rect.Disjoint ((wmTileAll screen s).windows j).rect

/-- The height of a window of the stack, before it is made as high as the smallest one. -/
def stackHeight (area : Rect) (stack : ℕ) : ℤ := (area.h - 8 - 4 * (stack - 1)) / stack

/-- The top of the `k`-th window of the stack. -/
def stackTop (area : Rect) (stack k : ℕ) : ℤ :=
  area.y + 4 + k * (stackHeight area stack + 4)

/-- There is room for the stack, and the top of its last window is an `int`. -/
def StackFits (area : Rect) : ℕ → Prop
  | 0 => True
  | stack + 1 => 120 * stack + 4 ≤ area.h ∧ stackTop area stack (stack - 1) < 2 ^ 31

/-! ## The rectangles -/

theorem asInt_add_asInt (m n : ℤ) : asInt (asInt m + n) = asInt (m + n) := Int.bmod_add_bmod ..

def masterWidth (area : Rect) : ℤ := (area.w - 8) * 55 / 100

/-- The rectangle of the first window, beside a stack of so many others. -/
def masterTile (area : Rect) (stack : ℕ) : Rect :=
  ⟨4, asInt (area.y + 4), if stack = 0 then area.w - 8 else masterWidth area, area.h - 8⟩

/-- The rectangle of the `k`-th window of the stack. -/
def stackTile (area : Rect) (stack k : ℕ) : Rect :=
  ⟨masterWidth area + 8, asInt (stackTop area stack k), area.w - 12 - masterWidth area,
    max (stackHeight area stack) minH⟩

/-- The `k`-th of the rectangles. -/
def tile (area : Rect) (stack : ℕ) : ℕ → Rect
  | 0 => masterTile area stack
  | k + 1 => stackTile area stack k

/-- A work area of at least 640 by 480, on a screen that is there. -/
structure Rect.Roomy (area : Rect) : Prop where
  x : area.x = 0
  y : 16 ≤ area.y ∧ area.y < 2 ^ 31
  w : 640 ≤ area.w ∧ area.w < 2 ^ 20
  h : 480 ≤ area.h ∧ area.h < 2 ^ 31

section Tiles

variable {area : Rect} {stack : ℕ}

/-- The windows of a stack and the gaps between them are about as high as the work area. -/
theorem Rect.Roomy.stackHeight_bounds (h : area.Roomy) (hpos : 0 < stack) (hfew : stack ≤ 7) :
    0 < stackHeight area stack ∧
      stack * stackHeight area stack + 4 * (stack - 1) ≤ area.h - 8 ∧
      area.h - 8 < stack * stackHeight area stack + 4 * (stack - 1) + stack := by
  have hheight := h.h
  have hdiv := Int.mul_ediv_add_emod (area.h - 8 - 4 * (stack - 1)) stack
  have hmod := Int.emod_nonneg (area.h - 8 - 4 * (stack - 1)) (b := (stack : ℤ)) (by omega)
  have hlt := Int.emod_lt_of_pos (area.h - 8 - 4 * (stack - 1)) (b := (stack : ℤ)) (by omega)
  rw [← stackHeight] at hdiv
  refine ⟨?_, by omega, by omega⟩
  by_contra hnot
  have hnonpos : stack * stackHeight area stack ≤ 0 :=
    Int.mul_nonpos_of_nonneg_of_nonpos (by omega) (by omega)
  omega

theorem stackTop_mono (h : area.Roomy) (hfew : stack ≤ 7) {k l : ℕ} (hkl : k < l) (hl : l < stack) :
    stackTop area stack k + (stackHeight area stack + 4) ≤ stackTop area stack l := by
  have hheight := (h.stackHeight_bounds (Nat.zero_lt_of_lt hl) hfew).1
  have hstep : ((k : ℤ) + 1) * (stackHeight area stack + 4) ≤ l * (stackHeight area stack + 4) :=
    Int.mul_le_mul_of_nonneg_right (by omega) (by omega)
  rw [stackTop, stackTop]
  rw [Int.add_mul, Int.one_mul] at hstep
  omega

/-- The last window of the stack ends where the first window does, or a little above. -/
theorem stackTop_last (h : area.Roomy) (hpos : 0 < stack) (hfew : stack ≤ 7) :
    stackTop area stack (stack - 1) + stackHeight area stack ≤ area.y + area.h - 4 := by
  have hheight := (h.stackHeight_bounds hpos hfew).2.1
  obtain ⟨k, rfl⟩ := Nat.exists_eq_add_one_of_ne_zero hpos.ne'
  rw [stackTop, Nat.add_sub_cancel]
  push_cast at hheight
  rw [Int.add_mul, Int.one_mul] at hheight
  rw [Int.mul_add]
  omega

theorem stackFits_height_iff (h : area.Roomy) (hpos : 0 < stack) (hfew : stack ≤ 7) :
    120 * stack + 4 ≤ area.h ↔ 116 ≤ stackHeight area stack := by
  obtain ⟨-, hlow, hhigh⟩ := h.stackHeight_bounds hpos hfew
  constructor
  · intro hroom
    by_contra hlt
    have hsmall : stack * stackHeight area stack ≤ stack * 115 :=
      Int.mul_le_mul_of_nonneg_left (by omega) (by omega)
    omega
  · intro hlarge
    have hstack : stack * 116 ≤ stack * stackHeight area stack :=
      Int.mul_le_mul_of_nonneg_left hlarge (by omega)
    omega

theorem masterWidth_bounds (h : area.Roomy) :
    minW ≤ masterWidth area ∧ masterWidth area + 12 + minW ≤ area.w := by
  have hwidth := h.w
  have hmin : minW = 200 := rfl
  rw [masterWidth]
  omega

theorem asInt_stackTop (h : area.Roomy) (hfew : stack ≤ 7) {k : ℕ} (hk : k < stack)
    (hlast : stackTop area stack (stack - 1) < 2 ^ 31) :
    asInt (stackTop area stack k) = stackTop area stack k ∧
      stackTop area stack k ≤ stackTop area stack (stack - 1) ∧
      area.y + 4 ≤ stackTop area stack k := by
  have hy := h.y
  have hheight := (h.stackHeight_bounds (Nat.zero_lt_of_lt hk) hfew).1
  have hnonneg : 0 ≤ (k : ℤ) * (stackHeight area stack + 4) :=
    Int.mul_nonneg (by omega) (by omega)
  have hle : stackTop area stack k ≤ stackTop area stack (stack - 1) := by
    by_cases hkl : k = stack - 1
    · rw [hkl]
    · have hmono := stackTop_mono h hfew (l := stack - 1) (by omega : k < stack - 1) (by omega)
      omega
  have hlow : area.y + 4 ≤ stackTop area stack k := by
    rw [stackTop]
    omega
  exact ⟨asInt_eq (by omega) (by omega), hle, hlow⟩

theorem stackFits_of_tiles (h : area.Roomy) (hfew : stack ≤ 7)
    (hinside : ∀ k ≤ stack, (tile area stack k).Inside area)
    (hdisjoint : ∀ k ≤ stack, ∀ l ≤ stack, k ≠ l →
      (tile area stack k).Disjoint (tile area stack l)) : StackFits area (stack + 1) := by
  have hy := h.y
  have hheight := h.h
  by_cases hpos : stack = 0
  · subst hpos
    have htop := (hinside 0 le_rfl).top
    change area.y ≤ asInt (area.y + 4) at htop
    have hbounds := asInt_bounds (area.y + 4)
    have hwrap : ¬ 2 ^ 31 ≤ area.y + 4 := by
      intro hlarge
      rw [asInt_of_le hlarge (by omega)] at htop
      omega
    rw [StackFits, stackTop]
    push_cast
    omega
  · have hbelow := stackTop_last h (Nat.pos_of_ne_zero hpos) hfew
    have hsmall := (h.stackHeight_bounds (Nat.pos_of_ne_zero hpos) hfew).1
    have hlast : stackTop area stack (stack - 1) < 2 ^ 31 := by
      by_contra hlarge
      have htop := (hinside (stack - 1 + 1) (by omega)).top
      change area.y ≤ asInt (stackTop area stack (stack - 1)) at htop
      rw [asInt_of_le (by omega) (by omega)] at htop
      omega
    refine ⟨(stackFits_height_iff h (Nat.pos_of_ne_zero hpos) hfew).mpr ?_, hlast⟩
    by_cases hone : stack = 1
    · have hroom : stackHeight area stack = area.h - 8 := by
        rw [hone, stackHeight]
        push_cast
        omega
      omega
    · have hfirst := asInt_stackTop h hfew (by omega : 0 < stack) hlast
      have hsecond := asInt_stackTop h hfew (by omega : 1 < stack) hlast
      have hmin : minH = 120 := rfl
      have hwidth := masterWidth_bounds h
      have hminW : minW = 200 := rfl
      have hstep : stackTop area stack 1 = stackTop area stack 0 + (stackHeight area stack + 4) := by
        rw [stackTop, stackTop]
        push_cast
        omega
      have happart := hdisjoint 1 (by omega) 2 (by omega) (by decide)
      rw [Rect.Disjoint, tile, tile, stackTile, stackTile, hfirst.1, hsecond.1] at happart
      dsimp only at happart
      omega

theorem tiles_of_stackFits (h : area.Roomy) (hfew : stack ≤ 7)
    (hfits : StackFits area (stack + 1)) :
    (∀ k ≤ stack, (tile area stack k).Inside area) ∧
      ∀ k ≤ stack, ∀ l ≤ stack, k < l → (tile area stack k).Disjoint (tile area stack l) := by
  have hx := h.x
  have hy := h.y
  have hheight := h.h
  have hwidth := masterWidth_bounds h
  have hmin : minH = 120 ∧ minW = 200 := ⟨rfl, rfl⟩
  have hmaster : (tile area stack 0).Inside area := by
    have htop : area.y + 4 < 2 ^ 31 := by
      have hlast := hfits.2
      have hnonneg : 0 ≤ ((stack - 1 : ℕ) : ℤ) * (stackHeight area stack + 4) := by
        by_cases hpos : stack = 0
        · rw [hpos]
          exact (Int.zero_mul _).symm.le
        · have := (h.stackHeight_bounds (Nat.pos_of_ne_zero hpos) hfew).1
          exact Int.mul_nonneg (by omega) (by omega)
      rw [stackTop] at hlast
      omega
    rw [tile, masterTile, asInt_eq (by omega) htop]
    constructor <;> dsimp only
    · omega
    · omega
    · split <;> omega
    · omega
  have hstack : ∀ k < stack, (stackTile area stack k).Inside area := by
    intro k hk
    have htall := (stackFits_height_iff h (Nat.zero_lt_of_lt hk) hfew).mp hfits.1
    have hlast := stackTop_last h (Nat.zero_lt_of_lt hk) hfew
    obtain ⟨htop, hle, hge⟩ := asInt_stackTop h hfew hk hfits.2
    rw [stackTile, htop]
    constructor <;> dsimp only <;> omega
  constructor
  · intro k hk
    cases k with
    | zero => exact hmaster
    | succ k => exact hstack k hk
  · intro k hk l hl hkl
    cases l with
    | zero => exact absurd hkl (Nat.not_lt_zero k)
    | succ l =>
        cases k with
        | zero =>
            refine .inl ?_
            rw [tile, tile, masterTile, stackTile]
            dsimp only
            rw [if_neg (by omega)]
            omega
        | succ k =>
            have htall := (stackFits_height_iff h (by omega) hfew).mp hfits.1
            have hmono := stackTop_mono h hfew (by omega : k < l) hl
            have hupper := (asInt_stackTop h hfew hk hfits.2).1
            have hlower := (asInt_stackTop h hfew hl hfits.2).1
            refine .inr (.inr (.inl ?_))
            rw [tile, tile, stackTile, stackTile, hupper, hlower]
            dsimp only
            omega

end Tiles

/-! ## Placing the windows -/

theorem rect_resized (win : Window) : win.resized.rect = win.rect := by
  rw [Window.resized]
  dsimp only
  split <;> rfl

theorem id_resized (win : Window) : win.resized.id = win.id := by
  rw [Window.resized]
  dsimp only
  split <;> rfl

theorem rect_fixAfterTile (win : Window) :
    win.fixAfterTile.rect = ⟨win.x, win.y, max win.w minW, max win.h minH⟩ :=
  rect_resized _

/-- What `find_window` finds depends on the numbers alone. -/
def Desktop.ids (s : Desktop) (i : Slot) : ℤ := (s.windows i).id

theorem findWindow_congr {s s' : Desktop} (h : s'.ids = s.ids) (id : ℤ) :
    findWindow s' id = findWindow s id := by
  change (if id < 0 then none else (List.finRange 8).find? fun i => decide (s'.ids i = id)) = _
  rw [h]
  rfl

theorem Desktop.Numbered.findWindow {s : Desktop} (h : s.Numbered) {i : Slot}
    (hvisible : (s.windows i).visible = true) : findWindow s (s.ids i) = some i := by
  have hnonneg : 0 ≤ s.ids i := h.nonneg i hvisible
  rw [Sizes.findWindow, if_neg (not_lt.mpr hnonneg), Desktop.slotOf]
  cases hfind : (List.finRange 8).find? fun j => decide ((s.windows j).id = s.ids i) with
  | none =>
      have hnone := List.find?_eq_none.mp hfind i (List.mem_finRange i)
      exact absurd (decide_eq_true rfl) hnone
  | some j =>
      have hsame : s.ids j = s.ids i :=
        of_decide_eq_true (List.find?_some (p := fun j => decide ((s.windows j).id = s.ids i)) hfind)
      exact congrArg some (h.unique i j hnonneg hsame.symm).symm

section Place

variable {s : Desktop} {i : Slot} {id : ℤ}

theorem windows_place (hfind : findWindow s id = some i) (rect : Rect) (j : Slot) :
    (s.place id rect).windows j =
      if j = i then
        { s.windows i with x := rect.x, y := rect.y, w := rect.w, h := rect.h }.fixAfterTile
      else s.windows j := by
  rw [Desktop.place, Desktop.onWindow, hfind]
  rfl

theorem ids_place (hfind : findWindow s id = some i) (rect : Rect) :
    (s.place id rect).ids = s.ids := by
  funext j
  rw [Desktop.ids, Desktop.ids, windows_place hfind]
  by_cases hj : j = i
  · rw [if_pos hj, hj]
    exact id_resized _
  · rw [if_neg hj]

/-- Windows that are placed one after another; the place may depend on the position in the list. -/
def Desktop.placeAll (s : Desktop) (rect : ℕ → Rect) (ids : List ℤ) (k : ℕ) : Desktop :=
  (ids.zipIdx k).foldl (fun s entry => s.place entry.1 (rect entry.2)) s

theorem placeAll_cons (s : Desktop) (rect : ℕ → Rect) (id : ℤ) (ids : List ℤ) (k : ℕ) :
    s.placeAll rect (id :: ids) k = (s.place id (rect k)).placeAll rect ids (k + 1) := rfl

theorem windows_placeAll_of_not_mem {slots : List Slot} {ids : Slot → ℤ} (hids : s.ids = ids)
    (hfind : ∀ i ∈ slots, findWindow s (ids i) = some i) (rect : ℕ → Rect) (k : ℕ) {j : Slot}
    (hj : j ∉ slots) : (s.placeAll rect (slots.map ids) k).windows j = s.windows j := by
  induction slots generalizing s k with
  | nil => rfl
  | cons i slots ih =>
      have hhead := hfind i List.mem_cons_self
      have hsame := ids_place hhead (rect k)
      rw [List.map_cons, placeAll_cons, ih (hsame.trans hids)
        (fun l hl => (findWindow_congr hsame _).trans (hfind l (List.mem_cons_of_mem _ hl)))
        (k + 1) (fun hmem => hj (List.mem_cons_of_mem _ hmem)), windows_place hhead,
        if_neg (List.ne_of_not_mem_cons hj)]

theorem rect_placeAll {slots : List Slot} {ids : Slot → ℤ} (hids : s.ids = ids)
    (hfind : ∀ i ∈ slots, findWindow s (ids i) = some i) (hnodup : slots.Nodup) (rect : ℕ → Rect)
    (k : ℕ) {p : ℕ} (hp : p < slots.length) :
    ((s.placeAll rect (slots.map ids) k).windows slots[p]).rect =
      ⟨(rect (k + p)).x, (rect (k + p)).y, max (rect (k + p)).w minW,
        max (rect (k + p)).h minH⟩ := by
  induction slots generalizing s k p with
  | nil => exact absurd hp (Nat.not_lt_zero p)
  | cons i slots ih =>
      obtain ⟨hnotMem, hnodup⟩ := List.nodup_cons.mp hnodup
      have hhead := hfind i List.mem_cons_self
      have hsame := ids_place hhead (rect k)
      have hrest := fun l (hl : l ∈ slots) =>
        (findWindow_congr hsame _).trans (hfind l (List.mem_cons_of_mem _ hl))
      rw [List.map_cons, placeAll_cons]
      cases p with
      | zero =>
          rw [List.getElem_cons_zero,
            windows_placeAll_of_not_mem (hsame.trans hids) hrest rect (k + 1) hnotMem,
            windows_place hhead, if_pos rfl, rect_fixAfterTile]
          rfl
      | succ p =>
          rw [List.getElem_cons_succ,
            ih (hsame.trans hids) hrest hnodup (k + 1) (Nat.lt_of_succ_lt_succ hp),
            Nat.add_right_comm]
          rfl

end Place

/-! ## The tiling -/

/-- The slots of the windows that are arranged. -/
def Desktop.arrangedSlots (s : Desktop) : List Slot :=
  (List.finRange 8).filter fun i => (s.windows i).arranged

section Tiling

variable {screen : Screen} {s : Desktop} {area : Rect}

theorem mem_arrangedSlots {i : Slot} : i ∈ s.arrangedSlots ↔ (s.windows i).arranged = true := by
  rw [Desktop.arrangedSlots, List.mem_filter]
  exact and_iff_right (List.mem_finRange i)

theorem nodup_arrangedSlots (s : Desktop) : s.arrangedSlots.Nodup :=
  (List.nodup_finRange 8).filter _

theorem length_arrangedSlots_le (s : Desktop) : s.arrangedSlots.length ≤ 8 :=
  (List.length_filter_le _ _).trans (List.length_finRange).le

theorem Rect.Roomy.inner (h : area.Roomy) :
    max (asInt (area.w - 4 * 2)) 80 = area.w - 8 ∧ max (asInt (area.h - 4 * 2)) 80 = area.h - 8 := by
  obtain ⟨-, -, hw, hh⟩ := h
  rw [asInt_eq (n := area.w - 4 * 2) (by omega) (by omega),
    asInt_eq (n := area.h - 4 * 2) (by omega) (by omega)]
  omega

theorem wmTileAll_single (h : (guiGetWorkArea screen s.layoutSize).Roomy) {id : ℤ}
    (htiled : s.tiled = [id]) : wmTileAll screen s =
      s.place id (masterTile (guiGetWorkArea screen s.layoutSize) 0) := by
  rw [wmTileAll, htiled]
  dsimp only
  generalize guiGetWorkArea screen s.layoutSize = area at h
  rw [h.inner.1, h.inner.2, h.x]
  rfl

/-- The rectangle that a window of the stack is placed at. -/
def stackSlot (area : Rect) (stack k : ℕ) : Rect :=
  ⟨masterWidth area + 8, asInt (stackTop area stack k), area.w - 12 - masterWidth area,
    stackHeight area stack⟩

theorem wmTileAll_stack (h : (guiGetWorkArea screen s.layoutSize).Roomy) {id next : ℤ}
    {ids : List ℤ} (hfew : (next :: ids).length ≤ 7) (htiled : s.tiled = id :: next :: ids) :
    wmTileAll screen s =
      (s.place id (masterTile (guiGetWorkArea screen s.layoutSize) (next :: ids).length)).placeAll
        (stackSlot (guiGetWorkArea screen s.layoutSize) (next :: ids).length) (next :: ids) 0 := by
  rw [wmTileAll, htiled]
  dsimp only
  generalize guiGetWorkArea screen s.layoutSize = area at h
  have hpos : 0 < (next :: ids).length := Nat.zero_lt_succ _
  generalize hstack : (next :: ids).length = stack at hfew hpos
  have hy := h.y
  have hw := h.w
  have hh := h.h
  have hmaster : (asInt ((area.w - 8) * 55)).tdiv 100 = masterWidth area := by
    rw [asInt_eq (by omega) (by omega)]
    exact Int.tdiv_eq_ediv_of_nonneg (by omega)
  have hheight : (asInt (area.h - 8 - 4 * (stack - 1))).tdiv stack = stackHeight area stack := by
    rw [asInt_eq (by omega) (by omega)]
    exact Int.tdiv_eq_ediv_of_nonneg (by omega)
  have hbounds := masterWidth_bounds h
  have hmin : minW = 200 := rfl
  have hleft : asInt (asInt (area.x + 4) + masterWidth area + 4) = masterWidth area + 8 := by
    rw [h.x, asInt_eq (n := 0 + 4) (by omega) (by omega), asInt_eq (by omega) (by omega)]
    omega
  have hwidth : asInt (area.w - 8 - masterWidth area - 4) = area.w - 12 - masterWidth area := by
    rw [asInt_eq (by omega) (by omega)]
    omega
  rw [h.inner.1, h.inner.2, hmaster, hheight, hleft, hwidth, Desktop.placeAll, masterTile,
    if_neg hpos.ne', h.x]
  congr 1
  funext s entry
  rw [stackSlot, stackTop, asInt_add_asInt]

theorem tiled_eq (s : Desktop) : s.tiled = s.arrangedSlots.map s.ids := rfl

theorem rect_wmTileAll (hnumbered : s.Numbered) (h : (guiGetWorkArea screen s.layoutSize).Roomy)
    {k : ℕ} (hk : k < s.arrangedSlots.length) :
    ((wmTileAll screen s).windows s.arrangedSlots[k]).rect =
      tile (guiGetWorkArea screen s.layoutSize) (s.arrangedSlots.length - 1) k := by
  have hfind : ∀ i ∈ s.arrangedSlots, findWindow s (s.ids i) = some i := fun i hi =>
    hnumbered.findWindow (by
      have harranged := mem_arrangedSlots.mp hi
      rw [Window.arranged, Bool.and_assoc] at harranged
      exact (Bool.and_eq_true_iff.mp harranged).1)
  have hfew := length_arrangedSlots_le s
  have hnodup := nodup_arrangedSlots s
  have htiled := tiled_eq s
  have hw := h.w
  have hh := h.h
  have hbounds := masterWidth_bounds h
  have hmin : minW = 200 ∧ minH = 120 := ⟨rfl, rfl⟩
  generalize s.arrangedSlots = slots at *
  obtain _ | ⟨first, _ | ⟨next, rest⟩⟩ := slots
  · exact absurd hk (Nat.not_lt_zero k)
  · have hzero : k = 0 := Nat.lt_one_iff.mp hk
    subst hzero
    rw [wmTileAll_single h htiled, List.getElem_cons_zero,
      windows_place (hfind first List.mem_cons_self), if_pos rfl, rect_fixAfterTile]
    change Rect.mk _ _ (max (_ - 8) minW) (max (_ - 8) minH) = _
    rw [max_eq_left (by omega), max_eq_left (by omega)]
    rfl
  · have hhead := hfind first List.mem_cons_self
    have hsame := ids_place hhead
      (masterTile (guiGetWorkArea screen s.layoutSize) (next :: rest).length)
    have hrest : ∀ i ∈ next :: rest, findWindow (s.place (s.ids first)
        (masterTile (guiGetWorkArea screen s.layoutSize) (next :: rest).length)) (s.ids i) = some i :=
      fun i hi => (findWindow_congr hsame _).trans (hfind i (List.mem_cons_of_mem _ hi))
    have hlength : (s.ids next :: rest.map s.ids).length = (next :: rest).length := by
      rw [← List.map_cons, List.length_map]
    rw [List.length_cons] at hfew
    rw [wmTileAll_stack h (hlength ▸ Nat.le_of_succ_le_succ hfew) htiled, hlength,
      ← List.map_cons]
    cases k with
    | zero =>
        rw [List.getElem_cons_zero,
          windows_placeAll_of_not_mem hsame hrest _ 0 (List.nodup_cons.mp hnodup).1,
          windows_place hhead, if_pos rfl, rect_fixAfterTile]
        change Rect.mk _ _ (max (masterWidth _) minW) (max (_ - 8) minH) = _
        rw [max_eq_left hbounds.1, max_eq_left (by omega)]
        rfl
    | succ k =>
        rw [List.getElem_cons_succ,
          rect_placeAll hsame hrest (List.nodup_cons.mp hnodup).2 _ 0 (Nat.lt_of_succ_lt_succ hk),
          Nat.zero_add]
        change Rect.mk _ _ (max (_ - 12 - masterWidth _) minW) _ = _
        rw [max_eq_left (by omega)]
        rfl

theorem guiGetWorkArea_roomy {layoutSize : ℤ} (hsize : layoutSize < 2 ^ 31)
    (hwidth : 640 ≤ (guiGetWorkArea screen layoutSize).w)
    (hheight : 480 ≤ (guiGetWorkArea screen layoutSize).h) :
    (guiGetWorkArea screen layoutSize).Roomy where
  x := rfl
  y := by
    change 16 ≤ asInt (0 + if layoutSize < 16 then 16 else layoutSize) ∧
      asInt (0 + if layoutSize < 16 then 16 else layoutSize) < 2 ^ 31
    rw [asInt_eq (by split <;> omega) (by split <;> omega)]
    split <;> omega
  w := ⟨hwidth, (guiGetWorkArea_width screen layoutSize).2⟩
  h := ⟨hheight, (asInt_bounds _).2⟩

/-- The windows that are arranged are disjoint and inside the work area exactly if there is room
for the stack. -/
theorem laidOut_iff (hnumbered : s.Numbered) (hsize : s.layoutSize < 2 ^ 31)
    (hwidth : 640 ≤ (guiGetWorkArea screen s.layoutSize).w)
    (hheight : 480 ≤ (guiGetWorkArea screen s.layoutSize).h) :
    LaidOut screen s ↔
      StackFits (guiGetWorkArea screen s.layoutSize) s.arrangedSlots.length := by
  have hroomy := guiGetWorkArea_roomy hsize hwidth hheight
  have hrect := fun k (hk : k < s.arrangedSlots.length) => rect_wmTileAll hnumbered hroomy hk
  have hmem := fun i => mem_arrangedSlots (s := s) (i := i)
  have hnodup := nodup_arrangedSlots s
  have hfew := length_arrangedSlots_le s
  generalize s.arrangedSlots = slots at *
  obtain _ | ⟨first, rest⟩ := slots
  · refine iff_of_true ⟨fun i hi => ?_, fun i j hi => ?_⟩ trivial
    · exact absurd ((hmem i).mpr hi) List.not_mem_nil
    · exact absurd ((hmem i).mpr hi) List.not_mem_nil
  · rw [List.length_cons] at hfew ⊢
    change ∀ k (hk : k < rest.length + 1), _ = tile _ rest.length k at hrect
    constructor
    · intro h
      refine stackFits_of_tiles hroomy (Nat.le_of_succ_le_succ hfew) (fun k hk => ?_)
        fun k hk l hl hne => ?_
      · rw [← hrect k (Nat.lt_succ_of_le hk)]
        exact h.inside _ ((hmem _).mp (List.getElem_mem _))
      · rw [← hrect k (Nat.lt_succ_of_le hk), ← hrect l (Nat.lt_succ_of_le hl)]
        exact h.disjoint _ _ ((hmem _).mp (List.getElem_mem _)) ((hmem _).mp (List.getElem_mem _))
          fun heq => hne (hnodup.getElem_inj_iff.mp heq)
    · intro hfits
      obtain ⟨hinside, hdisjoint⟩ := tiles_of_stackFits hroomy (Nat.le_of_succ_le_succ hfew) hfits
      constructor
      · intro i hi
        obtain ⟨k, hk, rfl⟩ := List.getElem_of_mem ((hmem i).mpr hi)
        rw [hrect k hk]
        exact hinside k (Nat.le_of_lt_succ hk)
      · intro i j hi hj hne
        obtain ⟨k, hk, rfl⟩ := List.getElem_of_mem ((hmem i).mpr hi)
        obtain ⟨l, hl, rfl⟩ := List.getElem_of_mem ((hmem j).mpr hj)
        rw [hrect k hk, hrect l hl]
        have hkl : k ≠ l := fun heq => hne (by subst heq; rfl)
        rcases Nat.lt_or_gt_of_ne hkl with hlt | hlt
        · exact hdisjoint k (Nat.le_of_lt_succ hk) l (Nat.le_of_lt_succ hl) hlt
        · exact (hdisjoint l (Nat.le_of_lt_succ hl) k (Nat.le_of_lt_succ hk) hlt).symm

end Tiling

/-- A screen of 640 by 516 pixels, of which the bar at the top takes 36. -/
def smallScreen : Screen where
  fbWidth := 640
  fbHeight := 516
  width_nonneg := by decide
  width_lt := by decide
  height_nonneg := by decide
  height_lt := by decide

/-- So many windows that are opened one after another. -/
def openWindows (n : ℕ) : Desktop :=
  (List.replicate n (Action.openWindow ⟨100, 100, 300, 200⟩)).foldl (act smallScreen) wmInit

theorem laidOut_fourWindows : LaidOut smallScreen (openWindows 4) :=
  (laidOut_iff ⟨by decide, by decide⟩ (by decide) (by decide) (by decide)).mpr
    ⟨by decide, by decide⟩

/-- Of five windows, the second and the third reach into each other. -/
theorem not_laidOut_fiveWindows : ¬ LaidOut smallScreen (openWindows 5) := by
  intro h
  have happart := h.disjoint 1 2 (by decide) (by decide) (by decide)
  rw [Rect.Disjoint] at happart
  exact absurd happart (by decide)

end EigenOS.Gui.Sizes
