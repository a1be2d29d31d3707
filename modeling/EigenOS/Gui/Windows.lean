import Mathlib.Data.List.FinRange
import EigenOS.Memory.KernelHeap

/-!
# Windows of ring-3 programs

The window table with the buffers that programs draw into.  A buffer is kernel heap memory;
`wm_open_window_user` maps it page by page into the address space of the task that opens the
window.  Of a window, only what decides on its buffer is here.
-/

namespace EigenOS.Gui

open EigenOS.Memory

abbrev Slot := Fin 8

abbrev AddressSpace := ℕ

/-- `USER_WIN_MAX_BUF`. -/
def userWinMaxBuf : ℕ := 0x400000

/-- The pages of a buffer. -/
def userWinPages : ℕ := 1024

/-- `OPEN_ANIM_MS`. -/
def openAnimMs : ℤ := 300

structure Window where
  id : ℤ
  /-- `WM_FLAG_USER`. -/
  user : Bool
  /-- `WM_FLAG_CLOSING`. -/
  closing : Bool
  /-- One of the three flags of a maximized window. -/
  maximized : Bool
  /-- `anim_type` is not `WM_ANIM_NONE`. -/
  animated : Bool
  closeMs : BitVec 32
  userBuf : ℕ
  userCbuf : ℕ
  userPid : ℕ

/-- A task by its number, which is never used again. -/
structure Task where
  space : AddressSpace
  dead : Bool

/-- The window table, the kernel heap, what each address space maps in its window area, and
the tasks.  The rest of the kernel holds pointers that it has from `kmalloc`. -/
structure Desktop where
  windows : Slot → Window
  nextWinId : ℤ
  openAnim : Bool
  heap : KernelHeap
  held : List ℕ
  maps : AddressSpace → Slot → ℕ → Option ℕ
  task : ℕ → Option Task
  nextTaskId : ℕ
  nextSpace : AddressSpace

def emptyWindow : Window where
  id := -1
  user := false
  closing := false
  maximized := false
  animated := false
  closeMs := 0
  userBuf := 0
  userCbuf := 0
  userPid := 0

/-- After `wm_init`, with no user task yet. -/
def wmInit (heap : ℕ) : Desktop where
  windows := fun _ => emptyWindow
  nextWinId := 1
  openAnim := true
  heap := kheapInit heap
  held := []
  maps := fun _ _ _ => none
  task := fun _ => none
  nextTaskId := 1
  nextSpace := 0

def Desktop.setWindow (s : Desktop) (i : Slot) (win : Window) : Desktop :=
  { s with windows := fun j => if j = i then win else s.windows j }

/-- The first slot with a given window number. -/
def Desktop.slotOf (s : Desktop) (id : ℤ) : Option Slot :=
  (List.finRange 8).find? fun i => (s.windows i).id = id

def findWindow (s : Desktop) (id : ℤ) : Option Slot := if id < 0 then none else s.slotOf id

/-- The frame behind a page of kernel memory, which `vmm_get_phys` tells; none at 0. -/
def frameOf (vmmGetPhys : ℕ → ℕ) (addr : ℕ) : Option ℕ :=
  if vmmGetPhys addr = 0 then none else some (vmmGetPhys addr / 4096 * 4096)

/-- The window area of a slot after its buffer has been mapped.  A page stays as it is when it
has no frame or `vmm_map_range` finds no frame for a table. -/
def mapBuffer (vmmGetPhys : ℕ → ℕ) (buf : ℕ) (tables : ℕ → Bool) (area : ℕ → Option ℕ) (k : ℕ) :
    Option ℕ :=
  if k < userWinPages ∧ tables k then (frameOf vmmGetPhys (buf + 4096 * k)).or (area k)
  else area k

/-- `wm_open_window_user`, called by a task. -/
def wmOpenWindowUser (vmmGetPhys : ℕ → ℕ) (s : Desktop) (pid : ℕ) (space : AddressSpace)
    (tables : ℕ → Bool) : Desktop :=
  match s.slotOf (-1) with
  | none => s
  | some slot =>
    match kmallocAligned s.heap userWinMaxBuf 4096 with
    | none => s
    | some (buf, heap) =>
      match kmallocAligned heap userWinMaxBuf 4096 with
      | none => { s with heap := kfreeAligned heap buf }
      | some (cbuf, heap) =>
        { s.setWindow slot
            { s.windows slot with
              id := s.nextWinId
              user := true
              closing := false
              maximized := false
              animated := s.openAnim
              userBuf := buf
              userCbuf := cbuf
              userPid := pid } with
          nextWinId := s.nextWinId + 1
          heap := heap
          maps := fun p i =>
            if p = space ∧ i = slot then mapBuffer vmmGetPhys buf tables (s.maps p i)
            else s.maps p i }

/-- `wm_open_window`: a window of the kernel. -/
def wmOpenWindow (s : Desktop) : Desktop :=
  match s.slotOf (-1) with
  | none => s
  | some slot =>
      { s.setWindow slot
          { s.windows slot with
            id := s.nextWinId
            user := false
            closing := false
            maximized := false
            animated := s.openAnim } with
        nextWinId := s.nextWinId + 1 }

/-- `wm_user_free_buffer`. -/
def wmUserFreeBuffer (s : Desktop) (i : Slot) : Desktop :=
  { s.setWindow i { s.windows i with userBuf := 0, userCbuf := 0 } with
    heap := kfreeAligned (kfreeAligned s.heap (s.windows i).userBuf) (s.windows i).userCbuf }

/-- The end of a window. -/
def freeWindow (s : Desktop) (i : Slot) : Desktop :=
  (wmUserFreeBuffer s i).setWindow i
    { s.windows i with
      id := -1
      user := false
      closing := false
      maximized := false
      userBuf := 0
      userCbuf := 0 }

def Window.closesAtOnce (win : Window) : Bool := ! win.animated || win.maximized

def wmCloseWindow (s : Desktop) (id : ℤ) (now : BitVec 32) : Desktop :=
  match findWindow s id with
  | none => s
  | some i =>
      if (s.windows i).closing then s
      else if (s.windows i).closesAtOnce then freeWindow s i
      else s.setWindow i { s.windows i with closing := true, closeMs := now }

/-- The animation of a window that is closed has ended. -/
def Window.expired (win : Window) (now : BitVec 32) : Bool :=
  win.closing && decide (openAnimMs ≤ (now - win.closeMs).toInt)

/-- The part of `wm_tick` that frees the windows whose animation has ended. -/
def wmTick (s : Desktop) (now : BitVec 32) : Desktop :=
  (List.finRange 8).foldl
    (fun s i => if (s.windows i).expired now then freeWindow s i else s) s

/-- `get_task_by_id` finds no task, or a dead one. -/
def Desktop.isDead (s : Desktop) (pid : ℕ) : Bool :=
  match s.task pid with
  | none => true
  | some task => task.dead

/-- A window whose task is dead. -/
def Desktop.orphan (s : Desktop) (i : Slot) : Bool :=
  (s.windows i).id != -1 && (s.windows i).user && decide (0 < (s.windows i).userPid) &&
    s.isDead (s.windows i).userPid

def wmUserCleanupDead (s : Desktop) (now : BitVec 32) : Desktop :=
  (List.finRange 8).foldl
    (fun s i => if s.orphan i then wmCloseWindow s (s.windows i).id now else s) s

/-- What happens to the windows, to the kernel heap and to the tasks. -/
inductive Action where
  | openWindowUser (pid : ℕ) (tables : ℕ → Bool)
  | openWindow
  | closeWindow (id : ℤ) (now : BitVec 32)
  | tick (now : BitVec 32)
  | cleanupDead (now : BitVec 32)
  | setOpenAnim (animated : Bool)
  | maximize (i : Slot) (maximized : Bool)
  | kmalloc (size : ℕ)
  | kfree (ptr : ℕ)
  | createProcess
  | createThread (pid : ℕ)
  | exit (pid : ℕ)

def Desktop.addTask (s : Desktop) (space : AddressSpace) : Desktop :=
  { s with
    task := fun pid => if pid = s.nextTaskId then some ⟨space, false⟩ else s.task pid
    nextTaskId := s.nextTaskId + 1 }

def Desktop.running (s : Desktop) (pid : ℕ) : Option AddressSpace :=
  match s.task pid with
  | some ⟨space, false⟩ => some space
  | _ => none

def step (vmmGetPhys : ℕ → ℕ) (s : Desktop) : Action → Option Desktop
  | .openWindowUser pid tables =>
      (s.running pid).map fun space => wmOpenWindowUser vmmGetPhys s pid space tables
  | .openWindow => some (wmOpenWindow s)
  | .closeWindow id now => some (wmCloseWindow s id now)
  | .tick now => some (wmTick s now)
  | .cleanupDead now => some (wmUserCleanupDead s now)
  | .setOpenAnim animated => some { s with openAnim := animated }
  | .maximize i maximized => some (s.setWindow i { s.windows i with maximized := maximized })
  | .kmalloc size =>
      some (match Memory.kmalloc s.heap size with
        | none => s
        | some (ptr, heap) => { s with heap := heap, held := ptr :: s.held })
  | .kfree ptr =>
      if ptr ∈ s.held then
        some { s with heap := Memory.kfree s.heap ptr, held := s.held.filter (· ≠ ptr) }
      else none
  | .createProcess => some { s.addTask s.nextSpace with nextSpace := s.nextSpace + 1 }
  | .createThread pid => (s.running pid).map s.addTask
  | .exit pid =>
      (s.running pid).map fun space =>
        { s with task := fun other => if other = pid then some ⟨space, true⟩ else s.task other }

end EigenOS.Gui
