import Mathlib.Data.UInt

/-!
# Task switches and signals

A task that does not run has its registers in a frame on its kernel stack, pushed when it
was interrupted.  A switch saves the frame of the current task, picks the next ready task
and delivers a pending signal by changing the frame that is about to be resumed.
-/

namespace EigenOS.Signals

open Function

def maxTasks : ℕ := 64

theorem maxTasks_pos : 0 < maxTasks := by decide

abbrev Slot := Fin maxTasks

/-- A signal number below `NSIG`. -/
abbrev Signal := Fin 32

def sigkill : Signal := ⟨9, by decide⟩

/-- `registers_t`, in the order of the stack. -/
structure Registers where
  r15 : UInt64
  r14 : UInt64
  r13 : UInt64
  r12 : UInt64
  rbp : UInt64
  rbx : UInt64
  r11 : UInt64
  r10 : UInt64
  r9 : UInt64
  r8 : UInt64
  rdi : UInt64
  rsi : UInt64
  rdx : UInt64
  rcx : UInt64
  rax : UInt64
  rip : UInt64
  cs : UInt64
  rflags : UInt64
  rsp : UInt64
  ss : UInt64
  deriving DecidableEq

/-- The aligned 64-bit words of the kernel half, by address. -/
abbrev Memory := ℕ → UInt64

/-- `sizeof(registers_t)`. -/
def frameSize : ℕ := 160

/-- The frame at an address. -/
def frameAt (mem : Memory) (base : ℕ) : Registers where
  r15 := mem base
  r14 := mem (base + 8)
  r13 := mem (base + 16)
  r12 := mem (base + 24)
  rbp := mem (base + 32)
  rbx := mem (base + 40)
  r11 := mem (base + 48)
  r10 := mem (base + 56)
  r9 := mem (base + 64)
  r8 := mem (base + 72)
  rdi := mem (base + 80)
  rsi := mem (base + 88)
  rdx := mem (base + 96)
  rcx := mem (base + 104)
  rax := mem (base + 112)
  rip := mem (base + 120)
  cs := mem (base + 128)
  rflags := mem (base + 136)
  rsp := mem (base + 144)
  ss := mem (base + 152)

inductive Ring where
  | ring0
  | ring3
  deriving DecidableEq

inductive TaskState where
  | free
  | ready
  | running
  | sleeping
  | dead
  deriving DecidableEq

/-- What a switch uses of `task_t`.  `stack` is where the memory starts that the task's
kernel code runs on: its kernel stack, except for the first task, which runs on the stack
of the boot code. -/
structure Task where
  state : TaskState
  ring : Ring
  rsp : ℕ
  kernelStackBase : ℕ
  stack : ℕ
  exitCode : ℤ
  sigHandlers : Signal → UInt64
  sigPending : Signal → Bool
  sigInHandler : Bool
  sigSave : Registers
  sleepUntil : ℕ

structure Kernel where
  mem : Memory
  tasks : Slot → Task
  /-- `current_task_idx`; `none` is the idle loop. -/
  current : Option Slot

def kernelStackSize : ℕ := 65536

/-- The lowest address of the kernel image, its heap and its stacks. -/
def kernelBase : ℕ := 0xffffffff80000000

/-- The highest saved stack pointer the scheduler trusts. -/
def trustedLimit : ℕ := 0xffffffffc0000000

def kernelCs : UInt64 := 0x08
def kernelSs : UInt64 := 0x10
def userCs : UInt64 := 0x1b
def userSs : UInt64 := 0x23

/-! ## Delivery -/

/-- The aligned stack pointer a handler starts with. -/
def handlerRsp (rsp : UInt64) : UInt64 := (rsp &&& ~~~0xF) - 16

/-- Where the trampoline goes. -/
def trampolineAt (rsp : UInt64) : UInt64 := handlerRsp rsp - 64

/-- `mov eax, SYS_SIGRETURN; int 0x80; nop`, as a little-endian word. -/
def trampolineCode : UInt64 := 0x9080CD00000022B8

/-- A store through a user-supplied pointer.  The words of the user half are left out. -/
def store (mem : Memory) (address value : UInt64) : Memory :=
  if 2 ^ 63 ≤ address.toNat then update mem address.toNat value else mem

/-- The pending signal with the lowest number. -/
def firstPending (t : Task) : Option Signal := Fin.find? t.sigPending

/-- The outcome of `task_deliver_signals`; a store to an unmapped page faults. -/
inductive Delivery where
  | done (mem : Memory) (t : Task)
  | fault (mem : Memory) (t : Task)

/-- A signal that is no longer pending. -/
def Task.take (t : Task) (sig : Signal) : Task :=
  { t with sigPending := update t.sigPending sig false }

/-- The default action: the task is dead and its stacks are freed. -/
def Task.terminate (t : Task) (sig : Signal) : Task :=
  { t with exitCode := 128 + sig.val, state := .dead, kernelStackBase := 0, rsp := 0 }

/-- The handler's frame in place of the saved one, which `sig_save` keeps. -/
def callHandler (mem : Memory) (t : Task) (sig : Signal) : Memory × Task :=
  let usp := handlerRsp (mem (t.rsp + 144))
  let tc := trampolineAt (mem (t.rsp + 144))
  let mem := store (store mem tc trampolineCode) usp tc
  let save := frameAt mem t.rsp
  let mem := update mem (t.rsp + 120) (t.sigHandlers sig)
  let mem := update mem (t.rsp + 80) (UInt64.ofNat sig.val)
  let mem := update mem (t.rsp + 144) usp
  let mem := update mem (t.rsp + 136) (mem (t.rsp + 136) ||| 0x200)
  let mem := update mem (t.rsp + 136) (mem (t.rsp + 136) &&& ~~~0x400)
  (mem, { t with sigSave := save, sigInHandler := true })

/-- `task_deliver_signals`.  `mapped` says whether the handler's stack can be written.  The
loop of the source returns in its first round. -/
def taskDeliverSignals (mem : Memory) (t : Task) (mapped : Bool) : Delivery :=
  match firstPending t with
  | none => .done mem t
  | some sig =>
      if t.ring ≠ .ring3 then .done mem t
      else if t.sigInHandler then .done mem t
      else if t.rsp < kernelBase then .done mem t
      else if sig = sigkill ∨ t.sigHandlers sig = 0 then
        .done mem ((t.take sig).terminate sig)
      else if mapped then
        .done (callHandler mem (t.take sig) sig).1 (callHandler mem (t.take sig) sig).2
      else .fault mem { t.take sig with state := .dead, kernelStackBase := 0, rsp := 0 }

/-! ## The switch -/

/-- The current task gives the processor up with its frame at `rsp`. -/
def saveCurrent (k : Kernel) (rsp : ℕ) : Kernel :=
  match k.current with
  | none => k
  | some cur =>
      let t := k.tasks cur
      { k with
        tasks := update k.tasks cur
          { t with rsp := rsp, state := if t.state = .running then .ready else t.state } }

/-- Sleepers whose time has come are ready. -/
def wakeSleepers (k : Kernel) (now : ℕ) : Kernel :=
  { k with
    tasks := fun slot =>
      let t := k.tasks slot
      if t.state = .sleeping ∧ t.sleepUntil ≤ now then { t with state := .ready } else t }

/-- The slots in the order of the round robin. -/
def rounds (start : Slot) : List Slot :=
  (List.range maxTasks).map fun offset =>
    ⟨(start.val + 1 + offset) % maxTasks, Nat.mod_lt _ (by decide)⟩

/-- The first ready task.  A ready slot without a stack or a frame on the way is dead. -/
def findReady (tasks : Slot → Task) : List Slot → (Slot → Task) × Option Slot
  | [] => (tasks, none)
  | slot :: rest =>
      let t := tasks slot
      if t.state = .ready ∧ t.kernelStackBase ≠ 0 ∧ t.rsp ≠ 0 then (tasks, some slot)
      else if t.state = .ready then
        findReady (update tasks slot { t with state := .dead }) rest
      else findReady tasks rest

/-- The kernel just before signals are delivered to the task it has picked. -/
def pickNext (k : Kernel) (rsp now : ℕ) : Kernel × Option Slot :=
  let woken := wakeSleepers (saveCurrent k rsp) now
  let start : Slot := woken.current.getD ⟨0, by decide⟩
  let found := findReady woken.tasks (rounds start)
  match found.2 with
  | none => ({ woken with tasks := found.1, current := none }, none)
  | some next =>
      ({ woken with
          tasks := update found.1 next { found.1 next with state := .running }
          current := some next }, some next)

/-- The rest of the switch: the task that is resumed, if any. -/
def dispatch (k : Kernel) (next : Slot) (mapped : Bool) : Kernel × Option Slot :=
  match taskDeliverSignals k.mem (k.tasks next) mapped with
  | .fault mem t => ({ k with mem, tasks := update k.tasks next t }, none)
  | .done mem t =>
      if t.rsp < kernelBase ∨ trustedLimit < t.rsp then
        ({ mem, tasks := update k.tasks next { t with state := .dead }
           current := none }, none)
      else ({ k with mem, tasks := update k.tasks next t }, some next)

/-- `schedule`: the kernel after it and the task whose frame it returns. -/
def schedule (k : Kernel) (rsp now : ℕ) (mapped : Bool) : Kernel × Option Slot :=
  match pickNext k rsp now with
  | (k, none) => (k, none)
  | (k, some next) => dispatch k next mapped

/-! ## The other steps -/

/-- `send_signal` to the task in a slot. -/
def sendSignal (k : Kernel) (slot : Slot) (sig : Signal) : Kernel :=
  let t := k.tasks slot
  if sig.val = 0 ∨ t.state = .free ∨ t.state = .dead then k
  else
    { k with
      tasks := update k.tasks slot
        { t with sigPending := update t.sigPending sig true } }

/-- A change of a task's own record by the code that runs. -/
def changeTask (k : Kernel) (slot : Slot) (change : Task → Task) : Kernel :=
  { k with tasks := update k.tasks slot (change (k.tasks slot)) }

/-- `k_sys_sigreturn`.  It gives the frame of the system call the registers of `sig_save`;
the frame is on the stack of the current task, which writes there as it runs. -/
def Task.sigreturn (t : Task) : Task := { t with sigInHandler := false }

/-- A task as it is created, over what the slot held before.  `sys_fork` clears the slot,
the other ways of creating a task keep its signal fields. -/
def newTask (before : Task) (ring : Ring) (stack rsp : ℕ) (clears : Bool) : Task where
  state := .ready
  ring := ring
  rsp := rsp
  kernelStackBase := stack
  stack := stack
  exitCode := 0
  sigHandlers := if clears then fun _ => 0 else before.sigHandlers
  sigPending := if clears then fun _ => false else before.sigPending
  sigInHandler := if clears then false else before.sigInHandler
  sigSave := before.sigSave
  sleepUntil := 0

/-- The words of a kernel stack, replaced. -/
def writeStack (mem : Memory) (stack : ℕ) (words : Memory) : Memory := fun address =>
  if stack ≤ address ∧ address < stack + kernelStackSize + 16 then words address
  else mem address

inductive Event where
  /-- An interrupt, a `yield` or the end of a sleep: the current task has written the given
  words to its stack, with its frame at `rsp`. -/
  | tick (words : Memory) (rsp now : ℕ) (mapped : Bool)
  | create (slot : Slot) (ring : Ring) (words : Memory) (stack rsp : ℕ) (clears : Bool)
  | sigaction (sig : Signal) (handler : UInt64)
  | kill (slot : Slot) (sig : Signal)
  | sigreturn
  /-- The current task is about to give up the processor until a time or a wakeup. -/
  | sleep (deadline : ℕ)
  | wake (slot : Slot)
  /-- An exit, a group kill, or a `wait4` that frees the slot. -/
  | stop (slot : Slot) (freed : Bool)

/-- Whether a task can be resumed later. -/
def TaskState.isLive : TaskState → Bool
  | .ready | .running | .sleeping => true
  | .free | .dead => false

/-- What the current task has left on its stack.  A dead one runs on a stack that no task
is resumed from. -/
def writeCurrent (k : Kernel) (words : Memory) : Kernel :=
  match k.current with
  | none => k
  | some cur =>
      if (k.tasks cur).state.isLive then
        { k with mem := writeStack k.mem (k.tasks cur).stack words }
      else k

def Event.run (k : Kernel) : Event → Kernel
  | .tick words rsp now mapped => (schedule (writeCurrent k words) rsp now mapped).1
  | .create slot ring words stack rsp clears =>
      { k with
        mem := writeStack k.mem stack words
        tasks := update k.tasks slot
          (newTask (k.tasks slot) ring stack rsp clears) }
  | .sigaction sig handler =>
      match k.current with
      | some cur =>
          changeTask k cur fun t =>
            { t with sigHandlers := update t.sigHandlers sig handler }
      | none => k
  | .kill slot sig => sendSignal k slot sig
  | .sigreturn =>
      match k.current with
      | some cur => changeTask k cur Task.sigreturn
      | none => k
  | .sleep deadline =>
      match k.current with
      | some cur =>
          if (k.tasks cur).state.isLive then
            changeTask k cur fun t => { t with state := .sleeping, sleepUntil := deadline }
          else k
      | none => k
  | .wake slot =>
      if (k.tasks slot).state = .sleeping then
        changeTask k slot fun t => { t with state := .ready }
      else k
  | .stop slot freed =>
      changeTask k slot fun t => { t with state := if freed then .free else .dead }

end EigenOS.Signals
