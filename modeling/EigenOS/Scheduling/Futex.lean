import EigenOS.Scheduling.Scheduler

/-!
# The futex system call

A waiting task stores the address in `futex_addr`, sleeps, and decides from that field after
it has been resumed who woke it.  The call runs with interrupts off; the timer is read and
counted in the interrupt handler that also calls the scheduler.
-/

namespace EigenOS.Scheduling.Futex

open EigenOS.Signals Function

/-- The task table with the fields that a futex uses. -/
structure State where
  kernel : Kernel
  timerTicks : UInt64
  id : Slot → ℤ
  group : Slot → ℤ
  futexAddr : Slot → UInt64
  /-- The address that a task waits for, while its kernel code is inside the wait. -/
  inWait : Slot → Option UInt64
  /-- The ints in the memory of each thread group. -/
  word : ℤ → UInt64 → UInt32

/-- `timer_get_ms`. -/
def State.timerGetMs (s : State) : UInt32 := s.timerTicks.toUInt32

def errInval : ℤ := -4

/-- `user_ptr_ok`. -/
def userPtrOk (p : UInt64) : Bool := 0x1000 ≤ p && p < 0x800000000000

/-- The end of `FUTEX_WAIT` after the task has been resumed. -/
def finishWait (s : State) (slot : Slot) : State × Option (Slot × ℤ) :=
  match s.inWait slot with
  | none => (s, none)
  | some addr =>
      let s := { s with inWait := update s.inWait slot none }
      if s.futexAddr slot = addr then
        ({ s with futexAddr := update s.futexAddr slot 0 }, some (slot, 1))
      else (s, some (slot, 0))

/-- `irq0_handler`, for a tick of the timer and for `yield`. -/
def irq0 (s : State) (rsp : ℕ) (mapped : Bool) : State × Option (Slot × ℤ) :=
  let s := { s with timerTicks := s.timerTicks + 1 }
  let switched := Signals.schedule s.kernel rsp s.timerGetMs.toNat mapped
  let s := { s with kernel := switched.1 }
  match switched.2 with
  | some slot => finishWait s slot
  | none => (s, none)

/-- `sleep_until` of a wait; without a timeout it is never reached. -/
def waitDeadline (s : State) (timeoutMs : UInt64) : ℕ :=
  if timeoutMs ≠ 0 then (s.timerGetMs + timeoutMs.toUInt32).toNat else 0xFFFFFFFFFFFFFFFF

/-- `FUTEX_WAIT` up to the check of the word. -/
def registerWait (s : State) (cur : Slot) (addr timeoutMs : UInt64) : State :=
  { s with
    futexAddr := update s.futexAddr cur addr
    kernel := changeTask s.kernel cur fun t =>
      { t with sleepUntil := waitDeadline s timeoutMs, state := .sleeping } }

/-- The word differs: the wait is taken back. -/
def backOut (s : State) (cur : Slot) : State :=
  { s with
    futexAddr := update s.futexAddr cur 0
    kernel := changeTask s.kernel cur fun t => { t with state := .ready } }

def futexWait (s : State) (cur : Slot) (addr val timeoutMs : UInt64) (rsp : ℕ)
    (mapped : Bool) : State × Option (Slot × ℤ) :=
  let s := registerWait s cur addr timeoutMs
  if s.word (s.group cur) addr ≠ val.toUInt32 then (backOut s cur, some (cur, 0))
  else irq0 { s with inWait := update s.inWait cur (some addr) } rsp mapped

/-- The count of a wake, the `int` in its argument; at least one task is woken. -/
def wakeCount (val : UInt64) : ℤ :=
  let n := val.toUInt32.toInt32.toInt
  if n ≤ 0 then 1 else n

/-- The slots that the loop of `FUTEX_WAKE` looks at. -/
def wakeSlots : List Slot := (List.finRange maxTasks).drop 1

/-- The task sleeps on the address, in the group. -/
def Sleeps (s : State) (addr : UInt64) (g : ℤ) (slot : Slot) : Prop :=
  (s.kernel.tasks slot).state = .sleeping ∧ s.futexAddr slot = addr ∧ s.group slot = g

instance (s : State) (addr : UInt64) (g : ℤ) : DecidablePred (Sleeps s addr g) :=
  fun _ => inferInstanceAs (Decidable (_ ∧ _))

/-- A task made runnable by a wake. -/
def wakeTask (s : State) (slot : Slot) : State :=
  { s with
    kernel := changeTask s.kernel slot fun t => { t with state := .ready }
    futexAddr := update s.futexAddr slot 0 }

/-- The loop of `FUTEX_WAKE`. -/
def wakeLoop (addr : UInt64) (g n : ℤ) : List Slot → ℤ → State → State × ℤ
  | [], woken, s => (s, woken)
  | slot :: rest, woken, s =>
      if woken < n then
        if Sleeps s addr g slot then wakeLoop addr g n rest (woken + 1) (wakeTask s slot)
        else wakeLoop addr g n rest woken s
      else (s, woken)

def futexWake (s : State) (cur : Slot) (addr val : UInt64) : State × ℤ :=
  let g := if 0 < s.group cur then s.group cur else s.id cur
  wakeLoop addr g (wakeCount val) wakeSlots 0 s

/-- `k_sys_futex`: a wait may return to another task first. -/
def kSysFutex (s : State) (cur : Slot) (op addr val timeoutMs : UInt64) (rsp : ℕ)
    (mapped : Bool) : State × Option (Slot × ℤ) :=
  if (s.kernel.tasks cur).ring ≠ .ring3 then (s, some (cur, errInval))
  else if ¬ userPtrOk addr then (s, some (cur, errInval))
  else if op = 0 then futexWait s cur addr val timeoutMs rsp mapped
  else if op = 1 then ((futexWake s cur addr val).1, some (cur, (futexWake s cur addr val).2))
  else (s, some (cur, errInval))

/-- `sleep_task`. -/
def sleepTask (s : State) (cur : Slot) (ms : UInt32) (rsp : ℕ) (mapped : Bool) :
    State × Option (Slot × ℤ) :=
  let deadline := (s.timerGetMs + ms).toNat
  irq0
    { s with kernel := changeTask s.kernel cur fun t =>
        { t with sleepUntil := deadline, state := .sleeping } } rsp mapped

inductive Event where
  | tick (rsp : ℕ) (mapped : Bool)
  | futex (op addr val timeoutMs : UInt64) (rsp : ℕ) (mapped : Bool)
  | sleep (ms : UInt32) (rsp : ℕ) (mapped : Bool)
  /-- The current task writes to the memory of its group. -/
  | store (addr : UInt64) (value : UInt32)

/-- The task that executes code. -/
def State.caller (s : State) : Option Slot :=
  match s.kernel.current with
  | some cur =>
      if (s.kernel.tasks cur).state = .running ∨ (s.kernel.tasks cur).state = .ready then
        some cur
      else none
  | none => none

/-- What an event does, and the futex call that returns in it. -/
def Event.run (s : State) : Event → State × Option (Slot × ℤ)
  | .tick rsp mapped => irq0 s rsp mapped
  | .futex op addr val timeoutMs rsp mapped =>
      match s.caller with
      | some cur => kSysFutex s cur op addr val timeoutMs rsp mapped
      | none => (s, none)
  | .sleep ms rsp mapped =>
      match s.caller with
      | some cur => sleepTask s cur ms rsp mapped
      | none => (s, none)
  | .store addr value =>
      match s.caller with
      | some cur =>
          ({ s with word := fun g a =>
              if g = s.group cur ∧ a = addr then value else s.word g a }, none)
      | none => (s, none)

end EigenOS.Scheduling.Futex
