import EigenOS.Library.Transition
import EigenOS.Signals.Delivery

/-!
# The scheduler over whole runs

`schedule` with the stack pointer it returns, and the steps that change the task table
between two switches.  System calls run with interrupts off, so that each of them is one step.
A creation that kernel code asks for runs with interrupts on: it picks its slot, prepares the
record and makes the task ready, and any other step may come in between.  What the tasks keep
on their stacks plays no part here.
-/

namespace EigenOS.Scheduling

open EigenOS.Signals Function

/-- The task table with `idle_rsp`, and the slots that the creations under way have picked. -/
structure Cpu where
  kernel : Kernel
  idleRsp : ℕ
  picks : List Slot

/-- A slot of the table before anything uses it. -/
def Task.zero : Task where
  state := .free
  ring := .ring0
  rsp := 0
  kernelStackBase := 0
  stack := 0
  exitCode := 0
  sigHandlers _ := 0
  sigPending _ := false
  sigInHandler := false
  sigSave := frameAt (fun _ => 0) 0
  sleepUntil := 0

def mainSlot : Slot := ⟨0, maxTasks_pos⟩

/-- `init_tasking`; `stack` is the main task's kernel stack. -/
def initTasking (mem : Memory) (stack idleRsp : ℕ) : Cpu where
  kernel :=
    { mem
      tasks := update (fun _ => Task.zero) mainSlot
        { Task.zero with state := .running, kernelStackBase := stack }
      current := some mainSlot }
  idleRsp
  picks := []

/-- `schedule`: the table after it and the stack pointer it returns.  It does not return
when delivering a signal faults. -/
def Cpu.schedule (c : Cpu) (rsp now : ℕ) (mapped : Bool) : Cpu × Option ℕ :=
  let idleRsp := if c.kernel.current = none then rsp else c.idleRsp
  let switched := Signals.schedule c.kernel rsp now mapped
  ({ c with kernel := switched.1, idleRsp },
    match switched.2 with
    | some slot => some (switched.1.tasks slot).rsp
    | none => if switched.1.current = none then some idleRsp else none)

inductive Event where
  /-- The timer interrupt and `yield`: `rsp` is where the interrupted code left its frame. -/
  | tick (rsp now : ℕ) (mapped : Bool)
  /-- A creation takes the first free slot. -/
  | pick (slot : Slot)
  /-- It fills in the record, in one step or in several. -/
  | prepare (slot : Slot) (ring : Ring) (stack : ℕ) (clears : Bool)
  /-- The first frame is on the stack, and the task is ready. -/
  | fill (slot : Slot) (rsp : ℕ)
  /-- An allocation has failed. -/
  | abandon (slot : Slot)
  | kill (slot : Slot) (sig : Signal)
  | sigaction (sig : Signal) (handler : UInt64)
  | sigreturn
  /-- The current task registers a sleep. -/
  | sleep (deadline : ℕ)
  /-- A futex wait that sees another value than expected. -/
  | backOut
  | wake (slot : Slot)
  | execve
  | exit (code : ℤ)
  /-- `kill_thread_group`, by the members of the group. -/
  | killGroup (member : Slot → Bool)
  /-- `sys_wait4` takes a child. -/
  | reap (slot : Slot)

/-- A change of the current task's own record. -/
def changeCurrent (k : Kernel) (change : Task → Task) : Kernel :=
  match k.current with
  | some cur => changeTask k cur change
  | none => k

/-- `exit_task` of any task but the main one, and `thread_exit_task`. -/
def exitTask (k : Kernel) (code : ℤ) : Kernel :=
  if k.current = some mainSlot then k
  else changeCurrent k fun t =>
    { t with state := .dead, exitCode := code, kernelStackBase := 0, rsp := 0 }

def Event.runKernel (k : Kernel) : Event → Kernel
  | .tick rsp now mapped => (Signals.schedule k rsp now mapped).1
  | .pick _ => k
  | .prepare slot ring stack clears => changeTask k slot fun t =>
      { newTask t ring stack t.rsp clears with state := t.state }
  | .fill slot rsp => changeTask k slot fun t => { t with rsp := rsp, state := .ready }
  | .abandon slot => changeTask k slot fun t => { t with state := .free }
  | .kill slot sig => sendSignal k slot sig
  | .sigaction sig handler => changeCurrent k fun t =>
      { t with sigHandlers := update t.sigHandlers sig handler }
  | .sigreturn => changeCurrent k Task.sigreturn
  | .sleep deadline => changeCurrent k fun t =>
      { t with state := .sleeping, sleepUntil := deadline }
  | .backOut => changeCurrent k fun t => { t with state := .ready }
  | .wake slot => changeTask k slot fun t =>
      if t.state = .sleeping then { t with state := .ready } else t
  | .execve => changeCurrent k fun t => { t with state := .running }
  | .exit code => exitTask k code
  | .killGroup member =>
      { k with tasks := fun slot =>
          let t := k.tasks slot
          if 1 ≤ slot.val ∧ t.state ≠ .free ∧ member slot then { t with state := .dead }
          else t }
  | .reap slot => changeTask k slot fun t => { t with state := .free }

def Event.picks (c : Cpu) : Event → List Slot
  | .pick slot => slot :: c.picks
  | .fill slot _ | .abandon slot => c.picks.erase slot
  | _ => c.picks

def Event.run (c : Cpu) : Event → Cpu
  | .tick rsp now mapped => (c.schedule rsp now mapped).1
  | event => { c with kernel := event.runKernel c.kernel, picks := event.picks c }

/-- The task that a switch resumes. -/
def Event.selected (c : Cpu) : Event → Option Slot
  | .tick rsp now mapped => (Signals.schedule c.kernel rsp now mapped).2
  | _ => none

/-- The slot that a creation finds. -/
def freeSlot (k : Kernel) : Option Slot :=
  Fin.find? fun slot => decide (1 ≤ slot.val ∧ (k.tasks slot).state = .free)

/-- A creation works on the slot it has picked, and no task is its own child. -/
def Possible (c : Cpu) : Event → Prop
  | .pick slot => freeSlot c.kernel = some slot
  | .prepare slot _ _ _ | .fill slot _ | .abandon slot => slot ∈ c.picks
  | .reap slot => c.kernel.current ≠ some slot
  | _ => True

instance (c : Cpu) : ∀ event, Decidable (Possible c event)
  | .pick slot => inferInstanceAs (Decidable (freeSlot c.kernel = some slot))
  | .prepare slot .. | .fill slot _ | .abandon slot =>
      inferInstanceAs (Decidable (slot ∈ c.picks))
  | .reap slot => inferInstanceAs (Decidable (c.kernel.current ≠ some slot))
  | .tick .. | .kill .. | .sigaction .. | .sigreturn | .sleep .. | .backOut | .wake .. | .execve
  | .exit .. | .killGroup .. => .isTrue trivial

def CpuStep (c : Cpu) (event : Event) (next : Cpu) : Prop := event.run c = next

def SchedulerStep (c : Cpu) (event : Event) (next : Cpu) : Prop :=
  Possible c event ∧ CpuStep c event next

/-- A creation that nothing interrupts. -/
def creation (slot : Slot) (ring : Ring) (stack rsp : ℕ) : List Event :=
  [.pick slot, .prepare slot ring stack false, .fill slot rsp]

def runOf (c : Cpu) : List Event → List (Event × Cpu)
  | [] => []
  | event :: rest => (event, event.run c) :: runOf (event.run c) rest

/-! ## What one switch does -/

/-- Where the frame of a task is once the interrupted task has left its own at `rsp`. -/
def frameLeft (k : Kernel) (rsp : ℕ) (slot : Slot) : ℕ :=
  if k.current = some slot then rsp else (k.tasks slot).rsp

/-- The part of a task that a switch keeps until signals are delivered. -/
structure SameTask (before after : Task) : Prop where
  ring : after.ring = before.ring
  stack : after.kernelStackBase = before.kernelStackBase
  handlers : after.sigHandlers = before.sigHandlers
  pending : after.sigPending = before.sigPending
  inHandler : after.sigInHandler = before.sigInHandler
  sleepUntil : after.sleepUntil = before.sleepUntil

theorem SameTask.refl (t : Task) : SameTask t t := ⟨rfl, rfl, rfl, rfl, rfl, rfl⟩

theorem SameTask.trans {first second third : Task} (h : SameTask first second)
    (h' : SameTask second third) : SameTask first third :=
  ⟨h'.ring.trans h.ring, h'.stack.trans h.stack, h'.handlers.trans h.handlers,
    h'.pending.trans h.pending, h'.inHandler.trans h.inHandler,
    h'.sleepUntil.trans h.sleepUntil⟩

/-- The state of a task as the search for the next one sees it. -/
def stateAt (k : Kernel) (now : ℕ) (slot : Slot) : TaskState :=
  let t := k.tasks slot
  if t.state = .running ∧ k.current = some slot then .ready
  else if t.state = .sleeping ∧ t.sleepUntil ≤ now then .ready
  else t.state

variable {slot : Slot}

section Switch

variable (k : Kernel) (rsp now : ℕ)

theorem saveCurrent_current : (saveCurrent k rsp).current = k.current := by
  unfold saveCurrent
  cases hcurrent : k.current with
  | none => exact hcurrent
  | some cur => rfl

theorem saveCurrent_of_ne (hne : k.current ≠ some slot) :
    (saveCurrent k rsp).tasks slot = k.tasks slot := by
  unfold saveCurrent
  cases hcurrent : k.current with
  | none => rfl
  | some cur =>
      have hslot : slot ≠ cur := by
        intro heq
        exact hne (hcurrent.trans (congrArg some heq.symm))
      exact update_of_ne hslot _ _

theorem saveCurrent_self {cur : Slot} (hcurrent : k.current = some cur) :
    (saveCurrent k rsp).tasks cur =
      { k.tasks cur with
        rsp := rsp
        state := if (k.tasks cur).state = .running then .ready else (k.tasks cur).state } := by
  unfold saveCurrent
  simp only [hcurrent, update_self]

/-- The table in which the search for the next task starts. -/
def searched : Kernel := wakeSleepers (saveCurrent k rsp) now

theorem searched_current : (searched k rsp now).current = k.current :=
  saveCurrent_current k rsp

theorem searched_same (slot : Slot) :
    SameTask (k.tasks slot) ((searched k rsp now).tasks slot) := by
  have hsaved : SameTask (k.tasks slot) ((saveCurrent k rsp).tasks slot) := by
    by_cases hcurrent : k.current = some slot
    · rw [saveCurrent_self k rsp hcurrent]
      exact ⟨rfl, rfl, rfl, rfl, rfl, rfl⟩
    · rw [saveCurrent_of_ne k rsp hcurrent]
      exact SameTask.refl _
  apply hsaved.trans
  unfold searched wakeSleepers
  dsimp only
  split
  · exact ⟨rfl, rfl, rfl, rfl, rfl, rfl⟩
  · exact SameTask.refl _

theorem searched_rsp (slot : Slot) :
    ((searched k rsp now).tasks slot).rsp = frameLeft k rsp slot := by
  have hwoken : ((searched k rsp now).tasks slot).rsp = ((saveCurrent k rsp).tasks slot).rsp := by
    unfold searched wakeSleepers
    dsimp only
    split <;> rfl
  rw [hwoken, frameLeft]
  by_cases hcurrent : k.current = some slot
  · rw [saveCurrent_self k rsp hcurrent, if_pos hcurrent]
  · rw [saveCurrent_of_ne k rsp hcurrent, if_neg hcurrent]

theorem searched_state (slot : Slot) :
    ((searched k rsp now).tasks slot).state = stateAt k now slot := by
  unfold searched wakeSleepers stateAt
  dsimp only
  by_cases hcurrent : k.current = some slot
  · rw [saveCurrent_self k rsp hcurrent]
    by_cases hrunning : (k.tasks slot).state = .running
    · simp [hrunning, hcurrent]
    · simp only [hrunning, false_and, if_false]
      split <;> rfl
  · rw [saveCurrent_of_ne k rsp hcurrent]
    simp only [hcurrent, and_false, if_false]
    split <;> rfl

end Switch

/-! ## The search for the next task -/

/-- A ready task with a kernel stack and a saved frame. -/
def Selectable (t : Task) : Prop :=
  t.state = .ready ∧ t.kernelStackBase ≠ 0 ∧ t.rsp ≠ 0

/-- What the search has found, and what it has passed over. -/
structure Found (tasks : Slot → Task) (slots : List Slot) (after : Slot → Task)
    (next : Option Slot) : Prop where
  kept : ∀ slot, after slot = tasks slot ∨
    ((tasks slot).state = .ready ∧ ¬ Selectable (tasks slot) ∧
      after slot = { tasks slot with state := .dead })
  first : ∀ slot, next = some slot → Selectable (tasks slot) ∧
    ∃ before rest, slots = before ++ slot :: rest ∧
      ∀ passed ∈ before, ¬ Selectable (tasks passed) ∧ (after passed).state ≠ .ready
  nothing : next = none → ∀ slot ∈ slots, (after slot).state ≠ .ready

variable {tasks after : Slot → Task} {slots : List Slot}

theorem Found.same {next : Option Slot} (h : Found tasks slots after next) (slot : Slot) :
    SameTask (tasks slot) (after slot) := by
  rcases h.kept slot with heq | ⟨_, _, heq⟩
  · rw [heq]
    exact SameTask.refl _
  · rw [heq]
    exact ⟨rfl, rfl, rfl, rfl, rfl, rfl⟩

theorem Found.rsp {next : Option Slot} (h : Found tasks slots after next) (slot : Slot) :
    (after slot).rsp = (tasks slot).rsp := by
  rcases h.kept slot with heq | ⟨_, _, heq⟩
  · rw [heq]
  · rw [heq]

theorem Found.picked {tasks after : Slot → Task} {slots : List Slot} {slot : Slot}
    (h : Found tasks slots after (some slot)) : after slot = tasks slot := by
  rcases h.kept slot with heq | ⟨_, hnot, _⟩
  · exact heq
  · exact absurd (h.first slot rfl).1 hnot

theorem findReady_of_selectable (rest : List Slot) (hready : Selectable (tasks slot)) :
    findReady tasks (slot :: rest) = (tasks, some slot) := by
  rw [findReady]
  exact if_pos hready

theorem findReady_of_corpse (rest : List Slot) (hnot : ¬ Selectable (tasks slot))
    (hready : (tasks slot).state = .ready) :
    findReady tasks (slot :: rest) =
      findReady (update tasks slot { tasks slot with state := .dead }) rest := by
  rw [findReady]
  exact (if_neg hnot).trans (if_pos hready)

theorem findReady_of_notReady (rest : List Slot) (hready : (tasks slot).state ≠ .ready) :
    findReady tasks (slot :: rest) = findReady tasks rest := by
  rw [findReady]
  exact (if_neg fun h => hready h.1).trans (if_neg hready)

theorem Found.cons {next : Option Slot} (h : Found tasks slots after next)
    (hready : (tasks slot).state ≠ .ready) :
    Found tasks (slot :: slots) after next where
  kept := h.kept
  first := by
    intro found hfound
    obtain ⟨hselectable, before, rest, hslots, hbefore⟩ := h.first found hfound
    refine ⟨hselectable, slot :: before, rest, congrArg (slot :: ·) hslots, ?_⟩
    intro passed hpassed
    rcases List.mem_cons.mp hpassed with heq | hmem
    · have hsame : after slot = tasks slot := by
        rcases h.kept slot with hkept | ⟨hwas, _, _⟩
        · exact hkept
        · exact absurd hwas hready
      rw [heq, hsame]
      exact ⟨fun hsel => hready hsel.1, hready⟩
    · exact hbefore passed hmem
  nothing := by
    intro hnone other hother
    rcases List.mem_cons.mp hother with heq | hmem
    · rcases h.kept slot with hkept | ⟨hwas, _, _⟩
      · rw [heq, hkept]
        exact hready
      · exact absurd hwas hready
    · exact h.nothing hnone other hmem

theorem Found.corpse {next : Option Slot} (hnot : ¬ Selectable (tasks slot))
    (hready : (tasks slot).state = .ready)
    (h : Found (update tasks slot { tasks slot with state := .dead }) slots after next) :
    Found tasks (slot :: slots) after next := by
  have hdead : (update tasks slot { tasks slot with state := .dead } slot).state ≠
      .ready := by
    rw [update_self]
    exact nofun
  have hcons := h.cons hdead
  have hself : after slot = { tasks slot with state := .dead } := by
    rcases h.kept slot with heq | ⟨hwas, _, _⟩
    · rw [heq, update_self]
    · exact absurd hwas hdead
  have hother : ∀ other, other ≠ slot →
      update tasks slot { tasks slot with state := .dead } other = tasks other :=
    fun other hne => update_of_ne hne _ _
  have hselectable : ∀ other, Selectable
      (update tasks slot { tasks slot with state := .dead } other) ↔
        Selectable (tasks other) := by
    intro other
    by_cases heq : other = slot
    · rw [heq]
      exact iff_of_false (fun hsel => hdead hsel.1) hnot
    · rw [hother other heq]
  refine ⟨?_, ?_, hcons.nothing⟩
  · intro other
    by_cases heq : other = slot
    · rw [heq]
      exact Or.inr ⟨hready, hnot, hself⟩
    · have hkept := h.kept other
      rw [hother other heq] at hkept
      exact hkept
  · intro found hfound
    obtain ⟨hsel, before, rest, hslots, hbefore⟩ := hcons.first found hfound
    refine ⟨(hselectable found).mp hsel, before, rest, hslots, ?_⟩
    intro passed hpassed
    obtain ⟨hnotsel, hstate⟩ := hbefore passed hpassed
    exact ⟨fun h => hnotsel ((hselectable passed).mpr h), hstate⟩

theorem findReady_found (tasks : Slot → Task) (slots : List Slot) :
    Found tasks slots (findReady tasks slots).1 (findReady tasks slots).2 := by
  induction slots generalizing tasks with
  | nil =>
      exact ⟨fun _ => Or.inl rfl, nofun, nofun⟩
  | cons slot rest ih =>
      by_cases hselectable : Selectable (tasks slot)
      · rw [findReady_of_selectable rest hselectable]
        refine ⟨fun _ => Or.inl rfl, ?_, nofun⟩
        intro found hfound
        rw [← Option.some.inj hfound]
        exact ⟨hselectable, [], rest, rfl, nofun⟩
      · by_cases hready : (tasks slot).state = .ready
        · rw [findReady_of_corpse rest hselectable hready]
          exact Found.corpse hselectable hready (ih _)
        · rw [findReady_of_notReady rest hready]
          exact (ih tasks).cons hready

/-! ## The delivery -/

/-- A stack pointer the scheduler resumes from. -/
def Trusted (rsp : ℕ) : Prop := kernelBase ≤ rsp ∧ rsp ≤ trustedLimit

def Delivers (t : Task) (sig : Signal) : Prop :=
  firstPending t = some sig ∧ t.ring = .ring3 ∧ t.sigInHandler = false ∧ kernelBase ≤ t.rsp

/-- The signal ends a task without a handler for it, and `SIGKILL` ends any task. -/
def Fatal (t : Task) (sig : Signal) : Prop := sig = sigkill ∨ t.sigHandlers sig = 0

/-- The task is given up when it is picked, and the idle loop is resumed in its place. -/
def Dropped (t : Task) (mapped : Bool) : Prop :=
  (∃ sig, Delivers t sig ∧ Fatal t sig) ∨
    (¬ Trusted t.rsp ∧ ¬ (mapped = false ∧ ∃ sig, Delivers t sig ∧ ¬ Fatal t sig))

instance (rsp : ℕ) : Decidable (Trusted rsp) := inferInstanceAs (Decidable (_ ∧ _))
instance (t : Task) (sig : Signal) : Decidable (Delivers t sig) :=
  inferInstanceAs (Decidable (_ ∧ _))
instance (t : Task) (sig : Signal) : Decidable (Fatal t sig) :=
  inferInstanceAs (Decidable (_ ∨ _))
instance (t : Task) (mapped : Bool) : Decidable (Dropped t mapped) :=
  inferInstanceAs (Decidable (_ ∨ _))

/-- What becomes of the task that is picked. -/
structure Delivered (k : Kernel) (next : Slot) (mapped : Bool) (after : Kernel)
    (resumed : Option Slot) : Prop where
  others : ∀ slot, slot ≠ next → after.tasks slot = k.tasks slot
  ring : (after.tasks next).ring = (k.tasks next).ring
  outcome :
    (resumed = some next ∧ after.current = some next ∧
      (after.tasks next).state = .running ∧ (after.tasks next).rsp = (k.tasks next).rsp) ∨
    (resumed = none ∧ (after.tasks next).state = .dead ∧
      (after.current = some next ∨ after.current = none))
  dropped : after.current = none → Dropped (k.tasks next) mapped

theorem taskDeliverSignals_of_not (mem : Memory) (t : Task) (mapped : Bool)
    (hnot : ∀ sig, ¬ Delivers t sig) : taskDeliverSignals mem t mapped = .done mem t := by
  unfold taskDeliverSignals
  split
  · rfl
  · rename_i sig hpending
    split_ifs with hring hhandler hrsp
    · rfl
    · rfl
    · rfl
    all_goals
      exact absurd ⟨hpending, not_not.mp hring, Bool.not_eq_true _ ▸ hhandler,
        not_lt.mp hrsp⟩ (hnot sig)

theorem taskDeliverSignals_of_delivers (mem : Memory) (t : Task) (mapped : Bool) (sig : Signal)
    (h : Delivers t sig) :
    taskDeliverSignals mem t mapped =
      if Fatal t sig then .done mem ((t.take sig).terminate sig)
      else if mapped then
        .done (callHandler mem (t.take sig) sig).1 (callHandler mem (t.take sig) sig).2
      else .fault mem { t.take sig with state := .dead, kernelStackBase := 0, rsp := 0 } := by
  obtain ⟨hpending, hring, hhandler, hrsp⟩ := h
  have hnot : ¬ t.sigInHandler = true := by
    rw [hhandler]
    exact nofun
  unfold taskDeliverSignals
  simp only [hpending]
  exact (if_neg (not_not.mpr hring)).trans ((if_neg hnot).trans (if_neg (not_lt.mpr hrsp)))

section Dispatch

variable {k : Kernel} {next : Slot} {mapped : Bool}

theorem delivered_of_untrusted {mem : Memory} {t : Task}
    (hdone : taskDeliverSignals k.mem (k.tasks next) mapped = .done mem t)
    (htrust : ¬ Trusted t.rsp) (hdropped : Dropped (k.tasks next) mapped)
    (hring : t.ring = (k.tasks next).ring) :
    Delivered k next mapped (dispatch k next mapped).1 (dispatch k next mapped).2 := by
  have hrsp : t.rsp < kernelBase ∨ trustedLimit < t.rsp := by
    rcases Decidable.not_and_iff_not_or_not.mp htrust with hlow | hhigh
    · exact Or.inl (not_le.mp hlow)
    · exact Or.inr (not_le.mp hhigh)
  have hdispatch : dispatch k next mapped =
      ({ mem, tasks := update k.tasks next { t with state := .dead }
         current := none }, none) := by
    unfold dispatch
    rw [hdone]
    exact if_pos hrsp
  rw [hdispatch]
  refine ⟨fun slot hne => update_of_ne hne _ _, ?_, Or.inr ⟨rfl, ?_, Or.inr rfl⟩,
    fun _ => hdropped⟩
  · dsimp only
    rw [update_self, hring]
  · dsimp only
    rw [update_self]

theorem delivered_of_trusted {mem : Memory} {t : Task}
    (hdone : taskDeliverSignals k.mem (k.tasks next) mapped = .done mem t)
    (htrust : Trusted t.rsp) (hcurrent : k.current = some next)
    (hstate : t.state = .running) (hrsp : t.rsp = (k.tasks next).rsp)
    (hring : t.ring = (k.tasks next).ring) :
    Delivered k next mapped (dispatch k next mapped).1 (dispatch k next mapped).2 := by
  have hdispatch : dispatch k next mapped =
      ({ k with mem, tasks := update k.tasks next t }, some next) := by
    unfold dispatch
    rw [hdone]
    apply if_neg
    rw [not_or]
    exact ⟨not_lt.mpr htrust.1, not_lt.mpr htrust.2⟩
  rw [hdispatch]
  refine ⟨fun slot hne => update_of_ne hne _ _, ?_,
    Or.inl ⟨rfl, hcurrent, ?_, ?_⟩, ?_⟩
  · dsimp only
    rw [update_self, hring]
  · dsimp only
    rw [update_self, hstate]
  · dsimp only
    rw [update_self, hrsp]
  · intro hnone
    rw [hcurrent] at hnone
    cases hnone

theorem delivered_of_fault {mem : Memory} {t : Task}
    (hfault : taskDeliverSignals k.mem (k.tasks next) mapped = .fault mem t)
    (hcurrent : k.current = some next) (hstate : t.state = .dead)
    (hring : t.ring = (k.tasks next).ring) :
    Delivered k next mapped (dispatch k next mapped).1 (dispatch k next mapped).2 := by
  have hdispatch : dispatch k next mapped =
      ({ k with mem, tasks := update k.tasks next t }, none) := by
    unfold dispatch
    rw [hfault]
  rw [hdispatch]
  refine ⟨fun slot hne => update_of_ne hne _ _, ?_,
    Or.inr ⟨rfl, ?_, Or.inl hcurrent⟩, ?_⟩
  · dsimp only
    rw [update_self, hring]
  · dsimp only
    rw [update_self, hstate]
  · intro hnone
    rw [hcurrent] at hnone
    cases hnone

theorem dispatch_delivered (hcurrent : k.current = some next)
    (hrunning : (k.tasks next).state = .running) :
    Delivered k next mapped (dispatch k next mapped).1 (dispatch k next mapped).2 := by
  by_cases hdelivers : ∃ sig, Delivers (k.tasks next) sig
  · obtain ⟨sig, hsig⟩ := hdelivers
    have hresult := taskDeliverSignals_of_delivers k.mem (k.tasks next) mapped sig hsig
    by_cases hfatal : Fatal (k.tasks next) sig
    · rw [if_pos hfatal] at hresult
      have hzero : ¬ Trusted (((k.tasks next).take sig).terminate sig).rsp :=
        fun htrust => absurd htrust.1 (by decide : ¬ kernelBase ≤ 0)
      exact delivered_of_untrusted hresult hzero (Or.inl ⟨sig, hsig, hfatal⟩) rfl
    · rw [if_neg hfatal] at hresult
      cases hmapped : mapped with
      | false =>
          rw [hmapped] at hresult
          exact delivered_of_fault hresult hcurrent rfl rfl
      | true =>
          rw [hmapped] at hresult
          by_cases htrust : Trusted (k.tasks next).rsp
          · exact delivered_of_trusted hresult htrust hcurrent hrunning rfl rfl
          · refine delivered_of_untrusted hresult htrust ?_ rfl
            exact Or.inr ⟨htrust, fun h => Bool.noConfusion h.1⟩
  · rw [not_exists] at hdelivers
    have hresult := taskDeliverSignals_of_not k.mem (k.tasks next) mapped hdelivers
    by_cases htrust : Trusted (k.tasks next).rsp
    · exact delivered_of_trusted hresult htrust hcurrent hrunning rfl rfl
    · refine delivered_of_untrusted hresult htrust ?_ rfl
      exact Or.inr ⟨htrust, fun ⟨_, sig, hsig, _⟩ => hdelivers sig hsig⟩

end Dispatch

/-! ## The whole switch -/

/-- What `schedule` does to the table: the search for the next task, and what becomes of
that task. -/
inductive Switched (k : Kernel) (rsp now : ℕ) (mapped : Bool) : Kernel → Option Slot → Prop
  | idle {tasks : Slot → Task} {mem : Memory}
      (hfound : Found (searched k rsp now).tasks (rounds (k.current.getD mainSlot)) tasks none) :
      Switched k rsp now mapped { mem, tasks, current := none } none
  | picked {tasks : Slot → Task} {mem : Memory} {next : Slot} {after : Kernel}
      {resumed : Option Slot}
      (hfound : Found (searched k rsp now).tasks (rounds (k.current.getD mainSlot)) tasks
        (some next))
      (hdelivered : Delivered
        { mem, tasks := update tasks next { tasks next with state := .running }
          current := some next } next mapped after resumed) :
      Switched k rsp now mapped after resumed

theorem schedule_switched (k : Kernel) (rsp now : ℕ) (mapped : Bool) :
    Switched k rsp now mapped (Signals.schedule k rsp now mapped).1
      (Signals.schedule k rsp now mapped).2 := by
  have hfound := findReady_found (searched k rsp now).tasks (rounds (k.current.getD mainSlot))
  rw [← searched_current k rsp now] at hfound
  unfold Signals.schedule pickNext
  dsimp only
  split
  · rename_i after hpick
    split at hpick
    · rename_i hnone
      cases hpick
      apply Switched.idle
      rw [← searched_current k rsp now, ← hnone]
      exact hfound
    · cases hpick
  · rename_i after next hpick
    split at hpick
    · cases hpick
    · rename_i slot hsome
      cases hpick
      have hpicked : Found (searched k rsp now).tasks
          (rounds (k.current.getD mainSlot))
          (findReady (searched k rsp now).tasks
            (rounds ((searched k rsp now).current.getD mainSlot))).1 (some next) := by
        rw [← hsome, ← searched_current k rsp now]
        exact hfound
      apply Switched.picked hpicked
      apply dispatch_delivered
      · rfl
      · dsimp only
        rw [update_self]

end EigenOS.Scheduling
