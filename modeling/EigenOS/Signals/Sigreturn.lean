import EigenOS.Signals.KillSignal

/-!
# Handlers and the programs they interrupt

What a program sees of its signals, told without the task record: a switch delivers the lowest
signal raised since its last delivery, unless a handler is active, and `sigreturn` goes on with
the registers that the handler interrupted.  The record does this for every task that begins
with a clean one.
-/

namespace EigenOS.Signals

open EigenOS.Transition Function

/-! ## The system call -/

/-- `k_sys_sigreturn` for the current task, on the frame of the call: the task and the frame
after it, and the result. -/
def kSysSigreturn (t : Task) (frame : Registers) : Task × Registers × UInt64 :=
  if t.sigInHandler then (t.sigreturn, t.sigSave, t.sigSave.rax) else (t, frame, -1)

/-- The registers that the stub of `int 0x80` returns to user mode with. -/
def returnToUser (frame : Registers) (result : UInt64) : Registers :=
  { frame with rax := result }

/-- The registers that a program goes on with after it has called `sigreturn`. -/
def afterSigreturn (t : Task) (frame : Registers) : Registers :=
  returnToUser (kSysSigreturn t frame).2.1 (kSysSigreturn t frame).2.2

/-- A step of the kernel that a program can tell from others. -/
inductive Act where
  | event (event : Event)
  /-- The current task calls `sigreturn` with the given registers. -/
  | sigreturn (frame : Registers)
  /-- An `execve` of the current task succeeds. -/
  | execve

/-- `execve` changes nothing of what a switch or a delivery uses. -/
def kernelEvent : Act → Option Event
  | .event event => some event
  | .sigreturn _ => some .sigreturn
  | .execve => none

/-! ## What programs see -/

/-- A run as its programs see it. -/
structure Watched where
  traced : Traced
  /-- The registers that the active handler of a task has interrupted. -/
  interrupted : Slot → Option Registers
  /-- The signals that a task was sent since they were last delivered to it. -/
  owed : Slot → Signal → Bool

/-- The signal that a switch to a task has to deliver. -/
def Watched.due (s : Watched) (slot : Slot) : Option Signal :=
  if s.interrupted slot = none then Fin.find? (s.owed slot) else none

/-- A handler is to be called for a signal. -/
def Catches (t : Task) (sig : Signal) (mapped : Bool) : Prop :=
  sig ≠ sigkill ∧ t.sigHandlers sig ≠ 0 ∧ mapped = true

instance (t : Task) (sig : Signal) (mapped : Bool) : Decidable (Catches t sig mapped) :=
  inferInstanceAs (Decidable (_ ∧ _ ∧ _))

/-- The task that a switch picks. -/
def picked (k : Kernel) (words : Memory) (rsp now : ℕ) : Option Slot :=
  (pickNext (writeCurrent k words) rsp now).2

/-- A switch to `next` delivers the signal that is due. -/
def Watched.deliver (s : Watched) (saved : Slot → Registers) (next : Slot) (mapped : Bool) :
    (Slot → Option Registers) × (Slot → Signal → Bool) :=
  match s.due next with
  | none => (s.interrupted, s.owed)
  | some sig =>
      (if Catches (s.traced.kernel.tasks next) sig mapped then
          update s.interrupted next (some (saved next))
        else s.interrupted,
        update s.owed next (update (s.owed next) sig false))

/-- The handlers and the signals after a step. -/
def Watched.seen (s : Watched) :
    Act → (Slot → Option Registers) × (Slot → Signal → Bool)
  | .event (.tick words rsp now mapped) =>
      match picked s.traced.kernel words rsp now with
      | some next =>
          if (s.traced.kernel.tasks next).ring = .ring3 then
            s.deliver (Event.saved s.traced.kernel s.traced.saved (.tick words rsp now mapped))
              next mapped
          else (s.interrupted, s.owed)
      | none => (s.interrupted, s.owed)
  | .event (.create slot _ _ _ _ clears) =>
      -- `sys_fork` makes a copy of the program, which is in the handler where the caller is
      (update s.interrupted slot
          (if clears then s.traced.kernel.current.bind s.interrupted else none),
        update s.owed slot fun _ => false)
  | .event (.kill slot sig) =>
      if sig.val = 0 ∨ (s.traced.kernel.tasks slot).state.isLive = false then
        (s.interrupted, s.owed)
      else (s.interrupted, update s.owed slot (update (s.owed slot) sig true))
  | .event _ => (s.interrupted, s.owed)
  | .sigreturn _ | .execve =>
      match s.traced.kernel.current with
      | some cur => (update s.interrupted cur none, s.owed)
      | none => (s.interrupted, s.owed)

def Watched.next (s : Watched) (act : Act) : Watched where
  traced := match kernelEvent act with
    | some event => s.traced.next event
    | none => s.traced
  interrupted := (s.seen act).1
  owed := (s.seen act).2

/-- A system call of the current task. -/
def IsCall : Act → Prop
  | .event (.create _ _ _ _ _ clears) => clears = true
  | .event _ => False
  | .sigreturn _ | .execve => True

/-- What the processor sees to.  `sigreturn` is told with its frame, and a task that makes a
system call is live. -/
def WatchedStep (s : Watched) (act : Act) (next : Watched) : Prop :=
  (∀ event, act = .event event → event ≠ .sigreturn ∧ Possible s.traced.kernel event) ∧
    (IsCall act → ∀ cur, s.traced.kernel.current = some cur →
      (s.traced.kernel.tasks cur).state.isLive = true) ∧
    next = s.next act

/-- The signal is delivered to the task: its handler is called, or it ends. -/
def Delivers (t : Task) (sig : Signal) (mapped : Bool) (after : Task) (frame : Registers) :
    Prop :=
  if Catches t sig mapped then frame.rip = t.sigHandlers sig ∧ frame.rdi = UInt64.ofNat sig.val
  else after.state = .dead

/-- A step does what the programs can count on: a switch delivers the signal that is due, and
otherwise goes on with the registers the task was interrupted with; `sigreturn` goes on with
the registers that the handler interrupted, and outside of a handler changes nothing. -/
def Transparent (s : Watched) (act : Act) (next : Watched) : Prop :=
  match act with
  | .event (.tick words rsp now mapped) =>
      ∀ slot, picked s.traced.kernel words rsp now = some slot →
        (s.traced.kernel.tasks slot).ring = .ring3 →
          match s.due slot with
          | some sig => Delivers (s.traced.kernel.tasks slot) sig mapped
              (next.traced.kernel.tasks slot)
              (frameAt next.traced.kernel.mem (next.traced.kernel.tasks slot).rsp)
          | none => frameAt next.traced.kernel.mem (next.traced.kernel.tasks slot).rsp =
              next.traced.saved slot
  | .sigreturn frame =>
      ∀ cur, s.traced.kernel.current = some cur →
        match s.interrupted cur with
        | some registers => afterSigreturn (s.traced.kernel.tasks cur) frame = registers
        | none => afterSigreturn (s.traced.kernel.tasks cur) frame = returnToUser frame (-1) ∧
            next.traced = s.traced
  | _ => True

/-- A task begins with a clean record: it is not created over a task that was in a handler or
had signals pending, and neither `fork` nor `execve` is called by a handler. -/
def BeginsClean (s : Watched) : Act → Prop
  | .event (.create slot _ _ _ _ false) =>
      (s.traced.kernel.tasks slot).sigInHandler = false ∧
        ∀ sig, (s.traced.kernel.tasks slot).sigPending sig = false
  | .event (.create _ _ _ _ _ true) | .execve =>
      ∀ cur, s.traced.kernel.current = some cur →
        (s.traced.kernel.tasks cur).sigInHandler = false
  | _ => True

/-! ## The record -/

/-- The record of a task says what its program has seen. -/
structure Agrees (t : Task) (interrupted : Option Registers) (owed : Signal → Bool) : Prop where
  handler : interrupted = if t.sigInHandler then some t.sigSave else none
  owed_eq : owed = t.sigPending

structure WatchedInv (s : Watched) : Prop where
  inv : Inv s.traced
  agrees : ∀ slot, (s.traced.kernel.tasks slot).state.isLive = true →
    Agrees (s.traced.kernel.tasks slot) (s.interrupted slot) (s.owed slot)

/-- A change of the state and the stack pointer of a task alone. -/
def OnlyMoves (before after : Task) : Prop :=
  ∃ state rsp, after = { before with state := state, rsp := rsp }

theorem OnlyMoves.refl (t : Task) : OnlyMoves t t := ⟨t.state, t.rsp, rfl⟩

theorem OnlyMoves.trans {first second third : Task} (h : OnlyMoves first second)
    (h' : OnlyMoves second third) : OnlyMoves first third := by
  obtain ⟨_, _, rfl⟩ := h
  obtain ⟨state, rsp, rfl⟩ := h'
  exact ⟨state, rsp, rfl⟩

theorem onlyMoves_changed {tasks : Slot → Task} {slot other : Slot} {t : Task}
    (h : OnlyMoves (tasks slot) t) :
    OnlyMoves (tasks other) (update tasks slot t other) := by
  by_cases heq : other = slot
  · subst heq
    rw [update_self]
    exact h
  · rw [update_of_ne heq]
    exact OnlyMoves.refl _

theorem onlyMoves_findReady (tasks : Slot → Task) (slots : List Slot) (slot : Slot) :
    OnlyMoves (tasks slot) ((findReady tasks slots).1 slot) := by
  induction slots generalizing tasks with
  | nil => exact OnlyMoves.refl _
  | cons first rest ih =>
      rw [findReady]
      split
      · exact OnlyMoves.refl _
      · split
        · exact (onlyMoves_changed ⟨.dead, _, rfl⟩).trans (ih _)
        · exact ih _

theorem onlyMoves_pickNext (k : Kernel) (rsp now : ℕ) (slot : Slot) :
    OnlyMoves (k.tasks slot) ((pickNext k rsp now).1.tasks slot) := by
  have hsaved : OnlyMoves (k.tasks slot) ((saveCurrent k rsp).tasks slot) := by
    unfold saveCurrent
    split
    · exact OnlyMoves.refl _
    · exact onlyMoves_changed ⟨_, rsp, rfl⟩
  have hwoken : OnlyMoves ((saveCurrent k rsp).tasks slot)
      ((wakeSleepers (saveCurrent k rsp) now).tasks slot) := by
    unfold wakeSleepers
    dsimp only
    split
    · exact ⟨.ready, _, rfl⟩
    · exact OnlyMoves.refl _
  unfold pickNext
  dsimp only
  generalize rounds ((wakeSleepers (saveCurrent k rsp) now).current.getD _) = slots
  have hfound := onlyMoves_findReady (wakeSleepers (saveCurrent k rsp) now).tasks slots slot
  split
  · exact (hsaved.trans hwoken).trans hfound
  · exact ((hsaved.trans hwoken).trans hfound).trans (onlyMoves_changed ⟨.running, _, rfl⟩)

variable {interrupted : Option Registers} {owed : Signal → Bool}

theorem Agrees.moves {before after : Task} (h : Agrees before interrupted owed)
    (hmoves : OnlyMoves before after) : Agrees after interrupted owed := by
  obtain ⟨_, _, rfl⟩ := hmoves
  exact ⟨h.handler, h.owed_eq⟩

/-! ## A delivery -/

def Task.due (t : Task) : Option Signal :=
  if t.sigInHandler then none else firstPending t

variable {slot : Slot} {sig : Signal}

theorem due_of_agrees {s : Watched} {t : Task} (h : Agrees t (s.interrupted slot) (s.owed slot)) :
    s.due slot = t.due := by
  unfold Watched.due Task.due firstPending
  rw [h.handler, h.owed_eq]
  cases t.sigInHandler with
  | false => rfl
  | true => rfl

section Delivery

variable {mem : Memory} {t : Task} {mapped : Bool}

theorem due_eq_some (hdue : t.due = some sig) :
    t.sigInHandler = false ∧ firstPending t = some sig := by
  unfold Task.due at hdue
  split at hdue
  · cases hdue
  · rename_i hhandler
    exact ⟨Bool.eq_false_iff.mpr hhandler, hdue⟩

theorem taskDeliverSignals_none (hdue : t.due = none) :
    taskDeliverSignals mem t mapped = .done mem t := by
  unfold Task.due at hdue
  unfold taskDeliverSignals
  split at hdue
  · rename_i hhandler
    split
    · rfl
    · rw [hhandler, if_pos rfl, ite_self]
  · rw [hdue]

variable (mem t mapped) in
theorem taskDeliverSignals_some (sig : Signal) (hring : t.ring = .ring3)
    (hrsp : kernelBase ≤ t.rsp) (hdue : t.due = some sig) :
    taskDeliverSignals mem t mapped =
      if Catches t sig mapped then
        .done (callHandler mem (t.take sig) sig).1 (callHandler mem (t.take sig) sig).2
      else if sig = sigkill ∨ t.sigHandlers sig = 0 then
        .done mem ((t.take sig).terminate sig)
      else .fault mem { t.take sig with state := .dead, kernelStackBase := 0, rsp := 0 } := by
  obtain ⟨hhandler, hfirst⟩ := due_eq_some hdue
  unfold taskDeliverSignals
  rw [hfirst]
  dsimp only
  rw [if_neg (not_not.mpr hring), hhandler, if_neg Bool.false_ne_true, if_neg (not_lt.mpr hrsp)]
  by_cases hends : sig = sigkill ∨ t.sigHandlers sig = 0
  · have hnot : ¬ Catches t sig mapped := by
      rintro ⟨hsig, hzero, _⟩
      exact hends.elim hsig hzero
    rw [if_pos hends, if_neg hnot, if_pos hends]
  · rw [if_neg hends]
    rw [not_or] at hends
    cases mapped with
    | true => rw [if_pos rfl, if_pos ⟨hends.1, hends.2, rfl⟩]
    | false =>
        have hnot : ¬ Catches t sig false := fun h => nomatch h.2.2
        rw [if_neg Bool.false_ne_true, if_neg hnot, if_neg (not_or.mpr hends)]

theorem frameAt_callHandler (sig : Signal) :
    (frameAt (callHandler mem t sig).1 t.rsp).rip = t.sigHandlers sig ∧
      (frameAt (callHandler mem t sig).1 t.rsp).rdi = UInt64.ofNat sig.val := by
  have hrip : (callHandler mem t sig).1 (t.rsp + 120) = t.sigHandlers sig := by
    unfold callHandler
    dsimp only
    rw [update_of_ne (by omega), update_of_ne (by omega),
      update_of_ne (by omega), update_of_ne (by omega), update_self]
  have hrdi : (callHandler mem t sig).1 (t.rsp + 80) = UInt64.ofNat sig.val := by
    unfold callHandler
    dsimp only
    rw [update_of_ne (by omega), update_of_ne (by omega),
      update_of_ne (by omega), update_self]
  exact ⟨hrip, hrdi⟩

end Delivery

/-- A switch to a task does for it what its program can count on, and the record goes with
what the program has seen. -/
structure Dealt (before : Task) (saved : Registers) (due : Option Signal)
    (interrupted : Option Registers) (owed : Signal → Bool) (mapped : Bool) (after : Task)
    (frame : Registers) : Prop where
  none_due : due = none → frame = saved ∧
    (after.state.isLive = true → Agrees after interrupted owed)
  some_due : ∀ sig, due = some sig → Delivers before sig mapped after frame ∧
    (after.state.isLive = true →
      Agrees after (if Catches before sig mapped then some saved else interrupted)
        (update owed sig false))

section Dispatch

variable {k : Kernel} {next : Slot} {mapped : Bool} {saved : Registers}
  {interrupted : Option Registers} {owed : Signal → Bool}

theorem dispatch_done {mem : Memory} {t : Task}
    (hdone : taskDeliverSignals k.mem (k.tasks next) mapped = .done mem t) :
    (dispatch k next mapped).1.mem = mem ∧
      ∃ state, (dispatch k next mapped).1.tasks next = { t with state := state } ∧
        (state = t.state ∨ state = .dead) := by
  unfold dispatch
  rw [hdone]
  dsimp only
  split
  · exact ⟨rfl, .dead, update_self .., Or.inr rfl⟩
  · exact ⟨rfl, t.state, update_self .., Or.inl rfl⟩

theorem dispatch_fault {mem : Memory} {t : Task}
    (hfault : taskDeliverSignals k.mem (k.tasks next) mapped = .fault mem t) :
    (dispatch k next mapped).1.tasks next = t := by
  unfold dispatch
  rw [hfault]
  exact update_self ..

variable (k next mapped saved) in
theorem dealt_dispatch (hring : (k.tasks next).ring = .ring3)
    (hrsp : kernelBase ≤ (k.tasks next).rsp) (hframe : frameAt k.mem (k.tasks next).rsp = saved)
    (hagrees : Agrees (k.tasks next) interrupted owed)
    (huser : ∀ sig, CallsHandler (k.tasks next) sig → UserFrame saved) :
    Dealt (k.tasks next) saved (k.tasks next).due interrupted owed mapped
      ((dispatch k next mapped).1.tasks next)
      (frameAt (dispatch k next mapped).1.mem ((dispatch k next mapped).1.tasks next).rsp) := by
  constructor
  · intro hdue
    obtain ⟨hmem, state, htask, _⟩ := dispatch_done (taskDeliverSignals_none hdue)
    rw [hmem, htask]
    exact ⟨hframe, fun _ => ⟨hagrees.handler, hagrees.owed_eq⟩⟩
  · intro sig hdue
    have hsome := taskDeliverSignals_some k.mem (k.tasks next) mapped sig hring hrsp hdue
    unfold Delivers
    by_cases hcatches : Catches (k.tasks next) sig mapped
    · rw [if_pos hcatches] at hsome ⊢
      rw [if_pos hcatches]
      obtain ⟨hmem, state, htask, _⟩ := dispatch_done hsome
      obtain ⟨hhandler, hfirst⟩ := due_eq_some hdue
      have hcalls : CallsHandler (k.tasks next) sig :=
        ⟨hfirst, hring, hhandler, hcatches.1, hcatches.2.1⟩
      have hsave := callHandler_save k.mem ((k.tasks next).take sig) sig
        (hframe.symm ▸ huser sig hcalls)
      rw [hmem, htask]
      refine ⟨frameAt_callHandler sig, fun _ => ⟨?_, ?_⟩⟩
      · exact congrArg some (hframe.symm.trans hsave.symm)
      · rw [hagrees.owed_eq]
        rfl
    · rw [if_neg hcatches] at hsome ⊢
      rw [if_neg hcatches]
      have hdead : ((dispatch k next mapped).1.tasks next).state = .dead := by
        split at hsome
        · obtain ⟨_, state, htask, hstate⟩ := dispatch_done hsome
          rw [htask]
          exact hstate.elim id id
        · rw [dispatch_fault hsome]
      rw [hdead]
      exact ⟨rfl, nofun⟩

end Dispatch

/-! ## A step -/

/-- Whenever a handler is called, the task was interrupted in user mode. -/
def DeliversToUser (s : Watched) : Act → Prop
  | .event event => CallsFromUser s.traced.kernel event
  | _ => True

/-- The same signal record, of a task that is live no more often. -/
structure SameRecord (before after : Task) : Prop where
  live : after.state.isLive = true → before.state.isLive = true
  handler : after.sigInHandler = before.sigInHandler
  save : after.sigSave = before.sigSave
  pending : after.sigPending = before.sigPending

theorem SameRecord.refl (t : Task) : SameRecord t t := ⟨id, rfl, rfl, rfl⟩

theorem sameRecord_changed {k : Kernel} {slot other : Slot} {change : Task → Task}
    (h : SameRecord (k.tasks slot) (change (k.tasks slot))) :
    SameRecord (k.tasks other) ((changeTask k slot change).tasks other) := by
  unfold changeTask
  dsimp only
  by_cases heq : other = slot
  · subst heq
    rw [update_self]
    exact h
  · rw [update_of_ne heq]
    exact SameRecord.refl _

theorem SameRecord.agrees {before after : Task} (h : SameRecord before after)
    (hagrees : Agrees before interrupted owed) : Agrees after interrupted owed := by
  refine ⟨?_, hagrees.owed_eq.trans h.pending.symm⟩
  rw [h.handler, h.save]
  exact hagrees.handler

section Step

variable {s : Watched}

theorem WatchedInv.keep (h : WatchedInv s) {event : Event}
    (hinv : Inv (s.traced.next event))
    (hseen : s.seen (.event event) = (s.interrupted, s.owed))
    (hsame : ∀ slot, SameRecord (s.traced.kernel.tasks slot)
      ((event.run s.traced.kernel).tasks slot)) : WatchedInv (s.next (.event event)) := by
  refine ⟨hinv, fun slot hlive => ?_⟩
  unfold Watched.next
  dsimp only
  rw [hseen]
  exact (hsame slot).agrees (h.agrees slot ((hsame slot).live hlive))

theorem sameRecord_run {k : Kernel} {event : Event}
    (hkind : (∃ sig handler, event = .sigaction sig handler) ∨ (∃ deadline, event = .sleep deadline) ∨
      (∃ slot, event = .wake slot) ∨ ∃ slot freed, event = .stop slot freed) (slot : Slot) :
    SameRecord (k.tasks slot) ((event.run k).tasks slot) := by
  rcases hkind with ⟨sig, handler, rfl⟩ | ⟨deadline, rfl⟩ | ⟨other, rfl⟩ | ⟨other, freed, rfl⟩
  · unfold Event.run
    dsimp only
    split
    · exact sameRecord_changed ⟨id, rfl, rfl, rfl⟩
    · exact SameRecord.refl _
  · unfold Event.run
    dsimp only
    split
    · split
      · rename_i hcur
        exact sameRecord_changed ⟨fun _ => hcur, rfl, rfl, rfl⟩
      · exact SameRecord.refl _
    · exact SameRecord.refl _
  · unfold Event.run
    dsimp only
    split
    · rename_i hsleeping
      exact sameRecord_changed ⟨fun _ => by rw [hsleeping]; rfl, rfl, rfl, rfl⟩
    · exact SameRecord.refl _
  · unfold Event.run
    refine sameRecord_changed ⟨fun hlive => ?_, rfl, rfl, rfl⟩
    cases freed <;> cases hlive

/-- `sigreturn` goes on with what the handler interrupted. -/
theorem afterSigreturn_of_some {t : Task} {registers : Registers}
    (h : Agrees t (some registers) owed) (frame : Registers) :
    afterSigreturn t frame = registers := by
  have hsome := h.handler
  unfold afterSigreturn kSysSigreturn
  split at hsome
  · rename_i hhandler
    rw [if_pos hhandler, Option.some.inj hsome]
    rfl
  · cases hsome

theorem afterSigreturn_of_none {t : Task} (h : Agrees t none owed) (frame : Registers) :
    afterSigreturn t frame = returnToUser frame (-1) ∧ t.sigreturn = t := by
  have hnone := h.handler
  unfold afterSigreturn kSysSigreturn
  split at hnone
  · cases hnone
  · rename_i hhandler
    rw [if_neg hhandler]
    refine ⟨rfl, ?_⟩
    unfold Task.sigreturn
    rw [← Bool.eq_false_iff.mpr hhandler]

theorem WatchedInv.sigreturn (h : WatchedInv s) {frame : Registers}
    (hinv : Inv (s.traced.next .sigreturn))
    (hlive : ∀ cur, s.traced.kernel.current = some cur →
      (s.traced.kernel.tasks cur).state.isLive = true) :
    WatchedInv (s.next (.sigreturn frame)) ∧
      Transparent s (.sigreturn frame) (s.next (.sigreturn frame)) := by
  unfold Transparent Watched.next Watched.seen kernelEvent
  dsimp only
  unfold Traced.next Event.run Event.saved at hinv ⊢
  dsimp only at hinv ⊢
  cases hcurrent : s.traced.kernel.current with
  | none =>
      rw [hcurrent] at hinv
      exact ⟨⟨hinv, h.agrees⟩, fun cur heq => nomatch heq⟩
  | some cur =>
      rw [hcurrent] at hinv
      have hcur := h.agrees cur (hlive cur hcurrent)
      refine ⟨⟨hinv, fun slot hslot => ?_⟩, ?_⟩
      · dsimp only [changeTask] at hslot ⊢
        by_cases heq : slot = cur
        · subst heq
          rw [update_self, update_self]
          exact ⟨rfl, hcur.owed_eq⟩
        · rw [update_of_ne heq] at hslot
          rw [update_of_ne heq, update_of_ne heq]
          exact h.agrees slot hslot
      · intro slot heq
        cases heq
        cases hinterrupted : s.interrupted cur with
        | some registers =>
            rw [hinterrupted] at hcur
            exact afterSigreturn_of_some hcur frame
        | none =>
            rw [hinterrupted] at hcur
            obtain ⟨hafter, hsame⟩ := afterSigreturn_of_none hcur frame
            refine ⟨hafter, ?_⟩
            dsimp only [changeTask]
            rw [hsame, update_eq_self]

theorem WatchedInv.execve (h : WatchedInv s) (hclean : BeginsClean s .execve) :
    WatchedInv (s.next .execve) := by
  refine ⟨h.inv, fun slot hslot => ?_⟩
  have hagrees := h.agrees slot hslot
  unfold Watched.next Watched.seen
  dsimp only
  cases hcurrent : s.traced.kernel.current with
  | none => exact hagrees
  | some cur =>
      by_cases heq : slot = cur
      · subst heq
        have hhandler := hclean slot hcurrent
        dsimp only [kernelEvent]
        rw [update_self]
        refine ⟨?_, hagrees.owed_eq⟩
        rw [hhandler]
        rfl
      · dsimp only [kernelEvent]
        rw [update_of_ne heq]
        exact hagrees

theorem WatchedInv.kill (h : WatchedInv s) (hinv : Inv (s.traced.next (.kill slot sig))) :
    WatchedInv (s.next (.event (.kill slot sig))) := by
  refine ⟨hinv, fun other hother => ?_⟩
  revert hother
  unfold Watched.next Watched.seen kernelEvent
  dsimp only
  unfold Traced.next Event.run sendSignal
  dsimp only
  by_cases hlive : sig.val = 0 ∨ (s.traced.kernel.tasks slot).state.isLive = false
  · have hskip : sig.val = 0 ∨ (s.traced.kernel.tasks slot).state = .free ∨
        (s.traced.kernel.tasks slot).state = .dead := by
      refine hlive.imp_right fun hdead => ?_
      cases hstate : (s.traced.kernel.tasks slot).state with
      | free => exact Or.inl rfl
      | dead => exact Or.inr rfl
      | ready => rw [hstate] at hdead; cases hdead
      | running => rw [hstate] at hdead; cases hdead
      | sleeping => rw [hstate] at hdead; cases hdead
    rw [if_pos hlive, if_pos hskip]
    exact h.agrees other
  · have hsent : ¬ (sig.val = 0 ∨ (s.traced.kernel.tasks slot).state = .free ∨
        (s.traced.kernel.tasks slot).state = .dead) := by
      rintro (hzero | hfree | hdead)
      · exact hlive (Or.inl hzero)
      · exact hlive (Or.inr (by rw [hfree]; rfl))
      · exact hlive (Or.inr (by rw [hdead]; rfl))
    rw [if_neg hlive, if_neg hsent]
    dsimp only
    by_cases heq : other = slot
    · subst heq
      rw [update_self, update_self]
      intro hother
      have hagrees := h.agrees other hother
      refine ⟨hagrees.handler, ?_⟩
      dsimp only
      rw [hagrees.owed_eq]
    · rw [update_of_ne heq, update_of_ne heq]
      exact h.agrees other

theorem WatchedInv.create (h : WatchedInv s) {ring : Ring} {words : Memory} {stack rsp : ℕ}
    {clears : Bool} (hinv : Inv (s.traced.next (.create slot ring words stack rsp clears)))
    (hclean : BeginsClean s (.event (.create slot ring words stack rsp clears)))
    (hlive : clears = true → ∀ cur, s.traced.kernel.current = some cur →
      (s.traced.kernel.tasks cur).state.isLive = true) :
    WatchedInv (s.next (.event (.create slot ring words stack rsp clears))) := by
  refine ⟨hinv, fun other hother => ?_⟩
  revert hother
  unfold Watched.next Watched.seen kernelEvent
  dsimp only
  unfold Traced.next Event.run
  dsimp only
  by_cases heq : other = slot
  · subst heq
    rw [update_self, update_self, update_self]
    intro _
    cases clears with
    | false =>
        obtain ⟨hhandler, hpending⟩ := hclean
        refine ⟨?_, ?_⟩
        · unfold newTask
          rw [if_neg Bool.false_ne_true, if_neg Bool.false_ne_true, hhandler]
          rfl
        · funext sig
          exact (hpending sig).symm
    | true =>
        refine ⟨?_, rfl⟩
        rw [if_pos rfl]
        cases hcurrent : s.traced.kernel.current with
        | none => rfl
        | some cur =>
            have hhandler := (h.agrees cur (hlive rfl cur hcurrent)).handler
            rw [hclean cur hcurrent] at hhandler
            exact hhandler
  · rw [update_of_ne heq, update_of_ne heq, update_of_ne heq]
    exact h.agrees other

theorem agrees_dispatch_kernel {k : Kernel} {next : Slot} {mapped : Bool}
    (hring : (k.tasks next).ring ≠ .ring3) (hagrees : Agrees (k.tasks next) interrupted owed) :
    Agrees ((dispatch k next mapped).1.tasks next) interrupted owed := by
  have hdone : taskDeliverSignals k.mem (k.tasks next) mapped = .done k.mem (k.tasks next) := by
    unfold taskDeliverSignals
    split
    · rfl
    · rw [if_pos hring]
  obtain ⟨_, state, htask, _⟩ := dispatch_done hdone
  rw [htask]
  exact ⟨hagrees.handler, hagrees.owed_eq⟩

variable (s) in
theorem dealt_switch (k : Kernel) (saved : Slot → Registers) (next : Slot) (mapped : Bool)
    (hkept : FramesKept (fun _ => True) k saved) (hlive : k.Live next)
    (hmoves : OnlyMoves (s.traced.kernel.tasks next) (k.tasks next))
    (hring : (s.traced.kernel.tasks next).ring = .ring3)
    (hagrees : Agrees (s.traced.kernel.tasks next) (s.interrupted next) (s.owed next))
    (huser : ∀ sig, CallsHandler (k.tasks next) sig →
      UserFrame (frameAt k.mem (k.tasks next).rsp)) :
    Dealt (s.traced.kernel.tasks next) (saved next) (s.due next) (s.interrupted next)
      (s.owed next) mapped ((dispatch k next mapped).1.tasks next)
      (frameAt (dispatch k next mapped).1.mem ((dispatch k next mapped).1.tasks next).rsp) := by
  obtain ⟨hin, hframe⟩ := hkept.frames next trivial hlive
  have hrsp : kernelBase ≤ (k.tasks next).rsp := (hkept.kernel_half next hlive).trans hin.1
  rw [hframe] at huser
  have hpicked : Agrees (k.tasks next) (s.interrupted next) (s.owed next) := hagrees.moves hmoves
  have hringPicked : (k.tasks next).ring = .ring3 := by
    obtain ⟨_, _, heq⟩ := hmoves
    rw [heq]
    exact hring
  have hdealt := dealt_dispatch k next mapped (saved next) hringPicked hrsp hframe hpicked huser
  rw [← due_of_agrees hpicked] at hdealt
  obtain ⟨state, rsp, heq⟩ := hmoves
  refine ⟨hdealt.none_due, fun sig hdue => ?_⟩
  have hsome := hdealt.some_due sig hdue
  have hcatches : Catches (k.tasks next) sig mapped =
      Catches (s.traced.kernel.tasks next) sig mapped := by
    rw [heq]
    rfl
  have hhandlers : (k.tasks next).sigHandlers = (s.traced.kernel.tasks next).sigHandlers := by
    rw [heq]
  unfold Delivers at hsome ⊢
  simp only [hcatches, hhandlers] at hsome
  exact hsome

theorem agrees_deliver {after : Kernel} {saved : Slot → Registers} {next : Slot} {mapped : Bool}
    {frame : Registers}
    (hdealt : Dealt (s.traced.kernel.tasks next) (saved next) (s.due next) (s.interrupted next)
      (s.owed next) mapped (after.tasks next) frame)
    (hother : ∀ slot, slot ≠ next → after.Live slot →
      Agrees (after.tasks slot) (s.interrupted slot) (s.owed slot)) (slot : Slot)
    (hslot : after.Live slot) :
    Agrees (after.tasks slot) ((s.deliver saved next mapped).1 slot)
      ((s.deliver saved next mapped).2 slot) := by
  unfold Watched.deliver
  cases hdue : s.due next with
  | none =>
      by_cases heq : slot = next
      · subst heq
        exact (hdealt.none_due hdue).2 hslot
      · exact hother slot heq hslot
  | some sig =>
      dsimp only
      by_cases heq : slot = next
      · subst heq
        have hboth := (hdealt.some_due sig hdue).2 hslot
        rw [update_self]
        split
        · rename_i hcatches
          rw [if_pos hcatches] at hboth
          rw [update_self]
          exact hboth
        · rename_i hcatches
          rw [if_neg hcatches] at hboth
          exact hboth
      · have hsame := hother slot heq hslot
        rw [update_of_ne heq]
        split
        · rw [update_of_ne heq]
          exact hsame
        · exact hsame

theorem WatchedInv.tick (h : WatchedInv s) {words : Memory} {rsp now : ℕ} {mapped : Bool}
    (hpossible : Possible s.traced.kernel (.tick words rsp now mapped))
    (huser : CallsFromUser s.traced.kernel (.tick words rsp now mapped)) :
    WatchedInv (s.next (.event (.tick words rsp now mapped))) ∧
      Transparent s (.event (.tick words rsp now mapped))
        (s.next (.event (.tick words rsp now mapped))) := by
  have hinv := (h.inv.tick hpossible huser).1
  have hkept : FramesKept (fun _ => True)
      (pickNext (writeCurrent s.traced.kernel words) rsp now).1
      (Event.saved s.traced.kernel s.traced.saved (.tick words rsp now mapped)) :=
    (framesKept_saveCurrent h.inv hpossible).congr (pickNext_mem _ _ _) (fun _ _ _ => trivial)
      (sameFrame_pickNext _ _ _)
  have hmoves : ∀ slot, OnlyMoves (s.traced.kernel.tasks slot)
      ((pickNext (writeCurrent s.traced.kernel words) rsp now).1.tasks slot) := by
    intro slot
    have hslot := onlyMoves_pickNext (writeCurrent s.traced.kernel words) rsp now slot
    rw [writeCurrent_tasks] at hslot
    exact hslot
  have hlive : ∀ slot, (pickNext (writeCurrent s.traced.kernel words) rsp now).1.Live slot →
      s.traced.kernel.Live slot :=
    fun slot hslot => live_writeCurrent.mp (live_pickNext _ _ _ _ hslot)
  have hsome := pickNext_some (writeCurrent s.traced.kernel words) rsp now
  have hcalls : ∀ slot, (pickNext (writeCurrent s.traced.kernel words) rsp now).2 = some slot →
      ∀ sig, CallsHandler
          ((pickNext (writeCurrent s.traced.kernel words) rsp now).1.tasks slot) sig →
        UserFrame (frameAt (pickNext (writeCurrent s.traced.kernel words) rsp now).1.mem
          ((pickNext (writeCurrent s.traced.kernel words) rsp now).1.tasks slot).rsp) := huser
  suffices hstep : (∀ slot, ((s.next (.event (.tick words rsp now mapped))).traced.kernel).Live
        slot → Agrees ((s.next (.event (.tick words rsp now mapped))).traced.kernel.tasks slot)
          ((s.seen (.event (.tick words rsp now mapped))).1 slot)
          ((s.seen (.event (.tick words rsp now mapped))).2 slot)) ∧
      Transparent s (.event (.tick words rsp now mapped))
        (s.next (.event (.tick words rsp now mapped))) from ⟨⟨hinv, hstep.1⟩, hstep.2⟩
  unfold Transparent Watched.next Watched.seen kernelEvent picked
  dsimp only
  unfold Traced.next Event.run schedule
  dsimp only
  generalize Event.saved s.traced.kernel s.traced.saved (.tick words rsp now mapped) = saved at *
  generalize pickNext (writeCurrent s.traced.kernel words) rsp now = pick at *
  obtain ⟨k, chosen⟩ := pick
  cases chosen with
  | none =>
      refine ⟨fun slot hslot => ?_, fun slot heq => nomatch heq⟩
      exact (h.agrees slot (hlive slot hslot)).moves (hmoves slot)
  | some next =>
      obtain ⟨hcurrent, hrunning⟩ := hsome next rfl
      have hnext : k.Live next := by
        unfold Kernel.Live
        rw [hrunning]
        rfl
      have hother : ∀ slot, slot ≠ next → (dispatch k next mapped).1.Live slot →
          Agrees ((dispatch k next mapped).1.tasks slot) (s.interrupted slot) (s.owed slot) := by
        intro slot hne hslot
        unfold Kernel.Live at hslot
        rw [dispatch_other k mapped hne] at hslot ⊢
        exact (h.agrees slot (hlive slot hslot)).moves (hmoves slot)
      have hagrees := h.agrees next (hlive next hnext)
      dsimp only
      by_cases hring : (s.traced.kernel.tasks next).ring = .ring3
      · have hdealt := dealt_switch s k saved next mapped hkept hnext (hmoves next) hring hagrees
          (hcalls next rfl)
        rw [if_pos hring]
        refine ⟨agrees_deliver hdealt hother, ?_⟩
        rintro slot heq _
        cases heq
        cases hdue : s.due next with
        | none => exact (hdealt.none_due hdue).1
        | some sig => exact (hdealt.some_due sig hdue).1
      · rw [if_neg hring]
        refine ⟨fun slot hslot => ?_, ?_⟩
        · by_cases heq : slot = next
          · subst heq
            refine agrees_dispatch_kernel ?_ (hagrees.moves (hmoves slot))
            obtain ⟨_, _, htask⟩ := hmoves slot
            rw [htask]
            exact hring
          · exact hother slot heq hslot
        · rintro slot heq hslot
          cases heq
          exact absurd hslot hring

/-- A task that begins clean is dealt with as its program can count on, step by step. -/
theorem WatchedInv.step (h : WatchedInv s) {act : Act} {next : Watched}
    (huser : DeliversToUser s act) (hclean : BeginsClean s act) (hstep : WatchedStep s act next) :
    WatchedInv next ∧ Transparent s act next := by
  obtain ⟨hevent, hcaller, rfl⟩ := hstep
  cases act with
  | sigreturn frame =>
      have hguard : CallsFromUser s.traced.kernel .sigreturn := trivial
      exact h.sigreturn (h.inv.step hguard ⟨trivial, rfl⟩).1 (hcaller trivial)
  | execve => exact ⟨h.execve hclean, trivial⟩
  | event event =>
      obtain ⟨hnot, hpossible⟩ := hevent event rfl
      have hinv := (h.inv.step huser ⟨hpossible, rfl⟩).1
      cases event with
      | tick words rsp now mapped => exact h.tick hpossible huser
      | create slot ring words stack rsp clears =>
          exact ⟨h.create hinv hclean fun heq => hcaller heq, trivial⟩
      | kill slot sig => exact ⟨h.kill hinv, trivial⟩
      | sigreturn => exact absurd rfl hnot
      | sigaction sig handler =>
          exact ⟨h.keep hinv rfl (sameRecord_run (Or.inl ⟨sig, handler, rfl⟩)), trivial⟩
      | sleep deadline =>
          exact ⟨h.keep hinv rfl (sameRecord_run (Or.inr (Or.inl ⟨deadline, rfl⟩))), trivial⟩
      | wake slot =>
          exact ⟨h.keep hinv rfl (sameRecord_run (Or.inr (Or.inr (Or.inl ⟨slot, rfl⟩)))), trivial⟩
      | stop slot freed =>
          exact ⟨h.keep hinv rfl (sameRecord_run (Or.inr (Or.inr (Or.inr ⟨slot, freed, rfl⟩)))),
            trivial⟩

end Step

/-! ## Once each -/

/-- A step sends the task a signal that is not owed to it yet. -/
def Sends (slot : Slot) (sig : Signal) (s : Watched) : Act → Prop
  | .event (.kill target sent) => target = slot ∧ sent = sig ∧ sig.val ≠ 0 ∧
      (s.traced.kernel.tasks slot).state.isLive = true ∧ s.owed slot sig = false
  | _ => False

/-- A step is a switch that has to deliver the signal to the task. -/
def HasToDeliver (slot : Slot) (sig : Signal) (s : Watched) : Act → Prop
  | .event (.tick words rsp now _) => picked s.traced.kernel words rsp now = some slot ∧
      (s.traced.kernel.tasks slot).ring = .ring3 ∧ s.due slot = some sig
  | _ => False

instance (slot : Slot) (sig : Signal) (s : Watched) : DecidablePred (Sends slot sig s) := by
  intro act
  unfold Sends
  split <;> infer_instance

instance (slot : Slot) (sig : Signal) (s : Watched) : DecidablePred (HasToDeliver slot sig s) := by
  intro act
  unfold HasToDeliver
  split <;> infer_instance

/-- How many steps of a run are of a kind. -/
def countSteps (kind : Watched → Act → Prop) [∀ s, DecidablePred (kind s)] :
    Watched → List (Act × Watched) → ℕ
  | _, [] => 0
  | s, (act, next) :: rest => (if kind s act then 1 else 0) + countSteps kind next rest

/-- Whether a signal is owed, as a number. -/
def Watched.debt (s : Watched) (slot : Slot) (sig : Signal) : ℕ :=
  if s.owed slot sig then 1 else 0

/-- The slot is not used for another task. -/
def KeepsTask (slot : Slot) : Act → Prop
  | .event event => KeepsSlot slot event
  | _ => True

theorem due_owed {s : Watched} (hdue : s.due slot = some sig) : s.owed slot sig = true := by
  unfold Watched.due at hdue
  split at hdue
  · exact (Fin.find?_eq_some_iff.mp hdue).1
  · cases hdue

theorem Watched.debt_congr {s next : Watched} (hsame : next.owed slot sig = s.owed slot sig) :
    next.debt slot sig = s.debt slot sig := by
  unfold Watched.debt
  rw [hsame]

theorem owed_tick (s : Watched) (slot : Slot) (sig : Signal) (words : Memory) (rsp now : ℕ)
    (mapped : Bool) :
    (HasToDeliver slot sig s (.event (.tick words rsp now mapped)) →
        (s.next (.event (.tick words rsp now mapped))).owed slot sig = false) ∧
      (¬ HasToDeliver slot sig s (.event (.tick words rsp now mapped)) →
        (s.next (.event (.tick words rsp now mapped))).owed slot sig = s.owed slot sig) := by
  unfold Watched.next Watched.seen HasToDeliver
  dsimp only
  cases hpicked : picked s.traced.kernel words rsp now with
  | none => exact ⟨fun h => (nomatch h.1), fun _ => rfl⟩
  | some next =>
      dsimp only
      by_cases hring : (s.traced.kernel.tasks next).ring = .ring3
      · rw [if_pos hring]
        unfold Watched.deliver
        cases hdue : s.due next with
        | none =>
            refine ⟨?_, fun _ => rfl⟩
            rintro ⟨hslot, _, hsome⟩
            rw [← Option.some.inj hslot, hdue] at hsome
            cases hsome
        | some other =>
            dsimp only
            by_cases hslot : slot = next
            · subst hslot
              rw [update_self, hdue]
              by_cases hsig : sig = other
              · subst hsig
                rw [update_self]
                exact ⟨fun _ => rfl, fun hnot => absurd ⟨rfl, hring, rfl⟩ hnot⟩
              · rw [update_of_ne hsig]
                exact ⟨fun h => absurd (Option.some.inj h.2.2).symm hsig, fun _ => rfl⟩
            · rw [update_of_ne hslot]
              exact ⟨fun h => absurd (Option.some.inj h.1).symm hslot, fun _ => rfl⟩
      · rw [if_neg hring]
        refine ⟨?_, fun _ => rfl⟩
        rintro ⟨hslot, hthree, _⟩
        rw [← Option.some.inj hslot] at hthree
        exact absurd hthree hring

theorem owed_kill (s : Watched) (slot target : Slot) (sig sent : Signal) :
    (Sends slot sig s (.event (.kill target sent)) →
        (s.next (.event (.kill target sent))).owed slot sig = true) ∧
      (¬ Sends slot sig s (.event (.kill target sent)) →
        (s.next (.event (.kill target sent))).owed slot sig = s.owed slot sig) := by
  unfold Watched.next Watched.seen Sends
  dsimp only
  split
  · rename_i hskip
    refine ⟨?_, fun _ => rfl⟩
    rintro ⟨rfl, rfl, hzero, hlive, _⟩
    rcases hskip with hsig | hdead
    · exact absurd hsig hzero
    · rw [hdead] at hlive
      cases hlive
  · rename_i hsent
    rw [not_or, Bool.not_eq_false] at hsent
    dsimp only
    by_cases hslot : slot = target
    · subst hslot
      rw [update_self]
      by_cases hsig : sig = sent
      · subst hsig
        rw [update_self]
        refine ⟨fun _ => rfl, fun hnot => ?_⟩
        by_contra howed
        exact hnot ⟨rfl, rfl, hsent.1, hsent.2, Bool.eq_false_iff.mpr (Ne.symm howed)⟩
      · rw [update_of_ne hsig]
        exact ⟨fun h => absurd h.2.1.symm hsig, fun _ => rfl⟩
    · rw [update_of_ne hslot]
      exact ⟨fun h => absurd h.1.symm hslot, fun _ => rfl⟩

theorem debt_tick {s : Watched} {words : Memory} {rsp now : ℕ} {mapped : Bool} :
    s.debt slot sig = (if HasToDeliver slot sig s (.event (.tick words rsp now mapped)) then 1
      else 0) + (s.next (.event (.tick words rsp now mapped))).debt slot sig := by
  obtain ⟨htaken, hsame⟩ := owed_tick s slot sig words rsp now mapped
  by_cases hdeliver : HasToDeliver slot sig s (.event (.tick words rsp now mapped))
  · rw [if_pos hdeliver]
    unfold Watched.debt
    rw [htaken hdeliver, due_owed hdeliver.2.2]
    rfl
  · rw [if_neg hdeliver, Watched.debt_congr (hsame hdeliver), Nat.zero_add]

theorem debt_kill {s : Watched} {slot target : Slot} {sig sent : Signal} :
    (if Sends slot sig s (.event (.kill target sent)) then 1 else 0) + s.debt slot sig =
      (s.next (.event (.kill target sent))).debt slot sig := by
  obtain ⟨hadded, hsame⟩ := owed_kill s slot target sig sent
  by_cases hsends : Sends slot sig s (.event (.kill target sent))
  · rw [if_pos hsends]
    unfold Watched.debt
    rw [hadded hsends, hsends.2.2.2.2]
    rfl
  · rw [if_neg hsends, Watched.debt_congr (hsame hsends), Nat.zero_add]

theorem ledger_step (s next : Watched) (slot : Slot) (sig : Signal) (act : Act)
    (hkeep : KeepsTask slot act) (hstep : WatchedStep s act next) :
    (if Sends slot sig s act then 1 else 0) + s.debt slot sig =
      (if HasToDeliver slot sig s act then 1 else 0) + next.debt slot sig := by
  obtain ⟨_, _, rfl⟩ := hstep
  have hidle : ∀ {act : Act}, ¬ Sends slot sig s act → ¬ HasToDeliver slot sig s act →
      (s.next act).owed slot sig = s.owed slot sig →
      (if Sends slot sig s act then 1 else 0) + s.debt slot sig =
        (if HasToDeliver slot sig s act then 1 else 0) + (s.next act).debt slot sig := by
    intro act hsends hdeliver hsame
    rw [if_neg hsends, if_neg hdeliver, Watched.debt_congr hsame]
  cases act with
  | sigreturn frame | execve =>
      apply hidle id id
      unfold Watched.next Watched.seen
      dsimp only
      split <;> rfl
  | event event =>
      cases event with
      | tick words rsp now mapped =>
          have hnot : ¬ Sends slot sig s (.event (.tick words rsp now mapped)) := id
          rw [if_neg hnot, Nat.zero_add]
          exact debt_tick
      | kill target sent =>
          have hnot : ¬ HasToDeliver slot sig s (.event (.kill target sent)) := id
          rw [if_neg hnot, Nat.zero_add]
          exact debt_kill
      | create other ring words stack rsp clears =>
          apply hidle id id
          exact congrFun (update_of_ne (Ne.symm hkeep) _ _) sig
      | sigaction sig handler => exact hidle id id rfl
      | sigreturn => exact hidle id id rfl
      | sleep deadline => exact hidle id id rfl
      | wake other => exact hidle id id rfl
      | stop other freed => exact hidle id id rfl

theorem ledger_run {s : Watched} {run : List (Act × Watched)}
    (hkeep : ∀ step ∈ run, KeepsTask slot step.1) (hrun : Along WatchedStep s run) :
    countSteps (Sends slot sig) s run + s.debt slot sig =
      countSteps (HasToDeliver slot sig) s run + (final s run).debt slot sig := by
  induction run generalizing s with
  | nil => rfl
  | cons head rest ih =>
      obtain ⟨act, next⟩ := head
      have hstep := ledger_step s next slot sig act (hkeep (act, next) List.mem_cons_self) hrun.1
      have hrest := ih (fun step hmem => hkeep step (List.mem_cons_of_mem _ hmem)) hrun.2
      unfold countSteps final
      omega

/-! ## Runs -/

/-- The kernel after `init_tasking`, with nothing seen yet. -/
def watchedStart (mem : Memory) (bootStack kernelStackBase : ℕ) (saved : Slot → Registers) :
    Watched where
  traced := ⟨initTasking mem bootStack kernelStackBase, saved⟩
  interrupted _ := none
  owed _ _ := false

theorem watchedInv_start (mem : Memory) {bootStack : ℕ} (kernelStackBase : ℕ)
    (saved : Slot → Registers) (hhalf : kernelBase ≤ bootStack) :
    WatchedInv (watchedStart mem bootStack kernelStackBase saved) := by
  refine ⟨inv_initTasking mem kernelStackBase saved hhalf, fun slot _ => ?_⟩
  unfold watchedStart initTasking
  dsimp only
  by_cases heq : slot = mainSlot
  · subst heq
    rw [update_self]
    exact ⟨rfl, rfl⟩
  · rw [update_of_ne heq]
    exact ⟨rfl, rfl⟩

/-- From any point of a run on, each signal sent to a task is delivered to it once, unless it
is still owed. -/
def OnceEach (start : Watched) (run : List (Act × Watched)) : Prop :=
  ∀ first rest, run = first ++ rest → ∀ slot sig, (∀ step ∈ rest, KeepsTask slot step.1) →
    countSteps (Sends slot sig) (final start first) rest + (final start first).debt slot sig =
      countSteps (HasToDeliver slot sig) (final start first) rest +
        (final start run).debt slot sig

theorem onceEach_of_run {start : Watched} {run : List (Act × Watched)}
    (hrun : Along WatchedStep start run) : OnceEach start run := by
  rintro first rest rfl slot sig hkeep
  rw [final_append]
  exact ledger_run hkeep (along_append hrun)

/-- In every run that calls handlers for tasks interrupted in user mode, and whose tasks begin
with clean records, signals are delivered once each and handlers are transparent. -/
theorem transparent_along (mem : Memory) {bootStack : ℕ} (kernelStackBase : ℕ)
    (saved : Slot → Registers) {run : List (Act × Watched)} (hhalf : kernelBase ≤ bootStack)
    (hrun : Along WatchedStep (watchedStart mem bootStack kernelStackBase saved) run)
    (huser : Along (fun s act _ => DeliversToUser s act)
      (watchedStart mem bootStack kernelStackBase saved) run)
    (hclean : Along (fun s act _ => BeginsClean s act)
      (watchedStart mem bootStack kernelStackBase saved) run) :
    Along Transparent (watchedStart mem bootStack kernelStackBase saved) run ∧
      OnceEach (watchedStart mem bootStack kernelStackBase saved) run := by
  refine ⟨?_, onceEach_of_run hrun⟩
  refine along_of_guarded WatchedInv ?_ (watchedInv_start mem kernelStackBase saved hhalf) hrun
    (along_and huser hclean)
  rintro s act next h ⟨hs, hc⟩ hstep
  exact h.step hs hc hstep

def watched : Watched := watchedStart (fun _ => 0) bootStack 0x1000 fun _ => unusedTask.sigSave

/-- A process catches a signal, gets another, is interrupted in a system call of its handler,
and returns from it. -/
def handlerReturns : List Act :=
  [.event (.create userSlot .ring3 userWords userStack (userStack + 0x100) true),
    .event (.tick (kernelWords (bootStack + 0x100)) (bootStack + 0x100) 0 true),
    .event (.sigaction sigusr1 0x400000),
    .event (.kill userSlot sigusr1),
    .event (.tick userWords (userStack + 0x100) 1 true),
    .event (.tick (kernelWords (bootStack + 0x100)) (bootStack + 0x100) 2 true),
    .event (.kill userSlot sigusr1),
    .event (.tick (callWords (userStack + 0x100)) (userStack + 0x100) 3 true),
    .event (.tick (kernelWords (bootStack + 0x100)) (bootStack + 0x100) 4 true),
    .sigreturn (frameAt userWords 0)]

/-- A process exits from its handler, and its slot is used for another program. -/
def handlerExits : List Act :=
  [.event (.create userSlot .ring3 userWords userStack (userStack + 0x100) true),
    .event (.tick (kernelWords (bootStack + 0x100)) (bootStack + 0x100) 0 true),
    .event (.sigaction sigusr1 0x400000),
    .event (.kill userSlot sigusr1),
    .event (.tick userWords (userStack + 0x100) 1 true),
    .event (.tick (kernelWords (bootStack + 0x100)) (bootStack + 0x100) 2 true),
    .event (.stop userSlot true),
    .event (.tick userWords (userStack + 0x100) 3 true),
    .event (.create userSlot .ring3 userWords userStack (userStack + 0x100) false),
    .event (.tick (kernelWords (bootStack + 0x100)) (bootStack + 0x100) 4 true),
    .sigreturn (frameAt userWords 0)]

theorem watchedStep_event {s : Watched} {event : Event} (hnot : event ≠ .sigreturn)
    (hpossible : Possible s.traced.kernel event)
    (hcaller : IsCall (.event event) → ∀ cur, s.traced.kernel.current = some cur →
      (s.traced.kernel.tasks cur).state.isLive = true) :
    WatchedStep s (.event event) (s.next (.event event)) := by
  refine ⟨?_, hcaller, rfl⟩
  rintro other heq
  cases heq
  exact ⟨hnot, hpossible⟩

theorem along_handlerReturns :
    Along WatchedStep watched (trace Watched.next watched handlerReturns) :=
  ⟨watchedStep_event nofun (by decide) (fun _ => by decide),
    watchedStep_event nofun (by decide) nofun,
    watchedStep_event nofun trivial nofun,
    watchedStep_event nofun trivial nofun,
    watchedStep_event nofun (by decide) nofun,
    watchedStep_event nofun (by decide) nofun,
    watchedStep_event nofun trivial nofun,
    watchedStep_event nofun (by decide +kernel) nofun,
    watchedStep_event nofun (by decide +kernel) nofun,
    ⟨nofun, fun _ => by decide +kernel, rfl⟩, trivial⟩

theorem handlerReturns_transparent :
    Along Transparent watched (trace Watched.next watched handlerReturns) ∧
      OnceEach watched (trace Watched.next watched handlerReturns) :=
  transparent_along (fun _ => 0) 0x1000 _ (by decide) along_handlerReturns
    ⟨trivial, callsFromUser_of_pick true userSlot (by decide) (by decide), trivial, trivial,
      callsFromUser_of_pick true mainSlot (by decide) (by decide),
      callsFromUser_of_pick true userSlot (by decide) (by decide), trivial,
      callsFromUser_of_pick true mainSlot (by decide +kernel) (by decide +kernel),
      callsFromUser_of_pick true userSlot (by decide +kernel) (by decide +kernel), trivial,
      trivial⟩
    ⟨fun _ heq => by cases heq; rfl, trivial, trivial, trivial, trivial, trivial, trivial, trivial,
      trivial, trivial, trivial⟩

/-- The new program gets the registers of the old one when it calls `sigreturn`. -/
theorem handlerExits_not_transparent :
    Along WatchedStep watched (trace Watched.next watched handlerExits) ∧
      Along (fun s act _ => DeliversToUser s act) watched
        (trace Watched.next watched handlerExits) ∧
      ¬ Along Transparent watched (trace Watched.next watched handlerExits) := by
  refine ⟨⟨watchedStep_event nofun (by decide) (fun _ => by decide),
      watchedStep_event nofun (by decide) nofun,
      watchedStep_event nofun trivial nofun,
      watchedStep_event nofun trivial nofun,
      watchedStep_event nofun (by decide) nofun,
      watchedStep_event nofun (by decide) nofun,
      watchedStep_event nofun trivial nofun,
      watchedStep_event nofun (by decide +kernel) nofun,
      watchedStep_event nofun (by decide +kernel) nofun,
      watchedStep_event nofun (by decide +kernel) nofun,
      ⟨nofun, fun _ => by decide +kernel, rfl⟩, trivial⟩,
    ⟨trivial, callsFromUser_of_pick true userSlot (by decide) (by decide), trivial, trivial,
      callsFromUser_of_pick true mainSlot (by decide) (by decide),
      callsFromUser_of_pick true userSlot (by decide) (by decide), trivial,
      callsFromUser_of_pick true mainSlot (by decide) (by decide), trivial,
      callsFromUser_of_pick true userSlot (by decide) (by decide), trivial, trivial⟩, ?_⟩
  rintro ⟨_, _, _, _, _, _, _, _, _, _, hlast, _⟩
  have hafter := (hlast userSlot (by decide)).1
  revert hafter
  decide

end EigenOS.Signals
