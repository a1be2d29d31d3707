import EigenOS.Library.Transition
import EigenOS.Signals.Delivery

/-!
# Frames of kernel code

Delivery changes whatever frame is about to be resumed.  As long as that is a frame of user
mode whenever a handler is called, with its stack pointer in the user half, every frame of
kernel code is resumed as it was saved.
-/

namespace EigenOS.Signals

open EigenOS.Transition Function

/-- A kernel with the frame each task was last interrupted with. -/
structure Traced where
  kernel : Kernel
  saved : Slot → Registers

def Registers.IsUser (r : Registers) : Prop := r.cs = userCs ∧ r.ss = userSs

/-- The selector of `ss` is null in a frame of kernel code that a program has called, since the
processor clears it on the way from ring 3 to ring 0. -/
def Registers.IsKernel (r : Registers) : Prop := r.cs = kernelCs

instance (r : Registers) : Decidable r.IsUser := inferInstanceAs (Decidable (_ ∧ _))
instance (r : Registers) : Decidable r.IsKernel := inferInstanceAs (Decidable (_ = _))

def Event.saved (k : Kernel) (saved : Slot → Registers) : Event → Slot → Registers
  | .tick words rsp _ _ =>
      match k.current with
      | some cur => update saved cur (frameAt words rsp)
      | none => saved
  | .create slot _ words _ rsp _ => update saved slot (frameAt words rsp)
  | _ => saved

def Traced.next (s : Traced) (event : Event) : Traced where
  kernel := event.run s.kernel
  saved := event.saved s.kernel s.saved

def stackEnd (stack : ℕ) : ℕ := stack + kernelStackSize + 16

/-- A frame inside a kernel stack. -/
def InStack (stack rsp : ℕ) : Prop := stack ≤ rsp ∧ rsp + frameSize ≤ stackEnd stack

/-- Two kernel stacks that do not overlap. -/
def StacksApart (left right : ℕ) : Prop := stackEnd left ≤ right ∨ stackEnd right ≤ left

/-- What the processor and the kernel heap see to: an interrupt frame is on the stack of the
task and says which mode it comes from, and a new stack is not the stack of a task that can
run.  A creation may end in a slot that another one has filled meanwhile. -/
def Possible (k : Kernel) : Event → Prop
  | .tick words rsp _ _ => ∀ cur, k.current = some cur → (k.tasks cur).state.isLive = true →
      InStack (k.tasks cur).stack rsp ∧
        ((frameAt words rsp).IsUser ∨ (frameAt words rsp).IsKernel)
  | .create _ ring words stack rsp _ =>
      kernelBase ≤ stack ∧ InStack stack rsp ∧
        (∀ other, (k.tasks other).state.isLive = true →
          StacksApart (k.tasks other).stack stack) ∧
        (ring = .ring3 → (frameAt words rsp).IsUser) ∧
        (ring = .ring0 → (frameAt words rsp).IsKernel)
  | _ => True

def SignalStep (s : Traced) (event : Event) (next : Traced) : Prop :=
  Possible s.kernel event ∧ next = s.next event

/-- The task that a switch resumes. -/
def Event.resumed (k : Kernel) : Event → Option Slot
  | .tick words rsp now mapped => (schedule (writeCurrent k words) rsp now mapped).2
  | _ => none

/-- The frame that is resumed: a handler runs in user mode, and kernel code goes on where it
was interrupted. -/
def ResumesSafely (s : Traced) (event : Event) (next : Traced) : Prop :=
  ∀ slot, event.resumed s.kernel = some slot →
    ((s.kernel.tasks slot).sigInHandler = false →
      (next.kernel.tasks slot).sigInHandler = true →
        (frameAt next.kernel.mem (next.kernel.tasks slot).rsp).IsUser) ∧
    ((next.saved slot).IsKernel →
      frameAt next.kernel.mem (next.kernel.tasks slot).rsp = next.saved slot)

/-! ## The condition -/

def CallsHandler (t : Task) (sig : Signal) : Prop :=
  firstPending t = some sig ∧ t.ring = .ring3 ∧ t.sigInHandler = false ∧ sig ≠ sigkill ∧
    t.sigHandlers sig ≠ 0

/-- A frame of user mode with its stack in the user half. -/
def UserFrame (r : Registers) : Prop :=
  r.IsUser ∧ (trampolineAt r.rsp).toNat < 2 ^ 63 ∧ (handlerRsp r.rsp).toNat < 2 ^ 63

instance (r : Registers) : Decidable (UserFrame r) := inferInstanceAs (Decidable (_ ∧ _))

/-- Whenever a handler is called, the task was interrupted in user mode. -/
def CallsFromUser (k : Kernel) : Event → Prop
  | .tick words rsp now _ => ∀ slot,
      (pickNext (writeCurrent k words) rsp now).2 = some slot →
        ∀ sig, CallsHandler ((pickNext (writeCurrent k words) rsp now).1.tasks slot) sig →
          UserFrame (frameAt (pickNext (writeCurrent k words) rsp now).1.mem
            ((pickNext (writeCurrent k words) rsp now).1.tasks slot).rsp)
  | _ => True

/-! ## Frames in memory -/

theorem frameAt_congr {left right : Memory} {rsp : ℕ}
    (hsame : ∀ address, rsp ≤ address → address < rsp + frameSize →
      left address = right address) : frameAt left rsp = frameAt right rsp := by
  have hword : ∀ offset, offset < frameSize → left (rsp + offset) = right (rsp + offset) :=
    fun offset hoffset => hsame _ (Nat.le_add_right _ _) (Nat.add_lt_add_left hoffset _)
  have hfirst : left rsp = right rsp := hword 0 (by decide)
  unfold frameAt
  rw [hfirst]
  congr 1 <;> exact hword _ (by decide)

theorem frameAt_writeStack_of_inStack {mem words : Memory} {stack rsp : ℕ}
    (hin : InStack stack rsp) : frameAt (writeStack mem stack words) rsp = frameAt words rsp := by
  apply frameAt_congr
  intro address hlow hhigh
  unfold InStack stackEnd at hin
  exact if_pos ⟨hin.1.trans hlow, by omega⟩

theorem frameAt_writeStack_of_apart {mem words : Memory} {stack other rsp : ℕ}
    (hin : InStack other rsp) (hapart : StacksApart other stack) :
    frameAt (writeStack mem stack words) rsp = frameAt mem rsp := by
  apply frameAt_congr
  intro address hlow hhigh
  unfold InStack StacksApart stackEnd at *
  exact if_neg (by omega)

theorem store_user (mem : Memory) {address : UInt64} (value : UInt64)
    (huser : address.toNat < 2 ^ 63) : store mem address value = mem :=
  if_neg (not_le.mpr huser)

theorem callHandler_mem {mem : Memory} {t : Task} {sig : Signal} {address : ℕ}
    (huser : UserFrame (frameAt mem t.rsp))
    (haddress : address ≠ t.rsp + 80 ∧ address ≠ t.rsp + 120 ∧ address ≠ t.rsp + 136 ∧
      address ≠ t.rsp + 144) :
    (callHandler mem t sig).1 address = mem address := by
  have htc : (trampolineAt (mem (t.rsp + 144))).toNat < 2 ^ 63 := huser.2.1
  have husp : (handlerRsp (mem (t.rsp + 144))).toNat < 2 ^ 63 := huser.2.2
  obtain ⟨hrdi, hrip, hrflags, hrsp⟩ := haddress
  unfold callHandler
  dsimp only
  rw [store_user mem trampolineCode htc, store_user mem _ husp]
  simp only [update_of_ne hrdi, update_of_ne hrip,
    update_of_ne hrflags, update_of_ne hrsp]

theorem callHandler_save (mem : Memory) (t : Task) (sig : Signal)
    (huser : UserFrame (frameAt mem t.rsp)) :
    (callHandler mem t sig).2.sigSave = frameAt mem t.rsp := by
  have htc : (trampolineAt (mem (t.rsp + 144))).toNat < 2 ^ 63 := huser.2.1
  have husp : (handlerRsp (mem (t.rsp + 144))).toNat < 2 ^ 63 := huser.2.2
  unfold callHandler
  dsimp only
  rw [store_user mem trampolineCode htc, store_user mem _ husp]

theorem callHandler_stack (mem : Memory) (t : Task) (sig : Signal) :
    (callHandler mem t sig).2.stack = t.stack := rfl

theorem callHandler_rsp (mem : Memory) (t : Task) (sig : Signal) :
    (callHandler mem t sig).2.rsp = t.rsp := rfl

theorem isUser_callHandler (mem : Memory) (t : Task) (sig : Signal)
    (huser : UserFrame (frameAt mem t.rsp)) :
    (frameAt (callHandler mem t sig).1 t.rsp).IsUser := by
  have hcs : (callHandler mem t sig).1 (t.rsp + 128) = mem (t.rsp + 128) :=
    callHandler_mem huser (by omega)
  have hss : (callHandler mem t sig).1 (t.rsp + 152) = mem (t.rsp + 152) :=
    callHandler_mem huser (by omega)
  exact ⟨hcs.trans huser.1.1, hss.trans huser.1.2⟩

/-! ## The invariant -/

def FrameKept (mem : Memory) (t : Task) (saved : Registers) : Prop :=
  InStack t.stack t.rsp ∧ frameAt mem t.rsp = saved

/-- The stacks of the tasks that can run, and the frames of those in `waiting`. -/
structure FramesKept (waiting : Slot → Prop) (k : Kernel) (saved : Slot → Registers) :
    Prop where
  kernel_half : ∀ slot, (k.tasks slot).state.isLive = true →
    kernelBase ≤ (k.tasks slot).stack
  apart : ∀ left right, left ≠ right → (k.tasks left).state.isLive = true →
    (k.tasks right).state.isLive = true →
      StacksApart (k.tasks left).stack (k.tasks right).stack
  frames : ∀ slot, waiting slot → (k.tasks slot).state.isLive = true →
    FrameKept k.mem (k.tasks slot) (saved slot)

structure Inv (s : Traced) : Prop where
  kept : FramesKept (fun slot => s.kernel.current ≠ some slot) s.kernel s.saved
  handlers : ∀ slot, (s.kernel.tasks slot).sigInHandler = true →
    (s.kernel.tasks slot).sigSave.IsUser

/-- The parts of a task that the invariant speaks of, apart from its state. -/
structure SameFrame (before after : Task) : Prop where
  live : after.state.isLive = true → before.state.isLive = true
  stack : after.stack = before.stack
  rsp : after.rsp = before.rsp
  handler : after.sigInHandler = true → before.sigInHandler = true
  save : after.sigSave = before.sigSave

theorem SameFrame.refl (t : Task) : SameFrame t t := ⟨id, rfl, rfl, id, rfl⟩

theorem SameFrame.trans {first second third : Task} (h : SameFrame first second)
    (h' : SameFrame second third) : SameFrame first third :=
  ⟨fun hlive => h.live (h'.live hlive), h'.stack.trans h.stack, h'.rsp.trans h.rsp,
    fun hhandler => h.handler (h'.handler hhandler), h'.save.trans h.save⟩

theorem FramesKept.congr {waiting waiting' : Slot → Prop} {k k' : Kernel}
    {saved : Slot → Registers} (h : FramesKept waiting k saved) (hmem : k'.mem = k.mem)
    (hwaiting : ∀ slot, waiting' slot → (k'.tasks slot).state.isLive = true → waiting slot)
    (htasks : ∀ slot, SameFrame (k.tasks slot) (k'.tasks slot)) :
    FramesKept waiting' k' saved where
  kernel_half := by
    intro slot hlive
    rw [(htasks slot).stack]
    exact h.kernel_half slot ((htasks slot).live hlive)
  apart := by
    intro left right hne hleft hright
    rw [(htasks left).stack, (htasks right).stack]
    exact h.apart left right hne ((htasks left).live hleft) ((htasks right).live hright)
  frames := by
    intro slot hslot hlive
    have hkept := h.frames slot (hwaiting slot hslot hlive) ((htasks slot).live hlive)
    unfold FrameKept at hkept ⊢
    rw [hmem, (htasks slot).stack, (htasks slot).rsp]
    exact hkept

theorem Inv.congr {s : Traced} (h : Inv s) {k : Kernel} (hmem : k.mem = s.kernel.mem)
    (hcurrent : k.current = s.kernel.current)
    (htasks : ∀ slot, SameFrame (s.kernel.tasks slot) (k.tasks slot)) :
    Inv { kernel := k, saved := s.saved } where
  kept := by
    refine h.kept.congr hmem ?_ htasks
    intro slot hslot _
    rwa [← hcurrent]
  handlers := by
    intro slot hhandler
    dsimp only
    rw [(htasks slot).save]
    exact h.handlers slot ((htasks slot).handler hhandler)

/-! ## A switch up to the delivery -/

theorem sameFrame_changed {tasks : Slot → Task} {slot other : Slot} {t : Task}
    (h : SameFrame (tasks slot) t) :
    SameFrame (tasks other) (update tasks slot t other) := by
  by_cases heq : other = slot
  · subst heq
    rw [update_self]
    exact h
  · rw [update_of_ne heq]
    exact SameFrame.refl _

theorem sameFrame_findReady (tasks : Slot → Task) (slots : List Slot) (slot : Slot) :
    SameFrame (tasks slot) ((findReady tasks slots).1 slot) := by
  induction slots generalizing tasks with
  | nil => exact SameFrame.refl _
  | cons first rest ih =>
      rw [findReady]
      split
      · exact SameFrame.refl _
      · split
        · refine SameFrame.trans (sameFrame_changed ?_) (ih _)
          exact ⟨nofun, rfl, rfl, id, rfl⟩
        · exact ih _

theorem findReady_some {tasks : Slot → Task} {slots : List Slot} {next : Slot}
    (h : (findReady tasks slots).2 = some next) :
    ((findReady tasks slots).1 next).state = .ready := by
  induction slots generalizing tasks with
  | nil => cases h
  | cons first rest ih =>
      rw [findReady] at h ⊢
      split at h
      · rename_i hready
        rw [if_pos hready]
        cases h
        exact hready.1
      · rename_i hnot
        rw [if_neg hnot]
        split at h
        · rename_i hcorpse
          rw [if_pos hcorpse]
          exact ih h
        · rename_i hother
          rw [if_neg hother]
          exact ih h

theorem sameFrame_wakeSleepers (k : Kernel) (now : ℕ) (slot : Slot) :
    SameFrame (k.tasks slot) ((wakeSleepers k now).tasks slot) := by
  unfold wakeSleepers
  dsimp only
  split
  · rename_i hsleeping
    exact ⟨fun _ => by rw [hsleeping.1]; rfl, rfl, rfl, id, rfl⟩
  · exact SameFrame.refl _

theorem sameFrame_pickNext (k : Kernel) (rsp now : ℕ) (slot : Slot) :
    SameFrame ((saveCurrent k rsp).tasks slot) ((pickNext k rsp now).1.tasks slot) := by
  have hwoken := sameFrame_wakeSleepers (saveCurrent k rsp) now slot
  unfold pickNext
  dsimp only
  split
  · exact hwoken.trans (sameFrame_findReady _ _ slot)
  · rename_i next hnext
    refine (hwoken.trans (sameFrame_findReady _ _ slot)).trans (sameFrame_changed ?_)
    refine ⟨fun _ => ?_, rfl, rfl, id, rfl⟩
    rw [findReady_some hnext]
    rfl

theorem pickNext_mem (k : Kernel) (rsp now : ℕ) :
    (pickNext k rsp now).1.mem = (saveCurrent k rsp).mem := by
  unfold pickNext
  dsimp only
  split <;> rfl

theorem pickNext_some (k : Kernel) (rsp now : ℕ) (next : Slot)
    (h : (pickNext k rsp now).2 = some next) :
    (pickNext k rsp now).1.current = some next ∧
      ((pickNext k rsp now).1.tasks next).state = .running := by
  unfold pickNext at h ⊢
  dsimp only at h ⊢
  split at h
  · cases h
  · cases h
    dsimp only
    rw [update_self]
    exact ⟨rfl, rfl⟩

@[simp]
theorem writeCurrent_tasks (k : Kernel) (words : Memory) :
    (writeCurrent k words).tasks = k.tasks := by
  unfold writeCurrent
  split
  · rfl
  · split <;> rfl

@[simp]
theorem writeCurrent_current (k : Kernel) (words : Memory) :
    (writeCurrent k words).current = k.current := by
  unfold writeCurrent
  split
  · rfl
  · split <;> rfl

theorem frameKept_writeCurrent {s : Traced} (h : Inv s) (words : Memory) {slot : Slot}
    (hne : s.kernel.current ≠ some slot)
    (hlive : (s.kernel.tasks slot).state.isLive = true) :
    FrameKept (writeCurrent s.kernel words).mem (s.kernel.tasks slot) (s.saved slot) := by
  obtain ⟨hin, hframe⟩ := h.kept.frames slot hne hlive
  refine ⟨hin, ?_⟩
  rw [← hframe]
  unfold writeCurrent
  split
  · rfl
  · rename_i cur hcurrent
    split
    · rename_i hcur
      refine frameAt_writeStack_of_apart hin (h.kept.apart slot cur ?_ hlive hcur)
      rintro rfl
      exact hne hcurrent
    · rfl

/-- After the current task has saved its frame, every task that can run has one. -/
theorem framesKept_saveCurrent {s : Traced} (h : Inv s) {words : Memory} {rsp now : ℕ}
    {mapped : Bool} (hpossible : Possible s.kernel (.tick words rsp now mapped)) :
    FramesKept (fun _ => True) (saveCurrent (writeCurrent s.kernel words) rsp)
      (Event.saved s.kernel s.saved (.tick words rsp now mapped)) := by
  cases hcurrent : s.kernel.current with
  | none =>
      have hidle : saveCurrent (writeCurrent s.kernel words) rsp = s.kernel := by
        unfold saveCurrent writeCurrent
        simp only [hcurrent]
      rw [hidle, Event.saved, hcurrent]
      refine h.kept.congr rfl ?_ fun slot => SameFrame.refl _
      intro slot _ _
      rw [hcurrent]
      exact nofun
  | some cur =>
      let t := s.kernel.tasks cur
      let after : Task :=
        { t with rsp := rsp, state := if t.state = .running then .ready else t.state }
      have hkernel : saveCurrent (writeCurrent s.kernel words) rsp =
          { writeCurrent s.kernel words with
            tasks := update s.kernel.tasks cur after } := by
        unfold saveCurrent
        simp only [writeCurrent_current, hcurrent, writeCurrent_tasks]
        rfl
      have hlive : after.state.isLive = true → t.state.isLive = true := by
        simp only [after]
        split
        · rename_i hrunning
          rw [hrunning]
          exact id
        · exact id
      have hstack : ∀ slot, (update s.kernel.tasks cur after slot).stack =
            (s.kernel.tasks slot).stack ∧
          ((update s.kernel.tasks cur after slot).state.isLive = true →
            (s.kernel.tasks slot).state.isLive = true) := by
        intro slot
        by_cases heq : slot = cur
        · subst heq
          rw [update_self]
          exact ⟨rfl, hlive⟩
        · rw [update_of_ne heq]
          exact ⟨rfl, id⟩
      rw [hkernel, Event.saved, hcurrent]
      refine ⟨?_, ?_, ?_⟩
      · intro slot hslot
        rw [(hstack slot).1]
        exact h.kept.kernel_half slot ((hstack slot).2 hslot)
      · intro left right hne hleft hright
        rw [(hstack left).1, (hstack right).1]
        exact h.kept.apart left right hne ((hstack left).2 hleft) ((hstack right).2 hright)
      · intro slot _ hslot
        by_cases heq : slot = cur
        · subst heq
          have hwas := (hstack slot).2 hslot
          obtain ⟨hin, _⟩ := hpossible slot hcurrent hwas
          have hmem : (writeCurrent s.kernel words).mem =
              writeStack s.kernel.mem t.stack words := by
            unfold writeCurrent
            simp only [hcurrent, if_pos hwas]
            rfl
          dsimp only
          rw [update_self, update_self, hmem]
          exact ⟨hin, frameAt_writeStack_of_inStack hin⟩
        · dsimp only
          rw [update_of_ne heq, update_of_ne heq]
          refine frameKept_writeCurrent h words ?_ ((hstack slot).2 hslot)
          rw [hcurrent]
          exact fun hsome => heq (Option.some.inj hsome).symm

/-! ## The delivery -/

/-- What a switch does to the task it picks, and to no other. -/
structure Dispatched (k : Kernel) (saved : Slot → Registers) (next : Slot) (after : Kernel)
    (resumed : Option Slot) : Prop where
  kept : FramesKept (fun slot => after.current ≠ some slot) after saved
  others : ∀ slot, slot ≠ next → after.tasks slot = k.tasks slot
  handler : (after.tasks next).sigInHandler = true →
    (k.tasks next).sigInHandler = true ∧
      (after.tasks next).sigSave = (k.tasks next).sigSave ∨
    (after.tasks next).sigSave.IsUser
  safe : resumed = some next → (k.tasks next).sigInHandler = false →
    (after.tasks next).sigInHandler = true →
      (frameAt after.mem (after.tasks next).rsp).IsUser
  unchanged : resumed = some next → (saved next).IsKernel →
    frameAt after.mem (after.tasks next).rsp = saved next
  resumed_eq : ∀ slot, resumed = some slot → slot = next

section Dispatch

variable {k after : Kernel} {saved : Slot → Registers} {next : Slot} {mapped : Bool}

/-- A change of the task that runs next, or is dead, and of no frame of another task. -/
theorem FramesKept.changeNext (h : FramesKept (fun _ => True) k saved)
    (hlive : (k.tasks next).state.isLive = true)
    (hothers : ∀ slot, slot ≠ next → after.tasks slot = k.tasks slot)
    (hmem : ∀ slot, slot ≠ next → (k.tasks slot).state.isLive = true →
      frameAt after.mem (k.tasks slot).rsp = frameAt k.mem (k.tasks slot).rsp)
    (hstack : (after.tasks next).stack = (k.tasks next).stack)
    (hnext : after.current = some next ∨ (after.tasks next).state.isLive = false) :
    FramesKept (fun slot => after.current ≠ some slot) after saved := by
  have hsame : ∀ slot, (after.tasks slot).stack = (k.tasks slot).stack ∧
      ((after.tasks slot).state.isLive = true → (k.tasks slot).state.isLive = true) := by
    intro slot
    by_cases heq : slot = next
    · subst heq
      exact ⟨hstack, fun _ => hlive⟩
    · rw [hothers slot heq]
      exact ⟨rfl, id⟩
  refine ⟨?_, ?_, ?_⟩
  · intro slot hslot
    rw [(hsame slot).1]
    exact h.kernel_half slot ((hsame slot).2 hslot)
  · intro left right hne hleft hright
    rw [(hsame left).1, (hsame right).1]
    exact h.apart left right hne ((hsame left).2 hleft) ((hsame right).2 hright)
  · intro slot hwaiting hslot
    have hne : slot ≠ next := by
      rintro rfl
      rcases hnext with hcurrent | hdead
      · exact hwaiting hcurrent
      · rw [hdead] at hslot
        cases hslot
    obtain ⟨hin, hframe⟩ := h.frames slot trivial ((hsame slot).2 hslot)
    rw [hothers slot hne]
    exact ⟨hin, (hmem slot hne ((hsame slot).2 hslot)).trans hframe⟩

theorem frameAt_callHandler_other (h : FramesKept (fun _ => True) k saved)
    (hlive : (k.tasks next).state.isLive = true)
    (huser : UserFrame (frameAt k.mem (k.tasks next).rsp)) {t : Task} {sig : Signal}
    (ht : t.rsp = (k.tasks next).rsp) {slot : Slot} (hne : slot ≠ next)
    (hslot : (k.tasks slot).state.isLive = true) :
    frameAt (callHandler k.mem t sig).1 (k.tasks slot).rsp =
      frameAt k.mem (k.tasks slot).rsp := by
  obtain ⟨hnextIn, _⟩ := h.frames next trivial hlive
  obtain ⟨hslotIn, _⟩ := h.frames slot trivial hslot
  have hapart := h.apart slot next hne hslot hlive
  rw [← ht] at huser hnextIn
  apply frameAt_congr
  intro address hlow hhigh
  apply callHandler_mem huser
  unfold InStack StacksApart stackEnd frameSize at *
  omega

variable (k saved next) in
theorem dispatched_dead (h : FramesKept (fun _ => True) k saved)
    (hlive : (k.tasks next).state.isLive = true) (mem : Memory) (t : Task)
    (hmem : ∀ slot, slot ≠ next → (k.tasks slot).state.isLive = true →
      frameAt mem (k.tasks slot).rsp = frameAt k.mem (k.tasks slot).rsp)
    (hstack : t.stack = (k.tasks next).stack) (hdead : t.state.isLive = false)
    (hhandler : t.sigInHandler = true → (k.tasks next).sigInHandler = true ∧
      t.sigSave = (k.tasks next).sigSave ∨ t.sigSave.IsUser) (current : Option Slot) :
    Dispatched k saved next
      { mem := mem, tasks := update k.tasks next t, current := current } none := by
  have hothers : ∀ slot, slot ≠ next → update k.tasks next t slot = k.tasks slot :=
    fun slot hne => update_of_ne hne _ _
  refine ⟨?_, hothers, ?_, nofun, nofun, nofun⟩
  · refine h.changeNext hlive hothers hmem ?_ (Or.inr ?_)
    · dsimp only
      rw [update_self]
      exact hstack
    · dsimp only
      rw [update_self]
      exact hdead
  · dsimp only
    rw [update_self]
    exact hhandler

theorem dispatched_done (h : FramesKept (fun _ => True) k saved)
    (hcurrent : k.current = some next) (hlive : (k.tasks next).state.isLive = true)
    {mem : Memory} {t : Task}
    (hdone : taskDeliverSignals k.mem (k.tasks next) mapped = .done mem t)
    (hmem : ∀ slot, slot ≠ next → (k.tasks slot).state.isLive = true →
      frameAt mem (k.tasks slot).rsp = frameAt k.mem (k.tasks slot).rsp)
    (hstack : t.stack = (k.tasks next).stack)
    (hhandler : t.sigInHandler = true → (k.tasks next).sigInHandler = true ∧
      t.sigSave = (k.tasks next).sigSave ∨ t.sigSave.IsUser)
    (hsafe : (k.tasks next).sigInHandler = false → t.sigInHandler = true →
      (frameAt mem t.rsp).IsUser)
    (hkernel : (saved next).IsKernel → frameAt mem t.rsp = saved next) :
    Dispatched k saved next (dispatch k next mapped).1 (dispatch k next mapped).2 := by
  have hothers : ∀ (t : Task) slot, slot ≠ next →
      update k.tasks next t slot = k.tasks slot :=
    fun t slot hne => update_of_ne hne _ _
  unfold dispatch
  rw [hdone]
  dsimp only
  split
  · exact dispatched_dead k saved next h hlive mem { t with state := .dead } hmem hstack rfl
      hhandler none
  · refine ⟨?_, hothers _, ?_, ?_, ?_, fun slot heq => (Option.some.inj heq).symm⟩
    · refine h.changeNext hlive (hothers _) hmem ?_ (Or.inl hcurrent)
      dsimp only
      rw [update_self]
      exact hstack
    all_goals
      dsimp only
      rw [update_self]
    · exact hhandler
    · exact fun _ => hsafe
    · exact fun _ => hkernel

theorem dispatched_handler (h : FramesKept (fun _ => True) k saved)
    (hcurrent : k.current = some next) (hlive : (k.tasks next).state.isLive = true)
    {sig : Signal} (huser : UserFrame (frameAt k.mem (k.tasks next).rsp))
    (hdone : taskDeliverSignals k.mem (k.tasks next) mapped =
      .done (callHandler k.mem ((k.tasks next).take sig) sig).1
        (callHandler k.mem ((k.tasks next).take sig) sig).2) :
    Dispatched k saved next (dispatch k next mapped).1 (dispatch k next mapped).2 := by
  have htaken : UserFrame (frameAt k.mem ((k.tasks next).take sig).rsp) := huser
  have hsave : (callHandler k.mem ((k.tasks next).take sig) sig).2.sigSave.IsUser := by
    rw [callHandler_save _ _ _ htaken]
    exact htaken.1
  have hafter := isUser_callHandler k.mem ((k.tasks next).take sig) sig htaken
  refine dispatched_done h hcurrent hlive hdone
    (fun slot hne => frameAt_callHandler_other h hlive huser rfl hne) ?_ (fun _ => Or.inr hsave)
    (fun _ _ => ?_) fun hkernel => ?_
  · rw [callHandler_stack]
    rfl
  · rw [callHandler_rsp]
    exact hafter
  · rw [← (h.frames next trivial hlive).2] at hkernel
    have hcs := hkernel.symm.trans huser.1.1
    exact absurd hcs (by decide)

theorem taskDeliverSignals_cases (mem : Memory) (t : Task) (mapped : Bool) :
    taskDeliverSignals mem t mapped = .done mem t ∨
    (∃ sig, taskDeliverSignals mem t mapped = .done mem ((t.take sig).terminate sig)) ∨
    (∃ sig, taskDeliverSignals mem t mapped =
      .fault mem { t.take sig with state := .dead, kernelStackBase := 0, rsp := 0 }) ∨
    ∃ sig, CallsHandler t sig ∧ taskDeliverSignals mem t mapped =
      .done (callHandler mem (t.take sig) sig).1 (callHandler mem (t.take sig) sig).2 := by
  unfold taskDeliverSignals
  split
  · exact Or.inl rfl
  · rename_i sig hpending
    split_ifs with hring hhandler hrsp hkill hmapped
    · exact Or.inl rfl
    · exact Or.inl rfl
    · exact Or.inl rfl
    · exact Or.inr (Or.inl ⟨sig, rfl⟩)
    · rw [not_or] at hkill
      exact Or.inr (Or.inr (Or.inr ⟨sig, ⟨hpending, not_not.mp hring,
        Bool.not_eq_true _ ▸ hhandler, hkill.1, hkill.2⟩, rfl⟩))
    · exact Or.inr (Or.inr (Or.inl ⟨sig, rfl⟩))

variable (k saved next mapped) in
theorem dispatched (h : FramesKept (fun _ => True) k saved)
    (hcurrent : k.current = some next) (hlive : (k.tasks next).state.isLive = true)
    (hguard : ∀ sig, CallsHandler (k.tasks next) sig →
      UserFrame (frameAt k.mem (k.tasks next).rsp)) :
    Dispatched k saved next (dispatch k next mapped).1 (dispatch k next mapped).2 := by
  rcases taskDeliverSignals_cases k.mem (k.tasks next) mapped with
    hidle | ⟨sig, hkill⟩ | ⟨sig, hfault⟩ | ⟨sig, hcalls, hdone⟩
  · exact dispatched_done h hcurrent hlive hidle (fun _ _ _ => rfl) rfl
      (fun hhandler => Or.inl ⟨hhandler, rfl⟩)
      (fun hbefore hafter => nomatch hbefore.symm.trans hafter)
      fun _ => (h.frames next trivial hlive).2
  · have hlow : (((k.tasks next).take sig).terminate sig).rsp < kernelBase :=
      (by decide : 0 < kernelBase)
    unfold dispatch
    rw [hkill]
    dsimp only
    rw [if_pos (Or.inl hlow)]
    exact dispatched_dead k saved next h hlive k.mem
      { ((k.tasks next).take sig).terminate sig with state := .dead }
      (fun _ _ _ => rfl) rfl rfl (fun hhandler => Or.inl ⟨hhandler, rfl⟩) none
  · unfold dispatch
    rw [hfault]
    exact dispatched_dead k saved next h hlive k.mem
      { (k.tasks next).take sig with state := .dead, kernelStackBase := 0, rsp := 0 }
      (fun _ _ _ => rfl) rfl rfl (fun hhandler => Or.inl ⟨hhandler, rfl⟩) k.current
  · exact dispatched_handler h hcurrent hlive (hguard sig hcalls) hdone

end Dispatch

/-! ## One step -/

theorem saveCurrent_signals (k : Kernel) (rsp : ℕ) (slot : Slot) :
    ((saveCurrent k rsp).tasks slot).sigInHandler = (k.tasks slot).sigInHandler ∧
      ((saveCurrent k rsp).tasks slot).sigSave = (k.tasks slot).sigSave := by
  unfold saveCurrent
  cases k.current with
  | none => exact ⟨rfl, rfl⟩
  | some cur =>
      dsimp only
      by_cases heq : slot = cur
      · subst heq
        rw [update_self]
        exact ⟨rfl, rfl⟩
      · rw [update_of_ne heq]
        exact ⟨rfl, rfl⟩

theorem pickNext_handler (k : Kernel) (words : Memory) (rsp now : ℕ) (slot : Slot) :
    (((pickNext (writeCurrent k words) rsp now).1.tasks slot).sigInHandler = true →
        (k.tasks slot).sigInHandler = true) ∧
      ((pickNext (writeCurrent k words) rsp now).1.tasks slot).sigSave =
        (k.tasks slot).sigSave := by
  have hpick := sameFrame_pickNext (writeCurrent k words) rsp now slot
  obtain ⟨hhandler, hsave⟩ := saveCurrent_signals (writeCurrent k words) rsp slot
  rw [writeCurrent_tasks] at hhandler hsave
  exact ⟨fun htrue => hhandler ▸ hpick.handler htrue, hpick.save.trans hsave⟩

theorem Inv.tick {s : Traced} (h : Inv s) {words : Memory} {rsp now : ℕ} {mapped : Bool}
    (hpossible : Possible s.kernel (.tick words rsp now mapped))
    (hguard : CallsFromUser s.kernel (.tick words rsp now mapped)) :
    Inv (s.next (.tick words rsp now mapped)) ∧
      ResumesSafely s (.tick words rsp now mapped) (s.next (.tick words rsp now mapped)) := by
  have hkept : FramesKept (fun _ => True) (pickNext (writeCurrent s.kernel words) rsp now).1
      (Event.saved s.kernel s.saved (.tick words rsp now mapped)) :=
    (framesKept_saveCurrent h hpossible).congr (pickNext_mem _ _ _) (fun _ _ _ => trivial)
      (sameFrame_pickNext _ _ _)
  have hhandler := pickNext_handler s.kernel words rsp now
  have hsome := pickNext_some (writeCurrent s.kernel words) rsp now
  have hcalls : ∀ slot, (pickNext (writeCurrent s.kernel words) rsp now).2 = some slot →
      ∀ sig, CallsHandler ((pickNext (writeCurrent s.kernel words) rsp now).1.tasks slot) sig →
        UserFrame (frameAt (pickNext (writeCurrent s.kernel words) rsp now).1.mem
          ((pickNext (writeCurrent s.kernel words) rsp now).1.tasks slot).rsp) := hguard
  have hnext : s.next (.tick words rsp now mapped) =
      ⟨(schedule (writeCurrent s.kernel words) rsp now mapped).1,
        Event.saved s.kernel s.saved (.tick words rsp now mapped)⟩ := rfl
  have hresumed : Event.resumed s.kernel (.tick words rsp now mapped) =
      (schedule (writeCurrent s.kernel words) rsp now mapped).2 := rfl
  rw [ResumesSafely, hresumed, hnext]
  generalize Event.saved s.kernel s.saved (.tick words rsp now mapped) = saved at hkept ⊢
  unfold schedule
  generalize pickNext (writeCurrent s.kernel words) rsp now = picked at *
  obtain ⟨k, chosen⟩ := picked
  have hhandlers : ∀ slot, (k.tasks slot).sigInHandler = true →
      (k.tasks slot).sigSave.IsUser := by
    intro slot htrue
    rw [(hhandler slot).2]
    exact h.handlers slot ((hhandler slot).1 htrue)
  cases chosen with
  | none =>
      refine ⟨⟨?_, hhandlers⟩, fun slot heq => (nomatch heq)⟩
      exact hkept.congr rfl (fun _ _ _ => trivial) fun slot => SameFrame.refl _
  | some next =>
      obtain ⟨hcurrent, hrunning⟩ := hsome next rfl
      have hlive : (k.tasks next).state.isLive = true := by
        rw [hrunning]
        rfl
      have hdispatched := dispatched k saved next mapped hkept hcurrent hlive (hcalls next rfl)
      dsimp only
      generalize dispatch k next mapped = outcome at hdispatched ⊢
      obtain ⟨after, resumed⟩ := outcome
      refine ⟨⟨hdispatched.kept, ?_⟩, ?_⟩
      · intro slot htrue
        by_cases heq : slot = next
        · subst heq
          rcases hdispatched.handler htrue with ⟨hbefore, hsave⟩ | hsave
          · exact hsave ▸ hhandlers slot hbefore
          · exact hsave
        · dsimp only at htrue ⊢
          rw [hdispatched.others slot heq] at htrue ⊢
          exact hhandlers slot htrue
      · intro slot heq
        have hslot := hdispatched.resumed_eq slot heq
        subst hslot
        refine ⟨fun hbefore => hdispatched.safe heq ?_, hdispatched.unchanged heq⟩
        rw [Bool.eq_false_iff]
        intro htrue
        rw [(hhandler slot).1 htrue] at hbefore
        cases hbefore

theorem Inv.create {s : Traced} (h : Inv s) {slot : Slot} {ring : Ring} {words : Memory}
    {stack rsp : ℕ} {clears : Bool}
    (hpossible : Possible s.kernel (.create slot ring words stack rsp clears)) :
    Inv (s.next (.create slot ring words stack rsp clears)) := by
  obtain ⟨hhalf, hin, hapart, _, _⟩ := hpossible
  have hself : ((s.next (.create slot ring words stack rsp clears)).kernel.tasks slot) =
      newTask (s.kernel.tasks slot) ring stack rsp clears := update_self ..
  have hother : ∀ other, other ≠ slot →
      (s.next (.create slot ring words stack rsp clears)).kernel.tasks other =
        s.kernel.tasks other := fun other hother => update_of_ne hother _ _
  refine ⟨⟨?_, ?_, ?_⟩, ?_⟩
  · intro other hlive
    by_cases heq : other = slot
    · subst heq
      rw [hself]
      exact hhalf
    · rw [hother other heq] at hlive ⊢
      exact h.kept.kernel_half other hlive
  · intro left right hneq hleft hright
    by_cases hl : left = slot
    · subst hl
      have hr : right ≠ left := fun heq => hneq heq.symm
      rw [hother right hr] at hright ⊢
      rw [hself]
      exact (hapart right hright).symm
    · rw [hother left hl] at hleft ⊢
      by_cases hr : right = slot
      · subst hr
        rw [hself]
        exact hapart left hleft
      · rw [hother right hr] at hright ⊢
        exact h.kept.apart left right hneq hleft hright
  · intro other hwaiting hlive
    by_cases heq : other = slot
    · subst heq
      rw [hself]
      refine ⟨hin, ?_⟩
      calc frameAt (writeStack s.kernel.mem stack words) rsp
          = frameAt words rsp := frameAt_writeStack_of_inStack hin
        _ = update s.saved other (frameAt words rsp) other := by
            rw [update_self]
    · rw [hother other heq] at hlive ⊢
      obtain ⟨hotherIn, hframe⟩ := h.kept.frames other hwaiting hlive
      refine ⟨hotherIn, ?_⟩
      calc frameAt (writeStack s.kernel.mem stack words) (s.kernel.tasks other).rsp
          = frameAt s.kernel.mem (s.kernel.tasks other).rsp :=
            frameAt_writeStack_of_apart hotherIn (hapart other hlive)
        _ = s.saved other := hframe
        _ = update s.saved slot (frameAt words rsp) other :=
            (update_of_ne heq _ _).symm
  · intro other htrue
    by_cases heq : other = slot
    · subst heq
      rw [hself] at htrue ⊢
      refine h.handlers other ?_
      cases clears with
      | false => exact htrue
      | true => cases htrue
    · rw [hother other heq] at htrue ⊢
      exact h.handlers other htrue

theorem Inv.changeTask {s : Traced} (h : Inv s) {slot : Slot} {change : Task → Task}
    (hsame : SameFrame (s.kernel.tasks slot) (change (s.kernel.tasks slot))) :
    Inv { kernel := Signals.changeTask s.kernel slot change, saved := s.saved } :=
  h.congr rfl rfl fun _ => sameFrame_changed hsame

theorem Inv.step {s : Traced} (h : Inv s) {event : Event} {after : Traced}
    (hguard : CallsFromUser s.kernel event) (hstep : SignalStep s event after) :
    Inv after ∧ ResumesSafely s event after := by
  obtain ⟨hpossible, rfl⟩ := hstep
  cases event with
  | tick words rsp now mapped => exact h.tick hpossible hguard
  | create slot ring words stack rsp clears =>
      exact ⟨h.create hpossible, nofun⟩
  | sigaction sig handler =>
      refine ⟨?_, nofun⟩
      unfold Traced.next Event.run
      dsimp only
      split
      · exact h.changeTask ⟨id, rfl, rfl, id, rfl⟩
      · exact h
  | kill slot sig =>
      refine ⟨?_, nofun⟩
      unfold Traced.next Event.run sendSignal
      dsimp only
      split
      · exact h
      · exact h.congr rfl rfl fun _ => sameFrame_changed ⟨id, rfl, rfl, id, rfl⟩
  | sigreturn =>
      refine ⟨?_, nofun⟩
      unfold Traced.next Event.run
      dsimp only
      split
      · exact h.changeTask ⟨id, rfl, rfl, nofun, rfl⟩
      · exact h
  | sleep deadline =>
      refine ⟨?_, nofun⟩
      unfold Traced.next Event.run
      dsimp only
      split
      · split
        · rename_i hlive
          exact h.changeTask ⟨fun _ => hlive, rfl, rfl, id, rfl⟩
        · exact h
      · exact h
  | wake slot =>
      refine ⟨?_, nofun⟩
      unfold Traced.next Event.run
      dsimp only
      split
      · rename_i hsleeping
        exact h.changeTask ⟨fun _ => by rw [hsleeping]; rfl, rfl, rfl, id, rfl⟩
      · exact h
  | stop slot freed =>
      refine ⟨?_, nofun⟩
      unfold Traced.next Event.run
      refine h.changeTask ⟨fun hlive => ?_, rfl, rfl, id, rfl⟩
      cases freed <;> cases hlive

/-! ## Runs -/

/-- A slot of the task table before its first use. -/
def unusedTask : Task where
  state := .free
  ring := .ring0
  rsp := 0
  kernelStackBase := 0
  stack := 0
  exitCode := 0
  sigHandlers _ := 0
  sigPending _ := false
  sigInHandler := false
  sigSave := frameAt (fun _ => 0) 0
  sleepUntil := 0

/-- The slot of the code that calls `init_tasking`. -/
def mainSlot : Slot := ⟨0, maxTasks_pos⟩

/-- The kernel after `init_tasking`. -/
def initTasking (mem : Memory) (bootStack kernelStackBase : ℕ) : Kernel where
  mem := mem
  tasks := update (fun _ => unusedTask) mainSlot
    { unusedTask with state := .running, stack := bootStack, kernelStackBase }
  current := some mainSlot

theorem inv_initTasking (mem : Memory) {bootStack : ℕ} (kernelStackBase : ℕ)
    (saved : Slot → Registers) (hhalf : kernelBase ≤ bootStack) :
    Inv { kernel := initTasking mem bootStack kernelStackBase, saved } := by
  have hunused : ∀ slot, slot ≠ mainSlot →
      (initTasking mem bootStack kernelStackBase).tasks slot = unusedTask := by
    intro slot hne
    unfold initTasking
    dsimp only
    rw [update_of_ne hne]
  have hlive : ∀ slot, ((initTasking mem bootStack kernelStackBase).tasks slot).state.isLive =
      true → slot = mainSlot := by
    intro slot hlive
    by_contra hne
    rw [hunused slot hne] at hlive
    cases hlive
  refine ⟨⟨?_, ?_, ?_⟩, ?_⟩
  · intro slot hslot
    rw [hlive slot hslot]
    exact hhalf
  · exact fun left right hne hleft hright =>
      absurd ((hlive left hleft).trans (hlive right hright).symm) hne
  · exact fun slot hwaiting hslot => absurd (congrArg some (hlive slot hslot).symm) hwaiting
  · intro slot htrue
    by_cases heq : slot = mainSlot
    · subst heq
      cases htrue
    · dsimp only at htrue
      rw [hunused slot heq] at htrue
      cases htrue

/-- In every run that calls handlers only for tasks interrupted in user mode, a handler is
resumed with the selectors of user mode, kernel code goes on where it was interrupted, and
the frame a handler returns to is one of user mode. -/
theorem resumesSafely_along (mem : Memory) {bootStack : ℕ} (kernelStackBase : ℕ)
    (saved : Slot → Registers) {run : List (Event × Traced)} (hhalf : kernelBase ≤ bootStack)
    (hrun : Along SignalStep ⟨initTasking mem bootStack kernelStackBase, saved⟩ run)
    (hguard : Along (fun s event _ => CallsFromUser s.kernel event)
      ⟨initTasking mem bootStack kernelStackBase, saved⟩ run) :
    Along ResumesSafely ⟨initTasking mem bootStack kernelStackBase, saved⟩ run ∧
      Always (fun s => ∀ slot, (s.kernel.tasks slot).sigInHandler = true →
        (s.kernel.tasks slot).sigSave.IsUser)
        ⟨initTasking mem bootStack kernelStackBase, saved⟩ run := by
  have hstart := inv_initTasking mem kernelStackBase saved hhalf
  refine ⟨along_of_guarded Inv ?_ hstart hrun hguard,
    (always_of_guarded Inv ?_ hstart hrun hguard).mono fun s h => h.handlers⟩
  · exact fun s event after h hcalls hstep => h.step hcalls hstep
  · exact fun s event after h hcalls hstep => (h.step hcalls hstep).1

def runEvents : Traced → List Event → List (Event × Traced)
  | _, [] => []
  | s, event :: rest => (event, s.next event) :: runEvents (s.next event) rest

/-- A stack whose frames all have the given selectors and stack pointer. -/
def frameWords (cs ss rsp : UInt64) (base : ℕ) : Memory := fun address =>
  if address = base + 128 then cs
  else if address = base + 152 then ss
  else if address = base + 144 then rsp
  else 0

def bootStack : ℕ := kernelBase + 0x100000
def userStack : ℕ := kernelBase + 0x200000

def userWords : Memory := frameWords userCs userSs 0x7000 (userStack + 0x100)

def kernelWords (base : ℕ) : Memory := frameWords kernelCs kernelSs 0 base

/-- The stack of a program that is interrupted inside a system call. -/
def callWords (base : ℕ) : Memory := frameWords kernelCs 0 0 base

def userSlot : Slot := ⟨1, by decide⟩

def sigusr1 : Signal := ⟨10, by decide⟩

def start : Traced :=
  ⟨initTasking (fun _ => 0) bootStack 0x1000, fun _ => unusedTask.sigSave⟩

/-- A process installs a handler, is interrupted in user mode and gets the signal. -/
def handlerFromUser : List Event :=
  [.create userSlot .ring3 userWords userStack (userStack + 0x100) true,
    .tick (kernelWords (bootStack + 0x100)) (bootStack + 0x100) 0 true,
    .sigaction sigusr1 0x400000,
    .kill userSlot sigusr1,
    .tick userWords (userStack + 0x100) 1 true,
    .tick (kernelWords (bootStack + 0x100)) (bootStack + 0x100) 2 true]

/-- The same process is interrupted inside a system call. -/
def handlerFromKernel : List Event :=
  [.create userSlot .ring3 userWords userStack (userStack + 0x100) true,
    .tick (kernelWords (bootStack + 0x100)) (bootStack + 0x100) 0 true,
    .sigaction sigusr1 0x400000,
    .kill userSlot sigusr1,
    .tick (callWords (userStack + 0x100)) (userStack + 0x100) 1 true,
    .tick (kernelWords (bootStack + 0x100)) (bootStack + 0x100) 2 true]

instance (k : Kernel) (words : Memory) (rsp now : ℕ) (mapped : Bool) :
    Decidable (Possible k (.tick words rsp now mapped)) :=
  inferInstanceAs (Decidable (∀ cur, k.current = some cur →
    (k.tasks cur).state.isLive = true → (_ ∧ _) ∧ (_ ∨ _)))

instance (k : Kernel) (slot : Slot) (ring : Ring) (words : Memory) (stack rsp : ℕ)
    (clears : Bool) : Decidable (Possible k (.create slot ring words stack rsp clears)) :=
  inferInstanceAs (Decidable (_ ∧ (_ ∧ _) ∧
    (∀ other, (k.tasks other).state.isLive = true → _ ∨ _) ∧ (_ → _) ∧ (_ → _)))

theorem along_handlerFromUser : Along SignalStep start (runEvents start handlerFromUser) :=
  ⟨⟨by decide, rfl⟩, ⟨by decide, rfl⟩, ⟨trivial, rfl⟩, ⟨trivial, rfl⟩, ⟨by decide, rfl⟩,
    ⟨by decide, rfl⟩, trivial⟩

theorem along_handlerFromKernel : Along SignalStep start (runEvents start handlerFromKernel) :=
  ⟨⟨by decide, rfl⟩, ⟨by decide, rfl⟩, ⟨trivial, rfl⟩, ⟨trivial, rfl⟩, ⟨by decide, rfl⟩,
    ⟨by decide, rfl⟩, trivial⟩

theorem callsFromUser_of_pick {k : Kernel} {words : Memory} {rsp now : ℕ} (mapped : Bool)
    (next : Slot) (hpick : (pickNext (writeCurrent k words) rsp now).2 = some next)
    (huser : ((pickNext (writeCurrent k words) rsp now).1.tasks next).ring = .ring3 →
      ((pickNext (writeCurrent k words) rsp now).1.tasks next).sigInHandler = false →
        UserFrame (frameAt (pickNext (writeCurrent k words) rsp now).1.mem
          ((pickNext (writeCurrent k words) rsp now).1.tasks next).rsp)) :
    CallsFromUser k (.tick words rsp now mapped) := by
  intro slot hslot sig hcalls
  rw [hpick] at hslot
  cases hslot
  exact huser hcalls.2.1 hcalls.2.2.1

theorem handlerFromUser_resumes :
    Along ResumesSafely start (runEvents start handlerFromUser) ∧
      Always (fun s => ∀ slot, (s.kernel.tasks slot).sigInHandler = true →
        (s.kernel.tasks slot).sigSave.IsUser) start (runEvents start handlerFromUser) :=
  resumesSafely_along (fun _ => 0) 0x1000 _ (by decide) along_handlerFromUser
    ⟨trivial, callsFromUser_of_pick true userSlot (by decide) (by decide), trivial, trivial,
      callsFromUser_of_pick true mainSlot (by decide) (by decide),
      callsFromUser_of_pick true userSlot (by decide) (by decide), trivial⟩

/-- The handler runs in ring 0. -/
theorem handlerFromKernel_not_resumes :
    Along SignalStep start (runEvents start handlerFromKernel) ∧
      ¬ Along ResumesSafely start (runEvents start handlerFromKernel) := by
  refine ⟨along_handlerFromKernel, ?_⟩
  rintro ⟨_, _, _, _, _, hlast, _⟩
  have hframe := (hlast userSlot (by decide)).1 (by decide) (by decide)
  revert hframe
  decide

end EigenOS.Signals
