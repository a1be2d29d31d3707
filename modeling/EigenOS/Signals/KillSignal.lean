import EigenOS.Signals.KernelFrames

/-!
# The kill signal

A pending `SIGKILL` takes its turn behind the lower signals and waits for a handler to return.
A task that delivery does kill is gone: no switch resumes it until its slot is used again.
-/

namespace EigenOS.Signals

open EigenOS.Transition Function

/-- No task is created in the slot. -/
def KeepsSlot (slot : Slot) : Event → Prop
  | .create other .. => other ≠ slot
  | _ => True

/-- No step of the run resumes the task. -/
def NeverResumed (slot : Slot) (k : Kernel) (events : List Event) : Prop :=
  Along (fun before event _ => event.resumed before ≠ some slot) k (trace Event.run k events)

/-- The switch to the task, with its signals delivered, leaves it dead, and no instruction of
it runs again. -/
def KilledForGood (k : Kernel) (slot : Slot) (mapped : Bool) : Prop :=
  ((dispatch k slot mapped).1.tasks slot).state = .dead ∧
    (dispatch k slot mapped).2 ≠ some slot ∧
    ∀ events, (∀ event ∈ events, KeepsSlot slot event) →
      NeverResumed slot (dispatch k slot mapped).1 events

/-- No handler is active, and the first pending signal ends the task. -/
def Fatal (t : Task) (mapped : Bool) : Prop :=
  t.sigInHandler = false ∧
    ∃ sig, firstPending t = some sig ∧
      (sig = sigkill ∨ t.sigHandlers sig = 0 ∨ mapped = false)

/-- A saved stack pointer that the scheduler goes on with. -/
def Trusted (rsp : ℕ) : Prop := kernelBase ≤ rsp ∧ rsp ≤ trustedLimit

/-! ## A dead task -/

/-- Whether the task in a slot can be resumed later. -/
def Kernel.Live (k : Kernel) (slot : Slot) : Prop := (k.tasks slot).state.isLive = true

theorem live_changed {k : Kernel} {slot other : Slot} {t : Task}
    (hlive : t.state.isLive = true → k.Live other)
    (h : (update k.tasks other t slot).state.isLive = true) : k.Live slot := by
  by_cases heq : slot = other
  · subst heq
    rw [update_self] at h
    exact hlive h
  · rw [update_of_ne heq] at h
    exact h

theorem live_saveCurrent {k : Kernel} {slot : Slot} {rsp : ℕ}
    (h : (saveCurrent k rsp).Live slot) : k.Live slot := by
  unfold saveCurrent at h
  split at h
  · exact h
  · rename_i cur _
    refine live_changed ?_ h
    dsimp only
    split
    · rename_i hrunning
      unfold Kernel.Live
      rw [hrunning]
      exact fun _ => rfl
    · exact id

theorem live_pickNext (k : Kernel) (slot : Slot) (rsp now : ℕ)
    (h : (pickNext k rsp now).1.Live slot) : k.Live slot :=
  live_saveCurrent ((sameFrame_pickNext k rsp now slot).live h)

theorem live_of_picked (k : Kernel) (slot : Slot) (rsp now : ℕ)
    (h : (pickNext k rsp now).2 = some slot) : k.Live slot := by
  apply live_pickNext k slot rsp now
  unfold Kernel.Live
  rw [(pickNext_some _ _ _ _ h).2]
  rfl

theorem dispatch_other (k : Kernel) {slot next : Slot} (mapped : Bool) (hne : slot ≠ next) :
    (dispatch k next mapped).1.tasks slot = k.tasks slot := by
  unfold dispatch
  split
  · exact update_of_ne hne _ _
  · split
    · exact update_of_ne hne _ _
    · exact update_of_ne hne _ _

theorem dispatch_resumed {k : Kernel} {next slot : Slot} {mapped : Bool}
    (h : (dispatch k next mapped).2 = some slot) : slot = next := by
  unfold dispatch at h
  split at h
  · cases h
  · split at h
    · cases h
    · exact (Option.some.inj h).symm

theorem schedule_live (k : Kernel) (slot : Slot) (rsp now : ℕ) (mapped : Bool) :
    ((schedule k rsp now mapped).1.Live slot → k.Live slot) ∧
      ((schedule k rsp now mapped).2 = some slot → k.Live slot) := by
  have hlive := live_pickNext k slot rsp now
  have hpicked := live_of_picked k slot rsp now
  unfold schedule
  generalize pickNext k rsp now = picked at *
  obtain ⟨after, next⟩ := picked
  cases next with
  | none => exact ⟨hlive, nofun⟩
  | some next =>
      dsimp only
      by_cases heq : slot = next
      · subst heq
        exact ⟨fun _ => hpicked rfl, fun _ => hpicked rfl⟩
      · refine ⟨fun h => hlive ?_, fun h => absurd (dispatch_resumed h) heq⟩
        unfold Kernel.Live at h ⊢
        rw [← dispatch_other after mapped heq]
        exact h

theorem live_writeCurrent {k : Kernel} {slot : Slot} {words : Memory} :
    (writeCurrent k words).Live slot ↔ k.Live slot := by
  unfold Kernel.Live
  rw [writeCurrent_tasks]

theorem live_run (k : Kernel) (slot : Slot) (event : Event) (hkeep : KeepsSlot slot event) :
    ((event.run k).Live slot → k.Live slot) ∧
      (event.resumed k = some slot → k.Live slot) := by
  cases event with
  | tick words rsp now mapped =>
      have hschedule := schedule_live (writeCurrent k words) slot rsp now mapped
      rw [live_writeCurrent] at hschedule
      exact hschedule
  | create other ring words stack rsp clears =>
      refine ⟨fun h => ?_, nofun⟩
      unfold Kernel.Live Event.run at h
      dsimp only at h
      rw [update_of_ne (fun heq => hkeep heq.symm)] at h
      exact h
  | sigaction sig handler | sigreturn =>
      refine ⟨fun h => ?_, nofun⟩
      unfold Event.run at h
      dsimp only at h
      split at h
      · exact live_changed (fun hlive => by exact hlive) h
      · exact h
  | kill other sig =>
      refine ⟨fun h => ?_, nofun⟩
      unfold Event.run sendSignal at h
      dsimp only at h
      split at h
      · exact h
      · exact live_changed (fun hlive => by exact hlive) h
  | sleep deadline =>
      refine ⟨fun h => ?_, nofun⟩
      unfold Event.run at h
      dsimp only at h
      split at h
      · split at h
        · rename_i hcur
          exact live_changed (fun _ => hcur) h
        · exact h
      · exact h
  | wake other =>
      refine ⟨fun h => ?_, nofun⟩
      unfold Event.run at h
      dsimp only at h
      split at h
      · rename_i hsleeping
        refine live_changed (fun _ => ?_) h
        unfold Kernel.Live
        rw [hsleeping]
        rfl
      · exact h
  | stop other freed =>
      refine ⟨fun h => ?_, nofun⟩
      unfold Event.run at h
      dsimp only at h
      refine live_changed ?_ h
      cases freed <;> exact nofun

theorem neverResumed_of_not_live {slot : Slot} {k : Kernel} {events : List Event}
    (hkeep : ∀ event ∈ events, KeepsSlot slot event) (hdead : ¬ k.Live slot) :
    NeverResumed slot k events := by
  induction events generalizing k with
  | nil => trivial
  | cons event rest ih =>
      have hlive := live_run k slot event (hkeep event List.mem_cons_self)
      refine ⟨fun h => hdead (hlive.2 h), ih ?_ fun h => hdead (hlive.1 h)⟩
      exact fun other hother => hkeep other (List.mem_cons_of_mem event hother)

/-! ## Delivery with the kill signal pending -/

section Delivery

variable {k : Kernel} {slot : Slot} {mapped : Bool}

theorem killedForGood_of_dead (hdead : ((dispatch k slot mapped).1.tasks slot).state = .dead)
    (hnot : (dispatch k slot mapped).2 ≠ some slot) : KilledForGood k slot mapped := by
  refine ⟨hdead, hnot, fun events hkeep => neverResumed_of_not_live hkeep ?_⟩
  unfold Kernel.Live
  rw [hdead]
  exact nofun

theorem killedForGood_of_untrusted (huntrusted : ¬ Trusted (k.tasks slot).rsp) :
    KilledForGood k slot mapped := by
  have hlow : ∀ {t : Task}, t.rsp = (k.tasks slot).rsp ∨ t.rsp = 0 →
      t.rsp < kernelBase ∨ trustedLimit < t.rsp := by
    intro t ht
    unfold Trusted at huntrusted
    rcases ht with ht | ht
    · omega
    · rw [ht]
      exact Or.inl (by decide)
  have hcases : ∃ mem t, (taskDeliverSignals k.mem (k.tasks slot) mapped = .done mem t ∧
      (t.rsp = (k.tasks slot).rsp ∨ t.rsp = 0)) ∨
      (taskDeliverSignals k.mem (k.tasks slot) mapped = .fault mem t ∧ t.state = .dead) := by
    rcases taskDeliverSignals_cases k.mem (k.tasks slot) mapped with
      hidle | ⟨sig, hkill⟩ | ⟨sig, hfault⟩ | ⟨sig, _, hdone⟩
    · exact ⟨_, _, Or.inl ⟨hidle, Or.inl rfl⟩⟩
    · exact ⟨_, _, Or.inl ⟨hkill, Or.inr rfl⟩⟩
    · exact ⟨_, _, Or.inr ⟨hfault, rfl⟩⟩
    · exact ⟨_, _, Or.inl ⟨hdone, Or.inl rfl⟩⟩
  obtain ⟨mem, t, ⟨hdone, hrsp⟩ | ⟨hfault, hstate⟩⟩ := hcases
  · apply killedForGood_of_dead
    · unfold dispatch
      rw [hdone]
      dsimp only
      rw [if_pos (hlow hrsp)]
      dsimp only
      rw [update_self]
    · unfold dispatch
      rw [hdone]
      dsimp only
      rw [if_pos (hlow hrsp)]
      exact nofun
  · apply killedForGood_of_dead
    · unfold dispatch
      rw [hfault]
      dsimp only
      rw [update_self]
      exact hstate
    · unfold dispatch
      rw [hfault]
      exact nofun

/-- The signal that is delivered in the first round ends a task whose frame is trusted exactly
when it is fatal. -/
theorem killedForGood_of_fatal (hring : (k.tasks slot).ring = .ring3)
    (htrusted : Trusted (k.tasks slot).rsp) (hfatal : Fatal (k.tasks slot) mapped) :
    KilledForGood k slot mapped := by
  obtain ⟨hhandler, sig, hfirst, hsig⟩ := hfatal
  have hlow : ¬ (k.tasks slot).rsp < kernelBase := not_lt.mpr htrusted.1
  by_cases hkill : sig = sigkill ∨ (k.tasks slot).sigHandlers sig = 0
  · have hdone : taskDeliverSignals k.mem (k.tasks slot) mapped =
        .done k.mem (((k.tasks slot).take sig).terminate sig) := by
      unfold taskDeliverSignals
      rw [hfirst]
      dsimp only
      rw [if_neg (not_not.mpr hring), hhandler, if_neg Bool.false_ne_true, if_neg hlow,
        if_pos hkill]
    have hzero : (((k.tasks slot).take sig).terminate sig).rsp < kernelBase ∨
        trustedLimit < (((k.tasks slot).take sig).terminate sig).rsp :=
      Or.inl (by decide : 0 < kernelBase)
    apply killedForGood_of_dead
    · unfold dispatch
      rw [hdone]
      dsimp only
      rw [if_pos hzero]
      dsimp only
      rw [update_self]
    · unfold dispatch
      rw [hdone]
      dsimp only
      rw [if_pos hzero]
      exact nofun
  · have hmapped : mapped = false := by
      rcases hsig with hsig | hsig | hsig
      · exact absurd (Or.inl hsig) hkill
      · exact absurd (Or.inr hsig) hkill
      · exact hsig
    have hfault : taskDeliverSignals k.mem (k.tasks slot) mapped =
        .fault k.mem { (k.tasks slot).take sig with
          state := .dead, kernelStackBase := 0, rsp := 0 } := by
      unfold taskDeliverSignals
      rw [hfirst]
      dsimp only
      rw [if_neg (not_not.mpr hring), hhandler, if_neg Bool.false_ne_true, if_neg hlow,
        if_neg hkill, hmapped, if_neg Bool.false_ne_true]
    apply killedForGood_of_dead
    · unfold dispatch
      rw [hfault]
      dsimp only
      rw [update_self]
    · unfold dispatch
      rw [hfault]
      exact nofun

theorem resumed_of_not_fatal (hkill : (k.tasks slot).sigPending sigkill = true)
    (htrusted : Trusted (k.tasks slot).rsp) (hfatal : ¬ Fatal (k.tasks slot) mapped) :
    (dispatch k slot mapped).2 = some slot := by
  have htrust : ¬ ((k.tasks slot).rsp < kernelBase ∨ trustedLimit < (k.tasks slot).rsp) := by
    unfold Trusted at htrusted
    omega
  have hdone : ∃ mem t, taskDeliverSignals k.mem (k.tasks slot) mapped = .done mem t ∧
      t.rsp = (k.tasks slot).rsp := by
    cases hfirst : firstPending (k.tasks slot) with
    | none =>
        have hnone := Fin.find?_eq_none_iff.mp hfirst sigkill
        rw [hkill] at hnone
        cases hnone
    | some sig =>
        unfold taskDeliverSignals
        rw [hfirst]
        dsimp only
        split_ifs with hring hhandler hlow hends hmapped
        · exact ⟨_, _, rfl, rfl⟩
        · exact ⟨_, _, rfl, rfl⟩
        · exact ⟨_, _, rfl, rfl⟩
        · refine absurd ⟨Bool.eq_false_iff.mpr hhandler, sig, hfirst, ?_⟩ hfatal
          rcases hends with hsig | hzero
          · exact Or.inl hsig
          · exact Or.inr (Or.inl hzero)
        · exact ⟨_, _, rfl, rfl⟩
        · exact absurd ⟨Bool.eq_false_iff.mpr hhandler, sig, hfirst,
            Or.inr (Or.inr (Bool.eq_false_iff.mpr hmapped))⟩ hfatal
  obtain ⟨mem, t, hdone, hrsp⟩ := hdone
  unfold dispatch
  rw [hdone]
  dsimp only
  rw [hrsp, if_neg htrust]

/-- A task of ring 3 with the kill signal pending is gone after the switch to it if and only if
no handler of it is active and the first pending signal ends it, or the scheduler drops its
frame. -/
theorem killedForGood_iff (hring : (k.tasks slot).ring = .ring3)
    (hkill : (k.tasks slot).sigPending sigkill = true) :
    KilledForGood k slot mapped ↔
      Fatal (k.tasks slot) mapped ∨ ¬ Trusted (k.tasks slot).rsp := by
  constructor
  · intro hgood
    by_contra hnot
    rw [not_or, not_not] at hnot
    exact hgood.2.1 (resumed_of_not_fatal hkill hnot.2 hnot.1)
  · intro hcase
    by_cases htrusted : Trusted (k.tasks slot).rsp
    · rcases hcase with hfatal | huntrusted
      · exact killedForGood_of_fatal hring htrusted hfatal
      · exact absurd htrusted huntrusted
    · exact killedForGood_of_untrusted htrusted

end Delivery

def sigint : Signal := ⟨2, by decide⟩

/-- A process catches an interrupt and is sent one together with the kill signal. -/
def interruptThenKill : List Event :=
  [.create userSlot .ring3 userWords userStack (userStack + 0x100) true,
    .tick (kernelWords (bootStack + 0x100)) (bootStack + 0x100) 0 true,
    .sigaction sigint 0x400000,
    .tick userWords (userStack + 0x100) 1 true,
    .kill userSlot sigint,
    .kill userSlot sigkill]

/-- The kernel after some events, with the process picked to run next. -/
def pickedAfter (events : List Event) : Kernel × Option Slot :=
  pickNext (writeCurrent (final start (runEvents start events)).kernel
    (kernelWords (bootStack + 0x100))) (bootStack + 0x100) 2

/-- The same process with only the kill signal sent. -/
def killOnly : List Event :=
  [.create userSlot .ring3 userWords userStack (userStack + 0x100) true,
    .tick (kernelWords (bootStack + 0x100)) (bootStack + 0x100) 0 true,
    .tick userWords (userStack + 0x100) 1 true,
    .kill userSlot sigkill]

theorem killOnly_killedForGood : KilledForGood (pickedAfter killOnly).1 userSlot true :=
  (killedForGood_iff (by decide) (by decide)).mpr
    (Or.inl ⟨by decide, sigkill, by decide, Or.inl rfl⟩)

/-- The handler of the lower signal runs instead, and the process goes on. -/
theorem interruptThenKill_not_killedForGood :
    Along SignalStep start (runEvents start interruptThenKill) ∧
      (pickedAfter interruptThenKill).2 = some userSlot ∧
      ((pickedAfter interruptThenKill).1.tasks userSlot).ring = .ring3 ∧
      ((pickedAfter interruptThenKill).1.tasks userSlot).sigPending sigkill = true ∧
      ¬ KilledForGood (pickedAfter interruptThenKill).1 userSlot true := by
  refine ⟨⟨⟨by decide, rfl⟩, ⟨by decide, rfl⟩, ⟨trivial, rfl⟩, ⟨by decide, rfl⟩, ⟨trivial, rfl⟩,
    ⟨trivial, rfl⟩, trivial⟩, by decide, by decide, by decide, ?_⟩
  intro hgood
  exact hgood.2.1 (by decide)

end EigenOS.Signals
