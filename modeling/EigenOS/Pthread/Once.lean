import EigenOS.Pthread.MutexClients

/-!
# One-time initialization

`pthread_once` looks at the mark of its control without a lock, and again under one lock that
serves all controls.  The init routine runs from a step in which it is entered to one in which it
returns.
-/

namespace EigenOS.Pthread

/-- Where a thread is in `pthread_once`. -/
inductive OncePc where
  | outside
  /-- Before the load of the mark without the lock. -/
  | load
  /-- In `pthread_mutex_lock`. -/
  | lock
  /-- Before the test of the mark under the lock, the store to it, the call of the routine. -/
  | test
  | mark
  | enter
  | routine
  /-- In `pthread_mutex_unlock`. -/
  | unlock
  deriving DecidableEq

/-- `pthread_once_t` and `once_lock`, with the threads that use them. -/
structure OnceState (Thread : Type*) where
  onceLock : MutexState Thread
  done : Bool
  pc : Thread → OncePc
  /-- How often the routine has been entered, and has returned. -/
  entered : ℕ
  returned : ℕ

/-- `PTHREAD_ONCE_INIT`. -/
def OnceState.initial (Thread : Type*) : OnceState Thread where
  onceLock := MutexState.initial Thread
  done := false
  pc _ := .outside
  entered := 0
  returned := 0

section Steps

variable {Thread : Type*} [DecidableEq Thread]

def OnceState.goTo (s : OnceState Thread) (t : Thread) (pc : OncePc) : OnceState Thread :=
  { s with pc := Function.update s.pc t pc }

/-- The thread calls `pthread_mutex_lock`. -/
def OnceState.lockOnce (s : OnceState Thread) (t : Thread) : OnceState Thread :=
  { s with onceLock := s.onceLock.goTo t .lockExchange }.goTo t .lock

/-- The thread calls `pthread_mutex_unlock`. -/
def OnceState.unlockOnce (s : OnceState Thread) (t : Thread) : OnceState Thread :=
  { s with onceLock := s.onceLock.goTo t .unlockStore }.goTo t .unlock

/-- The next step of a thread outside the functions of the mutex. -/
def OnceState.step (s : OnceState Thread) (t : Thread) : OnceState Thread :=
  match s.pc t with
  | .outside => s
  | .load => if s.done then s.goTo t .outside else s.lockOnce t
  | .lock => s.goTo t .test
  | .test => if s.done then s.unlockOnce t else s.goTo t .mark
  | .mark => { s with done := true }.goTo t .enter
  | .enter => { s with entered := s.entered + 1 }.goTo t .routine
  | .routine => { s with returned := s.returned + 1 }.unlockOnce t
  | .unlock => s.goTo t .outside

inductive OnceAction (Thread : Type*) where
  /-- A call; one with a null pointer returns `EINVAL` at once. -/
  | call (t : Thread) (null : Bool)
  | step (t : Thread)
  /-- A step inside a function of the mutex. -/
  | mutexStep (t : Thread)
  /-- The wake of `pthread_mutex_unlock` and the thread it wakes. -/
  | mutexWake (t : Thread) (woken : Option Thread)

def OnceAction.run (s : OnceState Thread) : OnceAction Thread → OnceState Thread
  | .call t null => if null then s else s.goTo t .load
  | .step t => s.step t
  | .mutexStep t => { s with onceLock := s.onceLock.step t }
  | .mutexWake t woken => { s with onceLock := (MutexAction.wake t woken).run s.onceLock }

def OnceAction.Enabled (s : OnceState Thread) : OnceAction Thread → Prop
  | .call t _ => s.pc t = .outside
  | .step t => s.onceLock.pc t = .outside ∧ s.pc t ≠ .outside
  | .mutexStep t => (MutexAction.step t).Enabled s.onceLock
  | .mutexWake t woken => (MutexAction.wake t woken).Enabled s.onceLock

def OnceStep (s : OnceState Thread) (action : OnceAction Thread) (next : OnceState Thread) :
    Prop :=
  action.Enabled s ∧ next = action.run s

end Steps

variable {Thread : Type*}

/-- A call returns 0 in the step. -/
def OnceAction.Returns (s : OnceState Thread) (next : OnceState Thread) :
    OnceAction Thread → Prop
  | .step t => s.pc t ≠ .outside ∧ next.pc t = .outside
  | _ => False

/-- The routine has run, once and to its end, when a call returns. -/
def ReturnsAfterInit (s : OnceState Thread) (action : OnceAction Thread)
    (next : OnceState Thread) : Prop :=
  action.Returns s next → next.entered = 1 ∧ next.returned = 1

/-- The routine is not entered a second time. -/
def EnteredOnce (s : OnceState Thread) : Prop := s.entered ≤ 1 ∧ s.returned ≤ s.entered

end EigenOS.Pthread

/-!
## The routine runs once, and who returns before it has

The thread that marks the control holds the lock until the routine has returned, so the routine
is entered once.  The mark is set before, and a call that looks at it without the lock meanwhile
returns too early.
-/

namespace EigenOS.Pthread

open EigenOS.Transition Function

/-- How far the initialization is. -/
inductive OncePhase where
  | fresh
  | marked
  | running
  | finished
  deriving DecidableEq

def OncePc.use : OncePc → MutexUse
  | .outside | .load => .without
  | .lock => .locking
  | .test | .mark | .enter | .routine => .within
  | .unlock => .unlocking

/-- The phase that a thread at a place knows of. -/
def OncePc.phase : OncePc → Option OncePhase
  | .mark => some .fresh
  | .enter => some .marked
  | .routine => some .running
  | .unlock => some .finished
  | .outside | .load | .lock | .test => none

variable {Thread : Type*}

def OnceState.In (s : OnceState Thread) : OncePhase → Prop
  | .fresh => s.done = false ∧ s.entered = 0 ∧ s.returned = 0
  | .marked => s.done = true ∧ s.entered = 0 ∧ s.returned = 0
  | .running => s.done = true ∧ s.entered = 1 ∧ s.returned = 0
  | .finished => s.done = true ∧ s.entered = 1 ∧ s.returned = 1

/-- A thread is in the routine, or has set the mark and is about to enter it. -/
def Initializing (s : OnceState Thread) : Prop :=
  ∃ u, s.pc u = .enter ∨ s.pc u = .routine

structure OnceInv (phase : OncePhase) (s : OnceState Thread) : Prop where
  disciplined : Disciplined OncePc.use s.onceLock s.pc
  data : s.In phase
  knows : ∀ t known, (s.pc t).phase = some known → known = phase
  underway : phase = .marked ∨ phase = .running → Initializing s

/-- No call looks at the mark without the lock while a thread initializes. -/
def LooksOutsideInit (s : OnceState Thread) : OnceAction Thread → OnceState Thread → Prop
  | .step t, _ => s.pc t = .load → ¬ Initializing s
  | _, _ => True

variable {s : OnceState Thread} {phase : OncePhase} {t : Thread}

theorem onceInv_initial : OnceInv .fresh (OnceState.initial Thread) where
  disciplined := Disciplined.initial fun _ => rfl
  data := ⟨rfl, rfl, rfl⟩
  knows _ _ h := nomatch h
  underway h := nomatch h

theorem OnceInv.enteredOnce (h : OnceInv phase s) : EnteredOnce s := by
  have hdata := h.data
  cases phase with
  | fresh | marked | running | finished =>
    obtain ⟨-, hentered, hreturned⟩ := hdata
    rw [EnteredOnce, hentered, hreturned]
    decide

/-- Where a thread initializes, the routine has not returned. -/
theorem OnceInv.initializing_iff (h : OnceInv phase s) :
    Initializing s ↔ phase = .marked ∨ phase = .running := by
  refine ⟨?_, h.underway⟩
  rintro ⟨u, hu | hu⟩
  · exact .inl (h.knows u .marked (by rw [hu]; rfl)).symm
  · exact .inr (h.knows u .running (by rw [hu]; rfl)).symm

theorem OnceInv.others (h : OnceInv phase s) (huse : (s.pc t).use = .within)
    (hphase : phase ≠ .finished) {u : Thread} (hne : u ≠ t) : (s.pc u).phase = none := by
  have hknows := h.knows u
  have hexclusive : (s.pc u).use ≠ .within := fun hu => hne (h.disciplined.exclusive hu huse)
  cases hpc : s.pc u with
  | outside | load | lock | test => rfl
  | mark | enter | routine =>
    rw [hpc] at hexclusive
    exact absurd rfl hexclusive
  | unlock =>
    rw [hpc] at hknows
    exact absurd (hknows .finished rfl).symm hphase

section Steps

variable [DecidableEq Thread] {p : OncePc} {m : MutexState Thread}

theorem OnceInv.move (h : OnceInv phase s)
    (hm : Disciplined OncePc.use m (update s.pc t p))
    (hbefore : s.pc t ≠ .enter ∧ s.pc t ≠ .routine)
    (hknows : ∀ known, p.phase = some known → known = phase) :
    OnceInv phase ({ s with onceLock := m }.goTo t p) where
  disciplined := hm
  data := by
    have hdata := h.data
    cases phase with
    | fresh | marked | running | finished => exact hdata
  knows := by
    intro u known hu
    dsimp only [OnceState.goTo] at hu
    by_cases heq : u = t
    · rw [heq, update_self] at hu
      exact hknows known hu
    · rw [update_of_ne heq] at hu
      exact h.knows u known hu
  underway := by
    intro hphase
    obtain ⟨u, hu⟩ := h.underway hphase
    have hne : u ≠ t := by
      rintro rfl
      exact hu.elim hbefore.1 hbefore.2
    refine ⟨u, ?_⟩
    dsimp only [OnceState.goTo]
    rwa [update_of_ne hne]

theorem OnceInv.advance (h : OnceInv phase s) {next : OncePhase} {done : Bool}
    {entered returned : ℕ} (huse : (s.pc t).use = .within) (hphase : phase ≠ .finished)
    (hm : Disciplined OncePc.use m (update s.pc t p))
    (hdata : OnceState.In ⟨m, done, update s.pc t p, entered, returned⟩ next)
    (hknows : p.phase = some next) (hunderway : next = .finished ∨ p = .enter ∨ p = .routine) :
    OnceInv next ⟨m, done, update s.pc t p, entered, returned⟩ where
  disciplined := hm
  data := hdata
  knows := by
    intro u known hu
    dsimp only at hu
    by_cases heq : u = t
    · rw [heq, update_self] at hu
      exact Option.some.inj (hu.symm.trans hknows)
    · rw [update_of_ne heq, h.others huse hphase heq] at hu
      exact nomatch hu
  underway := by
    intro hnext
    rcases hunderway with rfl | hp
    · exact nomatch hnext
    · refine ⟨t, ?_⟩
      dsimp only
      rwa [update_self]

theorem OnceInv.step (h : OnceInv phase s) (houtside : s.onceLock.pc t = .outside) :
    ∃ next, OnceInv next (s.step t) := by
  have hknows := h.knows t
  have hholds := h.disciplined.holds (t := t) houtside
  have hnot := h.disciplined.not_holds (t := t) houtside
  have hdata := h.data
  rw [OnceState.step]
  cases hpc : s.pc t with
  | outside =>
    exact ⟨phase, h⟩
  | load =>
    have hbefore : s.pc t ≠ .enter ∧ s.pc t ≠ .routine := by
      rw [hpc]
      exact ⟨nofun, nofun⟩
    rw [hpc] at hnot
    dsimp only
    split_ifs
    · refine ⟨phase, h.move (h.disciplined.without houtside ?_ rfl) hbefore nofun⟩
      rw [hpc]
      exact .inr rfl
    · exact ⟨phase, h.move (h.disciplined.lock (hnot (.inr rfl)) rfl) hbefore nofun⟩
  | lock =>
    refine ⟨phase, h.move (h.disciplined.within houtside ?_ rfl) ?_ nofun⟩
    · rw [hpc]
      exact .inl rfl
    · rw [hpc]
      exact ⟨nofun, nofun⟩
  | test =>
    have hbefore : s.pc t ≠ .enter ∧ s.pc t ≠ .routine := by
      rw [hpc]
      exact ⟨nofun, nofun⟩
    have huse : (s.pc t).use = .within := by rw [hpc]; rfl
    have hidle : phase = .fresh ∨ phase = .finished := by
      have hinit := h.initializing_iff
      by_contra hne
      obtain ⟨hfresh, hfinished⟩ := not_or.mp hne
      have hsome : phase = .marked ∨ phase = .running := by
        cases phase with
        | fresh => exact absurd rfl hfresh
        | marked => exact .inl rfl
        | running => exact .inr rfl
        | finished => exact absurd rfl hfinished
      obtain ⟨u, hu⟩ := hinit.mpr hsome
      have huu : (s.pc u).use = .within := by
        rcases hu with hu | hu
        · rw [hu]
          rfl
        · rw [hu]
          rfl
      rw [h.disciplined.exclusive huu huse] at hu
      exact hu.elim hbefore.1 hbefore.2
    dsimp only
    rcases hidle with rfl | rfl
    · rw [hdata.1, if_neg Bool.false_ne_true]
      refine ⟨.fresh, h.move (h.disciplined.within houtside (.inr huse) rfl) hbefore ?_⟩
      exact fun known hknown => (Option.some.inj hknown).symm
    · rw [hdata.1, if_pos rfl]
      refine ⟨.finished, h.move (h.disciplined.unlock (hholds (.inr huse)) rfl) hbefore ?_⟩
      exact fun known hknown => (Option.some.inj hknown).symm
  | mark =>
    have huse : (s.pc t).use = .within := by rw [hpc]; rfl
    rw [hpc] at hknows
    cases hknows .fresh rfl
    exact ⟨.marked, h.advance huse nofun (h.disciplined.within houtside (.inr huse) rfl)
      ⟨rfl, hdata.2⟩ rfl (.inr (.inl rfl))⟩
  | enter =>
    have huse : (s.pc t).use = .within := by rw [hpc]; rfl
    rw [hpc] at hknows
    cases hknows .marked rfl
    obtain ⟨hdone, hentered, hreturned⟩ := hdata
    exact ⟨.running, h.advance huse nofun (h.disciplined.within houtside (.inr huse) rfl)
      ⟨hdone, congrArg (· + 1) hentered, hreturned⟩ rfl (.inr (.inr rfl))⟩
  | routine =>
    have huse : (s.pc t).use = .within := by rw [hpc]; rfl
    rw [hpc] at hknows
    cases hknows .running rfl
    obtain ⟨hdone, hentered, hreturned⟩ := hdata
    exact ⟨.finished, h.advance huse nofun (h.disciplined.unlock (hholds (.inr huse)) rfl)
      ⟨hdone, hentered, congrArg (· + 1) hreturned⟩ rfl (.inl rfl)⟩
  | unlock =>
    refine ⟨phase, h.move (h.disciplined.without houtside ?_ rfl) ?_ nofun⟩
    · rw [hpc]
      exact .inl rfl
    · rw [hpc]
      exact ⟨nofun, nofun⟩

omit [DecidableEq Thread] in
theorem OnceInv.setMutex (h : OnceInv phase s) (hm : Disciplined OncePc.use m s.pc) :
    OnceInv phase { s with onceLock := m } where
  disciplined := hm
  data := by
    have hdata := h.data
    cases phase with
    | fresh | marked | running | finished => exact hdata
  knows := h.knows
  underway := h.underway

theorem OnceInv.run {action : OnceAction Thread} {next : OnceState Thread} (h : OnceInv phase s)
    (hstep : OnceStep s action next) : ∃ phase, OnceInv phase next := by
  obtain ⟨henabled, rfl⟩ := hstep
  cases action with
  | call t null =>
    have hpc : s.pc t = .outside := henabled
    rw [OnceAction.run]
    split_ifs
    · exact ⟨phase, h⟩
    · refine ⟨phase, h.move (h.disciplined.without ?_ ?_ rfl) ?_ nofun⟩
      · exact (h.disciplined.without_holds (by rw [hpc]; rfl)).1
      · rw [hpc]
        exact .inr rfl
      · rw [hpc]
        exact ⟨nofun, nofun⟩
  | step t => exact h.step henabled.1
  | mutexStep t => exact ⟨phase, h.setMutex (h.disciplined.step t)⟩
  | mutexWake t woken => exact ⟨phase, h.setMutex (h.disciplined.wake henabled)⟩

/-! ## Returns -/

theorem goTo_not_outside (s : OnceState Thread) (t : Thread) (hp : p ≠ .outside) :
    (s.goTo t p).pc t ≠ .outside := by
  dsimp only [OnceState.goTo]
  rwa [update_self]

/-- A step of a call keeps to the routine's run exactly if it does not look at the mark while a
thread initializes. -/
theorem OnceInv.returnsAfterInit_iff {action : OnceAction Thread} {next : OnceState Thread}
    (h : OnceInv phase s) (hstep : OnceStep s action next) :
    ReturnsAfterInit s action next ↔ LooksOutsideInit s action next := by
  obtain ⟨-, rfl⟩ := hstep
  have hknows := h.knows
  have hdata := h.data
  cases action with
  | call | mutexStep | mutexWake => exact iff_of_true (fun hreturns => hreturns.elim) trivial
  | step t =>
    rw [OnceAction.run, ReturnsAfterInit, OnceAction.Returns, LooksOutsideInit]
    have hstays : ∀ {after : OnceState Thread}, after.pc t ≠ .outside → s.pc t ≠ .load →
        ((s.pc t ≠ .outside ∧ after.pc t = .outside →
          after.entered = 1 ∧ after.returned = 1) ↔ (s.pc t = .load → ¬ Initializing s)) :=
      fun hafter hload => iff_of_true (fun hreturns => absurd hreturns.2 hafter)
        fun heq => absurd heq hload
    cases hpc : s.pc t with
    | outside => exact iff_of_true (fun hreturns => absurd rfl hreturns.1) nofun
    | load =>
      rw [OnceState.step, hpc, h.initializing_iff]
      dsimp only
      cases phase with
      | fresh =>
        rw [hdata.1, if_neg Bool.false_ne_true]
        refine iff_of_true (fun hreturns => absurd hreturns.2 ?_) (fun _ => nofun)
        exact goTo_not_outside _ t nofun
      | marked =>
        rw [hdata.1, if_pos rfl]
        refine iff_of_false (fun hall => ?_) (fun hlooks => hlooks rfl (.inl rfl))
        have hentered := (hall ⟨nofun, update_self ..⟩).1
        exact nomatch hdata.2.1.symm.trans hentered
      | running =>
        rw [hdata.1, if_pos rfl]
        refine iff_of_false (fun hall => ?_) (fun hlooks => hlooks rfl (.inr rfl))
        have hreturned := (hall ⟨nofun, update_self ..⟩).2
        exact nomatch hdata.2.2.symm.trans hreturned
      | finished =>
        rw [hdata.1, if_pos rfl]
        exact iff_of_true (fun _ => hdata.2) (fun _ => nofun)
    | unlock =>
      cases hknows t .finished (by rw [hpc]; rfl)
      rw [OnceState.step, hpc]
      exact iff_of_true (fun _ => hdata.2) nofun
    | test =>
      rw [← hpc]
      apply hstays _ (by rw [hpc]; nofun)
      rw [OnceState.step, hpc]
      dsimp only
      split_ifs
      · exact goTo_not_outside _ t nofun
      · exact goTo_not_outside _ t nofun
    | lock | mark | enter | routine =>
      rw [← hpc]
      apply hstays _ (by rw [hpc]; nofun)
      rw [OnceState.step, hpc]
      exact goTo_not_outside _ t nofun

/-- The routine is entered once, and it has returned when a call returns, exactly if no call looks
at the mark without the lock while a thread initializes. -/
theorem initializes_iff {run : List (OnceAction Thread × OnceState Thread)}
    (hrun : Along OnceStep (OnceState.initial Thread) run) :
    (Always EnteredOnce (OnceState.initial Thread) run ∧
        Along ReturnsAfterInit (OnceState.initial Thread) run) ↔
      Along LooksOutsideInit (OnceState.initial Thread) run := by
  have hinv : Always (fun s => ∃ phase, OnceInv phase s) (OnceState.initial Thread) run :=
    always_of_invariant _ (fun _ _ _ ⟨_, h⟩ hstep => h.run hstep) ⟨.fresh, onceInv_initial⟩ hrun
  have hentered : Always EnteredOnce (OnceState.initial Thread) run :=
    hinv.mono fun _ ⟨_, h⟩ => h.enteredOnce
  have hiff := along_iff_of_invariant (fun s : OnceState Thread => ∃ phase, OnceInv phase s)
    (fun s action next ⟨phase, h⟩ hstep => ⟨h.run hstep, h.returnsAfterInit_iff hstep⟩)
    ⟨.fresh, onceInv_initial⟩ hrun
  exact ⟨fun h => hiff.mp h.2, fun h => ⟨hentered, hiff.mpr h⟩⟩

end Steps

/-! ## Runs of two threads -/

instance (s : OnceState Bool) : DecidablePred (OnceAction.Enabled s)
  | .call _ _ => inferInstanceAs (Decidable (_ = _))
  | .step _ => inferInstanceAs (Decidable (_ ∧ _))
  | .mutexStep t => inferInstanceAs (Decidable ((MutexAction.step t).Enabled s.onceLock))
  | .mutexWake t woken => inferInstanceAs (Decidable ((MutexAction.wake t woken).Enabled s.onceLock))

instance (s : OnceState Bool) : Decidable (Initializing s) :=
  inferInstanceAs (Decidable (∃ _ : Bool, _))

instance (s next : OnceState Bool) (action : OnceAction Bool) :
    Decidable (LooksOutsideInit s action next) :=
  match action with
  | .step _ => inferInstanceAs (Decidable (_ → _))
  | .call _ _ | .mutexStep _ | .mutexWake _ _ => .isTrue trivial

instance (s next : OnceState Bool) (action : OnceAction Bool) :
    Decidable (ReturnsAfterInit s action next) :=
  match action with
  | .step _ => inferInstanceAs (Decidable (_ ∧ _ → _))
  | .call _ _ | .mutexStep _ | .mutexWake _ _ => .isTrue False.elim

def onceTrace (actions : List (OnceAction Bool)) : List (OnceAction Bool × OnceState Bool) :=
  trace OnceAction.run (OnceState.initial Bool) actions

theorem onceTrace_run {actions : List (OnceAction Bool)}
    (h : Along (fun s action _ => action.Enabled s) (OnceState.initial Bool) (onceTrace actions)) :
    Along OnceStep (OnceState.initial Bool) (onceTrace actions) :=
  along_trace_of_enabled _ h

/-- One thread calls and runs the routine, another finds the lock taken and waits for it. -/
def lateCall : List (OnceAction Bool) :=
  [.call true false, .call false false, .step true, .step false, .mutexStep true] ++
    [.step true, .step true, .mutexStep false, .mutexStep false, .mutexStep false] ++
    [.step true, .step true, .step true, .mutexStep true, .mutexStep true] ++
    [.mutexWake true (some false), .step true, .mutexStep false, .step false, .step false]

theorem initializes_lateCall :
    Along OnceStep (OnceState.initial Bool) (onceTrace lateCall) ∧
      Along LooksOutsideInit (OnceState.initial Bool) (onceTrace lateCall) ∧
      (Always EnteredOnce (OnceState.initial Bool) (onceTrace lateCall) ∧
        Along ReturnsAfterInit (OnceState.initial Bool) (onceTrace lateCall)) :=
  have hrun : Along OnceStep (OnceState.initial Bool) (onceTrace lateCall) :=
    onceTrace_run (by decide +kernel)
  have hlooks : Along LooksOutsideInit (OnceState.initial Bool) (onceTrace lateCall) := by
    decide +kernel
  ⟨hrun, hlooks, (initializes_iff hrun).mpr hlooks⟩

/-- A call returns between the store to the mark and the entry of the routine. -/
theorem not_along_returnsAfterInit :
    ∃ run : List (OnceAction Bool × OnceState Bool),
      Along OnceStep (OnceState.initial Bool) run ∧
        ¬ Along ReturnsAfterInit (OnceState.initial Bool) run :=
  ⟨onceTrace [.call true false, .step true, .mutexStep true, .step true, .step true, .step true,
      .call false false, .step false],
    onceTrace_run (by decide +kernel), by decide +kernel⟩

end EigenOS.Pthread
