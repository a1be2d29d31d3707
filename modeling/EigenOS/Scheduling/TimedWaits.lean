import EigenOS.Scheduling.Futex

/-!
# Waits with a timeout

Deadlines are sums of the 32-bit millisecond clock and a timeout, compared with the clock as
plain numbers.  The clock is read in the interrupt handler that counts a tick and calls the
scheduler, so that every tick is a scheduling pass; `yield` is such an interrupt too.
-/

namespace EigenOS.Scheduling.TimedWaits

open EigenOS.Transition

/-- The milliseconds after which the clock is back where it was. -/
def clockPeriod : ℕ := 2 ^ 32

/-- `timer_get_ms`, of all ticks that were counted. -/
def timerGetMs (timerTicks : ℕ) : ℕ := timerTicks % clockPeriod

/-- Where a task is that waits. -/
inductive Phase where
  | sleeping (sleepUntil : ℕ)
  /-- Runnable; `woken` says that a `FUTEX_WAKE` has counted it. -/
  | ready (woken : Bool)
  /-- The call has returned; `gaveUp` says that it did so because its time was up. -/
  | returned (gaveUp : Bool)
  deriving DecidableEq

structure Waiter where
  timerTicks : ℕ
  phase : Phase
  deriving DecidableEq

/-- The wake-up of `schedule`. -/
def Phase.wake (phase : Phase) (now : ℕ) : Phase :=
  match phase with
  | .sleeping sleepUntil => if sleepUntil ≤ now then .ready false else phase
  | _ => phase

/-- `irq0_handler`: a tick, and the pass of the scheduler. -/
def irq0 (w : Waiter) : Waiter where
  timerTicks := w.timerTicks + 1
  phase := w.phase.wake (timerGetMs (w.timerTicks + 1))

/-- `sleep_task`, up to the pass of its `yield`. -/
def sleepTask (w : Waiter) (ms : ℕ) : Waiter :=
  irq0 { w with phase := .sleeping ((timerGetMs w.timerTicks + ms) % clockPeriod) }

/-- `sleep_until` of a futex wait. -/
def futexDeadline (timerTicks : ℕ) (timeoutMs : UInt64) : ℕ :=
  if timeoutMs ≠ 0 then (timerGetMs timerTicks + timeoutMs.toUInt32.toNat) % clockPeriod
  else 0xFFFFFFFFFFFFFFFF

/-- The deadline of `k_sys_poll` and of `EPOLL_EPOLL_WAIT`. -/
def pollDeadline (timerTicks : ℕ) (timeoutMs : ℤ) : ℤ :=
  if timeoutMs < 0 then -1 else timerGetMs timerTicks + timeoutMs

/-- A round of their loops, after the look at the descriptors. -/
def waitRound (timeoutMs deadline : ℤ) (ready : Bool) (w : Waiter) : Waiter :=
  if ready ∨ timeoutMs = 0 then { w with phase := .returned (!ready) }
  else if deadline < 0 then sleepTask w 10
  else
    let now := timerGetMs w.timerTicks
    if (deadline % clockPeriod).toNat ≤ now then { w with phase := .returned true }
    else
      let rem := (deadline % clockPeriod).toNat - now
      sleepTask w (if 10 < rem then 10 else rem)

inductive Call where
  | sleepTask (ms : UInt32)
  /-- `FUTEX_WAIT`, with the expected value in place. -/
  | futexWait (timeoutMs : UInt64)
  | poll (timeoutMs : Int32)
  | epollWait (timeoutMs : Int32)

inductive Move where
  | tick
  /-- A `FUTEX_WAKE` counts the task, if it sleeps. -/
  | wake
  /-- The task runs on, if it can; `ready` is what a look at its descriptors finds. -/
  | resume (ready : Bool)

/-- The call, made with the given count of ticks. -/
def Call.start (call : Call) (timerTicks : ℕ) : Waiter :=
  match call with
  | .sleepTask ms => TimedWaits.sleepTask ⟨timerTicks, .ready false⟩ ms.toNat
  | .futexWait timeoutMs => irq0 ⟨timerTicks, .sleeping (futexDeadline timerTicks timeoutMs)⟩
  | .poll _ | .epollWait _ => ⟨timerTicks, .ready false⟩

/-- The task runs on in its call. -/
def Call.resume (call : Call) (timerTicks : ℕ) (ready woken : Bool) (w : Waiter) : Waiter :=
  match call with
  | .sleepTask _ => { w with phase := .returned true }
  | .futexWait _ => { w with phase := .returned (!woken) }
  | .poll timeoutMs | .epollWait timeoutMs =>
      waitRound timeoutMs.toInt (pollDeadline timerTicks timeoutMs.toInt) ready w

def Call.step (call : Call) (timerTicks : ℕ) (w : Waiter) : Move → Waiter
  | .tick => irq0 w
  | .wake =>
      match call, w.phase with
      | .futexWait _, .sleeping _ => { w with phase := .ready true }
      | _, _ => w
  | .resume ready =>
      match w.phase with
      | .ready woken => call.resume timerTicks ready woken w
      | _ => w

/-! ## The task table -/

/-- The phase of a task that has not returned from its wait. -/
def phaseOf (t : Signals.Task) : Phase :=
  if t.state = .sleeping then .sleeping t.sleepUntil else .ready false

/-- A phase wakes as the search of `schedule` wakes the task. -/
theorem phaseOf_wakeSleepers (k : Signals.Kernel) (now : ℕ) (slot : Signals.Slot) :
    phaseOf ((Signals.wakeSleepers k now).tasks slot) = (phaseOf (k.tasks slot)).wake now := by
  unfold phaseOf Signals.wakeSleepers Phase.wake
  by_cases hsleeping : (k.tasks slot).state = .sleeping
  · by_cases htime : (k.tasks slot).sleepUntil ≤ now
    · simp [hsleeping, htime]
    · simp [hsleeping, htime]
  · simp [hsleeping]

theorem waitDeadline_eq (s : Futex.State) (timeoutMs : UInt64) :
    Futex.waitDeadline s timeoutMs = futexDeadline s.timerTicks.toNat timeoutMs := by
  unfold Futex.waitDeadline futexDeadline
  split
  · simp [Futex.State.timerGetMs, timerGetMs, clockPeriod, UInt32.toNat_add]
  · rfl

/-! ## What a caller can count on -/

/-- The milliseconds that a call is asked to wait at most; `none` waits for ever. -/
def Call.requested : Call → Option ℕ
  | .sleepTask ms => some ms.toNat
  | .futexWait timeoutMs => if timeoutMs = 0 then none else some timeoutMs.toNat
  | .poll timeoutMs | .epollWait timeoutMs =>
      if timeoutMs.toInt < 0 then none else some timeoutMs.toInt.toNat

/-- The call has not given up before its time, and once its time has come the task does not
sleep on. -/
def Punctual (call : Call) (timerTicks : ℕ) (w : Waiter) : Prop :=
  ∀ timeout, call.requested = some timeout →
    (w.phase = .returned true → timerTicks + timeout ≤ w.timerTicks) ∧
      ∀ sleepUntil, w.phase = .sleeping sleepUntil → w.timerTicks < timerTicks + timeout

/-- A deadline of one sleep that the clock comes to at the right tick: it does not wrap before,
or it wraps at the first tick. -/
def ClockReaches (timerTicks timeout : ℕ) : Prop :=
  timerGetMs timerTicks + max timeout 1 < clockPeriod ∨
    timerGetMs timerTicks + 1 = clockPeriod ∧ 1 ≤ timeout ∧ timeout ≤ clockPeriod

/-- The deadline of a call is one that the clock comes to. -/
def Call.Fits (call : Call) (timerTicks : ℕ) : Prop :=
  match call with
  | .sleepTask ms => ClockReaches timerTicks ms.toNat
  | .futexWait timeoutMs => timeoutMs ≠ 0 → ClockReaches timerTicks timeoutMs.toNat
  | .poll timeoutMs | .epollWait timeoutMs =>
      0 < timeoutMs.toInt → timerGetMs timerTicks + timeoutMs.toInt < clockPeriod

/-- A `poll` that is resumed when its time is up looks at the clock before it wraps. -/
def LooksInTime (call : Call) (timerTicks : ℕ) (w : Waiter) : Move → Prop
  | .resume _ =>
      match call with
      | .poll timeoutMs | .epollWait timeoutMs =>
          0 < timeoutMs.toInt → timerTicks + timeoutMs.toInt ≤ w.timerTicks →
            timerGetMs timerTicks + timeoutMs.toInt ≤ timerGetMs w.timerTicks
      | _ => True
  | _ => True

/-! ## One sleep -/

/-- At the ticks up to the deadline the clock says whether it has come. -/
theorem deadline_le_iff {timerTicks timeout elapsed : ℕ} (hreach : ClockReaches timerTicks timeout)
    (hpos : 1 ≤ elapsed) (hle : elapsed ≤ max timeout 1) :
    (timerGetMs timerTicks + timeout) % clockPeriod ≤ timerGetMs (timerTicks + elapsed) ↔
      timeout ≤ elapsed := by
  unfold ClockReaches timerGetMs clockPeriod at *
  omega

/-- If the clock says so at each of them, the deadline is one that the clock comes to. -/
theorem clockReaches_of_iff {timerTicks timeout : ℕ}
    (h : ∀ elapsed, 1 ≤ elapsed → elapsed ≤ max timeout 1 →
      ((timerGetMs timerTicks + timeout) % clockPeriod ≤ timerGetMs (timerTicks + elapsed) ↔
        timeout ≤ elapsed)) : ClockReaches timerTicks timeout := by
  by_contra hnot
  have hend := h (max timeout 1) (le_max_right _ _) le_rfl
  by_cases hlast : timerGetMs timerTicks + 1 = clockPeriod
  · by_cases hlong : clockPeriod < timeout
    · -- a whole period later the clock is at its largest value again
      have hperiod := h clockPeriod (by decide) (by omega)
      unfold ClockReaches timerGetMs clockPeriod at *
      omega
    · unfold ClockReaches timerGetMs clockPeriod at *
      omega
  · -- at its largest value the clock is past every deadline
    have hlargest := h (clockPeriod - 1 - timerGetMs timerTicks)
    unfold ClockReaches timerGetMs clockPeriod at *
    omega

/-- A wait that is one sleep: it can run on only when its time is up, or when it was woken. -/
structure OneSleep (wakeable : Prop) (timerTicks timeout : ℕ) (w : Waiter) : Prop where
  passed : timerTicks + 1 ≤ w.timerTicks
  asleep : ∀ sleepUntil, w.phase = .sleeping sleepUntil →
    sleepUntil = (timerGetMs timerTicks + timeout) % clockPeriod ∧
      w.timerTicks < timerTicks + timeout
  ready : w.phase = .ready false → timerTicks + timeout ≤ w.timerTicks
  woken : w.phase = .ready true → wakeable
  gaveUp : w.phase = .returned true → timerTicks + timeout ≤ w.timerTicks

section OneSleep

variable {wakeable : Prop} {timerTicks timeout : ℕ}

theorem OneSleep.of_ready {ticks : ℕ} (hpassed : timerTicks + 1 ≤ ticks)
    (htime : timerTicks + timeout ≤ ticks) :
    OneSleep wakeable timerTicks timeout ⟨ticks, .ready false⟩ where
  passed := hpassed
  asleep _ h := nomatch h
  ready _ := htime
  woken h := nomatch h
  gaveUp h := nomatch h

theorem OneSleep.of_sleeping {ticks : ℕ} (hpassed : timerTicks + 1 ≤ ticks)
    (htime : ticks < timerTicks + timeout) :
    OneSleep wakeable timerTicks timeout
      ⟨ticks, .sleeping ((timerGetMs timerTicks + timeout) % clockPeriod)⟩ where
  passed := hpassed
  asleep _ h := ⟨(Phase.sleeping.inj h).symm, htime⟩
  ready h := nomatch h
  woken h := nomatch h
  gaveUp h := nomatch h

theorem OneSleep.of_returned {ticks : ℕ} (hpassed : timerTicks + 1 ≤ ticks) {gaveUp : Bool}
    (htime : gaveUp = true → timerTicks + timeout ≤ ticks) :
    OneSleep wakeable timerTicks timeout ⟨ticks, .returned gaveUp⟩ where
  passed := hpassed
  asleep _ h := nomatch h
  ready h := nomatch h
  woken h := nomatch h
  gaveUp h := htime (Phase.returned.inj h)

theorem OneSleep.of_woken {ticks : ℕ} (hpassed : timerTicks + 1 ≤ ticks) (hwoken : wakeable) :
    OneSleep wakeable timerTicks timeout ⟨ticks, .ready true⟩ where
  passed := hpassed
  asleep _ h := nomatch h
  ready h := nomatch h
  woken _ := hwoken
  gaveUp h := nomatch h

theorem oneSleep_irq0 {ticks : ℕ} (hreach : ClockReaches timerTicks timeout)
    (hstart : timerTicks ≤ ticks) (hbefore : ticks + 1 ≤ timerTicks + max timeout 1) :
    OneSleep wakeable timerTicks timeout
      (irq0 ⟨ticks, .sleeping ((timerGetMs timerTicks + timeout) % clockPeriod)⟩) := by
  have hiff := deadline_le_iff hreach (by omega : 1 ≤ ticks + 1 - timerTicks) (by omega)
  have hticks : timerTicks + (ticks + 1 - timerTicks) = ticks + 1 := by omega
  rw [hticks] at hiff
  unfold irq0 Phase.wake
  dsimp only
  by_cases htime : (timerGetMs timerTicks + timeout) % clockPeriod ≤ timerGetMs (ticks + 1)
  · have hup := hiff.mp htime
    rw [if_pos htime]
    exact OneSleep.of_ready (by omega) (by omega)
  · have hnot : ¬ timeout ≤ ticks + 1 - timerTicks := fun h => htime (hiff.mpr h)
    rw [if_neg htime]
    exact OneSleep.of_sleeping (by omega) (by omega)

theorem OneSleep.irq0 {w : Waiter} (hreach : ClockReaches timerTicks timeout)
    (h : OneSleep wakeable timerTicks timeout w) :
    OneSleep wakeable timerTicks timeout (irq0 w) := by
  obtain ⟨ticks, phase⟩ := w
  have hpassed : timerTicks + 1 ≤ ticks := h.passed
  have hlater : timerTicks + 1 ≤ ticks + 1 := hpassed.trans (Nat.le_succ ticks)
  cases phase with
  | sleeping sleepUntil =>
      obtain ⟨rfl, hbefore⟩ := h.asleep sleepUntil rfl
      dsimp only at hbefore
      exact oneSleep_irq0 hreach (by omega) (by omega)
  | ready woken =>
      cases woken with
      | false => exact OneSleep.of_ready hlater ((h.ready rfl).trans (Nat.le_succ ticks))
      | true => exact OneSleep.of_woken hlater (h.woken rfl)
  | returned gaveUp =>
      refine OneSleep.of_returned hlater fun heq => ?_
      subst heq
      exact (h.gaveUp rfl).trans (Nat.le_succ ticks)

theorem OneSleep.sleepTask_step {w : Waiter} {ms : UInt32}
    (hreach : ClockReaches timerTicks timeout) (h : OneSleep False timerTicks timeout w)
    (move : Move) :
    OneSleep False timerTicks timeout ((Call.sleepTask ms).step timerTicks w move) := by
  obtain ⟨ticks, phase⟩ := w
  cases move with
  | tick => exact h.irq0 hreach
  | wake => exact h
  | resume ready =>
      cases phase with
      | sleeping sleepUntil => exact h
      | returned gaveUp => exact h
      | ready woken =>
          cases woken with
          | false => exact OneSleep.of_returned h.passed fun _ => h.ready rfl
          | true => exact absurd (h.woken rfl) id

theorem OneSleep.futexWait_step {w : Waiter} {timeoutMs : UInt64}
    (hreach : ClockReaches timerTicks timeout) (h : OneSleep True timerTicks timeout w)
    (move : Move) :
    OneSleep True timerTicks timeout ((Call.futexWait timeoutMs).step timerTicks w move) := by
  obtain ⟨ticks, phase⟩ := w
  cases move with
  | tick => exact h.irq0 hreach
  | wake =>
      cases phase with
      | sleeping sleepUntil => exact OneSleep.of_woken h.passed trivial
      | ready woken => exact h
      | returned gaveUp => exact h
  | resume ready =>
      cases phase with
      | sleeping sleepUntil => exact h
      | returned gaveUp => exact h
      | ready woken =>
          refine OneSleep.of_returned h.passed fun heq => h.ready ?_
          cases woken with
          | false => rfl
          | true => cases heq

theorem OneSleep.punctual {call : Call} {w : Waiter} (h : OneSleep wakeable timerTicks timeout w)
    (hrequested : call.requested = some timeout) : Punctual call timerTicks w := by
  intro other hother
  rw [hrequested] at hother
  cases hother
  exact ⟨h.gaveUp, fun sleepUntil hphase => (h.asleep sleepUntil hphase).2⟩

end OneSleep

/-! ## poll -/

/-- A `poll` whose deadline is before the clock wraps: each slice of its sleep ends by then. -/
structure Polls (timerTicks timeout : ℕ) (w : Waiter) : Prop where
  started : timerTicks ≤ w.timerTicks
  asleep : ∀ sleepUntil, w.phase = .sleeping sleepUntil →
    sleepUntil ≤ timerGetMs timerTicks + timeout ∧ w.timerTicks < timerTicks + timeout
  gaveUp : w.phase = .returned true → timerTicks + timeout ≤ w.timerTicks

section Polls

variable {timerTicks timeout : ℕ}

theorem Polls.of_ready {ticks : ℕ} {woken : Bool} (hstarted : timerTicks ≤ ticks) :
    Polls timerTicks timeout ⟨ticks, .ready woken⟩ where
  started := hstarted
  asleep _ h := nomatch h
  gaveUp h := nomatch h

theorem Polls.of_returned {ticks : ℕ} {gaveUp : Bool} (hstarted : timerTicks ≤ ticks)
    (htime : gaveUp = true → timerTicks + timeout ≤ ticks) :
    Polls timerTicks timeout ⟨ticks, .returned gaveUp⟩ where
  started := hstarted
  asleep _ h := nomatch h
  gaveUp h := htime (Phase.returned.inj h)

theorem polls_irq0 {ticks sleepUntil : ℕ}
    (hfits : timerGetMs timerTicks + timeout < clockPeriod) (hstarted : timerTicks ≤ ticks)
    (hbefore : ticks < timerTicks + timeout)
    (hslice : sleepUntil ≤ timerGetMs timerTicks + timeout) :
    Polls timerTicks timeout (irq0 ⟨ticks, .sleeping sleepUntil⟩) := by
  unfold irq0 Phase.wake
  dsimp only
  by_cases htime : sleepUntil ≤ timerGetMs (ticks + 1)
  · rw [if_pos htime]
    exact Polls.of_ready (by omega)
  · rw [if_neg htime]
    refine ⟨by dsimp only; omega, fun other h => ?_, nofun⟩
    cases h
    refine ⟨hslice, ?_⟩
    unfold timerGetMs clockPeriod at *
    dsimp only
    omega

theorem Polls.irq0 {w : Waiter} (hfits : timerGetMs timerTicks + timeout < clockPeriod)
    (h : Polls timerTicks timeout w) : Polls timerTicks timeout (irq0 w) := by
  obtain ⟨ticks, phase⟩ := w
  have hstarted : timerTicks ≤ ticks := h.started
  cases phase with
  | sleeping sleepUntil =>
      obtain ⟨hslice, hbefore⟩ := h.asleep sleepUntil rfl
      exact polls_irq0 hfits hstarted hbefore hslice
  | ready woken => exact Polls.of_ready (hstarted.trans (Nat.le_succ ticks))
  | returned gaveUp =>
      refine Polls.of_returned (hstarted.trans (Nat.le_succ ticks)) fun heq => ?_
      subst heq
      exact (h.gaveUp rfl).trans (Nat.le_succ ticks)

variable (timerTicks timeout) in
theorem polls_waitRound (ticks : ℕ) (ready woken : Bool)
    (hpos : 0 < timeout) (hfits : timerGetMs timerTicks + timeout < clockPeriod)
    (hstarted : timerTicks ≤ ticks)
    (hlooks : timerTicks + timeout ≤ ticks → timerGetMs timerTicks + timeout ≤ timerGetMs ticks) :
    Polls timerTicks timeout
      (waitRound timeout (pollDeadline timerTicks timeout) ready ⟨ticks, .ready woken⟩) := by
  have hdeadline : pollDeadline timerTicks timeout = ((timerGetMs timerTicks + timeout : ℕ) : ℤ) := by
    unfold pollDeadline
    rw [if_neg (by omega)]
    rfl
  have hlow : ((((timerGetMs timerTicks + timeout : ℕ) : ℤ)) % clockPeriod).toNat =
      timerGetMs timerTicks + timeout := by
    rw [Int.emod_eq_of_lt (by omega) (by omega)]
    rfl
  unfold waitRound
  rw [hdeadline, hlow]
  by_cases hend : ready = true ∨ (timeout : ℤ) = 0
  · rw [if_pos hend]
    have hready : ready = true := hend.resolve_right (by omega)
    rw [hready]
    exact Polls.of_returned hstarted nofun
  · rw [if_neg hend, if_neg (by omega)]
    dsimp only
    by_cases hup : timerGetMs timerTicks + timeout ≤ timerGetMs ticks
    · rw [if_pos hup]
      refine Polls.of_returned hstarted fun _ => ?_
      by_contra hearly
      unfold timerGetMs clockPeriod at *
      omega
    · rw [if_neg hup]
      have hbefore : ticks < timerTicks + timeout := by
        by_contra hnot
        exact hup (hlooks (not_lt.mp hnot))
      refine polls_irq0 hfits hstarted hbefore ?_
      dsimp only
      refine (Nat.mod_le _ _).trans ?_
      split <;> omega

theorem Polls.step {w : Waiter} {timeoutMs : Int32} (htimeout : timeoutMs.toInt = (timeout : ℤ))
    (hpos : 0 < timeout) (hfits : timerGetMs timerTicks + timeout < clockPeriod)
    (h : Polls timerTicks timeout w) {move : Move}
    (hlooks : LooksInTime (.poll timeoutMs) timerTicks w move) :
    Polls timerTicks timeout ((Call.poll timeoutMs).step timerTicks w move) := by
  obtain ⟨ticks, phase⟩ := w
  cases move with
  | tick => exact h.irq0 hfits
  | wake => exact h
  | resume ready =>
      cases phase with
      | sleeping sleepUntil => exact h
      | returned gaveUp => exact h
      | ready woken =>
          have hround := polls_waitRound timerTicks timeout ticks ready woken hpos hfits h.started
          unfold LooksInTime at hlooks
          dsimp only at hlooks
          rw [htimeout] at hlooks
          unfold Call.step Call.resume
          dsimp only
          rw [htimeout]
          exact hround fun hup => by exact_mod_cast hlooks (by omega) (by omega)

theorem Polls.punctual {call : Call} {w : Waiter} (h : Polls timerTicks timeout w)
    (hrequested : call.requested = some timeout) : Punctual call timerTicks w := by
  intro other hother
  rw [hrequested] at hother
  cases hother
  exact ⟨h.gaveUp, fun sleepUntil hphase => (h.asleep sleepUntil hphase).2⟩

end Polls

/-! ## Calls -/

def Call.run (call : Call) (timerTicks : ℕ) (moves : List Move) : List (Move × Waiter) :=
  trace (call.step timerTicks) (call.start timerTicks) moves

def AlwaysPunctual (call : Call) (timerTicks : ℕ) : Prop :=
  ∀ moves, Along (fun w move _ => LooksInTime call timerTicks w move) (call.start timerTicks)
      (call.run timerTicks moves) →
    Always (Punctual call timerTicks) (call.start timerTicks) (call.run timerTicks moves)

/-- An invariant of the moves that are in time carries the property over every run. -/
theorem alwaysPunctual_of_invariant {call : Call} {timerTicks : ℕ} (Inv : Waiter → Prop)
    (hstart : Inv (call.start timerTicks))
    (hstep : ∀ w move, Inv w → LooksInTime call timerTicks w move →
      Inv (call.step timerTicks w move))
    (hpunctual : ∀ w, Inv w → Punctual call timerTicks w) : AlwaysPunctual call timerTicks := by
  intro moves hlooks
  refine (always_of_guarded Inv ?_ hstart (along_trace _ _ moves) hlooks).mono hpunctual
  rintro w move next hw hmove rfl
  exact hstep w move hw hmove

theorem alwaysPunctual_of_none {call : Call} {timerTicks : ℕ} (hnone : call.requested = none) :
    AlwaysPunctual call timerTicks := by
  refine alwaysPunctual_of_invariant (fun _ => True) trivial (fun _ _ _ _ => trivial) ?_
  intro w _ timeout hsome
  rw [hnone] at hsome
  cases hsome

theorem alwaysPunctual_poll_zero {timeoutMs : Int32} {timerTicks : ℕ}
    (hzero : timeoutMs.toInt = 0) : AlwaysPunctual (.poll timeoutMs) timerTicks := by
  refine alwaysPunctual_of_invariant
    (fun w => timerTicks ≤ w.timerTicks ∧ ∀ sleepUntil, w.phase ≠ .sleeping sleepUntil) ?_ ?_ ?_
  · exact ⟨le_rfl, nofun⟩
  · rintro ⟨ticks, phase⟩ move ⟨hstarted, hawake⟩ _
    cases move with
    | tick =>
        refine ⟨hstarted.trans (Nat.le_succ ticks), ?_⟩
        cases phase with
        | sleeping sleepUntil => exact absurd rfl (hawake sleepUntil)
        | ready woken => exact nofun
        | returned gaveUp => exact nofun
    | wake => exact ⟨hstarted, hawake⟩
    | resume ready =>
        cases phase with
        | sleeping sleepUntil => exact ⟨hstarted, hawake⟩
        | returned gaveUp => exact ⟨hstarted, hawake⟩
        | ready woken =>
            unfold Call.step Call.resume waitRound
            dsimp only
            rw [if_pos (Or.inr hzero)]
            exact ⟨hstarted, nofun⟩
  · rintro w ⟨hstarted, hawake⟩ timeout hsome
    have htimeout : timeout = 0 := by
      unfold Call.requested at hsome
      dsimp only at hsome
      rw [if_neg (by omega), hzero] at hsome
      exact (Option.some.inj hsome).symm
    subst htimeout
    exact ⟨fun _ => hstarted, fun sleepUntil h => absurd h (hawake sleepUntil)⟩

/-! ## Calls whose deadline is out of reach -/

section Ticks

variable {call : Call} {timerTicks : ℕ}

theorem final_ticks (n : ℕ) (w : Waiter) :
    final w (trace (call.step timerTicks) w (List.replicate n .tick)) = irq0^[n] w := by
  induction n generalizing w with
  | zero => rfl
  | succ n ih => exact ih (irq0 w)

theorem AlwaysPunctual.ticks (h : AlwaysPunctual call timerTicks)
    (hlooks : ∀ w move, LooksInTime call timerTicks w move) (n : ℕ) :
    Punctual call timerTicks (irq0^[n] (call.start timerTicks)) ∧
      Punctual call timerTicks
        (call.step timerTicks (irq0^[n] (call.start timerTicks)) (.resume false)) := by
  have halways : ∀ moves, Punctual call timerTicks
      (final (call.start timerTicks) (call.run timerTicks moves)) := fun moves =>
    (h moves ((along_trace _ _ moves).mono fun w move _ _ => hlooks w move)).final
  have hticks := halways (List.replicate n .tick)
  have hresumed := halways (List.replicate n .tick ++ [.resume false])
  unfold Call.run at hticks hresumed
  rw [final_ticks] at hticks
  rw [final_trace_append, final_ticks] at hresumed
  exact ⟨hticks, hresumed⟩

variable (timerTicks) in
theorem iterate_irq0_sleeping (deadline n : ℕ)
    (hnot : ∀ elapsed, 1 ≤ elapsed → elapsed ≤ n → ¬ deadline ≤ timerGetMs (timerTicks + elapsed)) :
    irq0^[n] ⟨timerTicks, .sleeping deadline⟩ = ⟨timerTicks + n, .sleeping deadline⟩ := by
  induction n with
  | zero => rfl
  | succ n ih =>
      rw [Function.iterate_succ_apply', ih fun elapsed hpos hle => hnot elapsed hpos (by omega)]
      unfold irq0 Phase.wake
      dsimp only
      have hlast : ¬ deadline ≤ timerGetMs (timerTicks + n + 1) := hnot (n + 1) (by omega) le_rfl
      rw [if_neg hlast]
      rfl

theorem clockReaches_of_alwaysPunctual {timeout : ℕ} (h : AlwaysPunctual call timerTicks)
    (hlooks : ∀ w move, LooksInTime call timerTicks w move)
    (hrequested : call.requested = some timeout)
    (hstart : call.start timerTicks =
      irq0 ⟨timerTicks, .sleeping ((timerGetMs timerTicks + timeout) % clockPeriod)⟩)
    (hresume : ∀ ticks, (call.step timerTicks ⟨ticks, .ready false⟩ (.resume false)) =
      ⟨ticks, .returned true⟩) : ClockReaches timerTicks timeout := by
  apply clockReaches_of_iff
  intro elapsed
  induction elapsed using Nat.strong_induction_on with
  | _ elapsed ih =>
      intro hpos hle
      obtain ⟨before, rfl⟩ : ∃ before, elapsed = before + 1 := ⟨elapsed - 1, by omega⟩
      have hasleep := iterate_irq0_sleeping timerTicks
        ((timerGetMs timerTicks + timeout) % clockPeriod) before fun other hother hlt htime => by
          have hup := (ih other (by omega) hother (by omega)).mp htime
          omega
      have hpunctual := h.ticks hlooks before
      rw [hstart, ← Function.iterate_succ_apply, Function.iterate_succ_apply', hasleep]
        at hpunctual
      have hnext : irq0 ⟨timerTicks + before,
          .sleeping ((timerGetMs timerTicks + timeout) % clockPeriod)⟩ =
            ⟨timerTicks + (before + 1), (Phase.sleeping
              ((timerGetMs timerTicks + timeout) % clockPeriod)).wake
                (timerGetMs (timerTicks + (before + 1)))⟩ := rfl
      rw [hnext] at hpunctual
      unfold Phase.wake at hpunctual
      dsimp only at hpunctual
      constructor
      · intro htime
        rw [if_pos htime, hresume] at hpunctual
        have hend := (hpunctual.2 timeout hrequested).1 rfl
        dsimp only at hend
        omega
      · intro hend
        by_contra htime
        rw [if_neg htime] at hpunctual
        have hbefore := (hpunctual.1 timeout hrequested).2 _ rfl
        dsimp only at hbefore
        omega

end Ticks

section Calls

variable {timerTicks : ℕ}

theorem alwaysPunctual_sleepTask_iff {ms : UInt32} :
    AlwaysPunctual (.sleepTask ms) timerTicks ↔ (Call.sleepTask ms).Fits timerTicks := by
  constructor
  · intro h
    exact clockReaches_of_alwaysPunctual h (fun w move => by cases move <;> trivial) rfl rfl
      fun _ => rfl
  · intro hreach
    refine alwaysPunctual_of_invariant (OneSleep False timerTicks ms.toNat) ?_ ?_ ?_
    · exact oneSleep_irq0 hreach le_rfl (Nat.add_le_add_left (le_max_right _ _) _)
    · exact fun w move hw _ => hw.sleepTask_step hreach move
    · exact fun w hw => hw.punctual rfl

theorem futexDeadline_eq {timeoutMs : UInt64} (hne : timeoutMs ≠ 0) :
    futexDeadline timerTicks timeoutMs =
      (timerGetMs timerTicks + timeoutMs.toNat) % clockPeriod := by
  unfold futexDeadline
  rw [if_pos hne, UInt64.toNat_toUInt32]
  unfold clockPeriod
  rw [Nat.add_mod_mod]

theorem alwaysPunctual_futexWait_iff {timeoutMs : UInt64} :
    AlwaysPunctual (.futexWait timeoutMs) timerTicks ↔
      (Call.futexWait timeoutMs).Fits timerTicks := by
  unfold Call.Fits
  dsimp only
  by_cases hzero : timeoutMs = 0
  · have hnone : (Call.futexWait timeoutMs).requested = none := if_pos hzero
    exact iff_of_true (alwaysPunctual_of_none hnone) fun hne => absurd hzero hne
  · have hsome : (Call.futexWait timeoutMs).requested = some timeoutMs.toNat := if_neg hzero
    have hstart : (Call.futexWait timeoutMs).start timerTicks = irq0 ⟨timerTicks,
        .sleeping ((timerGetMs timerTicks + timeoutMs.toNat) % clockPeriod)⟩ := by
      unfold Call.start
      dsimp only
      rw [futexDeadline_eq hzero]
    constructor
    · intro h _
      exact clockReaches_of_alwaysPunctual h (fun w move => by cases move <;> trivial) hsome hstart
        fun _ => rfl
    · intro hreach
      refine alwaysPunctual_of_invariant (OneSleep True timerTicks timeoutMs.toNat) ?_ ?_ ?_
      · rw [hstart]
        exact oneSleep_irq0 (hreach hzero) le_rfl (by omega)
      · exact fun w move hw _ => hw.futexWait_step (hreach hzero) move
      · exact fun w hw => hw.punctual hsome

/-- A deadline past the end of the clock is before the present, and the first look gives up. -/
theorem poll_gives_up {timeoutMs : Int32} (hpos : 0 < timeoutMs.toInt)
    (hwraps : (clockPeriod : ℤ) ≤ timerGetMs timerTicks + timeoutMs.toInt) :
    (Call.poll timeoutMs).step timerTicks ((Call.poll timeoutMs).start timerTicks)
      (.resume false) = ⟨timerTicks, .returned true⟩ := by
  have hbound : timeoutMs.toInt < 2 ^ 31 := timeoutMs.toInt_lt
  have hdeadline : pollDeadline timerTicks timeoutMs.toInt =
      timerGetMs timerTicks + timeoutMs.toInt := by
    unfold pollDeadline
    rw [if_neg (by omega)]
  have hlow : (((timerGetMs timerTicks : ℤ) + timeoutMs.toInt) % clockPeriod).toNat ≤
      timerGetMs timerTicks := by
    unfold timerGetMs clockPeriod at *
    omega
  have hend : ¬ ((false : Bool) = true ∨ timeoutMs.toInt = 0) := by
    rintro (h | h)
    · cases h
    · omega
  unfold Call.step Call.start Call.resume waitRound
  dsimp only
  rw [hdeadline, if_neg hend, if_neg (by omega), if_pos hlow]

variable (timerTicks) in
theorem alwaysPunctual_poll_iff (timeoutMs : Int32) :
    AlwaysPunctual (.poll timeoutMs) timerTicks ↔ (Call.poll timeoutMs).Fits timerTicks := by
  unfold Call.Fits
  dsimp only
  rcases lt_trichotomy timeoutMs.toInt 0 with hneg | hzero | hpos
  · have hnone : (Call.poll timeoutMs).requested = none := if_pos hneg
    exact iff_of_true (alwaysPunctual_of_none hnone) fun hpos => by omega
  · exact iff_of_true (alwaysPunctual_poll_zero hzero) fun hpos => by omega
  · obtain ⟨timeout, htimeout⟩ := Int.eq_ofNat_of_zero_le hpos.le
    have hsome : (Call.poll timeoutMs).requested = some timeout := by
      unfold Call.requested
      dsimp only
      rw [if_neg (by omega), htimeout]
      rfl
    constructor
    · intro h _
      by_contra hwraps
      have hgives := poll_gives_up hpos (not_lt.mp hwraps)
      have hrun := h [.resume false] ⟨fun _ hup => ?_, trivial⟩
      · have hlast := (hrun.2 timeout hsome).1
        rw [hgives] at hlast
        have hend : timerTicks + timeout ≤ timerTicks := hlast rfl
        omega
      · unfold Call.start at hup
        dsimp only at hup
        omega
    · intro hfits
      have hbound : timerGetMs timerTicks + timeout < clockPeriod := by
        have := hfits hpos
        omega
      refine alwaysPunctual_of_invariant (Polls timerTicks timeout) ?_ ?_ ?_
      · exact Polls.of_ready le_rfl
      · exact fun w move hw hlooks => hw.step htimeout (by omega) hbound hlooks
      · exact fun w hw => hw.punctual hsome

/-- A call is punctual in every run in which its looks are in time if and only if its deadline is
one that the clock comes to. -/
theorem alwaysPunctual_iff (call : Call) (timerTicks : ℕ) :
    AlwaysPunctual call timerTicks ↔ call.Fits timerTicks := by
  cases call with
  | sleepTask ms => exact alwaysPunctual_sleepTask_iff
  | futexWait timeoutMs => exact alwaysPunctual_futexWait_iff
  | poll timeoutMs => exact alwaysPunctual_poll_iff _ timeoutMs
  | epollWait timeoutMs => exact alwaysPunctual_poll_iff timerTicks timeoutMs

end Calls

/-- A sleep of ten milliseconds, five before the clock wraps, is over after one. -/
theorem not_alwaysPunctual_wrap :
    ¬ AlwaysPunctual (.sleepTask 10) (clockPeriod - 5) := by
  intro h
  have hrun := h [.resume false] ⟨trivial, trivial⟩
  have hlast := (hrun.2 10 rfl).1 (by decide)
  revert hlast
  decide

end EigenOS.Scheduling.TimedWaits
