import Mathlib.Data.Fintype.Card

/-!
# Barriers

A barrier counts the threads that are still to come and the cycles that are over.  Its mutex and
its condition variable are what they are documented to be: the mutex has at most one owner, and a
wait on the condition variable releases it, may end at any time, and locks it again.
-/

namespace EigenOS.Pthread

/-- What the last thread of a cycle gets back. -/
def PTHREAD_BARRIER_SERIAL_THREAD : ℤ := -1

/-- Where a thread is in `pthread_barrier_wait`. -/
inductive BarrierPc where
  | outside
  /-- In `pthread_mutex_lock`. -/
  | lock
  /-- Before the load and the store of `left--`, and the test that follows. -/
  | leftLoad
  | leftStore (left : UInt32)
  | leftTest
  /-- The last thread, before the load and the store of `trip++` and what follows. -/
  | tripLoad
  | tripStore (trip : UInt32)
  | refill
  | broadcast
  | serialUnlock
  /-- Another thread, before it records the counter, tests it, and waits. -/
  | record
  | tripTest (trip : UInt32)
  | condWait (trip : UInt32)
  | asleep (trip : UInt32)
  | relock (trip : UInt32)
  | unlock
  deriving DecidableEq

/-- A thread with the waits it has called, those it has arrived in, and what they returned.  It
has arrived once it knows that others are missing, or has advanced the counter. -/
structure BarrierThread where
  pc : BarrierPc
  calls : ℕ
  arrived : ℕ
  results : List ℤ

/-- `pthread_barrier_t` with the threads that use it. -/
structure BarrierState (Thread : Type*) where
  owner : Option Thread
  count : UInt32
  trip : UInt32
  left : UInt32
  initialized : Bool
  thread : Thread → BarrierThread

/-- `pthread_barrier_init`, which returns `EINVAL` for a count of zero. -/
def pthreadBarrierInit (Thread : Type*) (count : UInt32) : Option (BarrierState Thread) :=
  if count = 0 then none
  else some
    { owner := none
      count := count
      trip := 0
      left := count
      initialized := true
      thread := fun _ => ⟨.outside, 0, 0, []⟩ }

/-- `pthread_cond_broadcast`, for one thread. -/
def BarrierThread.broadcast (th : BarrierThread) : BarrierThread :=
  match th.pc with
  | .asleep trip => { th with pc := .relock trip }
  | _ => th

section Steps

variable {Thread : Type*} [DecidableEq Thread]

def BarrierState.set (s : BarrierState Thread) (t : Thread) (th : BarrierThread) :
    BarrierState Thread :=
  { s with thread := Function.update s.thread t th }

def BarrierState.goTo (s : BarrierState Thread) (t : Thread) (pc : BarrierPc) :
    BarrierState Thread :=
  s.set t { s.thread t with pc := pc }

def BarrierState.arrive (s : BarrierState Thread) (t : Thread) (pc : BarrierPc) :
    BarrierState Thread :=
  s.set t { s.thread t with pc := pc, arrived := (s.thread t).arrived + 1 }

def BarrierState.unlockReturn (s : BarrierState Thread) (t : Thread) (result : ℤ) :
    BarrierState Thread :=
  { s with owner := none }.set t
    { s.thread t with pc := .outside, results := (s.thread t).results ++ [result] }

/-- The entry of `pthread_barrier_wait`, which returns `EINVAL` if the barrier is not set up. -/
def BarrierState.call (s : BarrierState Thread) (t : Thread) : BarrierState Thread :=
  if s.initialized then
    s.set t { s.thread t with pc := .lock, calls := (s.thread t).calls + 1 }
  else s

/-- The next step of a thread inside `pthread_barrier_wait`. -/
def BarrierState.step (s : BarrierState Thread) (t : Thread) : BarrierState Thread :=
  match (s.thread t).pc with
  | .outside | .asleep _ => s
  | .lock => { s with owner := some t }.goTo t .leftLoad
  | .leftLoad => s.goTo t (.leftStore s.left)
  | .leftStore left => { s with left := left - 1 }.goTo t .leftTest
  | .leftTest => if s.left = 0 then s.goTo t .tripLoad else s.arrive t .record
  | .tripLoad => s.goTo t (.tripStore s.trip)
  | .tripStore trip => { s with trip := trip + 1 }.arrive t .refill
  | .refill => { s with left := s.count }.goTo t .broadcast
  | .broadcast => { s with thread := fun u => (s.thread u).broadcast }.goTo t .serialUnlock
  | .serialUnlock => s.unlockReturn t PTHREAD_BARRIER_SERIAL_THREAD
  | .record => s.goTo t (.tripTest s.trip)
  | .tripTest trip => s.goTo t (if trip = s.trip then .condWait trip else .unlock)
  | .condWait trip => { s with owner := none }.goTo t (.asleep trip)
  | .relock trip => { s with owner := some t }.goTo t (.tripTest trip)
  | .unlock => s.unlockReturn t 0

inductive BarrierAction (Thread : Type*) where
  | call (t : Thread)
  | step (t : Thread)
  /-- A sleeper wakes without a broadcast. -/
  | wake (t : Thread) (trip : UInt32)

def BarrierAction.run (s : BarrierState Thread) : BarrierAction Thread → BarrierState Thread
  | .call t => s.call t
  | .step t => s.step t
  | .wake t trip => s.goTo t (.relock trip)

/-- A thread that locks the mutex. -/
def BarrierPc.Locks : BarrierPc → Prop
  | .lock | .relock _ => True
  | .outside | .leftLoad | .leftStore _ | .leftTest | .tripLoad | .tripStore _ | .refill
  | .broadcast | .serialUnlock | .record | .tripTest _ | .condWait _ | .asleep _ | .unlock => False

/-- When a thread can act.  It locks the mutex when that has no owner. -/
def BarrierAction.Enabled (s : BarrierState Thread) : BarrierAction Thread → Prop
  | .call t => (s.thread t).pc = .outside
  | .step t => (s.thread t).pc ≠ .outside ∧ ((s.thread t).pc.Locks → s.owner = none)
  | .wake t trip => (s.thread t).pc = .asleep trip

def BarrierStep (s : BarrierState Thread) (action : BarrierAction Thread)
    (next : BarrierState Thread) : Prop :=
  action.Enabled s ∧ next = action.run s

end Steps

variable {Thread : Type*}

/-- Who has returned from a wait has waited for all to call it. -/
def ReturnsTogether (s : BarrierState Thread) : Prop :=
  ∀ t u, (s.thread t).results.length ≤ (s.thread u).arrived ∧
    (s.thread u).arrived ≤ (s.thread u).calls

/-- Of the threads that have returned from one wait at most one has the serial value and the
others have 0, and when all have returned one of them has it. -/
def OneSerial (s : BarrierState Thread) : Prop :=
  (∀ t, ∀ result ∈ (s.thread t).results, result = 0 ∨ result = PTHREAD_BARRIER_SERIAL_THREAD) ∧
    (∀ (k : ℕ) (t u : Thread), (s.thread t).results[k]? = some PTHREAD_BARRIER_SERIAL_THREAD →
      (s.thread u).results[k]? = some PTHREAD_BARRIER_SERIAL_THREAD → t = u) ∧
    ∀ k : ℕ, (∀ t, k < (s.thread t).results.length) →
      ∃! t, (s.thread t).results[k]? = some PTHREAD_BARRIER_SERIAL_THREAD

/-- The thread waits, with the counter it recorded. -/
def BarrierPc.Waits : BarrierPc → UInt32 → Prop
  | .tripTest trip, recorded | .condWait trip, recorded | .asleep trip, recorded
  | .relock trip, recorded => recorded = trip
  | .outside, _ | .lock, _ | .leftLoad, _ | .leftStore _, _ | .leftTest, _ | .tripLoad, _
  | .tripStore _, _ | .refill, _ | .broadcast, _ | .serialUnlock, _ | .record, _
  | .unlock, _ => False

/-- Once all have arrived, nobody waits in that cycle for the counter to change, and who is
asleep in it is yet to be woken by the last thread. -/
def NoneLeftBehind (s : BarrierState Thread) : Prop :=
  ∀ t, (∀ u, (s.thread t).calls ≤ (s.thread u).arrived) → ∀ recorded,
    (s.thread t).pc.Waits recorded → recorded ≠ s.trip ∧
      ((s.thread t).pc = .asleep recorded →
        ∃ u, (s.thread u).pc = .refill ∨ (s.thread u).pc = .broadcast)

end EigenOS.Pthread
