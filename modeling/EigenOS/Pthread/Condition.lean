import Mathlib.Algebra.Group.Int.Defs
import Mathlib.Algebra.Group.Nat.Defs
import Mathlib.Data.List.FinRange
import EigenOS.Pthread.Mutex

/-!
# Condition variables

A condition variable is a counter that signals advance and waiters sleep on.  The threads are the
task slots of one process; the kernel looks for sleepers in the order of the slots.  The mutex is
a normal one.
-/

namespace EigenOS.Pthread

/-- `TLS_MAX_KEYS`, the number of threads that a broadcast wakes. -/
def TLS_MAX_KEYS : ℕ := 64

/-- Where a thread is: outside the functions of the condition variable without the mutex, in its
own calls of the mutex, or with it, and before the steps of a wait or of a signal. -/
inductive CondPc where
  | outside
  | lockCall
  | critical
  | unlockCall
  /-- Before the load of the counter, in `pthread_mutex_unlock`, before `futex_wait`, and in it. -/
  | load (timed : Bool)
  | unlock (timed : Bool) (seq : UInt32)
  | futexWait (timed : Bool) (seq : UInt32)
  | asleep (timed : Bool) (seq : UInt32)
  /-- In `pthread_mutex_lock` after `futex_wait`, which has timed out or not, and before the tests
  that follow. -/
  | relock (timed : Bool) (seq : UInt32) (timedOut : Bool)
  | check (timed : Bool) (seq : UInt32) (timedOut : Bool)
  /-- Before the addition of a signal, and before its `futex_wake`. -/
  | signalAdd (broadcast holding : Bool)
  | signalWake (broadcast holding : Bool)
  deriving DecidableEq

/-- A thread, with how many additions had been made when it called its wait, when it loaded the
counter, when it released the mutex, and with the addition of its own signal. -/
structure CondThread where
  pc : CondPc
  called : ℕ
  loaded : ℕ
  released : ℕ
  ticket : ℕ
  deriving DecidableEq

/-- `pthread_cond_t` and its mutex, with the threads that use them. -/
structure CondState (slots : ℕ) where
  mutex : MutexState (Fin slots)
  seq : UInt32
  adds : ℕ
  thread : Fin slots → CondThread

/-- `PTHREAD_COND_INITIALIZER`, also after `pthread_cond_init`. -/
def CondState.initial (slots : ℕ) : CondState slots where
  mutex := MutexState.initial (Fin slots)
  seq := 0
  adds := 0
  thread _ := ⟨.outside, 0, 0, 0, 0⟩

def CondPc.isAsleep : CondPc → Bool
  | .asleep _ _ => true
  | _ => false

/-- A thread is in a wait that it has called. -/
def CondPc.waits : CondPc → Bool
  | .load _ | .unlock _ _ | .futexWait _ _ | .asleep _ _ | .relock _ _ _ | .check _ _ _ => true
  | _ => false

section Steps

variable {slots : ℕ}

def CondState.set (s : CondState slots) (t : Fin slots) (th : CondThread) : CondState slots :=
  { s with thread := Function.update s.thread t th }

def CondState.goTo (s : CondState slots) (t : Fin slots) (pc : CondPc) : CondState slots :=
  s.set t { s.thread t with pc := pc }

/-- The thread calls `pthread_mutex_lock`. -/
def CondState.lockMutex (s : CondState slots) (t : Fin slots) (pc : CondPc) : CondState slots :=
  { s with mutex := s.mutex.goTo t .lockExchange }.goTo t pc

/-- The thread calls `pthread_mutex_unlock`. -/
def CondState.unlockMutex (s : CondState slots) (t : Fin slots) (th : CondThread) :
    CondState slots :=
  { s with mutex := s.mutex.goTo t .unlockStore }.set t th

/-- A sleeper that is woken, or has timed out, goes on to lock the mutex. -/
def CondState.awaken (s : CondState slots) (timedOut : Bool) (t : Fin slots) : CondState slots :=
  match (s.thread t).pc with
  | .asleep timed seq => s.lockMutex t (.relock timed seq timedOut)
  | _ => s

/-- The threads that sleep on the counter, in the order of their slots. -/
def CondState.sleepers (s : CondState slots) : List (Fin slots) :=
  (List.finRange slots).filter fun t => (s.thread t).pc.isAsleep

/-- `futex_wake(&c->seq, n)`. -/
def CondState.futexWake (s : CondState slots) (n : ℕ) : CondState slots :=
  (s.sleepers.take n).foldl (CondState.awaken · false) s

/-- `futex_wait(&c->seq, seq, timeout)`: the thread sleeps if the counter still has the value. -/
def CondState.futexWait (s : CondState slots) (t : Fin slots) (timed : Bool) (seq : UInt32) :
    CondState slots :=
  if s.seq = seq then s.goTo t (.asleep timed seq) else s.lockMutex t (.relock timed seq false)

/-- Where a signal returns to. -/
def CondPc.caller (holding : Bool) : CondPc := if holding then .critical else .outside

/-- The next step of a thread outside the functions of the mutex. -/
def CondState.step (s : CondState slots) (t : Fin slots) : CondState slots :=
  match (s.thread t).pc with
  | .outside | .critical | .asleep _ _ => s
  | .lockCall => s.goTo t .critical
  | .unlockCall => s.goTo t .outside
  | .load timed =>
      s.unlockMutex t { s.thread t with pc := .unlock timed s.seq, loaded := s.adds }
  | .unlock timed seq => s.goTo t (.futexWait timed seq)
  | .futexWait timed seq => s.futexWait t timed seq
  | .relock timed seq timedOut => s.goTo t (.check timed seq timedOut)
  | .check timed seq timedOut =>
      -- A time that has run out is reported, a counter that has not changed is waited for again.
      if timed ∧ timedOut then s.goTo t .critical
      else if s.seq ≠ seq then s.goTo t .critical
      else s.goTo t (.load timed)
  | .signalAdd broadcast holding =>
      { s with seq := s.seq + 1, adds := s.adds + 1 }.set t
        { s.thread t with pc := .signalWake broadcast holding, ticket := s.adds + 1 }
  | .signalWake broadcast holding =>
      (s.futexWake (if broadcast then TLS_MAX_KEYS else 1)).goTo t (.caller holding)

/-- A step inside a function of the mutex.  The store of `pthread_mutex_unlock` releases it. -/
def CondState.mutexStep (s : CondState slots) (t : Fin slots) : CondState slots :=
  if s.mutex.pc t = .unlockStore then
    { s with mutex := s.mutex.step t }.set t { s.thread t with released := s.adds }
  else { s with mutex := s.mutex.step t }

inductive CondAction (slots : ℕ) where
  | lock (t : Fin slots)
  | unlock (t : Fin slots)
  | wait (t : Fin slots)
  /-- A call of `pthread_cond_timedwait`; one without a time returns `EINVAL` at once. -/
  | timedwait (t : Fin slots) (null : Bool)
  | signal (t : Fin slots) (broadcast : Bool)
  | step (t : Fin slots)
  | mutexStep (t : Fin slots)
  /-- The wake of `pthread_mutex_unlock` and the thread it wakes. -/
  | mutexWake (t : Fin slots) (woken : Option (Fin slots))
  /-- The time of a sleeper has come. -/
  | timeOut (t : Fin slots)

/-- The thread calls a wait. -/
def CondState.wait (s : CondState slots) (t : Fin slots) (timed : Bool) : CondState slots :=
  s.set t { s.thread t with pc := .load timed, called := s.adds }

def CondAction.run (s : CondState slots) : CondAction slots → CondState slots
  | .lock t => s.lockMutex t .lockCall
  | .unlock t => s.unlockMutex t { s.thread t with pc := .unlockCall }
  | .wait t => s.wait t false
  | .timedwait t null => if null then s else s.wait t true
  | .signal t broadcast => s.goTo t (.signalAdd broadcast ((s.thread t).pc = .critical))
  | .step t => s.step t
  | .mutexStep t => s.mutexStep t
  | .mutexWake t woken => { s with mutex := (MutexAction.wake t woken).run s.mutex }
  | .timeOut t => s.awaken true t

def CondPc.timedSleep : CondPc → Bool
  | .asleep timed _ => timed
  | _ => false

/-- When a thread can act.  A wait is called with the mutex, a signal with it or without. -/
def CondAction.Enabled (s : CondState slots) : CondAction slots → Prop
  | .lock t => (s.thread t).pc = .outside
  | .unlock t | .wait t | .timedwait t _ => (s.thread t).pc = .critical
  | .signal t _ => (s.thread t).pc = .outside ∨ (s.thread t).pc = .critical
  | .step t => s.mutex.pc t = .outside ∧ (s.thread t).pc.isAsleep = false
  | .mutexStep t => (MutexAction.step t).Enabled s.mutex
  | .mutexWake t woken => (MutexAction.wake t woken).Enabled s.mutex
  | .timeOut t => (s.thread t).pc.timedSleep = true

def CondStep (s : CondState slots) (action : CondAction slots) (next : CondState slots) : Prop :=
  action.Enabled s ∧ next = action.run s

/-- The thread has released the mutex before the addition of the signal that another thread is to
complete, and sleeps. -/
def CondState.Waiter (s : CondState slots) (signaller u : Fin slots) : Prop :=
  (s.thread u).pc.isAsleep = true ∧ (s.thread u).released < (s.thread signaller).ticket

/-- The wake of a signal wakes one of its waiters. -/
def SignalWakes (s : CondState slots) : CondAction slots → CondState slots → Prop
  | .step t, next => ∀ holding, (s.thread t).pc = .signalWake false holding →
      (∃ u, s.Waiter t u) → ∃ u, s.Waiter t u ∧ (next.thread u).pc.isAsleep = false
  | _, _ => True

def BroadcastWakes (s : CondState slots) : CondAction slots → CondState slots → Prop
  | .step t, next => ∀ holding, (s.thread t).pc = .signalWake true holding →
      ∀ u, s.Waiter t u → (next.thread u).pc.isAsleep = false
  | _, _ => True

/-- What a condition variable promises of a step: a signal wakes one of its waiters and a broadcast
all, nobody falls asleep or waits again who released the mutex before a signal, and a wait
returns with the mutex. -/
structure CondKeeps (s : CondState slots) (action : CondAction slots) (next : CondState slots) :
    Prop where
  signal : SignalWakes s action next
  broadcast : BroadcastWakes s action next
  sleeps : ∀ u, (s.thread u).pc.isAsleep = false → (next.thread u).pc.isAsleep = true →
    (next.thread u).released = next.adds
  again : ∀ u timed seq timedOut, (s.thread u).pc = .check timed seq timedOut →
    (next.thread u).pc = .load timed → (next.thread u).released = next.adds
  returns : ∀ u, (s.thread u).pc.waits = true → (next.thread u).pc.waits = false →
    next.mutex.holds u = true ∧ next.mutex.pc u = .outside

/-- Fewer than 2^32 signals come during one wait. -/
def FewSignals (s : CondState slots) : Prop :=
  ∀ t, (s.thread t).pc.waits = true → s.adds < (s.thread t).called + 2 ^ 32

/-- A thread that has begun to wait after the addition of a signal sleeps in a slot before those
of all its waiters. -/
def CondState.Overtaken (s : CondState slots) (signaller : Fin slots) : Prop :=
  (∃ u, s.Waiter signaller u) ∧
    ∃ v, (s.thread v).pc.isAsleep = true ∧
      (s.thread signaller).ticket ≤ (s.thread v).released ∧ ∀ u, s.Waiter signaller u → v < u

/-- No signal is completed once its waiters are overtaken. -/
def NotOvertaken (s : CondState slots) : CondAction slots → CondState slots → Prop
  | .step t, _ => ∀ holding, (s.thread t).pc = .signalWake false holding → ¬ s.Overtaken t
  | _, _ => True

end Steps

end EigenOS.Pthread
