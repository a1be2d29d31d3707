import Mathlib.Logic.Function.Basic
import Mathlib.Data.Nat.Notation

/-!
# The mutex of the pthread library

A normal mutex has a lock word and a flag that says whether to wake a sleeper.  The threads
that use it take turns step by step; a system call is one step, since the kernel runs it
with interrupts off.
-/

namespace EigenOS.Pthread

open Function

/-- Where a thread is: outside every operation, before an atomic step of one, or asleep on
the lock word. -/
inductive Pc where
  | outside
  | lockExchange
  | lockStore
  | lockWait
  | asleep
  | trylockExchange
  | unlockStore
  | unlockExchange
  | unlockWake
  deriving DecidableEq

/-- `pthread_mutex_t` with the threads that use it. -/
structure MutexState (Thread : Type*) where
  locked : ℕ
  waiters : ℕ
  pc : Thread → Pc
  /-- The threads that have locked the mutex and not unlocked it. -/
  holds : Thread → Bool

/-- `PTHREAD_MUTEX_INITIALIZER`. -/
def MutexState.initial (Thread : Type*) : MutexState Thread where
  locked := 0
  waiters := 0
  pc _ := .outside
  holds _ := false

section Steps

variable {Thread : Type*} [DecidableEq Thread]

def MutexState.goTo (s : MutexState Thread) (t : Thread) (pc : Pc) : MutexState Thread :=
  { s with pc := update s.pc t pc }

/-- The lock is taken. -/
def MutexState.acquire (s : MutexState Thread) (t : Thread) : MutexState Thread :=
  { s with locked := 1, holds := update s.holds t true }.goTo t .outside

/-- The exchange of `pthread_mutex_lock`. -/
def MutexState.lockExchange (s : MutexState Thread) (t : Thread) : MutexState Thread :=
  if s.locked = 0 then s.acquire t else { s with locked := 1 }.goTo t .lockStore

/-- The exchange of `pthread_mutex_trylock`. -/
def MutexState.trylockExchange (s : MutexState Thread) (t : Thread) : MutexState Thread :=
  if s.locked = 0 then s.acquire t else { s with locked := 1 }.goTo t .outside

/-- `futex_wait(&m->locked, 1, 0)`: the thread sleeps if the word still has the value. -/
def MutexState.futexWait (s : MutexState Thread) (t : Thread) : MutexState Thread :=
  if s.locked = 1 then s.goTo t .asleep else s.goTo t .lockExchange

/-- The exchange of `pthread_mutex_unlock`. -/
def MutexState.unlockExchange (s : MutexState Thread) (t : Thread) : MutexState Thread :=
  { s with waiters := 0 }.goTo t (if s.waiters = 1 then .unlockWake else .outside)

def MutexState.step (s : MutexState Thread) (t : Thread) : MutexState Thread :=
  match s.pc t with
  | .lockExchange => s.lockExchange t
  | .lockStore => { s with waiters := 1 }.goTo t .lockWait
  | .lockWait => s.futexWait t
  | .trylockExchange => s.trylockExchange t
  | .unlockStore =>
      { s with locked := 0, holds := update s.holds t false }.goTo t .unlockExchange
  | .unlockExchange => s.unlockExchange t
  | .outside | .asleep | .unlockWake => s

inductive MutexAction (Thread : Type*) where
  | lock (t : Thread)
  | trylock (t : Thread)
  | unlock (t : Thread)
  | step (t : Thread)
  /-- `futex_wake(&m->locked, 1)` and the thread it wakes. -/
  | wake (t : Thread) (woken : Option Thread)

def MutexAction.run (s : MutexState Thread) : MutexAction Thread → MutexState Thread
  | .lock t => s.goTo t .lockExchange
  | .trylock t => s.goTo t .trylockExchange
  | .unlock t => s.goTo t .unlockStore
  | .step t => s.step t
  | .wake t none => s.goTo t .outside
  | .wake t (some woken) => (s.goTo woken .lockExchange).goTo t .outside

/-- When a thread can act.  Only a holder unlocks; a wake finds a sleeper if there is one. -/
def MutexAction.Enabled (s : MutexState Thread) : MutexAction Thread → Prop
  | .lock t => s.pc t = .outside
  | .trylock t => s.pc t = .outside
  | .unlock t => s.pc t = .outside ∧ s.holds t = true
  | .step t => s.pc t ≠ .outside ∧ s.pc t ≠ .asleep ∧ s.pc t ≠ .unlockWake
  | .wake t none => s.pc t = .unlockWake ∧ ∀ u, s.pc u ≠ .asleep
  | .wake t (some woken) => s.pc t = .unlockWake ∧ s.pc woken = .asleep

def MutexStep (s : MutexState Thread) (action : MutexAction Thread)
    (next : MutexState Thread) : Prop :=
  action.Enabled s ∧ next = action.run s

end Steps

variable {Thread : Type*}

def MutualExclusion (s : MutexState Thread) : Prop :=
  ∀ t u, s.holds t = true → s.holds u = true → t = u

/-- The mutex is free, a thread sleeps on it and nobody is on the way to wake it. -/
def LostWakeup (s : MutexState Thread) : Prop :=
  s.locked = 0 ∧ (∃ t, s.pc t = .asleep) ∧ ∀ t, s.pc t = .asleep ∨ s.pc t = .outside

end EigenOS.Pthread
