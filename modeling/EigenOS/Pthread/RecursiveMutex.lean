import Mathlib.Algebra.Group.Int.Defs
import Mathlib.Algebra.Group.Nat.Defs
import Mathlib.Logic.Function.Basic

/-!
# The recursive mutex of the pthread library

Beside the lock word there are the owner and the depth, which are read and written without any
synchronization of their own.  The threads take turns at every read and write.
-/

namespace EigenOS.Pthread

open Function

/-- What an `int` holds after a sum has been stored in it. -/
def wrapInt (n : ℤ) : ℤ := (n + 2 ^ 31) % 2 ^ 32 - 2 ^ 31

theorem wrapInt_eq {n : ℤ} (hlow : -2 ^ 31 ≤ n) (hhigh : n < 2 ^ 31) : wrapInt n = n := by
  rw [wrapInt]
  omega

/-- The read or write of an operation that a thread is before. -/
inductive RecursivePc where
  | outside
  /-- The owner is compared, in a lock or a trylock. -/
  | lockOwner (trylock : Bool)
  | nestRead
  | nestWrite (recursion : ℤ)
  | exchange (trylock : Bool)
  | setOwner
  | setRecursion
  | setWaiters
  | futexWait
  | asleep
  /-- The owner is compared, in an unlock. -/
  | unlockOwner
  | unnestRead
  | unnestWrite (recursion : ℤ)
  | recursionTest
  | clearOwner
  /-- The lock word is cleared, by the owner or by another thread. -/
  | clearLocked (owner : Bool)
  | waitersExchange
  | futexWake
  deriving DecidableEq

/-- The steps of an unlock by a thread that is not the owner. -/
def RecursivePc.Foreign : RecursivePc → Prop
  | .unlockOwner | .clearLocked false | .waitersExchange | .futexWake => True
  | _ => False

/-- `pthread_mutex_t` of the recursive type with the threads that use it.  An owner of `none`
is 0. -/
structure RecursiveState (Thread : Type*) where
  locked : Bool
  waiters : Bool
  owner : Option Thread
  recursion : ℤ
  pc : Thread → RecursivePc
  /-- The thread that took the lock word. -/
  holder : Option Thread
  /-- The locks of a thread that have returned, less its unlocks. -/
  held : Thread → ℕ

/-- `pthread_mutex_init` with the recursive type. -/
def RecursiveState.initial (Thread : Type*) : RecursiveState Thread where
  locked := false
  waiters := false
  owner := none
  recursion := 0
  pc _ := .outside
  holder := none
  held _ := 0

section Steps

variable {Thread : Type*} [DecidableEq Thread]

def RecursiveState.goTo (s : RecursiveState Thread) (t : Thread) (pc : RecursivePc) :
    RecursiveState Thread :=
  { s with pc := update s.pc t pc }

def RecursiveState.lockReturns (s : RecursiveState Thread) (t : Thread) (recursion : ℤ) :
    RecursiveState Thread :=
  { s with
    recursion := recursion
    held := update s.held t (s.held t + 1) }.goTo t .outside

/-- The read or write that a thread is before. -/
def RecursiveState.step (s : RecursiveState Thread) (t : Thread) : RecursiveState Thread :=
  match s.pc t with
  | .lockOwner trylock =>
      if s.owner = some t then s.goTo t .nestRead else s.goTo t (.exchange trylock)
  | .nestRead => s.goTo t (.nestWrite s.recursion)
  | .nestWrite recursion => s.lockReturns t (wrapInt (recursion + 1))
  | .exchange trylock =>
      if s.locked = false then { s with locked := true, holder := some t }.goTo t .setOwner
      else if trylock then s.goTo t .outside
      else s.goTo t .setWaiters
  | .setOwner => { s with owner := some t }.goTo t .setRecursion
  | .setRecursion => s.lockReturns t 1
  | .setWaiters => { s with waiters := true }.goTo t .futexWait
  | .futexWait => if s.locked = true then s.goTo t .asleep else s.goTo t (.exchange false)
  | .unlockOwner =>
      if s.owner = some t then s.goTo t .unnestRead else s.goTo t (.clearLocked false)
  | .unnestRead => s.goTo t (.unnestWrite s.recursion)
  | .unnestWrite recursion =>
      { s with recursion := wrapInt (recursion - 1) }.goTo t .recursionTest
  | .recursionTest => if 0 < s.recursion then s.goTo t .outside else s.goTo t .clearOwner
  | .clearOwner => { s with owner := none }.goTo t (.clearLocked true)
  | .clearLocked true => { s with locked := false, holder := none }.goTo t .waitersExchange
  | .clearLocked false => { s with locked := false }.goTo t .waitersExchange
  | .waitersExchange =>
      { s with waiters := false }.goTo t (if s.waiters then .futexWake else .outside)
  | .outside | .asleep | .futexWake => s

inductive RecursiveAction (Thread : Type*) where
  | lock (t : Thread)
  | trylock (t : Thread)
  | unlock (t : Thread)
  | step (t : Thread)
  /-- `futex_wake(&m->locked, 1)` and the thread it wakes. -/
  | wake (t : Thread) (woken : Option Thread)

def RecursiveAction.actor : RecursiveAction Thread → Thread
  | .lock t | .trylock t | .unlock t | .step t | .wake t _ => t

def RecursiveAction.run (s : RecursiveState Thread) : RecursiveAction Thread → RecursiveState Thread
  | .lock t => s.goTo t (.lockOwner false)
  | .trylock t => s.goTo t (.lockOwner true)
  | .unlock t =>
      { s with held := update s.held t (s.held t - 1) }.goTo t .unlockOwner
  | .step t => s.step t
  | .wake t none => s.goTo t .outside
  | .wake t (some woken) => (s.goTo woken (.exchange false)).goTo t .outside

/-- When a thread can act.  A wake finds a sleeper if there is one. -/
def RecursiveAction.Enabled (s : RecursiveState Thread) : RecursiveAction Thread → Prop
  | .lock t => s.pc t = .outside
  | .trylock t => s.pc t = .outside
  | .unlock t => s.pc t = .outside
  | .step t => s.pc t ≠ .outside ∧ s.pc t ≠ .asleep ∧ s.pc t ≠ .futexWake
  | .wake t none => s.pc t = .futexWake ∧ ∀ u, s.pc u ≠ .asleep
  | .wake t (some woken) => s.pc t = .futexWake ∧ s.pc woken = .asleep

def RecursiveStep (s : RecursiveState Thread) (action : RecursiveAction Thread)
    (next : RecursiveState Thread) : Prop :=
  action.Enabled s ∧ next = action.run s

/-- The mutex is released by the thread that holds it, once its unlocks match its locks, and an
unlock by a thread that is not the owner leaves the mutex as it is. -/
structure ReleasesRightly (s : RecursiveState Thread) (action : RecursiveAction Thread)
    (next : RecursiveState Thread) : Prop where
  released : s.locked = true → next.locked = false →
    s.holder = some action.actor ∧ s.held action.actor = 0
  foreign : (s.pc action.actor).Foreign →
    next.owner = s.owner ∧ next.recursion = s.recursion ∧ next.locked = s.locked

end Steps

end EigenOS.Pthread
