import Mathlib.Tactic.Common

/-!
# Who is inside

Threads are at places, and some places lie inside a region.  Either the region is vacant, or one
thread is alone in it.  A step moves one thread.
-/

namespace EigenOS.Occupancy

open Function

variable {Thread Place : Type*} (inside : Place → Prop) (place : Thread → Place)

def Vacant : Prop := ∀ t, ¬ inside (place t)

def Alone (t : Thread) : Prop := ∀ u, inside (place u) ↔ u = t

variable {inside place} {t u : Thread} {p : Place}

theorem Alone.self (h : Alone inside place t) : inside (place t) := (h t).mpr rfl

theorem Alone.eq (h : Alone inside place t) (hu : inside (place u)) : u = t := (h u).mp hu

theorem Alone.ne (h : Alone inside place t) (hu : ¬ inside (place u)) : u ≠ t :=
  fun heq => hu ((h u).mpr heq)

theorem Alone.exclusive (h : Alone inside place t) {v : Thread} (hu : inside (place u))
    (hv : inside (place v)) : u = v := (h.eq hu).trans (h.eq hv).symm

section Moves

variable [DecidableEq Thread]

theorem Vacant.move (h : Vacant inside place) (hp : ¬ inside p) :
    Vacant inside (update place t p) := by
  intro u
  by_cases heq : u = t
  · rw [heq, update_self]
    exact hp
  · rw [update_of_ne heq]
    exact h u

theorem Vacant.enter (h : Vacant inside place) (hp : inside p) :
    Alone inside (update place t p) t := by
  intro u
  by_cases heq : u = t
  · rw [heq, update_self]
    exact iff_of_true hp rfl
  · rw [update_of_ne heq]
    exact iff_of_false (h u) heq

theorem Alone.stay (h : Alone inside place t) (hp : inside p) :
    Alone inside (update place t p) t := by
  intro u
  by_cases heq : u = t
  · rw [heq, update_self]
    exact iff_of_true hp rfl
  · rw [update_of_ne heq]
    exact h u

theorem Alone.leave (h : Alone inside place t) (hp : ¬ inside p) :
    Vacant inside (update place t p) := by
  intro u
  by_cases heq : u = t
  · rw [heq, update_self]
    exact hp
  · rw [update_of_ne heq]
    exact fun hu => heq (h.eq hu)

theorem Alone.move (h : Alone inside place t) (hne : u ≠ t) (hp : ¬ inside p) :
    Alone inside (update place u p) t := by
  intro v
  by_cases heq : v = u
  · rw [heq, update_self]
    exact iff_of_false hp hne
  · rw [update_of_ne heq]
    exact h v

end Moves

end EigenOS.Occupancy
