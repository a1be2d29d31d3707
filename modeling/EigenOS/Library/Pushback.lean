import Mathlib.Data.List.Basic
import Mathlib.Data.Int.Notation

/-!
# Reading with one element pushed back

A sequence that is read from a position on, with room for one element in front of it.  The
element that was pushed back comes first, in whatever way the sequence is read, and is dropped
when the position is set anew.
-/

namespace EigenOS.Pushback

variable {α : Type*}

structure Stream (α : Type*) where
  content : List α
  pos : ℕ
  pushed : Option α
  deriving DecidableEq

namespace Stream

/-- All that is still to be read. -/
def upcoming (s : Stream α) : List α := s.pushed.toList ++ s.content.drop s.pos

/-- The stream after `count` elements were asked for. -/
def after (s : Stream α) (count : ℕ) : Stream α :=
  if count = 0 then s
  else { s with
    pushed := none
    pos := s.pos + min (count - s.pushed.toList.length) (s.content.length - s.pos) }

def push (s : Stream α) (a : α) : Stream α := { s with pushed := some a }

def seek (s : Stream α) (target : ℕ) : Stream α := { s with pos := target, pushed := none }

/-- Where the stream stands.  The element that was pushed back may count as one that is still to
be read from the sequence, or as none of the sequence's. -/
def position (counted : Bool) (s : Stream α) : ℤ :=
  if counted ∧ s.pushed.isSome then (s.pos : ℤ) - 1 else (s.pos : ℤ)

theorem upcoming_of_none {s : Stream α} (hpushed : s.pushed = none) :
    s.upcoming = s.content.drop s.pos := by
  rw [upcoming, hpushed]
  rfl

@[simp]
theorem after_zero (s : Stream α) : s.after 0 = s := if_pos rfl

theorem after_pushed {s : Stream α} {count : ℕ} (hcount : count ≠ 0) :
    (s.after count).pushed = none := by
  rw [after, if_neg hcount]

theorem after_of_none {s : Stream α} (hpushed : s.pushed = none) (count : ℕ) :
    s.after count = { s with pos := s.pos + min count (s.content.length - s.pos) } := by
  by_cases hcount : count = 0
  · rw [after, if_pos hcount, hcount, Nat.zero_min, Nat.add_zero]
  · rw [after, if_neg hcount, hpushed]
    rfl

theorem position_of_none {s : Stream α} (hpushed : s.pushed = none) (counted : Bool) :
    s.position counted = s.pos := by
  rw [position, hpushed]
  exact if_neg (fun h => nomatch h.2)

end Stream

end EigenOS.Pushback
