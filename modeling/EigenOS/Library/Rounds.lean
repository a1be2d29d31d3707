import Mathlib.Tactic.Common

/-!
# Loops that may end early

A loop goes over numbers in order and ends with the first one at which it stops.  What holds of
all its rounds holds of the first one, and of the others if the first one does not stop.
-/

namespace EigenOS.Rounds

variable {stops holds : ℕ → Prop} {start count : ℕ}

/-- A property of the rounds of a loop, the one that stops it included. -/
def UntilStop (stops holds : ℕ → Prop) (start count : ℕ) : Prop :=
  ∀ k, start ≤ k → k < start + count → (∀ j, start ≤ j → j < k → ¬ stops j) → holds k

/-- The loop comes to its end. -/
def NeverStops (stops : ℕ → Prop) (start count : ℕ) : Prop :=
  ∀ k, start ≤ k → k < start + count → ¬ stops k

theorem untilStop_zero : UntilStop stops holds start 0 :=
  fun _ hlow hhigh => absurd hhigh (Nat.not_lt.mpr hlow)

theorem neverStops_zero : NeverStops stops start 0 :=
  fun _ hlow hhigh => absurd hhigh (Nat.not_lt.mpr hlow)

theorem untilStop_succ : UntilStop stops holds start (count + 1) ↔
    holds start ∧ (¬ stops start → UntilStop stops holds (start + 1) count) := by
  constructor
  · intro h
    refine ⟨h start (Nat.le_refl _) (by omega) fun j hlow hhigh => absurd hhigh (by omega), ?_⟩
    intro hstart k hlow hhigh hbefore
    apply h k (by omega) (by omega)
    intro j hlow' hhigh'
    rcases Nat.eq_or_lt_of_le hlow' with rfl | hlater
    · exact hstart
    · exact hbefore j hlater hhigh'
  · rintro ⟨hfirst, hrest⟩ k hlow hhigh hbefore
    rcases Nat.eq_or_lt_of_le hlow with rfl | hlater
    · exact hfirst
    · have hstart := hbefore start (Nat.le_refl _) hlater
      exact hrest hstart k hlater (by omega) fun j hlow' => hbefore j (by omega)

theorem neverStops_succ : NeverStops stops start (count + 1) ↔
    ¬ stops start ∧ NeverStops stops (start + 1) count := by
  constructor
  · intro h
    exact ⟨h start (Nat.le_refl _) (by omega), fun k hlow hhigh => h k (by omega) (by omega)⟩
  · rintro ⟨hfirst, hrest⟩ k hlow hhigh
    rcases Nat.eq_or_lt_of_le hlow with rfl | hlater
    · exact hfirst
    · exact hrest k hlater (by omega)

end EigenOS.Rounds
