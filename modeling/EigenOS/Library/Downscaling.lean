import Mathlib.Tactic.Ring

/-!
# Scaling a rectangle down to a budget

The least whole factor by which the area of a rectangle exceeds a budget scales both sides down to
one that fits, also when no side may come out empty.
-/

namespace EigenOS.Downscaling

variable {w h budget : ℕ}

/-- The area in budgets, rounded up. -/
def factor (w h budget : ℕ) : ℕ := (w * h + budget - 1) / budget

theorem area_le (hbudget : 0 < budget) : w * h ≤ factor w h budget * budget := by
  have hceil := Nat.lt_div_mul_add (a := w * h + budget - 1) hbudget
  unfold factor
  omega

theorem one_lt_factor (hbudget : 0 < budget) (harea : budget < w * h) :
    1 < factor w h budget := by
  have hle : w * h ≤ factor w h budget * budget := area_le hbudget
  by_contra hsmall
  have hone : factor w h budget * budget ≤ 1 * budget := Nat.mul_le_mul_right _ (by omega)
  omega

theorem scaled_le (hbudget : 0 < budget) (harea : budget < w * h) :
    w / factor w h budget * (h / factor w h budget) ≤ budget := by
  have hone := one_lt_factor hbudget harea
  have hle : w * h ≤ factor w h budget * budget := area_le hbudget
  generalize factor w h budget = f at *
  have hsides : w / f * f * (h / f * f) ≤ w * h :=
    Nat.mul_le_mul (Nat.div_mul_le_self w f) (Nat.div_mul_le_self h f)
  have hcancel : w / f * (h / f) * f ≤ budget := by
    apply Nat.le_of_mul_le_mul_right _ (show 0 < f by omega)
    calc w / f * (h / f) * f * f = w / f * f * (h / f * f) := by ring
      _ ≤ w * h := hsides
      _ ≤ f * budget := hle
      _ = budget * f := Nat.mul_comm f budget
  exact (Nat.le_mul_of_pos_right _ (by omega)).trans hcancel

theorem scaled_max_le (hw : 0 < w) (hh : 0 < h) (hbudget : 0 < budget)
    (harea : budget < w * h) :
    max (w / factor w h budget) 1 * max (h / factor w h budget) 1 ≤ budget := by
  have hscaled := scaled_le hbudget harea
  have hone := one_lt_factor hbudget harea
  have hle : w * h ≤ factor w h budget * budget := area_le hbudget
  generalize factor w h budget = f at *
  have hside : ∀ {a b : ℕ}, 0 < a → a * b ≤ f * budget → b / f ≤ budget := by
    intro a b ha hab
    apply Nat.div_le_of_le_mul
    exact (Nat.le_mul_of_pos_left b ha).trans hab
  have hheight : h / f ≤ budget := hside hw hle
  have hwidth : w / f ≤ budget := hside hh ((Nat.mul_comm h w).trans_le hle)
  rcases Nat.eq_zero_or_pos (w / f) with hzero | hpos
  · rw [hzero, Nat.max_eq_right (Nat.zero_le 1), Nat.one_mul]
    omega
  · rw [Nat.max_eq_left hpos]
    rcases Nat.eq_zero_or_pos (h / f) with hzero | hpos'
    · rw [hzero, Nat.max_eq_right (Nat.zero_le 1), Nat.mul_one]
      exact hwidth
    · rw [Nat.max_eq_left hpos']
      exact hscaled

end EigenOS.Downscaling
