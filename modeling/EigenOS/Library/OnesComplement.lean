import Mathlib.Data.Nat.ModEq
import Mathlib.Tactic.Ring

/-!
# One's-complement sums

Numbers modulo `radix - 1`, kept below `radix` by adding the carries back in.  A sum is zero
only if nothing was added, so that zero has two forms, and the complement of a sum brings it
to the larger one.
-/

namespace EigenOS.OnesComplement

/-! ## Carries -/

section Fold

variable {radix : ℕ}

/-- A carry is added back in. -/
def foldOnce (radix n : ℕ) : ℕ := n % radix + n / radix

theorem foldOnce_lt (hradix : 1 < radix) {n : ℕ} (hn : radix ≤ n) : foldOnce radix n < n := by
  have hsum : n % radix + radix * (n / radix) = n := Nat.mod_add_div n radix
  have hquotient : 0 < n / radix := Nat.div_pos hn (by omega)
  have hless : n / radix < radix * (n / radix) := (Nat.lt_mul_iff_one_lt_left hquotient).mpr hradix
  unfold foldOnce
  omega

theorem foldOnce_modEq (hradix : 1 < radix) (n : ℕ) : foldOnce radix n ≡ n [MOD radix - 1] := by
  have hone : radix ≡ 1 [MOD radix - 1] := by
    have h : 1 + (radix - 1) ≡ 1 [MOD radix - 1] := Nat.add_modEq_right
    rwa [Nat.add_sub_cancel' (by omega)] at h
  calc
    foldOnce radix n = n % radix + 1 * (n / radix) := by rw [one_mul]; rfl
    _ ≡ n % radix + radix * (n / radix) [MOD radix - 1] := (hone.symm.mul_right _).add_left _
    _ = n := Nat.mod_add_div n radix

theorem foldOnce_eq_zero {n : ℕ} : foldOnce radix n = 0 ↔ n = 0 := by
  constructor
  · intro hzero
    obtain ⟨hmod, hdiv⟩ := Nat.add_eq_zero_iff.mp hzero
    rw [← Nat.mod_add_div n radix, hmod, hdiv, mul_zero, add_zero]
  · intro hzero
    rw [hzero, foldOnce, Nat.zero_mod, Nat.zero_div]

/-- A number in which no carry is left stands for `n`. -/
structure Folds (radix n folded : ℕ) : Prop where
  lt : folded < radix
  modEq : folded ≡ n [MOD radix - 1]
  eq_zero : folded = 0 ↔ n = 0

theorem Folds.of_lt {n : ℕ} (hn : n < radix) : Folds radix n n := ⟨hn, rfl, Iff.rfl⟩

theorem Folds.of_foldOnce (hradix : 1 < radix) {n folded : ℕ}
    (hfolds : Folds radix (foldOnce radix n) folded) : Folds radix n folded where
  lt := hfolds.lt
  modEq := hfolds.modEq.trans (foldOnce_modEq hradix n)
  eq_zero := hfolds.eq_zero.trans foldOnce_eq_zero

/-- The carries are added back in until none is left. -/
def fold (radix n : ℕ) : ℕ :=
  if 1 < radix ∧ radix ≤ n then fold radix (foldOnce radix n) else n
termination_by n
decreasing_by exact foldOnce_lt ‹1 < radix ∧ _›.1 ‹1 < radix ∧ _›.2

theorem folds_fold (hradix : 1 < radix) (n : ℕ) : Folds radix n (fold radix n) := by
  induction n using fold.induct radix with
  | case1 n h ih =>
      rw [fold, if_pos h]
      exact ih.of_foldOnce hradix
  | case2 n h =>
      rw [fold, if_neg h]
      exact .of_lt (by omega)

theorem Folds.add_complement (hradix : 1 < radix) {sum folded checked : ℕ}
    (hfolds : Folds radix sum folded)
    (hchecked : Folds radix (sum + (radix - 1 - folded)) checked) : checked = radix - 1 := by
  have hlt := hfolds.lt
  have hzero : checked ≡ 0 [MOD radix - 1] :=
    calc
      checked ≡ sum + (radix - 1 - folded) [MOD radix - 1] := hchecked.modEq
      _ ≡ folded + (radix - 1 - folded) [MOD radix - 1] := (hfolds.modEq.add_right _).symm
      _ = radix - 1 := Nat.add_sub_cancel' (by omega)
      _ ≡ 0 [MOD radix - 1] := by rw [Nat.ModEq, Nat.mod_self, Nat.zero_mod]
  have hne : checked ≠ 0 := by
    intro hchecked0
    have hsum := hchecked.eq_zero.mp hchecked0
    have hfolded := hfolds.eq_zero.mpr (by omega)
    omega
  have hdvd : radix - 1 ∣ checked := (Nat.modEq_zero_iff_dvd).mp hzero
  have hle := Nat.le_of_dvd (Nat.pos_of_ne_zero hne) hdvd
  have hbound := hchecked.lt
  omega

end Fold

/-! ## Sums of words -/

/-- The sum of the big-endian words of a byte string; a last odd byte is the upper half of its
word. -/
def wordSum : List UInt8 → ℕ
  | [] => 0
  | [high] => 256 * high.toNat
  | high :: low :: rest => 256 * high.toNat + low.toNat + wordSum rest

theorem wordSum_append {words : ℕ} {front : List UInt8} (hlength : front.length = 2 * words)
    (back : List UInt8) : wordSum (front ++ back) = wordSum front + wordSum back := by
  induction words generalizing front with
  | zero =>
      rw [List.length_eq_zero_iff.mp hlength, List.nil_append, wordSum, zero_add]
  | succ words ih =>
      match front with
      | [] => simp at hlength
      | [_] => simp at hlength; omega
      | high :: low :: rest =>
          have hrest : rest.length = 2 * words := by
            simp only [List.length_cons] at hlength
            omega
          rw [List.cons_append, List.cons_append, wordSum, wordSum, ih hrest]
          exact (add_assoc _ _ _).symm

theorem wordSum_le (bytes : List UInt8) : wordSum bytes ≤ 65535 * ((bytes.length + 1) / 2) := by
  induction bytes using wordSum.induct with
  | case1 => exact Nat.zero_le _
  | case2 high =>
      have hhigh := high.toNat_lt
      rw [wordSum, List.length_singleton]
      omega
  | case3 high low rest ih =>
      have hhigh := high.toNat_lt
      have hlow := low.toNat_lt
      rw [wordSum, List.length_cons, List.length_cons]
      omega

/-- The one's-complement sum of a byte string is the larger form of zero. -/
def Verifies (bytes : List UInt8) : Prop := fold 65536 (wordSum bytes) = 0xFFFF

instance (bytes : List UInt8) : Decidable (Verifies bytes) := inferInstanceAs (Decidable (_ = _))

/-- A byte string that was summed with a zero word verifies once the complement of the sum
stands there. -/
theorem verifies_of_complement {words folded : ℕ} {front : List UInt8} {high low : UInt8}
    {back : List UInt8} (hlength : front.length = 2 * words)
    (hfolds : Folds 65536 (wordSum (front ++ ([0, 0] ++ back))) folded)
    (hcomplement : 256 * high.toNat + low.toNat = 65535 - folded) :
    Verifies (front ++ ([high, low] ++ back)) := by
  have hsum : wordSum (front ++ ([high, low] ++ back)) =
      wordSum (front ++ ([0, 0] ++ back)) + (65536 - 1 - folded) := by
    rw [wordSum_append hlength, wordSum_append hlength]
    change _ + (256 * high.toNat + low.toNat + wordSum back) =
      _ + (256 * 0 + 0 + wordSum back) + _
    rw [hcomplement]
    omega
  have hchecked : Folds 65536 (wordSum (front ++ ([high, low] ++ back))) _ :=
    folds_fold (by decide) _
  rw [hsum] at hchecked
  rw [Verifies, hsum]
  exact hfolds.add_complement (by decide) hchecked

end EigenOS.OnesComplement
