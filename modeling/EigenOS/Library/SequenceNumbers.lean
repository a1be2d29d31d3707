import Mathlib.Data.UInt

/-!
# Sequence numbers

The positions of a stream are numbered modulo 2^32 from any first number.  Two positions that
are less than 2^32 apart can be told from the difference of their numbers, and from the plain
order of the numbers only as long as the numbering does not wrap between them.
-/

namespace EigenOS.SequenceNumbers

def numberOf (first : UInt32) (position : ℕ) : UInt32 := first + UInt32.ofNat position

variable {first : UInt32} {p q : ℕ}

theorem numberOf_zero : numberOf first 0 = first := UInt32.add_zero first

theorem numberOf_add (first : UInt32) (p n : ℕ) :
    numberOf first (p + n) = numberOf first p + UInt32.ofNat n := by
  unfold numberOf
  rw [UInt32.ofNat_add, UInt32.add_assoc]

theorem numberOf_toNat (first : UInt32) (p : ℕ) :
    (numberOf first p).toNat = (first.toNat + p) % 2 ^ 32 := by
  unfold numberOf
  rw [UInt32.toNat_add, UInt32.toNat_ofNat', Nat.add_mod_mod]

theorem sub_toNat (hle : p ≤ q) (hnear : q - p < 2 ^ 32) :
    (numberOf first q - numberOf first p).toNat = q - p := by
  rw [UInt32.toNat_sub, numberOf_toNat, numberOf_toNat]
  omega

/-- A number that lies between those of two positions belongs to a position between them. -/
theorem exists_position {number : UInt32} (hle : p ≤ q) (hnear : q - p < 2 ^ 32)
    (hbetween : number - numberOf first p ≤ numberOf first q - numberOf first p) :
    ∃ position, p ≤ position ∧ position ≤ q ∧ number = numberOf first position ∧
      (number - numberOf first p).toNat = position - p := by
  have hdistance : (number - numberOf first p).toNat ≤ q - p := by
    rw [← sub_toNat hle hnear]
    exact hbetween
  refine ⟨p + (number - numberOf first p).toNat, Nat.le_add_right _ _, by omega, ?_, by omega⟩
  rw [numberOf_add, UInt32.ofNat_toNat, UInt32.add_comm, UInt32.sub_add_cancel]

theorem toNat_of_lt (hle : p ≤ q) (hnear : q - p < 2 ^ 32)
    (hlt : numberOf first p < numberOf first q) :
    (numberOf first q).toNat = (numberOf first p).toNat + (q - p) := by
  have hdistance : (numberOf first q - numberOf first p).toNat = q - p := sub_toNat hle hnear
  have hnat : (numberOf first p).toNat < (numberOf first q).toNat := hlt
  rw [UInt32.toNat_sub] at hdistance
  have hbound : (numberOf first q).toNat < 2 ^ 32 := (numberOf first q).toNat_lt
  omega

/-- Where the numbering wraps, the difference of the numbers taken the other way is large. -/
theorem le_sub_of_lt (hlt : p < q) (hnear : q - p ≤ 2 ^ 31) :
    2 ^ 31 ≤ (numberOf first p - numberOf first q).toNat := by
  rw [UInt32.toNat_sub, numberOf_toNat, numberOf_toNat]
  omega

end EigenOS.SequenceNumbers
