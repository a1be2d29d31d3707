import Mathlib.Data.UInt

/-!
# Machine integers

Values of the integer types of C as integers: what a value becomes when it is stored in one, and
that it stays what it is if it fits.
-/

namespace EigenOS.MachineInt

/-- A value as an `int`. -/
def asInt (n : ℤ) : ℤ := n.bmod (2 ^ 32)

/-- A value as an `unsigned`. -/
def asUnsigned (n : ℤ) : ℤ := n % 2 ^ 32

/-- A value as a `long`. -/
def asLong (n : ℤ) : ℤ := n.bmod (2 ^ 64)

/-- A value as a `uint64_t`. -/
def asUInt64 (n : ℤ) : ℤ := n % 2 ^ 64

theorem asInt_bounds (n : ℤ) : -2 ^ 31 ≤ asInt n ∧ asInt n < 2 ^ 31 := by
  have hlow : -((2 ^ 32 : ℕ) / 2 : ℤ) ≤ n.bmod (2 ^ 32) := Int.le_bmod (by decide)
  have hhigh : n.bmod (2 ^ 32) < ((2 ^ 32 : ℕ) + 1 : ℤ) / 2 := Int.bmod_lt (by decide)
  unfold asInt
  omega

theorem asInt_eq {n : ℤ} (hlow : -2 ^ 31 ≤ n) (hhigh : n < 2 ^ 31) : asInt n = n := by
  unfold asInt
  rw [Int.bmod_def]
  split <;> omega

theorem asInt_of_le {n : ℤ} (hlow : 2 ^ 31 ≤ n) (hhigh : n < 3 * 2 ^ 31) :
    asInt n = n - 2 ^ 32 := by
  unfold asInt
  rw [Int.bmod_def]
  split <;> omega

theorem asLong_bounds (n : ℤ) : -2 ^ 63 ≤ asLong n ∧ asLong n < 2 ^ 63 := by
  have hlow : -((2 ^ 64 : ℕ) / 2 : ℤ) ≤ n.bmod (2 ^ 64) := Int.le_bmod (by decide)
  have hhigh : n.bmod (2 ^ 64) < ((2 ^ 64 : ℕ) + 1 : ℤ) / 2 := Int.bmod_lt (by decide)
  unfold asLong
  omega

theorem asLong_eq {n : ℤ} (hlow : -2 ^ 63 ≤ n) (hhigh : n < 2 ^ 63) : asLong n = n := by
  unfold asLong
  rw [Int.bmod_def]
  split <;> omega

theorem asLong_of_le {n : ℤ} (hlow : 2 ^ 63 ≤ n) (hhigh : n < 3 * 2 ^ 63) :
    asLong n = n - 2 ^ 64 := by
  unfold asLong
  rw [Int.bmod_def]
  split <;> omega

theorem asUnsigned_eq {n : ℤ} (hlow : 0 ≤ n) (hhigh : n < 2 ^ 32) : asUnsigned n = n :=
  Int.emod_eq_of_lt hlow hhigh

theorem asUInt64_eq {n : ℤ} (hlow : 0 ≤ n) (hhigh : n < 2 ^ 64) : asUInt64 n = n :=
  Int.emod_eq_of_lt hlow hhigh

/-! ## Masks -/

theorem toNat_and_add_and_not {w : ℕ} (y mask : BitVec w) :
    (y &&& mask).toNat + (y &&& ~~~mask).toNat = y.toNat := by
  have hapart : (y &&& mask) &&& (y &&& ~~~mask) = 0#w := by
    ext i hi
    simp only [BitVec.getElem_and, BitVec.getElem_not, BitVec.getElem_zero]
    cases y[i] <;> cases mask[i] <;> rfl
  have hwhole : (y &&& mask) ||| (y &&& ~~~mask) = y := by
    ext i hi
    simp only [BitVec.getElem_or, BitVec.getElem_and, BitVec.getElem_not]
    cases y[i] <;> cases mask[i] <;> rfl
  rw [← BitVec.toNat_add_of_and_eq_zero hapart, BitVec.add_eq_or_of_and_eq_zero _ _ hapart, hwhole]

/-- `(addr + align - 1) & ~(align - 1)` is from `addr` on, and not as far as `align` away. -/
theorem alignUp_bounds {addr align : UInt64} (hpos : 0 < align.toNat)
    (hfits : addr.toNat + align.toNat ≤ 2 ^ 64) :
    addr.toNat ≤ ((addr + align - 1) &&& ~~~(align - 1)).toNat ∧
      ((addr + align - 1) &&& ~~~(align - 1)).toNat < addr.toNat + align.toNat := by
  have hmask : (align - 1).toNat = align.toNat - 1 :=
    UInt64.toNat_sub_of_le _ _ (UInt64.le_iff_toNat_le.mpr hpos)
  have hsum : (addr + align - 1).toNat = addr.toNat + align.toNat - 1 := by
    rw [UInt64.toNat_sub, UInt64.toNat_add, UInt64.toNat_one]
    omega
  have hparts := toNat_and_add_and_not (addr + align - 1).toBitVec (align - 1).toBitVec
  have hkept : ((addr + align - 1).toBitVec &&& (align - 1).toBitVec).toNat ≤ (align - 1).toNat := by
    rw [BitVec.toNat_and]
    exact Nat.and_le_right
  have hcleared : ((addr + align - 1) &&& ~~~(align - 1)).toNat =
      ((addr + align - 1).toBitVec &&& ~~~(align - 1).toBitVec).toNat := rfl
  have hwhole : (addr + align - 1).toBitVec.toNat = (addr + align - 1).toNat := rfl
  omega

theorem dvd_and_not {k : ℕ} (hk : k < 64) (value : UInt64) :
    2 ^ k ∣ (value &&& ~~~(UInt64.ofNat (2 ^ k) - 1)).toNat := by
  have hlt : 2 ^ k < 2 ^ 64 := Nat.pow_lt_pow_right (by decide) hk
  have hpos := Nat.two_pow_pos k
  have halign : (UInt64.ofNat (2 ^ k)).toNat = 2 ^ k := by
    rw [UInt64.toNat_ofNat', Nat.mod_eq_of_lt hlt]
  have hmask : (UInt64.ofNat (2 ^ k) - 1).toNat = 2 ^ k - 1 := by
    rw [UInt64.toNat_sub_of_le _ _ (UInt64.le_iff_toNat_le.mpr (by rw [halign]; exact hpos)), halign]
    rfl
  have hparts := toNat_and_add_and_not value.toBitVec (UInt64.ofNat (2 ^ k) - 1).toBitVec
  have hkept : (value.toBitVec &&& (UInt64.ofNat (2 ^ k) - 1).toBitVec).toNat =
      value.toNat % 2 ^ k := by
    rw [BitVec.toNat_and]
    change value.toNat &&& (UInt64.ofNat (2 ^ k) - 1).toNat = _
    rw [hmask, Nat.and_two_pow_sub_one_eq_mod]
  have hcleared : (value &&& ~~~(UInt64.ofNat (2 ^ k) - 1)).toNat =
      (value.toBitVec &&& ~~~(UInt64.ofNat (2 ^ k) - 1).toBitVec).toNat := rfl
  have hwhole : value.toBitVec.toNat = value.toNat := rfl
  have hdiv := Nat.mod_add_div value.toNat (2 ^ k)
  exact ⟨value.toNat / 2 ^ k, by omega⟩

end EigenOS.MachineInt
