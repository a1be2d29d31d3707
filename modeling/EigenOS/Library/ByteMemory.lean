import Mathlib.Algebra.Order.Group.Nat
import Mathlib.Data.UInt

/-!
# Memory of bytes

Numbers of several bytes are loaded and stored with the lowest byte first.  What a program does
to the memory is bounded by a region: the bytes outside of it stay.
-/

namespace EigenOS.ByteMemory

abbrev Memory := ℕ → UInt8

/-- The number in the `width` bytes from `addr` on. -/
def load (m : Memory) : ℕ → ℕ → ℕ
  | 0, _ => 0
  | width + 1, addr => (m addr).toNat + 256 * load m width (addr + 1)

/-- A number is stored in the `width` bytes from `addr` on. -/
def store (m : Memory) (width addr value : ℕ) : Memory := fun x =>
  if addr ≤ x ∧ x < addr + width then UInt8.ofNat (value / 256 ^ (x - addr)) else m x

def ChangesWithin (region : Set ℕ) (m m' : Memory) : Prop := ∀ x, x ∉ region → m' x = m x

variable {m m' m'' : Memory} {width addr value : ℕ}

theorem store_of_mem {x : ℕ} (hx : addr ≤ x ∧ x < addr + width) :
    store m width addr value x = UInt8.ofNat (value / 256 ^ (x - addr)) := if_pos hx

theorem store_of_notMem {x : ℕ} (hx : x < addr ∨ addr + width ≤ x) :
    store m width addr value x = m x := by
  apply if_neg
  omega

/-! ## Loads -/

theorem load_lt (m : Memory) (width addr : ℕ) : load m width addr < 256 ^ width := by
  induction width generalizing addr with
  | zero => exact Nat.one_pos
  | succ width ih =>
      have hrest := ih (addr + 1)
      have hbyte : (m addr).toNat < 256 := (m addr).toNat_lt
      rw [load, pow_succ']
      omega

theorem load_congr (heq : ∀ x, addr ≤ x → x < addr + width → m' x = m x) :
    load m' width addr = load m width addr := by
  induction width generalizing addr with
  | zero => rfl
  | succ width ih =>
      rw [load, load, heq addr (Nat.le_refl _) (by omega), ih]
      intro x hlow hhigh
      exact heq x (by omega) (by omega)

theorem load_of_digits
    (hdigits : ∀ i < width, (m (addr + i)).toNat = value / 256 ^ i % 256) :
    load m width addr = value % 256 ^ width := by
  induction width generalizing addr value with
  | zero =>
      rw [pow_zero, Nat.mod_one]
      rfl
  | succ width ih =>
      have hfirst : (m addr).toNat = value % 256 := by
        have hzero := hdigits 0 (Nat.succ_pos width)
        rwa [Nat.add_zero, pow_zero, Nat.div_one] at hzero
      have hrest : load m width (addr + 1) = value / 256 % 256 ^ width := by
        apply ih
        intro i hi
        have hnext := hdigits (i + 1) (Nat.succ_lt_succ hi)
        rw [pow_succ', ← Nat.div_div_eq_div_mul] at hnext
        rw [← hnext, Nat.add_assoc, Nat.add_comm 1 i]
      rw [load, hfirst, hrest, pow_succ', Nat.mod_mul]

theorem load_store_self (m : Memory) (width addr value : ℕ) :
    load (store m width addr value) width addr = value % 256 ^ width := by
  apply load_of_digits
  intro i hi
  rw [store_of_mem ⟨Nat.le_add_right _ _, by omega⟩, Nat.add_sub_cancel_left, UInt8.toNat_ofNat']

theorem load_store_of_apart {width' addr' : ℕ}
    (hapart : addr' + width' ≤ addr ∨ addr + width ≤ addr') :
    load (store m width addr value) width' addr' = load m width' addr' := by
  apply load_congr
  intro x hlow hhigh
  exact store_of_notMem (by omega)

/-! ## Regions -/

variable {region region' : Set ℕ}

theorem ChangesWithin.refl (region : Set ℕ) (m : Memory) : ChangesWithin region m m :=
  fun _ _ => rfl

theorem ChangesWithin.trans (h : ChangesWithin region m m') (h' : ChangesWithin region m' m'') :
    ChangesWithin region m m'' := fun x hx => (h' x hx).trans (h x hx)

theorem ChangesWithin.mono (h : ChangesWithin region m m') (hsub : region ⊆ region') :
    ChangesWithin region' m m' := fun x hx => h x fun hmem => hx (hsub hmem)

theorem changesWithin_store (hsub : ∀ x, addr ≤ x → x < addr + width → x ∈ region) :
    ChangesWithin region m (store m width addr value) := by
  intro x hx
  apply store_of_notMem
  by_contra hinside
  exact hx (hsub x (by omega) (by omega))

end EigenOS.ByteMemory
