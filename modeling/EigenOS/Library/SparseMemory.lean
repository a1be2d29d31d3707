import Mathlib.Data.BitVec

/-!
# Memory that is mapped in part

An address has a byte or it has none.  A block of bytes is laid over a memory from an address
on; blocks may wrap around at the end of the address space.
-/

namespace EigenOS.SparseMemory

open Function

variable {w : ℕ} {Byte : Type*}

abbrev Memory (w : ℕ) (Byte : Type*) := BitVec w → Option Byte

/-- How far an address is behind another. -/
def distance (start addr : BitVec w) : ℕ := (addr - start).toNat

/-- The memory with a block of bytes from an address on. -/
def blit (mem : Memory w Byte) (start : BitVec w) (count : ℕ) (bytes : ℕ → Byte) :
    Memory w Byte :=
  fun addr => if distance start addr < count then some (bytes (distance start addr)) else mem addr

/-! ## Distances -/

variable {start addr : BitVec w} {count : ℕ}

theorem distance_add {k : ℕ} (hk : k < 2 ^ w) : distance start (start + BitVec.ofNat w k) = k := by
  have hcancel : start + BitVec.ofNat w k - start = BitVec.ofNat w k := by
    rw [BitVec.add_comm, BitVec.add_sub_cancel]
  rw [distance, hcancel, BitVec.toNat_ofNat, Nat.mod_eq_of_lt hk]

theorem add_distance (start addr : BitVec w) :
    start + BitVec.ofNat w (distance start addr) = addr := by
  rw [distance, BitVec.ofNat_toNat, BitVec.setWidth_eq, BitVec.add_comm, BitVec.sub_add_cancel]

theorem distance_eq_iff {k : ℕ} (hk : k < 2 ^ w) :
    distance start addr = k ↔ addr = start + BitVec.ofNat w k := by
  constructor
  · rintro rfl
    exact (add_distance start addr).symm
  · rintro rfl
    exact distance_add hk

/-- The addresses of a block that does not wrap around. -/
theorem distance_lt_iff (hfits : start.toNat + count ≤ 2 ^ w) :
    distance start addr < count ↔ start.toNat ≤ addr.toNat ∧ addr.toNat < start.toNat + count := by
  have haddr := addr.isLt
  have hstart := start.isLt
  rw [distance, BitVec.toNat_sub]
  constructor
  · intro hlt
    by_cases hle : start.toNat ≤ addr.toNat
    · have hmod : (2 ^ w - start.toNat + addr.toNat) % 2 ^ w = addr.toNat - start.toNat := by
        rw [show 2 ^ w - start.toNat + addr.toNat = addr.toNat - start.toNat + 2 ^ w by omega,
          Nat.add_mod_right, Nat.mod_eq_of_lt (by omega)]
      omega
    · rw [Nat.mod_eq_of_lt (by omega)] at hlt
      omega
  · rintro ⟨hle, hlt⟩
    rw [show 2 ^ w - start.toNat + addr.toNat = addr.toNat - start.toNat + 2 ^ w by omega,
      Nat.add_mod_right, Nat.mod_eq_of_lt (by omega)]
    omega

/-! ## Blocks -/

variable {mem mem' : Memory w Byte} {bytes : ℕ → Byte}

theorem blit_of_lt (h : distance start addr < count) :
    blit mem start count bytes addr = some (bytes (distance start addr)) := if_pos h

theorem blit_of_not_lt (h : ¬ distance start addr < count) :
    blit mem start count bytes addr = mem addr := if_neg h

@[simp]
theorem blit_zero (mem : Memory w Byte) (start : BitVec w) (bytes : ℕ → Byte) :
    blit mem start 0 bytes = mem :=
  funext fun _ => blit_of_not_lt (Nat.not_lt_zero _)

theorem blit_succ (hcount : count < 2 ^ w) :
    blit mem start (count + 1) bytes =
      update (blit mem start count bytes) (start + BitVec.ofNat w count)
        (some (bytes count)) := by
  funext addr
  by_cases hlast : addr = start + BitVec.ofNat w count
  · have hdistance := (distance_eq_iff hcount).mpr hlast
    rw [hlast, update_self, ← hlast, blit_of_lt (by omega), hdistance]
  · have hdistance : distance start addr ≠ count :=
      fun h => hlast ((distance_eq_iff hcount).mp h)
    rw [update_of_ne hlast]
    by_cases hlt : distance start addr < count
    · rw [blit_of_lt (by omega), blit_of_lt hlt]
    · rw [blit_of_not_lt (by omega), blit_of_not_lt hlt]

theorem blit_add {k : ℕ} (hk : k < count) (hfits : count ≤ 2 ^ w) :
    blit mem start count bytes (start + BitVec.ofNat w k) = some (bytes k) := by
  have hdistance : distance start (start + BitVec.ofNat w k) = k :=
    distance_add (Nat.lt_of_lt_of_le hk hfits)
  rw [blit_of_lt (by omega), hdistance]

theorem blit_isSome (h : (mem addr).isSome = true) :
    (blit mem start count bytes addr).isSome = true := by
  unfold blit
  split_ifs
  · rfl
  · exact h

end EigenOS.SparseMemory
