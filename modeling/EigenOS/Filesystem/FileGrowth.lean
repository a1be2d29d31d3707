import Mathlib.Algebra.Order.Ring.Int
import Mathlib.Algebra.Order.Ring.Pow
import EigenOS.Filesystem.Planting
import EigenOS.Library.MachineInt

/-!
# How a file grows

`fs_write` computes the size it needs in an `int` and doubles the capacity until it is large
enough.  Neither is bounded: the sum and the capacity can both pass the largest `int`, and a
count from 2^31 on comes in as a negative number.
-/

namespace EigenOS.Filesystem

open EigenOS.MachineInt Function

/-- Doubling `base` comes to `need` before it passes the largest `int`. -/
def CapReaches (base need : ℤ) : Prop :=
  need ≤ base ∨ ∃ k : ℕ, need ≤ base * 2 ^ k ∧ base * 2 ^ k ≤ intMax

/-! ## The doubling loop -/

theorem growCapacity_eq_some {rounds : ℕ} {cap need grown : ℤ}
    (h : growCapacity rounds cap need = some grown) :
    need ≤ grown ∧ (grown = cap ∨ ∃ k : ℕ, grown = cap * 2 ^ k ∧ grown ≤ intMax) := by
  induction rounds generalizing cap with
  | zero => cases h
  | succ rounds ih =>
      rw [growCapacity] at h
      split at h
      · rename_i hfits
        cases h
        exact ⟨hfits, Or.inl rfl⟩
      · split at h
        · cases h
        · rename_i hmax
          obtain ⟨hneed, hgrown⟩ := ih h
          refine ⟨hneed, Or.inr ?_⟩
          rcases hgrown with rfl | ⟨k, hk, hle⟩
          · exact ⟨1, by rw [pow_one], not_lt.mp hmax⟩
          · exact ⟨k + 1, by rw [hk, pow_succ', mul_assoc], hle⟩

theorem growCapacity_of_reaches {rounds k : ℕ} {cap need : ℤ} (hk : k < rounds)
    (hcap : 0 < cap) (hneed : need ≤ cap * 2 ^ k) (hmax : cap * 2 ^ k ≤ intMax) :
    ∃ grown, growCapacity rounds cap need = some grown := by
  induction rounds generalizing cap k with
  | zero => omega
  | succ rounds ih =>
      rw [growCapacity]
      by_cases hfits : need ≤ cap
      · rw [if_pos hfits]
        exact ⟨cap, rfl⟩
      · rw [if_neg hfits]
        cases k with
        | zero =>
            rw [pow_zero, mul_one] at hneed
            exact absurd hneed hfits
        | succ k =>
            have hdouble : cap * 2 ^ (k + 1) = cap * 2 * 2 ^ k := by
              rw [pow_succ', mul_assoc]
            have hpow : (1 : ℤ) ≤ 2 ^ k := one_le_pow₀ (by decide)
            have hle : cap * 2 ≤ cap * 2 * 2 ^ k := le_mul_of_one_le_right (by omega) hpow
            rw [hdouble] at hneed hmax
            rw [if_neg (not_lt.mpr (hle.trans hmax))]
            exact ih (by omega) (by omega) hneed hmax

theorem doublings_lt {base : ℤ} {k : ℕ} (hbase : 0 < base) (hmax : base * 2 ^ k ≤ intMax) :
    k < 32 := by
  by_contra hlarge
  have hpow : (2 : ℤ) ^ 32 ≤ 2 ^ k := pow_le_pow_right₀ (by decide) (not_lt.mp hlarge)
  have hle : (2 : ℤ) ^ k ≤ base * 2 ^ k := le_mul_of_one_le_left (pow_pos (by decide) k).le hbase
  unfold intMax at hmax
  omega

theorem growCapacity_iff (base need : ℤ) :
    (∃ cap, growCapacity 32 base need = some cap ∧ need ≤ cap) ↔ CapReaches base need := by
  constructor
  · rintro ⟨cap, hgrown, _⟩
    obtain ⟨hneed, rfl | ⟨k, rfl, hmax⟩⟩ := growCapacity_eq_some hgrown
    · exact Or.inl hneed
    · exact Or.inr ⟨k, hneed, hmax⟩
  · intro hreaches
    have hsome : ∃ cap, growCapacity 32 base need = some cap := by
      by_cases hfits : need ≤ base
      · exact ⟨base, if_pos hfits⟩
      · obtain ⟨k, hneed, hmax⟩ := hreaches.resolve_left hfits
        have hbase : 0 < base := by
          by_contra hneg
          have hpow : (1 : ℤ) ≤ 2 ^ k := one_le_pow₀ (by decide)
          have hle : base * 2 ^ k ≤ base := mul_le_of_one_le_right (not_lt.mp hneg) hpow
          exact hfits (hneed.trans hle)
        exact growCapacity_of_reaches (doublings_lt hbase hmax) hbase hneed hmax
    obtain ⟨cap, hcap⟩ := hsome
    exact ⟨cap, hcap, (growCapacity_eq_some hcap).1⟩

/-! ## Writing -/

/-- The call returns.  It fails with the table as it was, or the bytes it writes, behind those
of the file, are inside the capacity that it records. -/
def WritesInside (files : Table) (fd count : ℤ) (result : Option Reply) : Prop :=
  ∃ reply, result = some reply ∧
    (reply.2 = -1 ∧ reply.1 = files ∨
      reply.2 = count ∧ 0 ≤ (files (slotAt fd)).size ∧
        (files (slotAt fd)).size + count ≤ (reply.1 (slotAt fd)).capacity)

/-- Where the descriptor is that of a file, its new size fits an `int` and so does a capacity
for it, and the count is not negative, unless the write fails for want of memory before it
looks at the count. -/
def GrowthFits (files : Table) (fd count : ℤ) (allocated : Bool) : Prop :=
  let fp := files (slotAt fd)
  0 ≤ fd → fd < maxFiles → fp.inUse = true → fp.type = .file →
    fp.size + count ≤ intMax ∧
    (fp.size + count ≤ fp.capacity ∨ CapReaches (baseCapacity fp) (fp.size + count)) ∧
    (0 ≤ fp.size ∧ 0 ≤ count ∨ fp.capacity < fp.size + count ∧ allocated = false)

theorem fileEnsureCap_of_le {fp : FileNode} {need : ℤ} (h : need ≤ fp.capacity)
    (allocated : Bool) : fileEnsureCap fp need allocated = some (some fp) := if_pos h

theorem fileEnsureCap_of_lt {fp : FileNode} {need : ℤ} (h : fp.capacity < need)
    (hreaches : CapReaches (baseCapacity fp) need) :
    ∃ cap, need ≤ cap ∧
      fileEnsureCap fp need true = some (some { fp with
        data := some ((fp.data.getD []).take fp.size.toNat), capacity := cap }) ∧
      fileEnsureCap fp need false = some none := by
  obtain ⟨cap, hcap, hle⟩ := (growCapacity_iff _ _).mpr hreaches
  refine ⟨cap, hle, ?_, ?_⟩
  all_goals
    unfold fileEnsureCap
    rw [if_neg (not_le.mpr h), hcap]
    rfl

theorem fileEnsureCap_eq_none {fp : FileNode} {need : ℤ} (h : fp.capacity < need)
    (hnot : ¬ CapReaches (baseCapacity fp) need) (allocated : Bool) :
    fileEnsureCap fp need allocated = none := by
  unfold fileEnsureCap
  rw [if_neg (not_le.mpr h)]
  cases hgrow : growCapacity 32 (baseCapacity fp) need with
  | none => rfl
  | some cap =>
      exact absurd ((growCapacity_iff _ _).mp ⟨cap, hgrow, (growCapacity_eq_some hgrow).1⟩) hnot

/-- The write with its buffer already grown. -/
def appendTo (files : Table) (slot : Slot) (grown : FileNode) (now : UInt32) (buf : List UInt8)
    (count : ℤ) : Table :=
  update files slot
    { grown.stamp now with
      data := some ((grown.data.getD []).take (files slot).size.toNat ++ buf.take count.toNat)
      size := (files slot).size + count }

section Write

variable {files : Table} {caller : Caller} {fd count : ℤ} {buf : List UInt8}

theorem fsWrite_refused (h : ¬ (0 ≤ fd ∧ fd < maxFiles ∧
      (files (slotAt fd)).inUse = true ∧ (files (slotAt fd)).type = .file)) :
    fsWrite files caller fd buf count = some (files, -1) := by
  unfold fsWrite
  by_cases hrange : fd < 0 ∨ maxFiles ≤ fd
  · rw [if_pos hrange]
  · rw [if_neg hrange]
    dsimp only
    rw [if_pos]
    rw [not_or, not_lt, not_le] at hrange
    by_contra hfile
    rw [not_or, Bool.not_eq_false, not_not] at hfile
    exact h ⟨hrange.1, hrange.2, hfile⟩

theorem fsWrite_file (hlow : 0 ≤ fd) (hhigh : fd < maxFiles)
    (hused : (files (slotAt fd)).inUse = true) (htype : (files (slotAt fd)).type = .file) :
    fsWrite files caller fd buf count =
      if intMax < (files (slotAt fd)).size + count then none
      else
        match fileEnsureCap (files (slotAt fd)) ((files (slotAt fd)).size + count)
          caller.allocated with
        | none => none
        | some none => some (files, -1)
        | some (some grown) =>
            if count < 0 then none
            else some (appendTo files (slotAt fd) grown caller.now buf count, count) := by
  unfold fsWrite
  rw [if_neg (by omega)]
  dsimp only
  rw [if_neg (by simp [hused, htype])]
  rfl

theorem writesInside_appendTo {grown : FileNode} (hsize : 0 ≤ (files (slotAt fd)).size)
    (hcap : (files (slotAt fd)).size + count ≤ grown.capacity) (now : UInt32) :
    WritesInside files fd count
      (some (appendTo files (slotAt fd) grown now buf count, count)) := by
  refine ⟨_, rfl, Or.inr ⟨rfl, hsize, ?_⟩⟩
  change _ ≤ (update files (slotAt fd) _ (slotAt fd)).capacity
  rw [update_self]
  exact hcap

theorem not_writesInside_none : ¬ WritesInside files fd count none := by
  rintro ⟨_, hnone, _⟩
  cases hnone

/-- A write through a grown buffer is inside of it exactly when neither size nor count is
negative. -/
theorem writesInside_grown_iff {grown : FileNode}
    (hcap : (files (slotAt fd)).size + count ≤ grown.capacity) (now : UInt32) :
    WritesInside files fd count
      (if count < 0 then none
        else some (appendTo files (slotAt fd) grown now buf count, count)) ↔
      0 ≤ (files (slotAt fd)).size ∧ 0 ≤ count := by
  by_cases hneg : count < 0
  · rw [if_pos hneg]
    exact iff_of_false not_writesInside_none fun h => absurd h.2 (not_le.mpr hneg)
  · rw [if_neg hneg]
    constructor
    · rintro ⟨reply, hreply, hinside⟩
      cases hreply
      rcases hinside with ⟨hret, _⟩ | ⟨_, hsize, _⟩
      · dsimp only at hret
        omega
      · exact ⟨hsize, not_lt.mp hneg⟩
    · exact fun h => writesInside_appendTo h.1 hcap now

end Write

theorem writesInside_iff (files : Table) (caller : Caller) (fd : ℤ) (buf : List UInt8)
    (count : ℤ) :
    WritesInside files fd count (fsWrite files caller fd buf count) ↔
      GrowthFits files fd count caller.allocated := by
  by_cases hfile : 0 ≤ fd ∧ fd < maxFiles ∧ (files (slotAt fd)).inUse = true ∧
      (files (slotAt fd)).type = .file
  · obtain ⟨hlow, hhigh, hused, htype⟩ := hfile
    rw [fsWrite_file hlow hhigh hused htype]
    have hfits : GrowthFits files fd count caller.allocated ↔
        (files (slotAt fd)).size + count ≤ intMax ∧
        ((files (slotAt fd)).size + count ≤ (files (slotAt fd)).capacity ∨
          CapReaches (baseCapacity (files (slotAt fd))) ((files (slotAt fd)).size + count)) ∧
        (0 ≤ (files (slotAt fd)).size ∧ 0 ≤ count ∨
          (files (slotAt fd)).capacity < (files (slotAt fd)).size + count ∧
            caller.allocated = false) :=
      ⟨fun h => h hlow hhigh hused htype, fun h _ _ _ _ => h⟩
    rw [hfits]
    by_cases hmax : intMax < (files (slotAt fd)).size + count
    · rw [if_pos hmax]
      exact iff_of_false not_writesInside_none fun h => absurd h.1 (not_le.mpr hmax)
    · rw [if_neg hmax]
      by_cases hle : (files (slotAt fd)).size + count ≤ (files (slotAt fd)).capacity
      · rw [fileEnsureCap_of_le hle, writesInside_grown_iff hle]
        simp [not_lt.mp hmax, hle, not_lt.mpr hle]
      · rw [not_le] at hle
        by_cases hreaches : CapReaches (baseCapacity (files (slotAt fd)))
            ((files (slotAt fd)).size + count)
        · obtain ⟨cap, hcap, hsome, hfail⟩ := fileEnsureCap_of_lt hle hreaches
          cases halloc : caller.allocated with
          | true =>
              rw [hsome, writesInside_grown_iff hcap]
              simp [not_lt.mp hmax, hreaches]
          | false =>
              rw [hfail]
              refine iff_of_true ⟨_, rfl, Or.inl ⟨rfl, rfl⟩⟩ ?_
              exact ⟨not_lt.mp hmax, Or.inr hreaches, Or.inr ⟨hle, rfl⟩⟩
        · rw [fileEnsureCap_eq_none hle hreaches]
          refine iff_of_false not_writesInside_none ?_
          rintro ⟨_, hcap | hcap, _⟩
          · exact absurd hcap (not_le.mpr hle)
          · exact hreaches hcap
  · rw [fsWrite_refused hfile]
    refine iff_of_true ⟨_, rfl, Or.inl ⟨rfl, rfl⟩⟩ ?_
    intro hlow hhigh hused htype
    exact absurd ⟨hlow, hhigh, hused, htype⟩ hfile

/-- Writing ends and stays inside the buffer exactly under the condition, and the doubling loop
ends with what it was asked for exactly when doubling can reach it. -/
theorem growth_iff (files : Table) (caller : Caller) (fd : ℤ) (buf : List UInt8)
    (c : UInt32) (fp : FileNode) (need : ℤ) :
    (WritesInside files fd (asInt c.toNat) (fsWrite files caller fd buf (asInt c.toNat)) ↔
      GrowthFits files fd (asInt c.toNat) caller.allocated) ∧
    ((∃ cap, growCapacity 32 (baseCapacity fp) need = some cap ∧ need ≤ cap) ↔
      CapReaches (baseCapacity fp) need) :=
  ⟨writesInside_iff files caller fd buf (asInt c.toNat), growCapacity_iff _ _⟩

def oneByte : List FileNode :=
  [{ newEntry (bytes "f") .file 0 0 0 with data := some [1], size := 1, capacity := 128 }]

/-- Room for 2^30 more bytes is never found: the capacity doubles from 128 to 2^30 and then
out of the `int`. -/
theorem not_writesInside_oneByte :
    ¬ WritesInside (plant oneByte) 1 (asInt (0x40000000 : UInt32).toNat)
      (fsWrite (plant oneByte) shell 1 [] (asInt (0x40000000 : UInt32).toNat)) := by
  have hnone : fsWrite (plant oneByte) shell 1 [] (asInt (0x40000000 : UInt32).toNat) = none := by
    decide +kernel
  rw [hnone]
  exact not_writesInside_none

end EigenOS.Filesystem
