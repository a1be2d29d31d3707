import Mathlib.Data.List.Basic
import Mathlib.Data.Int.Notation

/-!
# Programs that read a buffer

A reader computes a value and records every access it makes: the offsets it
reads and the counts it hands on, each with the number of bytes that remain at
that point.  It is safe for a length when every access is within it.  Safety of
a sequence is the safety of its parts, so the safety of a whole program is read
off its text.
-/

namespace EigenOS.BufferAccess

universe u

inductive Access where
  | read (offset : ℕ)
  | hand (count : ℤ) (remaining : ℕ)
  deriving DecidableEq

def Access.Within (length : ℕ) : Access → Prop
  | .read offset => offset < length
  | .hand count remaining => 0 ≤ count ∧ count ≤ remaining

structure Reader (α : Type u) where
  accesses : List Access
  value : α

namespace Reader

variable {α β : Type u}

instance : Monad Reader where
  pure value := ⟨[], value⟩
  bind first rest :=
    ⟨first.accesses ++ (rest first.value).accesses, (rest first.value).value⟩

def Safe (length : ℕ) (reader : Reader α) : Prop :=
  ∀ access ∈ reader.accesses, access.Within length

def range (offset count : ℕ) (value : α) : Reader α :=
  ⟨(List.range count).map fun index => .read (offset + index), value⟩

/-- Hands a count on to code that may use that many of the remaining bytes. -/
def pass (count : ℤ) (remaining : ℕ) : Reader Unit := ⟨[.hand count remaining], ()⟩

variable {length : ℕ}

@[simp]
theorem safe_pure (value : α) : (pure value : Reader α).Safe length ↔ True :=
  iff_true_intro nofun

@[simp]
theorem safe_bind (first : Reader α) (rest : α → Reader β) :
    (first >>= rest).Safe length ↔ first.Safe length ∧ (rest first.value).Safe length := by
  constructor
  · intro h
    exact ⟨fun access hmem => h access (List.mem_append_left _ hmem),
      fun access hmem => h access (List.mem_append_right _ hmem)⟩
  · rintro ⟨hfirst, hrest⟩ access hmem
    rcases List.mem_append.mp hmem with hmem | hmem
    · exact hfirst access hmem
    · exact hrest access hmem

@[simp]
theorem value_bind (first : Reader α) (rest : α → Reader β) :
    (first >>= rest).value = (rest first.value).value := rfl

@[simp]
theorem safe_ite (condition : Prop) [Decidable condition] (yes no : Reader α) :
    (if condition then yes else no).Safe length ↔
      (condition → yes.Safe length) ∧ (¬ condition → no.Safe length) := by
  by_cases h : condition
  · rw [if_pos h]
    exact ⟨fun hyes => ⟨fun _ => hyes, fun hno => absurd h hno⟩, fun hboth => hboth.1 h⟩
  · rw [if_neg h]
    exact ⟨fun hno => ⟨fun hyes => absurd hyes h, fun _ => hno⟩, fun hboth => hboth.2 h⟩

@[simp]
theorem safe_pass (count : ℤ) (remaining : ℕ) :
    (pass count remaining).Safe length ↔ 0 ≤ count ∧ count ≤ remaining := by
  constructor
  · exact fun h => h _ (List.mem_singleton_self _)
  · intro h access hmem
    rw [List.mem_singleton.mp hmem]
    exact h

theorem safe_range_iff (offset count : ℕ) (value : α) :
    (range offset count value).Safe length ↔ count = 0 ∨ offset + count ≤ length := by
  constructor
  · intro h
    cases count with
    | zero => exact Or.inl rfl
    | succ count =>
        have hlast : Access.Within length (.read (offset + count)) :=
          h _ (List.mem_map_of_mem (List.mem_range.mpr (Nat.lt_succ_self count)))
        exact Or.inr hlast
  · intro h access hmem
    obtain ⟨index, hindex, rfl⟩ := List.mem_map.mp hmem
    have hlt := List.mem_range.mp hindex
    have hread : offset + index < length := by omega
    exact hread

@[simp]
theorem safe_range_succ (offset count : ℕ) (value : α) :
    (range offset (count + 1) value).Safe length ↔ offset + (count + 1) ≤ length := by
  rw [safe_range_iff]
  exact or_iff_right (Nat.succ_ne_zero count)

@[simp]
theorem value_range (offset count : ℕ) (value : α) : (range offset count value).value = value :=
  rfl

/-! ## Loops -/

theorem safe_forM_iff {ι : Type*} (items : List ι) (body : ι → Reader PUnit) :
    (forM items body).Safe length ↔ ∀ item ∈ items, (body item).Safe length := by
  induction items with
  | nil => simp
  | cons item rest ih =>
      rw [List.forM_cons, safe_bind, ih]
      simp

theorem value_foldlM {ι : Type*} (items : List ι) (body : β → ι → Reader β) (start : β) :
    (items.foldlM body start).value =
      items.foldl (fun acc item => (body acc item).value) start := by
  induction items generalizing start with
  | nil => rfl
  | cons item rest ih =>
      rw [List.foldlM_cons, value_bind, ih]
      rfl

theorem safe_foldlM {ι : Type*} {items : List ι} {body : β → ι → Reader β} (start : β)
    (h : ∀ acc, ∀ item ∈ items, (body acc item).Safe length) :
    (items.foldlM body start).Safe length := by
  induction items generalizing start with
  | nil => simp
  | cons item rest ih =>
      rw [List.foldlM_cons, safe_bind]
      refine ⟨h start item List.mem_cons_self, ih _ ?_⟩
      exact fun acc next hnext => h acc next (List.mem_cons_of_mem _ hnext)

end Reader

end EigenOS.BufferAccess
