import Mathlib.Data.Finset.Card

/-!
# Counting the entries of a table

How many of the given places of a table hold an entry of some kind.  Writing one place
changes the count by what the old and the new entry weigh.
-/

namespace EigenOS.Tally

open Function

variable {ι α : Type*}

/-- The places that hold an entry of the kind. -/
def tally (places : Finset ι) (table : ι → α) (kind : α → Prop) [DecidablePred kind] : ℕ :=
  (places.filter fun i => kind (table i)).card

/-- What one entry counts for. -/
def weight (kind : α → Prop) [DecidablePred kind] (a : α) : ℕ := if kind a then 1 else 0

variable {places : Finset ι} {table : ι → α} {kind : α → Prop} [DecidablePred kind]

theorem weight_of_kind {a : α} (ha : kind a) : weight kind a = 1 := if_pos ha

theorem weight_of_not {a : α} (ha : ¬ kind a) : weight kind a = 0 := if_neg ha

theorem weight_congr {a b : α} (hiff : kind a ↔ kind b) : weight kind a = weight kind b :=
  if_congr hiff rfl rfl

theorem tally_congr {table' : ι → α}
    (hsame : ∀ i ∈ places, (kind (table' i) ↔ kind (table i))) :
    tally places table' kind = tally places table kind := by
  unfold tally
  congr 1
  ext i
  simp only [Finset.mem_filter]
  exact and_congr_right (hsame i)

theorem tally_pos {i : ι} (hi : i ∈ places) (hkind : kind (table i)) :
    0 < tally places table kind :=
  Finset.card_pos.mpr ⟨i, Finset.mem_filter.mpr ⟨hi, hkind⟩⟩

theorem tally_eq_zero (hnone : ∀ i ∈ places, ¬ kind (table i)) :
    tally places table kind = 0 := by
  unfold tally
  rw [Finset.card_eq_zero, Finset.filter_eq_empty_iff]
  exact hnone

variable [DecidableEq ι]

variable (table kind) in
theorem tally_eq_erase {i : ι} (hi : i ∈ places) :
    tally places table kind = tally (places.erase i) table kind + weight kind (table i) := by
  unfold tally
  rw [Finset.filter_erase]
  by_cases hkind : kind (table i)
  · rw [weight_of_kind hkind, Finset.card_erase_of_mem (Finset.mem_filter.mpr ⟨hi, hkind⟩)]
    have hpos := tally_pos hi hkind
    unfold tally at hpos
    omega
  · rw [weight_of_not hkind, Finset.erase_eq_of_notMem]
    · rfl
    · rw [Finset.mem_filter]
      exact fun h => hkind h.2

theorem tally_update_of_notMem {i : ι} (hi : i ∉ places) (a : α) :
    tally places (update table i a) kind = tally places table kind := by
  apply tally_congr
  intro j hj
  rw [update_of_ne]
  rintro rfl
  exact hi hj

variable (table kind) in
theorem tally_update {i : ι} (hi : i ∈ places) (a : α) :
    tally places (update table i a) kind + weight kind (table i) =
      tally places table kind + weight kind a := by
  calc
    tally places (update table i a) kind + weight kind (table i)
      = tally (places.erase i) (update table i a) kind + weight kind a +
          weight kind (table i) := by rw [tally_eq_erase _ _ hi, update_self]
    _ = tally (places.erase i) table kind + weight kind a + weight kind (table i) := by
          rw [tally_update_of_notMem (Finset.notMem_erase i places)]
    _ = tally places table kind + weight kind a := by
          rw [tally_eq_erase table kind hi]
          omega

end EigenOS.Tally
