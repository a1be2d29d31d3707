import Mathlib.Tactic.Common

/-!
# Exclusive holders

Resources that are live, such as the blocks of an allocator, and the places that hold them.
As long as a new resource was not live before, and one that is released is no longer held,
no resource has two holders and none that is held is dead.
-/

namespace EigenOS.Holders

open Function

variable {Holder Resource : Type*}

structure Exclusive (holds : Holder → Option Resource) (live : Resource → Prop) : Prop where
  live : ∀ holder resource, holds holder = some resource → live resource
  unique : ∀ holder other resource, holds holder = some resource →
    holds other = some resource → holder = other

variable {holds : Holder → Option Resource} {live live' : Resource → Prop}

theorem exclusive_none : Exclusive (fun _ : Holder => (none : Option Resource)) live :=
  ⟨nofun, nofun⟩

section Update

variable [DecidableEq Holder] {holder : Holder} {resource : Resource}

theorem Exclusive.acquire (h : Exclusive holds live) (hfresh : ¬ live resource)
    (hlive : ∀ other, live' other ↔ other = resource ∨ live other) :
    Exclusive (update holds holder (some resource)) live' := by
  have hother : ∀ place item, place ≠ holder →
      update holds holder (some resource) place = some item →
        holds place = some item := by
    intro place item hne hplace
    rwa [update_of_ne hne] at hplace
  have hself : ∀ item, update holds holder (some resource) holder = some item →
      item = resource := by
    intro item hplace
    rw [update_self] at hplace
    exact (Option.some.inj hplace).symm
  constructor
  · intro place item hplace
    rw [hlive]
    by_cases hne : place = holder
    · subst hne
      exact Or.inl (hself item hplace)
    · exact Or.inr (h.live place item (hother place item hne hplace))
  · intro left right item hleft hright
    by_cases hl : left = holder
    · by_cases hr : right = holder
      · rw [hl, hr]
      · subst hl
        rw [hself item hleft] at hright
        exact absurd (h.live right _ (hother right _ hr hright)) hfresh
    · by_cases hr : right = holder
      · subst hr
        rw [hself item hright] at hleft
        exact absurd (h.live left _ (hother left _ hl hleft)) hfresh
      · exact h.unique left right item (hother left _ hl hleft) (hother right _ hr hright)

theorem Exclusive.release (h : Exclusive holds live) (hholds : holds holder = some resource)
    (hlive : ∀ other, live' other ↔ other ≠ resource ∧ live other) :
    Exclusive (update holds holder none) live' := by
  have hother : ∀ place item, update holds holder none place = some item →
      place ≠ holder ∧ holds place = some item := by
    intro place item hplace
    by_cases hne : place = holder
    · subst hne
      rw [update_self] at hplace
      cases hplace
    · rw [update_of_ne hne] at hplace
      exact ⟨hne, hplace⟩
  constructor
  · intro place item hplace
    obtain ⟨hne, hold⟩ := hother place item hplace
    refine (hlive item).mpr ⟨?_, h.live place item hold⟩
    rintro rfl
    exact hne (h.unique place holder item hold hholds)
  · intro left right item hleft hright
    exact h.unique left right item (hother left item hleft).2 (hother right item hright).2

end Update

end EigenOS.Holders
