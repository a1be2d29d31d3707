import Mathlib.Data.List.Pairwise

/-!
# Ranges in order

A list of ranges of natural numbers, each below the next.  The ranges are values of any
type with a lower and an upper end.  Joining neighbours, replacing a range by a part of it
and inserting one that is apart from the others keep the order.
-/

namespace EigenOS.Ranges

variable {α : Type*} {lo hi : α → ℕ}

/-- Two ranges, given by their ends, have no number in common. -/
def Apart (lo₁ hi₁ lo₂ hi₂ : ℕ) : Prop := hi₁ ≤ lo₂ ∨ hi₂ ≤ lo₁

/-- Each range ends before the next one starts. -/
def InOrder (lo hi : α → ℕ) (ranges : List α) : Prop :=
  ranges.Pairwise fun left right => hi left ≤ lo right

/-- Two mergeable neighbours that touch are replaced by their union. -/
inductive Joins (lo hi : α → ℕ) (mergeable : α → Prop) : List α → List α → Prop where
  | intro (before : List α) (left right union : α) (after : List α)
      (hleft : mergeable left) (hright : mergeable right) (hunion : mergeable union)
      (htouch : hi left = lo right) (hlo : lo union = lo left) (hhi : hi union = hi right) :
      Joins lo hi mergeable (before ++ left :: right :: after) (before ++ union :: after)

theorem inOrder_append_cons {before after : List α} {range : α} :
    InOrder lo hi (before ++ range :: after) ↔
      InOrder lo hi before ∧ InOrder lo hi after ∧
        (∀ other ∈ before, hi other ≤ lo range) ∧
        (∀ other ∈ after, hi range ≤ lo other) ∧
        ∀ left ∈ before, ∀ right ∈ after, hi left ≤ lo right := by
  unfold InOrder
  rw [List.pairwise_append, List.pairwise_cons]
  constructor
  · rintro ⟨hbefore, ⟨hnext, hafter⟩, hcross⟩
    refine ⟨hbefore, hafter, ?_, hnext, ?_⟩
    · exact fun other hother => hcross other hother range List.mem_cons_self
    · exact fun left hleft right hright =>
        hcross left hleft right (List.mem_cons_of_mem _ hright)
  · rintro ⟨hbefore, hafter, hrange, hnext, hcross⟩
    refine ⟨hbefore, ⟨hnext, hafter⟩, ?_⟩
    intro left hleft right hright
    rcases List.mem_cons.mp hright with rfl | hright
    · exact hrange left hleft
    · exact hcross left hleft right hright

theorem InOrder.shrink {before after : List α} {range part : α}
    (horder : InOrder lo hi (before ++ range :: after)) (hlo : lo range ≤ lo part)
    (hhi : hi part ≤ hi range) : InOrder lo hi (before ++ part :: after) := by
  rw [inOrder_append_cons] at horder ⊢
  obtain ⟨hbefore, hafter, hrange, hnext, hcross⟩ := horder
  refine ⟨hbefore, hafter, ?_, ?_, hcross⟩
  · exact fun other hother => Nat.le_trans (hrange other hother) hlo
  · exact fun other hother => Nat.le_trans hhi (hnext other hother)

theorem InOrder.joins {mergeable : α → Prop} {ranges joined : List α}
    (horder : InOrder lo hi ranges) (hjoin : Joins lo hi mergeable ranges joined) :
    InOrder lo hi joined := by
  obtain ⟨before, left, right, union, after, _, _, _, _, hlo, hhi⟩ := hjoin
  rw [inOrder_append_cons] at horder ⊢
  obtain ⟨hbefore, hafter, hleft, _, hcross⟩ := horder
  rw [InOrder, List.pairwise_cons] at hafter
  refine ⟨hbefore, hafter.2, ?_, ?_, ?_⟩
  · exact fun other hother => hlo ▸ hleft other hother
  · exact fun other hother => hhi ▸ hafter.1 other hother
  · exact fun first hfirst last hlast => hcross first hfirst last (List.mem_cons_of_mem _ hlast)

theorem InOrder.apart {before after : List α} {range other : α}
    (horder : InOrder lo hi (before ++ range :: after)) (hother : other ∈ before ++ after) :
    Apart (lo other) (hi other) (lo range) (hi range) := by
  rw [inOrder_append_cons] at horder
  obtain ⟨_, _, hrange, hnext, _⟩ := horder
  rcases List.mem_append.mp hother with hmem | hmem
  · exact Or.inl (hrange other hmem)
  · exact Or.inr (hnext other hmem)

theorem forall_mem_of_joins {mergeable P : α → Prop} {ranges joined : List α}
    (hunion : ∀ left right union, mergeable left → mergeable right → mergeable union →
      P left → P right → hi left = lo right → lo union = lo left → hi union = hi right →
        P union)
    (hall : ∀ range ∈ ranges, P range) (hjoin : Joins lo hi mergeable ranges joined) :
    ∀ range ∈ joined, P range := by
  obtain ⟨before, left, right, union, after, hleft, hright, hmerged, htouch, hlo, hhi⟩ := hjoin
  intro range hrange
  rcases List.mem_append.mp hrange with hmem | hmem
  · exact hall range (List.mem_append_left _ hmem)
  · rcases List.mem_cons.mp hmem with rfl | hmem
    · refine hunion left right _ hleft hright hmerged (hall left ?_) (hall right ?_) htouch
        hlo hhi
      · simp
      · simp
    · exact hall range (by simp [hmem])

end EigenOS.Ranges
