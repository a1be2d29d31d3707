import Mathlib.Data.List.Chain
import EigenOS.Library.Ranges

/-!
# Tilings

A list of ranges that are not empty and follow each other without a gap.  It is the same as a list
of ranges in order that cover a range of numbers.
-/

namespace EigenOS.Ranges

variable {α : Type*} {lo hi : α → ℕ}

/-- The ranges lead from `start` to `stop`. -/
def Tiles (lo hi : α → ℕ) : ℕ → ℕ → List α → Prop
  | start, stop, [] => start = stop
  | start, stop, range :: rest =>
    lo range = start ∧ lo range < hi range ∧ Tiles lo hi (hi range) stop rest

/-- The numbers from `start` to `stop` are those of the ranges. -/
def Covers (lo hi : α → ℕ) (start stop : ℕ) (ranges : List α) : Prop :=
  ∀ n, (∃ range ∈ ranges, lo range ≤ n ∧ n < hi range) ↔ start ≤ n ∧ n < stop

/-- No two neighbours have the property. -/
def Separated (p : α → Prop) (ranges : List α) : Prop :=
  ranges.IsChain fun left right => ¬ (p left ∧ p right)

variable {start stop : ℕ} {ranges before after : List α}

theorem tiles_append :
    Tiles lo hi start stop (before ++ after) ↔
      ∃ mid, Tiles lo hi start mid before ∧ Tiles lo hi mid stop after := by
  induction before generalizing start with
  | nil => exact ⟨fun h => ⟨start, rfl, h⟩, fun ⟨_, hstart, h⟩ => hstart ▸ h⟩
  | cons range rest ih =>
    rw [List.cons_append, Tiles, ih]
    constructor
    · rintro ⟨hlo, hpos, mid, hrest, hafter⟩
      exact ⟨mid, ⟨hlo, hpos, hrest⟩, hafter⟩
    · rintro ⟨mid, ⟨hlo, hpos, hrest⟩, hafter⟩
      exact ⟨hlo, hpos, mid, hrest, hafter⟩

theorem Tiles.stop_unique {stop' : ℕ} (h : Tiles lo hi start stop ranges)
    (h' : Tiles lo hi start stop' ranges) : stop = stop' := by
  induction ranges generalizing start with
  | nil => exact Eq.trans (Eq.symm h) h'
  | cons range rest ih => exact ih h.2.2 h'.2.2

theorem Tiles.start_unique {start' : ℕ} (h : Tiles lo hi start stop ranges)
    (h' : Tiles lo hi start' stop ranges) : start = start' := by
  cases ranges with
  | nil => exact Eq.trans h (Eq.symm h')
  | cons range rest => exact h.1.symm.trans h'.1

theorem Tiles.le (h : Tiles lo hi start stop ranges) : start ≤ stop := by
  induction ranges generalizing start with
  | nil => exact Nat.le_of_eq h
  | cons range rest ih =>
    obtain ⟨hlo, hpos, hrest⟩ := h
    exact Nat.le_trans (hlo ▸ Nat.le_of_lt hpos) (ih hrest)

theorem Tiles.bounds (h : Tiles lo hi start stop ranges) {range : α} (hmem : range ∈ ranges) :
    start ≤ lo range ∧ lo range < hi range ∧ hi range ≤ stop := by
  induction ranges generalizing start with
  | nil => exact nomatch hmem
  | cons head rest ih =>
    obtain ⟨hlo, hpos, hrest⟩ := h
    rcases List.mem_cons.mp hmem with rfl | hmem
    · exact ⟨Nat.le_of_eq hlo.symm, hpos, hrest.le⟩
    · obtain ⟨hstart, hbounds⟩ := ih hrest hmem
      exact ⟨Nat.le_trans (hlo ▸ Nat.le_of_lt hpos) hstart, hbounds⟩

theorem Tiles.replace (mid mid' : List α)
    (h : Tiles lo hi start stop (before ++ (mid ++ after)))
    (hmid : ∀ first last, Tiles lo hi first last mid → Tiles lo hi first last mid') :
    Tiles lo hi start stop (before ++ (mid' ++ after)) := by
  obtain ⟨first, hbefore, hrest⟩ := tiles_append.mp h
  obtain ⟨last, hfirst, hafter⟩ := tiles_append.mp hrest
  exact tiles_append.mpr ⟨first, hbefore, tiles_append.mpr ⟨last, hmid _ _ hfirst, hafter⟩⟩

/-! ## Order and cover -/

theorem Tiles.inOrder (h : Tiles lo hi start stop ranges) : InOrder lo hi ranges := by
  induction ranges generalizing start with
  | nil => exact List.Pairwise.nil
  | cons range rest ih => exact List.Pairwise.cons (fun _ hmem => (h.2.2.bounds hmem).1) (ih h.2.2)

theorem Tiles.covers (h : Tiles lo hi start stop ranges) : Covers lo hi start stop ranges := by
  induction ranges generalizing start with
  | nil =>
    intro n
    have hempty : start = stop := h
    refine iff_of_false nofun ?_
    omega
  | cons range rest ih =>
    obtain ⟨hlo, hpos, hrest⟩ := h
    intro n
    have hle := hrest.le
    rw [List.exists_mem_cons_iff, ih hrest n]
    omega

theorem tiles_of_covers (horder : InOrder lo hi ranges)
    (hpos : ∀ range ∈ ranges, lo range < hi range) (hle : start ≤ stop)
    (hcovers : Covers lo hi start stop ranges) :
    Tiles lo hi start stop ranges := by
  induction ranges generalizing start with
  | nil =>
    refine Nat.le_antisymm hle (Nat.not_lt.mp fun hlt => ?_)
    obtain ⟨range, hmem, -⟩ := (hcovers start).mpr ⟨Nat.le_refl start, hlt⟩
    exact nomatch hmem
  | cons range rest ih =>
    obtain ⟨hbelow, horder⟩ := List.pairwise_cons.mp horder
    have hhead := hpos range List.mem_cons_self
    have hfirst := (hcovers (lo range)).mp ⟨range, List.mem_cons_self, Nat.le_refl _, hhead⟩
    have hlast := (hcovers (hi range - 1)).mp
      ⟨range, List.mem_cons_self, Nat.le_pred_of_lt hhead, Nat.pred_lt_of_lt hhead⟩
    -- the first number belongs to the first range, since the others are above that
    have hlo : lo range = start := by
      obtain ⟨other, hmem, hother⟩ := (hcovers start).mpr ⟨Nat.le_refl start, by omega⟩
      rcases List.mem_cons.mp hmem with rfl | hmem
      · omega
      · have habove := hbelow other hmem
        omega
    refine ⟨hlo, hhead, ih horder (fun other hmem => hpos other (List.mem_cons_of_mem _ hmem))
      (by omega) fun n => ?_⟩
    have hall := hcovers n
    rw [List.exists_mem_cons_iff] at hall
    constructor
    · rintro ⟨other, hmem, hother⟩
      have habove := hbelow other hmem
      have hin := hall.mp (.inr ⟨other, hmem, hother⟩)
      omega
    · intro hn
      refine (hall.mpr (by omega)).resolve_left ?_
      omega

/-! ## Neighbours -/

variable {p : α → Prop} {range : α}

theorem separated_middle :
    Separated p (before ++ range :: after) ↔
      Separated p before ∧ (∀ left ∈ before.getLast?, ¬ (p left ∧ p range)) ∧
        (∀ right ∈ after.head?, ¬ (p range ∧ p right)) ∧ Separated p after := by
  unfold Separated
  rw [List.isChain_append, List.isChain_cons]
  constructor
  · rintro ⟨hbefore, ⟨hright, hafter⟩, hleft⟩
    exact ⟨hbefore, fun left hmem => hleft left hmem range rfl, hright, hafter⟩
  · rintro ⟨hbefore, hleft, hright, hafter⟩
    refine ⟨hbefore, ⟨hright, hafter⟩, ?_⟩
    rintro left hmem _ ⟨⟩
    exact hleft left hmem

theorem Separated.replace {range' : α} (h : Separated p (before ++ range :: after))
    (himp : p range' → p range) : Separated p (before ++ range' :: after) := by
  rw [separated_middle] at h ⊢
  obtain ⟨hbefore, hleft, hright, hafter⟩ := h
  exact ⟨hbefore, fun left hmem hboth => hleft left hmem ⟨hboth.1, himp hboth.2⟩,
    fun right hmem hboth => hright right hmem ⟨himp hboth.1, hboth.2⟩, hafter⟩

end EigenOS.Ranges
