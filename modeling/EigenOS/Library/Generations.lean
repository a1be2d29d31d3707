import Mathlib.Data.Nat.Notation
import Mathlib.Logic.Basic

/-!
# Handles on slots that are used again

Objects live in slots, and a slot that has been emptied goes to a later object.  The generation
of a slot counts the objects it has had, and a handle names an object by slot and generation.
-/

namespace EigenOS.Generations

structure Handle (Slot : Type*) where
  slot : Slot
  generation : ℕ
  deriving DecidableEq

variable {Slot : Type*} {used after : Slot → Bool} {generation : Slot → ℕ} {h : Handle Slot}

/-- The slot gets an object. -/
def Filled (used after : Slot → Bool) (slot : Slot) : Prop :=
  used slot = false ∧ after slot = true

instance (used after : Slot → Bool) (slot : Slot) : Decidable (Filled used after slot) :=
  inferInstanceAs (Decidable (_ ∧ _))

/-- The generations once the slots have been filled. -/
def advance (used after : Slot → Bool) (generation : Slot → ℕ) : Slot → ℕ := fun slot =>
  if Filled used after slot then generation slot + 1 else generation slot

/-- The handle on the object that a slot has now. -/
def issue (generation : Slot → ℕ) (slot : Slot) : Handle Slot := ⟨slot, generation slot⟩

structure Handle.Names (used : Slot → Bool) (generation : Slot → ℕ) (h : Handle Slot) : Prop where
  past : h.generation ≤ generation h.slot
  own : used h.slot = true → generation h.slot = h.generation

theorem names_issue (used : Slot → Bool) (generation : Slot → ℕ) (slot : Slot) :
    (issue generation slot).Names used generation where
  past := Nat.le_refl _
  own _ := rfl

/-- A handle goes on to name its object exactly as long as its slot is not filled. -/
theorem Handle.Names.advance_iff (hnames : h.Names used generation) :
    h.Names after (advance used after generation) ↔ ¬ Filled used after h.slot := by
  constructor
  · intro hafter hfilled
    have hown := hafter.own hfilled.2
    have hpast := hnames.past
    rw [advance, if_pos hfilled] at hown
    omega
  · intro hnot
    have hsame : advance used after generation h.slot = generation h.slot := if_neg hnot
    constructor
    · exact hsame ▸ hnames.past
    · intro hused
      rw [hsame]
      apply hnames.own
      rw [← Bool.not_eq_false]
      exact fun hfree => hnot ⟨hfree, hused⟩

end EigenOS.Generations
