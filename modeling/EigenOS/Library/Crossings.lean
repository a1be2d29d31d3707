import EigenOS.Library.Transition

/-!
# Crossings

A run goes into a set of states and out of it again.  Between two states that are both outside,
or both inside, it goes in as often as it goes out.
-/

namespace EigenOS.Crossings

open EigenOS.Transition

variable {State Label : Type*}

/-- How many steps of a run stand in a relation. -/
def steps (R : State → Label → State → Prop) [∀ start label next, Decidable (R start label next)] :
    State → List (Label × State) → ℕ
  | _, [] => 0
  | start, (label, next) :: rest => (if R start label next then 1 else 0) + steps R next rest

section Steps

variable {R S T : State → Label → State → Prop}
  [∀ start label next, Decidable (R start label next)]
  [∀ start label next, Decidable (S start label next)]
  [∀ start label next, Decidable (T start label next)]
  {start : State} {run : List (Label × State)}

theorem steps_eq_add
    (hsplit : Along (fun start label next => (R start label next ↔
      S start label next ∨ T start label next) ∧ ¬ (S start label next ∧ T start label next))
      start run) :
    steps R start run = steps S start run + steps T start run := by
  induction run generalizing start with
  | nil => rfl
  | cons head rest ih =>
      obtain ⟨⟨hiff, hapart⟩, hrest⟩ := hsplit
      have hhead : (if R start head.1 head.2 then 1 else 0) =
          (if S start head.1 head.2 then 1 else 0) + if T start head.1 head.2 then 1 else 0 := by
        by_cases hS : S start head.1 head.2
        · have hT : ¬ T start head.1 head.2 := fun hT => hapart ⟨hS, hT⟩
          rw [if_pos (hiff.mpr (Or.inl hS)), if_pos hS, if_neg hT]
        · by_cases hT : T start head.1 head.2
          · rw [if_pos (hiff.mpr (Or.inr hT)), if_neg hS, if_pos hT]
          · have hR : ¬ R start head.1 head.2 := fun hR => (hiff.mp hR).elim hS hT
            rw [if_neg hR, if_neg hS, if_neg hT]
      have htail := ih hrest
      simp only [steps]
      omega

theorem steps_congr (hiff : Along (fun start label next => R start label next ↔
    S start label next) start run) : steps R start run = steps S start run := by
  induction run generalizing start with
  | nil => rfl
  | cons head rest ih =>
      obtain ⟨hhead, hrest⟩ := hiff
      simp only [steps]
      rw [ih hrest, if_congr hhead rfl rfl]

end Steps

variable (P : State → Prop) [DecidablePred P]

/-- A step goes into the states of `P`. -/
def Enters (start : State) (_ : Label) (next : State) : Prop := ¬ P start ∧ P next

/-- A step goes out of the states of `P`. -/
def Leaves (start : State) (_ : Label) (next : State) : Prop := P start ∧ ¬ P next

instance (start : State) (label : Label) (next : State) :
    Decidable (Enters P start label next) := inferInstanceAs (Decidable (_ ∧ _))

instance (start : State) (label : Label) (next : State) :
    Decidable (Leaves P start label next) := inferInstanceAs (Decidable (_ ∧ _))

theorem enters_add_start (start : State) (run : List (Label × State)) :
    steps (Enters P) start run + (if P start then 1 else 0) =
      steps (Leaves P) start run + if P (final start run) then 1 else 0 := by
  induction run generalizing start with
  | nil => rfl
  | cons head rest ih =>
      have hrest := ih head.2
      have hend : final start (head :: rest) = final head.2 rest := rfl
      rw [hend]
      simp only [steps, Enters, Leaves] at hrest ⊢
      by_cases hstart : P start
      · by_cases hnext : P head.2
        · simp only [hstart, hnext, not_true_eq_false, and_true, and_false, if_true, if_false]
            at hrest ⊢
          omega
        · simp only [hstart, hnext, not_true_eq_false, not_false_eq_true, and_true, and_false,
            if_true, if_false] at hrest ⊢
          omega
      · by_cases hnext : P head.2
        · simp only [hstart, hnext, not_false_eq_true, and_true, false_and, if_true, if_false]
            at hrest ⊢
          omega
        · simp only [hstart, hnext, not_false_eq_true, and_false, false_and, if_false]
            at hrest ⊢
          omega

theorem enters_eq_leaves_succ {start : State} {run : List (Label × State)} (hstart : ¬ P start)
    (hfinal : P (final start run)) :
    steps (Enters P) start run = steps (Leaves P) start run + 1 := by
  have hbalance := enters_add_start P start run
  rw [if_neg hstart, if_pos hfinal] at hbalance
  exact hbalance

end EigenOS.Crossings
