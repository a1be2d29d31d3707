import Mathlib.Data.List.Basic

/-!
# Runs of a labelled transition relation

A run is the list of its labels, each with the state the step leads to.  A
property of a run is either a property of its steps (`Along`) or of the states
it passes through (`Always`).  The invariant rule below turns a fact about one
step, taken under a guard on the state before it, into a fact about every state
of a guarded run.
-/

namespace EigenOS.Transition

variable {State Label : Type*}

/-- `P` holds at every step of the run that starts in `start`. -/
def Along (P : State → Label → State → Prop) : State → List (Label × State) → Prop
  | _, [] => True
  | start, (label, next) :: rest => P start label next ∧ Along P next rest

/-- `P` holds in the first state and in every state the run reaches. -/
def Always (P : State → Prop) : State → List (Label × State) → Prop
  | start, [] => P start
  | start, (_, next) :: rest => P start ∧ Always P next rest

/-- The state a run ends in. -/
def final : State → List (Label × State) → State
  | start, [] => start
  | _, (_, next) :: rest => final next rest

instance decidableAlong (P : State → Label → State → Prop)
    [∀ start label next, Decidable (P start label next)] :
    ∀ (start : State) (run : List (Label × State)), Decidable (Along P start run)
  | _, [] => .isTrue trivial
  | start, (label, next) :: rest =>
      have := decidableAlong P next rest
      inferInstanceAs (Decidable (P start label next ∧ Along P next rest))

@[simp]
theorem along_cons (P : State → Label → State → Prop) (start next : State)
    (label : Label) (rest : List (Label × State)) :
    Along P start ((label, next) :: rest) ↔ P start label next ∧ Along P next rest :=
  Iff.rfl

@[simp]
theorem always_cons (P : State → Prop) (start next : State) (label : Label)
    (rest : List (Label × State)) :
    Always P start ((label, next) :: rest) ↔ P start ∧ Always P next rest :=
  Iff.rfl

variable {P : State → Prop} {run : List (Label × State)}
  {step guard Q : State → Label → State → Prop}

theorem Always.start {start : State} (hrun : Always P start run) : P start := by
  cases run with
  | nil => exact hrun
  | cons step rest => exact hrun.1

theorem Always.final {start : State} (hrun : Always P start run) : P (final start run) := by
  induction run generalizing start with
  | nil => exact hrun
  | cons step rest ih => exact ih hrun.2

theorem Always.mono {P Q : State → Prop} {start : State} (himp : ∀ state, P state → Q state)
    (hrun : Always P start run) : Always Q start run := by
  induction run generalizing start with
  | nil => exact himp start hrun
  | cons step rest ih => exact ⟨himp start hrun.1, ih hrun.2⟩

theorem Along.mono {P Q : State → Label → State → Prop} {start : State}
    (himp : ∀ state label next, P state label next → Q state label next) (hrun : Along P start run) :
    Along Q start run := by
  induction run generalizing start with
  | nil => trivial
  | cons step rest ih => exact ⟨himp start step.1 step.2 hrun.1, ih hrun.2⟩

theorem along_and {P Q : State → Label → State → Prop} {start : State} (hP : Along P start run)
    (hQ : Along Q start run) :
    Along (fun before label after => P before label after ∧ Q before label after) start run := by
  induction run generalizing start with
  | nil => trivial
  | cons step rest ih => exact ⟨⟨hP.1, hQ.1⟩, ih hP.2 hQ.2⟩

theorem final_append (start : State) (first rest : List (Label × State)) :
    final start (first ++ rest) = final (final start first) rest := by
  induction first generalizing start with
  | nil => rfl
  | cons head tail ih => exact ih head.2

theorem along_append {P : State → Label → State → Prop} {start : State}
    {first rest : List (Label × State)} (hrun : Along P start (first ++ rest)) :
    Along P (final start first) rest := by
  induction first generalizing start with
  | nil => exact hrun
  | cons head tail ih => exact ih hrun.2

/-- The invariant rule.  The guard of a step may look at the state before it. -/
theorem always_of_guarded (Inv : State → Prop) (hstep : ∀ state label next,
      Inv state → guard state label next → step state label next → Inv next) {start : State}
    (hstart : Inv start) (hrun : Along step start run) (hguard : Along guard start run) :
    Always Inv start run := by
  induction run generalizing start with
  | nil => exact hstart
  | cons head rest ih =>
      have hnext : Inv head.2 :=
        hstep start head.1 head.2 hstart hguard.1 hrun.1
      exact ⟨hstart, ih hnext hrun.2 hguard.2⟩

/-- A fact about one step taken from an invariant state holds along the whole
guarded run. -/
theorem along_of_guarded (Inv : State → Prop) (hstep : ∀ state label next,
      Inv state → guard state label next → step state label next →
        Inv next ∧ Q state label next) {start : State} (hstart : Inv start)
    (hrun : Along step start run) (hguard : Along guard start run) : Along Q start run := by
  induction run generalizing start with
  | nil => trivial
  | cons head rest ih =>
      obtain ⟨hnext, hQ⟩ := hstep start head.1 head.2 hstart hguard.1 hrun.1
      exact ⟨hQ, ih hnext hrun.2 hguard.2⟩

/-- Where a guard says of each step from a state with `P` exactly whether `P` holds after it, a
run meets the guard if and only if `P` holds always. -/
theorem always_iff_along (hstep : ∀ state label next, P state → step state label next →
      (P next ↔ guard state label next)) {start : State} (hstart : P start)
    (hrun : Along step start run) : Always P start run ↔ Along guard start run := by
  induction run generalizing start with
  | nil => exact ⟨fun _ => trivial, fun _ => hstart⟩
  | cons head rest ih =>
      have hhead := hstep start head.1 head.2 hstart hrun.1
      constructor
      · rintro ⟨_, hrest⟩
        exact ⟨hhead.mp hrest.start, (ih hrest.start hrun.2).mp hrest⟩
      · rintro ⟨hguard, hrest⟩
        have hnext := hhead.mpr hguard
        exact ⟨hstart, (ih hnext hrun.2).mpr hrest⟩

theorem always_congr {Inv P Q : State → Prop} (hiff : ∀ state, Inv state → (P state ↔ Q state))
    {start : State} (hinv : Always Inv start run) : Always P start run ↔ Always Q start run := by
  induction run generalizing start with
  | nil => exact hiff start hinv
  | cons head rest ih => exact and_congr (hiff start hinv.1) (ih hinv.2)

/-- Two properties of steps that agree under an invariant hold along the same runs. -/
theorem along_iff_of_invariant {step P Q : State → Label → State → Prop} (Inv : State → Prop)
    (hstep : ∀ state label next, Inv state → step state label next →
      Inv next ∧ (P state label next ↔ Q state label next)) {start : State} (hstart : Inv start)
    (hrun : Along step start run) : Along P start run ↔ Along Q start run := by
  induction run generalizing start with
  | nil => exact Iff.rfl
  | cons head rest ih =>
      obtain ⟨hnext, hiff⟩ := hstep start head.1 head.2 hstart hrun.1
      exact and_congr hiff (ih hnext hrun.2)

theorem always_of_invariant (Inv : State → Prop)
    (hstep : ∀ state label next, Inv state → step state label next → Inv next) {start : State}
    (hstart : Inv start) (hrun : Along step start run) : Always Inv start run :=
  always_of_guarded Inv (fun state label next h _ => hstep state label next h) hstart hrun hrun

/-! ## Runs where each step is determined -/

section Trace

variable (act : State → Label → State)

/-- The run of some labels. -/
def trace : State → List Label → List (Label × State)
  | _, [] => []
  | start, label :: rest => (label, act start label) :: trace (act start label) rest

theorem along_trace (start : State) (labels : List Label) :
    Along (fun before label after => after = act before label) start (trace act start labels) := by
  induction labels generalizing start with
  | nil => trivial
  | cons label rest ih => exact ⟨rfl, ih _⟩

theorem along_trace_of_enabled {enabled : State → Label → Prop} {start : State}
    {labels : List Label}
    (h : Along (fun before label _ => enabled before label) start (trace act start labels)) :
    Along (fun before label after => enabled before label ∧ after = act before label) start
      (trace act start labels) :=
  along_and h (along_trace act start labels)

theorem final_trace_append (start : State) (first second : List Label) :
    final start (trace act start (first ++ second)) =
      final (final start (trace act start first))
        (trace act (final start (trace act start first)) second) := by
  induction first generalizing start with
  | nil => rfl
  | cons label rest ih => exact ih (act start label)

/-- A run that leaves its guard once ends badly, where the step that leaves it does harm which
no later step repairs. -/
theorem final_of_not_along {Inv Harm : State → Prop} {guard : State → Label → Prop}
    (hkeep : ∀ state label, Inv state → guard state label → Inv (act state label))
    (hlose : ∀ state label, Inv state → ¬ guard state label → Harm (act state label))
    (hstay : ∀ state label, Harm state → Harm (act state label))
    {start : State} (hstart : Inv start) {labels : List Label}
    (hrun : ¬ Along (fun before label _ => guard before label) start (trace act start labels)) :
    Harm (final start (trace act start labels)) := by
  induction labels generalizing start with
  | nil => exact absurd trivial hrun
  | cons label rest ih =>
      by_cases hguard : guard start label
      · exact ih (hkeep start label hstart hguard) fun hrest => hrun ⟨hguard, hrest⟩
      · have hharm : ∀ (labels : List Label) (state : State), Harm state →
            Harm (final state (trace act state labels)) := by
          intro labels
          induction labels with
          | nil => exact fun _ h => h
          | cons label rest ih => exact fun state h => ih _ (hstay state label h)
        exact hharm rest _ (hlose start label hstart hguard)

/-- Where a guard says of each step exactly whether `Q` holds of it and `P` after it, a run
that meets the guard is one that has `Q` along it and `P` always. -/
theorem along_and_always_iff (hstep : ∀ state label, P state →
      (guard state label (act state label) ↔
        Q state label (act state label) ∧ P (act state label))) {start : State} (hstart : P start)
    (labels : List Label) :
    Along Q start (trace act start labels) ∧ Always P start (trace act start labels) ↔
      Along guard start (trace act start labels) := by
  induction labels generalizing start with
  | nil => exact ⟨fun _ => trivial, fun _ => ⟨trivial, hstart⟩⟩
  | cons label rest ih =>
      constructor
      · rintro ⟨⟨hQ, halong⟩, _, halways⟩
        exact ⟨(hstep start label hstart).mpr ⟨hQ, halways.start⟩,
          (ih halways.start).mp ⟨halong, halways⟩⟩
      · rintro ⟨hguard, hrest⟩
        obtain ⟨hQ, hnext⟩ := (hstep start label hstart).mp hguard
        obtain ⟨halong, halways⟩ := (ih hnext).mpr hrest
        exact ⟨⟨hQ, halong⟩, hstart, halways⟩

/-- Where a guard says of each step exactly whether `P` holds after it, a run meets the guard
if and only if `P` holds always. -/
theorem always_trace_iff (hstep : ∀ state label, P state →
      (P (act state label) ↔ guard state label (act state label))) {start : State}
    (hstart : P start) (labels : List Label) :
    Always P start (trace act start labels) ↔ Along guard start (trace act start labels) := by
  apply always_iff_along _ hstart (along_trace act start labels)
  rintro state label next hstate rfl
  exact hstep state label hstate

/-- Where an invariant is kept by the steps that meet a guard, and `Q` is lost by the others, `Q`
holds always if and only if a run meets the guard. -/
theorem always_trace_iff_of_kept {P Q : State → Prop} (hsub : ∀ state, P state → Q state)
    (hkeep : ∀ state label, P state → guard state label (act state label) → P (act state label))
    (hlose : ∀ state label, P state → ¬ guard state label (act state label) →
      ¬ Q (act state label)) {start : State} (hstart : P start) (labels : List Label) :
    Always Q start (trace act start labels) ↔ Along guard start (trace act start labels) := by
  induction labels generalizing start with
  | nil => exact ⟨fun _ => trivial, fun _ => hsub start hstart⟩
  | cons label rest ih =>
      by_cases hguard : guard start label (act start label)
      · have hrest := ih (hkeep start label hstart hguard)
        exact ⟨fun h => ⟨hguard, hrest.mp h.2⟩, fun h => ⟨hsub start hstart, hrest.mpr h.2⟩⟩
      · refine iff_of_false (fun h => hlose start label hstart hguard h.2.start) ?_
        exact fun h => hguard h.1

/-- The same for the run of some labels. -/
theorem along_trace_iff (hstep : ∀ state label, P state →
      (Q state label (act state label) ↔ guard state label (act state label)) ∧
        P (act state label)) {start : State} (hstart : P start) (labels : List Label) :
    Along Q start (trace act start labels) ↔ Along guard start (trace act start labels) := by
  apply along_iff_of_invariant P _ hstart (along_trace act start labels)
  rintro state label next hstate rfl
  obtain ⟨hiff, hnext⟩ := hstep state label hstate
  exact ⟨hnext, hiff⟩

end Trace

end EigenOS.Transition
