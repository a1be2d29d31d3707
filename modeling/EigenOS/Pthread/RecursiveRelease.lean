import EigenOS.Library.Transition
import EigenOS.Pthread.RecursiveMutex

/-!
# Who releases a recursive mutex

The owner and the depth are the holder's alone: no other thread writes them, and what another
thread reads of them only tells it that it is not the owner.  But its unlock goes on to clear the
lock word.
-/

namespace EigenOS.Pthread

open EigenOS.Transition Function

variable {Thread : Type*}

/-- What the holder finds in the owner and the depth at a place, with so many locks that it has
not undone. -/
def HoldsAt (t : Thread) (owner : Option Thread) (recursion : ℤ) (held : ℕ) : RecursivePc → Prop
  | .outside | .lockOwner _ | .nestRead => owner = some t ∧ 0 < held ∧ recursion = held
  | .nestWrite read => owner = some t ∧ 0 < held ∧ recursion = held ∧ read = held
  | .setOwner => owner = none ∧ held = 0
  | .setRecursion => owner = some t ∧ held = 0
  | .unlockOwner | .unnestRead => owner = some t ∧ recursion = held + 1
  | .unnestWrite read => owner = some t ∧ read = held + 1
  | .recursionTest => owner = some t ∧ recursion = held
  | .clearOwner => owner = some t ∧ held = 0
  | .clearLocked true => owner = none ∧ held = 0
  | _ => False

/-- Where a thread that does not hold the mutex can be. -/
def WaitsAt : RecursivePc → Prop
  | .outside | .lockOwner _ | .exchange _ | .setWaiters | .futexWait | .asleep | .unlockOwner
  | .clearLocked false | .waitersExchange | .futexWake => True
  | _ => False

/-- The lock word and the owner tell of the holder, and each thread is where it can be. -/
structure OwnedByHolder (s : RecursiveState Thread) : Prop where
  locked : s.locked = true ↔ s.holder ≠ none
  owner : s.holder = none → s.owner = none
  holds : ∀ t, s.holder = some t → HoldsAt t s.owner s.recursion (s.held t) (s.pc t)
  waits : ∀ t, s.holder ≠ some t → WaitsAt (s.pc t) ∧ s.held t = 0
  bound : ∀ t, s.held t < 2 ^ 31

theorem ownedByHolder_initial : OwnedByHolder (RecursiveState.initial Thread) where
  locked := ⟨nofun, fun h => absurd rfl h⟩
  owner _ := rfl
  holds _ h := nomatch h
  waits _ _ := ⟨trivial, rfl⟩
  bound _ := Nat.two_pow_pos 31

theorem OwnedByHolder.holder_of_owner {s : RecursiveState Thread} (h : OwnedByHolder s)
    {t : Thread} (howner : s.owner = some t) : s.holder = some t := by
  cases hholder : s.holder with
  | none => exact nomatch howner.symm.trans (h.owner hholder)
  | some u =>
    have hu := h.holds u hholder
    have hsame : s.owner = some u ∨ s.owner = none := by
      cases hpc : s.pc u with
      | outside | lockOwner | nestRead | nestWrite | setRecursion | unlockOwner | unnestRead
      | unnestWrite | recursionTest | clearOwner =>
        rw [hpc] at hu
        exact .inl hu.1
      | setOwner =>
        rw [hpc] at hu
        exact .inr hu.1
      | clearLocked owner =>
        rw [hpc] at hu
        cases owner with
        | true => exact .inr hu.1
        | false => exact hu.elim
      | _ =>
        rw [hpc] at hu
        exact hu.elim
    rcases hsame with hsame | hsame
    · rw [← howner, hsame]
    · exact nomatch howner.symm.trans hsame

variable {next : RecursiveState Thread} {action : RecursiveAction Thread}

section Steps

variable [DecidableEq Thread] {s : RecursiveState Thread} {t : Thread}

theorem OwnedByHolder.move_holder (h : OwnedByHolder s) (hholder : s.holder = some t)
    {owner : Option Thread} {recursion : ℤ} {held : ℕ} {pc : RecursivePc} (hbound : held < 2 ^ 31)
    (hholds : HoldsAt t owner recursion held pc) :
    OwnedByHolder { s with
      owner := owner
      recursion := recursion
      held := update s.held t held
      pc := update s.pc t pc } where
  locked := h.locked
  owner hnone := nomatch hholder.symm.trans hnone
  holds := by
    intro u hu
    have heq : u = t := Option.some.inj (hu.symm.trans hholder)
    subst heq
    dsimp only
    rw [update_self, update_self]
    exact hholds
  waits := by
    intro u hu
    have hne : u ≠ t := fun heq => hu (heq ▸ hholder)
    dsimp only
    rw [update_of_ne hne, update_of_ne hne]
    exact h.waits u hu
  bound := by
    intro u
    by_cases heq : u = t
    · rw [heq]
      dsimp only
      rw [update_self]
      exact hbound
    · dsimp only
      rw [update_of_ne heq]
      exact h.bound u

theorem OwnedByHolder.move_other (h : OwnedByHolder s) (hholder : s.holder ≠ some t)
    {pc : RecursivePc} (waiters : Bool) (hwaits : WaitsAt pc) :
    OwnedByHolder { s with waiters := waiters, pc := update s.pc t pc } where
  locked := h.locked
  owner := h.owner
  holds := by
    intro u hu
    have hne : u ≠ t := fun heq => hholder (heq ▸ hu)
    dsimp only
    rw [update_of_ne hne]
    exact h.holds u hu
  waits := by
    intro u hu
    refine ⟨?_, (h.waits u hu).2⟩
    by_cases heq : u = t
    · rw [heq]
      dsimp only
      rw [update_self]
      exact hwaits
    · dsimp only
      rw [update_of_ne heq]
      exact (h.waits u hu).1
  bound := h.bound

theorem OwnedByHolder.take (h : OwnedByHolder s) (hfree : s.locked = false) :
    OwnedByHolder ({ s with locked := true, holder := some t }.goTo t .setOwner) := by
  have hnone : s.holder = none := by
    by_contra hsome
    exact nomatch hfree.symm.trans (h.locked.mpr hsome)
  have hwaits : ∀ u, s.holder ≠ some u := by
    intro u hu
    exact nomatch hnone.symm.trans hu
  constructor
  · exact ⟨fun _ => nofun, fun _ => rfl⟩
  · exact nofun
  · intro u hu
    rw [← Option.some.inj hu]
    dsimp only [RecursiveState.goTo]
    rw [update_self]
    exact ⟨h.owner hnone, (h.waits t (hwaits t)).2⟩
  · intro u hu
    have hne : u ≠ t := fun heq => hu (congrArg some heq.symm)
    dsimp only [RecursiveState.goTo]
    rw [update_of_ne hne]
    exact h.waits u (hwaits u)
  · exact h.bound

theorem OwnedByHolder.release (h : OwnedByHolder s) (hholder : s.holder = some t)
    (hpc : s.pc t = .clearLocked true) :
    OwnedByHolder ({ s with locked := false, holder := none }.goTo t .waitersExchange) := by
  have hholds := h.holds t hholder
  rw [hpc] at hholds
  constructor
  · exact ⟨nofun, fun hsome => absurd rfl hsome⟩
  · exact fun _ => hholds.1
  · exact nofun
  · intro u _
    by_cases heq : u = t
    · rw [heq]
      dsimp only [RecursiveState.goTo]
      rw [update_self]
      exact ⟨trivial, hholds.2⟩
    · dsimp only [RecursiveState.goTo]
      rw [update_of_ne heq]
      exact h.waits u fun hu => heq (Option.some.inj (hu.symm.trans hholder))
  · exact h.bound

/-- No unlock of a thread that is not the owner comes to clear the lock word while it is set, and
no thread nests more locks than an `int` counts. -/
def ByOwners (s : RecursiveState Thread) : RecursiveAction Thread → RecursiveState Thread → Prop
  | .step t, _ =>
      match s.pc t with
      | .clearLocked false => s.locked = false
      | .nestWrite _ => s.held t + 1 < 2 ^ 31
      | _ => True
  | _, _ => True

omit [DecidableEq Thread] in
theorem ByOwners.free (h : ByOwners s (.step t) next) (hpc : s.pc t = .clearLocked false) :
    s.locked = false := by
  rw [ByOwners, hpc] at h
  exact h

omit [DecidableEq Thread] in
theorem ByOwners.nests {recursion : ℤ} (h : ByOwners s (.step t) next)
    (hpc : s.pc t = .nestWrite recursion) : s.held t + 1 < 2 ^ 31 := by
  rw [ByOwners, hpc] at h
  exact h

/-! ## A step of the holder -/

theorem OwnedByHolder.step_holder (h : OwnedByHolder s) (hholder : s.holder = some t)
    (hguard : ByOwners s (.step t) (s.step t)) : OwnedByHolder (s.step t) := by
  have hholds := h.holds t hholder
  have hbound := h.bound t
  -- Only the place changes, or the owner and the depth beside it.
  have hmove : ∀ {owner recursion pc}, HoldsAt t owner recursion (s.held t) pc →
      OwnedByHolder { s with
        owner := owner, recursion := recursion, pc := update s.pc t pc } := by
    intro owner recursion pc hpc
    have hmoved := h.move_holder hholder hbound hpc
    rwa [update_eq_self] at hmoved
  rw [RecursiveState.step]
  cases hpc : s.pc t with
  | outside =>
    exact h
  | lockOwner trylock | unlockOwner =>
    rw [hpc] at hholds
    dsimp only
    rw [if_pos hholds.1]
    exact hmove hholds
  | nestRead =>
    rw [hpc] at hholds
    exact hmove ⟨hholds.1, hholds.2.1, hholds.2.2, hholds.2.2⟩
  | nestWrite read =>
    have hnest := hguard.nests hpc
    rw [hpc] at hholds
    obtain ⟨howner, _, _, hread⟩ := hholds
    apply h.move_holder hholder hnest
    refine ⟨howner, Nat.succ_pos _, ?_⟩
    rw [wrapInt_eq (by omega) (by omega), hread]
    rfl
  | setOwner | clearOwner =>
    rw [hpc] at hholds
    exact hmove ⟨rfl, hholds.2⟩
  | setRecursion =>
    rw [hpc] at hholds
    apply h.move_holder hholder
    · rw [hholds.2]
      decide
    · refine ⟨hholds.1, Nat.succ_pos _, ?_⟩
      rw [hholds.2]
      rfl
  | unnestRead =>
    rw [hpc] at hholds
    exact hmove hholds
  | unnestWrite read =>
    rw [hpc] at hholds
    obtain ⟨howner, hread⟩ := hholds
    have hstored : wrapInt (read - 1) = s.held t := by
      rw [wrapInt_eq (by omega) (by omega)]
      omega
    exact hmove ⟨howner, hstored⟩
  | recursionTest =>
    rw [hpc] at hholds
    obtain ⟨howner, hrecursion⟩ := hholds
    dsimp only
    by_cases hpos : 0 < s.recursion
    · rw [if_pos hpos]
      exact hmove ⟨howner, by omega, hrecursion⟩
    · rw [if_neg hpos]
      exact hmove ⟨howner, by omega⟩
  | clearLocked owner =>
    cases owner with
    | true =>
      exact h.release hholder hpc
    | false =>
      rw [hpc] at hholds
      exact hholds.elim
  | _ =>
    rw [hpc] at hholds
    exact hholds.elim

/-! ## A step of another thread -/

theorem OwnedByHolder.step_other (h : OwnedByHolder s) (hholder : s.holder ≠ some t)
    (hguard : ByOwners s (.step t) (s.step t)) : OwnedByHolder (s.step t) := by
  have hwaits := (h.waits t hholder).1
  have howner : s.owner ≠ some t := fun howner => hholder (h.holder_of_owner howner)
  rw [RecursiveState.step]
  cases hpc : s.pc t with
  | outside | asleep | futexWake =>
    exact h
  | lockOwner trylock | unlockOwner =>
    dsimp only
    rw [if_neg howner]
    exact h.move_other hholder _ trivial
  | exchange trylock =>
    dsimp only
    by_cases hfree : s.locked = false
    · rw [if_pos hfree]
      exact h.take hfree
    · rw [if_neg hfree]
      split_ifs
      · exact h.move_other hholder _ trivial
      · exact h.move_other hholder _ trivial
  | setWaiters =>
    exact h.move_other hholder _ trivial
  | futexWait | waitersExchange =>
    dsimp only
    split_ifs
    · exact h.move_other hholder _ trivial
    · exact h.move_other hholder _ trivial
  | clearLocked owner =>
    cases owner with
    | true =>
      rw [hpc] at hwaits
      exact hwaits.elim
    | false =>
      have hfree := hguard.free hpc
      dsimp only
      rw [← hfree]
      exact h.move_other hholder _ trivial
  | _ =>
    rw [hpc] at hwaits
    exact hwaits.elim

/-! ## Releases -/

omit [DecidableEq Thread] in
theorem ReleasesRightly.of_unchanged (howner : next.owner = s.owner)
    (hrecursion : next.recursion = s.recursion) (hlocked : next.locked = s.locked) :
    ReleasesRightly s action next where
  released hset hclear := nomatch hset.symm.trans (hlocked.symm.trans hclear)
  foreign _ := ⟨howner, hrecursion, hlocked⟩

omit [DecidableEq Thread] in
theorem ReleasesRightly.of_not_foreign (hpc : ¬ (s.pc action.actor).Foreign)
    (hlocked : s.locked = true → next.locked = true) : ReleasesRightly s action next where
  released hset hclear := nomatch (hlocked hset).symm.trans hclear
  foreign hforeign := absurd hforeign hpc

theorem OwnedByHolder.releasesRightly_step (h : OwnedByHolder s)
    (hguard : ByOwners s (.step t) (s.step t)) : ReleasesRightly s (.step t) (s.step t) := by
  have hnot : ∀ {pc}, s.pc t = pc → ¬ pc.Foreign →
      ¬ (s.pc (RecursiveAction.step t).actor).Foreign := by
    intro pc hpc hforeign
    rw [← hpc] at hforeign
    exact hforeign
  cases hpc : s.pc t with
  | clearLocked owner =>
    cases owner with
    | true =>
      constructor
      · intro _ _
        have hholder : s.holder = some t := by
          by_contra hne
          have hwaits := (h.waits t hne).1
          rw [hpc] at hwaits
          exact hwaits
        have hholds := h.holds t hholder
        rw [hpc] at hholds
        exact ⟨hholder, hholds.2⟩
      · intro hforeign
        exact absurd hforeign (hnot hpc id)
    | false =>
      have hfree := hguard.free hpc
      rw [RecursiveState.step, hpc]
      exact .of_unchanged rfl rfl hfree.symm
  | exchange trylock =>
    apply ReleasesRightly.of_not_foreign (hnot hpc id)
    intro hset
    rw [RecursiveState.step, hpc]
    dsimp only
    rw [if_neg (by rw [hset]; decide)]
    split_ifs <;> exact hset
  | nestWrite | unnestWrite | setOwner | setRecursion | clearOwner =>
    apply ReleasesRightly.of_not_foreign (hnot hpc id)
    intro hset
    rw [RecursiveState.step, hpc]
    exact hset
  | lockOwner | unlockOwner | futexWait | recursionTest | waitersExchange =>
    rw [RecursiveState.step, hpc]
    dsimp only
    split_ifs <;> exact .of_unchanged rfl rfl rfl
  | _ =>
    rw [RecursiveState.step, hpc]
    exact .of_unchanged rfl rfl rfl

theorem OwnedByHolder.run (h : OwnedByHolder s) (hguard : ByOwners s action next)
    (hstep : RecursiveStep s action next) : OwnedByHolder next ∧ ReleasesRightly s action next := by
  obtain ⟨henabled, rfl⟩ := hstep
  -- A thread that is outside stays the holder, or another, when it calls an operation.
  have hcall : ∀ {t pc}, s.pc t = .outside → WaitsAt pc →
      (∀ owner recursion, HoldsAt t owner recursion (s.held t) .outside →
        HoldsAt t owner recursion (s.held t) pc) → OwnedByHolder (s.goTo t pc) := by
    intro t pc houtside hwaits hholds
    by_cases hholder : s.holder = some t
    · have hmoved := h.move_holder hholder (h.bound t)
        (hholds _ _ (houtside ▸ h.holds t hholder))
      rwa [update_eq_self] at hmoved
    · exact h.move_other hholder _ hwaits
  cases action with
  | lock t | trylock t =>
    exact ⟨hcall henabled trivial fun _ _ => id, .of_unchanged rfl rfl rfl⟩
  | unlock t =>
    refine ⟨?_, .of_unchanged rfl rfl rfl⟩
    by_cases hholder : s.holder = some t
    · obtain ⟨howner, hpos, hrecursion⟩ : HoldsAt t s.owner s.recursion (s.held t) .outside :=
        henabled ▸ h.holds t hholder
      have hbound := h.bound t
      have hbefore : s.recursion = ((s.held t - 1 : ℕ) : ℤ) + 1 := by omega
      exact h.move_holder hholder (by omega) ⟨howner, hbefore⟩
    · have hheld : s.held t - 1 = s.held t := by
        rw [(h.waits t hholder).2]
      dsimp only [RecursiveAction.run]
      rw [hheld, update_eq_self]
      exact h.move_other hholder _ trivial
  | step t =>
    refine ⟨?_, h.releasesRightly_step hguard⟩
    by_cases hholder : s.holder = some t
    · exact h.step_holder hholder hguard
    · exact h.step_other hholder hguard
  | wake t woken =>
    have hother : ∀ {u pc}, s.pc u = pc → (∀ owner recursion held,
        ¬ HoldsAt u owner recursion held pc) → s.holder ≠ some u := by
      intro u pc hpc hnot hholder
      exact hnot _ _ _ (hpc ▸ h.holds u hholder)
    cases woken with
    | none =>
      have ht := hother henabled.1 fun _ _ _ => id
      exact ⟨h.move_other ht _ trivial, .of_unchanged rfl rfl rfl⟩
    | some u =>
      have ht := hother henabled.1 fun _ _ _ => id
      have hu := hother henabled.2 fun _ _ _ => id
      have hwoken : OwnedByHolder (s.goTo u (.exchange false)) := h.move_other hu _ trivial
      exact ⟨hwoken.move_other ht _ trivial, .of_unchanged rfl rfl rfl⟩

/-- In a run where only owners come to clear the lock word while it is set, the mutex is released
rightly at every step. -/
theorem along_releasesRightly {run : List (RecursiveAction Thread × RecursiveState Thread)}
    (hrun : Along RecursiveStep (RecursiveState.initial Thread) run)
    (hguard : Along ByOwners (RecursiveState.initial Thread) run) :
    Along ReleasesRightly (RecursiveState.initial Thread) run :=
  along_of_guarded OwnedByHolder (fun _ _ _ h hguard hstep => h.run hguard hstep)
    ownedByHolder_initial hrun hguard

end Steps

/-- The run that a list of actions of two threads makes. -/
def recursiveTrace (actions : List (RecursiveAction Bool)) :
    List (RecursiveAction Bool × RecursiveState Bool) :=
  trace (fun s action => action.run s) (RecursiveState.initial Bool) actions

/-- A thread locks the mutex twice and unlocks it twice, and another one locks it. -/
def nestedActions : List (RecursiveAction Bool) :=
  [.lock true, .step true, .step true, .step true, .step true, .lock true, .step true, .step true,
    .step true, .unlock true, .step true, .step true, .step true, .step true, .unlock true,
    .step true, .step true, .step true, .step true, .step true, .step true, .step true,
    .lock false, .step false, .step false, .step false, .step false]

instance (s : RecursiveState Bool) : DecidablePred (RecursiveAction.Enabled s)
  | .lock _ | .trylock _ | .unlock _ => inferInstanceAs (Decidable (_ = _))
  | .step _ => inferInstanceAs (Decidable (_ ∧ _ ∧ _))
  | .wake _ none => inferInstanceAs (Decidable (_ ∧ ∀ _ : Bool, _))
  | .wake _ (some _) => inferInstanceAs (Decidable (_ ∧ _))

theorem recursiveTrace_run {actions : List (RecursiveAction Bool)}
    (h : Along (fun s action _ => action.Enabled s) (RecursiveState.initial Bool)
      (recursiveTrace actions)) :
    Along RecursiveStep (RecursiveState.initial Bool) (recursiveTrace actions) :=
  along_trace_of_enabled _ h

theorem along_releasesRightly_nested :
    Along ReleasesRightly (RecursiveState.initial Bool) (recursiveTrace nestedActions) :=
  along_releasesRightly (recursiveTrace_run (by decide +kernel))
    ⟨trivial, trivial, trivial, trivial, trivial, trivial, trivial, trivial,
      (by decide : 1 + 1 < 2 ^ 31), trivial, trivial, trivial, trivial, trivial, trivial, trivial,
      trivial, trivial, trivial, trivial, trivial, trivial, trivial, trivial, trivial, trivial,
      trivial, trivial⟩

/-- A thread unlocks a mutex that another holds. -/
theorem not_along_releasesRightly :
    ∃ run, Along RecursiveStep (RecursiveState.initial Bool) run ∧
      ¬ Along ReleasesRightly (RecursiveState.initial Bool) run := by
  refine ⟨recursiveTrace [.lock true, .step true, .step true, .step true, .step true, .unlock false,
    .step false, .step false], recursiveTrace_run (by decide +kernel), ?_⟩
  rintro ⟨_, _, _, _, _, _, _, hlast, _⟩
  exact nomatch (hlast.released (by decide +kernel) (by decide +kernel)).1

end EigenOS.Pthread
