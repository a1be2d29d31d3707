import EigenOS.Pthread.LostWakeup

/-!
# Code that uses a mutex

A thread is at a place in the code, and the place says what the thread has to do with the mutex.
Whoever is at a place within the mutex holds it, whatever the functions of the mutex do.
-/

namespace EigenOS.Pthread

open Function

/-- What a thread has to do with the mutex. -/
inductive MutexUse where
  | without
  | locking
  | within
  | unlocking
  | trying

/-- Where a thread is in the functions of the mutex, and whether it holds it. -/
def Linked : MutexUse → Pc → Bool → Prop
  | .without, pc, holds => pc = .outside ∧ holds = false
  | .locking, pc, holds => match pc with
      | .outside => holds = true
      | .lockExchange | .lockStore | .lockWait | .asleep => holds = false
      | _ => False
  | .within, pc, holds => pc = .outside ∧ holds = true
  | .unlocking, pc, holds => match pc with
      | .unlockStore => holds = true
      | .unlockExchange | .unlockWake | .outside => holds = false
      | _ => False
  | .trying, _, _ => False

theorem Linked.locking {use : MutexUse} {pc : Pc} {holds : Bool} (h : Linked use pc holds)
    (hpc : pc = .lockExchange ∨ pc = .lockStore ∨ pc = .lockWait ∨ pc = .asleep) :
    use = .locking ∧ holds = false := by
  rcases hpc with rfl | rfl | rfl | rfl
  all_goals
    cases use with
    | locking => exact ⟨rfl, h⟩
    | without | within => exact nomatch h.1
    | unlocking | trying => exact h.elim

theorem Linked.unlocking {use : MutexUse} {pc : Pc} {holds : Bool} (h : Linked use pc holds)
    (hpc : pc = .unlockStore ∨ pc = .unlockExchange ∨ pc = .unlockWake) :
    use = .unlocking ∧ (holds = true ↔ pc = .unlockStore) := by
  rcases hpc with rfl | rfl | rfl
  all_goals
    cases use with
    | unlocking => exact ⟨rfl, by rw [show holds = _ from h]; decide⟩
    | without | within => exact nomatch h.1
    | locking | trying => exact h.elim

variable {Thread Place : Type*} {use : Place → MutexUse} {m : MutexState Thread}
  {place : Thread → Place} {t u : Thread} {p : Place}

structure Disciplined (use : Place → MutexUse) (m : MutexState Thread) (place : Thread → Place) :
    Prop where
  held : Held m
  taken : m.locked ≠ 0 → ∃ t, m.holds t = true
  linked : ∀ t, Linked (use (place t)) (m.pc t) (m.holds t)

theorem pc_step_of_ne [DecidableEq Thread] (m : MutexState Thread) (hne : u ≠ t) :
    (m.step t).pc u = m.pc u := by
  rw [MutexState.step]
  cases m.pc t with
  | outside | asleep | unlockWake => rfl
  | lockStore | unlockStore => exact update_of_ne hne _ _
  | lockExchange =>
    dsimp only
    rw [MutexState.lockExchange]
    split_ifs
    · exact update_of_ne hne _ _
    · exact update_of_ne hne _ _
  | lockWait =>
    dsimp only
    rw [MutexState.futexWait]
    split_ifs
    · exact update_of_ne hne _ _
    · exact update_of_ne hne _ _
  | trylockExchange =>
    dsimp only
    rw [MutexState.trylockExchange]
    split_ifs
    · exact update_of_ne hne _ _
    · exact update_of_ne hne _ _
  | unlockExchange =>
    dsimp only
    rw [MutexState.unlockExchange]
    exact update_of_ne hne _ _

namespace Disciplined

theorem initial (hwithout : ∀ t, use (place t) = .without) :
    Disciplined use (MutexState.initial Thread) place where
  held := held_initial
  taken h := absurd rfl h
  linked t := by
    rw [hwithout t]
    exact ⟨rfl, rfl⟩

/-- The mutex is held by a thread outside its functions that locks it, or is within it. -/
theorem holds (h : Disciplined use m place) (houtside : m.pc t = .outside)
    (huse : use (place t) = .locking ∨ use (place t) = .within) : m.holds t = true := by
  have hlinked := h.linked t
  rw [houtside] at hlinked
  rcases huse with huse | huse
  · rw [huse] at hlinked
    exact hlinked
  · rw [huse] at hlinked
    exact hlinked.2

/-- Nor is it held by a thread outside its functions that has unlocked it, or is without it. -/
theorem not_holds (h : Disciplined use m place) (houtside : m.pc t = .outside)
    (huse : use (place t) = .unlocking ∨ use (place t) = .without) : m.holds t = false := by
  have hlinked := h.linked t
  rw [houtside] at hlinked
  rcases huse with huse | huse
  · rw [huse] at hlinked
    exact hlinked
  · rw [huse] at hlinked
    exact hlinked.2

theorem within_holds (h : Disciplined use m place) (huse : use (place t) = .within) :
    m.pc t = .outside ∧ m.holds t = true := by
  have hlinked := h.linked t
  rw [huse] at hlinked
  exact hlinked

theorem without_holds (h : Disciplined use m place) (huse : use (place t) = .without) :
    m.pc t = .outside ∧ m.holds t = false := by
  have hlinked := h.linked t
  rw [huse] at hlinked
  exact hlinked

theorem exclusive (h : Disciplined use m place) (ht : use (place t) = .within)
    (hu : use (place u) = .within) : t = u :=
  h.held.unique t u (h.within_holds ht).2 (h.within_holds hu).2

theorem free (h : Disciplined use m place) (hwithout : ∀ t, use (place t) = .without) :
    m.locked = 0 := by
  by_contra hlocked
  obtain ⟨t, ht⟩ := h.taken hlocked
  exact nomatch ht.symm.trans (h.without_holds (hwithout t)).2

theorem congr (h : Disciplined use m place) {place' : Thread → Place}
    (huse : ∀ t, use (place' t) = use (place t)) : Disciplined use m place' where
  held := h.held
  taken := h.taken
  linked t := by
    rw [huse t]
    exact h.linked t

section Moves

variable [DecidableEq Thread]

theorem move (h : Disciplined use m place) (pc : Pc)
    (hstore : pc = .unlockStore → m.holds t = true) (hlinked : Linked (use p) pc (m.holds t)) :
    Disciplined use (m.goTo t pc) (update place t p) where
  held := h.held.goTo hstore
  taken := h.taken
  linked := by
    intro u
    by_cases heq : u = t
    · rw [heq, update_self, pc_goTo_self]
      exact hlinked
    · rw [update_of_ne heq, pc_goTo_of_ne _ _ heq]
      exact h.linked u

theorem lock (h : Disciplined use m place) (hholds : m.holds t = false)
    (huse : use p = .locking) :
    Disciplined use (m.goTo t .lockExchange) (update place t p) := by
  apply h.move .lockExchange nofun
  rw [huse]
  exact hholds

theorem unlock (h : Disciplined use m place) (hholds : m.holds t = true)
    (huse : use p = .unlocking) :
    Disciplined use (m.goTo t .unlockStore) (update place t p) := by
  apply h.move .unlockStore fun _ => hholds
  rw [huse]
  exact hholds

theorem goTo (h : Disciplined use m place) (houtside : m.pc t = .outside)
    (hlinked : Linked (use p) .outside (m.holds t)) :
    Disciplined use m (update place t p) := by
  have hmoved := h.move .outside nofun hlinked
  rwa [MutexState.goTo, ← houtside, update_eq_self] at hmoved

theorem within (h : Disciplined use m place) (houtside : m.pc t = .outside)
    (hbefore : use (place t) = .locking ∨ use (place t) = .within) (huse : use p = .within) :
    Disciplined use m (update place t p) := by
  apply h.goTo houtside
  rw [huse]
  exact ⟨rfl, h.holds houtside hbefore⟩

theorem without (h : Disciplined use m place) (houtside : m.pc t = .outside)
    (hbefore : use (place t) = .unlocking ∨ use (place t) = .without)
    (huse : use p = .without) : Disciplined use m (update place t p) := by
  apply h.goTo houtside
  rw [huse]
  exact ⟨rfl, h.not_holds houtside hbefore⟩

/-! ## Steps of the mutex -/

theorem mutexGoTo (h : Disciplined use m place) (pc : Pc) (hstore : pc ≠ .unlockStore)
    {kind : MutexUse} (huse : use (place t) = kind) (hlinked : Linked kind pc (m.holds t)) :
    Disciplined use (m.goTo t pc) place := by
  rw [← huse] at hlinked
  have hmoved := h.move pc (fun heq => absurd heq hstore) hlinked
  rwa [update_eq_self] at hmoved

omit [DecidableEq Thread] in
theorem words (h : Disciplined use m place) {locked : ℕ} (waiters : ℕ)
    (hlocked : m.locked ≠ 0 ↔ locked ≠ 0) :
    Disciplined use { m with locked := locked, waiters := waiters } place where
  held := h.held.words waiters hlocked.mp
  taken hne := h.taken (hlocked.mpr hne)
  linked := h.linked

theorem setHolds (h : Disciplined use m place) {locked : ℕ} {holds : Bool} {pc : Pc}
    (hheld : Held ({ m with
      locked := locked, holds := update m.holds t holds }.goTo t pc))
    (htaken : locked ≠ 0 → holds = true) (hlinked : Linked (use (place t)) pc holds) :
    Disciplined use ({ m with
      locked := locked, holds := update m.holds t holds }.goTo t pc) place where
  held := hheld
  taken hne := ⟨t, (update_self ..).trans (htaken hne)⟩
  linked := by
    intro u
    by_cases heq : u = t
    · rw [heq]
      dsimp only [MutexState.goTo]
      rw [update_self, update_self]
      exact hlinked
    · dsimp only [MutexState.goTo]
      rw [update_of_ne heq, update_of_ne heq]
      exact h.linked u

theorem step (h : Disciplined use m place) (t : Thread) : Disciplined use (m.step t) place := by
  have hlinked := h.linked t
  have hset : m.locked ≠ 0 → (m.locked ≠ 0 ↔ 1 ≠ 0) :=
    fun hne => iff_of_true hne Nat.one_ne_zero
  rw [MutexState.step]
  cases hpc : m.pc t with
  | outside | asleep | unlockWake =>
    exact h
  | trylockExchange =>
    rw [hpc] at hlinked
    cases huse : use (place t) with
    | without | within =>
      rw [huse] at hlinked
      exact nomatch hlinked.1
    | locking | unlocking | trying =>
      rw [huse] at hlinked
      exact hlinked.elim
  | lockExchange =>
    rw [hpc] at hlinked
    obtain ⟨huse, hholds⟩ := hlinked.locking (.inl rfl)
    dsimp only
    rw [MutexState.lockExchange]
    by_cases hfree : m.locked = 0
    · rw [if_pos hfree]
      apply h.setHolds (h.held.acquire hfree t) (fun _ => rfl)
      rw [huse]
      exact rfl
    · rw [if_neg hfree]
      exact (h.words m.waiters (hset hfree)).mutexGoTo .lockStore nofun huse hholds
  | lockStore =>
    rw [hpc] at hlinked
    obtain ⟨huse, hholds⟩ := hlinked.locking (.inr (.inl rfl))
    exact (h.words 1 Iff.rfl).mutexGoTo .lockWait nofun huse hholds
  | lockWait =>
    rw [hpc] at hlinked
    obtain ⟨huse, hholds⟩ := hlinked.locking (.inr (.inr (.inl rfl)))
    dsimp only
    rw [MutexState.futexWait]
    split_ifs
    · exact h.mutexGoTo .asleep nofun huse hholds
    · exact h.mutexGoTo .lockExchange nofun huse hholds
  | unlockStore =>
    rw [hpc] at hlinked
    obtain ⟨huse, hholds⟩ := hlinked.unlocking (.inl rfl)
    apply h.setHolds (h.held.release (hholds.mpr rfl)) (absurd rfl)
    rw [huse]
    exact rfl
  | unlockExchange =>
    rw [hpc] at hlinked
    obtain ⟨huse, hholds⟩ := hlinked.unlocking (.inr (.inl rfl))
    have hnot : m.holds t = false := by
      rw [Bool.eq_false_iff]
      exact fun htrue => nomatch hholds.mp htrue
    dsimp only
    rw [MutexState.unlockExchange]
    split_ifs
    · exact (h.words 0 Iff.rfl).mutexGoTo .unlockWake nofun huse hnot
    · exact (h.words 0 Iff.rfl).mutexGoTo .outside nofun huse hnot

theorem wake (h : Disciplined use m place) {woken : Option Thread}
    (henabled : (MutexAction.wake t woken).Enabled m) :
    Disciplined use ((MutexAction.wake t woken).run m) place := by
  have hback : ∀ {m : MutexState Thread}, Disciplined use m place → m.pc t = .unlockWake →
      Disciplined use (m.goTo t .outside) place := by
    intro m h hpc
    have hlinked := h.linked t
    rw [hpc] at hlinked
    obtain ⟨huse, hholds⟩ := hlinked.unlocking (.inr (.inr rfl))
    have hnot := Bool.eq_false_iff.mpr fun htrue => nomatch hholds.mp htrue
    exact h.mutexGoTo .outside nofun huse hnot
  cases woken with
  | none => exact hback h henabled.1
  | some u =>
    obtain ⟨hpc, hasleep⟩ := henabled
    have hlinked := h.linked u
    rw [hasleep] at hlinked
    obtain ⟨huse, hholds⟩ := hlinked.locking (.inr (.inr (.inr rfl)))
    have hwoken := h.mutexGoTo .lockExchange nofun huse hholds
    have hne : t ≠ u := by
      intro heq
      rw [heq, hasleep] at hpc
      exact nomatch hpc
    exact hback hwoken ((pc_goTo_of_ne m .lockExchange hne).trans hpc)

end Moves

end Disciplined

instance (s : MutexState Bool) : DecidablePred (MutexAction.Enabled s)
  | .lock _ | .trylock _ => inferInstanceAs (Decidable (_ = _))
  | .unlock _ => inferInstanceAs (Decidable (_ ∧ _))
  | .step _ => inferInstanceAs (Decidable (_ ∧ _ ∧ _))
  | .wake _ none => inferInstanceAs (Decidable (_ ∧ ∀ _ : Bool, _))
  | .wake _ (some _) => inferInstanceAs (Decidable (_ ∧ _))

end EigenOS.Pthread
