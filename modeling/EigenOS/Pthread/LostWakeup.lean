import EigenOS.Library.Transition
import EigenOS.Pthread.Mutex

/-!
# Sleepers of a mutex

An unlock clears the waiters flag and wakes one thread.  The mutex never has two holders,
and no wakeup is lost as long as the flag is set, or a wake is under way, for every thread
that stays asleep.
-/

namespace EigenOS.Pthread

open EigenOS.Transition Function

variable {Thread : Type*}

/-- Only the holder is about to clear the lock word, which is set while the mutex is held. -/
structure Held (s : MutexState Thread) : Prop where
  unique : MutualExclusion s
  locked : ∀ t, s.holds t = true → s.locked ≠ 0
  unlocking : ∀ t, s.pc t = .unlockStore → s.holds t = true

/-- The unlocker has cleared the flag and is about to wake a sleeper. -/
def WakeComing (s : MutexState Thread) : Prop := ∃ t, s.pc t = .unlockWake

/-- A thread that looks at the lock word or at the flag before it stops. -/
def Active (s : MutexState Thread) : Prop :=
  ∃ t, s.pc t = .unlockExchange ∨ s.pc t = .lockWait ∨ s.pc t = .lockExchange

/-- For every sleeper the flag is set or a wake is coming, and while the mutex is free with
the flag set, some thread is on its way to see it. -/
structure Watched (s : MutexState Thread) : Prop where
  sleepers : (∃ t, s.pc t = .asleep) → s.waiters = 1 ∨ WakeComing s
  active : s.locked = 0 → s.waiters = 1 → Active s

/-- No thread is left asleep without the flag or a wake for it. -/
def KeepsWatch (s : MutexState Thread) : MutexAction Thread → Prop
  | .step t => s.pc t = .lockWait → s.locked = 1 → s.waiters = 1 ∨ WakeComing s
  | .wake t woken =>
      s.waiters = 1 ∨ (∃ u, u ≠ t ∧ s.pc u = .unlockWake) ∨
        ∀ u, s.pc u = .asleep → woken = some u
  | _ => True

theorem held_initial : Held (MutexState.initial Thread) where
  unique _ _ h := nomatch h
  locked _ h := nomatch h
  unlocking _ h := nomatch h

theorem watched_initial : Watched (MutexState.initial Thread) where
  sleepers h := nomatch h.choose_spec
  active _ h := nomatch h

variable {s : MutexState Thread} {t : Thread}

theorem Watched.not_lostWakeup (h : Watched s) : ¬ LostWakeup s := by
  rintro ⟨hfree, hasleep, hall⟩
  have hstopped : ∀ t pc, s.pc t = pc → pc = .asleep ∨ pc = .outside :=
    fun t pc hpc => hpc ▸ hall t
  rcases h.sleepers hasleep with hwaiters | ⟨t, ht⟩
  · obtain ⟨t, ht | ht | ht⟩ := h.active hfree hwaiters
    · exact absurd (hstopped t _ ht) (by decide)
    · exact absurd (hstopped t _ ht) (by decide)
    · exact absurd (hstopped t _ ht) (by decide)
  · exact absurd (hstopped t _ ht) (by decide)

theorem Held.words (h : Held s) {locked : ℕ} (waiters : ℕ) (hlocked : s.locked ≠ 0 → locked ≠ 0) :
    Held { s with locked := locked, waiters := waiters } where
  unique := h.unique
  locked t ht := hlocked (h.locked t ht)
  unlocking := h.unlocking

section Steps

variable [DecidableEq Thread]

@[simp]
theorem pc_goTo_self (s : MutexState Thread) (t : Thread) (pc : Pc) :
    (s.goTo t pc).pc t = pc := update_self ..

theorem pc_goTo_of_ne (s : MutexState Thread) {t u : Thread} (pc : Pc) (hne : u ≠ t) :
    (s.goTo t pc).pc u = s.pc u := update_of_ne hne _ _

/-! ## Mutual exclusion -/

theorem Held.goTo (h : Held s) {pc : Pc} (hpc : pc = .unlockStore → s.holds t = true) :
    Held (s.goTo t pc) where
  unique := h.unique
  locked := h.locked
  unlocking := by
    intro u hu
    by_cases heq : u = t
    · subst heq
      rw [pc_goTo_self] at hu
      exact hpc hu
    · rw [pc_goTo_of_ne s pc heq] at hu
      exact h.unlocking u hu

theorem Held.acquire (h : Held s) (hfree : s.locked = 0) (t : Thread) : Held (s.acquire t) := by
  have hnone : ∀ u, s.holds u ≠ true := fun u hu => h.locked u hu hfree
  have honly : ∀ u, update s.holds t true u = true → u = t := by
    intro u hu
    by_contra hne
    rw [update_of_ne hne] at hu
    exact hnone u hu
  refine ⟨?_, fun _ _ => Nat.one_ne_zero, ?_⟩
  · exact fun u v hu hv => (honly u hu).trans (honly v hv).symm
  · intro u hu
    by_cases heq : u = t
    · subst heq
      exact nomatch (pc_goTo_self _ u .outside).symm.trans hu
    · exact absurd (h.unlocking u ((pc_goTo_of_ne _ .outside heq).symm.trans hu)) (hnone u)

theorem Held.release (h : Held s) (ht : s.holds t = true) :
    Held ({ s with locked := 0, holds := update s.holds t false }.goTo t
      .unlockExchange) := by
  have hnone : ∀ u, update s.holds t false u ≠ true := by
    intro u hu
    by_cases heq : u = t
    · subst heq
      rw [update_self] at hu
      cases hu
    · rw [update_of_ne heq] at hu
      exact heq (h.unique u t hu ht)
  refine ⟨fun u _ hu => absurd hu (hnone u), fun u hu => absurd hu (hnone u), ?_⟩
  intro u hu
  by_cases heq : u = t
  · subst heq
    exact nomatch (pc_goTo_self _ u .unlockExchange).symm.trans hu
  · have hpc : s.pc u = .unlockStore := (pc_goTo_of_ne _ .unlockExchange heq).symm.trans hu
    exact absurd (h.unique u t (h.unlocking u hpc) ht) heq

theorem Held.step {s : MutexState Thread} (h : Held s) (t : Thread) : Held (s.step t) := by
  have hset : s.locked ≠ 0 → 1 ≠ 0 := fun _ => Nat.one_ne_zero
  unfold MutexState.step
  split
  · unfold MutexState.lockExchange
    split
    · rename_i hfree
      exact h.acquire hfree t
    · exact (h.words s.waiters hset).goTo nofun
  · exact (h.words 1 id).goTo nofun
  · unfold MutexState.futexWait
    split
    · exact h.goTo nofun
    · exact h.goTo nofun
  · unfold MutexState.trylockExchange
    split
    · rename_i hfree
      exact h.acquire hfree t
    · exact (h.words s.waiters hset).goTo nofun
  · rename_i hpc
    exact h.release (h.unlocking t hpc)
  · unfold MutexState.unlockExchange
    refine (h.words 0 id).goTo ?_
    split
    · exact nofun
    · exact nofun
  all_goals exact h

theorem Held.run {s next : MutexState Thread} {action : MutexAction Thread} (h : Held s)
    (hstep : MutexStep s action next) : Held next := by
  obtain ⟨henabled, rfl⟩ := hstep
  cases action with
  | lock t => exact h.goTo nofun
  | trylock t => exact h.goTo nofun
  | unlock t => exact h.goTo fun _ => henabled.2
  | step t => exact h.step t
  | wake t woken =>
      cases woken with
      | none => exact h.goTo nofun
      | some u =>
          have hwoken : Held (s.goTo u .lockExchange) := h.goTo nofun
          exact hwoken.goTo nofun

/-! ## Sleepers -/

theorem WakeComing.goTo (h : WakeComing s) (ht : s.pc t ≠ .unlockWake) (pc : Pc) :
    WakeComing (s.goTo t pc) := by
  obtain ⟨u, hu⟩ := h
  refine ⟨u, ?_⟩
  rwa [pc_goTo_of_ne]
  rintro rfl
  exact ht hu

theorem asleep_of_goTo {s : MutexState Thread} {t : Thread} {pc : Pc} (hpc : pc ≠ .asleep)
    (h : ∃ u, (s.goTo t pc).pc u = .asleep) : ∃ u, s.pc u = .asleep := by
  obtain ⟨u, hu⟩ := h
  by_cases heq : u = t
  · subst heq
    rw [pc_goTo_self] at hu
    exact absurd hu hpc
  · rw [pc_goTo_of_ne s pc heq] at hu
    exact ⟨u, hu⟩

theorem Watched.sleepers_goTo (h : Watched s) {pc : Pc} (ht : s.pc t ≠ .unlockWake)
    (hpc : pc ≠ .asleep) (hasleep : ∃ u, (s.goTo t pc).pc u = .asleep) :
    s.waiters = 1 ∨ WakeComing (s.goTo t pc) :=
  (h.sleepers (asleep_of_goTo hpc hasleep)).imp_right fun hwake => hwake.goTo ht pc

theorem Watched.call (h : Watched s) (ht : s.pc t = .outside) {pc : Pc} (hpc : pc ≠ .asleep) :
    Watched (s.goTo t pc) where
  sleepers := h.sleepers_goTo (by rw [ht]; decide) hpc
  active := by
    intro hfree hwaiters
    obtain ⟨u, hu⟩ := h.active hfree hwaiters
    refine ⟨u, ?_⟩
    rwa [pc_goTo_of_ne]
    rintro rfl
    rw [ht] at hu
    exact absurd hu (by decide)

theorem Watched.locks (h : Watched s) {pc : Pc} (ht : s.pc t ≠ .unlockWake) (hpc : pc ≠ .asleep)
    (holds : Thread → Bool) : Watched ({ s with locked := 1, holds := holds }.goTo t pc) where
  sleepers := h.sleepers_goTo ht hpc
  active hfree := nomatch hfree

theorem Watched.unlockExchange (h : Watched s) (ht : s.pc t = .unlockExchange) :
    Watched (s.unlockExchange t) := by
  have hne : s.pc t ≠ .unlockWake := by
    rw [ht]
    decide
  refine ⟨fun hasleep => Or.inr ?_, nofun⟩
  unfold MutexState.unlockExchange at hasleep ⊢
  by_cases hset : s.waiters = 1
  · rw [if_pos hset]
    exact ⟨t, pc_goTo_self _ t _⟩
  · rw [if_neg hset] at hasleep ⊢
    have hbefore : ∃ u, s.pc u = .asleep := 
      asleep_of_goTo (t := t) (by decide : Pc.outside ≠ .asleep) hasleep
    exact ((h.sleepers hbefore).resolve_left hset).goTo hne .outside

theorem Watched.futexWait (h : Watched s) (ht : s.pc t = .lockWait)
    (hguard : s.locked = 1 → s.waiters = 1 ∨ WakeComing s) : Watched (s.futexWait t) := by
  have hne : s.pc t ≠ .unlockWake := by
    rw [ht]
    decide
  unfold MutexState.futexWait
  split
  · rename_i hlocked
    refine ⟨fun _ => (hguard hlocked).imp_right fun hwake => hwake.goTo hne _, ?_⟩
    exact fun hfree => absurd (hlocked.symm.trans hfree) Nat.one_ne_zero
  · refine ⟨h.sleepers_goTo hne (by decide), fun _ _ => ⟨t, Or.inr (Or.inr ?_)⟩⟩
    exact pc_goTo_self s t _

theorem Watched.step {s : MutexState Thread} (h : Watched s) {t : Thread}
    (hguard : KeepsWatch s (.step t)) : Watched (s.step t) := by
  unfold MutexState.step
  split
  · rename_i hpc
    have hne : s.pc t ≠ .unlockWake := by
      rw [hpc]
      decide
    unfold MutexState.lockExchange
    split
    · exact h.locks hne (by decide) _
    · exact h.locks hne (by decide) s.holds
  · rename_i hpc
    refine ⟨fun _ => Or.inl rfl, fun _ _ => ⟨t, Or.inr (Or.inl ?_)⟩⟩
    exact pc_goTo_self _ t _
  · rename_i hpc
    exact h.futexWait hpc (hguard hpc)
  · rename_i hpc
    have hne : s.pc t ≠ .unlockWake := by
      rw [hpc]
      decide
    unfold MutexState.trylockExchange
    split
    · exact h.locks hne (by decide) _
    · exact h.locks hne (by decide) s.holds
  · rename_i hpc
    have hne : s.pc t ≠ .unlockWake := by
      rw [hpc]
      decide
    refine ⟨h.sleepers_goTo hne (by decide), fun _ _ => ⟨t, Or.inl ?_⟩⟩
    exact pc_goTo_self _ t _
  · rename_i hpc
    exact h.unlockExchange hpc
  all_goals exact h

theorem Watched.wake_none (h : Watched s) (ht : s.pc t = .unlockWake)
    (hnone : ∀ u, s.pc u ≠ .asleep) :
    Watched (s.goTo t .outside) where
  sleepers hasleep := by
    obtain ⟨u, hu⟩ := asleep_of_goTo (by decide) hasleep
    exact absurd hu (hnone u)
  active := by
    intro hfree hwaiters
    obtain ⟨u, hu⟩ := h.active hfree hwaiters
    refine ⟨u, ?_⟩
    rwa [pc_goTo_of_ne]
    rintro rfl
    rw [ht] at hu
    exact absurd hu (by decide)

theorem Watched.wake_some {t woken : Thread} (ht : s.pc t = .unlockWake)
    (hwoken : s.pc woken = .asleep) (hguard : KeepsWatch s (.wake t (some woken))) :
    Watched ((s.goTo woken .lockExchange).goTo t .outside) := by
  have hne : woken ≠ t := by
    rintro rfl
    exact nomatch ht.symm.trans hwoken
  refine ⟨fun hasleep => ?_, fun _ _ => ⟨woken, Or.inr (Or.inr ?_)⟩⟩
  · rcases hguard with hwaiters | ⟨u, hu, hcoming⟩ | honly
    · exact Or.inl hwaiters
    · have huw : u ≠ woken := by
        rintro rfl
        exact nomatch hcoming.symm.trans hwoken
      refine Or.inr ⟨u, ?_⟩
      rwa [pc_goTo_of_ne _ _ hu, pc_goTo_of_ne _ _ huw]
    · obtain ⟨u, hu⟩ := asleep_of_goTo (by decide) hasleep
      by_cases heq : u = woken
      · subst heq
        exact nomatch (pc_goTo_self s u .lockExchange).symm.trans hu
      · rw [pc_goTo_of_ne _ _ heq] at hu
        exact absurd (Option.some.inj (honly u hu)).symm heq
  · rw [pc_goTo_of_ne _ _ hne, pc_goTo_self]

theorem Watched.run {s next : MutexState Thread} {action : MutexAction Thread}
    (h : Watched s) (hguard : KeepsWatch s action) (hstep : MutexStep s action next) :
    Watched next := by
  obtain ⟨henabled, rfl⟩ := hstep
  cases action with
  | lock t => exact h.call henabled (by decide)
  | trylock t => exact h.call henabled (by decide)
  | unlock t => exact h.call henabled.1 (by decide)
  | step t => exact h.step hguard
  | wake t woken =>
      cases woken with
      | none => exact h.wake_none henabled.1 henabled.2
      | some u => exact Watched.wake_some henabled.1 henabled.2 hguard

/-! ## Runs -/

/-- The mutex never has two holders.  If no step of a run leaves a thread asleep without the
flag or a wake for it, no wakeup is lost. -/
theorem noLostWakeup_always {run : List (MutexAction Thread × MutexState Thread)}
    (hrun : Along MutexStep (MutexState.initial Thread) run) :
    Always MutualExclusion (MutexState.initial Thread) run ∧
      (Along (fun s action _ => KeepsWatch s action) (MutexState.initial Thread) run →
        Always (fun s => ¬ LostWakeup s) (MutexState.initial Thread) run) := by
  constructor
  · have hheld : Always Held (MutexState.initial Thread) run :=
      always_of_guarded Held (fun _ _ _ h _ hstep => h.run hstep) held_initial hrun hrun
    exact hheld.mono fun _ h => h.unique
  · intro hguard
    have hwatched : Always Watched (MutexState.initial Thread) run :=
      always_of_guarded Watched (fun _ _ _ h hkeeps hstep => h.run hkeeps hstep)
        watched_initial hrun hguard
    exact hwatched.mono fun _ h => h.not_lostWakeup

end Steps

def runActions (s : MutexState (Fin 3)) :
    List (MutexAction (Fin 3)) → List (MutexAction (Fin 3) × MutexState (Fin 3))
  | [] => []
  | action :: rest => (action, action.run s) :: runActions (action.run s) rest

/-- Thread 1 sleeps until thread 0 unlocks. -/
def handOver : List (MutexAction (Fin 3)) :=
  [.lock 0, .step 0, .lock 1, .step 1, .step 1, .step 1,
    .unlock 0, .step 0, .step 0, .wake 0 (some 1), .step 1]

/-- Threads 1 and 2 sleep; thread 0 wakes thread 1, which wakes nobody. -/
def forgetSecond : List (MutexAction (Fin 3)) :=
  [.lock 0, .step 0, .lock 1, .step 1, .step 1, .step 1, .lock 2, .step 2, .step 2, .step 2,
    .unlock 0, .step 0, .step 0, .wake 0 (some 1), .step 1, .unlock 1, .step 1, .step 1]

instance (s : MutexState (Fin 3)) (action : MutexAction (Fin 3)) :
    Decidable (action.Enabled s) :=
  match action with
  | .lock _ => inferInstanceAs (Decidable (_ = _))
  | .trylock _ => inferInstanceAs (Decidable (_ = _))
  | .unlock _ => inferInstanceAs (Decidable (_ ∧ _))
  | .step _ => inferInstanceAs (Decidable (_ ∧ _ ∧ _))
  | .wake _ none => inferInstanceAs (Decidable (_ ∧ _))
  | .wake _ (some _) => inferInstanceAs (Decidable (_ ∧ _))

instance (s : MutexState (Fin 3)) (action : MutexAction (Fin 3)) :
    Decidable (KeepsWatch s action) :=
  match action with
  | .lock _ => isTrue trivial
  | .trylock _ => isTrue trivial
  | .unlock _ => isTrue trivial
  | .step t => inferInstanceAs (Decidable (s.pc t = .lockWait → s.locked = 1 →
      s.waiters = 1 ∨ ∃ u, s.pc u = .unlockWake))
  | .wake t woken => inferInstanceAs (Decidable (s.waiters = 1 ∨
      (∃ u, u ≠ t ∧ s.pc u = .unlockWake) ∨ ∀ u, s.pc u = .asleep → woken = some u))

theorem along_handOver :
    Along MutexStep (MutexState.initial (Fin 3)) (runActions (MutexState.initial _) handOver) :=
  ⟨⟨by decide, rfl⟩, ⟨by decide, rfl⟩, ⟨by decide, rfl⟩, ⟨by decide, rfl⟩, ⟨by decide, rfl⟩,
    ⟨by decide, rfl⟩, ⟨by decide, rfl⟩, ⟨by decide, rfl⟩, ⟨by decide, rfl⟩, ⟨by decide, rfl⟩,
    ⟨by decide, rfl⟩, trivial⟩

theorem handOver_noLostWakeup :
    Always MutualExclusion (MutexState.initial (Fin 3))
        (runActions (MutexState.initial _) handOver) ∧
      Always (fun s => ¬ LostWakeup s) (MutexState.initial (Fin 3))
        (runActions (MutexState.initial _) handOver) := by
  have hguarded := noLostWakeup_always along_handOver
  refine ⟨hguarded.1, hguarded.2 ?_⟩
  exact ⟨by decide, by decide, by decide, by decide, by decide, by decide, by decide, by decide,
    by decide, by decide, by decide, trivial⟩

theorem forgetSecond_lostWakeup :
    Along MutexStep (MutexState.initial (Fin 3))
        (runActions (MutexState.initial _) forgetSecond) ∧
      LostWakeup (final (MutexState.initial (Fin 3))
        (runActions (MutexState.initial _) forgetSecond)) := by
  constructor
  · exact ⟨⟨by decide, rfl⟩, ⟨by decide, rfl⟩, ⟨by decide, rfl⟩, ⟨by decide, rfl⟩,
      ⟨by decide, rfl⟩, ⟨by decide, rfl⟩, ⟨by decide, rfl⟩, ⟨by decide, rfl⟩, ⟨by decide, rfl⟩,
      ⟨by decide, rfl⟩, ⟨by decide, rfl⟩, ⟨by decide, rfl⟩, ⟨by decide, rfl⟩, ⟨by decide, rfl⟩,
      ⟨by decide, rfl⟩, ⟨by decide, rfl⟩, ⟨by decide, rfl⟩, ⟨by decide, rfl⟩, trivial⟩
  · exact ⟨by decide, ⟨2, by decide⟩, by decide⟩

end EigenOS.Pthread
