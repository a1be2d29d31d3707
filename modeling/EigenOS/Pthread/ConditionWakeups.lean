import EigenOS.Pthread.Condition
import EigenOS.Pthread.MutexClients

/-!
# Wakeups of a condition variable

A waiter that sleeps has loaded the counter that stands there still, so that no signal has come
since; a later one finds it among the sleepers.  The addition and the wake of a signal are two
steps, and a thread that begins to wait in between can take the wake.
-/

namespace EigenOS.Pthread

open EigenOS.Transition Function

def CondPc.use : CondPc → MutexUse
  | .outside | .futexWait _ _ | .asleep _ _ => .without
  | .lockCall | .relock _ _ _ => .locking
  | .critical | .load _ | .check _ _ _ => .within
  | .unlockCall | .unlock _ _ => .unlocking
  | .signalAdd _ holding | .signalWake _ holding => if holding then .within else .without

/-- What a thread in a wait has loaded, once as many additions are made. -/
structure CondThread.Known (th : CondThread) (adds : ℕ) (seq : UInt32) : Prop where
  seq : seq = UInt32.ofNat th.loaded
  called : th.called ≤ th.loaded
  loaded : th.loaded ≤ adds

/-- The thread has released the mutex since it loaded the counter. -/
structure CondThread.Released (th : CondThread) (adds : ℕ) : Prop where
  loaded : th.loaded ≤ th.released
  released : th.released ≤ adds

/-- What the numbers of a thread say, where it is in the code and in the functions of the
mutex. -/
def Tracked (adds : ℕ) (mutexPc : Pc) (th : CondThread) : Prop :=
  match th.pc with
  | .load _ => th.called ≤ adds
  | .unlock _ seq => th.Known adds seq ∧ (mutexPc = .unlockStore ∨ th.Released adds)
  | .futexWait _ seq | .asleep _ seq | .relock _ seq _ | .check _ seq _ =>
      th.Known adds seq ∧ th.Released adds
  | .outside | .lockCall | .critical | .unlockCall | .signalAdd _ _ | .signalWake _ _ => True

variable {slots : ℕ}

structure CondInv (s : CondState slots) : Prop where
  disciplined : Disciplined (fun th : CondThread => th.pc.use) s.mutex s.thread
  seq : s.seq = UInt32.ofNat s.adds
  tracked : ∀ t, Tracked s.adds (s.mutex.pc t) (s.thread t)

variable {s : CondState slots} {t u : Fin slots} {th : CondThread} {m : MutexState (Fin slots)}

theorem condInv_initial : CondInv (CondState.initial slots) where
  disciplined := Disciplined.initial fun _ => rfl
  seq := rfl
  tracked _ := trivial

/-! ## Numbers of a thread -/

theorem CondThread.Known.more {adds : ℕ} {seq : UInt32} (h : th.Known adds seq) :
    th.Known (adds + 1) seq :=
  ⟨h.seq, h.called, h.loaded.trans (Nat.le_succ _)⟩

theorem CondThread.Released.more {adds : ℕ} (h : th.Released adds) : th.Released (adds + 1) :=
  ⟨h.loaded, h.released.trans (Nat.le_succ _)⟩

theorem CondThread.Known.goTo {adds : ℕ} {seq : UInt32} (h : th.Known adds seq) (pc : CondPc) :
    CondThread.Known { th with pc := pc } adds seq := ⟨h.seq, h.called, h.loaded⟩

theorem CondThread.Released.goTo {adds : ℕ} (h : th.Released adds) (pc : CondPc) :
    CondThread.Released { th with pc := pc } adds := ⟨h.loaded, h.released⟩

theorem Tracked.more {adds : ℕ} {mutexPc : Pc} (h : Tracked adds mutexPc th) :
    Tracked (adds + 1) mutexPc th := by
  unfold Tracked at h ⊢
  cases hpc : th.pc with
  | load =>
    rw [hpc] at h
    exact Nat.le_succ_of_le h
  | unlock =>
    rw [hpc] at h
    exact ⟨h.1.more, h.2.imp_right CondThread.Released.more⟩
  | futexWait | asleep | relock | check =>
    rw [hpc] at h
    exact ⟨h.1.more, h.2.more⟩
  | outside | lockCall | critical | unlockCall | signalAdd | signalWake => trivial

theorem Tracked.mutexPc {adds : ℕ} {before after : Pc} (h : Tracked adds before th)
    (hstore : before ≠ .unlockStore) : Tracked adds after th := by
  unfold Tracked at h ⊢
  cases hpc : th.pc with
  | unlock =>
    rw [hpc] at h
    exact ⟨h.1, .inr (h.2.resolve_left hstore)⟩
  | load | futexWait | asleep | relock | check =>
    rw [hpc] at h
    exact h
  | outside | lockCall | critical | unlockCall | signalAdd | signalWake => trivial

/-- The store of `pthread_mutex_unlock` is where the mutex is released. -/
theorem Tracked.release {adds : ℕ} {before after : Pc} (h : Tracked adds before th)
    (hplace : th.pc.use = .unlocking) :
    Tracked adds after { th with released := adds } := by
  unfold Tracked at h ⊢
  dsimp only
  cases hpc : th.pc with
  | unlock =>
    rw [hpc] at h
    exact ⟨⟨h.1.seq, h.1.called, h.1.loaded⟩, .inr ⟨h.1.loaded, le_rfl⟩⟩
  | outside | lockCall | critical | unlockCall => trivial
  | load | futexWait | asleep | relock | check =>
    rw [hpc] at hplace
    exact nomatch hplace
  | signalAdd _ holding | signalWake _ holding => trivial

/-! ## Moves of a thread -/

theorem CondInv.move (h : CondInv s)
    (hm : Disciplined (fun th : CondThread => th.pc.use) m (update s.thread t th))
    (hothers : ∀ u, u ≠ t → m.pc u = s.mutex.pc u) (htracked : Tracked s.adds (m.pc t) th) :
    CondInv ({ s with mutex := m }.set t th) where
  disciplined := hm
  seq := h.seq
  tracked := by
    intro u
    dsimp only [CondState.set]
    by_cases hu : u = t
    · rw [hu, update_self]
      exact htracked
    · rw [update_of_ne hu, hothers u hu]
      exact h.tracked u

theorem CondInv.set (h : CondInv s)
    (hm : Disciplined (fun th : CondThread => th.pc.use) s.mutex (update s.thread t th))
    (htracked : Tracked s.adds (s.mutex.pc t) th) : CondInv (s.set t th) :=
  h.move hm (fun _ _ => rfl) htracked

theorem CondInv.lockMutex (h : CondInv s) {pc : CondPc} (hholds : s.mutex.holds t = false)
    (huse : pc.use = .locking)
    (htracked : Tracked s.adds .lockExchange { s.thread t with pc := pc }) :
    CondInv (s.lockMutex t pc) := by
  apply h.move (h.disciplined.lock hholds huse)
  · exact fun u hu => pc_goTo_of_ne _ _ hu
  · rw [pc_goTo_self]
    exact htracked

theorem CondInv.unlockMutex (h : CondInv s) (hholds : s.mutex.holds t = true)
    (huse : th.pc.use = .unlocking) (htracked : Tracked s.adds .unlockStore th) :
    CondInv (s.unlockMutex t th) := by
  apply h.move (h.disciplined.unlock hholds huse)
  · exact fun u hu => pc_goTo_of_ne _ _ hu
  · rw [pc_goTo_self]
    exact htracked

/-! ## Sleepers that are woken -/

theorem awaken_of_ne (s : CondState slots) (timedOut : Bool) (hne : u ≠ t) :
    (s.awaken timedOut t).thread u = s.thread u ∧
      (s.awaken timedOut t).mutex.pc u = s.mutex.pc u := by
  rw [CondState.awaken]
  split
  · exact ⟨update_of_ne hne _ _, pc_goTo_of_ne _ _ hne⟩
  · exact ⟨rfl, rfl⟩

theorem awaken_thread_self (s : CondState slots) (timedOut : Bool) (t : Fin slots) :
    ((s.awaken timedOut t).thread t).pc.isAsleep = false ∧
      ((s.awaken timedOut t).thread t).pc.waits = (s.thread t).pc.waits := by
  rw [CondState.awaken]
  split
  · rename_i hpc
    dsimp only [CondState.lockMutex, CondState.goTo, CondState.set]
    rw [update_self, hpc]
    exact ⟨rfl, rfl⟩
  · rename_i hnot
    refine ⟨?_, rfl⟩
    cases hpc : (s.thread t).pc with
    | asleep timed seq => exact absurd hpc (hnot timed seq)
    | outside | lockCall | critical | unlockCall | load | unlock | futexWait | relock | check
    | signalAdd | signalWake => rfl

theorem awaken_waits (s : CondState slots) (timedOut : Bool) (t u : Fin slots) :
    ((s.awaken timedOut t).thread u).pc.waits = (s.thread u).pc.waits := by
  by_cases hu : u = t
  · rw [hu]
    exact (awaken_thread_self s timedOut t).2
  · rw [(awaken_of_ne s timedOut hu).1]

theorem CondInv.awaken (h : CondInv s) (timedOut : Bool) (t : Fin slots) :
    CondInv (s.awaken timedOut t) := by
  rw [CondState.awaken]
  split
  · rename_i timed seq hpc
    have htracked := h.tracked t
    unfold Tracked at htracked
    rw [hpc] at htracked
    obtain ⟨hknown, hreleased⟩ := htracked
    refine h.lockMutex ?_ rfl ⟨hknown.goTo _, hreleased.goTo _⟩
    exact (h.disciplined.without_holds (by rw [hpc]; rfl)).2
  · exact h

section Fold

variable (woken : List (Fin slots)) (s)

theorem foldl_awaken_of_not_mem (hu : u ∉ woken) :
    (woken.foldl (CondState.awaken · false) s).thread u = s.thread u ∧
      (woken.foldl (CondState.awaken · false) s).mutex.pc u = s.mutex.pc u := by
  induction woken generalizing s with
  | nil => exact ⟨rfl, rfl⟩
  | cons t rest ih =>
    obtain ⟨hne, hrest⟩ := not_or.mp (List.mem_cons.not.mp hu)
    obtain ⟨hthread, hmutex⟩ := ih (s.awaken false t) hrest
    obtain ⟨hthread', hmutex'⟩ := awaken_of_ne s false hne
    exact ⟨hthread.trans hthread', hmutex.trans hmutex'⟩

theorem foldl_awaken_of_mem (hu : u ∈ woken) :
    ((woken.foldl (CondState.awaken · false) s).thread u).pc.isAsleep = false := by
  induction woken generalizing s with
  | nil => exact nomatch hu
  | cons t rest ih =>
    by_cases hrest : u ∈ rest
    · exact ih (s.awaken false t) hrest
    · cases (List.mem_cons.mp hu).resolve_right hrest
      rw [List.foldl_cons, (foldl_awaken_of_not_mem _ _ hrest).1]
      exact (awaken_thread_self s false u).1

theorem foldl_awaken_waits (u : Fin slots) :
    ((woken.foldl (CondState.awaken · false) s).thread u).pc.waits = (s.thread u).pc.waits := by
  induction woken generalizing s with
  | nil => rfl
  | cons t rest ih => exact (ih (s.awaken false t)).trans (awaken_waits s false t u)

theorem foldl_awaken_inv {s : CondState slots} (h : CondInv s) :
    CondInv (woken.foldl (CondState.awaken · false) s) := by
  induction woken generalizing s with
  | nil => exact h
  | cons t rest ih => exact ih (h.awaken false t)

end Fold

theorem mem_sleepers : u ∈ s.sleepers ↔ (s.thread u).pc.isAsleep = true := by
  rw [CondState.sleepers, List.mem_filter]
  exact and_iff_right (List.mem_finRange u)

theorem mem_take_one : u ∈ s.sleepers.take 1 ↔
    (s.thread u).pc.isAsleep = true ∧ ∀ v, (s.thread v).pc.isAsleep = true → u ≤ v := by
  have hsorted : s.sleepers.Pairwise (· < ·) :=
    (List.pairwise_lt_finRange slots).sublist List.filter_sublist
  have hmem : ∀ v, v ∈ s.sleepers ↔ (s.thread v).pc.isAsleep = true := fun _ => mem_sleepers
  cases hlist : s.sleepers with
  | nil =>
    rw [hlist] at hmem
    refine iff_of_false nofun fun hboth => ?_
    exact nomatch (hmem u).mpr hboth.1
  | cons first rest =>
    rw [hlist] at hmem hsorted
    have hfirst := (List.pairwise_cons.mp hsorted).1
    rw [List.take_succ_cons, List.take_zero, List.mem_singleton]
    constructor
    · rintro rfl
      refine ⟨(hmem u).mp List.mem_cons_self, fun v hv => ?_⟩
      rcases List.mem_cons.mp ((hmem v).mpr hv) with rfl | hrest
      · exact le_rfl
      · exact (hfirst v hrest).le
    · rintro ⟨hasleep, hmin⟩
      rcases List.mem_cons.mp ((hmem u).mpr hasleep) with heq | hrest
      · exact heq
      · have hle := hmin first ((hmem first).mp List.mem_cons_self)
        exact absurd (hfirst u hrest) (not_lt.mpr hle)

/-- A broadcast reaches every sleeper, as the kernel has no more tasks than it wakes. -/
theorem take_all (hslots : slots ≤ TLS_MAX_KEYS) :
    s.sleepers.take TLS_MAX_KEYS = s.sleepers := by
  apply List.take_of_length_le
  have hle := List.length_filter_le (fun t => (s.thread t).pc.isAsleep) (List.finRange slots)
  rw [List.length_finRange] at hle
  exact hle.trans hslots

theorem futexWake_asleep_iff (n : ℕ) (u : Fin slots) :
    ((s.futexWake n).thread u).pc.isAsleep = true ↔
      (s.thread u).pc.isAsleep = true ∧ u ∉ s.sleepers.take n := by
  by_cases hu : u ∈ s.sleepers.take n
  · refine iff_of_false ?_ (fun hboth => hboth.2 hu)
    rw [CondState.futexWake, foldl_awaken_of_mem _ _ hu]
    decide
  · rw [CondState.futexWake, (foldl_awaken_of_not_mem _ _ hu).1]
    exact (and_iff_left hu).symm

theorem signaller_kept (n : ℕ) (hawake : (s.thread u).pc.isAsleep = false) :
    (s.futexWake n).thread u = s.thread u ∧ (s.futexWake n).mutex.pc u = s.mutex.pc u := by
  apply foldl_awaken_of_not_mem
  intro hmem
  have hasleep := mem_sleepers.mp (List.mem_of_mem_take hmem)
  exact absurd (hasleep.symm.trans hawake) (by decide)

/-! ## Steps -/

theorem CondInv.keepMutex (h : CondInv s) (houtside : s.mutex.pc t = .outside)
    (huse : th.pc.use = .within ∧
        ((s.thread t).pc.use = .locking ∨ (s.thread t).pc.use = .within) ∨
      th.pc.use = .without ∧
        ((s.thread t).pc.use = .unlocking ∨ (s.thread t).pc.use = .without))
    (htracked : Tracked s.adds (s.mutex.pc t) th) : CondInv (s.set t th) := by
  apply h.set _ htracked
  rcases huse with ⟨huse, hbefore⟩ | ⟨huse, hbefore⟩
  · exact h.disciplined.within houtside hbefore huse
  · exact h.disciplined.without houtside hbefore huse

theorem CondInv.add (h : CondInv s) :
    CondInv { s with seq := s.seq + 1, adds := s.adds + 1 } where
  disciplined := h.disciplined
  seq := by
    dsimp only
    rw [h.seq, UInt32.ofNat_add]
    rfl
  tracked u := (h.tracked u).more

theorem CondInv.step (h : CondInv s) (houtside : s.mutex.pc t = .outside) :
    CondInv (s.step t) := by
  have htracked := h.tracked t
  have hholds := h.disciplined.holds (t := t) houtside
  have hnot := h.disciplined.not_holds (t := t) houtside
  unfold Tracked at htracked
  rw [CondState.step]
  cases hpc : (s.thread t).pc with
  | outside | critical | asleep => exact h
  | lockCall =>
    exact h.keepMutex houtside (.inl ⟨rfl, .inl (by rw [hpc]; rfl)⟩) trivial
  | unlockCall =>
    exact h.keepMutex houtside (.inr ⟨rfl, .inl (by rw [hpc]; rfl)⟩) trivial
  | load timed =>
    rw [hpc] at htracked hholds
    exact h.unlockMutex (hholds (.inr rfl)) rfl
      ⟨⟨h.seq, htracked, le_rfl⟩, .inl rfl⟩
  | unlock timed seq =>
    rw [hpc] at htracked
    obtain ⟨hknown, hreleased⟩ := htracked
    rw [houtside] at hreleased
    have hreleased := hreleased.resolve_left nofun
    exact h.keepMutex houtside (.inr ⟨rfl, .inl (by rw [hpc]; rfl)⟩)
      ⟨hknown.goTo _, hreleased.goTo _⟩
  | futexWait timed seq =>
    rw [hpc] at htracked hnot
    obtain ⟨hknown, hreleased⟩ := htracked
    dsimp only
    rw [CondState.futexWait]
    split_ifs
    · exact h.keepMutex houtside (.inr ⟨rfl, .inr (by rw [hpc]; rfl)⟩)
        ⟨hknown.goTo _, hreleased.goTo _⟩
    · exact h.lockMutex (hnot (.inr rfl)) rfl ⟨hknown.goTo _, hreleased.goTo _⟩
  | relock timed seq timedOut =>
    rw [hpc] at htracked
    obtain ⟨hknown, hreleased⟩ := htracked
    exact h.keepMutex houtside (.inl ⟨rfl, .inl (by rw [hpc]; rfl)⟩)
      ⟨hknown.goTo _, hreleased.goTo _⟩
  | check timed seq timedOut =>
    rw [hpc] at htracked
    have hcalled : (s.thread t).called ≤ s.adds := htracked.1.called.trans htracked.1.loaded
    have hwithin : (s.thread t).pc.use = .within := by rw [hpc]; rfl
    dsimp only
    split_ifs
    · exact h.keepMutex houtside (.inl ⟨rfl, .inr hwithin⟩) trivial
    · exact h.keepMutex houtside (.inl ⟨rfl, .inr hwithin⟩) trivial
    · exact h.keepMutex houtside (.inl ⟨rfl, .inr hwithin⟩) hcalled
  | signalAdd broadcast holding =>
    refine h.add.keepMutex houtside ?_ trivial
    dsimp only
    rw [hpc]
    cases holding with
    | false => exact .inr ⟨rfl, .inr rfl⟩
    | true => exact .inl ⟨rfl, .inr rfl⟩
  | signalWake broadcast holding =>
    dsimp only
    generalize (if broadcast = true then TLS_MAX_KEYS else 1) = n
    obtain ⟨hthread, hmutex⟩ := signaller_kept n (by rw [hpc]; rfl)
    have hwoken : CondInv (s.futexWake n) := foldl_awaken_inv _ h
    refine hwoken.keepMutex (hmutex.trans houtside) ?_ ?_
    · rw [hthread, hpc]
      cases holding with
      | false => exact .inr ⟨rfl, .inr rfl⟩
      | true => exact .inl ⟨rfl, .inr rfl⟩
    · cases holding with
      | false => exact trivial
      | true => exact trivial

theorem CondInv.setMutex (h : CondInv s)
    (hm : Disciplined (fun th : CondThread => th.pc.use) m s.thread)
    (hstore : ∀ u, m.pc u = s.mutex.pc u ∨ s.mutex.pc u ≠ .unlockStore) :
    CondInv { s with mutex := m } where
  disciplined := hm
  seq := h.seq
  tracked := by
    intro u
    dsimp only
    rcases hstore u with heq | hne
    · rw [heq]
      exact h.tracked u
    · exact (h.tracked u).mutexPc hne

theorem CondInv.mutexStep (h : CondInv s) (t : Fin slots) : CondInv (s.mutexStep t) := by
  have hm := h.disciplined.step t
  have hothers : ∀ u, u ≠ t → (s.mutex.step t).pc u = s.mutex.pc u :=
    fun u hu => pc_step_of_ne s.mutex hu
  rw [CondState.mutexStep]
  by_cases hstore : s.mutex.pc t = .unlockStore
  · rw [if_pos hstore]
    have huse : (s.thread t).pc.use = .unlocking := by
      have hlinked := h.disciplined.linked t
      rw [hstore] at hlinked
      exact (hlinked.unlocking (.inl rfl)).1
    refine h.move (hm.congr fun u => ?_) hothers ((h.tracked t).release huse)
    by_cases hu : u = t
    · rw [hu, update_self]
    · rw [update_of_ne hu]
  · rw [if_neg hstore]
    apply h.setMutex hm
    intro u
    by_cases hu : u = t
    · rw [hu]
      exact .inr hstore
    · exact .inl (hothers u hu)

theorem CondInv.mutexWake (h : CondInv s) {woken : Option (Fin slots)}
    (henabled : (MutexAction.wake t woken).Enabled s.mutex) :
    CondInv { s with mutex := (MutexAction.wake t woken).run s.mutex } := by
  apply h.setMutex (h.disciplined.wake henabled)
  intro u
  by_cases hu : s.mutex.pc u = .unlockStore
  · have hne : u ≠ t := by
      rintro rfl
      cases woken with
      | none => exact nomatch hu.symm.trans henabled.1
      | some v => exact nomatch hu.symm.trans henabled.1
    left
    cases woken with
    | none => exact pc_goTo_of_ne _ _ hne
    | some v =>
      have hne' : u ≠ v := by
        rintro rfl
        exact nomatch hu.symm.trans henabled.2
      exact (pc_goTo_of_ne _ _ hne).trans (pc_goTo_of_ne _ _ hne')
  · exact .inr hu

theorem CondInv.run {action : CondAction slots} {next : CondState slots} (h : CondInv s)
    (hstep : CondStep s action next) : CondInv next := by
  obtain ⟨henabled, rfl⟩ := hstep
  have hwait : ∀ t timed, (s.thread t).pc = .critical → CondInv (s.wait t timed) := by
    intro t timed hpc
    obtain ⟨houtside, _⟩ := h.disciplined.within_holds (t := t) (by rw [hpc]; rfl)
    exact h.keepMutex houtside (.inl ⟨rfl, .inr (by rw [hpc]; rfl)⟩) le_rfl
  cases action with
  | lock t =>
    have hpc : (s.thread t).pc = .outside := henabled
    refine h.lockMutex ?_ rfl trivial
    exact (h.disciplined.without_holds (by rw [hpc]; rfl)).2
  | unlock t =>
    have hpc : (s.thread t).pc = .critical := henabled
    refine h.unlockMutex ?_ rfl trivial
    exact (h.disciplined.within_holds (by rw [hpc]; rfl)).2
  | wait t => exact hwait t false henabled
  | timedwait t null =>
    rw [CondAction.run]
    split_ifs
    · exact h
    · exact hwait t true henabled
  | signal t broadcast =>
    rcases henabled with hpc | hpc
    · obtain ⟨houtside, _⟩ := h.disciplined.without_holds (t := t) (by rw [hpc]; rfl)
      refine h.keepMutex houtside (.inr ⟨?_, .inr (by rw [hpc]; rfl)⟩) trivial
      rw [hpc]
      rfl
    · obtain ⟨houtside, _⟩ := h.disciplined.within_holds (t := t) (by rw [hpc]; rfl)
      refine h.keepMutex houtside (.inl ⟨?_, .inr (by rw [hpc]; rfl)⟩) trivial
      rw [hpc]
      rfl
  | step t => exact h.step henabled.1
  | mutexStep t => exact h.mutexStep t
  | mutexWake t woken => exact h.mutexWake henabled
  | timeOut t => exact h.awaken true t

/-! ## What a step keeps -/

/-- A counter that stands where a thread has loaded it has seen no signal since. -/
theorem released_eq {adds : ℕ} {seq : UInt32} (hknown : th.Known adds seq)
    (hreleased : th.Released adds) (hfew : adds < th.called + 2 ^ 32)
    (hsame : UInt32.ofNat adds = seq) : th.released = adds := by
  have hmod : adds % 2 ^ 32 = th.loaded % 2 ^ 32 := by
    have htoNat := congrArg UInt32.toNat (hsame.trans hknown.seq)
    rwa [UInt32.toNat_ofNat', UInt32.toNat_ofNat'] at htoNat
  have hcalled := hknown.called
  have hloaded := hknown.loaded
  have hbefore := hreleased.loaded
  have hafter := hreleased.released
  omega

/-- The step is not the wake of a signal. -/
def NoWake (s : CondState slots) : CondAction slots → Prop
  | .step t => ∀ broadcast holding, (s.thread t).pc ≠ .signalWake broadcast holding
  | _ => True

section Keeps

variable {action : CondAction slots} {next : CondState slots}

theorem NoWake.notOvertaken (h : NoWake s action) : NotOvertaken s action next := by
  cases action with
  | step t => exact fun holding hpc => absurd hpc (h false holding)
  | lock | unlock | wait | timedwait | signal | mutexStep | mutexWake | timeOut => trivial

theorem NoWake.wakes (h : NoWake s action) :
    SignalWakes s action next ∧ BroadcastWakes s action next := by
  cases action with
  | step t =>
    exact ⟨fun holding hpc => absurd hpc (h false holding),
      fun holding hpc => absurd hpc (h true holding)⟩
  | lock | unlock | wait | timedwait | signal | mutexStep | mutexWake | timeOut =>
    exact ⟨trivial, trivial⟩

theorem keeps_of_move (hwake : NoWake s action)
    (hthread : next.thread = update s.thread t th)
    (hsleeps : (s.thread t).pc.isAsleep = false → th.pc.isAsleep = true →
      th.released = next.adds)
    (hagain : ∀ timed seq timedOut, (s.thread t).pc = .check timed seq timedOut →
      th.pc = .load timed → th.released = next.adds)
    (hreturns : (s.thread t).pc.waits = true → th.pc.waits = false →
      next.mutex.holds t = true ∧ next.mutex.pc t = .outside) : CondKeeps s action next where
  signal := hwake.wakes.1
  broadcast := hwake.wakes.2
  sleeps := by
    intro u
    rw [hthread]
    by_cases hu : u = t
    · rw [hu, update_self]
      exact hsleeps
    · rw [update_of_ne hu]
      exact fun hbefore hafter => absurd (hbefore.symm.trans hafter) (by decide)
  again := by
    intro u timed seq timedOut
    rw [hthread]
    by_cases hu : u = t
    · rw [hu, update_self]
      exact hagain timed seq timedOut
    · rw [update_of_ne hu]
      exact fun hbefore hafter => nomatch hbefore.symm.trans hafter
  returns := by
    intro u
    rw [hthread]
    by_cases hu : u = t
    · rw [hu, update_self]
      exact hreturns
    · rw [update_of_ne hu]
      exact fun hbefore hafter => absurd (hbefore.symm.trans hafter) (by decide)

theorem keeps_of_quiet (hwake : NoWake s action)
    (hthread : next.thread = update s.thread t th) (hsleeps : th.pc.isAsleep = false)
    (hplace : (s.thread t).pc.waits = false ∨
      th.pc.waits = true ∧ ∀ timed, th.pc ≠ .load timed) : CondKeeps s action next := by
  apply keeps_of_move hwake hthread
  · exact fun _ hafter => absurd (hsleeps.symm.trans hafter) (by decide)
  · intro timed seq timedOut hcheck hload
    rcases hplace with hwaits | ⟨_, hne⟩
    · rw [hcheck] at hwaits
      exact nomatch hwaits
    · exact absurd hload (hne timed)
  · intro hbefore hafter
    rcases hplace with hwaits | ⟨hwaits, _⟩
    · exact absurd (hwaits.symm.trans hbefore) (by decide)
    · exact absurd (hwaits.symm.trans hafter) (by decide)

theorem keeps_of_same (hwake : NoWake s action)
    (hpc : ∀ u, (next.thread u).pc = (s.thread u).pc) : CondKeeps s action next where
  signal := hwake.wakes.1
  broadcast := hwake.wakes.2
  sleeps u hbefore hafter := by
    rw [hpc u] at hafter
    exact absurd (hbefore.symm.trans hafter) (by decide)
  again u timed seq timedOut hbefore hafter := by
    rw [hpc u] at hafter
    exact nomatch hbefore.symm.trans hafter
  returns u hbefore hafter := by
    rw [hpc u] at hafter
    exact absurd (hbefore.symm.trans hafter) (by decide)

/-! ### The wake of a signal -/

theorem wake_kept (n : ℕ) (holding : Bool) (hu : u ≠ t) (hawake : (s.thread u).pc.isAsleep = false) :
    ((s.futexWake n).goTo t (.caller holding)).thread u = s.thread u := by
  dsimp only [CondState.goTo, CondState.set]
  rw [update_of_ne hu]
  exact (signaller_kept n hawake).1

section Wake

variable {broadcast holding : Bool} (hpc : (s.thread t).pc = .signalWake broadcast holding)
  (n : ℕ)

include hpc

theorem wake_asleep_iff (u : Fin slots) :
    ((((s.futexWake n).goTo t (.caller holding)).thread u).pc.isAsleep = true) ↔
      (s.thread u).pc.isAsleep = true ∧ u ∉ s.sleepers.take n := by
  dsimp only [CondState.goTo, CondState.set]
  by_cases hu : u = t
  · rw [hu, update_self, hpc]
    refine iff_of_false ?_ (fun hboth => nomatch hboth.1)
    cases holding with
    | false => exact nofun
    | true => exact nofun
  · rw [update_of_ne hu]
    exact futexWake_asleep_iff n u

theorem wake_waits (u : Fin slots) :
    (((s.futexWake n).goTo t (.caller holding)).thread u).pc.waits = (s.thread u).pc.waits := by
  dsimp only [CondState.goTo, CondState.set]
  by_cases hu : u = t
  · rw [hu, update_self, hpc]
    cases holding with
    | false => rfl
    | true => rfl
  · rw [update_of_ne hu]
    exact foldl_awaken_waits s _ u

end Wake

/-- The wake of a signal does all but possibly one thing: it may wake another than a waiter. -/
theorem keeps_wake {broadcast holding : Bool}
    (hpc : (s.thread t).pc = .signalWake broadcast holding) {n : ℕ}
    (hnext : next = (s.futexWake n).goTo t (.caller holding))
    (hsignal : broadcast = false → (∃ u, s.Waiter t u) →
      ∃ u, s.Waiter t u ∧ u ∈ s.sleepers.take n)
    (hbroadcast : broadcast = true → ∀ u, s.Waiter t u → u ∈ s.sleepers.take n) :
    CondKeeps s (.step t) next where
  signal := by
    intro _ hwake hwaiter
    obtain ⟨u, hu, hmem⟩ := hsignal (CondPc.signalWake.inj (hpc.symm.trans hwake)).1 hwaiter
    refine ⟨u, hu, Bool.eq_false_iff.mpr fun hasleep => ?_⟩
    rw [hnext, wake_asleep_iff hpc] at hasleep
    exact hasleep.2 hmem
  broadcast := by
    intro _ hwake u hu
    have hmem := hbroadcast (CondPc.signalWake.inj (hpc.symm.trans hwake)).1 u hu
    refine Bool.eq_false_iff.mpr fun hasleep => ?_
    rw [hnext, wake_asleep_iff hpc] at hasleep
    exact hasleep.2 hmem
  sleeps := by
    intro u hbefore hafter
    rw [hnext, wake_asleep_iff hpc, hbefore] at hafter
    exact nomatch hafter.1
  again := by
    intro u timed seq timedOut hbefore hafter
    have hu : u ≠ t := by
      rintro rfl
      exact nomatch hbefore.symm.trans hpc
    rw [hnext, wake_kept n holding hu (by rw [hbefore]; rfl)] at hafter
    exact nomatch hbefore.symm.trans hafter
  returns := by
    intro u hbefore hafter
    rw [hnext, wake_waits hpc, hbefore] at hafter
    exact nomatch hafter

theorem exists_mem_take_one (hu : (s.thread u).pc.isAsleep = true) :
    ∃ v, v ∈ s.sleepers.take 1 := by
  have hmem := mem_sleepers.mpr hu
  cases hlist : s.sleepers with
  | nil =>
    rw [hlist] at hmem
    exact nomatch hmem
  | cons first rest => exact ⟨first, List.mem_cons_self⟩

/-- The sleeper that a signal wakes is one of its waiters exactly if they are not overtaken. -/
theorem wakes_waiter_iff :
    ((∃ u, s.Waiter t u) → ∃ u, s.Waiter t u ∧ u ∈ s.sleepers.take 1) ↔ ¬ s.Overtaken t := by
  constructor
  · rintro hwakes ⟨hwaiter, v, hasleep, _, hbefore⟩
    obtain ⟨u, hu, hmem⟩ := hwakes hwaiter
    exact absurd (hbefore u hu) (not_lt.mpr ((mem_take_one.mp hmem).2 v hasleep))
  · rintro hnot ⟨u, hu⟩
    obtain ⟨v, hv⟩ := exists_mem_take_one hu.1
    obtain ⟨hasleep, hfirst⟩ := mem_take_one.mp hv
    by_cases hwaiter : s.Waiter t v
    · exact ⟨v, hwaiter, hv⟩
    · refine absurd ⟨⟨u, hu⟩, v, hasleep, ?_, ?_⟩ hnot
      · exact not_lt.mp fun hlt => hwaiter ⟨hasleep, hlt⟩
      · intro w hw
        apply lt_of_le_of_ne (hfirst w hw.1)
        rintro rfl
        exact hwaiter hw

theorem keeps_step (h : CondInv s) (hfew : FewSignals s)
    (hawake : (s.thread t).pc.isAsleep = false)
    (hnot : ∀ broadcast holding, (s.thread t).pc ≠ .signalWake broadcast holding) :
    CondKeeps s (.step t) (s.step t) := by
  have htracked := h.tracked t
  have hfew := hfew t
  unfold Tracked at htracked
  rw [CondState.step]
  cases hpc : (s.thread t).pc with
  | asleep =>
    rw [hpc] at hawake
    exact nomatch hawake
  | outside | critical => exact keeps_of_same hnot fun _ => rfl
  | lockCall | unlockCall | signalAdd =>
    refine keeps_of_quiet hnot rfl rfl (.inl ?_)
    rw [hpc]
    rfl
  | load | unlock | relock => exact keeps_of_quiet hnot rfl rfl (.inr ⟨rfl, nofun⟩)
  | futexWait timed seq =>
    rw [hpc] at htracked hfew
    dsimp only
    rw [CondState.futexWait]
    by_cases hsame : s.seq = seq
    · rw [if_pos hsame]
      have hreleased := released_eq htracked.1 htracked.2 (hfew rfl) (h.seq.symm.trans hsame)
      refine keeps_of_move hnot rfl (fun _ _ => hreleased) ?_ ?_
      · exact fun _ _ _ _ => nofun
      · exact fun _ => nofun
    · rw [if_neg hsame]
      exact keeps_of_quiet hnot rfl rfl (.inr ⟨rfl, nofun⟩)
  | check timed seq timedOut =>
    have hwithin := h.disciplined.within_holds (t := t) (by rw [hpc]; rfl)
    rw [hpc] at htracked hfew
    have hcritical : CondKeeps s (.step t) (s.goTo t .critical) := by
      refine keeps_of_move hnot rfl (fun _ => nofun) ?_ ?_
      · exact fun _ _ _ _ => nofun
      · exact fun _ _ => ⟨hwithin.2, hwithin.1⟩
    dsimp only
    split_ifs with htimed hsame
    · exact hcritical
    · exact hcritical
    · have hreleased := released_eq htracked.1 htracked.2 (hfew rfl)
        (h.seq.symm.trans (not_not.mp hsame))
      refine keeps_of_move hnot rfl (fun _ => nofun) ?_ ?_
      · exact fun _ _ _ _ _ => hreleased
      · exact fun _ => nofun
  | signalWake broadcast holding => exact absurd hpc (hnot broadcast holding)

/-- A broadcast wakes everyone up, and a signal has to wake a waiter up. -/
theorem keeps_signalWake_iff (hslots : slots ≤ TLS_MAX_KEYS) {broadcast holding : Bool}
    (hpc : (s.thread t).pc = .signalWake broadcast holding) :
    CondKeeps s (.step t) (s.step t) ↔ NotOvertaken s (.step t) (s.step t) := by
  rw [CondState.step, hpc]
  dsimp only
  cases broadcast with
  | true =>
    rw [if_pos rfl]
    refine iff_of_true (keeps_wake hpc rfl nofun fun _ u hu => ?_) ?_
    · rw [take_all hslots]
      exact mem_sleepers.mpr hu.1
    · intro _ hother
      exact nomatch hpc.symm.trans hother
  | false =>
    rw [if_neg Bool.false_ne_true]
    constructor
    · intro hkeeps _ _
      rw [← wakes_waiter_iff]
      intro hwaiter
      obtain ⟨u, hu, hwoken⟩ := hkeeps.signal holding hpc hwaiter
      refine ⟨u, hu, ?_⟩
      by_contra hmem
      have hasleep := (wake_asleep_iff hpc 1 u).mpr ⟨hu.1, hmem⟩
      exact absurd (hasleep.symm.trans hwoken) (by decide)
    · intro hnot
      exact keeps_wake hpc rfl (fun _ => wakes_waiter_iff.mpr (hnot holding hpc)) nofun

theorem keeps_step_iff (hslots : slots ≤ TLS_MAX_KEYS) (h : CondInv s) (hfew : FewSignals s)
    (hawake : (s.thread t).pc.isAsleep = false) :
    CondKeeps s (.step t) (s.step t) ↔ NotOvertaken s (.step t) (s.step t) := by
  by_cases hwake : NoWake s (.step t)
  · exact iff_of_true (keeps_step h hfew hawake hwake) hwake.notOvertaken
  · obtain ⟨broadcast, hwake⟩ := not_forall.mp hwake
    obtain ⟨holding, hpc⟩ := not_forall.mp hwake
    exact keeps_signalWake_iff hslots (not_not.mp hpc)

theorem keeps_iff (hslots : slots ≤ TLS_MAX_KEYS) (h : CondInv s) (hfew : FewSignals s)
    (hstep : CondStep s action next) : CondKeeps s action next ↔ NotOvertaken s action next := by
  obtain ⟨henabled, rfl⟩ := hstep
  have hmove : NoWake s action → (NoWake s action → CondKeeps s action (action.run s)) →
      (CondKeeps s action (action.run s) ↔ NotOvertaken s action (action.run s)) :=
    fun hwake hkeeps => iff_of_true (hkeeps hwake) hwake.notOvertaken
  cases action with
  | step t => exact keeps_step_iff hslots h hfew henabled.2
  | lock t | unlock t | wait t =>
    refine hmove trivial fun hwake => keeps_of_quiet hwake rfl rfl (.inl ?_)
    rw [show (s.thread t).pc = _ from henabled]
    rfl
  | timedwait t null =>
    refine hmove trivial fun hwake => ?_
    rw [CondAction.run]
    split_ifs
    · exact keeps_of_same hwake fun _ => rfl
    · refine keeps_of_quiet hwake rfl rfl (.inl ?_)
      rw [show (s.thread t).pc = _ from henabled]
      rfl
  | signal t broadcast =>
    refine hmove trivial fun hwake => keeps_of_quiet hwake rfl rfl (.inl ?_)
    rcases henabled with hpc | hpc
    · rw [hpc]
      rfl
    · rw [hpc]
      rfl
  | mutexStep t =>
    refine hmove trivial fun hwake => keeps_of_same hwake fun u => ?_
    rw [CondAction.run, CondState.mutexStep]
    split_ifs
    · dsimp only [CondState.set]
      by_cases hu : u = t
      · rw [hu, update_self]
      · rw [update_of_ne hu]
    · rfl
  | mutexWake t woken => exact hmove trivial fun hwake => keeps_of_same hwake fun _ => rfl
  | timeOut t =>
    refine hmove trivial fun hwake => ?_
    rw [CondAction.run, CondState.awaken]
    split
    · exact keeps_of_quiet hwake rfl rfl (.inr ⟨rfl, nofun⟩)
    · exact keeps_of_same hwake fun _ => rfl

end Keeps

/-! ## Runs -/

/-- Every step keeps what a condition variable promises, in exactly the runs in which no signal
is completed after its waiters were overtaken. -/
theorem condition_keeps_iff {slots : ℕ} (hslots : slots ≤ TLS_MAX_KEYS)
    (run : List (CondAction slots × CondState slots))
    (hrun : Along CondStep (CondState.initial slots) run)
    (hfew : Along (fun s _ _ => FewSignals s) (CondState.initial slots) run) :
    Along CondKeeps (CondState.initial slots) run ↔
      Along NotOvertaken (CondState.initial slots) run := by
  apply along_iff_of_invariant CondInv _ condInv_initial (along_and hrun hfew)
  rintro s action next h ⟨hstep, hfew⟩
  exact ⟨h.run hstep, keeps_iff hslots h hfew hstep⟩

/-- The run of some actions. -/
def condTrace {slots : ℕ} (actions : List (CondAction slots)) :
    List (CondAction slots × CondState slots) :=
  trace CondAction.run (CondState.initial slots) actions

instance (s : MutexState (Fin slots)) : DecidablePred (MutexAction.Enabled s)
  | .lock _ | .trylock _ => inferInstanceAs (Decidable (_ = _))
  | .unlock _ => inferInstanceAs (Decidable (_ ∧ _))
  | .step _ => inferInstanceAs (Decidable (_ ∧ _ ∧ _))
  | .wake _ none => inferInstanceAs (Decidable (_ ∧ ∀ _ : Fin slots, _))
  | .wake _ (some _) => inferInstanceAs (Decidable (_ ∧ _))

instance (s : CondState slots) : DecidablePred (CondAction.Enabled s)
  | .lock _ | .unlock _ | .wait _ | .timedwait _ _ | .timeOut _ => inferInstanceAs (Decidable (_ = _))
  | .signal _ _ => inferInstanceAs (Decidable (_ ∨ _))
  | .step _ => inferInstanceAs (Decidable (_ ∧ _))
  | .mutexStep t => inferInstanceAs (Decidable ((MutexAction.step t).Enabled s.mutex))
  | .mutexWake t woken => inferInstanceAs (Decidable ((MutexAction.wake t woken).Enabled s.mutex))

instance (s : CondState slots) : Decidable (FewSignals s) := inferInstanceAs (Decidable (∀ _, _))

instance (s : CondState slots) (t u : Fin slots) : Decidable (s.Waiter t u) :=
  inferInstanceAs (Decidable (_ ∧ _))

instance (s : CondState slots) (t : Fin slots) : Decidable (s.Overtaken t) :=
  inferInstanceAs (Decidable (_ ∧ ∃ _ : Fin slots, _ ∧ _ ∧ ∀ _ : Fin slots, _))

instance (s next : CondState slots) (action : CondAction slots) :
    Decidable (NotOvertaken s action next) :=
  match action with
  | .step _ => inferInstanceAs (Decidable (∀ _ : Bool, _ → ¬ _))
  | .lock _ | .unlock _ | .wait _ | .timedwait _ _ | .signal _ _ | .mutexStep _ | .mutexWake _ _
  | .timeOut _ => .isTrue trivial

instance (s next : CondState slots) (action : CondAction slots) :
    Decidable (SignalWakes s action next) :=
  match action with
  | .step _ => inferInstanceAs (Decidable (∀ _ : Bool, _ → (∃ _ : Fin slots, _) → ∃ _ : Fin slots, _))
  | .lock _ | .unlock _ | .wait _ | .timedwait _ _ | .signal _ _ | .mutexStep _ | .mutexWake _ _
  | .timeOut _ => .isTrue trivial

theorem condTrace_run {actions : List (CondAction slots)}
    (henabled : Along (fun s action _ => action.Enabled s) (CondState.initial slots)
      (condTrace actions)) : Along CondStep (CondState.initial slots) (condTrace actions) :=
  along_trace_of_enabled _ henabled

/-- A thread locks the mutex and waits until it sleeps. -/
def fallAsleep (t : Fin slots) : List (CondAction slots) :=
  [.lock t, .mutexStep t, .step t, .wait t, .step t, .mutexStep t, .mutexStep t, .step t, .step t]

/-- One thread waits, and another signals it. -/
def signalled : List (CondAction 2) :=
  fallAsleep 0 ++ [.signal 1 false, .step 1, .step 1, .mutexStep 0, .step 0, .step 0]

theorem condition_keeps_signalled :
    Along CondStep (CondState.initial 2) (condTrace signalled) ∧
      Along CondKeeps (CondState.initial 2) (condTrace signalled) :=
  have hrun : Along CondStep (CondState.initial 2) (condTrace signalled) :=
    condTrace_run (by decide +kernel)
  have hfew : Along (fun s _ _ => FewSignals s) (CondState.initial 2) (condTrace signalled) := by
    decide +kernel
  have hnot : Along NotOvertaken (CondState.initial 2) (condTrace signalled) := by
    decide +kernel
  ⟨hrun, (condition_keeps_iff (by decide) _ hrun hfew).mpr hnot⟩

/-- One thread waits, another has begun to signal it, and a third begins to wait. -/
def overtaken {slots : ℕ} (first signaller late : Fin slots) : List (CondAction slots) :=
  fallAsleep first ++ [.signal signaller false, .step signaller] ++ fallAsleep late ++
    [.step signaller]

/-- A thread begins to wait between the addition and the wake of a signal, and is the one that
is woken. -/
theorem not_along_condKeeps :
    ∃ run : List (CondAction 3 × CondState 3),
      Along CondStep (CondState.initial 3) run ∧
        Along (fun s _ _ => FewSignals s) (CondState.initial 3) run ∧
        ¬ Along CondKeeps (CondState.initial 3) run := by
  refine ⟨condTrace (overtaken 1 2 0), condTrace_run (by decide +kernel), by decide +kernel, fun h => ?_⟩
  have hsignal : ¬ Along SignalWakes (CondState.initial 3) (condTrace (overtaken 1 2 0)) := by
    decide +kernel
  exact hsignal (h.mono fun _ _ _ hkeeps => hkeeps.signal)

end EigenOS.Pthread
