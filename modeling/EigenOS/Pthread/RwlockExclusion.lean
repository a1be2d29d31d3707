import EigenOS.Pthread.MutexClients
import EigenOS.Pthread.Rwlock

/-!
# A writer is alone

Whoever reads or writes the fields of the lock has the internal mutex, as long as no try is
called: a try takes the result of `pthread_mutex_trylock` for its opposite.
-/

namespace EigenOS.Pthread

open EigenOS.Transition Function

/-- What a thread has to do with the internal mutex. -/
def RwPc.use : RwPc → MutexUse
  | .outside | .condWait _ _ | .condAsleep _ _ => .without
  | .rdLock | .wrLock | .unLock | .condLock _ _ => .locking
  | .leaving | .condUnlock _ _ => .unlocking
  | .tryLock _ | .tryWriter _ | .tryOther _ | .tryLoad | .tryStore _ | .trySetWriter
  | .tryUnlock _ => .trying
  | _ => .within

variable {Thread : Type*}

/-- The fields tell of the locks that the threads have. -/
structure Counted (d : RwData Thread) : Prop where
  writer : d.writer = true ↔ d.writing ≠ []
  writing : d.writing.length ≤ 1
  readers : d.readers = d.reading.length
  exclusive : d.writing ≠ [] → d.reading = []
  bound : d.reading.length < 2 ^ 31

/-- What a thread knows of the fields at a place. -/
def Knows (t : Thread) (d : RwData Thread) : RwPc → Prop
  | .rdWaiting | .rdLoad | .wrReaders => d.writer = false
  | .rdStore readers => d.writer = false ∧ readers = d.readers
  | .wrClearWaiting | .wrSetWriter => d.writer = false ∧ d.readers ≤ 0
  | .unLock | .unWriter => t ∈ d.reading ∨ t ∈ d.writing
  | .unClear => t ∈ d.writing
  | .unReaders | .unLoad => d.writer = false ∧ t ∈ d.reading
  | .unStore readers => d.writer = false ∧ t ∈ d.reading ∧ readers = d.readers
  | _ => True

structure RwInv (s : RwState Thread) : Prop where
  held : Held s.mutex
  taken : s.mutex.locked ≠ 0 → ∃ t, s.mutex.holds t = true
  counted : Counted s.data
  linked : ∀ t, Linked (s.pc t).use (s.mutex.pc t) (s.mutex.holds t)
  knows : ∀ t, Knows t s.data (s.pc t)

theorem RwInv.disciplined {s : RwState Thread} (h : RwInv s) :
    Disciplined RwPc.use s.mutex s.pc := ⟨h.held, h.taken, h.linked⟩

theorem rwInv_initial : RwInv (RwState.initial Thread) where
  held := held_initial
  taken h := absurd rfl h
  counted := ⟨⟨nofun, fun h => absurd rfl h⟩, Nat.zero_le _, rfl, fun _ => rfl, Nat.two_pow_pos 31⟩
  linked _ := ⟨rfl, rfl⟩
  knows _ := trivial

theorem RwInv.exclusive {s : RwState Thread} (h : RwInv s) : RwExclusive s :=
  ⟨h.counted.writing, h.counted.exclusive⟩

theorem RwInv.mutexFree {s : RwState Thread} (h : RwInv s) : MutexFree s := by
  intro houtside
  apply h.disciplined.free
  intro t
  rw [houtside t]
  rfl

/-! ## The fields -/

theorem Counted.writing_eq_nil {d : RwData Thread} (h : Counted d) (hwriter : d.writer = false) :
    d.writing = [] := by
  by_contra hne
  exact nomatch hwriter.symm.trans (h.writer.mpr hne)

theorem Counted.addReader {d : RwData Thread} (h : Counted d) (t : Thread)
    (hwriter : d.writer = false) (hbound : d.reading.length + 1 < 2 ^ 31) :
    Counted (d.addReader t d.readers) where
  writer := h.writer
  writing := h.writing
  readers := by
    have hreaders := h.readers
    have hsum : wrapInt (d.readers + 1) = (t :: d.reading).length := by
      rw [wrapInt_eq (by omega) (by omega), List.length_cons]
      omega
    exact hsum
  exclusive hne := absurd (h.writing_eq_nil hwriter) hne
  bound := hbound

section Fields

variable [DecidableEq Thread] {d : RwData Thread} {t : Thread}

theorem Counted.removeReader (h : Counted d) (hwriter : d.writer = false)
    (hreading : t ∈ d.reading) : Counted (d.removeReader t d.readers) := by
  have hlength := List.length_erase_of_mem hreading
  have hpos := List.length_pos_of_mem hreading
  have hbound := h.bound
  have hreaders := h.readers
  have hrest : wrapInt (d.readers - 1) = (d.reading.erase t).length := by
    rw [wrapInt_eq (by omega) (by omega), hlength]
    omega
  constructor
  · exact h.writer
  · exact h.writing
  · exact hrest
  · exact fun hne => absurd (h.writing_eq_nil hwriter) hne
  · rw [RwData.removeReader, hlength]
    omega

omit [DecidableEq Thread] in
theorem Counted.setWriter (h : Counted d) (t : Thread) (hwriter : d.writer = false)
    (hreaders : d.readers ≤ 0) : Counted (d.setWriter t) := by
  have hnone : d.reading = [] := by
    have hcount := h.readers
    exact List.length_eq_zero_iff.mp (by omega)
  constructor
  · exact ⟨fun _ => List.cons_ne_nil _ _, fun _ => rfl⟩
  · rw [RwData.setWriter, h.writing_eq_nil hwriter]
    exact le_refl 1
  · exact h.readers
  · exact fun _ => hnone
  · exact h.bound

theorem Counted.clearWriter (h : Counted d) (hwriting : t ∈ d.writing) :
    Counted (d.clearWriter t) := by
  have hnone : d.writing.erase t = [] := by
    have hlength := List.length_erase_of_mem hwriting
    have hwas := h.writing
    exact List.length_eq_zero_iff.mp (by omega)
  constructor
  · rw [RwData.clearWriter, hnone]
    exact ⟨nofun, fun hne => absurd rfl hne⟩
  · rw [RwData.clearWriter, hnone]
    exact Nat.zero_le 1
  · exact h.readers
  · rw [RwData.clearWriter, hnone]
    exact fun hne => absurd rfl hne
  · exact h.bound

end Fields

/-! ## Moves of one thread -/

section Steps

variable [DecidableEq Thread] {s : RwState Thread} {t : Thread} {p : RwPc}

theorem RwInv.move (h : RwInv s) (pc : Pc) (seq : Bool → UInt32) {data : RwData Thread}
    (hstore : pc = .unlockStore → s.mutex.holds t = true)
    (hlinked : Linked p.use pc (s.mutex.holds t)) (hcounted : Counted data)
    (hknows : Knows t data p) (hothers : ∀ u, u ≠ t → Knows u data (s.pc u)) :
    RwInv ⟨s.mutex.goTo t pc, seq, data, update s.pc t p⟩ where
  held := h.held.goTo hstore
  taken := h.taken
  counted := hcounted
  linked := (h.disciplined.move pc hstore hlinked).linked
  knows := by
    intro u
    by_cases heq : u = t
    · rw [heq]
      dsimp only
      rw [update_self]
      exact hknows
    · dsimp only
      rw [update_of_ne heq]
      exact hothers u heq

omit [DecidableEq Thread] in
/-- What the others know does not depend on the fields, but for the lock that they are about to
give back. -/
theorem RwInv.others (h : RwInv s) {data : RwData Thread} (hholds : s.mutex.holds t = true)
    (hkept : ∀ u, u ≠ t → u ∈ s.data.reading ∨ u ∈ s.data.writing →
      u ∈ data.reading ∨ u ∈ data.writing) :
    ∀ u, u ≠ t → Knows u data (s.pc u) := by
  intro u hne
  have hlinked := h.linked u
  have hknows := h.knows u
  have hwithin : ∀ {pc}, s.pc u = pc → pc.use ≠ .within := by
    intro pc hpc huse
    rw [hpc, huse] at hlinked
    exact hne (h.held.unique u t hlinked.2 hholds)
  cases hpc : s.pc u with
  | unLock =>
    rw [hpc] at hknows
    exact hkept u hne hknows
  | rdWaiting | rdLoad | rdStore | wrReaders | wrClearWaiting | wrSetWriter | unWriter | unClear
  | unReaders | unLoad | unStore => exact absurd rfl (hwithin hpc)
  | _ => trivial

theorem RwInv.goTo (h : RwInv s) (houtside : s.mutex.pc t = .outside)
    (hlinked : Linked p.use .outside (s.mutex.holds t)) (hknows : Knows t s.data p) :
    RwInv (s.goTo t p) := by
  have hmoved := h.move .outside s.seq nofun hlinked h.counted hknows fun u _ => h.knows u
  have hmutex : s.mutex.goTo t .outside = s.mutex := by
    rw [MutexState.goTo, ← houtside, update_eq_self]
  rwa [hmutex] at hmoved

theorem RwInv.unlockMutex (h : RwInv s) {data : RwData Thread}
    (hholds : s.mutex.holds t = true) (huse : p.use = .unlocking) (hcounted : Counted data)
    (hknows : Knows t data p)
    (hkept : ∀ u, u ≠ t → u ∈ s.data.reading ∨ u ∈ s.data.writing →
      u ∈ data.reading ∨ u ∈ data.writing) :
    RwInv ((s.store data).unlockMutex t p) := by
  apply h.move .unlockStore s.seq (fun _ => hholds) _ hcounted hknows (h.others hholds hkept)
  rw [huse]
  exact hholds

theorem RwInv.lockMutex (h : RwInv s) (hholds : s.mutex.holds t = false)
    (huse : p.use = .locking) (hknows : Knows t s.data p) : RwInv (s.lockMutex t p) := by
  apply h.move .lockExchange s.seq nofun _ h.counted hknows fun u _ => h.knows u
  rw [huse]
  exact hholds

theorem RwInv.store (h : RwInv s) {data : RwData Thread} (houtside : s.mutex.pc t = .outside)
    (hholds : s.mutex.holds t = true) (huse : p.use = .within) (hcounted : Counted data)
    (hknows : Knows t data p)
    (hkept : ∀ u, u ≠ t → u ∈ s.data.reading ∨ u ∈ s.data.writing →
      u ∈ data.reading ∨ u ∈ data.writing) :
    RwInv ((s.store data).goTo t p) := by
  have hlinked : Linked p.use .outside (s.mutex.holds t) := by
    rw [huse]
    exact ⟨rfl, hholds⟩
  have hmoved := h.move .outside s.seq nofun hlinked hcounted hknows (h.others hholds hkept)
  have hmutex : s.mutex.goTo t .outside = s.mutex := by
    rw [MutexState.goTo, ← houtside, update_eq_self]
  rwa [hmutex] at hmoved

/-- The thread is about to count itself as a reader. -/
def RwPc.counting : RwPc → Bool
  | .rdStore _ => true
  | _ => false

/-- No try is called, and no rdlock takes the count past the greatest `int`. -/
def NoTry (s : RwState Thread) : RwAction Thread → RwState Thread → Prop
  | .call _ .tryrdlock, _ | .call _ .trywrlock, _ => False
  | .step t, _ => (s.pc t).counting = true → s.data.reading.length + 1 < 2 ^ 31
  | _, _ => True

theorem RwInv.within (h : RwInv s) (houtside : s.mutex.pc t = .outside)
    (hbefore : (s.pc t).use = .locking ∨ (s.pc t).use = .within) (huse : p.use = .within)
    (hknows : Knows t s.data p) : RwInv (s.goTo t p) := by
  apply h.goTo houtside _ hknows
  rw [huse]
  exact ⟨rfl, h.disciplined.holds houtside hbefore⟩

theorem RwInv.without (h : RwInv s) (houtside : s.mutex.pc t = .outside)
    (hbefore : (s.pc t).use = .unlocking ∨ (s.pc t).use = .without) (huse : p.use = .without)
    (hknows : Knows t s.data p) : RwInv (s.goTo t p) := by
  apply h.goTo houtside _ hknows
  rw [huse]
  exact ⟨rfl, h.disciplined.not_holds houtside hbefore⟩

theorem RwInv.step (h : RwInv s) (houtside : s.mutex.pc t = .outside)
    (hguard : NoTry s (.step t) (s.step t)) : RwInv (s.step t) := by
  have hknows := h.knows t
  have hholds := h.disciplined.holds (t := t) houtside
  have hnot := h.disciplined.not_holds (t := t) houtside
  have hwithin : ∀ {p}, ((s.pc t).use = .locking ∨ (s.pc t).use = .within) → p.use = .within →
      Knows t s.data p → RwInv (s.goTo t p) := h.within houtside
  have hwithout : ∀ {p}, ((s.pc t).use = .unlocking ∨ (s.pc t).use = .without) →
      p.use = .without → Knows t s.data p → RwInv (s.goTo t p) := h.without houtside
  rw [RwState.step]
  cases hpc : s.pc t with
  | outside | condAsleep | noticeWake =>
    exact h
  | tryLock | tryWriter | tryOther | tryLoad | tryStore | trySetWriter | tryUnlock =>
    have hlinked := h.linked t
    rw [hpc] at hlinked
    exact hlinked.elim
  | rdLock | wrLock | condLock =>
    rw [hpc] at hwithin
    exact hwithin (.inl rfl) rfl trivial
  | unLock =>
    rw [hpc] at hwithin hknows
    exact hwithin (.inl rfl) rfl hknows
  | rdWriter | wrWriter =>
    rw [hpc] at hwithin
    dsimp only
    by_cases hwriter : s.data.writer = true
    · rw [if_pos hwriter]
      exact hwithin (.inr rfl) rfl trivial
    · rw [if_neg hwriter]
      exact hwithin (.inr rfl) rfl ((Bool.not_eq_true _).mp hwriter)
  | rdWaiting =>
    rw [hpc] at hwithin hknows
    dsimp only
    split_ifs
    · exact hwithin (.inr rfl) rfl trivial
    · exact hwithin (.inr rfl) rfl hknows
  | rdLoad =>
    rw [hpc] at hwithin hknows
    exact hwithin (.inr rfl) rfl ⟨hknows, rfl⟩
  | rdStore readers =>
    rw [hpc] at hknows hholds
    have hbound := hguard (by rw [hpc]; rfl)
    obtain ⟨hwriter, hreaders⟩ := hknows
    dsimp only
    rw [hreaders]
    exact h.unlockMutex (hholds (.inr rfl)) rfl (h.counted.addReader t hwriter hbound) trivial
      fun u _ hmem => hmem.imp_left (List.mem_cons_of_mem _)
  | wrSetWaiting =>
    rw [hpc] at hholds
    exact h.store houtside (hholds (.inr rfl)) rfl
      ⟨h.counted.writer, h.counted.writing, h.counted.readers, h.counted.exclusive,
        h.counted.bound⟩ trivial fun _ _ => id
  | wrReaders =>
    rw [hpc] at hwithin hknows
    dsimp only
    by_cases hreaders : 0 < s.data.readers
    · rw [if_pos hreaders]
      exact hwithin (.inr rfl) rfl trivial
    · rw [if_neg hreaders]
      exact hwithin (.inr rfl) rfl ⟨hknows, Int.not_lt.mp hreaders⟩
  | wrClearWaiting =>
    rw [hpc] at hholds hknows
    exact h.store houtside (hholds (.inr rfl)) rfl
      ⟨h.counted.writer, h.counted.writing, h.counted.readers, h.counted.exclusive,
        h.counted.bound⟩ hknows fun _ _ => id
  | wrSetWriter =>
    rw [hpc] at hholds hknows
    exact h.unlockMutex (hholds (.inr rfl)) rfl (h.counted.setWriter t hknows.1 hknows.2) trivial
      fun u _ hmem => hmem.imp_right (List.mem_cons_of_mem _)
  | condLoad cond =>
    rw [hpc] at hholds
    exact h.unlockMutex (hholds (.inr rfl)) rfl h.counted trivial fun _ _ => id
  | condUnlock cond seq | leaving =>
    rw [hpc] at hwithout
    exact hwithout (.inl rfl) rfl trivial
  | condWait cond seq =>
    rw [hpc] at hwithout hnot
    dsimp only
    split_ifs
    · exact hwithout (.inr rfl) rfl trivial
    · exact h.lockMutex (hnot (.inr rfl)) rfl trivial
  | condCheck cond seq =>
    rw [hpc] at hwithin
    dsimp only
    split_ifs
    · exact hwithin (.inr rfl) rfl trivial
    · exact hwithin (.inr rfl) rfl trivial
    · exact hwithin (.inr rfl) rfl trivial
  | unWriter =>
    rw [hpc] at hwithin hknows
    dsimp only
    by_cases hwriter : s.data.writer = true
    · have hnone := h.counted.exclusive (h.counted.writer.mp hwriter)
      rw [if_pos hwriter]
      apply hwithin (.inr rfl) rfl
      exact hknows.resolve_left (by rw [hnone]; exact List.not_mem_nil)
    · have hwriter' := (Bool.not_eq_true _).mp hwriter
      have hnone := h.counted.writing_eq_nil hwriter'
      rw [if_neg hwriter]
      apply hwithin (.inr rfl) rfl
      exact ⟨hwriter', hknows.resolve_right (by rw [hnone]; exact List.not_mem_nil)⟩
  | unClear =>
    rw [hpc] at hholds hknows
    exact h.store houtside (hholds (.inr rfl)) rfl (h.counted.clearWriter hknows) trivial
      fun u hne hmem => hmem.imp_right (List.mem_erase_of_ne hne).mpr
  | unReaders =>
    rw [hpc] at hwithin hholds hknows
    dsimp only
    split_ifs
    · exact hwithin (.inr rfl) rfl hknows
    · exact h.unlockMutex (hholds (.inr rfl)) rfl h.counted trivial fun _ _ => id
  | unLoad =>
    rw [hpc] at hwithin hknows
    exact hwithin (.inr rfl) rfl ⟨hknows.1, hknows.2, rfl⟩
  | unStore readers =>
    rw [hpc] at hholds hknows
    obtain ⟨hwriter, hreading, hreaders⟩ := hknows
    dsimp only
    rw [hreaders]
    have hcounted := h.counted.removeReader hwriter hreading
    exact h.store houtside (hholds (.inr rfl)) rfl hcounted trivial
      fun u hne hmem => hmem.imp_left (List.mem_erase_of_ne hne).mpr
  | unTest =>
    rw [hpc] at hwithin hholds
    dsimp only
    split_ifs
    · exact hwithin (.inr rfl) rfl trivial
    · exact h.unlockMutex (hholds (.inr rfl)) rfl h.counted trivial fun _ _ => id
  | noticeAdd notice =>
    rw [hpc] at hwithin
    have hmoved := hwithin (p := .noticeWake notice) (.inr rfl) rfl trivial
    exact ⟨hmoved.held, hmoved.taken, hmoved.counted, hmoved.linked, hmoved.knows⟩

/-! ## Steps of the mutex -/

omit [DecidableEq Thread] in
theorem RwInv.setMutex (h : RwInv s) {m : MutexState Thread}
    (hm : Disciplined RwPc.use m s.pc) : RwInv { s with mutex := m } :=
  ⟨hm.held, hm.taken, h.counted, hm.linked, h.knows⟩

/-! ## Wakes of the condition variables -/

theorem RwInv.wake (h : RwInv s) (u : Thread) : RwInv (s.wake u) := by
  cases hpc : s.pc u with
  | condAsleep cond seq =>
    have hnot := (h.disciplined.without_holds (t := u) (by rw [hpc]; rfl)).2
    rw [RwState.wake, hpc]
    exact h.lockMutex hnot rfl trivial
  | _ =>
    rw [RwState.wake, hpc]
    exact h

theorem wake_awake {notice : Notice} (hpc : s.pc t = .noticeWake notice) (u : Thread) :
    (s.wake u).pc t = .noticeWake notice ∧ (s.wake u).mutex.pc t = s.mutex.pc t := by
  cases hpcu : s.pc u with
  | condAsleep cond seq =>
    have hne : t ≠ u := by
      intro heq
      rw [heq, hpcu] at hpc
      exact nomatch hpc
    rw [RwState.wake, hpcu]
    exact ⟨(update_of_ne hne _ _).trans hpc, update_of_ne hne _ _⟩
  | _ =>
    rw [RwState.wake, hpcu]
    exact ⟨hpc, rfl⟩

theorem RwInv.condWake (h : RwInv s) {notice : Notice} (houtside : s.mutex.pc t = .outside)
    (hpc : s.pc t = .noticeWake notice) (woken : List Thread) :
    RwInv ((woken.foldl RwState.wake s).noticed t notice) := by
  induction woken generalizing s with
  | nil =>
    have huse : (s.pc t).use = .locking ∨ (s.pc t).use = .within := .inr (by rw [hpc]; rfl)
    cases notice with
    | broadcastWrite => exact h.within houtside huse rfl trivial
    | broadcastRead | signalWrite =>
      exact h.unlockMutex (h.disciplined.holds houtside huse) rfl h.counted trivial fun _ _ => id
  | cons u woken ih =>
    obtain ⟨hpcs, hmutex⟩ := wake_awake hpc u
    exact ih (h.wake u) (hmutex.trans houtside) hpcs

/-! ## Runs -/

omit [DecidableEq Thread] in
theorem RwInv.not_trying (h : RwInv s) (t : Thread) : ¬ (s.pc t).Trying := by
  intro htrying
  have hlinked := h.linked t
  cases hpc : s.pc t with
  | tryLock | tryWriter | tryOther | tryLoad | tryStore | trySetWriter | tryUnlock =>
    rw [hpc] at hlinked
    exact hlinked
  | _ =>
    rw [hpc] at htrying
    exact htrying

omit [DecidableEq Thread] in
theorem trying_of_tryReturns {ok : Bool} (hreturns : s.tryReturns t = some ok) :
    (s.pc t).Trying := by
  rw [RwState.tryReturns] at hreturns
  cases hpc : s.pc t with
  | tryLock | tryUnlock => exact trivial
  | _ =>
    rw [hpc] at hreturns
    exact nomatch hreturns

omit [DecidableEq Thread] in
theorem RwInv.triesRightly (h : RwInv s) (action : RwAction Thread) (next : RwState Thread) :
    TriesRightly s action next where
  writes t _ htrying := absurd htrying (h.not_trying t)
  fails t _ hreturns := absurd (trying_of_tryReturns hreturns) (h.not_trying t)
  succeeds t _ hreturns := absurd (trying_of_tryReturns hreturns) (h.not_trying t)

theorem RwInv.call (h : RwInv s) {call : RwCall} {next : RwState Thread}
    (henabled : (RwAction.call t call).Enabled s) (hguard : NoTry s (.call t call) next) :
    RwInv ((RwAction.call t call).run s) := by
  have hnot : s.pc t = .outside → s.mutex.holds t = false := by
    intro hpc
    exact (h.disciplined.without_holds (by rw [hpc]; rfl)).2
  cases call with
  | rdlock | wrlock => exact h.lockMutex (hnot henabled) rfl trivial
  | unlock => exact h.lockMutex (hnot henabled.1) rfl henabled.2
  | tryrdlock | trywrlock => exact hguard.elim

theorem RwInv.run {action : RwAction Thread} {next : RwState Thread} (h : RwInv s)
    (hguard : NoTry s action next) (hstep : RwStep s action next) : RwInv next := by
  obtain ⟨henabled, rfl⟩ := hstep
  cases action with
  | call t call => exact h.call henabled hguard
  | step t => exact h.step henabled.1 hguard
  | mutexStep t => exact h.setMutex (h.disciplined.step t)
  | mutexWake t woken => exact h.setMutex (h.disciplined.wake henabled)
  | condWake t notice woken => exact h.condWake henabled.1 henabled.2.1 woken

end Steps

variable [DecidableEq Thread]

/-- In a run where no try is called a writer is alone, and the internal mutex is free while no
operation is in progress. -/
theorem always_rwExclusive {run : List (RwAction Thread × RwState Thread)}
    (hrun : Along RwStep (RwState.initial Thread) run)
    (hguard : Along NoTry (RwState.initial Thread) run) :
    Along TriesRightly (RwState.initial Thread) run ∧
      Always (fun s => RwExclusive s ∧ MutexFree s) (RwState.initial Thread) run := by
  constructor
  · exact along_of_guarded RwInv
      (fun _ action next h hguard hstep => ⟨h.run hguard hstep, h.triesRightly action next⟩)
      rwInv_initial hrun hguard
  · apply Always.mono fun s (h : RwInv s) => ⟨h.exclusive, h.mutexFree⟩
    exact always_of_guarded RwInv (fun _ _ _ h hguard hstep => h.run hguard hstep) rwInv_initial
      hrun hguard

/-- The run that a list of actions of two threads makes. -/
def rwTrace (actions : List (RwAction Bool)) : List (RwAction Bool × RwState Bool) :=
  trace (fun s action => action.run s) (RwState.initial Bool) actions

instance (cond : Bool) : DecidablePred (RwPc.AsleepOn cond) := fun pc =>
  match pc with
  | .condAsleep cond' _ => inferInstanceAs (Decidable (cond' = cond))
  | .outside | .rdLock | .rdWriter | .rdWaiting | .rdLoad | .rdStore _ | .wrLock | .wrSetWaiting
  | .wrWriter | .wrReaders | .wrClearWaiting | .wrSetWriter | .condLoad _ | .condUnlock _ _
  | .condWait _ _ | .condLock _ _ | .condCheck _ _ | .tryLock _ | .tryWriter _ | .tryOther _
  | .tryLoad | .tryStore _ | .trySetWriter | .tryUnlock _ | .unLock | .unWriter | .unClear
  | .unReaders | .unLoad | .unStore _ | .unTest | .noticeAdd _ | .noticeWake _ | .leaving =>
    .isFalse id

instance (pc : RwPc) : Decidable (∀ cond seq, pc ≠ .condAsleep cond seq) :=
  decidable_of_iff (¬ pc.AsleepOn true ∧ ¬ pc.AsleepOn false) <| by
    constructor
    · rintro ⟨hread, hwrite⟩ cond seq rfl
      cases cond with
      | true => exact hread rfl
      | false => exact hwrite rfl
    · intro hawake
      constructor
      all_goals
        intro hasleep
        cases pc with
        | condAsleep cond seq => exact hawake cond seq rfl
        | _ => exact hasleep

instance (pc : RwPc) : Decidable (∀ notice, pc ≠ .noticeWake notice) :=
  decidable_of_iff (pc ≠ .noticeWake .broadcastWrite ∧ pc ≠ .noticeWake .broadcastRead ∧
    pc ≠ .noticeWake .signalWrite) <| by
    constructor
    · rintro ⟨hwrite, hread, hsignal⟩ notice
      cases notice with
      | broadcastWrite => exact hwrite
      | broadcastRead => exact hread
      | signalWrite => exact hsignal
    · exact fun hnone => ⟨hnone _, hnone _, hnone _⟩

instance (s : RwState Bool) : DecidablePred (RwAction.Enabled s)
  | .call _ .unlock => inferInstanceAs (Decidable (_ ∧ (_ ∨ _)))
  | .call _ .rdlock | .call _ .tryrdlock | .call _ .wrlock | .call _ .trywrlock =>
    inferInstanceAs (Decidable (_ = _))
  | .step _ => inferInstanceAs (Decidable (_ ∧ _ ∧ _ ∧ _))
  | .mutexStep t => inferInstanceAs (Decidable ((MutexAction.step t).Enabled s.mutex))
  | .mutexWake t woken => inferInstanceAs (Decidable ((MutexAction.wake t woken).Enabled s.mutex))
  | .condWake _ _ _ =>
    inferInstanceAs (Decidable (_ ∧ _ ∧ _ ∧ (∀ u ∈ _, _) ∧ _ ∧ (_ → ∀ _ : Bool, _ → _)))

theorem rwTrace_run {actions : List (RwAction Bool)}
    (h : Along (fun s action _ => action.Enabled s) (RwState.initial Bool) (rwTrace actions)) :
    Along RwStep (RwState.initial Bool) (rwTrace actions) :=
  along_trace_of_enabled _ h

/-- A thread reads, another waits for it to write, and writes when it is woken. -/
def waitingWriter : List (RwAction Bool) :=
  [RwAction.call true .rdlock, .mutexStep true] ++ List.replicate 5 (RwAction.step true) ++
    [RwAction.mutexStep true, .mutexStep true, .step true] ++
    [RwAction.call false .wrlock, .mutexStep false] ++
    List.replicate 5 (RwAction.step false) ++
    [RwAction.mutexStep false, .mutexStep false, .step false, .step false] ++
    [RwAction.call true .unlock, .mutexStep true] ++ List.replicate 7 (RwAction.step true) ++
    [RwAction.condWake true .signalWrite [false], .mutexStep true, .mutexStep true,
      .step true] ++
    [RwAction.mutexStep false] ++ List.replicate 6 (RwAction.step false) ++
    [RwAction.mutexStep false, .mutexStep false, .step false]

instance (s next : RwState Bool) (action : RwAction Bool) : Decidable (NoTry s action next) :=
  match action with
  | .call _ .tryrdlock | .call _ .trywrlock => .isFalse id
  | .call _ .rdlock | .call _ .wrlock | .call _ .unlock | .mutexStep _ | .mutexWake _ _
  | .condWake _ _ _ => .isTrue trivial
  | .step _ => inferInstanceAs (Decidable (_ → _))

theorem always_rwExclusive_waitingWriter :
    Along TriesRightly (RwState.initial Bool) (rwTrace waitingWriter) ∧
      Always (fun s => RwExclusive s ∧ MutexFree s) (RwState.initial Bool)
        (rwTrace waitingWriter) :=
  always_rwExclusive (rwTrace_run (by decide +kernel)) (by decide +kernel)

/-- A try on a free lock returns that it is busy, with the internal mutex taken. -/
theorem not_always_rwExclusive :
    ∃ run : List (RwAction Bool × RwState Bool), Along RwStep (RwState.initial Bool) run ∧
      ¬ (Along TriesRightly (RwState.initial Bool) run ∧
        Always (fun s => RwExclusive s ∧ MutexFree s) (RwState.initial Bool) run) := by
  refine ⟨rwTrace [.call true .tryrdlock, .step true], rwTrace_run (by decide +kernel), ?_⟩
  rintro ⟨-, halways⟩
  exact nomatch halways.final.2 (by decide +kernel)

end EigenOS.Pthread
