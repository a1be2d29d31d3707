import Mathlib.Data.Finset.Card
import EigenOS.Pthread.RecursiveMutex
import EigenOS.Library.Tally
import EigenOS.Library.Transition

/-!
# The semaphore of the pthread library

The count is loaded, compared and exchanged, and added to by atomic steps.  A thread that did not
get the count sleeps on it for as long as it has the value the thread has seen last.
-/

namespace EigenOS.Pthread

/-- The atomic step that a thread is before.  A value is what the thread has seen of the count. -/
inductive SemPc where
  | outside
  | waitLoad
  | waitExchange (c : ℤ)
  | futexWait (c : ℤ)
  | asleep
  | tryLoad
  | tryExchange (c : ℤ)
  | postAdd
  | postWake
  deriving DecidableEq

/-- `sem_t` with the threads that use it. -/
structure SemState (Thread : Type*) where
  count : ℤ
  pc : Thread → SemPc
  /-- The posts that have added to the count. -/
  posts : ℕ
  /-- The waits, and the successful trywaits, that have taken from the count. -/
  waits : ℕ

/-- `sem_init`, which refuses values that an `int` does not hold. -/
def SemState.initial (Thread : Type*) (value : ℕ) : SemState Thread where
  count := value
  pc _ := .outside
  posts := 0
  waits := 0

section Steps

variable {Thread : Type*} [DecidableEq Thread]

def SemState.goTo (s : SemState Thread) (t : Thread) (pc : SemPc) : SemState Thread :=
  { s with pc := Function.update s.pc t pc }

/-- The compare-and-exchange of a wait or a trywait takes one from the count. -/
def SemState.take (s : SemState Thread) (t : Thread) (c : ℤ) : SemState Thread :=
  { s with count := c - 1, waits := s.waits + 1 }.goTo t .outside

/-- The atomic step that a thread is before.  A failed compare-and-exchange stores the count it
found in `c`. -/
def SemState.step (s : SemState Thread) (t : Thread) : SemState Thread :=
  match s.pc t with
  | .waitLoad =>
      if 0 < s.count then s.goTo t (.waitExchange s.count) else s.goTo t (.futexWait s.count)
  | .waitExchange c => if s.count = c then s.take t c else s.goTo t (.futexWait s.count)
  | .futexWait c => if s.count = c then s.goTo t .asleep else s.goTo t .waitLoad
  | .tryLoad => if 0 < s.count then s.goTo t (.tryExchange s.count) else s.goTo t .outside
  | .tryExchange c => if s.count = c then s.take t c else s.goTo t .outside
  | .postAdd =>
      { s with count := wrapInt (s.count + 1), posts := s.posts + 1 }.goTo t .postWake
  | .outside | .asleep | .postWake => s

inductive SemAction (Thread : Type*) where
  | wait (t : Thread)
  | trywait (t : Thread)
  | post (t : Thread)
  | step (t : Thread)
  /-- `futex_wake(&sem->count, 1)` and the thread it wakes. -/
  | wake (t : Thread) (woken : Option Thread)

def SemAction.run (s : SemState Thread) : SemAction Thread → SemState Thread
  | .wait t => s.goTo t .waitLoad
  | .trywait t => s.goTo t .tryLoad
  | .post t => s.goTo t .postAdd
  | .step t => s.step t
  | .wake t none => s.goTo t .outside
  | .wake t (some woken) => (s.goTo woken .waitLoad).goTo t .outside

/-- When a thread can act.  A wake finds a sleeper if there is one. -/
def SemAction.Enabled (s : SemState Thread) : SemAction Thread → Prop
  | .wait t => s.pc t = .outside
  | .trywait t => s.pc t = .outside
  | .post t => s.pc t = .outside
  | .step t => s.pc t ≠ .outside ∧ s.pc t ≠ .asleep ∧ s.pc t ≠ .postWake
  | .wake t none => s.pc t = .postWake ∧ ∀ u, s.pc u ≠ .asleep
  | .wake t (some woken) => s.pc t = .postWake ∧ s.pc woken = .asleep

def SemStep (s : SemState Thread) (action : SemAction Thread) (next : SemState Thread) : Prop :=
  action.Enabled s ∧ next = action.run s

/-- No post takes the count past the greatest `int`. -/
def PostsFit (s : SemState Thread) : SemAction Thread → SemState Thread → Prop
  | .step t, _ => s.pc t = .postAdd → s.count + 1 < 2 ^ 31
  | _, _ => True

end Steps

variable {Thread : Type*}

/-- The count is what was there and what was posted, less what was taken. -/
structure SemCounts (value : ℕ) (s : SemState Thread) : Prop where
  count : s.count = value + s.posts - s.waits
  nonneg : 0 ≤ s.count

/-- There is something to take, a thread sleeps for it, and all others are asleep or outside. -/
def SemLostWakeup (s : SemState Thread) : Prop :=
  0 < s.count ∧ (∃ t, s.pc t = .asleep) ∧ ∀ t, s.pc t = .asleep ∨ s.pc t = .outside

end EigenOS.Pthread

/-!
## Sleepers of a semaphore

While a thread sleeps, the count is not greater than the number of threads that are on the way to
look at it or to wake another.  A thread keeps this up unless it falls asleep on a count it has
found to be positive.
-/

namespace EigenOS.Pthread

open EigenOS.Tally EigenOS.Transition Function

/-- The thread looks at the count again, or wakes another that does. -/
def SemPc.UnderWay : SemPc → Prop
  | .waitLoad | .waitExchange _ | .futexWait _ | .postWake => True
  | _ => False

instance : DecidablePred SemPc.UnderWay
  | .waitLoad | .waitExchange _ | .futexWait _ | .postWake => .isTrue trivial
  | .outside | .asleep | .tryLoad | .tryExchange _ | .postAdd => .isFalse id

/-- The value that a compare-and-exchange is tried with is positive. -/
def SemPc.Positive : SemPc → Prop
  | .waitExchange c | .tryExchange c => 0 < c
  | _ => True

variable {Thread : Type*} [Fintype Thread]

def underWay (pc : Thread → SemPc) : ℕ := tally Finset.univ pc SemPc.UnderWay

/-- When a thread falls asleep, there are as many others under way as there is to take. -/
def SleepsSafely (s : SemState Thread) : SemAction Thread → SemState Thread → Prop
  | .step t, next => s.pc t = .futexWait s.count → s.count ≤ underWay next.pc
  | _, _ => True

/-- The count is accounted for, and it is covered while a thread sleeps. -/
structure SemInv (value : ℕ) (s : SemState Thread) : Prop where
  counts : SemCounts value s
  positive : ∀ t, (s.pc t).Positive
  covered : (∃ t, s.pc t = .asleep) → s.count ≤ underWay s.pc

variable {value : ℕ} {s : SemState Thread} {t : Thread}

theorem semInv_initial : SemInv value (SemState.initial Thread value) where
  counts := ⟨by simp [SemState.initial], Int.natCast_nonneg value⟩
  positive _ := trivial
  covered h := nomatch h.choose_spec

theorem SemInv.not_lostWakeup (h : SemInv value s) : ¬ SemLostWakeup s := by
  intro ⟨hpos, hasleep, hall⟩
  have hnone : underWay s.pc = 0 := by
    apply tally_eq_zero
    intro t _ hunderWay
    rcases hall t with hpc | hpc
    · rw [hpc] at hunderWay
      exact hunderWay
    · rw [hpc] at hunderWay
      exact hunderWay
  have hcovered := h.covered hasleep
  rw [hnone] at hcovered
  exact absurd hpos (Int.not_lt.mpr hcovered)

variable [DecidableEq Thread]

theorem underWay_update (pc : Thread → SemPc) (t : Thread) (p : SemPc) :
    underWay (update pc t p) + weight SemPc.UnderWay (pc t) =
      underWay pc + weight SemPc.UnderWay p := tally_update _ _ (Finset.mem_univ t) p

omit [Fintype Thread] in
theorem asleep_of_update {pc : Thread → SemPc} {p : SemPc} (hp : p ≠ .asleep)
    (h : ∃ u, update pc t p u = .asleep) : ∃ u, pc u = .asleep := by
  obtain ⟨u, hu⟩ := h
  by_cases heq : u = t
  · rw [heq, update_self] at hu
    exact absurd hu hp
  · rw [update_of_ne heq] at hu
    exact ⟨u, hu⟩

omit [Fintype Thread] in
theorem positive_update {pc : Thread → SemPc} {p : SemPc} (hpc : ∀ u, (pc u).Positive)
    (hp : p.Positive) (u : Thread) : (update pc t p u).Positive := by
  by_cases heq : u = t
  · rw [heq, update_self]
    exact hp
  · rw [update_of_ne heq]
    exact hpc u

/-- A thread that is not to fall asleep moves, and takes from the count or adds to it no more
than its places cover. -/
theorem SemInv.move (h : SemInv value s) {p : SemPc} {count : ℤ} {posts waits : ℕ}
    (hcounts : count = value + posts - waits) (hnonneg : 0 ≤ count) (hp : p.Positive)
    (hasleep : p ≠ .asleep)
    (hcovers : count + weight SemPc.UnderWay (s.pc t) ≤ s.count + weight SemPc.UnderWay p) :
    SemInv value ⟨count, update s.pc t p, posts, waits⟩ where
  counts := ⟨hcounts, hnonneg⟩
  positive := positive_update h.positive hp
  covered := by
    intro hsleeper
    have hcovered := h.covered (asleep_of_update hasleep hsleeper)
    have hmoved := underWay_update s.pc t p
    dsimp only
    omega

theorem SemInv.goTo (h : SemInv value s) {p : SemPc} (hp : p.Positive) (hasleep : p ≠ .asleep)
    (hcovers : (s.pc t).UnderWay → p.UnderWay) : SemInv value (s.goTo t p) := by
  apply h.move h.counts.count h.counts.nonneg hp hasleep
  by_cases hbefore : (s.pc t).UnderWay
  · rw [weight_of_kind hbefore, weight_of_kind (hcovers hbefore)]
  · rw [weight_of_not hbefore]
    omega

theorem SemInv.take (h : SemInv value s) (hpos : 0 < s.count) (t : Thread) :
    SemInv value (s.take t s.count) := by
  have hcount := h.counts.count
  have hbound : weight SemPc.UnderWay (s.pc t) ≤ 1 := by
    rw [weight]
    split_ifs <;> decide
  have htaken : s.count - 1 = value + s.posts - (s.waits + 1 : ℕ) := by omega
  have hcovers : s.count - 1 + weight SemPc.UnderWay (s.pc t) ≤
      s.count + weight SemPc.UnderWay .outside := by omega
  have hnonneg : 0 ≤ s.count - 1 := by omega
  exact h.move htaken hnonneg trivial nofun hcovers

theorem SemInv.post (h : SemInv value s) (hpc : s.pc t = .postAdd)
    (hfits : s.count + 1 < 2 ^ 31) : SemInv value (s.step t) := by
  have hcount := h.counts.count
  have hnonneg := h.counts.nonneg
  have hadded : s.count + 1 = value + (s.posts + 1 : ℕ) - s.waits := by omega
  have hcovers : s.count + 1 + weight SemPc.UnderWay (s.pc t) ≤
      s.count + weight SemPc.UnderWay .postWake := by
    rw [hpc, weight_of_not id, weight_of_kind trivial]
    omega
  have hnonneg' : 0 ≤ s.count + 1 := by omega
  rw [SemState.step, hpc]
  dsimp only
  rw [wrapInt_eq (by omega) hfits]
  exact h.move hadded hnonneg' trivial nofun hcovers

theorem SemInv.sleep (h : SemInv value s)
    (hcovers : s.count ≤ underWay (s.goTo t .asleep).pc) : SemInv value (s.goTo t .asleep) where
  counts := ⟨h.counts.count, h.counts.nonneg⟩
  positive := positive_update h.positive trivial
  covered _ := hcovers

theorem SemInv.step (h : SemInv value s) (hposts : PostsFit s (.step t) (s.step t))
    (hguard : SleepsSafely s (.step t) (s.step t)) : SemInv value (s.step t) := by
  cases hpc : s.pc t with
  | outside | asleep | postWake =>
    rw [SemState.step, hpc]
    exact h
  | waitLoad =>
    rw [SemState.step, hpc]
    dsimp only
    by_cases hpos : 0 < s.count
    · rw [if_pos hpos]
      exact h.goTo hpos nofun fun _ => trivial
    · rw [if_neg hpos]
      exact h.goTo trivial nofun fun _ => trivial
  | waitExchange c =>
    rw [SemState.step, hpc]
    dsimp only
    by_cases hsame : s.count = c
    · have hpos := h.positive t
      rw [hpc, ← hsame] at hpos
      rw [if_pos hsame, ← hsame]
      exact h.take hpos t
    · rw [if_neg hsame]
      exact h.goTo trivial nofun fun _ => trivial
  | futexWait c =>
    by_cases hsame : s.count = c
    · have hstep : s.step t = s.goTo t .asleep := by
        rw [SemState.step, hpc]
        exact if_pos hsame
      rw [hstep] at hguard ⊢
      exact h.sleep (hguard (hsame ▸ hpc))
    · rw [SemState.step, hpc]
      dsimp only
      rw [if_neg hsame]
      exact h.goTo trivial nofun fun _ => trivial
  | tryLoad =>
    rw [SemState.step, hpc]
    dsimp only
    by_cases hpos : 0 < s.count
    · rw [if_pos hpos]
      exact h.goTo hpos nofun (by rw [hpc]; exact False.elim)
    · rw [if_neg hpos]
      exact h.goTo trivial nofun (by rw [hpc]; exact False.elim)
  | tryExchange c =>
    rw [SemState.step, hpc]
    dsimp only
    by_cases hsame : s.count = c
    · have hpos := h.positive t
      rw [hpc, ← hsame] at hpos
      rw [if_pos hsame, ← hsame]
      exact h.take hpos t
    · rw [if_neg hsame]
      exact h.goTo trivial nofun (by rw [hpc]; exact False.elim)
  | postAdd => exact h.post hpc (hposts hpc)

theorem SemInv.wake (h : SemInv value s) {u : Thread} (ht : s.pc t = .postWake)
    (hu : s.pc u = .asleep) : SemInv value ((s.goTo u .waitLoad).goTo t .outside) := by
  have hne : t ≠ u := by
    intro heq
    rw [heq, hu] at ht
    exact nomatch ht
  have hwoken : (s.goTo u .waitLoad).pc t = .postWake := by
    rw [← ht]
    exact update_of_ne hne _ _
  have hfirst := underWay_update s.pc u .waitLoad
  have hsecond := underWay_update (s.goTo u .waitLoad).pc t .outside
  constructor
  · exact ⟨h.counts.count, h.counts.nonneg⟩
  · exact positive_update (positive_update h.positive trivial) trivial
  · intro hsleeper
    have hcovered := h.covered ⟨u, hu⟩
    rw [hu] at hfirst
    rw [hwoken] at hsecond
    have hsame : underWay ((s.goTo u .waitLoad).goTo t .outside).pc = underWay s.pc := by
      have hone : weight SemPc.UnderWay .waitLoad = 1 := rfl
      have hone' : weight SemPc.UnderWay .postWake = 1 := rfl
      have hzero : weight SemPc.UnderWay .asleep = 0 := rfl
      have hzero' : weight SemPc.UnderWay .outside = 0 := rfl
      rw [hone, hzero] at hfirst
      rw [hone', hzero'] at hsecond
      have hmiddle : underWay (s.goTo u .waitLoad).pc = underWay s.pc + 1 := hfirst
      exact Nat.add_right_cancel (hsecond.trans hmiddle)
    rw [hsame]
    exact hcovered

theorem SemInv.run {action : SemAction Thread} {next : SemState Thread} (h : SemInv value s)
    (hposts : PostsFit s action next) (hguard : SleepsSafely s action next)
    (hstep : SemStep s action next) : SemInv value next := by
  obtain ⟨henabled, rfl⟩ := hstep
  cases action with
  | wait t | trywait t | post t =>
    exact h.goTo trivial nofun (by rw [henabled]; exact False.elim)
  | step t => exact h.step hposts hguard
  | wake t woken =>
    cases woken with
    | none =>
      have hnone : ¬ ∃ u, (s.goTo t .outside).pc u = .asleep := by
        intro hsleeper
        obtain ⟨u, hu⟩ := asleep_of_update (p := .outside) nofun hsleeper
        exact henabled.2 u hu
      exact ⟨⟨h.counts.count, h.counts.nonneg⟩, positive_update h.positive trivial,
        fun hsleeper => absurd hsleeper hnone⟩
    | some u => exact h.wake henabled.1 henabled.2

/-- In a run whose posts fit, the count is accounted for and no wakeup is lost, if threads fall
asleep only while the count is covered. -/
theorem always_semCounts {run : List (SemAction Thread × SemState Thread)}
    (hrun : Along SemStep (SemState.initial Thread value) run)
    (hposts : Along PostsFit (SemState.initial Thread value) run)
    (hguard : Along SleepsSafely (SemState.initial Thread value) run) :
    Always (fun s => SemCounts value s ∧ ¬ SemLostWakeup s) (SemState.initial Thread value)
      run := by
  apply Always.mono fun s (h : SemInv value s) => ⟨h.counts, h.not_lostWakeup⟩
  exact always_of_guarded (SemInv value)
    (fun _ _ _ h hguards hstep => h.run hguards.1 hguards.2 hstep) semInv_initial hrun
    (along_and hposts hguard)

/-- The run that a list of actions of two threads makes. -/
def semTrace (value : ℕ) (actions : List (SemAction Bool)) :
    List (SemAction Bool × SemState Bool) :=
  trace (fun s action => action.run s) (SemState.initial Bool value) actions

instance (s : SemState Bool) : DecidablePred (SemAction.Enabled s)
  | .wait _ | .trywait _ | .post _ => inferInstanceAs (Decidable (_ = _))
  | .step _ => inferInstanceAs (Decidable (_ ∧ _ ∧ _))
  | .wake _ none => inferInstanceAs (Decidable (_ ∧ ∀ _ : Bool, _))
  | .wake _ (some _) => inferInstanceAs (Decidable (_ ∧ _))

instance (s next : SemState Bool) (action : SemAction Bool) :
    Decidable (PostsFit s action next ∧ SleepsSafely s action next) :=
  match action with
  | .step _ => inferInstanceAs (Decidable ((_ → _) ∧ (_ → _)))
  | .wait _ | .trywait _ | .post _ | .wake _ _ => inferInstanceAs (Decidable (True ∧ True))

theorem semTrace_run {actions : List (SemAction Bool)}
    (h : Along (fun s action _ => action.Enabled s) (SemState.initial Bool value)
      (semTrace value actions)) :
    Along SemStep (SemState.initial Bool value) (semTrace value actions) :=
  along_trace_of_enabled _ h

/-- A thread sleeps on an empty semaphore and is woken by a post. -/
def wokenActions : List (SemAction Bool) :=
  [.wait true, .step true, .step true, .post false, .step false, .wake false (some true),
    .step true, .step true]

theorem always_semCounts_woken :
    Always (fun s => SemCounts 0 s ∧ ¬ SemLostWakeup s) (SemState.initial Bool 0)
      (semTrace 0 wokenActions) := by
  have hguards : Along (fun s action next => PostsFit s action next ∧ SleepsSafely s action next)
      (SemState.initial Bool 0) (semTrace 0 wokenActions) := by decide +kernel
  exact always_semCounts (semTrace_run (by decide +kernel))
    (hguards.mono fun _ _ _ h => h.1) (hguards.mono fun _ _ _ h => h.2)

/-- Two threads load a count of 2, one takes from it, and the other falls asleep on the 1 that
its exchange has found. -/
theorem not_always_semCounts :
    ∃ run, Along SemStep (SemState.initial Bool 2) run ∧
      Along PostsFit (SemState.initial Bool 2) run ∧
      ¬ Always (fun s => SemCounts 2 s ∧ ¬ SemLostWakeup s) (SemState.initial Bool 2) run := by
  refine ⟨semTrace 2 [.wait true, .step true, .wait false, .step false, .step false, .step true,
    .step true], semTrace_run (by decide +kernel), ?_, ?_⟩
  · exact ⟨trivial, nofun, trivial, nofun, nofun, nofun, nofun, trivial⟩
  · intro halways
    apply halways.final.2
    exact ⟨by decide +kernel, ⟨true, by decide +kernel⟩, by decide +kernel⟩

end EigenOS.Pthread
