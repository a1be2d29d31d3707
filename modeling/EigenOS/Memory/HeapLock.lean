import Mathlib.Logic.Function.Basic
import Mathlib.Data.Nat.Notation
import EigenOS.Library.Occupancy
import EigenOS.Library.Transition

/-!
# The lock of the kernel heap

`kheap_lock_acquire` and `kheap_lock_release` around the bodies of `kmalloc` and `kfree`, step by
step, on one processor.  A task can be switched away from before any step, and `schedule` itself
calls `kfree` for the stacks of a task that it kills.
-/

namespace EigenOS.Memory

open Function

/-- Who runs on the processor: a task, code without a current task, or `schedule` while it
delivers a fatal signal to the task it has just made the current one. -/
inductive Caller (Task : Type*) where
  | task (t : Task)
  | noTask
  | schedule (victim : Task)
  deriving DecidableEq

variable {Task : Type*}

/-- `get_current_task_id`; `none` is -1. -/
def Caller.getCurrentTaskId : Caller Task → Option Task
  | .task t => some t
  | .noTask => none
  | .schedule victim => some victim

/-- Interrupts are off in `schedule`. -/
def Caller.inSchedule : Caller Task → Bool
  | .schedule _ => true
  | _ => false

/-- `kheap_lock`, `kheap_lock_owner` and `kheap_lock_depth`.  An owner of `none` is -1. -/
structure HeapLock (Task : Type*) where
  locked : Bool
  owner : Option Task
  depth : ℕ

/-- Where an invocation of `kmalloc` or `kfree` is: before a step of the acquire, in the body, or
before a step of the release. -/
inductive LockPlace (Task : Type*) where
  | outside
  /-- Before `get_current_task_id`. -/
  | entered
  /-- Before the comparison with the owner. -/
  | checking (me : Option Task)
  /-- Before `kheap_lock_depth++`. -/
  | nesting
  /-- Before the test-and-set. -/
  | spinning (me : Option Task)
  /-- Before the owner is stored. -/
  | taken (me : Option Task)
  /-- Before the depth is stored. -/
  | owned
  | body
  /-- Before the depth is tested. -/
  | releasing
  /-- Before `kheap_lock_depth--`. -/
  | unnesting
  /-- Before the owner is cleared. -/
  | disowning
  /-- Before the depth is cleared. -/
  | clearing
  /-- Before the lock word is cleared. -/
  | unlocking
  deriving DecidableEq

/-- The invocation is between its acquire and its release. -/
def LockPlace.Inside : LockPlace Task → Prop
  | .body | .releasing | .unnesting | .disowning | .clearing | .unlocking => True
  | _ => False

instance : DecidablePred (@LockPlace.Inside Task)
  | .body | .releasing | .unnesting | .disowning | .clearing | .unlocking => .isTrue trivial
  | .outside | .entered | .checking _ | .nesting | .spinning _ | .taken _ | .owned => .isFalse id

/-- The invocation has got past the owner check or the test-and-set of its acquire. -/
def LockPlace.Past : LockPlace Task → Prop
  | .nesting | .taken _ | .owned => True
  | p => p.Inside

section Steps

variable [DecidableEq Task]

/-- The next step of an invocation. -/
def HeapLock.advance (lock : HeapLock Task) (id : Option Task) :
    LockPlace Task → HeapLock Task × LockPlace Task
  | .outside => (lock, .outside)
  | .entered => (lock, .checking id)
  | .checking me => (lock, if lock.owner = me then .nesting else .spinning me)
  | .nesting => ({ lock with depth := lock.depth + 1 }, .body)
  | .spinning me => ({ lock with locked := true }, if lock.locked then .spinning me else .taken me)
  | .taken me => ({ lock with owner := me }, .owned)
  | .owned => ({ lock with depth := 1 }, .body)
  | .body => (lock, .releasing)
  | .releasing => (lock, if 1 < lock.depth then .unnesting else .disowning)
  | .unnesting => ({ lock with depth := lock.depth - 1 }, .outside)
  | .disowning => ({ lock with owner := none }, .clearing)
  | .clearing => ({ lock with depth := 0 }, .unlocking)
  | .unlocking => ({ lock with locked := false }, .outside)

/-- The lock with the invocations, who runs, how often `schedule` still calls `kfree`, and which
tasks were killed. -/
structure LockWorld (Task : Type*) where
  lock : HeapLock Task
  place : Caller Task → LockPlace Task
  running : Caller Task
  frees : ℕ
  dead : Task → Bool

def LockWorld.initial (Task : Type*) : LockWorld Task where
  lock := ⟨false, none, 0⟩
  place _ := .outside
  running := .noTask
  frees := 0
  dead _ := false

inductive LockEvent (Task : Type*) where
  /-- The running code calls `kmalloc` or `kfree`. -/
  | call
  /-- The next step of the running code, or of `schedule`. -/
  | step
  /-- A switch to a task, or to the idle loop. -/
  | schedule (next : Option Task)
  /-- A switch to a task with a fatal signal: so many of its stacks are freed. -/
  | kill (victim : Task) (frees : ℕ)

/-- `schedule` frees another stack, or returns to the idle loop: the killed task has no frame. -/
def LockWorld.nextFree (w : LockWorld Task) : LockWorld Task :=
  if w.frees = 0 then { w with running := .noTask }
  else
    { w with frees := w.frees - 1, place := update w.place w.running .entered }

def LockWorld.step (w : LockWorld Task) : LockWorld Task :=
  if w.place w.running = .outside then w.nextFree
  else
    let next := w.lock.advance w.running.getCurrentTaskId (w.place w.running)
    { w with lock := next.1, place := update w.place w.running next.2 }

def LockEvent.run (w : LockWorld Task) : LockEvent Task → LockWorld Task
  | .call => { w with place := update w.place w.running .entered }
  | .step => w.step
  | .schedule none => { w with running := .noTask }
  | .schedule (some t) => { w with running := .task t }
  | .kill victim frees =>
      { w with
        running := .schedule victim
        frees := frees
        dead := update w.dead victim true }

/-- There is no switch inside `schedule`, and a killed task does not run again.  A task that is
picked has a kernel stack. -/
def LockEvent.Possible (w : LockWorld Task) : LockEvent Task → Prop
  | .call => w.running.inSchedule = false ∧ w.place w.running = .outside
  | .step => w.place w.running ≠ .outside ∨ w.running.inSchedule = true
  | .schedule none => w.running.inSchedule = false
  | .schedule (some t) => w.running.inSchedule = false ∧ w.dead t = false
  | .kill victim frees =>
      w.running.inSchedule = false ∧ w.dead victim = false ∧ (frees = 1 ∨ frees = 2)

instance (w : LockWorld Task) : DecidablePred (LockEvent.Possible w)
  | .call => inferInstanceAs (Decidable (_ ∧ _))
  | .step => inferInstanceAs (Decidable (_ ∨ _))
  | .schedule none => inferInstanceAs (Decidable (_ = _))
  | .schedule (some _) => inferInstanceAs (Decidable (_ ∧ _))
  | .kill _ _ => inferInstanceAs (Decidable (_ ∧ _ ∧ _))

def LockStep (w : LockWorld Task) (event : LockEvent Task) (next : LockWorld Task) : Prop :=
  event.Possible w ∧ next = event.run w

end Steps

/-- At most one invocation is between its acquire and its release. -/
def HeapExclusive (w : LockWorld Task) : Prop :=
  ∀ c c', (w.place c).Inside → (w.place c').Inside → c = c'

/-- An invocation of `schedule` finds the lock free when it comes to it.  Whoever holds it
otherwise is not running. -/
def NeverWaits (w : LockWorld Task) : Prop :=
  ∀ victim me, w.place (.schedule victim) = .spinning me → w.lock.locked = false

end EigenOS.Memory

/-!
## One invocation at a time

The id that stands for no owner is the id of code without a current task, and `schedule` calls
`kfree` under the id of the task it kills.  Away from these two, the owner check fails for all but
the holder, and the lock word keeps the invocations apart.
-/

namespace EigenOS.Memory

open EigenOS.Occupancy EigenOS.Transition Function

variable {Task : Type*}

/-- What the owner is while an invocation under an id is at a place. -/
def LockPlace.ownerAt (me : Option Task) : LockPlace Task → Option Task
  | .owned | .body | .releasing | .disowning => me
  | _ => none

/-- What the depth is while an invocation is at a place. -/
def LockPlace.depthAt : LockPlace Task → ℕ
  | .body | .releasing | .disowning | .clearing => 1
  | _ => 0

/-- The id that an invocation has read. -/
def LockPlace.Reads (me : Option Task) : LockPlace Task → Prop
  | .checking me' | .spinning me' | .taken me' => me' = me
  | _ => True

theorem LockPlace.Inside.past {p : LockPlace Task} (h : p.Inside) : p.Past := by
  cases p with
  | body | releasing | unnesting | disowning | clearing | unlocking => exact h
  | _ => exact h.elim

/-- The lock while an invocation is past its acquire.  It has the lock word, unless it was made
without a current task and took the missing owner for itself. -/
structure Holds (lock : HeapLock Task) (c : Caller Task) (p : LockPlace Task) : Prop where
  locked : lock.locked = true ∨ c = .noTask
  owner : lock.owner = p.ownerAt c.getCurrentTaskId
  depth : lock.depth = p.depthAt
  nesting : p = .nesting → c = .noTask
  unnesting : p ≠ .unnesting

/-- The lock is free and nobody is past an acquire, or one invocation is. -/
def HeldBy (lock : HeapLock Task) (place : Caller Task → LockPlace Task) : Prop :=
  (Vacant LockPlace.Past place ∧ lock = ⟨false, none, 0⟩) ∨
    ∃ c, Alone LockPlace.Past place c ∧ Holds lock c (place c)

/-- What holds in every state.  While `schedule` frees the stacks, no other invocation is past its
acquire. -/
structure LockInv (w : LockWorld Task) : Prop where
  reads : ∀ c, (w.place c).Reads c.getCurrentTaskId
  schedule : ∀ victim, w.place (.schedule victim) ≠ .outside → w.running = .schedule victim
  alone : ∀ victim, w.running = .schedule victim →
    ∀ c, (w.place c).Past → c = .schedule victim
  held : HeldBy w.lock w.place

theorem lockInv_initial : LockInv (LockWorld.initial Task) where
  reads _ := trivial
  schedule _ h := absurd rfl h
  alone _ h := nomatch h
  held := .inl ⟨fun _ => id, rfl⟩

theorem LockInv.exclusive {w : LockWorld Task} (h : LockInv w) : HeapExclusive w := by
  intro c c' hc hc'
  rcases h.held with ⟨hvacant, _⟩ | ⟨holder, halone, _⟩
  · exact absurd hc.past (hvacant c)
  · exact halone.exclusive hc.past hc'.past

theorem LockInv.neverWaits {w : LockWorld Task} (h : LockInv w) : NeverWaits w := by
  intro victim me hspinning
  have hrunning : w.running = .schedule victim := by
    apply h.schedule
    rw [hspinning]
    exact nofun
  rcases h.held with ⟨_, hlock⟩ | ⟨holder, halone, _⟩
  · rw [hlock]
  · have hholder := h.alone victim hrunning holder halone.self
    have hpast := halone.self
    rw [hholder, hspinning] at hpast
    exact hpast.elim

section Invariant

variable {w : LockWorld Task}

/-- While the lock word is clear, nobody is past an acquire but code without a current task. -/
theorem LockInv.vacant (h : LockInv w) (hfree : w.lock.locked = false)
    (hnoTask : ¬ (w.place .noTask).Past) :
    Vacant LockPlace.Past w.place ∧ w.lock = ⟨false, none, 0⟩ := by
  rcases h.held with hvacant | ⟨c, halone, hholds⟩
  · exact hvacant
  · rcases hholds.locked with hlocked | hc
    · exact absurd (hlocked.symm.trans hfree) (by decide)
    · exact absurd (hc ▸ halone.self) hnoTask

theorem LockInv.holds (h : LockInv w) {c : Caller Task} (hp : w.place c = p) (hpast : p.Past) :
    Alone LockPlace.Past w.place c ∧ Holds w.lock c p := by
  subst hp
  rcases h.held with ⟨hvacant, _⟩ | ⟨holder, halone, hholds⟩
  · exact absurd hpast (hvacant c)
  · rw [halone.eq hpast]
    exact ⟨halone, hholds⟩

theorem LockInv.owner (h : LockInv w) {t : Task} (howner : w.lock.owner = some t) :
    ∃ c : Caller Task, (w.place c).Past ∧ c.getCurrentTaskId = some t := by
  rcases h.held with ⟨_, hlock⟩ | ⟨c, halone, hholds⟩
  · rw [hlock] at howner
    exact nomatch howner
  · refine ⟨c, halone.self, ?_⟩
    have hat := hholds.owner.symm.trans howner
    cases hp : w.place c with
    | owned | body | releasing | disowning =>
      rw [hp] at hat
      exact hat
    | _ =>
      rw [hp] at hat
      exact nomatch hat

/-- The owner check of a task, and of `schedule`, fails: the lock is never taken twice. -/
theorem LockInv.owner_ne (h : LockInv w) (hwaiting : ¬ (w.place w.running).Past)
    (hrunning : w.running ≠ .noTask) : w.lock.owner ≠ w.running.getCurrentTaskId := by
  intro howner
  cases hcaller : w.running with
  | noTask => exact hrunning hcaller
  | task t =>
    rw [hcaller] at howner
    obtain ⟨c, hpast, hid⟩ := h.owner howner
    cases c with
    | noTask => exact nomatch hid
    | task u =>
      rw [hcaller, ← Option.some.inj hid] at hwaiting
      exact hwaiting hpast
    | schedule victim =>
      have hplace : w.place (.schedule victim) ≠ .outside := by
        intro heq
        rw [heq] at hpast
        exact hpast
      exact nomatch hcaller.symm.trans (h.schedule victim hplace)
  | schedule victim =>
    rw [hcaller] at howner
    obtain ⟨c, hpast, _⟩ := h.owner howner
    rw [h.alone victim hcaller c hpast, ← hcaller] at hpast
    exact hwaiting hpast

end Invariant

section Steps

variable [DecidableEq Task]

/-- The steps that keep out of the two cases.  A fatal signal is delivered while the lock is free
and no invocation without a current task is past its acquire.  Such an invocation passes the
owner check while the lock is free, and no task takes the lock while it is past its acquire. -/
def Undisturbed (w : LockWorld Task) : LockEvent Task → LockWorld Task → Prop
  | .kill _ _, _ => w.lock.locked = false ∧ ¬ (w.place .noTask).Past
  | .step, _ =>
      (w.running = .noTask → w.place .noTask = .checking none → w.lock.owner = none →
        w.lock.locked = false) ∧
      ∀ t, w.running = .task t → w.place (.task t) = .spinning (some t) →
        w.lock.locked = false → ¬ (w.place .noTask).Past
  | _, _ => True

section Running

variable {w : LockWorld Task} {p : LockPlace Task}

theorem LockInv.move (h : LockInv w) (frees : ℕ) {lock : HeapLock Task}
    (hreads : p.Reads w.running.getCurrentTaskId)
    (hheld : HeldBy lock (update w.place w.running p)) :
    LockInv { w with lock := lock, frees := frees, place := update w.place w.running p } where
  reads := by
    intro c
    by_cases hc : c = w.running
    · rw [hc]
      dsimp only
      rw [update_self]
      exact hreads
    · dsimp only
      rw [update_of_ne hc]
      exact h.reads c
  schedule := by
    intro victim hplace
    by_cases hc : .schedule victim = w.running
    · exact hc.symm
    · dsimp only at hplace
      rw [update_of_ne hc] at hplace
      exact h.schedule victim hplace
  alone := by
    intro victim hrunning c hpast
    by_cases hc : c = w.running
    · exact hc.trans hrunning
    · dsimp only at hpast
      rw [update_of_ne hc] at hpast
      exact h.alone victim hrunning c hpast
  held := hheld

theorem LockInv.heldBy_waiting (h : LockInv w) (hbefore : ¬ (w.place w.running).Past)
    (hafter : ¬ p.Past) : HeldBy w.lock (update w.place w.running p) := by
  rcases h.held with ⟨hvacant, hlock⟩ | ⟨c, halone, hholds⟩
  · exact .inl ⟨hvacant.move hafter, hlock⟩
  · have hne : w.running ≠ c := halone.ne hbefore
    apply Or.inr
    refine ⟨c, halone.move hne hafter, ?_⟩
    rw [update_of_ne hne.symm]
    exact hholds

theorem heldBy_enter {lock : HeapLock Task} {c : Caller Task}
    (hvacant : Vacant LockPlace.Past w.place) (hpast : p.Past) (hholds : Holds lock c p) :
    HeldBy lock (update w.place c p) := by
  apply Or.inr
  refine ⟨c, hvacant.enter hpast, ?_⟩
  rw [update_self]
  exact hholds

theorem heldBy_stay {lock : HeapLock Task} {c : Caller Task}
    (halone : Alone LockPlace.Past w.place c) (hpast : p.Past) (hholds : Holds lock c p) :
    HeldBy lock (update w.place c p) := by
  apply Or.inr
  refine ⟨c, halone.stay hpast, ?_⟩
  rw [update_self]
  exact hholds

/-- Code whose owner check succeeds, or that finds the lock word clear, finds the lock free. -/
theorem LockInv.free (h : LockInv w) (hguard : Undisturbed w .step w.step)
    (hwaiting : ¬ (w.place w.running).Past) (hfree : w.lock.locked = false)
    (hspinning : w.place w.running = .spinning w.running.getCurrentTaskId ∨
      w.running = .noTask) :
    Vacant LockPlace.Past w.place ∧ w.lock = ⟨false, none, 0⟩ := by
  apply h.vacant hfree
  cases hcaller : w.running with
  | noTask =>
    rw [← hcaller]
    exact hwaiting
  | task t =>
    rw [hcaller] at hspinning
    rcases hspinning with hspinning | hnone
    · exact hguard.2 t hcaller hspinning hfree
    · exact nomatch hnone
  | schedule victim => exact fun hpast => nomatch h.alone victim hcaller _ hpast

theorem LockInv.advance (h : LockInv w) (hguard : Undisturbed w .step w.step) :
    HeldBy (w.lock.advance w.running.getCurrentTaskId (w.place w.running)).1
      (update w.place w.running
        (w.lock.advance w.running.getCurrentTaskId (w.place w.running)).2) := by
  have hreads := h.reads w.running
  cases hp : w.place w.running with
  | outside | entered => exact h.heldBy_waiting (by rw [hp]; exact id) id
  | checking me =>
    have hwaiting : ¬ (w.place w.running).Past := by
      rw [hp]
      exact id
    rw [hp] at hreads
    dsimp only [HeapLock.advance]
    by_cases howner : w.lock.owner = me
    · have hrunning : w.running = .noTask := by
        by_contra hne
        exact h.owner_ne hwaiting hne (howner.trans hreads)
      rw [hrunning] at hreads hp ⊢
      have hme : me = none := hreads
      rw [hme] at hp
      have hfree := hguard.1 hrunning hp (howner.trans hme)
      obtain ⟨hvacant, hlock⟩ := h.free hguard hwaiting hfree (.inr hrunning)
      rw [if_pos howner, hlock]
      exact heldBy_enter hvacant trivial ⟨.inr rfl, rfl, rfl, fun _ => rfl, nofun⟩
    · rw [if_neg howner]
      exact h.heldBy_waiting hwaiting id
  | nesting =>
    obtain ⟨halone, hholds⟩ := h.holds hp trivial
    have hrunning := hholds.nesting rfl
    rw [hrunning] at halone hholds ⊢
    exact heldBy_stay halone trivial
      ⟨hholds.locked, hholds.owner, congrArg (· + 1) hholds.depth, nofun, nofun⟩
  | spinning me =>
    have hwaiting : ¬ (w.place w.running).Past := by
      rw [hp]
      exact id
    rw [hp] at hreads
    dsimp only [HeapLock.advance]
    by_cases hlocked : w.lock.locked = true
    · rw [if_pos hlocked, show { w.lock with locked := true } = w.lock by rw [← hlocked]]
      exact h.heldBy_waiting hwaiting id
    · obtain ⟨hvacant, hlock⟩ := h.free hguard hwaiting ((Bool.not_eq_true _).mp hlocked)
        (.inl (hp.trans (congrArg _ hreads)))
      rw [if_neg hlocked, hlock]
      exact heldBy_enter hvacant trivial ⟨.inl rfl, rfl, rfl, nofun, nofun⟩
  | taken me =>
    obtain ⟨halone, hholds⟩ := h.holds hp trivial
    rw [hp] at hreads
    exact heldBy_stay halone trivial ⟨hholds.locked, hreads, hholds.depth, nofun, nofun⟩
  | owned | clearing =>
    obtain ⟨halone, hholds⟩ := h.holds hp trivial
    exact heldBy_stay halone trivial ⟨hholds.locked, hholds.owner, rfl, nofun, nofun⟩
  | body =>
    obtain ⟨halone, hholds⟩ := h.holds hp trivial
    exact heldBy_stay halone trivial ⟨hholds.locked, hholds.owner, hholds.depth, nofun, nofun⟩
  | releasing =>
    obtain ⟨halone, hholds⟩ := h.holds hp trivial
    have hdepth : ¬ 1 < w.lock.depth := by
      rw [show w.lock.depth = 1 from hholds.depth]
      exact Nat.lt_irrefl 1
    dsimp only [HeapLock.advance]
    rw [if_neg hdepth]
    exact heldBy_stay halone trivial ⟨hholds.locked, hholds.owner, hholds.depth, nofun, nofun⟩
  | unnesting =>
    obtain ⟨_, hholds⟩ := h.holds hp trivial
    exact absurd rfl hholds.unnesting
  | disowning =>
    obtain ⟨halone, hholds⟩ := h.holds hp trivial
    exact heldBy_stay halone trivial ⟨hholds.locked, rfl, hholds.depth, nofun, nofun⟩
  | unlocking =>
    obtain ⟨halone, hholds⟩ := h.holds hp trivial
    have howner : w.lock.owner = none := hholds.owner
    have hdepth : w.lock.depth = 0 := hholds.depth
    apply Or.inl
    constructor
    · exact halone.leave id
    · dsimp only [HeapLock.advance]
      rw [howner, hdepth]

theorem LockInv.advance_reads (h : LockInv w) :
    (w.lock.advance w.running.getCurrentTaskId (w.place w.running)).2.Reads
      w.running.getCurrentTaskId := by
  have hreads := h.reads w.running
  cases hp : w.place w.running with
  | entered => rfl
  | checking me =>
    rw [hp] at hreads
    dsimp only [HeapLock.advance]
    split_ifs
    · trivial
    · exact hreads
  | spinning me =>
    rw [hp] at hreads
    dsimp only [HeapLock.advance]
    split_ifs <;> exact hreads
  | releasing =>
    dsimp only [HeapLock.advance]
    split_ifs <;> trivial
  | _ => trivial

theorem LockInv.step (h : LockInv w) (hguard : Undisturbed w .step w.step) :
    LockInv w.step := by
  rw [LockWorld.step]
  by_cases houtside : w.place w.running = .outside
  · rw [if_pos houtside, LockWorld.nextFree]
    by_cases hfrees : w.frees = 0
    · rw [if_pos hfrees]
      refine ⟨h.reads, ?_, nofun, h.held⟩
      intro other hplace
      have hother := h.schedule other hplace
      rw [hother] at houtside
      exact absurd houtside hplace
    · rw [if_neg hfrees]
      exact h.move (w.frees - 1) trivial (h.heldBy_waiting (by rw [houtside]; exact id) id)
  · rw [if_neg houtside]
    exact h.move w.frees h.advance_reads (h.advance hguard)

theorem LockInv.run {event : LockEvent Task} {next : LockWorld Task} (h : LockInv w)
    (hguard : Undisturbed w event next) (hstep : LockStep w event next) : LockInv next := by
  obtain ⟨hpossible, rfl⟩ := hstep
  -- Between switches no invocation of `schedule` is under way.
  have hquiet : w.running.inSchedule = false →
      ∀ victim, w.place (.schedule victim) = .outside := by
    intro hrunning victim
    by_contra hplace
    rw [h.schedule victim hplace] at hrunning
    exact nomatch hrunning
  cases event with
  | call =>
    exact h.move w.frees trivial (h.heldBy_waiting (by rw [hpossible.2]; exact id) id)
  | step => exact h.step hguard
  | schedule next =>
    cases next with
    | none =>
      exact ⟨h.reads, fun victim hplace => absurd (hquiet hpossible victim) hplace, nofun, h.held⟩
    | some t =>
      exact ⟨h.reads, fun victim hplace => absurd (hquiet hpossible.1 victim) hplace, nofun,
        h.held⟩
  | kill victim frees =>
    obtain ⟨hvacant, hlock⟩ := h.vacant hguard.1 hguard.2
    refine ⟨h.reads, fun other hplace => absurd (hquiet hpossible.1 other) hplace, ?_, h.held⟩
    intro _ _ c hpast
    exact absurd hpast (hvacant c)

end Running

/-- In a run whose steps are undisturbed, the invocations exclude one another and `schedule` never
waits. -/
theorem always_heapExclusive {run : List (LockEvent Task × LockWorld Task)}
    (hrun : Along LockStep (LockWorld.initial Task) run)
    (hguard : Along Undisturbed (LockWorld.initial Task) run) :
    Always (fun w => HeapExclusive w ∧ NeverWaits w) (LockWorld.initial Task) run := by
  apply Always.mono fun w (h : LockInv w) => ⟨h.exclusive, h.neverWaits⟩
  exact always_of_guarded LockInv (fun _ _ _ h hguard hstep => h.run hguard hstep)
    lockInv_initial hrun hguard

end Steps

/-- The run that a list of events makes. -/
def lockTrace (events : List (LockEvent ℕ)) : List (LockEvent ℕ × LockWorld ℕ) :=
  trace (fun w event => event.run w) (LockWorld.initial ℕ) events

theorem lockTrace_run {events : List (LockEvent ℕ)}
    (h : Along (fun w event _ => event.Possible w) (LockWorld.initial ℕ) (lockTrace events)) :
    Along LockStep (LockWorld.initial ℕ) (lockTrace events) :=
  along_trace_of_enabled _ h

/-- Task 5 is switched away from in its body, and task 7 waits until it has left. -/
theorem always_heapExclusive_waiting :
    Always (fun w => HeapExclusive w ∧ NeverWaits w) (LockWorld.initial ℕ)
      (lockTrace [.schedule (some 5), .call, .step, .step, .step, .step, .step,
        .schedule (some 7), .call, .step, .step, .step, .schedule (some 5), .step, .step, .step,
        .step, .step, .schedule (some 7), .step, .step, .step]) := by
  have hstep : ∀ w : LockWorld ℕ, w.running ≠ .noTask → w.place .noTask = .outside →
      ∀ next, Undisturbed w .step next := by
    intro w hrunning hplace next
    refine ⟨fun hnone => absurd hnone hrunning, fun _ _ _ _ => ?_⟩
    rw [hplace]
    exact id
  refine always_heapExclusive (lockTrace_run (by decide +kernel)) ?_
  refine ⟨trivial, trivial, ?_, ?_, ?_, ?_, ?_, trivial, trivial, ?_, ?_, ?_, trivial, ?_, ?_, ?_,
    ?_, ?_, trivial, ?_, ?_, ?_, trivial⟩
  all_goals exact hstep _ (by decide +kernel) (by decide +kernel) _

/-- Task 5 is switched away from with the lock, and task 7 is killed: `schedule` waits for task 5.
Code without a current task and task 5 are in their bodies together, as the first takes the
missing owner for itself. -/
theorem not_always_heapExclusive :
    (∃ run, Along LockStep (LockWorld.initial ℕ) run ∧
      ¬ Always NeverWaits (LockWorld.initial ℕ) run) ∧
    ∃ run, Along LockStep (LockWorld.initial ℕ) run ∧
      ¬ Always HeapExclusive (LockWorld.initial ℕ) run := by
  constructor
  · refine ⟨lockTrace [.schedule (some 5), .call, .step, .step, .step, .kill 7 2, .step, .step,
      .step], lockTrace_run (by decide), ?_⟩
    intro halways
    exact absurd (halways.final 7 (some 7) (by decide)) (by decide)
  · refine ⟨lockTrace [.call, .step, .step, .step, .schedule (some 5), .call, .step, .step, .step,
      .step, .step], lockTrace_run (by decide +kernel), ?_⟩
    intro halways
    exact nomatch halways.final .noTask (.task 5) (by decide +kernel) (by decide +kernel)

end EigenOS.Memory
