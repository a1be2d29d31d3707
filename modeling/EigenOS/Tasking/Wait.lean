import Mathlib.Data.UInt
import EigenOS.Tasking.Processes

/-!
# Waiting for a child

The scan of `sys_wait4`, which looks for a dead child and skips the dead ones.  Between two
scans the caller sleeps, and other tasks may change the table.
-/

namespace EigenOS.Tasking

open Function

/-- A task with the exit code it leaves. -/
structure WaitTask extends Task where
  exitCode : Int32

abbrev WaitTable := Fin maxTasks → WaitTask

namespace WaitTable

variable (tasks : WaitTable)

/-- The kernel's table without the exit codes. -/
def plain : Fin maxTasks → Task := fun i => (tasks i).toTask

/-- A slot that carries the caller as parent and that the selector asks for. -/
def Selects (cur : Fin maxTasks) (pid : ℤ) (i : Fin maxTasks) : Prop :=
  (tasks i).ppid = (tasks cur).id ∧ (0 < pid → (tasks i).id = pid)

instance (cur : Fin maxTasks) (pid : ℤ) : DecidablePred (tasks.Selects cur pid) :=
  fun _ => inferInstanceAs (Decidable (_ ∧ (_ → _)))

/-- The slot a scan stops at: the tests of the loop in the source's order. -/
@[irreducible]
def scan (cur : Fin maxTasks) (pid : ℤ) : Option (Fin maxTasks) :=
  Fin.find? fun i =>
    if (tasks i).state = .dead then false
    else if (tasks i).ppid ≠ (tasks cur).id then false
    else if 0 < pid ∧ (tasks i).id ≠ pid then false
    else true

/-- The table with a slot given up. -/
def release (i : Fin maxTasks) : WaitTable :=
  update tasks i { tasks i with state := .free }

end WaitTable

/-- What one scan comes to: the caller goes to sleep, or the call returns. -/
inductive WaitReply where
  | sleeps
  | returns (ret : ℤ) (stored : Option Int32) (tasks : WaitTable)

/-- What is stored through `status`, if it is no null pointer. -/
def statusWord (status : Bool) (exitCode : Int32) : Option Int32 :=
  if status then some (exitCode <<< 8) else none

/-- One round of the loop of `sys_wait4`. -/
def wait4Round (tasks : WaitTable) (caller : Option (Fin maxTasks)) (pid : ℤ) (status : Bool) :
    WaitReply :=
  match caller with
  | none => .returns (-1) none tasks
  | some cur =>
      match tasks.scan cur pid with
      | some i => .returns (tasks i).id (statusWord status (tasks i).exitCode) (tasks.release i)
      | none => .sleeps

/-! ## What waiting is for -/

/-- A child of the caller that the selector asks for. -/
def WaitTable.IsChild (tasks : WaitTable) (cur : Fin maxTasks) (pid : ℤ) (i : Fin maxTasks) :
    Prop := (tasks i).state ≠ .free ∧ tasks.Selects cur pid i

/-- No wait that finds the slot as it is stops at it. -/
def NeverReturned (i : Fin maxTasks) (slot : WaitTask) : Prop :=
  ∀ (later : WaitTable) (cur : Fin maxTasks) (pid : ℤ), later i = slot →
    later.scan cur pid ≠ some i

/-- A dead child is reaped: its pid is returned, its exit code stored and its slot given up,
and every other slot stays as it is. -/
def Reaps (tasks : WaitTable) (cur : Fin maxTasks) (pid : ℤ) (status : Bool) (ret : ℤ)
    (stored : Option Int32) (after : WaitTable) : Prop :=
  ∃ i, tasks.IsChild cur pid i ∧ (tasks i).state = .dead ∧ ret = (tasks i).id ∧
    stored = statusWord status (tasks i).exitCode ∧ after = tasks.release i ∧
      NeverReturned i (after i)

/-- A round that returns has reaped a dead child or fails with the table as it was, and a
caller without a matching child does not go to sleep. -/
structure WaitsRightly (tasks : WaitTable) (cur : Fin maxTasks) (pid : ℤ) (status : Bool)
    (reply : WaitReply) : Prop where
  reaps : ∀ ret stored after, reply = .returns ret stored after →
    Reaps tasks cur pid status ret stored after ∨ ret < 0 ∧ after = tasks
  returns_childless : (∀ i, ¬ tasks.IsChild cur pid i) → reply ≠ .sleeps

/-! ## What a scan finds -/

section Scan

variable {tasks : WaitTable} {cur : Fin maxTasks} {pid : ℤ}

theorem WaitTable.scan_eq_find :
    tasks.scan cur pid = Fin.find? fun i =>
      decide ((tasks i).state ≠ .dead ∧ tasks.Selects cur pid i) := by
  unfold WaitTable.scan
  congr 1
  funext i
  by_cases hdead : (tasks i).state = .dead
  · simp [hdead]
  · by_cases hparent : (tasks i).ppid = (tasks cur).id
    · by_cases hid : 0 < pid ∧ (tasks i).id ≠ pid
      · simp [hdead, hparent, hid, WaitTable.Selects]
      · have hselects : 0 < pid → (tasks i).id = pid := fun hpos =>
          not_not.mp fun hne => hid ⟨hpos, hne⟩
        rw [if_neg hdead, if_neg (not_not.mpr hparent), if_neg hid]
        exact (decide_eq_true ⟨hdead, hparent, hselects⟩).symm
    · simp [hdead, hparent, WaitTable.Selects]

theorem WaitTable.scan_eq_some {i : Fin maxTasks} (h : tasks.scan cur pid = some i) :
    (tasks i).state ≠ .dead ∧ tasks.Selects cur pid i := by
  rw [WaitTable.scan_eq_find] at h
  exact of_decide_eq_true (Fin.eq_true_of_find?_eq_some h)

theorem WaitTable.scan_eq_none_iff :
    tasks.scan cur pid = none ↔
      ∀ i, (tasks i).state ≠ .dead → ¬ tasks.Selects cur pid i := by
  rw [WaitTable.scan_eq_find, Fin.find?_eq_none_iff]
  simp only [decide_eq_false_iff_not, not_and]

end Scan

theorem wait4Round_of_some {tasks : WaitTable} {cur i : Fin maxTasks} {pid : ℤ}
    (h : tasks.scan cur pid = some i) (status : Bool) :
    wait4Round tasks (some cur) pid status =
      .returns (tasks i).id (statusWord status (tasks i).exitCode) (tasks.release i) := by
  simp only [wait4Round, h]

theorem wait4Round_of_none {tasks : WaitTable} {cur : Fin maxTasks} {pid : ℤ}
    (h : tasks.scan cur pid = none) (status : Bool) :
    wait4Round tasks (some cur) pid status = .sleeps := by
  simp only [wait4Round, h]

theorem WaitTable.release_inj {tasks : WaitTable} {i j : Fin maxTasks}
    (hdead : (tasks j).state = .dead) (h : tasks.release i = tasks.release j) : i = j := by
  by_contra hne
  have hsame := congrArg WaitTask.toTask (congrFun h j)
  rw [WaitTable.release, WaitTable.release, update_self,
    update_of_ne (Ne.symm hne)] at hsame
  have hstate := congrArg Task.state hsame
  rw [hdead] at hstate
  cases hstate

theorem not_waitsRightly_of_some {tasks : WaitTable} {cur i : Fin maxTasks} {pid : ℤ}
    (h : tasks.scan cur pid = some i) (status : Bool) :
    ¬ WaitsRightly tasks cur pid status (wait4Round tasks (some cur) pid status) := by
  intro hright
  rw [wait4Round_of_some h] at hright
  rcases hright.reaps _ _ _ rfl with ⟨j, _, hdead, _, _, hrelease, _⟩ | ⟨hneg, _⟩
  · have hij := WaitTable.release_inj hdead hrelease
    subst hij
    exact (WaitTable.scan_eq_some h).1 hdead
  · omega

/-- The caller waits rightly exactly where it finds nothing but dead children, and then it
sleeps beside them. -/
theorem waitsRightly_iff (tasks : WaitTable) (cur : Fin maxTasks) (pid : ℤ) (status : Bool) :
    WaitsRightly tasks cur pid status (wait4Round tasks (some cur) pid status) ↔
      (∀ i, (tasks i).state ≠ .dead → ¬ tasks.Selects cur pid i) ∧
        ∃ i, (tasks i).state = .dead ∧ tasks.Selects cur pid i := by
  cases hscan : tasks.scan cur pid with
  | some i =>
      obtain ⟨halive, hselects⟩ := WaitTable.scan_eq_some hscan
      exact iff_of_false (not_waitsRightly_of_some hscan status)
        fun h => h.1 i halive hselects
  | none =>
      have hnone := WaitTable.scan_eq_none_iff.mp hscan
      rw [wait4Round_of_none hscan]
      constructor
      · intro hright
        refine ⟨hnone, ?_⟩
        by_contra hdead
        refine hright.returns_childless ?_ rfl
        rintro i ⟨_, hselects⟩
        by_cases hstate : (tasks i).state = .dead
        · exact hdead ⟨i, hstate, hselects⟩
        · exact hnone i hstate hselects
      · rintro ⟨_, i, hdead, hselects⟩
        have hchild : tasks.IsChild cur pid i := ⟨by rw [hdead]; decide, hselects⟩
        refine ⟨?_, fun hchildless => absurd hchild (hchildless i)⟩
        rintro ret stored after ⟨⟩

/-- The main task, one child that runs and one that is dead, in slots 0 to 2. -/
def oneOfEach : WaitTable := fun i =>
  if i.val = 0 then { Task.zero with id := 1, state := .sleeping, exitCode := 0 }
  else if i.val = 1 then { Task.zero with id := 2, ppid := 1, state := .ready, exitCode := 0 }
  else if i.val = 2 then { Task.zero with id := 3, ppid := 1, state := .dead, exitCode := 7 }
  else { Task.zero with exitCode := 0 }

/-- Waiting for any child frees the slot of the one that runs. -/
theorem not_waitsRightly_oneOfEach :
    ¬ WaitsRightly oneOfEach ⟨0, by decide⟩ (-1) true
      (wait4Round oneOfEach (some ⟨0, by decide⟩) (-1) true) := by
  have hscan : oneOfEach.scan ⟨0, by decide⟩ (-1) = some ⟨1, one_lt_maxTasks⟩ := by
    decide +kernel
  exact not_waitsRightly_of_some hscan true

end EigenOS.Tasking
