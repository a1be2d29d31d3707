import EigenOS.Tasking.PipeCounts

/-!
# Thread groups

An exit ends every task with the caller's group number.  The number is set by
`create_user_process_elf_redir`, `sys_fork` and `create_user_thread`; a task from
`create_task` or `create_user_process` keeps what its slot held before.  The process a task
belongs to is tracked beside the kernel, and compared with the tasks that an exit changes.
-/

namespace EigenOS.Tasking

open Transition Function

/-- A kernel with the process of each task, named by the id of its first task. -/
structure Grouped where
  kernel : Kernel
  process : Fin maxTasks → ℕ

/-- The task about to be created belongs to process `p`. -/
def started (k : Kernel) (process : Fin maxTasks → ℕ) (p : ℕ) : Fin maxTasks → ℕ :=
  match k.freeTask with
  | some t => update process t p
  | none => process

def Request.process (k : Kernel) (cur : Fin maxTasks) (process : Fin maxTasks → ℕ) :
    Request → Fin maxTasks → ℕ
  | .spawn _ .noModule => process
  | .spawn _ _ => started k process k.nextTaskId
  | .fork _ => if (k.tasks cur).ring = .ring3 then started k process k.nextTaskId else process
  | .thread _ =>
      if (k.tasks cur).ring = .ring3 ∧ 0 < (k.tasks cur).group then
        started k process (process cur)
      else process
  | _ => process

def Event.process (k : Kernel) (process : Fin maxTasks → ℕ) : Event → Fin maxTasks → ℕ
  | .create _ _ => started k process k.nextTaskId
  | .request r =>
      match k.current with
      | some cur =>
          if (k.tasks cur).state = .running then r.process k cur process else process
      | none => process
  | _ => process

def Grouped.next (s : Grouped) (event : Event) : Grouped where
  kernel := event.apply s.kernel
  process := event.process s.kernel s.process

/-- The main task is alone in its process. -/
def Grouped.init : Grouped := ⟨initTasking, fun _ => 0⟩

def GroupedStep (s : Grouped) (event : Event) (next : Grouped) : Prop := next = s.next event

/-- The ways in which a task ends itself. -/
def Event.IsExit : Event → Prop
  | .request .exit | .request .threadExit | .request .fault => True
  | _ => False

/-- An exit changes tasks of the caller's process only. -/
def StaysInside (s : Grouped) (event : Event) (next : Grouped) : Prop :=
  event.IsExit → ∀ cur, s.kernel.current = some cur →
    ∀ t, next.kernel.tasks t ≠ s.kernel.tasks t → s.process t = s.process cur

/-- The group number left in a slot is of no live task when `create_task` or
`create_user_process` takes the slot, and a task without a group ends its thread only when
no other live task is without one. -/
def KeepsGroups (k : Kernel) : Event → Prop
  | .create _ allocated => allocated = true → ∀ t, k.freeTask = some t →
      (k.tasks t).group ≠ 0 → ∀ other, IsLive (k.tasks other) →
        (k.tasks other).group ≠ (k.tasks t).group ∧ (k.tasks other).id ≠ (k.tasks t).group
  | .request .threadExit => ∀ cur, k.current = some cur → (k.tasks cur).group = 0 →
      ∀ other, other ≠ cur → 1 ≤ other.val → IsLive (k.tasks other) →
        (k.tasks other).group ≠ 0
  | _ => True

/-- Live tasks with one group number are of one process, and so is the task whose id the
number is. -/
structure GroupsApart (s : Grouped) : Prop where
  main : ∀ t, t.val = 0 → (s.kernel.tasks t).group = 0
  next_pos : 0 < s.kernel.nextTaskId
  id_pos : ∀ t, 1 ≤ t.val → IsLive (s.kernel.tasks t) → 0 < (s.kernel.tasks t).id
  id_lt : ∀ t, (s.kernel.tasks t).id < s.kernel.nextTaskId
  group_lt : ∀ t, (s.kernel.tasks t).group < s.kernel.nextTaskId
  together : ∀ a b, IsLive (s.kernel.tasks a) → IsLive (s.kernel.tasks b) →
    (s.kernel.tasks a).group ≠ 0 →
    ((s.kernel.tasks b).group = (s.kernel.tasks a).group ∨
      (s.kernel.tasks b).id = (s.kernel.tasks a).group) →
    s.process b = s.process a

theorem groupsApart_init : GroupsApart Grouped.init := by
  have hzero : ∀ t, (initTasking.tasks t).group = 0 ∧ (initTasking.tasks t).id = 0 := by
    intro t
    unfold initTasking
    dsimp only
    split <;> exact ⟨rfl, rfl⟩
  refine ⟨fun t _ => (hzero t).1, Nat.one_pos, ?_, ?_, ?_, ?_⟩
  · intro t ht hlive
    refine absurd ?_ hlive.1
    have hval : t.val ≠ 0 := by omega
    unfold Grouped.init initTasking
    dsimp only
    rw [if_neg hval]
    rfl
  · intro t
    exact (hzero t).2.trans_lt Nat.one_pos
  · intro t
    exact (hzero t).1.trans_lt Nat.one_pos
  · intro a b _ _ hgroup
    exact absurd (hzero a).1 hgroup

/-! ## Steps that change descriptors only -/

/-- Of the tasks, only the descriptors of one change. -/
structure FdsOnly (t : Fin maxTasks) (k next : Kernel) : Prop where
  others : ∀ u, u ≠ t → next.tasks u = k.tasks u
  id : (next.tasks t).id = (k.tasks t).id
  group : (next.tasks t).group = (k.tasks t).group
  state : (next.tasks t).state = (k.tasks t).state
  nextTaskId : next.nextTaskId = k.nextTaskId

namespace FdsOnly

variable {t : Fin maxTasks} {k mid next : Kernel}

theorem id_eq (hnext : FdsOnly t k next) (u : Fin maxTasks) :
    (next.tasks u).id = (k.tasks u).id := by
  by_cases hu : u = t
  · rw [hu, hnext.id]
  · rw [hnext.others u hu]

theorem group_eq (hnext : FdsOnly t k next) (u : Fin maxTasks) :
    (next.tasks u).group = (k.tasks u).group := by
  by_cases hu : u = t
  · rw [hu, hnext.group]
  · rw [hnext.others u hu]

theorem state_eq (hnext : FdsOnly t k next) (u : Fin maxTasks) :
    (next.tasks u).state = (k.tasks u).state := by
  by_cases hu : u = t
  · rw [hu, hnext.state]
  · rw [hnext.others u hu]

theorem refl (k : Kernel) : FdsOnly t k k := ⟨fun _ _ => rfl, rfl, rfl, rfl, rfl⟩

theorem trans (hfirst : FdsOnly t k mid) (hrest : FdsOnly t mid next) :
    FdsOnly t k next where
  others u hu := (hrest.others u hu).trans (hfirst.others u hu)
  id := hrest.id.trans hfirst.id
  group := hrest.group.trans hfirst.group
  state := hrest.state.trans hfirst.state
  nextTaskId := hrest.nextTaskId.trans hfirst.nextTaskId

theorem of_tasks (htasks : next.tasks = k.tasks) (hnext : next.nextTaskId = k.nextTaskId) :
    FdsOnly t k next where
  others u _ := by rw [htasks]
  id := by rw [htasks]
  group := by rw [htasks]
  state := by rw [htasks]
  nextTaskId := hnext

theorem setTask (t : Fin maxTasks) {task : Task} (hid : task.id = (k.tasks t).id)
    (hgroup : task.group = (k.tasks t).group) (hstate : task.state = (k.tasks t).state) :
    FdsOnly t k (k.setTask t task) where
  others u hu := by simp [Kernel.setTask, hu]
  id := by simpa [Kernel.setTask] using hid
  group := by simpa [Kernel.setTask] using hgroup
  state := by simpa [Kernel.setTask] using hstate
  nextTaskId := rfl

theorem setFd (k : Kernel) (t : Fin maxTasks) (fd : Fin maxFds) (slot : FdSlot) :
    FdsOnly t k (k.setFd t fd slot) := setTask t rfl rfl rfl

theorem mapFds (k : Kernel) (t : Fin maxTasks) (f : FdSlot → FdSlot) :
    FdsOnly t k (k.mapFds t f) := setTask t rfl rfl rfl

theorem addPipeRef (k : Kernel) (pno : Fin maxPipes) (write : Bool) :
    FdsOnly t k (addPipeRef k pno write) := of_tasks rfl rfl

theorem dropPipeRef (k : Kernel) (pno : Fin maxPipes) (write : Bool) :
    FdsOnly t k (dropPipeRef k pno write) := of_tasks rfl rfl

theorem ptyDupRef (k : Kernel) (idx : Fin maxPtys) (isMaster : Bool) :
    FdsOnly t k (ptyDupRef k idx isMaster) := by
  unfold Tasking.ptyDupRef
  dsimp only
  split
  · exact of_tasks rfl rfl
  · exact refl k

theorem ptyClose (k : Kernel) (idx : Fin maxPtys) (isMaster : Bool) :
    FdsOnly t k (ptyClose k idx isMaster) := by
  unfold Tasking.ptyClose
  dsimp only
  split
  · exact of_tasks rfl rfl
  · exact refl k

theorem addSlotRef (k : Kernel) (slot : FdSlot) : FdsOnly t k (addSlotRef k slot) := by
  unfold Tasking.addSlotRef
  split
  · exact addPipeRef k _ _
  · exact ptyDupRef k _ _
  · exact refl k

theorem foldl {α : Type} (f : Kernel → α → Kernel) (hf : ∀ k a, FdsOnly t k (f k a))
    (items : List α) (k : Kernel) : FdsOnly t k (items.foldl f k) := by
  induction items generalizing k with
  | nil => exact refl k
  | cons a rest ih => exact (hf k a).trans (ih (f k a))

theorem closeFd (k : Kernel) (cur : Fin maxTasks) (fd : Fin maxFds) :
    FdsOnly cur k (closeFd k cur fd).1 := by
  unfold Tasking.closeFd
  dsimp only
  split
  · exact setFd k cur fd _
  · split
    · split
      · exact (dropPipeRef k _ _).trans (setFd _ cur fd _)
      · exact setFd k cur fd _
    · exact (ptyClose k _ _).trans (setFd _ cur fd _)
    · exact setFd k cur fd _

theorem sysClose (k : Kernel) (cur : Fin maxTasks) (fd : ℤ) :
    FdsOnly cur k (sysClose k cur fd).1 := by
  unfold Tasking.sysClose
  split
  · exact closeFd k cur _
  · exact refl k

theorem sysOpen (k : Kernel) (cur : Fin maxTasks) (index node : Option ℕ) :
    FdsOnly cur k (sysOpen k cur index node).kernel := by
  unfold Tasking.sysOpen
  split
  · exact refl k
  · split
    · exact setFd k cur _ _
    · exact setFd k cur _ _
    · exact refl k

theorem sysPipe (k : Kernel) (cur : Fin maxTasks) : FdsOnly cur k (sysPipe k cur).kernel := by
  unfold Tasking.sysPipe
  split
  · exact refl k
  · rename_i pno _
    have hpipe : FdsOnly cur k (k.setPipe pno PipeBuf.zero) := of_tasks rfl rfl
    dsimp only
    split
    · exact hpipe
    · rename_i rd _
      have hmarked := hpipe.trans (setFd _ cur rd
        { (k.setPipe pno PipeBuf.zero).slot cur rd with type := .pipe, flagsExtra := 0 })
      split
      · exact hmarked.trans (setFd _ cur rd _)
      · exact ((((((hmarked.trans (setFd _ cur rd _)).trans (setFd _ cur _ _)).trans
          (addPipeRef _ _ _)).trans (addPipeRef _ _ _)).trans (addPipeRef _ _ _)).trans
            (addPipeRef _ _ _))

theorem setPty (k : Kernel) (idx : Fin maxPtys) (pty : Pty) : FdsOnly t k (k.setPty idx pty) :=
  of_tasks rfl rfl

theorem sysOpenpty (k : Kernel) (cur : Fin maxTasks) :
    FdsOnly cur k (sysOpenpty k cur).kernel := by
  unfold Tasking.sysOpenpty
  split
  · exact refl k
  · split
    · exact setPty k _ _
    · dsimp only
      split
      · exact ((setFd k cur _ _).trans (setPty _ _ _)).trans (setFd _ cur _ _)
      · exact ((setFd k cur _ _).trans (setFd _ cur _ _)).trans (setPty _ _ _)

theorem netSocket (k : Kernel) (cur : Fin maxTasks) :
    FdsOnly cur k (netSocket k cur).kernel := by
  unfold Tasking.netSocket
  split
  · exact refl k
  · rename_i sock _
    have hsock : FdsOnly cur k { k with sockets := update k.sockets sock true } :=
      of_tasks rfl rfl
    dsimp only
    split
    · exact hsock.trans (setFd _ cur _ _)
    · exact hsock

theorem dupOnto (k : Kernel) (cur : Fin maxTasks) (old new : Fin maxFds) :
    FdsOnly cur k (dupOnto k cur old new).kernel := by
  unfold Tasking.dupOnto
  dsimp only
  split
  · exact ((closeFd k cur new).trans (setFd _ cur new _)).trans (addSlotRef _ _)
  · exact (setFd k cur new _).trans (addSlotRef _ _)

theorem sysDup2 (k : Kernel) (cur : Fin maxTasks) (oldfd newfd : ℤ) :
    FdsOnly cur k (sysDup2 k cur oldfd newfd).kernel := by
  unfold Tasking.sysDup2
  split
  · split
    · exact refl k
    · split
      · exact dupOnto k cur _ _
      · exact refl k
  · exact refl k

theorem call (k : Kernel) (cur : Fin maxTasks) (call : Call) :
    FdsOnly cur k (call.outcome k cur).kernel := by
  cases call with
  | «open» index node => exact sysOpen k cur index node
  | pipe => exact sysPipe k cur
  | openpty => exact sysOpenpty k cur
  | socket => exact netSocket k cur
  | dup2 oldfd newfd => exact sysDup2 k cur oldfd newfd

variable (t) in
theorem netClose (k : Kernel) (s : ℤ) : FdsOnly t k (netClose k s) := by
  unfold Tasking.netClose
  split
  · exact of_tasks rfl rfl
  · exact refl k

theorem fcntlSetFl (k : Kernel) (cur : Fin maxTasks) (fd : ℤ) (arg : UInt32) :
    FdsOnly cur k (fcntlSetFl k cur fd arg) := by
  unfold Tasking.fcntlSetFl
  split
  · exact refl k
  · dsimp only
    split
    · exact setFd k cur _ _
    · split
      · exact setFd k cur _ _
      · exact refl k

theorem exitFd (t : Fin maxTasks) (k : Kernel) (fd : Fin maxFds) :
    FdsOnly t k (exitFd t k fd) := by
  unfold Tasking.exitFd
  dsimp only
  split
  · split
    · exact (dropPipeRef k _ _).trans (setFd _ t fd _)
    · exact setFd k t fd _
  · exact setFd k t fd _

theorem exitFds (t : Fin maxTasks) (fds : List (Fin maxFds)) (k : Kernel) :
    FdsOnly t k (fds.foldl (Tasking.exitFd t) k) := foldl _ (exitFd t) fds k

theorem installRedir (t : Fin maxTasks) (k : Kernel) (fd : Fin maxFds) (redir : Redir) :
    FdsOnly t k (installRedir t k fd redir) := by
  unfold Tasking.installRedir
  dsimp only
  split
  · exact refl k
  · exact (setFd k t fd _).trans (addPipeRef _ _ _)
  · exact (setFd k t fd _).trans (ptyDupRef _ _ _)
  · exact setFd k t fd _

theorem installRedirs (t : Fin maxTasks) (redirs : Fin maxFds → Redir) (k : Kernel) :
    FdsOnly t k (installRedirs t redirs k) :=
  foldl _ (fun k fd => installRedir t k fd (redirs fd)) stdFds k

theorem dupFdTable (source target : Fin maxTasks) (k : Kernel) :
    FdsOnly target k (dupFdTable source target k) :=
  foldl _ (fun k fd => (setFd k target fd _).trans (addSlotRef _ _)) _ k

end FdsOnly

/-! ## Steps that create no task -/

/-- Identities stay, and no task comes to life. -/
structure Shrinks (k next : Kernel) : Prop where
  id : ∀ t, (next.tasks t).id = (k.tasks t).id
  group : ∀ t, (next.tasks t).group = (k.tasks t).group
  live : ∀ t, IsLive (next.tasks t) → IsLive (k.tasks t)
  nextTaskId : next.nextTaskId = k.nextTaskId

namespace Shrinks

variable {k mid next : Kernel}

theorem refl (k : Kernel) : Shrinks k k := ⟨fun _ => rfl, fun _ => rfl, fun _ h => h, rfl⟩

theorem trans (hfirst : Shrinks k mid) (hrest : Shrinks mid next) : Shrinks k next where
  id t := (hrest.id t).trans (hfirst.id t)
  group t := (hrest.group t).trans (hfirst.group t)
  live t h := hfirst.live t (hrest.live t h)
  nextTaskId := hrest.nextTaskId.trans hfirst.nextTaskId

theorem of_fdsOnly {t : Fin maxTasks} (hnext : FdsOnly t k next) : Shrinks k next where
  id := hnext.id_eq
  group := hnext.group_eq
  live u h := by
    unfold IsLive at h ⊢
    rwa [hnext.state_eq u] at h
  nextTaskId := hnext.nextTaskId

theorem setCurrent (k : Kernel) (current : Option (Fin maxTasks)) :
    Shrinks k { k with current := current } :=
  ⟨fun _ => rfl, fun _ => rfl, fun _ h => h, rfl⟩

theorem setTask (t : Fin maxTasks) {task : Task} (hid : task.id = (k.tasks t).id)
    (hgroup : task.group = (k.tasks t).group)
    (hlive : IsLive task → IsLive (k.tasks t)) : Shrinks k (k.setTask t task) where
  id u := by
    by_cases hu : u = t
    · subst hu
      simpa [Kernel.setTask] using hid
    · simp [Kernel.setTask, hu]
  group u := by
    by_cases hu : u = t
    · subst hu
      simpa [Kernel.setTask] using hgroup
    · simp [Kernel.setTask, hu]
  live u h := by
    by_cases hu : u = t
    · subst hu
      exact hlive (by simpa [Kernel.setTask] using h)
    · simpa [Kernel.setTask, hu] using h
  nextTaskId := rfl

theorem setState (k : Kernel) (t : Fin maxTasks) {state : TaskState}
    (hlive : state ≠ .free ∧ state ≠ .dead → IsLive (k.tasks t)) :
    Shrinks k (k.setState t state) :=
  setTask t rfl rfl hlive

theorem setDead (k : Kernel) (t : Fin maxTasks) : Shrinks k (k.setState t .dead) :=
  setState k t fun h => absurd rfl h.2

theorem setFree (k : Kernel) (t : Fin maxTasks) : Shrinks k (k.setState t .free) :=
  setState k t fun h => absurd rfl h.1

theorem exitTask (k : Kernel) (cur : Fin maxTasks) : Shrinks k (exitTask k cur) := by
  unfold Tasking.exitTask
  split
  · exact (of_fdsOnly (FdsOnly.exitFds cur _ k)).trans (setDead _ cur)
  · exact refl k

theorem killThreadGroup (k : Kernel) (group : ℕ) : Shrinks k (killThreadGroup k group) where
  id t := by
    unfold Tasking.killThreadGroup
    dsimp only
    split <;> rfl
  group t := by
    unfold Tasking.killThreadGroup
    dsimp only
    split <;> rfl
  live t h := by
    unfold Tasking.killThreadGroup at h
    dsimp only at h
    split at h
    · exact absurd rfl h.2
    · exact h
  nextTaskId := rfl

theorem sysExit (k : Kernel) (cur : Fin maxTasks) : Shrinks k (sysExit k cur) := by
  unfold Tasking.sysExit
  dsimp only
  split
  · exact (killThreadGroup k _).trans (exitTask _ cur)
  · exact exitTask k cur

theorem threadExit (k : Kernel) (cur : Fin maxTasks) : Shrinks k (threadExit k cur) := by
  unfold Tasking.threadExit
  dsimp only
  split
  · exact refl k
  · split
    · exact (killThreadGroup k _).trans (exitTask _ cur)
    · exact setDead k cur

theorem sysWait4 (k : Kernel) (cur : Fin maxTasks) (pid : ℤ) :
    Shrinks k (sysWait4 k cur pid) := by
  unfold Tasking.sysWait4
  split
  · exact setFree k _
  · exact refl k

theorem saveCurrent (k : Kernel) : Shrinks k k.saveCurrent := by
  unfold Kernel.saveCurrent
  split
  · rename_i cur _
    split
    · rename_i hrunning
      exact setState k cur fun _ => ⟨by simp [hrunning], by simp [hrunning]⟩
    · exact refl k
  · exact refl k

theorem dispatch (k : Kernel) (next : Option (Fin maxTasks)) (killed : Bool) :
    Shrinks k (dispatch k next killed) := by
  unfold Tasking.dispatch
  dsimp only
  split
  · exact (saveCurrent k).trans (setCurrent _ _)
  · rename_i t
    split
    · exact refl k
    · rename_i hready
      have hlive : IsLive (k.saveCurrent.tasks t) := by
        have hready := not_not.mp hready
        exact ⟨by simp [hready], by simp [hready]⟩
      split
      · exact ((saveCurrent k).trans (setDead _ t)).trans (setCurrent _ _)
      · exact ((saveCurrent k).trans (setState _ t fun _ => hlive)).trans
          (setCurrent _ _)

end Shrinks

variable {s : Grouped}

theorem GroupsApart.shrink (hs : GroupsApart s) {next : Kernel} (hnext : Shrinks s.kernel next) :
    GroupsApart ⟨next, s.process⟩ where
  main t ht := (hnext.group t).trans (hs.main t ht)
  next_pos := hnext.nextTaskId ▸ hs.next_pos
  id_pos t ht hlive := (hnext.id t).symm ▸ hs.id_pos t ht (hnext.live t hlive)
  id_lt t := by
    rw [hnext.id, hnext.nextTaskId]
    exact hs.id_lt t
  group_lt t := by
    rw [hnext.group, hnext.nextTaskId]
    exact hs.group_lt t
  together a b ha hb := by
    rw [hnext.group, hnext.group, hnext.id]
    exact hs.together a b (hnext.live a ha) (hnext.live b hb)

/-! ## Steps that create a task -/

/-- Slot `t` gets the next id and the given group number. -/
structure Creates (k next : Kernel) (t : Fin maxTasks) (group : ℕ) : Prop where
  id_new : (next.tasks t).id = k.nextTaskId
  group_new : (next.tasks t).group = group
  id : ∀ u, u ≠ t → (next.tasks u).id = (k.tasks u).id
  group : ∀ u, u ≠ t → (next.tasks u).group = (k.tasks u).group
  live : ∀ u, u ≠ t → IsLive (next.tasks u) → IsLive (k.tasks u)
  nextTaskId : next.nextTaskId = k.nextTaskId + 1

theorem Creates.shrink {k mid next : Kernel} {t : Fin maxTasks} {group : ℕ}
    (hmid : Creates k mid t group) (hnext : Shrinks mid next) : Creates k next t group where
  id_new := (hnext.id t).trans hmid.id_new
  group_new := (hnext.group t).trans hmid.group_new
  id u hu := (hnext.id u).trans (hmid.id u hu)
  group u hu := (hnext.group u).trans (hmid.group u hu)
  live u hu h := hmid.live u hu (hnext.live u h)
  nextTaskId := hnext.nextTaskId.trans hmid.nextTaskId

theorem Creates.setState {k mid : Kernel} {t : Fin maxTasks} {group : ℕ}
    (hmid : Creates k mid t group) (state : TaskState) :
    Creates k (mid.setState t state) t group where
  id_new := by simpa [Kernel.setState, Kernel.setTask] using hmid.id_new
  group_new := by simpa [Kernel.setState, Kernel.setTask] using hmid.group_new
  id u hu := by simpa [Kernel.setState, Kernel.setTask, hu] using hmid.id u hu
  group u hu := by simpa [Kernel.setState, Kernel.setTask, hu] using hmid.group u hu
  live u hu h := hmid.live u hu (by simpa [Kernel.setState, Kernel.setTask, hu] using h)
  nextTaskId := hmid.nextTaskId

theorem creates_claimTask (k : Kernel) (t : Fin maxTasks) (ring : Ring) :
    Creates k (k.claimTask t ring) t (k.tasks t).group where
  id_new := by simp [Kernel.claimTask, Kernel.setTask]
  group_new := by simp [Kernel.claimTask, Kernel.setTask]
  id u hu := by simp [Kernel.claimTask, Kernel.setTask, hu]
  group u hu := by simp [Kernel.claimTask, Kernel.setTask, hu]
  live u hu := by simp [Kernel.claimTask, Kernel.setTask, hu]
  nextTaskId := rfl

theorem Creates.setGroup {k mid : Kernel} {t : Fin maxTasks} {old : ℕ}
    (hmid : Creates k mid t old) (group : ℕ) :
    Creates k (mid.setTask t { mid.tasks t with group := group }) t group where
  id_new := by simpa [Kernel.setTask] using hmid.id_new
  group_new := by simp [Kernel.setTask]
  id u hu := by simpa [Kernel.setTask, hu] using hmid.id u hu
  group u hu := by simpa [Kernel.setTask, hu] using hmid.group u hu
  live u hu h := hmid.live u hu (by simpa [Kernel.setTask, hu] using h)
  nextTaskId := hmid.nextTaskId

theorem creates_createTask {k : Kernel} {t : Fin maxTasks} (ht : k.freeTask = some t)
    (ring : Ring) (allocated : Bool) :
    Creates k (createTask k ring allocated) t (k.tasks t).group := by
  unfold createTask
  rw [ht]
  exact ((creates_claimTask k t ring).shrink (.of_fdsOnly (.mapFds _ t _))).setState _

theorem createTask_not_live {k : Kernel} {t : Fin maxTasks} (ht : k.freeTask = some t)
    (ring : Ring) : ¬ IsLive ((createTask k ring false).tasks t) := by
  unfold createTask
  rw [ht]
  intro hlive
  exact hlive.1 (by simp [Kernel.setState, Kernel.setTask])

theorem creates_spawnRedir {k : Kernel} {t : Fin maxTasks} (ht : k.freeTask = some t)
    (redir : Fin maxFds → ℤ) {outcome : SpawnOutcome} (hmodule : outcome ≠ .noModule) :
    Creates k (spawnRedir k redir outcome) t k.nextTaskId := by
  have hclaimed := creates_claimTask k t .ring3
  have hgroup := hclaimed.setGroup ((k.claimTask t .ring3).tasks t).id
  have hfds := hgroup.shrink (.of_fdsOnly (.mapFds _ t FdSlot.resetPart))
  have hid : ((k.claimTask t .ring3).tasks t).id = k.nextTaskId := hclaimed.id_new
  rw [← hid]
  cases outcome with
  | noModule => exact absurd rfl hmodule
  | noStack =>
      unfold spawnRedir
      rw [ht]
      dsimp only
      exact (hfds.shrink (.of_fdsOnly (.installRedirs t _ _))).setState _
  | notLoaded | loaded =>
      unfold spawnRedir
      rw [ht]
      dsimp only
      exact ((hfds.shrink (.of_fdsOnly (.installRedirs t _ _))).shrink
        (.of_fdsOnly (.installRedirs t _ _))).setState _

theorem creates_createUserThread {k : Kernel} {t leader : Fin maxTasks}
    (ht : k.freeTask = some t)
    (hleader : (k.tasks leader).ring = .ring3 ∧ 0 < (k.tasks leader).group)
    (allocated : Bool) :
    Creates k (createUserThread k leader allocated) t (k.tasks leader).group := by
  unfold createUserThread
  rw [if_pos hleader, ht]
  exact (((creates_claimTask k t .ring3).setGroup _).shrink (.of_fdsOnly (.mapFds _ t _))).setState _

theorem creates_sysFork {k : Kernel} {t cur : Fin maxTasks} (ht : k.freeTask = some t)
    (hring : (k.tasks cur).ring = .ring3) (copied : Bool) :
    Creates k (sysFork k cur copied) t k.nextTaskId := by
  have hchild : Creates k { k.setTask t (forkChild k cur) with
      nextTaskId := k.nextTaskId + 1 } t k.nextTaskId :=
    { id_new := by simp [Kernel.setTask, forkChild]
      group_new := by simp [Kernel.setTask, forkChild]
      id := fun u hu => by simp [Kernel.setTask, hu]
      group := fun u hu => by simp [Kernel.setTask, hu]
      live := fun u hu => by simp [Kernel.setTask, hu]
      nextTaskId := rfl }
  unfold sysFork
  rw [if_pos hring, ht]
  dsimp only
  split
  · exact (hchild.shrink (.of_fdsOnly (.dupFdTable cur t _))).setState _
  · exact hchild

theorem GroupsApart.create (hs : GroupsApart s) {next : Kernel} {t : Fin maxTasks} {group p : ℕ}
    (ht : 1 ≤ t.val) (hnext : Creates s.kernel next t group) (hgroup : group ≤ s.kernel.nextTaskId)
    (hjoin : IsLive (next.tasks t) → group ≠ 0 → ∀ a, IsLive (s.kernel.tasks a) →
      ((s.kernel.tasks a).group = group ∨ (s.kernel.tasks a).id = group) →
      s.process a = p) :
    GroupsApart ⟨next, update s.process t p⟩ where
  main u hu := by
    have hne : u ≠ t := by
      rintro rfl
      omega
    exact (hnext.group u hne).trans (hs.main u hu)
  next_pos := by
    have hnew := hnext.nextTaskId
    have hpos := hs.next_pos
    dsimp only
    omega
  id_pos u hu hlive := by
    by_cases hut : u = t
    · subst hut
      exact hnext.id_new ▸ hs.next_pos
    · exact (hnext.id u hut).symm ▸ hs.id_pos u hu (hnext.live u hut hlive)
  id_lt u := by
    rw [hnext.nextTaskId]
    by_cases hut : u = t
    · subst hut
      exact hnext.id_new.trans_lt (Nat.lt_succ_self _)
    · exact (hnext.id u hut).trans_lt ((hs.id_lt u).trans (Nat.lt_succ_self _))
  group_lt u := by
    rw [hnext.nextTaskId]
    by_cases hut : u = t
    · subst hut
      exact hnext.group_new.trans_lt (Nat.lt_succ_of_le hgroup)
    · exact (hnext.group u hut).trans_lt ((hs.group_lt u).trans (Nat.lt_succ_self _))
  together a b ha hb hne hab := by
    dsimp only at ha hb hne hab ⊢
    by_cases hat : a = t
    · by_cases hbt : b = t
      · rw [hat, hbt]
      · subst hat
        rw [hnext.group_new] at hne hab
        rw [hnext.group b hbt, hnext.id b hbt] at hab
        rw [update_self, update_of_ne hbt]
        exact hjoin ha hne b (hnext.live b hbt hb) hab
    · rw [hnext.group a hat] at hne hab
      have hlive := hnext.live a hat ha
      by_cases hbt : b = t
      · subst hbt
        rw [hnext.group_new, hnext.id_new] at hab
        have hlt := hs.group_lt a
        have heq : group = (s.kernel.tasks a).group := by omega
        rw [update_self, update_of_ne hat]
        exact (hjoin hb (heq ▸ hne) a hlive (Or.inl heq.symm)).symm
      · rw [hnext.group b hbt, hnext.id b hbt] at hab
        rw [update_of_ne hat, update_of_ne hbt]
        exact hs.together a b hlive (hnext.live b hbt hb) hne hab

theorem freeTask_pos {k : Kernel} {t : Fin maxTasks} (ht : k.freeTask = some t) :
    1 ≤ t.val := by
  have hfree := Fin.eq_true_of_find?_eq_some ht
  simp only [Bool.and_eq_true, decide_eq_true_eq] at hfree
  exact hfree.1

theorem started_of_some {k : Kernel} {t : Fin maxTasks} (ht : k.freeTask = some t)
    (process : Fin maxTasks → ℕ) (p : ℕ) :
    started k process p = update process t p := by
  unfold started
  rw [ht]

theorem started_of_none {k : Kernel} (hnone : k.freeTask = none)
    (process : Fin maxTasks → ℕ) (p : ℕ) : started k process p = process := by
  unfold started
  rw [hnone]

theorem GroupsApart.createFirst (hs : GroupsApart s) {next : Kernel} {t : Fin maxTasks}
    (ht : s.kernel.freeTask = some t) (hnext : Creates s.kernel next t s.kernel.nextTaskId) :
    GroupsApart ⟨next, started s.kernel s.process s.kernel.nextTaskId⟩ := by
  rw [started_of_some ht]
  apply hs.create (freeTask_pos ht) hnext le_rfl
  intro _ _ a _ ha
  have hid := hs.id_lt a
  have hgroup := hs.group_lt a
  omega

theorem GroupsApart.createTask (hs : GroupsApart s) (ring : Ring) (allocated : Bool)
    (hkeeps : KeepsGroups s.kernel (.create ring allocated)) :
    GroupsApart ⟨createTask s.kernel ring allocated,
      started s.kernel s.process s.kernel.nextTaskId⟩ := by
  cases ht : s.kernel.freeTask with
  | none =>
      unfold Tasking.createTask
      rw [started_of_none ht, ht]
      exact hs
  | some t =>
      rw [started_of_some ht]
      apply hs.create (freeTask_pos ht) (creates_createTask ht ring allocated)
        (hs.group_lt t).le
      intro hlive hne a ha hab
      have hallocated : allocated = true := by
        by_contra hnot
        rw [Bool.not_eq_true] at hnot
        subst hnot
        exact createTask_not_live ht ring hlive
      obtain ⟨hgroup, hid⟩ := hkeeps hallocated t ht hne a ha
      rcases hab with h | h
      · exact absurd h hgroup
      · exact absurd h hid

theorem GroupsApart.spawnRedir {s : Grouped} (hs : GroupsApart s) (redir : Fin maxFds → ℤ)
    (outcome : SpawnOutcome) (hmodule : outcome ≠ .noModule) :
    GroupsApart ⟨spawnRedir s.kernel redir outcome,
      started s.kernel s.process s.kernel.nextTaskId⟩ := by
  cases ht : s.kernel.freeTask with
  | none =>
      have hsame : Tasking.spawnRedir s.kernel redir outcome = s.kernel := by
        unfold Tasking.spawnRedir
        cases outcome <;> simp only [ht]
      rw [started_of_none ht, hsame]
      exact hs
  | some t => exact hs.createFirst ht (creates_spawnRedir ht redir hmodule)

variable {cur : Fin maxTasks}

theorem GroupsApart.sysFork (hs : GroupsApart s) (hring : (s.kernel.tasks cur).ring = .ring3)
    (copied : Bool) :
    GroupsApart ⟨sysFork s.kernel cur copied,
      started s.kernel s.process s.kernel.nextTaskId⟩ := by
  cases ht : s.kernel.freeTask with
  | none =>
      unfold Tasking.sysFork
      rw [started_of_none ht, if_pos hring, ht]
      exact hs
  | some t => exact hs.createFirst ht (creates_sysFork ht hring copied)

/-- A thread gets the number of its leader, which is of the leader's process only. -/
theorem GroupsApart.createUserThread (hs : GroupsApart s) {leader : Fin maxTasks}
    (hleader : (s.kernel.tasks leader).ring = .ring3 ∧ 0 < (s.kernel.tasks leader).group)
    (hlive : IsLive (s.kernel.tasks leader)) (allocated : Bool) :
    GroupsApart ⟨createUserThread s.kernel leader allocated,
      started s.kernel s.process (s.process leader)⟩ := by
  cases ht : s.kernel.freeTask with
  | none =>
      unfold Tasking.createUserThread
      rw [started_of_none ht, if_pos hleader, ht]
      exact hs
  | some t =>
      rw [started_of_some ht]
      apply hs.create (freeTask_pos ht) (creates_createUserThread ht hleader allocated)
        (hs.group_lt leader).le
      intro _ hne a ha hab
      exact hs.together leader a hlive ha hne hab

theorem GroupsApart.forkRequest (hs : GroupsApart s) (cur : Fin maxTasks) (copied : Bool) :
    GroupsApart ⟨Tasking.sysFork s.kernel cur copied,
      if (s.kernel.tasks cur).ring = .ring3 then
        started s.kernel s.process s.kernel.nextTaskId
      else s.process⟩ := by
  by_cases hring : (s.kernel.tasks cur).ring = .ring3
  · rw [if_pos hring]
    exact hs.sysFork hring copied
  · have hsame : Tasking.sysFork s.kernel cur copied = s.kernel := if_neg hring
    rw [if_neg hring, hsame]
    exact hs

theorem GroupsApart.threadRequest (hs : GroupsApart s) (hlive : IsLive (s.kernel.tasks cur))
    (allocated : Bool) :
    GroupsApart ⟨Tasking.createUserThread s.kernel cur allocated,
      if (s.kernel.tasks cur).ring = .ring3 ∧ 0 < (s.kernel.tasks cur).group then
        started s.kernel s.process (s.process cur)
      else s.process⟩ := by
  by_cases hleader : (s.kernel.tasks cur).ring = .ring3 ∧ 0 < (s.kernel.tasks cur).group
  · rw [if_pos hleader]
    exact hs.createUserThread hleader hlive allocated
  · have hsame : Tasking.createUserThread s.kernel cur allocated = s.kernel :=
      if_neg hleader
    rw [if_neg hleader, hsame]
    exact hs

/-! ## The run -/

theorem GroupsApart.request (hs : GroupsApart s) (hrunning : (s.kernel.tasks cur).state = .running)
    (request : Request) :
    GroupsApart ⟨request.apply s.kernel cur, request.process s.kernel cur s.process⟩ := by
  have hlive : IsLive (s.kernel.tasks cur) := ⟨by simp [hrunning], by simp [hrunning]⟩
  cases request with
  | call call => exact hs.shrink (.of_fdsOnly (.call _ cur call))
  | close fd => exact hs.shrink (.of_fdsOnly (.sysClose _ cur fd))
  | netClose fd => exact hs.shrink (.of_fdsOnly (.netClose cur _ fd))
  | fcntl fd arg => exact hs.shrink (.of_fdsOnly (.fcntlSetFl _ cur fd arg))
  | spawn redir outcome =>
      cases outcome with
      | noModule => exact hs
      | noStack => exact hs.spawnRedir redir .noStack (by simp)
      | notLoaded => exact hs.spawnRedir redir .notLoaded (by simp)
      | loaded => exact hs.spawnRedir redir .loaded (by simp)
  | fork copied => exact hs.forkRequest cur copied
  | thread allocated => exact hs.threadRequest hlive allocated
  | exit => exact hs.shrink (Shrinks.sysExit _ cur)
  | threadExit => exact hs.shrink (Shrinks.threadExit _ cur)
  | fault => exact hs.shrink (Shrinks.exitTask _ cur)
  | wait4 pid => exact hs.shrink (Shrinks.sysWait4 _ cur pid)
  | sleep => exact hs.shrink (Shrinks.setState _ cur fun _ => hlive)

theorem groupsApart_next (hs : GroupsApart s) {event : Event} (hkeeps : KeepsGroups s.kernel event) :
    GroupsApart (s.next event) := by
  cases event with
  | request request =>
      unfold Grouped.next
      simp only [Event.apply, Event.process]
      cases hcur : s.kernel.current with
      | none => exact hs
      | some cur =>
          dsimp only
          by_cases hrunning : (s.kernel.tasks cur).state = .running
          · rw [if_pos hrunning, if_pos hrunning]
            exact hs.request hrunning request
          · rw [if_neg hrunning, if_neg hrunning]
            exact hs
  | create ring allocated => exact hs.createTask ring allocated hkeeps
  | kill group => exact hs.shrink (Shrinks.killThreadGroup _ group)
  | wake t =>
      apply hs.shrink
      simp only [Event.apply]
      split
      · rename_i hsleeping
        exact Shrinks.setState _ t fun _ => ⟨by simp [hsleeping], by simp [hsleeping]⟩
      · exact Shrinks.refl _
  | dispatch next killed => exact hs.shrink (Shrinks.dispatch _ next killed)
  | neutralize t =>
      apply hs.shrink
      simp only [Event.apply]
      split
      · exact Shrinks.setDead _ t
      · exact Shrinks.refl _

theorem exitTask_tasks_of_ne {k : Kernel} {cur t : Fin maxTasks} (ht : t ≠ cur) :
    (exitTask k cur).tasks t = k.tasks t := by
  have hfd : ∀ (k : Kernel) (fd : Fin maxFds), (exitFd cur k fd).tasks t = k.tasks t := by
    intro k fd
    unfold exitFd
    dsimp only
    split
    · split <;> simp [Kernel.setFd, Kernel.setTask, dropPipeRef, ht]
    · simp [Kernel.setFd, Kernel.setTask, ht]
  have hfds : ∀ (fds : List (Fin maxFds)) (k : Kernel),
      (fds.foldl (exitFd cur) k).tasks t = k.tasks t := by
    intro fds
    induction fds with
    | nil => exact fun _ => rfl
    | cons fd rest ih => exact fun k => (ih _).trans (hfd k fd)
  unfold exitTask
  split
  · simp only [Kernel.setState, Kernel.setTask]
    rw [update_of_ne ht]
    exact hfds _ k
  · rfl

theorem killThreadGroup_tasks {k : Kernel} {group : ℕ} {t : Fin maxTasks}
    (ht : (killThreadGroup k group).tasks t ≠ k.tasks t) :
    1 ≤ t.val ∧ IsLive (k.tasks t) ∧
      ((k.tasks t).group = group ∨ (k.tasks t).id = group) := by
  unfold killThreadGroup at ht
  dsimp only at ht
  split at ht
  · rename_i hkilled
    refine ⟨hkilled.1, ⟨hkilled.2.1, ?_⟩, hkilled.2.2⟩
    intro hdead
    apply ht
    rw [← hdead]
  · exact absurd rfl ht

theorem killAndExit_tasks {k : Kernel} {group : ℕ} {cur t : Fin maxTasks}
    (ht : (exitTask (killThreadGroup k group) cur).tasks t ≠ k.tasks t) (hne : t ≠ cur) :
    1 ≤ t.val ∧ IsLive (k.tasks t) ∧
      ((k.tasks t).group = group ∨ (k.tasks t).id = group) := by
  rw [exitTask_tasks_of_ne hne] at ht
  exact killThreadGroup_tasks ht

theorem GroupsApart.sysExit_inside (hs : GroupsApart s) {cur t : Fin maxTasks}
    (hlive : IsLive (s.kernel.tasks cur)) (ht : (sysExit s.kernel cur).tasks t ≠ s.kernel.tasks t) :
    s.process t = s.process cur := by
  by_cases hne : t = cur
  · rw [hne]
  · unfold sysExit at ht
    dsimp only at ht
    split at ht
    · rename_i hgroup
      obtain ⟨_, htlive, hmember⟩ := killAndExit_tasks ht hne
      exact hs.together cur t hlive htlive hgroup.ne' hmember
    · exact absurd (exitTask_tasks_of_ne hne) ht

theorem GroupsApart.threadExit_inside (hs : GroupsApart s) {cur t : Fin maxTasks}
    (hcur : s.kernel.current = some cur) (hlive : IsLive (s.kernel.tasks cur))
    (hkeeps : KeepsGroups s.kernel (.request .threadExit))
    (ht : (threadExit s.kernel cur).tasks t ≠ s.kernel.tasks t) : s.process t = s.process cur := by
  by_cases hne : t = cur
  · rw [hne]
  · unfold threadExit at ht
    dsimp only at ht
    split at ht
    · exact absurd rfl ht
    · split at ht
      · obtain ⟨hpos, htlive, hmember⟩ := killAndExit_tasks ht hne
        by_cases hgroup : (s.kernel.tasks cur).group = 0
        · rw [hgroup] at hmember
          have hid := hs.id_pos t hpos htlive
          rcases hmember with h | h
          · exact absurd h (hkeeps cur hcur hgroup t hne hpos htlive)
          · exact absurd h hid.ne'
        · exact hs.together cur t hlive htlive hgroup hmember
      · refine absurd ?_ ht
        simp [Kernel.setState, Kernel.setTask, hne]

theorem staysInside_next (hs : GroupsApart s) {event : Event} (hkeeps : KeepsGroups s.kernel event) :
    StaysInside s event (s.next event) := by
  intro hexit cur hcur t ht
  cases event with
  | request request =>
      simp only [Grouped.next, Event.apply, hcur] at ht
      split at ht
      · rename_i hrunning
        have hlive : IsLive (s.kernel.tasks cur) := ⟨by simp [hrunning], by simp [hrunning]⟩
        cases request with
        | exit => exact hs.sysExit_inside hlive ht
        | threadExit => exact hs.threadExit_inside hcur hlive hkeeps ht
        | fault =>
            by_cases hne : t = cur
            · rw [hne]
            · exact absurd (exitTask_tasks_of_ne hne) ht
        | _ => exact hexit.elim
      · exact absurd rfl ht
  | _ => exact hexit.elim

/-- In every run from the start of tasking in which no new task gets the group of a live
one, and no task without a group ends its thread beside another, every exit stays inside
the caller's process. -/
theorem staysInside_along {run : List (Event × Grouped)}
    (hrun : Along GroupedStep Grouped.init run)
    (hkeeps : Along (fun s event _ => KeepsGroups s.kernel event) Grouped.init run) :
    Along StaysInside Grouped.init run := by
  refine along_of_guarded GroupsApart ?_ groupsApart_init hrun hkeeps
  rintro s event next hs hkeep rfl
  exact ⟨groupsApart_next hs hkeep, staysInside_next hs hkeep⟩

def groupedRun (s : Grouped) : List Event → List (Event × Grouped)
  | [] => []
  | event :: rest => (event, s.next event) :: groupedRun (s.next event) rest

theorem along_groupedRun (s : Grouped) (events : List Event) :
    Along GroupedStep s (groupedRun s events) := by
  induction events generalizing s with
  | nil => trivial
  | cons event rest ih => exact ⟨rfl, ih _⟩

/-- A process is spawned, starts a thread and exits. -/
def threadThenExit : List Event :=
  [.create .ring3 true, .dispatch (some firstProcess) false,
    .request (.spawn (fun _ => -1) .loaded), .dispatch (some ⟨2, by decide⟩) false,
    .request (.thread true), .request .exit]

theorem threadThenExit_staysInside :
    Along StaysInside Grouped.init (groupedRun Grouped.init threadThenExit) := by
  refine staysInside_along (along_groupedRun _ _)
    ⟨?_, trivial, trivial, trivial, trivial, trivial, trivial⟩
  rintro - t ht hgroup
  refine absurd ?_ hgroup
  unfold Grouped.init initTasking
  dsimp only
  split <;> rfl

/-- A process from `create_user_process` ends its thread beside a kernel task. -/
def threadExitBesideKernel : List Event :=
  [.create .ring3 true, .create .ring0 true, .dispatch (some firstProcess) false,
    .request .threadExit]

theorem threadExit_not_staysInside :
    ∃ run, Along GroupedStep Grouped.init run ∧ ¬ Along StaysInside Grouped.init run := by
  refine ⟨groupedRun Grouped.init threadExitBesideKernel, along_groupedRun _ _, ?_⟩
  rintro ⟨-, -, -, hexit, -⟩
  have hkilled := hexit trivial firstProcess (by decide +kernel) ⟨2, by decide⟩
  have hprocess := hkilled fun h => absurd (congrArg Task.state h) (by decide +kernel)
  exact absurd hprocess (by decide +kernel)

end EigenOS.Tasking
