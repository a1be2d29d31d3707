import EigenOS.Library.Transition
import EigenOS.Tasking.Descriptors

/-!
# Creating and ending tasks

`init_tasking`, the functions of `task.c` that fill a task slot or give it up, and the
step of the whole kernel: what a task asks for, and what the scheduler decides.  Where a
function stops early because memory, an image or a page table is missing, the outcome is
an argument.
-/

namespace EigenOS.Tasking

/-- `init_tasking`: the main task runs, everything else is free. -/
def initTasking : Kernel where
  tasks := fun t => if t.val = 0 then { Task.zero with state := .running } else Task.zero
  current := some ⟨0, by decide⟩
  nextTaskId := 1
  pipes := fun _ => PipeBuf.zero
  ptys := fun _ => Pty.zero
  sockets := fun _ => false

namespace Kernel

/-- The first free slot after the main task's. -/
def freeTask (k : Kernel) : Option (Fin maxTasks) :=
  Fin.find? fun i => decide (1 ≤ i.val) && decide ((k.tasks i).state = .free)

theorem freeTask_state {k : Kernel} {t : Fin maxTasks} (ht : k.freeTask = some t) :
    (k.tasks t).state = .free := by
  have hfree := Fin.eq_true_of_find?_eq_some ht
  simp only [Bool.and_eq_true, decide_eq_true_eq] at hfree
  exact hfree.2

def currentId (k : Kernel) : ℕ :=
  match k.current with
  | some t => (k.tasks t).id
  | none => 0

def setState (k : Kernel) (t : Fin maxTasks) (state : TaskState) : Kernel :=
  k.setTask t { k.tasks t with state := state }

/-- Slot `t` as the creating functions start it: a fresh id, the creator as parent. -/
def claimTask (k : Kernel) (t : Fin maxTasks) (ring : Ring) : Kernel :=
  { k.setTask t { k.tasks t with id := k.nextTaskId, ppid := k.currentId, ring := ring } with
    nextTaskId := k.nextTaskId + 1 }

/-- Every descriptor of a task rewritten by `f`. -/
def mapFds (k : Kernel) (t : Fin maxTasks) (f : FdSlot → FdSlot) : Kernel :=
  k.setTask t { k.tasks t with fds := fun fd => f ((k.tasks t).fds fd) }

theorem slot_setState (k : Kernel) (t : Fin maxTasks) (state : TaskState) :
    (k.setState t state).slot = k.slot := by
  funext u fd
  by_cases hu : u = t
  · subst hu
    simp [slot, setState, setTask]
  · simp [slot, setState, setTask, hu]

end Kernel

/-- The three arrays that most creating functions reset; types, pipes and ptys of the
slot's last user stay. -/
def FdSlot.resetPart (slot : FdSlot) : FdSlot :=
  { slot with node := none, flags := 0, offset := 0 }

/-- `create_task` and `create_user_process`. -/
def createTask (k : Kernel) (ring : Ring) (allocated : Bool) : Kernel :=
  match k.freeTask with
  | none => k
  | some t =>
      let k := (k.claimTask t ring).mapFds t FdSlot.resetPart
      k.setState t (if allocated then .ready else .free)

/-! ## Spawning with redirected descriptors -/

/-- `struct redir_snap`. -/
inductive Redir where
  | none
  | pipe (pno : Fin maxPipes) (extra : UInt32)
  | pty (pno : Fin maxPtys) (extra : UInt32)
  | file (flags offset : ℕ)

def redirSnap (parent : Task) (pfd : ℤ) : Redir :=
  match toFd pfd with
  | Option.none => .none
  | some fd =>
      let slot := parent.fds fd
      match slot.type with
      | .pipe => .pipe slot.pipe (slot.flagsExtra &&& 1)
      | .pty => .pty slot.pty (slot.flagsExtra &&& 1)
      | _ => if 0 < slot.flags then .file slot.flags slot.offset else .none

/-- One round of the loop that installs an inherited descriptor. -/
def installRedir (t : Fin maxTasks) (k : Kernel) (fd : Fin maxFds) (redir : Redir) :
    Kernel :=
  let slot := k.slot t fd
  match redir with
  | .none => k
  | .pipe pno extra =>
      addPipeRef (k.setFd t fd { slot with type := .pipe, pipe := pno, flagsExtra := extra })
        pno (extra &&& 1 ≠ 0)
  | .pty pno extra =>
      ptyDupRef (k.setFd t fd { slot with type := .pty, pty := pno, flagsExtra := extra })
        pno (extra ≠ 0)
  | .file flags offset => k.setFd t fd { slot with flags := flags, offset := offset }

/-- Standard input, output and error. -/
def stdFds : List (Fin maxFds) := [⟨0, by decide⟩, ⟨1, by decide⟩, ⟨2, by decide⟩]

def installRedirs (t : Fin maxTasks) (redirs : Fin maxFds → Redir) (k : Kernel) : Kernel :=
  stdFds.foldl (fun k fd => installRedir t k fd (redirs fd)) k

/-- How far `create_user_process_elf_redir` gets. -/
inductive SpawnOutcome where
  | noModule
  | noStack
  | notLoaded
  | loaded

/-- `create_user_process_elf_redir`; `redir` is the parent's descriptor for each of the
child's first three. -/
def spawnRedir (k : Kernel) (redir : Fin maxFds → ℤ) (outcome : SpawnOutcome) : Kernel :=
  match outcome with
  | .noModule => k
  | _ =>
      let redirs : Fin maxFds → Redir := fun fd =>
        match k.current with
        | some parent => redirSnap (k.tasks parent) (redir fd)
        | none => .none
      match k.freeTask with
      | none => k
      | some t =>
          let k := k.claimTask t .ring3
          let k := k.setTask t { k.tasks t with group := (k.tasks t).id }
          let k := installRedirs t redirs (k.mapFds t FdSlot.resetPart)
          match outcome with
          | .noStack => k.setState t .free
          | _ =>
              -- The loop stands a second time after the kernel stack is allocated.
              let k := installRedirs t redirs k
              k.setState t (match outcome with
                | .loaded => .ready
                | _ => .free)

/-! ## Threads and fork -/

/-- `create_user_thread`: every array but `fd_pty` is reset. -/
def createUserThread (k : Kernel) (leader : Fin maxTasks) (allocated : Bool) : Kernel :=
  if (k.tasks leader).ring = .ring3 ∧ 0 < (k.tasks leader).group then
    match k.freeTask with
    | none => k
    | some t =>
        let group := (k.tasks leader).group
        let k := k.claimTask t .ring3
        let k := k.setTask t { k.tasks t with group := group }
        let k := k.mapFds t fun slot => { FdSlot.zero with pty := slot.pty }
        k.setState t (if allocated then .ready else .free)
  else k

/-- One round of `dup_fd_table`. -/
def dupFd (source target : Fin maxTasks) (k : Kernel) (fd : Fin maxFds) : Kernel :=
  addSlotRef (k.setFd target fd (k.slot source fd)) (k.slot source fd)

def dupFdTable (source target : Fin maxTasks) (k : Kernel) : Kernel :=
  (List.finRange maxFds).foldl (dupFd source target) k

/-- The child of a fork before anything is copied to it. -/
def forkChild (k : Kernel) (cur : Fin maxTasks) : Task :=
  { Task.zero with
    id := k.nextTaskId
    ppid := (k.tasks cur).id
    group := k.nextTaskId
    ring := .ring3 }

/-- `sys_fork`; `copied` says whether stack and address space could be made. -/
def sysFork (k : Kernel) (cur : Fin maxTasks) (copied : Bool) : Kernel :=
  if (k.tasks cur).ring = .ring3 then
    match k.freeTask with
    | none => k
    | some t =>
        let k := { k.setTask t (forkChild k cur) with nextTaskId := k.nextTaskId + 1 }
        if copied then (dupFdTable cur t k).setState t .ready else k
  else k

/-! ## Ending tasks -/

/-- One round of the loop of `exit_task`. -/
def exitFd (t : Fin maxTasks) (k : Kernel) (fd : Fin maxFds) : Kernel :=
  let slot := { k.slot t fd with node := none, flags := 0 }
  if slot.type = .pipe then
    let emptied := { slot with type := .vfs, pipe := FdSlot.zero.pipe, flagsExtra := 0 }
    (if 0 < slot.pipe.val then dropPipeRef k slot.pipe slot.isUpperEnd else k).setFd t fd
      emptied
  else k.setFd t fd slot

/-- `exit_task`, for any task but the main one. -/
def exitTask (k : Kernel) (cur : Fin maxTasks) : Kernel :=
  if 0 < cur.val then
    ((List.finRange maxFds).foldl (exitFd cur) k).setState cur .dead
  else k

def killThreadGroup (k : Kernel) (group : ℕ) : Kernel :=
  { k with tasks := fun i =>
      let task := k.tasks i
      if 1 ≤ i.val ∧ task.state ≠ .free ∧ (task.group = group ∨ task.id = group) then
        { task with state := .dead }
      else task }

theorem slot_killThreadGroup (k : Kernel) (group : ℕ) :
    (killThreadGroup k group).slot = k.slot := by
  funext t fd
  unfold Kernel.slot killThreadGroup
  dsimp only
  split <;> rfl

/-- `k_sys_exit`. -/
def sysExit (k : Kernel) (cur : Fin maxTasks) : Kernel :=
  let group := (k.tasks cur).group
  exitTask (if 0 < group then killThreadGroup k group else k) cur

/-- `thread_exit_task`. -/
def threadExit (k : Kernel) (cur : Fin maxTasks) : Kernel :=
  let task := k.tasks cur
  if cur.val = 0 then k
  else if task.id = task.group ∨ task.group = 0 then
    exitTask (killThreadGroup k task.group) cur
  else k.setState cur .dead

/-- `sys_wait4`: the first task with the caller as parent that is not dead. -/
def sysWait4 (k : Kernel) (cur : Fin maxTasks) (pid : ℤ) : Kernel :=
  match Fin.find? fun i => decide ((k.tasks i).state ≠ .dead) &&
      decide ((k.tasks i).ppid = (k.tasks cur).id) &&
      (decide (pid ≤ 0) || decide (((k.tasks i).id : ℤ) = pid)) with
  | some i => k.setState i .free
  | none => k

/-! ## The scheduler's decisions -/

/-- A task that is preempted stays ready. -/
def Kernel.saveCurrent (k : Kernel) : Kernel :=
  match k.current with
  | some cur => if (k.tasks cur).state = .running then k.setState cur .ready else k
  | none => k

/-- `schedule` hands the processor to a ready task, or to the idle loop.  A signal may end
the chosen task before it is resumed; nothing is closed then. -/
def dispatch (k : Kernel) (next : Option (Fin maxTasks)) (killed : Bool) : Kernel :=
  let saved := k.saveCurrent
  match next with
  | none => { saved with current := none }
  | some t =>
      if (saved.tasks t).state ≠ .ready then k
      else if killed ∧ (saved.tasks t).ring = .ring3 then
        { saved.setState t .dead with current := none }
      else { saved.setState t .running with current := some t }

/-! ## The kernel step -/

/-- What the current task asks for. -/
inductive Request where
  | call (call : Call)
  | close (fd : ℤ)
  | netClose (s : ℤ)
  | fcntl (fd : ℤ) (arg : UInt32)
  | spawn (redir : Fin maxFds → ℤ) (outcome : SpawnOutcome)
  | fork (copied : Bool)
  | thread (allocated : Bool)
  | exit
  | threadExit
  | fault
  | wait4 (pid : ℤ)
  | sleep

/-- What happens next: a request of the current task, or something from outside it. -/
inductive Event where
  | request (request : Request)
  | create (ring : Ring) (allocated : Bool)
  | kill (group : ℕ)
  | wake (t : Fin maxTasks)
  | dispatch (next : Option (Fin maxTasks)) (killed : Bool)
  | neutralize (t : Fin maxTasks)

def Request.apply (k : Kernel) (cur : Fin maxTasks) : Request → Kernel
  | .call c => (c.outcome k cur).kernel
  | .close fd => (sysClose k cur fd).1
  | .netClose s => Tasking.netClose k s
  | .fcntl fd arg => fcntlSetFl k cur fd arg
  | .spawn redir outcome => spawnRedir k redir outcome
  | .fork copied => sysFork k cur copied
  | .thread allocated => createUserThread k cur allocated
  | .exit => sysExit k cur
  | .threadExit => Tasking.threadExit k cur
  | .fault => exitTask k cur
  | .wait4 pid => sysWait4 k cur pid
  | .sleep => k.setState cur .sleeping

def Event.apply (k : Kernel) : Event → Kernel
  | .request r =>
      match k.current with
      | some cur => if (k.tasks cur).state = .running then r.apply k cur else k
      | none => k
  | .create ring allocated => createTask k ring allocated
  | .kill group => killThreadGroup k group
  | .wake t => if (k.tasks t).state = .sleeping then k.setState t .ready else k
  | .dispatch next killed => Tasking.dispatch k next killed
  | .neutralize t => if (k.tasks t).state = .ready then k.setState t .dead else k

def KernelStep (k : Kernel) (event : Event) (next : Kernel) : Prop := event.apply k = next

def runOf (k : Kernel) : List Event → List (Event × Kernel)
  | [] => []
  | event :: rest => (event, event.apply k) :: runOf (event.apply k) rest

theorem along_runOf (k : Kernel) (events : List Event) :
    Transition.Along KernelStep k (runOf k events) := by
  induction events generalizing k with
  | nil => trivial
  | cons event rest ih => exact ⟨rfl, ih _⟩

end EigenOS.Tasking
