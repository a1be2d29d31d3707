import Mathlib.Data.Fintype.Basic

/-!
# Tasks and their descriptor tables

The task table, the global pipe, pty and socket tables, and the calls of `task.c`,
`pty.c` and `syscall.c` that open, copy and close descriptors.  A call gets the task it
runs in, and the answers of the filesystem and of the VFS layer as arguments.
-/

namespace EigenOS.Tasking

open Function

def maxTasks : ℕ := 64
def maxFds : ℕ := 16
def maxPipes : ℕ := 32
def maxPtys : ℕ := 4
def maxSockets : ℕ := 32

theorem one_lt_maxTasks : 1 < maxTasks := by decide

theorem three_lt_maxFds : 3 < maxFds := by decide

/-- The values of `fd_types`. -/
inductive FdType where
  | vfs
  | pipe
  | socket
  | pty
  deriving DecidableEq, Repr

/-- Entry `fd` of each of the parallel descriptor arrays of a task.  `flags` is zero, or
the index of a filesystem node plus one; bit 0 of `flagsExtra` marks the write end of a
pipe and the master end of a pty. -/
structure FdSlot where
  node : Option ℕ
  flags : ℕ
  offset : ℕ
  type : FdType
  pipe : Fin maxPipes
  pty : Fin maxPtys
  flagsExtra : UInt32
  deriving DecidableEq

def FdSlot.zero : FdSlot where
  node := none
  flags := 0
  offset := 0
  type := .vfs
  pipe := ⟨0, by decide⟩
  pty := ⟨0, by decide⟩
  flagsExtra := 0

/-- Bit 0 of `fd_flags_extra`. -/
def FdSlot.isUpperEnd (slot : FdSlot) : Bool := slot.flagsExtra &&& 1 ≠ 0

def oNonblock : UInt32 := 0x800

inductive TaskState where
  | free
  | ready
  | running
  | sleeping
  | dead
  deriving DecidableEq, Repr

inductive Ring where
  | ring0
  | ring3
  deriving DecidableEq, Repr

structure Task where
  id : ℕ
  ppid : ℕ
  group : ℕ
  state : TaskState
  ring : Ring
  fds : Fin maxFds → FdSlot

def Task.zero : Task where
  id := 0
  ppid := 0
  group := 0
  state := .free
  ring := .ring0
  fds := fun _ => FdSlot.zero

structure PipeBuf where
  head : ℕ
  tail : ℕ
  writerCount : ℕ
  readerCount : ℕ
  deriving DecidableEq

def PipeBuf.zero : PipeBuf := ⟨0, 0, 0, 0⟩

structure Pty where
  used : Bool
  masterRefs : ℕ
  slaveRefs : ℕ
  deriving DecidableEq

def Pty.zero : Pty := ⟨false, 0, 0⟩

/-- `current = none` is the idle loop. -/
structure Kernel where
  tasks : Fin maxTasks → Task
  current : Option (Fin maxTasks)
  nextTaskId : ℕ
  pipes : Fin maxPipes → PipeBuf
  ptys : Fin maxPtys → Pty
  sockets : Fin maxSockets → Bool

/-- What a call of `fs_close`, `vfs_close` or `pty_close`, or a decrement of a pipe count,
gives back. -/
inductive Object where
  | file (index : ℕ)
  | node (node : ℕ)
  | pipeEnd (pipe : Fin maxPipes) (write : Bool)
  | ptyEnd (pty : Fin maxPtys) (master : Bool)
  | socket (index : ℕ)
  deriving DecidableEq

/-! ## Writing the tables -/

namespace Kernel

def setTask (k : Kernel) (t : Fin maxTasks) (task : Task) : Kernel :=
  { k with tasks := update k.tasks t task }

def setFd (k : Kernel) (t : Fin maxTasks) (fd : Fin maxFds) (slot : FdSlot) : Kernel :=
  k.setTask t { k.tasks t with fds := update (k.tasks t).fds fd slot }

def setPipe (k : Kernel) (p : Fin maxPipes) (buf : PipeBuf) : Kernel :=
  { k with pipes := update k.pipes p buf }

def setPty (k : Kernel) (idx : Fin maxPtys) (pty : Pty) : Kernel :=
  { k with ptys := update k.ptys idx pty }

def slot (k : Kernel) (t : Fin maxTasks) (fd : Fin maxFds) : FdSlot := (k.tasks t).fds fd

@[simp]
theorem slot_setFd_self (k : Kernel) (t : Fin maxTasks) (fd : Fin maxFds) (slot : FdSlot) :
    (k.setFd t fd slot).slot t fd = slot := by
  simp [setFd, setTask, Kernel.slot]

theorem slot_setFd (k : Kernel) (t : Fin maxTasks) (fd : Fin maxFds) (slot : FdSlot)
    (t' : Fin maxTasks) (fd' : Fin maxFds) :
    (k.setFd t fd slot).slot t' fd' =
      if t' = t ∧ fd' = fd then slot else k.slot t' fd' := by
  by_cases ht : t' = t
  · subst ht
    by_cases hfd : fd' = fd
    · simp [hfd]
    · simp [setFd, setTask, Kernel.slot, hfd]
  · simp [setFd, setTask, Kernel.slot, ht]

theorem slot_setFd_of_ne (k : Kernel) (t : Fin maxTasks) {fd fd' : Fin maxFds}
    (slot : FdSlot) (hne : fd' ≠ fd) : (k.setFd t fd slot).slot t fd' = k.slot t fd' := by
  simp [slot_setFd, hne]

@[simp]
theorem setFd_setFd (k : Kernel) (t : Fin maxTasks) (fd : Fin maxFds) (slot slot' : FdSlot) :
    (k.setFd t fd slot).setFd t fd slot' = k.setFd t fd slot' := by
  simp [setFd, setTask]

@[simp]
theorem pipes_setPipe_self (k : Kernel) (p : Fin maxPipes) (buf : PipeBuf) :
    (k.setPipe p buf).pipes p = buf := by
  simp [setPipe]

@[simp]
theorem setPipe_setPipe (k : Kernel) (p : Fin maxPipes) (buf buf' : PipeBuf) :
    (k.setPipe p buf).setPipe p buf' = k.setPipe p buf' := by
  simp [setPipe]

theorem setPipe_setFd (k : Kernel) (p : Fin maxPipes) (buf : PipeBuf) (t : Fin maxTasks)
    (fd : Fin maxFds) (slot : FdSlot) :
    (k.setFd t fd slot).setPipe p buf = (k.setPipe p buf).setFd t fd slot := rfl

@[simp]
theorem tasks_setPipe (k : Kernel) (p : Fin maxPipes) (buf : PipeBuf) :
    (k.setPipe p buf).tasks = k.tasks := rfl

@[simp]
theorem slot_setPipe (k : Kernel) (p : Fin maxPipes) (buf : PipeBuf) :
    (k.setPipe p buf).slot = k.slot := rfl

@[simp]
theorem pipes_setFd (k : Kernel) (t : Fin maxTasks) (fd : Fin maxFds) (slot : FdSlot) :
    (k.setFd t fd slot).pipes = k.pipes := rfl

end Kernel

/-- The range check `fd < 0 || fd >= MAX_FDS`. -/
def toFd (fd : ℤ) : Option (Fin maxFds) :=
  if h : 0 ≤ fd ∧ fd < maxFds then some ⟨fd.toNat, by omega⟩ else none

/-! ## Reference counts -/

/-- `pipes[pno].writer_count++` or `pipes[pno].reader_count++`. -/
def addPipeRef (k : Kernel) (pno : Fin maxPipes) (write : Bool) : Kernel :=
  let p := k.pipes pno
  k.setPipe pno (if write then { p with writerCount := p.writerCount + 1 }
    else { p with readerCount := p.readerCount + 1 })

/-- The decrement of `sys_close` and `exit_task`, which leave a count at zero. -/
def dropPipeRef (k : Kernel) (pno : Fin maxPipes) (write : Bool) : Kernel :=
  let p := k.pipes pno
  k.setPipe pno (if write then { p with writerCount := p.writerCount - 1 }
    else { p with readerCount := p.readerCount - 1 })

def ptyDupRef (k : Kernel) (idx : Fin maxPtys) (isMaster : Bool) : Kernel :=
  let p := k.ptys idx
  if p.used then
    k.setPty idx (if isMaster then { p with masterRefs := p.masterRefs + 1 }
      else { p with slaveRefs := p.slaveRefs + 1 })
  else k

def ptyClose (k : Kernel) (idx : Fin maxPtys) (isMaster : Bool) : Kernel :=
  let p := k.ptys idx
  if p.used then
    let next : Pty := if isMaster then { p with masterRefs := p.masterRefs - 1 }
      else { p with slaveRefs := p.slaveRefs - 1 }
    k.setPty idx (if next.masterRefs = 0 ∧ next.slaveRefs = 0 then Pty.zero else next)
  else k

@[simp]
theorem slot_addPipeRef (k : Kernel) (pno : Fin maxPipes) (write : Bool) :
    (addPipeRef k pno write).slot = k.slot := rfl

@[simp]
theorem slot_dropPipeRef (k : Kernel) (pno : Fin maxPipes) (write : Bool) :
    (dropPipeRef k pno write).slot = k.slot := rfl

@[simp]
theorem slot_ptyDupRef (k : Kernel) (idx : Fin maxPtys) (isMaster : Bool) :
    (ptyDupRef k idx isMaster).slot = k.slot := by
  unfold ptyDupRef
  dsimp only
  split <;> rfl

@[simp]
theorem pipes_ptyDupRef (k : Kernel) (idx : Fin maxPtys) (isMaster : Bool) :
    (ptyDupRef k idx isMaster).pipes = k.pipes := by
  unfold ptyDupRef
  dsimp only
  split <;> rfl

@[simp]
theorem pipes_ptyClose (k : Kernel) (idx : Fin maxPtys) (isMaster : Bool) :
    (ptyClose k idx isMaster).pipes = k.pipes := by
  unfold ptyClose
  dsimp only
  split <;> rfl

@[simp]
theorem slot_ptyClose (k : Kernel) (idx : Fin maxPtys) (isMaster : Bool) :
    (ptyClose k idx isMaster).slot = k.slot := by
  unfold ptyClose
  dsimp only
  split <;> rfl

/-- The reference a copied descriptor takes on its pipe or pty. -/
def addSlotRef (k : Kernel) (slot : FdSlot) : Kernel :=
  match slot.type with
  | .pipe => addPipeRef k slot.pipe slot.isUpperEnd
  | .pty => ptyDupRef k slot.pty slot.isUpperEnd
  | _ => k

@[simp]
theorem slot_addSlotRef (k : Kernel) (slot : FdSlot) :
    (addSlotRef k slot).slot = k.slot := by
  unfold addSlotRef
  split <;> simp

/-! ## The calls -/

/-- `sys_close` with a descriptor in range, and the objects it released. -/
def closeFd (k : Kernel) (cur : Fin maxTasks) (fd : Fin maxFds) : Kernel × List Object :=
  let slot := { k.slot cur fd with offset := 0 }
  if 0 < slot.flags then
    (k.setFd cur fd { slot with flags := 0 }, [.file (slot.flags - 1)])
  else
    let released := match slot.node with
      | some node => [Object.node node]
      | none => []
    let slot := { slot with node := none }
    match slot.type with
    | .pipe =>
        let emptied := { slot with
          type := .vfs, pipe := FdSlot.zero.pipe, flagsExtra := 0 }
        if 0 < slot.pipe.val then
          ((dropPipeRef k slot.pipe slot.isUpperEnd).setFd cur fd emptied,
            released ++ [.pipeEnd slot.pipe slot.isUpperEnd])
        else (k.setFd cur fd emptied, released)
    | .pty =>
        ((ptyClose k slot.pty slot.isUpperEnd).setFd cur fd
            { slot with type := .vfs, pty := FdSlot.zero.pty, flagsExtra := 0 },
          released ++ [.ptyEnd slot.pty slot.isUpperEnd])
    | _ => (k.setFd cur fd slot, released)

def sysClose (k : Kernel) (cur : Fin maxTasks) (fd : ℤ) : Kernel × List Object :=
  match toFd fd with
  | some fd => closeFd k cur fd
  | none => (k, [])

/-- What a call that hands out descriptors leaves: `handed = none` is a failure. -/
structure Outcome where
  kernel : Kernel
  handed : Option (List ℕ)
  released : List Object

def Outcome.failure (k : Kernel) : Outcome := ⟨k, none, []⟩

/-- The first descriptor from 3 on without a VFS node, which is all `sys_open` looks at. -/
def openSlot (task : Task) : Option (Fin maxFds) :=
  Fin.find? fun i => decide (3 ≤ i.val) && (task.fds i).node.isNone

/-- `index` is the answer of `fs_open` or `fs_create`, `node` that of `vfs_open_path` when
the path starts with "/mnt/". -/
def sysOpen (k : Kernel) (cur : Fin maxTasks) (index node : Option ℕ) : Outcome :=
  match openSlot (k.tasks cur) with
  | none => .failure k
  | some i =>
      match index, node with
      | some idx, _ =>
          ⟨k.setFd cur i { k.slot cur i with flags := idx + 1, offset := 0 },
            some [i.val], []⟩
      | none, some node =>
          ⟨k.setFd cur i { k.slot cur i with node := some node, offset := 0 },
            some [i.val], []⟩
      | none, none => .failure k

def allocFd (task : Task) : Option (Fin maxFds) :=
  Fin.find? fun s => decide (3 ≤ s.val) && (task.fds s).node.isNone &&
    decide ((task.fds s).flags = 0) && decide ((task.fds s).type = .vfs)

/-- The first pipe without readers and writers. -/
def freePipe (k : Kernel) : Option (Fin maxPipes) :=
  Fin.find? fun p =>
    decide ((k.pipes p).writerCount = 0) && decide ((k.pipes p).readerCount = 0)

/-- One descriptor of a new pipe. -/
def pipeSlot (slot : FdSlot) (pno : Fin maxPipes) (extra : UInt32) : FdSlot :=
  { slot with type := .pipe, pipe := pno, flagsExtra := extra }

def sysPipe (k : Kernel) (cur : Fin maxTasks) : Outcome :=
  match freePipe k with
  | none => .failure k
  | some pno =>
      let k := k.setPipe pno PipeBuf.zero
      match allocFd (k.tasks cur) with
      | none => .failure k
      | some rd =>
          let marked := k.setFd cur rd
            { k.slot cur rd with type := .pipe, flagsExtra := 0 }
          match allocFd (marked.tasks cur) with
          | none => .failure (marked.setFd cur rd
              { marked.slot cur rd with type := .vfs })
          | some wr =>
              let k := marked.setFd cur rd (pipeSlot (marked.slot cur rd) pno 0)
              let k := k.setFd cur wr (pipeSlot (k.slot cur wr) pno 1)
              -- The two increments stand twice in the source.
              let k := addPipeRef (addPipeRef k pno false) pno true
              let k := addPipeRef (addPipeRef k pno false) pno true
              ⟨k, some [rd.val, wr.val], []⟩

def ptyMaster : UInt32 := 1
def ptySlave : UInt32 := 0

def freePty (k : Kernel) : Option (Fin maxPtys) := Fin.find? fun i => !(k.ptys i).used

/-- One descriptor of a new pty. -/
def ptySlot (slot : FdSlot) (idx : Fin maxPtys) (extra : UInt32) : FdSlot :=
  { slot with type := .pty, pty := idx, flagsExtra := extra }

def sysOpenpty (k : Kernel) (cur : Fin maxTasks) : Outcome :=
  match freePty k with
  | none => .failure k
  | some idx =>
      match allocFd (k.tasks cur) with
      | none => .failure (k.setPty idx Pty.zero)
      | some m =>
          let k := k.setFd cur m (ptySlot (k.slot cur m) idx ptyMaster)
          match allocFd (k.tasks cur) with
          | none => .failure ((k.setPty idx Pty.zero).setFd cur m
              { k.slot cur m with type := .vfs })
          | some s =>
              let k := k.setFd cur s (ptySlot (k.slot cur s) idx ptySlave)
              ⟨k.setPty idx ⟨true, 1, 1⟩, some [m.val, s.val], []⟩

def freeSocket (k : Kernel) : Option (Fin maxSockets) := Fin.find? fun i => !k.sockets i

/-- `k_sys_net` with `EIGEN_NET_SOCKET`: the socket number is the descriptor number. -/
def netSocket (k : Kernel) (cur : Fin maxTasks) : Outcome :=
  match freeSocket k with
  | none => .failure k
  | some sock =>
      let k := { k with sockets := update k.sockets sock true }
      match toFd sock.val with
      | some fd => ⟨k.setFd cur fd { k.slot cur fd with type := .socket },
          some [sock.val], []⟩
      | none => ⟨k, some [sock.val], []⟩

/-- `k_sys_net` with `EIGEN_NET_CLOSE`. -/
def netClose (k : Kernel) (s : ℤ) : Kernel :=
  if h : 0 ≤ s ∧ s < maxSockets then
    { k with sockets := update k.sockets ⟨s.toNat, by omega⟩ false }
  else k

/-- `sys_dup2` from the closing of its target on.  The target is closed when it is a pipe,
a pty, a VFS node or a file. -/
def dupOnto (k : Kernel) (cur : Fin maxTasks) (old new : Fin maxFds) : Outcome :=
  let target := k.slot cur new
  let closed := if target.type = .pipe ∨ target.type = .pty ∨ target.node ≠ none ∨
      target.flags ≠ 0 then closeFd k cur new else (k, [])
  let copied := closed.1.setFd cur new (closed.1.slot cur old)
  ⟨addSlotRef copied (copied.slot cur new), some [new.val], closed.2⟩

/-- What `sys_dup2` takes for an open descriptor. -/
def IsDupSource (slot : FdSlot) : Prop :=
  ¬ (slot.type = .vfs ∧ slot.flags = 0 ∧ slot.node = none)

instance (slot : FdSlot) : Decidable (IsDupSource slot) := inferInstanceAs (Decidable (¬ _))

def sysDup2 (k : Kernel) (cur : Fin maxTasks) (oldfd newfd : ℤ) : Outcome :=
  match toFd oldfd, toFd newfd with
  | some old, some new =>
      if old = new then ⟨k, some [new.val], []⟩
      else if IsDupSource (k.slot cur old) then dupOnto k cur old new
      else .failure k
  | _, _ => .failure k

/-- The calls that hand out descriptors. -/
inductive Call where
  | open (index node : Option ℕ)
  | pipe
  | openpty
  | socket
  | dup2 (oldfd newfd : ℤ)

def Call.outcome (k : Kernel) (cur : Fin maxTasks) : Call → Outcome
  | .open index node => sysOpen k cur index node
  | .pipe => sysPipe k cur
  | .openpty => sysOpenpty k cur
  | .socket => netSocket k cur
  | .dup2 oldfd newfd => sysDup2 k cur oldfd newfd

/-- `sys_fcntl` with `F_SETFL`. -/
def fcntlSetFl (k : Kernel) (cur : Fin maxTasks) (fd : ℤ) (arg : UInt32) : Kernel :=
  match toFd fd with
  | none => k
  | some fd =>
      let slot := k.slot cur fd
      if slot.type = .pipe ∨ slot.type = .pty then
        k.setFd cur fd { slot with flagsExtra :=
          if arg &&& oNonblock ≠ 0 then slot.flagsExtra ||| oNonblock
          else slot.flagsExtra &&& ~~~oNonblock }
      else if 0 < slot.flags ∨ slot.node ≠ none then
        k.setFd cur fd { slot with flagsExtra := arg &&& oNonblock }
      else k

/-! ## What each call may touch -/

theorem toFd_eq_some {fd : ℤ} {i : Fin maxFds} : toFd fd = some i ↔ fd = i.val := by
  unfold toFd
  constructor
  · intro h
    split at h
    · rename_i hrange
      cases h
      exact (Int.toNat_of_nonneg hrange.1).symm
    · cases h
  · rintro rfl
    have hlt := i.isLt
    rw [dif_pos ⟨by omega, by exact_mod_cast hlt⟩]
    simp

/-- What `alloc_fd` looks for. -/
def IsFree (fd : Fin maxFds) (slot : FdSlot) : Prop :=
  3 ≤ fd.val ∧ slot.node = none ∧ slot.flags = 0 ∧ slot.type = .vfs

variable {k : Kernel} {cur : Fin maxTasks} {handed : List ℕ}

theorem allocFd_spec {s : Fin maxFds} (h : allocFd (k.tasks cur) = some s) :
    IsFree s (k.slot cur s) := by
  have hs := (Fin.find?_eq_some_iff.mp h).1
  simpa [IsFree, Kernel.slot, and_assoc] using hs

/-- A descriptor that has just got another type is not free, so a second `alloc_fd` finds
another one, which was free before. -/
theorem allocFd_marked {first second : Fin maxFds} {slot : FdSlot} (htype : slot.type ≠ .vfs)
    (h : allocFd ((k.setFd cur first slot).tasks cur) = some second) :
    second ≠ first ∧ IsFree second (k.slot cur second) := by
  have hfree := allocFd_spec h
  have hne : second ≠ first := by
    rintro rfl
    rw [Kernel.slot_setFd_self] at hfree
    exact htype hfree.2.2.2
  rw [Kernel.slot_setFd_of_ne _ _ _ hne] at hfree
  exact ⟨hne, hfree⟩

theorem sysOpen_success {index node : Option ℕ}
    (h : (sysOpen k cur index node).handed = some handed) :
    ∃ (i : Fin maxFds) (slot : FdSlot), openSlot (k.tasks cur) = some i ∧
      (index ≠ none ∨ node ≠ none) ∧ handed = [i.val] ∧
      (sysOpen k cur index node).kernel = k.setFd cur i slot := by
  unfold sysOpen at h ⊢
  cases hslot : openSlot (k.tasks cur) with
  | none => simp [hslot, Outcome.failure] at h
  | some i =>
      rw [hslot] at h
      cases index with
      | some idx =>
          cases h
          exact ⟨i, _, rfl, Or.inl (Option.some_ne_none idx), rfl, rfl⟩
      | none =>
          cases node with
          | some node =>
              cases h
              exact ⟨i, _, rfl, Or.inr (Option.some_ne_none node), rfl, rfl⟩
          | none => cases h

theorem addPipeRef_twice (k : Kernel) (pno : Fin maxPipes) :
    addPipeRef (addPipeRef (addPipeRef (addPipeRef k pno false) pno true) pno false) pno
        true =
      k.setPipe pno { k.pipes pno with
        writerCount := (k.pipes pno).writerCount + 2
        readerCount := (k.pipes pno).readerCount + 2 } := by
  simp [addPipeRef]

theorem sysPipe_success (h : (sysPipe k cur).handed = some handed) :
    ∃ (pno : Fin maxPipes) (rd wr : Fin maxFds), freePipe k = some pno ∧ wr ≠ rd ∧
      IsFree rd (k.slot cur rd) ∧ IsFree wr (k.slot cur wr) ∧
      handed = [rd.val, wr.val] ∧
      (sysPipe k cur).kernel =
        ((k.setPipe pno ⟨0, 0, 2, 2⟩).setFd cur rd (pipeSlot (k.slot cur rd) pno 0)).setFd
          cur wr (pipeSlot (k.slot cur wr) pno 1) := by
  unfold sysPipe at h ⊢
  cases hpno : freePipe k with
  | none =>
      rw [hpno] at h
      cases h
  | some pno =>
      rw [hpno] at h
      dsimp only at h ⊢
      split at h
      · cases h
      · rename_i rd hrd
        split at h
        · cases h
        · rename_i wr hwr
          cases h
          obtain ⟨hne, hfree⟩ := allocFd_marked (by simp) hwr
          refine ⟨pno, rd, wr, rfl, hne, allocFd_spec hrd, hfree, rfl, ?_⟩
          rw [addPipeRef_twice]
          simp only [Kernel.setFd_setFd, Kernel.slot_setFd_self,
            Kernel.slot_setFd_of_ne _ _ _ hne, Kernel.slot_setPipe, Kernel.pipes_setFd,
            Kernel.pipes_setPipe_self, Kernel.setPipe_setFd, Kernel.setPipe_setPipe]
          rfl

theorem sysOpenpty_success (h : (sysOpenpty k cur).handed = some handed) :
    ∃ (idx : Fin maxPtys) (m s : Fin maxFds), s ≠ m ∧
      IsFree m (k.slot cur m) ∧ IsFree s (k.slot cur s) ∧ handed = [m.val, s.val] ∧
      (sysOpenpty k cur).kernel =
        ((k.setPty idx ⟨true, 1, 1⟩).setFd cur m (ptySlot (k.slot cur m) idx ptyMaster)).setFd
          cur s (ptySlot (k.slot cur s) idx ptySlave) := by
  unfold sysOpenpty at h ⊢
  split at h
  · cases h
  · rename_i idx hidx
    split at h
    · cases h
    · rename_i m hm
      dsimp only at h ⊢
      split at h
      · cases h
      · rename_i s hs
        cases h
        obtain ⟨hne, hfree⟩ := allocFd_marked (by simp [ptySlot]) hs
        refine ⟨idx, m, s, hne, allocFd_spec hm, hfree, rfl, ?_⟩
        rw [Kernel.slot_setFd_of_ne _ _ _ hne]
        rfl

theorem netSocket_success (h : (netSocket k cur).handed = some handed) :
    ∃ sock, freeSocket k = some sock ∧ handed = [sock.val] ∧
      ∀ (t : Fin maxTasks) (fd : Fin maxFds), ¬ (t = cur ∧ fd.val = sock.val) →
        (netSocket k cur).kernel.slot t fd = k.slot t fd := by
  unfold netSocket at h ⊢
  split at h
  · cases h
  · rename_i sock hsock
    refine ⟨sock, hsock, ?_, ?_⟩
    · dsimp only at h
      split at h <;> cases h <;> rfl
    · intro t fd hfd
      dsimp only
      split
      · rename_i i hi
        have hval := toFd_eq_some.mp hi
        rw [Kernel.slot_setFd, if_neg]
        · rfl
        · rintro ⟨rfl, rfl⟩
          exact hfd ⟨rfl, by exact_mod_cast hval.symm⟩
      · rfl

theorem sysDup2_success {oldfd newfd : ℤ} (h : (sysDup2 k cur oldfd newfd).handed = some handed) :
    ∃ old new, toFd oldfd = some old ∧ toFd newfd = some new ∧ handed = [new.val] ∧
      (old = new ∧ sysDup2 k cur oldfd newfd = ⟨k, some [new.val], []⟩ ∨
        old ≠ new ∧ IsDupSource (k.slot cur old) ∧
          sysDup2 k cur oldfd newfd = dupOnto k cur old new) := by
  unfold sysDup2 at h ⊢
  split at h
  · rename_i old new hold hnew
    refine ⟨old, new, hold, hnew, ?_⟩
    by_cases heq : old = new
    · rw [if_pos heq] at h ⊢
      cases h
      exact ⟨rfl, Or.inl ⟨heq, rfl⟩⟩
    · rw [if_neg heq] at h ⊢
      split at h
      · rename_i hsource
        rw [if_pos hsource]
        cases h
        exact ⟨rfl, Or.inr ⟨heq, hsource, rfl⟩⟩
      · cases h
  · cases h

theorem closeFd_eq_setFd (k : Kernel) (cur : Fin maxTasks) (fd : Fin maxFds) :
    ∃ (dropped : Kernel) (slot : FdSlot),
      (closeFd k cur fd).1 = dropped.setFd cur fd slot ∧ dropped.slot = k.slot := by
  unfold closeFd
  dsimp only
  split
  · exact ⟨_, _, rfl, rfl⟩
  · split
    · split
      · exact ⟨_, _, rfl, slot_dropPipeRef _ _ _⟩
      · exact ⟨_, _, rfl, rfl⟩
    · exact ⟨_, _, rfl, slot_ptyClose _ _ _⟩
    · exact ⟨_, _, rfl, rfl⟩

theorem slot_closeFd_of_ne {cur t : Fin maxTasks} {fd fd' : Fin maxFds}
    (hne : ¬ (t = cur ∧ fd' = fd)) : (closeFd k cur fd).1.slot t fd' = k.slot t fd' := by
  obtain ⟨dropped, slot, hclose, hslot⟩ := closeFd_eq_setFd k cur fd
  rw [hclose, Kernel.slot_setFd, if_neg hne, hslot]

theorem slot_dupOnto_of_ne {cur t : Fin maxTasks} {old new fd : Fin maxFds}
    (hne : ¬ (t = cur ∧ fd = new)) : (dupOnto k cur old new).kernel.slot t fd = k.slot t fd := by
  unfold dupOnto
  simp only [slot_addSlotRef, Kernel.slot_setFd, if_neg hne]
  split
  · exact slot_closeFd_of_ne hne
  · rfl

/-- The frame of a successful call: only the descriptors it returns are written. -/
theorem slot_outcome_of_notMem {call : Call} (hcall : (call.outcome k cur).handed = some handed)
    {t : Fin maxTasks} {fd : Fin maxFds} (hfd : ¬ (t = cur ∧ fd.val ∈ handed)) :
    (call.outcome k cur).kernel.slot t fd = k.slot t fd := by
  cases call with
  | «open» index node =>
      obtain ⟨i, slot, _, _, rfl, hkernel⟩ := sysOpen_success hcall
      rw [Call.outcome, hkernel, Kernel.slot_setFd, if_neg]
      rintro ⟨rfl, rfl⟩
      exact hfd ⟨rfl, List.mem_singleton_self _⟩
  | pipe =>
      obtain ⟨pno, rd, wr, _, _, _, _, rfl, hkernel⟩ := sysPipe_success hcall
      rw [Call.outcome, hkernel, Kernel.slot_setFd, if_neg, Kernel.slot_setFd, if_neg]
      · rfl
      · rintro ⟨rfl, rfl⟩
        exact hfd ⟨rfl, by simp⟩
      · rintro ⟨rfl, rfl⟩
        exact hfd ⟨rfl, by simp⟩
  | openpty =>
      obtain ⟨idx, m, s, _, _, _, rfl, hkernel⟩ := sysOpenpty_success hcall
      rw [Call.outcome, hkernel, Kernel.slot_setFd, if_neg, Kernel.slot_setFd, if_neg]
      · rfl
      · rintro ⟨rfl, rfl⟩
        exact hfd ⟨rfl, by simp⟩
      · rintro ⟨rfl, rfl⟩
        exact hfd ⟨rfl, by simp⟩
  | socket =>
      obtain ⟨sock, _, rfl, hkernel⟩ := netSocket_success hcall
      apply hkernel
      rintro ⟨rfl, hval⟩
      exact hfd ⟨rfl, List.mem_singleton.mpr hval⟩
  | dup2 oldfd newfd =>
      obtain ⟨old, new, _, _, rfl, ⟨_, hcall⟩ | ⟨_, _, hcall⟩⟩ := sysDup2_success hcall
      · rw [Call.outcome, hcall]
      · rw [Call.outcome, hcall]
        apply slot_dupOnto_of_ne
        rintro ⟨rfl, rfl⟩
        exact hfd ⟨rfl, List.mem_singleton_self _⟩

end EigenOS.Tasking
