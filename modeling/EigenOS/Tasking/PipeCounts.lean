import Mathlib.Data.Fintype.Prod
import EigenOS.Tasking.DescriptorAllocation

/-!
# Reference counts of pipes

`sys_pipe` increments both counts twice for one descriptor at each end, so the counts are
exact in a run only as long as no pipe is created.  Until then no descriptor is a pipe,
and none of the calls that copy, close or abandon descriptors touches a count.
-/

namespace EigenOS.Tasking

open Transition

def IsLive (task : Task) : Prop := task.state ≠ .free ∧ task.state ≠ .dead

instance (task : Task) : Decidable (IsLive task) := inferInstanceAs (Decidable (_ ∧ _))

/-- Descriptor `fd` of task `t` is an open end of pipe `p`. -/
def IsPipeEnd (k : Kernel) (p : Fin maxPipes) (write : Bool) (t : Fin maxTasks)
    (fd : Fin maxFds) : Prop :=
  IsLive (k.tasks t) ∧ (k.slot t fd).type = .pipe ∧ (k.slot t fd).pipe = p ∧
    (k.slot t fd).isUpperEnd = write

instance (k : Kernel) (p : Fin maxPipes) (write : Bool) (t : Fin maxTasks)
    (fd : Fin maxFds) : Decidable (IsPipeEnd k p write t fd) :=
  inferInstanceAs (Decidable (_ ∧ _))

/-- The open descriptors at one end of a pipe, over all live tasks. -/
def pipeEnds (k : Kernel) (p : Fin maxPipes) (write : Bool) :
    Finset (Fin maxTasks × Fin maxFds) :=
  Finset.univ.filter fun e => IsPipeEnd k p write e.1 e.2

theorem mem_pipeEnds {k : Kernel} {p : Fin maxPipes} {write : Bool}
    {e : Fin maxTasks × Fin maxFds} :
    e ∈ pipeEnds k p write ↔ IsPipeEnd k p write e.1 e.2 := by
  simp [pipeEnds]

/-- What `sys_pipe` takes for a free pipe. -/
def IsFreePipe (buf : PipeBuf) : Prop := buf.writerCount = 0 ∧ buf.readerCount = 0

structure CountsExact (k : Kernel) : Prop where
  writers : ∀ p, (k.pipes p).writerCount = (pipeEnds k p true).card
  readers : ∀ p, (k.pipes p).readerCount = (pipeEnds k p false).card
  free : ∀ p, IsFreePipe (k.pipes p) ↔ ∀ write, pipeEnds k p write = ∅

/-- The current task asks for a pipe, and there are a pipe and two descriptors for it. -/
def CreatesPipe (k : Kernel) (event : Event) : Prop :=
  ∃ cur, event = .request (.call .pipe) ∧ k.current = some cur ∧
    (k.tasks cur).state = .running ∧ (∃ p, IsFreePipe (k.pipes p)) ∧
    ∃ rd wr, rd ≠ wr ∧ IsFree rd (k.slot cur rd) ∧ IsFree wr (k.slot cur wr)

/-- No task has a pipe, not even one that has ended, and no pipe has a count. -/
structure NoPipes (k : Kernel) : Prop where
  types : ∀ t fd, (k.slot t fd).type ≠ .pipe
  counts : ∀ p, IsFreePipe (k.pipes p)

theorem NoPipes.countsExact {k : Kernel} (hk : NoPipes k) : CountsExact k := by
  have hends : ∀ p write, pipeEnds k p write = ∅ := by
    intro p write
    apply Finset.filter_eq_empty_iff.mpr
    rintro ⟨t, fd⟩ _ ⟨_, htype, _⟩
    exact hk.types t fd htype
  refine ⟨?_, ?_, ?_⟩
  · intro p
    rw [hends, (hk.counts p).1, Finset.card_empty]
  · intro p
    rw [hends, (hk.counts p).2, Finset.card_empty]
  · intro p
    exact iff_of_true (hk.counts p) (hends p)

theorem noPipes_initTasking : NoPipes initTasking := by
  refine ⟨?_, ?_⟩
  · intro t fd
    unfold Kernel.slot initTasking
    dsimp only
    split <;> simp [Task.zero, FdSlot.zero]
  · intro p
    exact ⟨rfl, rfl⟩

/-! ## Building blocks -/

namespace NoPipes

variable {k : Kernel}

theorem congr {next : Kernel} (hk : NoPipes k) (hslot : next.slot = k.slot)
    (hpipes : next.pipes = k.pipes) : NoPipes next where
  types := by
    rw [hslot]
    exact hk.types
  counts := by
    rw [hpipes]
    exact hk.counts

theorem setFd (hk : NoPipes k) (t : Fin maxTasks) (fd : Fin maxFds) {slot : FdSlot}
    (hslot : slot.type ≠ .pipe) : NoPipes (k.setFd t fd slot) where
  types := by
    intro t' fd'
    rw [Kernel.slot_setFd]
    split
    · exact hslot
    · exact hk.types t' fd'
  counts := hk.counts

theorem setTask (hk : NoPipes k) (t : Fin maxTasks) {task : Task}
    (htask : ∀ fd, (task.fds fd).type ≠ .pipe) : NoPipes (k.setTask t task) where
  types := by
    intro t' fd
    by_cases ht : t' = t
    · subst ht
      simpa [Kernel.slot, Kernel.setTask] using htask fd
    · simpa [Kernel.slot, Kernel.setTask, ht] using hk.types t' fd
  counts := hk.counts

theorem setTask_of_fds (hk : NoPipes k) (t : Fin maxTasks) {task : Task}
    (htask : task.fds = (k.tasks t).fds) : NoPipes (k.setTask t task) := by
  apply hk.setTask
  rw [htask]
  exact hk.types t

theorem setState (hk : NoPipes k) (t : Fin maxTasks) (state : TaskState) :
    NoPipes (k.setState t state) := hk.setTask_of_fds t rfl

theorem claimTask (hk : NoPipes k) (t : Fin maxTasks) (ring : Ring) :
    NoPipes (k.claimTask t ring) := by
  have hset : NoPipes (k.setTask t { k.tasks t with
      id := k.nextTaskId, ppid := k.currentId, ring := ring }) :=
    hk.setTask_of_fds t rfl
  exact hset.congr rfl rfl

theorem mapFds (hk : NoPipes k) (t : Fin maxTasks) {f : FdSlot → FdSlot}
    (hf : ∀ slot : FdSlot, slot.type ≠ .pipe → (f slot).type ≠ .pipe) :
    NoPipes (k.mapFds t f) := by
  apply hk.setTask
  intro fd
  exact hf _ (hk.types t fd)

theorem setPipe_zero (hk : NoPipes k) (p : Fin maxPipes) :
    NoPipes (k.setPipe p PipeBuf.zero) where
  types := hk.types
  counts := by
    intro q
    by_cases hq : q = p
    · subst hq
      exact ⟨by simp [PipeBuf.zero], by simp [PipeBuf.zero]⟩
    · simpa [Kernel.setPipe, hq] using hk.counts q

theorem ptyDupRef (hk : NoPipes k) (idx : Fin maxPtys) (isMaster : Bool) :
    NoPipes (ptyDupRef k idx isMaster) := hk.congr (by simp) (by simp)

theorem ptyClose (hk : NoPipes k) (idx : Fin maxPtys) (isMaster : Bool) :
    NoPipes (ptyClose k idx isMaster) := hk.congr (by simp) (by simp)

theorem addSlotRef (hk : NoPipes k) {slot : FdSlot} (hslot : slot.type ≠ .pipe) :
    NoPipes (addSlotRef k slot) := by
  unfold Tasking.addSlotRef
  split
  · rename_i htype
    exact absurd htype hslot
  · exact hk.ptyDupRef _ _
  · exact hk

/-! ## The calls -/

theorem closeFd (hk : NoPipes k) (cur : Fin maxTasks) (fd : Fin maxFds) :
    NoPipes (closeFd k cur fd).1 := by
  have htype := hk.types cur fd
  unfold Tasking.closeFd
  dsimp only
  split
  · exact hk.setFd cur fd htype
  · split
    · rename_i hpipe
      exact absurd hpipe htype
    · exact (hk.ptyClose _ _).setFd cur fd (by simp)
    · exact hk.setFd cur fd htype

theorem sysClose (hk : NoPipes k) (cur : Fin maxTasks) (fd : ℤ) :
    NoPipes (sysClose k cur fd).1 := by
  unfold Tasking.sysClose
  split
  · exact hk.closeFd cur _
  · exact hk

theorem sysOpen (hk : NoPipes k) (cur : Fin maxTasks) (index node : Option ℕ) :
    NoPipes (sysOpen k cur index node).kernel := by
  unfold Tasking.sysOpen
  split
  · exact hk
  · rename_i i _
    split
    · exact hk.setFd cur i (hk.types cur i)
    · exact hk.setFd cur i (hk.types cur i)
    · exact hk

/-- A `sys_pipe` that fails takes its first descriptor back. -/
theorem sysPipe (hk : NoPipes k) {cur : Fin maxTasks}
    (hfail : (sysPipe k cur).handed = none) : NoPipes (sysPipe k cur).kernel := by
  unfold Tasking.sysPipe at hfail ⊢
  split
  · exact hk
  · rename_i pno hpno
    rw [hpno] at hfail
    dsimp only at hfail ⊢
    split
    · exact hk.setPipe_zero pno
    · rename_i rd hrd
      rw [hrd] at hfail
      dsimp only at hfail ⊢
      split
      · simp only [Outcome.failure, Kernel.setFd_setFd]
        exact (hk.setPipe_zero pno).setFd cur rd (by simp)
      · rename_i wr hwr
        rw [hwr] at hfail
        cases hfail

theorem setPty (hk : NoPipes k) (idx : Fin maxPtys) (pty : Pty) :
    NoPipes (k.setPty idx pty) := hk.congr rfl rfl

theorem sysOpenpty (hk : NoPipes k) (cur : Fin maxTasks) :
    NoPipes (sysOpenpty k cur).kernel := by
  unfold Tasking.sysOpenpty
  split
  · exact hk
  · rename_i idx _
    split
    · exact hk.setPty idx Pty.zero
    · rename_i m _
      have hm : NoPipes (k.setFd cur m (ptySlot (k.slot cur m) idx ptyMaster)) :=
        hk.setFd cur m (by simp [ptySlot])
      dsimp only
      split
      · exact (hm.setPty idx Pty.zero).setFd cur m (by simp)
      · rename_i s _
        exact (hm.setFd cur s (by simp [ptySlot])).setPty idx _

theorem netSocket (hk : NoPipes k) (cur : Fin maxTasks) :
    NoPipes (netSocket k cur).kernel := by
  unfold Tasking.netSocket
  split
  · exact hk
  · rename_i sock _
    have hsock : NoPipes { k with sockets := Function.update k.sockets sock true } :=
      hk.congr rfl rfl
    dsimp only
    split
    · exact hsock.setFd cur _ (by simp)
    · exact hsock

theorem netClose (hk : NoPipes k) (s : ℤ) : NoPipes (netClose k s) := by
  unfold Tasking.netClose
  split
  · exact hk.congr rfl rfl
  · exact hk

theorem dupOnto (hk : NoPipes k) (cur : Fin maxTasks) (old new : Fin maxFds) :
    NoPipes (dupOnto k cur old new).kernel := by
  unfold Tasking.dupOnto
  dsimp only
  have hcopy : ∀ closed : Kernel, NoPipes closed →
      NoPipes (Tasking.addSlotRef (closed.setFd cur new (closed.slot cur old))
        ((closed.setFd cur new (closed.slot cur old)).slot cur new)) := by
    intro closed hclosed
    have hset := hclosed.setFd cur new (hclosed.types cur old)
    exact hset.addSlotRef (hset.types cur new)
  apply hcopy
  split
  · exact hk.closeFd cur new
  · exact hk

theorem sysDup2 (hk : NoPipes k) (cur : Fin maxTasks) (oldfd newfd : ℤ) :
    NoPipes (sysDup2 k cur oldfd newfd).kernel := by
  unfold Tasking.sysDup2
  split
  · split
    · exact hk
    · split
      · exact hk.dupOnto cur _ _
      · exact hk
  · exact hk

theorem fcntlSetFl (hk : NoPipes k) (cur : Fin maxTasks) (fd : ℤ) (arg : UInt32) :
    NoPipes (fcntlSetFl k cur fd arg) := by
  unfold Tasking.fcntlSetFl
  split
  · exact hk
  · rename_i i _
    dsimp only
    split
    · exact hk.setFd cur i (hk.types cur i)
    · split
      · exact hk.setFd cur i (hk.types cur i)
      · exact hk

/-! ## Creating and ending tasks -/

theorem resetPart_type {slot : FdSlot} (h : slot.type ≠ .pipe) :
    slot.resetPart.type ≠ .pipe := h

theorem createTask (hk : NoPipes k) (ring : Ring) (allocated : Bool) :
    NoPipes (createTask k ring allocated) := by
  unfold Tasking.createTask
  split
  · exact hk
  · exact ((hk.claimTask _ ring).mapFds _ fun _ => resetPart_type).setState _ _

theorem redirSnap (hk : NoPipes k) (parent : Fin maxTasks) (pfd : ℤ)
    (pno : Fin maxPipes) (extra : UInt32) :
    redirSnap (k.tasks parent) pfd ≠ .pipe pno extra := by
  unfold Tasking.redirSnap
  split
  · simp
  · rename_i fd _
    dsimp only
    split
    · rename_i htype
      exact absurd htype (hk.types parent fd)
    · simp
    · split <;> simp

theorem installRedir (hk : NoPipes k) (t : Fin maxTasks) (fd : Fin maxFds) {redir : Redir}
    (hredir : ∀ pno extra, redir ≠ .pipe pno extra) :
    NoPipes (installRedir t k fd redir) := by
  unfold Tasking.installRedir
  dsimp only
  split
  · exact hk
  · rename_i pno extra
    exact absurd rfl (hredir pno extra)
  · exact (hk.setFd t fd (by simp)).ptyDupRef _ _
  · exact hk.setFd t fd (hk.types t fd)

theorem installRedirs (hk : NoPipes k) (t : Fin maxTasks) {redirs : Fin maxFds → Redir}
    (hredirs : ∀ fd pno extra, redirs fd ≠ .pipe pno extra) :
    NoPipes (installRedirs t redirs k) :=
  List.foldlRecOn stdFds _ hk fun _ hb fd _ => hb.installRedir t fd (hredirs fd)

theorem parentRedir (hk : NoPipes k) (redir : Fin maxFds → ℤ) (fd : Fin maxFds) (pno : Fin maxPipes)
    (extra : UInt32) :
    (match k.current with
      | some parent => Tasking.redirSnap (k.tasks parent) (redir fd)
      | none => Redir.none) ≠ .pipe pno extra := by
  split
  · exact hk.redirSnap _ _ pno extra
  · simp

theorem spawnRedir (hk : NoPipes k) (redir : Fin maxFds → ℤ) (outcome : SpawnOutcome) :
    NoPipes (spawnRedir k redir outcome) := by
  unfold Tasking.spawnRedir
  split
  · exact hk
  · dsimp only
    split
    · exact hk
    · rename_i t _
      have hredirs := hk.parentRedir redir
      have hclaimed : NoPipes ((k.claimTask t .ring3).setTask t
          { (k.claimTask t .ring3).tasks t with
            group := ((k.claimTask t .ring3).tasks t).id }) :=
        (hk.claimTask t .ring3).setTask_of_fds t rfl
      have honce := (hclaimed.mapFds t fun _ => resetPart_type).installRedirs t hredirs
      split
      · exact honce.setState t _
      · exact (honce.installRedirs t hredirs).setState t _

theorem createUserThread (hk : NoPipes k) (leader : Fin maxTasks) (allocated : Bool) :
    NoPipes (createUserThread k leader allocated) := by
  unfold Tasking.createUserThread
  split
  · split
    · exact hk
    · rename_i t _
      dsimp only
      apply NoPipes.setState
      apply NoPipes.mapFds
      · exact (hk.claimTask t .ring3).setTask_of_fds t rfl
      · intro slot _
        simp [FdSlot.zero]
  · exact hk

theorem dupFdTable (hk : NoPipes k) (source target : Fin maxTasks) :
    NoPipes (dupFdTable source target k) :=
  List.foldlRecOn _ _ hk fun _ hb fd _ =>
    (hb.setFd target fd (hb.types source fd)).addSlotRef (hb.types source fd)

theorem sysFork (hk : NoPipes k) (cur : Fin maxTasks) (copied : Bool) :
    NoPipes (sysFork k cur copied) := by
  unfold Tasking.sysFork
  split
  · split
    · exact hk
    · rename_i t _
      dsimp only
      have hset : NoPipes (k.setTask t (forkChild k cur)) := by
        apply hk.setTask
        intro fd
        simp [forkChild, Task.zero, FdSlot.zero]
      have hchild : NoPipes { k.setTask t (forkChild k cur) with
          nextTaskId := k.nextTaskId + 1 } := hset.congr rfl rfl
      split
      · exact (hchild.dupFdTable cur t).setState t _
      · exact hchild
  · exact hk

theorem exitFd (hk : NoPipes k) (t : Fin maxTasks) (fd : Fin maxFds) :
    NoPipes (exitFd t k fd) := by
  unfold Tasking.exitFd
  dsimp only
  rw [if_neg (hk.types t fd)]
  exact hk.setFd t fd (hk.types t fd)

theorem exitTask (hk : NoPipes k) (cur : Fin maxTasks) : NoPipes (exitTask k cur) := by
  unfold Tasking.exitTask
  split
  · have hfds : NoPipes ((List.finRange maxFds).foldl (Tasking.exitFd cur) k) :=
      List.foldlRecOn _ _ hk fun _ hb fd _ => hb.exitFd cur fd
    exact hfds.setState cur _
  · exact hk

theorem killThreadGroup (hk : NoPipes k) (group : ℕ) : NoPipes (killThreadGroup k group) :=
  hk.congr (slot_killThreadGroup k group) rfl

theorem sysExit (hk : NoPipes k) (cur : Fin maxTasks) : NoPipes (sysExit k cur) := by
  unfold Tasking.sysExit
  dsimp only
  split
  · exact (hk.killThreadGroup _).exitTask cur
  · exact hk.exitTask cur

theorem threadExit (hk : NoPipes k) (cur : Fin maxTasks) : NoPipes (threadExit k cur) := by
  unfold Tasking.threadExit
  dsimp only
  split
  · exact hk
  · split
    · exact (hk.killThreadGroup _).exitTask cur
    · exact hk.setState cur _

theorem sysWait4 (hk : NoPipes k) (cur : Fin maxTasks) (pid : ℤ) :
    NoPipes (sysWait4 k cur pid) := by
  unfold Tasking.sysWait4
  split
  · exact hk.setState _ _
  · exact hk

theorem saveCurrent (hk : NoPipes k) : NoPipes k.saveCurrent := by
  unfold Kernel.saveCurrent
  split
  · split
    · exact hk.setState _ _
    · exact hk
  · exact hk

theorem dispatch (hk : NoPipes k) (next : Option (Fin maxTasks)) (killed : Bool) :
    NoPipes (dispatch k next killed) := by
  unfold Tasking.dispatch
  dsimp only
  split
  · exact hk.saveCurrent.congr rfl rfl
  · rename_i t
    split
    · exact hk
    · split
      · exact (hk.saveCurrent.setState t .dead).congr rfl rfl
      · exact (hk.saveCurrent.setState t .running).congr rfl rfl

/-- Every request but a successful `sys_pipe`. -/
theorem request (hk : NoPipes k) {cur : Fin maxTasks} {request : Request}
    (hfail : request = .call .pipe → (Tasking.sysPipe k cur).handed = none) :
    NoPipes (request.apply k cur) := by
  cases request with
  | call call =>
      cases call with
      | «open» index node => exact hk.sysOpen cur index node
      | pipe => exact hk.sysPipe (hfail rfl)
      | openpty => exact hk.sysOpenpty cur
      | socket => exact hk.netSocket cur
      | dup2 oldfd newfd => exact hk.sysDup2 cur oldfd newfd
  | close fd => exact hk.sysClose cur fd
  | netClose s => exact hk.netClose s
  | fcntl fd arg => exact hk.fcntlSetFl cur fd arg
  | spawn redir outcome => exact hk.spawnRedir redir outcome
  | fork copied => exact hk.sysFork cur copied
  | thread allocated => exact hk.createUserThread cur allocated
  | exit => exact hk.sysExit cur
  | threadExit => exact hk.threadExit cur
  | fault => exact hk.exitTask cur
  | wait4 pid => exact hk.sysWait4 cur pid
  | sleep => exact hk.setState cur _

end NoPipes

/-! ## Creating a pipe -/

theorem exists_allocFd {task : Task} {fd : Fin maxFds} (hfd : IsFree fd (task.fds fd)) :
    ∃ s, allocFd task = some s := by
  obtain ⟨hge, hnode, hflags, htype⟩ := hfd
  apply Option.isSome_iff_exists.mp
  unfold allocFd
  rw [Fin.isSome_find?_iff]
  exact ⟨fd, by simp [hge, hnode, hflags, htype]⟩

/-- `sys_pipe` succeeds as soon as a pipe and two descriptors are free. -/
theorem exists_sysPipe_handed {k : Kernel} {cur : Fin maxTasks} {p : Fin maxPipes}
    {a b : Fin maxFds} (hp : IsFreePipe (k.pipes p)) (hne : a ≠ b)
    (ha : IsFree a (k.slot cur a)) (hb : IsFree b (k.slot cur b)) :
    ∃ handed, (sysPipe k cur).handed = some handed := by
  have hpipe : ∃ pno, freePipe k = some pno := by
    apply Option.isSome_iff_exists.mp
    unfold freePipe
    rw [Fin.isSome_find?_iff]
    exact ⟨p, by simp [hp.1, hp.2]⟩
  obtain ⟨pno, hpno⟩ := hpipe
  obtain ⟨rd, hrd⟩ := exists_allocFd ha
  have hother : ∃ fd, fd ≠ rd ∧ IsFree fd (k.slot cur fd) := by
    by_cases har : a = rd
    · exact ⟨b, fun hbr => hne (har.trans hbr.symm), hb⟩
    · exact ⟨a, har, ha⟩
  obtain ⟨fd, hfd, hfree⟩ := hother
  unfold sysPipe
  rw [hpno]
  dsimp only
  rw [Kernel.tasks_setPipe, hrd]
  dsimp only
  split
  · rename_i hnone
    have hmarked : IsFree fd (((k.setPipe pno PipeBuf.zero).setFd cur rd
        { (k.setPipe pno PipeBuf.zero).slot cur rd with
          type := .pipe, flagsExtra := 0 }).slot cur fd) := by
      rw [Kernel.slot_setFd_of_ne _ _ _ hfd]
      exact hfree
    obtain ⟨wr, hwr⟩ := exists_allocFd hmarked
    rw [hwr] at hnone
    cases hnone
  · exact ⟨_, rfl⟩

theorem sysPipe_handed_iff {k : Kernel} {cur : Fin maxTasks} :
    (∃ handed, (sysPipe k cur).handed = some handed) ↔
      (∃ p, IsFreePipe (k.pipes p)) ∧
        ∃ rd wr, rd ≠ wr ∧ IsFree rd (k.slot cur rd) ∧ IsFree wr (k.slot cur wr) := by
  constructor
  · rintro ⟨handed, h⟩
    obtain ⟨pno, rd, wr, hpno, hne, hrd, hwr, _, _⟩ := sysPipe_success h
    have hfree := Fin.eq_true_of_find?_eq_some hpno
    exact ⟨⟨pno, by simpa [IsFreePipe] using hfree⟩, rd, wr, hne.symm, hrd, hwr⟩
  · rintro ⟨⟨p, hp⟩, rd, wr, hne, hrd, hwr⟩
    exact exists_sysPipe_handed hp hne hrd hwr

theorem noPipes_apply {k : Kernel} {event : Event} (hk : NoPipes k)
    (hcreates : ¬ CreatesPipe k event) : NoPipes (event.apply k) := by
  cases event with
  | request request =>
      simp only [Event.apply]
      split
      · rename_i cur hcur
        split
        · rename_i hrunning
          apply hk.request
          rintro rfl
          apply Option.eq_none_iff_forall_ne_some.mpr
          intro handed hhanded
          obtain ⟨hpipe, hfds⟩ := sysPipe_handed_iff.mp ⟨handed, hhanded⟩
          exact hcreates ⟨cur, rfl, hcur, hrunning, hpipe, hfds⟩
        · exact hk
      · exact hk
  | create ring allocated => exact hk.createTask ring allocated
  | kill group => exact hk.killThreadGroup group
  | wake t | neutralize t =>
      simp only [Event.apply]
      split
      · exact hk.setState t _
      · exact hk
  | dispatch next killed => exact hk.dispatch next killed

/-- In a kernel without pipes `sys_pipe` makes the only write end there is. -/
theorem pipeEnds_subset_of_created {k : Kernel} (hk : NoPipes k) (cur : Fin maxTasks)
    (rd wr : Fin maxFds) (pno : Fin maxPipes) (buf : PipeBuf) :
    pipeEnds (((k.setPipe pno buf).setFd cur rd (pipeSlot (k.slot cur rd) pno 0)).setFd cur
      wr (pipeSlot (k.slot cur wr) pno 1)) pno true ⊆ {(cur, wr)} := by
  rintro ⟨t, fd⟩
  rw [mem_pipeEnds]
  rintro ⟨_, htype, _, hupper⟩
  rw [Kernel.slot_setFd] at htype hupper
  split at htype
  · rename_i hwr
    exact Finset.mem_singleton.mpr (Prod.ext hwr.1 hwr.2)
  · rename_i hwr
    rw [if_neg hwr] at hupper
    rw [Kernel.slot_setFd] at htype hupper
    split at htype
    · rename_i hrd
      rw [if_pos hrd] at hupper
      simp [FdSlot.isUpperEnd, pipeSlot] at hupper
    · exact absurd htype (hk.types t fd)

theorem not_countsExact_of_createsPipe {k : Kernel} {event : Event} (hk : NoPipes k)
    (hcreates : CreatesPipe k event) : ¬ CountsExact (event.apply k) := by
  obtain ⟨cur, rfl, hcur, hrunning, hpipe, hfds⟩ := hcreates
  obtain ⟨handed, hhanded⟩ := sysPipe_handed_iff.mpr ⟨hpipe, hfds⟩
  obtain ⟨pno, rd, wr, _, _, _, _, _, hkernel⟩ := sysPipe_success hhanded
  have happly : (Event.request (.call .pipe)).apply k = (sysPipe k cur).kernel := by
    simp only [Event.apply, hcur, hrunning, if_true]
    rfl
  rw [happly, hkernel]
  intro hexact
  have hwriters := hexact.writers pno
  have hone := Finset.card_le_card
    (pipeEnds_subset_of_created hk cur rd wr pno ⟨0, 0, 2, 2⟩)
  rw [Finset.card_singleton, ← hwriters] at hone
  simp at hone

/-- In every run from the start of tasking, the counts are exact throughout if and only if
no step creates a pipe. -/
theorem countsExact_iff_no_pipe {run : List (Event × Kernel)}
    (hrun : Along KernelStep initTasking run) :
    Always CountsExact initTasking run ↔
      Along (fun k event _ => ¬ CreatesPipe k event) initTasking run := by
  have hstart := noPipes_initTasking
  generalize initTasking = start at hrun hstart
  induction run generalizing start with
  | nil => exact iff_of_true hstart.countsExact trivial
  | cons head rest ih =>
      obtain ⟨event, next⟩ := head
      obtain ⟨hstep, hrest⟩ := hrun
      rw [always_cons, along_cons]
      by_cases hcreates : CreatesPipe start event
      · have hnot := not_countsExact_of_createsPipe hstart hcreates
        rw [hstep] at hnot
        exact iff_of_false (fun h => hnot h.2.start) (fun h => h.1 hcreates)
      · have hnext := noPipes_apply hstart hcreates
        rw [hstep] at hnext
        have hiff := ih next hrest hnext
        exact ⟨fun h => ⟨hcreates, hiff.mp h.2⟩,
          fun h => ⟨hstart.countsExact, hiff.mpr h.2⟩⟩

/-- A process starts, opens a file and forks. -/
def openAndFork : List Event := openFirst ++ [.request (.fork true)]

theorem openAndFork_countsExact :
    Always CountsExact initTasking (runOf initTasking openAndFork) := by
  refine (countsExact_iff_no_pipe (along_runOf _ _)).mpr ⟨?_, ?_, ?_, ?_, trivial⟩ <;>
  · rintro ⟨_, hevent, _⟩
    cases hevent

/-- A process starts and creates a pipe. -/
def createPipe : List Event :=
  [.create .ring3 true, .dispatch (some firstProcess) false, .request (.call .pipe)]

theorem createPipe_not_countsExact :
    ∃ run, Along KernelStep initTasking run ∧ ¬ Always CountsExact initTasking run := by
  refine ⟨runOf initTasking createPipe, along_runOf _ _, ?_⟩
  intro h
  have hstarted := (noPipes_initTasking.createTask .ring3 true).dispatch
    (some firstProcess) false
  refine not_countsExact_of_createsPipe hstarted ⟨firstProcess, rfl, ?_⟩ h.final
  exact ⟨by decide, by decide, ⟨⟨0, by decide⟩, rfl, rfl⟩, ⟨3, by decide⟩, ⟨4, by decide⟩,
    by decide, ⟨by decide, rfl, rfl, rfl⟩, ⟨by decide, rfl, rfl, rfl⟩⟩

end EigenOS.Tasking
