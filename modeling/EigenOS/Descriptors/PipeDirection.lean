import EigenOS.Descriptors.PipeFifo
import EigenOS.Tasking.PipeEnds

/-!
# The direction of a pipe

The whole kernel with the bytes in its pipes: any steps of tasks and scheduler, and reads and
writes of the running task.  `sys_write` refuses a pipe descriptor whose word is zero, which is
a read end without `O_NONBLOCK`; `sys_read` looks at the end of no descriptor.
-/

namespace EigenOS.Descriptors

open EigenOS.Filesystem (Table FileNode Caller rootSlot)
open EigenOS.RingBuffer EigenOS.Transition Function
open EigenOS.Tasking

/-! ## The machine -/

/-- What the descriptors of a task lead to besides pipes. -/
structure Surroundings where
  vfs : Vfs
  ptys : Fin maxPtys → Pty
  sockets : Fin maxSockets → Option Socket
  files : Table

/-- The kernel, the end that each descriptor was created as, and the arrays of the pipes. -/
structure Machine where
  kernel : Kernel
  ends : EndTable
  rings : Fin maxPipes → Ring UInt8 pipeBufSize

def Machine.init : Machine := ⟨initTasking, fun _ _ => none, fun _ => zeroRing pipeBufSize_pos⟩

/-- The task that makes calls. -/
def running (k : Kernel) : Option (Fin maxTasks) :=
  k.current.filter fun cur => (k.tasks cur).state = .running

namespace Machine

variable (m : Machine)

def pipe (p : Fin maxPipes) : Pipe :=
  ⟨m.rings p, (m.kernel.pipes p).writerCount, (m.kernel.pipes p).readerCount⟩

/-- The descriptors of a task, and what they lead to. -/
def io (cur : Fin maxTasks) (around : Surroundings) : Io where
  fds := (m.kernel.tasks cur).fds
  pipes := m.pipe
  ptys := around.ptys
  sockets := around.sockets
  files := around.files

def setIo (cur : Fin maxTasks) (io : Io) : Machine :=
  { m with
    kernel := m.kernel.setTask cur { m.kernel.tasks cur with fds := io.fds }
    rings := fun p => (io.pipes p).ring }

/-- One try of `sys_read`.  A task that goes to sleep has read nothing. -/
def read (around : Surroundings) (fd : ℤ) (count : ℕ) (cur : Fin maxTasks) : Machine :=
  match sysRead around.vfs (m.io cur around) fd count with
  | some transfer => m.setIo cur transfer.io
  | none => m

def write (around : Surroundings) (caller : Caller) (fd : ℤ) (buf : List UInt8)
    (cur : Fin maxTasks) : Machine :=
  match sysWrite around.vfs (m.io cur around) caller fd buf with
  | some (_, io) => m.setIo cur io
  | none => m

end Machine

/-- `p->head = 0; p->tail = 0`. -/
def emptied (ring : Ring UInt8 pipeBufSize) : Ring UInt8 pipeBufSize :=
  { ring with head := ⟨0, pipeBufSize_pos⟩, tail := ⟨0, pipeBufSize_pos⟩ }

def resetRing (rings : Fin maxPipes → Ring UInt8 pipeBufSize) :
    Option (Fin maxPipes) → Fin maxPipes → Ring UInt8 pipeBufSize
  | some pno => update rings pno (emptied (rings pno))
  | none => rings

/-- `sys_pipe` empties the pipe that it takes. -/
def Machine.ringsAfter (m : Machine) : Event → Fin maxPipes → Ring UInt8 pipeBufSize
  | .request (.call .pipe) =>
      (running m.kernel).elim m.rings fun _ => resetRing m.rings (freePipe m.kernel)
  | _ => m.rings

/-- `sys_fcntl` with `F_GETFL`. -/
def fcntlGetFl (k : Kernel) (cur : Fin maxTasks) (fd : ℤ) : ℤ :=
  match toFd fd with
  | none => -1
  | some f =>
      let slot := k.slot cur f
      if slot.type = .pipe ∨ slot.type = .pty then (slot.flagsExtra &&& 0x801).toNat
      else if 0 < slot.flags ∨ slot.node ≠ none then 0
      else -9

/-- A step of the kernel, or a call of the running task. -/
inductive MachineEvent where
  | step (event : Event)
  | getfl (fd : ℤ)
  | read (around : Surroundings) (fd : ℤ) (count : ℕ)
  | write (around : Surroundings) (caller : Caller) (fd : ℤ) (buf : List UInt8)

def Machine.act (m : Machine) : MachineEvent → Machine
  | .step event => ⟨event.apply m.kernel, event.ends m.kernel m.ends, m.ringsAfter event⟩
  | .getfl _ => m
  | .read around fd count => (running m.kernel).elim m (m.read around fd count)
  | .write around caller fd buf => (running m.kernel).elim m (m.write around caller fd buf)

/-! ## The property and its condition -/

/-- A pipe descriptor, and the end that it was created as. -/
def Machine.CreatedAs (m : Machine) (t : Fin maxTasks) (fd : Fin maxFds) (write : Bool) : Prop :=
  (m.kernel.slot t fd).type = .pipe ∧ m.ends t fd = some write

/-- The pipes hold the same bytes. -/
def SameBytes (m next : Machine) : Prop :=
  ∀ p, (next.rings p).contents = (m.rings p).contents

structure DirectionKept (m : Machine) (event : MachineEvent) (next : Machine) : Prop where
  /-- A write to a read end puts nothing in. -/
  readEnd : ∀ around caller fd buf, event = .write around caller fd buf →
    ∀ cur f, running m.kernel = some cur → toFd fd = some f → m.CreatedAs cur f false →
      SameBytes m next
  /-- A read of a write end takes nothing out. -/
  writeEnd : ∀ around fd count, event = .read around fd count →
    ∀ cur f, running m.kernel = some cur → toFd fd = some f → m.CreatedAs cur f true →
      SameBytes m next
  /-- `F_SETFL` leaves every pipe descriptor the end that it is. -/
  setFl : ∀ fd arg, event = .step (.request (.fcntl fd arg)) →
    ∀ t f, (m.kernel.slot t f).type = .pipe → (next.kernel.slot t f).type = .pipe ∧
      (next.kernel.slot t f).isUpperEnd = (m.kernel.slot t f).isUpperEnd
  /-- `F_GETFL` shows in bit 0 the end that a descriptor was created as. -/
  getFl : ∀ fd, event = .getfl fd →
    ∀ cur f write, running m.kernel = some cur → toFd fd = some f → m.CreatedAs cur f write →
      fcntlGetFl m.kernel cur fd % 2 = if write then 1 else 0
  /-- Every pipe descriptor is the end that it was created as. -/
  denotes : ∀ t f write, next.CreatedAs t f write → (next.kernel.slot t f).isUpperEnd = write

/-- No read end with `O_NONBLOCK` is written to while its pipe has a reader and room, and no
write end is read while bytes wait. -/
def SparesEnds (m : Machine) : MachineEvent → Machine → Prop
  | .write _ _ fd buf, _ => ∀ cur f, running m.kernel = some cur → toFd fd = some f →
      (m.kernel.slot cur f).type = .pipe → (m.kernel.slot cur f).isUpperEnd = false →
      isNonblock (m.kernel.slot cur f) = true →
        (m.pipe (m.kernel.slot cur f).pipe).readerCount = 0 ∨
          (m.pipe (m.kernel.slot cur f).pipe).ring.room = 0 ∨ buf = []
  | .read _ fd count, _ => ∀ cur f, running m.kernel = some cur → toFd fd = some f →
      (m.kernel.slot cur f).type = .pipe → (m.kernel.slot cur f).isUpperEnd = true →
        (m.pipe (m.kernel.slot cur f).pipe).ring.contents = [] ∨ count = 0
  | _, _ => True

/-! ## Reads and writes of pipes -/

theorem pipeWrite_same_iff (pipe : Pipe) (buf : List UInt8) :
    (pipeWrite pipe buf).2.ring.contents = pipe.ring.contents ↔
      pipe.readerCount = 0 ∨ pipe.ring.room = 0 ∨ buf = [] := by
  rw [PipeBuffer.contents_pipeWrite, List.append_right_eq_self, List.take_eq_nil_iff]
  unfold pipeWrite
  by_cases hreaders : pipe.readerCount = 0
  · simp [hreaders]
  · rw [if_neg hreaders, or_iff_right hreaders]
    dsimp only
    rw [Int.toNat_natCast]
    have hzero : min pipe.ring.room buf.length = 0 ↔ pipe.ring.room = 0 ∨ buf = [] := by
      rw [Nat.min_eq_zero_iff, List.length_eq_zero_iff]
    rw [hzero, or_assoc, or_self]

theorem pipeRead_same_iff (pipe : Pipe) (count : ℕ) :
    (pipeRead pipe count).2.2.ring.contents = pipe.ring.contents ↔
      pipe.ring.contents = [] ∨ count = 0 := by
  have hbytes := PipeBuffer.contents_pipeRead pipe count
  rw [PipeBuffer.contents_eq_nil_iff]
  unfold pipeRead at hbytes ⊢
  by_cases hempty : pipe.ring.head = pipe.ring.tail
  · rw [if_pos hempty]
    refine iff_of_true ?_ (Or.inl hempty)
    split <;> rfl
  · have havail : pipe.ring.avail ≠ 0 := fun h => hempty (pipe.ring.avail_eq_zero_iff.mp h)
    rw [if_neg hempty] at hbytes ⊢
    rw [or_iff_right hempty, eq_comm, hbytes, List.append_left_eq_self]
    dsimp only [Ring.peek]
    rw [List.map_eq_nil_iff, List.range_eq_nil, Nat.min_eq_zero_iff, or_iff_right havail]

/-- Reads and writes leave the type and the word of every descriptor. -/
structure SameWords (io after : Io) : Prop where
  type_eq : ∀ f, (after.fds f).type = (io.fds f).type
  word_eq : ∀ f, (after.fds f).flagsExtra = (io.fds f).flagsExtra

theorem SameWords.of_eq {io after : Io} (h : after.fds = io.fds) : SameWords io after :=
  ⟨fun f => by rw [h], fun f => by rw [h]⟩

theorem sameWords_setSlot (io : Io) (f : Fin maxFds) {slot : FdSlot}
    (htype : slot.type = (io.fds f).type) (hword : slot.flagsExtra = (io.fds f).flagsExtra) :
    SameWords io (io.setSlot f slot) := by
  constructor
  · intro g
    by_cases hg : g = f
    · subst hg
      simpa [Io.setSlot] using htype
    · simp [Io.setSlot, hg]
  · intro g
    by_cases hg : g = f
    · subst hg
      simpa [Io.setSlot] using hword
    · simp [Io.setSlot, hg]

theorem sameWords_sysRead {vfs : Vfs} {io : Io} {fd : ℤ} {count : ℕ} {transfer : Transfer}
    (hread : sysRead vfs io fd count = some transfer) : SameWords io transfer.io := by
  rcases sysRead_io hread with h | ⟨p, pipe, h⟩ | ⟨p, pty, h⟩ | ⟨f, offset, h⟩
  · rw [h]
    exact .of_eq rfl
  · rw [h]
    exact .of_eq rfl
  · rw [h]
    exact .of_eq rfl
  · rw [h]
    exact sameWords_setSlot io f rfl rfl

theorem sameWords_sysWrite {vfs : Vfs} {io : Io} {caller : Caller} {fd : ℤ} {buf : List UInt8}
    {written : ℤ × Io} (hwrite : sysWrite vfs io caller fd buf = some written) :
    SameWords io written.2 := by
  rcases sysWrite_io hwrite with h | ⟨p, pipe, h⟩ | ⟨p, pty, h⟩ | ⟨index, reply, _, h⟩
  · rw [h]
    exact .of_eq rfl
  · rw [h]
    exact .of_eq rfl
  · rw [h]
    exact .of_eq rfl
  · rw [h]
    exact .of_eq rfl

/-! ## The ends along a run -/

theorem marked_setIo {m : Machine} (hm : Marked m.ends m.kernel) {cur : Fin maxTasks}
    {around : Surroundings} {after : Io} (hsame : SameWords (m.io cur around) after) :
    Marked m.ends (m.setIo cur after).kernel :=
  hm.setTask cur fun f => (hm.created cur f).congr (hsame.type_eq f) (hsame.word_eq f)

theorem marked_act {m : Machine} (hm : Marked m.ends m.kernel) (event : MachineEvent) :
    Marked (m.act event).ends (m.act event).kernel := by
  cases event with
  | step event => exact hm.event event
  | getfl fd => exact hm
  | read around fd count =>
      rw [Machine.act]
      cases running m.kernel with
      | none => exact hm
      | some cur =>
          rw [Option.elim_some, Machine.read]
          split
          · rename_i transfer hread
            exact marked_setIo hm (sameWords_sysRead hread)
          · exact hm
  | write around caller fd buf =>
      rw [Machine.act]
      cases running m.kernel with
      | none => exact hm
      | some cur =>
          rw [Option.elim_some, Machine.write]
          split
          · rename_i ret io hwrite
            exact marked_setIo hm (sameWords_sysWrite hwrite)
          · exact hm

theorem createdAs_iff {m : Machine} (hm : Marked m.ends m.kernel) {t : Fin maxTasks}
    {f : Fin maxFds} {write : Bool} :
    m.CreatedAs t f write ↔
      (m.kernel.slot t f).type = .pipe ∧ (m.kernel.slot t f).isUpperEnd = write := by
  unfold Machine.CreatedAs
  refine and_congr_right fun htype => ?_
  obtain ⟨created, hcreated, hword⟩ := hm.created t f htype
  rw [hcreated, hword.isUpperEnd, Option.some_inj]

/-! ## What a call does to the bytes -/

section Bytes

variable {m : Machine} {cur : Fin maxTasks} {fd : ℤ} {f : Fin maxFds}

theorem sameBytes_update_iff {next : Machine} {p : Fin maxPipes} {ring : Ring UInt8 pipeBufSize}
    (hrings : next.rings = update m.rings p ring) :
    SameBytes m next ↔ ring.contents = (m.rings p).contents := by
  unfold SameBytes
  rw [hrings]
  constructor
  · intro h
    have hp := h p
    rwa [update_self] at hp
  · intro h q
    by_cases hq : q = p
    · rw [hq, update_self]
      exact h
    · rw [update_of_ne hq]

theorem rings_setPipe (around : Surroundings) (p : Fin maxPipes) (pipe : Pipe) :
    (m.setIo cur ((m.io cur around).setPipe p pipe)).rings =
      update m.rings p pipe.ring := by
  funext q
  by_cases hq : q = p
  · subst hq
    simp [Machine.setIo, Io.setPipe]
  · simp [Machine.setIo, Io.setPipe, Machine.io, Machine.pipe, hq]

theorem pipeRead_failed {pipe : Pipe} {count : ℕ} (h : ¬ 0 ≤ (pipeRead pipe count).1) :
    (pipeRead pipe count).2.2 = pipe := by
  unfold pipeRead at h ⊢
  split_ifs at h ⊢
  · rfl
  · rfl
  · exact absurd (Int.natCast_nonneg _) h

theorem rings_read (hrun : running m.kernel = some cur) (hfd : toFd fd = some f)
    (htype : (m.kernel.slot cur f).type = .pipe) (around : Surroundings) (count : ℕ) :
    (m.act (.read around fd count)).rings =
      update m.rings (m.kernel.slot cur f).pipe
        (pipeRead (m.pipe (m.kernel.slot cur f).pipe) count).2.2.ring := by
  have hslot : (m.io cur around).fds f = m.kernel.slot cur f := rfl
  have hpipe : (m.io cur around).pipes = m.pipe := rfl
  rw [Machine.act, hrun, Option.elim_some, Machine.read, sysRead, hfd]
  dsimp only
  rw [hslot, htype]
  dsimp only
  rw [hpipe]
  by_cases hret : 0 ≤ (pipeRead (m.pipe (m.kernel.slot cur f).pipe) count).1
  · rw [if_pos hret]
    exact rings_setPipe around _ _
  · have hsame : update m.rings (m.kernel.slot cur f).pipe
        (pipeRead (m.pipe (m.kernel.slot cur f).pipe) count).2.2.ring = m.rings := by
      rw [pipeRead_failed hret]
      exact update_eq_self _ _
    rw [if_neg hret, hsame]
    split_ifs
    · rfl
    · rfl

theorem rings_write (hrun : running m.kernel = some cur) (hfd : toFd fd = some f)
    (htype : (m.kernel.slot cur f).type = .pipe) (around : Surroundings) (caller : Caller)
    (buf : List UInt8) :
    (m.act (.write around caller fd buf)).rings =
      if (m.kernel.slot cur f).flagsExtra = 0 then m.rings
      else update m.rings (m.kernel.slot cur f).pipe
        (pipeWrite (m.pipe (m.kernel.slot cur f).pipe) buf).2.ring := by
  have hslot : (m.io cur around).fds f = m.kernel.slot cur f := rfl
  have hpipe : (m.io cur around).pipes = m.pipe := rfl
  rw [Machine.act, hrun, Option.elim_some, Machine.write, sysWrite, hfd]
  dsimp only
  rw [hslot, htype]
  dsimp only
  rw [hpipe]
  split_ifs
  · rfl
  · exact rings_setPipe around _ _

/-- A read through a pipe descriptor takes out bytes if any wait and any are asked for. -/
theorem sameBytes_read_iff (hrun : running m.kernel = some cur) (hfd : toFd fd = some f)
    (htype : (m.kernel.slot cur f).type = .pipe) (around : Surroundings) (count : ℕ) :
    SameBytes m (m.act (.read around fd count)) ↔
      (m.pipe (m.kernel.slot cur f).pipe).ring.contents = [] ∨ count = 0 :=
  (sameBytes_update_iff (rings_read hrun hfd htype around count)).trans (pipeRead_same_iff _ _)

/-- A write through a read end puts bytes in if `O_NONBLOCK` is set, and the pipe has a reader
and room. -/
theorem sameBytes_write_iff (hrun : running m.kernel = some cur) (hfd : toFd fd = some f)
    (htype : (m.kernel.slot cur f).type = .pipe)
    (hword : IsEndWord false (m.kernel.slot cur f).flagsExtra) (around : Surroundings)
    (caller : Caller) (buf : List UInt8) :
    SameBytes m (m.act (.write around caller fd buf)) ↔
      (isNonblock (m.kernel.slot cur f) = true →
        (m.pipe (m.kernel.slot cur f).pipe).readerCount = 0 ∨
          (m.pipe (m.kernel.slot cur f).pipe).ring.room = 0 ∨ buf = []) := by
  have hrings := rings_write hrun hfd htype around caller buf
  by_cases hzero : (m.kernel.slot cur f).flagsExtra = 0
  · have hblock : isNonblock (m.kernel.slot cur f) ≠ true := by
      simpa [isNonblock] using hword.eq_zero_iff.mp hzero
    rw [if_pos hzero] at hrings
    refine iff_of_true (fun p => by rw [hrings]) fun h => absurd h hblock
  · have hnonblock : isNonblock (m.kernel.slot cur f) = true := by
      simpa [isNonblock] using mt hword.eq_zero_iff.mpr hzero
    rw [if_neg hzero] at hrings
    rw [sameBytes_update_iff hrings, forall_prop_of_true hnonblock]
    exact pipeWrite_same_iff _ _

end Bytes

/-! ## Status flags -/

theorem type_fcntlSetFl (k : Kernel) (cur : Fin maxTasks) (fd : ℤ) (arg : UInt32)
    (t : Fin maxTasks) (f : Fin maxFds) :
    ((fcntlSetFl k cur fd arg).slot t f).type = (k.slot t f).type := by
  have hset : ∀ (i : Fin maxFds) (slot : FdSlot), slot.type = (k.slot cur i).type →
      ((k.setFd cur i slot).slot t f).type = (k.slot t f).type := by
    intro i slot hslot
    rw [Kernel.slot_setFd]
    split
    · rename_i heq
      rw [hslot, heq.1, heq.2]
    · rfl
  unfold fcntlSetFl
  split
  · rfl
  · dsimp only
    split
    · exact hset _ _ rfl
    · split
      · exact hset _ _ rfl
      · rfl

/-- `F_SETFL` makes no read end of a write end, and no write end of a read end. -/
theorem isUpperEnd_fcntlSetFl {ends : EndTable} {k : Kernel} (hk : Marked ends k)
    (cur : Fin maxTasks) (fd : ℤ) (arg : UInt32) {t : Fin maxTasks} {f : Fin maxFds}
    (htype : (k.slot t f).type = .pipe) :
    ((fcntlSetFl k cur fd arg).slot t f).isUpperEnd = (k.slot t f).isUpperEnd := by
  have hafter := (type_fcntlSetFl k cur fd arg t f).trans htype
  obtain ⟨write, hcreated, hword⟩ := hk.created t f htype
  obtain ⟨write', hcreated', hword'⟩ := (hk.fcntlSetFl cur fd arg).created t f hafter
  rw [hword.isUpperEnd, hword'.isUpperEnd]
  exact Option.some.inj (hcreated'.symm.trans hcreated)

theorem fcntl_keeps {ends : EndTable} {k : Kernel} (hk : Marked ends k) (fd : ℤ) (arg : UInt32)
    {t : Fin maxTasks} {f : Fin maxFds} (htype : (k.slot t f).type = .pipe) :
    (((Event.request (.fcntl fd arg)).apply k).slot t f).type = .pipe ∧
      (((Event.request (.fcntl fd arg)).apply k).slot t f).isUpperEnd =
        (k.slot t f).isUpperEnd := by
  rw [Event.apply]
  cases k.current with
  | none => exact ⟨htype, rfl⟩
  | some cur =>
      dsimp only
      split
      · exact ⟨(type_fcntlSetFl k cur fd arg t f).trans htype,
          isUpperEnd_fcntlSetFl hk cur fd arg htype⟩
      · exact ⟨htype, rfl⟩

theorem fcntlGetFl_pipe {k : Kernel} {cur : Fin maxTasks} {fd : ℤ} {f : Fin maxFds} {write : Bool}
    (hfd : toFd fd = some f) (htype : (k.slot cur f).type = .pipe)
    (hword : IsEndWord write (k.slot cur f).flagsExtra) :
    fcntlGetFl k cur fd % 2 = if write then 1 else 0 := by
  rw [fcntlGetFl, hfd]
  dsimp only
  rw [if_pos (Or.inl htype)]
  rcases hword with hword | hword
  · rw [hword]
    cases write <;> decide
  · rw [hword]
    cases write <;> decide

/-! ## The runs -/

theorem directionKept_iff {m : Machine} (hm : Marked m.ends m.kernel) (event : MachineEvent) :
    DirectionKept m event (m.act event) ↔ SparesEnds m event (m.act event) := by
  have hread : ∀ {around fd count cur f}, running m.kernel = some cur → toFd fd = some f →
      m.CreatedAs cur f true → (SameBytes m (m.act (.read around fd count)) ↔
        (m.pipe (m.kernel.slot cur f).pipe).ring.contents = [] ∨ count = 0) :=
    fun hrun hfd hcreated => sameBytes_read_iff hrun hfd hcreated.1 _ _
  have hwrite : ∀ {around caller fd buf cur f}, running m.kernel = some cur →
      toFd fd = some f → m.CreatedAs cur f false →
      (SameBytes m (m.act (.write around caller fd buf)) ↔
        (isNonblock (m.kernel.slot cur f) = true →
          (m.pipe (m.kernel.slot cur f).pipe).readerCount = 0 ∨
            (m.pipe (m.kernel.slot cur f).pipe).ring.room = 0 ∨ buf = [])) := by
    intro around caller fd buf cur f hrun hfd hcreated
    obtain ⟨write, hsome, hword⟩ := hm.created cur f hcreated.1
    obtain rfl : write = false := Option.some.inj (hsome.symm.trans hcreated.2)
    exact sameBytes_write_iff hrun hfd hcreated.1 hword _ _ _
  constructor
  · intro h
    cases event with
    | step event => trivial
    | getfl fd => trivial
    | read around fd count =>
        intro cur f hrun hfd htype hupper
        have hcreated := (createdAs_iff hm).mpr ⟨htype, hupper⟩
        exact (hread hrun hfd hcreated).mp
          (h.writeEnd around fd count rfl cur f hrun hfd hcreated)
    | write around caller fd buf =>
        intro cur f hrun hfd htype hupper
        have hcreated := (createdAs_iff hm).mpr ⟨htype, hupper⟩
        exact (hwrite hrun hfd hcreated).mp
          (h.readEnd around caller fd buf rfl cur f hrun hfd hcreated)
  · intro h
    refine ⟨?_, ?_, ?_, ?_, ?_⟩
    · rintro around caller fd buf rfl cur f hrun hfd hcreated
      obtain ⟨htype, hupper⟩ := (createdAs_iff hm).mp hcreated
      exact (hwrite hrun hfd hcreated).mpr (h cur f hrun hfd htype hupper)
    · rintro around fd count rfl cur f hrun hfd hcreated
      obtain ⟨htype, hupper⟩ := (createdAs_iff hm).mp hcreated
      exact (hread hrun hfd hcreated).mpr (h cur f hrun hfd htype hupper)
    · rintro fd arg rfl t f htype
      exact fcntl_keeps hm fd arg htype
    · rintro fd rfl cur f write _ hfd hcreated
      obtain ⟨created, hsome, hword⟩ := hm.created cur f hcreated.1
      obtain rfl : created = write := Option.some.inj (hsome.symm.trans hcreated.2)
      exact fcntlGetFl_pipe hfd hcreated.1 hword
    · intro t f write hcreated
      exact ((createdAs_iff (marked_act hm event)).mp hcreated).2

/-- In a run from the start, every call keeps the direction of the pipes if and only if no read
end with `O_NONBLOCK` is written to and no write end is read, but for calls that move nothing. -/
theorem direction_iff (events : List MachineEvent) :
    Along DirectionKept Machine.init (trace Machine.act Machine.init events) ↔
      Along SparesEnds Machine.init (trace Machine.act Machine.init events) := by
  have hstep : ∀ (m : Machine) (event : MachineEvent), Marked m.ends m.kernel →
      (DirectionKept m event (m.act event) ↔ SparesEnds m event (m.act event)) ∧
        Marked (m.act event).ends (m.act event).kernel := by
    intro m event hm
    exact ⟨directionKept_iff hm event, marked_act hm event⟩
  exact along_trace_iff Machine.act hstep marked_initTasking events

/-- Nothing but pipes. -/
def bareSurroundings : Surroundings where
  vfs := ⟨fun _ _ => (0, []), fun _ _ => 0⟩
  ptys := fun _ => Pty.zero
  sockets := fun _ => none
  files := fun _ => FileNode.zero

/-- A pipe is created, its read end gets `O_NONBLOCK`, and a byte is written to it. -/
def writeToReadEnd : List MachineEvent :=
  [.step (.request (.call .pipe)), .step (.request (.fcntl 3 0x800)),
    .write bareSurroundings ⟨rootSlot, 0, true⟩ 3 [1]]

theorem not_directionKept_writeToReadEnd :
    ¬ Along DirectionKept Machine.init (trace Machine.act Machine.init writeToReadEnd) := by
  rintro ⟨_, _, hwrite, _⟩
  have hsame := hwrite.readEnd _ _ 3 [1] rfl ⟨0, by decide⟩ ⟨3, by decide⟩ (by decide +kernel)
    (by decide) ⟨by decide +kernel, by decide +kernel⟩ ⟨0, by decide⟩
  revert hsame
  decide +kernel

end EigenOS.Descriptors
