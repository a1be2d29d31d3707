import EigenOS.Descriptors.DataPath

/-!
# Readiness

`fd_poll_revents` says what a descriptor is ready for, apart from the calls that read and
write it.
-/

namespace EigenOS.Descriptors

open EigenOS.Filesystem (Caller)
open EigenOS.RingBuffer
open EigenOS.Tasking (FdSlot FdType maxFds maxPipes maxPtys maxSockets oNonblock toFd)

/-- Poll events, as bits of an `int`. -/
abbrev Events := BitVec 32

def pollIn : Events := 0x001#32
def pollOut : Events := 0x004#32
def pollErr : Events := 0x008#32
def pollHup : Events := 0x010#32
def pollNval : Events := 0x020#32
def pollRdNorm : Events := 0x040#32
def pollWrNorm : Events := 0x100#32

/-- Whether one of some events is among others. -/
def Events.has (events event : Events) : Bool := events &&& event ≠ 0

def eventsIf (condition : Bool) (events : Events) : Events := if condition then events else 0

/-- `sys_socket_poll`; `none` is `-1`. -/
def sysSocketPoll (io : Io) (s : ℕ) : Option Events :=
  if h : s < maxSockets then
    (io.sockets ⟨s, h⟩).map fun so =>
      eventsIf (0 < so.received.length) (pollIn ||| pollRdNorm) |||
        eventsIf so.closed pollHup |||
        eventsIf so.established (pollOut ||| pollWrNorm)
  else none

def pipePoll (pipe : Pipe) : Events :=
  eventsIf (0 < pipe.ring.avail) (pollIn ||| pollRdNorm) |||
    eventsIf (pipe.ring.avail < pipeBufSize - 1) (pollOut ||| pollWrNorm) |||
    eventsIf (pipe.writerCount = 0) pollHup

/-- `pty_poll`. -/
def ptyPoll (pty : Pty) (master : Bool) : Events :=
  if pty.used = false then 0
  else if master then eventsIf (pty.output.avail ≠ 0) pollIn ||| pollOut
  else eventsIf (pty.input.avail ≠ 0 || pty.line ≠ []) pollIn ||| pollOut

/-- `fd_poll_revents`. -/
def fdPollRevents (io : Io) (fd : ℤ) : Events :=
  match toFd fd with
  | none => pollNval
  | some f =>
      let slot := io.fds f
      match slot.type with
      | .socket => (sysSocketPoll io f.val).getD pollNval
      | .pipe => pipePoll (io.pipes slot.pipe)
      | .pty => ptyPoll (io.ptys slot.pty) slot.isUpperEnd
      | .vfs =>
          if fd = 1 ∨ fd = 2 then pollOut ||| pollWrNorm
          else if 0 < slot.flags ∨ slot.node ≠ none then
            pollIn ||| pollRdNorm ||| pollOut ||| pollWrNorm
          else pollNval

/-! ## What the calls do at once -/

section Agreement

variable (vfs : Vfs) (caller : Caller) (io : Io) (fd : ℤ)

/-- The result of a call that would have to wait. -/
def wouldBlock : ℤ := -1

/-- A read of so many bytes neither goes to sleep nor would have to wait. -/
def ReadsAtOnce (count : ℕ) : Prop :=
  ∃ transfer, sysRead vfs io fd count = some transfer ∧ transfer.ret ≠ wouldBlock

/-- A read of so many bytes returns at once, with data or at the end of file. -/
def DataAtOnce (count : ℕ) : Prop :=
  ∃ transfer, sysRead vfs io fd count = some transfer ∧ 0 ≤ transfer.ret

def WriteAccepted (byte : UInt8) : Prop :=
  ∃ after, kSysWrite vfs io caller fd [byte] = some (1, after)

/-- What is reported agrees with what a read of so many bytes and the write of a byte do. -/
structure ReadinessAgrees (count : ℕ) (byte : UInt8) : Prop where
  readable : (fdPollRevents io fd).has pollIn → ReadsAtOnce vfs io fd count
  writable : (fdPollRevents io fd).has pollOut → WriteAccepted vfs caller io fd byte
  reported : DataAtOnce vfs io fd count → (fdPollRevents io fd).has (pollIn ||| pollHup)

end Agreement

/-! ## When they agree -/

section Conditions

variable (vfs : Vfs) (caller : Caller) (io : Io)

/-- A file is there, and not at its end unless the count is one that a read takes. -/
def FileIsReadable (slot : FdSlot) (takes : Prop) : Prop :=
  slot.flags - 1 < Filesystem.maxFiles ∧
    (io.files (Filesystem.slotAt (slot.flags - 1 : ℕ))).inUse = true ∧
    (takes ∨ (io.files (Filesystem.slotAt (slot.flags - 1 : ℕ))).size ≤
      max (toInt slot.offset) 0)

/-- A read of a file or a node does not fail as one that would have to wait does. -/
def FileReads (slot : FdSlot) (count : ℕ) : Prop :=
  if 0 < slot.flags then FileIsReadable io slot (toInt count ≠ -1)
  else ∃ node, slot.node = some node ∧ (vfs.read node count).1 ≠ -1

/-- A read of a file or a node has data, or is at the end. -/
def FileHasData (slot : FdSlot) (count : ℕ) : Prop :=
  if 0 < slot.flags then FileIsReadable io slot (0 ≤ toInt count)
  else ∃ node, slot.node = some node ∧ 0 ≤ (vfs.read node count).1

/-- A file can grow by one byte, or a node accepts it. -/
def FileTakesByte (slot : FdSlot) (byte : UInt8) : Prop :=
  if 0 < slot.flags then
    slot.flags - 1 < Filesystem.maxFiles ∧
      (io.files (Filesystem.slotAt (slot.flags - 1 : ℕ))).inUse = true ∧
      (io.files (Filesystem.slotAt (slot.flags - 1 : ℕ))).type = .file ∧
      (io.files (Filesystem.slotAt (slot.flags - 1 : ℕ))).size < Filesystem.intMax ∧
      ∃ grown, Filesystem.fileEnsureCap (io.files (Filesystem.slotAt (slot.flags - 1 : ℕ)))
        ((io.files (Filesystem.slotAt (slot.flags - 1 : ℕ))).size + 1) caller.allocated =
          some (some grown)
  else ∃ node, slot.node = some node ∧ vfs.write node [byte] = 1

/-- A pipe that has room is the write end, and has readers. -/
def PipeConsistent (slot : FdSlot) : Prop :=
  (io.pipes slot.pipe).ring.room ≠ 0 →
    slot.flagsExtra ≠ 0 ∧ (io.pipes slot.pipe).readerCount ≠ 0

/-- Where nothing waits to be read, a line is being edited exactly when the other end is
closed and a read does not care; and a raw slave has room for its output. -/
def PtyConsistent (slot : FdSlot) : Prop :=
  (io.ptys slot.pty).used = true →
    (((io.ptys slot.pty).source slot.isUpperEnd).avail = 0 →
      ((slot.isUpperEnd = false ∧ (io.ptys slot.pty).line ≠ []) ↔
        (isNonblock slot = false ∧ (io.ptys slot.pty).peerRefs slot.isUpperEnd = 0))) ∧
      (slot.isUpperEnd = false → (io.ptys slot.pty).raw = true →
        (io.ptys slot.pty).output.room ≠ 0)

/-- A socket is not reported for what its descriptor cannot do: reading and writing go to the
file of the descriptor, if there is one. -/
def SocketConsistent (f : Fin maxFds) (count : ℕ) (byte : UInt8) : Prop :=
  match io.sockets (Fin.castLE (by decide) f) with
  | none => ¬ FileHasData vfs io (io.fds f) count
  | some so =>
      (so.received ≠ [] → FileReads vfs io (io.fds f) count) ∧
        (so.established = true → FileTakesByte vfs caller io (io.fds f) byte) ∧
        (FileHasData vfs io (io.fds f) count → so.received ≠ [] ∨ so.closed = true)

/-- A file at a descriptor of the console cannot be read, and any other can be read and
written. -/
def FileConsistent (f : Fin maxFds) (count : ℕ) (byte : UInt8) : Prop :=
  if f.val = 1 ∨ f.val = 2 then ¬ FileHasData vfs io (io.fds f) count
  else 0 < (io.fds f).flags ∨ (io.fds f).node ≠ none →
    FileReads vfs io (io.fds f) count ∧ FileTakesByte vfs caller io (io.fds f) byte

def Consistent (fd : ℤ) (count : ℕ) (byte : UInt8) : Prop :=
  ∀ f, toFd fd = some f →
    match (io.fds f).type with
    | .pipe => PipeConsistent io (io.fds f)
    | .pty => PtyConsistent io (io.fds f)
    | .socket => SocketConsistent vfs caller io f count byte
    | .vfs => FileConsistent vfs caller io f count byte

end Conditions

/-! ## Events -/

theorem has_eventsIf_in (ready room hup : Bool) :
    (eventsIf ready (pollIn ||| pollRdNorm) ||| eventsIf room (pollOut ||| pollWrNorm) |||
      eventsIf hup pollHup).has pollIn = ready := by
  revert ready room hup
  decide

theorem has_eventsIf_out (ready room hup : Bool) :
    (eventsIf ready (pollIn ||| pollRdNorm) ||| eventsIf room (pollOut ||| pollWrNorm) |||
      eventsIf hup pollHup).has pollOut = room := by
  revert ready room hup
  decide

theorem has_eventsIf_data (ready room hup : Bool) :
    (eventsIf ready (pollIn ||| pollRdNorm) ||| eventsIf room (pollOut ||| pollWrNorm) |||
      eventsIf hup pollHup).has (pollIn ||| pollHup) = (ready || hup) := by
  revert ready room hup
  decide

theorem eventsIf_socket (ready hup room : Bool) :
    eventsIf ready (pollIn ||| pollRdNorm) ||| eventsIf hup pollHup |||
        eventsIf room (pollOut ||| pollWrNorm) =
      eventsIf ready (pollIn ||| pollRdNorm) ||| eventsIf room (pollOut ||| pollWrNorm) |||
        eventsIf hup pollHup := by
  revert ready hup room
  decide

theorem has_terminal_in (ready : Bool) : (eventsIf ready pollIn ||| pollOut).has pollIn = ready := by
  revert ready
  decide

theorem has_terminal_out (ready : Bool) : (eventsIf ready pollIn ||| pollOut).has pollOut = true := by
  revert ready
  decide

theorem has_terminal_data (ready : Bool) :
    (eventsIf ready pollIn ||| pollOut).has (pollIn ||| pollHup) = ready := by
  revert ready
  decide

/-! ## Files -/

section Files

variable (vfs : Vfs) (caller : Caller) (io : Io) (f : Fin maxFds)

theorem ret_fileRead_node (hflags : ¬ 0 < (io.fds f).flags) (count : ℕ) :
    (fileRead vfs io f count).ret =
      ((io.fds f).node.map fun node => (vfs.read node count).1).getD (-1) := by
  unfold fileRead
  dsimp only
  rw [if_neg hflags]
  cases (io.fds f).node with
  | none => rfl
  | some node => rfl

theorem ret_fileRead_file (hflags : 0 < (io.fds f).flags) (count : ℕ) :
    (fileRead vfs io f count).ret = (fsReadAt io.files ((io.fds f).flags - 1) (toInt count)
      (toInt (io.fds f).offset)).1 := by
  unfold fileRead
  dsimp only
  rw [if_pos hflags]
  split
  · rfl
  · rfl

theorem slotAt_fsReadAt (files : Filesystem.Table) (fd : ℕ) (count offset : ℤ) :
    (fsReadAt files fd count offset).1 =
      if Filesystem.maxFiles ≤ fd ∨ (files (Filesystem.slotAt fd)).inUse = false then -1
      else if (files (Filesystem.slotAt fd)).size ≤ max offset 0 then 0
      else min count ((files (Filesystem.slotAt fd)).size - max offset 0) := by
  unfold fsReadAt
  by_cases hbound : Filesystem.maxFiles ≤ fd
  · rw [if_pos hbound, if_pos (Or.inl hbound)]
  · rw [if_neg hbound]
    dsimp only
    by_cases huse : (files (Filesystem.slotAt fd)).inUse = false
    · rw [if_pos huse, if_pos (Or.inr huse)]
    · rw [if_neg huse, if_neg (not_or.mpr ⟨hbound, huse⟩)]
      split
      · rfl
      · rfl

theorem fileIsReadable_iff (good : ℤ → Prop) (hfail : ¬ good (-1)) (hend : good 0)
    (hdata : ∀ count avail, 0 < avail → (good (min count avail) ↔ good count)) (count : ℕ) :
    good (fsReadAt io.files ((io.fds f).flags - 1) (toInt count) (toInt (io.fds f).offset)).1 ↔
      FileIsReadable io (io.fds f) (good (toInt count)) := by
  rw [slotAt_fsReadAt]
  unfold FileIsReadable
  generalize io.files (Filesystem.slotAt ((io.fds f).flags - 1 : ℕ)) = file
  by_cases hmissing : Filesystem.maxFiles ≤ (io.fds f).flags - 1 ∨ file.inUse = false
  · rw [if_pos hmissing]
    apply iff_of_false hfail
    rintro ⟨hbound, huse, _⟩
    rcases hmissing with hlarge | hfree
    · omega
    · rw [huse] at hfree
      cases hfree
  · obtain ⟨hbound, huse⟩ := not_or.mp hmissing
    rw [if_neg hmissing]
    rw [Bool.not_eq_false] at huse
    by_cases hlast : file.size ≤ max (toInt (io.fds f).offset) 0
    · rw [if_pos hlast]
      exact iff_of_true hend ⟨by omega, huse, Or.inr hlast⟩
    · rw [if_neg hlast, hdata _ _ (by omega)]
      constructor
      · intro hgood
        exact ⟨by omega, huse, Or.inl hgood⟩
      · rintro ⟨_, _, hgood | hle⟩
        · exact hgood
        · exact absurd hle hlast

theorem fileReads_iff (count : ℕ) :
    (fileRead vfs io f count).ret ≠ wouldBlock ↔ FileReads vfs io (io.fds f) count := by
  unfold FileReads
  by_cases hflags : 0 < (io.fds f).flags
  · rw [if_pos hflags, ret_fileRead_file vfs io f hflags]
    apply fileIsReadable_iff io f (· ≠ -1) (by decide) (by decide)
    intro count avail havail
    omega
  · rw [if_neg hflags, ret_fileRead_node vfs io f hflags]
    cases (io.fds f).node with
    | none => simp [wouldBlock]
    | some node => simp [wouldBlock]

theorem fileHasData_iff (count : ℕ) :
    0 ≤ (fileRead vfs io f count).ret ↔ FileHasData vfs io (io.fds f) count := by
  unfold FileHasData
  by_cases hflags : 0 < (io.fds f).flags
  · rw [if_pos hflags, ret_fileRead_file vfs io f hflags]
    apply fileIsReadable_iff io f (0 ≤ ·) (by decide) (by decide)
    intro count avail havail
    omega
  · rw [if_neg hflags, ret_fileRead_node vfs io f hflags]
    cases (io.fds f).node with
    | none => simp
    | some node => simp

theorem fileTakesByte_iff (byte : UInt8) :
    (∃ after, fileWrite vfs io caller f [byte] = some (1, after)) ↔
      FileTakesByte vfs caller io (io.fds f) byte := by
  have hone : toInt [byte].length = 1 := by
    rw [List.length_singleton]
    decide
  unfold fileWrite FileTakesByte
  dsimp only
  by_cases hflags : 0 < (io.fds f).flags
  · rw [if_pos hflags, if_pos hflags, hone]
    unfold Filesystem.fsWrite
    dsimp only
    generalize io.files (Filesystem.slotAt ((io.fds f).flags - 1 : ℕ)) = file
    by_cases hbound : (((io.fds f).flags - 1 : ℕ) : ℤ) < 0 ∨
        (Filesystem.maxFiles : ℤ) ≤ ((io.fds f).flags - 1 : ℕ)
    · rw [if_pos hbound]
      apply iff_of_false
      · simp
      · rintro ⟨hlow, _⟩
        omega
    · rw [if_neg hbound]
      have hlow : (io.fds f).flags - 1 < Filesystem.maxFiles := by omega
      by_cases hfile : file.inUse = false ∨ file.type ≠ .file
      · rw [if_pos hfile]
        apply iff_of_false
        · simp
        · rintro ⟨_, huse, htype, _⟩
          rcases hfile with hfree | hother
          · rw [huse] at hfree
            cases hfree
          · exact hother htype
      · obtain ⟨huse, htype⟩ := not_or.mp hfile
        rw [Bool.not_eq_false] at huse
        rw [not_not] at htype
        rw [if_neg hfile]
        by_cases hmax : Filesystem.intMax < file.size + 1
        · rw [if_pos hmax]
          apply iff_of_false
          · simp
          · rintro ⟨_, _, _, hsize, _⟩
            omega
        · rw [if_neg hmax]
          have hsize : file.size < Filesystem.intMax := by omega
          rcases hcap : Filesystem.fileEnsureCap file (file.size + 1) caller.allocated with
            _ | _ | grown
          · simp
          · simp
          · simp [hlow, huse, htype, hsize]
  · rw [if_neg hflags, if_neg hflags]
    cases (io.fds f).node with
    | none => simp
    | some node => simp

end Files

/-! ## The kinds of descriptors -/

section Kinds

variable (vfs : Vfs) (caller : Caller) (io : Io) {fd : ℤ} {f : Fin maxFds}

theorem readinessAgrees_congr {count : ℕ} {byte : UInt8} {isIn isOut isData reads writes data : Prop}
    (hin : (fdPollRevents io fd).has pollIn ↔ isIn)
    (hout : (fdPollRevents io fd).has pollOut ↔ isOut)
    (hdata : (fdPollRevents io fd).has (pollIn ||| pollHup) ↔ isData)
    (hreads : ReadsAtOnce vfs io fd count ↔ reads)
    (hwrites : WriteAccepted vfs caller io fd byte ↔ writes)
    (hreport : DataAtOnce vfs io fd count ↔ data) :
    ReadinessAgrees vfs caller io fd count byte ↔
      (isIn → reads) ∧ (isOut → writes) ∧ (data → isData) := by
  rw [← hin, ← hout, ← hdata, ← hreads, ← hwrites, ← hreport]
  constructor
  · intro h
    exact ⟨h.readable, h.writable, h.reported⟩
  · rintro ⟨hread, hwrite, hrep⟩
    exact ⟨hread, hwrite, hrep⟩

theorem kSysWrite_object (hfd : toFd fd = some f) (htype : (io.fds f).type ≠ .vfs)
    (byte : UInt8) : kSysWrite vfs io caller fd [byte] = sysWrite vfs io caller fd [byte] := by
  have hconsole : isConsole fd (io.fds f).type = false := by
    rw [isConsole, Bool.and_eq_false_iff]
    exact Or.inr (beq_eq_false_iff_ne.mpr htype)
  have htake : ([byte] : List UInt8).take (([byte] : List UInt8).length % 2 ^ 32) = [byte] := rfl
  unfold kSysWrite
  rw [hfd]
  dsimp only
  rw [hconsole, htake]
  rfl

theorem pipeRead_closed {pipe : Pipe} (hempty : pipe.ring.avail = 0)
    (hwriters : pipe.writerCount = 0) (count : ℕ) : pipeRead pipe count = (0, [], pipe) := by
  rw [pipeRead, if_pos (pipe.ring.avail_eq_zero_iff.mp hempty), if_pos hwriters]

theorem pipeRead_wait {pipe : Pipe} (hempty : pipe.ring.avail = 0)
    (hwriters : pipe.writerCount ≠ 0) (count : ℕ) : pipeRead pipe count = (-1, [], pipe) := by
  rw [pipeRead, if_pos (pipe.ring.avail_eq_zero_iff.mp hempty), if_neg hwriters]

theorem pipeRead_data {pipe : Pipe} (hdata : pipe.ring.avail ≠ 0) (count : ℕ) :
    pipeRead pipe count = (((min pipe.ring.avail count : ℕ) : ℤ),
      pipe.ring.peek (min pipe.ring.avail count),
      { pipe with ring := pipe.ring.drop (min pipe.ring.avail count) }) := by
  rw [pipeRead, if_neg fun heq => hdata (pipe.ring.avail_eq_zero_iff.mpr heq)]

theorem sysRead_pipe (hfd : toFd fd = some f) (htype : (io.fds f).type = .pipe) (count : ℕ)
    (good : ℤ → Prop) (hfail : ¬ good (-1)) (hgood : ∀ n : ℕ, good n) :
    (∃ transfer, sysRead vfs io fd count = some transfer ∧ good transfer.ret) ↔
      (io.pipes (io.fds f).pipe).ring.avail ≠ 0 ∨
        (io.pipes (io.fds f).pipe).writerCount = 0 := by
  have hneg : ¬ (0 : ℤ) ≤ -1 := by decide
  unfold sysRead
  rw [hfd]
  dsimp only
  rw [htype]
  dsimp only
  by_cases hempty : (io.pipes (io.fds f).pipe).ring.avail = 0
  · by_cases hwriters : (io.pipes (io.fds f).pipe).writerCount = 0
    · rw [pipeRead_closed hempty hwriters]
      exact iff_of_true ⟨_, rfl, hgood 0⟩ (Or.inr hwriters)
    · rw [pipeRead_wait hempty hwriters]
      dsimp only
      rw [if_neg hneg]
      apply iff_of_false ?_ (not_or.mpr ⟨not_not_intro hempty, hwriters⟩)
      rintro ⟨transfer, htransfer, hret⟩
      cases hnonblock : isNonblock (io.fds f) with
      | true =>
          rw [hnonblock, if_pos rfl] at htransfer
          cases htransfer
          exact hfail hret
      | false =>
          rw [hnonblock] at htransfer
          cases htransfer
  · rw [pipeRead_data hempty]
    dsimp only
    rw [if_pos (Int.natCast_nonneg _)]
    exact iff_of_true ⟨_, rfl, hgood _⟩ (Or.inl hempty)

theorem sysWrite_pipe (hfd : toFd fd = some f) (htype : (io.fds f).type = .pipe) (byte : UInt8) :
    WriteAccepted vfs caller io fd byte ↔ (io.fds f).flagsExtra ≠ 0 ∧
      (io.pipes (io.fds f).pipe).readerCount ≠ 0 ∧ (io.pipes (io.fds f).pipe).ring.room ≠ 0 := by
  have hobject : (io.fds f).type ≠ .vfs := by
    rw [htype]
    decide
  unfold WriteAccepted
  rw [kSysWrite_object vfs caller io hfd hobject]
  unfold sysWrite pipeWrite
  rw [hfd]
  dsimp only
  rw [htype]
  dsimp only
  generalize io.pipes (io.fds f).pipe = pipe
  by_cases hread : (io.fds f).flagsExtra = 0
  · simp [hread]
  · by_cases hreaders : pipe.readerCount = 0
    · simp [hread, hreaders]
    · by_cases hroom : pipe.ring.room = 0
      · simp [hread, hreaders, hroom]
      · have hone : min pipe.ring.room 1 = 1 := by omega
        simp [hread, hreaders, hroom, hone]

theorem readinessAgrees_pipe (hfd : toFd fd = some f) (htype : (io.fds f).type = .pipe)
    (count : ℕ) (byte : UInt8) :
    ReadinessAgrees vfs caller io fd count byte ↔ PipeConsistent io (io.fds f) := by
  have hpoll : fdPollRevents io fd = pipePoll (io.pipes (io.fds f).pipe) := by
    unfold fdPollRevents
    rw [hfd]
    dsimp only
    rw [htype]
  have hread := sysRead_pipe vfs io hfd htype count
  rw [readinessAgrees_congr vfs caller io
    (by rw [hpoll, pipePoll, has_eventsIf_in, decide_eq_true_eq])
    (by rw [hpoll, pipePoll, has_eventsIf_out, decide_eq_true_eq])
    (by rw [hpoll, pipePoll, has_eventsIf_data, Bool.or_eq_true, decide_eq_true_eq,
      decide_eq_true_eq])
    (hread (· ≠ -1) (by decide) (by omega)) (sysWrite_pipe vfs caller io hfd htype byte)
    (hread (0 ≤ ·) (by decide) (by omega))]
  unfold PipeConsistent
  generalize io.pipes (io.fds f).pipe = pipe
  have hroom : pipe.ring.avail < pipeBufSize - 1 ↔ pipe.ring.room ≠ 0 :=
    pipe.ring.avail_lt_iff_room
  rw [hroom]
  constructor
  · rintro ⟨_, hwrite, _⟩ hsome
    exact ⟨(hwrite hsome).1, (hwrite hsome).2.1⟩
  · intro hwrite
    refine ⟨fun hready => Or.inl (Nat.pos_iff_ne_zero.mp hready), fun hsome => ?_, ?_⟩
    · exact ⟨(hwrite hsome).1, (hwrite hsome).2, hsome⟩
    · rintro (hready | hwriters)
      · exact Or.inl (Nat.pos_iff_ne_zero.mpr hready)
      · exact Or.inr hwriters

theorem ptyRead_iff (pty : Pty) (master nonblock : Bool) {count : ℕ} (hcount : 1 ≤ count)
    (hused : pty.used = true) (good : ℤ → Prop) (hfail : ¬ good (-1)) (hgood : ∀ n : ℕ, good n) :
    (∃ result, ptyRead pty master count nonblock = some result ∧ good result.1) ↔
      (pty.source master).avail ≠ 0 ∨ nonblock = false ∧ pty.peerRefs master = 0 := by
  unfold ptyRead
  dsimp only
  rw [if_neg (by rw [hused]; decide)]
  by_cases hempty : (pty.source master).avail = 0
  · rw [if_neg (by omega)]
    cases nonblock with
    | true =>
        rw [if_pos rfl]
        apply iff_of_false
        · rintro ⟨result, hresult, hret⟩
          cases hresult
          exact hfail hret
        · rintro (hdata | ⟨hblock, _⟩)
          · exact hdata hempty
          · cases hblock
    | false =>
        rw [if_neg (by decide)]
        by_cases hpeer : pty.peerRefs master = 0
        · rw [if_pos hpeer]
          exact iff_of_true ⟨_, rfl, hgood 0⟩ (Or.inr ⟨rfl, hpeer⟩)
        · rw [if_neg hpeer]
          apply iff_of_false
          · rintro ⟨result, hresult, _⟩
            cases hresult
          · rintro (hdata | ⟨_, hclosed⟩)
            · exact hdata hempty
            · exact hpeer hclosed
  · rw [if_pos (by omega)]
    exact iff_of_true ⟨_, rfl, hgood _⟩ (Or.inl hempty)

/-- A read of a pseudo-terminal ends at once where there is data, or where the other end is
closed and the read would sleep. -/
theorem sysRead_pty (hfd : toFd fd = some f) (htype : (io.fds f).type = .pty)
    (hused : (io.ptys (io.fds f).pty).used = true) {count : ℕ} (hcount : 1 ≤ count)
    (good : ℤ → Prop) (hfail : ¬ good (-1)) (hgood : ∀ n : ℕ, good n) :
    (∃ transfer, sysRead vfs io fd count = some transfer ∧ good transfer.ret) ↔
      ((io.ptys (io.fds f).pty).source (io.fds f).isUpperEnd).avail ≠ 0 ∨
        isNonblock (io.fds f) = false ∧
          (io.ptys (io.fds f).pty).peerRefs (io.fds f).isUpperEnd = 0 := by
  rw [← ptyRead_iff _ _ _ hcount hused good hfail hgood]
  unfold sysRead
  rw [hfd]
  dsimp only
  rw [htype]
  dsimp only
  generalize ptyRead (io.ptys (io.fds f).pty) (io.fds f).isUpperEnd count
    (isNonblock (io.fds f)) = result
  cases result with
  | none => simp
  | some result => simp

theorem ptyWrite_iff (pty : Pty) (master : Bool) (byte : UInt8) (hused : pty.used = true) :
    (ptyWrite pty master [byte]).1 = 1 ↔
      (master = false → pty.raw = true → pty.output.room ≠ 0) := by
  have hone : toInt [byte].length = 1 := by
    rw [List.length_singleton]
    decide
  unfold ptyWrite
  rw [if_neg (by rw [hused]; decide), hone]
  cases master with
  | true => simp
  | false =>
      rw [if_neg (by decide)]
      cases hraw : pty.raw with
      | false => simp
      | true =>
          rw [if_neg (by decide)]
          dsimp only
          rw [List.length_singleton]
          by_cases hroom : pty.output.room = 0
          · simp [hroom]
          · have hmin : min pty.output.room 1 = 1 := by omega
            simp [hroom, hmin]

theorem sysWrite_pty (hfd : toFd fd = some f) (htype : (io.fds f).type = .pty)
    (hused : (io.ptys (io.fds f).pty).used = true) (byte : UInt8) :
    WriteAccepted vfs caller io fd byte ↔ ((io.fds f).isUpperEnd = false →
      (io.ptys (io.fds f).pty).raw = true → (io.ptys (io.fds f).pty).output.room ≠ 0) := by
  have hobject : (io.fds f).type ≠ .vfs := by
    rw [htype]
    decide
  rw [← ptyWrite_iff _ _ byte hused]
  unfold WriteAccepted
  rw [kSysWrite_object vfs caller io hfd hobject]
  unfold sysWrite
  rw [hfd]
  dsimp only
  rw [htype]
  dsimp only
  simp

theorem readinessAgrees_pty_unused (hfd : toFd fd = some f) (htype : (io.fds f).type = .pty)
    (hused : (io.ptys (io.fds f).pty).used = false) (count : ℕ) (byte : UInt8) :
    ReadinessAgrees vfs caller io fd count byte := by
  have hpoll : fdPollRevents io fd = 0 := by
    unfold fdPollRevents ptyPoll
    rw [hfd]
    dsimp only
    rw [htype]
    dsimp only
    rw [if_pos hused]
  have hzero : ∀ event, (0 : Events).has event = false := by
    intro event
    simp [Events.has]
  have hread : sysRead vfs io fd count = some
      ⟨-1, [], io.setPty (io.fds f).pty (io.ptys (io.fds f).pty)⟩ := by
    unfold sysRead ptyRead
    rw [hfd]
    dsimp only
    rw [htype]
    dsimp only
    rw [if_pos hused]
    rfl
  refine ⟨?_, ?_, ?_⟩
  · rw [hpoll, hzero]
    exact nofun
  · rw [hpoll, hzero]
    exact nofun
  · rintro ⟨transfer, htransfer, hret⟩
    rw [hread] at htransfer
    cases htransfer
    exact absurd hret (by decide : ¬ (0 : ℤ) ≤ -1)

theorem readinessAgrees_pty (hfd : toFd fd = some f) (htype : (io.fds f).type = .pty)
    {count : ℕ} (hcount : 1 ≤ count) (byte : UInt8) :
    ReadinessAgrees vfs caller io fd count byte ↔ PtyConsistent io (io.fds f) := by
  unfold PtyConsistent
  cases hused : (io.ptys (io.fds f).pty).used with
  | false =>
      apply iff_of_true (readinessAgrees_pty_unused vfs caller io hfd htype hused count byte)
      exact nofun
  | true =>
      have hpoll : fdPollRevents io fd = eventsIf
          (((io.ptys (io.fds f).pty).source (io.fds f).isUpperEnd).avail ≠ 0 ||
            (io.fds f).isUpperEnd == false && (io.ptys (io.fds f).pty).line ≠ []) pollIn |||
          pollOut := by
        unfold fdPollRevents ptyPoll Pty.source
        rw [hfd]
        dsimp only
        rw [htype]
        dsimp only
        rw [if_neg (by rw [hused]; decide)]
        cases (io.fds f).isUpperEnd with
        | true => simp
        | false => simp
      have hread := sysRead_pty vfs io hfd htype hused hcount
      rw [readinessAgrees_congr vfs caller io
        (by rw [hpoll, has_terminal_in]) (by rw [hpoll, has_terminal_out])
        (by rw [hpoll, has_terminal_data]) (hread (· ≠ -1) (by decide) (by omega))
        (sysWrite_pty vfs caller io hfd htype hused byte) (hread (0 ≤ ·) (by decide) (by omega))]
      rw [Bool.or_eq_true, Bool.and_eq_true, decide_eq_true_eq, beq_iff_eq, decide_eq_true_eq]
      by_cases hempty : ((io.ptys (io.fds f).pty).source (io.fds f).isUpperEnd).avail = 0
      · constructor
        · rintro ⟨hreads, hwrites, hreport⟩ _
          refine ⟨fun _ => ⟨fun hline => ?_, fun hclosed => ?_⟩, hwrites rfl⟩
          · exact (hreads (Or.inr hline)).resolve_left (not_not_intro hempty)
          · exact (hreport (Or.inr hclosed)).resolve_left (not_not_intro hempty)
        · intro h
          obtain ⟨hends, hwrites⟩ := h rfl
          refine ⟨fun hready => Or.inr ?_, fun _ => hwrites, fun hready => Or.inr ?_⟩
          · exact (hends hempty).mp (hready.resolve_left (not_not_intro hempty))
          · exact (hends hempty).mpr (hready.resolve_left (not_not_intro hempty))
      · constructor
        · rintro ⟨_, hwrites, _⟩ _
          exact ⟨fun hnone => absurd hnone hempty, hwrites rfl⟩
        · intro h
          exact ⟨fun _ => Or.inl hempty, fun _ => (h rfl).2, fun _ => Or.inl hempty⟩

theorem sysRead_file (hfd : toFd fd = some f)
    (htype : (io.fds f).type = .socket ∨ (io.fds f).type = .vfs) (count : ℕ) :
    sysRead vfs io fd count = some (fileRead vfs io f count) := by
  unfold sysRead
  rw [hfd]
  dsimp only
  rcases htype with htype | htype
  · rw [htype]
  · rw [htype]

theorem readsAtOnce_file (hfd : toFd fd = some f)
    (htype : (io.fds f).type = .socket ∨ (io.fds f).type = .vfs) (count : ℕ) :
    ReadsAtOnce vfs io fd count ↔ FileReads vfs io (io.fds f) count := by
  rw [← fileReads_iff, ReadsAtOnce, sysRead_file vfs io hfd htype]
  simp

theorem dataAtOnce_file (hfd : toFd fd = some f)
    (htype : (io.fds f).type = .socket ∨ (io.fds f).type = .vfs) (count : ℕ) :
    DataAtOnce vfs io fd count ↔ FileHasData vfs io (io.fds f) count := by
  rw [← fileHasData_iff, DataAtOnce, sysRead_file vfs io hfd htype]
  simp

theorem readinessAgrees_socket (hfd : toFd fd = some f) (htype : (io.fds f).type = .socket)
    (count : ℕ) (byte : UInt8) :
    ReadinessAgrees vfs caller io fd count byte ↔ SocketConsistent vfs caller io f count byte := by
  have hobject : (io.fds f).type ≠ .vfs := by
    rw [htype]
    decide
  have hwrite : WriteAccepted vfs caller io fd byte ↔
      FileTakesByte vfs caller io (io.fds f) byte := by
    rw [← fileTakesByte_iff, WriteAccepted, kSysWrite_object vfs caller io hfd hobject]
    unfold sysWrite
    rw [hfd]
    dsimp only
    rw [htype]
  have hpoll : fdPollRevents io fd = (sysSocketPoll io f.val).getD pollNval := by
    unfold fdPollRevents
    rw [hfd]
    dsimp only
    rw [htype]
  have hreads := readsAtOnce_file vfs io hfd (Or.inl htype) count
  have hdata := dataAtOnce_file vfs io hfd (Or.inl htype) count
  unfold sysSocketPoll at hpoll
  rw [dif_pos (lt_of_lt_of_le f.isLt (by decide))] at hpoll
  unfold SocketConsistent
  change fdPollRevents io fd = ((io.sockets (Fin.castLE (by decide) f)).map _).getD _ at hpoll
  cases hsocket : io.sockets (Fin.castLE (by decide) f) with
  | none =>
      rw [hsocket] at hpoll
      have hnval : ∀ event, event = pollIn ∨ event = pollOut ∨ event = pollIn ||| pollHup →
          pollNval.has event = false := by
        rintro event (rfl | rfl | rfl)
        · decide
        · decide
        · decide
      rw [readinessAgrees_congr vfs caller io (by rw [hpoll, Option.map_none, Option.getD_none,
          hnval _ (Or.inl rfl)]) (by rw [hpoll, Option.map_none, Option.getD_none,
          hnval _ (Or.inr (Or.inl rfl))]) (by rw [hpoll, Option.map_none, Option.getD_none,
          hnval _ (Or.inr (Or.inr rfl))]) hreads hwrite hdata]
      simp
  | some so =>
      rw [hsocket, Option.map_some, Option.getD_some, eventsIf_socket] at hpoll
      rw [readinessAgrees_congr vfs caller io (by rw [hpoll, has_eventsIf_in])
        (by rw [hpoll, has_eventsIf_out]) (by rw [hpoll, has_eventsIf_data]) hreads hwrite hdata]
      simp only [Bool.or_eq_true, decide_eq_true_eq, List.length_pos_iff]

theorem readinessAgrees_file (hfd : toFd fd = some f) (htype : (io.fds f).type = .vfs)
    (count : ℕ) (byte : UInt8) :
    ReadinessAgrees vfs caller io fd count byte ↔ FileConsistent vfs caller io f count byte := by
  have hreads := readsAtOnce_file vfs io hfd (Or.inr htype) count
  have hdata := dataAtOnce_file vfs io hfd (Or.inr htype) count
  have hval : fd = f.val := by
    unfold toFd at hfd
    split at hfd
    · cases hfd
      dsimp only
      omega
    · cases hfd
  have hpoll : fdPollRevents io fd =
      if fd = 1 ∨ fd = 2 then pollOut ||| pollWrNorm
      else if 0 < (io.fds f).flags ∨ (io.fds f).node ≠ none then
        pollIn ||| pollRdNorm ||| pollOut ||| pollWrNorm
      else pollNval := by
    unfold fdPollRevents
    rw [hfd]
    dsimp only
    rw [htype]
  have hconsole : (fd = 1 ∨ fd = 2) ↔ (f.val = 1 ∨ f.val = 2) := by omega
  unfold FileConsistent
  by_cases hterminal : fd = 1 ∨ fd = 2
  · rw [if_pos hterminal] at hpoll
    rw [if_pos (hconsole.mp hterminal)]
    have hwrite : WriteAccepted vfs caller io fd byte := by
      have hbool : isConsole fd (io.fds f).type = true := by
        rw [htype]
        rcases hterminal with rfl | rfl
        · rfl
        · rfl
      refine ⟨io, ?_⟩
      unfold kSysWrite
      rw [hfd]
      dsimp only
      rw [hbool, if_pos rfl]
      rfl
    rw [readinessAgrees_congr vfs caller io
      (by rw [hpoll, (by decide : (pollOut ||| pollWrNorm).has pollIn = false)])
      (by rw [hpoll, (by decide : (pollOut ||| pollWrNorm).has pollOut = true)])
      (by rw [hpoll, (by decide : (pollOut ||| pollWrNorm).has (pollIn ||| pollHup) = false)])
      hreads (iff_true_intro hwrite) hdata]
    simp
  · rw [if_neg hterminal] at hpoll
    rw [if_neg fun h => hterminal (hconsole.mpr h)]
    have hnot : isConsole fd (io.fds f).type = false := by
      rw [isConsole, Bool.and_eq_false_iff]
      obtain ⟨hone, htwo⟩ := not_or.mp hterminal
      refine Or.inl ?_
      rw [Bool.or_eq_false_iff]
      exact ⟨beq_eq_false_iff_ne.mpr hone, beq_eq_false_iff_ne.mpr htwo⟩
    have hwrite : WriteAccepted vfs caller io fd byte ↔
        FileTakesByte vfs caller io (io.fds f) byte := by
      have htake : ([byte] : List UInt8).take (([byte] : List UInt8).length % 2 ^ 32) = [byte] :=
        rfl
      rw [← fileTakesByte_iff, WriteAccepted]
      unfold kSysWrite sysWrite
      rw [hfd]
      dsimp only
      rw [hnot, htake, htype]
      rfl
    by_cases hopen : 0 < (io.fds f).flags ∨ (io.fds f).node ≠ none
    · rw [if_pos hopen] at hpoll
      have hall : ∀ event, event = pollIn ∨ event = pollOut ∨ event = pollIn ||| pollHup →
          (pollIn ||| pollRdNorm ||| pollOut ||| pollWrNorm).has event = true := by
        rintro event (rfl | rfl | rfl)
        · decide
        · decide
        · decide
      rw [readinessAgrees_congr vfs caller io (by rw [hpoll, hall _ (Or.inl rfl)])
        (by rw [hpoll, hall _ (Or.inr (Or.inl rfl))])
        (by rw [hpoll, hall _ (Or.inr (Or.inr rfl))]) hreads hwrite hdata]
      simp [hopen]
    · rw [if_neg hopen] at hpoll
      have hclosed : ¬ FileHasData vfs io (io.fds f) count := by
        obtain ⟨hflags, hnode⟩ := not_or.mp hopen
        rw [not_not] at hnode
        unfold FileHasData
        rw [if_neg hflags, hnode]
        rintro ⟨node, hnone, _⟩
        cases hnone
      rw [readinessAgrees_congr vfs caller io
        (by rw [hpoll, (by decide : pollNval.has pollIn = false)])
        (by rw [hpoll, (by decide : pollNval.has pollOut = false)])
        (by rw [hpoll, (by decide : pollNval.has (pollIn ||| pollHup) = false)])
        hreads hwrite hdata]
      simp [hopen, hclosed]

theorem readinessAgrees_none (hfd : toFd fd = none) (count : ℕ) (byte : UInt8) :
    ReadinessAgrees vfs caller io fd count byte := by
  have hpoll : fdPollRevents io fd = pollNval := by
    unfold fdPollRevents
    rw [hfd]
  have hread : sysRead vfs io fd count = some io.fail := by
    unfold sysRead
    rw [hfd]
  refine ⟨?_, ?_, ?_⟩
  · rw [hpoll]
    exact fun h => absurd h (by decide)
  · rw [hpoll]
    exact fun h => absurd h (by decide)
  · rintro ⟨transfer, htransfer, hret⟩
    rw [hread] at htransfer
    cases htransfer
    exact absurd hret (by decide : ¬ (0 : ℤ) ≤ -1)

/-- Readiness agrees with the calls exactly where each kind of descriptor is consistent. -/
theorem readinessAgrees_iff {count : ℕ} (hcount : 1 ≤ count) (byte : UInt8) :
    ReadinessAgrees vfs caller io fd count byte ↔ Consistent vfs caller io fd count byte := by
  unfold Consistent
  cases hfd : toFd fd with
  | none =>
      apply iff_of_true (readinessAgrees_none vfs caller io hfd count byte)
      exact nofun
  | some f =>
      simp only [Option.some.injEq, forall_eq']
      cases htype : (io.fds f).type with
      | pipe => exact readinessAgrees_pipe vfs caller io hfd htype count byte
      | pty => exact readinessAgrees_pty vfs caller io hfd htype hcount byte
      | socket => exact readinessAgrees_socket vfs caller io hfd htype count byte
      | vfs => exact readinessAgrees_file vfs caller io hfd htype count byte

end Kinds

/-! ## A line that is being typed -/

def noVfs : Vfs := ⟨fun _ _ => (-1, []), fun _ _ => -1⟩

def rootCaller : Caller := ⟨Filesystem.rootSlot, 0, true⟩

/-- The tables at boot. -/
def bootIo : Io where
  fds := fun _ => FdSlot.zero
  pipes := fun _ => ⟨zeroRing (by decide), 0, 0⟩
  ptys := fun _ => Pty.zero
  sockets := fun _ => none
  files := Filesystem.initialTable

def masterFd : Fin maxFds := ⟨3, by decide⟩

def slaveFd : Fin maxFds := ⟨4, by decide⟩

/-- A pseudo-terminal is open at the descriptors 3 and 4. -/
def terminalIo : Io := (sysOpenpty bootIo).2

/-- The letter `a` has been typed. -/
def typedIo : Io := ((kSysWrite noVfs terminalIo rootCaller 3 [97]).map Prod.snd).getD bootIo

/-- Nothing has been typed, and nothing is reported. -/
theorem readinessAgrees_terminal : ReadinessAgrees noVfs rootCaller terminalIo 4 1 97 := by
  apply (readinessAgrees_iff noVfs rootCaller terminalIo (Nat.le_refl 1) 97).mpr
  intro f hf
  have hslave : f = slaveFd := by
    have hfd : toFd 4 = some slaveFd := by decide
    exact Option.some.inj (hf.symm.trans hfd)
  subst hslave
  have htype : (terminalIo.fds slaveFd).type = .pty := by decide +kernel
  have hline : (terminalIo.ptys (terminalIo.fds slaveFd).pty).line = [] := by decide +kernel
  have hrefs : (terminalIo.ptys (terminalIo.fds slaveFd).pty).peerRefs
      (terminalIo.fds slaveFd).isUpperEnd ≠ 0 := by decide +kernel
  have hraw : (terminalIo.ptys (terminalIo.fds slaveFd).pty).raw = false := by decide +kernel
  rw [htype]
  intro _
  refine ⟨fun _ => iff_of_false (fun h => h.2 hline) (fun h => hrefs h.2), fun _ h => ?_⟩
  rw [hraw] at h
  cases h

/-- The line that is typed at the master is reported to the slave, whose read goes to sleep. -/
theorem not_readinessAgrees_typed :
    (sysOpenpty bootIo).1 = some (masterFd, slaveFd) ∧
      (kSysWrite noVfs terminalIo rootCaller 3 [97]).map Prod.fst = some 1 ∧
      (fdPollRevents typedIo 4).has pollIn = true ∧
      (sysRead noVfs typedIo 4 1).isNone = true ∧
      ¬ ReadinessAgrees noVfs rootCaller typedIo 4 1 97 := by
  have hreport : (fdPollRevents typedIo 4).has pollIn = true := by decide +kernel
  have hsleep : (sysRead noVfs typedIo 4 1).isNone = true := by decide +kernel
  refine ⟨by decide +kernel, by decide +kernel, hreport, hsleep, ?_⟩
  intro h
  obtain ⟨transfer, htransfer, _⟩ := h.readable hreport
  rw [htransfer] at hsleep
  cases hsleep

end EigenOS.Descriptors
