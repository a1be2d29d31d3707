import EigenOS.Filesystem.Operations
import EigenOS.Library.MachineInt
import EigenOS.Library.RingBuffer
import EigenOS.Tasking.Descriptors

/-!
# Reading and writing descriptors

`sys_read`, `k_sys_write` and what they call for pipes, pseudo-terminals and files, for the
descriptors of the running task.  A read that finds nothing goes to sleep and tries again;
it is one such try that is modelled.  The signal that a typed ^C sends changes no descriptor
and is left out.
-/

namespace EigenOS.Descriptors

open EigenOS.Filesystem (Table FileNode Caller)
open EigenOS.RingBuffer Function
open EigenOS.Tasking (FdSlot FdType maxFds maxPipes maxPtys maxSockets oNonblock toFd)

def pipeBufSize : ℕ := 4096

theorem pipeBufSize_pos : 0 < pipeBufSize := by decide
def ptyBufSize : ℕ := 8192
def ptyLineMax : ℕ := 512

/-- `struct pipe_buf`. -/
structure Pipe where
  ring : Ring UInt8 pipeBufSize
  writerCount : ℕ
  readerCount : ℕ

/-- `struct pty`.  `line` holds the first `line_len` bytes of the line that is edited. -/
structure Pty where
  used : Bool
  input : Ring UInt8 ptyBufSize
  line : List UInt8
  output : Ring UInt8 ptyBufSize
  echo : Bool
  raw : Bool
  cols : UInt32
  rows : UInt32
  masterRefs : ℕ
  slaveRefs : ℕ
  fgPid : UInt32

/-- What a descriptor shows of `struct socket`: the bytes received, and the state. -/
structure Socket where
  received : List UInt8
  established : Bool
  closed : Bool

/-- The operations of mounted file systems. -/
structure Vfs where
  read : ℕ → ℕ → ℤ × List UInt8
  write : ℕ → List UInt8 → ℤ

/-- The descriptors of the running task, and what they lead to. -/
structure Io where
  fds : Fin maxFds → FdSlot
  pipes : Fin maxPipes → Pipe
  ptys : Fin maxPtys → Pty
  sockets : Fin maxSockets → Option Socket
  files : Table

/-- A number as an `int`. -/
def toInt (n : ℕ) : ℤ := Int.bmod n (2 ^ 32)

theorem toInt_eq {n : ℕ} (h : n < 2 ^ 31) : toInt n = n := MachineInt.asInt_eq (by omega) (by omega)

theorem toInt_neg {n : ℕ} (hlow : 2 ^ 31 ≤ n) (hhigh : n < 2 ^ 32) : toInt n < 0 := by
  have heq : toInt n = n - 2 ^ 32 := MachineInt.asInt_of_le (by omega) (by omega)
  omega

/-- The result of a call, and the bytes that a read stores. -/
structure Transfer where
  ret : ℤ
  bytes : List UInt8
  io : Io

def Io.fail (io : Io) : Transfer := ⟨-1, [], io⟩

/-- Bit `O_NONBLOCK`. -/
def isNonblock (slot : FdSlot) : Bool := slot.flagsExtra &&& oNonblock ≠ 0

/-! ## Pipes -/

/-- `pipe_read`. -/
def pipeRead (pipe : Pipe) (count : ℕ) : ℤ × List UInt8 × Pipe :=
  if pipe.ring.head = pipe.ring.tail then
    if pipe.writerCount = 0 then (0, [], pipe) else (-1, [], pipe)
  else
    let n := min pipe.ring.avail count
    (n, pipe.ring.peek n, { pipe with ring := pipe.ring.drop n })

/-- `pipe_write`. -/
def pipeWrite (pipe : Pipe) (buf : List UInt8) : ℤ × Pipe :=
  if pipe.readerCount = 0 then (-1, pipe)
  else
    let n := min pipe.ring.room buf.length
    (n, { pipe with ring := pipe.ring.putAll (buf.take n) })

/-! ## Pseudo-terminals -/

/-- `pty_commit_line`. -/
def ptyCommitLine (pty : Pty) : Pty :=
  if pty.input.room < pty.line.length + 1 then pty
  else { pty with input := pty.input.putAll (pty.line ++ [10]), line := [] }

def ptyEcho (pty : Pty) (bytes : List UInt8) : Pty :=
  if pty.echo then { pty with output := pty.output.putAll bytes } else pty

/-- `pty_erase_char`. -/
def ptyEraseChar (pty : Pty) : Pty :=
  if pty.line = [] then pty
  else ptyEcho { pty with line := pty.line.dropLast } [8, 32, 8]

/-- The line discipline for one byte. -/
def ptyInputByte (pty : Pty) (c : UInt8) : Pty :=
  if c = 13 ∨ c = 10 then ptyCommitLine (ptyEcho pty [13, 10])
  else if c = 8 ∨ c = 127 then ptyEraseChar pty
  else if c = 3 then ptyEcho { pty with line := [] } [94, 67, 13, 10]
  else if c = 4 then
    if pty.line = [] then
      let pty := ptyEcho pty [13, 10]
      { pty with input := pty.input.put 10 }
    else ptyCommitLine pty
  else if 32 ≤ c ∧ c < 127 then
    ptyEcho (if pty.line.length < ptyLineMax - 1 then { pty with line := pty.line ++ [c] }
      else pty) [c]
  else pty

/-- `pty_input`. -/
def ptyInput (pty : Pty) (buf : List UInt8) : Pty :=
  if pty.raw then { pty with input := pty.input.putAll buf } else buf.foldl ptyInputByte pty

/-- The ring that an end reads, and the references to the other end. -/
def Pty.source (pty : Pty) (master : Bool) : Ring UInt8 ptyBufSize :=
  if master then pty.output else pty.input

def Pty.peerRefs (pty : Pty) (master : Bool) : ℕ :=
  if master then pty.slaveRefs else pty.masterRefs

def Pty.dropSource (pty : Pty) (master : Bool) (n : ℕ) : Pty :=
  if master then { pty with output := pty.output.drop n }
  else { pty with input := pty.input.drop n }

/-- One try of `pty_read`; `none` goes to sleep. -/
def ptyRead (pty : Pty) (master : Bool) (count : ℕ) (nonblock : Bool) :
    Option (ℤ × List UInt8 × Pty) :=
  if pty.used = false then some (-1, [], pty)
  else
    let n := min (pty.source master).avail (min count 4096)
    if 0 < n then some (n, (pty.source master).peek n, pty.dropSource master n)
    else if nonblock then some (-1, [], pty)
    else if pty.peerRefs master = 0 then some (0, [], pty)
    else none

/-- The bytes that cooked output makes of a byte. -/
def onlcr (c : UInt8) : List UInt8 := if c = 10 then [13, 10] else [c]

/-- `pty_write`. -/
def ptyWrite (pty : Pty) (master : Bool) (buf : List UInt8) : ℤ × Pty :=
  if pty.used = false then (-1, pty)
  else if master then
    (toInt buf.length, if 0 ≤ toInt buf.length then ptyInput pty buf else pty)
  else if pty.raw = false then
    (toInt buf.length, { pty with output := pty.output.putAll (buf.flatMap onlcr) })
  else
    let wrote := min pty.output.room buf.length
    (if wrote = 0 then -1 else wrote, { pty with output := pty.output.putAll (buf.take wrote) })

/-! ## Files -/

/-- `fs_read_at`. -/
def fsReadAt (files : Table) (fd : ℕ) (count offset : ℤ) : ℤ × List UInt8 :=
  if Filesystem.maxFiles ≤ fd then (-1, [])
  else
    let file := files (Filesystem.slotAt fd)
    if file.inUse = false then (-1, [])
    else
      let offset := max offset 0
      if file.size ≤ offset then (0, [])
      else
        let n := min count (file.size - offset)
        (n, ((file.data.getD []).drop offset.toNat).take n.toNat)

/-! ## The calls -/

section Calls

variable (vfs : Vfs) (io : Io)

def Io.setSlot (f : Fin maxFds) (slot : FdSlot) : Io :=
  { io with fds := update io.fds f slot }

def Io.setPipe (p : Fin maxPipes) (pipe : Pipe) : Io :=
  { io with pipes := update io.pipes p pipe }

def Io.setPty (p : Fin maxPtys) (pty : Pty) : Io :=
  { io with ptys := update io.ptys p pty }

/-- The last part of `sys_read`: a file, or a node of a mounted file system. -/
def fileRead (f : Fin maxFds) (count : ℕ) : Transfer :=
  let slot := io.fds f
  if 0 < slot.flags then
    let (n, bytes) := fsReadAt io.files (slot.flags - 1) (toInt count) (toInt slot.offset)
    if 0 < n then
      ⟨n, bytes, io.setSlot f { slot with offset := (slot.offset + n.toNat) % 2 ^ 32 }⟩
    else ⟨n, bytes, io⟩
  else
    match slot.node with
    | none => io.fail
    | some node => ⟨(vfs.read node count).1, (vfs.read node count).2, io⟩

/-- One try of `sys_read`; `none` goes to sleep. -/
def sysRead (fd : ℤ) (count : ℕ) : Option Transfer :=
  match toFd fd with
  | none => some io.fail
  | some f =>
      let slot := io.fds f
      match slot.type with
      | .pipe =>
          let (n, bytes, pipe) := pipeRead (io.pipes slot.pipe) count
          if 0 ≤ n then some ⟨n, bytes, io.setPipe slot.pipe pipe⟩
          else if isNonblock slot then some io.fail
          else none
      | .pty =>
          (ptyRead (io.ptys slot.pty) slot.isUpperEnd count (isNonblock slot)).map
            fun (n, bytes, pty) => ⟨n, bytes, io.setPty slot.pty pty⟩
      | .socket => some (fileRead vfs io f count)
      | .vfs => some (fileRead vfs io f count)

/-- The last part of `sys_write`; `none` is a write without a defined result. -/
def fileWrite (caller : Caller) (f : Fin maxFds) (buf : List UInt8) : Option (ℤ × Io) :=
  let slot := io.fds f
  if 0 < slot.flags then
    (Filesystem.fsWrite io.files caller (slot.flags - 1 : ℕ) buf (toInt buf.length)).map
      fun (files, n) => (n, { io with files := files })
  else
    match slot.node with
    | none => some (-1, io)
    | some node => some (vfs.write node buf, io)

def sysWrite (caller : Caller) (fd : ℤ) (buf : List UInt8) : Option (ℤ × Io) :=
  match toFd fd with
  | none => some (-1, io)
  | some f =>
      let slot := io.fds f
      match slot.type with
      | .pipe =>
          if slot.flagsExtra = 0 then some (-1, io)
          else
            let (n, pipe) := pipeWrite (io.pipes slot.pipe) buf
            some (n, io.setPipe slot.pipe pipe)
      | .pty =>
          let (n, pty) := ptyWrite (io.ptys slot.pty) slot.isUpperEnd buf
          some (n, io.setPty slot.pty pty)
      | .socket => fileWrite vfs io caller f buf
      | .vfs => fileWrite vfs io caller f buf

/-- Whether `k_sys_write` goes to the console: descriptors 1 and 2, unless they are a pipe, a
pseudo-terminal or a socket. -/
def isConsole (fd : ℤ) (type : FdType) : Bool :=
  (fd == 1 || fd == 2) && type == .vfs

/-- `k_sys_write`. -/
def kSysWrite (caller : Caller) (fd : ℤ) (buf : List UInt8) : Option (ℤ × Io) :=
  match toFd fd with
  | none => some (-1, io)
  | some f =>
      if isConsole fd (io.fds f).type then some (min buf.length 255, io)
      else sysWrite vfs io caller fd (buf.take (buf.length % 2 ^ 32))

end Calls

/-! ## What a call may touch -/

section Touches

variable {vfs : Vfs} {io : Io} {fd : ℤ} {f : Fin maxFds}

theorem fileRead_io (count : ℕ) :
    (fileRead vfs io f count).io = io ∨
      ∃ offset, (fileRead vfs io f count).io =
        io.setSlot f { io.fds f with offset := offset } := by
  unfold fileRead
  dsimp only
  split
  · split
    · exact Or.inr ⟨_, rfl⟩
    · exact Or.inl rfl
  · split
    · exact Or.inl rfl
    · exact Or.inl rfl

theorem sysRead_io {count : ℕ} {transfer : Transfer}
    (hread : sysRead vfs io fd count = some transfer) :
    transfer.io = io ∨ (∃ p pipe, transfer.io = io.setPipe p pipe) ∨
      (∃ p pty, transfer.io = io.setPty p pty) ∨
      ∃ f offset, transfer.io = io.setSlot f { io.fds f with offset := offset } := by
  have hfile : ∀ f, transfer = fileRead vfs io f count → transfer.io = io ∨
      (∃ p pipe, transfer.io = io.setPipe p pipe) ∨
      (∃ p pty, transfer.io = io.setPty p pty) ∨
      ∃ f offset, transfer.io = io.setSlot f { io.fds f with offset := offset } := by
    rintro f rfl
    rcases fileRead_io count with h | ⟨offset, h⟩
    · exact Or.inl h
    · exact Or.inr (Or.inr (Or.inr ⟨f, offset, h⟩))
  unfold sysRead at hread
  cases hfd : toFd fd with
  | none =>
      rw [hfd] at hread
      cases hread
      exact Or.inl rfl
  | some f =>
      rw [hfd] at hread
      dsimp only at hread
      cases htype : (io.fds f).type with
      | pipe =>
          rw [htype] at hread
          dsimp only at hread
          split_ifs at hread
          · cases hread
            exact Or.inr (Or.inl ⟨_, _, rfl⟩)
          · cases hread
            exact Or.inl rfl
      | pty =>
          rw [htype] at hread
          obtain ⟨found, _, rfl⟩ := Option.map_eq_some_iff.mp hread
          exact Or.inr (Or.inr (Or.inl ⟨_, _, rfl⟩))
      | socket | vfs =>
          rw [htype] at hread
          exact hfile f (Option.some.inj hread).symm

theorem fileWrite_io {caller : Caller} {buf : List UInt8} {written : ℤ × Io}
    (hwrite : fileWrite vfs io caller f buf = some written) :
    written.2 = io ∨ ∃ index reply,
      Filesystem.fsWrite io.files caller index buf (toInt buf.length) = some reply ∧
        written.2 = { io with files := reply.1 } := by
  unfold fileWrite at hwrite
  dsimp only at hwrite
  split at hwrite
  · obtain ⟨reply, hreply, rfl⟩ := Option.map_eq_some_iff.mp hwrite
    exact Or.inr ⟨_, reply, hreply, rfl⟩
  · split at hwrite
    · cases hwrite
      exact Or.inl rfl
    · cases hwrite
      exact Or.inl rfl

theorem sysWrite_io {caller : Caller} {buf : List UInt8} {written : ℤ × Io}
    (hwrite : sysWrite vfs io caller fd buf = some written) :
    written.2 = io ∨ (∃ p pipe, written.2 = io.setPipe p pipe) ∨
      (∃ p pty, written.2 = io.setPty p pty) ∨
      ∃ index reply,
        Filesystem.fsWrite io.files caller index buf (toInt buf.length) = some reply ∧
          written.2 = { io with files := reply.1 } := by
  unfold sysWrite at hwrite
  cases hfd : toFd fd with
  | none =>
      rw [hfd] at hwrite
      cases hwrite
      exact Or.inl rfl
  | some f =>
      rw [hfd] at hwrite
      dsimp only at hwrite
      cases htype : (io.fds f).type with
      | pipe =>
          rw [htype] at hwrite
          dsimp only at hwrite
          split_ifs at hwrite
          · cases hwrite
            exact Or.inl rfl
          · cases hwrite
            exact Or.inr (Or.inl ⟨_, _, rfl⟩)
      | pty =>
          rw [htype] at hwrite
          cases hwrite
          exact Or.inr (Or.inr (Or.inl ⟨_, _, rfl⟩))
      | socket | vfs =>
          rw [htype] at hwrite
          rcases fileWrite_io hwrite with h | h
          · exact Or.inl h
          · exact Or.inr (Or.inr (Or.inr h))

end Touches

/-! ## Pseudo-terminals are opened -/

def zeroRing {size : ℕ} (h : 0 < size) : Ring UInt8 size := ⟨⟨0, h⟩, ⟨0, h⟩, fun _ => 0⟩

def Pty.zero : Pty where
  used := false
  input := zeroRing (by decide)
  line := []
  output := zeroRing (by decide)
  echo := false
  raw := false
  cols := 0
  rows := 0
  masterRefs := 0
  slaveRefs := 0
  fgPid := 0

/-- `alloc_fd`. -/
def allocFd (io : Io) : Option (Fin maxFds) :=
  Tasking.allocFd { Tasking.Task.zero with fds := io.fds }

/-- `sys_openpty`: the descriptors of the master and the slave; `none` is `-1`. -/
def sysOpenpty (io : Io) : Option (Fin maxFds × Fin maxFds) × Io :=
  match Fin.find? fun i => !(io.ptys i).used with
  | none => (none, io)
  | some idx =>
      let pty := { Pty.zero with used := true, echo := true, cols := 80, rows := 24 }
      match allocFd io with
      | none => (none, io.setPty idx { pty with used := false })
      | some m =>
          let marked := io.setSlot m (Tasking.ptySlot (io.fds m) idx Tasking.ptyMaster)
          match allocFd marked with
          | none =>
              (none, (marked.setSlot m { marked.fds m with type := .vfs }).setPty idx
                { pty with used := false })
          | some s =>
              (some (m, s),
                (marked.setSlot s (Tasking.ptySlot (io.fds s) idx Tasking.ptySlave)).setPty idx
                  { pty with masterRefs := 1, slaveRefs := 1 })

end EigenOS.Descriptors
