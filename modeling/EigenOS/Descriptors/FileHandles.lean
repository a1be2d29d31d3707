import EigenOS.Library.Generations
import EigenOS.Syscalls.PosixCalls
import EigenOS.Syscalls.TreeCalls

/-!
# Handles on files

A descriptor of a file and a current directory hold the number of a slot in the node table.  Any
tasks make the calls, one after the other.
-/

namespace EigenOS.Descriptors

open EigenOS.Filesystem Function
open EigenOS.Generations
open EigenOS.Posix (children direntOf emitDirents nodeSize)
open EigenOS.Syscalls (Arg oCreat)
open EigenOS.Tasking (FdSlot FdType maxFds maxPipes maxPtys maxSockets toFd)

/-! ## The calls on descriptors -/

/-- What a closed end leaves of a pipe. -/
def dropPipeRef (pipe : Pipe) (write : Bool) : Pipe :=
  if write then { pipe with writerCount := pipe.writerCount - 1 }
  else { pipe with readerCount := pipe.readerCount - 1 }

/-- `pty_close`. -/
def ptyClose (pty : Pty) (master : Bool) : Pty :=
  if pty.used then
    let next : Pty := if master then { pty with masterRefs := pty.masterRefs - 1 }
      else { pty with slaveRefs := pty.slaveRefs - 1 }
    if next.masterRefs = 0 ∧ next.slaveRefs = 0 then Pty.zero else next
  else pty

/-- `sys_close` with a descriptor in range. -/
def closeFd (io : Io) (f : Fin maxFds) : Io :=
  let slot := { io.fds f with offset := 0 }
  if 0 < slot.flags then io.setSlot f { slot with flags := 0 }
  else
    let slot := { slot with node := none }
    match slot.type with
    | .pipe =>
        let emptied := { slot with type := .vfs, pipe := FdSlot.zero.pipe, flagsExtra := 0 }
        if 0 < slot.pipe.val then
          (io.setPipe slot.pipe (dropPipeRef (io.pipes slot.pipe) slot.isUpperEnd)).setSlot f
            emptied
        else io.setSlot f emptied
    | .pty =>
        (io.setPty slot.pty (ptyClose (io.ptys slot.pty) slot.isUpperEnd)).setSlot f
          { slot with type := .vfs, pty := FdSlot.zero.pty, flagsExtra := 0 }
    | .socket | .vfs => io.setSlot f slot

def sysClose (io : Io) (fd : ℤ) : Io :=
  match toFd fd with
  | none => io
  | some f => closeFd io f

/-- `sys_lseek`; the sum is an `int`. -/
def sysLseek (io : Io) (fd offset whence : ℤ) : ℤ × Io :=
  match toFd fd with
  | none => (-1, io)
  | some f =>
      let slot := io.fds f
      if slot.flags = 0 then (-1, io)
      else
        let base :=
          if whence = 1 then toInt slot.offset
          else if whence = 2 then nodeSize (io.files (slotAt (slot.flags - 1 : ℕ)))
          else 0
        let off := Int.bmod (base + offset) (2 ^ 32)
        if off < 0 then (-1, io) else (off, io.setSlot f { slot with offset := off.toNat })

/-- `sys_getdents64` of a running task with a buffer. -/
def sysGetdents64 (io : Io) (fd : ℤ) (count : UInt32) : ℤ × Io :=
  match toFd fd with
  | none => (-Posix.eigenErrInval, io)
  | some f =>
      let slot := io.fds f
      if slot.flags = 0 then (-Posix.eBadF, io)
      else
        let (ds, last) := emitDirents io.files count.toNat slot.offset
          ((children io.files (slot.flags - 1)).drop slot.offset)
        ((ds.map Posix.Dirent.reclen).sum, io.setSlot f { slot with offset := last % 2 ^ 32 })

/-! ## The calls on paths -/

/-- `fs_open`; a null path is the root. -/
def fsOpen (files : Table) (cwd : Slot) : Option CString → Option Slot
  | none => some rootSlot
  | some path => fsResolveImpl files cwd path

/-- The directory that `fs_cd` goes to. -/
def fsCd (files : Table) (cwd : Slot) : Option CString → Option Slot
  | none => some rootSlot
  | some path =>
      if path.bytes = [] ∨ path.bytes = [slash] then some rootSlot
      else (fsResolveImpl files cwd path).filter fun e => (files e).type = .directory

/-- The loop of `fs_list`, with so much written already. -/
def listNames (files : Table) (maxLen : ℤ) : ℕ → List Slot → List UInt8
  | _, [] => []
  | written, child :: rest =>
      let name := cString (files child).name
      if maxLen < written + name.length + 2 then []
      else
        let entry := name ++ if (files child).type = .directory then [slash, 10] else [10]
        entry ++ listNames files maxLen (written + entry.length) rest

def fsList (files : Table) (dir : Slot) (maxLen : ℤ) : List UInt8 :=
  listNames files maxLen 0 (children files dir.val)

/-! ## The tasks together -/

/-- The node table and what the tasks hold of it.  `nodes` counts the nodes that each slot has
had; `fdNodes` and `cwdNodes` are those counts when a descriptor or a directory was obtained. -/
structure Handles (Task : Type*) where
  fs : FileSystem
  pipes : Fin maxPipes → Pipe
  ptys : Fin maxPtys → Pty
  sockets : Fin maxSockets → Option Socket
  fds : Task → Fin maxFds → FdSlot
  cwd : Task → Slot
  nodes : Slot → ℕ
  fdNodes : Task → Fin maxFds → ℕ
  cwdNodes : Task → ℕ

/-- No descriptor is open, and every task is at the root. -/
def Handles.booted (Task : Type*) (fs : FileSystem) : Handles Task where
  fs := fs
  pipes _ := ⟨zeroRing pipeBufSize_pos, 0, 0⟩
  ptys _ := Pty.zero
  sockets _ := none
  fds _ _ := FdSlot.zero
  cwd _ := rootSlot
  nodes _ := 0
  fdNodes _ _ := 0
  cwdNodes _ := 0

inductive HandleCall where
  /-- A call of `filesystem.c` that changes the node table. -/
  | file (call : FsCall)
  | sysOpen (path : Option CString) (flags : Arg)
  | sysClose (fd : ℤ)
  | sysRead (fd : ℤ) (count : ℕ)
  | sysWrite (fd : ℤ) (buf : List UInt8)
  | sysLseek (fd offset whence : ℤ)
  | sysGetdents64 (fd : ℤ) (count : UInt32)
  | fsCd (path : Option CString)
  | fsList (maxLen : ℤ)

/-- A call of a task, with the clock, the answer of `kmalloc`, and that of `vfs_open_path` for a
path below "/mnt/". -/
structure HandleEvent (Task : Type*) where
  task : Task
  now : UInt32
  allocated : Bool
  node : Option ℕ
  call : HandleCall

def inUse (files : Table) : Slot → Bool := fun slot => (files slot).inUse

section Calls

variable {Task : Type*} [DecidableEq Task]

def HandleEvent.caller (e : HandleEvent Task) (s : Handles Task) : Caller :=
  ⟨s.cwd e.task, e.now, e.allocated⟩

/-- The node table is changed by a call, which does not both delete and create. -/
def Handles.setFiles (s : Handles Task) (files : Table) : Handles Task :=
  { s with
    fs := { s.fs with files := files }
    nodes := advance (inUse s.fs.files) (inUse files) s.nodes }

/-- What a task reaches through its descriptors. -/
def Handles.io (s : Handles Task) (t : Task) : Io where
  fds := s.fds t
  pipes := s.pipes
  ptys := s.ptys
  sockets := s.sockets
  files := s.fs.files

def Handles.setIo (s : Handles Task) (t : Task) (io : Io) : Handles Task :=
  { s.setFiles io.files with
    pipes := io.pipes
    ptys := io.ptys
    sockets := io.sockets
    fds := update s.fds t io.fds }

def Handles.setCwd (s : Handles Task) (t : Task) (dir : Slot) : Handles Task :=
  { s with
    cwd := update s.cwd t dir
    cwdNodes := update s.cwdNodes t (s.nodes dir) }

/-- A descriptor of a task is one of a slot of the table. -/
def Handles.setFd (s : Handles Task) (t : Task) (f : Fin maxFds) (e : Slot) : Handles Task :=
  { s with
    fds := update s.fds t (update (s.fds t) f
      { s.fds t f with flags := e.val + 1, offset := 0 })
    fdNodes := update s.fdNodes t (update (s.fdNodes t) f (s.nodes e)) }

/-- The lookup at the start of `sys_open`, which creates a file if it is asked to. -/
def openNode (files : Table) (caller : Caller) (path : Option CString) (flags : Arg) :
    Table × Option Slot :=
  match fsOpen files caller.cwd path, path with
  | some e, _ => (files, some e)
  | none, none => (files, none)
  | none, some path =>
      if flags &&& oCreat ≠ 0 then
        let created := fsCreate files caller path
        (created.1, if 0 ≤ created.2 then some (slotAt created.2) else none)
      else (files, none)

/-- The descriptor that `sys_open` hands out. -/
def Handles.openSlot (s : Handles Task) (t : Task) : Option (Fin maxFds) :=
  Tasking.openSlot { Tasking.Task.zero with fds := s.fds t }

def Handles.sysOpen (s : Handles Task) (e : HandleEvent Task) (path : Option CString)
    (flags : Arg) : ℤ × Handles Task :=
  let found := openNode s.fs.files (e.caller s) path flags
  let opened := s.setFiles found.1
  match s.openSlot e.task with
  | none => (-1, opened)
  | some f =>
      match found.2, e.node with
      | some idx, _ => (f.val, opened.setFd e.task f idx)
      | none, some node =>
          (f.val, opened.setIo e.task ((opened.io e.task).setSlot f
            { opened.fds e.task f with node := some node, offset := 0 }))
      | none, none => (-1, opened)

/-- What a call returns and leaves; `none` is a call that does not return. -/
def Handles.act (vfs : Vfs) (s : Handles Task) (e : HandleEvent Task) :
    Option (ℤ × Handles Task) :=
  match e.call with
  | .file call => (call.run s.fs (e.caller s)).map fun reply => (reply.2, s.setFiles reply.1)
  | .sysOpen path flags => some (s.sysOpen e path flags)
  | .sysClose fd => some (0, s.setIo e.task (Descriptors.sysClose (s.io e.task) fd))
  | .sysRead fd count =>
      (Descriptors.sysRead vfs (s.io e.task) fd count).map fun transfer =>
        (transfer.ret, s.setIo e.task transfer.io)
  | .sysWrite fd buf =>
      (Descriptors.sysWrite vfs (s.io e.task) (e.caller s) fd buf).map fun written =>
        (written.1, s.setIo e.task written.2)
  | .sysLseek fd offset whence =>
      let sought := Descriptors.sysLseek (s.io e.task) fd offset whence
      some (sought.1, s.setIo e.task sought.2)
  | .sysGetdents64 fd count =>
      let listed := Descriptors.sysGetdents64 (s.io e.task) fd count
      some (listed.1, s.setIo e.task listed.2)
  | .fsCd path =>
      match Descriptors.fsCd s.fs.files (s.cwd e.task) path with
      | none => some (-1, s)
      | some dir => some (0, s.setCwd e.task dir)
  | .fsList maxLen => some ((Descriptors.fsList s.fs.files (s.cwd e.task) maxLen).length, s)

def HandleStep (vfs : Vfs) (s : Handles Task) (e : HandleEvent Task) (next : Handles Task) :
    Prop :=
  ∃ ret, s.act vfs e = some (ret, next)

end Calls

end EigenOS.Descriptors
