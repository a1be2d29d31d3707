import EigenOS.Descriptors.DataPath
import EigenOS.Tasking.Processes

/-!
# The calls for ported programs

`sys_fork`, `sys_execve` and the file, terminal and signal calls of `task.c` that follow
them, each with the value that it returns and what it stores for its caller.
-/

namespace EigenOS.Posix

open EigenOS.Descriptors (Io Pty Transfer Vfs toInt)
open EigenOS.Filesystem (Caller CString FileNode Slot Table cString slash slotAt)
open EigenOS.Tasking (FdType Kernel maxFds maxTasks toFd)

/-! The error codes of `eigen.h`. -/

def eigenErrNoEnt : ℤ := -2
def eigenErrNoMem : ℤ := -3
def eigenErrInval : ℤ := -4

def eBadF : ℤ := 9

def nsig : ℕ := 32

/-- What these calls read of the kernel.  `io` has the descriptors of the current task, and
the rest is from its task slot. -/
structure System where
  kernel : Kernel
  io : Io
  cwd : Slot
  fsBase : UInt64
  sigHandlers : Fin nsig → UInt64

/-! ## Processes -/

/-- `sys_fork`; `copied` says whether stack and address space could be made. -/
def sysFork (k : Kernel) (copied : Bool) : ℤ × Kernel :=
  match k.current with
  | none => (-1, k)
  | some cur =>
      if (k.tasks cur).ring ≠ .ring3 then (-1, k)
      else
        match k.freeTask with
        | none => (-eigenErrNoMem, k)
        | some _ =>
            (if copied then (k.nextTaskId : ℤ) else -eigenErrNoMem, Tasking.sysFork k cur copied)

/-- What `sys_execve` is given: page tables, the pages of the stack, and the entry that
`elf_load` finds in an image. -/
structure Resources where
  pageTables : Bool
  userStack : Bool
  elfLoad : List UInt8 → Option UInt64

/-- The bytes that `sys_execve` reads of a file. -/
def imageOf (file : FileNode) : List UInt8 := (file.data.getD []).take file.size.toNat

/-- A call of `fs_get_node` for the size. -/
def nodeSize (file : FileNode) : ℤ := if file.inUse then file.size else 0

def maxImage : ℤ := 32 * 1024 * 1024

/-- The size of `elfbuf`. -/
def stagingSize : ℤ := 8 * 1024 * 1024

/-- The last part of `sys_execve`.  The page tables of the task are replaced before the image is
looked at. -/
def startImage (resources : Resources) (image : List UInt8) : Option (ℤ × Option UInt64) :=
  if resources.pageTables = false then some (-eigenErrNoMem, none)
  else
    match resources.elfLoad image with
    | none => some (-eigenErrNoEnt, none)
    | some entry => if resources.userStack then some (0, some entry) else none

/-- `sys_execve` for a file that is found, with the entry of the image that is started; `none`
writes past the staging buffer, or to a stack that is not there. -/
def execNode (files : Table) (resources : Resources) (idx : Slot) :
    Option (ℤ × Option UInt64) :=
  let size := nodeSize (files idx)
  if size ≤ 0 ∨ maxImage < size then some (-eigenErrNoMem, none)
  else if stagingSize < size then none
  else if (Descriptors.fsReadAt files idx.val size 0).1 ≠ size then some (-eigenErrNoEnt, none)
  else startImage resources (imageOf (files idx))

/-- The path that `sys_execve` looks up: a copy in a buffer. -/
def execPath (path : CString) : CString :=
  ⟨path.bytes.take 255, fun h => path.noNul (List.mem_of_mem_take h)⟩

def sysExecve (sys : System) (resources : Resources) (path : Option CString) :
    Option (ℤ × Option UInt64) :=
  match sys.kernel.current, path with
  | some cur, some path =>
      if (sys.kernel.tasks cur).ring ≠ .ring3 ∨ path.bytes = [] then some (-eigenErrInval, none)
      else
        match Filesystem.fsResolveImpl sys.io.files sys.cwd (execPath path) with
        | none => some (-eigenErrNoEnt, none)
        | some idx => execNode sys.io.files resources idx
  | _, _ => some (-eigenErrInval, none)

/-! ## File status -/

/-- `struct eigen_kstat`. -/
structure KStat where
  dev : ℕ
  ino : ℕ
  nlink : ℕ
  mode : ℕ
  uid : ℕ
  gid : ℕ
  rdev : ℕ
  size : ℕ
  blksize : ℕ
  blocks : ℕ
  atim : ℕ
  mtim : UInt32
  ctim : UInt32

def KStat.zero : KStat := ⟨0, 0, 0, 0, 0, 0, 0, 0, 0, 0, 0, 0, 0⟩

/-- `fill_kstat`. -/
def fillKstat (files : Table) (idx : ℕ) : KStat :=
  if Filesystem.maxFiles ≤ idx then KStat.zero
  else
    let file := files (slotAt idx)
    { KStat.zero with
      dev := 1
      ino := idx + 2
      nlink := 1
      mode := (if file.type = .directory then 0x4000 else 0x8000) ||| 0o755
      size := file.size.toNat
      blksize := 4096
      blocks := (file.size.toNat + 511) / 512
      mtim := file.modifiedTime
      ctim := file.modifiedTime }

/-- `sys_stat` and `sys_lstat`; `out` says whether there is a buffer. -/
def sysStat (sys : System) (path : Option CString) (out : Bool) : ℤ × Option KStat :=
  match path with
  | none => (-eigenErrInval, none)
  | some path =>
      if out = false then (-eigenErrInval, none)
      else
        match Filesystem.fsResolveImpl sys.io.files sys.cwd path with
        | none => (-eigenErrNoEnt, none)
        | some e => (0, some (fillKstat sys.io.files e.val))

def sysFstat (sys : System) (fd : ℤ) (out : Bool) : ℤ × Option KStat :=
  match sys.kernel.current, toFd fd with
  | some _, some f =>
      if out = false then (-eigenErrInval, none)
      else if (sys.io.fds f).flags = 0 then (-eigenErrInval, none)
      else (0, some (fillKstat sys.io.files ((sys.io.fds f).flags - 1)))
  | _, _ => (-eigenErrInval, none)

def sysAccess (sys : System) (path : Option CString) : ℤ :=
  match path with
  | none => -eigenErrInval
  | some path =>
      if (Filesystem.fsResolveImpl sys.io.files sys.cwd path).isSome then 0 else -eigenErrNoEnt

/-! ## Directories -/

/-- The nodes below a directory, in slot order. -/
def children (files : Table) (dir : ℕ) : List Slot :=
  (List.finRange Filesystem.maxFiles).filter fun i =>
    decide (i ≠ Filesystem.rootSlot) && (files i).inUse && decide ((files i).parentDir = dir)

/-- `struct eigen_dirent64`. -/
structure Dirent where
  ino : ℕ
  off : ℕ
  type : ℕ
  name : List UInt8

def Dirent.reclen (d : Dirent) : ℕ := (19 + d.name.length + 1 + 7) / 8 * 8

theorem Dirent.stored_le_reclen (d : Dirent) : 19 + d.name.length + 1 ≤ d.reclen := by
  unfold Dirent.reclen
  omega

def direntOf (file : FileNode) (nth : ℕ) : Dirent where
  ino := nth + 2
  off := nth + 1
  type := if file.type = .directory then 4 else 8
  name := cString file.name

/-- The loop of `sys_getdents64`, with so much room left: the entries that it emits, and the
number of the child at which it stops. -/
def emitDirents (files : Table) : ℕ → ℕ → List Slot → List Dirent × ℕ
  | _, nth, [] => ([], nth)
  | room, nth, child :: rest =>
      let d := direntOf (files child) nth
      if d.name = [] then emitDirents files room (nth + 1) rest
      else if room < d.reclen then ([], nth)
      else
        let (more, last) := emitDirents files (room - d.reclen) (nth + 1) rest
        (d :: more, last)

/-- `sys_getdents64`; `out` says whether there is a buffer. -/
def sysGetdents64 (sys : System) (fd : ℤ) (out : Bool) (count : UInt32) :
    ℤ × List Dirent × Io :=
  match sys.kernel.current, toFd fd with
  | some _, some f =>
      let slot := sys.io.fds f
      if out = false then (-eigenErrInval, [], sys.io)
      else if slot.flags = 0 then (-eBadF, [], sys.io)
      else
        let (ds, last) := emitDirents sys.io.files count.toNat slot.offset
          ((children sys.io.files (slot.flags - 1)).drop slot.offset)
        ((ds.map Dirent.reclen).sum, ds, sys.io.setSlot f { slot with offset := last % 2 ^ 32 })
  | _, _ => (-eigenErrInval, [], sys.io)

def pwdMax : ℕ := Filesystem.maxFilename * 8

/-- The loop of `fs_pwd` that goes up, with the text so far backwards. -/
def pwdUp (files : Table) : ℕ → ℤ → List UInt8 → List UInt8
  | 0, _, text => text
  | rounds + 1, dir, text =>
      if dir ≤ 0 then text
      else
        let file := files (slotAt dir)
        let name := cString file.name
        if pwdMax ≤ text.length + name.length + 1 then text
        else pwdUp files rounds file.parentDir (text ++ name.reverse ++ [slash])

/-- `fs_pwd`, with the string that it stores. -/
def fsPwd (files : Table) (dir : Slot) (maxLen : ℤ) : ℤ × Option (List UInt8) :=
  if dir = Filesystem.rootSlot then (1, if 1 < maxLen then some [slash, 0] else none)
  else
    let copied := (pwdUp files pwdMax dir.val []).reverse.take (maxLen - 2).toNat
    (1 + copied.length, some (slash :: copied ++ [0]))

/-- An address, returned as a `long`. -/
def asLong (address : UInt64) : ℤ := address.toBitVec.toInt

def sysGetcwd (sys : System) (buf size : UInt64) : ℤ × Option (List UInt8) :=
  if buf = 0 ∨ size = 0 then (-eigenErrInval, none)
  else
    let (n, stored) := fsPwd sys.io.files sys.cwd (toInt size.toNat)
    (if 0 < n then asLong buf else -eigenErrInval, stored)

/-! ## Vectors -/

/-- A read that sleeps tries again when it is woken, with what its descriptors lead to then. -/
def readAwake (vfs : Vfs) (fd : ℤ) (count : ℕ) : Io → List Io → Option (Transfer × List Io)
  | io, woken =>
      match Descriptors.sysRead vfs io fd count, woken with
      | some transfer, woken => some (transfer, woken)
      | none, [] => none
      | none, io :: woken => readAwake vfs fd count io woken

/-- The loop of `sys_readv`; `none` still sleeps. -/
def readVectors (vfs : Vfs) (fd : ℤ) :
    Io → List Io → ℤ → List UInt64 → Option (ℤ × List UInt8 × Io)
  | io, _, total, [] => some (total, [], io)
  | io, woken, total, len :: rest =>
      match readAwake vfs fd len.toUInt32.toNat io woken with
      | none => none
      | some (transfer, woken) =>
          if transfer.ret < 0 then
            some (if total ≠ 0 then total else transfer.ret, [], transfer.io)
          else if transfer.ret < len.toNat then
            some (total + transfer.ret, transfer.bytes, transfer.io)
          else
            (readVectors vfs fd transfer.io woken (total + transfer.ret) rest).map
              fun (ret, bytes, io) => (ret, transfer.bytes ++ bytes, io)

/-- `sys_readv`; `none` for the vectors is a null pointer, and no vectors are a count that is
not positive. -/
def sysReadv (vfs : Vfs) (io : Io) (woken : List Io) (fd : ℤ) (iov : Option (List UInt64)) :
    Option (ℤ × List UInt8 × Io) :=
  match iov with
  | none => some (-eigenErrInval, [], io)
  | some [] => some (-eigenErrInval, [], io)
  | some (len :: rest) => readVectors vfs fd io woken 0 (len :: rest)

/-- The loop of `sys_writev`, over the bytes of each vector. -/
def writeVectors (vfs : Vfs) (caller : Caller) (fd : ℤ) :
    Io → ℤ → List (List UInt8) → Option (ℤ × Io)
  | io, total, [] => some (total, io)
  | io, total, buf :: rest =>
      match Descriptors.sysWrite vfs io caller fd (buf.take (buf.length % 2 ^ 32)) with
      | none => none
      | some (n, io) =>
          if n < 0 then some (if total ≠ 0 then total else n, io)
          else if n < buf.length then some (total + n, io)
          else writeVectors vfs caller fd io (total + n) rest

def sysWritev (vfs : Vfs) (caller : Caller) (io : Io) (fd : ℤ)
    (iov : Option (List (List UInt8))) : Option (ℤ × Io) :=
  match iov with
  | none => some (-eigenErrInval, io)
  | some [] => some (-eigenErrInval, io)
  | some (buf :: rest) => writeVectors vfs caller fd io 0 (buf :: rest)

/-! ## Terminals -/

def tiocgwinsz : ℕ := 0x5413
def tiocgpgrp : ℕ := 0x540F
def tiocspgrp : ℕ := 0x5410

/-- What `sys_ioctl` stores. -/
inductive IoctlStore where
  | none
  | winsize (rows cols : UInt16)
  | group (pid : UInt32)

/-- `pty_get_winsize` over the defaults. -/
def ptyGetWinsize (pty : Pty) : UInt32 × UInt32 :=
  if pty.used then (pty.rows, pty.cols) else (24, 80)

def ptyGetFg (pty : Pty) : UInt32 := if pty.used then pty.fgPid else 0

def ptySetFg (pty : Pty) (pid : UInt32) : ℤ × Pty :=
  if pty.used then (0, { pty with fgPid := pid }) else (-1, pty)

/-- `sys_ioctl`; `arg` is the word at the argument, `none` if it is null. -/
def sysIoctl (sys : System) (fd : ℤ) (req : ℕ) (arg : Option UInt32) : ℤ × IoctlStore × Io :=
  match sys.kernel.current, toFd fd with
  | some _, some f =>
      let slot := sys.io.fds f
      if slot.type ≠ .pty then (-eigenErrInval, .none, sys.io)
      else
        let pty := sys.io.ptys slot.pty
        if req = tiocgwinsz then
          if arg = none then (-eigenErrInval, .none, sys.io)
          else (0, .winsize (ptyGetWinsize pty).1.toUInt16 (ptyGetWinsize pty).2.toUInt16, sys.io)
        else if req = tiocgpgrp then
          if arg = none then (-eigenErrInval, .none, sys.io)
          else (0, .group (ptyGetFg pty), sys.io)
        else if req = tiocspgrp then
          let (ret, pty) := ptySetFg pty (arg.getD 0)
          (ret, .none, sys.io.setPty slot.pty pty)
        else (-eigenErrInval, .none, sys.io)
  | _, _ => (-eigenErrInval, .none, sys.io)

/-! ## Signals and the thread register -/

def toSignal (sig : ℤ) : Option (Fin nsig) :=
  if h : 0 < sig ∧ sig < nsig then some ⟨sig.toNat, by omega⟩ else none

/-- `sys_rt_sigaction`: the handler that is stored at `oact`, and the handlers after. -/
def sysRtSigaction (sys : System) (sig : ℤ) (act : Option UInt64) (oact : Bool) :
    ℤ × Option UInt64 × (Fin nsig → UInt64) :=
  match sys.kernel.current, toSignal sig with
  | some _, some s =>
      (0, if oact then some (sys.sigHandlers s) else none,
        match act with
        | some handler => Function.update sys.sigHandlers s handler
        | none => sys.sigHandlers)
  | _, _ => (-eigenErrInval, none, sys.sigHandlers)

def archSetFs : ℤ := 0x1002
def archGetFs : ℤ := 0x1003
def archGetGs : ℤ := 0x1004

/-- `sys_arch_prctl`: the word that is stored, and the base after. -/
def sysArchPrctl (sys : System) (code : ℤ) (addr : UInt64) : ℤ × Option UInt64 × UInt64 :=
  match sys.kernel.current with
  | none => (-1, none, sys.fsBase)
  | some _ =>
      if code = archSetFs then (0, none, addr)
      else if code = archGetFs then
        if addr = 0 then (-eigenErrInval, none, sys.fsBase)
        else (0, some sys.fsBase, sys.fsBase)
      else if code = archGetGs then
        if addr = 0 then (-eigenErrInval, none, sys.fsBase)
        else (0, some 0, sys.fsBase)
      else (-eigenErrInval, none, sys.fsBase)

end EigenOS.Posix
