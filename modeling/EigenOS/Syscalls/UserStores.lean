import EigenOS.Descriptors.Poll
import EigenOS.Syscalls.PosixCalls

/-!
# Results stored for a caller

Every call that stores a result through a pointer of its caller, with the check that it makes
of the pointer and the memory that it fills.
-/

namespace EigenOS.UserStores

open EigenOS.Descriptors (Current EpollLook Io Monitors PollFd PollLook Report Transfer Vfs)
open EigenOS.Filesystem (CString FileNode Slot Table)
open EigenOS.Posix (Dirent System eigenErrInval eigenErrNoEnt)

def userBase : ℕ := 0x1000
def userLimit : ℕ := 0x800000000000

/-- `user_ptr_ok`. -/
def userPtrOk (p : UInt64) : Bool := userBase ≤ p.toNat && p.toNat < userLimit

/-- The check that a call makes of a pointer. -/
inductive PtrCheck where
  | nonNull
  | belowLimit
  | userPtr

def PtrCheck.passes : PtrCheck → UInt64 → Bool
  | .nonNull, p => p ≠ 0
  | .belowLimit, p => p ≠ 0 && p.toNat < userLimit
  | .userPtr, p => userPtrOk p

/-- Memory that is filled from an address on. -/
structure Store where
  address : UInt64
  length : ℕ

/-- What a call asks for: pointers that must pass, with its result if one does not, and its
result and the memory that it fills if all do. -/
structure Request where
  checks : List (PtrCheck × UInt64)
  refusal : ℤ
  ret : ℤ
  stores : List Store

def Request.accepted (request : Request) : Bool :=
  request.checks.all fun (check, p) => check.passes p

/-- The result of a call, and the memory that it has filled. -/
structure Reply where
  ret : ℤ
  stores : List Store

def Request.reply (request : Request) : Reply :=
  if request.accepted then ⟨request.ret, request.stores⟩ else ⟨request.refusal, []⟩

/-- Nothing is stored. -/
def refuse (ret : ℤ) : Request := ⟨[], ret, ret, []⟩

/-! ## Descriptors -/

/-- `k_sys_read`. -/
def kSysRead (vfs : Vfs) (io : Io) (fd : ℤ) (buf : UInt64) (count : ℕ) : Option Request :=
  (Descriptors.sysRead vfs io fd count).map fun transfer =>
    ⟨[], 0, transfer.ret, [⟨buf, transfer.bytes.length⟩]⟩

/-- The loop of `sys_readv`, with a buffer for each vector. -/
def readvStores (vfs : Vfs) (fd : ℤ) :
    Io → List Io → ℤ → List (UInt64 × UInt64) → Option (ℤ × List Store)
  | _, _, total, [] => some (total, [])
  | io, woken, total, (base, len) :: rest =>
      match Posix.readAwake vfs fd len.toUInt32.toNat io woken with
      | none => none
      | some (transfer, woken) =>
          if transfer.ret < 0 then some (if total ≠ 0 then total else transfer.ret, [])
          else if transfer.ret < len.toNat then
            some (total + transfer.ret, [⟨base, transfer.bytes.length⟩])
          else
            (readvStores vfs fd transfer.io woken (total + transfer.ret) rest).map
              fun (ret, stores) => (ret, ⟨base, transfer.bytes.length⟩ :: stores)

def kSysReadv (vfs : Vfs) (io : Io) (woken : List Io) (fd : ℤ)
    (iov : Option (List (UInt64 × UInt64))) : Option Request :=
  match iov with
  | none => some (refuse (-eigenErrInval))
  | some [] => some (refuse (-eigenErrInval))
  | some (first :: rest) =>
      (readvStores vfs fd io woken 0 (first :: rest)).map fun (ret, stores) =>
        ⟨[], 0, ret, stores⟩

/-- The `revents` of each entry. -/
def kSysPoll (fdsU : UInt64) (fds : List PollFd) (looks : List PollLook) : Option Request :=
  (Descriptors.kSysPoll fdsU.toNat fds looks).map fun (ret, revents) =>
    ⟨[], 0, ret, (List.range revents.length).map fun i =>
      ⟨fdsU + UInt64.ofNat (8 * i + 6), 2⟩⟩

/-- `EPOLL_EPOLL_WAIT`. -/
def kSysEpollWait (start : Monitors) (cur : Current) (epid : ℤ) (out : UInt64) (maxevents : ℤ)
    (looks : List EpollLook) : Option Request :=
  match Descriptors.epollWait start cur epid maxevents looks with
  | .error errno => some (refuse errno)
  | .ok none => none
  | .ok (some (_, reports)) =>
      some ⟨[], 0, reports.length, (List.range reports.length).map fun n =>
        ⟨out + UInt64.ofNat (12 * n), 12⟩⟩

/-- `k_sys_pipe`; `made` is the outcome of `sys_pipe`. -/
def kSysPipe (pipefd : UInt64) (made : Bool) : Request :=
  if made then ⟨[(.userPtr, pipefd)], -Descriptors.eInval, 0, [⟨pipefd, 8⟩]⟩
  else refuse (if userPtrOk pipefd then -24 else -Descriptors.eInval)

def kSysOpenpty (fdsU : UInt64) (io : Io) : Request :=
  match (Descriptors.sysOpenpty io).1 with
  | none => refuse (-1)
  | some _ => ⟨[], 0, 0, [⟨fdsU, 8⟩]⟩

/-- `k_sys_wait4`; `child` is the task that is reaped, if the call comes back. -/
def kSysWait4 (status : UInt64) (child : Option ℤ) : Option Request :=
  child.map fun id => ⟨[], 0, id, if status = 0 then [] else [⟨status, 4⟩]⟩

/-! ## Files and terminals -/

/-- Where the entries of a listing are stored; the padding is left out. -/
def direntStores (buf : UInt64) : ℕ → List Dirent → List Store
  | _, [] => []
  | emitted, d :: rest =>
      ⟨buf + UInt64.ofNat emitted, 19 + d.name.length + 1⟩ ::
        direntStores buf (emitted + d.reclen) rest

def kSysGetdents64 (sys : System) (fd : ℤ) (buf : UInt64) (count : UInt32) : Request :=
  let (ret, entries, _) := Posix.sysGetdents64 sys fd (buf ≠ 0) count
  ⟨[], 0, ret, direntStores buf 0 entries⟩

/-- `sizeof(struct eigen_kstat)`. -/
def kstatSize : ℕ := 144

/-- `k_sys_stat` and `k_sys_lstat`. -/
def kSysStat (sys : System) (path : Option CString) (out : UInt64) : Request :=
  let (ret, stored) := Posix.sysStat sys path (out ≠ 0)
  ⟨[], 0, ret, if stored.isSome then [⟨out, kstatSize⟩] else []⟩

def kSysFstat (sys : System) (fd : ℤ) (out : UInt64) : Request :=
  let (ret, stored) := Posix.sysFstat sys fd (out ≠ 0)
  ⟨[], 0, ret, if stored.isSome then [⟨out, kstatSize⟩] else []⟩

def kSysGetcwd (sys : System) (buf size : UInt64) : Request :=
  let (ret, stored) := Posix.sysGetcwd sys buf size
  ⟨[], 0, ret, [⟨buf, (stored.getD []).length⟩]⟩

/-- `k_sys_ioctl`; `word` is what is at the argument. -/
def kSysIoctl (sys : System) (fd : ℤ) (req : ℕ) (arg : UInt64) (word : UInt32) : Request :=
  let (ret, stored, _) := Posix.sysIoctl sys fd req (if arg = 0 then none else some word)
  ⟨[], 0, ret,
    match stored with
    | .none => []
    | .winsize _ _ => [⟨arg, 8⟩]
    | .group _ => [⟨arg, 4⟩]⟩

/-- The fields of `struct utsname`. -/
def utsname : List String := ["EigenOS", "eigenos", "1.0.0-eigen", "#1 EIGEN", "x86_64", ""]

def kSysUname (buf : UInt64) : Request :=
  ⟨[(.nonNull, buf)], -eigenErrInval, 0, utsname.zipIdx.map fun (field, i) =>
    ⟨buf + UInt64.ofNat (65 * i), field.length + 1⟩⟩

/-! ## Signals, the thread register and the clock -/

def kSysRtSigaction (sys : System) (sig : ℤ) (act : Option UInt64) (oact : UInt64) : Request :=
  let (ret, stored, _) := Posix.sysRtSigaction sys sig act (oact ≠ 0)
  ⟨[], 0, ret, if stored.isSome then [⟨oact, 8⟩] else []⟩

def kSysRtSigprocmask (oldset size : UInt64) : Request :=
  ⟨[], 0, 0, if oldset ≠ 0 ∧ size ≠ 0 then [⟨oldset, size.toNat⟩] else []⟩

def kSysArchPrctl (sys : System) (code : ℤ) (addr : UInt64) : Request :=
  let (ret, stored, _) := Posix.sysArchPrctl sys code addr
  ⟨[], 0, ret, if stored.isSome then [⟨addr, 8⟩] else []⟩

def kSysGettimeofday (tv : UInt64) : Request := ⟨[(.nonNull, tv)], 0, 0, [⟨tv, 16⟩]⟩

def kSysClockGettime (tp : UInt64) : Request := ⟨[(.nonNull, tp)], 0, 0, [⟨tp, 16⟩]⟩

def eigenTimeGet : ℕ := 0

def kSysTime (op : ℕ) (a : UInt64) : Request :=
  if op ≠ eigenTimeGet then refuse eigenErrInval
  else ⟨[(.belowLimit, a)], eigenErrInval, 0, [⟨a, 24⟩]⟩

/-! ## Devices and windows -/

def kSysSysinfo (buf : UInt64) : Request := ⟨[(.belowLimit, buf)], eigenErrInval, 0, [⟨buf, 32⟩]⟩

def eigenErrBadScr : ℤ := -6

/-- `EIGEN_GFX_GETDIMS`. -/
def gfxGetdims (a b : UInt64) : Request :=
  ⟨[(.belowLimit, a), (.belowLimit, b)], eigenErrBadScr, 0, [⟨a, 4⟩, ⟨b, 4⟩]⟩

/-- `EIGEN_INPUT_MOUSE_DELTA`: a pointer that does not pass is left out. -/
def inputMouseDelta (a2 a3 a4 : UInt64) : Request :=
  ⟨[], 0, 0, ([a2, a3, a4].filter userPtrOk).map fun p => ⟨p, 4⟩⟩

/-- `EIGEN_WIN_POLL`; `queued` are the events that wait, if there is such a window. -/
def winPoll (b c : UInt64) (queued : Option ℕ) : Request :=
  if c = 0 then ⟨[(.belowLimit, b)], eigenErrInval, 0, []⟩
  else
    match queued with
    | none => ⟨[(.belowLimit, b)], eigenErrInval, -1, []⟩
    | some queued =>
        let n := min queued (min c.toNat 64)
        ⟨[(.belowLimit, b)], eigenErrInval, n, [⟨b, n * 20⟩]⟩

/-- `EIGEN_WIN_GETSIZE`. -/
def winGetsize (window : Bool) (b c : UInt64) : Request :=
  if window then ⟨[(.belowLimit, b), (.belowLimit, c)], eigenErrInval, 0, [⟨b, 4⟩, ⟨c, 4⟩]⟩
  else refuse eigenErrInval

def modloadMax : ℕ := 64 * 1024 * 1024

/-- `k_sys_modload`; `module` is the size of the module with that name. -/
def kSysModload (name dest maxbytes : UInt64) (module : Option ℕ) : Request :=
  let checks := [(PtrCheck.belowLimit, name), (PtrCheck.belowLimit, dest)]
  if maxbytes = 0 ∨ modloadMax < maxbytes.toNat then ⟨checks, eigenErrInval, eigenErrInval, []⟩
  else
    match module with
    | none => ⟨checks, eigenErrInval, eigenErrNoEnt, []⟩
    | some size =>
        ⟨checks, eigenErrInval, min size maxbytes.toNat, [⟨dest, min size maxbytes.toNat⟩]⟩

def eigenThemeCount : ℤ := 64

/-- The number of entries that `k_sys_gettheme` copies. -/
def themeEntries (b : ℤ) : ℕ := (if b < 1 then eigenThemeCount else min b eigenThemeCount).toNat

def kSysGettheme (a : UInt64) (b : ℤ) : Request :=
  ⟨[(.belowLimit, a)], eigenErrInval, themeEntries b, [⟨a, 4 * themeEntries b⟩]⟩

/-! ## The tree -/

/-- `EIGEN_FS_LIST`; `listing` is the length of what `fs_list` makes. -/
def fsList (a b : UInt64) (listing : ℕ) : Request :=
  if b = 0 ∨ 8192 < b.toNat then refuse eigenErrInval
  else ⟨[(.userPtr, a)], eigenErrInval, min listing b.toNat, [⟨a, min listing b.toNat⟩]⟩

/-- `EIGEN_FS_SIZE`; `node` is what the path leads to. -/
def fsSize (a b : UInt64) (node : Option FileNode) : Request :=
  let checks := [(PtrCheck.userPtr, a), (PtrCheck.userPtr, b)]
  match node with
  | none => ⟨checks, eigenErrInval, eigenErrNoEnt, []⟩
  | some _ => ⟨checks, eigenErrInval, 0, [⟨b, 4⟩]⟩

/-- `EIGEN_FS_STAT`.  The name is copied with the length of a name in the table, which is more
than the field has. -/
def fsStat (a b : UInt64) (node : Option FileNode) : Request :=
  let checks := [(PtrCheck.userPtr, a), (PtrCheck.userPtr, b)]
  match node with
  | none => ⟨checks, eigenErrInval, eigenErrNoEnt, []⟩
  | some file =>
      ⟨checks, eigenErrInval, 0,
        (if file.inUse then [⟨b, Filesystem.maxFilename⟩] else []) ++
          [⟨b + UInt64.ofNat 32, 12⟩]⟩

/-- `EIGEN_FS_PWD`. -/
def fsPwd (a b : UInt64) (files : Table) (cwd : Slot) : Request :=
  if b = 0 ∨ 1024 < b.toNat then refuse eigenErrInval
  else
    let n := min (Posix.fsPwd files cwd 1023).1.toNat b.toNat
    ⟨[(.userPtr, a)], eigenErrInval, n,
      [⟨a, n⟩, ⟨a + UInt64.ofNat (if n < b.toNat then n else b.toNat - 1), 1⟩]⟩

/-! ## Settings -/

/-- `EIGEN_SETTINGS_THEME_GET`; there are so many themes. -/
def settingsThemeGet (id : ℤ) (b : UInt64) (total : ℤ) : Request :=
  if id < 0 ∨ total ≤ id then refuse eigenErrInval
  else ⟨[(.userPtr, b)], eigenErrInval, 0, [⟨b, 24 + 36 * 4 + 4 + 4⟩]⟩

/-- `EIGEN_SETTINGS_WALL_GET`; there are so many wallpapers. -/
def settingsWallGet (i : ℤ) (b : UInt64) (count : ℤ) : Request :=
  if i < 0 ∨ count ≤ i then ⟨[(.userPtr, b)], eigenErrInval, 0, []⟩
  else ⟨[(.userPtr, b)], eigenErrInval, 1, [⟨b, 96 + 64 + 4 + 4⟩]⟩

/-- The argument of `EIGEN_SETTINGS_WALL_THUMB`. -/
structure ThumbArg where
  fb : ℤ
  fbw : ℤ
  boxX : ℤ
  boxY : ℤ
  boxW : ℤ
  boxH : ℤ

/-- An `int` that wraps. -/
def wrap (n : ℤ) : ℤ := Int.bmod n (2 ^ 32)

/-- The pixel at a place of the scaled picture. -/
def thumbStore (arg : ThumbArg) (dw dh : ℤ) (yy xx : ℕ) : Option Store :=
  let fx := wrap (arg.boxX + (arg.boxW - dw).tdiv 2 + xx)
  let fy := wrap (arg.boxY + (arg.boxH - dh).tdiv 2 + yy)
  if fx < 0 ∨ fy < 0 ∨ arg.fbw ≤ fx then none
  else some ⟨UInt64.ofInt (arg.fb + 4 * wrap (fy * arg.fbw + fx)), 4⟩

/-- `EIGEN_SETTINGS_WALL_THUMB`; `scaled` is the size at which the picture is drawn. -/
def settingsWallThumb (a : UInt64) (arg : ThumbArg) (scaled : Option (ℤ × ℤ)) : Request :=
  let checks := [(PtrCheck.userPtr, a), (PtrCheck.userPtr, UInt64.ofInt arg.fb)]
  if arg.boxW < 1 ∨ arg.boxH < 1 then ⟨checks, eigenErrInval, eigenErrInval, []⟩
  else
    match scaled with
    | none => ⟨checks, eigenErrInval, eigenErrNoEnt, []⟩
    | some (dw, dh) =>
        ⟨checks, eigenErrInval, 0, (List.range dh.toNat).flatMap fun yy =>
          (List.range dw.toNat).filterMap fun xx => thumbStore arg dw dh yy xx⟩

/-- `EIGEN_SETTINGS_WALL_THUMB_RAW`; `image` is the size of the thumbnail. -/
def settingsWallThumbRaw (b : UInt64) (image : Option (ℕ × ℕ)) : Request :=
  match image with
  | none => ⟨[(.userPtr, b)], eigenErrInval, eigenErrNoEnt, []⟩
  | some (width, height) =>
      ⟨[(.userPtr, b)], eigenErrInval, 0, [⟨b, width * height * 3⟩]⟩

/-- `EIGEN_SETTINGS_WALL_PATH`; `file` is the length of the path. -/
def settingsWallPath (a : UInt64) (b : ℤ) (file : ℕ) : Request :=
  ⟨[(.userPtr, a)], eigenErrInval, 0, [⟨a, min file (b - 1).toNat + 1⟩]⟩

/-! ## The network -/

/-- `EIGEN_NET_RECV`; `received` are the bytes that wait, if there is such a socket. -/
def netRecv (b c : UInt64) (received : Option ℕ) : Request :=
  match received with
  | none => refuse (-1)
  | some received =>
      let n := min c.toUInt32.toNat received
      ⟨[(.userPtr, b)], -1, n, [⟨b, n⟩]⟩

/-- `EIGEN_NET_RESOLVE`; `found` is the outcome of `dns_resolve`. -/
def netResolve (a b : UInt64) (found : Bool) : Request :=
  if found then ⟨[(.userPtr, a), (.userPtr, b)], -1, 0, [⟨b, 4⟩]⟩ else refuse (-1)

end EigenOS.UserStores
