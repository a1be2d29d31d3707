import EigenOS.Filesystem.Operations
import EigenOS.Tasking.Descriptors

/-!
# The system calls that reach the node table

The entries of `syscall_table` whose handlers call a function of `filesystem.c` that
changes nodes: the two opens, the two writes, the filesystem call and the settings call,
which rewrites configuration files.  A handler is modelled by what it does to the node
table and to `dirty`; the value it returns is left out where no other step reads it.
-/

namespace EigenOS.Syscalls

open EigenOS.Filesystem
open EigenOS.Tasking (FdSlot FdType maxFds toFd)

/-- A register argument. -/
abbrev Arg := BitVec 64

/-- `(int)arg`. -/
def Arg.toInt (arg : Arg) : ℤ := (arg.setWidth 32).toInt

/-- The node table and `dirty`. -/
structure Tree where
  files : Table
  dirty : Bool

/-- `persist_mark_dirty`. -/
def Tree.markDirty (tree : Tree) : Tree := { tree with dirty := true }

/-- What a call meets outside the tree: the directory and the descriptors of the calling
task, and the clock, `kmalloc` and the other devices at the successive steps of the call. -/
structure Context where
  cwd : Slot
  fds : Fin maxFds → FdSlot
  now : ℕ → UInt32
  allocated : ℕ → Bool
  deviceWrite : ℕ → ℤ

def Context.caller (ctx : Context) (step : ℕ) : Caller where
  cwd := ctx.cwd
  now := ctx.now step
  allocated := ctx.allocated step

/-! ## Opening and writing -/

def oCreat : Arg := 0x40

/-- `sys_open` up to the descriptor it hands out; a null path is the root. -/
def sysOpen (ctx : Context) (tree : Tree) (path : Option CString) (flags : Arg) : Tree :=
  match path with
  | none => tree
  | some path =>
      match fsResolveImpl tree.files ctx.cwd path with
      | some _ => tree
      | none =>
          if flags &&& oCreat ≠ 0 then
            { tree with files := (fsCreate tree.files (ctx.caller 0) path).1 }
          else tree

/-- `fs_write`, which marks the tree just before it returns the count. -/
def writeNode (ctx : Context) (step : ℕ) (tree : Tree) (fd : ℤ) (buf : List UInt8)
    (count : ℤ) : Option (Tree × ℤ) :=
  (fsWrite tree.files (ctx.caller step) fd buf count).map fun reply =>
    ({ files := reply.1, dirty := tree.dirty || decide ((0 : ℤ) ≤ reply.2) }, reply.2)

def sysWrite (ctx : Context) (step : ℕ) (tree : Tree) (fd : ℤ) (buf : List UInt8)
    (count : ℤ) : Option (Tree × ℤ) :=
  match toFd fd with
  | none => some (tree, -1)
  | some fd =>
      let slot := ctx.fds fd
      if slot.type = .pipe ∨ slot.type = .pty then some (tree, ctx.deviceWrite step)
      else if 0 < slot.flags then
        (writeNode ctx step tree (slot.flags - 1) buf count).map fun written =>
          (if 0 < written.2 then written.1.markDirty else written.1, written.2)
      else if slot.node.isSome then some (tree, ctx.deviceWrite step)
      else some (tree, -1)

/-- Descriptors 1 and 2 are the console unless a pipe, pty or socket is behind them. -/
def isConsole (ctx : Context) (fd : Arg) : Bool :=
  (decide (fd = 1) || decide (fd = 2)) &&
    match toFd fd.toNat with
    | some fd => decide ((ctx.fds fd).type = .vfs)
    | none => true

def kSysWrite (ctx : Context) (tree : Tree) (fd : Arg) (buf : List UInt8) (count : Arg) :
    Option Tree :=
  if isConsole ctx fd then some tree
  else (sysWrite ctx 0 tree fd.toInt buf count.toInt).map Prod.fst

/-- The loop of `sys_writev`: a failed or short write ends it. -/
def sysWritev (ctx : Context) (fd : ℤ) : ℕ → Tree → List (List UInt8 × Arg) → Option Tree
  | _, tree, [] => some tree
  | step, tree, (buf, len) :: rest =>
      match sysWrite ctx step tree fd buf len.toInt with
      | none => none
      | some (tree, n) =>
          if n < 0 ∨ n < len.toNat then some tree
          else sysWritev ctx fd (step + 1) tree rest

/-! ## The filesystem call -/

/-- The operations of `k_sys_fs`; a path is `none` when `user_ptr_ok` rejects its
pointer. -/
inductive FsOp where
  | mkdir (path : Option CString)
  | create (path : Option CString)
  | delete (path : Option CString)
  | rmdir (path : Option CString)
  | exists (path : Option CString)
  | rename (oldname newname : Option CString)
  | list
  | size (path : Option CString)
  | truncate (path : Option CString)
  | stat (path : Option CString)
  | chdir (path : Option CString)
  | pwd
  | invalid

/-- The operations that mark the tree first. -/
def FsOp.mutates : FsOp → Bool
  | .mkdir _ | .create _ | .delete _ | .rmdir _ | .rename _ _ | .truncate _ => true
  | _ => false

/-- The node table after the second `switch` of `k_sys_fs`. -/
def FsOp.run (ctx : Context) (files : Table) : FsOp → Option Table
  | .mkdir (some path) => some (fsMkdir files (ctx.caller 0) path).1
  | .create (some path) => some (fsCreate files (ctx.caller 0) path).1
  | .delete (some path) => (fsDelete files (ctx.caller 0) path).map Prod.fst
  | .rmdir (some path) => some (fsRmdir files (ctx.caller 0) path).1
  | .rename (some oldname) (some newname) =>
      some (fsRename files (ctx.caller 0) oldname newname).1
  | .truncate (some path) => some (fsTruncate files (ctx.caller 0) path).1
  | _ => some files

def kSysFs (ctx : Context) (tree : Tree) (op : FsOp) : Option Tree :=
  (op.run ctx tree.files).map fun files =>
    { files := files, dirty := tree.dirty || op.mutates }

/-! ## Configuration files -/

def decimal (value : ℤ) : List UInt8 := bytes (toString value)

/-- The calls of `fs_write` that fill a configuration file; their results are not read. -/
def writeTexts (ctx : Context) (fd : ℤ) : ℕ → Tree → List (List UInt8) → Option Tree
  | _, tree, [] => some tree
  | step, tree, text :: rest =>
      match writeNode ctx step tree fd text text.length with
      | none => none
      | some (tree, _) => writeTexts ctx fd (step + 1) tree rest

/-- The common end of the writers: create the file and fill it. -/
def createAndFill (ctx : Context) (step : ℕ) (tree : Tree) (file : CString)
    (texts : List (List UInt8)) : Option Tree :=
  let created := fsCreate tree.files (ctx.caller step) file
  let made := { tree with files := created.1 }
  if created.2 < 0 then some made
  else writeTexts ctx created.2 (step + 1) made texts

def cfgDir : CString := ⟨bytes "cfg", by decide⟩

/-- `write_theme_cfg` and its siblings in `theme.c`: the old file goes, and a new one comes
when there is something to write. -/
def writeCfg (ctx : Context) (tree : Tree) (file : CString) (texts : List (List UInt8)) :
    Option Tree :=
  let made := fsMkdir tree.files (ctx.caller 0) cfgDir
  match fsDelete made.1 (ctx.caller 1) file with
  | none => none
  | some deleted =>
      let emptied := { tree with files := deleted.1 }
      if texts = [] then some emptied else createAndFill ctx 2 emptied file texts

/-! ## Themes -/

structure WmThemeParams where
  titlebarH : ℤ
  cornerRadius : ℤ
  btnStyle : ℤ
  fontScale : ℤ
  titleGradA : UInt32
  titleGradB : UInt32
  winbtnLayout : ℤ
  closeHover : UInt32
  closeOnly : ℤ

structure ThemeDef where
  name : List UInt8
  palette : List UInt32
  wm : WmThemeParams
  accentIdx : ℤ

def colour (value : UInt32) : List UInt8 := decimal (value &&& 0xFFFFFF).toNat

def commaSeparated (values : List (List UInt8)) : List UInt8 :=
  List.intercalate (bytes ",") values

/-- A line of `cfg/themes.cfg`. -/
def ThemeDef.line (theme : ThemeDef) : List UInt8 :=
  theme.name ++ bytes "|" ++ commaSeparated (theme.palette.map colour) ++ bytes "|" ++
    commaSeparated [decimal theme.wm.titlebarH, decimal theme.wm.cornerRadius,
      decimal theme.wm.btnStyle, decimal theme.wm.fontScale, colour theme.wm.titleGradA,
      colour theme.wm.titleGradB, decimal theme.wm.winbtnLayout,
      colour theme.wm.closeHover, decimal theme.wm.closeOnly] ++
    bytes "|" ++ decimal theme.accentIdx ++ bytes "\n"

structure Wallpaper where
  path : List UInt8
  installed : Bool
  lastUsed : UInt32

/-- The settings the configuration files are written from. -/
structure Settings where
  userThemes : List ThemeDef
  wallpapers : List Wallpaper
  wallpaperMode : ℤ
  wallpaperFile : List UInt8
  clock : UInt32

def themeCount : ℕ := 8
def userThemeMax : ℕ := 8

def Settings.themeTotal (s : Settings) : ℕ := themeCount + s.userThemes.length

def themeCfg : CString := ⟨bytes "cfg/theme.cfg", by decide⟩
def themesCfg : CString := ⟨bytes "cfg/themes.cfg", by decide⟩
def accentCfg : CString := ⟨bytes "cfg/accent.cfg", by decide⟩

def writeThemeCfg (ctx : Context) (tree : Tree) (id : ℤ) : Option Tree :=
  writeCfg ctx tree themeCfg [decimal id ++ bytes "\n"]

def writeUserThemesCfg (ctx : Context) (tree : Tree) (themes : List ThemeDef) :
    Option Tree :=
  writeCfg ctx tree themesCfg (themes.map ThemeDef.line)

def writeAccentCfg (ctx : Context) (tree : Tree) (idx : ℤ) : Option Tree :=
  writeCfg ctx tree accentCfg [decimal idx ++ bytes "\n"]

/-- The window parameters of a theme that comes without any. -/
def defaultWm : WmThemeParams where
  titlebarH := 30
  cornerRadius := 6
  btnStyle := 0
  fontScale := 0
  titleGradA := 0
  titleGradB := 0
  winbtnLayout := 0
  closeHover := 0xE05555
  closeOnly := 0

def Settings.addTheme (s : Settings) (name : List UInt8) (palette : List UInt32)
    (accentIdx : ℤ) : List ThemeDef :=
  s.userThemes ++
    [{ name := name.take 23, palette := palette, wm := defaultWm, accentIdx := accentIdx }]

/-! ## Wallpapers -/

def wpFolder : List UInt8 := bytes "/home/user/wallpaper"
def wpManifest : CString := ⟨bytes "/home/user/wallpaper/wallpapers.cfg", by decide⟩

/-- A path copied behind what the manifest has so far, as long as it ends below `limit`. -/
def appendPath (limit : ℕ) (text path : List UInt8) : List UInt8 :=
  text ++ path.take (limit - text.length)

/-- The lines of one entry of `g_list`. -/
def appendWallpaper (text : List UInt8) (entry : Wallpaper) : List UInt8 :=
  let text :=
    if entry.installed then
      appendPath 230 (text ++ bytes "inst=") entry.path ++ bytes "\n"
    else text
  if entry.lastUsed ≠ 0 then
    appendPath 200 (text ++ bytes "used=") entry.path ++ bytes ":" ++
      decimal entry.lastUsed.toNat ++ bytes "\n"
  else text

/-- The text `save_manifest` builds in its 256 bytes. -/
def Settings.manifest (s : Settings) : List UInt8 :=
  let mode :=
    if s.wallpaperMode = 1 then
      appendPath 250 (bytes "1\nactive=") s.wallpaperFile ++ bytes "\n"
    else bytes "0\n"
  s.wallpapers.foldl appendWallpaper mode

/-- `save_manifest`; a text longer than its buffer runs over the stack. -/
def saveManifest (ctx : Context) (tree : Tree) (s : Settings) : Option Tree :=
  let chain := ensureDirChain (ctx.now 0) tree.files wpFolder
  if 256 < s.manifest.length then none
  else createAndFill ctx 1 { tree with files := chain.1 } wpManifest [s.manifest]

/-- `touch_used`: the first entry with the path. -/
def touchUsed (path : List UInt8) (used : UInt32) : List Wallpaper → List Wallpaper
  | [] => []
  | entry :: rest =>
      if entry.path = path then { entry with lastUsed := used } :: rest
      else entry :: touchUsed path used rest

/-- The settings `wallpaper_mgr_apply` saves for entry `i`. -/
def Settings.applyWallpaper (s : Settings) (entry : Wallpaper) : Settings :=
  { s with
    wallpaperMode := 1
    wallpaperFile := entry.path.take 63
    clock := s.clock + 1
    wallpapers := touchUsed entry.path (s.clock + 1 + 1000) s.wallpapers }

def Settings.applyProcedural (s : Settings) : Settings :=
  { s with wallpaperMode := 0, wallpaperFile := [] }

/-- The folder `rescan` makes when it is missing; what it reads there is not part of the
tree. -/
def rescan (ctx : Context) (tree : Tree) : Tree :=
  { tree with files := (ensureDirChain (ctx.now 0) tree.files wpFolder).1 }

/-! ## The settings call -/

/-- The operations of `k_sys_settings`; `query` is any that writes no file, and a name or
palette is `none` when `user_ptr_ok` rejects its pointer. -/
inductive SettingsOp where
  | themeApply (id : ℤ)
  | themeAdd (name : Option (List UInt8)) (palette : Option (List UInt32)) (accent : ℤ)
  | themeDel (id : ℤ)
  | accentSet (idx : ℤ)
  | wallApply (i : ℤ)
  | wallProc
  | wallRescan
  | query

def kSysSettings (ctx : Context) (s : Settings) (tree : Tree) : SettingsOp → Option Tree
  | .themeApply id =>
      if id < 0 ∨ s.themeTotal ≤ id then some tree else writeThemeCfg ctx tree id
  | .themeAdd (some name) (some palette) accent =>
      if userThemeMax ≤ s.userThemes.length ∨ name = [] then some tree
      else writeUserThemesCfg ctx tree (s.addTheme name palette accent)
  | .themeAdd _ _ _ => some tree
  | .themeDel id =>
      if id < themeCount ∨ s.themeTotal ≤ id then some tree
      else writeUserThemesCfg ctx tree (s.userThemes.eraseIdx (id.toNat - themeCount))
  | .accentSet idx => writeAccentCfg ctx tree idx
  | .wallApply i =>
      if i < 0 then some tree
      else
        match s.wallpapers[i.toNat]? with
        | none => some tree
        | some entry => saveManifest ctx tree (s.applyWallpaper entry)
  | .wallProc => saveManifest ctx tree s.applyProcedural
  | .wallRescan => some (rescan ctx tree)
  | .query => some tree

/-! ## All calls -/

/-- `other` stands for the rest of `syscall_table`, whose handlers at most read nodes. -/
inductive Syscall where
  | open (path : Option CString) (flags : Arg)
  | openat (path : Option CString) (flags : Arg)
  | write (fd : Arg) (buf : List UInt8) (count : Arg)
  | writev (fd : Arg) (iov : List (List UInt8 × Arg))
  | fs (op : FsOp)
  | settings (s : Settings) (op : SettingsOp)
  | other

/-- The tree a call leaves; `none` when it does not come back. -/
def Syscall.run (ctx : Context) (tree : Tree) : Syscall → Option Tree
  | .open path flags => some (sysOpen ctx tree path flags)
  | .openat path flags => some (sysOpen ctx tree path flags)
  | .write fd buf count => kSysWrite ctx tree fd buf count
  | .writev fd iov => sysWritev ctx fd.toInt 0 tree iov
  | .fs op => kSysFs ctx tree op
  | .settings s op => kSysSettings ctx s tree op
  | .other => some tree

/-- A system call, or anything else the kernel does between two calls: `persistd` clears
`dirty`, and the desktop and the kernel shell change nodes. -/
inductive TreeEvent where
  | call (ctx : Context) (call : Syscall)
  | kernel

/-- After a call that does not come back, and after the kernel's own work, anything may
follow. -/
def TreeStep (tree : Tree) (event : TreeEvent) (next : Tree) : Prop :=
  match event with
  | .call ctx call => ∀ after, call.run ctx tree = some after → next = after
  | .kernel => True

end EigenOS.Syscalls
