import EigenOS.Library.Transition
import EigenOS.Filesystem.Resolve

/-!
# The filesystem calls

The public functions of `filesystem.c` that change the node table.  A call returns the
table and its `int` result; `none` stands for a call that never returns or writes through
a wild pointer.
-/

namespace EigenOS.Filesystem

open Function

/-- What the running kernel contributes to a call: the calling task's directory, the clock,
and whether `kmalloc` finds memory. -/
structure Caller where
  cwd : Slot
  now : UInt32
  allocated : Bool

/-- The node table and the two well-known directories the calls use, -1 if unset. -/
structure FileSystem where
  files : Table
  homeDir : ℤ
  trashDir : ℤ

abbrev Reply := Table × ℤ

/-- `now_stamp`. -/
def FileNode.stamp (fp : FileNode) (now : UInt32) : FileNode :=
  { fp with creationTime := now, modifiedTime := now }

/-! ## Creating -/

/-- The node `create_entry` fills in. -/
def newEntry (name : List UInt8) (type : FsType) (parent : ℤ) (flags : UInt8)
    (now : UInt32) : FileNode :=
  { FileNode.zero.stamp now with
    name := strncpy FileNode.zero.name name (maxFilename - 1)
    type := type
    parentDir := clampDir parent
    flags := flags
    inUse := true }

def createEntry (files : Table) (name : List UInt8) (type : FsType) (parent : ℤ)
    (flags : UInt8) (now : UInt32) : Table × Option Slot :=
  if name = [] then (files, none)
  else if findInDir files parent name ≠ none then (files, none)
  else
    match findFreeSlot files with
    | none => (files, none)
    | some idx =>
        (update files idx (newEntry name type parent flags now), some idx)

/-- The `int` an index or a failure is returned as. -/
def indexOrFail : Option Slot → ℤ
  | some idx => idx.val
  | none => -1

/-- One component of `ensure_dir_chain`. -/
def ensureDir (now : UInt32) (files : Table) (dir : Slot) (comp : List UInt8) :
    Table × Option Slot :=
  match findInDir files dir.val comp with
  | some e => (files, some e)
  | none => createEntry files comp .directory dir.val 0 now

/-- `ensure_dir_chain` from directory `dir` on. -/
def ensureDirs (now : UInt32) : Table → Slot → List (List UInt8) → Table × Option Slot
  | files, dir, [] => (files, some dir)
  | files, dir, comp :: rest =>
      match ensureDir now files dir comp with
      | (files, some e) => ensureDirs now files e rest
      | (files, none) => (files, none)

/-- `ensure_dir_chain` for a path of components that fit a name field. -/
def ensureDirChain (now : UInt32) (files : Table) (path : List UInt8) :
    Table × Option Slot :=
  ensureDirs now files rootSlot ((components path).filter fun comp => comp ≠ [])

def bytes (text : String) : List UInt8 := text.toList.map fun char => UInt8.ofNat char.toNat

/-- The directories `init_filesystem` makes before the well-known ones. -/
def defaultDirs : List (List UInt8) :=
  [bytes "bin", bytes "cfg", bytes "home/user", bytes "home/user/wallpaper", bytes "user",
    bytes "tmp", bytes "etc", bytes "proc", bytes "dev/null", bytes "dev/zero",
    bytes "dev/console", bytes "dev/tty"]

/-- What `init_filesystem` leaves on a machine without a saved tree, up to the files it
seeds with ordinary calls. -/
def initFilesystem (now : UInt32) : FileSystem :=
  let files := defaultDirs.foldl (fun files path => (ensureDirChain now files path).1)
    initialTable
  let home := ensureDirChain now files (bytes "home/eigen")
  let desktop := ensureDirChain now home.1 (bytes "home/eigen/Desktop")
  let trash := ensureDirChain now desktop.1 (bytes "home/eigen/.Trash")
  { files := trash.1, homeDir := indexOrFail home.2, trashDir := indexOrFail trash.2 }

def fsMkdir (files : Table) (caller : Caller) (path : CString) : Reply :=
  match fsResolveParent files caller.cwd path with
  | none => (files, -1)
  | some (parent, leaf) =>
      if leaf = [] then (files, -1)
      else
        let created := createEntry files leaf .directory parent.val 0 caller.now
        (created.1, indexOrFail created.2)

def fsFlagExecutable : UInt8 := 0x08

/-- Names that end in ".elf" are executable. -/
def executableFlag (leaf : List UInt8) : UInt8 :=
  if [46, 101, 108, 102].isSuffixOf leaf then fsFlagExecutable else 0

def fsCreate (files : Table) (caller : Caller) (path : CString) : Reply :=
  match fsResolveImpl files caller.cwd path with
  | some e => (files, e.val)
  | none =>
      match fsResolveParent files caller.cwd path with
      | none => (files, -1)
      | some (parent, leaf) =>
          if leaf = [] then (files, -1)
          else
            let created :=
              createEntry files leaf .file parent.val (executableFlag leaf) caller.now
            (created.1, indexOrFail created.2)

/-! ## Deleting -/

def clearSlot (files : Table) (idx : Slot) : Table :=
  update files idx FileNode.zero

/-- One round of a pass of `delete_recursive`: directories are deleted in both passes,
other children in the second. -/
def deleteChild (delete : Table → Slot → Option Table) (idx : Slot) (second : Bool)
    (files : Table) (i : Slot) : Option Table :=
  if i ≠ rootSlot ∧ (files i).inUse = true ∧ (files i).parentDir = idx.val then
    if (files i).type = .directory then delete files i
    else if second then some (clearSlot files i)
    else some files
  else some files

def deletePass (delete : Table → Slot → Option Table) (idx : Slot) (second : Bool)
    (files : Table) : Option Table :=
  (List.finRange maxFiles).foldlM (deleteChild delete idx second) files

/-- `delete_recursive` to a given depth; `none` when the recursion goes deeper. -/
def deleteRecursive : ℕ → Table → Slot → Option Table
  | 0, _, _ => none
  | depth + 1, files, idx =>
      if idx = rootSlot ∨ (files idx).inUse = false then some files
      else
        (deletePass (deleteRecursive depth) idx false files).bind fun files =>
          (if (files idx).type = .directory then
            deletePass (deleteRecursive depth) idx true files
          else some files).bind fun files => some (clearSlot files idx)

def fsDelete (files : Table) (caller : Caller) (path : CString) : Option Reply :=
  match fsResolveImpl files caller.cwd path with
  | none => some (files, -1)
  | some e =>
      if e = rootSlot ∨ (files e).inUse = false then some (files, -1)
      else (deleteRecursive maxFiles files e).map fun files => (files, 0)

/-- `fs_get_dir_count(dir) == 0`. -/
def fsIsDirectoryEmpty (files : Table) (dir : Slot) : Bool :=
  (Fin.find? fun i => decide (i ≠ rootSlot) && (files i).inUse &&
    decide ((files i).parentDir = dir.val)).isNone

def fsRmdir (files : Table) (caller : Caller) (path : CString) : Reply :=
  match fsResolveImpl files caller.cwd path with
  | none => (files, -1)
  | some e =>
      if e = rootSlot then (files, -1)
      else if (files e).type ≠ .directory then (files, -1)
      else if fsIsDirectoryEmpty files e = false then (files, -1)
      else (clearSlot files e, 0)

/-! ## Moving -/

/-- A node under a new name and parent. -/
def relink (files : Table) (e : Slot) (name : List UInt8) (parent : ℤ) (now : UInt32) :
    Table :=
  update files e
    { (files e).stamp now with
      name := strncpy (files e).name name (maxFilename - 1)
      parentDir := parent }

def fsRename (files : Table) (caller : Caller) (oldname newname : CString) : Reply :=
  match fsResolveImpl files caller.cwd oldname with
  | none => (files, -1)
  | some e =>
      if e = rootSlot then (files, -1)
      else
        match fsResolveParent files caller.cwd newname with
        | none => (files, -1)
        | some (parent, leaf) =>
            if leaf = [] then (files, -1)
            else
              match findInDir files parent.val leaf with
              | some dst =>
                  if dst = e then (relink files e leaf parent.val caller.now, 0)
                  else (files, -1)
              | none => (relink files e leaf parent.val caller.now, 0)

/-- The digits of `sn_append_int`, last digit first. -/
def decimalDigits : ℕ → ℕ → List UInt8
  | 0, _ => []
  | _, 0 => []
  | width + 1, v => UInt8.ofNat (48 + v % 10) :: decimalDigits width (v / 10)

/-- The name for an attempt to trash `leaf`: the first one adds no suffix. -/
def trashName (leaf : List UInt8) (attempt : ℕ) : List UInt8 :=
  (leaf ++ (decimalDigits 7 attempt).reverse).take (maxFilename + 8 - 1)

/-- The first of 64 attempts whose name the trash does not have. -/
def freeTrashName (fs : FileSystem) (leaf : List UInt8) : Option (List UInt8) :=
  ((List.range 64).find? fun attempt =>
    (findInDir fs.files fs.trashDir (trashName leaf attempt)).isNone).map (trashName leaf)

def fsTrashFile (fs : FileSystem) (caller : Caller) (path : CString) : Reply :=
  if fs.trashDir < 0 then (fs.files, -1)
  else
    match fsResolveImpl fs.files caller.cwd path with
    | none => (fs.files, -1)
    | some e =>
        if e = rootSlot then (fs.files, -1)
        else
          let leaf := (cString (fs.files e).name).take (maxFilename - 1)
          match freeTrashName fs leaf with
          | some name => (relink fs.files e name fs.trashDir caller.now, 0)
          | none => (fs.files, -1)

def fsEmptyTrash (fs : FileSystem) : Option Reply :=
  if fs.trashDir < 0 then some (fs.files, -1)
  else
    ((List.finRange maxFiles).foldlM
      (fun files i =>
        if i ≠ rootSlot ∧ (files i).inUse = true ∧ (files i).parentDir = fs.trashDir then
          deleteRecursive maxFiles files i
        else some files) fs.files).map fun files => (files, 0)

/-- Where `fs_restore_from_trash` puts a node. -/
def restoreDir (fs : FileSystem) : ℤ := if 0 ≤ fs.homeDir then fs.homeDir else 0

def fsRestoreFromTrash (fs : FileSystem) (caller : Caller) (filename : CString) : Reply :=
  if fs.trashDir < 0 then (fs.files, -1)
  else
    match findInDir fs.files fs.trashDir filename.bytes with
    | none => (fs.files, -1)
    | some e =>
        (update fs.files e
          { (fs.files e).stamp caller.now with parentDir := restoreDir fs }, 0)

/-! ## Contents -/

/-- The end of both copying functions: a copy of the source's bytes, when it has any. -/
def copyContents (files : Table) (s d : Slot) (caller : Caller) : Reply :=
  match (files s).data with
  | some bytes =>
      if 0 < (files s).size then
        if caller.allocated then
          (update files d
            { (files d).stamp caller.now with
              data := some (bytes.take (files s).size.toNat)
              size := (files s).size
              capacity := (files s).size }, 0)
        else (files, -1)
      else (update files d ((files d).stamp caller.now), 0)
  | none => (update files d ((files d).stamp caller.now), 0)

def copyInto (files : Table) (s : Slot) (name : List UInt8) (parent : ℤ)
    (caller : Caller) : Reply :=
  match createEntry files name .file parent (files s).flags caller.now with
  | (files, some d) => copyContents files s d caller
  | (files, none) => (files, -1)

def fsCopyFile (files : Table) (caller : Caller) (source target : CString) : Reply :=
  match fsResolveImpl files caller.cwd source with
  | none => (files, -1)
  | some s =>
      if (files s).type ≠ .file then (files, -1)
      else
        match (fsResolveImpl files caller.cwd target).filter
            fun d => (files d).type = .directory with
        | some d => copyInto files s (cString (files s).name) d.val caller
        | none =>
            match fsResolveParent files caller.cwd target with
            | none => (files, -1)
            | some (parent, leaf) =>
                if leaf = [] then (files, -1)
                else copyInto files s leaf parent.val caller

def fsCopyFileToDir (files : Table) (caller : Caller) (srcDir : ℤ) (srcName : CString)
    (dstDir : ℤ) (dstName : CString) : Reply :=
  match findInDir files srcDir srcName.bytes with
  | none => (files, -1)
  | some s =>
      copyInto files s (if dstName.bytes = [] then srcName.bytes else dstName.bytes) dstDir
        caller

def fsTruncate (files : Table) (caller : Caller) (path : CString) : Reply :=
  match fsResolveImpl files caller.cwd path with
  | none => (files, -1)
  | some e =>
      if (files e).type ≠ .file then (files, -1)
      else
        (update files e
          { (files e).stamp caller.now with data := none, size := 0, capacity := 0 }, 0)

def intMax : ℤ := 2 ^ 31 - 1

/-- The doubling loop of `file_ensure_cap`; `none` when the capacity overflows. -/
def growCapacity : ℕ → ℤ → ℤ → Option ℤ
  | 0, _, _ => none
  | rounds + 1, cap, need =>
      if need ≤ cap then some cap
      else if intMax < cap * 2 then none
      else growCapacity rounds (cap * 2) need

/-- The capacity the loop starts from. -/
def baseCapacity (fp : FileNode) : ℤ :=
  if fp.capacity ≠ 0 then fp.capacity else if 0 < fp.size then fp.size else 128

/-- What `file_ensure_cap` leaves in the node: `some none` is a failure. -/
def fileEnsureCap (fp : FileNode) (need : ℤ) (allocated : Bool) :
    Option (Option FileNode) :=
  if need ≤ fp.capacity then some (some fp)
  else
    match growCapacity 32 (baseCapacity fp) need with
    | none => none
    | some cap =>
        if allocated then
          some (some { fp with
            data := some ((fp.data.getD []).take fp.size.toNat), capacity := cap })
        else some none

def fsWrite (files : Table) (caller : Caller) (fd : ℤ) (buf : List UInt8) (count : ℤ) :
    Option Reply :=
  if fd < 0 ∨ maxFiles ≤ fd then some (files, -1)
  else
    let fp := files (slotAt fd)
    if fp.inUse = false ∨ fp.type ≠ .file then some (files, -1)
    else if intMax < fp.size + count then none
    else
      match fileEnsureCap fp (fp.size + count) caller.allocated with
      | none => none
      | some none => some (files, -1)
      | some (some grown) =>
          -- A negative count is the length of the memcpy as a huge unsigned number.
          if count < 0 then none
          else
            some (update files (slotAt fd)
              { grown.stamp caller.now with
                data := some ((grown.data.getD []).take fp.size.toNat ++
                  buf.take count.toNat)
                size := fp.size + count }, count)

/-! ## The calls together -/

inductive FsCall where
  | mkdir (path : CString)
  | create (path : CString)
  | delete (path : CString)
  | rmdir (path : CString)
  | rename (oldname newname : CString)
  | copyFile (source target : CString)
  | copyFileToDir (srcDir : ℤ) (srcName : CString) (dstDir : ℤ) (dstName : CString)
  | trashFile (path : CString)
  | restoreFromTrash (filename : CString)
  | emptyTrash
  | truncate (path : CString)
  | write (fd : ℤ) (buf : List UInt8) (count : ℤ)

def FsCall.run (fs : FileSystem) (caller : Caller) : FsCall → Option Reply
  | .mkdir path => some (fsMkdir fs.files caller path)
  | .create path => some (fsCreate fs.files caller path)
  | .delete path => fsDelete fs.files caller path
  | .rmdir path => some (fsRmdir fs.files caller path)
  | .rename oldname newname => some (fsRename fs.files caller oldname newname)
  | .copyFile source target => some (fsCopyFile fs.files caller source target)
  | .copyFileToDir srcDir srcName dstDir dstName =>
      some (fsCopyFileToDir fs.files caller srcDir srcName dstDir dstName)
  | .trashFile path => some (fsTrashFile fs caller path)
  | .restoreFromTrash filename => some (fsRestoreFromTrash fs caller filename)
  | .emptyTrash => fsEmptyTrash fs
  | .truncate path => some (fsTruncate fs.files caller path)
  | .write fd buf count => fsWrite fs.files caller fd buf count

/-- A call and its caller.  After a call without a defined result anything may follow. -/
def FsStep (fs : FileSystem) (event : Caller × FsCall) (next : FileSystem) : Prop :=
  ∀ reply, event.2.run fs event.1 = some reply → next = { fs with files := reply.1 }

end EigenOS.Filesystem
