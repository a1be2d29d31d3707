import EigenOS.Descriptors.FileHandles

/-!
# Handles and the nodes they were obtained for

A slot of the node table is free once its node is deleted, and the next node that is created may
take it.  A handle on the slot goes on to name its own node as long as no node is created there.
-/

namespace EigenOS.Descriptors

open EigenOS.Filesystem Function
open EigenOS.Generations
open EigenOS.Syscalls (Arg oCreat)
open EigenOS.Tasking (maxFds toFd)
open EigenOS.Transition

/-! ## Slots that calls take -/

/-- The slot that `create_entry` takes. -/
def entryTakes (files : Table) (name : List UInt8) (parent : ℤ) : Option Slot :=
  if name = [] then none
  else if findInDir files parent name ≠ none then none
  else findFreeSlot files

def leafTakes (files : Table) (cwd : Slot) (path : CString) : Option Slot :=
  match fsResolveParent files cwd path with
  | none => none
  | some (parent, leaf) => entryTakes files leaf parent.val

def createTakes (files : Table) (cwd : Slot) (path : CString) : Option Slot :=
  match fsResolveImpl files cwd path with
  | some _ => none
  | none => leafTakes files cwd path

/-- The slot that `sys_open` creates a file in. -/
def openTakes (files : Table) (cwd : Slot) (path : Option CString) (flags : Arg) :
    Option Slot :=
  match path with
  | none => none
  | some path => if flags &&& oCreat ≠ 0 then createTakes files cwd path else none

def copyTakes (files : Table) (cwd : Slot) (source target : CString) : Option Slot :=
  match fsResolveImpl files cwd source with
  | none => none
  | some s =>
      if (files s).type ≠ .file then none
      else
        match (fsResolveImpl files cwd target).filter fun d => (files d).type = .directory with
        | some d => entryTakes files (cString (files s).name) d.val
        | none => leafTakes files cwd target

/-- The slot that a call creates a node in. -/
def callTakes (files : Table) (cwd : Slot) : FsCall → Option Slot
  | .mkdir path => leafTakes files cwd path
  | .create path => createTakes files cwd path
  | .copyFile source target => copyTakes files cwd source target
  | .copyFileToDir srcDir srcName dstDir dstName =>
      match findInDir files srcDir srcName.bytes with
      | none => none
      | some _ =>
          entryTakes files (if dstName.bytes = [] then srcName.bytes else dstName.bytes) dstDir
  | .delete _ | .rmdir _ | .rename _ _ | .trashFile _ | .restoreFromTrash _ | .emptyTrash
  | .truncate _ | .write _ _ _ => none

/-- The free slot that a call fills, if any. -/
def Fills (files after : Table) (taken : Option Slot) : Prop :=
  ∀ slot, Filled (inUse files) (inUse after) slot ↔ taken = some slot

/-- Free slots stay free. -/
def Empties (files after : Table) : Prop :=
  ∀ slot, (files slot).inUse = false → (after slot).inUse = false

section Tables

variable {files middle after : Table}

theorem Empties.refl (files : Table) : Empties files files := fun _ hfree => hfree

theorem Empties.trans (hfirst : Empties files middle) (hsecond : Empties middle after) :
    Empties files after :=
  fun slot hfree => hsecond slot (hfirst slot hfree)

theorem Empties.fills (h : Empties files after) : Fills files after none := by
  intro slot
  constructor
  · exact fun hfilled => nomatch hfilled.2.symm.trans (h slot hfilled.1)
  · exact nofun

theorem empties_update (files : Table) {slot : Slot} {node : FileNode}
    (hnode : node.inUse = true → (files slot).inUse = true) :
    Empties files (update files slot node) := by
  intro other hfree
  by_cases heq : other = slot
  · rw [heq, update_self, ← Bool.not_eq_true]
    rw [heq] at hfree
    exact fun hused => nomatch hfree.symm.trans (hnode hused)
  · rwa [update_of_ne heq]

theorem empties_clearSlot (files : Table) (slot : Slot) : Empties files (clearSlot files slot) :=
  empties_update files nofun

theorem empties_relink (files : Table) (e : Slot) (name : List UInt8) (parent : ℤ)
    (now : UInt32) : Empties files (relink files e name parent now) :=
  empties_update files id

theorem empties_foldlM {Item : Type*} {step : Table → Item → Option Table}
    (hstep : ∀ files item after, step files item = some after → Empties files after)
    {items : List Item} (hfold : items.foldlM step files = some after) : Empties files after := by
  induction items generalizing files with
  | nil =>
    cases hfold
    exact Empties.refl _
  | cons item rest ih =>
    rw [List.foldlM_cons] at hfold
    obtain ⟨middle, hfirst, hrest⟩ := Option.bind_eq_some_iff.mp hfold
    exact (hstep files item middle hfirst).trans (ih hrest)

theorem empties_deletePass {delete : Table → Slot → Option Table} {idx : Slot} {second : Bool}
    (hdelete : ∀ files i after, delete files i = some after → Empties files after)
    (hpass : deletePass delete idx second files = some after) : Empties files after := by
  apply empties_foldlM _ hpass
  intro files i after hchild
  rw [deleteChild] at hchild
  split_ifs at hchild
  · exact hdelete files i after hchild
  · cases hchild
    exact empties_clearSlot files i
  · cases hchild
    exact Empties.refl files
  · cases hchild
    exact Empties.refl files

theorem empties_deleteRecursive {depth : ℕ} {idx : Slot}
    (hdelete : deleteRecursive depth files idx = some after) : Empties files after := by
  induction depth generalizing files idx after with
  | zero => exact nomatch hdelete
  | succ depth ih =>
    have hpasses : ∀ {second files after}, deletePass (deleteRecursive depth) idx second files =
        some after → Empties files after :=
      empties_deletePass fun _ _ _ => ih
    rw [deleteRecursive] at hdelete
    split_ifs at hdelete
    · cases hdelete
      exact Empties.refl files
    · obtain ⟨first, hfirst, hrest⟩ := Option.bind_eq_some_iff.mp hdelete
      obtain ⟨second, hsecond, hclear⟩ := Option.bind_eq_some_iff.mp hrest
      cases hclear
      have hmiddle : Empties first second := by
        split_ifs at hsecond
        · exact hpasses hsecond
        · cases hsecond
          exact Empties.refl first
      exact ((hpasses hfirst).trans hmiddle).trans (empties_clearSlot second idx)

end Tables

/-! ## What each call fills -/

variable {reply : Reply} {caller : Caller}

section Fills

variable {files after : Table} {name : List UInt8} {parent : ℤ} {cwd : Slot}

theorem fills_update (files : Table) {slot : Slot} {node : FileNode}
    (hfree : (files slot).inUse = false) (hnode : node.inUse = true) :
    Fills files (update files slot node) (some slot) := by
  intro other
  constructor
  · intro hfilled
    by_contra hne
    have hother : other ≠ slot := fun heq => hne (congrArg some heq.symm)
    have hsame : inUse (update files slot node) other = inUse files other := by
      rw [inUse, update_of_ne hother]
      rfl
    exact nomatch hfilled.1.symm.trans (hsame.symm.trans hfilled.2)
  · intro heq
    cases heq
    constructor
    · exact hfree
    · rw [inUse, update_self]
      exact hnode

theorem fills_none (files : Table) : Fills files files none := (Empties.refl files).fills

theorem fills_createEntry (files : Table) (name : List UInt8) (type : FsType) (parent : ℤ)
    (flags : UInt8) (now : UInt32) :
    Fills files (createEntry files name type parent flags now).1
      (entryTakes files name parent) := by
  rw [createEntry, entryTakes]
  split_ifs
  · exact fills_none files
  · exact fills_none files
  · cases hslot : findFreeSlot files with
    | none => exact fills_none files
    | some idx => exact fills_update files (findFreeSlot_eq_some hslot).2 rfl

theorem createEntry_snd (files : Table) (name : List UInt8) (type : FsType) (parent : ℤ)
    (flags : UInt8) (now : UInt32) :
    (createEntry files name type parent flags now).2 = entryTakes files name parent := by
  rw [createEntry, entryTakes]
  split_ifs
  · rfl
  · rfl
  · cases findFreeSlot files with
    | none => rfl
    | some idx => rfl

theorem Fills.of_inUse {middle : Table} {taken : Option Slot} (h : Fills files middle taken)
    (hsame : inUse after = inUse middle) : Fills files after taken := by
  intro slot
  rw [hsame]
  exact h slot

theorem fills_fsMkdir (files : Table) (caller : Caller) (path : CString) :
    Fills files (fsMkdir files caller path).1 (leafTakes files caller.cwd path) := by
  rw [fsMkdir, leafTakes]
  cases fsResolveParent files caller.cwd path with
  | none => exact fills_none files
  | some found =>
    dsimp only
    split_ifs with hleaf
    · rw [entryTakes, if_pos hleaf]
      exact fills_none files
    · exact fills_createEntry files _ _ _ _ _

theorem fills_fsCreate (files : Table) (caller : Caller) (path : CString) :
    Fills files (fsCreate files caller path).1 (createTakes files caller.cwd path) := by
  rw [fsCreate, createTakes]
  cases fsResolveImpl files caller.cwd path with
  | some e => exact fills_none files
  | none =>
    dsimp only
    rw [leafTakes]
    cases fsResolveParent files caller.cwd path with
    | none => exact fills_none files
    | some found =>
      dsimp only
      split_ifs with hleaf
      · rw [entryTakes, if_pos hleaf]
        exact fills_none files
      · exact fills_createEntry files _ _ _ _ _

theorem inUse_update_self (files : Table) {slot : Slot} {node : FileNode}
    (hnode : node.inUse = (files slot).inUse) :
    inUse (update files slot node) = inUse files := by
  funext other
  by_cases heq : other = slot
  · rw [heq, inUse, update_self]
    exact hnode
  · rw [inUse, update_of_ne heq]
    rfl

theorem inUse_copyContents (files : Table) (s d : Slot) (caller : Caller) :
    inUse (copyContents files s d caller).1 = inUse files := by
  rw [copyContents]
  cases (files s).data with
  | none => exact inUse_update_self files rfl
  | some bytes =>
    dsimp only
    split_ifs
    · exact inUse_update_self files rfl
    · rfl
    · exact inUse_update_self files rfl

theorem fills_copyInto (files : Table) (s : Slot) (name : List UInt8) (parent : ℤ)
    (caller : Caller) :
    Fills files (copyInto files s name parent caller).1 (entryTakes files name parent) := by
  have hcreated := fills_createEntry files name .file parent (files s).flags caller.now
  rw [copyInto]
  cases hresult : createEntry files name .file parent (files s).flags caller.now with
  | mk middle entry =>
    rw [hresult] at hcreated
    cases entry with
    | none => exact hcreated
    | some d => exact hcreated.of_inUse (inUse_copyContents middle s d caller)

theorem fills_fsCopyFile (files : Table) (caller : Caller) (source target : CString) :
    Fills files (fsCopyFile files caller source target).1
      (copyTakes files caller.cwd source target) := by
  rw [fsCopyFile, copyTakes]
  cases fsResolveImpl files caller.cwd source with
  | none => exact fills_none files
  | some s =>
    dsimp only
    split_ifs
    · exact fills_none files
    · cases (fsResolveImpl files caller.cwd target).filter
        fun d => (files d).type = .directory with
      | some d => exact fills_copyInto files s _ _ caller
      | none =>
        dsimp only
        rw [leafTakes]
        cases fsResolveParent files caller.cwd target with
        | none => exact fills_none files
        | some found =>
          dsimp only
          split_ifs with hleaf
          · rw [entryTakes, if_pos hleaf]
            exact fills_none files
          · exact fills_copyInto files s _ _ caller

theorem empties_fsRename (files : Table) (caller : Caller) (oldname newname : CString) :
    Empties files (fsRename files caller oldname newname).1 := by
  rw [fsRename]
  cases fsResolveImpl files caller.cwd oldname with
  | none => exact Empties.refl files
  | some e =>
    dsimp only
    split_ifs
    · exact Empties.refl files
    · cases fsResolveParent files caller.cwd newname with
      | none => exact Empties.refl files
      | some found =>
        dsimp only
        split_ifs
        · exact Empties.refl files
        · cases findInDir files found.1.val found.2 with
          | none => exact empties_relink files _ _ _ _
          | some dst =>
            dsimp only
            split_ifs
            · exact empties_relink files _ _ _ _
            · exact Empties.refl files

theorem empties_fsTrashFile (fs : FileSystem) (caller : Caller) (path : CString) :
    Empties fs.files (fsTrashFile fs caller path).1 := by
  rw [fsTrashFile]
  split_ifs
  · exact Empties.refl fs.files
  · cases fsResolveImpl fs.files caller.cwd path with
    | none => exact Empties.refl fs.files
    | some e =>
      dsimp only
      split_ifs
      · exact Empties.refl fs.files
      · cases freeTrashName fs ((cString (fs.files e).name).take (maxFilename - 1)) with
        | none => exact Empties.refl fs.files
        | some name => exact empties_relink fs.files _ _ _ _

theorem empties_fsRestoreFromTrash (fs : FileSystem) (caller : Caller) (filename : CString) :
    Empties fs.files (fsRestoreFromTrash fs caller filename).1 := by
  rw [fsRestoreFromTrash]
  split_ifs
  · exact Empties.refl fs.files
  · cases findInDir fs.files fs.trashDir filename.bytes with
    | none => exact Empties.refl fs.files
    | some e => exact empties_update fs.files id

theorem empties_fsEmptyTrash {fs : FileSystem} (hreply : fsEmptyTrash fs = some reply) :
    Empties fs.files reply.1 := by
  rw [fsEmptyTrash] at hreply
  split_ifs at hreply
  · cases hreply
    exact Empties.refl fs.files
  · obtain ⟨after, hfold, rfl⟩ := Option.map_eq_some_iff.mp hreply
    apply empties_foldlM _ hfold
    intro files i after hstep
    split_ifs at hstep
    · exact empties_deleteRecursive hstep
    · cases hstep
      exact Empties.refl files

theorem empties_fsDelete {path : CString} (hreply : fsDelete files caller path = some reply) :
    Empties files reply.1 := by
  rw [fsDelete] at hreply
  cases hfound : fsResolveImpl files caller.cwd path with
  | none =>
    rw [hfound] at hreply
    cases hreply
    exact Empties.refl files
  | some e =>
    rw [hfound] at hreply
    dsimp only at hreply
    split_ifs at hreply
    · cases hreply
      exact Empties.refl files
    · obtain ⟨after, hdelete, rfl⟩ := Option.map_eq_some_iff.mp hreply
      exact empties_deleteRecursive hdelete

theorem empties_fsRmdir (files : Table) (caller : Caller) (path : CString) :
    Empties files (fsRmdir files caller path).1 := by
  rw [fsRmdir]
  cases fsResolveImpl files caller.cwd path with
  | none => exact Empties.refl files
  | some e =>
    dsimp only
    split_ifs
    · exact Empties.refl files
    · exact Empties.refl files
    · exact Empties.refl files
    · exact empties_clearSlot files e

theorem empties_fsTruncate (files : Table) (caller : Caller) (path : CString) :
    Empties files (fsTruncate files caller path).1 := by
  rw [fsTruncate]
  cases fsResolveImpl files caller.cwd path with
  | none => exact Empties.refl files
  | some e =>
    dsimp only
    split_ifs
    · exact Empties.refl files
    · exact empties_update files id

theorem empties_fsWrite {fd count : ℤ} {buf : List UInt8}
    (hreply : fsWrite files caller fd buf count = some reply) : Empties files reply.1 := by
  rw [fsWrite] at hreply
  dsimp only at hreply
  by_cases hfd : fd < 0 ∨ maxFiles ≤ fd
  · rw [if_pos hfd] at hreply
    cases hreply
    exact Empties.refl files
  rw [if_neg hfd] at hreply
  by_cases hfree : (files (slotAt fd)).inUse = false ∨ (files (slotAt fd)).type ≠ .file
  · rw [if_pos hfree] at hreply
    cases hreply
    exact Empties.refl files
  rw [if_neg hfree] at hreply
  by_cases hlong : intMax < (files (slotAt fd)).size + count
  · rw [if_pos hlong] at hreply
    exact nomatch hreply
  rw [if_neg hlong] at hreply
  cases hgrown : fileEnsureCap (files (slotAt fd)) ((files (slotAt fd)).size + count)
    caller.allocated with
  | none =>
    rw [hgrown] at hreply
    exact nomatch hreply
  | some grown =>
    rw [hgrown] at hreply
    cases grown with
    | none =>
      cases hreply
      exact Empties.refl files
    | some grown =>
      dsimp only at hreply
      split_ifs at hreply
      cases hreply
      apply empties_update
      intro _
      exact (Bool.not_eq_false _).mp (not_or.mp hfree).1

theorem fills_run {fs : FileSystem} {call : FsCall} (hreply : call.run fs caller = some reply) :
    Fills fs.files reply.1 (callTakes fs.files caller.cwd call) := by
  cases call with
  | mkdir path =>
    cases hreply
    exact fills_fsMkdir fs.files caller path
  | create path =>
    cases hreply
    exact fills_fsCreate fs.files caller path
  | copyFile source target =>
    cases hreply
    exact fills_fsCopyFile fs.files caller source target
  | copyFileToDir srcDir srcName dstDir dstName =>
    cases hreply
    rw [fsCopyFileToDir, callTakes]
    cases findInDir fs.files srcDir srcName.bytes with
    | none => exact fills_none fs.files
    | some s => exact fills_copyInto fs.files s _ _ caller
  | delete path => exact (empties_fsDelete hreply).fills
  | emptyTrash => exact (empties_fsEmptyTrash hreply).fills
  | write fd buf count => exact (empties_fsWrite hreply).fills
  | rmdir path =>
    cases hreply
    exact (empties_fsRmdir fs.files caller path).fills
  | rename oldname newname =>
    cases hreply
    exact (empties_fsRename fs.files caller oldname newname).fills
  | trashFile path =>
    cases hreply
    exact (empties_fsTrashFile fs caller path).fills
  | restoreFromTrash filename =>
    cases hreply
    exact (empties_fsRestoreFromTrash fs caller filename).fills
  | truncate path =>
    cases hreply
    exact (empties_fsTruncate fs.files caller path).fills

end Fills

/-! ## Handles -/

section Handles

variable {Task : Type*}

/-- What a descriptor of a file names. -/
def Handles.descriptor (s : Handles Task) (t : Task) (f : Fin maxFds) : Option (Handle Slot) :=
  if 0 < (s.fds t f).flags then
    some ⟨slotAt ((s.fds t f).flags - 1 : ℕ), s.fdNodes t f⟩
  else none

def Handles.directory (s : Handles Task) (t : Task) : Handle Slot := ⟨s.cwd t, s.cwdNodes t⟩

def Handles.Names (s : Handles Task) (h : Handle Slot) : Prop :=
  h.Names (inUse s.fs.files) s.nodes

/-- The slot of every handle has the node that the handle was obtained for, or is free. -/
structure OwnNodes (s : Handles Task) : Prop where
  descriptors : ∀ t f h, s.descriptor t f = some h → s.Names h
  directories : ∀ t, s.Names (s.directory t)

/-- The slot that a call creates a node in. -/
def HandleEvent.takes (s : Handles Task) (e : HandleEvent Task) : Option Slot :=
  match e.call with
  | .file call => callTakes s.fs.files (s.cwd e.task) call
  | .sysOpen path flags => openTakes s.fs.files (s.cwd e.task) path flags
  | _ => none

/-- The descriptor is not the one that the call hands out. -/
def HandleEvent.Leaves (s : Handles Task) (e : HandleEvent Task) (t : Task) (f : Fin maxFds) :
    Prop :=
  match e.call with
  | .sysOpen _ _ => t = e.task → s.openSlot t ≠ some f
  | _ => True

/-- No node is created in a slot that a handle is on. -/
def SparesHandles (s : Handles Task) (e : HandleEvent Task) : Prop :=
  ∀ slot, e.takes s = some slot →
    (∀ t f h, e.Leaves s t f → s.descriptor t f = some h → h.slot ≠ slot) ∧
      ∀ t, s.cwd t ≠ slot

theorem ownNodes_booted (fs : FileSystem) : OwnNodes (Handles.booted Task fs) where
  descriptors _ _ _ h := nomatch h
  directories _ := names_issue _ _ _

variable {s : Handles Task} (next : Handles Task) {taken : Option Slot}

theorem OwnNodes.next_iff (hown : OwnNodes s)
    (hnodes : next.nodes = advance (inUse s.fs.files) (inUse next.fs.files) s.nodes)
    (hfills : Fills s.fs.files next.fs.files taken) {Left : Task → Fin maxFds → Prop}
    (hleft : ∀ t f, Left t f → next.descriptor t f = s.descriptor t f)
    (hnew : ∀ t f h, ¬ Left t f → next.descriptor t f = some h → next.Names h)
    (hdirectory : ∀ t, next.directory t = s.directory t) :
    OwnNodes next ↔ ∀ slot, taken = some slot →
      (∀ t f h, Left t f → s.descriptor t f = some h → h.slot ≠ slot) ∧
        ∀ t, s.cwd t ≠ slot := by
  have hnames : ∀ {h : Handle Slot}, s.Names h → (next.Names h ↔ taken ≠ some h.slot) := by
    intro h hname
    rw [Handles.Names, hnodes]
    exact (Handle.Names.advance_iff hname).trans (not_congr (hfills h.slot))
  constructor
  · rintro hnext slot rfl
    constructor
    · intro t f h hkept hdescriptor heq
      have hname := hnext.descriptors t f h ((hleft t f hkept).trans hdescriptor)
      exact (hnames (hown.descriptors t f h hdescriptor)).mp hname (congrArg some heq.symm)
    · intro t heq
      have hname := hnext.directories t
      rw [hdirectory t] at hname
      exact (hnames (hown.directories t)).mp hname (congrArg some heq.symm)
  · intro hspared
    constructor
    · intro t f h hdescriptor
      by_cases hkept : Left t f
      · rw [hleft t f hkept] at hdescriptor
        apply (hnames (hown.descriptors t f h hdescriptor)).mpr
        exact fun heq => (hspared _ heq).1 t f h hkept hdescriptor rfl
      · exact hnew t f h hkept hdescriptor
    · intro t
      rw [hdirectory t]
      apply (hnames (hown.directories t)).mpr
      exact fun heq => (hspared _ heq).2 t rfl

theorem OwnNodes.stay (hown : OwnNodes s)
    (hnodes : next.nodes = advance (inUse s.fs.files) (inUse next.fs.files) s.nodes)
    (hempties : Empties s.fs.files next.fs.files)
    (hdescriptor : ∀ t f, next.descriptor t f = none ∨ next.descriptor t f = s.descriptor t f)
    (hdirectory : ∀ t, next.directory t = s.directory t) : OwnNodes next := by
  apply (hown.next_iff next hnodes hempties.fills (fun t f => id) _ hdirectory).mpr
  · exact nofun
  · intro t f h hnot hsome
    rcases hdescriptor t f with hnone | hsame
    · exact nomatch hnone.symm.trans hsome
    · exact absurd hsame hnot

end Handles

/-! ## The calls on descriptors -/

/-- Descriptors are closed or stay on their slots, and no slot is filled. -/
structure Stays (io after : Io) : Prop where
  flags : ∀ f, (after.fds f).flags = 0 ∨ (after.fds f).flags = (io.fds f).flags
  empties : Empties io.files after.files

section Calls

variable {io after : Io} {f : Fin maxFds}

theorem Stays.of_eq (hfds : after.fds = io.fds) (hfiles : after.files = io.files) :
    Stays io after where
  flags f := .inr (congrArg (fun fds => (fds f).flags) hfds)
  empties := hfiles ▸ Empties.refl after.files

theorem Stays.refl (io : Io) : Stays io io := Stays.of_eq rfl rfl

theorem stays_setPipe (io : Io) (p : Fin Tasking.maxPipes) (pipe : Pipe) :
    Stays io (io.setPipe p pipe) := Stays.of_eq rfl rfl

theorem stays_setPty (io : Io) (p : Fin Tasking.maxPtys) (pty : Pty) :
    Stays io (io.setPty p pty) := Stays.of_eq rfl rfl

theorem Stays.setSlot (h : Stays io after) {slot : Tasking.FdSlot}
    (hflags : slot.flags = 0 ∨ slot.flags = (io.fds f).flags) : Stays io (after.setSlot f slot) where
  flags := by
    intro other
    dsimp only [Io.setSlot]
    by_cases heq : other = f
    · rw [heq, update_self]
      exact hflags
    · rw [update_of_ne heq]
      exact h.flags other
  empties := h.empties

theorem stays_closeFd (io : Io) (f : Fin maxFds) : Stays io (closeFd io f) := by
  rw [closeFd]
  dsimp only
  by_cases hflags : 0 < (io.fds f).flags
  · rw [if_pos hflags]
    exact (Stays.refl io).setSlot (.inl rfl)
  · rw [if_neg hflags]
    cases (io.fds f).type with
    | pipe =>
      dsimp only
      split_ifs
      · exact (stays_setPipe io _ _).setSlot (.inr rfl)
      · exact (Stays.refl io).setSlot (.inr rfl)
    | pty => exact (stays_setPty io _ _).setSlot (.inr rfl)
    | socket | vfs => exact (Stays.refl io).setSlot (.inr rfl)

theorem stays_sysClose (io : Io) (fd : ℤ) : Stays io (sysClose io fd) := by
  rw [sysClose]
  cases toFd fd with
  | none => exact Stays.refl io
  | some f => exact stays_closeFd io f

theorem stays_sysLseek (io : Io) (fd offset whence : ℤ) :
    Stays io (sysLseek io fd offset whence).2 := by
  rw [sysLseek]
  cases toFd fd with
  | none => exact Stays.refl io
  | some f =>
    dsimp only
    split_ifs
    all_goals first
      | exact Stays.refl io
      | exact (Stays.refl io).setSlot (.inr rfl)

theorem stays_sysGetdents64 (io : Io) (fd : ℤ) (count : UInt32) :
    Stays io (sysGetdents64 io fd count).2 := by
  rw [sysGetdents64]
  cases toFd fd with
  | none => exact Stays.refl io
  | some f =>
    dsimp only
    split_ifs
    · exact Stays.refl io
    · exact (Stays.refl io).setSlot (.inr rfl)

theorem stays_sysRead {vfs : Vfs} {fd : ℤ} {count : ℕ} {transfer : Transfer}
    (hread : sysRead vfs io fd count = some transfer) : Stays io transfer.io := by
  rcases sysRead_io hread with h | ⟨p, pipe, h⟩ | ⟨p, pty, h⟩ | ⟨f, offset, h⟩
  · rw [h]
    exact Stays.refl io
  · rw [h]
    exact stays_setPipe io p pipe
  · rw [h]
    exact stays_setPty io p pty
  · rw [h]
    exact (Stays.refl io).setSlot (.inr rfl)

theorem stays_sysWrite {vfs : Vfs} {fd : ℤ} {buf : List UInt8} {written : ℤ × Io}
    (hwrite : sysWrite vfs io caller fd buf = some written) : Stays io written.2 := by
  rcases sysWrite_io hwrite with h | ⟨p, pipe, h⟩ | ⟨p, pty, h⟩ | ⟨index, reply, hreply, h⟩
  · rw [h]
    exact Stays.refl io
  · rw [h]
    exact stays_setPipe io p pipe
  · rw [h]
    exact stays_setPty io p pty
  · rw [h]
    exact ⟨(Stays.refl io).flags, empties_fsWrite hreply⟩

end Calls

/-! ## The steps -/

section Steps

variable {Task : Type*} [DecidableEq Task] {s : Handles Task} {t : Task}

omit [DecidableEq Task] in
theorem descriptor_congr {next : Handles Task} {f : Fin maxFds}
    (hflags : (next.fds t f).flags = (s.fds t f).flags)
    (hnodes : next.fdNodes t f = s.fdNodes t f) : next.descriptor t f = s.descriptor t f := by
  rw [Handles.descriptor, Handles.descriptor, hflags, hnodes]

theorem OwnNodes.setIo (hown : OwnNodes s) {io : Io} (hstays : Stays (s.io t) io) :
    OwnNodes (s.setIo t io) := by
  apply hown.stay (s.setIo t io) rfl hstays.empties _ (fun _ => rfl)
  intro u f
  by_cases heq : u = t
  · have hfds : (s.setIo t io).fds u = io.fds := by
      rw [heq]
      exact update_self ..
    rcases hstays.flags f with hzero | hsame
    · apply Or.inl
      rw [Handles.descriptor, hfds, hzero]
      exact if_neg (Nat.lt_irrefl 0)
    · have hflags : ((s.setIo t io).fds u f).flags = (s.fds u f).flags := by
        rw [hfds, heq]
        exact hsame
      exact .inr (descriptor_congr hflags rfl)
  · have hfds : (s.setIo t io).fds u = s.fds u := update_of_ne heq _ _
    have hflags : ((s.setIo t io).fds u f).flags = (s.fds u f).flags := by rw [hfds]
    exact .inr (descriptor_congr hflags rfl)

theorem OwnNodes.setCwd (hown : OwnNodes s) (dir : Slot) : OwnNodes (s.setCwd t dir) where
  descriptors := hown.descriptors
  directories := by
    intro u
    by_cases heq : u = t
    · have hissued : (s.setCwd t dir).directory u = issue s.nodes dir := by
        rw [heq, Handles.directory, issue]
        dsimp only [Handles.setCwd]
        rw [update_self, update_self]
      rw [hissued]
      exact names_issue _ _ _
    · have hsame : (s.setCwd t dir).directory u = s.directory u := by
        rw [Handles.directory, Handles.directory]
        dsimp only [Handles.setCwd]
        rw [update_of_ne heq, update_of_ne heq]
      rw [hsame]
      exact hown.directories u

omit [DecidableEq Task] in
theorem OwnNodes.setFiles (hown : OwnNodes s) {files : Table} (hfills : Fills s.fs.files files none) :
    OwnNodes (s.setFiles files) := by
  apply (hown.next_iff (s.setFiles files) rfl hfills (fun _ _ (_ : True) => rfl) _
    fun _ => rfl).mpr
  · exact nofun
  · exact fun _ _ _ hnot => absurd trivial hnot

theorem fsCreate_snd {files : Table} {path : CString} {slot : Slot}
    (htakes : createTakes files caller.cwd path = some slot) :
    (fsCreate files caller path).2 = slot.val := by
  rw [createTakes] at htakes
  rw [fsCreate]
  cases hfound : fsResolveImpl files caller.cwd path with
  | some e =>
    rw [hfound] at htakes
    exact nomatch htakes
  | none =>
    rw [hfound] at htakes
    dsimp only at htakes ⊢
    rw [leafTakes] at htakes
    cases hparent : fsResolveParent files caller.cwd path with
    | none =>
      rw [hparent] at htakes
      exact nomatch htakes
    | some found =>
      rw [hparent] at htakes
      dsimp only at htakes ⊢
      by_cases hleaf : found.2 = []
      · rw [entryTakes, if_pos hleaf] at htakes
        exact nomatch htakes
      · rw [if_neg hleaf, createEntry_snd, htakes]
        rfl

theorem openNode_spec (files : Table) (caller : Caller) (path : Option CString) (flags : Arg) :
    Fills files (openNode files caller path flags).1 (openTakes files caller.cwd path flags) ∧
      ∀ slot, openTakes files caller.cwd path flags = some slot →
        (openNode files caller path flags).2 = some slot := by
  cases path with
  | none => exact ⟨fills_none files, nofun⟩
  | some path =>
    have hopen : fsOpen files caller.cwd (some path) = fsResolveImpl files caller.cwd path := rfl
    unfold openNode openTakes
    rw [hopen]
    cases hfound : fsResolveImpl files caller.cwd path with
    | some e =>
      dsimp only
      have hnone : createTakes files caller.cwd path = none := by
        rw [createTakes, hfound]
      rw [hnone, ite_self]
      exact ⟨fills_none files, nofun⟩
    | none =>
      dsimp only
      by_cases hcreat : flags &&& oCreat ≠ 0
      · rw [if_pos hcreat, if_pos hcreat]
        constructor
        · exact fills_fsCreate files caller path
        · intro slot htakes
          dsimp only
          rw [fsCreate_snd htakes, if_pos (Int.natCast_nonneg _), slotAt_natCast]
      · rw [if_neg hcreat, if_neg hcreat]
        exact ⟨fills_none files, nofun⟩

/-- The descriptor that `sys_open` hands out is on the node it has found or created. -/
theorem setFd_descriptor_self (s : Handles Task) (t : Task) (f : Fin maxFds) (idx : Slot) :
    (s.setFd t f idx).descriptor t f = some (issue s.nodes idx) := by
  have hflags : ((s.setFd t f idx).fds t f).flags = idx.val + 1 := by
    dsimp only [Handles.setFd]
    rw [update_self, update_self]
  have hnodes : (s.setFd t f idx).fdNodes t f = s.nodes idx := by
    dsimp only [Handles.setFd]
    rw [update_self, update_self]
  rw [Handles.descriptor, hflags, hnodes, if_pos (Nat.succ_pos _), Nat.add_sub_cancel,
    slotAt_natCast, issue]

theorem setFd_descriptor_of_ne (s : Handles Task) {t u : Task} {f f' : Fin maxFds} (idx : Slot)
    (hne : u = t → f' ≠ f) : (s.setFd t f idx).descriptor u f' = s.descriptor u f' := by
  by_cases heq : u = t
  · have hflags : ((s.setFd t f idx).fds u f').flags = (s.fds u f').flags := by
      dsimp only [Handles.setFd]
      rw [heq, update_self, update_of_ne (hne heq)]
    have hnodes : (s.setFd t f idx).fdNodes u f' = s.fdNodes u f' := by
      dsimp only [Handles.setFd]
      rw [heq, update_self, update_of_ne (hne heq)]
    exact descriptor_congr hflags hnodes
  · have hflags : ((s.setFd t f idx).fds u f').flags = (s.fds u f').flags := by
      dsimp only [Handles.setFd]
      rw [update_of_ne heq]
    have hnodes : (s.setFd t f idx).fdNodes u f' = s.fdNodes u f' := by
      dsimp only [Handles.setFd]
      rw [update_of_ne heq]
    exact descriptor_congr hflags hnodes

theorem ownNodes_sysOpen_iff (hown : OwnNodes s) {e : HandleEvent Task} {path : Option CString}
    {flags : Arg} (hcall : e.call = .sysOpen path flags) :
    OwnNodes (s.sysOpen e path flags).2 ↔ SparesHandles s e := by
  obtain ⟨hfills, htaken⟩ := openNode_spec s.fs.files (e.caller s) path flags
  have htakes : e.takes s = openTakes s.fs.files (e.caller s).cwd path flags := by
    rw [HandleEvent.takes, hcall]
    rfl
  have hleaves : ∀ {u f}, e.Leaves s u f ↔ (u = e.task → s.openSlot u ≠ some f) := by
    intro u f
    rw [HandleEvent.Leaves, hcall]
  rw [SparesHandles, htakes]
  unfold Handles.sysOpen
  generalize openTakes s.fs.files (e.caller s).cwd path flags = taken at hfills htaken ⊢
  generalize openNode s.fs.files (e.caller s) path flags = found at hfills htaken ⊢
  dsimp only
  cases hslot : s.openSlot e.task with
  | none =>
    have hall : ∀ u f, e.Leaves s u f := by
      intro u f
      rw [hleaves]
      rintro rfl
      rw [hslot]
      exact nofun
    exact hown.next_iff (s.setFiles _) rfl hfills (fun _ _ _ => rfl)
      (fun u f _ hnot => absurd (hall u f) hnot) fun _ => rfl
  | some f =>
    cases hfound : found.2 with
    | some idx =>
      apply hown.next_iff ((s.setFiles _).setFd e.task f idx) rfl hfills _ _ fun _ => rfl
      · intro u f' hleft
        rw [hleaves] at hleft
        apply setFd_descriptor_of_ne (s.setFiles _)
        rintro rfl rfl
        exact hleft rfl hslot
      · intro u f' h hnot hsome
        rw [hleaves, Classical.not_imp, not_not] at hnot
        obtain ⟨rfl, hf'⟩ := hnot
        cases hslot.symm.trans hf'
        rw [setFd_descriptor_self] at hsome
        cases hsome
        exact names_issue _ _ _
    | none =>
      have hnone : taken = none := by
        by_contra hne
        obtain ⟨slot, hslot'⟩ := Option.ne_none_iff_exists'.mp hne
        exact nomatch hfound.symm.trans (htaken slot hslot')
      rw [hnone] at hfills ⊢
      have hopened := hown.setFiles hfills
      apply iff_of_true _ nofun
      cases e.node with
      | none => exact hopened
      | some node => exact hopened.setIo ((Stays.refl _).setSlot (.inr rfl))

/-- After a call every handle is on its own node or on a free slot, exactly if the call creates no
node in a slot that a handle is on. -/
theorem ownNodes_iff_sparesHandles {vfs : Vfs} {e : HandleEvent Task} {next : Handles Task}
    (hown : OwnNodes s) (hstep : HandleStep vfs s e next) :
    OwnNodes next ↔ SparesHandles s e := by
  obtain ⟨ret, hact⟩ := hstep
  rw [Handles.act] at hact
  have hothers : e.takes s = none → OwnNodes next → (OwnNodes next ↔ SparesHandles s e) :=
    fun hnone hnext => iff_of_true hnext fun _ hsome => nomatch hnone.symm.trans hsome
  cases hcall : e.call with
  | file call =>
    rw [hcall] at hact
    obtain ⟨reply, hreply, hpair⟩ := Option.map_eq_some_iff.mp hact
    cases hpair
    have htakes : e.takes s = callTakes s.fs.files (e.caller s).cwd call := by
      rw [HandleEvent.takes, hcall]
      rfl
    have hall : ∀ u f, e.Leaves s u f := by
      intro u f
      rw [HandleEvent.Leaves, hcall]
      trivial
    rw [SparesHandles, htakes]
    exact hown.next_iff (s.setFiles _) rfl (fills_run hreply) (fun _ _ _ => rfl)
      (fun u f _ hnot => absurd (hall u f) hnot) fun _ => rfl
  | sysOpen path flags =>
    rw [hcall] at hact
    rw [← show (s.sysOpen e path flags).2 = next from congrArg Prod.snd (Option.some.inj hact)]
    exact ownNodes_sysOpen_iff hown hcall
  | sysClose fd =>
    rw [hcall] at hact
    cases hact
    exact hothers (by rw [HandleEvent.takes, hcall]) (hown.setIo (stays_sysClose _ fd))
  | sysRead fd count =>
    rw [hcall] at hact
    obtain ⟨transfer, hread, hpair⟩ := Option.map_eq_some_iff.mp hact
    cases hpair
    exact hothers (by rw [HandleEvent.takes, hcall]) (hown.setIo (stays_sysRead hread))
  | sysWrite fd buf =>
    rw [hcall] at hact
    obtain ⟨written, hwrite, hpair⟩ := Option.map_eq_some_iff.mp hact
    cases hpair
    exact hothers (by rw [HandleEvent.takes, hcall]) (hown.setIo (stays_sysWrite hwrite))
  | sysLseek fd offset whence =>
    rw [hcall] at hact
    cases hact
    exact hothers (by rw [HandleEvent.takes, hcall])
      (hown.setIo (stays_sysLseek _ fd offset whence))
  | sysGetdents64 fd count =>
    rw [hcall] at hact
    cases hact
    exact hothers (by rw [HandleEvent.takes, hcall]) (hown.setIo (stays_sysGetdents64 _ fd count))
  | fsCd path =>
    rw [hcall] at hact
    apply hothers (by rw [HandleEvent.takes, hcall])
    dsimp only at hact
    cases hdir : fsCd s.fs.files (s.cwd e.task) path with
    | none =>
      rw [hdir] at hact
      cases hact
      exact hown
    | some dir =>
      rw [hdir] at hact
      cases hact
      exact hown.setCwd dir
  | fsList maxLen =>
    rw [hcall] at hact
    cases hact
    exact hothers (by rw [HandleEvent.takes, hcall]) hown

end Steps

/-! ## The calls that use a handle -/

section Uses

variable {Task : Type*}

/-- The lookup of the path starts in the current directory. -/
def isRelative (path : CString) : Bool :=
  decide (path.bytes ≠ []) && decide (path.bytes.head? ≠ some slash)

def callPaths : FsCall → List CString
  | .mkdir path | .create path | .delete path | .rmdir path | .trashFile path
  | .truncate path => [path]
  | .rename first second | .copyFile first second => [first, second]
  | .copyFileToDir _ _ _ _ | .restoreFromTrash _ | .emptyTrash | .write _ _ _ => []

/-- The call looks into the current directory. -/
def HandleCall.usesCwd : HandleCall → Bool
  | .file call => (callPaths call).any isRelative
  | .sysOpen path _ | .fsCd path => path.toList.any isRelative
  | .fsList _ => true
  | _ => false

/-- What a call reads, writes, measures or lists through a descriptor. -/
def HandleEvent.used (s : Handles Task) (e : HandleEvent Task) : Option (Handle Slot) :=
  match e.call with
  | .sysRead fd _ | .sysWrite fd _ =>
      (toFd fd).bind fun f =>
        if (s.fds e.task f).type = .pipe ∨ (s.fds e.task f).type = .pty then none
        else s.descriptor e.task f
  | .sysLseek fd _ whence => if whence = 2 then (toFd fd).bind (s.descriptor e.task) else none
  | .sysGetdents64 fd _ => (toFd fd).bind (s.descriptor e.task)
  | _ => none

/-- The call does not ask whether the node of the descriptor is in use. -/
def HandleCall.unchecked : HandleCall → Bool
  | .sysLseek _ _ _ | .sysGetdents64 _ _ => true
  | _ => false

variable [DecidableEq Task]

/-- The node in the slot is the one that the handle was obtained for, or it is gone and the call
fails. -/
def OwnOrFails (vfs : Vfs) (s : Handles Task) (e : HandleEvent Task) (next : Handles Task)
    (h : Handle Slot) : Prop :=
  (inUse s.fs.files h.slot = true ∧ s.nodes h.slot = h.generation) ∨
    (inUse s.fs.files h.slot = false ∧
      ∃ ret, s.act vfs e = some (ret, next) ∧ ret < 0 ∧ next.fs = s.fs)

structure UsesOwnNode (vfs : Vfs) (s : Handles Task) (e : HandleEvent Task)
    (next : Handles Task) : Prop where
  descriptor : ∀ h, e.used s = some h → OwnOrFails vfs s e next h
  directory : e.call.usesCwd = true → OwnOrFails vfs s e next (s.directory e.task)

/-- No node is created in a slot that a handle is on, and once a node is gone its handles are not
used where nobody asks whether it is in use. -/
structure KeepsHandles (s : Handles Task) (e : HandleEvent Task) (_ : Handles Task) : Prop where
  spares : SparesHandles s e
  descriptor : e.call.unchecked = true →
    ∀ h, e.used s = some h → inUse s.fs.files h.slot = true
  directory : e.call.usesCwd = true → inUse s.fs.files (s.cwd e.task) = true

variable {s next : Handles Task} {e : HandleEvent Task} {vfs : Vfs} {f : Fin maxFds}

omit [DecidableEq Task] in
theorem descriptor_eq_some {t : Task} {h : Handle Slot} (hsome : s.descriptor t f = some h) :
    0 < (s.fds t f).flags ∧ h.slot = slotAt ((s.fds t f).flags - 1 : ℕ) := by
  rw [Handles.descriptor] at hsome
  by_cases hflags : 0 < (s.fds t f).flags
  · rw [if_pos hflags] at hsome
    cases hsome
    exact ⟨hflags, rfl⟩
  · rw [if_neg hflags] at hsome
    exact nomatch hsome

theorem sysRead_free {io : Io} {fd : ℤ} {count : ℕ} (hfd : toFd fd = some f)
    (htype : ¬ ((io.fds f).type = .pipe ∨ (io.fds f).type = .pty))
    (hflags : 0 < (io.fds f).flags)
    (hfree : (io.files (slotAt ((io.fds f).flags - 1 : ℕ))).inUse = false) :
    sysRead vfs io fd count = some ⟨-1, [], io⟩ := by
  have hread : ∀ count offset,
      fsReadAt io.files ((io.fds f).flags - 1) count offset = (-1, []) := by
    intro count offset
    rw [fsReadAt]
    by_cases hlarge : maxFiles ≤ (io.fds f).flags - 1
    · exact if_pos hlarge
    · rw [if_neg hlarge]
      exact if_pos hfree
  have hfile : fileRead vfs io f count = ⟨-1, [], io⟩ := by
    rw [fileRead]
    dsimp only
    rw [if_pos hflags, hread]
    rfl
  rw [sysRead, hfd]
  dsimp only
  cases hkind : (io.fds f).type with
  | pipe => exact absurd (.inl hkind) htype
  | pty => exact absurd (.inr hkind) htype
  | socket | vfs => exact congrArg some hfile

theorem sysWrite_free {io : Io} {fd : ℤ} {buf : List UInt8} (hfd : toFd fd = some f)
    (htype : ¬ ((io.fds f).type = .pipe ∨ (io.fds f).type = .pty)) (hflags : 0 < (io.fds f).flags)
    (hfree : (io.files (slotAt ((io.fds f).flags - 1 : ℕ))).inUse = false) :
    sysWrite vfs io caller fd buf = some (-1, io) := by
  have hwrite : ∀ count, fsWrite io.files caller ((io.fds f).flags - 1 : ℕ) buf count =
      some (io.files, -1) := by
    intro count
    rw [fsWrite]
    by_cases hlarge : ((io.fds f).flags - 1 : ℕ) < (0 : ℤ) ∨
        (maxFiles : ℤ) ≤ ((io.fds f).flags - 1 : ℕ)
    · exact if_pos hlarge
    · rw [if_neg hlarge]
      exact if_pos (.inl hfree)
  have hfile : fileWrite vfs io caller f buf = some (-1, io) := by
    rw [fileWrite]
    dsimp only
    rw [if_pos hflags, hwrite]
    rfl
  rw [sysWrite, hfd]
  dsimp only
  cases hkind : (io.fds f).type with
  | pipe => exact absurd (.inl hkind) htype
  | pty => exact absurd (.inr hkind) htype
  | socket | vfs => exact hfile

omit [DecidableEq Task] in
theorem descriptor_of_used {h : Handle Slot} (hused : e.used s = some h) :
    ∃ f, s.descriptor e.task f = some h := by
  rw [HandleEvent.used] at hused
  cases hcall : e.call with
  | sysRead fd _ | sysWrite fd _ =>
    rw [hcall] at hused
    obtain ⟨f, _, hsome⟩ := Option.bind_eq_some_iff.mp hused
    split_ifs at hsome
    exact ⟨f, hsome⟩
  | sysLseek fd offset whence =>
    rw [hcall] at hused
    dsimp only at hused
    split_ifs at hused
    obtain ⟨f, _, hsome⟩ := Option.bind_eq_some_iff.mp hused
    exact ⟨f, hsome⟩
  | sysGetdents64 fd _ =>
    rw [hcall] at hused
    obtain ⟨f, _, hsome⟩ := Option.bind_eq_some_iff.mp hused
    exact ⟨f, hsome⟩
  | file | sysOpen | sysClose | fsCd | fsList =>
    rw [hcall] at hused
    exact nomatch hused

theorem fails_of_free {h : Handle Slot} (hstep : HandleStep vfs s e next)
    (hused : e.used s = some h) (hchecked : e.call.unchecked = false)
    (hfree : inUse s.fs.files h.slot = false) :
    ∃ ret, s.act vfs e = some (ret, next) ∧ ret < 0 ∧ next.fs = s.fs := by
  obtain ⟨ret, hact⟩ := hstep
  have hfailed : ∀ {after : Handles Task}, s.act vfs e = some (-1, after) → after.fs = s.fs →
      ∃ ret, s.act vfs e = some (ret, next) ∧ ret < 0 ∧ next.fs = s.fs := by
    intro after hafter hfs
    cases hact.symm.trans hafter
    exact ⟨-1, hafter, by decide, hfs⟩
  have hslot : ∀ {fd : ℤ}, ((toFd fd).bind fun f =>
      if (s.fds e.task f).type = .pipe ∨ (s.fds e.task f).type = .pty then none
      else s.descriptor e.task f) = some h →
      ∃ f, toFd fd = some f ∧
        ¬ ((s.fds e.task f).type = .pipe ∨ (s.fds e.task f).type = .pty) ∧
        0 < (s.fds e.task f).flags ∧
        (s.fs.files (slotAt ((s.fds e.task f).flags - 1 : ℕ))).inUse = false := by
    intro fd hsome
    obtain ⟨f, hfd, hrest⟩ := Option.bind_eq_some_iff.mp hsome
    split_ifs at hrest with htype
    obtain ⟨hflags, hname⟩ := descriptor_eq_some hrest
    rw [hname] at hfree
    exact ⟨f, hfd, htype, hflags, hfree⟩
  have hcases := hused
  rw [HandleEvent.used] at hcases
  cases hcall : e.call with
  | sysRead fd count =>
    rw [hcall] at hcases
    obtain ⟨f, hfd, htype, hflags, hnone⟩ := hslot hcases
    apply @hfailed (s.setIo e.task (s.io e.task)) _ rfl
    rw [Handles.act, hcall]
    dsimp only
    rw [sysRead_free hfd htype hflags hnone]
    rfl
  | sysWrite fd buf =>
    rw [hcall] at hcases
    obtain ⟨f, hfd, htype, hflags, hnone⟩ := hslot hcases
    apply @hfailed (s.setIo e.task (s.io e.task)) _ rfl
    rw [Handles.act, hcall]
    dsimp only
    rw [sysWrite_free hfd htype hflags hnone]
    rfl
  | sysLseek | sysGetdents64 =>
    rw [hcall] at hchecked
    exact nomatch hchecked
  | file | sysOpen | sysClose | fsCd | fsList =>
    rw [hcall] at hcases
    exact nomatch hcases

theorem OwnNodes.usesOwnNode (hown : OwnNodes s) (hkeeps : KeepsHandles s e next)
    (hstep : HandleStep vfs s e next) : UsesOwnNode vfs s e next where
  descriptor := by
    intro h hused
    obtain ⟨f, hdescriptor⟩ := descriptor_of_used hused
    cases hslot : inUse s.fs.files h.slot with
    | true => exact .inl ⟨hslot, (hown.descriptors e.task f h hdescriptor).own hslot⟩
    | false =>
      refine .inr ⟨hslot, fails_of_free hstep hused ?_ hslot⟩
      rw [← Bool.not_eq_true]
      exact fun hunchecked => nomatch hslot.symm.trans (hkeeps.descriptor hunchecked h hused)
  directory := by
    intro hcwd
    have hslot := hkeeps.directory hcwd
    exact .inl ⟨hslot, (hown.directories e.task).own hslot⟩

/-! ## Runs -/

/-- In a run where no node is created in a slot that a handle is on, and no call that does not ask
is made through a handle on a deleted node, every handle is used on its own node or fails. -/
theorem along_usesOwnNode {fs : FileSystem} {run : List (HandleEvent Task × Handles Task)}
    (hrun : Along (HandleStep vfs) (Handles.booted Task fs) run)
    (hguard : Along KeepsHandles (Handles.booted Task fs) run) :
    Along (UsesOwnNode vfs) (Handles.booted Task fs) run := by
  apply along_of_guarded OwnNodes _ (ownNodes_booted fs) hrun hguard
  intro s e next hown hkeeps hstep
  exact ⟨(ownNodes_iff_sparesHandles hown hstep).mpr hkeeps.spares,
    hown.usesOwnNode hkeeps hstep⟩

/-- The state that a call which returns leaves. -/
def Handles.after (vfs : Vfs) (s : Handles Task) (e : HandleEvent Task) : Handles Task :=
  match s.act vfs e with
  | some (_, next) => next
  | none => s

theorem handleStep_after (hreturns : (s.act vfs e).isSome) :
    HandleStep vfs s e (s.after vfs e) := by
  obtain ⟨⟨ret, next⟩, hact⟩ := Option.isSome_iff_exists.mp hreturns
  rw [Handles.after, hact]
  exact ⟨ret, hact⟩

end Uses

/-- No node is mounted. -/
def unmounted : Vfs := ⟨fun _ _ => (-1, []), fun _ _ => -1⟩

def onlyRoot : Handles Unit := Handles.booted Unit ⟨initialTable, -1, -1⟩

def noonCall (call : HandleCall) : HandleEvent Unit := ⟨(), 0, true, none, call⟩

def pathA : CString := ⟨bytes "/a", by decide⟩
def pathB : CString := ⟨bytes "/b", by decide⟩

def handleTrace (calls : List HandleCall) : List (HandleEvent Unit × Handles Unit) :=
  trace (Handles.after unmounted) onlyRoot (calls.map noonCall)

theorem handleTrace_run {calls : List HandleCall}
    (hreturns : Along (fun s e _ => (s.act unmounted e).isSome = true) onlyRoot
      (handleTrace calls)) :
    Along (HandleStep unmounted) onlyRoot (handleTrace calls) := by
  apply (along_and hreturns (along_trace _ _ _)).mono
  rintro s e next ⟨hsome, rfl⟩
  exact handleStep_after hsome

/-- A file is created and read. -/
theorem along_usesOwnNode_created :
    Along (UsesOwnNode unmounted) onlyRoot
      (handleTrace [.sysOpen (some pathA) oCreat, .sysRead 3 1]) := by
  apply along_usesOwnNode (handleTrace_run (by decide +kernel))
  have htakes : (noonCall (.sysOpen (some pathA) oCreat)).takes onlyRoot =
      some ⟨1, by decide⟩ := by decide +kernel
  constructor
  · constructor
    · intro slot hslot
      cases htakes.symm.trans hslot
      refine ⟨fun t f h _ hsome => ?_, fun _ => ?_⟩
      · exact nomatch hsome
      · change rootSlot ≠ _
        decide
    · exact fun hunchecked => absurd hunchecked (by decide)
    · exact fun hcwd => absurd hcwd (by decide)
  · refine ⟨⟨?_, ?_, ?_⟩, trivial⟩
    · exact fun slot hslot => nomatch hslot
    · exact fun hunchecked => absurd hunchecked (by decide)
    · exact fun hcwd => absurd hcwd (by decide)

/-- The descriptor of a deleted file reads the file that was created next. -/
theorem not_along_usesOwnNode :
    ∃ run : List (HandleEvent Unit × Handles Unit), Along (HandleStep unmounted) onlyRoot run ∧
      ¬ Along (UsesOwnNode unmounted) onlyRoot run := by
  refine ⟨handleTrace [.sysOpen (some pathA) oCreat, .file (.delete pathA),
    .file (.create pathB), .sysRead 3 1], handleTrace_run (by decide +kernel), ?_⟩
  rintro ⟨-, -, -, huses, -⟩
  rcases huses.descriptor ⟨⟨1, by decide⟩, 1⟩ (by decide +kernel) with ⟨-, hown⟩ | ⟨hfree, -⟩
  · exact absurd hown (by decide +kernel)
  · exact absurd hfree (by decide +kernel)

end EigenOS.Descriptors
