import EigenOS.Library.InitialStack
import EigenOS.Programs.ElfLoader
import EigenOS.Signals.Delivery
import EigenOS.Syscalls.PosixCalls

/-!
# Words and strings of a program

The kernel follows pointers that programs hand it, in whatever address space is active, and
stores words and strings for new programs.
-/

namespace EigenOS.Programs

open EigenOS.InitialStack (IsText Text byteOfWord textAt wordAt)
open EigenOS.Paging

/-! ## Loads and stores -/

/-- The loop that copies a string to a buffer with so much room.  It looks at a byte before it
looks at the room. -/
def cutText (mem : InitialStack.Memory) : ℕ → Word → Option Text
  | 0, addr => (mem addr).map fun _ => []
  | room + 1, addr =>
      (mem addr).bind fun first =>
        if first = 0#8 then some [] else (cutText mem room (addr + 1#64)).map (first :: ·)

theorem cutText_of_isText {mem : InitialStack.Memory} {room : ℕ} {addr : Word} {text : Text}
    (h : IsText mem addr text) (hroom : text.length ≤ room) : cutText mem room addr = some text := by
  induction text generalizing room addr with
  | nil =>
      have hended := InitialStack.isText_nil.mp h
      cases room with
      | zero => rw [cutText, hended, Option.map_some]
      | succ room => rw [cutText, hended, Option.bind_some, if_pos rfl]
  | cons first text ih =>
      obtain ⟨hfirst, hne, hrest⟩ := InitialStack.isText_cons.mp h
      cases room with
      | zero => exact absurd hroom (Nat.not_succ_le_zero _)
      | succ room =>
          rw [cutText, hfirst, Option.bind_some, if_neg hne,
            ih hrest (Nat.le_of_succ_le_succ hroom), Option.map_some]

def storeWord (root : PhysPage) (addr value : Word) (m : PageTables) : Option PageTables :=
  storeBytes root addr (byteOfWord value) 8 m

/-- The first rounds of a loop that copies bytes. -/
def copyBytes (root : PhysPage) (source dest : Word) : ℕ → PageTables → Option PageTables
  | 0, m => some m
  | count + 1, m =>
      (copyBytes root source dest count m).bind fun m =>
        (loadByte m root (source + BitVec.ofNat 64 count)).bind fun value =>
          storeByte m root (dest + BitVec.ofNat 64 count) value

/-! ## What stores leave as it is -/

/-- Tables stay, and so does the memory of the program at some addresses. -/
structure Keeps (root : PhysPage) (kept : ℕ → Prop) (m m' : PageTables) : Prop where
  tables : SameTables root m m'
  view : ∀ addr : Word, kept addr.toNat → userView m' root addr = userView m root addr

section Keeping

variable {root : PhysPage} {m m' m'' : PageTables} {kept : ℕ → Prop} {start source addr : Word}
  {value : Byte} {bytes : ℕ → Byte} {count : ℕ}

theorem Keeps.refl (root : PhysPage) (kept : ℕ → Prop) (m : PageTables) : Keeps root kept m m :=
  ⟨SameTables.refl root m, fun _ _ => rfl⟩

theorem Keeps.trans (h : Keeps root kept m m') (h' : Keeps root kept m' m'') :
    Keeps root kept m m'' :=
  ⟨h.tables.trans h'.tables, fun addr haddr => (h'.view addr haddr).trans (h.view addr haddr)⟩

theorem Keeps.mono {less : ℕ → Prop} (h : Keeps root kept m m') (hless : ∀ n, less n → kept n) :
    Keeps root less m m' :=
  ⟨h.tables, fun addr haddr => h.view addr (hless _ haddr)⟩

theorem frameOf_hole (haddr : addr.toNat = 2 ^ 47) : frameOf m root addr = none := by
  have heq : addr = 0x800000000000#64 := BitVec.eq_of_toNat_eq haddr
  have hhole : ¬ Canonical (0x800000000000#64 : Word) := by decide
  rw [frameOf, heq, if_neg hhole]

theorem storeByte_keeps (h : UserSpace m root) (haddr : User addr)
    (hstore : storeByte m root addr value = some m') :
    Keeps root (· ≠ addr.toNat) m m' := by
  refine ⟨storeByte_sameTables h haddr hstore, fun other hother => ?_⟩
  rw [userView_storeByte h haddr hstore, Function.update_of_ne]
  exact fun heq => hother (congrArg BitVec.toNat heq)

theorem user_of_storeByte (hle : addr.toNat ≤ 2 ^ 47)
    (hstore : storeByte m root addr value = some m') : User addr := by
  by_contra hnot
  have hend : addr.toNat = 2 ^ 47 := by
    rw [User] at hnot
    omega
  rw [storeByte, frameOf_hole hend] at hstore
  cases hstore

theorem storeBytes_inside (hle : start.toNat ≤ 2 ^ 47)
    (hstore : storeBytes root start bytes count m = some m') : start.toNat + count ≤ 2 ^ 47 := by
  induction count generalizing m' with
  | zero => exact hle
  | succ count ih =>
      obtain ⟨mid, hmid, hlast⟩ := Option.bind_eq_some_iff.mp hstore
      have hbefore := ih hmid
      have htoNat : (start + BitVec.ofNat 64 count).toNat = start.toNat + count :=
        toNat_add_ofNat _ _ (by omega)
      have huser : (start + BitVec.ofNat 64 count).toNat < 2 ^ 47 :=
        user_of_storeByte (by omega) hlast
      omega

theorem storeBytes_keeps (h : UserSpace m root) (hle : start.toNat ≤ 2 ^ 47)
    (hstore : storeBytes root start bytes count m = some m') :
    Keeps root (fun n => n < start.toNat ∨ start.toNat + count ≤ n) m m' := by
  have hinside := storeBytes_inside hle hstore
  obtain ⟨hsame, hview⟩ := storeBytes_spec h hinside hstore
  refine ⟨hsame, fun addr haddr => ?_⟩
  rw [hview, SparseMemory.blit_of_not_lt]
  rw [SparseMemory.distance_lt_iff (by omega)]
  omega

theorem storeBytes_view (h : UserSpace m root) (hle : start.toNat ≤ 2 ^ 47)
    (hstore : storeBytes root start bytes count m = some m') {k : ℕ} (hk : k < count) :
    userView m' root (start + BitVec.ofNat 64 k) = some (bytes k) := by
  have hinside := storeBytes_inside hle hstore
  rw [(storeBytes_spec h hinside hstore).2, SparseMemory.blit_add hk (by omega)]

theorem copyBytes_keeps (h : UserSpace m root) (hle : start.toNat ≤ 2 ^ 47)
    (hcopy : copyBytes root source start count m = some m') :
    start.toNat + count ≤ 2 ^ 47 ∧
      Keeps root (fun n => n < start.toNat ∨ start.toNat + count ≤ n) m m' := by
  induction count generalizing m' with
  | zero =>
      cases hcopy
      exact ⟨hle, Keeps.refl root _ m⟩
  | succ count ih =>
      obtain ⟨mid, hmid, hround⟩ := Option.bind_eq_some_iff.mp hcopy
      obtain ⟨value, _, hlast⟩ := Option.bind_eq_some_iff.mp hround
      obtain ⟨hbefore, hkeeps⟩ := ih hmid
      have htoNat : (start + BitVec.ofNat 64 count).toNat = start.toNat + count :=
        toNat_add_ofNat _ _ (by omega)
      have huser : User (start + BitVec.ofNat 64 count) := user_of_storeByte (by omega) hlast
      have hlastKeeps := storeByte_keeps (hkeeps.tables.userSpace h) huser hlast
      rw [User] at huser
      refine ⟨by omega, (hkeeps.mono fun n hn => ?_).trans (hlastKeeps.mono fun n hn => ?_)⟩
      · omega
      · omega

/-! ## Words -/

theorem storeWord_keeps (h : UserSpace m root) (hle : start.toNat ≤ 2 ^ 47) {value : Word}
    (hstore : storeWord root start value m = some m') :
    Keeps root (fun n => n < start.toNat ∨ start.toNat + 8 ≤ n) m m' :=
  storeBytes_keeps h hle hstore

theorem wordAt_storeWord (h : UserSpace m root) (hle : start.toNat ≤ 2 ^ 47) {value : Word}
    (hstore : storeWord root start value m = some m') :
    wordAt (userView m' root) start = some value :=
  InitialStack.wordAt_of_bytes fun _ hk => storeBytes_view h hle hstore hk

theorem Keeps.wordAt_eq (h : Keeps root kept m m') (hfits : start.toNat + 8 ≤ 2 ^ 64)
    (hkept : ∀ k < 8, kept (start.toNat + k)) :
    wordAt (userView m' root) start = wordAt (userView m root) start := by
  apply InitialStack.wordAt_congr
  intro k hk
  apply h.view
  rw [toNat_add_ofNat _ _ (by omega)]
  exact hkept k hk

end Keeping

end EigenOS.Programs

/-!
## A program in the place of another

`sys_execve` with the memory that it works on.  Its strings come through pointers of the caller,
which it follows before and after it has changed to the address space of the new program.
-/

namespace EigenOS.Programs

open EigenOS.Filesystem (CString FileNode Slot)
open EigenOS.InitialStack (Text textAt wordAt)
open EigenOS.Paging
open EigenOS.Posix (System eigenErrInval eigenErrNoEnt eigenErrNoMem maxImage nodeSize stagingSize)

/-! ## Stacks -/

/-- `USER_STACK_VADDR`. -/
def userStackVaddr : Word := 0x70000000#64

/-- `USER_STACK_SIZE`. -/
def userStackSize : ℕ := 524288

def userStackEnd : Word := userStackVaddr + BitVec.ofNat 64 userStackSize

/-- `THREAD_TLS_VADDR`. -/
def threadTlsVaddr : Word := 0x60000000#64

/-- `THREAD_TLS_SELF_OFF`. -/
def threadTlsSelfOff : Word := 520#64

/-- `memset` of a page. -/
def clearPage (root : PhysPage) (virt : Word) (m : PageTables) : Option PageTables :=
  storeBytes root virt (fun _ => 0#8) 4096 m

/-- The loop that maps the pages of a stack.  It ends when there is no frame left. -/
def stackPages (root : PhysPage) : ℕ → Word → PageTables → Outcome
  | 0, _, m => .done m
  | count + 1, virt, m =>
      (mapNewPage root virt m).bind fun m =>
        (Outcome.ofOption (clearPage root virt m)).bind fun m =>
          stackPages root count (virt + 4096#64) m

/-- The page for the data of the main thread, with the number of the task. -/
def tlsPage (root : PhysPage) (virt id : Word) (m : PageTables) : Outcome :=
  (mapNewPage root virt m).bind fun m =>
    Outcome.ofOption do
      let m ← clearPage root virt m
      let m ← storeWord root (virt + threadTlsSelfOff) id m
      storeWord root virt virt m

def tlsAddr (slot : Fin Tasking.maxTasks) : Word :=
  threadTlsVaddr + BitVec.ofNat 64 (slot.val * 0x1000)

/-- Word `k` of an array. -/
def slotAddr (arr : Word) (k : ℕ) : Word := arr + BitVec.ofNat 64 (8 * k)

/-! ## The state of a call -/

/-- What `sys_execve` reads and changes.  The fields of the current task that `sys` has not are
here; `frame` is the frame of the system call, and `elfbuf` is the staging buffer with the memory
behind it. -/
structure ExecState where
  sys : System
  memory : PageTables
  cr3 : PhysPage
  pml4Phys : PhysPage
  name : List UInt8
  userStackBase : Word
  userStackTop : Word
  frame : Signals.Registers
  elfbuf : Word → Byte

/-- `overrun` is a copy past the staging buffer, and `fault` an access to an address that is not
mapped. -/
inductive ExecOutcome where
  | returned (ret : ℤ) (s : ExecState)
  | overrun
  | fault

/-- A program that is started, unless an address is not mapped. -/
def ExecOutcome.started : Option ExecState → ExecOutcome
  | none => .fault
  | some s => .returned 0 s

namespace ExecState

/-- The memory that the kernel sees in the active address space. -/
def view (s : ExecState) : InitialStack.Memory := loadByte s.memory s.cr3

/-- `vmm_activate_pml4`, and the root table of the current task. -/
def enter (s : ExecState) (root : PhysPage) (m : PageTables) : ExecState :=
  { s with memory := m, cr3 := root, pml4Phys := root }

end ExecState

/-! ## Arguments -/

/-- How many strings of a vector are counted. -/
def maxStrings : ℕ := 63

/-- The loop that counts the strings of a vector and their bytes. -/
def countStrings (mem : InitialStack.Memory) (vec : Word) :
    ℕ → ℕ → Word → Option (ℕ × Word)
  | 0, count, slen => some (count, slen)
  | rounds + 1, count, slen =>
      (wordAt mem (slotAddr vec count)).bind fun string =>
        if string = 0#64 then some (count, slen)
        else
          (textAt mem string).bind fun text =>
            countStrings mem vec rounds (count + 1) (slen + BitVec.ofNat 64 (text.length + 1))

/-- A vector, or some bytes where there is none. -/
def countVector (mem : InitialStack.Memory) (vec slen absent : Word) : Option (ℕ × Word) :=
  if vec = 0#64 then some (0, slen + absent) else countStrings mem vec maxStrings 0 slen

/-- How many strings there are in both vectors, with their bytes and those of the path. -/
def countArguments (mem : InitialStack.Memory) (pl : ℕ) (argv envp : Word) :
    Option (ℕ × ℕ × Word) := do
  let (nargs, slen) ← countVector mem argv (BitVec.ofNat 64 (pl + 1)) (BitVec.ofNat 64 (pl + 1))
  let (nenv, slen) ← countVector mem envp slen 0#64
  some (nargs, nenv, slen)

/-- The loop that copies the strings of a vector to `sp`, with pointers to them from some word of
the array on; with the end of the strings. -/
def copyVector (root : PhysPage) (vec arr : Word) :
    ℕ → ℕ → ℕ → Word → PageTables → Option (Word × PageTables)
  | 0, _, _, sp, m => some (sp, m)
  | count + 1, i, index, sp, m => do
      let string ← wordAt (loadByte m root) (slotAddr vec i)
      let text ← textAt (loadByte m root) string
      let m ← copyBytes root string sp (text.length + 1) m
      let m ← storeWord root (slotAddr arr index) sp m
      copyVector root vec arr count (i + 1) (index + 1)
        (sp + BitVec.ofNat 64 (text.length + 1)) m

/-- `arr`, where the array starts. -/
def execArr (nargs nenv : ℕ) (slen : Word) : Word :=
  ((userStackEnd - (slen + BitVec.ofNat 64 ((nargs + nenv + 5) * 8) + 64#64)) &&& ~~~15#64) + 8#64

/-- The array and the strings of the new program. -/
def execBlock (root : PhysPage) (pl : ℕ) (argv envp : Word) (nargs nenv : ℕ) (slen : Word)
    (m : PageTables) : Option PageTables := do
  let arr := execArr nargs nenv slen
  let sp := userStackEnd - slen
  let m ← storeWord root (slotAddr arr 0) (BitVec.ofNat 64 (nargs + 1)) m
  let m ← storeWord root (slotAddr arr 1) sp m
  let (sp, m) ← copyVector root argv arr nargs 0 2 (sp + BitVec.ofNat 64 (pl + 1)) m
  let m ← storeWord root (slotAddr arr (nargs + 2)) 0#64 m
  let envpBase := nargs + 3
  let m ← storeWord root (slotAddr arr (envpBase + nenv + 1)) 0#64 m
  let m ← storeWord root (slotAddr arr (envpBase + nenv + 2)) 0#64 m
  let (_, m) ← copyVector root envp arr nenv 0 envpBase sp m
  storeWord root (slotAddr arr (envpBase + nenv)) 0#64 m

/-! ## The call -/

/-- The frame that the new program starts with. -/
def startFrame (entry sp : Word) : Signals.Registers where
  r15 := 0
  r14 := 0
  r13 := 0
  r12 := 0
  rbp := 0
  rbx := 0
  r11 := 0
  r10 := 0
  r9 := 0
  r8 := 0
  rdi := 0
  rsi := 0
  rdx := 0
  rcx := 0
  rax := 0
  rip := UInt64.ofBitVec entry
  cs := 0x1B
  rflags := 0x202
  rsp := UInt64.ofBitVec sp
  ss := 0x23

/-- The stack and the page of the main thread; with the page that `fs_base` is set to. -/
def execPages (root : PhysPage) (tls id : Word) (m : PageTables) :
    Option (Option Word × PageTables) :=
  match stackPages root (userStackSize / 4096) userStackVaddr m with
  | .fault => none
  | .done m | .refused m =>
      match tlsPage root tls id m with
      | .fault => none
      | .refused m => some (none, m)
      | .done m => some (some tls, m)

/-- The state that the new program starts in. -/
def ExecState.started (s : ExecState) (cur : Fin Tasking.maxTasks) (frame : Signals.Registers)
    (tls : Option Word) (m : PageTables) : ExecState :=
  { s with
    sys := { s.sys with
      kernel := s.sys.kernel.setState cur .running
      fsBase := (tls.map UInt64.ofBitVec).getD s.sys.fsBase }
    memory := m
    userStackBase := userStackVaddr
    userStackTop := userStackEnd
    frame := frame }

/-- The part after `elf_load`. -/
def startProgram (s : ExecState) (cur : Fin Tasking.maxTasks) (entry : Word) (pl : ℕ)
    (argv envp : Word) (nargs nenv : ℕ) (slen : Word) (m : PageTables) : Option ExecState := do
  let (tls, m) ← execPages s.cr3 (tlsAddr cur) (BitVec.ofNat 64 (s.sys.kernel.tasks cur).id) m
  let m ← execBlock s.cr3 pl argv envp nargs nenv slen m
  some (s.started cur (startFrame entry (execArr nargs nenv slen)) tls m)

/-- The part after the file is read. -/
def execImage (s : ExecState) (cur : Fin Tasking.maxTasks) (pl : ℕ) (argv envp : Word)
    (image : Image) : ExecOutcome :=
  match countArguments s.view pl argv envp with
  | none => .fault
  | some (nargs, nenv, slen) =>
      match vmmNewUserPml4 s.memory s.cr3 with
      | (none, m) => .returned (-eigenErrNoMem) { s with memory := m }
      | (some root, m) =>
          match (elfLoad image root m).2 with
          | .fault => .fault
          | .refused m => .returned (-eigenErrNoEnt) (s.enter root m)
          | .done m =>
              .started (startProgram (s.enter root m) cur image.eEntry pl argv envp nargs nenv slen m)

/-- The staging buffer after `fs_read_at`. -/
def stagedFile (s : ExecState) (bytes : List UInt8) : Word → Byte :=
  fun offset => (bytes[offset.toNat]?.map UInt8.toBitVec).getD (s.elfbuf offset)

/-- How many bytes `fs_read_at` copies. -/
def copiedBytes (file : FileNode) (got : ℤ) : ℕ := if file.data.isSome then got.toNat else 0

/-- The part after `fs_open`, with the number of bytes that are copied to the staging buffer. -/
def execFile (s : ExecState) (cur : Fin Tasking.maxTasks) (pl : ℕ) (argv envp : Word)
    (idx : Slot) : ℕ × ExecOutcome :=
  let file := s.sys.io.files idx
  let size := nodeSize file
  if size ≤ 0 ∨ maxImage < size then (0, .returned (-eigenErrNoMem) s)
  else
    let (got, bytes) := Descriptors.fsReadAt s.sys.io.files idx.val size 0
    let copied := copiedBytes file got
    if stagingSize < copied then (copied, .overrun)
    else
      let s := { s with elfbuf := stagedFile s bytes }
      if got ≠ size then (copied, .returned (-eigenErrNoEnt) s)
      else (copied, execImage s cur pl argv envp ⟨s.elfbuf, BitVec.ofInt 64 size⟩)

/-- A string of bytes as one of a file name. -/
def pathString (text : Text) : CString where
  bytes := (text.map UInt8.ofBitVec).takeWhile (· ≠ 0)
  noNul := fun h => by simpa using List.mem_takeWhile_imp h

/-- `sys_execve`, with the number of bytes that are copied to the staging buffer. -/
def sysExecve (s : ExecState) (path argv envp : Word) : ℕ × ExecOutcome :=
  match s.sys.kernel.current with
  | none => (0, .returned (-eigenErrInval) s)
  | some cur =>
      if (s.sys.kernel.tasks cur).ring ≠ .ring3 ∨ path = 0#64 then
        (0, .returned (-eigenErrInval) s)
      else
        match cutText s.view 255 path with
        | none => (0, .fault)
        | some [] => (0, .returned (-eigenErrInval) s)
        | some text =>
            match Filesystem.fsResolveImpl s.sys.io.files s.sys.cwd (pathString text) with
            | none => (0, .returned (-eigenErrNoEnt) s)
            | some idx => execFile s cur text.length argv envp idx

end EigenOS.Programs
