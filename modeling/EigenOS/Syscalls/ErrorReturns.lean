import EigenOS.Descriptors.Readiness
import EigenOS.Syscalls.PosixCalls
import EigenOS.Tasking.ThreadGroups

/-!
# Error returns

A negative value is an error.  `eigen.h` gives its error codes as negative numbers, and most
of the calls for ported programs negate them.
-/

namespace EigenOS.Posix

open EigenOS.Descriptors (Io Pty Transfer Vfs toInt)
open EigenOS.Filesystem (Caller CString FileNode Slot Table cString slash slotAt)
open EigenOS.Tasking (FdSlot FdType Kernel maxFds maxTasks toFd)

/-- The calls, with their arguments and with what they meet on their way. -/
inductive PosixCall where
  | fork (copied : Bool)
  | execve (resources : Resources) (path : Option CString)
  | stat (path : Option CString) (out : Bool)
  | fstat (fd : ℤ) (out : Bool)
  | access (path : Option CString)
  | getdents64 (fd : ℤ) (out : Bool) (count : UInt32)
  | getcwd (buf size : UInt64)
  | readv (vfs : Vfs) (woken : List Io) (fd : ℤ) (iov : Option (List UInt64))
  | writev (vfs : Vfs) (caller : Caller) (fd : ℤ) (iov : Option (List (List UInt8)))
  | ioctl (fd : ℤ) (req : ℕ) (arg : Option UInt32)
  | rtSigaction (sig : ℤ) (act : Option UInt64) (oact : Bool)
  | archPrctl (code : ℤ) (addr : UInt64)

/-- The value that is returned, if the call returns. -/
def PosixCall.result (sys : System) : PosixCall → Option ℤ
  | .fork copied => some (sysFork sys.kernel copied).1
  | .execve resources path => (sysExecve sys resources path).map Prod.fst
  | .stat path out => some (sysStat sys path out).1
  | .fstat fd out => some (sysFstat sys fd out).1
  | .access path => some (sysAccess sys path)
  | .getdents64 fd out count => some (sysGetdents64 sys fd out count).1
  | .getcwd buf size => some (sysGetcwd sys buf size).1
  | .readv vfs woken fd iov => (sysReadv vfs sys.io woken fd iov).map Prod.fst
  | .writev vfs caller fd iov => (sysWritev vfs caller sys.io fd iov).map Prod.fst
  | .ioctl fd req arg => some (sysIoctl sys fd req arg).1
  | .rtSigaction sig act oact => some (sysRtSigaction sys sig act oact).1
  | .archPrctl code addr => some (sysArchPrctl sys code addr).1

/-! ## What the calls are for -/

section Performed

variable (sys : System)

def Resolves (path : CString) (node : Slot) : Prop :=
  Filesystem.fsResolveImpl sys.io.files sys.cwd path = some node

/-- There is a new task with the number that is returned. -/
def Forked (copied : Bool) : Prop :=
  ∃ t, (sys.kernel.tasks t).state = .free ∧
    ((sysFork sys.kernel copied).2.tasks t).state = .ready ∧
    (((sysFork sys.kernel copied).2.tasks t).id : ℤ) = (sysFork sys.kernel copied).1

def Started (resources : Resources) (path : Option CString) : Prop :=
  ∃ name node entry ret, path = some name ∧ Resolves sys (execPath name) node ∧
    resources.elfLoad (imageOf (sys.io.files node)) = some entry ∧
    sysExecve sys resources path = some (ret, some entry)

/-- The children of a directory from some number on that have a name. -/
def namedFrom (slot : FdSlot) : List Slot :=
  ((children sys.io.files (slot.flags - 1)).drop slot.offset).filter fun child =>
    cString (sys.io.files child).name ≠ []

/-- A descriptor of a directory. -/
def OpenDir (slot : FdSlot) : Prop :=
  0 < slot.flags ∧ slot.flags - 1 < Filesystem.maxFiles ∧
    (sys.io.files (slotAt (slot.flags - 1 : ℕ))).type = .directory

/-- Entries of a directory are stored, or there are none left. -/
def Listed (fd : ℤ) (out : Bool) (count : UInt32) : Prop :=
  ∃ f, toFd fd = some f ∧ sys.kernel.current ≠ none ∧ out = true ∧ OpenDir sys (sys.io.fds f) ∧
    ((sysGetdents64 sys fd out count).2.1 ≠ [] ∨ namedFrom sys (sys.io.fds f) = [])

/-- The path of a directory: the names on the way to it, each after a slash. -/
inductive PathOf (files : Table) : ℤ → List UInt8 → Prop
  | root {dir : ℤ} (hdir : dir ≤ 0) : PathOf files dir []
  | under {dir : ℤ} {path : List UInt8} (hdir : 0 < dir)
      (hparent : PathOf files (files (slotAt dir)).parentDir path) :
      PathOf files dir (path ++ slash :: cString (files (slotAt dir)).name)

/-- The path of the current directory is stored, with its end. -/
def PathStored (buf size : UInt64) : Prop :=
  ∃ path, PathOf sys.io.files sys.cwd.val path ∧
    (sysGetcwd sys buf size).2 = some (slash :: path ++ [0])

/-- What an `ioctl` of a terminal asks for is stored or set. -/
def Controlled (fd : ℤ) (req : ℕ) (arg : Option UInt32) : Prop :=
  ∃ f, toFd fd = some f ∧ sys.kernel.current ≠ none ∧ (sys.io.fds f).type = .pty ∧
    let idx := (sys.io.fds f).pty
    let pty := sys.io.ptys idx
    pty.used = true ∧
      (req = tiocgwinsz ∧
          (sysIoctl sys fd req arg).2.1 = .winsize pty.rows.toUInt16 pty.cols.toUInt16 ∨
        req = tiocgpgrp ∧ (sysIoctl sys fd req arg).2.1 = .group pty.fgPid ∨
        req = tiocspgrp ∧ ((sysIoctl sys fd req arg).2.2.ptys idx).fgPid = arg.getD 0)

/-- The old handler is stored and the new one set, as far as they are asked for. -/
def HandlerSet (sig : ℤ) (act : Option UInt64) (oact : Bool) : Prop :=
  ∃ s, toSignal sig = some s ∧ sys.kernel.current ≠ none ∧
    (oact = true → (sysRtSigaction sys sig act oact).2.1 = some (sys.sigHandlers s)) ∧
    ∀ handler, act = some handler → (sysRtSigaction sys sig act oact).2.2 s = handler

def PosixCall.Performed : PosixCall → Prop
  | .fork copied => Forked sys copied
  | .execve resources path => Started sys resources path
  | .stat path out =>
      ∃ name node, path = some name ∧ Resolves sys name node ∧
        (sysStat sys path out).2 = some (fillKstat sys.io.files node.val)
  | .fstat fd out =>
      ∃ f, toFd fd = some f ∧ 0 < (sys.io.fds f).flags ∧
        (sysFstat sys fd out).2 = some (fillKstat sys.io.files ((sys.io.fds f).flags - 1))
  | .access path => ∃ name node, path = some name ∧ Resolves sys name node
  | .getdents64 fd out count => Listed sys fd out count
  | .getcwd buf size => PathStored sys buf size
  | .readv vfs woken fd iov =>
      ∃ len rest transfer left, iov = some (len :: rest) ∧
        readAwake vfs fd len.toUInt32.toNat sys.io woken = some (transfer, left) ∧
        0 ≤ transfer.ret
  | .writev vfs caller fd iov =>
      ∃ buf rest n after, iov = some (buf :: rest) ∧
        Descriptors.sysWrite vfs sys.io caller fd (buf.take (buf.length % 2 ^ 32)) =
          some (n, after) ∧ 0 ≤ n
  | .ioctl fd req arg => Controlled sys fd req arg
  | .rtSigaction sig act oact => HandlerSet sys sig act oact
  | .archPrctl code addr =>
      code = archSetFs ∧ (sysArchPrctl sys code addr).2.2 = addr ∨
        code = archGetFs ∧ (sysArchPrctl sys code addr).2.1 = some sys.fsBase ∨
        code = archGetGs ∧ (sysArchPrctl sys code addr).2.1 = some 0

/-- A call that returns without doing what it is for returns an error. -/
def PosixCall.Honest (call : PosixCall) : Prop :=
  ∀ ret, call.result sys = some ret → ¬ call.Performed sys → ret < 0

end Performed

/-! ## When the calls return an error -/

section Accepted

variable (sys : System)

/-- Every child that could be next in a listing fits. -/
def NextFits (slot : FdSlot) (count : UInt32) : Prop :=
  ∀ child rest, namedFrom sys slot = child :: rest →
    (direntOf (sys.io.files child) 0).reclen ≤ count.toNat

/-- The arguments are taken and what is needed is there, or the call is refused with a code
that is negative. -/
def PosixCall.Accepted : PosixCall → Prop
  | .fork copied =>
      ∀ cur, sys.kernel.current = some cur → (sys.kernel.tasks cur).ring = .ring3 →
        sys.kernel.freeTask ≠ none ∧ copied = true
  | .execve resources path =>
      ∃ cur name node, sys.kernel.current = some cur ∧ (sys.kernel.tasks cur).ring = .ring3 ∧
        path = some name ∧ name.bytes ≠ [] ∧ Resolves sys (execPath name) node ∧
        0 < nodeSize (sys.io.files node) ∧ nodeSize (sys.io.files node) ≤ maxImage ∧
        (stagingSize < nodeSize (sys.io.files node) ∨
          resources.pageTables = true ∧
            (resources.elfLoad (imageOf (sys.io.files node))).isSome = true)
  | .stat path out => ∃ name node, path = some name ∧ Resolves sys name node ∧ out = true
  | .fstat fd out =>
      ∃ f, toFd fd = some f ∧ sys.kernel.current ≠ none ∧ out = true ∧
        0 < (sys.io.fds f).flags
  | .access path => ∃ name node, path = some name ∧ Resolves sys name node
  | .getdents64 fd out count =>
      ∃ f, toFd fd = some f ∧ sys.kernel.current ≠ none ∧ out = true ∧
        (0 < (sys.io.fds f).flags →
          OpenDir sys (sys.io.fds f) ∧ NextFits sys (sys.io.fds f) count)
  | .getcwd buf size =>
      buf ≠ 0 ∧ size ≠ 0 ∧
        (asLong buf < 0 ∨ ∃ path, PathOf sys.io.files sys.cwd.val path ∧
          path.length < pwdMax ∧ (path.length : ℤ) + 2 ≤ toInt size.toNat)
  | .readv _ _ _ iov => ∃ len rest, iov = some (len :: rest)
  | .writev _ _ _ iov => ∃ buf rest, iov = some (buf :: rest)
  | .ioctl fd req arg =>
      ∃ f, toFd fd = some f ∧ sys.kernel.current ≠ none ∧ (sys.io.fds f).type = .pty ∧
        (req = tiocspgrp ∨ (req = tiocgwinsz ∨ req = tiocgpgrp) ∧ arg ≠ none ∧
          (sys.io.ptys (sys.io.fds f).pty).used = true)
  | .rtSigaction sig _ _ => 0 < sig ∧ sig < nsig ∧ sys.kernel.current ≠ none
  | .archPrctl code addr =>
      sys.kernel.current ≠ none →
        code = archSetFs ∨ (code = archGetFs ∨ code = archGetGs) ∧ addr ≠ 0

end Accepted

section Calls

variable (sys : System)

theorem honest_of_result (call : PosixCall) {ret : ℤ} (h : call.result sys = some ret) :
    call.Honest sys ↔ (¬ call.Performed sys → ret < 0) := by
  unfold PosixCall.Honest
  rw [h]
  simp

/-- A call that is refused with a positive value is not honest, and neither is it accepted. -/
theorem honest_iff_of_refused (call : PosixCall) (ret : ℤ) (h : call.result sys = some ret)
    (hret : 0 ≤ ret) (hperformed : ¬ call.Performed sys) (haccepted : ¬ call.Accepted sys) :
    call.Honest sys ↔ call.Accepted sys := by
  rw [honest_of_result sys call h]
  exact iff_of_false (fun hhonest => absurd (hhonest hperformed) (not_lt.mpr hret)) haccepted

theorem honest_iff_of_performed {call : PosixCall} (hperformed : call.Performed sys)
    (haccepted : call.Accepted sys) : call.Honest sys ↔ call.Accepted sys :=
  iff_of_true (fun _ _ hnot => absurd hperformed hnot) haccepted

theorem honest_iff_of_negative (call : PosixCall) (ret : ℤ)
    (h : call.result sys = some ret) (hret : ret < 0) (haccepted : call.Accepted sys) :
    call.Honest sys ↔ call.Accepted sys := by
  rw [honest_of_result sys call h]
  exact iff_of_true (fun _ => hret) haccepted

/-! ### Processes -/

theorem sysFork_free {k : Kernel} {cur t : Fin maxTasks} (hcur : k.current = some cur)
    (hring : (k.tasks cur).ring = .ring3) (hfree : k.freeTask = some t) (copied : Bool) :
    sysFork k copied =
      (if copied then (k.nextTaskId : ℤ) else -eigenErrNoMem, Tasking.sysFork k cur copied) := by
  unfold sysFork
  rw [hcur]
  dsimp only
  rw [if_neg (not_not_intro hring), hfree]

theorem state_sysFork_false {k : Kernel} {cur t : Fin maxTasks}
    (hring : (k.tasks cur).ring = .ring3) (hfree : k.freeTask = some t) {u : Fin maxTasks}
    (hu : (k.tasks u).state = .free) :
    ((Tasking.sysFork k cur false).tasks u).state = .free := by
  unfold Tasking.sysFork
  rw [if_pos hring, hfree]
  by_cases hut : u = t
  · subst hut
    simp [Kernel.setTask, Tasking.forkChild, Tasking.Task.zero]
  · simp [Kernel.setTask, hut, hu]

theorem state_sysFork_true {k : Kernel} {cur t : Fin maxTasks}
    (hring : (k.tasks cur).ring = .ring3) (hfree : k.freeTask = some t) :
    ((Tasking.sysFork k cur true).tasks t).state = .ready := by
  unfold Tasking.sysFork
  rw [if_pos hring, hfree]
  simp [Kernel.setState, Kernel.setTask]

theorem honest_fork (copied : Bool) :
    (PosixCall.fork copied).Honest sys ↔ (PosixCall.fork copied).Accepted sys := by
  cases hcur : sys.kernel.current with
  | none =>
      have hfork : sysFork sys.kernel copied = (-1, sys.kernel) := by
        unfold sysFork
        rw [hcur]
      apply honest_iff_of_negative sys (.fork copied) (-1) (congrArg (some ∘ Prod.fst) hfork)
        (by decide)
      intro cur hsome
      rw [hcur] at hsome
      cases hsome
  | some cur =>
      by_cases hring : (sys.kernel.tasks cur).ring = .ring3
      · cases hfree : sys.kernel.freeTask with
        | none =>
            have hfork : sysFork sys.kernel copied = (-eigenErrNoMem, sys.kernel) := by
              unfold sysFork
              rw [hcur]
              dsimp only
              rw [if_neg (not_not_intro hring), hfree]
            apply honest_iff_of_refused sys (.fork copied) (-eigenErrNoMem)
              (congrArg (some ∘ Prod.fst) hfork) (by decide)
            · rintro ⟨t, hbefore, hafter, _⟩
              rw [hfork, hbefore] at hafter
              cases hafter
            · intro haccepted
              exact (haccepted cur hcur hring).1 hfree
        | some t =>
            have hfork := sysFork_free hcur hring hfree copied
            cases copied with
            | false =>
                apply honest_iff_of_refused sys (.fork false) (-eigenErrNoMem)
                  (congrArg (some ∘ Prod.fst) hfork) (by decide)
                · rintro ⟨u, hbefore, hafter, _⟩
                  rw [hfork, state_sysFork_false hring hfree hbefore] at hafter
                  cases hafter
                · intro haccepted
                  exact absurd (haccepted cur hcur hring).2 (by decide)
            | true =>
                have hcreates := Tasking.creates_sysFork hfree hring true
                apply honest_iff_of_performed sys
                · refine ⟨t, Tasking.Kernel.freeTask_state hfree, ?_, ?_⟩
                  · rw [hfork]
                    exact state_sysFork_true hring hfree
                  · rw [hfork]
                    exact congrArg Nat.cast hcreates.id_new
                · intro other hother _
                  exact ⟨by rw [hfree]; exact Option.some_ne_none t, rfl⟩
      · have hfork : sysFork sys.kernel copied = (-1, sys.kernel) := by
          unfold sysFork
          rw [hcur]
          dsimp only
          rw [if_pos hring]
        apply honest_iff_of_negative sys (.fork copied) (-1) (congrArg (some ∘ Prod.fst) hfork)
          (by decide)
        intro other hother hring'
        rw [hcur] at hother
        cases hother
        exact absurd hring' hring

theorem fsReadAt_whole (files : Table) (idx : Slot) (hsize : 0 < nodeSize (files idx)) :
    (Descriptors.fsReadAt files idx.val (nodeSize (files idx)) 0).1 = nodeSize (files idx) := by
  unfold nodeSize at hsize ⊢
  cases huse : (files idx).inUse with
  | false =>
      rw [huse] at hsize
      exact absurd hsize (lt_irrefl 0)
  | true =>
      rw [huse, if_pos rfl] at hsize
      unfold Descriptors.fsReadAt
      rw [if_pos rfl, if_neg (Nat.not_le.mpr idx.isLt)]
      dsimp only
      rw [Filesystem.slotAt_natCast, if_neg (by rw [huse]; decide), max_self,
        if_neg (not_le.mpr hsize)]
      simp

section Execve

variable (resources : Resources) (path : Option CString)

theorem honest_execve_of_refused {ret : ℤ} (h : sysExecve sys resources path = some (ret, none))
    (hret : 0 ≤ ret) (haccepted : ¬ (PosixCall.execve resources path).Accepted sys) :
    (PosixCall.execve resources path).Honest sys ↔
      (PosixCall.execve resources path).Accepted sys := by
  apply honest_iff_of_refused sys (.execve resources path) ret
    (congrArg (Option.map Prod.fst) h) hret _ haccepted
  rintro ⟨_, _, _, _, _, _, _, hstarted⟩
  rw [h] at hstarted
  cases hstarted

theorem honest_execve_of_none (h : sysExecve sys resources path = none)
    (haccepted : (PosixCall.execve resources path).Accepted sys) :
    (PosixCall.execve resources path).Honest sys ↔
      (PosixCall.execve resources path).Accepted sys := by
  apply iff_of_true _ haccepted
  intro ret hret
  cases (congrArg (Option.map Prod.fst) h).symm.trans hret

theorem honest_execve_found {name : CString} {node : Slot} {cur : Fin maxTasks}
    (hcur : sys.kernel.current = some cur) (hring : (sys.kernel.tasks cur).ring = .ring3)
    (hname : name.bytes ≠ []) (hnode : Resolves sys (execPath name) node)
    (hexec : sysExecve sys resources (some name) = execNode sys.io.files resources node) :
    (PosixCall.execve resources (some name)).Honest sys ↔
      (PosixCall.execve resources (some name)).Accepted sys := by
  have haccepted : (PosixCall.execve resources (some name)).Accepted sys ↔
      0 < nodeSize (sys.io.files node) ∧ nodeSize (sys.io.files node) ≤ maxImage ∧
        (stagingSize < nodeSize (sys.io.files node) ∨ resources.pageTables = true ∧
          (resources.elfLoad (imageOf (sys.io.files node))).isSome = true) := by
    constructor
    · rintro ⟨_, other, found, _, _, hother, _, hfound, henough⟩
      cases hother
      rw [Option.some.inj (hfound.symm.trans hnode)] at henough
      exact henough
    · intro henough
      exact ⟨cur, name, node, hcur, hring, rfl, hname, hnode, henough⟩
  rw [execNode] at hexec
  by_cases hsize : nodeSize (sys.io.files node) ≤ 0 ∨ maxImage < nodeSize (sys.io.files node)
  · rw [if_pos hsize] at hexec
    apply honest_execve_of_refused sys resources _ hexec (by decide)
    rw [haccepted]
    rintro ⟨hpos, hmax, _⟩
    exact hsize.elim (not_le.mpr hpos) (not_lt.mpr hmax)
  · rw [if_neg hsize] at hexec
    obtain ⟨hpos, hmax⟩ := not_or.mp hsize
    rw [not_le] at hpos
    rw [not_lt] at hmax
    by_cases hstaging : stagingSize < nodeSize (sys.io.files node)
    · rw [if_pos hstaging] at hexec
      apply honest_execve_of_none sys resources _ hexec
      exact haccepted.mpr ⟨hpos, hmax, Or.inl hstaging⟩
    · rw [if_neg hstaging, fsReadAt_whole _ node hpos, if_neg (not_not_intro rfl), startImage]
        at hexec
      cases htables : resources.pageTables with
      | false =>
          rw [if_pos htables] at hexec
          apply honest_execve_of_refused sys resources _ hexec (by decide)
          rw [haccepted]
          simp [hstaging, htables]
      | true =>
          rw [if_neg (by rw [htables]; decide)] at hexec
          cases helf : resources.elfLoad (imageOf (sys.io.files node)) with
          | none =>
              rw [helf] at hexec
              apply honest_execve_of_refused sys resources _ hexec (by decide)
              rw [haccepted]
              simp [hstaging, helf]
          | some entry =>
              rw [helf] at hexec
              have hyes := haccepted.mpr ⟨hpos, hmax, Or.inr ⟨htables, by rw [helf]; rfl⟩⟩
              cases hstack : resources.userStack with
              | false =>
                  simp only [hstack, Bool.false_eq_true, if_false] at hexec
                  exact honest_execve_of_none sys resources _ hexec hyes
              | true =>
                  simp only [hstack, if_true] at hexec
                  apply honest_iff_of_performed sys _ hyes
                  exact ⟨name, node, entry, 0, rfl, hnode, helf, hexec⟩

theorem honest_execve :
    (PosixCall.execve resources path).Honest sys ↔
      (PosixCall.execve resources path).Accepted sys := by
  cases hcur : sys.kernel.current with
  | none =>
      have hexec : sysExecve sys resources path = some (-eigenErrInval, none) := by
        unfold sysExecve
        rw [hcur]
      apply honest_execve_of_refused sys resources path hexec (by decide)
      rintro ⟨cur, _, _, hsome, _⟩
      rw [hcur] at hsome
      cases hsome
  | some cur =>
      cases path with
      | none =>
          have hexec : sysExecve sys resources none = some (-eigenErrInval, none) := by
            unfold sysExecve
            rw [hcur]
          apply honest_execve_of_refused sys resources none hexec (by decide)
          rintro ⟨_, _, _, _, _, hnone, _⟩
          cases hnone
      | some name =>
          have hexec : sysExecve sys resources (some name) =
              if (sys.kernel.tasks cur).ring ≠ .ring3 ∨ name.bytes = [] then
                some (-eigenErrInval, none)
              else ((Filesystem.fsResolveImpl sys.io.files sys.cwd (execPath name)).map
                (execNode sys.io.files resources)).getD (some (-eigenErrNoEnt, none)) := by
            unfold sysExecve
            rw [hcur]
            dsimp only
            cases Filesystem.fsResolveImpl sys.io.files sys.cwd (execPath name) with
            | none => rfl
            | some node => rfl
          by_cases hvalid : (sys.kernel.tasks cur).ring ≠ .ring3 ∨ name.bytes = []
          · rw [if_pos hvalid] at hexec
            apply honest_execve_of_refused sys resources _ hexec (by decide)
            rintro ⟨other, found, _, hother, hring, hfound, hname, _⟩
            rw [hcur] at hother
            cases hother
            cases hfound
            exact hvalid.elim (fun h => h hring) hname
          · rw [if_neg hvalid] at hexec
            obtain ⟨hring, hname⟩ := not_or.mp hvalid
            cases hnode : Filesystem.fsResolveImpl sys.io.files sys.cwd (execPath name) with
            | none =>
                rw [hnode] at hexec
                apply honest_execve_of_refused sys resources _ hexec (by decide)
                rintro ⟨_, found, _, _, _, hfound, _, hnode', _⟩
                cases hfound
                cases hnode.symm.trans hnode'
            | some node =>
                rw [hnode] at hexec
                exact honest_execve_found sys resources hcur (not_not.mp hring) hname hnode hexec

end Execve

/-! ### Files -/

theorem honest_stat (path : Option CString) (out : Bool) :
    (PosixCall.stat path out).Honest sys ↔ (PosixCall.stat path out).Accepted sys := by
  cases path with
  | none =>
      apply honest_iff_of_refused sys (.stat none out) (-eigenErrInval) rfl (by decide)
      · rintro ⟨_, _, hnone, _⟩
        cases hnone
      · rintro ⟨_, _, hnone, _⟩
        cases hnone
  | some name =>
      cases out with
      | false =>
          apply honest_iff_of_refused sys (.stat (some name) false) (-eigenErrInval) rfl (by decide)
          · rintro ⟨_, _, _, _, hstored⟩
            cases hstored
          · rintro ⟨_, _, _, _, hout⟩
            cases hout
      | true =>
          cases hnode : Filesystem.fsResolveImpl sys.io.files sys.cwd name with
          | none =>
              have hstat : sysStat sys (some name) true = (-eigenErrNoEnt, none) := by
                unfold sysStat
                dsimp only
                rw [if_neg (by decide), hnode]
              have hnot : ∀ found, ¬ Resolves sys name found := by
                intro found hfound
                cases hnode.symm.trans hfound
              apply honest_iff_of_refused sys (.stat (some name) true) (-eigenErrNoEnt)
                (congrArg (some ∘ Prod.fst) hstat) (by decide)
              · rintro ⟨_, found, hname, hfound, _⟩
                cases hname
                exact hnot found hfound
              · rintro ⟨_, found, hname, hfound, _⟩
                cases hname
                exact hnot found hfound
          | some node =>
              have hstat : sysStat sys (some name) true =
                  (0, some (fillKstat sys.io.files node.val)) := by
                unfold sysStat
                dsimp only
                rw [if_neg (by decide), hnode]
              apply honest_iff_of_performed sys
              · exact ⟨name, node, rfl, hnode, congrArg Prod.snd hstat⟩
              · exact ⟨name, node, rfl, hnode, rfl⟩

theorem honest_access (path : Option CString) :
    (PosixCall.access path).Honest sys ↔ (PosixCall.access path).Accepted sys := by
  by_cases hfound : (PosixCall.access path).Performed sys
  · exact honest_iff_of_performed sys hfound hfound
  · cases path with
    | none =>
        exact honest_iff_of_refused sys (.access none) (-eigenErrInval) rfl (by decide) hfound hfound
    | some name =>
        have haccess : sysAccess sys (some name) = -eigenErrNoEnt := by
          unfold sysAccess
          dsimp only
          cases hnode : Filesystem.fsResolveImpl sys.io.files sys.cwd name with
          | none => rfl
          | some node => exact absurd ⟨name, node, rfl, hnode⟩ hfound
        exact honest_iff_of_refused sys (.access (some name)) (-eigenErrNoEnt)
          (congrArg some haccess) (by decide) hfound hfound

theorem honest_fstat (fd : ℤ) (out : Bool) :
    (PosixCall.fstat fd out).Honest sys ↔ (PosixCall.fstat fd out).Accepted sys := by
  by_cases hyes : (PosixCall.fstat fd out).Accepted sys
  · obtain ⟨f, hfd, hcur, hout, hflags⟩ := id hyes
    obtain ⟨cur, hcur⟩ := Option.ne_none_iff_exists'.mp hcur
    have hstat : sysFstat sys fd out =
        (0, some (fillKstat sys.io.files ((sys.io.fds f).flags - 1))) := by
      unfold sysFstat
      rw [hcur, hfd]
      dsimp only
      rw [if_neg (by rw [hout]; decide), if_neg hflags.ne']
    exact honest_iff_of_performed sys ⟨f, hfd, hflags, congrArg Prod.snd hstat⟩ hyes
  · have hstat : sysFstat sys fd out = (-eigenErrInval, none) := by
      unfold sysFstat
      split
      · rename_i cur f hcur hfd
        split
        · rfl
        · rename_i hout
          split
          · rfl
          · rename_i hflags
            refine absurd ⟨f, hfd, ?_, by simpa using hout, Nat.pos_of_ne_zero hflags⟩ hyes
            rw [hcur]
            exact Option.some_ne_none cur
      · rfl
    apply honest_iff_of_refused sys (.fstat fd out) (-eigenErrInval)
      (congrArg (some ∘ Prod.fst) hstat) (by decide) _ hyes
    rintro ⟨_, _, _, hstored⟩
    rw [hstat] at hstored
    cases hstored

/-! ### Directories -/

theorem emitDirents_eq_nil_iff (files : Table) (room nth : ℕ) (nodes : List Slot) :
    (emitDirents files room nth nodes).1 = [] ↔
      ∀ child rest, nodes.filter (fun node => cString (files node).name ≠ []) = child :: rest →
        room < (direntOf (files child) 0).reclen := by
  induction nodes generalizing nth with
  | nil => simp [emitDirents]
  | cons head rest ih =>
      rw [emitDirents]
      dsimp only
      by_cases hname : (direntOf (files head) nth).name = []
      · rw [if_pos hname, ih, List.filter_cons_of_neg (by simpa [direntOf] using hname)]
      · rw [if_neg hname, List.filter_cons_of_pos (by simpa [direntOf] using hname)]
        by_cases hroom : room < (direntOf (files head) nth).reclen
        · rw [if_pos hroom]
          simp only [List.cons.injEq, and_imp, true_iff]
          intro child more hchild _
          rw [← hchild]
          exact hroom
        · rw [if_neg hroom]
          simp only [List.cons_ne_nil, List.cons.injEq, and_imp, false_iff, not_forall]
          exact ⟨head, _, rfl, rfl, hroom⟩

theorem sysGetdents64_listing {fd : ℤ} {f : Fin maxFds} (hfd : toFd fd = some f)
    (hcur : sys.kernel.current ≠ none) (hflags : 0 < (sys.io.fds f).flags) (count : UInt32) :
    (sysGetdents64 sys fd true count).2.1 = (emitDirents sys.io.files count.toNat
        (sys.io.fds f).offset ((children sys.io.files ((sys.io.fds f).flags - 1)).drop
          (sys.io.fds f).offset)).1 ∧
      0 ≤ (sysGetdents64 sys fd true count).1 := by
  obtain ⟨cur, hcur⟩ := Option.ne_none_iff_exists'.mp hcur
  unfold sysGetdents64
  rw [hcur, hfd]
  dsimp only
  rw [if_neg (by decide), if_neg hflags.ne']
  exact ⟨rfl, Int.natCast_nonneg _⟩

theorem listed_iff {fd : ℤ} {f : Fin maxFds} (hfd : toFd fd = some f)
    (hcur : sys.kernel.current ≠ none) (hflags : 0 < (sys.io.fds f).flags) (count : UInt32) :
    Listed sys fd true count ↔
      OpenDir sys (sys.io.fds f) ∧ NextFits sys (sys.io.fds f) count := by
  have hlisting := (sysGetdents64_listing sys hfd hcur hflags count).1
  have hempty := emitDirents_eq_nil_iff sys.io.files count.toNat (sys.io.fds f).offset
    ((children sys.io.files ((sys.io.fds f).flags - 1)).drop (sys.io.fds f).offset)
  rw [← hlisting] at hempty
  have hnext : ((sysGetdents64 sys fd true count).2.1 ≠ [] ∨ namedFrom sys (sys.io.fds f) = []) ↔
      NextFits sys (sys.io.fds f) count := by
    constructor
    · rintro (hsome | hnone) child rest hnamed
      · by_contra hroom
        apply hsome
        apply hempty.mpr
        intro other more hother
        rw [namedFrom, hother, List.cons.injEq] at hnamed
        rw [hnamed.1]
        exact not_le.mp hroom
      · rw [hnone] at hnamed
        cases hnamed
    · intro hfits
      cases hnamed : namedFrom sys (sys.io.fds f) with
      | nil => exact Or.inr rfl
      | cons child rest =>
          refine Or.inl fun hnil => ?_
          exact absurd (hempty.mp hnil child rest hnamed) (not_lt.mpr (hfits child rest hnamed))
  constructor
  · rintro ⟨g, hg, _, _, hdir, hsome⟩
    cases hfd.symm.trans hg
    exact ⟨hdir, hnext.mp hsome⟩
  · rintro ⟨hdir, hfits⟩
    exact ⟨f, hfd, hcur, rfl, hdir, hnext.mpr hfits⟩

theorem honest_getdents64 (fd : ℤ) (out : Bool) (count : UInt32) :
    (PosixCall.getdents64 fd out count).Honest sys ↔
      (PosixCall.getdents64 fd out count).Accepted sys := by
  by_cases htaken : ∃ f, toFd fd = some f ∧ sys.kernel.current ≠ none ∧ out = true
  · obtain ⟨f, hfd, hcur, rfl⟩ := htaken
    by_cases hflags : 0 < (sys.io.fds f).flags
    · have hret := (sysGetdents64_listing sys hfd hcur hflags count).2
      have haccepted : (PosixCall.getdents64 fd true count).Accepted sys ↔
          Listed sys fd true count := by
        rw [listed_iff sys hfd hcur hflags]
        constructor
        · rintro ⟨g, hg, _, _, h⟩
          cases hfd.symm.trans hg
          exact h hflags
        · intro h
          exact ⟨f, hfd, hcur, rfl, fun _ => h⟩
      rw [honest_of_result sys (.getdents64 fd true count) rfl, haccepted]
      constructor
      · intro hhonest
        by_contra hnot
        exact absurd (hhonest hnot) (not_lt.mpr hret)
      · intro hlisted hnot
        exact absurd hlisted hnot
    · have hcall : sysGetdents64 sys fd true count = (-eBadF, [], sys.io) := by
        obtain ⟨cur, hsome⟩ := Option.ne_none_iff_exists'.mp hcur
        unfold sysGetdents64
        rw [hsome, hfd]
        dsimp only
        rw [if_neg (by decide), if_pos (Nat.eq_zero_of_not_pos hflags)]
      apply honest_iff_of_negative sys (.getdents64 fd true count) (-eBadF)
        (congrArg (some ∘ Prod.fst) hcall) (by decide)
      exact ⟨f, hfd, hcur, rfl, fun h => absurd h hflags⟩
  · have hcall : sysGetdents64 sys fd out count = (-eigenErrInval, [], sys.io) := by
      unfold sysGetdents64
      split
      · rename_i cur f hcur hfd
        dsimp only
        rw [if_pos]
        by_contra hout
        refine htaken ⟨f, hfd, ?_, by simpa using hout⟩
        rw [hcur]
        exact Option.some_ne_none cur
      · rfl
    apply honest_iff_of_refused sys (.getdents64 fd out count) (-eigenErrInval)
      (congrArg (some ∘ Prod.fst) hcall) (by decide)
    · rintro ⟨f, hfd, hcur, hout, _⟩
      exact htaken ⟨f, hfd, hcur, hout⟩
    · rintro ⟨f, hfd, hcur, hout, _⟩
      exact htaken ⟨f, hfd, hcur, hout⟩

/-! ### The current directory -/

theorem pwdUp_eq {files : Table} {dir : ℤ} {path : List UInt8} (hpath : PathOf files dir path)
    {rounds : ℕ} {text : List UInt8} (hrounds : pwdMax ≤ rounds + text.length)
    (hshort : text.length + path.length < pwdMax) :
    pwdUp files rounds dir text = text ++ path.reverse := by
  induction hpath generalizing rounds text with
  | root hdir =>
      cases rounds with
      | zero => simp [pwdUp]
      | succ rounds => simp [pwdUp, hdir]
  | @under dir path hdir hparent ih =>
      rw [List.length_append, List.length_cons] at hshort
      cases rounds with
      | zero => omega
      | succ rounds =>
          have hfits : ¬ pwdMax ≤ text.length + (cString (files (slotAt dir)).name).length + 1 := by
            omega
          rw [pwdUp, if_neg (not_le.mpr hdir)]
          dsimp only
          rw [if_neg hfits, ih]
          · simp
          · simp only [List.length_append, List.length_reverse, List.length_singleton]
            omega
          · simp only [List.length_append, List.length_reverse, List.length_singleton]
            omega

theorem length_pwdUp_lt (files : Table) (rounds : ℕ) (dir : ℤ) (text : List UInt8)
    (htext : text.length < pwdMax) : (pwdUp files rounds dir text).length < pwdMax := by
  induction rounds generalizing dir text with
  | zero => exact htext
  | succ rounds ih =>
      rw [pwdUp]
      by_cases hdir : dir ≤ 0
      · rw [if_pos hdir]
        exact htext
      · rw [if_neg hdir]
        dsimp only
        by_cases hlong : pwdMax ≤ text.length + (cString (files (slotAt dir)).name).length + 1
        · rw [if_pos hlong]
          exact htext
        · rw [if_neg hlong]
          apply ih
          simp only [List.length_append, List.length_reverse, List.length_singleton]
          omega

theorem PathOf.nil_of_root {files : Table} {dir : ℤ} {path : List UInt8}
    (hpath : PathOf files dir path) (hdir : dir ≤ 0) : path = [] := by
  cases hpath with
  | root => rfl
  | under hpos => exact absurd hdir (not_le.mpr hpos)

theorem PathOf.length_pos {files : Table} {dir : ℤ} {path : List UInt8}
    (hpath : PathOf files dir path) (hdir : 0 < dir) : 0 < path.length := by
  cases hpath with
  | root hroot => exact absurd hdir (not_lt.mpr hroot)
  | under =>
      rw [List.length_append, List.length_cons]
      omega

theorem fsPwd_stores_iff {files : Table} {dir : Slot} {path : List UInt8}
    (hpath : PathOf files dir.val path) (maxLen : ℤ) :
    (fsPwd files dir maxLen).2 = some (slash :: path ++ [0]) ↔
      path.length < pwdMax ∧ (path.length : ℤ) + 2 ≤ maxLen := by
  unfold fsPwd
  by_cases hroot : dir = Filesystem.rootSlot
  · have hnil : path = [] := hpath.nil_of_root (by rw [hroot]; decide)
    subst hnil
    rw [if_pos hroot]
    dsimp only
    by_cases hlen : 1 < maxLen
    · rw [if_pos hlen]
      exact iff_of_true rfl ⟨by decide, by simp only [List.length_nil]; omega⟩
    · rw [if_neg hlen]
      apply iff_of_false (by simp)
      rintro ⟨_, hlen'⟩
      simp only [List.length_nil] at hlen'
      omega
  · have hpos : (0 : ℤ) < dir.val := by
      have hne : dir.val ≠ 0 := fun h => hroot (Fin.ext h)
      omega
    have hlong := hpath.length_pos hpos
    rw [if_neg hroot]
    dsimp only
    rw [Option.some.injEq, List.cons_append, List.cons_append, List.cons.injEq,
      List.append_left_inj]
    constructor
    · rintro ⟨_, hcopied⟩
      have hlength := congrArg List.length hcopied
      have hcut := length_pwdUp_lt files pwdMax dir.val [] (by decide)
      rw [List.length_take, List.length_reverse] at hlength
      omega
    · rintro ⟨hshort, hfits⟩
      refine ⟨rfl, ?_⟩
      rw [pwdUp_eq hpath (by simp) (by simpa using hshort), List.nil_append, List.reverse_reverse]
      apply List.take_of_length_le
      omega

theorem honest_getcwd (buf size : UInt64) :
    (PosixCall.getcwd buf size).Honest sys ↔ (PosixCall.getcwd buf size).Accepted sys := by
  by_cases hnull : buf = 0 ∨ size = 0
  · have hcall : sysGetcwd sys buf size = (-eigenErrInval, none) := by
      unfold sysGetcwd
      rw [if_pos hnull]
    apply honest_iff_of_refused sys (.getcwd buf size) (-eigenErrInval)
      (congrArg (some ∘ Prod.fst) hcall) (by decide)
    · rintro ⟨_, _, hstored⟩
      rw [hcall] at hstored
      cases hstored
    · rintro ⟨hbuf, hsize, _⟩
      exact hnull.elim hbuf hsize
  · have hcall : sysGetcwd sys buf size =
        (asLong buf, (fsPwd sys.io.files sys.cwd (toInt size.toNat)).2) := by
      have hpos : 0 < (fsPwd sys.io.files sys.cwd (toInt size.toNat)).1 := by
        unfold fsPwd
        split
        · exact Int.one_pos
        · dsimp only
          omega
      unfold sysGetcwd
      rw [if_neg hnull]
      dsimp only
      rw [if_pos hpos]
    have hstored : PathStored sys buf size ↔ ∃ path, PathOf sys.io.files sys.cwd.val path ∧
        path.length < pwdMax ∧ (path.length : ℤ) + 2 ≤ toInt size.toNat := by
      unfold PathStored
      rw [hcall]
      apply exists_congr
      intro path
      apply and_congr_right
      intro hpath
      exact fsPwd_stores_iff hpath (toInt size.toNat)
    obtain ⟨hbuf, hsize⟩ := not_or.mp hnull
    rw [honest_of_result sys (.getcwd buf size) (congrArg (some ∘ Prod.fst) hcall)]
    change (¬ PathStored sys buf size → _) ↔ buf ≠ 0 ∧ size ≠ 0 ∧ (_ ∨ _)
    rw [← hstored]
    constructor
    · intro hhonest
      refine ⟨hbuf, hsize, ?_⟩
      by_cases hyes : PathStored sys buf size
      · exact Or.inr hyes
      · exact Or.inl (hhonest hyes)
    · rintro ⟨_, _, hneg | hyes⟩ hnot
      · exact hneg
      · exact absurd hyes hnot

/-! ### Vectors -/

theorem readVectors_of_failed {vfs : Vfs} {fd : ℤ} {io : Io} {woken left : List Io}
    {len : UInt64} {transfer : Transfer}
    (hread : readAwake vfs fd len.toUInt32.toNat io woken = some (transfer, left))
    (hret : transfer.ret < 0) (rest : List UInt64) :
    readVectors vfs fd io woken 0 (len :: rest) = some (transfer.ret, [], transfer.io) := by
  rw [readVectors, hread]
  dsimp only
  rw [if_pos hret, if_neg (not_not_intro rfl)]

theorem honest_readv (vfs : Vfs) (woken : List Io) (fd : ℤ) (iov : Option (List UInt64)) :
    (PosixCall.readv vfs woken fd iov).Honest sys ↔
      (PosixCall.readv vfs woken fd iov).Accepted sys := by
  rcases iov with _ | _ | ⟨len, rest⟩
  · apply honest_iff_of_refused sys (.readv vfs woken fd none) (-eigenErrInval) rfl (by decide)
    · rintro ⟨_, _, _, _, hnone, _⟩
      cases hnone
    · rintro ⟨_, _, hnone⟩
      cases hnone
  · apply honest_iff_of_refused sys (.readv vfs woken fd (some [])) (-eigenErrInval) rfl
      (by decide)
    · rintro ⟨_, _, _, _, hnil, _⟩
      cases hnil
    · rintro ⟨_, _, hnil⟩
      cases hnil
  · have hyes : (PosixCall.readv vfs woken fd (some (len :: rest))).Accepted sys :=
      ⟨len, rest, rfl⟩
    cases hread : readAwake vfs fd len.toUInt32.toNat sys.io woken with
    | none =>
        apply iff_of_true _ hyes
        intro ret hret
        change (readVectors vfs fd sys.io woken 0 (len :: rest)).map Prod.fst = some ret at hret
        rw [readVectors, hread] at hret
        cases hret
    | some result =>
        obtain ⟨transfer, left⟩ := result
        by_cases hret : transfer.ret < 0
        · exact honest_iff_of_negative sys (.readv vfs woken fd (some (len :: rest)))
            transfer.ret (congrArg (Option.map Prod.fst) (readVectors_of_failed hread hret rest))
            hret hyes
        · exact honest_iff_of_performed sys
            ⟨len, rest, transfer, left, rfl, hread, not_lt.mp hret⟩ hyes

theorem writeVectors_of_failed {vfs : Vfs} {caller : Caller} {fd n : ℤ} {io after : Io}
    {buf : List UInt8}
    (hwrite : Descriptors.sysWrite vfs io caller fd (buf.take (buf.length % 2 ^ 32)) =
      some (n, after)) (hret : n < 0) (rest : List (List UInt8)) :
    writeVectors vfs caller fd io 0 (buf :: rest) = some (n, after) := by
  rw [writeVectors, hwrite]
  dsimp only
  rw [if_pos hret, if_neg (not_not_intro rfl)]

theorem honest_writev (vfs : Vfs) (caller : Caller) (fd : ℤ) (iov : Option (List (List UInt8))) :
    (PosixCall.writev vfs caller fd iov).Honest sys ↔
      (PosixCall.writev vfs caller fd iov).Accepted sys := by
  rcases iov with _ | _ | ⟨buf, rest⟩
  · apply honest_iff_of_refused sys (.writev vfs caller fd none) (-eigenErrInval) rfl (by decide)
    · rintro ⟨_, _, _, _, hnone, _⟩
      cases hnone
    · rintro ⟨_, _, hnone⟩
      cases hnone
  · apply honest_iff_of_refused sys (.writev vfs caller fd (some [])) (-eigenErrInval) rfl
      (by decide)
    · rintro ⟨_, _, _, _, hnil, _⟩
      cases hnil
    · rintro ⟨_, _, hnil⟩
      cases hnil
  · have hyes : (PosixCall.writev vfs caller fd (some (buf :: rest))).Accepted sys :=
      ⟨buf, rest, rfl⟩
    cases hwrite : Descriptors.sysWrite vfs sys.io caller fd (buf.take (buf.length % 2 ^ 32)) with
    | none =>
        apply iff_of_true _ hyes
        intro ret hret
        change (writeVectors vfs caller fd sys.io 0 (buf :: rest)).map Prod.fst = some ret at hret
        rw [writeVectors, hwrite] at hret
        cases hret
    | some result =>
        obtain ⟨n, after⟩ := result
        by_cases hret : n < 0
        · exact honest_iff_of_negative sys (.writev vfs caller fd (some (buf :: rest))) n
            (congrArg (Option.map Prod.fst) (writeVectors_of_failed hwrite hret rest)) hret hyes
        · exact honest_iff_of_performed sys ⟨buf, rest, n, after, rfl, hwrite, not_lt.mp hret⟩ hyes

/-! ### Signals and the thread register -/

theorem toSignal_isSome_iff (sig : ℤ) : (toSignal sig).isSome = true ↔ 0 < sig ∧ sig < nsig := by
  unfold toSignal
  by_cases hsig : 0 < sig ∧ sig < nsig
  · rw [dif_pos hsig]
    exact iff_of_true rfl hsig
  · rw [dif_neg hsig]
    exact iff_of_false (by simp) hsig

theorem honest_rtSigaction (sig : ℤ) (act : Option UInt64) (oact : Bool) :
    (PosixCall.rtSigaction sig act oact).Honest sys ↔
      (PosixCall.rtSigaction sig act oact).Accepted sys := by
  cases hcur : sys.kernel.current with
  | none =>
      have hcall : sysRtSigaction sys sig act oact = (-eigenErrInval, none, sys.sigHandlers) := by
        unfold sysRtSigaction
        rw [hcur]
      apply honest_iff_of_refused sys (.rtSigaction sig act oact) (-eigenErrInval)
        (congrArg (some ∘ Prod.fst) hcall) (by decide)
      · rintro ⟨_, _, hsome, _⟩
        exact hsome hcur
      · rintro ⟨_, _, hsome⟩
        exact hsome hcur
  | some cur =>
      have hsome : sys.kernel.current ≠ none := by
        rw [hcur]
        exact Option.some_ne_none cur
      cases hsig : toSignal sig with
      | none =>
          have hcall : sysRtSigaction sys sig act oact =
              (-eigenErrInval, none, sys.sigHandlers) := by
            unfold sysRtSigaction
            rw [hcur, hsig]
          apply honest_iff_of_refused sys (.rtSigaction sig act oact) (-eigenErrInval)
            (congrArg (some ∘ Prod.fst) hcall) (by decide)
          · rintro ⟨s, hs, _⟩
            cases hsig.symm.trans hs
          · rintro ⟨hlow, hhigh, _⟩
            have hvalid := (toSignal_isSome_iff sig).mpr ⟨hlow, hhigh⟩
            rw [hsig] at hvalid
            cases hvalid
      | some s =>
          obtain ⟨hlow, hhigh⟩ := (toSignal_isSome_iff sig).mp (by rw [hsig]; rfl)
          apply honest_iff_of_performed sys
          · refine ⟨s, hsig, hsome, ?_, ?_⟩
            · intro hoact
              unfold sysRtSigaction
              rw [hcur, hsig]
              dsimp only
              rw [if_pos hoact]
            · rintro handler rfl
              unfold sysRtSigaction
              rw [hcur, hsig]
              exact Function.update_self s handler sys.sigHandlers
          · exact ⟨hlow, hhigh, hsome⟩

theorem honest_archPrctl (code : ℤ) (addr : UInt64) :
    (PosixCall.archPrctl code addr).Honest sys ↔
      (PosixCall.archPrctl code addr).Accepted sys := by
  cases hcur : sys.kernel.current with
  | none =>
      have hcall : sysArchPrctl sys code addr = (-1, none, sys.fsBase) := by
        unfold sysArchPrctl
        rw [hcur]
      apply honest_iff_of_negative sys (.archPrctl code addr) (-1)
        (congrArg (some ∘ Prod.fst) hcall) (by decide)
      exact fun hsome => absurd hcur hsome
  | some cur =>
      have hsome : sys.kernel.current ≠ none := by
        rw [hcur]
        exact Option.some_ne_none cur
      by_cases hset : code = archSetFs
      · have hcall : sysArchPrctl sys code addr = (0, none, addr) := by
          unfold sysArchPrctl
          rw [hcur]
          dsimp only
          rw [if_pos hset]
        apply honest_iff_of_performed sys
        · exact Or.inl ⟨hset, by rw [hcall]⟩
        · exact fun _ => Or.inl hset
      · by_cases hget : (code = archGetFs ∨ code = archGetGs) ∧ addr ≠ 0
        · have hyes : (PosixCall.archPrctl code addr).Accepted sys := fun _ => Or.inr hget
          apply honest_iff_of_performed sys _ hyes
          apply Or.inr
          rcases hget.1 with hfs | hgs
          · refine Or.inl ⟨hfs, ?_⟩
            unfold sysArchPrctl
            rw [hcur]
            dsimp only
            rw [if_neg hset, if_pos hfs, if_neg hget.2]
          · refine Or.inr ⟨hgs, ?_⟩
            unfold sysArchPrctl
            rw [hcur]
            dsimp only
            rw [if_neg hset, if_neg (by rw [hgs]; decide), if_pos hgs, if_neg hget.2]
        · have hcall : sysArchPrctl sys code addr = (-eigenErrInval, none, sys.fsBase) := by
            unfold sysArchPrctl
            rw [hcur]
            dsimp only
            rw [if_neg hset]
            by_cases hfs : code = archGetFs
            · rw [if_pos hfs, if_pos (not_not.mp fun hne => hget ⟨Or.inl hfs, hne⟩)]
            · rw [if_neg hfs]
              by_cases hgs : code = archGetGs
              · rw [if_pos hgs, if_pos (not_not.mp fun hne => hget ⟨Or.inr hgs, hne⟩)]
              · rw [if_neg hgs]
          apply honest_iff_of_refused sys (.archPrctl code addr) (-eigenErrInval)
            (congrArg (some ∘ Prod.fst) hcall) (by decide)
          · rintro (⟨hcode, _⟩ | ⟨_, hstored⟩ | ⟨_, hstored⟩)
            · exact hset hcode
            · rw [hcall] at hstored
              cases hstored
            · rw [hcall] at hstored
              cases hstored
          · exact fun haccepted => (haccepted hsome).elim hset hget

/-! ### Terminals -/

section Ioctl

variable (fd : ℤ) (req : ℕ) (arg : Option UInt32)

theorem honest_ioctl_of_refused {stored : IoctlStore} {io : Io}
    (hcall : sysIoctl sys fd req arg = (-eigenErrInval, stored, io))
    (hperformed : ¬ Controlled sys fd req arg)
    (haccepted : ¬ (PosixCall.ioctl fd req arg).Accepted sys) :
    (PosixCall.ioctl fd req arg).Honest sys ↔ (PosixCall.ioctl fd req arg).Accepted sys :=
  honest_iff_of_refused sys (.ioctl fd req arg) (-eigenErrInval)
    (congrArg (some ∘ Prod.fst) hcall) (by decide) hperformed haccepted

theorem sysIoctl_pty {f : Fin maxFds} (hfd : toFd fd = some f)
    (hcur : sys.kernel.current ≠ none) (hpty : (sys.io.fds f).type = .pty) :
    sysIoctl sys fd req arg =
      if req = tiocgwinsz then
        if arg = none then (-eigenErrInval, .none, sys.io)
        else (0, .winsize (ptyGetWinsize (sys.io.ptys (sys.io.fds f).pty)).1.toUInt16
          (ptyGetWinsize (sys.io.ptys (sys.io.fds f).pty)).2.toUInt16, sys.io)
      else if req = tiocgpgrp then
        if arg = none then (-eigenErrInval, .none, sys.io)
        else (0, .group (ptyGetFg (sys.io.ptys (sys.io.fds f).pty)), sys.io)
      else if req = tiocspgrp then
        ((ptySetFg (sys.io.ptys (sys.io.fds f).pty) (arg.getD 0)).1, .none,
          sys.io.setPty (sys.io.fds f).pty
            (ptySetFg (sys.io.ptys (sys.io.fds f).pty) (arg.getD 0)).2)
      else (-eigenErrInval, .none, sys.io) := by
  obtain ⟨cur, hcur⟩ := Option.ne_none_iff_exists'.mp hcur
  unfold sysIoctl
  rw [hcur, hfd]
  dsimp only
  rw [if_neg (not_not_intro hpty)]

theorem honest_ioctl_set {f : Fin maxFds} (hfd : toFd fd = some f)
    (hcur : sys.kernel.current ≠ none) (hpty : (sys.io.fds f).type = .pty) :
    (PosixCall.ioctl fd tiocspgrp arg).Honest sys ↔
      (PosixCall.ioctl fd tiocspgrp arg).Accepted sys := by
  have hcall := sysIoctl_pty sys fd tiocspgrp arg hfd hcur hpty
  rw [if_neg (by decide), if_neg (by decide), if_pos rfl] at hcall
  have hyes : (PosixCall.ioctl fd tiocspgrp arg).Accepted sys :=
    ⟨f, hfd, hcur, hpty, Or.inl rfl⟩
  cases hused : (sys.io.ptys (sys.io.fds f).pty).used with
  | false =>
      rw [ptySetFg, if_neg (by rw [hused]; decide)] at hcall
      exact honest_iff_of_negative sys (.ioctl fd tiocspgrp arg) (-1)
        (congrArg (some ∘ Prod.fst) hcall) (by decide) hyes
  | true =>
      rw [ptySetFg, if_pos hused] at hcall
      apply honest_iff_of_performed sys _ hyes
      refine ⟨f, hfd, hcur, hpty, hused, Or.inr (Or.inr ⟨rfl, ?_⟩)⟩
      rw [hcall]
      exact congrArg Pty.fgPid (Function.update_self (sys.io.fds f).pty _ sys.io.ptys)

/-- What is asked of a terminal that is not used is not known, and still stored. -/
theorem honest_ioctl_get {f : Fin maxFds} (hfd : toFd fd = some f)
    (hcur : sys.kernel.current ≠ none) (hpty : (sys.io.fds f).type = .pty)
    (hreq : req = tiocgwinsz ∨ req = tiocgpgrp) :
    (PosixCall.ioctl fd req arg).Honest sys ↔ (PosixCall.ioctl fd req arg).Accepted sys := by
  have hcall := sysIoctl_pty sys fd req arg hfd hcur hpty
  have hset : req ≠ tiocspgrp := by
    rcases hreq with rfl | rfl
    · decide
    · decide
  have haccepted : (PosixCall.ioctl fd req arg).Accepted sys ↔
      arg ≠ none ∧ (sys.io.ptys (sys.io.fds f).pty).used = true := by
    constructor
    · rintro ⟨g, hg, _, _, hspgrp | ⟨_, harg, hused⟩⟩
      · exact absurd hspgrp hset
      · cases hfd.symm.trans hg
        exact ⟨harg, hused⟩
    · rintro ⟨harg, hused⟩
      exact ⟨f, hfd, hcur, hpty, Or.inr ⟨hreq, harg, hused⟩⟩
  by_cases harg : arg = none
  · have hrefused : sysIoctl sys fd req arg = (-eigenErrInval, .none, sys.io) := by
      rcases hreq with rfl | rfl
      · rw [hcall, if_pos rfl, if_pos harg]
      · rw [hcall, if_neg (by decide), if_pos rfl, if_pos harg]
    apply honest_ioctl_of_refused sys fd req arg hrefused
    · rintro ⟨_, _, _, _, _, ⟨_, hstored⟩ | ⟨_, hstored⟩ | ⟨hspgrp, _⟩⟩
      · rw [hrefused] at hstored
        cases hstored
      · rw [hrefused] at hstored
        cases hstored
      · exact hset hspgrp
    · rw [haccepted]
      exact fun h => h.1 harg
  · have hzero : (sysIoctl sys fd req arg).1 = 0 := by
      rcases hreq with rfl | rfl
      · rw [hcall, if_pos rfl, if_neg harg]
      · rw [hcall, if_neg (by decide), if_pos rfl, if_neg harg]
    cases hused : (sys.io.ptys (sys.io.fds f).pty).used with
    | false =>
        apply honest_iff_of_refused sys (.ioctl fd req arg) 0 (congrArg some hzero) (le_refl 0)
        · rintro ⟨g, hg, _, _, hgone, _⟩
          cases hfd.symm.trans hg
          rw [hused] at hgone
          cases hgone
        · rw [haccepted, hused]
          exact fun h => absurd h.2 (by decide)
    | true =>
        apply honest_iff_of_performed sys _ (haccepted.mpr ⟨harg, hused⟩)
        refine ⟨f, hfd, hcur, hpty, hused, ?_⟩
        rcases hreq with rfl | rfl
        · refine Or.inl ⟨rfl, ?_⟩
          rw [hcall, if_pos rfl, if_neg harg, ptyGetWinsize, if_pos hused]
        · refine Or.inr (Or.inl ⟨rfl, ?_⟩)
          rw [hcall, if_neg (by decide), if_pos rfl, if_neg harg, ptyGetFg, if_pos hused]

theorem honest_ioctl :
    (PosixCall.ioctl fd req arg).Honest sys ↔ (PosixCall.ioctl fd req arg).Accepted sys := by
  by_cases htaken : ∃ f, toFd fd = some f ∧ sys.kernel.current ≠ none ∧
      (sys.io.fds f).type = .pty
  · obtain ⟨f, hfd, hcur, hpty⟩ := htaken
    by_cases hset : req = tiocspgrp
    · subst hset
      exact honest_ioctl_set sys fd arg hfd hcur hpty
    · by_cases hget : req = tiocgwinsz ∨ req = tiocgpgrp
      · exact honest_ioctl_get sys fd req arg hfd hcur hpty hget
      · obtain ⟨hwinsz, hgpgrp⟩ := not_or.mp hget
        have hcall := sysIoctl_pty sys fd req arg hfd hcur hpty
        rw [if_neg hwinsz, if_neg hgpgrp, if_neg hset] at hcall
        apply honest_ioctl_of_refused sys fd req arg hcall
        · rintro ⟨_, _, _, _, _, ⟨hreq, _⟩ | ⟨hreq, _⟩ | ⟨hreq, _⟩⟩
          · exact hwinsz hreq
          · exact hgpgrp hreq
          · exact hset hreq
        · rintro ⟨_, _, _, _, hreq | ⟨hreq, _⟩⟩
          · exact hset hreq
          · exact hget hreq
  · have hcall : sysIoctl sys fd req arg = (-eigenErrInval, .none, sys.io) := by
      unfold sysIoctl
      split
      · rename_i cur f hcur hfd
        dsimp only
        rw [if_pos]
        intro hpty
        refine htaken ⟨f, hfd, ?_, hpty⟩
        rw [hcur]
        exact Option.some_ne_none cur
      · rfl
    apply honest_ioctl_of_refused sys fd req arg hcall
    · rintro ⟨f, hfd, hcur, hpty, _⟩
      exact htaken ⟨f, hfd, hcur, hpty⟩
    · rintro ⟨f, hfd, hcur, hpty, _⟩
      exact htaken ⟨f, hfd, hcur, hpty⟩

end Ioctl

end Calls

/-! ## A full task table -/

/-- Every task slot is taken by a process of a user. -/
def fullKernel : Kernel :=
  { Tasking.initTasking with
    tasks := fun t => { Tasking.Task.zero with id := t.val, ring := .ring3, state := .ready }
    current := some ⟨1, Tasking.one_lt_maxTasks⟩ }

def fullSystem : System where
  kernel := fullKernel
  io := Descriptors.bootIo
  cwd := Filesystem.rootSlot
  fsBase := 0
  sigHandlers := fun _ => 0

def missingPath : CString := ⟨[slash, 120], by decide⟩

end EigenOS.Posix
