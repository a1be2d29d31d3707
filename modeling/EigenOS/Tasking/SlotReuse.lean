import Mathlib.Data.UInt
import EigenOS.Tasking.Processes

/-!
# Reuse of task slots

Each function that creates a task writes part of the slot it takes; `sys_fork` alone clears
it first.  What a new task can see of the slot's last user is what its creating function
leaves there.
-/

namespace EigenOS.Tasking

/-- What the creating functions write of `task_t`, and what a new task is asked for. -/
structure TaskRecord extends Task where
  exitCode : ℤ
  pml4Phys : ℕ
  fsBase : ℕ
  futexAddr : ℕ
  sleepUntil : ℕ
  sigHandlers : Fin 32 → UInt64
  sigPending : Fin 32 → Bool
  sigInHandler : Bool
  cwdNode : ℕ

def TaskRecord.zero : TaskRecord where
  toTask := Task.zero
  exitCode := 0
  pml4Phys := 0
  fsBase := 0
  futexAddr := 0
  sleepUntil := 0
  sigHandlers := fun _ => 0
  sigPending := fun _ => false
  sigInHandler := false
  cwdNode := 0

/-- The id of the running task, if there is one. -/
def creatorId (creator : Option TaskRecord) : ℕ :=
  match creator with
  | some cur => cur.id
  | none => 0

/-- The lines that `create_task`, `create_user_process` and
`create_user_process_elf_redir` share. -/
def TaskRecord.claimed (old : TaskRecord) (id : ℕ) (creator : Option TaskRecord)
    (ring : Ring) : TaskRecord :=
  { old with
    id := id
    ppid := creatorId creator
    ring := ring
    sleepUntil := 0
    fds := fun fd => (old.fds fd).resetPart }

def createTaskIn (old : TaskRecord) (id : ℕ) (creator : Option TaskRecord) : TaskRecord :=
  { old.claimed id creator .ring0 with state := .ready }

def createUserProcessIn (old : TaskRecord) (id : ℕ) (creator : Option TaskRecord) :
    TaskRecord :=
  { old.claimed id creator .ring3 with state := .ready }

/-- An inherited descriptor as the child's descriptor. -/
def FdSlot.redirected (slot : FdSlot) : Redir → FdSlot
  | .none => slot
  | .pipe pno extra => { slot with type := .pipe, pipe := pno, flagsExtra := extra }
  | .pty pno extra => { slot with type := .pty, pty := pno, flagsExtra := extra }
  | .file flags offset => { slot with flags := flags, offset := offset }

/-- What the child gets for descriptor `fd`. -/
def inherited (creator : Option TaskRecord) (redir : Fin maxFds → ℤ) (fd : Fin maxFds) :
    Redir :=
  match creator with
  | some parent => if fd.val < 3 then redirSnap parent.toTask (redir fd) else .none
  | none => .none

/-- `pml4` is the new address space and `tls` the address of the page for thread-local
storage. -/
def createUserProcessElfRedirIn (old : TaskRecord) (id : ℕ) (creator : Option TaskRecord)
    (redir : Fin maxFds → ℤ) (pml4 tls : ℕ) : TaskRecord :=
  let claimed := old.claimed id creator .ring3
  { claimed with
    group := id
    exitCode := 0
    fsBase := tls
    futexAddr := 0
    -- The loop that installs the descriptors stands twice.
    fds := fun fd => ((claimed.fds fd).redirected (inherited creator redir fd)).redirected
      (inherited creator redir fd)
    pml4Phys := pml4
    state := .ready }

def createUserThreadIn (old : TaskRecord) (id : ℕ) (leader : TaskRecord) (tls : ℕ) :
    TaskRecord :=
  { old with
    id := id
    ppid := leader.id
    group := leader.group
    ring := .ring3
    pml4Phys := leader.pml4Phys
    sleepUntil := 0
    exitCode := 0
    futexAddr := 0
    fds := fun fd => { FdSlot.zero with pty := (old.fds fd).pty }
    fsBase := tls
    state := .ready }

/-- `sys_fork`, which has cleared the slot. -/
def sysForkIn (id : ℕ) (cur : TaskRecord) (pml4 : ℕ) : TaskRecord :=
  { TaskRecord.zero with
    id := id
    ppid := cur.id
    group := id
    ring := .ring3
    pml4Phys := pml4
    fds := cur.fds
    fsBase := cur.fsBase
    cwdNode := cur.cwdNode
    state := .ready }

/-- The ways of creating a task, each with its arguments and its creator. -/
inductive Creation where
  | createTask (creator : Option TaskRecord)
  | createUserProcess (creator : Option TaskRecord)
  | createUserProcessElfRedir (creator : Option TaskRecord) (redir : Fin maxFds → ℤ)
      (pml4 tls : ℕ)
  | createUserThread (leader : TaskRecord) (tls : ℕ)
  | sysFork (cur : TaskRecord) (pml4 : ℕ)

/-- The slot after the creation. -/
def Creation.fill (old : TaskRecord) (id : ℕ) : Creation → TaskRecord
  | .createTask creator => createTaskIn old id creator
  | .createUserProcess creator => createUserProcessIn old id creator
  | .createUserProcessElfRedir creator redir pml4 tls =>
      createUserProcessElfRedirIn old id creator redir pml4 tls
  | .createUserThread leader tls => createUserThreadIn old id leader tls
  | .sysFork cur pml4 => sysForkIn id cur pml4

/-- What must not depend on the slot's last user. -/
structure Visible where
  fds : Fin maxFds → FdSlot
  sigPending : Fin 32 → Bool
  sigHandlers : Fin 32 → UInt64
  sigInHandler : Bool
  group : ℕ
  pml4Phys : ℕ
  cwdNode : ℕ
  futexAddr : ℕ
  sleepUntil : ℕ
  ppid : ℕ

def TaskRecord.visible (t : TaskRecord) : Visible where
  fds := t.fds
  sigPending := t.sigPending
  sigHandlers := t.sigHandlers
  sigInHandler := t.sigInHandler
  group := t.group
  pml4Phys := t.pml4Phys
  cwdNode := t.cwdNode
  futexAddr := t.futexAddr
  sleepUntil := t.sleepUntil
  ppid := t.ppid

/-! ## What each function leaves in the slot -/

/-- The arrays of a descriptor that an inherited one does not overwrite. -/
def FdSlot.kept (slot : FdSlot) : Redir → FdSlot
  | .none | .file _ _ =>
      { FdSlot.zero with
        type := slot.type, pipe := slot.pipe, pty := slot.pty, flagsExtra := slot.flagsExtra }
  | .pipe _ _ => { FdSlot.zero with pty := slot.pty }
  | .pty _ _ => { FdSlot.zero with pipe := slot.pipe }

/-- Signals and the current directory, which only `sys_fork` sets. -/
def SameSignals (old old' : TaskRecord) : Prop :=
  old.sigHandlers = old'.sigHandlers ∧ old.sigPending = old'.sigPending ∧
    old.sigInHandler = old'.sigInHandler ∧ old.cwdNode = old'.cwdNode

/-- The last users of the slot left the same in what the function does not write. -/
def Creation.SameLeftovers (old old' : TaskRecord) : Creation → Prop
  | .createTask _ | .createUserProcess _ =>
      SameSignals old old' ∧ old.group = old'.group ∧ old.pml4Phys = old'.pml4Phys ∧
        old.futexAddr = old'.futexAddr ∧
        ∀ fd, (old.fds fd).kept .none = (old'.fds fd).kept .none
  | .createUserProcessElfRedir creator redir _ _ =>
      SameSignals old old' ∧
        ∀ fd, (old.fds fd).kept (inherited creator redir fd) =
          (old'.fds fd).kept (inherited creator redir fd)
  | .createUserThread _ _ =>
      SameSignals old old' ∧ ∀ fd, (old.fds fd).pty = (old'.fds fd).pty
  | .sysFork _ _ => True

theorem resetPart_eq_iff {slot slot' : FdSlot} :
    slot.resetPart = slot'.resetPart ↔ slot.kept .none = slot'.kept .none := by
  simp only [FdSlot.resetPart, FdSlot.kept, FdSlot.mk.injEq, true_and]

theorem redirected_eq_iff {slot slot' : FdSlot} (redir : Redir) :
    (slot.resetPart.redirected redir).redirected redir =
        (slot'.resetPart.redirected redir).redirected redir ↔
      slot.kept redir = slot'.kept redir := by
  cases redir <;>
    simp only [FdSlot.redirected, FdSlot.resetPart, FdSlot.kept, FdSlot.mk.injEq, true_and,
      and_true]

theorem visible_eq_iff {t t' : TaskRecord} :
    t.visible = t'.visible ↔
      SameSignals t t' ∧ t.group = t'.group ∧ t.pml4Phys = t'.pml4Phys ∧
        t.futexAddr = t'.futexAddr ∧ t.sleepUntil = t'.sleepUntil ∧ t.ppid = t'.ppid ∧
        t.fds = t'.fds := by
  unfold TaskRecord.visible SameSignals
  rw [Visible.mk.injEq]
  constructor
  · rintro ⟨hfds, hpending, hhandlers, hin, hgroup, hpml4, hcwd, hfutex, hsleep, hppid⟩
    exact ⟨⟨hhandlers, hpending, hin, hcwd⟩, hgroup, hpml4, hfutex, hsleep, hppid, hfds⟩
  · rintro ⟨⟨hhandlers, hpending, hin, hcwd⟩, hgroup, hpml4, hfutex, hsleep, hppid, hfds⟩
    exact ⟨hfds, hpending, hhandlers, hin, hgroup, hpml4, hcwd, hfutex, hsleep, hppid⟩

theorem visible_claimed_eq_iff (old old' : TaskRecord) (id : ℕ)
    (creator : Option TaskRecord) (ring : Ring) :
    (old.claimed id creator ring).visible = (old'.claimed id creator ring).visible ↔
      SameSignals old old' ∧ old.group = old'.group ∧ old.pml4Phys = old'.pml4Phys ∧
        old.futexAddr = old'.futexAddr ∧
        ∀ fd, (old.fds fd).kept .none = (old'.fds fd).kept .none := by
  have hfds : (old.claimed id creator ring).fds = (old'.claimed id creator ring).fds ↔
      ∀ fd, (old.fds fd).kept .none = (old'.fds fd).kept .none :=
    funext_iff.trans (forall_congr' fun _ => resetPart_eq_iff)
  rw [visible_eq_iff, hfds]
  exact ⟨fun ⟨hsignals, hgroup, hpml4, hfutex, _, _, h⟩ =>
      ⟨hsignals, hgroup, hpml4, hfutex, h⟩,
    fun ⟨hsignals, hgroup, hpml4, hfutex, h⟩ =>
      ⟨hsignals, hgroup, hpml4, hfutex, rfl, rfl, h⟩⟩

theorem visible_elfRedir_eq_iff (old old' : TaskRecord) (id : ℕ)
    (creator : Option TaskRecord) (redir : Fin maxFds → ℤ) (pml4 tls : ℕ) :
    (createUserProcessElfRedirIn old id creator redir pml4 tls).visible =
        (createUserProcessElfRedirIn old' id creator redir pml4 tls).visible ↔
      SameSignals old old' ∧
        ∀ fd, (old.fds fd).kept (inherited creator redir fd) =
          (old'.fds fd).kept (inherited creator redir fd) := by
  have hfds : (createUserProcessElfRedirIn old id creator redir pml4 tls).fds =
        (createUserProcessElfRedirIn old' id creator redir pml4 tls).fds ↔
      ∀ fd, (old.fds fd).kept (inherited creator redir fd) =
        (old'.fds fd).kept (inherited creator redir fd) :=
    funext_iff.trans (forall_congr' fun fd => redirected_eq_iff _)
  rw [visible_eq_iff, hfds]
  exact ⟨fun ⟨hsignals, _, _, _, _, _, h⟩ => ⟨hsignals, h⟩,
    fun ⟨hsignals, h⟩ => ⟨hsignals, rfl, rfl, rfl, rfl, rfl, h⟩⟩

theorem visible_thread_eq_iff (old old' : TaskRecord) (id : ℕ) (leader : TaskRecord)
    (tls : ℕ) :
    (createUserThreadIn old id leader tls).visible =
        (createUserThreadIn old' id leader tls).visible ↔
      SameSignals old old' ∧ ∀ fd, (old.fds fd).pty = (old'.fds fd).pty := by
  have hslot : ∀ slot slot' : FdSlot,
      ({ FdSlot.zero with pty := slot.pty } : FdSlot) = { FdSlot.zero with pty := slot'.pty } ↔
        slot.pty = slot'.pty := by
    intro slot slot'
    rw [FdSlot.mk.injEq]
    exact ⟨fun h => h.2.2.2.2.2.1, fun h => ⟨rfl, rfl, rfl, rfl, rfl, h, rfl⟩⟩
  have hfds : (createUserThreadIn old id leader tls).fds =
        (createUserThreadIn old' id leader tls).fds ↔
      ∀ fd, (old.fds fd).pty = (old'.fds fd).pty :=
    funext_iff.trans (forall_congr' fun _ => hslot _ _)
  rw [visible_eq_iff, hfds]
  exact ⟨fun ⟨hsignals, _, _, _, _, _, h⟩ => ⟨hsignals, h⟩,
    fun ⟨hsignals, h⟩ => ⟨hsignals, rfl, rfl, rfl, rfl, rfl, h⟩⟩

/-- The new task sees the same over two leftovers of its slot if and only if they agree in
what the creating function does not write. -/
theorem fill_visible_eq_iff (creation : Creation) (id : ℕ) (old old' : TaskRecord) :
    (creation.fill old id).visible = (creation.fill old' id).visible ↔
      creation.SameLeftovers old old' := by
  cases creation with
  | createTask creator => exact visible_claimed_eq_iff old old' id creator .ring0
  | createUserProcess creator => exact visible_claimed_eq_iff old old' id creator .ring3
  | createUserProcessElfRedir creator redir pml4 tls =>
      exact visible_elfRedir_eq_iff old old' id creator redir pml4 tls
  | createUserThread leader tls => exact visible_thread_eq_iff old old' id leader tls
  | sysFork cur pml4 => exact iff_of_true rfl trivial

/-! ## A slot's history -/

/-- What happens to the task in a slot. -/
inductive SlotEvent where
  | create (id : ℕ) (creation : Creation)
  | signal (sig : Fin 32) (handler : UInt64)
  | kill (sig : Fin 32)
  | chdir (node : ℕ)
  | wait4

/-- `k_sys_signal`, `send_signal`, `ktask_set_cwd` and the reaping of `sys_wait4`. -/
def SlotEvent.apply (t : TaskRecord) : SlotEvent → TaskRecord
  | .create id creation => if t.state = .free then creation.fill t id else t
  | .signal sig handler =>
      if sig.val = 0 ∨ handler = 2 ∨ t.state = .free ∨ t.state = .dead then t
      else { t with sigHandlers := Function.update t.sigHandlers sig handler }
  | .kill sig =>
      if sig.val = 0 ∨ t.state = .free ∨ t.state = .dead then t
      else { t with sigPending := Function.update t.sigPending sig true }
  | .chdir node =>
      if t.state = .free ∨ t.state = .dead then t else { t with cwdNode := node }
  | .wait4 => if t.state = .dead then t else { t with state := .free }

/-- What a history leaves in a slot that `init_tasking` made. -/
def slotAfter (history : List SlotEvent) : TaskRecord :=
  history.foldl SlotEvent.apply TaskRecord.zero

theorem sigusr1_lt : 10 < 32 := by decide

def sigusr1 : Fin 32 := ⟨10, sigusr1_lt⟩

/-- A process handles a signal, and its parent waits for it. -/
def handlerThenWait : List SlotEvent :=
  [.create 2 (.createUserProcess none), .signal sigusr1 0x400000, .wait4]

/-- The next process in the slot starts with the handler. -/
theorem handlerLeft_visible :
    ∃ (creation : Creation) (id : ℕ) (history history' : List SlotEvent),
      (slotAfter history).state = .free ∧ (slotAfter history').state = .free ∧
        (creation.fill (slotAfter history) id).visible ≠
          (creation.fill (slotAfter history') id).visible := by
  refine ⟨.createUserProcess none, 3, [], handlerThenWait, rfl, rfl, ?_⟩
  intro h
  have hhandler := congrFun (congrArg Visible.sigHandlers h) sigusr1
  exact absurd hhandler (by decide)

end EigenOS.Tasking
