import EigenOS.Tasking.SlotReuse
import EigenOS.Tasking.PipeCounts

/-!
# Ends of pipes

`fd_flags_extra` of a pipe descriptor holds the end in bit 0 and `O_NONBLOCK` in bit 11.  The
end that each descriptor was created as is tracked beside the kernel, through every call that
copies a descriptor.
-/

namespace EigenOS.Tasking

/-- For each descriptor whether it was created as the write end of its pipe. -/
abbrev EndTable := Fin maxTasks → Fin maxFds → Option Bool

def EndTable.mark (ends : EndTable) (t : Fin maxTasks) (fd : Fin maxFds)
    (created : Option Bool) : EndTable :=
  fun t' fd' => if t' = t ∧ fd' = fd then created else ends t' fd'

def redirEnd (k : Kernel) (ends : EndTable) (parent : Fin maxTasks) (pfd : ℤ) : Option Bool :=
  match toFd pfd with
  | some fd => if (k.slot parent fd).type = .pipe then ends parent fd else none
  | none => none

/-- `sys_pipe` hands out a read end and a write end. -/
def pipeEndTable (cur : Fin maxTasks) (ends : EndTable) : Option (List ℕ) → EndTable
  | some [rd, wr] => fun t fd =>
      if t = cur ∧ fd.val = rd then some false
      else if t = cur ∧ fd.val = wr then some true
      else ends t fd
  | _ => ends

/-- `sys_dup2` makes a copy, unless it fails. -/
def dup2EndTable (cur : Fin maxTasks) (ends : EndTable) (oldfd newfd : ℤ) :
    Option (List ℕ) → EndTable
  | some _ =>
      match toFd oldfd, toFd newfd with
      | some old, some new => ends.mark cur new (ends cur old)
      | _, _ => ends
  | none => ends

/-- The child's first three descriptors stay what the slot's last user left, unless they are
redirected to a pipe. -/
def redirEndTable (k : Kernel) (ends : EndTable) (parent child : Fin maxTasks)
    (redir : Fin maxFds → ℤ) : EndTable :=
  fun t fd =>
    if t = child ∧ fd ∈ stdFds then (redirEnd k ends parent (redir fd)).or (ends t fd)
    else ends t fd

def spawnEndTable (k : Kernel) (cur : Fin maxTasks) (ends : EndTable) (redir : Fin maxFds → ℤ) :
    Option (Fin maxTasks) → EndTable
  | some child => redirEndTable k ends cur child redir
  | none => ends

def forkEndTable (cur : Fin maxTasks) (ends : EndTable) : Option (Fin maxTasks) → EndTable
  | some child => fun t fd => if t = child then ends cur fd else ends t fd
  | none => ends

def Request.ends (k : Kernel) (cur : Fin maxTasks) (ends : EndTable) : Request → EndTable
  | .call .pipe => pipeEndTable cur ends (sysPipe k cur).handed
  | .call (.dup2 oldfd newfd) =>
      dup2EndTable cur ends oldfd newfd (sysDup2 k cur oldfd newfd).handed
  | .spawn _ .noModule => ends
  | .spawn redir _ => spawnEndTable k cur ends redir k.freeTask
  | .fork _ => if (k.tasks cur).ring = .ring3 then forkEndTable cur ends k.freeTask else ends
  | _ => ends

def Event.ends (k : Kernel) (ends : EndTable) : Event → EndTable
  | .request r =>
      match k.current with
      | some cur => if (k.tasks cur).state = .running then r.ends k cur ends else ends
      | none => ends
  | _ => ends

/-! ## The word of an end -/

def endBit (write : Bool) : UInt32 := if write then 1 else 0

/-- The bit of the end, with or without `O_NONBLOCK`. -/
def IsEndWord (write : Bool) (word : UInt32) : Prop :=
  word = endBit write ∨ word = endBit write ||| oNonblock

/-- A pipe descriptor is the end that it was created as. -/
def FdSlot.IsCreated (slot : FdSlot) (created : Option Bool) : Prop :=
  slot.type = .pipe → ∃ write, created = some write ∧ IsEndWord write slot.flagsExtra

/-- Every pipe descriptor is the end that it was created as, also one that a task has left. -/
structure Marked (ends : EndTable) (k : Kernel) : Prop where
  created : ∀ t fd, (k.slot t fd).IsCreated (ends t fd)

namespace IsEndWord

variable {write : Bool} {word : UInt32}

theorem endBit (write : Bool) : IsEndWord write (endBit write) := Or.inl rfl

theorem and_one (h : IsEndWord write word) : word &&& 1 = Tasking.endBit write := by
  rcases h with rfl | rfl
  · cases write <;> decide
  · cases write <;> decide

theorem isUpperEnd {slot : FdSlot} (h : IsEndWord write slot.flagsExtra) :
    slot.isUpperEnd = write := by
  unfold FdSlot.isUpperEnd
  rw [h.and_one]
  cases write <;> decide

theorem set (h : IsEndWord write word) : IsEndWord write (word ||| oNonblock) := by
  rcases h with rfl | rfl
  · exact Or.inr rfl
  · refine Or.inr ?_
    cases write <;> decide

theorem clear (h : IsEndWord write word) : IsEndWord write (word &&& ~~~oNonblock) := by
  refine Or.inl ?_
  rcases h with rfl | rfl
  · cases write <;> decide
  · cases write <;> decide

/-- The word of a read end is zero as long as `O_NONBLOCK` is clear. -/
theorem eq_zero_iff (h : IsEndWord false word) : word = 0 ↔ word &&& oNonblock = 0 := by
  rcases h with rfl | rfl <;> decide

end IsEndWord

theorem marked_initTasking : Marked (fun _ _ => none) initTasking := by
  refine ⟨fun t fd htype => ?_⟩
  exact absurd htype (noPipes_initTasking.types t fd)

namespace FdSlot

theorem isCreated_of_type {slot : FdSlot} (h : slot.type ≠ .pipe) (created : Option Bool) :
    slot.IsCreated created := fun htype => absurd htype h

theorem IsCreated.congr {slot slot' : FdSlot} {created : Option Bool}
    (h : slot.IsCreated created) (htype : slot'.type = slot.type)
    (hword : slot'.flagsExtra = slot.flagsExtra) : slot'.IsCreated created := by
  unfold IsCreated
  rw [htype, hword]
  exact h

end FdSlot

theorem EndTable.mark_self (ends : EndTable) (t : Fin maxTasks) (fd : Fin maxFds) :
    ends.mark t fd (ends t fd) = ends := by
  funext t' fd'
  unfold EndTable.mark
  split
  · rename_i heq
    rw [heq.1, heq.2]
  · rfl

theorem sysDup2_failure {k : Kernel} {cur : Fin maxTasks} {oldfd newfd : ℤ}
    (h : (sysDup2 k cur oldfd newfd).handed = none) :
    (sysDup2 k cur oldfd newfd).kernel = k := by
  unfold sysDup2 at h ⊢
  split at h
  · rename_i old new _ _
    by_cases heq : old = new
    · rw [if_pos heq] at h
      cases h
    · rw [if_neg heq] at h ⊢
      split at h
      · cases h
      · rename_i hsource
        rw [if_neg hsource]
        rfl
  · rfl

/-! ## Building blocks -/

namespace Marked

variable {ends : EndTable} {k : Kernel}

theorem congr {next : Kernel} (hk : Marked ends k) (hslot : next.slot = k.slot) :
    Marked ends next := by
  refine ⟨?_⟩
  rw [hslot]
  exact hk.created

theorem setFd_mark (hk : Marked ends k) (t : Fin maxTasks) (fd : Fin maxFds) {slot : FdSlot}
    {created : Option Bool} (hslot : slot.IsCreated created) :
    Marked (ends.mark t fd created) (k.setFd t fd slot) := by
  refine ⟨fun t' fd' => ?_⟩
  rw [Kernel.slot_setFd, EndTable.mark]
  split
  · exact hslot
  · exact hk.created t' fd'

theorem setFd (hk : Marked ends k) (t : Fin maxTasks) (fd : Fin maxFds) {slot : FdSlot}
    (hslot : slot.IsCreated (ends t fd)) : Marked ends (k.setFd t fd slot) := by
  refine ⟨fun t' fd' => ?_⟩
  rw [Kernel.slot_setFd]
  split
  · rename_i heq
    rw [heq.1, heq.2]
    exact hslot
  · exact hk.created t' fd'

theorem setTask (hk : Marked ends k) (t : Fin maxTasks) {task : Task}
    (htask : ∀ fd, (task.fds fd).IsCreated (ends t fd)) : Marked ends (k.setTask t task) := by
  refine ⟨fun t' fd => ?_⟩
  by_cases ht : t' = t
  · subst ht
    simpa [Kernel.slot, Kernel.setTask] using htask fd
  · simpa [Kernel.slot, Kernel.setTask, ht] using hk.created t' fd

theorem setTask_of_fds (hk : Marked ends k) (t : Fin maxTasks) {task : Task}
    (htask : task.fds = (k.tasks t).fds) : Marked ends (k.setTask t task) := by
  apply hk.setTask
  rw [htask]
  exact hk.created t

theorem setState (hk : Marked ends k) (t : Fin maxTasks) (state : TaskState) :
    Marked ends (k.setState t state) := hk.congr (Kernel.slot_setState k t state)

theorem claimTask (hk : Marked ends k) (t : Fin maxTasks) (ring : Ring) :
    Marked ends (k.claimTask t ring) := by
  have hset : Marked ends (k.setTask t { k.tasks t with
      id := k.nextTaskId, ppid := k.currentId, ring := ring }) :=
    hk.setTask_of_fds t rfl
  exact hset.congr rfl

theorem mapFds (hk : Marked ends k) (t : Fin maxTasks) {f : FdSlot → FdSlot}
    (hf : ∀ (slot : FdSlot) created, slot.IsCreated created → (f slot).IsCreated created) :
    Marked ends (k.mapFds t f) := by
  apply hk.setTask
  intro fd
  exact hf _ _ (hk.created t fd)

theorem resetPart (hk : Marked ends k) (t : Fin maxTasks) :
    Marked ends (k.mapFds t FdSlot.resetPart) := hk.mapFds t fun _ _ h => h

/-! ## The calls -/

theorem closeFd (hk : Marked ends k) (cur : Fin maxTasks) (fd : Fin maxFds) :
    Marked ends (closeFd k cur fd).1 := by
  have hsame := hk.created cur fd
  unfold Tasking.closeFd
  dsimp only
  split
  · exact hk.setFd cur fd hsame
  · split
    · have hclosed : ∀ slot : FdSlot, slot.type = .vfs → slot.IsCreated (ends cur fd) :=
        fun slot htype => slot.isCreated_of_type (by simp [htype]) _
      split
      · exact (hk.congr (slot_dropPipeRef k _ _)).setFd cur fd (hclosed _ rfl)
      · exact hk.setFd cur fd (hclosed _ rfl)
    · exact (hk.congr (slot_ptyClose k _ _)).setFd cur fd
        (FdSlot.isCreated_of_type (by simp) _)
    · exact hk.setFd cur fd hsame

theorem sysClose (hk : Marked ends k) (cur : Fin maxTasks) (fd : ℤ) :
    Marked ends (sysClose k cur fd).1 := by
  unfold Tasking.sysClose
  split
  · exact hk.closeFd cur _
  · exact hk

theorem sysOpen (hk : Marked ends k) (cur : Fin maxTasks) (index node : Option ℕ) :
    Marked ends (sysOpen k cur index node).kernel := by
  unfold Tasking.sysOpen
  split
  · exact hk
  · rename_i i _
    split
    · exact hk.setFd cur i (hk.created cur i)
    · exact hk.setFd cur i (hk.created cur i)
    · exact hk

theorem sysPipe_failure (hk : Marked ends k) {cur : Fin maxTasks}
    (hfail : (sysPipe k cur).handed = none) : Marked ends (sysPipe k cur).kernel := by
  unfold Tasking.sysPipe at hfail ⊢
  split
  · exact hk
  · rename_i pno hpno
    rw [hpno] at hfail
    dsimp only at hfail ⊢
    have hreset : Marked ends (k.setPipe pno PipeBuf.zero) := ⟨hk.created⟩
    split
    · exact hreset
    · rename_i rd hrd
      rw [hrd] at hfail
      dsimp only at hfail ⊢
      split
      · simp only [Outcome.failure, Kernel.setFd_setFd]
        exact hreset.setFd cur rd (FdSlot.isCreated_of_type (by simp) _)
      · rename_i wr hwr
        rw [hwr] at hfail
        cases hfail

theorem sysPipe (hk : Marked ends k) (cur : Fin maxTasks) :
    Marked (pipeEndTable cur ends (sysPipe k cur).handed) (sysPipe k cur).kernel := by
  cases hhanded : (Tasking.sysPipe k cur).handed with
  | none => exact hk.sysPipe_failure hhanded
  | some handed =>
      obtain ⟨pno, rd, wr, _, hne, _, _, hpair, hkernel⟩ := sysPipe_success hhanded
      have hread : FdSlot.IsCreated (pipeSlot (k.slot cur rd) pno 0) (some false) :=
        fun _ => ⟨false, rfl, .endBit false⟩
      have hwrite : FdSlot.IsCreated (pipeSlot (k.slot cur wr) pno 1) (some true) :=
        fun _ => ⟨true, rfl, .endBit true⟩
      rw [hkernel, hpair]
      refine ⟨fun t fd => ?_⟩
      dsimp only [pipeEndTable]
      rw [Kernel.slot_setFd, Kernel.slot_setFd]
      by_cases hwr : t = cur ∧ fd = wr
      · have hval : ¬ (t = cur ∧ fd.val = rd.val) :=
          fun h => hne (hwr.2.symm.trans (Fin.ext h.2))
        rw [if_pos hwr, if_neg hval, if_pos ⟨hwr.1, congrArg Fin.val hwr.2⟩]
        exact hwrite
      · have hother : ¬ (t = cur ∧ fd.val = wr.val) := fun h => hwr ⟨h.1, Fin.ext h.2⟩
        rw [if_neg hwr, if_neg hother]
        by_cases hrd : t = cur ∧ fd = rd
        · rw [if_pos hrd, if_pos ⟨hrd.1, congrArg Fin.val hrd.2⟩]
          exact hread
        · rw [if_neg hrd, if_neg fun h => hrd ⟨h.1, Fin.ext h.2⟩]
          exact hk.created t fd

theorem setPty (hk : Marked ends k) (idx : Fin maxPtys) (pty : Pty) :
    Marked ends (k.setPty idx pty) := hk.congr rfl

theorem sysOpenpty (hk : Marked ends k) (cur : Fin maxTasks) :
    Marked ends (sysOpenpty k cur).kernel := by
  unfold Tasking.sysOpenpty
  split
  · exact hk
  · rename_i idx _
    split
    · exact hk.setPty idx Pty.zero
    · rename_i m _
      have hm : Marked ends (k.setFd cur m (ptySlot (k.slot cur m) idx ptyMaster)) :=
        hk.setFd cur m (FdSlot.isCreated_of_type (by simp [ptySlot]) _)
      dsimp only
      split
      · exact (hm.setPty idx Pty.zero).setFd cur m (FdSlot.isCreated_of_type (by simp) _)
      · rename_i s _
        exact (hm.setFd cur s (FdSlot.isCreated_of_type (by simp [ptySlot]) _)).setPty idx _

theorem netSocket (hk : Marked ends k) (cur : Fin maxTasks) :
    Marked ends (netSocket k cur).kernel := by
  unfold Tasking.netSocket
  split
  · exact hk
  · rename_i sock _
    have hsock : Marked ends { k with sockets := Function.update k.sockets sock true } :=
      hk.congr rfl
    dsimp only
    split
    · exact hsock.setFd cur _ (FdSlot.isCreated_of_type (by simp) _)
    · exact hsock

theorem netClose (hk : Marked ends k) (s : ℤ) : Marked ends (netClose k s) := by
  unfold Tasking.netClose
  split
  · exact hk.congr rfl
  · exact hk

theorem dupOnto (hk : Marked ends k) (cur : Fin maxTasks) (old new : Fin maxFds) :
    Marked (ends.mark cur new (ends cur old)) (dupOnto k cur old new).kernel := by
  unfold Tasking.dupOnto
  dsimp only
  have hcopy : ∀ closed : Kernel, Marked ends closed →
      Marked (ends.mark cur new (ends cur old))
        (addSlotRef (closed.setFd cur new (closed.slot cur old))
          ((closed.setFd cur new (closed.slot cur old)).slot cur new)) := by
    intro closed hclosed
    exact (hclosed.setFd_mark cur new (hclosed.created cur old)).congr (slot_addSlotRef _ _)
  apply hcopy
  split
  · exact hk.closeFd cur new
  · exact hk

theorem sysDup2 (hk : Marked ends k) (cur : Fin maxTasks) (oldfd newfd : ℤ) :
    Marked (dup2EndTable cur ends oldfd newfd (sysDup2 k cur oldfd newfd).handed)
      (sysDup2 k cur oldfd newfd).kernel := by
  cases hhanded : (Tasking.sysDup2 k cur oldfd newfd).handed with
  | none =>
      rw [sysDup2_failure hhanded]
      exact hk
  | some handed =>
      obtain ⟨old, new, hold, hnew, _, ⟨rfl, hcall⟩ | ⟨_, _, hcall⟩⟩ := sysDup2_success hhanded
      · rw [hcall, dup2EndTable, hold, hnew]
        dsimp only
        rw [EndTable.mark_self]
        exact hk
      · rw [hcall, dup2EndTable, hold, hnew]
        exact hk.dupOnto cur old new

/-- `F_SETFL` changes the word of an end to another word of that end. -/
theorem fcntlSetFl (hk : Marked ends k) (cur : Fin maxTasks) (fd : ℤ) (arg : UInt32) :
    Marked ends (fcntlSetFl k cur fd arg) := by
  unfold Tasking.fcntlSetFl
  split
  · exact hk
  · rename_i i _
    dsimp only
    split
    · apply hk.setFd cur i
      intro htype
      obtain ⟨write, hcreated, hword⟩ := hk.created cur i htype
      refine ⟨write, hcreated, ?_⟩
      dsimp only
      split
      · exact hword.set
      · exact hword.clear
    · rename_i hneither
      split
      · exact hk.setFd cur i fun htype => absurd (Or.inl htype) hneither
      · exact hk

/-! ## Creating and ending tasks -/

theorem createTask (hk : Marked ends k) (ring : Ring) (allocated : Bool) :
    Marked ends (createTask k ring allocated) := by
  unfold Tasking.createTask
  split
  · exact hk
  · exact ((hk.claimTask _ ring).resetPart _).setState _ _

theorem createUserThread (hk : Marked ends k) (leader : Fin maxTasks) (allocated : Bool) :
    Marked ends (createUserThread k leader allocated) := by
  unfold Tasking.createUserThread
  split
  · split
    · exact hk
    · rename_i t _
      dsimp only
      apply Marked.setState
      apply Marked.mapFds
      · exact (hk.claimTask t .ring3).setTask_of_fds t rfl
      · intro slot created _
        exact FdSlot.isCreated_of_type (by simp [FdSlot.zero]) created
  · exact hk

theorem exitFd (hk : Marked ends k) (t : Fin maxTasks) (fd : Fin maxFds) :
    Marked ends (exitFd t k fd) := by
  unfold Tasking.exitFd
  dsimp only
  split
  · have hclosed : FdSlot.IsCreated { k.slot t fd with
        node := none, flags := 0, type := .vfs, pipe := FdSlot.zero.pipe, flagsExtra := 0 }
        (ends t fd) := FdSlot.isCreated_of_type (by simp) _
    split
    · exact (hk.congr (slot_dropPipeRef k _ _)).setFd t fd hclosed
    · exact hk.setFd t fd hclosed
  · exact hk.setFd t fd (hk.created t fd)

theorem exitTask (hk : Marked ends k) (cur : Fin maxTasks) : Marked ends (exitTask k cur) := by
  unfold Tasking.exitTask
  split
  · have hfds : Marked ends ((List.finRange maxFds).foldl (Tasking.exitFd cur) k) :=
      List.foldlRecOn _ _ hk fun _ hb fd _ => hb.exitFd cur fd
    exact hfds.setState cur _
  · exact hk

theorem killThreadGroup (hk : Marked ends k) (group : ℕ) :
    Marked ends (killThreadGroup k group) := hk.congr (slot_killThreadGroup k group)

theorem sysExit (hk : Marked ends k) (cur : Fin maxTasks) : Marked ends (sysExit k cur) := by
  unfold Tasking.sysExit
  dsimp only
  split
  · exact (hk.killThreadGroup _).exitTask cur
  · exact hk.exitTask cur

theorem threadExit (hk : Marked ends k) (cur : Fin maxTasks) :
    Marked ends (threadExit k cur) := by
  unfold Tasking.threadExit
  dsimp only
  split
  · exact hk
  · split
    · exact (hk.killThreadGroup _).exitTask cur
    · exact hk.setState cur _

theorem sysWait4 (hk : Marked ends k) (cur : Fin maxTasks) (pid : ℤ) :
    Marked ends (sysWait4 k cur pid) := by
  unfold Tasking.sysWait4
  split
  · exact hk.setState _ _
  · exact hk

theorem dispatch (hk : Marked ends k) (next : Option (Fin maxTasks)) (killed : Bool) :
    Marked ends (dispatch k next killed) := by
  have hsaved : Marked ends k.saveCurrent := by
    unfold Kernel.saveCurrent
    split
    · split
      · exact hk.setState _ _
      · exact hk
    · exact hk
  unfold Tasking.dispatch
  dsimp only
  split
  · exact hsaved.congr rfl
  · rename_i t
    split
    · exact hk
    · split
      · exact (hsaved.setState t .dead).congr rfl
      · exact (hsaved.setState t .running).congr rfl

theorem redirected (hk : Marked ends k) (parent : Fin maxTasks) (pfd : ℤ) {slot : FdSlot}
    {created : Option Bool} (hslot : slot.IsCreated created) :
    (slot.redirected (redirSnap (k.tasks parent) pfd)).IsCreated
      ((redirEnd k ends parent pfd).or created) := by
  unfold redirSnap redirEnd
  cases toFd pfd with
  | none => exact hslot
  | some fd =>
      have hparent := hk.created parent fd
      unfold Kernel.slot at hparent ⊢
      dsimp only
      split
      · rename_i hpipe
        obtain ⟨write, hcreated, hword⟩ := hparent hpipe
        intro _
        refine ⟨write, ?_, ?_⟩
        · rw [if_pos hpipe, hcreated]
          rfl
        · exact Or.inl hword.and_one
      · exact FdSlot.isCreated_of_type (by simp [FdSlot.redirected]) _
      · rename_i hpipe _
        rw [if_neg hpipe]
        split
        · exact hslot
        · exact hslot

end Marked

theorem slot_installRedir (k : Kernel) (t : Fin maxTasks) (fd : Fin maxFds) (redir : Redir) :
    (installRedir t k fd redir).slot = (k.setFd t fd ((k.slot t fd).redirected redir)).slot := by
  cases redir with
  | none =>
      funext u fd'
      change k.slot u fd' = _
      rw [Kernel.slot_setFd]
      split
      · rename_i heq
        rw [heq.1, heq.2]
        rfl
      · rfl
  | pipe pno extra => exact slot_addPipeRef _ _ _
  | pty pno extra => exact slot_ptyDupRef _ _ _
  | file flags offset => rfl

theorem slot_installRedirs_list (t : Fin maxTasks) (redirs : Fin maxFds → Redir)
    {fds : List (Fin maxFds)} (hnodup : fds.Nodup) (k : Kernel) (u : Fin maxTasks)
    (fd : Fin maxFds) :
    (fds.foldl (fun k fd => installRedir t k fd (redirs fd)) k).slot u fd =
      if u = t ∧ fd ∈ fds then (k.slot u fd).redirected (redirs fd) else k.slot u fd := by
  induction fds generalizing k with
  | nil => simp
  | cons first rest ih =>
      obtain ⟨hfirst, hrest⟩ := List.nodup_cons.mp hnodup
      rw [List.foldl_cons, ih hrest, slot_installRedir, Kernel.slot_setFd]
      by_cases hu : u = t
      · subst hu
        by_cases hfd : fd = first
        · subst hfd
          simp [hfirst]
        · simp [hfd]
      · simp [hu]

theorem slot_installRedirs (t : Fin maxTasks) (redirs : Fin maxFds → Redir) (k : Kernel)
    (u : Fin maxTasks) (fd : Fin maxFds) :
    (installRedirs t redirs k).slot u fd =
      if u = t ∧ fd ∈ stdFds then (k.slot u fd).redirected (redirs fd) else k.slot u fd :=
  slot_installRedirs_list t redirs (by decide) k u fd

theorem slot_installRedirs_twice (t : Fin maxTasks) (redirs : Fin maxFds → Redir) (k : Kernel) :
    (installRedirs t redirs (installRedirs t redirs k)).slot = (installRedirs t redirs k).slot := by
  funext u fd
  rw [slot_installRedirs]
  split
  · rename_i hstd
    rw [slot_installRedirs, if_pos hstd]
    cases redirs fd <;> rfl
  · rfl

theorem slot_spawnRedir {k : Kernel} {cur t : Fin maxTasks} (hcur : k.current = some cur)
    (hfree : k.freeTask = some t) (redir : Fin maxFds → ℤ) {outcome : SpawnOutcome}
    (hmodule : outcome ≠ .noModule) :
    (spawnRedir k redir outcome).slot =
      (installRedirs t (fun fd => redirSnap (k.tasks cur) (redir fd))
        (((k.claimTask t .ring3).setTask t { (k.claimTask t .ring3).tasks t with
          group := ((k.claimTask t .ring3).tasks t).id }).mapFds t FdSlot.resetPart)).slot := by
  unfold spawnRedir
  rw [hcur, hfree]
  cases outcome with
  | noModule => exact absurd rfl hmodule
  | noStack => exact Kernel.slot_setState _ _ _
  | notLoaded | loaded => exact (Kernel.slot_setState _ _ _).trans (slot_installRedirs_twice _ _ _)

namespace Marked

variable {ends : EndTable} {k : Kernel}

theorem installRedirs (hk : Marked ends k) (parent child : Fin maxTasks) (redir : Fin maxFds → ℤ)
    {claimed : Kernel} (hclaimed : Marked ends claimed) :
    Marked (redirEndTable k ends parent child redir)
      (installRedirs child (fun fd => redirSnap (k.tasks parent) (redir fd)) claimed) := by
  refine ⟨fun t fd => ?_⟩
  rw [slot_installRedirs, redirEndTable]
  split
  · exact hk.redirected parent (redir fd) (hclaimed.created t fd)
  · exact hclaimed.created t fd

theorem spawnRedir (hk : Marked ends k) {cur : Fin maxTasks} (hcur : k.current = some cur)
    (redir : Fin maxFds → ℤ) (outcome : SpawnOutcome) (hmodule : outcome ≠ .noModule) :
    Marked (spawnEndTable k cur ends redir k.freeTask) (spawnRedir k redir outcome) := by
  cases hfree : k.freeTask with
  | none =>
      have hsame : Tasking.spawnRedir k redir outcome = k := by
        unfold Tasking.spawnRedir
        rw [hfree]
        cases outcome <;> rfl
      rw [hsame]
      exact hk
  | some t =>
      have hclaimed : Marked ends ((k.claimTask t .ring3).setTask t
          { (k.claimTask t .ring3).tasks t with
            group := ((k.claimTask t .ring3).tasks t).id }) :=
        (hk.claimTask t .ring3).setTask_of_fds t rfl
      have honce := hk.installRedirs cur t redir (hclaimed.resetPart t)
      exact honce.congr (slot_spawnRedir hcur hfree redir hmodule)

theorem sysFork (hk : Marked ends k) (cur : Fin maxTasks) (copied : Bool) :
    Marked (if (k.tasks cur).ring = .ring3 then forkEndTable cur ends k.freeTask else ends)
      (sysFork k cur copied) := by
  unfold Tasking.sysFork
  by_cases hring : (k.tasks cur).ring = .ring3
  · rw [if_pos hring, if_pos hring]
    cases k.freeTask with
    | none => exact hk
    | some t =>
        have hchild : Marked (fun u fd => if u = t then ends cur fd else ends u fd)
            { k.setTask t (forkChild k cur) with nextTaskId := k.nextTaskId + 1 } := by
          refine ⟨fun u fd => ?_⟩
          by_cases hu : u = t
          · refine FdSlot.isCreated_of_type ?_ _
            simp [hu, Kernel.slot, Kernel.setTask, forkChild, Task.zero, FdSlot.zero]
          · simpa [hu, Kernel.slot, Kernel.setTask] using hk.created u fd
        cases copied with
        | false => exact hchild
        | true =>
            refine Marked.setState (List.foldlRecOn _ _ hchild ?_) t _
            intro b hb fd _
            refine (hb.setFd t fd ?_).congr (slot_addSlotRef _ _)
            simpa using hb.created cur fd
  · rw [if_neg hring, if_neg hring]
    exact hk

/-! ## One step -/

theorem request (hk : Marked ends k) {cur : Fin maxTasks} (hcur : k.current = some cur)
    (request : Request) : Marked (request.ends k cur ends) (request.apply k cur) := by
  cases request with
  | call call =>
      cases call with
      | «open» index node => exact hk.sysOpen cur index node
      | pipe => exact hk.sysPipe cur
      | openpty => exact hk.sysOpenpty cur
      | socket => exact hk.netSocket cur
      | dup2 oldfd newfd => exact hk.sysDup2 cur oldfd newfd
  | close fd => exact hk.sysClose cur fd
  | netClose s => exact hk.netClose s
  | fcntl fd arg => exact hk.fcntlSetFl cur fd arg
  | spawn redir outcome =>
      cases outcome with
      | noModule => exact hk
      | noStack => exact hk.spawnRedir hcur redir .noStack nofun
      | notLoaded => exact hk.spawnRedir hcur redir .notLoaded nofun
      | loaded => exact hk.spawnRedir hcur redir .loaded nofun
  | fork copied => exact hk.sysFork cur copied
  | thread allocated => exact hk.createUserThread cur allocated
  | exit => exact hk.sysExit cur
  | threadExit => exact hk.threadExit cur
  | fault => exact hk.exitTask cur
  | wait4 pid => exact hk.sysWait4 cur pid
  | sleep => exact hk.setState cur _

theorem event (hk : Marked ends k) (event : Event) :
    Marked (event.ends k ends) (event.apply k) := by
  cases event with
  | request request =>
      rw [Event.apply, Event.ends]
      cases hcur : k.current with
      | none => exact hk
      | some cur =>
          dsimp only
          split
          · exact hk.request hcur request
          · exact hk
  | create ring allocated => exact hk.createTask ring allocated
  | kill group => exact hk.killThreadGroup group
  | wake t | neutralize t =>
      simp only [Event.apply]
      split
      · exact hk.setState t _
      · exact hk
  | dispatch next killed => exact hk.dispatch next killed

end Marked

end EigenOS.Tasking
