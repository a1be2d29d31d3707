import EigenOS.Tasking.Processes

/-!
# Handing out descriptors

A descriptor is described by several arrays, and every allocator looks at other ones.
`alloc_fd` looks at all that matter, so pipes and ptys are safe in every state.
`sys_open` looks at the VFS nodes only, the socket call at the socket table only, and
`sys_close` forgets what it does not expect; what this costs is said exactly below.
-/

namespace EigenOS.Tasking

/-- The objects a descriptor stands for. -/
def FdSlot.objects (slot : FdSlot) (socket : Option ℕ) : List Object :=
  (if 0 < slot.flags then [.file (slot.flags - 1)] else []) ++
  (match slot.node with
    | some node => [.node node]
    | none => []) ++
  (match slot.type with
    | .vfs => []
    | .pipe => [.pipeEnd slot.pipe slot.isUpperEnd]
    | .pty => [.ptyEnd slot.pty slot.isUpperEnd]
    | .socket => socket.toList.map .socket)

theorem maxFds_le_maxSockets : maxFds ≤ maxSockets := by decide

/-- The number of the live socket behind descriptor `fd`. -/
def liveSocket (k : Kernel) (fd : Fin maxFds) : Option ℕ :=
  if k.sockets (fd.castLE maxFds_le_maxSockets) then some fd.val else none

def objects (k : Kernel) (t : Fin maxTasks) (fd : Fin maxFds) : List Object :=
  (k.slot t fd).objects (liveSocket k fd)

def IsOpen (k : Kernel) (t : Fin maxTasks) (fd : Fin maxFds) : Prop := objects k t fd ≠ []

instance (k : Kernel) (t : Fin maxTasks) (fd : Fin maxFds) : Decidable (IsOpen k t fd) :=
  inferInstanceAs (Decidable (_ ≠ _))

/-- Whether a successful call may return the number of an open descriptor: only `dup2` may,
for the number it was asked for, and it has to release what a replaced descriptor stood
for. -/
def MayReturn (k : Kernel) (cur : Fin maxTasks) (released : List Object)
    (fd : Fin maxFds) : Call → Prop
  | .dup2 oldfd newfd => newfd = fd.val ∧
      (oldfd ≠ newfd → ∀ object ∈ objects k cur fd, object ∈ released)
  | _ => ¬ IsOpen k cur fd

/-- A successful call returns closed descriptors, or the requested one, and leaves every
other open descriptor of every task as it was. -/
def HandsOutClosed (k : Kernel) (cur : Fin maxTasks) (call : Call) : Prop :=
  ∀ handed, (call.outcome k cur).handed = some handed →
    (∀ fd : Fin maxFds, fd.val ∈ handed →
      MayReturn k cur (call.outcome k cur).released fd call) ∧
    (∀ (t : Fin maxTasks) (fd : Fin maxFds), IsOpen k t fd →
      ¬ (t = cur ∧ fd.val ∈ handed) →
      (call.outcome k cur).kernel.slot t fd = k.slot t fd)

/-- The states in which the array an allocator looks at tells open descriptors from closed
ones as far as it has to. -/
def AllocatorsAgree (k : Kernel) (cur : Fin maxTasks) : Call → Prop
  -- Below an open descriptor that is no VFS node there is always a closed one.
  | .open index node => index ≠ none ∨ node ≠ none →
      ∀ fd : Fin maxFds, 3 ≤ fd.val → IsOpen k cur fd → (k.slot cur fd).node = none →
        ∃ below < fd, 3 ≤ below.val ∧ ¬ IsOpen k cur below
  | .pipe => True
  | .openpty => True
  -- Below an open descriptor that is no live socket's number there is always a number that
  -- is free on both sides.
  | .socket => ∀ fd : Fin maxFds, IsOpen k cur fd → liveSocket k fd = none →
      ∃ below < fd, liveSocket k below = none ∧ ¬ IsOpen k cur below
  -- The replaced descriptor is no live socket, a file and nothing else, or no file and not
  -- an end of pipe 0.
  | .dup2 oldfd newfd => ∀ old new, toFd oldfd = some old → toFd newfd = some new →
      old ≠ new → IsDupSource (k.slot cur old) →
        ((k.slot cur new).type = .socket → liveSocket k new = none) ∧
        (0 < (k.slot cur new).flags →
          (k.slot cur new).node = none ∧ (k.slot cur new).type ≠ .pipe ∧
            (k.slot cur new).type ≠ .pty) ∧
        ((k.slot cur new).type = .pipe → 0 < (k.slot cur new).pipe.val)

/-! ## Open and free descriptors -/

variable {k : Kernel} {cur : Fin maxTasks}

theorem isOpen_iff {t : Fin maxTasks} {fd : Fin maxFds} :
    IsOpen k t fd ↔ 0 < (k.slot t fd).flags ∨ (k.slot t fd).node ≠ none ∨
      (k.slot t fd).type = .pipe ∨ (k.slot t fd).type = .pty ∨
      ((k.slot t fd).type = .socket ∧ liveSocket k fd ≠ none) := by
  unfold IsOpen objects FdSlot.objects
  by_cases hflags : 0 < (k.slot t fd).flags
  · simp [hflags]
  · cases hnode : (k.slot t fd).node <;> cases htype : (k.slot t fd).type <;>
      simp [hflags, Option.ne_none_iff_exists']

theorem IsFree.not_isOpen {s : Fin maxFds} (h : IsFree s (k.slot cur s)) : ¬ IsOpen k cur s := by
  obtain ⟨_, hnode, hflags, htype⟩ := h
  rw [isOpen_iff]
  simp [hnode, hflags, htype]

theorem handsOutClosed_iff {call : Call} :
    HandsOutClosed k cur call ↔
      ∀ handed, (call.outcome k cur).handed = some handed →
        ∀ fd : Fin maxFds, fd.val ∈ handed →
          MayReturn k cur (call.outcome k cur).released fd call := by
  constructor
  · intro h handed hcall
    exact (h handed hcall).1
  · intro h handed hcall
    refine ⟨h handed hcall, ?_⟩
    intro t fd _ hfd
    exact slot_outcome_of_notMem hcall hfd

/-! ## Each allocator -/

theorem openSlot_eq_some_iff {i : Fin maxFds} :
    openSlot (k.tasks cur) = some i ↔
      (3 ≤ i.val ∧ (k.slot cur i).node = none) ∧
        ∀ j < i, 3 ≤ j.val → (k.slot cur j).node ≠ none := by
  unfold openSlot
  rw [Fin.find?_eq_some_iff]
  simp [Kernel.slot, Option.isNone_iff_eq_none, Option.ne_none_iff_isSome]

theorem sysOpen_handed {index node : Option ℕ} {i : Fin maxFds}
    (hslot : openSlot (k.tasks cur) = some i) (hfound : index ≠ none ∨ node ≠ none) :
    (sysOpen k cur index node).handed = some [i.val] := by
  unfold sysOpen
  rw [hslot]
  cases index with
  | some idx => rfl
  | none =>
      cases node with
      | some node => rfl
      | none => simp at hfound

/-- `sys_open` returns the lowest descriptor without a VFS node. -/
theorem handsOutClosed_open {index node : Option ℕ} :
    HandsOutClosed k cur (.open index node) ↔ AllocatorsAgree k cur (.open index node) := by
  rw [handsOutClosed_iff]
  constructor
  · intro h hfound fd hfd hopen hnode
    cases hslot : openSlot (k.tasks cur) with
    | none =>
        have hnone := Fin.eq_false_of_find?_eq_none hslot fd
        rw [Kernel.slot] at hnode
        simp [hnode, hfd] at hnone
    | some i =>
        have hclosed := h _ (sysOpen_handed hslot hfound) i (List.mem_singleton_self _)
        obtain ⟨⟨hi, _⟩, hbelow⟩ := openSlot_eq_some_iff.mp hslot
        have hle : i ≤ fd := by
          by_contra hlt
          exact hbelow fd (not_le.mp hlt) hfd hnode
        have hne : i ≠ fd := by
          rintro rfl
          exact hclosed hopen
        exact ⟨i, lt_of_le_of_ne hle hne, hi, hclosed⟩
  · intro h handed hcall fd hmem hopen
    obtain ⟨i, slot, hi, hfound, rfl, _⟩ := sysOpen_success hcall
    obtain rfl : fd = i := Fin.ext (List.mem_singleton.mp hmem)
    obtain ⟨⟨hfd, hnode⟩, hbelow⟩ := openSlot_eq_some_iff.mp hi
    obtain ⟨below, hlt, hge, hclosed⟩ := h hfound fd hfd hopen hnode
    apply hclosed
    rw [isOpen_iff]
    exact Or.inr (Or.inl (hbelow below hlt hge))

theorem handsOutClosed_pipe (k : Kernel) (cur : Fin maxTasks) :
    HandsOutClosed k cur .pipe := by
  rw [handsOutClosed_iff]
  intro handed hcall fd hmem
  obtain ⟨pno, rd, wr, _, _, hrd, hwr, rfl, _⟩ := sysPipe_success hcall
  rcases List.mem_pair.mp hmem with hval | hval
  · rw [Fin.ext hval]
    exact hrd.not_isOpen
  · rw [Fin.ext hval]
    exact hwr.not_isOpen

theorem handsOutClosed_openpty (k : Kernel) (cur : Fin maxTasks) :
    HandsOutClosed k cur .openpty := by
  rw [handsOutClosed_iff]
  intro handed hcall fd hmem
  obtain ⟨idx, m, s, _, hm, hs, rfl, _⟩ := sysOpenpty_success hcall
  rcases List.mem_pair.mp hmem with hval | hval
  · rw [Fin.ext hval]
    exact hm.not_isOpen
  · rw [Fin.ext hval]
    exact hs.not_isOpen

theorem liveSocket_eq_none_iff {fd : Fin maxFds} :
    liveSocket k fd = none ↔ k.sockets (fd.castLE (by decide)) = false := by
  simp [liveSocket]

theorem netSocket_handed {sock : Fin maxSockets} (hsock : freeSocket k = some sock) :
    (netSocket k cur).handed = some [sock.val] := by
  unfold netSocket
  rw [hsock]
  dsimp only
  split <;> rfl

theorem handsOutClosed_socket : HandsOutClosed k cur .socket ↔ AllocatorsAgree k cur .socket := by
  rw [handsOutClosed_iff]
  constructor
  · intro h fd hopen hfree
    rw [liveSocket_eq_none_iff] at hfree
    cases hsock : freeSocket k with
    | none =>
        have hnone := Fin.eq_false_of_find?_eq_none hsock (fd.castLE (by decide))
        rw [hfree] at hnone
        cases hnone
    | some sock =>
        obtain ⟨hfreeSock, hbelow⟩ := Fin.find?_eq_some_iff.mp hsock
        have hle : sock ≤ fd.castLE (by decide) := by
          by_contra hlt
          have := hbelow _ (not_le.mp hlt)
          rw [hfree] at this
          cases this
        have hlt : sock.val < maxFds := lt_of_le_of_lt hle fd.isLt
        have hclosed : ¬ IsOpen k cur ⟨sock.val, hlt⟩ :=
          h _ (netSocket_handed hsock) ⟨sock.val, hlt⟩ (List.mem_singleton_self _)
        refine ⟨⟨sock.val, hlt⟩, ?_, ?_, hclosed⟩
        · refine lt_of_le_of_ne hle ?_
          intro heq
          rw [heq] at hclosed
          exact hclosed hopen
        · rw [liveSocket_eq_none_iff]
          simpa using hfreeSock
  · intro h handed hcall fd hmem hopen
    obtain ⟨sock, hsock, rfl, _⟩ := netSocket_success hcall
    obtain ⟨hfreeSock, hbelow⟩ := Fin.find?_eq_some_iff.mp hsock
    obtain rfl : sock = fd.castLE (by decide) :=
      Fin.ext (List.mem_singleton.mp hmem).symm
    have hfree : liveSocket k fd = none := by
      rw [liveSocket_eq_none_iff]
      simpa using hfreeSock
    obtain ⟨below, hlt, hbelowFree, _⟩ := h fd hopen hfree
    rw [liveSocket_eq_none_iff] at hbelowFree
    have := hbelow (below.castLE (by decide)) hlt
    rw [hbelowFree] at this
    cases this

/-- What `sys_close` releases of the objects of a descriptor. -/
def FdSlot.dropped (slot : FdSlot) : List Object :=
  if 0 < slot.flags then [.file (slot.flags - 1)]
  else
    (match slot.node with
      | some node => [.node node]
      | none => []) ++
    (match slot.type with
      | .pipe =>
          if 0 < slot.pipe.val then [.pipeEnd slot.pipe slot.isUpperEnd] else []
      | .pty => [.ptyEnd slot.pty slot.isUpperEnd]
      | _ => [])

theorem closeFd_released (k : Kernel) (cur : Fin maxTasks) (fd : Fin maxFds) :
    (closeFd k cur fd).2 = (k.slot cur fd).dropped := by
  unfold closeFd FdSlot.dropped
  by_cases hflags : 0 < (k.slot cur fd).flags
  · simp [hflags]
  · by_cases hpipe : 0 < (k.slot cur fd).pipe.val <;>
      cases hnode : (k.slot cur fd).node <;> cases htype : (k.slot cur fd).type <;>
        simp [hflags, hpipe, hnode, htype, FdSlot.isUpperEnd]

theorem dupOnto_released (k : Kernel) (cur : Fin maxTasks) (old new : Fin maxFds) :
    (dupOnto k cur old new).released = (k.slot cur new).dropped := by
  unfold dupOnto
  dsimp only
  split
  · exact closeFd_released k cur new
  · rename_i hempty
    simp only [not_or, not_not] at hempty
    obtain ⟨hpipe, hpty, hnode, hflags⟩ := hempty
    unfold FdSlot.dropped
    cases htype : (k.slot cur new).type <;> simp_all

/-- `sys_close` releases all objects of a descriptor only if it is no live socket, a file
and nothing else or no file, and not an end of pipe 0. -/
theorem objects_subset_dropped_iff (slot : FdSlot) (socket : Option ℕ) :
    (∀ object ∈ slot.objects socket, object ∈ slot.dropped) ↔
      (slot.type = .socket → socket = none) ∧
      (0 < slot.flags → slot.node = none ∧ slot.type ≠ .pipe ∧ slot.type ≠ .pty) ∧
      (slot.type = .pipe → 0 < slot.pipe.val) := by
  unfold FdSlot.objects FdSlot.dropped
  by_cases hflags : 0 < slot.flags
  · cases hnode : slot.node <;> cases htype : slot.type <;> cases socket <;>
      simp [hflags]
  · by_cases hpipe : 0 < slot.pipe.val <;> cases hnode : slot.node <;>
      cases htype : slot.type <;> cases socket <;> simp [hflags, hpipe]

theorem handsOutClosed_dup2 {oldfd newfd : ℤ} :
    HandsOutClosed k cur (.dup2 oldfd newfd) ↔
      AllocatorsAgree k cur (.dup2 oldfd newfd) := by
  rw [handsOutClosed_iff]
  constructor
  · intro h old new hold hnew hne hsource
    have hdup : sysDup2 k cur oldfd newfd = dupOnto k cur old new := by
      unfold sysDup2
      simp only [hold, hnew]
      rw [if_neg hne, if_pos hsource]
    have hmay := h [new.val] (by rw [Call.outcome, hdup]; rfl) new
      (List.mem_singleton_self _)
    rw [Call.outcome, hdup] at hmay
    rw [dupOnto_released] at hmay
    apply (objects_subset_dropped_iff _ _).mp
    apply hmay.2
    intro heq
    apply hne
    rw [toFd_eq_some] at hold hnew
    exact Fin.ext (by omega)
  · intro h handed hcall fd hmem
    obtain ⟨old, new, hold, hnew, rfl, hcase⟩ := sysDup2_success hcall
    obtain rfl : fd = new := Fin.ext (List.mem_singleton.mp hmem)
    refine ⟨toFd_eq_some.mp hnew, ?_⟩
    intro hne
    rcases hcase with ⟨rfl, _⟩ | ⟨hdiff, hsource, hdup⟩
    · rw [toFd_eq_some] at hold hnew
      omega
    · rw [Call.outcome, hdup, dupOnto_released]
      exact (objects_subset_dropped_iff _ _).mpr (h old fd hold hnew hdiff hsource)

/-- For every call in every kernel state. -/
theorem handsOutClosed_iff_allocatorsAgree (k : Kernel) (cur : Fin maxTasks) (call : Call) :
    HandsOutClosed k cur call ↔ AllocatorsAgree k cur call := by
  cases call with
  | «open» index node => exact handsOutClosed_open
  | pipe => exact iff_of_true (handsOutClosed_pipe k cur) trivial
  | openpty => exact iff_of_true (handsOutClosed_openpty k cur) trivial
  | socket => exact handsOutClosed_socket
  | dup2 oldfd newfd => exact handsOutClosed_dup2

def firstProcess : Fin maxTasks := ⟨1, by decide⟩

/-- A process starts and opens a file. -/
def openFirst : List Event :=
  [.create .ring3 true, .dispatch (some firstProcess) false,
    .request (.call (.open (some 5) none))]

/-- The second file a process opens gets the descriptor of the first. -/
theorem openTwice_not_handsOutClosed :
    ∃ run, Transition.Along KernelStep initTasking run ∧
      ¬ HandsOutClosed (Transition.final initTasking run) firstProcess
        (.open (some 6) none) := by
  refine ⟨runOf initTasking openFirst, along_runOf _ _, ?_⟩
  intro h
  have hmay := (h [3] (by decide +kernel)).1 ⟨3, by decide⟩ (by decide)
  exact hmay (by decide +kernel)

end EigenOS.Tasking
