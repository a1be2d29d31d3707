import EigenOS.Library.Holders
import EigenOS.Library.Transition
import EigenOS.Gui.Windows

/-!
# The buffers of windows and who can write them

Freeing the buffer of a window gives it back to the kernel heap, from whatever address space
the window is closed in; nothing takes the pages out of the address space of the program.  As
long as no window is freed whose pages a running process still has, what a process has mapped
in its window area is the buffer of a window of its own.
-/

namespace EigenOS.Gui

open EigenOS.Memory EigenOS.Holders EigenOS.Transition Function

/-- A pointer from `kmalloc` that is not free. -/
def Allocated (h : KernelHeap) (ptr : ℕ) : Prop := ∃ size, h.Live ptr size

/-- A buffer lies in an allocated block, behind the word that names the block. -/
def AllocatedBuffer (h : KernelHeap) (buf : ℕ) : Prop :=
  h.original buf + 8 ≤ buf ∧
    ∃ size, h.Live (h.original buf) size ∧ buf + userWinMaxBuf ≤ h.original buf + size

def bufferBlock (h : KernelHeap) (buf : ℕ) : Option ℕ :=
  if buf = 0 then none else some (h.original buf)

/-- What holds a block: the rest of the kernel, a window, or the call that has just made it. -/
inductive Holder where
  | held (ptr : ℕ)
  | buf (i : Slot)
  | cbuf (i : Slot)
  | call
  deriving DecidableEq

def Desktop.holds (s : Desktop) : Holder → Option ℕ
  | .held ptr => if ptr ∈ s.held then some ptr else none
  | .buf i => bufferBlock s.heap (s.windows i).userBuf
  | .cbuf i => bufferBlock s.heap (s.windows i).userCbuf
  | .call => none

/-! ## Blocks of buffers -/

section Blocks

variable {h h' : KernelHeap} {buf : ℕ} {holds : Holder → Option ℕ} {holder : Holder}

variable (buf holder) in
theorem kfreeAligned_holder (hfilled : h.Filled) (hexclusive : Exclusive holds (Allocated h))
    (hholds : holds holder = bufferBlock h buf) :
    (kfreeAligned h buf).Filled ∧ (kfreeAligned h buf).original = h.original ∧
      Exclusive (update holds holder none) (Allocated (kfreeAligned h buf)) ∧
      ∀ other ptr size, other ≠ holder → holds other = some ptr → h.Live ptr size →
        (kfreeAligned h buf).Live ptr size := by
  unfold kfreeAligned bufferBlock at *
  by_cases hbuf : buf = 0
  · rw [if_pos hbuf] at hholds ⊢
    have hsame : update holds holder none = holds := by
      rw [← hholds, update_eq_self]
    rw [hsame]
    exact ⟨hfilled, rfl, hexclusive, fun _ _ _ _ _ hlive => hlive⟩
  · rw [if_neg hbuf] at hholds ⊢
    obtain ⟨size, hlive⟩ := hexclusive.live holder _ hholds
    obtain ⟨hfilled', horiginal, hlive'⟩ := kfree_spec hfilled hlive
    refine ⟨hfilled', horiginal, hexclusive.release hholds fun other => ?_, ?_⟩
    · unfold Allocated
      simp only [hlive', exists_and_left]
    · intro other ptr size hne hother hold
      refine (hlive' ptr size).mpr ⟨?_, hold⟩
      rintro rfl
      exact hne (hexclusive.unique other holder _ hother hholds)

variable (holder) in
theorem kmallocAligned_holder (hfilled : h.Filled) (hexclusive : Exclusive holds (Allocated h))
    (hmalloc : kmallocAligned h userWinMaxBuf 4096 = some (buf, h')) :
    h'.Filled ∧ AllocatedBuffer h' buf ∧
      Exclusive (update holds holder (some (h'.original buf))) (Allocated h') ∧
      ∀ other, AllocatedBuffer h other →
        h'.original other = h.original other ∧ AllocatedBuffer h' other := by
  obtain ⟨hfilled', hfresh, horiginal, hlow, taken, htaken, hlive⟩ :=
    kmallocAligned_spec hfilled (by decide) (by decide) hmalloc
  have hnew : h'.Live (h'.original buf) taken := (hlive _ _).mpr (Or.inl ⟨rfl, rfl⟩)
  refine ⟨hfilled', ⟨hlow, taken, hnew, htaken⟩, ?_, ?_⟩
  · refine hexclusive.acquire (fun hold => ?_) fun other => ?_
    · obtain ⟨size, hold⟩ := hold
      exact hfresh size hold
    · unfold Allocated
      simp only [hlive, exists_or, exists_and_left, exists_eq, and_true]
  · rintro other ⟨hotherLow, size, hold, hotherHigh⟩
    have hotherLive : h'.Live (h.original other) size := (hlive _ _).mpr (Or.inr hold)
    -- both buffers lie in live blocks, and these do not overlap
    have hne : other ≠ buf := by
      rintro rfl
      have hmax : 0 < userWinMaxBuf := by decide
      rcases hfilled'.live_apart hnew hotherLive with ⟨heq, _⟩ | hbefore | hafter
      · rw [heq] at hfresh
        exact hfresh size hold
      · omega
      · omega
    have hsame := horiginal other hne
    refine ⟨hsame, ?_⟩
    unfold AllocatedBuffer
    rw [hsame]
    exact ⟨hotherLow, size, hotherLive, hotherHigh⟩

end Blocks

/-! ## The invariant -/

def Running (s : Desktop) (space : AddressSpace) : Prop := ∃ pid, s.running pid = some space

/-- A window that is open and that a task of the process has opened. -/
structure Owns (s : Desktop) (space : AddressSpace) (i : Slot) : Prop where
  isOpen : (s.windows i).id ≠ -1
  user : (s.windows i).user = true
  task : ∃ task, s.task (s.windows i).userPid = some task ∧ task.space = space

/-- The heap part of the invariant. -/
structure BuffersAllocated (s : Desktop) : Prop where
  filled : s.heap.Filled
  exclusive : Exclusive s.holds (Allocated s.heap)
  buf : ∀ i, (s.windows i).userBuf ≠ 0 → AllocatedBuffer s.heap (s.windows i).userBuf
  cbuf : ∀ i, (s.windows i).userCbuf ≠ 0 → AllocatedBuffer s.heap (s.windows i).userCbuf

/-- The address spaces and the tasks that there have been. -/
structure TasksKnown (s : Desktop) : Prop where
  tasks : ∀ pid task, s.task pid = some task → pid < s.nextTaskId ∧ task.space < s.nextSpace
  spaces : ∀ space i k, s.nextSpace ≤ space → s.maps space i k = none

/-- No two open windows have one number. -/
structure Numbered (s : Desktop) : Prop where
  next : 0 < s.nextWinId
  below : ∀ i, (s.windows i).id < s.nextWinId
  distinct : ∀ i j, (s.windows i).id ≠ -1 → (s.windows i).id = (s.windows j).id → i = j

variable (vmmGetPhys : ℕ → ℕ)

/-- What is mapped in the area of a slot is the buffer of the window in the slot. -/
def SlotsMapped (s : Desktop) : Prop :=
  ∀ space i k frame, Running s space → s.maps space i k = some frame →
    Owns s space i ∧ (s.windows i).userBuf ≠ 0 ∧ k < userWinPages ∧
      frameOf vmmGetPhys ((s.windows i).userBuf + 4096 * k) = some frame

structure Inv (s : Desktop) : Prop where
  allocated : BuffersAllocated s
  known : TasksKnown s
  mapped : SlotsMapped vmmGetPhys s
  numbered : Numbered s

/-- Every frame that a process has mapped in its window area belongs to the buffer of a window
that is open and its own, and the buffer is allocated. -/
def BuffersOwned (s : Desktop) : Prop :=
  ∀ space, Running s space → ∀ i k frame, s.maps space i k = some frame →
    ∃ j, Owns s space j ∧ AllocatedBuffer s.heap (s.windows j).userBuf ∧
      ∃ page < userWinPages,
        frameOf vmmGetPhys ((s.windows j).userBuf + 4096 * page) = some frame

/-- The window is not a program's, its process runs no longer, or has no page of it. -/
def FreedSafely (s : Desktop) (i : Slot) : Prop :=
  ∀ space, Owns s space i → Running s space → ∀ k, s.maps space i k = none

variable {vmmGetPhys}

theorem Inv.buffersOwned {s : Desktop} (h : Inv vmmGetPhys s) : BuffersOwned vmmGetPhys s := by
  intro space hrunning i k frame hmap
  obtain ⟨howns, hbuf, hk, hframe⟩ := h.mapped space i k frame hrunning hmap
  exact ⟨i, howns, h.allocated.buf i hbuf, k, hk, hframe⟩

theorem Numbered.changed {s s' : Desktop} {i : Slot} (h : Numbered s)
    (hnext : s'.nextWinId = s.nextWinId) (hother : ∀ j, j ≠ i → s'.windows j = s.windows j)
    (hid : (s'.windows i).id = -1 ∨ (s'.windows i).id = (s.windows i).id) : Numbered s' := by
  have hnow : ∀ j, (s'.windows j).id ≠ -1 → (s'.windows j).id = (s.windows j).id := by
    intro j hj
    by_cases hji : j = i
    · subst hji
      exact hid.resolve_left hj
    · rw [hother j hji]
  refine ⟨hnext ▸ h.next, fun j => ?_, fun j k hj heq => ?_⟩
  · rw [hnext]
    by_cases hj : (s'.windows j).id = -1
    · have := h.next
      omega
    · rw [hnow j hj]
      exact h.below j
  · have hk : (s'.windows k).id ≠ -1 := heq ▸ hj
    have hjSame := hnow j hj
    have hkSame := hnow k hk
    exact h.distinct j k (hjSame ▸ hj) (by rw [← hjSame, heq, hkSame])

theorem Numbered.opened {s s' : Desktop} {i : Slot} (h : Numbered s)
    (hnext : s'.nextWinId = s.nextWinId + 1) (hother : ∀ j, j ≠ i → s'.windows j = s.windows j)
    (hid : (s'.windows i).id = s.nextWinId) : Numbered s' := by
  have hold : ∀ j, j ≠ i → (s'.windows j).id < s.nextWinId := by
    intro j hj
    rw [hother j hj]
    exact h.below j
  have hpos := h.next
  refine ⟨by omega, fun j => ?_, fun j k hj heq => ?_⟩
  · by_cases hji : j = i
    · rw [hji]
      omega
    · have := hold j hji
      omega
  · by_cases hji : j = i
    · by_cases hki : k = i
      · rw [hji, hki]
      · have := hold k hki
        rw [hji] at heq
        omega
    · by_cases hki : k = i
      · have := hold j hji
        rw [hki] at heq
        omega
      · rw [hother j hji] at hj heq
        rw [hother k hki] at heq
        exact h.distinct j k hj heq

theorem inv_wmInit (heap : ℕ) : Inv vmmGetPhys (wmInit heap) := by
  refine ⟨⟨filled_kheapInit heap, ?_, fun i hne => absurd rfl hne, fun i hne => absurd rfl hne⟩,
    ⟨nofun, fun _ _ _ _ => rfl⟩, nofun,
    ⟨Int.one_pos, fun _ => (by decide : (-1 : ℤ) < 1), fun _ _ hne => absurd rfl hne⟩⟩
  have hnone : (wmInit heap).holds = fun _ => none := by
    funext holder
    cases holder <;> rfl
  rw [hnone]
  exact exclusive_none

/-! ## Freeing a window -/

variable {space : AddressSpace}

section Free

variable {s : Desktop} {i : Slot}

theorem windows_freeWindow_of_ne {j : Slot} (hne : j ≠ i) :
    (freeWindow s i).windows j = s.windows j := by
  have hfirst : (freeWindow s i).windows j = (wmUserFreeBuffer s i).windows j := if_neg hne
  exact hfirst.trans (if_neg hne)

theorem windows_freeWindow_self : (freeWindow s i).windows i =
    { s.windows i with
      id := -1, user := false, closing := false, maximized := false, userBuf := 0,
      userCbuf := 0 } := if_pos rfl

theorem AllocatedBuffer.kept {h h' : KernelHeap} {buf : ℕ} (hbuf : AllocatedBuffer h buf)
    (horiginal : h'.original = h.original)
    (hkeep : ∀ size, h.Live (h.original buf) size → h'.Live (h.original buf) size) :
    AllocatedBuffer h' buf := by
  obtain ⟨hlow, size, hlive, hhigh⟩ := hbuf
  unfold AllocatedBuffer
  rw [horiginal]
  exact ⟨hlow, size, hkeep size hlive, hhigh⟩

theorem bufferBlock_of_ne {h : KernelHeap} {buf : ℕ} (hne : buf ≠ 0) :
    bufferBlock h buf = some (h.original buf) := if_neg hne

theorem bufferBlock_congr {h h' : KernelHeap} {buf : ℕ} (hsame : h'.original buf = h.original buf) :
    bufferBlock h' buf = bufferBlock h buf := by
  unfold bufferBlock
  rw [hsame]

theorem holds_eq_update {s' : Desktop} {buf cbuf : Option ℕ}
    (hheld : ∀ ptr, s'.holds (.held ptr) = s.holds (.held ptr))
    (hbuf : s'.holds (.buf i) = buf) (hcbuf : s'.holds (.cbuf i) = cbuf)
    (hother : ∀ j, j ≠ i → s'.holds (.buf j) = s.holds (.buf j) ∧
      s'.holds (.cbuf j) = s.holds (.cbuf j)) :
    s'.holds = update (update s.holds (.buf i) buf) (.cbuf i) cbuf := by
  funext holder
  cases holder with
  | held ptr => simp [hheld]
  | buf j =>
      by_cases hj : j = i
      · simp [hj, hbuf]
      · simp [hj, (hother j hj).1]
  | cbuf j =>
      by_cases hj : j = i
      · simp [hj, hcbuf]
      · simp [hj, (hother j hj).2]
  | call =>
      simp only [update, reduceCtorEq, dif_neg, not_false_eq_true]
      rfl

theorem allocated_freeWindow (h : BuffersAllocated s) : BuffersAllocated (freeWindow s i) := by
  obtain ⟨hfilled₁, horiginal₁, hexclusive₁, hkeep₁⟩ :=
    kfreeAligned_holder (s.windows i).userBuf (.buf i) h.filled h.exclusive rfl
  have hcbuf : update s.holds (.buf i) none (.cbuf i) =
      bufferBlock (kfreeAligned s.heap (s.windows i).userBuf) (s.windows i).userCbuf := by
    have hne : Holder.cbuf i ≠ Holder.buf i := by simp
    rw [update_of_ne hne, bufferBlock, horiginal₁]
    rfl
  obtain ⟨hfilled₂, horiginal₂, hexclusive₂, hkeep₂⟩ :=
    kfreeAligned_holder (s.windows i).userCbuf (.cbuf i) hfilled₁ hexclusive₁ hcbuf
  have horiginal := horiginal₂.trans horiginal₁
  -- a block with another holder is not one of the two
  have hkeep : ∀ holder ptr size, holder ≠ .buf i → holder ≠ .cbuf i →
      s.holds holder = some ptr → s.heap.Live ptr size → (freeWindow s i).heap.Live ptr size := by
    intro holder ptr size hbuf hcbuf hholds hlive
    refine hkeep₂ holder ptr size hcbuf ?_ (hkeep₁ holder ptr size hbuf hholds hlive)
    rwa [update_of_ne hbuf]
  have hholds : (freeWindow s i).holds =
      update (update s.holds (.buf i) none) (.cbuf i) none := by
    refine holds_eq_update (fun _ => rfl) ?_ ?_ fun j hj => ?_
    · rw [Desktop.holds, windows_freeWindow_self]
      rfl
    · rw [Desktop.holds, windows_freeWindow_self]
      rfl
    · rw [Desktop.holds, Desktop.holds, Desktop.holds, Desktop.holds, windows_freeWindow_of_ne hj]
      exact ⟨bufferBlock_congr (congrFun horiginal _), bufferBlock_congr (congrFun horiginal _)⟩
  refine ⟨hfilled₂, ?_, fun j hne => ?_, fun j hne => ?_⟩
  · rw [hholds]
    exact hexclusive₂
  · by_cases hj : j = i
    · subst hj
      rw [windows_freeWindow_self] at hne
      exact absurd rfl hne
    · rw [windows_freeWindow_of_ne hj] at hne ⊢
      refine (h.buf j hne).kept horiginal fun size hlive => ?_
      exact hkeep (.buf j) _ size (by simp [hj]) (by simp) (bufferBlock_of_ne hne) hlive
  · by_cases hj : j = i
    · subst hj
      rw [windows_freeWindow_self] at hne
      exact absurd rfl hne
    · rw [windows_freeWindow_of_ne hj] at hne ⊢
      refine (h.cbuf j hne).kept horiginal fun size hlive => ?_
      exact hkeep (.cbuf j) _ size (by simp) (by simp [hj]) (bufferBlock_of_ne hne) hlive

theorem owns_freeWindow {j : Slot} (h : Owns (freeWindow s i) space j) :
    j ≠ i ∧ Owns s space j := by
  by_cases hj : j = i
  · have hopen := h.isOpen
    rw [hj, windows_freeWindow_self] at hopen
    exact absurd rfl hopen
  · obtain ⟨hopen, huser, htask⟩ := h
    rw [windows_freeWindow_of_ne hj] at hopen huser htask
    exact ⟨hj, hopen, huser, htask⟩

theorem inv_freeWindow (h : Inv vmmGetPhys s) (hfreed : FreedSafely s i) :
    Inv vmmGetPhys (freeWindow s i) := by
  refine ⟨allocated_freeWindow h.allocated, ⟨h.known.tasks, h.known.spaces⟩, ?_,
    h.numbered.changed rfl (fun j => windows_freeWindow_of_ne) (Or.inl ?_)⟩
  · intro space j k frame hrunning hmap
    obtain ⟨howns, hbuf, hk, hframe⟩ := h.mapped space j k frame hrunning hmap
    have hj : j ≠ i := by
      rintro rfl
      have hnone := hfreed space howns hrunning k
      have hsome : s.maps space j k = some frame := hmap
      rw [hsome] at hnone
      cases hnone
    rw [windows_freeWindow_of_ne hj]
    refine ⟨⟨?_, ?_, ?_⟩, hbuf, hk, hframe⟩
    all_goals rw [windows_freeWindow_of_ne hj]
    · exact howns.isOpen
    · exact howns.user
    · exact howns.task
  · rw [windows_freeWindow_self]

end Free

/-! ## Steps that leave the heap alone -/

section Changes

variable {s s' : Desktop}

theorem allocated_congr (h : BuffersAllocated s) (hheap : s'.heap = s.heap)
    (hheld : s'.held = s.held)
    (hbufs : ∀ j, (s'.windows j).userBuf = (s.windows j).userBuf ∧
      (s'.windows j).userCbuf = (s.windows j).userCbuf) : BuffersAllocated s' := by
  have hholds : s'.holds = s.holds := by
    funext holder
    cases holder with
    | held ptr => rw [Desktop.holds, Desktop.holds, hheld]
    | buf j => rw [Desktop.holds, Desktop.holds, hheap, (hbufs j).1]
    | cbuf j => rw [Desktop.holds, Desktop.holds, hheap, (hbufs j).2]
    | call => rfl
  refine ⟨hheap ▸ h.filled, ?_, fun j hne => ?_, fun j hne => ?_⟩
  · rw [hholds, hheap]
    exact h.exclusive
  · rw [(hbufs j).1] at hne ⊢
    rw [hheap]
    exact h.buf j hne
  · rw [(hbufs j).2] at hne ⊢
    rw [hheap]
    exact h.cbuf j hne

/-- No buffer changes, no window that a process owns is lost, and a process that comes to run
has nothing mapped. -/
theorem Inv.changed (h : Inv vmmGetPhys s) (hheap : s'.heap = s.heap) (hheld : s'.held = s.held)
    (hbufs : ∀ j, (s'.windows j).userBuf = (s.windows j).userBuf ∧
      (s'.windows j).userCbuf = (s.windows j).userCbuf)
    (hmaps : s'.maps = s.maps) (howns : ∀ space j, Owns s space j → Owns s' space j)
    (hrunning : ∀ space, Running s' space → Running s space ∨ ∀ j k, s.maps space j k = none)
    (hknown : TasksKnown s') (hnumbered : Numbered s') : Inv vmmGetPhys s' := by
  refine ⟨allocated_congr h.allocated hheap hheld hbufs, hknown, ?_, hnumbered⟩
  intro space j k frame hrun hmap
  rw [hmaps] at hmap
  rcases hrunning space hrun with hold | hnone
  · obtain ⟨howner, hbuf, hk, hframe⟩ := h.mapped space j k frame hold hmap
    rw [(hbufs j).1]
    exact ⟨howns space j howner, hbuf, hk, hframe⟩
  · rw [hnone] at hmap
    cases hmap

theorem mapped_congr (h : SlotsMapped vmmGetPhys s) (hwindows : s'.windows = s.windows)
    (hmaps : s'.maps = s.maps) (htask : s'.task = s.task) : SlotsMapped vmmGetPhys s' := by
  intro space j k frame hrunning hmap
  have hrun : Running s space := by
    unfold Running Desktop.running at hrunning ⊢
    rwa [htask] at hrunning
  rw [hmaps] at hmap
  obtain ⟨⟨hopen, huser, howner⟩, hrest⟩ := h space j k frame hrun hmap
  rw [← hwindows] at hopen huser howner hrest
  rw [← htask] at howner
  exact ⟨⟨hopen, huser, howner⟩, hrest⟩

theorem windows_setWindow_self (s : Desktop) (i : Slot) (win : Window) :
    (s.setWindow i win).windows i = win := if_pos rfl

theorem windows_setWindow_of_ne (s : Desktop) (win : Window) {i j : Slot} (hne : j ≠ i) :
    (s.setWindow i win).windows j = s.windows j := if_neg hne

theorem inv_setWindow (h : Inv vmmGetPhys s) {i : Slot} {win : Window}
    (hbuf : win.userBuf = (s.windows i).userBuf) (hcbuf : win.userCbuf = (s.windows i).userCbuf)
    (hid : win.id = (s.windows i).id) (huser : win.user = (s.windows i).user)
    (hpid : win.userPid = (s.windows i).userPid) : Inv vmmGetPhys (s.setWindow i win) := by
  refine h.changed rfl rfl (fun j => ?_) rfl (fun space j howns => ?_)
    (fun _ hrun => Or.inl hrun) ⟨h.known.tasks, h.known.spaces⟩
    (h.numbered.changed rfl (fun j => windows_setWindow_of_ne s win) (Or.inr ?_))
  · by_cases hj : j = i
    · rw [hj, windows_setWindow_self]
      exact ⟨hbuf, hcbuf⟩
    · rw [windows_setWindow_of_ne s win hj]
      exact ⟨rfl, rfl⟩
  · obtain ⟨hopen, husers, htask⟩ := howns
    by_cases hj : j = i
    · subst hj
      refine ⟨?_, ?_, ?_⟩
      all_goals rw [windows_setWindow_self]
      · rwa [hid]
      · rwa [huser]
      · rwa [hpid]
    · refine ⟨?_, ?_, ?_⟩
      all_goals rw [windows_setWindow_of_ne s win hj]
      · exact hopen
      · exact husers
      · exact htask
  · rw [windows_setWindow_self, hid]

theorem slotOf_eq_some {id : ℤ} {i : Slot} (h : s.slotOf id = some i) : (s.windows i).id = id := by
  simpa using List.find?_some h

theorem findWindow_eq_some {id : ℤ} {i : Slot} (h : findWindow s id = some i) :
    (s.windows i).id = id := by
  unfold findWindow at h
  split at h
  · cases h
  · exact slotOf_eq_some h

theorem inv_wmOpenWindow (h : Inv vmmGetPhys s) : Inv vmmGetPhys (wmOpenWindow s) := by
  unfold wmOpenWindow
  cases hslot : s.slotOf (-1) with
  | none => exact h
  | some slot =>
      have hfree := slotOf_eq_some hslot
      refine h.changed rfl rfl (fun j => ?_) rfl (fun space j howns => ?_)
        (fun _ hrun => Or.inl hrun) ⟨h.known.tasks, h.known.spaces⟩
        (h.numbered.opened rfl (fun j hj => windows_setWindow_of_ne s _ hj) ?_)
      · by_cases hj : j = slot
        · subst hj
          dsimp only
          rw [windows_setWindow_self]
          exact ⟨rfl, rfl⟩
        · dsimp only
          rw [windows_setWindow_of_ne s _ hj]
          exact ⟨rfl, rfl⟩
      · have hj : j ≠ slot := by
          rintro rfl
          exact howns.isOpen hfree
        obtain ⟨hopen, huser, htask⟩ := howns
        refine ⟨?_, ?_, ?_⟩
        all_goals dsimp only; rw [windows_setWindow_of_ne s _ hj]
        · exact hopen
        · exact huser
        · exact htask
      · dsimp only
        rw [windows_setWindow_self]

end Changes

/-! ## Closing -/

section Close

variable {s : Desktop}

theorem wmCloseWindow_cases (s : Desktop) (id : ℤ) (now : BitVec 32) :
    wmCloseWindow s id now = s ∨ ∃ i, findWindow s id = some i ∧ (s.windows i).closing = false ∧
      ((s.windows i).closesAtOnce = true ∧ wmCloseWindow s id now = freeWindow s i ∨
        wmCloseWindow s id now =
          s.setWindow i { s.windows i with closing := true, closeMs := now }) := by
  unfold wmCloseWindow
  cases hfind : findWindow s id with
  | none => exact Or.inl rfl
  | some i =>
      dsimp only
      cases hclosing : (s.windows i).closing with
      | true => exact Or.inl rfl
      | false =>
          refine Or.inr ⟨i, rfl, hclosing, ?_⟩
          cases honce : (s.windows i).closesAtOnce with
          | true => exact Or.inl ⟨rfl, rfl⟩
          | false => exact Or.inr rfl

theorem inv_wmCloseWindow (h : Inv vmmGetPhys s) (id : ℤ) (now : BitVec 32)
    (hfreed : ∀ i, findWindow s id = some i → (s.windows i).closing = false →
      (s.windows i).closesAtOnce = true → FreedSafely s i) :
    Inv vmmGetPhys (wmCloseWindow s id now) := by
  rcases wmCloseWindow_cases s id now with heq | ⟨i, hfind, hclosing, ⟨honce, heq⟩ | heq⟩
  · rw [heq]
    exact h
  · rw [heq]
    exact inv_freeWindow h (hfreed i hfind hclosing honce)
  · rw [heq]
    exact inv_setWindow h rfl rfl rfl rfl rfl

theorem freedSafely_freeWindow {i j : Slot} (h : FreedSafely s j) :
    FreedSafely (freeWindow s i) j :=
  fun space howns hrunning => h space (owns_freeWindow howns).2 hrunning

theorem inv_foldl (guard : Desktop → Prop) (next : Desktop → Slot → Desktop)
    (hnext : ∀ s i, Inv vmmGetPhys s → guard s →
      Inv vmmGetPhys (next s i) ∧ guard (next s i)) (slots : List Slot) {s : Desktop}
    (h : Inv vmmGetPhys s) (hguard : guard s) : Inv vmmGetPhys (slots.foldl next s) := by
  induction slots generalizing s with
  | nil => exact h
  | cons i rest ih =>
      obtain ⟨hinv, hkeep⟩ := hnext s i h hguard
      exact ih hinv hkeep

theorem inv_wmTick (h : Inv vmmGetPhys s) (now : BitVec 32)
    (hfreed : ∀ i, (s.windows i).expired now = true → FreedSafely s i) :
    Inv vmmGetPhys (wmTick s now) := by
  refine inv_foldl (fun s => ∀ i, (s.windows i).expired now = true → FreedSafely s i) _ ?_ _ h
    hfreed
  intro s i h hfreed
  cases hexpired : (s.windows i).expired now with
  | false =>
      rw [if_neg Bool.false_ne_true]
      exact ⟨h, hfreed⟩
  | true =>
      rw [if_pos rfl]
      refine ⟨inv_freeWindow h (hfreed i hexpired), fun j hj => ?_⟩
      have hne : j ≠ i := by
        rintro rfl
        rw [windows_freeWindow_self] at hj
        cases hj
      rw [windows_freeWindow_of_ne hne] at hj
      exact freedSafely_freeWindow (hfreed j hj)

theorem orphan_of_windows_eq {s' : Desktop} {j : Slot} (hwindow : s'.windows j = s.windows j)
    (htask : s'.task = s.task) : s'.orphan j = s.orphan j := by
  unfold Desktop.orphan Desktop.isDead
  rw [hwindow, htask]

theorem freedSafely_setWindow {i j : Slot} {win : Window} (hne : j ≠ i) (h : FreedSafely s j) :
    FreedSafely (s.setWindow i win) j := by
  rintro space ⟨hopen, huser, htask⟩ hrunning
  rw [windows_setWindow_of_ne s win hne] at hopen huser htask
  exact h space ⟨hopen, huser, htask⟩ hrunning

theorem inv_wmUserCleanupDead (h : Inv vmmGetPhys s) (now : BitVec 32)
    (hfreed : ∀ i, s.orphan i = true → (s.windows i).closing = false →
      (s.windows i).closesAtOnce = true → FreedSafely s i) :
    Inv vmmGetPhys (wmUserCleanupDead s now) := by
  refine inv_foldl (fun s => ∀ i, s.orphan i = true → (s.windows i).closing = false →
    (s.windows i).closesAtOnce = true → FreedSafely s i) _ ?_ _ h hfreed
  intro s i h hfreed
  cases horphan : s.orphan i with
  | false =>
      rw [if_neg Bool.false_ne_true]
      exact ⟨h, hfreed⟩
  | true =>
      rw [if_pos rfl]
      have hopen : (s.windows i).id ≠ -1 := by
        unfold Desktop.orphan at horphan
        simp only [Bool.and_eq_true, bne_iff_ne] at horphan
        exact horphan.1.1.1
      -- the window that is found is the one with the dead task
      have hfound : ∀ k, findWindow s (s.windows i).id = some k → k = i := fun k hk =>
        (h.numbered.distinct i k hopen (findWindow_eq_some hk).symm).symm
      refine ⟨inv_wmCloseWindow h _ now fun k hk hclosing honce => ?_, ?_⟩
      · cases hfound k hk
        exact hfreed i horphan hclosing honce
      · rcases wmCloseWindow_cases s (s.windows i).id now with
          heq | ⟨k, hk, _, ⟨_, heq⟩ | heq⟩
        · rw [heq]
          exact hfreed
        · cases hfound k hk
          rw [heq]
          intro j hj hclosing honce
          have hne : j ≠ i := by
            rintro rfl
            unfold Desktop.orphan at hj
            rw [windows_freeWindow_self] at hj
            simp at hj
          have hwindow := windows_freeWindow_of_ne (s := s) hne
          rw [orphan_of_windows_eq hwindow rfl] at hj
          rw [hwindow] at hclosing honce
          exact freedSafely_freeWindow (hfreed j hj hclosing honce)
        · cases hfound k hk
          rw [heq]
          intro j hj hclosing honce
          have hne : j ≠ i := by
            rintro rfl
            rw [windows_setWindow_self] at hclosing
            cases hclosing
          have hwindow := windows_setWindow_of_ne s
            { s.windows i with closing := true, closeMs := now } hne
          rw [orphan_of_windows_eq hwindow rfl] at hj
          rw [hwindow] at hclosing honce
          exact freedSafely_setWindow hne (hfreed j hj hclosing honce)

end Close

/-! ## Opening -/

variable {heap : KernelHeap}

section Open

variable {s : Desktop}

theorem mapBuffer_eq_some {buf k frame : ℕ} {tables : ℕ → Bool} {area : ℕ → Option ℕ}
    (h : mapBuffer vmmGetPhys buf tables area k = some frame) (harea : ∀ k, area k = none) :
    k < userWinPages ∧ frameOf vmmGetPhys (buf + 4096 * k) = some frame := by
  unfold mapBuffer at h
  split at h
  · rename_i hpage
    rw [harea k, Option.or_none] at h
    exact ⟨hpage.1, h⟩
  · rw [harea k] at h
    cases h

theorem AllocatedBuffer.ne_zero {h : KernelHeap} {buf : ℕ} (hbuf : AllocatedBuffer h buf) :
    buf ≠ 0 := by
  have := hbuf.1
  omega

theorem BuffersAllocated.blocks (h : BuffersAllocated s)
    (hkept : ∀ buf, AllocatedBuffer s.heap buf → heap.original buf = s.heap.original buf) (j : Slot) :
    bufferBlock heap (s.windows j).userBuf = s.holds (.buf j) ∧
      bufferBlock heap (s.windows j).userCbuf = s.holds (.cbuf j) := by
  constructor
  · by_cases hne : (s.windows j).userBuf = 0
    · rw [Desktop.holds, hne]
      rfl
    · exact bufferBlock_congr (hkept _ (h.buf j hne))
  · by_cases hne : (s.windows j).userCbuf = 0
    · rw [Desktop.holds, hne]
      rfl
    · exact bufferBlock_congr (hkept _ (h.cbuf j hne))

theorem allocated_undone (h : BuffersAllocated s) {buf : ℕ}
    (hbuf : kmallocAligned s.heap userWinMaxBuf 4096 = some (buf, heap)) :
    BuffersAllocated { s with heap := kfreeAligned heap buf } := by
  obtain ⟨hfilled₁, hnew, hexclusive₁, hold₁⟩ :=
    kmallocAligned_holder .call h.filled h.exclusive hbuf
  have hcall : update s.holds .call (some (heap.original buf)) .call =
      bufferBlock heap buf := by
    rw [update_self, bufferBlock_of_ne hnew.ne_zero]
  obtain ⟨hfilled₂, horiginal, hexclusive₂, hkeep⟩ :=
    kfreeAligned_holder _ _ hfilled₁ hexclusive₁ hcall
  have hnone : update s.holds .call none = s.holds :=
    update_eq_self Holder.call s.holds
  rw [update_idem, hnone] at hexclusive₂
  have hkept : ∀ other, AllocatedBuffer s.heap other →
      (kfreeAligned heap buf).original other = s.heap.original other := by
    intro other hother
    rw [horiginal]
    exact (hold₁ other hother).1
  have hstill : ∀ other holder, AllocatedBuffer s.heap other → holder ≠ .call →
      s.holds holder = bufferBlock s.heap other →
        AllocatedBuffer (kfreeAligned heap buf) other := by
    intro other holder hother hne hholder
    refine (hold₁ other hother).2.kept horiginal fun size hlive => ?_
    refine hkeep holder _ size hne ?_ hlive
    rw [update_of_ne hne, hholder, bufferBlock_of_ne hother.ne_zero,
      (hold₁ other hother).1]
  have hholds : Desktop.holds { s with heap := kfreeAligned heap buf } = s.holds := by
    funext holder
    cases holder with
    | held ptr => rfl
    | buf j => exact (h.blocks hkept j).1
    | cbuf j => exact (h.blocks hkept j).2
    | call => rfl
  refine ⟨hfilled₂, ?_, fun j hne => ?_, fun j hne => ?_⟩
  · rw [hholds]
    exact hexclusive₂
  · exact hstill _ (.buf j) (h.buf j hne) (by simp) rfl
  · exact hstill _ (.cbuf j) (h.cbuf j hne) (by simp) rfl

theorem allocated_opened (h : BuffersAllocated s) {s' : Desktop} {slot : Slot} {buf cbuf : ℕ}
    (hbuf : kmallocAligned s.heap userWinMaxBuf 4096 = some (buf, heap))
    (hcbuf : kmallocAligned heap userWinMaxBuf 4096 = some (cbuf, s'.heap))
    (hheld : s'.held = s.held) (hother : ∀ j, j ≠ slot → s'.windows j = s.windows j)
    (huserBuf : (s'.windows slot).userBuf = buf) (huserCbuf : (s'.windows slot).userCbuf = cbuf) :
    BuffersAllocated s' := by
  obtain ⟨hfilled₁, hnew₁, hexclusive₁, hold₁⟩ :=
    kmallocAligned_holder (.buf slot) h.filled h.exclusive hbuf
  obtain ⟨hfilled₂, hnew₂, hexclusive₂, hold₂⟩ :=
    kmallocAligned_holder (.cbuf slot) hfilled₁ hexclusive₁ hcbuf
  have hstill : ∀ other, AllocatedBuffer s.heap other →
      s'.heap.original other = s.heap.original other ∧ AllocatedBuffer s'.heap other := by
    intro other hother
    obtain ⟨hsame₁, hother₁⟩ := hold₁ other hother
    obtain ⟨hsame₂, hother₂⟩ := hold₂ other hother₁
    exact ⟨hsame₂.trans hsame₁, hother₂⟩
  have hholds : s'.holds =
      update (update s.holds (.buf slot) (some (heap.original buf)))
        (.cbuf slot) (some (s'.heap.original cbuf)) := by
    refine holds_eq_update (fun ptr => ?_) ?_ ?_ fun j hj => ?_
    · rw [Desktop.holds, Desktop.holds, hheld]
    · rw [Desktop.holds, huserBuf, bufferBlock_of_ne hnew₁.ne_zero, (hold₂ buf hnew₁).1]
    · rw [Desktop.holds, huserCbuf, bufferBlock_of_ne hnew₂.ne_zero]
    · have hkept := h.blocks (fun other hother => (hstill other hother).1) j
      rw [← hother j hj] at hkept
      exact hkept
  refine ⟨hfilled₂, ?_, fun j hne => ?_, fun j hne => ?_⟩
  · rw [hholds]
    exact hexclusive₂
  · by_cases hj : j = slot
    · rw [hj, huserBuf]
      exact (hold₂ buf hnew₁).2
    · rw [hother j hj] at hne ⊢
      exact (hstill _ (h.buf j hne)).2
  · by_cases hj : j = slot
    · rw [hj, huserCbuf]
      exact hnew₂
    · rw [hother j hj] at hne ⊢
      exact (hstill _ (h.cbuf j hne)).2

theorem inv_opened (h : Inv vmmGetPhys s) {s' : Desktop} {slot : Slot} {pid : ℕ} {tables : ℕ → Bool}
    {buf cbuf : ℕ} (hpid : s.running pid = some space) (hfree : (s.windows slot).id = -1)
    (hbuf : kmallocAligned s.heap userWinMaxBuf 4096 = some (buf, heap))
    (hcbuf : kmallocAligned heap userWinMaxBuf 4096 = some (cbuf, s'.heap))
    (hheld : s'.held = s.held) (hother : ∀ j, j ≠ slot → s'.windows j = s.windows j)
    (hwindow : s'.windows slot =
      { s.windows slot with
        id := s.nextWinId, user := true, closing := false, maximized := false
        animated := s.openAnim, userBuf := buf, userCbuf := cbuf, userPid := pid })
    (hmaps : ∀ p i, s'.maps p i =
      if p = space ∧ i = slot then mapBuffer vmmGetPhys buf tables (s.maps p i) else s.maps p i)
    (htask : s'.task = s.task) (hnextTaskId : s'.nextTaskId = s.nextTaskId)
    (hnextSpace : s'.nextSpace = s.nextSpace) (hnextWinId : s'.nextWinId = s.nextWinId + 1) :
    Inv vmmGetPhys s' := by
  obtain ⟨task, htaskPid, hspace⟩ : ∃ task, s.task pid = some task ∧ task.space = space := by
    unfold Desktop.running at hpid
    split at hpid
    · rename_i htask
      exact ⟨_, htask, Option.some.inj hpid⟩
    · cases hpid
  have hallocated : BuffersAllocated s' :=
    allocated_opened h.allocated hbuf hcbuf hheld hother (by rw [hwindow]) (by rw [hwindow])
  have hknown : space < s.nextSpace := hspace ▸ (h.known.tasks pid task htaskPid).2
  refine ⟨hallocated, ⟨?_, ?_⟩, ?_, h.numbered.opened hnextWinId hother (by rw [hwindow])⟩
  · rw [htask, hnextTaskId, hnextSpace]
    exact h.known.tasks
  · intro other i k hle
    rw [hnextSpace] at hle
    have hne : other ≠ space := by
      rintro rfl
      exact absurd hknown (Nat.not_lt.mpr hle)
    rw [hmaps, if_neg fun heq => hne heq.1]
    exact h.known.spaces other i k hle
  · intro other i k frame hrunning hmap
    have hrun : Running s other := by
      unfold Running Desktop.running at hrunning ⊢
      rwa [htask] at hrunning
    by_cases hi : i = slot
    · -- no process has a page of a slot that was free
      have hnone : ∀ k, s.maps other i k = none := by
        intro k
        cases hsome : s.maps other i k with
        | none => rfl
        | some old =>
            have howner := (h.mapped other i k old hrun hsome).1
            rw [hi] at howner
            exact absurd hfree howner.isOpen
      rw [hmaps] at hmap
      split at hmap
      · rename_i hsame
        obtain ⟨hk, hframe⟩ := mapBuffer_eq_some hmap hnone
        have hnew : (s'.windows slot).userBuf = buf := by rw [hwindow]
        have hne : buf ≠ 0 := by
          obtain ⟨_, hmade, _⟩ :=
            kmallocAligned_holder .call h.allocated.filled h.allocated.exclusive hbuf
          exact hmade.ne_zero
        rw [hi, hnew]
        refine ⟨⟨?_, ?_, task, ?_, hspace.trans hsame.1.symm⟩, hne, hk, hframe⟩
        · have hpos := h.numbered.next
          rw [hwindow]
          dsimp only
          omega
        · rw [hwindow]
        · rw [hwindow, htask]
          exact htaskPid
      · rw [hnone] at hmap
        cases hmap
    · rw [hmaps, if_neg fun heq => hi heq.2] at hmap
      obtain ⟨howner, hbuf, hk, hframe⟩ := h.mapped other i k frame hrun hmap
      rw [hother i hi]
      refine ⟨⟨?_, ?_, ?_⟩, hbuf, hk, hframe⟩
      all_goals rw [hother i hi]
      · exact howner.isOpen
      · exact howner.user
      · rw [htask]
        exact howner.task

theorem inv_wmOpenWindowUser (h : Inv vmmGetPhys s) {pid : ℕ} (hpid : s.running pid = some space)
    (tables : ℕ → Bool) : Inv vmmGetPhys (wmOpenWindowUser vmmGetPhys s pid space tables) := by
  unfold wmOpenWindowUser
  cases hslot : s.slotOf (-1) with
  | none => exact h
  | some slot =>
      dsimp only
      cases hbuf : kmallocAligned s.heap userWinMaxBuf 4096 with
      | none => exact h
      | some made =>
          obtain ⟨buf, heap⟩ := made
          dsimp only
          cases hcbuf : kmallocAligned heap userWinMaxBuf 4096 with
          | none =>
              refine ⟨allocated_undone h.allocated hbuf, ⟨h.known.tasks, h.known.spaces⟩, ?_,
                ⟨h.numbered.next, h.numbered.below, h.numbered.distinct⟩⟩
              exact mapped_congr h.mapped rfl rfl rfl
          | some made =>
              obtain ⟨cbuf, heap'⟩ := made
              exact inv_opened h hpid (slotOf_eq_some hslot) hbuf hcbuf rfl
                (fun j hj => windows_setWindow_of_ne s _ hj) (windows_setWindow_self s slot _)
                (fun _ _ => rfl) rfl rfl rfl rfl

end Open

/-! ## The rest of the kernel and the tasks -/

section Others

variable {s : Desktop}

theorem allocated_held (h : BuffersAllocated s) {s' : Desktop} (hwindows : s'.windows = s.windows)
    (hfilled : s'.heap.Filled) (horiginal : s'.heap.original = s.heap.original)
    (hexclusive : Exclusive s'.holds (Allocated s'.heap))
    (hlive : ∀ holder ptr size, (∀ p, holder ≠ .held p) → s.holds holder = some ptr →
      s.heap.Live ptr size → s'.heap.Live ptr size) : BuffersAllocated s' := by
  refine ⟨hfilled, hexclusive, fun j hne => ?_, fun j hne => ?_⟩
  · rw [hwindows] at hne ⊢
    refine (h.buf j hne).kept horiginal fun size hold => ?_
    exact hlive (.buf j) _ size (fun p => by simp) (bufferBlock_of_ne hne) hold
  · rw [hwindows] at hne ⊢
    refine (h.cbuf j hne).kept horiginal fun size hold => ?_
    exact hlive (.cbuf j) _ size (fun p => by simp) (bufferBlock_of_ne hne) hold

theorem allocated_kmalloc (h : BuffersAllocated s) {size ptr : ℕ}
    (hmalloc : Memory.kmalloc s.heap size = some (ptr, heap)) :
    BuffersAllocated { s with heap := heap, held := ptr :: s.held } := by
  obtain ⟨hfilled, horiginal, hfresh, taken, _, hlive⟩ := kmalloc_spec h.filled hmalloc
  refine allocated_held h rfl hfilled horiginal ?_ fun _ _ _ _ _ hold =>
    (hlive _ _).mpr (Or.inr hold)
  have hholds : Desktop.holds { s with heap := heap, held := ptr :: s.held } =
      update s.holds (.held ptr) (some ptr) := by
    funext holder
    cases holder with
    | held other =>
        by_cases hother : other = ptr
        · simp [Desktop.holds, hother]
        · simp [Desktop.holds, hother]
    | buf j | cbuf j => simp [Desktop.holds, bufferBlock, horiginal]
    | call => simp [Desktop.holds]
  rw [hholds]
  refine h.exclusive.acquire (fun hold => ?_) fun other => ?_
  · obtain ⟨size, hold⟩ := hold
    exact hfresh size hold
  · unfold Allocated
    simp only [hlive, exists_or, exists_and_left, exists_eq, and_true]

theorem allocated_kfree (h : BuffersAllocated s) {ptr : ℕ} (hmem : ptr ∈ s.held) :
    BuffersAllocated
      { s with heap := Memory.kfree s.heap ptr, held := s.held.filter (· ≠ ptr) } := by
  have hholder : s.holds (.held ptr) = some ptr := if_pos hmem
  obtain ⟨size, hptr⟩ := h.exclusive.live _ _ hholder
  obtain ⟨hfilled, horiginal, hlive⟩ := kfree_spec h.filled hptr
  refine allocated_held h rfl hfilled horiginal ?_ fun holder other size hne hholds hold =>
    (hlive other size).mpr ⟨?_, hold⟩
  · have hholds : Desktop.holds
        { s with heap := Memory.kfree s.heap ptr, held := s.held.filter (· ≠ ptr) } =
          update s.holds (.held ptr) none := by
      funext holder
      cases holder with
      | held other =>
          by_cases hother : other = ptr
          · simp [Desktop.holds, hother]
          · simp [Desktop.holds, hother]
      | buf j | cbuf j => simp [Desktop.holds, bufferBlock, horiginal]
      | call => simp [Desktop.holds]
    rw [hholds]
    refine h.exclusive.release hholder fun other => ?_
    unfold Allocated
    simp only [hlive, exists_and_left]
  · rintro rfl
    exact hne _ (h.exclusive.unique _ _ _ hholds hholder)

theorem running_eq_some {pid : ℕ} (h : s.running pid = some space) :
    s.task pid = some ⟨space, false⟩ := by
  unfold Desktop.running at h
  split at h
  · rename_i htask
    rw [htask, Option.some.inj h]
  · cases h

theorem running_addTask {space other : AddressSpace} (h : Running (s.addTask space) other) :
    other = space ∨ Running s other := by
  obtain ⟨pid, hpid⟩ := h
  by_cases hnew : pid = s.nextTaskId
  · have htask := running_eq_some hpid
    simp only [Desktop.addTask, if_pos hnew, Option.some.injEq, Task.mk.injEq, and_true] at htask
    exact Or.inl htask.symm
  · refine Or.inr ⟨pid, ?_⟩
    unfold Desktop.running at hpid ⊢
    simpa only [Desktop.addTask, if_neg hnew] using hpid

variable (s) in
theorem owns_addTask (h : TasksKnown s) (space other : AddressSpace) (j : Slot)
    (howns : Owns s other j) : Owns (s.addTask space) other j := by
  obtain ⟨hopen, huser, task, htask, hspace⟩ := howns
  have hne : (s.windows j).userPid ≠ s.nextTaskId := Nat.ne_of_lt (h.tasks _ task htask).1
  exact ⟨hopen, huser, task, (if_neg hne).trans htask, hspace⟩

end Others

/-! ## Runs -/

/-- The windows whose buffers a step frees. -/
def Frees (s : Desktop) : Action → Slot → Prop
  | .closeWindow id _, i => findWindow s id = some i ∧ (s.windows i).closing = false ∧
      (s.windows i).closesAtOnce = true
  | .tick now, i => (s.windows i).expired now = true
  | .cleanupDead _, i => s.orphan i = true ∧ (s.windows i).closing = false ∧
      (s.windows i).closesAtOnce = true
  | _, _ => False

instance (s : Desktop) (action : Action) (i : Slot) : Decidable (Frees s action i) :=
  match action with
  | .closeWindow .. | .cleanupDead .. => inferInstanceAs (Decidable (_ ∧ _ ∧ _))
  | .tick _ => inferInstanceAs (Decidable (_ = _))
  | .openWindowUser .. | .openWindow | .setOpenAnim _ | .maximize .. | .kmalloc _ | .kfree _
  | .createProcess | .createThread _ | .exit _ => inferInstanceAs (Decidable False)

def FreesSafely (s : Desktop) (action : Action) : Prop :=
  ∀ i, Frees s action i → FreedSafely s i

def DesktopStep (vmmGetPhys : ℕ → ℕ) (s : Desktop) (action : Action) (s' : Desktop) : Prop :=
  step vmmGetPhys s action = some s'

theorem inv_exit {s : Desktop} (h : Inv vmmGetPhys s) {pid : ℕ} (hpid : s.running pid = some space)
    :
    Inv vmmGetPhys
      { s with task := fun other => if other = pid then some ⟨space, true⟩ else s.task other } := by
  have htask := running_eq_some hpid
  refine h.changed rfl rfl (fun _ => ⟨rfl, rfl⟩) rfl (fun other j howns => ?_)
    (fun other hrun => Or.inl ?_) ⟨fun other task hother => ?_, h.known.spaces⟩
    ⟨h.numbered.next, h.numbered.below, h.numbered.distinct⟩
  · obtain ⟨hopen, huser, task, howner, hspace⟩ := howns
    by_cases hsame : (s.windows j).userPid = pid
    · rw [hsame, htask] at howner
      cases howner
      exact ⟨hopen, huser, ⟨space, true⟩, if_pos hsame, hspace⟩
    · exact ⟨hopen, huser, task, (if_neg hsame).trans howner, hspace⟩
  · obtain ⟨running, hrunning⟩ := hrun
    have hrunTask := running_eq_some hrunning
    by_cases hsame : running = pid
    · simp only [if_pos hsame, Option.some.injEq, Task.mk.injEq, Bool.true_eq_false,
        and_false] at hrunTask
    · refine ⟨running, ?_⟩
      unfold Desktop.running at hrunning ⊢
      simpa only [if_neg hsame] using hrunning
  · by_cases hsame : other = pid
    · simp only [if_pos hsame, Option.some.injEq] at hother
      cases hother
      rw [hsame]
      exact ⟨(h.known.tasks pid _ htask).1, (h.known.tasks pid _ htask).2⟩
    · simp only [if_neg hsame] at hother
      exact h.known.tasks other task hother

theorem tasks_addTask {s : Desktop} (h : TasksKnown s) {space bound : AddressSpace}
    (hspace : space < bound) (hbound : s.nextSpace ≤ bound) (pid : ℕ) (task : Task)
    (htask : (s.addTask space).task pid = some task) :
    pid < s.nextTaskId + 1 ∧ task.space < bound := by
  by_cases hnew : pid = s.nextTaskId
  · simp only [Desktop.addTask, if_pos hnew, Option.some.injEq] at htask
    subst htask
    exact ⟨by omega, hspace⟩
  · simp only [Desktop.addTask, if_neg hnew] at htask
    obtain ⟨hpid, hold⟩ := h.tasks pid task htask
    exact ⟨by omega, Nat.lt_of_lt_of_le hold hbound⟩

theorem inv_createThread {s : Desktop} (h : Inv vmmGetPhys s) {pid : ℕ}
    (hpid : s.running pid = some space) : Inv vmmGetPhys (s.addTask space) := by
  have hspace := (h.known.tasks pid _ (running_eq_some hpid)).2
  refine h.changed rfl rfl (fun _ => ⟨rfl, rfl⟩) rfl (fun _ _ => owns_addTask _ h.known _ _ _)
    (fun other hrun => Or.inl ?_)
    ⟨tasks_addTask h.known hspace (Nat.le_refl _), h.known.spaces⟩
    ⟨h.numbered.next, h.numbered.below, h.numbered.distinct⟩
  rcases running_addTask hrun with rfl | hold
  · exact ⟨pid, hpid⟩
  · exact hold

theorem inv_createProcess {s : Desktop} (h : Inv vmmGetPhys s) :
    Inv vmmGetPhys { s.addTask s.nextSpace with nextSpace := s.nextSpace + 1 } := by
  refine h.changed rfl rfl (fun _ => ⟨rfl, rfl⟩) rfl (fun other j howns => ?_)
    (fun other hrun => ?_)
    ⟨tasks_addTask h.known (Nat.lt_succ_self _) (Nat.le_succ _), fun other j k hle =>
      h.known.spaces other j k (Nat.le_of_succ_le hle)⟩
    ⟨h.numbered.next, h.numbered.below, h.numbered.distinct⟩
  · obtain ⟨hopen, huser, htask⟩ := owns_addTask s h.known s.nextSpace other j howns
    exact ⟨hopen, huser, htask⟩
  · rcases running_addTask (show Running (s.addTask s.nextSpace) other from hrun) with rfl | hold
    · exact Or.inr fun j k => h.known.spaces _ j k (Nat.le_refl _)
    · exact Or.inl hold

theorem inv_step {s s' : Desktop} {action : Action} (h : Inv vmmGetPhys s)
    (hfreed : FreesSafely s action) (hstep : DesktopStep vmmGetPhys s action s') :
    Inv vmmGetPhys s' := by
  unfold DesktopStep at hstep
  cases action with
  | openWindowUser pid tables =>
      obtain ⟨space, hpid, rfl⟩ := Option.map_eq_some_iff.mp hstep
      exact inv_wmOpenWindowUser h hpid tables
  | openWindow =>
      cases hstep
      exact inv_wmOpenWindow h
  | closeWindow id now =>
      cases hstep
      exact inv_wmCloseWindow h id now fun i hfind hclosing honce =>
        hfreed i ⟨hfind, hclosing, honce⟩
  | tick now =>
      cases hstep
      exact inv_wmTick h now hfreed
  | cleanupDead now =>
      cases hstep
      exact inv_wmUserCleanupDead h now fun i horphan hclosing honce =>
        hfreed i ⟨horphan, hclosing, honce⟩
  | setOpenAnim animated =>
      cases hstep
      refine h.changed rfl rfl (fun _ => ⟨rfl, rfl⟩) rfl (fun _ _ howns => ?_)
        (fun _ hrun => Or.inl hrun) ⟨h.known.tasks, h.known.spaces⟩
        ⟨h.numbered.next, h.numbered.below, h.numbered.distinct⟩
      exact ⟨howns.isOpen, howns.user, howns.task⟩
  | maximize i maximized =>
      cases hstep
      exact inv_setWindow h rfl rfl rfl rfl rfl
  | kmalloc size =>
      unfold step at hstep
      dsimp only at hstep
      cases hmalloc : Memory.kmalloc s.heap size with
      | none =>
          rw [hmalloc] at hstep
          cases hstep
          exact h
      | some made =>
          obtain ⟨ptr, heap⟩ := made
          rw [hmalloc] at hstep
          cases hstep
          refine ⟨allocated_kmalloc h.allocated hmalloc, ⟨h.known.tasks, h.known.spaces⟩, ?_,
            ⟨h.numbered.next, h.numbered.below, h.numbered.distinct⟩⟩
          exact mapped_congr h.mapped rfl rfl rfl
  | kfree ptr =>
      unfold step at hstep
      dsimp only at hstep
      by_cases hmem : ptr ∈ s.held
      · rw [if_pos hmem] at hstep
        cases hstep
        refine ⟨allocated_kfree h.allocated hmem, ⟨h.known.tasks, h.known.spaces⟩, ?_,
          ⟨h.numbered.next, h.numbered.below, h.numbered.distinct⟩⟩
        exact mapped_congr h.mapped rfl rfl rfl
      · rw [if_neg hmem] at hstep
        cases hstep
  | createProcess =>
      cases hstep
      exact inv_createProcess h
  | createThread pid =>
      obtain ⟨space, hpid, rfl⟩ := Option.map_eq_some_iff.mp hstep
      exact inv_createThread h hpid
  | exit pid =>
      obtain ⟨space, hpid, rfl⟩ := Option.map_eq_some_iff.mp hstep
      exact inv_exit h hpid

/-- As long as no window is freed whose pages a running process still has, every frame in a
window area belongs to the buffer of an open window of that process. -/
theorem buffersOwned_always (vmmGetPhys : ℕ → ℕ) (heap : ℕ) (run : List (Action × Desktop))
    (hrun : Along (DesktopStep vmmGetPhys) (wmInit heap) run)
    (hguard : Along (fun s action _ => FreesSafely s action) (wmInit heap) run) :
    Always (BuffersOwned vmmGetPhys) (wmInit heap) run := by
  have hinv := always_of_guarded (Inv vmmGetPhys)
    (fun _ _ _ h hfreed hstep => inv_step h hfreed hstep) (inv_wmInit heap) hrun hguard
  exact hinv.mono fun _ h => h.buffersOwned

/-! ## A window that is closed -/

/-- The run of a list of actions, up to one that cannot happen. -/
def runActions (vmmGetPhys : ℕ → ℕ) : Desktop → List Action → List (Action × Desktop)
  | _, [] => []
  | s, action :: rest =>
      match step vmmGetPhys s action with
      | none => []
      | some s' => (action, s') :: runActions vmmGetPhys s' rest

theorem along_runActions (s : Desktop) (actions : List Action) :
    Along (DesktopStep vmmGetPhys) s (runActions vmmGetPhys s actions) := by
  induction actions generalizing s with
  | nil => trivial
  | cons action rest ih =>
      rw [runActions]
      cases hstep : step vmmGetPhys s action with
      | none => trivial
      | some s' => exact ⟨hstep, ih s'⟩

/-- The state after a list of actions, when kernel memory is at its own addresses. -/
def desktopAfter (actions : List Action) : Desktop :=
  final (wmInit 0x100000) (runActions (fun addr => addr) (wmInit 0x100000) actions)

/-- A program opens a window and closes it; the animation ends. -/
def closeTheWindow : List Action :=
  [.createProcess, .openWindowUser 1 (fun _ => true), .closeWindow 1 0, .tick 300]

/-- The buffer is back in the heap, and the program can still write it. -/
theorem closeTheWindow_not_owned :
    ¬ Always (BuffersOwned fun addr => addr) (wmInit 0x100000)
      (runActions (fun addr => addr) (wmInit 0x100000) closeTheWindow) := by
  intro howned
  have hlast : BuffersOwned (fun addr => addr) (desktopAfter closeTheWindow) := howned.final
  have hrunning : Running (desktopAfter closeTheWindow) 0 := ⟨1, by decide +kernel⟩
  have hmap : (desktopAfter closeTheWindow).maps 0 0 0 = some 0x101000 := by decide +kernel
  have hclosed : ∀ i, ((desktopAfter closeTheWindow).windows i).id = -1 := by decide +kernel
  obtain ⟨j, howner, _⟩ := hlast 0 hrunning 0 0 0x101000 hmap
  exact howner.isOpen (hclosed j)

/-- A program has a window while one of the kernel is opened and closed. -/
def closeOfKernel : List Action :=
  [.createProcess, .setOpenAnim false, .openWindow, .openWindowUser 1 (fun _ => true),
    .kmalloc 64, .closeWindow 1 0]

theorem freedSafely_of_kernel {s : Desktop} {i : Slot} (h : (s.windows i).user = false) :
    FreedSafely s i := by
  intro space howns
  have huser := howns.user
  rw [h] at huser
  cases huser

theorem closeOfKernel_owned :
    Always (BuffersOwned fun addr => addr) (wmInit 0x100000)
      (runActions (fun addr => addr) (wmInit 0x100000) closeOfKernel) := by
  have hkernel : Along
      (fun s action _ => ∀ i, Frees s action i → (s.windows i).user = false) (wmInit 0x100000)
      (runActions (fun addr => addr) (wmInit 0x100000) closeOfKernel) := by
    decide +kernel
  refine buffersOwned_always _ _ _ (along_runActions _ _) (hkernel.mono ?_)
  exact fun s action _ h i hi => freedSafely_of_kernel (h i hi)

end EigenOS.Gui
