import EigenOS.Libc.Allocation

/-!
# Giving a block another size

`realloc` knows no sizes: it copies as many bytes from the old block as the new one is to have.  It
keeps its promise where these are no more than the old block's and the kernel has the memory.
-/

namespace EigenOS.Libc

open EigenOS.Ranges EigenOS.Transition EigenOS.Memory Function

/-! ## Bytes behind addresses -/

/-- The bytes of the page frames, by frame and offset. -/
abbrev Frames := ℕ × ℕ → UInt8

/-- Where a user address leads.  Elsewhere an access faults. -/
def locate (space : AddressSpace) (va : ℕ) : Option (ℕ × ℕ) :=
  if va / pageSize < canonicalPages ∧ space (va / pageSize) ≠ 0 then
    some (space (va / pageSize), va % pageSize)
  else none

def byteAt (space : AddressSpace) (memory : Frames) (va : ℕ) : Option UInt8 :=
  (locate space va).map memory

/-- `memcpy`: the addresses it reads, and the memory unless an access faults. -/
def memcpy (space : AddressSpace) : ℕ → ℕ → ℕ → Frames → List ℕ × Option Frames
  | 0, _, _, memory => ([], some memory)
  | n + 1, d, s, memory =>
      match locate space s with
      | none => ([s], none)
      | some source =>
          match locate space d with
          | none => ([s], none)
          | some target =>
              let rest := memcpy space n (d + 1) (s + 1)
                (update memory target (memory source))
              (s :: rest.1, rest.2)

/-- Frames that the kernel has taken since are full of zeros. -/
def zeroed (before after : Machine) (memory : Frames) : Frames := fun byte =>
  if byte.1 ∈ before.free ∧ byte.1 ∉ after.free then 0 else memory byte

/-! ## The functions -/

/-- A call of `realloc`: what it returns, if it comes back, the addresses it reads from, and the
machine and the memory afterwards. -/
structure ReallocCall where
  result : Option ℕ
  reads : List ℕ
  machine : Machine
  memory : Frames

def free (m : Machine) (space p : ℕ) : Machine := if p ≠ 0 then freeUser m space p else m

/-- The copy to the new block, and the release of the old one. -/
def moveBlock (k : Kernel) (call : AllocCall) (memory : Frames) (p sz : ℕ) : ReallocCall :=
  match call.result with
  | none => ⟨none, [], call.machine, memory⟩
  | some n =>
      if n ≠ 0 then
        let copied := memcpy (call.machine.spaces k.space) sz n p memory
        match copied.2 with
        | none => ⟨none, copied.1, call.machine, memory⟩
        | some memory => ⟨some n, copied.1, free call.machine k.space p, memory⟩
      else ⟨some n, [], free call.machine k.space p, memory⟩

def realloc (k : Kernel) (memory : Frames) (p sz : ℕ) : ReallocCall :=
  if sz = 0 then ⟨some 0, [], free k.machine k.space p, memory⟩
  else
    let call := malloc k sz
    let memory := zeroed k.machine call.machine memory
    if p = 0 then ⟨call.result, [], call.machine, memory⟩ else moveBlock k call memory p sz

/-! ## What it promises -/

/-- A block that the caller was given and has not freed, with so many bytes that are its. -/
structure LiveBlock (s : Traced) (k : Kernel) (g : Grant) (old : ℕ) : Prop where
  machine : k.machine = s.machine
  caller : s.machine.tasks k.task = some ⟨g.process, k.space, true⟩
  given : g ∈ s.grants
  size : old ≤ g.npages * pageSize

/-- The block is still mapped to its frames, which nobody else gets, with its bytes in them. -/
structure Intact (k : Kernel) (memory : Frames) (g : Grant) (old : ℕ) (call : ReallocCall) :
    Prop where
  mapped : framesOf (call.machine.spaces k.space) (g.base / pageSize) g.npages = g.frames
  owned : ∀ frame ∈ g.frames, frame ∉ call.machine.free
  bytes : ∀ i < old, byteAt (call.machine.spaces k.space) call.memory (g.base + i) =
    byteAt (k.machine.spaces k.space) memory (g.base + i)

/-- The new block has room for the bytes that were asked for, in frames that nobody else gets, and
begins with those of the old one. -/
structure Moved (k : Kernel) (memory : Frames) (g : Grant) (old sz n npages : ℕ)
    (call : ReallocCall) : Prop where
  ne_zero : n ≠ 0
  result : call.result = some n
  gives : Gives call.machine k.space sz n npages
  owned : ∀ frame ∈ framesOf (call.machine.spaces k.space) (n / pageSize) npages,
    frame ∉ call.machine.free
  bytes : ∀ i < min old sz, byteAt (call.machine.spaces k.space) call.memory (n + i) =
    byteAt (k.machine.spaces k.space) memory (g.base + i)

/-- A null pointer and the old block as it was, or a new block; and nothing was read behind the old
block. -/
structure Reallocates (k : Kernel) (memory : Frames) (g : Grant) (old sz : ℕ)
    (call : ReallocCall) : Prop where
  reads : ∀ va ∈ call.reads, g.base ≤ va ∧ va < g.base + old
  result : call.result = some 0 ∧ Intact k memory g old call ∨
    ∃ n npages, Moved k memory g old sz n npages call

/-! ## Copying -/

section Copy

variable {space : AddressSpace} {n d s : ℕ} {memory : Frames}

theorem memcpy_reads {copied : Frames} (h : (memcpy space n d s memory).2 = some copied) :
    (memcpy space n d s memory).1 = List.range' s n := by
  induction n generalizing d s memory with
  | zero => rfl
  | succ n ih =>
      rw [memcpy] at h ⊢
      cases hsource : locate space s with
      | none =>
          rw [hsource] at h
          exact nomatch h
      | some source =>
          rw [hsource] at h
          cases htarget : locate space d with
          | none =>
              rw [htarget] at h
              exact nomatch h
          | some target =>
              rw [htarget] at h
              exact congrArg (s :: ·) (ih h)

theorem memcpy_unmapped (hpos : n ≠ 0) (htarget : locate space d = none) :
    (memcpy space n d s memory).2 = none := by
  obtain ⟨n, rfl⟩ := Nat.exists_eq_succ_of_ne_zero hpos
  rw [memcpy, htarget]
  cases locate space s <;> rfl

variable (space n d s memory) in
/-- A copy between places that are all different.  The bytes that are still to be read are not
among those that have been written. -/
theorem memcpy_copies (source target : ℕ → ℕ × ℕ)
    (hsource : ∀ i < n, locate space (s + i) = some (source i))
    (htarget : ∀ i < n, locate space (d + i) = some (target i))
    (hapart : ∀ i < n, ∀ j < n, source i ≠ target j)
    (hinj : ∀ i < n, ∀ j < n, target i = target j → i = j) :
    ∃ copied, (memcpy space n d s memory).2 = some copied ∧
      (∀ i < n, copied (target i) = memory (source i)) ∧
      ∀ byte, (∀ i < n, byte ≠ target i) → copied byte = memory byte := by
  induction n generalizing d s memory source target with
  | zero => exact ⟨memory, rfl, nofun, fun _ _ => rfl⟩
  | succ n ih =>
      have hfirst := hsource 0 (Nat.succ_pos n)
      have hgoal := htarget 0 (Nat.succ_pos n)
      rw [Nat.add_zero] at hfirst hgoal
      obtain ⟨copied, hcopied, hcopies, hothers⟩ :=
        @ih (d + 1) (s + 1) (update memory (target 0) (memory (source 0)))
          (fun i => source (i + 1)) (fun i => target (i + 1))
          (fun i hi => by
            rw [Nat.add_assoc, Nat.add_comm 1 i]
            exact hsource (i + 1) (Nat.succ_lt_succ hi))
          (fun i hi => by
            rw [Nat.add_assoc, Nat.add_comm 1 i]
            exact htarget (i + 1) (Nat.succ_lt_succ hi))
          (fun i hi j hj => hapart (i + 1) (Nat.succ_lt_succ hi) (j + 1) (Nat.succ_lt_succ hj))
          (fun i hi j hj heq => Nat.succ.inj
            (hinj (i + 1) (Nat.succ_lt_succ hi) (j + 1) (Nat.succ_lt_succ hj) heq))
      refine ⟨copied, ?_, ?_, ?_⟩
      · rw [memcpy, hfirst]
        dsimp only
        rw [hgoal]
        exact hcopied
      · intro i hi
        cases i with
        | zero =>
            have hkept := hothers (target 0) fun j hj heq =>
              absurd (hinj 0 (Nat.succ_pos n) (j + 1) (Nat.succ_lt_succ hj) heq) (by omega)
            rw [hkept, update_self]
        | succ i =>
            rw [hcopies i (Nat.lt_of_succ_lt_succ hi)]
            exact update_of_ne (hapart (i + 1) hi 0 (Nat.succ_pos n)) _ _
      · intro byte hbyte
        rw [hothers byte fun i hi => hbyte (i + 1) (Nat.succ_lt_succ hi)]
        exact update_of_ne (hbyte 0 (Nat.succ_pos n)) _ _

end Copy

/-! ## The bytes of a block -/

def placeOf (frames : List ℕ) (i : ℕ) : ℕ × ℕ := (frames.getD (i / pageSize) 0, i % pageSize)

section Place

variable {frames : List ℕ} {i j : ℕ}

theorem page_lt {npages : ℕ} (hi : i < npages * pageSize) : i / pageSize < npages := by
  exact Nat.div_lt_of_lt_mul (Nat.mul_comm npages pageSize ▸ hi)

theorem placeOf_mem (hi : i < frames.length * pageSize) : (placeOf frames i).1 ∈ frames := by
  have hpage := page_lt hi
  have hget : frames.getD (i / pageSize) 0 = frames[i / pageSize] :=
    (List.getElem_eq_getD 0).symm
  rw [placeOf, hget]
  exact List.getElem_mem hpage

theorem placeOf_inj (hnodup : frames.Nodup) (hi : i < frames.length * pageSize)
    (hj : j < frames.length * pageSize) (heq : placeOf frames i = placeOf frames j) : i = j := by
  have hpage : i / pageSize = j / pageSize := by
    have hframe := congrArg Prod.fst heq
    have hgetI : (placeOf frames i).1 = frames.get ⟨i / pageSize, page_lt hi⟩ :=
      (List.getElem_eq_getD 0).symm
    have hgetJ : (placeOf frames j).1 = frames.get ⟨j / pageSize, page_lt hj⟩ :=
      (List.getElem_eq_getD 0).symm
    rw [hgetI, hgetJ] at hframe
    exact (List.Nodup.getElem_inj_iff hnodup).mp hframe
  have hoffset : i % pageSize = j % pageSize := congrArg Prod.snd heq
  rw [← Nat.div_add_mod i pageSize, ← Nat.div_add_mod j pageSize, hpage, hoffset]

theorem locate_block {space : AddressSpace} {base npages : ℕ}
    (hmapped : framesOf space (base / pageSize) npages = frames) (hframes : 0 ∉ frames)
    (haligned : base % pageSize = 0) (hhigh : base + npages * pageSize ≤ userHeapLimit)
    (hi : i < npages * pageSize) : locate space (base + i) = some (placeOf frames i) := by
  have hpage := page_lt hi
  have hsplit : (base + i) / pageSize = base / pageSize + i / pageSize := by
    unfold pageSize at *
    omega
  have hoffset : (base + i) % pageSize = i % pageSize := by
    unfold pageSize at *
    omega
  have hframe : frames.getD (i / pageSize) 0 = space (base / pageSize + i / pageSize) := by
    rw [← hmapped, framesOf, List.getD_eq_getElem?_getD, List.getElem?_map,
      List.getElem?_range hpage]
    rfl
  have hmem : space (base / pageSize + i / pageSize) ∈ frames := by
    rw [← hmapped]
    exact List.mem_map.mpr ⟨i / pageSize, List.mem_range.mpr hpage, rfl⟩
  unfold locate placeOf
  rw [hsplit, hoffset, hframe, if_pos]
  refine ⟨?_, fun hzero => hframes (hzero ▸ hmem)⟩
  rw [← hsplit]
  unfold canonicalPages userHeapLimit userHeapBase pageSize at *
  omega

end Place

/-! ## The state of the heap -/

/-- The grants are isolated, and frame 0 is behind none of them and never handed out. -/
structure Healthy (s : Traced) : Prop where
  inv : Inv s
  frames : 0 ∉ s.machine.free
  mapped : ∀ g ∈ s.grants, 0 ∉ g.frames

theorem Healthy.inHeap {s : Traced} (h : Healthy s) : InHeap s.machine where
  blocks b hb :=
    have hok := h.inv.blocks.each b hb
    ⟨hok.positive, hok.low, hok.high, hok.aligned⟩
  low := h.inv.cur_low
  high := h.inv.cur_high
  aligned := h.inv.cur_aligned
  frames := h.frames

theorem allocUser_mapped {m : Machine} {task space size base : ℕ} {kmalloc : Bool} {walk : Walk}
    (h : (allocUser m task space size kmalloc walk).2 = .block base) :
    0 ∉ framesOf ((allocUser m task space size kmalloc walk).1.spaces space) (base / pageSize)
      (requestPages size) := by
  have hallocated := allocUser_allocated m task space size kmalloc walk
  generalize allocUser m task space size kmalloc walk = result at hallocated h ⊢
  have hpages : ∀ {base' : ℕ} {outcome : MapOutcome} {pages : AddressSpace} {free : List ℕ},
      userMapPages walk (requestPages size) (base' / pageSize) (m.spaces space) m.free =
        (outcome, pages, free) → outcome.reply base' = .block base →
      0 ∉ framesOf (update m.spaces space pages space) (base / pageSize) (requestPages size) := by
    intro base' outcome pages free hmap hreply hzero
    cases outcome with
    | outOfFrames | fault => exact nomatch hreply
    | mapped =>
      obtain rfl := AllocReply.block.inj hreply
      obtain ⟨offset, hoffset, hframe⟩ := List.mem_map.mp hzero
      rw [update_self] at hframe
      have hne := userMapPages_ne_zero (congrArg Prod.fst hmap)
        (Nat.le_add_right (base' / pageSize) offset)
        (Nat.add_lt_add_left (List.mem_range.mp hoffset) _)
      rw [hmap] at hne
      exact hne hframe
  cases hallocated with
  | null | full => exact nomatch h
  | reuse _ _ hmap | grow _ _ _ hmap => exact hpages hmap h

theorem mapped_allocUser (m : Machine) (caller size : ℕ) (task : Task) (kmalloc : Bool)
    (walk : Walk) (grants : List Grant) (h : ∀ g ∈ grants, 0 ∉ g.frames) :
    ∀ g ∈ (allocUser m caller task.space size kmalloc walk).2.grants
      (allocUser m caller task.space size kmalloc walk).1 task size grants, 0 ∉ g.frames := by
  cases hreply : (allocUser m caller task.space size kmalloc walk).2 with
  | block base =>
      intro g hg
      rcases List.mem_cons.mp hg with rfl | hold
      · exact allocUser_mapped hreply
      · exact h g hold
  | null => exact h
  | error => exact h
  | fault => exact h

theorem frames_exitTask (m : Machine) (caller : ℕ) : (exitTask m caller).free = m.free := by
  unfold exitTask userHeapReleaseOwner
  split <;> rfl

theorem frames_action {m : Machine} {caller : ℕ} {task : Task} (hframes : 0 ∉ m.free)
    (action : Action) : 0 ∉ (action.run m caller task).free := by
  cases action with
  | createUserThread taken => exact fun hzero => hframes (List.mem_of_mem_drop hzero)
  | fork taken copies => exact fun hzero => hframes (List.mem_of_mem_drop hzero)
  | alloc size kmalloc walk =>
      have hafter : 0 ∉ (allocUser m caller task.space size kmalloc walk).1.free :=
        fun hzero => hframes ((allocUser_frames m caller task.space size kmalloc walk).subset hzero)
      rw [Action.run]
      split
      · next heq =>
          rw [heq] at hafter
          rw [frames_exitTask]
          exact hafter
      · next heq =>
          rw [heq] at hafter
          exact hafter
  | free ptr => exact frames_freeUser hframes task.space ptr
  | exit =>
      change 0 ∉ (userHeapReleaseOwner m caller).free
      unfold userHeapReleaseOwner
      split <;> exact hframes
  | threadExit => exact hframes
  | fault =>
      change 0 ∉ (exitTask m caller).free
      rw [frames_exitTask]
      exact hframes

theorem mapped_action {m : Machine} {caller : ℕ} {task : Task} {grants : List Grant}
    (h : ∀ g ∈ grants, 0 ∉ g.frames) (action : Action) :
    ∀ g ∈ action.grants m caller task grants, 0 ∉ g.frames := by
  cases action with
  | alloc size kmalloc walk => exact mapped_allocUser _ _ _ _ _ _ _ h
  | free ptr => exact fun g hg => h g (List.mem_of_mem_filter hg)
  | createUserThread _ => exact h
  | fork _ _ => exact h
  | exit => exact h
  | threadExit => exact h
  | fault => exact h

theorem healthy_step (s : Traced) (event : HeapEvent) (next : Traced) (h : Healthy s)
    (hguard : KeepsOwners s.machine event) (hstep : HeapStep s event next) : Healthy next := by
  refine ⟨inv_step s event next h.inv hguard hstep, ?_, ?_⟩
  · rw [hstep]
    change 0 ∉ (event.run s.machine).free
    cases event with
    | spawn taken => exact fun hzero => h.frames (List.mem_of_mem_drop hzero)
    | createUserProcess => exact h.frames
    | act caller action =>
        unfold HeapEvent.run
        dsimp only
        split
        · split
          · exact frames_action h.frames action
          · exact h.frames
        · exact h.frames
  · rw [hstep]
    intro g hg
    have hmem : g ∈ event.grants s.machine s.grants := List.mem_of_mem_filter hg
    revert g
    suffices hall : ∀ g ∈ event.grants s.machine s.grants, 0 ∉ g.frames from
      fun g _ hmem => hall g hmem
    cases event with
    | spawn _ => exact h.mapped
    | createUserProcess => exact h.mapped
    | act caller action =>
        unfold HeapEvent.grants
        dsimp only
        split
        · split
          · exact mapped_action h.mapped action
          · exact h.mapped
        · exact h.mapped

theorem healthy_boot {free : List ℕ} (hnodup : free.Nodup) (hfree : 0 ∉ free) :
    Healthy (bootTraced free) :=
  ⟨inv_boot hnodup, hfree, nofun⟩

theorem healthy_always {free : List ℕ} {run : List (HeapEvent × Traced)} (hnodup : free.Nodup)
    (hfree : 0 ∉ free) (hrun : Along HeapStep (bootTraced free) run)
    (hguard : Along (fun s event _ => KeepsOwners s.machine event) (bootTraced free) run) :
    Always Healthy (bootTraced free) run :=
  always_of_guarded Healthy healthy_step (healthy_boot hnodup hfree) hrun hguard

section Grants

variable {s : Traced} {g : Grant}

theorem Healthy.length_frames (h : Healthy s) (hg : g ∈ s.grants) :
    g.frames.length = g.npages := by
  rw [← h.inv.isolated.mapped g hg, framesOf, List.length_map, List.length_range]

theorem Healthy.locate (h : Healthy s) (hg : g ∈ s.grants) {i : ℕ}
    (hi : i < g.npages * pageSize) :
    Libc.locate (s.machine.spaces g.space) (g.base + i) = some (placeOf g.frames i) :=
  have hok := h.inv.grants g hg
  locate_block (h.inv.isolated.mapped g hg) (h.mapped g hg) hok.aligned
    (hok.high.trans h.inv.cur_high) hi

theorem Healthy.placeOf_mem (h : Healthy s) (hg : g ∈ s.grants) {i : ℕ}
    (hi : i < g.npages * pageSize) : (placeOf g.frames i).1 ∈ g.frames :=
  Libc.placeOf_mem ((h.length_frames hg).symm ▸ hi)

theorem Healthy.not_free (h : Healthy s) (hg : g ∈ s.grants) {frame : ℕ}
    (hframe : frame ∈ g.frames) : frame ∉ s.machine.free := fun hfree =>
  (List.nodup_append.mp h.inv.isolated.frames_private).2.2 frame hfree frame
    (List.mem_flatMap.mpr ⟨g, hg, hframe⟩) rfl

theorem Healthy.gives (h : Healthy s) (hg : g ∈ s.grants) {size : ℕ}
    (hsize : size ≤ g.npages * pageSize) :
    Gives s.machine g.space size g.base g.npages where
  size := hsize
  low := (h.inv.grants g hg).low
  high := (h.inv.grants g hg).high.trans h.inv.cur_high
  aligned := (h.inv.grants g hg).aligned
  mapped page hlow hhigh hzero := by
    refine h.mapped g hg ?_
    rw [← h.inv.isolated.mapped g hg, framesOf, List.mem_map]
    refine ⟨page - g.base / pageSize, List.mem_range.mpr (by omega), ?_⟩
    rw [Nat.add_sub_cancel' hlow]
    exact hzero

end Grants

/-! ## The two system calls -/

theorem allocUser_tasks (m : Machine) (task space size : ℕ) (kmalloc : Bool) (walk : Walk) :
    (allocUser m task space size kmalloc walk).1.tasks = m.tasks := by
  have hallocated := allocUser_allocated m task space size kmalloc walk
  generalize allocUser m task space size kmalloc walk = result at hallocated ⊢
  cases hallocated with
  | null | full | reuse => rfl
  | @grow _ _ _ outcome => cases outcome <;> rfl

section Calls

variable {s : Traced} {k : Kernel} {g : Grant} {old sz n : ℕ}

theorem LiveBlock.space_eq (hlive : LiveBlock s k g old) (h : Healthy s) : k.space = g.space :=
  (h.inv.grants g hlive.given).space_eq k.task _ hlive.caller rfl

/-- The block that `malloc` gives. -/
def newGrant (k : Kernel) (g : Grant) (sz n : ℕ) : Grant where
  process := g.process
  space := k.space
  base := n
  npages := requestPages sz
  frames := framesOf ((eigenMalloc k sz).machine.spaces k.space) (n / pageSize) (requestPages sz)

/-- The heap between the two calls. -/
def afterMalloc (s : Traced) (k : Kernel) (g : Grant) (sz n : ℕ) : Traced where
  machine := (eigenMalloc k sz).machine
  grants := newGrant k g sz n :: s.grants

theorem healthy_afterMalloc (h : Healthy s) (hlive : LiveBlock s k g old)
    (hreply : (allocUser k.machine k.task k.space sz k.kmalloc k.walk).2 = .block n) :
    Healthy (afterMalloc s k g sz n) := by
  have hsuffix := allocUser_frames k.machine k.task k.space sz k.kmalloc k.walk
  have hmapped := mapped_allocUser k.machine k.task sz ⟨g.process, k.space, true⟩ k.kmalloc k.walk
    s.grants h.mapped
  have hinv := inv_alloc s k.task sz ⟨g.process, k.space, true⟩ k.kmalloc k.walk h.inv hlive.caller
    (allocUser k.machine k.task k.space sz k.kmalloc k.walk).1 (.block n)
    (by rw [← hlive.machine, ← hreply]) nofun
  rw [hreply] at hmapped
  refine ⟨hinv, fun hzero => h.frames ?_, hmapped⟩
  rw [← hlive.machine]
  exact hsuffix.subset hzero

/-- The heap after both. -/
def afterMove (s : Traced) (k : Kernel) (g : Grant) (sz n : ℕ) : Traced where
  machine := freeUser (eigenMalloc k sz).machine k.space g.base
  grants := freed (afterMalloc s k g sz n) g.process g.base

theorem healthy_afterMove (h : Healthy (afterMalloc s k g sz n)) (hlive : LiveBlock s k g old) :
    Healthy (afterMove s k g sz n) := by
  have hcaller : (afterMalloc s k g sz n).machine.tasks k.task =
      some ⟨g.process, k.space, true⟩ := by
    rw [← hlive.caller, ← hlive.machine]
    exact congrFun (allocUser_tasks k.machine k.task k.space sz k.kmalloc k.walk) k.task
  refine ⟨inv_free h.inv hcaller rfl ?_, frames_freeUser h.frames k.space g.base, ?_⟩
  · intro b hb hbase _
    have hgiven : g ∈ (afterMalloc s k g sz n).grants := List.mem_cons_of_mem _ hlive.given
    have hok := h.inv.blocks.each b hb
    rcases hok.tracked g hgiven with htracks | hapart
    · exact htracks.process_eq
    · have hblkPos := hok.positive
      have hgPos := (h.inv.grants g hgiven).positive
      unfold Apart UserBlk.limit Grant.limit pageSize at hapart
      omega
  · have hsub : (afterMove s k g sz n).grants.Sublist (afterMalloc s k g sz n).grants :=
      List.filter_sublist
    exact fun g hg => h.mapped g (hsub.subset hg)

theorem newGrant_stays (h : Healthy (afterMalloc s k g sz n)) (hlive : LiveBlock s k g old) :
    newGrant k g sz n ∈ (afterMove s k g sz n).grants := by
  refine List.mem_filter.mpr ⟨List.mem_cons_self, ?_⟩
  have hapart := (List.pairwise_cons.mp h.inv.isolated.apart).1 g hlive.given
  have hnew := (h.inv.grants (newGrant k g sz n) List.mem_cons_self).positive
  have hold := (h.inv.grants g (List.mem_cons_of_mem _ hlive.given)).positive
  have hne : (newGrant k g sz n).base ≠ g.base := by
    unfold Apart Grant.limit pageSize at hapart
    omega
  simp [hne]

end Calls

/-! ## Moving a block -/

section Move

variable {s : Traced} {k : Kernel} {g : Grant} {old sz n : ℕ} {memory : Frames}

theorem Reallocates.returns {call : ReallocCall} (h : Reallocates k memory g old sz call) :
    call.result ≠ none := by
  rcases h.result with hnull | ⟨n, npages, hmoved⟩
  · rw [hnull.1]
    exact Option.some_ne_none 0
  · rw [hmoved.result]
    exact Option.some_ne_none n

theorem realloc_eq (hbase : g.base ≠ 0) (hpos : sz ≠ 0) :
    realloc k memory g.base sz =
      moveBlock k (eigenMalloc k sz) (zeroed k.machine (eigenMalloc k sz).machine memory)
        g.base sz := by
  unfold realloc malloc
  rw [if_neg hpos, if_pos hpos]
  exact if_neg hbase

theorem moveBlock_given {call : AllocCall} (hresult : call.result = some n) (hne : n ≠ 0) :
    moveBlock k call memory g.base sz =
      match (memcpy (call.machine.spaces k.space) sz n g.base memory).2 with
      | none =>
          ⟨none, (memcpy (call.machine.spaces k.space) sz n g.base memory).1, call.machine, memory⟩
      | some copied =>
          ⟨some n, (memcpy (call.machine.spaces k.space) sz n g.base memory).1,
            free call.machine k.space g.base, copied⟩ := by
  unfold moveBlock
  rw [hresult]
  dsimp only
  rw [if_pos hne]

theorem moveBlock_refused (hpos : sz ≠ 0) {call : AllocCall}
    (hresult : call.result = some (2 ^ 64 - 1) ∨ call.result = none) :
    (moveBlock k call memory g.base sz).result = none := by
  rcases hresult with hresult | hresult
  · have hnowhere : locate (call.machine.spaces k.space) (2 ^ 64 - 1) = none :=
      if_neg fun hmapped => absurd hmapped.1 (by decide)
    rw [moveBlock_given hresult (by decide), memcpy_unmapped hpos hnowhere]
  · unfold moveBlock
    rw [hresult]

theorem not_reallocates_larger {call : AllocCall} {before : Frames}
    (hresult : call.result = some n) (hne : n ≠ 0) (hlarger : old < sz) :
    ¬ Reallocates k before g old sz (moveBlock k call memory g.base sz) := by
  intro hright
  rw [moveBlock_given hresult hne] at hright
  cases hcopied : (memcpy (call.machine.spaces k.space) sz n g.base memory).2 with
  | none =>
      rw [hcopied] at hright
      exact hright.returns rfl
  | some copied =>
      rw [hcopied] at hright
      have hreads := hright.reads (g.base + old) (by
        rw [memcpy_reads hcopied, List.mem_range'_1]
        omega)
      exact Nat.lt_irrefl _ hreads.2

theorem zeroed_old (h : Healthy s) (hlive : LiveBlock s k g old) {i : ℕ}
    (hi : i < g.npages * pageSize) (after : Machine) :
    zeroed k.machine after memory (placeOf g.frames i) = memory (placeOf g.frames i) := by
  refine if_neg fun htaken => ?_
  rw [hlive.machine] at htaken
  exact h.not_free hlive.given (h.placeOf_mem hlive.given hi) htaken.1

variable (s k g old sz n memory) in
theorem memcpy_moves (h : Healthy s) (hnew : Healthy (afterMalloc s k g sz n))
    (hlive : LiveBlock s k g old) (hsize : sz ≤ old) (hfits : sz ≤ requestPages sz * pageSize) :
    ∃ copied, (memcpy ((eigenMalloc k sz).machine.spaces k.space) sz n g.base
        (zeroed k.machine (eigenMalloc k sz).machine memory)).2 = some copied ∧
      ∀ i < sz, copied (placeOf (newGrant k g sz n).frames i) = memory (placeOf g.frames i) := by
  have hgiven : newGrant k g sz n ∈ (afterMalloc s k g sz n).grants := List.mem_cons_self
  have hold : g ∈ (afterMalloc s k g sz n).grants := List.mem_cons_of_mem _ hlive.given
  have hspace := hlive.space_eq h
  have hin : ∀ i < sz, i < g.npages * pageSize := fun i hi =>
    hi.trans_le (hsize.trans hlive.size)
  have hnodup := (List.nodup_append.mp hnew.inv.isolated.frames_private).2.1
  have hparts := List.nodup_append.mp
    (show ((newGrant k g sz n).frames ++ s.grants.flatMap Grant.frames).Nodup from hnodup)
  obtain ⟨copied, hcopied, hcopies, _⟩ :=
    memcpy_copies ((eigenMalloc k sz).machine.spaces k.space) sz n g.base
      (zeroed k.machine (eigenMalloc k sz).machine memory)
      (placeOf g.frames) (placeOf (newGrant k g sz n).frames)
      (fun i hi => hspace ▸ hnew.locate hold (hin i hi))
      (fun i hi => hnew.locate hgiven (hi.trans_le hfits))
      (fun i hi j hj heq => hparts.2.2 _ (hnew.placeOf_mem hgiven (hj.trans_le hfits)) _
        (List.mem_flatMap.mpr ⟨g, hlive.given, h.placeOf_mem hlive.given (hin i hi)⟩)
        (congrArg Prod.fst heq).symm)
      (fun i hi j hj => placeOf_inj hparts.1
        ((hnew.length_frames hgiven).symm ▸ hi.trans_le hfits)
        ((hnew.length_frames hgiven).symm ▸ hj.trans_le hfits))
  refine ⟨copied, hcopied, fun i hi => ?_⟩
  rw [hcopies i hi, zeroed_old h hlive (hin i hi)]

theorem reallocates_smaller (h : Healthy s) (hlive : LiveBlock s k g old) (hpos : sz ≠ 0)
    (hsize : sz ≤ old) (hcan : Obtainable k.machine sz k.walk) :
    Reallocates k memory g old sz (realloc k memory g.base sz) := by
  have hheap : InHeap k.machine := hlive.machine ▸ h.inHeap
  have hlow := (h.inv.grants g hlive.given).low
  have hhigh := (h.inv.grants g hlive.given).high.trans h.inv.cur_high
  have hbase : g.base ≠ 0 := by
    unfold userHeapBase at hlow
    omega
  have hwraps : sz + 4096 ≤ 2 ^ 64 := by
    have hold := hlive.size
    unfold Grant.limit userHeapLimit userHeapBase at hhigh
    omega
  obtain ⟨n, hasked, hresult, hne, _, _⟩ := eigenMalloc_given hheap hpos hcan
  have hreply : (allocUser k.machine k.task k.space sz k.kmalloc k.walk).2 = .block n :=
    congrArg Prod.snd (Option.some.inj hasked)
  have hfits := le_requestPages hwraps
  have hnew := healthy_afterMalloc h hlive hreply
  have hlast := healthy_afterMove hnew hlive
  have hstays := newGrant_stays hnew hlive
  obtain ⟨copied, hcopied, hbytes⟩ := memcpy_moves s k g old sz n memory h hnew hlive hsize hfits
  have hmachine : free (eigenMalloc k sz).machine k.space g.base =
      (afterMove s k g sz n).machine := if_pos hbase
  rw [realloc_eq hbase hpos, moveBlock_given hresult hne, hcopied, memcpy_reads hcopied]
  dsimp only
  rw [hmachine]
  refine ⟨fun va hva => ?_, Or.inr ⟨n, requestPages sz, hne, rfl, hlast.gives hstays hfits, ?_, ?_⟩⟩
  · have hrange := List.mem_range'_1.mp hva
    omega
  · intro frame hframe
    refine hlast.not_free hstays ?_
    rw [← hlast.inv.isolated.mapped _ hstays]
    exact hframe
  · intro i hi
    have hlt : i < sz := hi.trans_le (Nat.min_le_right old sz)
    have hto : locate ((afterMove s k g sz n).machine.spaces k.space) (n + i) =
        some (placeOf (newGrant k g sz n).frames i) := hlast.locate hstays (hlt.trans_le hfits)
    have hfrom := h.locate hlive.given (hlt.trans_le (hsize.trans hlive.size))
    rw [← hlive.space_eq h, ← hlive.machine] at hfrom
    dsimp only
    unfold byteAt
    rw [hfrom, hto, Option.map_some, Option.map_some, hbytes i hlt]

/-- For every live block and every new size. -/
theorem reallocates_iff (h : Healthy s) (hlive : LiveBlock s k g old) (hpos : 0 < sz) :
    Reallocates k memory g old sz (realloc k memory g.base sz) ↔
      sz ≤ old ∧ Obtainable s.machine sz k.walk := by
  have hne : sz ≠ 0 := Nat.pos_iff_ne_zero.mp hpos
  have hheap : InHeap k.machine := hlive.machine ▸ h.inHeap
  have hlow := (h.inv.grants g hlive.given).low
  have hbase : g.base ≠ 0 := by
    unfold userHeapBase at hlow
    omega
  rw [← hlive.machine]
  constructor
  · intro hright
    rw [realloc_eq hbase hne] at hright
    by_cases hcan : Obtainable k.machine sz k.walk
    · refine ⟨?_, hcan⟩
      obtain ⟨n, _, hresult, hn, _⟩ := eigenMalloc_given hheap hne hcan
      by_contra hlarger
      exact not_reallocates_larger hresult hn (Nat.not_le.mp hlarger) hright
    · obtain ⟨_, _, _, hresult⟩ := eigenMalloc_refused hheap hne hcan
      exact absurd (moveBlock_refused hne hresult) hright.returns
  · rintro ⟨hsize, hcan⟩
    exact reallocates_smaller h hlive hne hsize hcan

end Move

/-- A process asks for two pages. -/
def twoPagesRun (frames : List ℕ) : List (HeapEvent × Traced) :=
  runEvents (bootTraced frames) [.spawn 0, .act 1 (.alloc 8192 true plainWalk)]

/-- The heap when it has them, with so many frames on the stack before. -/
def twoPages (frames : List ℕ) : Traced := final (bootTraced frames) (twoPagesRun frames)

def twoPagesKernel (frames : List ℕ) : Kernel := ⟨(twoPages frames).machine, 1, 1, true, plainWalk⟩

def twoPagesGrant : Grant := ⟨1, 1, userHeapBase, 2, [1, 2]⟩

theorem reallocates_iff_shrink :
    Reallocates (twoPagesKernel sixFrames) (fun _ => 7) twoPagesGrant 8192 4096
      (realloc (twoPagesKernel sixFrames) (fun _ => 7) twoPagesGrant.base 4096) := by
  have hhealthy : Healthy (twoPages sixFrames) := by
    have halways : Always Healthy (bootTraced sixFrames) (twoPagesRun sixFrames) := by
      refine healthy_always (by decide) (by decide) (along_runEvents _ _) ⟨trivial, ?_, trivial⟩
      exact keepsOwners_act rfl fun hfault => absurd hfault (by decide)
    exact halways.final
  have hlive : LiveBlock (twoPages sixFrames) (twoPagesKernel sixFrames) twoPagesGrant 8192 :=
    ⟨rfl, by decide, by decide, by decide⟩
  refine (reallocates_iff hhealthy hlive (by decide)).mpr ⟨by decide, ?_⟩
  change _ ∧ _
  decide

/-- A third page is read behind the two of the block; and without frames the kernel's -1 is taken
for the new block. -/
theorem not_reallocates_grow :
    ¬ Reallocates (twoPagesKernel sixFrames) (fun _ => 7) twoPagesGrant 8192 12288
        (realloc (twoPagesKernel sixFrames) (fun _ => 7) twoPagesGrant.base 12288) ∧
      ¬ Reallocates (twoPagesKernel [1, 2]) (fun _ => 7) twoPagesGrant 8192 4096
        (realloc (twoPagesKernel [1, 2]) (fun _ => 7) twoPagesGrant.base 4096) := by
  constructor
  · rw [realloc_eq (by decide) (by decide)]
    have hresult : (eigenMalloc (twoPagesKernel sixFrames) 12288).result =
        some (userHeapBase + 8192) := by decide
    exact not_reallocates_larger hresult (by decide) (by decide)
  · intro hright
    rw [realloc_eq (by decide) (by decide)] at hright
    have hresult : (eigenMalloc (twoPagesKernel [1, 2]) 4096).result = some (2 ^ 64 - 1) := by decide
    exact hright.returns (moveBlock_refused (by decide) (Or.inl hresult))

end EigenOS.Libc
