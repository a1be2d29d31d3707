import EigenOS.Memory.HeapStructure

/-!
# Allocations that fail

What `k_sys_alloc_user` promises: the machine as it was, or a mapped range inside the heap.  It
keeps this where the size does not wrap and the frames suffice, where the heap is at its end, and
where there is no frame at all and no block had to be touched for it.
-/

namespace EigenOS.Memory

open EigenOS.Ranges EigenOS.Transition Function

/-- The blocks lie between the start of the heap and its mark, in whole pages, and frame 0 is never
handed out. -/
structure InHeap (m : Machine) : Prop where
  blocks : ∀ b ∈ m.blocks, Placed m.heapCur b
  low : userHeapBase ≤ m.heapCur
  high : m.heapCur ≤ userHeapLimit
  aligned : m.heapCur % pageSize = 0
  frames : 0 ∉ m.free

/-- A failed call leaves all this as it was. -/
structure Unchanged (m m' : Machine) : Prop where
  blocks : m'.blocks = m.blocks
  heapCur : m'.heapCur = m.heapCur
  spaces : m'.spaces = m.spaces
  free : m'.free.length = m.free.length

/-- Whole pages in the heap, all mapped, with at least so many bytes. -/
structure Gives (m' : Machine) (space size base npages : ℕ) : Prop where
  size : size ≤ npages * pageSize
  low : userHeapBase ≤ base
  high : base + npages * pageSize ≤ userHeapLimit
  aligned : base % pageSize = 0
  mapped : ∀ page, base / pageSize ≤ page → page < base / pageSize + npages →
    m'.spaces space page ≠ 0

/-- What a reply to a request stands for. -/
def Answers (m m' : Machine) (space size : ℕ) : AllocReply → Prop
  | .null => Unchanged m m'
  | .error => Unchanged m m'
  | .block base => ∃ npages, Gives m' space size base npages
  | .fault => False

/-- There is a frame for each of the pages and for their tables, and each can be mapped. -/
def Supplied (walk : Walk) : ℕ → ℕ → ℕ → Prop
  | 0, _, _ => True
  | npages + 1, page, frames =>
      0 < frames ∧ (walk page).2 = true ∧ page < canonicalPages ∧
        Supplied walk npages (page + 1) (frames - 1 - (walk page).1)

instance decidableSupplied (walk : Walk) :
    ∀ npages page frames, Decidable (Supplied walk npages page frames)
  | 0, _, _ => isTrue trivial
  | npages + 1, page, frames =>
      have := decidableSupplied walk npages (page + 1) (frames - 1 - (walk page).1)
      inferInstanceAs (Decidable (_ ∧ _ ∧ _ ∧ _))

/-- The size does not wrap and the frames suffice; or nothing had to be done to find that they do
not. -/
def KeepsPromise (m : Machine) (task size : ℕ) (walk : Walk) : Prop :=
  size = 0 ∨
    match findBlock (fun b => b.free && decide (requestPages size ≤ b.npages)) [] m.blocks with
    | some focus =>
        (size + 4096 ≤ 2 ^ 64 ∧
            Supplied walk (requestPages size) (focus.blk.base / pageSize) m.free.length) ∨
          (m.free = [] ∧ focus.blk.npages = requestPages size ∧ focus.blk.owner = task)
    | none =>
        userHeapLimit < (m.heapCur + requestPages size * pageSize) % 2 ^ 64 ∨
          (size + 4096 ≤ 2 ^ 64 ∧
              Supplied walk (requestPages size) (m.heapCur / pageSize) m.free.length) ∨
            m.free = []

/-- A block can be had: one is free or the heap can grow, and the frames suffice. -/
def Obtainable (m : Machine) (size : ℕ) (walk : Walk) : Prop :=
  match findBlock (fun b => b.free && decide (requestPages size ≤ b.npages)) [] m.blocks with
  | some focus => Supplied walk (requestPages size) (focus.blk.base / pageSize) m.free.length
  | none =>
      (m.heapCur + requestPages size * pageSize) % 2 ^ 64 ≤ userHeapLimit ∧
        Supplied walk (requestPages size) (m.heapCur / pageSize) m.free.length

theorem obtainable_boot {free : List ℕ} {size : ℕ} {walk : Walk} :
    Obtainable (boot free) size walk ↔
      (userHeapBase + requestPages size * pageSize) % 2 ^ 64 ≤ userHeapLimit ∧
        Supplied walk (requestPages size) (userHeapBase / pageSize) free.length :=
  Iff.rfl

/-! ## Mapping the pages -/

section Map

variable {walk : Walk} {npages page : ℕ} {space : AddressSpace} {free : List ℕ}

theorem pmmAlloc_of_frames (hframes : 0 ∉ free) : (pmmAlloc free).1 = 0 ↔ free = [] := by
  cases free with
  | nil => exact iff_of_true rfl rfl
  | cons frame rest =>
      refine iff_of_false (fun hzero => hframes ?_) nofun
      exact List.mem_cons.mpr (Or.inl hzero.symm)

theorem frames_rest (hframes : 0 ∉ free) (taken : ℕ) : 0 ∉ (pmmAlloc free).2.drop taken := by
  intro hzero
  have hmem : 0 ∈ (pmmAlloc free).2 := List.mem_of_mem_drop hzero
  cases free with
  | nil => exact nomatch hmem
  | cons frame rest => exact hframes (List.mem_cons_of_mem _ hmem)

theorem length_rest (taken : ℕ) :
    ((pmmAlloc free).2.drop taken).length = free.length - 1 - taken := by
  rw [List.length_drop]
  cases free <;> rfl

variable (walk space) in
theorem userMapPages_mapped_iff (hframes : 0 ∉ free) :
    (userMapPages walk npages page space free).1 = .mapped ↔
      Supplied walk npages page free.length := by
  induction npages generalizing page space free with
  | zero => exact iff_of_true rfl trivial
  | succ npages ih =>
      rw [userMapPages, Supplied]
      by_cases hfree : (pmmAlloc free).1 = 0
      · rw [if_pos hfree]
        refine iff_of_false MapOutcome.noConfusion fun hsupplied => ?_
        rw [(pmmAlloc_of_frames hframes).mp hfree] at hsupplied
        exact absurd hsupplied.1 (Nat.lt_irrefl 0)
      · rw [if_neg hfree]
        have hlength : 0 < free.length :=
          List.length_pos_iff.mpr fun hnil => hfree ((pmmAlloc_of_frames hframes).mpr hnil)
        by_cases hwalk : (walk page).2 = true ∧ page < canonicalPages
        · rw [if_pos hwalk, ih _ (frames_rest hframes _), length_rest]
          exact ⟨fun h => ⟨hlength, hwalk.1, hwalk.2, h⟩, fun h => h.2.2.2⟩
        · rw [if_neg hwalk]
          exact iff_of_false MapOutcome.noConfusion fun hsupplied =>
            hwalk ⟨hsupplied.2.1, hsupplied.2.2.1⟩

theorem userMapPages_nil (hpos : 0 < npages) :
    userMapPages walk npages page space [] = (.outOfFrames, space, []) := by
  cases npages with
  | zero => exact absurd hpos (Nat.lt_irrefl 0)
  | succ npages => exact if_pos rfl

theorem userMapPages_outOfFrames (hframes : 0 ∉ free)
    (hout : (userMapPages walk npages page space free).1 = .outOfFrames) :
    (userMapPages walk npages page space free).2.2 = [] := by
  induction npages generalizing page space free with
  | zero => cases hout
  | succ npages ih =>
      rw [userMapPages] at hout ⊢
      by_cases hfree : (pmmAlloc free).1 = 0
      · rw [if_pos hfree, (pmmAlloc_of_frames hframes).mp hfree]
        rfl
      · rw [if_neg hfree] at hout ⊢
        by_cases hwalk : (walk page).2 = true ∧ page < canonicalPages
        · rw [if_pos hwalk] at hout ⊢
          exact ih (frames_rest hframes _) hout
        · rw [if_neg hwalk] at hout
          cases hout

theorem userMapPages_ne_zero (hmapped : (userMapPages walk npages page space free).1 = .mapped)
    {q : ℕ} (hlow : page ≤ q) (hhigh : q < page + npages) :
    (userMapPages walk npages page space free).2.1 q ≠ 0 := by
  induction npages generalizing page space free with
  | zero => omega
  | succ npages ih =>
      rw [userMapPages] at hmapped ⊢
      by_cases hfree : (pmmAlloc free).1 = 0
      · rw [if_pos hfree] at hmapped
        cases hmapped
      · rw [if_neg hfree] at hmapped ⊢
        by_cases hwalk : (walk page).2 = true ∧ page < canonicalPages
        · rw [if_pos hwalk] at hmapped ⊢
          by_cases hq : q = page
          · rw [hq, userMapPages_outside _ _ _ _ _ (Or.inl (Nat.lt_succ_self page)),
              update_self]
            exact hfree
          · exact ih hmapped (by omega) (by omega)
        · rw [if_neg hwalk] at hmapped
          cases hmapped

end Map

/-! ## The number of pages -/

theorem le_requestPages {size : ℕ} (hsize : size + 4096 ≤ 2 ^ 64) :
    size ≤ requestPages size * pageSize := by
  have hmod : (size + 4095) % 2 ^ 64 = size + 4095 := Nat.mod_eq_of_lt (by omega)
  unfold requestPages pageSize
  rw [hmod]
  omega

theorem Gives.size_le {m' : Machine} {space size base npages : ℕ}
    (h : Gives m' space size base npages) : size + 4096 ≤ 2 ^ 64 := by
  have hsize := h.size
  have hhigh := h.high
  unfold userHeapLimit userHeapBase at hhigh
  omega

theorem Gives.mono {m' : Machine} {space size smaller base npages : ℕ}
    (h : Gives m' space size base npages) (hle : smaller ≤ size) :
    Gives m' space smaller base npages :=
  { h with size := hle.trans h.size }

/-! ## What a failed call does to the list -/

theorem length_userBlkNew (blocks : List UserBlk) (b : UserBlk) :
    (userBlkNew blocks b).length = blocks.length + 1 := by
  induction blocks with
  | nil => rfl
  | cons cur rest ih =>
      rw [userBlkNew]
      split
      · rw [List.length_cons, ih, List.length_cons]
      · rfl

/-- A block that is taken and given back is the same only if it was not cut and had the same
owner. -/
theorem takeBlock_eq_blocks {focus : Focus} (hfree : focus.blk.free = true) (npages task : ℕ)
    (kmalloc : Bool) :
    takeBlock focus npages task kmalloc true = focus.blocks ↔
      focus.blk.npages = npages ∧ focus.blk.owner = task := by
  have hcut : ({ focus with
        blk := { focus.blk with npages := npages, free := true, owner := task } } : Focus).blocks =
          focus.blocks ↔ focus.blk.npages = npages ∧ focus.blk.owner = task := by
    unfold Focus.blocks
    rw [List.append_cancel_left_eq, List.cons.injEq, and_iff_left rfl, UserBlk.mk.injEq]
    constructor
    · rintro ⟨_, hpages, _, howner⟩
      exact ⟨hpages.symm, howner.symm⟩
    · rintro ⟨hpages, howner⟩
      exact ⟨rfl, hpages.symm, hfree.symm, howner.symm⟩
  unfold takeBlock
  dsimp only
  split
  · next hsplit =>
      refine iff_of_false (fun heq => ?_) fun hsame => absurd hsame.1 (Nat.ne_of_gt hsplit.1)
      have hlength := congrArg List.length heq
      rw [length_userBlkNew] at hlength
      unfold Focus.blocks at hlength
      simp at hlength
  · exact hcut

section Answers

variable {m : Machine} {task space size : ℕ} {kmalloc : Bool} {walk : Walk}

theorem gives_of_mapped {base : ℕ} {pages : AddressSpace} {free : List ℕ}
    (hsize : size + 4096 ≤ 2 ^ 64) (hlow : userHeapBase ≤ base)
    (hhigh : base + requestPages size * pageSize ≤ userHeapLimit) (haligned : base % pageSize = 0)
    (hmap : userMapPages walk (requestPages size) (base / pageSize) (m.spaces space) m.free =
      (.mapped, pages, free)) {m' : Machine}
    (hspaces : m'.spaces = update m.spaces space pages) :
    Gives m' space size base (requestPages size) where
  size := le_requestPages hsize
  low := hlow
  high := hhigh
  aligned := haligned
  mapped page hfrom hto := by
    rw [hspaces, update_self]
    have hne := userMapPages_ne_zero (congrArg Prod.fst hmap) hfrom hto
    rwa [hmap] at hne

theorem nil_of_outOfFrames (h : InHeap m) {npages page : ℕ} {pages : AddressSpace}
    {free : List ℕ}
    (hmap : userMapPages walk npages page (m.spaces space) m.free = (.outOfFrames, pages, free)) :
    free = [] := by
  have hnil := userMapPages_outOfFrames h.frames (congrArg Prod.fst hmap)
  rwa [hmap] at hnil

theorem unchanged_spaces {npages page : ℕ} {pages : AddressSpace} {free : List ℕ}
    (hpos : 0 < npages) (hnil : m.free = [])
    (hmap : userMapPages walk npages page (m.spaces space) m.free = (.outOfFrames, pages, free)) :
    update m.spaces space pages = m.spaces := by
  rw [hnil, userMapPages_nil hpos] at hmap
  obtain rfl := congrArg (fun r => r.2.1) hmap
  exact update_eq_self _ _

theorem mapped_iff_supplied (h : InHeap m) {npages page : ℕ} {outcome : MapOutcome}
    {pages : AddressSpace} {free : List ℕ}
    (hmap : userMapPages walk npages page (m.spaces space) m.free = (outcome, pages, free)) :
    outcome = .mapped ↔ Supplied walk npages page m.free.length := by
  rw [← userMapPages_mapped_iff walk (m.spaces space) h.frames, hmap]

/-- What a mapping at `base` stands for, when a failed one leaves the machine as it was if and only
if `keeps`. -/
theorem answers_map_iff (h : InHeap m) {base : ℕ} (hlow : userHeapBase ≤ base)
    (haligned : base % pageSize = 0) {outcome : MapOutcome} {pages : AddressSpace} {free : List ℕ}
    (hmap : userMapPages walk (requestPages size) (base / pageSize) (m.spaces space) m.free =
      (outcome, pages, free))
    (hhigh : outcome = .mapped → base + requestPages size * pageSize ≤ userHeapLimit)
    {m' : Machine} (hspaces : m'.spaces = update m.spaces space pages) (hfree : m'.free = free)
    {keeps : Prop}
    (hkeeps : outcome = .outOfFrames → (m'.blocks = m.blocks ∧ m'.heapCur = m.heapCur ↔ keeps)) :
    Answers m m' space size (outcome.reply base) ↔
      (size + 4096 ≤ 2 ^ 64 ∧ Supplied walk (requestPages size) (base / pageSize) m.free.length) ∨
        (m.free = [] ∧ keeps) := by
  have hpos := requestPages_pos size
  have hout : m.free = [] → outcome = .outOfFrames := by
    intro hnil
    rw [hnil, userMapPages_nil hpos] at hmap
    exact (congrArg Prod.fst hmap).symm
  rw [← mapped_iff_supplied h hmap]
  cases outcome with
  | mapped =>
      rw [and_iff_left rfl, or_iff_left fun hnil => nomatch hout hnil.1]
      constructor
      · rintro ⟨npages, hgives⟩
        exact hgives.size_le
      · exact fun hsize => ⟨_, gives_of_mapped hsize hlow (hhigh rfl) haligned hmap hspaces⟩
  | outOfFrames =>
      have hnil : free = [] := nil_of_outOfFrames h hmap
      rw [or_iff_right (fun hboth => nomatch hboth.2), ← hkeeps rfl]
      constructor
      · intro hsame
        have hlength := hsame.free
        rw [hfree, hnil] at hlength
        exact ⟨List.length_eq_zero_iff.mp hlength.symm, hsame.blocks, hsame.heapCur⟩
      · rintro ⟨hnone, hblocks, hcur⟩
        refine ⟨hblocks, hcur, hspaces.trans (unchanged_spaces hpos hnone hmap), ?_⟩
        rw [hfree, hnil, hnone]
  | fault =>
      refine iff_of_false id ?_
      rintro (⟨_, hsupplied⟩ | ⟨hnil, _⟩)
      · exact nomatch hsupplied
      · exact nomatch hout hnil

theorem found_free (h : InHeap m) {focus : Focus}
    (hfind : findBlock (fun b => b.free && decide (requestPages size ≤ b.npages)) [] m.blocks =
      some focus) :
    focus.blocks = m.blocks ∧ focus.blk.free = true ∧ Placed m.heapCur focus.blk ∧
      focus.blk.base + requestPages size * pageSize ≤ userHeapLimit := by
  obtain ⟨hblocks, hfit⟩ := blocks_findFirst hfind
  obtain ⟨hfree, hle⟩ := Bool.and_eq_true_iff.mp hfit
  have hblk := h.blocks focus.blk (mem_of_focus hblocks)
  have hcut : requestPages size * pageSize ≤ focus.blk.npages * pageSize :=
    Nat.mul_le_mul_right _ (of_decide_eq_true hle)
  have hend := hblk.high.trans h.high
  unfold UserBlk.limit at hend
  exact ⟨hblocks, hfree, hblk, by omega⟩

/-- For every size and every state of the heap. -/
theorem answers_iff (h : InHeap m) :
    Answers m (allocUser m task space size kmalloc walk).1 space size
        (allocUser m task space size kmalloc walk).2 ↔ KeepsPromise m task size walk := by
  have hallocated := allocUser_allocated m task space size kmalloc walk
  generalize allocUser m task space size kmalloc walk = result at hallocated ⊢
  unfold KeepsPromise
  cases hallocated with
  | null hsize => exact iff_of_true ⟨rfl, rfl, rfl, rfl⟩ (Or.inl hsize)
  | full hsize hfind hlimit =>
      rw [hfind]
      exact iff_of_true ⟨rfl, rfl, rfl, rfl⟩ (Or.inr (Or.inl hlimit))
  | reuse hsize hfind hmap =>
      obtain ⟨hblocks, hfree, hblk, hend⟩ := found_free h hfind
      rw [or_iff_right hsize, hfind]
      refine answers_map_iff h hblk.low hblk.aligned hmap (fun _ => hend) rfl rfl ?_
      rintro rfl
      rw [and_iff_left rfl, ← hblocks]
      exact takeBlock_eq_blocks hfree _ _ _
  | @grow hsize hfind hlimit outcome _ _ hmap =>
      rw [or_iff_right hsize, hfind]
      dsimp only
      rw [or_iff_right hlimit, ← and_iff_left (a := m.free = []) trivial]
      refine answers_map_iff h h.low h.aligned hmap ?_ ?_ rfl ?_
      · rintro rfl
        rw [← heapCur_add (requestPages_pos size) (congrArg Prod.fst hmap)]
        exact Nat.not_lt.mp hlimit
      · cases outcome <;> rfl
      · rintro rfl
        exact iff_of_true ⟨rfl, rfl⟩ trivial

variable (m task space size kmalloc walk) in
theorem alloc_obtainable (h : InHeap m) (hpositive : size ≠ 0) (hcan : Obtainable m size walk) :
    ∃ base, (allocUser m task space size kmalloc walk).2 = .block base ∧
      userHeapBase ≤ base ∧ base ≤ userHeapLimit ∧
      (size + 4096 ≤ 2 ^ 64 →
        Gives (allocUser m task space size kmalloc walk).1 space size base (requestPages size)) := by
  have hallocated := allocUser_allocated m task space size kmalloc walk
  generalize allocUser m task space size kmalloc walk = result at hallocated ⊢
  unfold Obtainable at hcan
  cases hallocated with
  | null hsize => exact absurd hsize hpositive
  | full _ hfind hlimit =>
      rw [hfind] at hcan
      exact absurd hlimit (Nat.not_lt.mpr hcan.1)
  | reuse _ hfind hmap =>
      rw [hfind] at hcan
      obtain ⟨_, _, hblk, hend⟩ := found_free h hfind
      obtain rfl := (mapped_iff_supplied h hmap).mpr hcan
      exact ⟨_, rfl, hblk.low, by omega,
        fun hsize => gives_of_mapped hsize hblk.low hend hblk.aligned hmap rfl⟩
  | grow _ hfind hlimit hmap =>
      rw [hfind] at hcan
      obtain rfl := (mapped_iff_supplied h hmap).mpr hcan.2
      rw [heapCur_add (requestPages_pos size) (congrArg Prod.fst hmap), Nat.not_lt] at hlimit
      exact ⟨_, rfl, h.low, h.high,
        fun hsize => gives_of_mapped hsize h.low hlimit h.aligned hmap rfl⟩

variable (m task space size kmalloc walk) in
theorem alloc_not_obtainable (h : InHeap m) (hpositive : size ≠ 0)
    (hcannot : ¬ Obtainable m size walk) :
    (allocUser m task space size kmalloc walk).2 = .error ∨
      (allocUser m task space size kmalloc walk).2 = .fault := by
  have hallocated := allocUser_allocated m task space size kmalloc walk
  generalize allocUser m task space size kmalloc walk = result at hallocated ⊢
  unfold Obtainable at hcannot
  have hfails : ∀ {base base' : ℕ} {outcome : MapOutcome} {pages : AddressSpace} {free : List ℕ},
      userMapPages walk (requestPages size) (base / pageSize) (m.spaces space) m.free =
          (outcome, pages, free) →
        ¬ Supplied walk (requestPages size) (base / pageSize) m.free.length →
          outcome.reply base' = .error ∨ outcome.reply base' = .fault := by
    intro base base' outcome pages free hmap hnot
    rw [← mapped_iff_supplied h hmap] at hnot
    cases outcome with
    | mapped => exact absurd rfl hnot
    | outOfFrames => exact Or.inl rfl
    | fault => exact Or.inr rfl
  cases hallocated with
  | null hsize => exact absurd hsize hpositive
  | full => exact Or.inl rfl
  | reuse _ hfind hmap =>
      rw [hfind] at hcannot
      exact hfails hmap hcannot
  | grow _ hfind hlimit hmap =>
      rw [hfind] at hcannot
      exact hfails hmap fun hsupplied => hcannot ⟨Nat.not_lt.mp hlimit, hsupplied⟩

end Answers

/-! ## Every state of the heap -/

theorem allocUser_frames (m : Machine) (task space size : ℕ) (kmalloc : Bool) (walk : Walk) :
    (allocUser m task space size kmalloc walk).1.free <:+ m.free := by
  have hallocated := allocUser_allocated m task space size kmalloc walk
  generalize allocUser m task space size kmalloc walk = result at hallocated ⊢
  have hsuffix : ∀ {page : ℕ} {rest : MapOutcome × AddressSpace × List ℕ},
      userMapPages walk (requestPages size) page (m.spaces space) m.free = rest →
        rest.2.2 <:+ m.free := fun heq => heq ▸ userMapPages_free _ _ _ _ _
  cases hallocated with
  | null | full => exact List.suffix_rfl
  | reuse _ _ hmap | grow _ _ _ hmap => exact hsuffix hmap

theorem unmapPages_frames {npages page : ℕ} {space : AddressSpace} {free : List ℕ}
    (hframes : 0 ∉ free) : 0 ∉ (unmapPages npages page space free).2 := by
  induction npages generalizing page space free with
  | zero => exact hframes
  | succ npages ih =>
      rw [unmapPages]
      apply ih
      split
      · exact hframes
      · next hne => exact fun hzero => (List.mem_cons.mp hzero).elim (fun h => hne h.symm) hframes

theorem frames_freeUser {m : Machine} (hframes : 0 ∉ m.free) (space ptr : ℕ) :
    0 ∉ (freeUser m space ptr).free := by
  unfold freeUser
  split
  · exact hframes
  · split
    · exact hframes
    · split
      · exact hframes
      · exact unmapPages_frames hframes

theorem Sized.inHeap {m : Machine} (h : Sized m) (hframes : 0 ∉ m.free) : InHeap m :=
  ⟨h.placed, h.grown, h.high, h.aligned, hframes⟩

theorem inHeap_boot {free : List ℕ} (hfree : 0 ∉ free) : InHeap (boot free) :=
  (sized_boot free).inHeap hfree

/-- No other part of the kernel puts frame 0 on the stack. -/
def HeapCall.SparesNull : HeapCall → Prop
  | .elsewhere _ frames => 0 ∉ frames
  | .alloc .. | .free .. | .releaseOwner _ => True

theorem InHeap.run {m : Machine} (h : InHeap m) (call : HeapCall) (hcall : call.SparesNull) :
    InHeap (call.run m) := by
  have hsized : Sized m := ⟨h.blocks, h.low, h.high, h.aligned⟩
  apply (hsized.run call).inHeap
  cases call with
  | alloc task space size kmalloc walk =>
      exact fun hzero =>
        h.frames ((allocUser_frames m task space size kmalloc walk).subset hzero)
  | free space ptr => exact frames_freeUser h.frames space ptr
  | releaseOwner owner =>
      rw [HeapCall.run, userHeapReleaseOwner]
      split <;> exact h.frames
  | elsewhere spaces frames => exact hcall

theorem inHeap_always {free : List ℕ} (hfree : 0 ∉ free) (calls : List HeapCall)
    (hcalls : Along (fun _ call _ => call.SparesNull) (boot free)
      (trace HeapCall.run (boot free) calls)) :
    Always InHeap (boot free) (trace HeapCall.run (boot free) calls) := by
  refine always_of_guarded InHeap ?_ (inHeap_boot hfree) (along_trace _ _ _) hcalls
  rintro m call _ h hcall rfl
  exact h.run call hcall

/-! ## Requests -/

/-- A page from a heap with two frames. -/
theorem answers_iff_onePage :
    Answers (boot [1, 2]) (allocUser (boot [1, 2]) 1 1 5 true plainWalk).1 1 5
      (allocUser (boot [1, 2]) 1 1 5 true plainWalk).2 := by
  refine (answers_iff (inHeap_boot (by decide))).mpr (Or.inr (Or.inr (Or.inl ⟨by decide, ?_⟩)))
  decide

/-- Three pages are asked for where there are two frames, and almost 2^64 bytes. -/
theorem not_answers_short :
    ¬ Answers (boot [1, 2]) (allocUser (boot [1, 2]) 1 1 12288 true plainWalk).1 1 12288
        (allocUser (boot [1, 2]) 1 1 12288 true plainWalk).2 ∧
      ¬ Answers (boot [1, 2]) (allocUser (boot [1, 2]) 1 1 (2 ^ 64 - 1) true plainWalk).1 1
        (2 ^ 64 - 1) (allocUser (boot [1, 2]) 1 1 (2 ^ 64 - 1) true plainWalk).2 := by
  constructor
  · have hreply : (allocUser (boot [1, 2]) 1 1 12288 true plainWalk).2 = .error := by decide
    rw [hreply]
    intro hsame
    exact absurd hsame.free (by decide)
  · have hreply : (allocUser (boot [1, 2]) 1 1 (2 ^ 64 - 1) true plainWalk).2 =
        .block userHeapBase := by decide
    rw [hreply]
    rintro ⟨npages, hgives⟩
    exact absurd hgives.size_le (by decide)

end EigenOS.Memory
