import Mathlib.Data.List.Nodup
import Mathlib.Data.List.Range
import Mathlib.Data.List.Flatten
import EigenOS.Library.Ranges
import EigenOS.Library.Transition
import EigenOS.Memory.UserHeap

/-!
# Isolation of the user heap

A block that a task was given stays its process's until a task of the process frees it or
the process is gone: no other block overlaps it, its pages lead to the frames they were
given, and no other part of the kernel gets these frames.  The calls keep this as long as
every block is freed by the process it was given to, and a task that dies alone leaves no
block behind; `k_sys_free_user` checks no owner.
-/

namespace EigenOS.Memory

open EigenOS.Ranges EigenOS.Transition Function

/-! ## What the calls have promised -/

/-- A block as it was given to a task. -/
structure Grant where
  process : ℕ
  space : ℕ
  base : ℕ
  npages : ℕ
  frames : List ℕ
  deriving DecidableEq

def Grant.limit (g : Grant) : ℕ := g.base + g.npages * pageSize

/-- The frames behind `npages` pages from `page` on. -/
def framesOf (space : AddressSpace) (page npages : ℕ) : List ℕ :=
  (List.range npages).map fun offset => space (page + offset)

/-- The process has a task that is not dead. -/
def Machine.isAlive (m : Machine) (process : ℕ) : Bool :=
  (List.range m.nextId).any fun id =>
    (m.tasks id).any fun task => task.alive && decide (task.process = process)

/-- A machine with the blocks that are given out. -/
structure Traced where
  machine : Machine
  grants : List Grant

def AllocReply.grants (after : Machine) (task : Task) (size : ℕ) (grants : List Grant) :
    AllocReply → List Grant
  | .block base =>
      { process := task.process, space := task.space, base, npages := requestPages size
        frames := framesOf (after.spaces task.space) (base / pageSize) (requestPages size) } ::
        grants
  | _ => grants

def Action.grants (m : Machine) (caller : ℕ) (task : Task) (grants : List Grant) :
    Action → List Grant
  | .alloc size kmalloc walk =>
      let result := allocUser m caller task.space size kmalloc walk
      result.2.grants result.1 task size grants
  | .free ptr => grants.filter fun g => !decide (g.process = task.process ∧ g.base = ptr)
  | _ => grants

def HeapEvent.grants (m : Machine) (grants : List Grant) : HeapEvent → List Grant
  | .act caller action =>
      match m.tasks caller with
      | some task => if task.alive then action.grants m caller task grants else grants
      | none => grants
  | _ => grants

def Traced.next (s : Traced) (event : HeapEvent) : Traced where
  machine := event.run s.machine
  grants := (event.grants s.machine s.grants).filter fun g =>
    (event.run s.machine).isAlive g.process

def HeapStep (s : Traced) (event : HeapEvent) (next : Traced) : Prop := next = s.next event

structure Isolated (s : Traced) : Prop where
  apart : s.grants.Pairwise fun g h => Apart g.base g.limit h.base h.limit
  mapped : ∀ g ∈ s.grants,
    framesOf (s.machine.spaces g.space) (g.base / pageSize) g.npages = g.frames
  frames_private : (s.machine.free ++ s.grants.flatMap Grant.frames).Nodup

/-! ## The condition -/

/-- The process of a task, also of a dead one. -/
def Machine.processOf (m : Machine) (id : ℕ) : Option ℕ := (m.tasks id).map Task.process

/-- A task can die alone: it is the last one of its process, or no block is allocated under
its id. -/
def DiesClean (m : Machine) (caller : ℕ) (task : Task) : Prop :=
  (∀ id other, m.tasks id = some other → other.alive = true →
    other.process = task.process → id = caller) ∨
  ∀ b ∈ m.blocks, b.free = false → b.owner ≠ caller

def Action.KeepsOwners (m : Machine) (caller : ℕ) (task : Task) : Action → Prop
  | .free ptr => ∀ b ∈ m.blocks, b.base = ptr → b.free = false →
      m.processOf b.owner = some task.process
  | .alloc size kmalloc walk =>
      (allocUser m caller task.space size kmalloc walk).2 = .fault → DiesClean m caller task
  | .fault => DiesClean m caller task
  | _ => True

def KeepsOwners (m : Machine) : HeapEvent → Prop
  | .act caller action => ∀ task, m.tasks caller = some task → task.alive = true →
      action.KeepsOwners m caller task
  | _ => True

/-! ## Mapping and unmapping -/

theorem framesOf_succ (space : AddressSpace) (page npages : ℕ) :
    framesOf space page (npages + 1) = space page :: framesOf space (page + 1) npages := by
  unfold framesOf
  rw [List.range_succ_eq_map, List.map_cons, List.map_map]
  congr 1
  apply List.map_congr_left
  intro offset _
  simp only [Function.comp_apply]
  congr 1
  omega

theorem framesOf_congr {left right : AddressSpace} {page npages : ℕ}
    (hsame : ∀ q, page ≤ q → q < page + npages → left q = right q) :
    framesOf left page npages = framesOf right page npages := by
  apply List.map_congr_left
  intro offset hoffset
  have hlt := List.mem_range.mp hoffset
  exact hsame _ (by omega) (by omega)

theorem userMapPages_outside (walk : Walk) (npages page : ℕ) (space : AddressSpace)
    (free : List ℕ) {q : ℕ} (hq : q < page ∨ page + npages ≤ q) :
    (userMapPages walk npages page space free).2.1 q = space q := by
  induction npages generalizing page space free with
  | zero => rfl
  | succ npages ih =>
      rw [userMapPages]
      split
      · rfl
      · split
        · rw [ih (page + 1) _ _ (by omega)]
          exact update_of_ne (by omega) _ _
        · rfl

theorem userMapPages_free (walk : Walk) (npages page : ℕ) (space : AddressSpace)
    (free : List ℕ) : (userMapPages walk npages page space free).2.2 <:+ free := by
  induction npages generalizing page space free with
  | zero => exact List.suffix_rfl
  | succ npages ih =>
      have hpop : (pmmAlloc free).2 <:+ free := by
        cases free with
        | nil => exact List.suffix_rfl
        | cons frame rest => exact List.suffix_cons frame rest
      rw [userMapPages]
      split
      · exact hpop
      · split
        · exact (ih _ _ _).trans ((List.drop_suffix _ _).trans hpop)
        · exact (List.drop_suffix _ _).trans hpop

theorem userMapPages_mapped {walk : Walk} {npages page : ℕ} {space : AddressSpace}
    {free others : List ℕ} (hprivate : (free ++ others).Nodup)
    (hmapped : (userMapPages walk npages page space free).1 = .mapped) :
    ((userMapPages walk npages page space free).2.2 ++
      (framesOf (userMapPages walk npages page space free).2.1 page npages ++
        others)).Nodup ∧ (npages = 0 ∨ page + npages ≤ canonicalPages) := by
  induction npages generalizing page space free others with
  | zero => exact ⟨hprivate, Or.inl rfl⟩
  | succ npages ih =>
      rw [userMapPages] at hmapped ⊢
      split at hmapped
      · cases hmapped
      · rename_i hframe
        split at hmapped
        · rename_i hwalk
          cases free with
          | nil => exact absurd rfl hframe
          | cons frame rest =>
              rw [if_neg hframe, if_pos hwalk]
              have hrest : (rest.drop (walk page).1 ++ (frame :: others)).Nodup := by
                have hperm : (rest ++ frame :: others).Nodup :=
                  List.perm_middle.nodup_iff.mpr hprivate
                exact hperm.sublist ((List.drop_sublist _ _).append_right _)
              obtain ⟨hnodup, hrange⟩ := ih hrest hmapped
              refine ⟨?_, ?_⟩
              · rw [framesOf_succ, userMapPages_outside _ _ _ _ _ (Or.inl (by omega)),
                  update_self]
                have hperm := List.perm_middle.nodup_iff.mp
                  (show (_ ++ (framesOf _ (page + 1) npages) ++ frame :: others).Nodup by
                    rw [List.append_assoc]; exact hnodup)
                refine List.Perm.nodup ?_ hperm
                rw [List.append_assoc]
                exact List.perm_middle.symm
              · rcases hrange with rfl | hrange
                · exact Or.inr hwalk.2
                · exact Or.inr (by omega)
        · cases hmapped

theorem unmapPages_space (npages page : ℕ) (space : AddressSpace) (free : List ℕ) {q : ℕ}
    (hq : q < page ∨ page + npages ≤ q) :
    (unmapPages npages page space free).1 q = space q := by
  induction npages generalizing page space free with
  | zero => rfl
  | succ npages ih =>
      rw [unmapPages, ih (page + 1) _ _ (by omega)]
      exact update_of_ne (by omega) _ _

theorem nodup_unmapPages {npages page : ℕ} {space : AddressSpace} {free others : List ℕ}
    (hprivate : (free ++ (framesOf space page npages ++ others)).Nodup) :
    ((unmapPages npages page space free).2 ++ others).Nodup := by
  induction npages generalizing page space free with
  | zero => exact hprivate
  | succ npages ih =>
      rw [unmapPages]
      apply ih
      have hsame : framesOf (update space page 0) (page + 1) npages =
          framesOf space (page + 1) npages := by
        apply framesOf_congr
        intro q hq _
        exact update_of_ne (by omega) _ _
      rw [hsame]
      rw [framesOf_succ, List.cons_append] at hprivate
      have hmoved := List.perm_middle.nodup_iff.mp hprivate
      split
      · exact hmoved.of_cons
      · exact hmoved

/-! ## The block list -/

abbrev Ordered (blocks : List UserBlk) : Prop := InOrder UserBlk.base UserBlk.limit blocks

abbrev BlkJoins : List UserBlk → List UserBlk → Prop :=
  Joins UserBlk.base UserBlk.limit fun b => b.free = true ∧ 0 < b.npages

variable {focus : Focus} {blocks : List UserBlk} {b : UserBlk}

theorem blocks_findBlock {p : UserBlk → Bool} {before blocks : List UserBlk}
    (h : findBlock p before blocks = some focus) :
    focus.blocks = before.reverse ++ blocks ∧ p focus.blk = true := by
  induction blocks generalizing before with
  | nil => cases h
  | cons b after ih =>
      rw [findBlock] at h
      split at h
      · cases h
        exact ⟨rfl, ‹_›⟩
      · obtain ⟨hblocks, hp⟩ := ih h
        refine ⟨?_, hp⟩
        rw [hblocks, List.reverse_cons, List.append_assoc]
        rfl

theorem blocks_findFirst {p : UserBlk → Bool} (h : findBlock p [] blocks = some focus) :
    focus.blocks = blocks ∧ p focus.blk = true := blocks_findBlock h

theorem findBlock_eq_none {p : UserBlk → Bool} {before blocks : List UserBlk}
    (h : findBlock p before blocks = none) : ∀ b ∈ blocks, p b = false := by
  induction blocks generalizing before with
  | nil => exact fun b hb => nomatch hb
  | cons b after ih =>
      rw [findBlock] at h
      split at h
      · cases h
      · rename_i hp
        intro other hother
        rcases List.mem_cons.mp hother with rfl | hother
        · simpa using hp
        · exact ih h other hother

theorem blkJoins_intro {before after : List UserBlk} {left right : UserBlk}
    (hleft : left.free = true ∧ 0 < left.npages)
    (hright : right.free = true ∧ 0 < right.npages) (htouch : left.limit = right.base) :
    BlkJoins (before ++ left :: right :: after)
      (before ++ { left with npages := left.npages + right.npages } :: after) := by
  refine Joins.intro before left right _ after hleft hright
    ⟨hleft.1, Nat.add_pos_left hleft.2 _⟩ htouch rfl ?_
  unfold UserBlk.limit at htouch ⊢
  rw [← htouch]
  simp only [Nat.add_mul, Nat.add_assoc]

theorem joins_coalescePrev (hfree : focus.blk.free = true) (hpos : ∀ b ∈ focus.blocks, 0 < b.npages)
    :
    Relation.ReflGen BlkJoins focus.blocks (coalescePrev focus).blocks ∧
      (coalescePrev focus).blk.free = true := by
  unfold coalescePrev
  split
  · exact ⟨Relation.ReflGen.refl, hfree⟩
  · rename_i p before hbefore
    split
    · rename_i hmerge
      refine ⟨Relation.ReflGen.single ?_, hmerge.1⟩
      have hblocks : focus.blocks = before.reverse ++ p :: focus.blk :: focus.after := by
        rw [Focus.blocks, hbefore, List.reverse_cons, List.append_assoc]
        rfl
      rw [hblocks] at hpos ⊢
      exact blkJoins_intro ⟨hmerge.1, hpos p (by simp)⟩ ⟨hfree, hpos focus.blk (by simp)⟩
        hmerge.2
    · exact ⟨Relation.ReflGen.refl, hfree⟩

theorem joins_coalesceNext (hfree : focus.blk.free = true) (hpos : ∀ b ∈ focus.blocks, 0 < b.npages)
    :
    Relation.ReflGen BlkJoins focus.blocks (coalesceNext focus).blocks := by
  unfold coalesceNext
  split
  · exact Relation.ReflGen.refl
  · rename_i n after hafter
    split
    · rename_i hmerge
      refine Relation.ReflGen.single ?_
      have hblocks : focus.blocks = focus.before.reverse ++ focus.blk :: n :: after := by
        rw [Focus.blocks, hafter]
      rw [hblocks] at hpos ⊢
      exact blkJoins_intro ⟨hfree, hpos focus.blk (by simp)⟩ ⟨hmerge.1, hpos n (by simp)⟩
        hmerge.2
    · exact Relation.ReflGen.refl

theorem mem_blocks : b ∈ focus.blocks ↔ b ∈ focus.before ∨ b = focus.blk ∨ b ∈ focus.after := by
  simp [Focus.blocks]

theorem blocks_userBlkCoalesce {P : List UserBlk → Prop}
    (hjoins : ∀ blocks joined, P blocks → BlkJoins blocks joined → P joined)
    (hpos : ∀ blocks, P blocks → ∀ b ∈ blocks, 0 < b.npages) (hfree : focus.blk.free = true)
    (hblocks : P focus.blocks) : P (userBlkCoalesce focus).blocks := by
  have hkeep : ∀ blocks joined, P blocks → Relation.ReflGen BlkJoins blocks joined →
      P joined := by
    intro blocks joined hP hjoin
    cases hjoin with
    | refl => exact hP
    | single hjoin => exact hjoins blocks joined hP hjoin
  obtain ⟨hprev, hstill⟩ := joins_coalescePrev hfree (hpos _ hblocks)
  have hmiddle := hkeep _ _ hblocks hprev
  exact hkeep _ _ hmiddle (joins_coalesceNext hstill (hpos _ hmiddle))

/-- What freeing a block of the owner and joins of free blocks keep, the release of all its
blocks keeps. -/
theorem blocks_releaseFrom {P : List UserBlk → Prop} {owner : ℕ}
    (hjoins : ∀ blocks joined, P blocks → BlkJoins blocks joined → P joined)
    (hpos : ∀ blocks, P blocks → ∀ b ∈ blocks, 0 < b.npages)
    (hrelease : ∀ focus : Focus, P focus.blocks → focus.blk.free = false →
      focus.blk.owner = owner →
      P { focus with blk := { focus.blk with free := true, owner := 0 } }.blocks)
    (before after : List UserBlk) (hblocks : P (before.reverse ++ after)) :
    P (releaseFrom owner before after) := by
  induction before, after using releaseFrom.induct owner with
  | case1 before =>
      rw [releaseFrom]
      rwa [List.append_nil] at hblocks
  | case2 before b after hmine focus ih =>
      rw [releaseFrom, if_pos hmine]
      apply ih
      have hreleased := hrelease { before, blk := b, after } hblocks hmine.1 hmine.2
      have hdone := blocks_userBlkCoalesce hjoins hpos rfl hreleased
      rw [List.reverse_cons, List.append_assoc]
      exact hdone
  | case3 before b after hother ih =>
      rw [releaseFrom, if_neg hother]
      apply ih
      rw [List.reverse_cons, List.append_assoc]
      exact hblocks

theorem mem_userBlkNew {b other : UserBlk} :
    other ∈ userBlkNew blocks b ↔ other = b ∨ other ∈ blocks := by
  induction blocks with
  | nil => simp [userBlkNew]
  | cons cur rest ih =>
      rw [userBlkNew]
      split
      · rw [List.mem_cons, ih, List.mem_cons]
        exact or_left_comm
      · exact List.mem_cons

theorem ordered_userBlkNew (horder : Ordered blocks) (hpos : 0 < b.npages)
    (hblocks : ∀ other ∈ blocks, 0 < other.npages)
    (hapart : ∀ other ∈ blocks, Apart other.base other.limit b.base b.limit) :
    Ordered (userBlkNew blocks b) := by
  induction blocks with
  | nil => exact List.pairwise_singleton _ _
  | cons cur rest ih =>
      rw [Ordered, InOrder, List.pairwise_cons] at horder
      have hcur := hapart cur List.mem_cons_self
      have hcurPos := hblocks cur List.mem_cons_self
      have hnew := ih horder.2 (fun other hother => hblocks other (List.mem_cons_of_mem _ hother))
        fun other hother => hapart other (List.mem_cons_of_mem _ hother)
      rw [userBlkNew]
      unfold Apart UserBlk.limit pageSize at hcur
      split
      · refine List.pairwise_cons.mpr ⟨?_, hnew⟩
        intro other hother
        rcases mem_userBlkNew.mp hother with rfl | hother
        · unfold UserBlk.limit pageSize
          omega
        · exact horder.1 other hother
      · rename_i hbelow
        refine List.pairwise_cons.mpr ⟨?_, List.pairwise_cons.mpr horder⟩
        have hfirst : b.limit ≤ cur.base := by
          unfold UserBlk.limit pageSize
          omega
        intro other hother
        rcases List.mem_cons.mp hother with rfl | hother
        · exact hfirst
        · have hnext := horder.1 other hother
          unfold UserBlk.limit pageSize at hnext
          exact Nat.le_trans hfirst (by omega)

/-! ## The invariant -/

/-- A block is the one behind a grant. -/
structure Tracks (processOf : ℕ → Option ℕ) (b : UserBlk) (g : Grant) : Prop where
  taken : b.free = false
  base_eq : b.base = g.base
  npages_eq : b.npages = g.npages
  process_eq : processOf b.owner = some g.process

/-- A block of the list.  `claimed` are the owners whose process is still there: what is
allocated to them is given out. -/
structure BlockOk (processOf : ℕ → Option ℕ) (claimed : ℕ → Prop) (cur : ℕ)
    (grants : List Grant) (b : UserBlk) : Prop where
  positive : 0 < b.npages
  aligned : b.base % pageSize = 0
  low : userHeapBase ≤ b.base
  high : b.limit ≤ cur
  known : b.free = false → processOf b.owner ≠ none
  tracked : ∀ g ∈ grants, Tracks processOf b g ∨ Apart b.base b.limit g.base g.limit
  owned : b.free = false → claimed b.owner → ∃ g ∈ grants, Tracks processOf b g

structure BlocksOk (processOf : ℕ → Option ℕ) (claimed : ℕ → Prop) (cur : ℕ)
    (grants : List Grant) (blocks : List UserBlk) : Prop where
  ordered : Ordered blocks
  each : ∀ b ∈ blocks, BlockOk processOf claimed cur grants b

structure GrantOk (m : Machine) (g : Grant) : Prop where
  positive : 0 < g.npages
  aligned : g.base % pageSize = 0
  low : userHeapBase ≤ g.base
  high : g.limit ≤ m.heapCur
  process_lt : g.process < m.nextId
  space_lt : g.space < m.nextId
  space_eq : ∀ id task, m.tasks id = some task → task.process = g.process →
    task.space = g.space

structure TaskOk (m : Machine) (id : ℕ) (task : Task) : Prop where
  id_lt : id < m.nextId
  id_pos : 0 < id
  process_lt : task.process < m.nextId
  space_lt : task.space < m.nextId
  threads : ∀ other otherTask, m.tasks other = some otherTask →
    otherTask.process = task.process → otherTask.space = task.space

def Machine.Claims (m : Machine) (owner : ℕ) : Prop :=
  ∃ process, m.processOf owner = some process ∧ m.isAlive process = true

/-- The invariant, with the owners whose blocks must be given out. -/
structure InvWith (claimed : ℕ → Prop) (s : Traced) : Prop where
  cur_low : userHeapBase ≤ s.machine.heapCur
  cur_high : s.machine.heapCur ≤ userHeapLimit
  cur_aligned : s.machine.heapCur % pageSize = 0
  nextId_pos : 0 < s.machine.nextId
  blocks : BlocksOk s.machine.processOf claimed s.machine.heapCur s.grants s.machine.blocks
  grants : ∀ g ∈ s.grants, GrantOk s.machine g
  tasks : ∀ id task, s.machine.tasks id = some task → TaskOk s.machine id task
  isolated : Isolated s

abbrev Inv (s : Traced) : Prop := InvWith s.machine.Claims s

variable {g : Grant}

section Blocks

variable {processOf processOf' : ℕ → Option ℕ} {claimed claimed' : ℕ → Prop} {cur cur' : ℕ}
  {grants grants' : List Grant} {b : UserBlk} {blocks : List UserBlk}

theorem BlockOk.apart_of_free (h : BlockOk processOf claimed cur grants b) (hfree : b.free = true)
    (hg : g ∈ grants) : Apart b.base b.limit g.base g.limit := by
  rcases h.tracked g hg with htracks | hapart
  · rw [htracks.taken] at hfree
    cases hfree
  · exact hapart

theorem BlockOk.union {left right union : UserBlk} (hgrants : ∀ g ∈ grants, 0 < g.npages)
    (hleft : BlockOk processOf claimed cur grants left)
    (hright : BlockOk processOf claimed cur grants right) (hleftFree : left.free = true)
    (hrightFree : right.free = true) (hunion : union.free = true ∧ 0 < union.npages)
    (htouch : left.limit = right.base) (hbase : union.base = left.base)
    (hlimit : union.limit = right.limit) :
    BlockOk processOf claimed cur grants union := by
  have hnot : union.free = false → False := fun h => nomatch hunion.1.symm.trans h
  refine ⟨hunion.2, ?_, ?_, ?_, fun h => (hnot h).elim, ?_, fun h => (hnot h).elim⟩
  · rw [hbase]
    exact hleft.aligned
  · rw [hbase]
    exact hleft.low
  · rw [hlimit]
    exact hright.high
  · intro g hg
    have hpos := hgrants g hg
    have h₁ := hleft.apart_of_free hleftFree hg
    have h₂ := hright.apart_of_free hrightFree hg
    refine Or.inr ?_
    rw [hbase, hlimit]
    rw [htouch] at h₁
    unfold Apart Grant.limit pageSize at *
    omega

theorem BlocksOk.joins (hgrants : ∀ g ∈ grants, 0 < g.npages)
    (h : BlocksOk processOf claimed cur grants blocks) {joined : List UserBlk}
    (hjoin : BlkJoins blocks joined) : BlocksOk processOf claimed cur grants joined := by
  refine ⟨h.ordered.joins hjoin, ?_⟩
  refine forall_mem_of_joins ?_ h.each hjoin
  intro left right union hleft hright hunion hleftOk hrightOk htouch hlo hhi
  exact hleftOk.union hgrants hrightOk hleft.1 hright.1 hunion htouch hlo hhi

theorem BlocksOk.release {owner : ℕ} (h : BlocksOk processOf claimed cur grants focus.blocks)
    (hnobody : ∀ g ∈ grants, ¬ Tracks processOf focus.blk g) :
    BlocksOk processOf claimed cur grants
      { focus with blk := { focus.blk with free := true, owner := owner } }.blocks := by
  refine ⟨h.ordered.shrink (le_refl _) (le_refl _), ?_⟩
  intro b hb
  rcases mem_blocks.mp hb with hmem | rfl | hmem
  · exact h.each b (mem_blocks.mpr (Or.inl hmem))
  · have hblk := h.each focus.blk (mem_blocks.mpr (Or.inr (Or.inl rfl)))
    refine ⟨hblk.positive, hblk.aligned, hblk.low, hblk.high, nofun, ?_,
      nofun⟩
    intro g hg
    rcases hblk.tracked g hg with htracks | hapart
    · exact (hnobody g hg htracks).elim
    · exact Or.inr hapart
  · exact h.each b (mem_blocks.mpr (Or.inr (Or.inr hmem)))

theorem BlocksOk.coalesce (hgrants : ∀ g ∈ grants, 0 < g.npages)
    (h : BlocksOk processOf claimed cur grants focus.blocks) (hfree : focus.blk.free = true) :
    BlocksOk processOf claimed cur grants (userBlkCoalesce focus).blocks :=
  blocks_userBlkCoalesce (fun _ _ hblocks hjoin => hblocks.joins hgrants hjoin)
    (fun _ hblocks b hb => (hblocks.each b hb).positive) hfree h

theorem BlocksOk.releaseFrom {owner : ℕ} (hgrants : ∀ g ∈ grants, 0 < g.npages)
    (h : BlocksOk processOf claimed cur grants blocks)
    (hnobody : ∀ b ∈ blocks, b.owner = owner → ∀ g ∈ grants, ¬ Tracks processOf b g) :
    BlocksOk processOf claimed cur grants (releaseFrom owner [] blocks) := by
  let P := fun blocks => BlocksOk processOf claimed cur grants blocks ∧
    ∀ b ∈ blocks, b.owner = owner → ∀ g ∈ grants, ¬ Tracks processOf b g
  suffices hP : P (Memory.releaseFrom owner [] blocks) from hP.1
  refine blocks_releaseFrom ?_ (fun _ hP b hb => (hP.1.each b hb).positive) ?_ [] blocks
    ⟨h, hnobody⟩
  · rintro blocks joined ⟨hblocks, hfree⟩ hjoin
    refine ⟨hblocks.joins hgrants hjoin, ?_⟩
    refine forall_mem_of_joins ?_ hfree hjoin
    intro _ _ union _ _ hunion _ _ _ _ _ _ g _ htracks
    rw [htracks.taken] at hunion
    exact nomatch hunion.1
  · rintro focus ⟨hfocus, hfree⟩ _ howner
    refine ⟨hfocus.release (hfree focus.blk (mem_blocks.mpr (Or.inr (Or.inl rfl))) howner), ?_⟩
    intro b hb
    rcases mem_blocks.mp hb with hmem | rfl | hmem
    · exact hfree b (mem_blocks.mpr (Or.inl hmem))
    · exact fun _ g _ htracks => nomatch htracks.taken
    · exact hfree b (mem_blocks.mpr (Or.inr (Or.inr hmem)))

theorem before_userBlkCoalesce (focus : Focus) (hfree : focus.blk.free = true) :
    (∀ b ∈ (userBlkCoalesce focus).before, b ∈ focus.before) ∧
      (userBlkCoalesce focus).blk.free = true := by
  have hprev : (∀ b ∈ (coalescePrev focus).before, b ∈ focus.before) ∧
      (coalescePrev focus).blk.free = true := by
    unfold coalescePrev
    split
    · exact ⟨fun _ hb => hb, hfree⟩
    · rename_i p before hbefore
      split
      · rename_i hmerge
        exact ⟨fun b hb => hbefore ▸ List.mem_cons_of_mem _ hb, hmerge.1⟩
      · exact ⟨fun _ hb => hb, hfree⟩
  unfold userBlkCoalesce coalesceNext
  split
  · exact hprev
  · split
    · exact hprev
    · exact hprev

theorem owner_releaseFrom (owner : ℕ) (before after : List UserBlk)
    (hbefore : ∀ b ∈ before, b.free = false → b.owner ≠ owner) :
    ∀ b ∈ releaseFrom owner before after, b.free = false → b.owner ≠ owner := by
  induction before, after using releaseFrom.induct owner with
  | case1 before =>
      rw [Memory.releaseFrom]
      exact fun b hb => hbefore b (List.mem_reverse.mp hb)
  | case2 before b after hmine focus ih =>
      rw [Memory.releaseFrom, if_pos hmine]
      apply ih
      obtain ⟨hsub, hfree⟩ := before_userBlkCoalesce
        { before, blk := { b with free := true, owner := 0 }, after } rfl
      intro other hother
      rcases List.mem_cons.mp hother with rfl | hother
      · exact fun h => nomatch hfree.symm.trans h
      · exact hbefore other (hsub other hother)
  | case3 before b after hother ih =>
      rw [Memory.releaseFrom, if_neg hother]
      apply ih
      intro other hmem hfree
      rcases List.mem_cons.mp hmem with rfl | hmem
      · exact fun howner => hother ⟨hfree, howner⟩
      · exact hbefore other hmem hfree

theorem BlockOk.mono (h : BlockOk processOf claimed cur grants b) (hcur : cur ≤ cur')
    (hprocess : ∀ id process, processOf id = some process → processOf' id = some process)
    (hgrants : ∀ g ∈ grants', g ∈ grants)
    (hclaimed : ∀ owner, processOf owner ≠ none → claimed' owner → claimed owner)
    (hkeep : ∀ g ∈ grants, Tracks processOf b g → claimed' b.owner → g ∈ grants') :
    BlockOk processOf' claimed' cur' grants' b := by
  have htracks : ∀ g, Tracks processOf b g → Tracks processOf' b g :=
    fun g ht => ⟨ht.taken, ht.base_eq, ht.npages_eq, hprocess _ _ ht.process_eq⟩
  refine ⟨h.positive, h.aligned, h.low, h.high.trans hcur, ?_, ?_, ?_⟩
  · intro hfree
    obtain ⟨process, hknown⟩ := Option.ne_none_iff_exists'.mp (h.known hfree)
    rw [hprocess _ _ hknown]
    exact Option.some_ne_none process
  · intro g hg
    exact (h.tracked g (hgrants g hg)).imp_left (htracks g)
  · intro hfree howner
    obtain ⟨g, hg, ht⟩ := h.owned hfree (hclaimed _ (h.known hfree) howner)
    exact ⟨g, hkeep g hg ht howner, htracks g ht⟩

theorem BlockOk.addGrant (h : BlockOk processOf claimed cur grants b) (hcur : cur ≤ cur')
    (hapart : Apart b.base b.limit g.base g.limit) :
    BlockOk processOf claimed cur' (g :: grants) b := by
  refine ⟨h.positive, h.aligned, h.low, h.high.trans hcur, h.known, ?_, ?_⟩
  · intro other hother
    rcases List.mem_cons.mp hother with rfl | hother
    · exact Or.inr hapart
    · exact h.tracked other hother
  · intro hfree howner
    obtain ⟨other, hother, htracks⟩ := h.owned hfree howner
    exact ⟨other, List.mem_cons_of_mem _ hother, htracks⟩

theorem BlocksOk.mono (h : BlocksOk processOf claimed cur grants blocks) (hcur : cur ≤ cur')
    (hprocess : ∀ id process, processOf id = some process → processOf' id = some process)
    (hgrants : ∀ g ∈ grants', g ∈ grants)
    (hclaimed : ∀ owner, processOf owner ≠ none → claimed' owner → claimed owner)
    (hkeep : ∀ b ∈ blocks, ∀ g ∈ grants, Tracks processOf b g → claimed' b.owner →
      g ∈ grants') :
    BlocksOk processOf' claimed' cur' grants' blocks :=
  ⟨h.ordered, fun b hb => (h.each b hb).mono hcur hprocess hgrants hclaimed (hkeep b hb)⟩

theorem apart_firstPages {lo hi base few many : ℕ} (hle : few ≤ many)
    (hapart : Apart lo hi base (base + many * pageSize)) :
    Apart lo hi base (base + few * pageSize) := by
  have hpages := Nat.mul_le_mul_right pageSize hle
  exact hapart.imp_right fun hbelow => by omega

theorem apart_lastPages {lo hi base few many : ℕ} (hle : few ≤ many)
    (hapart : Apart base (base + many * pageSize) lo hi) :
    Apart (base + few * pageSize) (base + few * pageSize + (many - few) * pageSize) lo hi := by
  have hpages : few * pageSize + (many - few) * pageSize = many * pageSize := by
    rw [← Nat.add_mul, Nat.add_sub_cancel' hle]
  rcases hapart with hbelow | habove
  · exact Or.inl (by omega)
  · exact Or.inr (by omega)

/-- Taking the first pages of a free block.  The other blocks are as they were and apart
from it. -/
theorem BlocksOk.takeBlock {focus : Focus}
    (h : BlocksOk processOf claimed cur grants focus.blocks)
    (npages owner : ℕ) (kmalloc free : Bool)
    (hfree : focus.blk.free = true) (hpos : 0 < npages) (hfits : npages ≤ focus.blk.npages) :
    Ordered (takeBlock focus npages owner kmalloc free) ∧
      ∀ b ∈ takeBlock focus npages owner kmalloc free,
        b = { focus.blk with npages := npages, free := free, owner := owner } ∨
        (b ∈ focus.blocks ∨ b.free = true) ∧ BlockOk processOf claimed cur grants b ∧
          Apart b.base b.limit focus.blk.base (focus.blk.base + npages * pageSize) := by
  have hblk := h.each focus.blk (mem_blocks.mpr (Or.inr (Or.inl rfl)))
  let taken : UserBlk := { focus.blk with npages := npages, free := free, owner := owner }
  let cut : Focus := { focus with blk := taken }
  have htaken : taken.limit ≤ focus.blk.limit :=
    Nat.add_le_add_left (Nat.mul_le_mul_right _ hfits) _
  have hordered : Ordered cut.blocks := h.ordered.shrink (le_refl _) htaken
  have hothers : ∀ b ∈ focus.before.reverse ++ focus.after,
      (b ∈ focus.blocks ∨ b.free = true) ∧ BlockOk processOf claimed cur grants b ∧
        Apart b.base b.limit focus.blk.base focus.blk.limit := by
    intro b hb
    have hmem : b ∈ focus.blocks := by
      rw [mem_blocks]
      rcases List.mem_append.mp hb with hmem | hmem
      · exact Or.inl (List.mem_reverse.mp hmem)
      · exact Or.inr (Or.inr hmem)
    exact ⟨Or.inl hmem, h.each b hmem, h.ordered.apart hb⟩
  have hcut : ∀ b ∈ cut.blocks, b = taken ∨
      (b ∈ focus.blocks ∨ b.free = true) ∧ BlockOk processOf claimed cur grants b ∧
        Apart b.base b.limit focus.blk.base focus.blk.limit := by
    intro b hb
    rcases mem_blocks.mp hb with hmem | rfl | hmem
    · exact Or.inr (hothers b (List.mem_append_left _ (List.mem_reverse.mpr hmem)))
    · exact Or.inl rfl
    · exact Or.inr (hothers b (List.mem_append_right _ hmem))
  have hnear : ∀ b : UserBlk, Apart b.base b.limit focus.blk.base focus.blk.limit →
      Apart b.base b.limit focus.blk.base (focus.blk.base + npages * pageSize) :=
    fun b hb => apart_firstPages hfits hb
  unfold Memory.takeBlock
  dsimp only
  split
  · rename_i hsplit
    let tail : UserBlk :=
      { base := focus.blk.base + npages * pageSize, npages := focus.blk.npages - npages
        free := true, owner := 0 }
    have hpages : npages * pageSize + (focus.blk.npages - npages) * pageSize =
        focus.blk.npages * pageSize := by
      rw [← Nat.add_mul, Nat.add_sub_cancel' hfits]
    have htail : tail.limit = focus.blk.limit := by
      simp only [tail, UserBlk.limit]
      omega
    refine ⟨?_, ?_⟩
    · refine ordered_userBlkNew hordered (Nat.sub_pos_of_lt hsplit.1) ?_ ?_
      · intro b hb
        rcases hcut b hb with rfl | ⟨_, hok, _⟩
        · exact hpos
        · exact hok.positive
      · intro b hb
        rcases hcut b hb with rfl | ⟨_, _, hapart⟩
        · exact Or.inl (le_refl _)
        · refine hapart.imp (fun hbelow => hbelow.trans (Nat.le_add_right _ _)) ?_
          exact fun habove => htail ▸ habove
    · intro b hb
      rcases mem_userBlkNew.mp hb with rfl | hb
      · refine Or.inr ⟨Or.inr rfl, ⟨Nat.sub_pos_of_lt hsplit.1, ?_, ?_, ?_, nofun, ?_,
          nofun⟩, Or.inr (le_refl _)⟩
        · exact (Nat.add_mul_mod_self_right _ _ _).trans hblk.aligned
        · exact hblk.low.trans (Nat.le_add_right _ _)
        · exact htail ▸ hblk.high
        · intro g hg
          exact Or.inr (apart_lastPages hfits (hblk.apart_of_free hfree hg))
      · exact (hcut b hb).imp_right fun ⟨hold, hok, hapart⟩ =>
          ⟨hold, hok, hnear b hapart⟩
  · exact ⟨hordered, fun b hb => (hcut b hb).imp_right fun ⟨hold, hok, hapart⟩ =>
      ⟨hold, hok, hnear b hapart⟩⟩

end Blocks

/-! ## Tasks -/

variable {m : Machine}

theorem isAlive_iff (hids : ∀ id task, m.tasks id = some task → id < m.nextId) {process : ℕ} :
    m.isAlive process = true ↔
      ∃ id task, m.tasks id = some task ∧ task.alive = true ∧ task.process = process := by
  unfold Machine.isAlive
  rw [List.any_eq_true]
  constructor
  · rintro ⟨id, _, hany⟩
    rw [Option.any_eq_true] at hany
    obtain ⟨task, htask, halive⟩ := hany
    simp only [Bool.and_eq_true, decide_eq_true_eq] at halive
    exact ⟨id, task, htask, halive⟩
  · rintro ⟨id, task, htask, halive⟩
    refine ⟨id, List.mem_range.mpr (hids id task htask), ?_⟩
    rw [Option.any_eq_true]
    refine ⟨task, htask, ?_⟩
    simpa using halive

theorem GrantOk.mono {m m' : Machine} (h : GrantOk m g) (htasks : m'.tasks = m.tasks)
    (hnextId : m'.nextId = m.nextId) (hcur : m.heapCur ≤ m'.heapCur) : GrantOk m' g :=
  ⟨h.positive, h.aligned, h.low, h.high.trans hcur, hnextId ▸ h.process_lt,
    hnextId ▸ h.space_lt, htasks ▸ h.space_eq⟩

theorem TaskOk.congr {m m' : Machine} {id : ℕ} {task : Task} (h : TaskOk m id task)
    (htasks : m'.tasks = m.tasks) (hnextId : m'.nextId = m.nextId) : TaskOk m' id task :=
  ⟨hnextId ▸ h.id_lt, h.id_pos, hnextId ▸ h.process_lt, hnextId ▸ h.space_lt,
    htasks ▸ h.threads⟩

theorem InvWith.update {claimed claimed' : ℕ → Prop} {s : Traced} (h : InvWith claimed s)
    {grants : List Grant} (htasks : m.tasks = s.machine.tasks)
    (hnextId : m.nextId = s.machine.nextId) (hcur : s.machine.heapCur ≤ m.heapCur)
    (hhigh : m.heapCur ≤ userHeapLimit) (haligned : m.heapCur % pageSize = 0)
    (hblocks : BlocksOk m.processOf claimed' m.heapCur grants m.blocks)
    (hgrants : ∀ g ∈ grants, g ∈ s.grants ∨ GrantOk m g)
    (hisolated : Isolated { machine := m, grants }) :
    InvWith claimed' { machine := m, grants } where
  cur_low := h.cur_low.trans hcur
  cur_high := hhigh
  cur_aligned := haligned
  nextId_pos := hnextId ▸ h.nextId_pos
  blocks := hblocks
  grants := by
    intro g hg
    rcases hgrants g hg with hold | hnew
    · exact (h.grants g hold).mono htasks hnextId hcur
    · exact hnew
  tasks := by
    intro id task htask
    exact (h.tasks id task (htasks ▸ htask)).congr htasks hnextId
  isolated := hisolated

theorem Isolated.sublist {m m' : Machine} {grants grants' : List Grant}
    (h : Isolated { machine := m, grants }) (hsub : grants'.Sublist grants)
    (hfree : m'.free <:+ m.free) (hspaces : ∀ g ∈ grants', m'.spaces g.space =
      m.spaces g.space) : Isolated { machine := m', grants := grants' } where
  apart := h.apart.sublist hsub
  mapped := by
    intro g hg
    dsimp only
    rw [hspaces g hg]
    exact h.mapped g (hsub.subset hg)
  frames_private :=
    h.frames_private.sublist (hfree.sublist.append (hsub.flatMap _))

theorem Tracks.isAlive (htracks : Tracks m.processOf b g) (hclaims : m.Claims b.owner) :
    m.isAlive g.process = true := by
  obtain ⟨process, hprocess, halive⟩ := hclaims
  obtain rfl : g.process = process :=
    Option.some.inj (htracks.process_eq.symm.trans hprocess)
  exact halive

/-- Grants may be given up where no block in use under a claim stands for them. -/
theorem inv_filter {s : Traced} (h : Inv s) (p : Grant → Bool)
    (hkept : ∀ b ∈ s.machine.blocks, ∀ g, Tracks s.machine.processOf b g →
      s.machine.Claims b.owner → p g = true) : Inv { s with grants := s.grants.filter p } := by
  have hsub : (s.grants.filter p).Sublist s.grants := List.filter_sublist
  refine h.update rfl rfl (le_refl _) h.cur_high h.cur_aligned ?_
    (fun g hg => Or.inl (hsub.subset hg))
    (h.isolated.sublist hsub List.suffix_rfl fun _ _ => rfl)
  refine h.blocks.mono (le_refl _) (fun _ _ => id) (fun g hg => hsub.subset hg)
    (fun _ _ => id) ?_
  exact fun b hb g hg htracks hclaims =>
    List.mem_filter.mpr ⟨hg, hkept b hb g htracks hclaims⟩

theorem InvWith.filter {s : Traced} (h : Inv s) :
    Inv { s with grants := s.grants.filter fun g => s.machine.isAlive g.process } :=
  inv_filter h _ fun _ _ _ htracks hclaims => htracks.isAlive hclaims

section AddTask

variable {s : Traced} {spaces : ℕ → AddressSpace} {free : List ℕ} {task : Task}

theorem tasks_addTask {id : ℕ} {found : Task}
    (hids : ∀ id task, m.tasks id = some task → id < m.nextId) :
    (addTask m task).tasks id = some found ↔
      id = m.nextId ∧ found = task ∨ m.tasks id = some found := by
  unfold addTask
  by_cases hid : id = m.nextId
  · subst hid
    have hnone : m.tasks m.nextId ≠ some found := fun h => lt_irrefl _ (hids _ _ h)
    simp [hnone, eq_comm]
  · simp [hid]

theorem processOf_addTask {id process : ℕ}
    (hids : ∀ id task, m.tasks id = some task → id < m.nextId) (h : m.processOf id = some process) :
    (addTask m task).processOf id = some process := by
  obtain ⟨found, hfound, rfl⟩ := Option.map_eq_some_iff.mp h
  exact Option.map_eq_some_iff.mpr ⟨found, (tasks_addTask hids).mpr (Or.inr hfound), rfl⟩

theorem inv_addTask (h : Inv s) (hfree : free <:+ s.machine.free)
    (hspaces : ∀ space, space < s.machine.nextId → spaces space = s.machine.spaces space)
    (hspace : task.space ≤ s.machine.nextId)
    (htask : task.process = s.machine.nextId ∨ ∃ id other,
      s.machine.tasks id = some other ∧ other.alive = true ∧
        other.process = task.process ∧ other.space = task.space) :
    Inv { machine := addTask { s.machine with spaces, free } task
          grants := s.grants.filter fun g =>
            (addTask { s.machine with spaces, free } task).isAlive g.process } := by
  let m : Machine := { s.machine with spaces, free }
  have hids : ∀ id task, m.tasks id = some task → id < m.nextId :=
    fun id task htask => (h.tasks id task htask).id_lt
  have hids' : ∀ id found, (addTask m task).tasks id = some found →
      id < (addTask m task).nextId := by
    intro id found hfound
    rcases (tasks_addTask hids).mp hfound with ⟨rfl, _⟩ | hold
    · exact Nat.lt_succ_self _
    · exact (hids id found hold).trans (Nat.lt_succ_self _)
  have hold : ∀ process, process < m.nextId → (addTask m task).isAlive process = true →
      m.isAlive process = true := by
    intro process hlt halive
    obtain ⟨id, found, hfound, hfoundAlive, hprocess⟩ := (isAlive_iff hids').mp halive
    rw [isAlive_iff hids]
    rcases (tasks_addTask hids).mp hfound with ⟨_, rfl⟩ | hfound
    · rcases htask with hnew | ⟨other, otherTask, hother, hotherAlive, hsame, _⟩
      · rw [← hprocess, hnew] at hlt
        exact absurd hlt (lt_irrefl _)
      · exact ⟨other, otherTask, hother, hotherAlive, hsame.trans hprocess⟩
    · exact ⟨id, found, hfound, hfoundAlive, hprocess⟩
  have hprocess : task.process < m.nextId + 1 := by
    rcases htask with hnew | ⟨other, otherTask, hother, _, hsame, _⟩
    · exact hnew ▸ Nat.lt_succ_self _
    · exact hsame ▸ ((h.tasks other otherTask hother).process_lt.trans (Nat.lt_succ_self _))
  -- A task of the same process runs in the same address space.
  have hthreads : ∀ id found, m.tasks id = some found → found.process = task.process →
      found.space = task.space := by
    intro id found hfound hsame
    rcases htask with hnew | ⟨other, otherTask, hother, _, hotherSame, hotherSpace⟩
    · have hlt : found.process < s.machine.nextId := (h.tasks id found hfound).process_lt
      rw [hsame, hnew] at hlt
      exact absurd hlt (lt_irrefl _)
    · rw [← hotherSpace]
      exact (h.tasks other otherTask hother).threads id found hfound
        (hsame.trans hotherSame.symm)
  have hsub := List.filter_sublist (p := fun g => (addTask m task).isAlive g.process)
    (l := s.grants)
  refine ⟨h.cur_low, h.cur_high, h.cur_aligned, Nat.succ_pos _, ?_, ?_, ?_, ?_⟩
  · refine h.blocks.mono (le_refl _) (fun _ _ => processOf_addTask hids)
      (fun g hg => hsub.subset hg) ?_ ?_
    · rintro owner hknown ⟨process, howner, halive⟩
      obtain ⟨known, hknown⟩ := Option.ne_none_iff_exists'.mp hknown
      obtain rfl : known = process :=
        Option.some.inj ((processOf_addTask hids hknown).symm.trans howner)
      obtain ⟨found, hfound, rfl⟩ := Option.map_eq_some_iff.mp hknown
      exact ⟨_, hknown, hold _ (h.tasks owner found hfound).process_lt halive⟩
    · intro b _ g hg htracks hclaims
      have htracks' : Tracks (addTask m task).processOf b g :=
        { htracks with process_eq := processOf_addTask hids htracks.process_eq }
      exact List.mem_filter.mpr ⟨hg, htracks'.isAlive hclaims⟩
  · intro g hg
    have hok := h.grants g (hsub.subset hg)
    refine ⟨hok.positive, hok.aligned, hok.low, hok.high,
      hok.process_lt.trans (Nat.lt_succ_self _), hok.space_lt.trans (Nat.lt_succ_self _), ?_⟩
    intro id found hfound hsame
    rcases (tasks_addTask hids).mp hfound with ⟨_, rfl⟩ | hfound
    · rcases htask with hnew | ⟨other, otherTask, hother, _, hotherSame, hotherSpace⟩
      · have hlt := hok.process_lt
        exact absurd hlt (by omega)
      · rw [← hotherSpace]
        exact hok.space_eq other otherTask hother (hotherSame.trans hsame)
    · exact hok.space_eq id found hfound hsame
  · intro id found hfound
    rcases (tasks_addTask hids).mp hfound with ⟨rfl, rfl⟩ | hbefore
    · refine ⟨Nat.lt_succ_self _, h.nextId_pos, hprocess, Nat.lt_succ_of_le hspace, ?_⟩
      intro other otherTask hother hsame
      rcases (tasks_addTask hids).mp hother with ⟨_, rfl⟩ | hother
      · rfl
      · exact hthreads other otherTask hother hsame
    · have hok := h.tasks id found hbefore
      refine ⟨hok.id_lt.trans (Nat.lt_succ_self _), hok.id_pos,
        hok.process_lt.trans (Nat.lt_succ_self _), hok.space_lt.trans (Nat.lt_succ_self _), ?_⟩
      intro other otherTask hother hsame
      rcases (tasks_addTask hids).mp hother with ⟨_, rfl⟩ | hother
      · exact (hthreads id found hbefore hsame.symm).symm
      · exact hok.threads other otherTask hother hsame
  · refine h.isolated.sublist hsub hfree ?_
    intro g hg
    exact hspaces _ (h.grants g (hsub.subset hg)).space_lt

end AddTask

/-! ## Deaths -/

theorem processOf_killTasks (m : Machine) (dies : ℕ → Task → Bool) :
    (killTasks m dies).processOf = m.processOf := by
  funext id
  unfold killTasks Machine.processOf
  dsimp only
  rw [Option.map_map]
  congr 1
  funext task
  simp only [Function.comp_apply]
  split <;> rfl

variable {dies : ℕ → Task → Bool}

theorem tasks_killTasks {id : ℕ} {task : Task} (h : (killTasks m dies).tasks id = some task) :
    ∃ before, m.tasks id = some before ∧ task.process = before.process ∧
      task.space = before.space ∧
      (task.alive = true → before.alive = true ∧ dies id before = false) := by
  obtain ⟨before, hbefore, rfl⟩ := Option.map_eq_some_iff.mp h
  refine ⟨before, hbefore, ?_⟩
  cases hdies : dies id before with
  | true => exact ⟨rfl, rfl, nofun⟩
  | false => exact ⟨rfl, rfl, fun h => ⟨h, rfl⟩⟩

theorem id_lt_killTasks (hids : ∀ id task, m.tasks id = some task → id < m.nextId) (id : ℕ)
    (task : Task) (htask : (killTasks m dies).tasks id = some task) :
    id < (killTasks m dies).nextId := by
  obtain ⟨before, hbefore, _⟩ := tasks_killTasks htask
  exact hids id before hbefore

theorem isAlive_of_killTasks (m : Machine) (dies : ℕ → Task → Bool) (process : ℕ)
    (hids : ∀ id task, m.tasks id = some task → id < m.nextId)
    (halive : (killTasks m dies).isAlive process = true) : m.isAlive process = true := by
  obtain ⟨id, task, htask, htaskAlive, hprocess⟩ :=
    (isAlive_iff (id_lt_killTasks hids)).mp halive
  obtain ⟨before, hbefore, hsame, _, hbeforeAlive⟩ := tasks_killTasks htask
  exact (isAlive_iff hids).mpr
    ⟨id, before, hbefore, (hbeforeAlive htaskAlive).1, hsame.symm.trans hprocess⟩

theorem isAlive_killTasks {process : ℕ} (hids : ∀ id task, m.tasks id = some task → id < m.nextId)
    (hall : ∀ id task, m.tasks id = some task → task.alive = true →
      task.process = process → dies id task = true) :
    ¬ (killTasks m dies).isAlive process = true := by
  rw [isAlive_iff (id_lt_killTasks hids)]
  rintro ⟨id, task, htask, halive, hprocess⟩
  obtain ⟨before, hbefore, hsame, _, hbeforeAlive⟩ := tasks_killTasks htask
  obtain ⟨hwas, hnot⟩ := hbeforeAlive halive
  rw [hall id before hbefore hwas (hsame.symm.trans hprocess)] at hnot
  cases hnot

/-- The claims that are left after some deaths, and the grants that go with them. -/
theorem blocksOk_killTasks (s : Traced) (except : ℕ → Prop)
    (h : InvWith (fun owner => s.machine.Claims owner ∧ except owner) s)
    (blocks : List UserBlk) (dies : ℕ → Task → Bool) :
    BlocksOk s.machine.processOf
      (fun owner => (killTasks { s.machine with blocks } dies).Claims owner ∧ except owner)
      s.machine.heapCur
      (s.grants.filter fun g =>
        (killTasks { s.machine with blocks } dies).isAlive g.process) s.machine.blocks := by
  have hids : ∀ id task, s.machine.tasks id = some task → id < s.machine.nextId :=
    fun id task htask => (h.tasks id task htask).id_lt
  refine h.blocks.mono (le_refl _) (fun _ _ => id)
    (fun g hg => List.mem_of_mem_filter hg) ?_ ?_
  · rintro owner _ ⟨⟨process, hprocess, halive⟩, hexcept⟩
    rw [processOf_killTasks] at hprocess
    exact ⟨⟨process, hprocess,
      isAlive_of_killTasks { s.machine with blocks } dies process hids halive⟩, hexcept⟩
  · rintro b _ g hg htracks ⟨hclaims, _⟩
    refine List.mem_filter.mpr ⟨hg, Tracks.isAlive ?_ hclaims⟩
    rw [processOf_killTasks]
    exact htracks

theorem inv_killTasks {claimed : ℕ → Prop} (s : Traced) (h : InvWith claimed s)
    (blocks : List UserBlk) (dies : ℕ → Task → Bool)
    (hblocks : BlocksOk s.machine.processOf
      (killTasks { s.machine with blocks } dies).Claims s.machine.heapCur
      (s.grants.filter fun g =>
        (killTasks { s.machine with blocks } dies).isAlive g.process) blocks) :
    Inv { machine := killTasks { s.machine with blocks } dies
          grants := s.grants.filter fun g =>
            (killTasks { s.machine with blocks } dies).isAlive g.process } := by
  have hsub := List.filter_sublist
    (p := fun g => (killTasks { s.machine with blocks } dies).isAlive g.process)
    (l := s.grants)
  refine ⟨h.cur_low, h.cur_high, h.cur_aligned, h.nextId_pos, ?_, ?_, ?_, ?_⟩
  · dsimp only
    rw [processOf_killTasks]
    exact hblocks
  · intro g hg
    have hok := h.grants g (hsub.subset hg)
    refine ⟨hok.positive, hok.aligned, hok.low, hok.high, hok.process_lt, hok.space_lt, ?_⟩
    intro id task htask hsame
    obtain ⟨before, hbefore, hprocess, hspace, _⟩ := tasks_killTasks htask
    rw [hspace]
    exact hok.space_eq id before hbefore (hprocess.symm.trans hsame)
  · intro id task htask
    obtain ⟨before, hbefore, hprocess, hspace, _⟩ := tasks_killTasks htask
    have hok := h.tasks id before hbefore
    refine ⟨hok.id_lt, hok.id_pos, hprocess ▸ hok.process_lt, hspace ▸ hok.space_lt, ?_⟩
    intro other otherTask hother hsame
    obtain ⟨otherBefore, hotherBefore, hotherProcess, hotherSpace, _⟩ :=
      tasks_killTasks hother
    rw [hspace, hotherSpace]
    exact hok.threads other otherBefore hotherBefore
      ((hotherProcess.symm.trans hsame).trans hprocess)
  · exact h.isolated.sublist hsub List.suffix_rfl fun _ _ => rfl

theorem InvWith.except {s : Traced} (h : Inv s) (except : ℕ → Prop) :
    InvWith (fun owner => s.machine.Claims owner ∧ except owner) s where
  cur_low := h.cur_low
  cur_high := h.cur_high
  cur_aligned := h.cur_aligned
  nextId_pos := h.nextId_pos
  blocks := h.blocks.mono (le_refl _) (fun _ _ => id) (fun _ => id) (fun _ _ => And.left)
    fun _ _ _ hg _ _ => hg
  grants := h.grants
  tasks := h.tasks
  isolated := h.isolated

/-- `exit_task`, alone or with the rest of its process.  Nothing that stays given out is
behind a block of the task. -/
theorem inv_releaseOwner {s : Traced} {caller : ℕ}
    (h : InvWith (fun owner => s.machine.Claims owner ∧ owner ≠ caller) s)
    (hcaller : 0 < caller) {dies : ℕ → Task → Bool}
    (hnobody : ∀ b ∈ s.machine.blocks, b.owner = caller → ∀ g ∈ s.grants,
      (killTasks (userHeapReleaseOwner s.machine caller) dies).isAlive g.process = true →
        ¬ Tracks s.machine.processOf b g) :
    Inv { machine := killTasks (userHeapReleaseOwner s.machine caller) dies
          grants := s.grants.filter fun g =>
            (killTasks (userHeapReleaseOwner s.machine caller) dies).isAlive g.process } := by
  have hmachine : userHeapReleaseOwner s.machine caller =
      { s.machine with blocks := releaseFrom caller [] s.machine.blocks } := by
    unfold userHeapReleaseOwner
    rw [if_neg (Nat.pos_iff_ne_zero.mp hcaller)]
  rw [hmachine] at hnobody ⊢
  have hleft := blocksOk_killTasks _ _ h (releaseFrom caller [] s.machine.blocks) dies
  have hreleased := hleft.releaseFrom
    (fun g hg => (h.grants g (List.mem_of_mem_filter hg)).positive)
    fun b hb howner g hg =>
      hnobody b hb howner g (List.mem_of_mem_filter hg) (List.mem_filter.mp hg).2
  refine inv_killTasks _ h _ _ ⟨hreleased.ordered, ?_⟩
  intro b hb
  have hok := hreleased.each b hb
  refine ⟨hok.positive, hok.aligned, hok.low, hok.high, hok.known, hok.tracked, ?_⟩
  intro hfree hclaims
  have hother := owner_releaseFrom caller [] s.machine.blocks nofun
    b hb hfree
  exact hok.owned hfree ⟨hclaims, hother⟩

theorem inv_threadExit {s : Traced} (h : Inv s) (dies : ℕ → Task → Bool) :
    Inv { machine := killTasks s.machine dies
          grants := s.grants.filter fun g =>
            (killTasks s.machine dies).isAlive g.process } := by
  refine inv_killTasks s h s.machine.blocks dies ?_
  have hleft := blocksOk_killTasks s (fun _ => True) (h.except fun _ => True)
    s.machine.blocks dies
  exact hleft.mono (le_refl _) (fun _ _ => id) (fun _ => id)
    (fun _ _ hclaims => ⟨hclaims, trivial⟩) fun _ _ _ hg _ _ => hg

/-! ## Allocating -/

theorem requestPages_pos (size : ℕ) : 0 < requestPages size := by
  unfold requestPages
  omega

theorem pages_apart {base npages base' npages' : ℕ} (haligned : base % pageSize = 0)
    (haligned' : base' % pageSize = 0)
    (hapart : Apart base (base + npages * pageSize) base' (base' + npages' * pageSize))
    {q : ℕ} (hlow : base / pageSize ≤ q) (hhigh : q < base / pageSize + npages) :
    q < base' / pageSize ∨ base' / pageSize + npages' ≤ q := by
  unfold Apart at hapart
  unfold pageSize at *
  omega

theorem mapped_update {grants : List Grant}
    (hmapped : ∀ g ∈ grants, framesOf (m.spaces g.space) (g.base / pageSize) g.npages =
      g.frames) {space base npages : ℕ} {pages : AddressSpace}
    (hpages : ∀ q, q < base / pageSize ∨ base / pageSize + npages ≤ q →
      pages q = m.spaces space q) (haligned : base % pageSize = 0)
    (hgrants : ∀ g ∈ grants, g.base % pageSize = 0 ∧
      Apart g.base g.limit base (base + npages * pageSize)) (hg : g ∈ grants) :
    framesOf (update m.spaces space pages g.space) (g.base / pageSize) g.npages =
      g.frames := by
  obtain ⟨hgAligned, hapart⟩ := hgrants g hg
  rw [← hmapped g hg]
  by_cases hspace : g.space = space
  · rw [hspace, update_self]
    apply framesOf_congr
    intro q hlow hhigh
    exact hpages q (pages_apart hgAligned haligned hapart hlow hhigh)
  · rw [update_of_ne hspace]

section Alloc

variable {s : Traced} {caller size : ℕ} {task : Task} {kmalloc : Bool} {walk : Walk}
  {outcome : MapOutcome} {pages : AddressSpace} {free : List ℕ}

theorem isolated_userMapPages (h : Inv s) {space base npages : ℕ} (haligned : base % pageSize = 0)
    (hgrants : ∀ g ∈ s.grants, Apart g.base g.limit base (base + npages * pageSize))
    (hmap : userMapPages walk npages (base / pageSize) (s.machine.spaces space) s.machine.free =
      (outcome, pages, free))
    (hspaces : m.spaces = update s.machine.spaces space pages) (hfree : m.free = free) :
    Isolated { machine := m, grants := s.grants } where
  apart := h.isolated.apart
  mapped := by
    intro g hg
    dsimp only
    rw [hspaces]
    refine mapped_update h.isolated.mapped (fun q hq => ?_) haligned
      (fun g hg => ⟨(h.grants g hg).aligned, hgrants g hg⟩) hg
    have hsame := userMapPages_outside walk npages (base / pageSize) (s.machine.spaces space)
      s.machine.free hq
    rwa [hmap] at hsame
  frames_private := by
    have hsuffix := userMapPages_free walk npages (base / pageSize) (s.machine.spaces space)
      s.machine.free
    rw [hmap] at hsuffix
    exact h.isolated.frames_private.sublist (hfree ▸ hsuffix.sublist.append_right _)

theorem isolated_grant (h : Inv s) {m : Machine} {process space base npages : ℕ}
    (haligned : base % pageSize = 0)
    (hgrants : ∀ g ∈ s.grants, Apart g.base g.limit base (base + npages * pageSize))
    (hmap : userMapPages walk npages (base / pageSize) (s.machine.spaces space) s.machine.free =
      (.mapped, pages, free))
    (hspaces : m.spaces = update s.machine.spaces space pages) (hfree : m.free = free) :
    Isolated
      { machine := m
        grants :=
          { process, space, base, npages
            frames := framesOf (m.spaces space) (base / pageSize) npages } ::
            s.grants } := by
  have hold := isolated_userMapPages h haligned hgrants hmap hspaces hfree
  have hprivate := (userMapPages_mapped h.isolated.frames_private (congrArg Prod.fst hmap)).1
  refine ⟨?_, ?_, ?_⟩
  · refine List.pairwise_cons.mpr ⟨?_, hold.apart⟩
    intro g hg
    exact (hgrants g hg).symm
  · intro g hg
    rcases List.mem_cons.mp hg with rfl | hg
    · rfl
    · exact hold.mapped g hg
  · rw [List.flatMap_cons]
    dsimp only
    rw [hfree, hspaces, update_self]
    rwa [hmap] at hprivate

theorem mem_of_focus {blocks : List UserBlk} (hblocks : focus.blocks = blocks) :
    focus.blk ∈ blocks := hblocks ▸ mem_blocks.mpr (Or.inr (Or.inl rfl))

theorem apart_focus (h : Inv s) (hblocks : focus.blocks = s.machine.blocks)
    (hfree : focus.blk.free = true) {npages : ℕ} (hfits : npages ≤ focus.blk.npages) (g : Grant)
    (hg : g ∈ s.grants) :
    Apart g.base g.limit focus.blk.base (focus.blk.base + npages * pageSize) :=
  apart_firstPages hfits
    ((h.blocks.each _ (mem_of_focus hblocks)).apart_of_free hfree hg).symm

theorem blockOk_taken (h : Inv s) (hblocks : focus.blocks = s.machine.blocks)
    (hfree : focus.blk.free = true) {npages : ℕ} (hpos : 0 < npages)
    (hfits : npages ≤ focus.blk.npages) {free : Bool} {claimed : ℕ → Prop}
    (hknown : s.machine.processOf caller ≠ none) (hclaimed : free = false → ¬ claimed caller) :
    BlockOk s.machine.processOf claimed s.machine.heapCur s.grants
      { focus.blk with npages := npages, free := free, owner := caller } := by
  have hblk := h.blocks.each focus.blk (mem_of_focus hblocks)
  refine ⟨hpos, hblk.aligned, hblk.low, ?_, fun _ => hknown, ?_, ?_⟩
  · exact (Nat.add_le_add_left (Nat.mul_le_mul_right _ hfits) _).trans hblk.high
  · exact fun g hg => Or.inr (apart_focus h hblocks hfree hfits g hg).symm
  · exact fun htaken howner => absurd howner (hclaimed htaken)

/-- A free block that is taken, or left free, without a grant. -/
theorem inv_reuse (h : Inv s) {focus : Focus} (hblocks : focus.blocks = s.machine.blocks)
    (hfree : focus.blk.free = true) (hfits : requestPages size ≤ focus.blk.npages)
    (hknown : s.machine.processOf caller ≠ none) {taken : Bool} {claimed : ℕ → Prop}
    (hclaimed : taken = false → ¬ claimed caller)
    (hweaker : ∀ owner, claimed owner → s.machine.Claims owner)
    (hmap : userMapPages walk (requestPages size) (focus.blk.base / pageSize)
      (s.machine.spaces task.space) s.machine.free = (outcome, pages, free)) :
    InvWith claimed
      { machine := { s.machine with
          blocks := takeBlock focus (requestPages size) caller kmalloc taken
          spaces := update s.machine.spaces task.space pages, free }
        grants := s.grants } := by
  have hold : BlocksOk s.machine.processOf s.machine.Claims s.machine.heapCur s.grants
      focus.blocks := hblocks ▸ h.blocks
  obtain ⟨hordered, heach⟩ := hold.takeBlock (requestPages size) caller kmalloc taken hfree
    (requestPages_pos size) hfits
  refine h.update rfl rfl (le_refl _) h.cur_high h.cur_aligned ⟨hordered, ?_⟩
    (fun g hg => Or.inl hg)
    (isolated_userMapPages h (h.blocks.each _ (mem_of_focus hblocks)).aligned
      (apart_focus h hblocks hfree hfits) hmap rfl rfl)
  intro b hb
  rcases heach b hb with rfl | ⟨_, hok, _⟩
  · exact blockOk_taken h hblocks hfree (requestPages_pos size) hfits hknown hclaimed
  · exact hok.mono (le_refl _) (fun _ _ => id) (fun _ => id) (fun owner _ => hweaker owner)
      fun _ hg _ _ => hg

theorem inv_granted (h : Inv s) (hcaller : s.machine.tasks caller = some task) {base cur : ℕ}
    {blocks : List UserBlk} (hcur : s.machine.heapCur ≤ cur) (hhigh : cur ≤ userHeapLimit)
    (hcurAligned : cur % pageSize = 0) (haligned : base % pageSize = 0)
    (hlow : userHeapBase ≤ base) (hend : base + requestPages size * pageSize ≤ cur)
    (hapart : ∀ g ∈ s.grants,
      Apart g.base g.limit base (base + requestPages size * pageSize))
    (hmap : userMapPages walk (requestPages size) (base / pageSize)
      (s.machine.spaces task.space) s.machine.free = (.mapped, pages, free))
    (hordered : Ordered blocks)
    (heach : ∀ b ∈ blocks,
      b = { base, npages := requestPages size, free := false, owner := caller } ∨
        BlockOk s.machine.processOf s.machine.Claims s.machine.heapCur s.grants b ∧
          Apart b.base b.limit base (base + requestPages size * pageSize)) {m : Machine}
    (hm : m = { s.machine with
      blocks, heapCur := cur, spaces := update s.machine.spaces task.space pages, free }) :
    Inv { machine := m, grants := (AllocReply.block base).grants m task size s.grants } := by
  subst hm
  have htaskOk := h.tasks caller task hcaller
  have hpos := requestPages_pos size
  have hprocess : s.machine.processOf caller = some task.process :=
    Option.map_eq_some_iff.mpr ⟨task, hcaller, rfl⟩
  refine h.update rfl rfl hcur hhigh hcurAligned ⟨hordered, fun b hb => ?_⟩ (fun g hg => ?_)
    (isolated_grant h haligned hapart hmap rfl rfl)
  · rcases heach b hb with rfl | ⟨hok, hbApart⟩
    · refine ⟨hpos, haligned, hlow, hend, ?_, fun g hg => ?_, ?_⟩
      · exact fun _ => hprocess ▸ Option.some_ne_none task.process
      · rcases List.mem_cons.mp hg with rfl | hg
        · exact Or.inl ⟨rfl, rfl, rfl, hprocess⟩
        · exact Or.inr (hapart g hg).symm
      · exact fun _ _ => ⟨_, List.mem_cons_self, rfl, rfl, rfl, hprocess⟩
    · exact hok.addGrant hcur hbApart
  · rcases List.mem_cons.mp hg with rfl | hg
    · exact Or.inr ⟨hpos, haligned, hlow, hend, htaskOk.process_lt, htaskOk.space_lt,
        htaskOk.threads⟩
    · exact Or.inl hg

theorem inv_reuse_mapped (h : Inv s) {focus : Focus}
    (hcaller : s.machine.tasks caller = some task)
    (hblocks : focus.blocks = s.machine.blocks)
    (hfree : focus.blk.free = true) (hfits : requestPages size ≤ focus.blk.npages)
    (hmap : userMapPages walk (requestPages size) (focus.blk.base / pageSize)
      (s.machine.spaces task.space) s.machine.free = (.mapped, pages, free)) {m : Machine}
    (hm : m = { s.machine with
      blocks := takeBlock focus (requestPages size) caller kmalloc false
      spaces := update s.machine.spaces task.space pages, free }) :
    Inv { machine := m
          grants := (AllocReply.block focus.blk.base).grants m task size s.grants } := by
  have hblk := h.blocks.each focus.blk (mem_of_focus hblocks)
  have hold : BlocksOk s.machine.processOf s.machine.Claims s.machine.heapCur s.grants
      focus.blocks := hblocks ▸ h.blocks
  obtain ⟨hordered, heach⟩ := hold.takeBlock (requestPages size) caller kmalloc false hfree
    (requestPages_pos size) hfits
  have hlimit : focus.blk.base + requestPages size * pageSize ≤ s.machine.heapCur :=
    (Nat.add_le_add_left (Nat.mul_le_mul_right _ hfits) _).trans hblk.high
  exact inv_granted h hcaller (le_refl _) h.cur_high h.cur_aligned hblk.aligned hblk.low hlimit
    (apart_focus h hblocks hfree hfits) hmap hordered
    (fun b hb => (heach b hb).imp_right And.right) hm

theorem apart_heapCur (h : Inv s) (npages : ℕ) (g : Grant) (hg : g ∈ s.grants) :
    Apart g.base g.limit s.machine.heapCur (s.machine.heapCur + npages * pageSize) :=
  Or.inl (h.grants g hg).high

theorem inv_bump (h : Inv s) {claimed : ℕ → Prop}
    (hweaker : ∀ owner, claimed owner → s.machine.Claims owner)
    (hmap : userMapPages walk (requestPages size) (s.machine.heapCur / pageSize)
      (s.machine.spaces task.space) s.machine.free = (outcome, pages, free)) :
    InvWith claimed
      { machine :=
          { s.machine with spaces := update s.machine.spaces task.space pages, free }
        grants := s.grants } := by
  refine h.update rfl rfl (le_refl _) h.cur_high h.cur_aligned ?_ (fun g hg => Or.inl hg)
    (isolated_userMapPages h h.cur_aligned (apart_heapCur h _) hmap rfl rfl)
  exact h.blocks.mono (le_refl _) (fun _ _ => id) (fun _ => id) (fun owner _ => hweaker owner)
    fun _ _ _ hg _ _ => hg

theorem inv_bump_mapped (h : Inv s) (hcaller : s.machine.tasks caller = some task)
    (hlimit : ¬ userHeapLimit <
      (s.machine.heapCur + requestPages size * pageSize) % 2 ^ 64)
    (hmap : userMapPages walk (requestPages size) (s.machine.heapCur / pageSize)
      (s.machine.spaces task.space) s.machine.free = (.mapped, pages, free)) {m : Machine}
    (hm : m = { s.machine.grown (requestPages size) caller kmalloc .mapped with
      spaces := update s.machine.spaces task.space pages, free }) :
    Inv { machine := m
          grants := (AllocReply.block s.machine.heapCur).grants m task size s.grants } := by
  have hpos := requestPages_pos size
  have hcanonical :=
    (userMapPages_mapped h.isolated.frames_private (congrArg Prod.fst hmap)).2
  have hnowrap : (s.machine.heapCur + requestPages size * pageSize) % 2 ^ 64 =
      s.machine.heapCur + requestPages size * pageSize := by
    apply Nat.mod_eq_of_lt
    have haligned := h.cur_aligned
    unfold canonicalPages at hcanonical
    unfold pageSize at *
    omega
  rw [hnowrap] at hlimit
  have hbelow : ∀ b ∈ s.machine.blocks, Apart b.base b.limit s.machine.heapCur
      (s.machine.heapCur + requestPages size * pageSize) :=
    fun b hb => Or.inl (h.blocks.each b hb).high
  rw [Machine.grown, hnowrap] at hm
  refine inv_granted h hcaller (Nat.le_add_right _ _) (not_lt.mp hlimit)
    ((Nat.add_mul_mod_self_right _ _ _).trans h.cur_aligned) h.cur_aligned h.cur_low (le_refl _)
    (apart_heapCur h _) hmap ?_ ?_ hm
  · split
    · exact ordered_userBlkNew h.blocks.ordered hpos
        (fun b hb => (h.blocks.each b hb).positive) hbelow
    · exact h.blocks.ordered
  · intro b hb
    split at hb
    · exact (mem_userBlkNew.mp hb).imp_right fun hb => ⟨h.blocks.each b hb, hbelow b hb⟩
    · exact Or.inr ⟨h.blocks.each b hb, hbelow b hb⟩

theorem processOf_ne_none (hcaller : s.machine.tasks caller = some task) :
    s.machine.processOf caller ≠ none := by
  rw [Machine.processOf, hcaller]
  exact Option.some_ne_none _

variable (s caller size task kmalloc walk) in
theorem inv_alloc (h : Inv s) (hcaller : s.machine.tasks caller = some task)
    (after : Machine) (reply : AllocReply)
    (hresult : allocUser s.machine caller task.space size kmalloc walk = (after, reply))
    (hreply : reply ≠ .fault) :
    Inv { machine := after, grants := reply.grants after task size s.grants } := by
  have hallocated := allocUser_allocated s.machine caller task.space size kmalloc walk
  rw [hresult] at hallocated
  cases hallocated with
  | null | full => exact h
  | @reuse _ focus hfind outcome _ _ hmap =>
      obtain ⟨hblocks, hfit⟩ := blocks_findFirst hfind
      rw [Bool.and_eq_true, decide_eq_true_eq] at hfit
      cases outcome with
      | mapped => exact inv_reuse_mapped h hcaller hblocks hfit.1 hfit.2 hmap rfl
      | outOfFrames =>
          exact inv_reuse h hblocks hfit.1 hfit.2 (processOf_ne_none hcaller)
            nofun (fun _ => id) hmap
      | fault => exact absurd rfl hreply
  | @grow _ _ hlimit outcome _ _ hmap =>
      cases outcome with
      | mapped => exact inv_bump_mapped h hcaller hlimit hmap rfl
      | outOfFrames => exact inv_bump h (fun _ => id) hmap
      | fault => exact absurd rfl hreply

theorem inv_alloc_fault (h : Inv s) (hcaller : s.machine.tasks caller = some task)
    {after : Machine}
    (hresult : allocUser s.machine caller task.space size kmalloc walk = (after, .fault)) :
    after.tasks = s.machine.tasks ∧ after.nextId = s.machine.nextId ∧
      InvWith (fun owner => after.Claims owner ∧ owner ≠ caller)
        { machine := after, grants := s.grants } ∧
      ∀ b ∈ after.blocks, b ∈ s.machine.blocks ∨
        ∀ g ∈ s.grants, ¬ Tracks s.machine.processOf b g := by
  have hallocated := allocUser_allocated s.machine caller task.space size kmalloc walk
  rw [hresult] at hallocated
  generalize hreply : AllocReply.fault = reply at hallocated
  cases hallocated with
  | null | full => cases hreply
  | @reuse _ focus hfind outcome _ _ hmap =>
      obtain ⟨hblocks, hfit⟩ := blocks_findFirst hfind
      rw [Bool.and_eq_true, decide_eq_true_eq] at hfit
      cases outcome with
      | mapped | outOfFrames => cases hreply
      | fault =>
          refine ⟨rfl, rfl, inv_reuse h hblocks hfit.1 hfit.2 (processOf_ne_none hcaller)
            (fun _ hclaimed => hclaimed.2 rfl) (fun _ => And.left) hmap, fun b hb => ?_⟩
          have hold : BlocksOk s.machine.processOf s.machine.Claims s.machine.heapCur
              s.grants focus.blocks := hblocks ▸ h.blocks
          obtain ⟨_, heach⟩ := hold.takeBlock (requestPages size) caller kmalloc false hfit.1
            (requestPages_pos size) hfit.2
          rcases heach b hb with rfl | ⟨hmem | hfree, _⟩
          · refine Or.inr fun g hg htracks => ?_
            have hapart := apart_focus h hblocks hfit.1 hfit.2 g hg
            have hpos := requestPages_pos size
            have hbase : focus.blk.base = g.base := htracks.base_eq
            have hpages : requestPages size = g.npages := htracks.npages_eq
            unfold Apart Grant.limit pageSize at hapart
            omega
          · exact Or.inl (hblocks ▸ hmem)
          · refine Or.inr fun g _ htracks => ?_
            rw [htracks.taken] at hfree
            cases hfree
  | @grow _ _ _ outcome _ _ hmap =>
      cases outcome with
      | mapped | outOfFrames => cases hreply
      | fault => exact ⟨rfl, rfl, inv_bump h (fun _ => And.left) hmap, fun b hb => Or.inl hb⟩

end Alloc

/-! ## Freeing -/

theorem nodup_removed {free : List ℕ} {grants : List Grant} {keep : Grant → Bool} (hg : g ∈ grants)
    (hkeep : keep g = false) (hprivate : (free ++ grants.flatMap Grant.frames).Nodup) :
    (free ++ (g.frames ++ (grants.filter keep).flatMap Grant.frames)).Nodup := by
  obtain ⟨before, after, rfl⟩ := List.append_of_mem hg
  have hfilter : (before ++ g :: after).filter keep =
      before.filter keep ++ after.filter keep := by
    rw [List.filter_append, List.filter_cons, hkeep]
    rfl
  have hperm : (g.frames ++ (before ++ after).flatMap Grant.frames).Perm
      ((before ++ g :: after).flatMap Grant.frames) := by
    rw [List.flatMap_append, List.flatMap_append, List.flatMap_cons]
    rw [← List.append_assoc, ← List.append_assoc]
    exact List.perm_append_comm.append_right _
  have hsub : (before.filter keep ++ after.filter keep).Sublist (before ++ after) :=
    List.filter_sublist.append List.filter_sublist
  rw [hfilter]
  refine ((hperm.append_left free).nodup_iff.mpr hprivate).sublist ?_
  exact ((hsub.flatMap _).append_left _).append_left _

section Free

variable {s : Traced} {caller ptr : ℕ} {task : Task}

theorem Ordered.eq_of_base (hordered : Ordered focus.blocks)
    (hpos : ∀ b ∈ focus.blocks, 0 < b.npages) (hb : b ∈ focus.before ∨ b ∈ focus.after) :
    b.base ≠ focus.blk.base := by
  intro hbase
  have hmem : b ∈ focus.before.reverse ++ focus.after := by
    rcases hb with hb | hb
    · exact List.mem_append_left _ (List.mem_reverse.mpr hb)
    · exact List.mem_append_right _ hb
  have hapart := InOrder.apart hordered hmem
  have hbPos := hpos b (mem_blocks.mpr (hb.imp_right Or.inr))
  have hblkPos := hpos focus.blk (mem_blocks.mpr (Or.inr (Or.inl rfl)))
  unfold Apart UserBlk.limit pageSize at hapart
  omega

/-- The grants a call to free ends. -/
abbrev freed (s : Traced) (process ptr : ℕ) : List Grant :=
  s.grants.filter fun g => !decide (g.process = process ∧ g.base = ptr)

theorem inv_free_nothing (h : Inv s) {process : ℕ}
    (hfree : ∀ b ∈ s.machine.blocks, b.base = ptr → b.free = true) :
    Inv { machine := s.machine, grants := freed s process ptr } := by
  refine inv_filter h _ fun b hb g htracks _ => ?_
  have hne : g.base ≠ ptr := by
    intro hbase
    have hbFree := hfree b hb (htracks.base_eq.trans hbase)
    rw [htracks.taken] at hbFree
    cases hbFree
  simp [hne]

theorem inv_free_own (h : Inv s) (hcaller : s.machine.tasks caller = some task)
    (halive : task.alive = true) (hblocks : focus.blocks = s.machine.blocks)
    (hbase : focus.blk.base = ptr) (htaken : focus.blk.free = false)
    (howner : s.machine.processOf focus.blk.owner = some task.process) (hm : m = { s.machine with
      blocks := (userBlkCoalesce { focus with blk := { focus.blk with free := true } }).blocks
      spaces := update s.machine.spaces task.space
        (unmapPages focus.blk.npages (focus.blk.base / pageSize)
          (s.machine.spaces task.space) s.machine.free).1
      free := (unmapPages focus.blk.npages (focus.blk.base / pageSize)
        (s.machine.spaces task.space) s.machine.free).2 }) :
    Inv { machine := m, grants := freed s task.process ptr } := by
  subst hm
  have hids : ∀ id task, s.machine.tasks id = some task → id < s.machine.nextId :=
    fun id task htask => (h.tasks id task htask).id_lt
  have hmem : focus.blk ∈ s.machine.blocks :=
    hblocks ▸ mem_blocks.mpr (Or.inr (Or.inl rfl))
  have hblk := h.blocks.each focus.blk hmem
  have hordered : Ordered focus.blocks := hblocks ▸ h.blocks.ordered
  have hpos : ∀ b ∈ focus.blocks, 0 < b.npages :=
    fun b hb => (h.blocks.each b (hblocks ▸ hb)).positive
  have hsub : (freed s task.process ptr).Sublist s.grants := List.filter_sublist
  have hgone : ∀ g ∈ freed s task.process ptr, ¬ Tracks s.machine.processOf focus.blk g := by
    intro g hg htracks
    have hprocess : task.process = g.process :=
      Option.some.inj (howner.symm.trans htracks.process_eq)
    have hkept := (List.mem_filter.mp hg).2
    simp [hprocess, ← htracks.base_eq, hbase] at hkept
  have hapart : ∀ g ∈ freed s task.process ptr,
      Apart focus.blk.base focus.blk.limit g.base g.limit := by
    intro g hg
    rcases hblk.tracked g (hsub.subset hg) with htracks | hapart
    · exact (hgone g hg htracks).elim
    · exact hapart
  have hclaims : s.machine.Claims focus.blk.owner :=
    ⟨_, howner, (isAlive_iff hids).mpr ⟨caller, task, hcaller, halive, rfl⟩⟩
  obtain ⟨own, hown, htracks⟩ := hblk.owned htaken hclaims
  have hownProcess : task.process = own.process :=
    Option.some.inj (howner.symm.trans htracks.process_eq)
  have hownSpace : task.space = own.space :=
    (h.grants own hown).space_eq caller task hcaller hownProcess
  refine h.update rfl rfl (le_refl _) h.cur_high h.cur_aligned ?_
    (fun g hg => Or.inl (hsub.subset hg)) ?_
  · refine BlocksOk.coalesce (fun g hg => (h.grants g (hsub.subset hg)).positive) ?_ rfl
    refine ⟨hordered.shrink (le_refl _) (le_refl _), ?_⟩
    have hothers : ∀ b, b ∈ focus.before ∨ b ∈ focus.after →
        BlockOk s.machine.processOf s.machine.Claims s.machine.heapCur
          (freed s task.process ptr) b := by
      intro b hb
      have hok := h.blocks.each b (hblocks ▸ mem_blocks.mpr (hb.imp_right Or.inr))
      refine hok.mono (le_refl _) (fun _ _ => id) (fun g hg => hsub.subset hg)
        (fun _ _ => id) ?_
      intro g hg hbTracks _
      refine List.mem_filter.mpr ⟨hg, ?_⟩
      have hne : g.base ≠ ptr := by
        rw [← hbTracks.base_eq, ← hbase]
        exact hordered.eq_of_base hpos hb
      simp [hne]
    intro b hb
    rcases mem_blocks.mp hb with hmem | rfl | hmem
    · exact hothers b (Or.inl hmem)
    · exact ⟨hblk.positive, hblk.aligned, hblk.low, hblk.high, nofun,
        fun g hg => Or.inr (hapart g hg), nofun⟩
    · exact hothers b (Or.inr hmem)
  · refine ⟨h.isolated.apart.sublist hsub, ?_, ?_⟩
    · intro g hg
      refine mapped_update (fun g hg => h.isolated.mapped g (hsub.subset hg))
        (fun q hq => unmapPages_space _ _ _ _ hq) hblk.aligned ?_ hg
      exact fun g hg => ⟨(h.grants g (hsub.subset hg)).aligned, (hapart g hg).symm⟩
    · apply nodup_unmapPages
      have hframes : framesOf (s.machine.spaces task.space) (focus.blk.base / pageSize)
          focus.blk.npages = own.frames := by
        rw [hownSpace, htracks.base_eq, htracks.npages_eq]
        exact h.isolated.mapped own hown
      rw [hframes]
      refine nodup_removed hown ?_ h.isolated.frames_private
      simp [← hownProcess, ← htracks.base_eq, hbase]

theorem inv_free (h : Inv s) (hcaller : s.machine.tasks caller = some task)
    (halive : task.alive = true)
    (hguard : ∀ b ∈ s.machine.blocks, b.base = ptr → b.free = false →
      s.machine.processOf b.owner = some task.process) :
    Inv { machine := freeUser s.machine task.space ptr
          grants := freed s task.process ptr } := by
  unfold freeUser
  split
  · rename_i hrange
    apply inv_free_nothing h
    intro b hb hbase
    have hok := h.blocks.each b hb
    have hpos := hok.positive
    have hhigh := hok.high.trans h.cur_high
    have hlow := hok.low
    unfold UserBlk.limit pageSize at hhigh
    omega
  · split
    · rename_i hnone
      apply inv_free_nothing h
      intro b hb hbase
      have hnot := findBlock_eq_none hnone b hb
      simp [hbase] at hnot
    · rename_i focus hfocus
      obtain ⟨hblocks, hbase⟩ := blocks_findFirst hfocus
      rw [decide_eq_true_eq] at hbase
      have hmem : focus.blk ∈ s.machine.blocks :=
        hblocks ▸ mem_blocks.mpr (Or.inr (Or.inl rfl))
      split
      · rename_i hblkFree
        apply inv_free_nothing h
        intro b hb hbBase
        have hordered : Ordered focus.blocks := hblocks ▸ h.blocks.ordered
        have hpos : ∀ b ∈ focus.blocks, 0 < b.npages :=
          fun b hb => (h.blocks.each b (hblocks ▸ hb)).positive
        have hb' : b ∈ focus.blocks := hblocks ▸ hb
        rcases mem_blocks.mp hb' with hmem | rfl | hmem
        · exact absurd (hbBase.trans hbase.symm) (hordered.eq_of_base hpos (Or.inl hmem))
        · exact hblkFree
        · exact absurd (hbBase.trans hbase.symm) (hordered.eq_of_base hpos (Or.inr hmem))
      · rename_i htaken
        rw [Bool.not_eq_true] at htaken
        exact inv_free_own h hcaller halive hblocks hbase htaken
          (hguard _ hmem hbase htaken) rfl

end Free

/-! ## Runs -/

/-- A block under the id of a task that dies clean is given to nobody who stays. -/
theorem DiesClean.nobody {m after : Machine} {caller : ℕ} {task : Task}
    (hclean : DiesClean m caller task) (hcaller : m.tasks caller = some task)
    (hids : ∀ id task, m.tasks id = some task → id < m.nextId) (htasks : after.tasks = m.tasks)
    (hnextId : after.nextId = m.nextId) (hb : b ∈ m.blocks) (howner : b.owner = caller)
    (halive : (killTasks (userHeapReleaseOwner after caller) fun other _ =>
      decide (other = caller)).isAlive g.process = true) : ¬ Tracks m.processOf b g := by
  intro htracks
  rcases hclean with hlast | hidle
  · have hprocess : g.process = task.process := by
      have hsome := htracks.process_eq
      rw [howner, Machine.processOf, hcaller] at hsome
      exact (Option.some.inj hsome).symm
    have hreleased : (userHeapReleaseOwner after caller).tasks = m.tasks ∧
        (userHeapReleaseOwner after caller).nextId = m.nextId := by
      unfold userHeapReleaseOwner
      split
      · exact ⟨htasks, hnextId⟩
      · exact ⟨htasks, hnextId⟩
    refine isAlive_killTasks ?_ ?_ halive
    · rw [hreleased.1, hreleased.2]
      exact hids
    · rw [hreleased.1]
      intro id other hother hotherAlive hsame
      exact decide_eq_true (hlast id other hother hotherAlive (hsame.trans hprocess))
  · exact hidle b hb htracks.taken howner

theorem inv_action {s : Traced} {caller : ℕ} {task : Task} {action : Action} (h : Inv s)
    (hcaller : s.machine.tasks caller = some task) (halive : task.alive = true)
    (hguard : action.KeepsOwners s.machine caller task) :
    Inv { machine := action.run s.machine caller task
          grants := (action.grants s.machine caller task s.grants).filter fun g =>
            (action.run s.machine caller task).isAlive g.process } := by
  have hids : ∀ id task, s.machine.tasks id = some task → id < s.machine.nextId :=
    fun id task htask => (h.tasks id task htask).id_lt
  have hok := h.tasks caller task hcaller
  cases action with
  | createUserThread taken =>
      exact inv_addTask h (List.drop_suffix _ _) (fun _ _ => rfl) hok.space_lt.le
        (Or.inr ⟨caller, task, hcaller, halive, rfl, rfl⟩)
  | fork taken copies =>
      refine inv_addTask h (List.drop_suffix _ _) ?_ (le_refl _) (Or.inl rfl)
      intro space hspace
      exact update_of_ne hspace.ne _ _
  | alloc size kmalloc walk =>
      cases hresult : allocUser s.machine caller task.space size kmalloc walk with
      | mk after reply =>
          by_cases hreply : reply = .fault
          · subst hreply
            obtain ⟨htasks, hnextId, hafter, hblocks⟩ := inv_alloc_fault h hcaller hresult
            have hclean : DiesClean s.machine caller task := hguard (by rw [hresult])
            have hprocessOf : after.processOf = s.machine.processOf := by
              funext id
              rw [Machine.processOf, htasks]
              rfl
            have hrun : Action.run s.machine caller task (.alloc size kmalloc walk) =
                exitTask after caller := by
              rw [Action.run, hresult]
            have hgrants : Action.grants s.machine caller task s.grants
                (.alloc size kmalloc walk) = s.grants := by
              rw [Action.grants, hresult]
              rfl
            rw [hrun, hgrants]
            refine inv_releaseOwner (s := { machine := after, grants := s.grants }) hafter
              hok.id_pos ?_
            intro b hb howner g hg hgAlive
            dsimp only
            rw [hprocessOf]
            rcases hblocks b hb with hold | hnobody
            · exact hclean.nobody hcaller hids htasks hnextId hold howner hgAlive
            · exact hnobody g hg
          · have hafter := inv_alloc _ _ _ _ _ _ h hcaller _ _ hresult hreply
            have hrun : Action.run s.machine caller task (.alloc size kmalloc walk) =
                after := by
              rw [Action.run, hresult]
              split
              · rename_i heq
                cases heq
                exact absurd rfl hreply
              · rename_i heq
                exact (congrArg Prod.fst heq).symm
            have hgrants : Action.grants s.machine caller task s.grants
                (.alloc size kmalloc walk) = reply.grants after task size s.grants := by
              rw [Action.grants, hresult]
            rw [hrun, hgrants]
            exact hafter.filter
  | free ptr => exact (inv_free h hcaller halive hguard).filter
  | exit =>
      refine inv_releaseOwner (h.except fun owner => owner ≠ caller) hok.id_pos ?_
      intro b _ howner g _ hgAlive htracks
      have hprocess : g.process = task.process := by
        have hsome := htracks.process_eq
        rw [howner, Machine.processOf, hcaller] at hsome
        exact (Option.some.inj hsome).symm
      rw [userHeapReleaseOwner, if_neg (Nat.pos_iff_ne_zero.mp hok.id_pos)] at hgAlive
      refine isAlive_killTasks ?_ ?_ hgAlive
      · exact hids
      · intro id other _ _ hsame
        exact decide_eq_true (hsame.trans hprocess)
  | threadExit => exact inv_threadExit h _
  | fault =>
      refine inv_releaseOwner (h.except fun owner => owner ≠ caller) hok.id_pos ?_
      intro b hb howner g _ hgAlive
      exact DiesClean.nobody hguard hcaller hids rfl rfl hb howner hgAlive

theorem next_act {s : Traced} {caller : ℕ} {task : Task} (action : Action)
    (hcaller : s.machine.tasks caller = some task) (halive : task.alive = true) :
    s.next (.act caller action) =
      { machine := action.run s.machine caller task
        grants := (action.grants s.machine caller task s.grants).filter fun g =>
          (action.run s.machine caller task).isAlive g.process } := by
  simp only [Traced.next, HeapEvent.run, HeapEvent.grants, hcaller, halive, if_pos]

theorem next_act_idle {s : Traced} {caller : ℕ} (action : Action)
    (hcaller : ∀ task, s.machine.tasks caller = some task → task.alive = false) :
    s.next (.act caller action) =
      { s with grants := s.grants.filter fun g => s.machine.isAlive g.process } := by
  cases htask : s.machine.tasks caller with
  | none => simp only [Traced.next, HeapEvent.run, HeapEvent.grants, htask]
  | some task =>
      simp [Traced.next, HeapEvent.run, HeapEvent.grants, htask, hcaller task htask]

theorem inv_step (s : Traced) (event : HeapEvent) (next : Traced) (h : Inv s)
    (hguard : KeepsOwners s.machine event) (hstep : HeapStep s event next) : Inv next := by
  rw [hstep]
  cases event with
  | spawn taken =>
      refine inv_addTask h (List.drop_suffix _ _) ?_ (le_refl _) (Or.inl rfl)
      intro space hspace
      exact update_of_ne hspace.ne _ _
  | createUserProcess =>
      exact inv_addTask h List.suffix_rfl (fun _ _ => rfl) (Nat.zero_le _) (Or.inl rfl)
  | act caller action =>
      by_cases hidle : ∀ task, s.machine.tasks caller = some task → task.alive = false
      · rw [next_act_idle action hidle]
        exact h.filter
      · push Not at hidle
        obtain ⟨task, hcaller, halive⟩ := hidle
        have hrunning : task.alive = true := by simpa using halive
        rw [next_act action hcaller hrunning]
        exact inv_action h hcaller hrunning (hguard task hcaller hrunning)

/-- The machine after `pmm_init`, with nothing given out. -/
def bootTraced (free : List ℕ) : Traced where
  machine := boot free
  grants := []

theorem inv_boot {free : List ℕ} (hfree : free.Nodup) : Inv (bootTraced free) where
  cur_low := le_refl _
  cur_high := Nat.le_add_right _ _
  cur_aligned := (by decide : userHeapBase % pageSize = 0)
  nextId_pos := Nat.one_pos
  blocks := ⟨List.Pairwise.nil, nofun⟩
  grants := nofun
  tasks := nofun
  isolated := ⟨List.Pairwise.nil, nofun, by
    rw [bootTraced, List.flatMap_nil, List.append_nil]
    exact hfree⟩

/-- A free that names a block given to another process changes nothing. -/
def ForeignFreeHarmless (s : Traced) (event : HeapEvent) (next : Traced) : Prop :=
  ∀ caller ptr task, event = .act caller (.free ptr) → s.machine.tasks caller = some task →
    (∃ g ∈ s.grants, g.base = ptr ∧ g.process ≠ task.process) → next.machine = s.machine

theorem foreignFreeHarmless_step (s : Traced) (event : HeapEvent) (next : Traced)
    (h : Inv s) (hguard : KeepsOwners s.machine event) (hstep : HeapStep s event next) :
    ForeignFreeHarmless s event next := by
  rintro caller ptr task rfl hcaller ⟨g, hg, hbase, hforeign⟩
  rw [hstep]
  cases halive : task.alive with
  | false =>
      rw [next_act_idle]
      intro other hother
      rw [Option.some.inj (hother.symm.trans hcaller)]
      exact halive
  | true =>
      rw [next_act _ hcaller halive]
      have hown := hguard task hcaller halive
      unfold Action.run freeUser
      dsimp only
      split
      · rfl
      · split
        · rfl
        · rename_i focus hfocus
          obtain ⟨hblocks, hfound⟩ := blocks_findFirst hfocus
          rw [decide_eq_true_eq] at hfound
          have hmem : focus.blk ∈ s.machine.blocks :=
            hblocks ▸ mem_blocks.mpr (Or.inr (Or.inl rfl))
          have hok := h.blocks.each _ hmem
          split
          · rfl
          · rename_i htaken
            rw [Bool.not_eq_true] at htaken
            have howner := hown focus.blk hmem hfound htaken
            rcases hok.tracked g hg with htracks | hapart
            · exact absurd (Option.some.inj (htracks.process_eq.symm.trans howner)) hforeign
            · have hblkPos := hok.positive
              have hgPos := (h.grants g hg).positive
              unfold Apart UserBlk.limit Grant.limit pageSize at hapart
              omega

/-- In every run from boot whose steps all meet the condition, what is given out stays
isolated, and a free by another process than the block's changes nothing. -/
theorem isolated_always {free : List ℕ} {run : List (HeapEvent × Traced)}
    (hfree : free.Nodup) (hrun : Along HeapStep (bootTraced free) run)
    (hguard : Along (fun s event _ => KeepsOwners s.machine event) (bootTraced free) run) :
    Always Isolated (bootTraced free) run ∧
      Along ForeignFreeHarmless (bootTraced free) run := by
  constructor
  · have hinv := always_of_guarded Inv inv_step (inv_boot hfree) hrun hguard
    exact hinv.mono fun _ h => h.isolated
  · exact along_of_guarded Inv
      (fun s event next h hg hs =>
        ⟨inv_step s event next h hg hs, foreignFreeHarmless_step s event next h hg hs⟩)
      (inv_boot hfree) hrun hguard

/-- The events of a run, each with the state it leaves. -/
def runEvents : Traced → List HeapEvent → List (HeapEvent × Traced)
  | _, [] => []
  | s, event :: rest => (event, s.next event) :: runEvents (s.next event) rest

theorem along_runEvents (s : Traced) (events : List HeapEvent) :
    Along HeapStep s (runEvents s events) := by
  induction events generalizing s with
  | nil => trivial
  | cons event rest ih => exact ⟨rfl, ih _⟩

def sixFrames : List ℕ := [1, 2, 3, 4, 5, 6]

/-- A mapping that needs no page table. -/
def plainWalk : Walk := fun _ => (0, true)

def oneByte : Action := .alloc 1 true plainWalk

/-- A process has a block and forks; each allocates again, and both free their own. -/
def ownFrees : List HeapEvent :=
  [.spawn 0, .act 1 oneByte, .act 1 (.fork 1 fun _ => 0), .act 2 oneByte,
    .act 1 (.free userHeapBase), .act 2 (.free (userHeapBase + pageSize))]

theorem keepsOwners_act {caller : ℕ} {task : Task} {action : Action}
    (hcaller : m.tasks caller = some task) (haction : action.KeepsOwners m caller task) :
    KeepsOwners m (.act caller action) := by
  intro other hother _
  rw [Option.some.inj (hother.symm.trans hcaller)]
  exact haction

theorem ownFrees_isolated :
    Always Isolated (bootTraced sixFrames) (runEvents (bootTraced sixFrames) ownFrees) ∧
      Along ForeignFreeHarmless (bootTraced sixFrames)
        (runEvents (bootTraced sixFrames) ownFrees) := by
  refine isolated_always (by decide) (along_runEvents _ _) ⟨trivial, ?_, ?_, ?_, ?_, ?_, trivial⟩
  · exact keepsOwners_act rfl fun hfault => absurd hfault (by decide)
  · exact keepsOwners_act rfl trivial
  · exact keepsOwners_act rfl fun hfault => absurd hfault (by decide)
  · refine keepsOwners_act rfl ?_
    unfold Action.KeepsOwners
    decide
  · refine keepsOwners_act rfl ?_
    unfold Action.KeepsOwners
    decide

/-- The child frees the block it knows from its parent, and the parent allocates again. -/
def childFrees : List HeapEvent :=
  [.spawn 0, .act 1 oneByte, .act 1 (.fork 1 fun _ => 0), .act 2 (.free userHeapBase),
    .act 1 oneByte]

theorem childFrees_not_isolated :
    ¬ Always Isolated (bootTraced sixFrames)
      (runEvents (bootTraced sixFrames) childFrees) := by
  intro h
  have hapart := h.final.apart
  unfold Apart at hapart
  revert hapart
  decide

end EigenOS.Memory
