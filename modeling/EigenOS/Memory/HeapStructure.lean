import EigenOS.Library.Tiling
import EigenOS.Memory.HeapIsolation

/-!
# The block list of the user heap

The blocks are to be sorted, to cover what the heap has grown to, and no two free ones are to be
neighbours.  Freeing keeps this.  An allocation keeps it unless it loses the rest of a block or the
descriptor of a new one, or leaves the rest beside the block it could not map.
-/

namespace EigenOS.Memory

open EigenOS.Ranges EigenOS.Transition

/-- A call that works on the block list, or what other code does with pages and frames. -/
inductive HeapCall where
  | alloc (task space size : ℕ) (kmalloc : Bool) (walk : Walk)
  | free (space ptr : ℕ)
  | releaseOwner (owner : ℕ)
  | elsewhere (spaces : ℕ → AddressSpace) (frames : List ℕ)

def HeapCall.run (m : Machine) : HeapCall → Machine
  | .alloc task space size kmalloc walk => (allocUser m task space size kmalloc walk).1
  | .free space ptr => freeUser m space ptr
  | .releaseOwner owner => userHeapReleaseOwner m owner
  | .elsewhere spaces frames => { m with spaces, free := frames }

def UserBlk.Free (b : UserBlk) : Prop := b.free = true

/-- The list is sorted by address, the blocks are disjoint and cover what lies below the high-water
mark, and no two neighbours are free. -/
structure WellStructured (m : Machine) : Prop where
  sorted : m.blocks.Pairwise fun left right => left.base < right.base
  disjoint : m.blocks.Pairwise fun left right =>
    Apart left.base left.limit right.base right.limit
  covers : Covers UserBlk.base UserBlk.limit userHeapBase m.heapCur m.blocks
  coalesced : Separated UserBlk.Free m.blocks

/-- An allocation that splits a block gets a descriptor for the rest and frames for its pages, and
one that grows the heap gets a descriptor. -/
def KeepsBlocks (m : Machine) : HeapCall → Prop
  | .alloc _ space size kmalloc walk =>
    size ≠ 0 →
      match findBlock (fun b => b.free && decide (requestPages size ≤ b.npages)) [] m.blocks with
      | some focus =>
        requestPages size < focus.blk.npages → kmalloc = true ∧
          (userMapPages walk (requestPages size) (focus.blk.base / pageSize) (m.spaces space)
            m.free).1 ≠ .outOfFrames
      | none =>
        (m.heapCur + requestPages size * pageSize) % 2 ^ 64 ≤ userHeapLimit →
          (userMapPages walk (requestPages size) (m.heapCur / pageSize) (m.spaces space)
            m.free).1 = .mapped → kmalloc = true
  | .free _ _ | .releaseOwner _ | .elsewhere _ _ => True

/-! ## The shape of the list -/

structure HeapShape (cur : ℕ) (blocks : List UserBlk) : Prop where
  tiles : Tiles UserBlk.base UserBlk.limit userHeapBase cur blocks
  separated : Separated UserBlk.Free blocks

/-- Where a block of the heap lies. -/
structure Placed (cur : ℕ) (b : UserBlk) : Prop where
  positive : 0 < b.npages
  low : userHeapBase ≤ b.base
  high : b.limit ≤ cur
  aligned : b.base % pageSize = 0

/-- The blocks lie between the start of the heap and its mark, in whole pages. -/
structure Sized (m : Machine) : Prop where
  placed : ∀ b ∈ m.blocks, Placed m.heapCur b
  grown : userHeapBase ≤ m.heapCur
  high : m.heapCur ≤ userHeapLimit
  aligned : m.heapCur % pageSize = 0

theorem base_lt_limit {b : UserBlk} : b.base < b.limit ↔ 0 < b.npages := by
  unfold UserBlk.limit pageSize
  omega

variable {m : Machine} {npages : ℕ}

theorem wellStructured_iff (hsized : Sized m) :
    WellStructured m ↔ HeapShape m.heapCur m.blocks := by
  have hpos : ∀ b ∈ m.blocks, b.base < b.limit :=
    fun b hb => base_lt_limit.mpr (hsized.placed b hb).positive
  constructor
  · intro h
    refine ⟨tiles_of_covers ?_ hpos hsized.grown h.covers, h.coalesced⟩
    refine (h.sorted.and h.disjoint).imp_of_mem ?_
    rintro left right - hright ⟨hlt, hapart⟩
    refine hapart.resolve_right fun hbelow => ?_
    have hempty := hpos right hright
    omega
  · intro h
    have horder := h.tiles.inOrder
    refine ⟨horder.imp_of_mem ?_, horder.imp fun hle => .inl hle, h.tiles.covers, h.separated⟩
    intro left right hleft _ hle
    exact Nat.lt_of_lt_of_le (hpos left hleft) hle

/-- A descriptor is linked in between the blocks below its address and the others. -/
theorem userBlkNew_append {before after : List UserBlk} {b : UserBlk}
    (hbefore : ∀ other ∈ before, other.base < b.base)
    (hafter : ∀ other ∈ after.head?, b.base ≤ other.base) :
    userBlkNew (before ++ after) b = before ++ b :: after := by
  induction before with
  | nil =>
    cases after with
    | nil => rfl
    | cons cur rest =>
      rw [List.nil_append, userBlkNew, if_neg (Nat.not_lt.mpr (hafter cur rfl))]
      rfl
  | cons cur rest ih =>
    rw [List.cons_append, userBlkNew, if_pos (hbefore cur List.mem_cons_self),
      ih fun other hmem => hbefore other (List.mem_cons_of_mem _ hmem)]
    rfl

section Focus

variable {cur : ℕ} {before after : List UserBlk} {blk : UserBlk}

theorem HeapShape.below (h : HeapShape cur (before ++ blk :: after)) :
    (∀ other ∈ before, other.limit ≤ blk.base) ∧ ∀ other ∈ after.head?, other.base = blk.limit := by
  refine ⟨fun other hother => ?_, fun other hother => ?_⟩
  · have horder := (inOrder_append_cons.mp h.tiles.inOrder).2.2.1
    exact horder other hother
  · obtain ⟨mid, -, -, -, hafter⟩ := tiles_append.mp h.tiles
    cases after with
    | nil => exact nomatch hother
    | cons next rest =>
      rw [List.head?_cons, Option.mem_some_iff] at hother
      exact hother ▸ hafter.1

theorem HeapShape.take (h : HeapShape cur (before ++ blk :: after)) (hfree : blk.free = true)
    (owner : ℕ) (free : Bool) :
    HeapShape cur (before ++ { blk with free := free, owner := owner } :: after) where
  tiles := h.tiles.replace [blk] [{ blk with free := free, owner := owner }] fun _ _ hmid => hmid
  separated := h.separated.replace fun _ => hfree

theorem HeapShape.split_list (h : HeapShape cur (before ++ blk :: after)) (hpos : 0 < npages)
    (hlt : npages < blk.npages) (owner : ℕ) (free : Bool) :
    userBlkNew (before ++ { blk with npages := npages, free := free, owner := owner } :: after)
        { base := blk.base + npages * pageSize, npages := blk.npages - npages, free := true
          owner := 0 } =
      before ++ { blk with npages := npages, free := free, owner := owner } ::
        { base := blk.base + npages * pageSize, npages := blk.npages - npages, free := true
          owner := 0 } :: after := by
  obtain ⟨hbefore, hafter⟩ := h.below
  have hcut : ({ blk with npages := npages, free := free, owner := owner } : UserBlk).base <
      blk.base + npages * pageSize := by
    unfold pageSize
    dsimp only
    omega
  rw [List.append_cons, userBlkNew_append]
  · rw [List.append_assoc]
    rfl
  · intro other hother
    rcases List.mem_append.mp hother with hmem | hmem
    · have hlimit := hbefore other hmem
      have hsome := (h.tiles.bounds (List.mem_append_left _ hmem)).2.1
      change other.base < blk.base + npages * pageSize
      omega
    · rw [List.mem_singleton.mp hmem]
      exact hcut
  · intro other hother
    rw [hafter other hother]
    unfold UserBlk.limit pageSize
    dsimp only
    omega

/-- With the rest behind it, a block that is cut is covered as before; the two must not both be
free. -/
theorem HeapShape.split_iff (h : HeapShape cur (before ++ blk :: after)) (hfree : blk.free = true)
    (hpos : 0 < npages) (hlt : npages < blk.npages) (owner : ℕ) (free : Bool) :
    HeapShape cur (before ++ { blk with npages := npages, free := free, owner := owner } ::
        { base := blk.base + npages * pageSize, npages := blk.npages - npages, free := true
          owner := 0 } :: after) ↔ free = false := by
  constructor
  · intro hshape
    obtain ⟨-, -, hright, -⟩ := separated_middle.mp hshape.separated
    rw [Bool.eq_false_iff]
    exact fun heq => hright _ rfl ⟨heq, rfl⟩
  · rintro rfl
    refine ⟨?_, ?_⟩
    · refine h.tiles.replace [blk] [_, _] fun first last hmid => ?_
      obtain ⟨hfirst, -, hlast⟩ := hmid
      have hlast : blk.base + blk.npages * pageSize = last := hlast
      refine ⟨hfirst, base_lt_limit.mpr hpos, rfl, base_lt_limit.mpr (Nat.sub_pos_of_lt hlt), ?_⟩
      change blk.base + npages * pageSize + (blk.npages - npages) * pageSize = last
      rw [Nat.add_assoc, ← Nat.add_mul, Nat.add_sub_cancel' (Nat.le_of_lt hlt), hlast]
    · have hold := separated_middle.mp h.separated
      refine separated_middle.mpr ⟨hold.1, fun _ _ hboth => (nomatch hboth.2), ?_, ?_⟩
      · exact fun _ _ hboth => nomatch hboth.1
      · refine List.isChain_cons.mpr ⟨fun right hmem hboth => ?_, hold.2.2.2⟩
        exact hold.2.2.1 right hmem ⟨hfree, hboth.2⟩

theorem HeapShape.not_cut (h : HeapShape cur (before ++ blk :: after)) (hlt : npages < blk.npages)
    (owner : ℕ) (free : Bool) :
    ¬ HeapShape cur
      (before ++ { blk with npages := npages, free := free, owner := owner } :: after) := by
  intro hshape
  obtain ⟨mid, hbefore, -, -, hafter⟩ := tiles_append.mp h.tiles
  obtain ⟨mid', hbefore', -, -, hafter'⟩ := tiles_append.mp hshape.tiles
  have heq := hafter.start_unique hafter'
  unfold UserBlk.limit pageSize at heq
  dsimp only at heq
  omega

end Focus

/-! ## Coalescing -/

section Coalesce

variable {cur : ℕ} {focus : Focus}

/-- Two blocks that follow each other touch, and can be joined. -/
theorem tiles_join {before after : List UserBlk} {left right : UserBlk}
    (htiles : Tiles UserBlk.base UserBlk.limit userHeapBase cur
      (before ++ ([left, right] ++ after))) :
    left.limit = right.base ∧
      Tiles UserBlk.base UserBlk.limit userHeapBase cur
        (before ++ ([{ left with npages := left.npages + right.npages }] ++ after)) := by
  obtain ⟨mid, -, -, -, htouch, -⟩ := tiles_append.mp htiles
  refine ⟨htouch.symm, htiles.replace [left, right] [_] fun first last hmid => ?_⟩
  obtain ⟨hfirst, hpos, -, -, hlast⟩ := hmid
  have hlast : right.base + right.npages * pageSize = last := hlast
  refine ⟨hfirst, base_lt_limit.mpr ?_, ?_⟩
  · exact Nat.add_pos_left (base_lt_limit.mp hpos) _
  · change left.base + (left.npages + right.npages) * pageSize = last
    rw [Nat.add_mul, ← Nat.add_assoc, ← hlast, htouch]
    rfl

theorem coalescePrev_spec (hfree : focus.blk.free = true)
    (htiles : Tiles UserBlk.base UserBlk.limit userHeapBase cur focus.blocks)
    (hbefore : Separated UserBlk.Free focus.before.reverse) :
    Tiles UserBlk.base UserBlk.limit userHeapBase cur (coalescePrev focus).blocks ∧
      Separated UserBlk.Free (coalescePrev focus).before.reverse ∧
      (∀ left ∈ (coalescePrev focus).before.reverse.getLast?, ¬ left.Free) ∧
      (coalescePrev focus).blk.free = true ∧ (coalescePrev focus).after = focus.after := by
  rw [coalescePrev]
  cases hlist : focus.before with
  | nil =>
    dsimp only
    rw [hlist] at hbefore ⊢
    exact ⟨htiles, hbefore, nofun, hfree, rfl⟩
  | cons p before =>
    have hblocks : focus.blocks = before.reverse ++ ([p, focus.blk] ++ focus.after) := by
      rw [Focus.blocks, hlist, List.reverse_cons, List.append_assoc]
      rfl
    obtain ⟨htouch, hjoined⟩ := tiles_join (hblocks ▸ htiles)
    rw [hlist, List.reverse_cons] at hbefore
    dsimp only
    by_cases hp : p.free = true
    · rw [if_pos ⟨hp, htouch⟩]
      obtain ⟨hbefore, hlast, -, -⟩ := separated_middle.mp hbefore
      exact ⟨hjoined, hbefore, fun left hmem hleft => hlast left hmem ⟨hleft, hp⟩, hp, rfl⟩
    · rw [if_neg fun hboth => hp hboth.1]
      refine ⟨htiles, ?_, ?_, hfree, rfl⟩
      · rw [hlist, List.reverse_cons]
        exact hbefore
      · intro left hmem
        rw [hlist, List.reverse_cons, List.getLast?_concat, Option.mem_some_iff] at hmem
        exact hmem ▸ hp

theorem coalesceNext_spec
    (htiles : Tiles UserBlk.base UserBlk.limit userHeapBase cur focus.blocks)
    (hafter : Separated UserBlk.Free focus.after) :
    Tiles UserBlk.base UserBlk.limit userHeapBase cur (coalesceNext focus).blocks ∧
      Separated UserBlk.Free (coalesceNext focus).after ∧
      (∀ right ∈ (coalesceNext focus).after.head?, ¬ right.Free) ∧
      (coalesceNext focus).before = focus.before := by
  rw [coalesceNext]
  cases hlist : focus.after with
  | nil =>
    dsimp only
    rw [hlist] at hafter ⊢
    exact ⟨htiles, hafter, nofun, rfl⟩
  | cons n after =>
    have hblocks : focus.blocks = focus.before.reverse ++ ([focus.blk, n] ++ after) := by
      rw [Focus.blocks, hlist]
      rfl
    obtain ⟨htouch, hjoined⟩ := tiles_join (hblocks ▸ htiles)
    rw [hlist] at hafter
    dsimp only
    by_cases hn : n.free = true
    · rw [if_pos ⟨hn, htouch⟩]
      obtain ⟨hhead, hafter⟩ := List.isChain_cons.mp hafter
      exact ⟨hjoined, hafter, fun right hmem hright => hhead right hmem ⟨hn, hright⟩, rfl⟩
    · rw [if_neg fun hboth => hn hboth.1]
      refine ⟨htiles, ?_, ?_, rfl⟩
      · rw [hlist]
        exact hafter
      · intro right hmem
        rw [hlist, List.head?_cons, Option.mem_some_iff] at hmem
        exact hmem ▸ hn

theorem HeapShape.coalesce {before after : List UserBlk} {b : UserBlk}
    (h : HeapShape cur (before.reverse ++ b :: after)) (owner : ℕ) :
    HeapShape cur
      (userBlkCoalesce ⟨before, { b with free := true, owner := owner }, after⟩).blocks := by
  obtain ⟨hbefore, -, -, hafter⟩ := separated_middle.mp h.separated
  have htiles : Tiles UserBlk.base UserBlk.limit userHeapBase cur
      (Focus.mk before { b with free := true, owner := owner } after).blocks :=
    h.tiles.replace [b] [{ b with free := true, owner := owner }] fun _ _ hmid => hmid
  obtain ⟨hprev, hseparated, hlast, -, hsame⟩ := coalescePrev_spec rfl htiles hbefore
  obtain ⟨hnext, hrest, hhead, hbefore'⟩ := coalesceNext_spec hprev (hsame.symm ▸ hafter)
  refine ⟨hnext, separated_middle.mpr ⟨?_, ?_, ?_, hrest⟩⟩
  · rw [userBlkCoalesce, hbefore']
    exact hseparated
  · rw [userBlkCoalesce, hbefore']
    exact fun left hmem hboth => hlast left hmem hboth.1
  · exact fun right hmem hboth => hhead right hmem hboth.2

theorem HeapShape.releaseFrom {owner : ℕ} {before after : List UserBlk}
    (h : HeapShape cur (before.reverse ++ after)) :
    HeapShape cur (releaseFrom owner before after) := by
  induction before, after using releaseFrom.induct owner with
  | case1 before =>
    rw [Memory.releaseFrom]
    rwa [List.append_nil] at h
  | case2 before b after hmine focus ih =>
    rw [Memory.releaseFrom, if_pos hmine]
    apply ih
    rw [List.reverse_cons, List.append_assoc]
    exact h.coalesce 0
  | case3 before b after hother ih =>
    rw [Memory.releaseFrom, if_neg hother]
    apply ih
    rw [List.reverse_cons, List.append_assoc]
    exact h

end Coalesce

/-! ## Sizes -/

section Placed

variable {cur : ℕ} {focus : Focus}

theorem placed_joins {blocks joined : List UserBlk} (hplaced : ∀ b ∈ blocks, Placed cur b)
    (hjoin : BlkJoins blocks joined) : ∀ b ∈ joined, Placed cur b :=
  forall_mem_of_joins (fun _ _ _ _ _ hunion hleft hright _ hlo hhi => ⟨hunion.2,
    hleft.low.trans_eq hlo.symm, hhi.trans_le hright.high, hlo ▸ hleft.aligned⟩) hplaced hjoin

theorem forall_replace {P : UserBlk → Prop} (hall : ∀ b ∈ focus.blocks, P b) {blk : UserBlk}
    (hblk : P focus.blk → P blk) : ∀ b ∈ ({ focus with blk := blk } : Focus).blocks, P b := by
  intro b hb
  rcases mem_blocks.mp hb with hmem | rfl | hmem
  · exact hall b (mem_blocks.mpr (.inl hmem))
  · exact hblk (hall _ (mem_blocks.mpr (.inr (.inl rfl))))
  · exact hall b (mem_blocks.mpr (.inr (.inr hmem)))

theorem placed_freed (hplaced : ∀ b ∈ focus.blocks, Placed cur b) (owner : ℕ) :
    ∀ b ∈ ({ focus with blk := { focus.blk with free := true, owner := owner } } : Focus).blocks,
      Placed cur b :=
  forall_replace hplaced fun h => ⟨h.positive, h.low, h.high, h.aligned⟩

theorem placed_takeBlock (hplaced : ∀ b ∈ focus.blocks, Placed cur b) (hnpages : 0 < npages)
    (hle : npages ≤ focus.blk.npages) (owner : ℕ) (kmalloc free : Bool) :
    ∀ b ∈ takeBlock focus npages owner kmalloc free, Placed cur b := by
  obtain ⟨_, hlow, hhigh, haligned⟩ := hplaced _ (mem_blocks.mpr (.inr (.inl rfl)))
  have hcut : ∀ b ∈ ({ focus with
      blk := { focus.blk with npages := npages, free := free, owner := owner } } : Focus).blocks,
      Placed cur b := by
    refine forall_replace hplaced fun _ => ⟨hnpages, hlow, le_trans ?_ hhigh, haligned⟩
    exact Nat.add_le_add_left (Nat.mul_le_mul_right _ hle) _
  rw [takeBlock]
  dsimp only
  split_ifs with hsplit
  · intro b hb
    rcases mem_userBlkNew.mp hb with rfl | hmem
    · refine ⟨Nat.sub_pos_of_lt hsplit.1, Nat.le_add_right_of_le hlow, le_of_eq_of_le ?_ hhigh,
        (Nat.add_mul_mod_self_right _ _ _).trans haligned⟩
      change focus.blk.base + npages * pageSize + (focus.blk.npages - npages) * pageSize =
        focus.blk.base + focus.blk.npages * pageSize
      rw [Nat.add_assoc, ← Nat.add_mul, Nat.add_sub_cancel' hle]
    · exact hcut b hmem
  · exact hcut

end Placed

theorem userMapPages_canonical {walk : Walk} {npages page : ℕ} {space : AddressSpace}
    {free : List ℕ} (hmapped : (userMapPages walk npages page space free).1 = .mapped) :
    npages = 0 ∨ page + npages ≤ canonicalPages := by
  induction npages generalizing page space free with
  | zero => exact .inl rfl
  | succ npages ih =>
    rw [userMapPages] at hmapped
    split_ifs at hmapped with hframe hwalk
    rcases ih hmapped with rfl | hrange
    · exact .inr hwalk.2
    · exact .inr (by omega)

theorem heapCur_add {walk : Walk} {npages cur : ℕ} {space : AddressSpace} {free : List ℕ}
    (hpos : 0 < npages)
    (hmapped : (userMapPages walk npages (cur / pageSize) space free).1 = .mapped) :
    (cur + npages * pageSize) % 2 ^ 64 = cur + npages * pageSize := by
  have hrange := (userMapPages_canonical hmapped).resolve_left (Nat.ne_of_gt hpos)
  apply Nat.mod_eq_of_lt
  unfold canonicalPages pageSize at *
  omega

/-! ## What an allocation does -/

/-- The three ways an allocation treats the list, each with when it keeps the blocks. -/
inductive Allocates (m : Machine) (task npages : ℕ) (kmalloc : Bool) (keeps : Prop)
    (next : Machine) : Prop where
  | nothing (hblocks : next.blocks = m.blocks) (hcur : next.heapCur = m.heapCur) (hkeeps : keeps)
  | reuse (focus : Focus) (free : Bool) (hfocus : focus.blocks = m.blocks)
      (hfree : focus.blk.free = true) (hle : npages ≤ focus.blk.npages)
      (hblocks : next.blocks = takeBlock focus npages task kmalloc free)
      (hcur : next.heapCur = m.heapCur)
      (hkeeps : keeps ↔ (npages < focus.blk.npages → kmalloc = true ∧ free = false))
  | grow (hblocks : next.blocks =
        if kmalloc then userBlkNew m.blocks ⟨m.heapCur, npages, false, task⟩ else m.blocks)
      (hcur : next.heapCur = m.heapCur + npages * pageSize)
      (hhigh : next.heapCur ≤ userHeapLimit) (hkeeps : keeps ↔ kmalloc = true)

theorem allocUser_cases (m : Machine) (task space size : ℕ) (kmalloc : Bool) (walk : Walk) :
    Allocates m task (requestPages size) kmalloc
      (KeepsBlocks m (.alloc task space size kmalloc walk))
      (allocUser m task space size kmalloc walk).1 := by
  have hallocated := allocUser_allocated m task space size kmalloc walk
  generalize allocUser m task space size kmalloc walk = result at hallocated ⊢
  rw [KeepsBlocks]
  cases hallocated with
  | null hsize => exact .nothing rfl rfl fun hne => absurd hsize hne
  | full _ hfind hlimit =>
    refine .nothing rfl rfl fun _ => ?_
    rw [hfind]
    exact fun hle => absurd hlimit (Nat.not_lt.mpr hle)
  | @reuse hsize focus hfind outcome _ _ hmap =>
    obtain ⟨hfocus, hfit⟩ := blocks_findFirst hfind
    obtain ⟨hfree, hle⟩ := Bool.and_eq_true_iff.mp hfit
    refine .reuse focus _ hfocus hfree (of_decide_eq_true hle) rfl rfl ?_
    rw [hfind, decide_eq_false_iff_not]
    dsimp only
    rw [hmap]
    exact ⟨fun h => h hsize, fun h _ => h⟩
  | @grow hsize hfind hlimit outcome _ _ hmap =>
    rw [hfind]
    dsimp only
    rw [hmap]
    cases outcome with
    | mapped =>
      refine .grow rfl (heapCur_add (requestPages_pos size) (congrArg Prod.fst hmap))
        (Nat.not_lt.mp hlimit) ?_
      exact ⟨fun h => h hsize (Nat.not_lt.mp hlimit) rfl, fun h _ _ _ => h⟩
    | outOfFrames | fault => exact .nothing rfl rfl fun _ _ => nofun

theorem Sized.allocUser (h : Sized m) (task space size : ℕ) (kmalloc : Bool) (walk : Walk) :
    Sized (allocUser m task space size kmalloc walk).1 := by
  have hnpages := requestPages_pos size
  cases allocUser_cases m task space size kmalloc walk with
  | nothing hblocks hcur =>
    exact ⟨hcur ▸ hblocks ▸ h.placed, hcur ▸ h.grown, hcur ▸ h.high, hcur ▸ h.aligned⟩
  | reuse focus free hfocus hfree hle hblocks hcur =>
    have hold : ∀ b ∈ focus.blocks, Placed m.heapCur b := hfocus ▸ h.placed
    refine ⟨?_, hcur ▸ h.grown, hcur ▸ h.high, hcur ▸ h.aligned⟩
    rw [hblocks, hcur]
    exact placed_takeBlock hold hnpages hle task kmalloc free
  | grow hblocks hcur hhigh =>
    have hold : ∀ b ∈ m.blocks, Placed (m.heapCur + requestPages size * pageSize) b := by
      intro b hb
      obtain ⟨hpos, hlow, hend, haligned⟩ := h.placed b hb
      exact ⟨hpos, hlow, Nat.le_add_right_of_le hend, haligned⟩
    refine ⟨?_, hcur ▸ Nat.le_add_right_of_le h.grown, hhigh, ?_⟩
    · rw [hblocks, hcur]
      split_ifs
      · intro b hb
        rcases mem_userBlkNew.mp hb with rfl | hmem
        · exact ⟨hnpages, h.grown, Nat.le_refl _, h.aligned⟩
        · exact hold b hmem
      · exact hold
    · rw [hcur, Nat.add_mul_mod_self_right]
      exact h.aligned

theorem Sized.freeUser (h : Sized m) (space ptr : ℕ) : Sized (freeUser m space ptr) := by
  rw [Memory.freeUser]
  split_ifs with hrange
  · exact h
  · cases hfind : findBlock (fun b => decide (b.base = ptr)) [] m.blocks with
    | none => exact h
    | some focus =>
      dsimp only
      split_ifs
      · exact h
      · have hblocks : ∀ b ∈ focus.blocks, Placed m.heapCur b :=
          (blocks_findFirst hfind).1 ▸ h.placed
        exact ⟨blocks_userBlkCoalesce (fun _ _ => placed_joins) (fun _ h b hb => (h b hb).positive)
          rfl (placed_freed hblocks _), h.grown, h.high, h.aligned⟩

theorem Sized.releaseOwner (h : Sized m) (owner : ℕ) : Sized (userHeapReleaseOwner m owner) := by
  rw [userHeapReleaseOwner]
  split_ifs
  · exact h
  · refine ⟨?_, h.grown, h.high, h.aligned⟩
    refine blocks_releaseFrom (fun _ _ => placed_joins) (fun _ h b hb => (h b hb).positive) ?_ []
      m.blocks h.placed
    exact fun focus hplaced _ _ => placed_freed hplaced 0

theorem Sized.run (h : Sized m) (call : HeapCall) : Sized (call.run m) := by
  cases call with
  | alloc task space size kmalloc walk => exact h.allocUser task space size kmalloc walk
  | free space ptr => exact h.freeUser space ptr
  | releaseOwner owner => exact h.releaseOwner owner
  | elsewhere spaces frames => exact ⟨h.placed, h.grown, h.high, h.aligned⟩

theorem sized_boot (free : List ℕ) : Sized (boot free) :=
  ⟨nofun, Nat.le_refl _, Nat.le_add_right _ _, (by decide : userHeapBase % pageSize = 0)⟩

/-! ## Every call -/

theorem shape_takeBlock_iff {cur npages owner : ℕ} {focus : Focus} {kmalloc free : Bool}
    (h : HeapShape cur focus.blocks) (hfree : focus.blk.free = true) (hpos : 0 < npages)
    (hle : npages ≤ focus.blk.npages) :
    HeapShape cur (takeBlock focus npages owner kmalloc free) ↔
      (npages < focus.blk.npages → kmalloc = true ∧ free = false) := by
  rw [takeBlock]
  dsimp only
  rcases Nat.eq_or_lt_of_le hle with heq | hlt
  · rw [if_neg fun hboth => Nat.ne_of_lt hboth.1 heq]
    refine iff_of_true ?_ fun hlt => absurd heq (Nat.ne_of_lt hlt)
    rw [heq]
    exact h.take hfree owner free
  · cases kmalloc with
    | false =>
      rw [if_neg fun hboth => Bool.false_ne_true hboth.2]
      exact iff_of_false (h.not_cut hlt owner free) fun hall => nomatch (hall hlt).1
    | true =>
      rw [if_pos ⟨hlt, rfl⟩]
      dsimp only [Focus.blocks]
      rw [h.split_list hpos hlt owner free, h.split_iff hfree hpos hlt owner free]
      exact ⟨fun hfalse _ => ⟨rfl, hfalse⟩, fun hall => (hall hlt).2⟩

theorem shape_grow_iff {cur npages owner : ℕ} {blocks : List UserBlk} {kmalloc : Bool}
    (h : HeapShape cur blocks) (hpos : 0 < npages) :
    HeapShape (cur + npages * pageSize)
        (if kmalloc then userBlkNew blocks ⟨cur, npages, false, owner⟩ else blocks) ↔
      kmalloc = true := by
  cases kmalloc with
  | false =>
    refine iff_of_false (fun hgrown => ?_) Bool.false_ne_true
    have heq := h.tiles.stop_unique hgrown.tiles
    unfold pageSize at heq
    omega
  | true =>
    rw [if_pos rfl]
    refine iff_of_true ?_ rfl
    have hlist : userBlkNew blocks ⟨cur, npages, false, owner⟩ =
        blocks ++ [⟨cur, npages, false, owner⟩] := by
      have hbelow : ∀ other ∈ blocks, other.base < cur := by
        intro other hother
        have hbounds := h.tiles.bounds hother
        exact Nat.lt_of_lt_of_le hbounds.2.1 hbounds.2.2
      have hend : ∀ other ∈ ([] : List UserBlk).head?, cur ≤ other.base := nofun
      calc
        userBlkNew blocks ⟨cur, npages, false, owner⟩
          = userBlkNew (blocks ++ []) ⟨cur, npages, false, owner⟩ := by rw [List.append_nil]
        _ = blocks ++ [⟨cur, npages, false, owner⟩] := userBlkNew_append hbelow hend
    rw [hlist]
    refine ⟨tiles_append.mpr ⟨cur, h.tiles, rfl, base_lt_limit.mpr hpos, rfl⟩, ?_⟩
    exact separated_middle.mpr ⟨h.separated, fun _ _ hboth => (nomatch hboth.2), nofun, .nil⟩

theorem HeapShape.freeUser (h : HeapShape m.heapCur m.blocks) (space ptr : ℕ) :
    HeapShape (freeUser m space ptr).heapCur (freeUser m space ptr).blocks := by
  rw [Memory.freeUser]
  split_ifs with hrange
  · exact h
  · cases hfind : findBlock (fun b => decide (b.base = ptr)) [] m.blocks with
    | none => exact h
    | some focus =>
      dsimp only
      split_ifs
      · exact h
      · have hfocus : HeapShape m.heapCur focus.blocks := (blocks_findFirst hfind).1 ▸ h
        exact hfocus.coalesce focus.blk.owner

theorem HeapShape.releaseOwner (h : HeapShape m.heapCur m.blocks) (owner : ℕ) :
    HeapShape (userHeapReleaseOwner m owner).heapCur (userHeapReleaseOwner m owner).blocks := by
  rw [userHeapReleaseOwner]
  split_ifs
  · exact h
  · have hlist : HeapShape m.heapCur ([].reverse ++ m.blocks) := h
    exact hlist.releaseFrom

theorem HeapShape.run_iff (h : HeapShape m.heapCur m.blocks) (call : HeapCall) :
    HeapShape (call.run m).heapCur (call.run m).blocks ↔ KeepsBlocks m call := by
  cases call with
  | alloc task space size kmalloc walk =>
    have hnpages := requestPages_pos size
    rw [HeapCall.run]
    cases allocUser_cases m task space size kmalloc walk with
    | nothing hblocks hcur hkeeps =>
      rw [hblocks, hcur]
      exact iff_of_true h hkeeps
    | reuse focus free hfocus hfree hle hblocks hcur hkeeps =>
      rw [hblocks, hcur, hkeeps]
      exact shape_takeBlock_iff (hfocus ▸ h) hfree hnpages hle
    | grow hblocks hcur _ hkeeps =>
      rw [hblocks, hcur, hkeeps]
      exact shape_grow_iff h hnpages
  | free space ptr => exact iff_of_true (h.freeUser space ptr) trivial
  | releaseOwner owner => exact iff_of_true (h.releaseOwner owner) trivial
  | elsewhere spaces frames => exact iff_of_true h trivial

/-- The block list is well structured at every point of a sequence of calls exactly if each call
keeps the blocks. -/
theorem always_wellStructured_iff (free : List ℕ) (calls : List HeapCall) :
    Always WellStructured (boot free) (trace HeapCall.run (boot free) calls) ↔
      Along (fun m call _ => KeepsBlocks m call) (boot free)
        (trace HeapCall.run (boot free) calls) := by
  have hsized : Always Sized (boot free) (trace HeapCall.run (boot free) calls) := by
    refine always_of_invariant Sized ?_ (sized_boot free) (along_trace _ _ _)
    rintro m call _ h rfl
    exact h.run call
  have hshape : HeapShape (boot free).heapCur (boot free).blocks := ⟨rfl, .nil⟩
  calc
    Always WellStructured (boot free) (trace HeapCall.run (boot free) calls)
      ↔ Always (fun m => HeapShape m.heapCur m.blocks) (boot free)
          (trace HeapCall.run (boot free) calls) :=
        always_congr (fun _ h => wellStructured_iff h) hsized
    _ ↔ Along (fun m call _ => KeepsBlocks m call) (boot free)
          (trace HeapCall.run (boot free) calls) :=
        always_trace_iff HeapCall.run (fun _ call h => h.run_iff call) hshape calls

/-- Two pages are allocated and freed, and one is allocated while no descriptor can be had. -/
theorem not_wellStructured_lostRest :
    ¬ Always WellStructured (boot [1, 2, 3])
      (trace HeapCall.run (boot [1, 2, 3])
        [.alloc 1 1 8192 true fun _ => (0, true), .free 1 userHeapBase,
          .alloc 1 1 4096 false fun _ => (0, true)]) := by
  intro h
  have hcovers := (h.final.covers (userHeapBase + pageSize)).mpr (by decide +kernel)
  exact absurd hcovers (by decide +kernel)

end EigenOS.Memory
