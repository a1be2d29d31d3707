import EigenOS.Library.ByteMemory
import EigenOS.Memory.KernelHeap

/-!
# The kernel heap in memory

The allocator of `kheap.c` as it works on the bytes of `heap`: the list of blocks is in the
headers, and a header is in front of the bytes that it is about.  The trace of calls for the crash
dump is an array of its own, and the check of new pointers against window buffers only prints.
-/

namespace EigenOS.HeapImage

open EigenOS.ByteMemory
open EigenOS.Memory (kheapSize metaSize roundSize)

/-- The memory that `heap` is in, with the static variables of the allocator. -/
structure Heap where
  memory : Memory
  freeList : ℕ
  initialized : Bool

/-- A difference of two numbers of 64 bits. -/
def sub64 (a b : ℕ) : ℕ := (a + (2 ^ 64 - b)) % 2 ^ 64

theorem sub64_eq {a b : ℕ} (hle : b ≤ a) (ha : a < 2 ^ 64) : sub64 a b = a - b := by
  have hsum : a + (2 ^ 64 - b) = a - b + 2 ^ 64 := by omega
  rw [sub64, hsum, Nat.add_mod_right, Nat.mod_eq_of_lt (by omega)]

/-! ## Headers -/

/-- `block->size`. -/
def size (m : Memory) (block : ℕ) : ℕ := load m 8 block

/-- `block->is_free`. -/
def isFree (m : Memory) (block : ℕ) : ℕ := load m 4 (block + 8)

/-- `block->next`. -/
def next (m : Memory) (block : ℕ) : ℕ := load m 8 (block + 16)

def setSize (m : Memory) (block value : ℕ) : Memory := store m 8 block value
def setIsFree (m : Memory) (block value : ℕ) : Memory := store m 4 (block + 8) value
def setNext (m : Memory) (block value : ℕ) : Memory := store m 8 (block + 16) value

/-! ## The allocator -/

variable (heap : ℕ)

def kheapInit (h : Heap) : Heap where
  memory := setNext (setIsFree (setSize h.memory heap (kheapSize - metaSize)) heap 1) heap 0
  freeList := heap
  initialized := true

/-- `find_free_block`, 0 when there is none; `none` when the list does not end in so many
blocks. -/
def findFreeBlock : ℕ → Memory → ℕ → ℕ → Option ℕ
  | 0, _, _, _ => none
  | fuel + 1, m, curr, wanted =>
      if curr = 0 then some 0
      else if isFree m curr ≠ 0 ∧ wanted ≤ size m curr then some curr
      else findFreeBlock fuel m (next m curr) wanted

def splitBlock (m : Memory) (block wanted : ℕ) : Memory :=
  if (wanted + metaSize + 32) % 2 ^ 64 < size m block then
    let newBlock := block + metaSize + wanted
    let m := setSize m newBlock (sub64 (sub64 (size m block) wanted) metaSize)
    let m := setIsFree m newBlock 1
    let m := setNext m newBlock (next m block)
    setNext (setSize m block wanted) block newBlock
  else m

/-- The heap as `kmalloc` and `kmalloc_aligned` find it. -/
def ready (h : Heap) : Heap := if h.initialized then h else kheapInit heap h

/-- `kmalloc`, with a null pointer as 0. -/
def kmalloc (h : Heap) (bytes : ℕ) : Option (ℕ × Heap) :=
  let h := ready heap h
  let wanted := roundSize bytes
  (findFreeBlock kheapSize h.memory h.freeList wanted).map fun block =>
    if block = 0 then (0, h)
    else (block + metaSize,
      { h with memory := setIsFree (splitBlock h.memory block wanted) block 0 })

/-- `(addr + align - 1) & ~(align - 1)`. -/
def alignUp (addr align : ℕ) : ℕ :=
  ((UInt64.ofNat addr + UInt64.ofNat align - 1) &&& ~~~(UInt64.ofNat align - 1)).toNat

def kmallocAligned (h : Heap) (bytes align : ℕ) : Option (ℕ × Heap) :=
  (kmalloc heap (ready heap h) ((bytes + align + 8) % 2 ^ 64)).map fun (ptr, h) =>
    if ptr = 0 then (0, h)
    else
      let aligned := alignUp (ptr + 8) align
      (aligned, { h with memory := store h.memory 8 (sub64 aligned 8) ptr })

/-- The loop of `merge_free_blocks`, with so many rounds left. -/
def mergeLoop : ℕ → Memory → ℕ → Memory
  | 0, m, _ => m
  | safety + 1, m, curr =>
      if curr = 0 ∨ next m curr = 0 ∨ curr < heap ∨ heap + kheapSize ≤ curr then m
      else if next m curr < heap ∨ heap + kheapSize ≤ next m curr then setNext m curr 0
      else if isFree m curr ≠ 0 ∧ isFree m (next m curr) ≠ 0 then
        let joined := setSize m curr ((size m curr + metaSize + size m (next m curr)) % 2 ^ 64)
        mergeLoop safety (setNext joined curr (next joined (next joined curr))) curr
      else mergeLoop safety m (next m curr)

def mergeFreeBlocks (h : Heap) : Heap :=
  { h with memory := mergeLoop heap 99999 h.memory h.freeList }

def kfree (h : Heap) (ptr : ℕ) : Heap :=
  if ptr = 0 then h
  else
    let block := sub64 ptr metaSize
    if heap ≤ block ∧ block < heap + kheapSize then
      mergeFreeBlocks heap { h with memory := setIsFree h.memory block 1 }
    else h

def kfreeAligned (h : Heap) (ptr : ℕ) : Heap :=
  if ptr = 0 then h else kfree heap h (load h.memory 8 (sub64 ptr 8))

end EigenOS.HeapImage

/-!
## The headers are the list of blocks

What the allocator does to the headers in memory is what it does to the list of blocks.  The
bytes that it changes are those of headers and of the free block that it takes.
-/

namespace EigenOS.HeapImage

open EigenOS.ByteMemory
open EigenOS.Memory (BlockMeta Chained Used kheapSize markFree mergeFrom metaSize roundSize
  takeFreeBlock)

/-- The header of a block, which leads to `follow`. -/
structure Header (m : Memory) (block : BlockMeta) (follow : ℕ) : Prop where
  size_eq : size m block.addr = block.size
  isFree_iff : isFree m block.addr ≠ 0 ↔ block.isFree = true
  next_eq : next m block.addr = follow

/-- The headers from `p` on are those of the blocks, and the last one leads to `q`. -/
def Headers (m : Memory) : ℕ → List BlockMeta → ℕ → Prop
  | p, [], q => p = q
  | p, block :: rest, q => p = block.addr ∧ ∃ follow, Header m block follow ∧ Headers m follow rest q

def headerBytes (blocks : List BlockMeta) : Set ℕ :=
  { x | ∃ block ∈ blocks, block.addr ≤ x ∧ x < block.addr + metaSize }

/-- The bytes of a block, its header among them. -/
def blockBytes (block : BlockMeta) : Set ℕ :=
  { x | block.addr ≤ x ∧ x < block.addr + metaSize + block.size }

variable {m m' : Memory} {p q : ℕ} {block : BlockMeta} {blocks : List BlockMeta}

theorem Header.congr {follow : ℕ} (h : Header m block follow)
    (hsame : ∀ x, block.addr ≤ x → x < block.addr + metaSize → m' x = m x) :
    Header m' block follow := by
  unfold metaSize at hsame
  have hsize : size m' block.addr = size m block.addr :=
    load_congr fun x hlow hhigh => hsame x hlow (by omega)
  have hfree : isFree m' block.addr = isFree m block.addr :=
    load_congr fun x hlow hhigh => hsame x (by omega) (by omega)
  have hnext : next m' block.addr = next m block.addr :=
    load_congr fun x hlow hhigh => hsame x (by omega) (by omega)
  exact ⟨hsize.trans h.size_eq, hfree ▸ h.isFree_iff, hnext.trans h.next_eq⟩

theorem Header.follow_lt {follow : ℕ} (h : Header m block follow) : follow < 2 ^ 64 := by
  rw [← h.next_eq]
  exact load_lt m 8 (block.addr + 16)

theorem Headers.congr {region : Set ℕ} (h : Headers m p blocks q)
    (hchanges : ChangesWithin region m m') (hapart : ∀ x ∈ headerBytes blocks, x ∉ region) :
    Headers m' p blocks q := by
  induction blocks generalizing p with
  | nil => exact h
  | cons head rest ih =>
      obtain ⟨hp, follow, hheader, hrest⟩ := h
      refine ⟨hp, follow, ?_, ih hrest fun x ⟨block, hmem, hx⟩ =>
        hapart x ⟨block, List.mem_cons_of_mem _ hmem, hx⟩⟩
      exact hheader.congr fun x hlow hhigh =>
        hchanges x (hapart x ⟨head, List.mem_cons_self, hlow, hhigh⟩)

theorem headers_append {before after : List BlockMeta} :
    Headers m p (before ++ after) q ↔ ∃ mid, Headers m p before mid ∧ Headers m mid after q := by
  induction before generalizing p with
  | nil => exact ⟨fun h => ⟨p, rfl, h⟩, fun ⟨_, hmid, h⟩ => hmid ▸ h⟩
  | cons head rest ih =>
      constructor
      · rintro ⟨hp, follow, hheader, hrest⟩
        obtain ⟨mid, hbefore, hafter⟩ := ih.mp hrest
        exact ⟨mid, ⟨hp, follow, hheader, hbefore⟩, hafter⟩
      · rintro ⟨mid, ⟨hp, follow, hheader, hbefore⟩, hafter⟩
        exact ⟨hp, follow, hheader, ih.mpr ⟨mid, hbefore, hafter⟩⟩

theorem Chained.length_le {start stop : ℕ} (h : Chained start blocks stop) :
    start + metaSize * blocks.length ≤ stop := by
  induction blocks generalizing start with
  | nil => exact Nat.le_of_eq h
  | cons head rest ih =>
      have hrest := ih h.2
      rw [List.length_cons, Nat.mul_succ]
      omega

/-! ## Search -/

theorem findFreeBlock_eq (h : Headers m p blocks 0) (hpos : ∀ block ∈ blocks, block.addr ≠ 0)
    {fuel : ℕ} (hfuel : blocks.length < fuel) (wanted : ℕ) :
    findFreeBlock fuel m p wanted =
      some (((takeFreeBlock wanted blocks).map Prod.fst).getD 0) := by
  induction blocks generalizing p fuel with
  | nil =>
      cases fuel with
      | zero => cases hfuel
      | succ fuel =>
          have hnull : p = 0 := h
          rw [findFreeBlock, if_pos hnull]
          rfl
  | cons head rest ih =>
      cases fuel with
      | zero => cases hfuel
      | succ fuel =>
          obtain ⟨rfl, follow, hheader, hrest⟩ := h
          have hhead := hpos head List.mem_cons_self
          rw [findFreeBlock, if_neg hhead, takeFreeBlock, hheader.size_eq]
          by_cases hfits : head.isFree ∧ wanted ≤ head.size
          · rw [if_pos ⟨hheader.isFree_iff.mpr hfits.1, hfits.2⟩, if_pos hfits]
            rfl
          · have hpass : ¬ (isFree m head.addr ≠ 0 ∧ wanted ≤ head.size) := fun hyes =>
              hfits ⟨hheader.isFree_iff.mp hyes.1, hyes.2⟩
            rw [if_neg hpass, if_neg hfits, hheader.next_eq, Option.map_map]
            exact ih hrest (fun block hmem => hpos block (List.mem_cons_of_mem _ hmem))
              (Nat.lt_of_succ_lt_succ hfuel)

theorem takeFreeBlock_eq_some {wanted addr : ℕ} {blocks' : List BlockMeta}
    (h : takeFreeBlock wanted blocks = some (addr, blocks')) :
    ∃ before block after, blocks = before ++ block :: after ∧ block.addr = addr ∧
      block.isFree = true ∧ wanted ≤ block.size ∧
      blocks' = before ++ (EigenOS.Memory.splitBlock block wanted ++ after) := by
  induction blocks generalizing blocks' with
  | nil => cases h
  | cons head rest ih =>
      rw [takeFreeBlock] at h
      by_cases hfits : head.isFree ∧ wanted ≤ head.size
      · rw [if_pos hfits] at h
        cases h
        exact ⟨[], head, rest, rfl, rfl, hfits.1, hfits.2, rfl⟩
      · rw [if_neg hfits] at h
        obtain ⟨⟨found, others⟩, hfound, heq⟩ := Option.map_eq_some_iff.mp h
        cases heq
        obtain ⟨before, block, after, hblocks, haddr, hfree, hsize, hothers⟩ := ih hfound
        refine ⟨head :: before, block, after, ?_, haddr, hfree, hsize, ?_⟩
        · rw [hblocks, List.cons_append]
        · dsimp only
          rw [hothers, List.cons_append]

/-! ## Splitting -/

theorem headers_splitBlock {follow wanted : ℕ} (h : Header m block follow)
    (hwanted : wanted ≤ block.size) (hsmall : block.size ≤ kheapSize)
    (hend : block.addr + metaSize + block.size ≤ 2 ^ 64) :
    Headers (setIsFree (splitBlock m block.addr wanted) block.addr 0) block.addr
      (EigenOS.Memory.splitBlock block wanted) follow := by
  have hfollow := h.follow_lt
  obtain ⟨hsize, hfree, hnext⟩ := h
  unfold size at hsize
  unfold next at hnext
  unfold metaSize at hend
  unfold kheapSize at hsmall
  unfold splitBlock EigenOS.Memory.splitBlock size metaSize
  have hmod : (wanted + 24 + 32) % 2 ^ 64 = wanted + 24 + 32 := Nat.mod_eq_of_lt (by omega)
  rw [hsize, hmod]
  by_cases hroom : wanted + 24 + 32 < block.size
  · rw [if_pos hroom, if_pos hroom, sub64_eq hwanted (by omega), sub64_eq (by omega) (by omega)]
    refine ⟨rfl, block.addr + 24 + wanted, ⟨?_, ?_, ?_⟩, rfl, follow, ⟨?_, ?_, ?_⟩, rfl⟩
    all_goals
      simp (disch := omega) only [size, isFree, next, setSize, setIsFree, setNext,
        load_store_of_apart, load_store_self, hnext]
    · exact Nat.mod_eq_of_lt (by omega)
    · simp
    · exact Nat.mod_eq_of_lt (by omega)
    · exact Nat.mod_eq_of_lt (by omega)
    · simp
    · exact Nat.mod_eq_of_lt hfollow
  · rw [if_neg hroom, if_neg hroom]
    refine ⟨rfl, follow, ⟨?_, ?_, ?_⟩, rfl⟩
    all_goals
      simp (disch := omega) only [size, isFree, next, setIsFree, load_store_of_apart,
        load_store_self, hsize, hnext]
    simp

theorem changesWithin_splitBlock {wanted : ℕ} (hsize : size m block.addr = block.size)
    (hwanted : wanted ≤ block.size) (hsmall : block.size ≤ kheapSize) :
    ChangesWithin (blockBytes block) m
      (setIsFree (splitBlock m block.addr wanted) block.addr 0) := by
  have hheader : ∀ x, block.addr ≤ x → x < block.addr + metaSize → x ∈ blockBytes block :=
    fun x hlow hhigh => ⟨hlow, by omega⟩
  unfold metaSize at hheader
  refine ChangesWithin.trans ?_ (changesWithin_store fun x hlow hhigh =>
    hheader x (by omega) (by omega))
  unfold kheapSize at hsmall
  unfold splitBlock metaSize
  have hmod : (wanted + 24 + 32) % 2 ^ 64 = wanted + 24 + 32 := Nat.mod_eq_of_lt (by omega)
  rw [hsize, hmod]
  by_cases hroom : wanted + 24 + 32 < block.size
  · rw [if_pos hroom]
    have hnew : ∀ x, block.addr + 24 + wanted ≤ x → x < block.addr + 24 + wanted + 24 →
        x ∈ blockBytes block := by
      intro x hlow hhigh
      unfold blockBytes metaSize
      exact ⟨by omega, by omega⟩
    refine ChangesWithin.trans ?_ (changesWithin_store fun x hlow hhigh =>
      hheader x (by omega) (by omega))
    refine ChangesWithin.trans ?_ (changesWithin_store fun x hlow hhigh =>
      hheader x (by omega) (by omega))
    refine ChangesWithin.trans ?_ (changesWithin_store fun x hlow hhigh =>
      hnew x (by omega) (by omega))
    refine ChangesWithin.trans ?_ (changesWithin_store fun x hlow hhigh =>
      hnew x (by omega) (by omega))
    exact changesWithin_store fun x hlow hhigh => hnew x (by omega) (by omega)
  · rw [if_neg hroom]
    exact ChangesWithin.refl _ _

/-! ## Joining -/

theorem headers_setIsFree (addr : ℕ) (h : Headers m p blocks q)
    (haddr : ∀ block ∈ blocks, block.addr ≠ addr →
      block.addr + metaSize ≤ addr ∨ addr + metaSize ≤ block.addr) :
    Headers (setIsFree m addr 1) p (markFree addr blocks) q := by
  induction blocks generalizing p with
  | nil => exact h
  | cons head rest ih =>
      obtain ⟨hp, follow, hheader, hrest⟩ := h
      have hothers := ih hrest fun block hmem =>
        haddr block (List.mem_cons_of_mem _ hmem)
      rw [markFree, List.map_cons]
      by_cases hhead : head.addr = addr
      · rw [if_pos hhead]
        refine ⟨hp, follow, ⟨?_, ?_, ?_⟩, hothers⟩
        · have hsize := hheader.size_eq
          simp only [size, setIsFree] at hsize ⊢
          rw [load_store_of_apart (by omega), hsize]
        · simp only [isFree, setIsFree, hhead, load_store_self]
          simp
        · have hnext := hheader.next_eq
          simp only [next, setIsFree] at hnext ⊢
          rw [load_store_of_apart (by omega), hnext]
      · rw [if_neg hhead]
        refine ⟨hp, follow, ?_, hothers⟩
        have hapart := haddr head List.mem_cons_self hhead
        unfold metaSize at hapart
        refine hheader.congr fun x hlow hhigh => store_of_notMem ?_
        unfold metaSize at hhigh
        omega

/-- Where `heap` is: not at the null pointer, and the address behind it is an address. -/
structure HeapArray (heap : ℕ) : Prop where
  pos : 0 < heap
  fits : heap + kheapSize < 2 ^ 64

theorem headerBytes_cons (block : BlockMeta) (rest : List BlockMeta) {x : ℕ} :
    x ∈ headerBytes (block :: rest) ↔
      (block.addr ≤ x ∧ x < block.addr + metaSize) ∨ x ∈ headerBytes rest := by
  constructor
  · rintro ⟨other, hmem, hx⟩
    rcases List.mem_cons.mp hmem with rfl | hrest
    · exact Or.inl hx
    · exact Or.inr ⟨other, hrest, hx⟩
  · rintro (hx | ⟨other, hrest, hx⟩)
    · exact ⟨block, List.mem_cons_self, hx⟩
    · exact ⟨other, List.mem_cons_of_mem _ hrest, hx⟩

theorem chained_append {start stop : ℕ} {before after : List BlockMeta}
    (h : Chained start (before ++ after) stop) :
    ∃ mid, Chained start before mid ∧ Chained mid after stop := by
  induction before generalizing start with
  | nil => exact ⟨start, rfl, h⟩
  | cons head rest ih =>
      obtain ⟨mid, hrest, hafter⟩ := ih h.2
      exact ⟨mid, ⟨h.1, hrest⟩, hafter⟩

theorem le_of_mem_headerBytes {start stop x : ℕ} (hchained : Chained start blocks stop)
    (hx : x ∈ headerBytes blocks) : start ≤ x := by
  obtain ⟨block, hmem, hlow, _⟩ := hx
  exact (hchained.le_addr block hmem).trans hlow

theorem lt_of_mem_headerBytes {start stop x : ℕ} (hchained : Chained start blocks stop)
    (hx : x ∈ headerBytes blocks) : x < stop := by
  obtain ⟨block, hmem, _, hhigh⟩ := hx
  have hend := hchained.end_le.2 block hmem
  omega

theorem header_joined {left right : BlockMeta} {follow : ℕ} (hleft : Header m left right.addr)
    (hright : Header m right follow) (hfree : left.isFree = true)
    (hapart : left.addr + metaSize ≤ right.addr)
    (hsum : left.size + metaSize + right.size < 2 ^ 64) :
    let joined := setSize m left.addr ((left.size + metaSize + right.size) % 2 ^ 64)
    Header (setNext joined left.addr (next joined (next joined left.addr)))
      ⟨left.addr, left.size + metaSize + right.size, true⟩ follow := by
  have hnext : next (setSize m left.addr ((left.size + metaSize + right.size) % 2 ^ 64))
      left.addr = right.addr := by
    rw [← hleft.next_eq]
    exact load_store_of_apart (by omega)
  have hnext' : next (setSize m left.addr ((left.size + metaSize + right.size) % 2 ^ 64))
      right.addr = follow := by
    rw [← hright.next_eq]
    unfold metaSize at hapart
    exact load_store_of_apart (by omega)
  have hfollow := hright.follow_lt
  have hisFree := hleft.isFree_iff
  unfold isFree at hisFree
  dsimp only
  rw [hnext, hnext', Nat.mod_eq_of_lt hsum]
  refine ⟨?_, ?_, ?_⟩
  all_goals
    simp (disch := omega) only [size, isFree, next, setSize, setNext, load_store_of_apart,
      load_store_self]
  · exact Nat.mod_eq_of_lt hsum
  · exact iff_of_true (hisFree.mpr hfree) trivial
  · exact Nat.mod_eq_of_lt hfollow

theorem mergeLoop_spec {heap : ℕ} (harray : HeapArray heap) (safety : ℕ) {start : ℕ}
    {curr : BlockMeta} {rest : List BlockMeta} (h : Headers m p (curr :: rest) 0)
    (hchained : Chained start (curr :: rest) (heap + kheapSize)) (hlow : heap ≤ start) :
    Headers (mergeLoop heap safety m p) p (mergeFrom safety curr rest) 0 ∧
      ChangesWithin (headerBytes (curr :: rest)) m (mergeLoop heap safety m p) := by
  induction safety generalizing m p start curr rest with
  | zero => exact ⟨h, ChangesWithin.refl _ _⟩
  | succ safety ih =>
      cases rest with
      | nil =>
          obtain ⟨rfl, follow, hheader, hnull⟩ := h
          have hend : next m curr.addr = 0 := hheader.next_eq.trans hnull
          rw [mergeLoop, if_pos (Or.inr (Or.inl hend))]
          exact ⟨⟨rfl, follow, hheader, hnull⟩, ChangesWithin.refl _ _⟩
      | cons right rest =>
          obtain ⟨rfl, _, hheader, rfl, follow, hright, hrest⟩ := h
          have hpos := harray.pos
          have hfits := harray.fits
          have hcurr := hchained.1
          have hin := hchained.end_le.2 curr List.mem_cons_self
          have hplace : right.addr = start + metaSize + curr.size := hchained.2.1
          have hright' := hchained.addr_lt right (List.mem_cons_of_mem _ List.mem_cons_self)
          have hrightEnd := hchained.end_le.2 right (List.mem_cons_of_mem _ List.mem_cons_self)
          have hnext := hheader.next_eq
          rw [mergeLoop, if_neg (by rw [hnext]; unfold metaSize at hplace; omega),
            if_neg (by rw [hnext]; omega), hnext, mergeFrom]
          by_cases hfree : curr.isFree ∧ right.isFree
          · have hboth : isFree m curr.addr ≠ 0 ∧ isFree m right.addr ≠ 0 :=
              ⟨hheader.isFree_iff.mpr hfree.1, hright.isFree_iff.mpr hfree.2⟩
            rw [if_pos hboth, if_pos hfree, hheader.size_eq, hright.size_eq]
            have hsum : curr.size + metaSize + right.size < 2 ^ 64 := by
              unfold metaSize at hplace ⊢
              omega
            have hjoined := header_joined hheader hright hfree.1 (by omega) hsum
            have hchanges : ∀ value value', ChangesWithin
                { x | curr.addr ≤ x ∧ x < curr.addr + metaSize } m
                (setNext (setSize m curr.addr value) curr.addr value') := by
              intro value value'
              unfold metaSize
              refine ChangesWithin.trans (changesWithin_store fun x hle hlt => ⟨hle, by omega⟩)
                (changesWithin_store fun x hle hlt => ⟨by omega, by omega⟩)
            have hothers : ∀ value value',
                Headers (setNext (setSize m curr.addr value) curr.addr value') follow rest 0 := by
              intro value value'
              apply hrest.congr (hchanges value value')
              intro x hx hmem
              have hafter := le_of_mem_headerBytes hchained.2.2 hx
              have hbefore : x < curr.addr + metaSize := hmem.2
              omega
            have hchained' : Chained start
                (⟨curr.addr, curr.size + metaSize + right.size, true⟩ :: rest)
                (heap + kheapSize) := by
              refine ⟨hcurr, ?_⟩
              have hsum' : start + metaSize + (curr.size + metaSize + right.size) =
                  start + metaSize + curr.size + metaSize + right.size := by omega
              dsimp only
              rw [hsum']
              exact hchained.2.2
            obtain ⟨hheaders, hwithin⟩ := ih ⟨rfl, follow, hjoined, hothers _ _⟩ hchained' hlow
            refine ⟨hheaders, ChangesWithin.trans ((hchanges _ _).mono ?_) (hwithin.mono ?_)⟩
            · intro x hx
              exact (headerBytes_cons _ _).mpr (Or.inl hx)
            · intro x hx
              rw [headerBytes_cons] at hx ⊢
              rw [headerBytes_cons]
              exact hx.imp_right Or.inr
          · have hnot : ¬ (isFree m curr.addr ≠ 0 ∧ isFree m right.addr ≠ 0) := fun hboth =>
              hfree ⟨hheader.isFree_iff.mp hboth.1, hright.isFree_iff.mp hboth.2⟩
            rw [if_neg hnot, if_neg hfree]
            obtain ⟨hheaders, hwithin⟩ := ih ⟨rfl, follow, hright, hrest⟩ hchained.2 (by omega)
            refine ⟨⟨rfl, right.addr, ?_, hheaders⟩, hwithin.mono ?_⟩
            · refine hheader.congr fun x hle hlt => hwithin x fun hmem => ?_
              have hafter := le_of_mem_headerBytes hchained.2 hmem
              omega
            · intro x hx
              exact (headerBytes_cons _ _).mpr (Or.inr hx)

end EigenOS.HeapImage
