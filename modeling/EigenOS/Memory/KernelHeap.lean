import Mathlib.Algebra.Group.Nat.Defs
import Mathlib.Tactic.Common

/-!
# The kernel heap

A first-fit allocator over one static array.  The free list holds every block, allocated or
not, in the order of the addresses; a block is its header and the bytes behind it.
-/

namespace EigenOS.Memory

/-- `META_SIZE`. -/
def metaSize : ℕ := 24

/-- `KHEAP_SIZE`. -/
def kheapSize : ℕ := 1024 * 1024 * 128

/-- A header, with its address. -/
structure BlockMeta where
  addr : ℕ
  size : ℕ
  isFree : Bool
  deriving DecidableEq, Repr

/-- The heap, with the word that `kmalloc_aligned` stores before each address it returns. -/
structure KernelHeap where
  heap : ℕ
  freeList : List BlockMeta
  original : ℕ → ℕ

def kheapInit (heap : ℕ) : KernelHeap where
  heap := heap
  freeList := [⟨heap, kheapSize - metaSize, true⟩]
  original := fun _ => 0

/-- `split_block`, for a block that is allocated. -/
def splitBlock (block : BlockMeta) (size : ℕ) : List BlockMeta :=
  if size + metaSize + 32 < block.size then
    [⟨block.addr, size, false⟩,
      ⟨block.addr + metaSize + size, block.size - size - metaSize, true⟩]
  else [⟨block.addr, block.size, false⟩]

/-- `find_free_block`, and the split of the block it finds. -/
def takeFreeBlock (size : ℕ) : List BlockMeta → Option (ℕ × List BlockMeta)
  | [] => none
  | curr :: next =>
      if curr.isFree ∧ size ≤ curr.size then some (curr.addr, splitBlock curr size ++ next)
      else (takeFreeBlock size next).map fun found => (found.1, curr :: found.2)

/-- The size that `kmalloc` looks for, in 64 bits. -/
def roundSize (size : ℕ) : ℕ := (size + 7) % 2 ^ 64 / 8 * 8

def kmalloc (h : KernelHeap) (size : ℕ) : Option (ℕ × KernelHeap) :=
  (takeFreeBlock (roundSize size) h.freeList).map fun found =>
    (found.1 + metaSize, { h with freeList := found.2 })

/-- Joins neighbours that are both free, in at most so many steps. -/
def mergeFrom : ℕ → BlockMeta → List BlockMeta → List BlockMeta
  | 0, curr, next => curr :: next
  | _ + 1, curr, [] => [curr]
  | safety + 1, curr, next :: rest =>
      if curr.isFree ∧ next.isFree then
        mergeFrom safety ⟨curr.addr, curr.size + metaSize + next.size, true⟩ rest
      else curr :: mergeFrom safety next rest

/-- `merge_free_blocks`. -/
def mergeFreeBlocks : List BlockMeta → List BlockMeta
  | [] => []
  | curr :: next => mergeFrom 99999 curr next

def markFree (addr : ℕ) (blocks : List BlockMeta) : List BlockMeta :=
  blocks.map fun block => if block.addr = addr then { block with isFree := true } else block

def kfree (h : KernelHeap) (ptr : ℕ) : KernelHeap :=
  if ptr = 0 then h
  else if h.heap ≤ ptr - metaSize ∧ ptr - metaSize < h.heap + kheapSize then
    { h with freeList := mergeFreeBlocks (markFree (ptr - metaSize) h.freeList) }
  else h

def kmallocAligned (h : KernelHeap) (size align : ℕ) : Option (ℕ × KernelHeap) :=
  (kmalloc h ((size + align + 8) % 2 ^ 64)).map fun (ptr, h) =>
    let aligned := (ptr + 8 + align - 1) / align * align
    (aligned, { h with original := fun addr => if addr = aligned then ptr else h.original addr })

def kfreeAligned (h : KernelHeap) (ptr : ℕ) : KernelHeap :=
  if ptr = 0 then h else kfree h (h.original ptr)

/-! ## The list of blocks -/

/-- The blocks fill the bytes between two addresses. -/
def Chained : ℕ → List BlockMeta → ℕ → Prop
  | start, [], stop => start = stop
  | start, block :: rest, stop =>
      block.addr = start ∧ Chained (start + metaSize + block.size) rest stop

def Used (blocks : List BlockMeta) (addr size : ℕ) : Prop :=
  ⟨addr, size, false⟩ ∈ blocks

theorem used_cons (block : BlockMeta) (rest : List BlockMeta) (addr size : ℕ) :
    Used (block :: rest) addr size ↔ block = ⟨addr, size, false⟩ ∨ Used rest addr size := by
  unfold Used
  rw [List.mem_cons, eq_comm]

theorem used_cons_of_free {block : BlockMeta} (h : block.isFree = true) (rest : List BlockMeta)
    (addr size : ℕ) : Used (block :: rest) addr size ↔ Used rest addr size := by
  rw [used_cons]
  constructor
  · rintro (rfl | hrest)
    · cases h
    · exact hrest
  · exact Or.inr

theorem used_append (left right : List BlockMeta) (addr size : ℕ) :
    Used (left ++ right) addr size ↔ Used left addr size ∨ Used right addr size :=
  List.mem_append

variable {start stop size : ℕ} {blocks : List BlockMeta}

theorem Chained.le_addr (h : Chained start blocks stop) : ∀ block ∈ blocks, start ≤ block.addr := by
  induction blocks generalizing start with
  | nil => exact fun _ hmem => absurd hmem List.not_mem_nil
  | cons head rest ih =>
      intro block hmem
      rcases List.mem_cons.mp hmem with rfl | hrest
      · exact Nat.le_of_eq h.1.symm
      · have := ih h.2 block hrest
        omega

theorem Chained.addr_lt (h : Chained start blocks stop) : ∀ block ∈ blocks, block.addr < stop := by
  have hmeta : 0 < metaSize := by decide
  induction blocks generalizing start with
  | nil => exact fun _ hmem => absurd hmem List.not_mem_nil
  | cons head rest ih =>
      intro block hmem
      rcases List.mem_cons.mp hmem with rfl | hrest
      · cases rest with
        | nil =>
            have hstop : start + metaSize + block.size = stop := h.2
            have := h.1
            omega
        | cons next rest =>
            have := ih h.2 next List.mem_cons_self
            have := h.1
            have := h.2.1
            omega
      · exact ih h.2 block hrest

theorem Chained.end_le (h : Chained start blocks stop) :
    start ≤ stop ∧ ∀ block ∈ blocks, block.addr + metaSize + block.size ≤ stop := by
  induction blocks generalizing start with
  | nil => exact ⟨Nat.le_of_eq h, fun _ hmem => absurd hmem List.not_mem_nil⟩
  | cons head rest ih =>
      obtain ⟨rfl, hrest⟩ := h
      obtain ⟨hle, hends⟩ := ih hrest
      refine ⟨by omega, ?_⟩
      intro block hmem
      rcases List.mem_cons.mp hmem with rfl | htail
      · exact hle
      · exact hends block htail

theorem Chained.append {start mid stop : ℕ} {left right : List BlockMeta}
    (hleft : Chained start left mid) (hright : Chained mid right stop) :
    Chained start (left ++ right) stop := by
  induction left generalizing start with
  | nil =>
      cases hleft
      exact hright
  | cons head rest ih => exact ⟨hleft.1, ih hleft.2⟩

theorem chained_splitBlock (block : BlockMeta) :
    Chained block.addr (splitBlock block size) (block.addr + metaSize + block.size) := by
  unfold splitBlock
  split
  · rename_i hroom
    refine ⟨rfl, rfl, ?_⟩
    change _ = _
    dsimp only
    omega
  · exact ⟨rfl, rfl⟩

theorem used_splitBlock {block : BlockMeta} (hsize : size ≤ block.size) :
    ∃ taken, size ≤ taken ∧ ∀ addr other,
      Used (splitBlock block size) addr other ↔ addr = block.addr ∧ other = taken := by
  unfold splitBlock
  split
  · exact ⟨size, Nat.le_refl _, fun addr other => by simp [Used]⟩
  · exact ⟨block.size, hsize, fun addr other => by simp [Used]⟩

theorem Chained.apart (h : Chained start blocks stop) {left right : BlockMeta}
    (hleft : left ∈ blocks) (hright : right ∈ blocks) :
    left = right ∨ left.addr + metaSize + left.size ≤ right.addr ∨
      right.addr + metaSize + right.size ≤ left.addr := by
  induction blocks generalizing start with
  | nil => cases hleft
  | cons head rest ih =>
      obtain ⟨rfl, hrest⟩ := h
      rcases List.mem_cons.mp hleft with rfl | hleft'
      · rcases List.mem_cons.mp hright with rfl | hright'
        · exact Or.inl rfl
        · exact Or.inr (Or.inl (hrest.le_addr right hright'))
      · rcases List.mem_cons.mp hright with rfl | hright'
        · exact Or.inr (Or.inr (hrest.le_addr left hleft'))
        · exact ih hrest hleft' hright'

theorem takeFreeBlock_spec {size addr start stop : ℕ} {blocks blocks' : List BlockMeta}
    (hchained : Chained start blocks stop) (h : takeFreeBlock size blocks = some (addr, blocks')) :
    Chained start blocks' stop ∧ start ≤ addr ∧ (∀ other, ¬ Used blocks addr other) ∧
      ∃ taken, size ≤ taken ∧ ∀ x n, Used blocks' x n ↔ x = addr ∧ n = taken ∨ Used blocks x n := by
  have hmeta : 0 < metaSize := by decide
  induction blocks generalizing start addr blocks' with
  | nil => cases h
  | cons curr next ih =>
      rw [takeFreeBlock] at h
      obtain ⟨hstart, hnext⟩ := hchained
      by_cases hfree : curr.isFree ∧ size ≤ curr.size
      · rw [if_pos hfree] at h
        cases h
        obtain ⟨taken, htaken, hsplit⟩ := used_splitBlock hfree.2
        refine ⟨?_, Nat.le_of_eq hstart.symm, fun other => ?_, taken, htaken, fun x n => ?_⟩
        · subst hstart
          exact (chained_splitBlock curr).append hnext
        · rw [used_cons_of_free hfree.1]
          intro hused
          have hlater : start + metaSize + curr.size ≤ curr.addr :=
            hnext.le_addr ⟨curr.addr, other, false⟩ hused
          omega
        · rw [used_append, hsplit, used_cons_of_free hfree.1]
      · rw [if_neg hfree] at h
        obtain ⟨⟨found, rest⟩, hfound, heq⟩ := Option.map_eq_some_iff.mp h
        cases heq
        obtain ⟨hchained', hle, hfresh, taken, htaken, hused⟩ := ih hnext hfound
        refine ⟨⟨hstart, hchained'⟩, by omega, fun other => ?_, taken, htaken, fun x n => ?_⟩
        · rw [used_cons]
          rintro (rfl | hrest)
          · dsimp only at hle hstart
            omega
          · exact hfresh other hrest
        · rw [used_cons, hused, used_cons, or_left_comm]

theorem chained_markFree (addr : ℕ) (h : Chained start blocks stop) :
    Chained start (markFree addr blocks) stop := by
  induction blocks generalizing start with
  | nil => exact h
  | cons head rest ih =>
      have hrest := ih h.2
      rw [markFree, List.map_cons]
      split
      · exact ⟨h.1, hrest⟩
      · exact ⟨h.1, hrest⟩

theorem used_markFree (addr : ℕ) (blocks : List BlockMeta) (x n : ℕ) :
    Used (markFree addr blocks) x n ↔ x ≠ addr ∧ Used blocks x n := by
  unfold Used markFree
  rw [List.mem_map]
  constructor
  · rintro ⟨block, hmem, heq⟩
    by_cases haddr : block.addr = addr
    · rw [if_pos haddr] at heq
      cases heq
    · rw [if_neg haddr] at heq
      subst heq
      exact ⟨haddr, hmem⟩
  · rintro ⟨hne, hmem⟩
    exact ⟨_, hmem, if_neg hne⟩

theorem mergeFrom_spec (safety : ℕ) {curr : BlockMeta} {next : List BlockMeta}
    (h : Chained start (curr :: next) stop) :
    Chained start (mergeFrom safety curr next) stop ∧
      ∀ x n, Used (mergeFrom safety curr next) x n ↔ Used (curr :: next) x n := by
  induction safety generalizing start curr next with
  | zero => exact ⟨h, fun _ _ => Iff.rfl⟩
  | succ safety ih =>
      cases next with
      | nil => exact ⟨h, fun _ _ => Iff.rfl⟩
      | cons next rest =>
          obtain ⟨hcurr, hnext, hrest⟩ := h
          rw [mergeFrom]
          by_cases hfree : curr.isFree ∧ next.isFree
          · rw [if_pos hfree]
            have hjoined : Chained start
                (⟨curr.addr, curr.size + metaSize + next.size, true⟩ :: rest) stop := by
              refine ⟨hcurr, ?_⟩
              dsimp only
              have hsum : start + metaSize + (curr.size + metaSize + next.size) =
                  start + metaSize + curr.size + metaSize + next.size := by omega
              rwa [hsum]
            obtain ⟨hchained, hused⟩ := ih hjoined
            refine ⟨hchained, fun x n => (hused x n).trans ?_⟩
            rw [used_cons_of_free rfl, used_cons_of_free hfree.1, used_cons_of_free hfree.2]
          · rw [if_neg hfree]
            obtain ⟨hchained, hused⟩ := ih ⟨hnext, hrest⟩
            refine ⟨⟨hcurr, hchained⟩, fun x n => ?_⟩
            rw [used_cons, hused, used_cons curr]

theorem mergeFreeBlocks_spec (h : Chained start blocks stop) :
    Chained start (mergeFreeBlocks blocks) stop ∧
      ∀ x n, Used (mergeFreeBlocks blocks) x n ↔ Used blocks x n := by
  cases blocks with
  | nil => exact ⟨h, fun _ _ => Iff.rfl⟩
  | cons curr next => exact mergeFrom_spec _ h

/-! ## Allocation and release -/

def KernelHeap.Filled (h : KernelHeap) : Prop :=
  Chained h.heap h.freeList (h.heap + kheapSize)

/-- A pointer that `kmalloc` has returned and that is not free, with the size of its block. -/
def KernelHeap.Live (h : KernelHeap) (ptr size : ℕ) : Prop :=
  metaSize ≤ ptr ∧ Used h.freeList (ptr - metaSize) size

theorem filled_kheapInit (heap : ℕ) : (kheapInit heap).Filled := by
  have hsize : heap + metaSize + (kheapSize - metaSize) = heap + kheapSize := by
    unfold metaSize kheapSize
    omega
  exact ⟨rfl, hsize⟩

theorem KernelHeap.Filled.live_apart {h : KernelHeap} (hfilled : h.Filled) {p q n m : ℕ}
    (hp : h.Live p n) (hq : h.Live q m) : p = q ∧ n = m ∨ p + n < q ∨ q + m < p := by
  have hmeta : 0 < metaSize := by decide
  obtain ⟨hple, hpused⟩ := hp
  obtain ⟨hqle, hqused⟩ := hq
  rcases hfilled.apart hpused hqused with heq | hbefore | hafter
  · simp only [BlockMeta.mk.injEq] at heq
    exact Or.inl ⟨by omega, heq.2.1⟩
  · dsimp only at hbefore
    exact Or.inr (Or.inl (by omega))
  · dsimp only at hafter
    exact Or.inr (Or.inr (by omega))

theorem kmalloc_spec {h h' : KernelHeap} {size ptr : ℕ} (hfilled : h.Filled)
    (hmalloc : kmalloc h size = some (ptr, h')) :
    h'.Filled ∧ h'.original = h.original ∧ (∀ n, ¬ h.Live ptr n) ∧
      ∃ taken, roundSize size ≤ taken ∧
        ∀ x n, h'.Live x n ↔ x = ptr ∧ n = taken ∨ h.Live x n := by
  obtain ⟨⟨addr, blocks⟩, htake, heq⟩ := Option.map_eq_some_iff.mp hmalloc
  cases heq
  obtain ⟨hchained, _, hfresh, taken, htaken, hused⟩ := takeFreeBlock_spec hfilled htake
  refine ⟨hchained, rfl, ?_, taken, htaken, fun x n => ?_⟩
  · rintro n ⟨_, hlive⟩
    exact hfresh n (by simpa using hlive)
  · unfold KernelHeap.Live
    dsimp only
    rw [hused]
    constructor
    · rintro ⟨hle, ⟨heq, hn⟩ | hold⟩
      · exact Or.inl ⟨by omega, hn⟩
      · exact Or.inr ⟨hle, hold⟩
    · rintro (⟨rfl, hn⟩ | ⟨hle, hold⟩)
      · exact ⟨Nat.le_add_left _ _, Or.inl ⟨Nat.add_sub_cancel _ _, hn⟩⟩
      · exact ⟨hle, Or.inr hold⟩

theorem kfree_spec {h : KernelHeap} {ptr size : ℕ} (hfilled : h.Filled) (hlive : h.Live ptr size) :
    (kfree h ptr).Filled ∧ (kfree h ptr).original = h.original ∧
      ∀ x n, (kfree h ptr).Live x n ↔ x ≠ ptr ∧ h.Live x n := by
  obtain ⟨hle, hmem⟩ := hlive
  have hmeta : 0 < metaSize := by decide
  have hlow : h.heap ≤ ptr - metaSize := hfilled.le_addr _ hmem
  have hhigh : ptr - metaSize < h.heap + kheapSize := hfilled.addr_lt _ hmem
  have hfree : kfree h ptr =
      { h with freeList := mergeFreeBlocks (markFree (ptr - metaSize) h.freeList) } := by
    unfold kfree
    rw [if_neg (by omega), if_pos ⟨hlow, hhigh⟩]
  obtain ⟨hchained, hused⟩ := mergeFreeBlocks_spec (chained_markFree (ptr - metaSize) hfilled)
  rw [hfree]
  refine ⟨hchained, rfl, fun x n => ?_⟩
  unfold KernelHeap.Live
  dsimp only
  rw [hused, used_markFree]
  constructor
  · rintro ⟨hother, hne, hold⟩
    exact ⟨fun heq => hne (by rw [heq]), hother, hold⟩
  · rintro ⟨hne, hother, hold⟩
    exact ⟨hother, by omega, hold⟩

theorem le_roundSize (h : size + 7 < 2 ^ 64) : size ≤ roundSize size := by
  unfold roundSize
  rw [Nat.mod_eq_of_lt h]
  omega

/-- An aligned pointer lies in the block that it was made from, with room for its size. -/
theorem kmallocAligned_spec {h h' : KernelHeap} {size align aligned : ℕ} (hfilled : h.Filled)
    (halign : 0 < align) (hsize : size + align + 15 < 2 ^ 64)
    (hmalloc : kmallocAligned h size align = some (aligned, h')) :
    h'.Filled ∧ (∀ n, ¬ h.Live (h'.original aligned) n) ∧
      (∀ other, other ≠ aligned → h'.original other = h.original other) ∧
      h'.original aligned + 8 ≤ aligned ∧
      ∃ taken, aligned + size ≤ h'.original aligned + taken ∧
        ∀ x n, h'.Live x n ↔ x = h'.original aligned ∧ n = taken ∨ h.Live x n := by
  obtain ⟨⟨ptr, mid⟩, hmid, heq⟩ := Option.map_eq_some_iff.mp hmalloc
  obtain ⟨hfilled', horiginal, hfresh, taken, htaken, hlive⟩ := kmalloc_spec hfilled hmid
  have htotal : (size + align + 8) % 2 ^ 64 = size + align + 8 := Nat.mod_eq_of_lt (by omega)
  have hround := le_roundSize (by omega : size + align + 8 + 7 < 2 ^ 64)
  rw [htotal] at htaken
  have hlow := Nat.lt_div_mul_add halign (a := ptr + 8 + align - 1)
  have hhigh := Nat.div_mul_le_self (ptr + 8 + align - 1) align
  cases heq
  refine ⟨hfilled', ?_, fun other hne => ?_, ?_, taken, ?_, ?_⟩
  all_goals dsimp only
  · rwa [if_pos rfl]
  · rw [if_neg hne, horiginal]
  · rw [if_pos rfl]
    omega
  · rw [if_pos rfl]
    omega
  · rw [if_pos rfl]
    exact hlive

end EigenOS.Memory
