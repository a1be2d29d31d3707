import EigenOS.Library.MachineInt
import EigenOS.Memory.HeapImage

/-!
# What the calls of the kernel heap do

One statement for each call, about the blocks of the heap that are allocated and the bytes that
they hold.
-/

namespace EigenOS.HeapImage

open EigenOS.ByteMemory
open EigenOS.Memory (BlockMeta Chained Used chained_markFree filled_kheapInit kheapSize le_roundSize
  markFree mergeFreeBlocks_spec metaSize roundSize takeFreeBlock takeFreeBlock_spec used_markFree)

structure Represents (heap : ℕ) (h : Heap) (blocks : List BlockMeta) : Prop where
  initialized : h.initialized = true
  headers : Headers h.memory h.freeList blocks 0
  filled : Chained heap blocks (heap + kheapSize)

/-- The bytes that allocated blocks hold stay. -/
def KeepsPayloads (blocks : List BlockMeta) (m m' : Memory) : Prop :=
  ∀ addr n, Used blocks addr n →
    ∀ x, addr + metaSize ≤ x → x < addr + metaSize + n → m' x = m x

/-- A block of `taken` bytes is allocated. -/
structure Allocates (blocks blocks' : List BlockMeta) (addr taken : ℕ) : Prop where
  fresh : ∀ n, ¬ Used blocks addr n
  used_iff : ∀ x n, Used blocks' x n ↔ x = addr ∧ n = taken ∨ Used blocks x n

variable {heap : ℕ} {h : Heap} {blocks : List BlockMeta} {m : Memory}

theorem Represents.apart (hrep : Represents heap h blocks) {addr addr' n n' : ℕ}
    (hused : Used blocks addr n) (hused' : Used blocks addr' n') (hne : addr ≠ addr') :
    addr + metaSize + n ≤ addr' ∨ addr' + metaSize + n' ≤ addr := by
  rcases hrep.filled.apart hused hused' with heq | hapart
  · exact absurd (congrArg BlockMeta.addr heq) hne
  · exact hapart

theorem Represents.bounds (hrep : Represents heap h blocks) {addr n : ℕ}
    (hused : Used blocks addr n) :
    heap ≤ addr ∧ addr + metaSize + n ≤ heap + kheapSize :=
  ⟨hrep.filled.le_addr _ hused, hrep.filled.end_le.2 _ hused⟩

theorem notMem_headerBytes (hfilled : Chained heap blocks (heap + kheapSize)) {block : BlockMeta}
    (hmem : block ∈ blocks) {x : ℕ} (hlow : block.addr + metaSize ≤ x)
    (hhigh : x < block.addr + metaSize + block.size) : x ∉ headerBytes blocks := by
  rintro ⟨other, hother, hfrom, hto⟩
  rcases hfilled.apart hmem hother with rfl | hbefore | hafter
  · omega
  · omega
  · omega

theorem Represents.congr (hrep : Represents heap h blocks) {addr n : ℕ}
    (hused : Used blocks addr n)
    (hchanges : ChangesWithin { x | addr + metaSize ≤ x ∧ x < addr + metaSize + n } h.memory m) :
    Represents heap { h with memory := m } blocks := by
  refine ⟨hrep.initialized, hrep.headers.congr hchanges ?_, hrep.filled⟩
  intro x hx hmem
  exact notMem_headerBytes hrep.filled hused hmem.1 hmem.2 hx

theorem represents_kheapInit (heap : ℕ) (h : Heap) :
    Represents heap (kheapInit heap h) [⟨heap, kheapSize - metaSize, true⟩] := by
  refine ⟨rfl, ⟨rfl, 0, ⟨?_, ?_, ?_⟩, rfl⟩, filled_kheapInit heap⟩
  all_goals
    simp (disch := omega) only [kheapInit, size, isFree, next, setSize, setIsFree, setNext,
      load_store_of_apart, load_store_self]
  · exact Nat.mod_eq_of_lt (by decide)
  · decide
  · decide

/-! ## Allocation -/

theorem ready_of_initialized (hinit : h.initialized = true) : ready heap h = h := if_pos hinit

theorem kmalloc_ready (heap : ℕ) (h : Heap) (bytes : ℕ) :
    kmalloc heap (ready heap h) bytes = kmalloc heap h bytes := by
  have hready : ready heap (ready heap h) = ready heap h := by
    apply ready_of_initialized
    unfold ready
    split
    · assumption
    · rfl
  rw [kmalloc, kmalloc, hready]

theorem kmalloc_image_spec (harray : HeapArray heap) (hrep : Represents heap h blocks)
    (bytes : ℕ) :
    kmalloc heap h bytes = some (0, h) ∨
      ∃ addr taken h' blocks', kmalloc heap h bytes = some (addr + metaSize, h') ∧
        Represents heap h' blocks' ∧ Allocates blocks blocks' addr taken ∧
        roundSize bytes ≤ taken ∧ KeepsPayloads blocks h.memory h'.memory := by
  have hpos := harray.pos
  have hfits := harray.fits
  have hlow : ∀ block ∈ blocks, block.addr ≠ 0 := by
    intro block hmem
    have := hrep.filled.le_addr block hmem
    omega
  have hfuel : blocks.length < kheapSize := by
    have hlength := Chained.length_le hrep.filled
    unfold metaSize kheapSize at *
    omega
  rw [kmalloc, ready_of_initialized hrep.initialized]
  rw [findFreeBlock_eq hrep.headers hlow hfuel]
  cases htake : takeFreeBlock (roundSize bytes) blocks with
  | none => exact Or.inl rfl
  | some found =>
      obtain ⟨addr, blocks'⟩ := found
      obtain ⟨hfilled, _, hfresh, taken, htaken, hused⟩ := takeFreeBlock_spec hrep.filled htake
      obtain ⟨before, block, after, rfl, rfl, hfree, hwanted, rfl⟩ := takeFreeBlock_eq_some htake
      have hmem : block ∈ before ++ block :: after :=
        List.mem_append_right _ List.mem_cons_self
      have hblock := hrep.filled.end_le.2 block hmem
      have haddr := hrep.filled.le_addr block hmem
      obtain ⟨_, hbefore, rfl, follow, hheader, hafter⟩ := headers_append.mp hrep.headers
      obtain ⟨mid, hfirst, hplace, hlast⟩ := chained_append hrep.filled
      have hsmall : block.size ≤ kheapSize := by omega
      have hchanges := changesWithin_splitBlock hheader.size_eq hwanted hsmall
      refine Or.inr ⟨block.addr, taken,
        ⟨setIsFree (splitBlock h.memory block.addr (roundSize bytes)) block.addr 0, h.freeList,
          h.initialized⟩, _, ?_, ⟨hrep.initialized, ?_, hfilled⟩, ⟨hfresh, hused⟩, htaken, ?_⟩
      · dsimp only [Option.map_some, Option.getD_some]
        rw [if_neg (hlow block hmem)]
      · have hbefore' := hbefore.congr hchanges fun x hx hinside => by
          have hlt := lt_of_mem_headerBytes hfirst hx
          exact absurd hinside.1 (by omega)
        have hafter' := hafter.congr hchanges fun x hx hinside => by
          have hle := le_of_mem_headerBytes hlast hx
          exact absurd hinside.2 (by omega)
        have hsplit := headers_splitBlock hheader hwanted hsmall (by omega)
        exact headers_append.mpr ⟨_, hbefore', headers_append.mpr ⟨_, hsplit, hafter'⟩⟩
      · intro addr n hold x hfrom hto
        apply hchanges
        rintro ⟨hge, hlt⟩
        rcases hrep.filled.apart hmem hold with heq | hle | hle
        · exact hfresh n (heq ▸ hold)
        · dsimp only at hle
          omega
        · dsimp only at hle
          omega

theorem Represents.keeps_of_changes (hrep : Represents heap h blocks) {addr n : ℕ}
    (hused : Used blocks addr n)
    (hchanges : ChangesWithin { x | addr + metaSize ≤ x ∧ x < addr + metaSize + n } h.memory m)
    {addr' n' x : ℕ} (hother : Used blocks addr' n') (hne : addr' ≠ addr)
    (hfrom : addr' + metaSize ≤ x) (hto : x < addr' + metaSize + n') : m x = h.memory x := by
  apply hchanges
  rintro ⟨hge, hlt⟩
  have hapart := hrep.apart hused hother hne.symm
  omega

theorem alignUp_bounds {addr align : ℕ} (hpos : 0 < align) (halign : align < 2 ^ 64)
    (hfits : addr + align ≤ 2 ^ 64) :
    addr ≤ alignUp addr align ∧ alignUp addr align < addr + align := by
  have haddr : (UInt64.ofNat addr).toNat = addr := by
    rw [UInt64.toNat_ofNat', Nat.mod_eq_of_lt (by omega)]
  have halign' : (UInt64.ofNat align).toNat = align := by
    rw [UInt64.toNat_ofNat', Nat.mod_eq_of_lt halign]
  have hbounds := EigenOS.MachineInt.alignUp_bounds (by rwa [halign'])
    (by rwa [haddr, halign'] : (UInt64.ofNat addr).toNat + (UInt64.ofNat align).toNat ≤ 2 ^ 64)
  rw [haddr, halign'] at hbounds
  exact hbounds

/-- `kmalloc_aligned` allocates a block with room for the bytes behind the pointer that it
returns, and for the start of the block in front of it. -/
theorem kmallocAligned_image_spec (harray : HeapArray heap) (hrep : Represents heap h blocks)
    {bytes align : ℕ} (hpos : 0 < align) (hsum : bytes + align + 15 < 2 ^ 64) :
    kmallocAligned heap h bytes align = some (0, h) ∨
      ∃ addr taken ptr h' blocks', kmallocAligned heap h bytes align = some (ptr, h') ∧
        Represents heap h' blocks' ∧ Allocates blocks blocks' addr taken ∧
        ptr = alignUp (addr + metaSize + 8) align ∧ addr + metaSize + 8 ≤ ptr ∧
        ptr + bytes ≤ addr + metaSize + taken ∧
        load h'.memory 8 (ptr - 8) = addr + metaSize ∧
        KeepsPayloads blocks h.memory h'.memory := by
  have hfits := harray.fits
  have htotal : (bytes + align + 8) % 2 ^ 64 = bytes + align + 8 :=
    Nat.mod_eq_of_lt (by omega)
  have hround : bytes + align + 8 ≤ roundSize (bytes + align + 8) := le_roundSize (by omega)
  rw [kmallocAligned, ready_of_initialized hrep.initialized, htotal]
  rcases kmalloc_image_spec harray hrep (bytes + align + 8) with hnone | hsome
  · rw [hnone]
    exact Or.inl rfl
  · obtain ⟨addr, taken, h', blocks', hcall, hrep', halloc, htaken, hkeeps⟩ := hsome
    have hused : Used blocks' addr taken := (halloc.used_iff addr taken).mpr (Or.inl ⟨rfl, rfl⟩)
    obtain ⟨_, hend⟩ := hrep'.bounds hused
    obtain ⟨hlow, hhigh⟩ := alignUp_bounds hpos (by omega)
      (by omega : addr + metaSize + 8 + align ≤ 2 ^ 64)
    have hback : sub64 (alignUp (addr + metaSize + 8) align) 8 =
        alignUp (addr + metaSize + 8) align - 8 := sub64_eq (by omega) (by omega)
    have hchanges : ChangesWithin
        { x | addr + metaSize ≤ x ∧ x < addr + metaSize + taken } h'.memory
        (store h'.memory 8 (alignUp (addr + metaSize + 8) align - 8) (addr + metaSize)) :=
      changesWithin_store fun x hfrom hto => ⟨by omega, by omega⟩
    rw [hcall, Option.map_some]
    dsimp only
    rw [if_neg (by unfold metaSize; omega), hback]
    refine Or.inr ⟨addr, taken, _, _, blocks', rfl, hrep'.congr hused hchanges, halloc, rfl, hlow,
      ?_, ?_, ?_⟩
    · omega
    · rw [load_store_self]
      exact Nat.mod_eq_of_lt (by omega)
    · intro old n hold x hfrom hto
      have hold' : Used blocks' old n := (halloc.used_iff old n).mpr (Or.inr hold)
      have hne : old ≠ addr := fun heq => halloc.fresh n (heq ▸ hold)
      have hstored := hrep'.keeps_of_changes hused hchanges hold' hne hfrom hto
      exact hstored.trans (hkeeps old n hold x hfrom hto)

/-! ## Release -/

theorem headerBytes_markFree (addr : ℕ) (blocks : List BlockMeta) :
    headerBytes (markFree addr blocks) = headerBytes blocks := by
  induction blocks with
  | nil => rfl
  | cons head rest ih =>
      ext x
      rw [markFree, List.map_cons, headerBytes_cons, headerBytes_cons, ← ih]
      by_cases hhead : head.addr = addr
      · rw [if_pos hhead]
        rfl
      · rw [if_neg hhead]
        rfl

theorem kfree_image_spec (harray : HeapArray heap) (hrep : Represents heap h blocks) {addr n : ℕ}
    (hused : Used blocks addr n) :
    ∃ blocks', Represents heap (kfree heap h (addr + metaSize)) blocks' ∧
      (∀ x k, Used blocks' x k ↔ x ≠ addr ∧ Used blocks x k) ∧
      KeepsPayloads blocks h.memory (kfree heap h (addr + metaSize)).memory := by
  have hpos := harray.pos
  have hfits := harray.fits
  obtain ⟨hlow, hhigh⟩ := hrep.bounds hused
  have hblock : sub64 (addr + metaSize) metaSize = addr := by
    rw [sub64_eq (Nat.le_add_left _ _) (by unfold kheapSize metaSize at *; omega),
      Nat.add_sub_cancel]
  have hin : heap ≤ addr ∧ addr < heap + kheapSize := ⟨hlow, by unfold metaSize at hhigh; omega⟩
  have hfree : kfree heap h (addr + metaSize) =
      mergeFreeBlocks heap { h with memory := setIsFree h.memory addr 1 } := by
    rw [kfree, if_neg (by omega), hblock, if_pos hin]
  have hmarked := headers_setIsFree addr hrep.headers fun block hmem hne => by
    rcases hrep.filled.apart hmem hused with heq | hle | hle
    · exact absurd (congrArg BlockMeta.addr heq) hne
    · dsimp only at hle
      exact Or.inl (by omega)
    · dsimp only at hle
      exact Or.inr (by omega)
  have hchained := chained_markFree addr hrep.filled
  obtain ⟨hfilled, husedIff⟩ := mergeFreeBlocks_spec hchained
  cases hblocks : markFree addr blocks with
  | nil =>
      rw [markFree, List.map_eq_nil_iff] at hblocks
      rw [hblocks] at hused
      cases hused
  | cons curr rest =>
      rw [hblocks] at hmarked hchained
      obtain ⟨hheaders, hwithin⟩ :=
        mergeLoop_spec harray 99999 hmarked hchained (Nat.le_refl heap)
      refine ⟨EigenOS.Memory.mergeFreeBlocks (markFree addr blocks), ?_, ?_, ?_⟩
      · rw [hfree]
        refine ⟨hrep.initialized, ?_, hfilled⟩
        rw [hblocks]
        exact hheaders
      · intro x k
        rw [husedIff, used_markFree]
      · rw [hfree]
        intro x k hold i hfrom hto
        have hapart := notMem_headerBytes hrep.filled hold hfrom hto
        have hkeep : (mergeFreeBlocks heap { h with memory := setIsFree h.memory addr 1 }).memory i =
            setIsFree h.memory addr 1 i := by
          apply hwithin
          rw [← hblocks, headerBytes_markFree]
          exact hapart
        rw [hkeep]
        apply store_of_notMem
        by_contra hinside
        apply hapart
        refine ⟨_, hused, ?_, ?_⟩
        · dsimp only
          omega
        · unfold metaSize
          dsimp only
          omega

end EigenOS.HeapImage
