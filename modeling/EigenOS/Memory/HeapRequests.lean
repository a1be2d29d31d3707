import EigenOS.Memory.HeapRuns

/-!
# Requests of any size

`kmalloc` rounds the size up and `kmalloc_aligned` adds the alignment and a pointer to it, both
in 64 bits.  A sum that wraps makes a large request a small one, and is answered like one.
-/

namespace EigenOS.HeapImage

open EigenOS.ByteMemory EigenOS.MachineInt
open EigenOS.Memory (BlockMeta Chained Used kheapSize le_roundSize metaSize roundSize
  takeFreeBlock)

variable {heap : ℕ} {h : Heap} {blocks : List BlockMeta}

/-- No free block has room for so many bytes. -/
def NoRoom (blocks : List BlockMeta) (wanted : ℕ) : Prop :=
  ∀ block ∈ blocks, block.isFree = true → block.size < wanted

/-- The pointer has the bytes behind it in a block of the heap that was not allocated before,
and is aligned. -/
structure Serves (heap : ℕ) (blocks : List BlockMeta) (bytes align ptr : ℕ) (h' : Heap)
    (blocks' : List BlockMeta) (addr taken : ℕ) : Prop where
  rep : Represents heap h' blocks'
  allocates : Allocates blocks blocks' addr taken
  start : addr + metaSize ≤ ptr
  room : ptr + bytes ≤ addr + metaSize + taken
  inside : heap ≤ addr ∧ addr + metaSize + taken ≤ heap + kheapSize
  aligned : align ∣ ptr

/-- The answer to a request: the null pointer and the heap as it was, or a pointer that
serves. -/
def Answered (heap : ℕ) (h : Heap) (blocks : List BlockMeta) (bytes align : ℕ)
    (result : Option (ℕ × Heap)) : Prop :=
  result = some (0, ready heap h) ∨
    ∃ ptr h' blocks' addr taken, result = some (ptr, h') ∧ ptr ≠ 0 ∧
      Serves heap blocks bytes align ptr h' blocks' addr taken

/-- `kfree_aligned` of the pointer, at any time while its block is allocated and the word in
front of it has not been written, releases that block and no other. -/
def FreesItsBlock (heap ptr : ℕ) (h' : Heap) (addr taken : ℕ) : Prop :=
  ∀ later laterBlocks, Represents heap later laterBlocks → Used laterBlocks addr taken →
    load later.memory 8 (sub64 ptr 8) = load h'.memory 8 (sub64 ptr 8) →
      ∃ freed, Represents heap (kfreeAligned heap later ptr) freed ∧
        ∀ x k, Used freed x k ↔ x ≠ addr ∧ Used laterBlocks x k

/-- The same of `kmalloc_aligned`, with what `kfree_aligned` does with the pointer. -/
def AnsweredAligned (heap : ℕ) (h : Heap) (blocks : List BlockMeta) (bytes align : ℕ) : Prop :=
  kmallocAligned heap h bytes align = some (0, ready heap h) ∨
    ∃ ptr h' blocks' addr taken, kmallocAligned heap h bytes align = some (ptr, h') ∧ ptr ≠ 0 ∧
      Serves heap blocks bytes align ptr h' blocks' addr taken ∧
      FreesItsBlock heap ptr h' addr taken

/-! ## Finding a block -/

theorem takeFreeBlock_eq_none {wanted : ℕ} :
    takeFreeBlock wanted blocks = none ↔ NoRoom blocks wanted := by
  induction blocks with
  | nil => exact ⟨fun _ _ hmem => absurd hmem List.not_mem_nil, fun _ => rfl⟩
  | cons head rest ih =>
      rw [takeFreeBlock]
      by_cases hfits : head.isFree ∧ wanted ≤ head.size
      · rw [if_pos hfits]
        constructor
        · intro hnone
          cases hnone
        · intro hnone
          exact absurd (hnone head List.mem_cons_self hfits.1) (not_lt.mpr hfits.2)
      · rw [if_neg hfits, Option.map_eq_none_iff, ih]
        constructor
        · intro hnone block hmem hfree
          rcases List.mem_cons.mp hmem with rfl | hrest
          · exact not_le.mp fun hle => hfits ⟨hfree, hle⟩
          · exact hnone block hrest hfree
        · exact fun hnone block hmem => hnone block (List.mem_cons_of_mem _ hmem)

theorem findFreeBlock_isFree {fuel : ℕ} {m : Memory} {curr wanted block : ℕ}
    (hfound : findFreeBlock fuel m curr wanted = some block) (hne : block ≠ 0) :
    isFree m block ≠ 0 := by
  induction fuel generalizing curr with
  | zero => exact nomatch hfound
  | succ fuel ih =>
      rw [findFreeBlock] at hfound
      by_cases hnull : curr = 0
      · rw [if_pos hnull, Option.some.injEq] at hfound
        exact absurd hfound.symm hne
      · rw [if_neg hnull] at hfound
        by_cases hfits : isFree m curr ≠ 0 ∧ wanted ≤ size m curr
        · rw [if_pos hfits, Option.some.injEq] at hfound
          exact hfound ▸ hfits.1
        · rw [if_neg hfits] at hfound
          exact ih hfound

theorem Serves.bytes_le {bytes align ptr addr taken : ℕ} {h' : Heap} {blocks' : List BlockMeta}
    (hserves : Serves heap blocks bytes align ptr h' blocks' addr taken) : bytes ≤ kheapSize := by
  obtain ⟨_, _, hstart, hroom, ⟨hlow, hhigh⟩, _⟩ := hserves
  omega

section Ready

variable (harray : HeapArray heap) (hrep : Represents heap h blocks)
include harray hrep

/-- `kmalloc` returns the null pointer exactly where no free block has room for the rounded
size. -/
theorem kmalloc_eq_null_iff (bytes : ℕ) :
    kmalloc heap h bytes = some (0, h) ↔ NoRoom blocks (roundSize bytes) := by
  have hpos := harray.pos
  have hlow : ∀ block ∈ blocks, block.addr ≠ 0 := by
    intro block hmem
    have := hrep.filled.le_addr block hmem
    omega
  have hfuel : blocks.length < kheapSize := by
    have hlength := Chained.length_le hrep.filled
    unfold metaSize kheapSize at *
    omega
  rw [← takeFreeBlock_eq_none, kmalloc, ready_of_initialized hrep.initialized,
    findFreeBlock_eq hrep.headers hlow hfuel]
  cases htake : takeFreeBlock (roundSize bytes) blocks with
  | none => exact ⟨fun _ => rfl, fun _ => rfl⟩
  | some found =>
      obtain ⟨before, block, after, hblocks, haddr, _⟩ := takeFreeBlock_eq_some htake
      have hmem : block ∈ blocks := by
        rw [hblocks]
        exact List.mem_append_right _ List.mem_cons_self
      have hne : found.1 ≠ 0 := haddr ▸ hlow block hmem
      constructor
      · intro heq
        have hblock : ((some found).map Prod.fst).getD 0 = found.1 := rfl
        rw [Option.map_some, hblock, if_neg hne, Option.some.injEq, Prod.mk.injEq] at heq
        exact absurd heq.1 (by unfold metaSize; omega)
      · intro hnone
        cases hnone

omit harray in
theorem isFree_kmalloc {bytes ptr : ℕ} {h' : Heap} (hcall : kmalloc heap h bytes = some (ptr, h'))
    (hne : ptr ≠ 0) :
    isFree h.memory (ptr - metaSize) ≠ 0 ∧ isFree h'.memory (ptr - metaSize) = 0 := by
  rw [kmalloc, ready_of_initialized hrep.initialized] at hcall
  obtain ⟨block, hfound, hresult⟩ := Option.map_eq_some_iff.mp hcall
  by_cases hblock : block = 0
  · rw [if_pos hblock, Prod.mk.injEq] at hresult
    exact absurd hresult.1.symm hne
  · rw [if_neg hblock, Prod.mk.injEq] at hresult
    obtain ⟨rfl, rfl⟩ := hresult
    rw [Nat.add_sub_cancel]
    refine ⟨findFreeBlock_isFree hfound hblock, ?_⟩
    exact load_store_self _ 4 _ 0

/-! ## Plain requests -/

theorem answered_kmalloc {bytes : ℕ} (hround : bytes + 7 < 2 ^ 64) :
    Answered heap h blocks bytes 1 (kmalloc heap h bytes) := by
  rw [Answered, ready_of_initialized hrep.initialized]
  rcases kmalloc_image_spec harray hrep bytes with hnull | hsome
  · exact Or.inl hnull
  · obtain ⟨addr, taken, h', blocks', hcall, hrep', halloc, htaken, _⟩ := hsome
    have hused : Used blocks' addr taken := (halloc.used_iff addr taken).mpr (Or.inl ⟨rfl, rfl⟩)
    have hle := le_roundSize hround
    refine Or.inr ⟨_, h', blocks', addr, taken, hcall, by unfold metaSize; omega, ?_⟩
    exact ⟨hrep', halloc, Nat.le_refl _, by omega, hrep'.bounds hused, one_dvd _⟩

theorem answered_kmalloc_iff {bytes : ℕ} (hbytes : bytes < 2 ^ 64) :
    Answered heap h blocks bytes 1 (kmalloc heap h bytes) ↔
      bytes + 7 < 2 ^ 64 ∨ ∀ block ∈ blocks, block.isFree = false := by
  by_cases hround : bytes + 7 < 2 ^ 64
  · exact ⟨fun _ => Or.inl hround, fun _ => answered_kmalloc harray hrep hround⟩
  · have hzero : roundSize bytes = 0 := by
      unfold roundSize
      omega
    have hnull := kmalloc_eq_null_iff harray hrep bytes
    rw [hzero] at hnull
    have hnone : NoRoom blocks 0 ↔ ∀ block ∈ blocks, block.isFree = false := by
      constructor
      · intro h block hmem
        rw [Bool.eq_false_iff]
        exact fun hfree => absurd (h block hmem hfree) (Nat.not_lt_zero _)
      · intro h block hmem hfree
        rw [h block hmem] at hfree
        exact nomatch hfree
    rw [← hnone, ← hnull, or_iff_right hround]
    constructor
    · rintro (h | ⟨_, _, _, _, _, _, _, hserves⟩)
      · rwa [ready_of_initialized hrep.initialized] at h
      · have hle := hserves.bytes_le
        unfold kheapSize at hle
        omega
    · intro h
      rw [Answered, ready_of_initialized hrep.initialized]
      exact Or.inl h

/-! ## Aligned requests -/

omit hrep in
theorem freesItsBlock {ptr addr taken : ℕ} {h' : Heap} (hptr : ptr ≠ 0)
    (hback : load h'.memory 8 (sub64 ptr 8) = addr + metaSize) :
    FreesItsBlock heap ptr h' addr taken := by
  intro later laterBlocks hlater hused hload
  rw [kfreeAligned, if_neg hptr, hload, hback]
  obtain ⟨freed, hfreed, hiff, _⟩ := kfree_image_spec harray hlater hused
  exact ⟨freed, hfreed, hiff⟩

theorem answeredAligned_of_sum {bytes k : ℕ} (hk : k < 64) (hsum : bytes + 2 ^ k + 15 < 2 ^ 64) :
    AnsweredAligned heap h blocks bytes (2 ^ k) := by
  have hfits := harray.fits
  rw [AnsweredAligned, ready_of_initialized hrep.initialized]
  rcases kmallocAligned_image_spec harray hrep (Nat.two_pow_pos k) hsum with hnull | hsome
  · exact Or.inl hnull
  · obtain ⟨addr, taken, ptr, h', blocks', hcall, hrep', halloc, halign, hlow, hroom, hback, _⟩ :=
      hsome
    have hused : Used blocks' addr taken := (halloc.used_iff addr taken).mpr (Or.inl ⟨rfl, rfl⟩)
    have hinside := hrep'.bounds hused
    have hne : ptr ≠ 0 := by omega
    have hdvd : 2 ^ k ∣ ptr := by
      rw [halign, alignUp]
      exact dvd_and_not hk _
    rw [← sub64_eq (by omega) (by omega)] at hback
    exact Or.inr ⟨ptr, h', blocks', addr, taken, hcall, hne,
      ⟨hrep', halloc, by omega, hroom, hinside, hdvd⟩, freesItsBlock harray hne hback⟩

/-- Where the sum wraps and a block is taken, the answer is wrong even if the pointer comes out
as null: the block is no longer free. -/
theorem kmallocAligned_ne_null {bytes align : ℕ}
    (hroom : ¬ NoRoom blocks (roundSize ((bytes + align + 8) % 2 ^ 64))) :
    kmallocAligned heap h bytes align ≠ some (0, h) := by
  intro hcall
  have hfits := harray.fits
  have hnull := (kmalloc_eq_null_iff harray hrep _).not.mpr hroom
  rcases kmalloc_image_spec harray hrep ((bytes + align + 8) % 2 ^ 64) with h | hsome
  · exact hnull h
  · obtain ⟨addr, taken, h', blocks', hkmalloc, hrep', halloc, _⟩ := hsome
    have hused : Used blocks' addr taken := (halloc.used_iff addr taken).mpr (Or.inl ⟨rfl, rfl⟩)
    obtain ⟨_, hhigh⟩ := hrep'.bounds hused
    have hne : addr + metaSize ≠ 0 := by
      unfold metaSize
      omega
    obtain ⟨hbefore, hafter⟩ := isFree_kmalloc hrep hkmalloc hne
    rw [Nat.add_sub_cancel] at hbefore hafter
    rw [kmallocAligned, ready_of_initialized hrep.initialized, hkmalloc, Option.map_some] at hcall
    dsimp only at hcall
    rw [if_neg hne, Option.some.injEq, Prod.mk.injEq] at hcall
    obtain ⟨hzero, hsame⟩ := hcall
    rw [hzero] at hsame
    have hback : sub64 0 8 = 2 ^ 64 - 8 := by decide
    have hkept : isFree (store h'.memory 8 (sub64 0 8) (addr + metaSize)) addr =
        isFree h'.memory addr := by
      apply load_store_of_apart
      unfold metaSize at hhigh
      omega
    rw [← hsame] at hbefore
    exact hbefore (hkept.trans hafter)

theorem answeredAligned_iff {bytes k : ℕ} (hbytes : bytes < 2 ^ 64) (hk : k < 64) :
    AnsweredAligned heap h blocks bytes (2 ^ k) ↔ bytes + 2 ^ k + 15 < 2 ^ 64 ∨
      NoRoom blocks (roundSize ((bytes + 2 ^ k + 8) % 2 ^ 64)) := by
  by_cases hsum : bytes + 2 ^ k + 15 < 2 ^ 64
  · exact ⟨fun _ => Or.inl hsum, fun _ => answeredAligned_of_sum harray hrep hk hsum⟩
  · rw [or_iff_right hsum]
    constructor
    · rintro (hnull | ⟨_, _, _, _, _, _, _, hserves, _⟩)
      · rw [ready_of_initialized hrep.initialized] at hnull
        by_contra hroom
        exact kmallocAligned_ne_null harray hrep hroom hnull
      · have hle := hserves.bytes_le
        have hpow : 2 ^ k ≤ 2 ^ 63 := Nat.pow_le_pow_right (by decide) (by omega)
        unfold kheapSize at hle
        omega
    · intro hroom
      have hnull := (kmalloc_eq_null_iff harray hrep _).mpr hroom
      rw [AnsweredAligned, ready_of_initialized hrep.initialized, kmallocAligned,
        ready_of_initialized hrep.initialized, hnull]
      exact Or.inl rfl

end Ready

/-- Both calls answer as they should, exactly where no sum wraps or the wrapped request finds no
block.  The first call makes the heap. -/
theorem requests_answered_iff (harray : HeapArray heap)
    (hrep : Represents heap (ready heap h) blocks) {bytes k : ℕ} (hbytes : bytes < 2 ^ 64)
    (hk : k < 64) :
    (Answered heap h blocks bytes 1 (kmalloc heap h bytes) ↔
        bytes + 7 < 2 ^ 64 ∨ ∀ block ∈ blocks, block.isFree = false) ∧
      (AnsweredAligned heap h blocks bytes (2 ^ k) ↔ bytes + 2 ^ k + 15 < 2 ^ 64 ∨
        NoRoom blocks (roundSize ((bytes + 2 ^ k + 8) % 2 ^ 64))) := by
  have hready : ready heap (ready heap h) = ready heap h := ready_of_initialized hrep.initialized
  have hplain := answered_kmalloc_iff harray hrep hbytes
  have haligned := answeredAligned_iff harray hrep hbytes hk
  rw [Answered, hready, kmalloc_ready] at hplain
  rw [AnsweredAligned, hready, kmallocAligned_ready] at haligned
  exact ⟨hplain, haligned⟩

/-- The heap before its first call. -/
def untouched : Heap := ⟨fun _ => 0, 0, false⟩

theorem represents_untouched :
    Represents 4096 (ready 4096 untouched) [⟨4096, kheapSize - metaSize, true⟩] :=
  represents_kheapInit 4096 untouched

theorem requests_answered_small :
    Answered 4096 untouched [⟨4096, kheapSize - metaSize, true⟩] 100 1
        (kmalloc 4096 untouched 100) ∧
      AnsweredAligned 4096 untouched [⟨4096, kheapSize - metaSize, true⟩] 100 (2 ^ 6) := by
  have hanswered := @requests_answered_iff 4096 untouched _ ⟨by decide, by decide⟩
    represents_untouched 100 6 (by decide) (by decide)
  exact ⟨hanswered.1.mpr (Or.inl (by decide)), hanswered.2.mpr (Or.inl (by decide))⟩

/-- A request of all ones gets a block without a byte, and an aligned one 24 bytes. -/
theorem not_answered_large :
    ¬ Answered 4096 (ready 4096 untouched) [⟨4096, kheapSize - metaSize, true⟩] (2 ^ 64 - 1) 1
        (kmalloc 4096 (ready 4096 untouched) (2 ^ 64 - 1)) ∧
      ¬ AnsweredAligned 4096 (ready 4096 untouched) [⟨4096, kheapSize - metaSize, true⟩]
        (2 ^ 64 - 1) (2 ^ 4) := by
  have harray : HeapArray 4096 := ⟨by decide, by decide⟩
  constructor
  · rw [answered_kmalloc_iff harray represents_untouched (by decide)]
    rintro (hsum | hnone)
    · exact absurd hsum (by decide)
    · exact absurd (hnone _ (List.mem_singleton_self _)) (by decide)
  · rw [answeredAligned_iff harray represents_untouched (by decide) (by decide)]
    rintro (hsum | hnone)
    · exact absurd hsum (by decide)
    · exact absurd (hnone _ (List.mem_singleton_self _) rfl) (by decide)

end EigenOS.HeapImage
