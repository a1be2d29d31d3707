import Mathlib.Algebra.Group.Int.Defs
import EigenOS.Memory.AllocationFailure

/-!
# Memory for programs

`malloc` and `calloc` of the C library and the emulated `mmap`, down to the answer of the kernel.
A failure of the kernel is -1, which none of them takes for one, so that they keep what they
promise exactly where the kernel has a block and the size does not wrap on the way to it.
-/

namespace EigenOS.Libc

open EigenOS.Memory

/-- The kernel when a task asks it for memory. -/
structure Kernel where
  machine : Machine
  task : ℕ
  space : ℕ
  kmalloc : Bool
  walk : Walk

/-- A call of an allocation function: what it returns, if it comes back, the addresses and lengths
it stores to, the size it asked the kernel for with the answer, and the machine afterwards. -/
structure AllocCall where
  result : Option ℕ
  stores : List (ℕ × ℕ)
  asked : Option (ℕ × AllocReply)
  machine : Machine

/-- The result of the system call as a `uint64_t`.  After a fault in the kernel there is none. -/
def returned : AllocReply → Option ℕ
  | .null => some 0
  | .error => some (2 ^ 64 - 1)
  | .block base => some base
  | .fault => none

/-- `memset`, as the bytes it stores to. -/
def memset (p len : ℕ) : List (ℕ × ℕ) := if len = 0 then [] else [(p, len)]

def mapFailed : ℕ := 2 ^ 64 - 1

variable (k : Kernel)

/-- `eigen_malloc`. -/
def eigenMalloc (size : ℕ) : AllocCall where
  result := returned (allocUser k.machine k.task k.space size k.kmalloc k.walk).2
  stores := []
  asked := some (size, (allocUser k.machine k.task k.space size k.kmalloc k.walk).2)
  machine := (allocUser k.machine k.task k.space size k.kmalloc k.walk).1

def malloc (sz : ℕ) : AllocCall := eigenMalloc k (if sz ≠ 0 then sz else 1)

def calloc (n sz : ℕ) : AllocCall :=
  let t := n * sz % 2 ^ 64
  let call := eigenMalloc k (if t ≠ 0 then t else 1)
  match call.result with
  | none => call
  | some p => if p ≠ 0 then { call with stores := memset p t } else call

/-- The file behind a descriptor: whether its path is known, the status and the size that
`eigen_fs_size` gets from the kernel, and the result of `eigen_fs_read_file`. -/
structure MappedFile where
  registered : Bool
  status : Int32
  bytes : UInt32
  read : Int32

/-- `eigen_fs_size`, and -1 for an empty path. -/
def MappedFile.size (file : MappedFile) : ℤ :=
  if file.registered = true then
    if file.status ≠ 0 then file.status.toInt else file.bytes.toNat
  else -1

/-- `mmap` without asking the kernel. -/
def refuse : AllocCall := ⟨some mapFailed, [], none, k.machine⟩

/-- What `mmap` does with its memory, the file read into it at the end. -/
def fill (call : AllocCall) (len : ℕ) (file : Option MappedFile) : AllocCall :=
  match call.result with
  | none => call
  | some p =>
      if p = 0 then { call with result := some mapFailed }
      else
        match file with
        | none => { call with stores := memset p len }
        | some file =>
            if 0 < file.size then
              if file.read < 0 then
                { call with
                  result := some mapFailed
                  stores := memset p len
                  machine := freeUser call.machine k.space p }
              else { call with stores := memset p len ++ memset p file.read.toInt.toNat }
            else { call with stores := memset p len }

/-- The length that `mmap` asks for. -/
def mapLength (len : ℕ) (file : MappedFile) : ℕ :=
  if (len : ℤ) < file.size then file.size.toNat else len

def mmap (len : ℕ) (fd : ℤ) (file : MappedFile) : AllocCall :=
  if len = 0 then refuse k
  else if 0x7FFFFFF0 < len then refuse k
  else if 0 ≤ fd then
    if file.size < 0 then refuse k
    else fill k (eigenMalloc k (mapLength len file)) (mapLength len file) (some file)
  else fill k (eigenMalloc k len) len none

/-- A refusal of the kernel is what the function returns, with nothing stored, and any other
pointer is that of a block the kernel has just given, with all the bytes that were asked for. -/
structure ReachesProgram (failure requested : ℕ) (call : AllocCall) : Prop where
  failed : ∀ size reply, call.asked = some (size, reply) → (∀ base, reply ≠ .block base) →
    call.result = some failure ∧ call.stores = []
  given : ∀ p, call.result = some p → p ≠ failure →
    ∃ size, call.asked = some (size, .block p) ∧
      Gives call.machine k.space requested p (requestPages size)

/-! ## The answers of the kernel -/

variable {k}

theorem eigenMalloc_given (h : InHeap k.machine) {size : ℕ} (hpositive : size ≠ 0)
    (hcan : Obtainable k.machine size k.walk) :
    ∃ base, (eigenMalloc k size).asked = some (size, .block base) ∧
      (eigenMalloc k size).result = some base ∧ base ≠ 0 ∧ base ≠ mapFailed ∧
      (size + 4096 ≤ 2 ^ 64 →
        Gives (eigenMalloc k size).machine k.space size base (requestPages size)) := by
  obtain ⟨base, hreply, hlow, hhigh, hgives⟩ :=
    alloc_obtainable k.machine k.task k.space size k.kmalloc k.walk h hpositive hcan
  unfold userHeapLimit userHeapBase at hhigh
  unfold userHeapBase at hlow
  unfold eigenMalloc
  dsimp only
  rw [hreply]
  refine ⟨base, rfl, rfl, ?_, ?_, hgives⟩
  · omega
  · unfold mapFailed
    omega

theorem eigenMalloc_refused (h : InHeap k.machine) {size : ℕ} (hpositive : size ≠ 0)
    (hcannot : ¬ Obtainable k.machine size k.walk) :
    ∃ reply, (eigenMalloc k size).asked = some (size, reply) ∧ (∀ base, reply ≠ .block base) ∧
      ((eigenMalloc k size).result = some (2 ^ 64 - 1) ∨ (eigenMalloc k size).result = none) := by
  refine ⟨_, rfl, ?_⟩
  unfold eigenMalloc
  dsimp only
  rcases alloc_not_obtainable k.machine k.task k.space size k.kmalloc k.walk h hpositive hcannot
    with hreply | hreply
  · rw [hreply]
    exact ⟨nofun, Or.inl rfl⟩
  · rw [hreply]
    exact ⟨nofun, Or.inr rfl⟩

theorem reaches_of_given {failure requested size base : ℕ} {call : AllocCall}
    (hasked : call.asked = some (size, .block base)) (hresult : call.result = some base)
    (hgives : Gives call.machine k.space requested base (requestPages size)) :
    ReachesProgram k failure requested call where
  failed size' reply hreply hnone := by
    have hsame := Option.some.inj (hasked.symm.trans hreply)
    exact absurd (congrArg Prod.snd hsame).symm (hnone base)
  given p hp _ := by
    obtain rfl := Option.some.inj (hresult.symm.trans hp)
    exact ⟨size, hasked, hgives⟩

theorem atLeastOne_pos (t : ℕ) : (if t ≠ 0 then t else 1) ≠ 0 := by
  split
  · next hne => exact hne
  · exact Nat.one_ne_zero

theorem le_atLeastOne (t : ℕ) : t ≤ if t ≠ 0 then t else 1 := by
  split <;> omega

theorem atLeastOne_le {t : ℕ} (ht : t + 4096 ≤ 2 ^ 64) :
    (if t ≠ 0 then t else 1) + 4096 ≤ 2 ^ 64 := by
  split <;> omega

theorem malloc_reaches_iff (h : InHeap k.machine) (sz : ℕ) :
    ReachesProgram k 0 sz (malloc k sz) ↔
      sz + 4096 ≤ 2 ^ 64 ∧ Obtainable k.machine (if sz ≠ 0 then sz else 1) k.walk := by
  by_cases hcan : Obtainable k.machine (if sz ≠ 0 then sz else 1) k.walk
  · rw [and_iff_left hcan]
    obtain ⟨base, hasked, hresult, hne, _, hgives⟩ := eigenMalloc_given h (atLeastOne_pos sz) hcan
    constructor
    · intro hreach
      obtain ⟨_, _, hgiven⟩ := hreach.given base hresult hne
      exact hgiven.size_le
    · intro hsize
      exact reaches_of_given hasked hresult ((hgives (atLeastOne_le hsize)).mono (le_atLeastOne sz))
  · refine iff_of_false (fun hreach => ?_) fun hboth => hcan hboth.2
    obtain ⟨reply, hasked, hnone, hresult⟩ := eigenMalloc_refused h (atLeastOne_pos sz) hcan
    have hnull := (hreach.failed _ reply hasked hnone).1
    change (eigenMalloc k _).result = _ at hnull
    rcases hresult with hresult | hresult
    · exact absurd (Option.some.inj (hresult.symm.trans hnull)) (by decide)
    · exact nomatch hresult.symm.trans hnull

theorem calloc_reaches_iff (h : InHeap k.machine) (n sz : ℕ) :
    ReachesProgram k 0 (n * sz) (calloc k n sz) ↔
      n * sz + 4096 ≤ 2 ^ 64 ∧
        Obtainable k.machine (if n * sz % 2 ^ 64 ≠ 0 then n * sz % 2 ^ 64 else 1) k.walk := by
  by_cases hcan : Obtainable k.machine (if n * sz % 2 ^ 64 ≠ 0 then n * sz % 2 ^ 64 else 1) k.walk
  · rw [and_iff_left hcan]
    obtain ⟨base, hasked, hresult, hne, _, hgives⟩ := eigenMalloc_given h (atLeastOne_pos _) hcan
    have hcalloc : calloc k n sz =
        { eigenMalloc k (if n * sz % 2 ^ 64 ≠ 0 then n * sz % 2 ^ 64 else 1) with
          stores := memset base (n * sz % 2 ^ 64) } := by
      unfold calloc
      dsimp only
      rw [hresult]
      exact if_pos hne
    rw [hcalloc]
    constructor
    · intro hreach
      obtain ⟨_, _, hgiven⟩ := hreach.given base hresult hne
      exact hgiven.size_le
    · intro hsize
      have hmod : n * sz % 2 ^ 64 = n * sz := Nat.mod_eq_of_lt (by omega)
      rw [hmod] at hasked hresult hgives ⊢
      exact reaches_of_given hasked hresult ((hgives (atLeastOne_le hsize)).mono (le_atLeastOne _))
  · refine iff_of_false (fun hreach => ?_) fun hboth => hcan hboth.2
    obtain ⟨reply, hasked, hnone, hresult⟩ := eigenMalloc_refused h (atLeastOne_pos _) hcan
    rcases hresult with hresult | hresult
    · have hcalloc : calloc k n sz =
          { eigenMalloc k (if n * sz % 2 ^ 64 ≠ 0 then n * sz % 2 ^ 64 else 1) with
            stores := memset (2 ^ 64 - 1) (n * sz % 2 ^ 64) } := by
        unfold calloc
        dsimp only
        rw [hresult]
        exact if_pos (by decide)
      rw [hcalloc] at hreach
      have hnull := (hreach.failed _ reply hasked hnone).1
      exact absurd (Option.some.inj (hresult.symm.trans hnull)) (by decide)
    · have hcalloc : calloc k n sz =
          eigenMalloc k (if n * sz % 2 ^ 64 ≠ 0 then n * sz % 2 ^ 64 else 1) := by
        unfold calloc
        dsimp only
        rw [hresult]
      rw [hcalloc] at hreach
      exact nomatch hresult.symm.trans (hreach.failed _ reply hasked hnone).1

/-! ## Mapping -/

variable (k) in
theorem fill_given {call : AllocCall} (len base : ℕ) (hresult : call.result = some base)
    (hne : base ≠ 0) (file : Option MappedFile) :
    (fill k call len file).asked = call.asked ∧
      ((fill k call len file).result = some base ∧ (fill k call len file).machine = call.machine ∨
        (fill k call len file).result = some mapFailed) := by
  unfold fill
  rw [hresult]
  dsimp only
  rw [if_neg hne]
  cases file with
  | none => exact ⟨rfl, Or.inl ⟨rfl, rfl⟩⟩
  | some file =>
      dsimp only
      split
      · split
        · exact ⟨rfl, Or.inr rfl⟩
        · exact ⟨rfl, Or.inl ⟨rfl, rfl⟩⟩
      · exact ⟨rfl, Or.inl ⟨rfl, rfl⟩⟩

variable (k) in
theorem fill_refused {call : AllocCall} (len : ℕ) (hlen : len ≠ 0)
    (hresult : call.result = some (2 ^ 64 - 1)) (file : Option MappedFile) :
    (fill k call len file).asked = call.asked ∧ (fill k call len file).stores ≠ [] := by
  have hset : memset (2 ^ 64 - 1) len = [(2 ^ 64 - 1, len)] := if_neg hlen
  unfold fill
  rw [hresult]
  dsimp only
  rw [if_neg (by decide), hset]
  cases file with
  | none => exact ⟨rfl, nofun⟩
  | some file =>
      dsimp only
      split
      · split
        · exact ⟨rfl, nofun⟩
        · exact ⟨rfl, nofun⟩
      · exact ⟨rfl, nofun⟩

theorem fill_reaches_iff (h : InHeap k.machine) {requested len : ℕ} (hlen : len ≠ 0)
    (hle : requested ≤ len) (hsize : len + 4096 ≤ 2 ^ 64) (file : Option MappedFile) :
    ReachesProgram k mapFailed requested (fill k (eigenMalloc k len) len file) ↔
      Obtainable k.machine len k.walk := by
  by_cases hcan : Obtainable k.machine len k.walk
  · refine iff_of_true ?_ hcan
    obtain ⟨base, hasked, hresult, hne, _, hgives⟩ := eigenMalloc_given h hlen hcan
    obtain ⟨hsame, hout⟩ := fill_given k len base hresult hne file
    rcases hout with ⟨hgiven, hmachine⟩ | hfailed
    · refine reaches_of_given (hsame.trans hasked) hgiven ?_
      rw [hmachine]
      exact (hgives hsize).mono hle
    · refine ⟨fun size reply hreply hnone => ?_, fun p hp hne => ?_⟩
      · have heq := Option.some.inj ((hsame.trans hasked).symm.trans hreply)
        exact absurd (congrArg Prod.snd heq).symm (hnone base)
      · exact absurd (Option.some.inj (hp.symm.trans hfailed)) hne
  · refine iff_of_false (fun hreach => ?_) hcan
    obtain ⟨reply, hasked, hnone, hresult⟩ := eigenMalloc_refused h hlen hcan
    rcases hresult with hresult | hresult
    · obtain ⟨hsame, hstores⟩ := fill_refused k len hlen hresult file
      exact hstores (hreach.failed _ reply (hsame.trans hasked) hnone).2
    · have hfill : fill k (eigenMalloc k len) len file = eigenMalloc k len := by
        unfold fill
        rw [hresult]
      rw [hfill] at hreach
      exact nomatch hresult.symm.trans (hreach.failed _ reply hasked hnone).1

theorem reaches_refuse (requested : ℕ) : ReachesProgram k mapFailed requested (refuse k) where
  failed _ _ hasked := nomatch hasked
  given _ hp hne := absurd (Option.some.inj hp).symm hne

theorem MappedFile.size_lt (file : MappedFile) : file.size < 2 ^ 32 := by
  unfold MappedFile.size
  split
  · split
    · have hstatus := file.status.toInt_lt
      omega
    · have hbytes := file.bytes.toNat_lt
      omega
  · decide

theorem mapLength_spec (len : ℕ) (file : MappedFile) :
    len ≤ mapLength len file ∧ (mapLength len file ≤ len ∨ mapLength len file < 2 ^ 32) := by
  have hsize := file.size_lt
  unfold mapLength
  split <;> omega

theorem mmap_reaches_iff (h : InHeap k.machine) (len : ℕ) (fd : ℤ) (file : MappedFile) :
    ReachesProgram k mapFailed len (mmap k len fd file) ↔
      len = 0 ∨ 0x7FFFFFF0 < len ∨ (0 ≤ fd ∧ file.size < 0) ∨
        Obtainable k.machine (if 0 ≤ fd then mapLength len file else len) k.walk := by
  obtain ⟨hlonger, hbound⟩ := mapLength_spec len file
  unfold mmap
  by_cases hzero : len = 0
  · rw [if_pos hzero]
    exact iff_of_true (reaches_refuse len) (Or.inl hzero)
  rw [if_neg hzero, or_iff_right hzero]
  by_cases hlarge : 0x7FFFFFF0 < len
  · rw [if_pos hlarge]
    exact iff_of_true (reaches_refuse len) (Or.inl hlarge)
  rw [if_neg hlarge, or_iff_right hlarge]
  by_cases hfd : 0 ≤ fd
  · rw [if_pos hfd, if_pos hfd, and_iff_right hfd]
    by_cases hsize : file.size < 0
    · rw [if_pos hsize]
      exact iff_of_true (reaches_refuse len) (Or.inl hsize)
    · rw [if_neg hsize, or_iff_right hsize]
      exact fill_reaches_iff h (by omega) hlonger (by omega) (some file)
  · rw [if_neg hfd, if_neg hfd, or_iff_right fun hboth => hfd hboth.1]
    exact fill_reaches_iff h hzero le_rfl (by omega) none

/-- For every request and every state of the heap. -/
theorem reachesProgram_iff (h : InHeap k.machine) :
    (∀ sz, ReachesProgram k 0 sz (malloc k sz) ↔
        sz + 4096 ≤ 2 ^ 64 ∧ Obtainable k.machine (if sz ≠ 0 then sz else 1) k.walk) ∧
      (∀ n sz, ReachesProgram k 0 (n * sz) (calloc k n sz) ↔
        n * sz + 4096 ≤ 2 ^ 64 ∧
          Obtainable k.machine (if n * sz % 2 ^ 64 ≠ 0 then n * sz % 2 ^ 64 else 1) k.walk) ∧
      ∀ len fd file, ReachesProgram k mapFailed len (mmap k len fd file) ↔
        len = 0 ∨ 0x7FFFFFF0 < len ∨ (0 ≤ fd ∧ file.size < 0) ∨
          Obtainable k.machine (if 0 ≤ fd then mapLength len file else len) k.walk :=
  ⟨malloc_reaches_iff h, calloc_reaches_iff h, mmap_reaches_iff h⟩

/-- The kernel with so many free frames and no blocks. -/
def freshKernel (free : List ℕ) : Kernel := ⟨boot free, 1, 1, true, plainWalk⟩

theorem reachesProgram_iff_fresh :
    ReachesProgram (freshKernel [1, 2]) 0 5 (malloc (freshKernel [1, 2]) 5) ∧
      ReachesProgram (freshKernel [1, 2]) 0 (3 * 8) (calloc (freshKernel [1, 2]) 3 8) ∧
        ReachesProgram (freshKernel [1, 2]) mapFailed 8192
          (mmap (freshKernel [1, 2]) 8192 (-1) ⟨false, 0, 0, 0⟩) := by
  have hheap : InHeap (freshKernel [1, 2]).machine := inHeap_boot (by decide)
  obtain ⟨hmalloc, hcalloc, hmmap⟩ := reachesProgram_iff hheap
  exact ⟨(hmalloc 5).mpr ⟨by decide, obtainable_boot.mpr (by decide)⟩,
    (hcalloc 3 8).mpr ⟨by decide, obtainable_boot.mpr (by decide)⟩,
    (hmmap 8192 (-1) ⟨false, 0, 0, 0⟩).mpr
      (Or.inr (Or.inr (Or.inr (obtainable_boot.mpr (by decide)))))⟩

/-- No frame is free: all three take the kernel's -1 for memory. -/
theorem not_reachesProgram_noFrames :
    ¬ ReachesProgram (freshKernel []) 0 5 (malloc (freshKernel []) 5) ∧
      ¬ ReachesProgram (freshKernel []) 0 (3 * 8) (calloc (freshKernel []) 3 8) ∧
        ¬ ReachesProgram (freshKernel []) mapFailed 8192
          (mmap (freshKernel []) 8192 (-1) ⟨false, 0, 0, 0⟩) := by
  refine ⟨fun h => ?_, fun h => ?_, fun h => ?_⟩
  · exact absurd (h.failed 5 .error (by decide) nofun).1 (by decide)
  · exact absurd (h.failed 24 .error (by decide) nofun).1 (by decide)
  · exact absurd (h.failed 8192 .error (by decide) nofun).2 (by decide)

end EigenOS.Libc
