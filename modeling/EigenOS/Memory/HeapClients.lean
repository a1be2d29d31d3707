import EigenOS.Library.Transition
import EigenOS.Memory.HeapCalls

/-!
# The clients of the kernel heap

Clients allocate and release in any order, and write to what they hold.  Each live pointer has an
allocated block of its own.
-/

namespace EigenOS.HeapImage

open EigenOS.ByteMemory Function
open EigenOS.Memory (BlockMeta Chained Used kheapSize le_roundSize metaSize roundSize)
open EigenOS.Transition

/-- How many bytes a client has asked for, and from which of the two allocators. -/
structure Allocation where
  size : ℕ
  aligned : Bool
  deriving DecidableEq

/-- The heap, and the pointers that clients have obtained and not released. -/
structure Clients where
  heap : Heap
  live : ℕ → Option Allocation

inductive HeapEvent where
  | kmalloc (size : ℕ)
  | kmallocAligned (size align : ℕ)
  | kfree (ptr : ℕ)
  | kfreeAligned (ptr : ℕ)
  /-- A client stores a byte in what it holds. -/
  | write (ptr offset : ℕ) (byte : UInt8)

/-- Sizes are below that of the heap, every power of two is an alignment, and a live pointer is
released by the function that belongs to it. -/
def HeapEvent.Allowed (s : Clients) : HeapEvent → Prop
  | .kmalloc size => size < kheapSize
  | .kmallocAligned size align => size < kheapSize ∧ 0 < align ∧ align ≤ 2 ^ 63
  | .kfree ptr => ∃ a, s.live ptr = some a ∧ a.aligned = false
  | .kfreeAligned ptr => ∃ a, s.live ptr = some a ∧ a.aligned = true
  | .write ptr offset _ => ∃ a, s.live ptr = some a ∧ offset < a.size

/-- A client has the pointer that a call returns, unless it is null. -/
def Clients.obtain (s : Clients) (request : Allocation) (reply : ℕ × Heap) : Clients where
  heap := reply.2
  live := if reply.1 = 0 then s.live else update s.live reply.1 (some request)

def Clients.release (s : Clients) (ptr : ℕ) (h : Heap) : Clients where
  heap := h
  live := update s.live ptr none

/-- What an event leaves; `none` is a call that does not return. -/
def HeapEvent.act (heap : ℕ) (s : Clients) : HeapEvent → Option Clients
  | .kmalloc size => (HeapImage.kmalloc heap s.heap size).map (s.obtain ⟨size, false⟩)
  | .kmallocAligned size align =>
      (HeapImage.kmallocAligned heap s.heap size align).map (s.obtain ⟨size, true⟩)
  | .kfree ptr => some (s.release ptr (HeapImage.kfree heap s.heap ptr))
  | .kfreeAligned ptr => some (s.release ptr (HeapImage.kfreeAligned heap s.heap ptr))
  | .write ptr offset byte =>
      some { s with heap := { s.heap with
        memory := update s.heap.memory (ptr + offset) byte } }

def HeapStep (heap : ℕ) (s : Clients) (event : HeapEvent) (next : Clients) : Prop :=
  event.Allowed s ∧ event.act heap s = some next

/-- Nothing is allocated, before or after `kheap_init`. -/
def Fresh (heap : ℕ) (s : Clients) : Prop :=
  (∀ ptr, s.live ptr = none) ∧
    (s.heap.initialized = false ∨ ∃ h, s.heap = kheapInit heap h)

/-! ## What the heap is for -/

/-- The headers are those of blocks that fill the heap, and each live pointer is in an allocated
block, to whose end its bytes go. -/
structure Intact (heap : ℕ) (s : Clients) (blocks : List BlockMeta) (limit : ℕ → ℕ) : Prop where
  headers : s.heap.initialized = true → Headers s.heap.memory s.heap.freeList blocks 0
  tiles : s.heap.initialized = true → Chained heap blocks (heap + kheapSize)
  block : ∀ ptr, s.live ptr ≠ none → ∃ block ∈ blocks, block.isFree = false ∧
    block.addr + metaSize ≤ ptr ∧ limit ptr = block.addr + metaSize + block.size
  large : ∀ ptr a, s.live ptr = some a → ptr + a.size ≤ limit ptr
  inside : ∀ ptr, s.live ptr ≠ none → heap ≤ ptr ∧ limit ptr ≤ heap + kheapSize
  apart : ∀ p q, s.live p ≠ none → s.live q ≠ none → p ≠ q → limit p ≤ q ∨ limit q ≤ p

/-- Every call that may be made returns. -/
def Returns (heap : ℕ) (s : Clients) : Prop :=
  ∀ event : HeapEvent, event.Allowed s → ∃ next, event.act heap s = some next

/-- A call leaves the bytes of live pointers as they are. -/
def KeepsBytes (s : Clients) (event : HeapEvent) (next : Clients) : Prop :=
  (∀ ptr offset byte, event ≠ .write ptr offset byte) →
    ∀ ptr a, s.live ptr = some a → ∀ i < a.size,
      next.heap.memory (ptr + i) = s.heap.memory (ptr + i)

/-- A pointer that a call returns is not one that is live. -/
def ReturnsNew (heap : ℕ) (s : Clients) : HeapEvent → Clients → Prop
  | .kmalloc size, _ =>
      ∀ reply, HeapImage.kmalloc heap s.heap size = some reply → s.live reply.1 = none
  | .kmallocAligned size align, _ =>
      ∀ reply, HeapImage.kmallocAligned heap s.heap size align = some reply →
        s.live reply.1 = none
  | .kfree _, _ | .kfreeAligned _, _ | .write .., _ => True

/-! ## Blocks of live pointers -/

/-- The block of a live pointer. -/
structure Owns (m : Memory) (blocks : List BlockMeta) (addr n ptr : ℕ) (a : Allocation) :
    Prop where
  used : Used blocks addr n
  room : ptr + a.size ≤ addr + metaSize + n
  plain : a.aligned = false → ptr = addr + metaSize
  aligned : a.aligned = true → addr + metaSize + 8 ≤ ptr ∧ load m 8 (ptr - 8) = addr + metaSize

/-- Each live pointer has a block of its own. -/
structure Held (heap : ℕ) (s : Clients) (blocks : List BlockMeta) (owner length : ℕ → ℕ) :
    Prop where
  rep : Represents heap s.heap blocks
  owns : ∀ ptr a, s.live ptr = some a →
    Owns s.heap.memory blocks (owner ptr) (length ptr) ptr a
  single : ∀ p q, s.live p ≠ none → s.live q ≠ none → owner p = owner q → p = q

/-- Clients hold nothing of a heap without headers. -/
def Invariant (heap : ℕ) (s : Clients) : Prop :=
  (s.heap.initialized = false ∧ ∀ ptr, s.live ptr = none) ∨
    ∃ blocks owner length, Held heap s blocks owner length

variable {heap : ℕ} {s : Clients} {blocks blocks' : List BlockMeta} {owner length : ℕ → ℕ}
  {m m' : Memory} {addr n ptr : ℕ} {a : Allocation} {h' : Heap}

theorem Owns.le (h : Owns m blocks addr n ptr a) : addr + metaSize ≤ ptr := by
  cases haligned : a.aligned with
  | false => exact Nat.le_of_eq (h.plain haligned).symm
  | true =>
      have hle := (h.aligned haligned).1
      omega

theorem Owns.congr (h : Owns m blocks addr n ptr a) (hused : Used blocks' addr n)
    (hkeeps : ∀ x, addr + metaSize ≤ x → x < ptr → m' x = m x) :
    Owns m' blocks' addr n ptr a := by
  refine ⟨hused, h.room, h.plain, fun haligned => ?_⟩
  obtain ⟨hle, hload⟩ := h.aligned haligned
  refine ⟨hle, ?_⟩
  rw [← hload]
  exact load_congr fun x hfrom hto => hkeeps x (by omega) (by omega)

theorem Held.exists_live (hheld : Held heap s blocks owner length) (hlive : s.live ptr ≠ none) :
    ∃ a, s.live ptr = some a ∧
      Owns s.heap.memory blocks (owner ptr) (length ptr) ptr a := by
  obtain ⟨a, ha⟩ := Option.ne_none_iff_exists'.mp hlive
  exact ⟨a, ha, hheld.owns ptr a ha⟩

theorem Held.keeps_live (hheld : Held heap s blocks owner length)
    (hkeeps : KeepsPayloads blocks s.heap.memory m) (hlive : s.live ptr = some a) {i : ℕ}
    (hi : i < a.size) : m (ptr + i) = s.heap.memory (ptr + i) := by
  have howns := hheld.owns ptr a hlive
  have hle := howns.le
  have hroom := howns.room
  exact hkeeps _ _ howns.used _ (by omega) (by omega)

theorem Held.obtain (hheld : Held heap s blocks owner length) (hrep : Represents heap h' blocks')
    (halloc : Allocates blocks blocks' addr n)
    (hkeeps : KeepsPayloads blocks s.heap.memory h'.memory)
    (hnew : Owns h'.memory blocks' addr n ptr a) :
    s.live ptr = none ∧
      Held heap ⟨h', update s.live ptr (some a)⟩ blocks' (update owner ptr addr)
        (update length ptr n) := by
  have hold : ∀ other b, s.live other = some b →
      Owns h'.memory blocks' (owner other) (length other) other b ∧ owner other ≠ addr := by
    intro other b hlive
    have howns := hheld.owns other b hlive
    have hused : Used blocks' (owner other) (length other) :=
      (halloc.used_iff _ _).mpr (Or.inr howns.used)
    refine ⟨howns.congr hused fun x hfrom hto => ?_, ?_⟩
    · have hroom := howns.room
      exact hkeeps _ _ howns.used x hfrom (by omega)
    · intro heq
      exact halloc.fresh _ (heq ▸ howns.used)
  have hnone : s.live ptr = none := by
    cases hlive : s.live ptr with
    | none => rfl
    | some b =>
        obtain ⟨howns, hne⟩ := hold ptr b hlive
        have hapart := hrep.apart howns.used hnew.used hne
        have hle := howns.le
        have hle' := hnew.le
        have hroom := howns.room
        have hroom' := hnew.room
        unfold metaSize at *
        omega
  refine ⟨hnone, hrep, ?_, ?_⟩
  · intro other b hlive
    dsimp only at hlive ⊢
    by_cases hother : other = ptr
    · subst hother
      rw [update_self, Option.some.injEq] at hlive
      rw [update_self, update_self, ← hlive]
      exact hnew
    · rw [update_of_ne hother] at hlive
      rw [update_of_ne hother, update_of_ne hother]
      exact (hold other b hlive).1
  · intro p q hp hq heq
    dsimp only at hp hq
    by_cases hpnew : p = ptr
    · by_cases hqnew : q = ptr
      · rw [hpnew, hqnew]
      · rw [update_of_ne hqnew] at hq
        obtain ⟨b, hb, _⟩ := hheld.exists_live hq
        rw [hpnew, update_self, update_of_ne hqnew] at heq
        exact absurd heq.symm (hold q b hb).2
    · rw [update_of_ne hpnew] at hp
      obtain ⟨b, hb, _⟩ := hheld.exists_live hp
      by_cases hqnew : q = ptr
      · rw [hqnew, update_self, update_of_ne hpnew] at heq
        exact absurd heq (hold p b hb).2
      · rw [update_of_ne hqnew] at hq
        rw [update_of_ne hpnew, update_of_ne hqnew] at heq
        exact hheld.single p q hp hq heq

theorem Held.release (hheld : Held heap s blocks owner length)
    (hlive : s.live ptr = some a) (hrep : Represents heap h' blocks')
    (hused : ∀ x k, Used blocks' x k ↔ x ≠ owner ptr ∧ Used blocks x k)
    (hkeeps : KeepsPayloads blocks s.heap.memory h'.memory) :
    Held heap (s.release ptr h') blocks' owner length := by
  refine ⟨hrep, ?_, ?_⟩
  · intro other b hother
    unfold Clients.release at hother
    dsimp only at hother
    by_cases heq : other = ptr
    · rw [heq, update_self] at hother
      cases hother
    · rw [update_of_ne heq] at hother
      have howns := hheld.owns other b hother
      have hne : owner other ≠ owner ptr := by
        intro hsame
        apply heq
        exact hheld.single other ptr (by rw [hother]; exact Option.some_ne_none b)
          (by rw [hlive]; exact Option.some_ne_none a) hsame
      refine howns.congr ((hused _ _).mpr ⟨hne, howns.used⟩) fun x hfrom hto => ?_
      have hroom := howns.room
      exact hkeeps _ _ howns.used x hfrom (by omega)
  · intro p q hp hq
    unfold Clients.release at hp hq
    dsimp only at hp hq
    by_cases hpfree : p = ptr
    · rw [hpfree, update_self] at hp
      exact absurd rfl hp
    · by_cases hqfree : q = ptr
      · rw [hqfree, update_self] at hq
        exact absurd rfl hq
      · rw [update_of_ne hpfree] at hp
        rw [update_of_ne hqfree] at hq
        exact hheld.single p q hp hq

theorem Held.write (hheld : Held heap s blocks owner length) (hlive : s.live ptr = some a)
    {offset : ℕ} (hoffset : offset < a.size) (byte : UInt8) :
    Held heap { s with heap := { s.heap with
      memory := update s.heap.memory (ptr + offset) byte } } blocks owner length := by
  have howns := hheld.owns ptr a hlive
  have hle := howns.le
  have hroom := howns.room
  have hchanges : ChangesWithin
      { x | owner ptr + metaSize ≤ x ∧ x < owner ptr + metaSize + length ptr } s.heap.memory
      (update s.heap.memory (ptr + offset) byte) := by
    intro x hx
    apply update_of_ne
    rintro rfl
    exact hx ⟨by omega, by omega⟩
  refine ⟨hheld.rep.congr howns.used hchanges, ?_, hheld.single⟩
  intro other b hother
  have hothers := hheld.owns other b hother
  by_cases heq : other = ptr
  · subst heq
    exact hothers.congr hothers.used fun x hfrom hto => update_of_ne (by omega) _ _
  · have hne : owner other ≠ owner ptr := by
      intro hsame
      apply heq
      exact hheld.single other ptr (by rw [hother]; exact Option.some_ne_none b)
        (by rw [hlive]; exact Option.some_ne_none a) hsame
    refine hothers.congr hothers.used fun x hfrom hto => ?_
    have hroom' := hothers.room
    exact hheld.rep.keeps_of_changes howns.used hchanges hothers.used hne hfrom (by omega)

end EigenOS.HeapImage
