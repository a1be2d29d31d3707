import Mathlib.Data.List.GetD
import Mathlib.Tactic.IntervalCases
import EigenOS.Memory.KernelHeap
import EigenOS.Signals.KernelFrames

/-!
# The frame of a forked child

`int 0x80` leaves the registers of the caller on its kernel stack, and `sys_fork` copies the
bytes from there to the top of the stack to the stack of the child.  The top is rounded and
lowered by `abi_stack_top`, and the processor rounds down what the scheduler gives it: for a
base that is a multiple of 16 the copy ends below the last word of the frame.
-/

namespace EigenOS.Tasking

open EigenOS.Memory EigenOS.Signals Function

def kernelStackBytes : ℕ := kernelStackSize + 16

structure KernelStack where
  base : ℕ
  fits : stackEnd base ≤ 2 ^ 64

/-! ## The entry of a system call -/

def push (stack : Signals.Memory × ℕ) (value : UInt64) : Signals.Memory × ℕ :=
  (update stack.1 (stack.2 - 8) value, stack.2 - 8)

/-- What the processor pushes, and then `PUSH_ALL`. -/
def pushOrder (regs : Registers) : List UInt64 :=
  [regs.ss, regs.rsp, regs.rflags, regs.cs, regs.rip,
    regs.rax, regs.rcx, regs.rdx, regs.rsi, regs.rdi, regs.r8, regs.r9, regs.r10, regs.r11,
    regs.rbx, regs.rbp, regs.r12, regs.r13, regs.r14, regs.r15]

/-- What `schedule` sets `tss.rsp0` to. -/
def rsp0 (base : ℕ) : ℕ := (base + kernelStackSize) % 2 ^ 64

/-- `int 0x80` from ring 3, up to the store to `g_syscall_frame_rsp`: the processor rounds the
new stack pointer down to a multiple of 16 before it pushes. -/
def int80 (mem : Signals.Memory) (rsp0 : ℕ) (regs : Registers) : Signals.Memory × ℕ :=
  (pushOrder regs).foldl push (mem, rsp0 / 16 * 16)

/-! ## The copy -/

/-- `abi_stack_top`. -/
def abiStackTop (base size : ℕ) : ℕ :=
  ((base + size + 15) % 2 ^ 64 / 16 * 16 + 2 ^ 64 - 8) % 2 ^ 64

def kstackCanary : UInt64 := 0xC0DEC0DEFEEDFACE

/-- `kstack_canary_set`. -/
def kstackCanarySet (mem : Signals.Memory) (base : ℕ) : Signals.Memory :=
  if base ≠ 0 then update mem base kstackCanary else mem

/-- `memcpy` of whole words. -/
def memcpy (mem : Signals.Memory) (dest source bytes : ℕ) : Signals.Memory := fun address =>
  if dest ≤ address ∧ address < dest + bytes then mem (source + (address - dest))
  else mem address

/-- The bytes that are copied. -/
def frameBytes (parentTop parentFrame : ℕ) : ℕ :=
  let bytes := (parentTop + 2 ^ 64 - parentFrame) % 2 ^ 64
  if kernelStackSize < bytes then frameSize else bytes

/-- The part of `sys_fork` that makes the frame of the child; the address is its `rsp`. -/
def cloneFrame (mem : Signals.Memory) (parentTop parentFrame childTop : ℕ) :
    Signals.Memory × ℕ :=
  let bytes := frameBytes parentTop parentFrame
  let childFrame := (childTop + 2 ^ 64 - bytes) % 2 ^ 64
  (update (memcpy mem childFrame parentFrame bytes) (childFrame + 112) 0, childFrame)

/-- The memory and the `rsp` of the child after a fork in a task with some registers. -/
def forkFrame (mem : Signals.Memory) (parent child : ℕ) (regs : Registers) :
    Signals.Memory × ℕ :=
  let entered := int80 mem (rsp0 parent) regs
  cloneFrame (kstackCanarySet entered.1 child) (abiStackTop parent kernelStackSize) entered.2
    (abiStackTop child kernelStackSize)

/-- The child returns from the call with the registers of its parent, but zero. -/
structure Resumes (regs : Registers) (child : ℕ) (result : Signals.Memory × ℕ) : Prop where
  frame : frameAt result.1 result.2 = { regs with rax := 0 }
  inside : InStack child result.2

/-! ## Pushes -/

theorem foldl_push_sp (values : List UInt64) (mem : Signals.Memory) (sp : ℕ) :
    (values.foldl push (mem, sp)).2 = sp - 8 * values.length := by
  induction values generalizing mem sp with
  | nil => rfl
  | cons value values ih =>
      calc ((value :: values).foldl push (mem, sp)).2
          = sp - 8 - 8 * values.length := ih _ _
        _ = sp - 8 * (values.length + 1) := by omega

theorem foldl_push_of_outside (values : List UInt64) (mem : Signals.Memory) (sp : ℕ)
    (address : ℕ) (houtside : address < sp - 8 * values.length ∨ sp ≤ address)
    (hroom : 8 * values.length ≤ sp) : (values.foldl push (mem, sp)).1 address = mem address := by
  induction values generalizing mem sp with
  | nil => rfl
  | cons value values ih =>
      rw [List.length_cons] at houtside hroom
      have hne : address ≠ sp - 8 := by omega
      calc ((value :: values).foldl push (mem, sp)).1 address
          = update mem (sp - 8) value address :=
            ih _ _ (by omega) (by omega)
        _ = mem address := update_of_ne hne _ _

theorem foldl_push_getElem (values : List UInt64) (mem : Signals.Memory) (sp : ℕ)
    (hroom : 8 * values.length ≤ sp) {k : ℕ} (hk : k < values.length) :
    (values.foldl push (mem, sp)).1 (sp - 8 * (k + 1)) = values[k] := by
  induction values generalizing mem sp k with
  | nil => cases hk
  | cons value values ih =>
      rw [List.length_cons] at hroom hk
      cases k with
      | zero =>
          have houtside := foldl_push_of_outside values (update mem (sp - 8) value)
            (sp - 8) (sp - 8) (Or.inr (Nat.le_refl _)) (by omega)
          exact houtside.trans (update_self _ _ _)
      | succ k =>
          have hlater := ih (update mem (sp - 8) value) (sp - 8) (by omega)
            (Nat.lt_of_succ_lt_succ hk)
          have haddress : sp - 8 - 8 * (k + 1) = sp - 8 * (k + 1 + 1) := by omega
          rw [haddress] at hlater
          exact hlater

/-! ## Frames by their words -/

/-- A word of a frame, from its lowest address. -/
def word (regs : Registers) (k : ℕ) : UInt64 := (pushOrder regs).reverse.getD k 0

theorem word_rax (regs : Registers) {k : ℕ} (hk : k < 20) :
    word { regs with rax := 0 } k = if k = 14 then 0 else word regs k := by
  interval_cases k <;> rfl

theorem frameAt_eq_iff (mem : Signals.Memory) (base : ℕ) (regs : Registers) :
    frameAt mem base = regs ↔ ∀ k, k < 20 → mem (base + 8 * k) = word regs k := by
  constructor
  · rintro rfl k hk
    interval_cases k <;> rfl
  · intro h
    cases regs
    simp only [frameAt, Registers.mk.injEq]
    exact ⟨h 0 (by decide), h 1 (by decide), h 2 (by decide), h 3 (by decide), h 4 (by decide),
      h 5 (by decide), h 6 (by decide), h 7 (by decide), h 8 (by decide), h 9 (by decide),
      h 10 (by decide), h 11 (by decide), h 12 (by decide), h 13 (by decide),
      h 14 (by decide), h 15 (by decide), h 16 (by decide), h 17 (by decide),
      h 18 (by decide), h 19 (by decide)⟩

/-- `int 0x80` leaves a frame of the registers. -/
theorem int80_word (mem : Signals.Memory) (rsp0 : ℕ) (regs : Registers)
    (hroom : frameSize ≤ rsp0 / 16 * 16) {k : ℕ} (hk : k < 20) :
    (int80 mem rsp0 regs).1 (rsp0 / 16 * 16 - frameSize + 8 * k) = word regs k := by
  have hlength : (pushOrder regs).length = 20 := rfl
  have hlast : 19 - k < (pushOrder regs).length := by omega
  have haddress : rsp0 / 16 * 16 - frameSize + 8 * k =
      rsp0 / 16 * 16 - 8 * (19 - k + 1) := by
    rw [frameSize] at hroom ⊢
    omega
  have hreverse : word regs k = (pushOrder regs)[19 - k] := by
    rw [word, List.getD_eq_getElem _ _ (by rw [List.length_reverse]; exact hk),
      List.getElem_reverse]
    rfl
  rw [haddress, hreverse]
  exact foldl_push_getElem (pushOrder regs) mem _ hroom hlast

theorem int80_sp (mem : Signals.Memory) (rsp0 : ℕ) (regs : Registers) :
    (int80 mem rsp0 regs).2 = rsp0 / 16 * 16 - frameSize :=
  foldl_push_sp (pushOrder regs) mem _

theorem int80_outside (mem : Signals.Memory) (rsp0 : ℕ) (regs : Registers) {address : ℕ}
    (houtside : address < rsp0 / 16 * 16 - frameSize ∨ rsp0 / 16 * 16 ≤ address)
    (hroom : frameSize ≤ rsp0 / 16 * 16) : (int80 mem rsp0 regs).1 address = mem address :=
  foldl_push_of_outside (pushOrder regs) mem _ _ houtside hroom

/-! ## Where the frames are -/

/-- The address of the frame of a system call. -/
def callFrame (base : ℕ) : ℕ := rsp0 base / 16 * 16 - frameSize

section Stack

variable (stack : KernelStack)

theorem KernelStack.fits' : stack.base + 65552 ≤ 2 ^ 64 := by
  have hfits := stack.fits
  rw [stackEnd, kernelStackSize] at hfits
  omega

theorem KernelStack.room : frameSize ≤ rsp0 stack.base / 16 * 16 := by
  have hfits := stack.fits'
  rw [frameSize, rsp0, kernelStackSize]
  omega

theorem KernelStack.callFrame_eq :
    callFrame stack.base = (stack.base + 65536) / 16 * 16 - 160 := by
  have hfits := stack.fits'
  rw [callFrame, rsp0, kernelStackSize, frameSize, Nat.mod_eq_of_lt (by omega)]

theorem KernelStack.abiStackTop_eq :
    abiStackTop stack.base kernelStackSize = (stack.base + 65551) / 16 * 16 - 8 := by
  have hfits := stack.fits'
  rw [abiStackTop, kernelStackSize]
  omega

/-- The top of the stack is 8 bytes below what the frame was pushed from, or 8 bytes above. -/
theorem KernelStack.frameBytes_eq :
    frameBytes (abiStackTop stack.base kernelStackSize) (callFrame stack.base) =
      if stack.base % 16 = 0 then 152 else 168 := by
  have hfits := stack.fits'
  rw [stack.abiStackTop_eq, stack.callFrame_eq, frameBytes, kernelStackSize, frameSize]
  by_cases haligned : stack.base % 16 = 0
  · rw [if_pos haligned, if_neg (by omega)]
    omega
  · rw [if_neg haligned, if_neg (by omega)]
    omega

end Stack

/-! ## The frame of the child -/

section Fork

variable (mem : Signals.Memory) (regs : Registers) (parent child : KernelStack)

def childFrame (bytes : ℕ) : ℕ := abiStackTop child.base kernelStackSize - bytes

theorem word_parentFrame (hapart : StacksApart parent.base child.base) {k : ℕ} (hk : k < 20) :
    kstackCanarySet (int80 mem (rsp0 parent.base) regs).1 child.base
      (callFrame parent.base + 8 * k) = word regs k := by
  have hfits := parent.fits'
  have hframe := parent.callFrame_eq
  rw [← int80_word mem (rsp0 parent.base) regs parent.room hk, kstackCanarySet]
  by_cases hbase : child.base = 0
  · rw [if_neg (not_not_intro hbase)]
    rfl
  · rw [StacksApart, stackEnd, stackEnd, kernelStackSize] at hapart
    have hne : callFrame parent.base + 8 * k ≠ child.base := by omega
    rw [if_pos hbase, update_of_ne hne]
    rfl

theorem word_childTop (hapart : StacksApart parent.base child.base) :
    kstackCanarySet (int80 mem (rsp0 parent.base) regs).1 child.base
        (abiStackTop child.base kernelStackSize) =
      mem (abiStackTop child.base kernelStackSize) := by
  have hfits := parent.fits'
  have hframe := parent.callFrame_eq
  have htop := child.abiStackTop_eq
  have houtside : (int80 mem (rsp0 parent.base) regs).1 (abiStackTop child.base kernelStackSize) =
      mem (abiStackTop child.base kernelStackSize) := by
    apply int80_outside mem _ regs ?_ parent.room
    have hroom := parent.room
    rw [StacksApart, stackEnd, stackEnd, kernelStackSize] at hapart
    rw [callFrame] at hframe
    rw [frameSize] at hroom hframe ⊢
    omega
  rw [kstackCanarySet]
  by_cases hbase : child.base = 0
  · rw [if_neg (not_not_intro hbase)]
    exact houtside
  · have hne : abiStackTop child.base kernelStackSize ≠ child.base := by omega
    rw [if_pos hbase, update_of_ne hne]
    exact houtside

theorem forkFrame_eq {bytes : ℕ}
    (hbytes : frameBytes (abiStackTop parent.base kernelStackSize) (callFrame parent.base) = bytes)
    (hsmall : bytes ≤ 168) :
    forkFrame mem parent.base child.base regs =
      (update
        (memcpy (kstackCanarySet (int80 mem (rsp0 parent.base) regs).1 child.base)
          (childFrame child bytes) (callFrame parent.base) bytes)
        (childFrame child bytes + 112) 0, childFrame child bytes) := by
  have hfits := child.fits'
  have htop := child.abiStackTop_eq
  have hchild : (abiStackTop child.base kernelStackSize + 2 ^ 64 - bytes) % 2 ^ 64 =
      childFrame child bytes := by
    rw [childFrame]
    omega
  have hentered : (int80 mem (rsp0 parent.base) regs).2 = callFrame parent.base :=
    int80_sp mem (rsp0 parent.base) regs
  dsimp only [forkFrame, cloneFrame]
  rw [hentered, hbytes, hchild]

theorem forkFrame_word (hapart : StacksApart parent.base child.base) {bytes : ℕ}
    (hbytes : frameBytes (abiStackTop parent.base kernelStackSize) (callFrame parent.base) = bytes)
    (hsmall : bytes ≤ 168) {k : ℕ} (hk : k < 20) (hcopied : 8 * k < bytes) :
    (forkFrame mem parent.base child.base regs).1 (childFrame child bytes + 8 * k) =
      word { regs with rax := 0 } k := by
  rw [forkFrame_eq mem regs parent child hbytes hsmall, word_rax regs hk]
  dsimp only
  by_cases hrax : k = 14
  · subst hrax
    rw [if_pos rfl]
    exact update_self _ _ _
  · have hne : childFrame child bytes + 8 * k ≠ childFrame child bytes + 112 := by omega
    have hin : childFrame child bytes ≤ childFrame child bytes + 8 * k ∧
        childFrame child bytes + 8 * k < childFrame child bytes + bytes := by omega
    rw [if_neg hrax, update_of_ne hne, memcpy, if_pos hin, Nat.add_sub_cancel_left]
    exact word_parentFrame mem regs parent child hapart hk

theorem inStack_childFrame {bytes : ℕ} (hlow : 152 ≤ bytes) (hsmall : bytes ≤ 168) :
    InStack child.base (childFrame child bytes) := by
  have htop := child.abiStackTop_eq
  rw [InStack, childFrame, stackEnd, kernelStackSize, frameSize] at *
  omega

theorem forkFrame_top (hapart : StacksApart parent.base child.base)
    (hbytes : frameBytes (abiStackTop parent.base kernelStackSize) (callFrame parent.base) = 152) :
    (forkFrame mem parent.base child.base regs).1 (childFrame child 152 + 8 * 19) =
      mem (abiStackTop child.base kernelStackSize) := by
  have htop := child.abiStackTop_eq
  have haddress : childFrame child 152 + 8 * 19 = abiStackTop child.base kernelStackSize := by
    rw [childFrame]
    omega
  have hne : childFrame child 152 + 8 * 19 ≠ childFrame child 152 + 112 := by omega
  have hout : ¬ (childFrame child 152 ≤ childFrame child 152 + 8 * 19 ∧
      childFrame child 152 + 8 * 19 < childFrame child 152 + 152) := by omega
  rw [forkFrame_eq mem regs parent child hbytes (by decide)]
  dsimp only
  rw [update_of_ne hne, memcpy, if_neg hout, haddress]
  exact word_childTop mem regs parent child hapart

/-- The child resumes where its parent is if and only if the base of the parent's kernel stack
is no multiple of 16, or the stack segment already is at the top of the child's. -/
theorem resumes_iff (hapart : StacksApart parent.base child.base) :
    Resumes regs child.base (forkFrame mem parent.base child.base regs) ↔
      parent.base % 16 ≠ 0 ∨ mem (abiStackTop child.base kernelStackSize) = regs.ss := by
  by_cases haligned : parent.base % 16 = 0
  · have hbytes := parent.frameBytes_eq
    rw [if_pos haligned] at hbytes
    have hrsp : (forkFrame mem parent.base child.base regs).2 = childFrame child 152 := by
      rw [forkFrame_eq mem regs parent child hbytes (by decide)]
    have htop := forkFrame_top mem regs parent child hapart hbytes
    have hss : word { regs with rax := 0 } 19 = regs.ss := rfl
    constructor
    · intro h
      have hframe := h.frame
      rw [hrsp, frameAt_eq_iff] at hframe
      have hlast := hframe 19 (by decide)
      rw [htop, hss] at hlast
      exact Or.inr hlast
    · intro h
      have hstale := h.resolve_left (not_not_intro haligned)
      refine ⟨?_, ?_⟩
      · rw [hrsp, frameAt_eq_iff]
        intro k hk
        by_cases hlast : k = 19
        · subst hlast
          rw [htop, hss]
          exact hstale
        · exact forkFrame_word mem regs parent child hapart hbytes (by decide) hk
            (by omega)
      · rw [hrsp]
        exact inStack_childFrame child (by decide) (by decide)
  · have hbytes := parent.frameBytes_eq
    rw [if_neg haligned] at hbytes
    have hrsp : (forkFrame mem parent.base child.base regs).2 = childFrame child 168 := by
      rw [forkFrame_eq mem regs parent child hbytes (by decide)]
    apply iff_of_true ?_ (Or.inl haligned)
    refine ⟨?_, ?_⟩
    · rw [hrsp, frameAt_eq_iff]
      intro k hk
      exact forkFrame_word mem regs parent child hapart hbytes (by decide) hk
        (by omega)
    · rw [hrsp]
      exact inStack_childFrame child (by decide) (by decide)

end Fork

/-! ## Stacks from the kernel heap -/

/-- Where the first three kernel stacks are, in a heap at a multiple of 16. -/
def firstStacks : Fin 3 → KernelStack
  | 0 => ⟨0xffffffff80400018, by decide⟩
  | 1 => ⟨0xffffffff80410040, by decide⟩
  | 2 => ⟨0xffffffff80420068, by decide⟩

theorem kmalloc_firstStacks : ∃ h₁ h₂ h₃,
    kmalloc (kheapInit 0xffffffff80400000) kernelStackBytes = some ((firstStacks 0).base, h₁) ∧
      kmalloc h₁ kernelStackBytes = some ((firstStacks 1).base, h₂) ∧
      kmalloc h₂ kernelStackBytes = some ((firstStacks 2).base, h₃) :=
  ⟨_, _, _, rfl, rfl, rfl⟩

/-- Registers of a program. -/
def userRegisters : Registers where
  r15 := 15
  r14 := 14
  r13 := 13
  r12 := 12
  rbp := 0x7fffe0
  rbx := 3
  r11 := 11
  r10 := 10
  r9 := 9
  r8 := 8
  rdi := 0
  rsi := 0
  rdx := 0
  rcx := 0
  rax := 36
  rip := 0x400100
  cs := userCs
  rflags := 0x202
  rsp := 0x7fff00
  ss := userSs

/-- A parent on the first stack. -/
theorem resumes_first : Resumes userRegisters (firstStacks 1).base
    (forkFrame (fun _ => 0) (firstStacks 0).base (firstStacks 1).base userRegisters) :=
  (resumes_iff (fun _ => 0) userRegisters (firstStacks 0) (firstStacks 1)
    (Or.inl (by decide))).mpr (Or.inl (by decide))

/-- A parent on the second stack: the child gets the null selector for its stack. -/
theorem not_resumes_second :
    (∃ h₁ h₂ h₃ first,
      kmalloc (kheapInit 0xffffffff80400000) kernelStackBytes = some (first, h₁) ∧
        kmalloc h₁ kernelStackBytes = some ((firstStacks 1).base, h₂) ∧
        kmalloc h₂ kernelStackBytes = some ((firstStacks 2).base, h₃)) ∧
      ¬ Resumes userRegisters (firstStacks 2).base
        (forkFrame (fun _ => 0) (firstStacks 1).base (firstStacks 2).base userRegisters) := by
  obtain ⟨h₁, h₂, h₃, hfirst, hsecond, hthird⟩ := kmalloc_firstStacks
  refine ⟨⟨h₁, h₂, h₃, _, hfirst, hsecond, hthird⟩, ?_⟩
  intro h
  have hss := congrArg Registers.ss h.frame
  revert hss
  decide +kernel

end EigenOS.Tasking
