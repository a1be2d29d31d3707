import EigenOS.Library.SparseMemory

/-!
# The initial stack of a program

At its stack pointer a program finds the number of its arguments, pointers to them, pointers to
the strings of its environment, and pairs of words.  Each part is ended by a null word.
-/

namespace EigenOS.InitialStack

abbrev Byte := BitVec 8
abbrev Word := BitVec 64
abbrev Memory := SparseMemory.Memory 64 Byte

/-- A string, without the zero that ends it. -/
abbrev Text := List Byte

/-! ## Words -/

/-- A number of some bytes, with its lowest byte first. -/
def numberAt (mem : Memory) : ℕ → Word → Option Word
  | 0, _ => some 0#64
  | width + 1, addr =>
      (mem addr).bind fun low =>
        (numberAt mem width (addr + 1#64)).map fun high : Word => low.setWidth 64 ||| high <<< 8

def wordAt (mem : Memory) (addr : Word) : Option Word := numberAt mem 8 addr

/-- Byte `k` of a word. -/
def byteOfWord (word : Word) (k : ℕ) : Byte := word.extractLsb' (8 * k) 8

section Words

variable {mem mem' : Memory} {addr : Word}

theorem add_succ (addr : Word) (k : ℕ) :
    addr + BitVec.ofNat 64 (k + 1) = addr + 1#64 + BitVec.ofNat 64 k := by
  rw [Nat.add_comm, BitVec.ofNat_add, BitVec.add_assoc]

theorem numberAt_congr {width : ℕ}
    (h : ∀ k < width, mem (addr + BitVec.ofNat 64 k) = mem' (addr + BitVec.ofNat 64 k)) :
    numberAt mem width addr = numberAt mem' width addr := by
  induction width generalizing addr with
  | zero => rfl
  | succ width ih =>
      have hfirst := h 0 (Nat.succ_pos width)
      rw [BitVec.add_zero] at hfirst
      rw [numberAt, numberAt, hfirst, ih fun k hk => ?_]
      rw [← add_succ]
      exact h (k + 1) (Nat.succ_lt_succ hk)

theorem wordAt_congr
    (h : ∀ k < 8, mem (addr + BitVec.ofNat 64 k) = mem' (addr + BitVec.ofNat 64 k)) :
    wordAt mem addr = wordAt mem' addr := numberAt_congr h

theorem numberAt_of_bytes {width : ℕ} {word : Word} (hwidth : width ≤ 8)
    (h : ∀ k < width, mem (addr + BitVec.ofNat 64 k) = some (byteOfWord word k)) :
    numberAt mem width addr = some ((word.setWidth (8 * width)).setWidth 64) := by
  induction width generalizing addr word with
  | zero =>
      rw [numberAt]
      congr 1
      apply BitVec.eq_of_getLsbD_eq
      intro i hi
      simp
  | succ width ih =>
      have hfirst := h 0 (Nat.succ_pos width)
      have hrest : ∀ k < width,
          mem (addr + 1#64 + BitVec.ofNat 64 k) = some (byteOfWord (word >>> 8) k) := by
        intro k hk
        have hbyte : byteOfWord (word >>> 8) k = byteOfWord word (k + 1) := by
          apply BitVec.eq_of_getLsbD_eq
          intro i hi
          simp only [byteOfWord, BitVec.getLsbD_extractLsb', BitVec.getLsbD_ushiftRight]
          rw [Nat.mul_succ, Nat.add_right_comm, Nat.add_comm _ 8]
        rw [hbyte, ← add_succ]
        exact h (k + 1) (Nat.succ_lt_succ hk)
      rw [BitVec.add_zero] at hfirst
      rw [numberAt, hfirst, Option.bind_some, ih (by omega) hrest, Option.map_some]
      congr 1
      apply BitVec.eq_of_getLsbD_eq
      intro i hi
      simp only [byteOfWord, BitVec.getLsbD_or, BitVec.getLsbD_setWidth, BitVec.getLsbD_shiftLeft,
        BitVec.getLsbD_extractLsb', BitVec.getLsbD_ushiftRight, hi, decide_true, Bool.true_and]
      by_cases hlow : i < 8
      · simp [hlow, show i < 8 * (width + 1) by omega]
      · simp only [hlow, decide_false, Bool.false_and, Bool.false_or, Bool.not_false,
          Bool.true_and, show i - 8 < 64 by omega, decide_true, show 8 + (i - 8) = i by omega]
        congr 1
        exact decide_eq_decide.mpr (by omega)

theorem wordAt_of_bytes {word : Word}
    (h : ∀ k < 8, mem (addr + BitVec.ofNat 64 k) = some (byteOfWord word k)) :
    wordAt mem addr = some word := by
  have hfull : (word.setWidth (8 * 8)).setWidth 64 = word := by
    change (word.setWidth 64).setWidth 64 = word
    rw [BitVec.setWidth_eq, BitVec.setWidth_eq]
  rw [wordAt, numberAt_of_bytes (Nat.le_refl 8) h, hfull]

end Words

/-! ## Strings -/

/-- A string that ends within so many bytes. -/
def textWithin (mem : Memory) : ℕ → Word → Option Text
  | 0, _ => none
  | fuel + 1, addr =>
      (mem addr).bind fun first =>
        if first = 0#8 then some [] else (textWithin mem fuel (addr + 1#64)).map (first :: ·)

/-- The string at an address; `none` if a byte of it is not mapped, or if it has no end. -/
def textAt (mem : Memory) (addr : Word) : Option Text := textWithin mem (2 ^ 64) addr

/-- A string is in memory with the zero that ends it. -/
structure IsText (mem : Memory) (addr : Word) (text : Text) : Prop where
  bytes : ∀ k < text.length, mem (addr + BitVec.ofNat 64 k) = text[k]?
  noNul : 0#8 ∉ text
  ended : mem (addr + BitVec.ofNat 64 text.length) = some 0#8

section Texts

variable {mem mem' : Memory} {addr : Word} {text other : Text}

theorem isText_nil : IsText mem addr [] ↔ mem addr = some 0#8 := by
  constructor
  · intro h
    have hended := h.ended
    rwa [List.length_nil, BitVec.add_zero] at hended
  · intro h
    refine ⟨fun k hk => absurd hk (Nat.not_lt_zero k), List.not_mem_nil, ?_⟩
    rwa [List.length_nil, BitVec.add_zero]

theorem isText_cons {first : Byte} : IsText mem addr (first :: text) ↔
    mem addr = some first ∧ first ≠ 0#8 ∧ IsText mem (addr + 1#64) text := by
  constructor
  · rintro ⟨hbytes, hnoNul, hended⟩
    have hfirst := hbytes 0 (Nat.succ_pos _)
    rw [BitVec.add_zero] at hfirst
    obtain ⟨hne, hrest⟩ := List.ne_and_not_mem_of_not_mem_cons hnoNul
    refine ⟨hfirst, Ne.symm hne, fun k hk => ?_, hrest, ?_⟩
    · rw [← add_succ, hbytes (k + 1) (Nat.succ_lt_succ hk), List.getElem?_cons_succ]
    · rwa [List.length_cons, add_succ] at hended
  · rintro ⟨hfirst, hne, hbytes, hnoNul, hended⟩
    refine ⟨fun k hk => ?_, List.not_mem_cons_of_ne_of_not_mem (Ne.symm hne) hnoNul, ?_⟩
    · cases k with
      | zero => rwa [BitVec.add_zero]
      | succ k => rw [add_succ, List.getElem?_cons_succ, hbytes k (Nat.lt_of_succ_lt_succ hk)]
    · rwa [List.length_cons, add_succ]

theorem textWithin_eq_some_iff {fuel : ℕ} :
    textWithin mem fuel addr = some text ↔ text.length < fuel ∧ IsText mem addr text := by
  induction fuel generalizing addr text with
  | zero => exact iff_of_false nofun fun h => Nat.not_lt_zero _ h.1
  | succ fuel ih =>
      rw [textWithin]
      cases hbyte : mem addr with
      | none =>
          refine iff_of_false nofun fun h => ?_
          cases text with
          | nil => exact absurd (hbyte.symm.trans (isText_nil.mp h.2)) nofun
          | cons first text =>
              exact absurd (hbyte.symm.trans (isText_cons.mp h.2).1) nofun
      | some byte =>
          rw [Option.bind_some]
          by_cases hzero : byte = 0#8
          · rw [if_pos hzero]
            cases text with
            | nil =>
                refine iff_of_true rfl ⟨Nat.succ_pos fuel, isText_nil.mpr ?_⟩
                rw [hbyte, hzero]
            | cons first text =>
                refine iff_of_false nofun fun h => ?_
                obtain ⟨hfirst, hne, _⟩ := isText_cons.mp h.2
                exact hne ((Option.some.inj (hbyte.symm.trans hfirst)).symm.trans hzero)
          · rw [if_neg hzero]
            cases text with
            | nil =>
                refine iff_of_false (fun h => ?_) fun h => ?_
                · obtain ⟨_, _, hcons⟩ := Option.map_eq_some_iff.mp h
                  exact nomatch hcons
                · exact hzero (Option.some.inj (hbyte.symm.trans (isText_nil.mp h.2)))
            | cons first text =>
                rw [Option.map_eq_some_iff, isText_cons, List.length_cons]
                constructor
                · rintro ⟨rest, hrest, hcons⟩
                  cases hcons
                  obtain ⟨hlength, htext⟩ := ih.mp hrest
                  exact ⟨Nat.succ_lt_succ hlength, hbyte, hzero, htext⟩
                · rintro ⟨hlength, hfirst, _, htext⟩
                  cases hbyte.symm.trans hfirst
                  exact ⟨text, ih.mpr ⟨Nat.lt_of_succ_lt_succ hlength, htext⟩, rfl⟩

theorem textAt_eq_some_iff :
    textAt mem addr = some text ↔ text.length < 2 ^ 64 ∧ IsText mem addr text :=
  textWithin_eq_some_iff

theorem IsText.unique (h : IsText mem addr text) (h' : IsText mem addr other) : text = other := by
  induction text generalizing addr other with
  | nil =>
      cases other with
      | nil => rfl
      | cons first other =>
          obtain ⟨hfirst, hne, _⟩ := isText_cons.mp h'
          exact absurd (Option.some.inj (hfirst.symm.trans (isText_nil.mp h))) hne
  | cons first text ih =>
      obtain ⟨hfirst, hne, hrest⟩ := isText_cons.mp h
      cases other with
      | nil => exact absurd (Option.some.inj (hfirst.symm.trans (isText_nil.mp h'))) hne
      | cons second other =>
          obtain ⟨hsecond, _, hrest'⟩ := isText_cons.mp h'
          cases hfirst.symm.trans hsecond
          rw [ih hrest hrest']

end Texts

/-! ## Vectors -/

/-- Words one after the other. -/
def HoldsWords (mem : Memory) (start : Word) (words : List Word) : Prop :=
  ∀ k < words.length, wordAt mem (start + BitVec.ofNat 64 (8 * k)) = words[k]?

/-- Pointers to strings. -/
structure Points (mem : Memory) (pointers : List Word) (texts : List Text) : Prop where
  nonNull : 0#64 ∉ pointers
  texts : List.Forall₂ (IsText mem) pointers texts

/-- Strings in a vector that is ended by a null pointer. -/
def IsVector (mem : Memory) (addr : Word) (texts : List Text) : Prop :=
  ∃ pointers, HoldsWords mem addr (pointers ++ [0#64]) ∧ Points mem pointers texts

structure Region where
  start : ℕ
  size : ℕ

namespace Region

def Apart (r other : Region) : Prop :=
  r.start + r.size ≤ other.start ∨ other.start + other.size ≤ r.start

def Inside (r outer : Region) : Prop :=
  outer.start ≤ r.start ∧ r.start + r.size ≤ outer.start + outer.size

end Region

/-- The bytes of strings. -/
def textRegions (pointers : List Word) (texts : List Text) : List Region :=
  List.zipWith (fun pointer text => ⟨pointer.toNat, text.length + 1⟩) pointers texts

/-- The words at the stack pointer. -/
structure Block where
  argv : List Word
  envp : List Word
  aux : List (Word × Word)
  last : Word

namespace Block

def words (block : Block) : List Word :=
  BitVec.ofNat 64 block.argv.length :: (block.argv ++ 0#64 :: (block.envp ++ 0#64 ::
    (block.aux.flatMap (fun entry => [entry.1, entry.2]) ++ [0#64, block.last])))

def regions (block : Block) (sp : Word) (args env : List Text) : List Region :=
  ⟨sp.toNat, 8 * block.words.length⟩ ::
    (textRegions block.argv args ++ textRegions block.envp env)

/-- The block is at the stack pointer and leads to the strings, none of which overlaps another
part. -/
structure Delivers (block : Block) (mem : Memory) (sp : Word) (args env : List Text) : Prop where
  words : HoldsWords mem sp block.words
  argPointers : Points mem block.argv args
  envPointers : Points mem block.envp env
  aux : ∀ entry ∈ block.aux, entry.1 ≠ 0#64
  apart : (block.regions sp args env).Pairwise Region.Apart

end Block

/-- A program that starts with this stack pointer finds the strings, all in its stack. -/
def Passes (mem : Memory) (stack : Region) (sp : Word) (args env : List Text) : Prop :=
  ∃ block : Block, block.Delivers mem sp args env ∧
    ∀ region ∈ block.regions sp args env, region.Inside stack

section Decoding

variable {mem mem' : Memory} {stack : Region} {sp start pointer : Word} {words more : List Word}
  {args env other : List Text} {block block' : Block} {i : ℕ}

theorem Block.Delivers.length_argv (h : block.Delivers mem sp args env) :
    block.argv.length = args.length := h.argPointers.texts.length_eq

theorem Block.Delivers.count (h : block.Delivers mem sp args env) :
    wordAt mem sp = some (BitVec.ofNat 64 args.length) := by
  have hfirst := h.words 0 (Nat.succ_pos _)
  rwa [Nat.mul_zero, BitVec.add_zero, Block.words, List.getElem?_cons_zero, h.length_argv] at hfirst

theorem Block.Delivers.argument (h : block.Delivers mem sp args env) (hi : i < args.length) :
    ∃ pointer, wordAt mem (sp + BitVec.ofNat 64 (8 * (i + 1))) = some pointer ∧
      pointer ≠ 0#64 ∧ IsText mem pointer args[i] := by
  have hlength : i < block.argv.length := h.length_argv ▸ hi
  have hword := h.words (i + 1) (by
    rw [Block.words, List.length_cons, List.length_append]
    omega)
  rw [Block.words, List.getElem?_cons_succ, List.getElem?_append_left hlength,
    List.getElem?_eq_getElem hlength] at hword
  refine ⟨_, hword, fun hzero => ?_, ?_⟩
  · exact h.argPointers.nonNull (hzero ▸ List.getElem_mem hlength)
  · exact (List.forall₂_iff_get.mp h.argPointers.texts).2 i hlength hi

end Decoding

end EigenOS.InitialStack
