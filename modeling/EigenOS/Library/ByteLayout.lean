import Mathlib.Algebra.BigOperators.Group.List.Basic
import Mathlib.Data.List.OfFn
import Mathlib.Data.Nat.ModEq
import Mathlib.Tactic.Ring

/-!
# Byte layouts

Little-endian fields, windows of a byte string, overwriting a window, and the
layout of a concatenation: block `k` of a flattened list of blocks starts where
the lengths of the blocks before it end.
-/

namespace EigenOS.ByteLayout

variable {A : Type*}

/-! ## Windows -/

/-- The `length` entries from `offset` on. -/
def window (offset length : ℕ) (values : List A) : List A :=
  (values.drop offset).take length

theorem length_window {offset length : ℕ} {values : List A}
    (hfits : offset + length ≤ values.length) :
    (window offset length values).length = length := by
  simp only [window, List.length_take, List.length_drop]
  omega

theorem window_append_middle (head middle tail : List A) :
    window head.length middle.length (head ++ middle ++ tail) = middle := by
  simp [window, List.append_assoc]

theorem window_append_left {offset length : ℕ} (values tail : List A)
    (hfits : offset + length ≤ values.length) :
    window offset length (values ++ tail) = window offset length values := by
  rw [window, window, List.drop_append_of_le_length (by omega),
    List.take_append_of_le_length (by simp only [List.length_drop]; omega)]

theorem mem_take_ofFn {n count : ℕ} {values : Fin n → A} {value : A} :
    value ∈ (List.ofFn values).take count ↔
      ∃ index : Fin n, index.val < count ∧ values index = value := by
  rw [List.mem_take_iff_getElem]
  constructor
  · rintro ⟨index, hindex, rfl⟩
    obtain ⟨hcount, hlength⟩ := Nat.lt_min.mp hindex
    rw [List.length_ofFn] at hlength
    exact ⟨⟨index, hlength⟩, hcount, (List.getElem_ofFn _).symm⟩
  · rintro ⟨index, hcount, rfl⟩
    exact ⟨index, Nat.lt_min.mpr ⟨hcount, by simp⟩, List.getElem_ofFn _⟩

theorem mem_drop_ofFn {n count : ℕ} {values : Fin n → A} {value : A} :
    value ∈ (List.ofFn values).drop count ↔
      ∃ index : Fin n, count ≤ index.val ∧ values index = value := by
  rw [List.mem_drop_iff_getElem]
  constructor
  · rintro ⟨index, hindex, rfl⟩
    have hlt : count + index < n := by
      rw [List.length_ofFn] at hindex
      omega
    exact ⟨⟨count + index, hlt⟩, Nat.le_add_right _ _, (List.getElem_ofFn _).symm⟩
  · rintro ⟨index, hcount, rfl⟩
    obtain ⟨gap, hgap⟩ := Nat.exists_eq_add_of_le hcount
    have hlt : gap + count < (List.ofFn values).length := by
      rw [List.length_ofFn]
      omega
    refine ⟨gap, hlt, ?_⟩
    rw [List.getElem_ofFn]
    congr 1
    exact Fin.ext hgap.symm

/-! ## Overwriting a window -/

/-- Overwrite the entries from `offset` on with `source`. -/
def splice (buffer : List A) (offset : ℕ) (source : List A) : List A :=
  buffer.take offset ++ source ++ buffer.drop (offset + source.length)

theorem length_splice {buffer : List A} {offset : ℕ} {source : List A}
    (hfits : offset + source.length ≤ buffer.length) :
    (splice buffer offset source).length = buffer.length := by
  simp only [splice, List.length_append, List.length_take, List.length_drop]
  omega

theorem splice_append_middle (head middle tail source : List A)
    (hlength : middle.length = source.length) :
    splice (head ++ middle ++ tail) head.length source = head ++ source ++ tail := by
  have hdrop : (head ++ middle ++ tail).drop (head.length + source.length) = tail := by
    rw [← hlength, ← List.length_append, List.drop_left]
  rw [splice, hdrop, List.append_assoc head middle tail, List.take_left]

/-! ## Concatenated blocks -/

/-- Where block `index` of a concatenation starts. -/
def blockOffset (blocks : List (List A)) (index : ℕ) : ℕ :=
  ((blocks.take index).map List.length).sum

@[simp]
theorem blockOffset_zero (blocks : List (List A)) : blockOffset blocks 0 = 0 := rfl

theorem blockOffset_succ (blocks : List (List A)) (index : ℕ)
    (hindex : index < blocks.length) :
    blockOffset blocks (index + 1) =
      blockOffset blocks index + blocks[index].length := by
  have htake : blocks.take (index + 1) = blocks.take index ++ [blocks[index]] :=
    List.take_succ_eq_append_getElem hindex
  rw [blockOffset, blockOffset, htake, List.map_append, List.sum_append]
  simp only [List.map_cons, List.map_nil, List.sum_cons, List.sum_nil, add_zero]

theorem blockOffset_mono (blocks : List (List A)) {left right : ℕ}
    (hle : left ≤ right) : blockOffset blocks left ≤ blockOffset blocks right := by
  obtain ⟨gap, rfl⟩ := Nat.exists_eq_add_of_le hle
  rw [blockOffset, blockOffset, List.take_add]
  simp

theorem length_flatten_take (blocks : List (List A)) (index : ℕ) :
    (blocks.take index).flatten.length = blockOffset blocks index := by
  rw [List.length_flatten, blockOffset]

theorem length_flatten_eq_blockOffset (blocks : List (List A)) :
    blocks.flatten.length = blockOffset blocks blocks.length := by
  rw [blockOffset, List.take_length, List.length_flatten]

theorem window_flatten (blocks : List (List A)) (index : ℕ)
    (hindex : index < blocks.length) :
    window (blockOffset blocks index) blocks[index].length blocks.flatten =
      blocks[index] := by
  have hsplit : blocks.flatten =
      (blocks.take index).flatten ++ blocks[index] ++ (blocks.drop (index + 1)).flatten := by
    have hjoin := congrArg List.flatten (List.take_append_drop index blocks)
    rw [← hjoin, List.flatten_append, List.drop_eq_getElem_cons hindex,
      List.flatten_cons, List.append_assoc]
  rw [hsplit, ← length_flatten_take]
  exact window_append_middle _ _ _

theorem window_flatten_of_widths {blocks : List (List A)} {widths : List ℕ}
    (hwidths : blocks.map List.length = widths) (index : ℕ)
    (hindex : index < blocks.length) (hwidth : index < widths.length) :
    window (widths.take index).sum widths[index] blocks.flatten = blocks[index] := by
  subst hwidths
  rw [← List.map_take, List.getElem_map]
  exact window_flatten blocks index hindex

theorem blockOffset_eq_mul {blocks : List (List A)} {width : ℕ}
    (hwidth : ∀ block ∈ blocks, block.length = width) {index : ℕ}
    (hindex : index ≤ blocks.length) : blockOffset blocks index = index * width := by
  induction index with
  | zero => simp
  | succ index ih =>
      have hlt : index < blocks.length := by omega
      have hblock : blocks[index].length = width := hwidth _ (List.getElem_mem hlt)
      rw [blockOffset_succ blocks index hlt, ih (by omega), hblock, Nat.succ_mul]

/-! ## Little-endian fields -/

/-- The `width` low bytes of `value`, least significant first. -/
def littleEndian : ℕ → ℕ → List UInt8
  | 0, _ => []
  | width + 1, value => UInt8.ofNat value :: littleEndian width (value / 256)

def fromLittleEndian : List UInt8 → ℕ
  | [] => 0
  | byte :: rest => byte.toNat + 256 * fromLittleEndian rest

@[simp]
theorem length_littleEndian (width value : ℕ) :
    (littleEndian width value).length = width := by
  induction width generalizing value with
  | zero => rfl
  | succ width ih => simp [littleEndian, ih]

theorem fromLittleEndian_littleEndian (width value : ℕ) :
    fromLittleEndian (littleEndian width value) = value % 256 ^ width := by
  induction width generalizing value with
  | zero => simp [littleEndian, fromLittleEndian, Nat.mod_one]
  | succ width ih =>
      have hbyte : (UInt8.ofNat value).toNat = value % 256 := rfl
      rw [littleEndian, fromLittleEndian, ih, hbyte, pow_succ, mul_comm (256 ^ width) 256,
        Nat.mod_mul]

theorem littleEndian_fromLittleEndian (bytes : List UInt8) :
    littleEndian bytes.length (fromLittleEndian bytes) = bytes := by
  induction bytes with
  | nil => rfl
  | cons byte rest ih =>
      have hbyte : byte.toNat < 256 := byte.toNat_lt
      have hlow : UInt8.ofNat (byte.toNat + 256 * fromLittleEndian rest) = byte := by
        apply UInt8.toNat_inj.mp
        rw [UInt8.toNat_ofNat']
        omega
      have hhigh : (byte.toNat + 256 * fromLittleEndian rest) / 256 = fromLittleEndian rest := by
        omega
      rw [List.length_cons, fromLittleEndian, littleEndian, hlow, hhigh, ih]

theorem fromLittleEndian_lt (bytes : List UInt8) :
    fromLittleEndian bytes < 256 ^ bytes.length := by
  induction bytes with
  | nil => simp [fromLittleEndian]
  | cons byte rest ih =>
      have hbyte : byte.toNat < 256 := byte.toNat_lt
      rw [fromLittleEndian, List.length_cons, pow_succ]
      omega

end EigenOS.ByteLayout
