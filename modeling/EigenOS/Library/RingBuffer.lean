import Mathlib.Data.Fin.Tuple.Basic
import Mathlib.Data.Nat.ModEq

/-!
# Ring buffers

Two indices into an array: values are put in at the head and taken out at the tail.  One
place stays empty, so that equal indices mean an empty buffer.
-/

namespace EigenOS.RingBuffer

open Function

structure Ring (α : Type*) (size : ℕ) where
  head : Fin size
  tail : Fin size
  data : Fin size → α

namespace Ring

variable {α : Type*} {size : ℕ} (ring : Ring α size)

/-- How many values wait. -/
def avail : ℕ := (ring.head.val + size - ring.tail.val) % size

/-- How many values there is room for. -/
def room : ℕ := size - 1 - ring.avail

/-- An index some steps further on. -/
def advance (index : Fin size) (steps : ℕ) : Fin size :=
  ⟨(index.val + steps) % size, Nat.mod_lt _ index.pos⟩

/-- A value is dropped where there is no room. -/
def put (value : α) : Ring α size :=
  if ring.room = 0 then ring
  else
    { ring with
      head := advance ring.head 1
      data := update ring.data ring.head value }

def putAll (values : List α) : Ring α size := values.foldl put ring

/-- The first values that wait. -/
def peek (count : ℕ) : List α := (List.range count).map fun i => ring.data (advance ring.tail i)

/-- The buffer without its first values. -/
def drop (count : ℕ) : Ring α size := { ring with tail := advance ring.tail count }

theorem avail_lt : ring.avail < size := Nat.mod_lt _ ring.head.pos

theorem avail_lt_iff_room : ring.avail < size - 1 ↔ ring.room ≠ 0 := by
  rw [room]
  omega

theorem avail_eq_zero_iff : ring.avail = 0 ↔ ring.head = ring.tail := by
  have hhead := ring.head.isLt
  have htail := ring.tail.isLt
  rw [avail, Fin.ext_iff]
  by_cases hle : ring.tail.val ≤ ring.head.val
  · have hwrap : ring.head.val + size - ring.tail.val =
        ring.head.val - ring.tail.val + size := by omega
    rw [hwrap, Nat.add_mod_right, Nat.mod_eq_of_lt (by omega)]
    omega
  · rw [Nat.mod_eq_of_lt (by omega)]
    omega

/-! ## The values that wait -/

theorem advance_advance (index : Fin size) (near far : ℕ) :
    advance (advance index near) far = advance index (near + far) := by
  apply Fin.ext
  change ((index.val + near) % size + far) % size = (index.val + (near + far)) % size
  rw [Nat.mod_add_mod, Nat.add_assoc]

/-- Different numbers of steps, less than once around, lead to different places. -/
theorem advance_inj {index : Fin size} {near far : ℕ} (hnear : near < size) (hfar : far < size)
    (heq : advance index near = advance index far) : near = far := by
  have hmod : index.val + near ≡ index.val + far [MOD size] := congrArg Fin.val heq
  exact (hmod.add_left_cancel' index.val).eq_of_lt_of_lt hnear hfar

theorem advance_avail : advance ring.tail ring.avail = ring.head := by
  have hhead := ring.head.isLt
  have htail := ring.tail.isLt
  have hwrap : ring.tail.val + (ring.head.val + size - ring.tail.val) =
      ring.head.val + size := by omega
  apply Fin.ext
  change (ring.tail.val + ring.avail) % size = ring.head.val
  rw [avail, Nat.add_mod_mod, hwrap, Nat.add_mod_right, Nat.mod_eq_of_lt hhead]

theorem avail_eq_of_advance {steps : ℕ} (hsteps : steps < size)
    (hhead : advance ring.tail steps = ring.head) : ring.avail = steps :=
  advance_inj ring.avail_lt hsteps (ring.advance_avail.trans hhead.symm)

theorem avail_put {value : α} (hroom : ring.room ≠ 0) :
    (ring.put value).avail = ring.avail + 1 := by
  have hlt := ring.avail_lt_iff_room.mpr hroom
  rw [put, if_neg hroom]
  apply avail_eq_of_advance
  · omega
  · change advance ring.tail (ring.avail + 1) = advance ring.head 1
    rw [← advance_advance, advance_avail]

theorem avail_drop {count : ℕ} (hcount : count ≤ ring.avail) :
    (ring.drop count).avail = ring.avail - count := by
  have hlt := ring.avail_lt
  apply avail_eq_of_advance
  · omega
  · change advance (advance ring.tail count) (ring.avail - count) = ring.head
    rw [advance_advance, Nat.add_sub_cancel' hcount, advance_avail]

/-- The values that wait, the oldest first. -/
def contents : List α := ring.peek ring.avail

theorem contents_put {value : α} (hroom : ring.room ≠ 0) :
    (ring.put value).contents = ring.contents ++ [value] := by
  have hlt := ring.avail_lt_iff_room.mpr hroom
  rw [contents, avail_put ring hroom, put, if_neg hroom, peek, List.range_succ, List.map_append]
  congr 1
  · apply List.map_congr_left
    intro i hi
    apply update_of_ne
    intro heq
    have hsame := advance_inj (by have := List.mem_range.mp hi; omega) ring.avail_lt
      (heq.trans ring.advance_avail.symm)
    exact absurd hsame (List.mem_range.mp hi).ne
  · change [update ring.data ring.head value (advance ring.tail ring.avail)] = [value]
    rw [advance_avail, update_self]

theorem putAll_of_full (values : List α) (hroom : ring.room = 0) : ring.putAll values = ring := by
  induction values with
  | nil => rfl
  | cons value rest ih =>
      calc
        ring.putAll (value :: rest) = (ring.put value).putAll rest := rfl
        _ = ring.putAll rest := by rw [put, if_pos hroom]
        _ = ring := ih

theorem contents_putAll_take (values : List α) :
    (ring.putAll values).contents = ring.contents ++ values.take ring.room := by
  induction values generalizing ring with
  | nil => rw [List.take_nil, List.append_nil]; rfl
  | cons value rest ih =>
      by_cases hroom : ring.room = 0
      · rw [putAll_of_full ring _ hroom, hroom, List.take_zero, List.append_nil]
      · have hrest : (ring.put value).room + 1 = ring.room := by
          rw [room] at hroom
          rw [room, room, avail_put ring (by rwa [room])]
          omega
        calc
          (ring.putAll (value :: rest)).contents = ((ring.put value).putAll rest).contents := rfl
          _ = (ring.put value).contents ++ rest.take (ring.put value).room := ih (ring.put value)
          _ = ring.contents ++ (value :: rest).take ring.room := by
            rw [contents_put ring hroom, ← hrest, List.take_succ_cons, List.append_assoc,
              List.singleton_append]

theorem contents_putAll {values : List α} (hroom : values.length ≤ ring.room) :
    (ring.putAll values).contents = ring.contents ++ values := by
  rw [contents_putAll_take, List.take_of_length_le hroom]

theorem peek_append_contents_drop {count : ℕ} (hcount : count ≤ ring.avail) :
    ring.peek count ++ (ring.drop count).contents = ring.contents := by
  rw [contents, contents, avail_drop ring hcount]
  conv_rhs => rw [← Nat.add_sub_cancel' hcount]
  rw [peek, peek, peek, List.range_add, List.map_append, List.map_map]
  congr 1
  apply List.map_congr_left
  intro i _
  change ring.data (advance (advance ring.tail count) i) = ring.data (advance ring.tail (count + i))
  rw [advance_advance]

theorem drop_zero : ring.drop 0 = ring := by
  have htail : advance ring.tail 0 = ring.tail := Fin.ext (Nat.mod_eq_of_lt ring.tail.isLt)
  rw [drop, htail]

theorem length_contents : ring.contents.length = ring.avail := by
  rw [contents, peek, List.length_map, List.length_range]

end Ring

end EigenOS.RingBuffer
