import Mathlib.Data.UInt

/-!
# Tagged values

A block of tagged values: each has a tag, a length and so many bytes.  A pad byte stands alone,
and the block ends at an end byte, or where a value would not fit.
-/

namespace EigenOS.TagLength

structure Entry where
  tag : UInt8
  value : List UInt8
  deriving DecidableEq

variable {pad stop : UInt8} {block rest : List UInt8}

def encode (entry : Entry) : List UInt8 :=
  entry.tag :: UInt8.ofNat entry.value.length :: entry.value

/-- The entries of a block.  So many bytes belong to the entry before. -/
def entriesAfter (pad stop : UInt8) : ℕ → List UInt8 → List Entry
  | _, [] => []
  | skip + 1, _ :: rest => entriesAfter pad stop skip rest
  | 0, tag :: rest =>
      if tag = stop then []
      else if tag = pad then entriesAfter pad stop 0 rest
      else
        match rest with
        | [] => []
        | length :: value =>
            if length.toNat ≤ value.length then
              ⟨tag, value.take length.toNat⟩ ::
                entriesAfter pad stop (length.toNat + 1) (length :: value)
            else []

def entries (pad stop : UInt8) (block : List UInt8) : List Entry :=
  entriesAfter pad stop 0 block

theorem entriesAfter_zero (tag : UInt8) :
    entriesAfter pad stop 0 (tag :: rest) =
      if tag = stop then []
      else if tag = pad then entriesAfter pad stop 0 rest
      else
        match rest with
        | [] => []
        | length :: value =>
            if length.toNat ≤ value.length then
              ⟨tag, value.take length.toNat⟩ ::
                entriesAfter pad stop (length.toNat + 1) (length :: value)
            else [] := by
  cases rest <;> rfl

theorem entriesAfter_eq (skip : ℕ) (block : List UInt8) :
    entriesAfter pad stop skip block = entries pad stop (block.drop skip) := by
  induction block generalizing skip with
  | nil => cases skip <;> rfl
  | cons byte rest ih =>
    cases skip with
    | zero => rfl
    | succ skip => exact ih skip

@[simp]
theorem entries_stop : entries pad stop (stop :: rest) = [] := by
  rw [entries, entriesAfter_zero, if_pos rfl]

theorem entries_pad (hpad : pad ≠ stop) :
    entries pad stop (pad :: rest) = entries pad stop rest := by
  rw [entries, entriesAfter_zero, if_neg hpad, if_pos rfl, entries]

theorem entries_singleton (tag : UInt8) : entries pad stop [tag] = [] := by
  rw [entries, entriesAfter_zero]
  by_cases hstop : tag = stop
  · rw [if_pos hstop]
  · rw [if_neg hstop]
    by_cases hpad : tag = pad
    · rw [if_pos hpad]
      rfl
    · rw [if_neg hpad]

section Tagged

variable {tag length : UInt8} {value : List UInt8} (hstop : tag ≠ stop) (hpad : tag ≠ pad)

include hstop hpad

theorem entries_of_fits (hfits : length.toNat ≤ value.length) :
    entries pad stop (tag :: length :: value) =
      ⟨tag, value.take length.toNat⟩ :: entries pad stop (value.drop length.toNat) := by
  rw [entries, entriesAfter_zero, if_neg hstop, if_neg hpad]
  calc
    _ = ⟨tag, value.take length.toNat⟩ ::
          entriesAfter pad stop (length.toNat + 1) (length :: value) := if_pos hfits
    _ = _ := by rw [entriesAfter_eq, List.drop_succ_cons]

theorem entries_of_not_fits (hfits : value.length < length.toNat) :
    entries pad stop (tag :: length :: value) = [] := by
  rw [entries, entriesAfter_zero, if_neg hstop, if_neg hpad]
  exact if_neg (Nat.not_le.mpr hfits)

end Tagged

theorem entries_encode_append {entry : Entry} (hstop : entry.tag ≠ stop) (hpad : entry.tag ≠ pad)
    (hlength : entry.value.length < 256) (rest : List UInt8) :
    entries pad stop (encode entry ++ rest) = entry :: entries pad stop rest := by
  have htoNat : (UInt8.ofNat entry.value.length).toNat = entry.value.length := by
    rw [UInt8.toNat_ofNat']
    exact Nat.mod_eq_of_lt hlength
  have hfits : (UInt8.ofNat entry.value.length).toNat ≤ (entry.value ++ rest).length := by
    rw [htoNat, List.length_append]
    exact Nat.le_add_right _ _
  calc
    entries pad stop (encode entry ++ rest)
      = ⟨entry.tag, (entry.value ++ rest).take (UInt8.ofNat entry.value.length).toNat⟩ ::
          entries pad stop ((entry.value ++ rest).drop (UInt8.ofNat entry.value.length).toNat) :=
        entries_of_fits hstop hpad hfits
    _ = entry :: entries pad stop rest := by
        rw [htoNat, List.take_left, List.drop_left]

theorem entries_flatMap_encode {items : List Entry}
    (hitems : ∀ entry ∈ items, entry.tag ≠ stop ∧ entry.tag ≠ pad ∧ entry.value.length < 256)
    (rest : List UInt8) :
    entries pad stop (items.flatMap encode ++ stop :: rest) = items := by
  induction items with
  | nil => exact entries_stop
  | cons entry items ih =>
    obtain ⟨hstop, hpad, hlength⟩ := hitems entry List.mem_cons_self
    rw [List.flatMap_cons, List.append_assoc, entries_encode_append hstop hpad hlength,
      ih fun other hother => hitems other (List.mem_cons_of_mem _ hother)]

/-! ## Reading at an offset -/

theorem drop_eq_getD_cons (block : List UInt8) (off : ℕ) (hoff : off < block.length) :
    block.drop off = block.getD off 0 :: block.drop (off + 1) := by
  rw [List.drop_eq_getElem_cons hoff, List.getD_eq_getElem?_getD, List.getElem?_eq_getElem hoff,
    Option.getD_some]

def lastValue (tag : UInt8) (least : ℕ) (items : List Entry) : Option (List UInt8) :=
  ((items.filter fun entry => entry.tag = tag ∧ least ≤ entry.value.length).getLast?).map
    Entry.value

variable {tag : UInt8} {least : ℕ} {items : List Entry} {entry : Entry}

theorem lastValue_cons_of_ne (h : ¬ (entry.tag = tag ∧ least ≤ entry.value.length)) :
    lastValue tag least (entry :: items) = lastValue tag least items := by
  rw [lastValue, List.filter_cons_of_neg (by simpa using h), lastValue]

theorem lastValue_cons_of_eq (h : entry.tag = tag ∧ least ≤ entry.value.length) :
    lastValue tag least (entry :: items) =
      some ((lastValue tag least items).getD entry.value) := by
  rw [lastValue, List.filter_cons_of_pos (by simpa using h), List.getLast?_cons, lastValue,
    Option.map_some, Option.getD_map]

theorem lastValue_append (left right : List Entry) :
    lastValue tag least (left ++ right) =
      (lastValue tag least right).or (lastValue tag least left) := by
  rw [lastValue, List.filter_append, List.getLast?_append, Option.map_or, lastValue, lastValue]

theorem lastValue_singleton (h : entry.tag = tag ∧ least ≤ entry.value.length) :
    lastValue tag least [entry] = some entry.value := lastValue_cons_of_eq h

theorem lastValue_singleton_of_ne {other : UInt8} (value : List UInt8) (h : other ≠ tag) :
    lastValue tag least [⟨other, value⟩] = none :=
  lastValue_cons_of_ne fun hentry => h hentry.1

theorem le_length_of_lastValue {value : List UInt8} (h : lastValue tag least items = some value) :
    least ≤ value.length := by
  obtain ⟨entry, hentry, rfl⟩ := Option.map_eq_some_iff.mp h
  have hmem := List.mem_filter.mp (List.mem_of_getLast? hentry)
  exact (of_decide_eq_true hmem.2).2

end EigenOS.TagLength
