import Mathlib.Data.List.Nodup

/-!
# Lists with keys

A list whose entries have different keys stands for a partial map.  Adding an entry,
replacing one and removing one change the map at one key.
-/

namespace EigenOS.KeyedList

open Function

variable {Entry Key Value : Type*} {key : Entry → Key} {value : Entry → Value}
  {entries before after : List Entry} {map : Key → Option Value}

structure Represents (key : Entry → Key) (value : Entry → Value) (entries : List Entry)
    (map : Key → Option Value) : Prop where
  nodup : (entries.map key).Nodup
  lookup : ∀ k v, map k = some v ↔ ∃ entry ∈ entries, key entry = k ∧ value entry = v

theorem represents_nil : Represents key value [] fun _ => none :=
  ⟨List.nodup_nil, by simp⟩

theorem Represents.key_ne {old : Entry}
    (h : Represents key value (before ++ old :: after) map) :
    ∀ entry ∈ before ++ after, key entry ≠ key old := by
  intro entry hentry hkey
  have hnodup := h.nodup
  rw [List.map_append, List.map_cons, List.nodup_middle, List.nodup_cons, ← List.map_append]
    at hnodup
  exact hnodup.1 (hkey ▸ List.mem_map_of_mem hentry)

theorem Represents.lookup_of_ne {old : Entry}
    (h : Represents key value (before ++ old :: after) map) {k : Key} (hk : k ≠ key old)
    (v : Value) :
    map k = some v ↔ ∃ entry ∈ before ++ after, key entry = k ∧ value entry = v := by
  have hne : key old ≠ k := Ne.symm hk
  rw [h.lookup]
  simp [or_and_right, exists_or, hne]

section Changes

variable [DecidableEq Key]

theorem Represents.add (h : Represents key value entries map) (entry : Entry)
    (hfresh : ∀ old ∈ entries, key old ≠ key entry) :
    Represents key value (entries ++ [entry])
      (update map (key entry) (some (value entry))) := by
  constructor
  · rw [List.map_append, List.map_singleton, List.nodup_append]
    exact ⟨h.nodup, List.nodup_singleton _, by simpa using hfresh⟩
  · intro k v
    by_cases hk : k = key entry
    · subst hk
      rw [update_self, Option.some.injEq]
      constructor
      · intro hv
        exact ⟨entry, by simp, rfl, hv⟩
      · intro ⟨old, hold, hkey, hv⟩
        rcases List.mem_append.mp hold with hold | hold
        · exact absurd hkey (hfresh old hold)
        · rwa [List.mem_singleton.mp hold] at hv
    · have hne : key entry ≠ k := Ne.symm hk
      rw [update_of_ne hk, h.lookup]
      simp [or_and_right, exists_or, hne]

theorem Represents.replace {old : Entry}
    (h : Represents key value (before ++ old :: after) map) (new : Entry)
    (hkey : key new = key old) :
    Represents key value (before ++ new :: after)
      (update map (key new) (some (value new))) := by
  constructor
  · have hnodup := h.nodup
    rwa [List.map_append, List.map_cons, ← hkey, ← List.map_cons, ← List.map_append] at hnodup
  · intro k v
    by_cases hk : k = key new
    · subst hk
      rw [update_self, Option.some.injEq]
      constructor
      · intro hv
        exact ⟨new, by simp, rfl, hv⟩
      · intro ⟨entry, hentry, hsame, hv⟩
        have hmem : entry = new ∨ entry ∈ before ++ after := by
          simpa [or_left_comm] using hentry
        rcases hmem with hmem | hmem
        · rwa [hmem] at hv
        · exact absurd (hsame.trans hkey) (h.key_ne entry hmem)
    · have hne : key new ≠ k := Ne.symm hk
      rw [update_of_ne hk, h.lookup_of_ne (hkey ▸ hk)]
      simp [or_and_right, exists_or, hne]

theorem Represents.remove {old : Entry}
    (h : Represents key value (before ++ old :: after) map) :
    Represents key value (before ++ after) (update map (key old) none) := by
  constructor
  · have hnodup := h.nodup
    rw [List.map_append, List.map_cons, List.nodup_middle, List.nodup_cons,
      ← List.map_append] at hnodup
    exact hnodup.2
  · intro k v
    by_cases hk : k = key old
    · subst hk
      rw [update_self]
      apply iff_of_false (by simp)
      intro ⟨entry, hentry, hsame, _⟩
      exact h.key_ne entry hentry hsame
    · rw [update_of_ne hk, h.lookup_of_ne hk]

theorem split_of_findIdx {k : Key} {i : ℕ}
    (h : entries.findIdx? (fun entry => key entry = k) = some i) :
    ∃ before old after, entries = before ++ old :: after ∧ before.length = i ∧ key old = k := by
  rw [List.findIdx?_eq_some_iff_getElem] at h
  obtain ⟨hlt, hkey, _⟩ := h
  refine ⟨entries.take i, entries[i], entries.drop (i + 1), ?_, ?_, ?_⟩
  · rw [List.getElem_cons_drop, List.take_append_drop]
  · rw [List.length_take]
    omega
  · exact of_decide_eq_true hkey

theorem key_ne_of_findIdx {k : Key}
    (h : entries.findIdx? (fun entry => key entry = k) = none) :
    ∀ entry ∈ entries, key entry ≠ k := by
  intro entry hentry
  exact of_decide_eq_false (List.findIdx?_eq_none_iff.mp h entry hentry)

end Changes

end EigenOS.KeyedList
