import EigenOS.Filesystem.Planting

/-!
# What a deletion gives back

`delete_recursive` with its calls of `kfree`.  A node in use is cleared once, and gives its
buffer back when it owns one: an external buffer, under capacity 0, is left alone.
-/

namespace EigenOS.Filesystem

open EigenOS.ParentTree Function

/-- `files[i].data && file_owns_data(&files[i])`. -/
def OwnsBuffer (fp : FileNode) : Prop := fp.data ≠ none ∧ 0 < fp.capacity

instance : DecidablePred OwnsBuffer := fun _ => inferInstanceAs (Decidable (_ ∧ _))

/-- The table, and the slots whose buffers `kfree` got, in the order of the calls. -/
structure Deletion where
  files : Table
  freed : List Slot

variable {plain : Table → Slot → Option Table} {delete : Deletion → Slot → Option Deletion}

namespace Deletion

/-- The buffer is freed, then the node is cleared. -/
def clear (d : Deletion) (idx : Slot) : Deletion where
  files := clearSlot d.files idx
  freed := if OwnsBuffer (d.files idx) then d.freed ++ [idx] else d.freed

/-- One round of a pass of `delete_recursive`. -/
def deleteChild (delete : Deletion → Slot → Option Deletion) (idx : Slot) (second : Bool)
    (d : Deletion) (i : Slot) : Option Deletion :=
  if i ≠ rootSlot ∧ (d.files i).inUse = true ∧ (d.files i).parentDir = idx.val then
    if (d.files i).type = .directory then delete d i
    else if second then some (d.clear i)
    else some d
  else some d

def deletePass (delete : Deletion → Slot → Option Deletion) (idx : Slot) (second : Bool)
    (d : Deletion) : Option Deletion :=
  (List.finRange maxFiles).foldlM (deleteChild delete idx second) d

/-- `delete_recursive` to a given depth; `none` when the recursion goes deeper. -/
def deleteRecursive : ℕ → Deletion → Slot → Option Deletion
  | 0, _, _ => none
  | depth + 1, d, idx =>
      if idx = rootSlot ∨ (d.files idx).inUse = false then some d
      else
        (deletePass (deleteRecursive depth) idx false d).bind fun d =>
          (if (d.files idx).type = .directory then deletePass (deleteRecursive depth) idx true d
          else some d).bind fun d => some (d.clear idx)

/-- `fs_delete`. -/
def fsDelete (files : Table) (caller : Caller) (path : CString) : Option (Deletion × ℤ) :=
  match fsResolveImpl files caller.cwd path with
  | none => some (⟨files, []⟩, -1)
  | some e =>
      if e = rootSlot ∨ (files e).inUse = false then some (⟨files, []⟩, -1)
      else (deleteRecursive maxFiles ⟨files, []⟩ e).map fun d => (d, 0)

/-! ## The table alone -/

def Tracks (step : Deletion → Slot → Option Deletion) (plain : Table → Slot → Option Table) :
    Prop := ∀ d i, (step d i).map files = plain d.files i

theorem tracks_foldlM {step : Deletion → Slot → Option Deletion} (h : Tracks step plain)
    (slots : List Slot) (d : Deletion) :
    (slots.foldlM step d).map files = slots.foldlM plain d.files := by
  induction slots generalizing d with
  | nil => rfl
  | cons i rest ih =>
      rw [List.foldlM_cons, List.foldlM_cons, ← h d i]
      cases step d i with
      | none => rfl
      | some next => exact ih next

theorem tracks_deleteChild (h : Tracks delete plain) (idx : Slot) (second : Bool) :
    Tracks (deleteChild delete idx second) (Filesystem.deleteChild plain idx second) := by
  intro d i
  unfold deleteChild Filesystem.deleteChild
  split
  · split
    · exact h d i
    · split <;> rfl
  · rfl

theorem tracks_deletePass (h : Tracks delete plain) (idx : Slot) (second : Bool) (d : Deletion) :
    (deletePass delete idx second d).map files =
      Filesystem.deletePass plain idx second d.files :=
  tracks_foldlM (tracks_deleteChild h idx second) _ d

theorem tracks_deleteRecursive (depth : ℕ) :
    Tracks (deleteRecursive depth) (Filesystem.deleteRecursive depth) := by
  induction depth with
  | zero => exact fun _ _ => rfl
  | succ depth ih =>
      intro d idx
      rw [deleteRecursive, Filesystem.deleteRecursive]
      split
      · rfl
      · rw [← tracks_deletePass ih idx false d]
        cases deletePass (deleteRecursive depth) idx false d with
        | none => rfl
        | some first =>
            simp only [Option.bind_some, Option.map_some]
            split
            · rw [← tracks_deletePass ih idx true first]
              cases deletePass (deleteRecursive depth) idx true first <;> rfl
            · rfl

/-! ## The ledger -/

/-- From one deletion to a later one, nodes in use were cleared, and those that owned their
buffers gave them back, each once. -/
structure Frees (before after : Deletion) : Prop where
  slots : ∀ slot, after.files slot = before.files slot ∨
    (before.files slot).inUse = true ∧ after.files slot = FileNode.zero
  freed : ∃ new, after.freed = before.freed ++ new ∧ new.Nodup ∧
    ∀ slot, slot ∈ new ↔ OwnsBuffer (before.files slot) ∧
      (before.files slot).inUse = true ∧ (after.files slot).inUse = false

theorem not_ownsBuffer_zero : ¬ OwnsBuffer FileNode.zero := by decide

namespace Frees

variable {before middle after : Deletion}

theorem refl (d : Deletion) : Frees d d := by
  refine ⟨fun _ => Or.inl rfl, [], (List.append_nil _).symm, List.nodup_nil, ?_⟩
  intro slot
  refine iff_of_false List.not_mem_nil ?_
  rintro ⟨_, hused, hfree⟩
  rw [hused] at hfree
  cases hfree

theorem eq_of_used (h : Frees before after) {slot : Slot}
    (hused : (after.files slot).inUse = true) : after.files slot = before.files slot := by
  rcases h.slots slot with heq | ⟨_, hzero⟩
  · exact heq
  · rw [hzero] at hused
    cases hused

theorem used_of_used (h : Frees before after) {slot : Slot}
    (hused : (after.files slot).inUse = true) : (before.files slot).inUse = true := by
  rw [← h.eq_of_used hused]
  exact hused

theorem trans (hfirst : Frees before middle) (hsecond : Frees middle after) :
    Frees before after := by
  obtain ⟨old, hold, holdNodup, holdMem⟩ := hfirst.freed
  obtain ⟨new, hnew, hnewNodup, hnewMem⟩ := hsecond.freed
  refine ⟨?_, old ++ new, by rw [hnew, hold, List.append_assoc], ?_, ?_⟩
  · intro slot
    rcases hsecond.slots slot with heq | ⟨hused, hzero⟩
    · rw [heq]
      exact hfirst.slots slot
    · exact Or.inr ⟨hfirst.used_of_used hused, hzero⟩
  · refine List.nodup_append.mpr ⟨holdNodup, hnewNodup, ?_⟩
    rintro slot hinOld _ hinNew rfl
    have hfree := ((holdMem slot).mp hinOld).2.2
    rw [((hnewMem slot).mp hinNew).2.1] at hfree
    cases hfree
  · intro slot
    rw [List.mem_append, holdMem, hnewMem]
    by_cases hmiddle : (middle.files slot).inUse = true
    · have hused := hfirst.used_of_used hmiddle
      rw [hfirst.eq_of_used hmiddle]
      simp [hused]
    · rw [Bool.not_eq_true] at hmiddle
      have hgone : (after.files slot).inUse = false := by
        rw [← Bool.not_eq_true]
        intro hused
        rw [hsecond.used_of_used hused] at hmiddle
        cases hmiddle
      simp [hmiddle, hgone]

theorem clear_of_used {d : Deletion} {idx : Slot} (hused : (d.files idx).inUse = true) :
    Frees d (d.clear idx) := by
  have hself : (d.clear idx).files idx = FileNode.zero := update_self _ _ _
  have hother : ∀ slot, slot ≠ idx → (d.clear idx).files slot = d.files slot :=
    fun slot hslot => update_of_ne hslot _ _
  have hcleared : ∀ slot, (d.files slot).inUse = true →
      ((d.clear idx).files slot).inUse = false → slot = idx := by
    intro slot hslot hfree
    by_contra hne
    rw [hother slot hne, hslot] at hfree
    cases hfree
  constructor
  · intro slot
    by_cases heq : slot = idx
    · subst heq
      exact Or.inr ⟨hused, hself⟩
    · exact Or.inl (hother slot heq)
  · by_cases howns : OwnsBuffer (d.files idx)
    · refine ⟨[idx], if_pos howns, List.nodup_singleton _, ?_⟩
      intro slot
      rw [List.mem_singleton]
      constructor
      · rintro rfl
        exact ⟨howns, hused, by rw [hself]; rfl⟩
      · rintro ⟨_, hslot, hfree⟩
        exact hcleared slot hslot hfree
    · refine ⟨[], (if_neg howns).trans (List.append_nil _).symm, List.nodup_nil, ?_⟩
      intro slot
      refine iff_of_false List.not_mem_nil ?_
      rintro ⟨hslotOwns, hslot, hfree⟩
      rw [hcleared slot hslot hfree] at hslotOwns
      exact howns hslotOwns

theorem clear_of_zero {d : Deletion} {idx : Slot} (hzero : d.files idx = FileNode.zero) :
    Frees d (d.clear idx) := by
  have hsame : d.clear idx = d := by
    have hfiles : clearSlot d.files idx = d.files := by
      rw [clearSlot, ← hzero, update_eq_self]
    have hnot : ¬ OwnsBuffer (d.files idx) := by
      rw [hzero]
      exact not_ownsBuffer_zero
    rw [clear, hfiles, if_neg hnot]
  rw [hsame]
  exact refl d

end Frees

theorem frees_deleteChild {idx : Slot} {second : Bool}
    (hdelete : ∀ d i after, delete d i = some after → Frees d after) {d after : Deletion} {i : Slot}
    (h : deleteChild delete idx second d i = some after) : Frees d after := by
  unfold deleteChild at h
  split at h
  · rename_i hchild
    split at h
    · exact hdelete d i after h
    · split at h
      · cases h
        exact Frees.clear_of_used hchild.2.1
      · cases h
        exact Frees.refl d
  · cases h
    exact Frees.refl d

theorem frees_deletePass {idx : Slot} {second : Bool}
    (hdelete : ∀ d i after, delete d i = some after → Frees d after) {d after : Deletion}
    (h : deletePass delete idx second d = some after) : Frees d after := by
  unfold deletePass at h
  generalize List.finRange maxFiles = slots at h
  induction slots generalizing d with
  | nil =>
      cases h
      exact Frees.refl _
  | cons i rest ih =>
      rw [List.foldlM_cons] at h
      obtain ⟨next, hnext, hrest⟩ := Option.bind_eq_some_iff.mp h
      exact (frees_deleteChild hdelete hnext).trans (ih hrest)

theorem frees_deleteRecursive (depth : ℕ) (d : Deletion) (idx : Slot) (after : Deletion)
    (h : deleteRecursive depth d idx = some after) : Frees d after := by
  induction depth generalizing d idx after with
  | zero => cases h
  | succ depth ih =>
      rw [deleteRecursive] at h
      split at h
      · cases h
        exact Frees.refl d
      · rename_i hlive
        rw [not_or, Bool.not_eq_false] at hlive
        obtain ⟨first, hfirst, hrest⟩ := Option.bind_eq_some_iff.mp h
        obtain ⟨last, hlast, hclear⟩ := Option.bind_eq_some_iff.mp hrest
        cases hclear
        have hpass := frees_deletePass ih hfirst
        have hboth : Frees d last := by
          split at hlast
          · exact hpass.trans (frees_deletePass ih hlast)
          · cases hlast
            exact hpass
        refine hboth.trans ?_
        rcases hboth.slots idx with heq | ⟨_, hzero⟩
        · exact Frees.clear_of_used (heq ▸ hlive.2)
        · exact Frees.clear_of_zero hzero

end Deletion

/-! ## Deleting a subtree -/

/-- A node in use at or below `top`. -/
def IsBelow (files : Table) (top slot : Slot) : Prop :=
  (files slot).inUse = true ∧ Climbs (parentOf files) slot top

theorem Pruned.not_isBelow {files after : Table} {top slot : Slot}
    (h : Pruned files after top) (htop : (after top).inUse = false)
    (hslot : (after slot).inUse = true) : ¬ IsBelow files top slot := by
  rintro ⟨-, hclimbs⟩
  have hsame : ∀ node, (after node).inUse = true → parentOf files node = parentOf after node := by
    intro node hnode
    unfold parentOf
    rw [h.slot_eq hnode]
  have hkept : (after top).inUse = true := by
    clear htop
    induction hclimbs using Relation.ReflTransGen.head_induction_on with
    | refl => exact hslot
    | head hstep _ ih =>
        apply ih
        rw [← hstep, hsame _ hslot]
        exact h.tree.parent_inUse _ hslot
  rw [htop] at hkept
  cases hkept

/-- `fs_delete` ends.  It clears the node it names and what is below it, gives back the buffers
these own, each once, and leaves every other node as it is. -/
theorem fsDelete_frees_subtree {files : Table} (hfiles : TreeInvariant files) {caller : Caller}
    {path : CString} {e : Slot} (he : fsResolveImpl files caller.cwd path = some e)
    (hroot : e ≠ rootSlot) (hused : (files e).inUse = true) :
    ∃ after, Deletion.fsDelete files caller path = some (after, 0) ∧
      (∀ slot, IsBelow files e slot → after.files slot = FileNode.zero) ∧
      (∀ slot, ¬ IsBelow files e slot → after.files slot = files slot) ∧
      after.freed.Nodup ∧
      ∀ slot, slot ∈ after.freed ↔ IsBelow files e slot ∧ OwnsBuffer (files slot) := by
  obtain ⟨table, htable, hpruned, hgone⟩ := deleteRecursive_maxFiles hfiles hroot hused
  have htracks := Deletion.tracks_deleteRecursive maxFiles ⟨files, []⟩ e
  rw [htable] at htracks
  obtain ⟨after, hafter, hfilesAfter⟩ := Option.map_eq_some_iff.mp htracks
  have hfrees := Deletion.frees_deleteRecursive maxFiles _ e after hafter
  rw [← hfilesAfter] at hpruned hgone
  have hbelow : ∀ slot, IsBelow files e slot → (after.files slot).inUse = false := by
    intro slot hslot
    rw [← Bool.not_eq_true]
    exact fun hkept => hpruned.not_isBelow hgone hkept hslot
  obtain ⟨new, hnew, hnodup, hmem⟩ := hfrees.freed
  rw [List.nil_append] at hnew
  refine ⟨after, ?_, ?_, ?_, hnew ▸ hnodup, ?_⟩
  · unfold Deletion.fsDelete
    rw [he]
    dsimp only
    rw [if_neg (by simp [hroot, hused]), hafter]
    rfl
  · intro slot hslot
    rcases hfrees.slots slot with heq | ⟨_, hzero⟩
    · have hfree := hbelow slot hslot
      rw [heq, hslot.1] at hfree
      cases hfree
    · exact hzero
  · intro slot hslot
    rcases hpruned.slots slot with heq | ⟨_, hslotUsed, hclimbs⟩
    · exact heq
    · exact absurd ⟨hslotUsed, hclimbs⟩ hslot
  · intro slot
    rw [hnew, hmem]
    constructor
    · rintro ⟨howns, hslotUsed, hfree⟩
      refine ⟨?_, howns⟩
      rcases hpruned.slots slot with heq | ⟨_, _, hclimbs⟩
      · rw [heq, hslotUsed] at hfree
        cases hfree
      · exact ⟨hslotUsed, hclimbs⟩
    · rintro ⟨hslot, howns⟩
      exact ⟨howns, hslot.1, hbelow slot hslot⟩

/-- A directory "/d" with a file that owns its bytes and one that does not. -/
def ownedAndExternal : List FileNode :=
  [newEntry (bytes "d") .directory 0 0 0,
    { newEntry (bytes "f") .file 1 0 0 with data := some [1, 2], size := 2, capacity := 128 },
    { newEntry (bytes "e") .file 1 0 0 with data := some [3], size := 1, capacity := 0 }]

def dPath : CString := ⟨bytes "/d", by decide⟩

theorem fsDelete_frees_ownedAndExternal :
    ∃ after, Deletion.fsDelete (plant ownedAndExternal) shell dPath = some (after, 0) ∧
      (∀ slot, IsBelow (plant ownedAndExternal) (plantSlot 0 (by decide)) slot →
        after.files slot = FileNode.zero) ∧
      (∀ slot, ¬ IsBelow (plant ownedAndExternal) (plantSlot 0 (by decide)) slot →
        after.files slot = plant ownedAndExternal slot) ∧
      after.freed.Nodup ∧
      ∀ slot, slot ∈ after.freed ↔
        IsBelow (plant ownedAndExternal) (plantSlot 0 (by decide)) slot ∧
          OwnsBuffer (plant ownedAndExternal slot) :=
  fsDelete_frees_subtree (treeInvariant_plant (by decide +kernel)) (by decide +kernel)
    (plantSlot_ne_root _) rfl

end EigenOS.Filesystem
