import EigenOS.Filesystem.TreeChanges

/-!
# Recursive deletion

`delete_recursive` clears one slot after the other, each when nothing in use hangs off it.
In a table that is a tree the recursion ends, because every call has fewer nodes below it
than its caller, and the node and what is below it are all it clears.
-/

namespace EigenOS.Filesystem

open EigenOS.ParentTree

/-- `after` is a tree that lacks some nodes that `files` has at or below `top`. -/
structure Pruned (files after : Table) (top : Slot) : Prop where
  tree : TreeInvariant after
  slots : ∀ slot, after slot = files slot ∨
    (after slot).inUse = false ∧ (files slot).inUse = true ∧
      Climbs (parentOf files) slot top

theorem TreeInvariant.clear {files : Table} (hfiles : TreeInvariant files) {idx : Slot}
    (hidx : idx ≠ rootSlot)
    (hleaf : ∀ slot, (files slot).inUse = true → parentOf files slot ≠ idx) :
    TreeInvariant (clearSlot files idx) := by
  have hnode : ∀ slot, slot ≠ idx → clearSlot files idx slot = files slot :=
    fun slot hslot => Function.update_of_ne hslot _ _
  have hkept : ∀ slot, (clearSlot files idx slot).inUse = true →
      slot ≠ idx ∧ (files slot).inUse = true := by
    intro slot hslot
    by_cases heq : slot = idx
    · subst heq
      simp [clearSlot] at hslot
    · rw [hnode slot heq] at hslot
      exact ⟨heq, hslot⟩
  have hparent : ∀ slot, slot ≠ idx ∧ (files slot).inUse = true →
      parentOf (clearSlot files idx) slot = parentOf files slot := by
    rintro slot ⟨hne, _⟩
    unfold parentOf
    rw [hnode slot hne]
  have hclosed : ∀ slot, slot ≠ idx ∧ (files slot).inUse = true →
      parentOf files slot ≠ idx ∧ (files (parentOf files slot)).inUse = true :=
    fun slot hslot => ⟨hleaf slot hslot.2, hfiles.parent_inUse slot hslot.2⟩
  have hroot := hnode rootSlot hidx.symm
  refine ⟨hroot ▸ hfiles.root_directory, hroot ▸ hfiles.root_parent, ?_, ?_, ?_, ?_, ?_, ?_⟩
  · intro slot hslot
    have hold := hkept slot hslot
    rw [hparent slot hold, hnode slot hold.1]
    exact hfiles.parent_index slot hold.2
  · intro slot hslot
    have hold := hkept slot hslot
    rw [hparent slot hold, hnode _ (hclosed slot hold).1]
    exact hfiles.parent_directory slot hold.2
  · intro slot hslot
    have hold := hkept slot hslot
    exact (hfiles.reaches_root slot hold.2).congr_on hclosed hparent hold
  · intro slot hslot
    have hold := hkept slot hslot
    rw [hnode slot hold.1]
    exact hfiles.name_terminated slot hold.2
  · intro slot hslot
    have hold := hkept slot hslot
    rw [hnode slot hold.1]
    exact hfiles.name_nonempty slot hold.2
  · intro left right hleft hright hleftUse hrightUse
    have hleftOld := hkept left hleftUse
    have hrightOld := hkept right hrightUse
    rw [hnode left hleftOld.1, hnode right hrightOld.1]
    exact hfiles.siblings_distinct left right hleft hright hleftOld.2 hrightOld.2

namespace Pruned

variable {files middle after : Table} {top : Slot}

theorem refl (hfiles : TreeInvariant files) : Pruned files files top :=
  ⟨hfiles, fun _ => Or.inl rfl⟩

theorem slot_eq (h : Pruned files after top) {slot : Slot}
    (hslot : (after slot).inUse = true) : after slot = files slot := by
  rcases h.slots slot with heq | ⟨hfree, _⟩
  · exact heq
  · rw [hslot] at hfree
    cases hfree

theorem climbs (h : Pruned files after top) {slot ancestor : Slot}
    (hslot : (after slot).inUse = true) (hclimbs : Climbs (parentOf after) slot ancestor) :
    Climbs (parentOf files) slot ancestor := by
  refine hclimbs.congr_on h.tree.parent_inUse ?_ hslot
  intro node hnode
  unfold parentOf
  rw [h.slot_eq hnode]

theorem widen (h : Pruned files after top) {above : Slot}
    (habove : Climbs (parentOf files) top above) : Pruned files after above := by
  refine ⟨h.tree, ?_⟩
  intro slot
  rcases h.slots slot with heq | ⟨hfree, hused, hclimbs⟩
  · exact Or.inl heq
  · exact Or.inr ⟨hfree, hused, hclimbs.trans habove⟩

theorem trans (hfirst : Pruned files middle top) (hsecond : Pruned middle after top) :
    Pruned files after top := by
  refine ⟨hsecond.tree, ?_⟩
  intro slot
  rcases hsecond.slots slot with heq | ⟨hfree, hused, hclimbs⟩
  · rw [heq]
    exact hfirst.slots slot
  · right
    refine ⟨hfree, ?_, hfirst.climbs hused hclimbs⟩
    rw [← hfirst.slot_eq hused]
    exact hused

theorem clear (hfiles : TreeInvariant files) {idx : Slot} (hidx : idx ≠ rootSlot)
    (hused : (files idx).inUse = true)
    (hleaf : ∀ slot, (files slot).inUse = true → parentOf files slot ≠ idx) :
    Pruned files (clearSlot files idx) idx := by
  refine ⟨hfiles.clear hidx hleaf, ?_⟩
  intro slot
  by_cases heq : slot = idx
  · subst heq
    exact Or.inr ⟨by simp [clearSlot], hused, Climbs.refl _⟩
  · exact Or.inl (Function.update_of_ne heq _ _)

end Pruned

/-! ## The recursion -/

open Classical in
/-- The nodes in use at or below `top`. -/
noncomputable def below (files : Table) (top : Slot) : Finset Slot :=
  Finset.univ.filter fun slot => (files slot).inUse = true ∧ Climbs (parentOf files) slot top

theorem mem_below {files : Table} {top slot : Slot} :
    slot ∈ below files top ↔
      (files slot).inUse = true ∧ Climbs (parentOf files) slot top := by
  simp [below]

/-- A child is in use and linked to the node. -/
def IsChildOf (files : Table) (idx i : Slot) : Prop :=
  i ≠ rootSlot ∧ (files i).inUse = true ∧ (files i).parentDir = idx.val

theorem IsChildOf.parentOf_eq {files : Table} {idx i : Slot} (h : IsChildOf files idx i) :
    parentOf files i = idx := by
  unfold parentOf
  rw [h.2.2]
  exact slotAt_natCast idx

theorem IsChildOf.climbs {files : Table} {idx i : Slot} (h : IsChildOf files idx i) :
    Climbs (parentOf files) i idx := by
  have hstep := climbs_parent (parentOf files) i
  rw [h.parentOf_eq] at hstep
  exact hstep

theorem IsChildOf.not_climbs {files : Table} (hfiles : TreeInvariant files) {idx i : Slot}
    (h : IsChildOf files idx i) : ¬ Climbs (parentOf files) idx i := by
  intro hback
  have hcycle : Climbs (parentOf files) (parentOf files i) i := by
    rw [h.parentOf_eq]
    exact hback
  exact h.1 (Climbs.eq_root_of_cycle hfiles.parentOf_root
    (hfiles.reaches_root i h.2.1) hcycle)

theorem card_below_lt {files after : Table} {idx i : Slot} (hpruned : Pruned files after idx)
    (hidx : (files idx).inUse = true) (hchild : IsChildOf after idx i) :
    (below after i).card < (below files idx).card := by
  apply Finset.card_lt_card
  rw [Finset.ssubset_iff_of_subset]
  · refine ⟨idx, mem_below.mpr ⟨hidx, Climbs.refl _⟩, ?_⟩
    rw [mem_below]
    rintro ⟨_, hback⟩
    exact hchild.not_climbs hpruned.tree hback
  · intro slot
    rw [mem_below, mem_below]
    rintro ⟨hused, hclimbs⟩
    refine ⟨?_, hpruned.climbs hused (hclimbs.trans hchild.climbs)⟩
    rw [← hpruned.slot_eq hused]
    exact hused

/-- What deleting `idx` has to do. -/
def Deletes (files : Table) (idx : Slot) (result : Option Table) : Prop :=
  ∃ after, result = some after ∧ Pruned files after idx ∧ (after idx).inUse = false

/-- A table on the way: some children of `idx` are gone, `idx` itself is untouched. -/
structure Underway (files after : Table) (idx : Slot) : Prop where
  pruned : Pruned files after idx
  self : after idx = files idx

theorem deleteChild_spec {files middle : Table} {idx i : Slot} {second : Bool}
    {delete : Table → Slot → Option Table} (hfiles : Underway files middle idx)
    (hused : (files idx).inUse = true)
    (hdelete : IsChildOf middle idx i → Deletes middle i (delete middle i)) :
    ∃ after, deleteChild delete idx second middle i = some after ∧
      Underway files after idx ∧ Pruned middle after idx ∧
      (second = true → ¬ IsChildOf after idx i) := by
  have htree := hfiles.pruned.tree
  have hselfUsed : (middle idx).inUse = true := by
    rw [hfiles.self]
    exact hused
  -- A child that is cleared, with what is below it, leaves the rest underway.
  have hgone : IsChildOf middle idx i → ∀ after, Pruned middle after i →
      (after i).inUse = false → Underway files after idx ∧ Pruned middle after idx ∧
        (second = true → ¬ IsChildOf after idx i) := by
    intro hchild after hpruned hfree
    have hwide := hpruned.widen hchild.climbs
    refine ⟨⟨hfiles.pruned.trans hwide, ?_⟩, hwide, ?_⟩
    · rcases hpruned.slots idx with heq | ⟨_, _, hback⟩
      · rw [heq, hfiles.self]
      · exact absurd hback (hchild.not_climbs htree)
    · intro _ hstill
      rw [hstill.2.1] at hfree
      cases hfree
  unfold deleteChild
  by_cases hchild : IsChildOf middle idx i
  · have hchild' := hchild
    unfold IsChildOf at hchild'
    rw [if_pos hchild']
    by_cases hdir : (middle i).type = .directory
    · rw [if_pos hdir]
      obtain ⟨after, hafter, hpruned, hfree⟩ := hdelete hchild
      exact ⟨after, hafter, hgone hchild after hpruned hfree⟩
    · rw [if_neg hdir]
      cases second with
      | false => exact ⟨middle, rfl, hfiles, Pruned.refl htree, nofun⟩
      | true =>
          have hleaf : ∀ slot, (middle slot).inUse = true → parentOf middle slot ≠ i := by
            rintro slot hslot rfl
            exact hdir (htree.parent_directory slot hslot).type_eq
          refine ⟨_, rfl, hgone hchild _ (Pruned.clear htree hchild.1 hchild.2.1 hleaf) ?_⟩
          simp [clearSlot]
  · have hchild' := hchild
    unfold IsChildOf at hchild'
    rw [if_neg hchild']
    exact ⟨middle, rfl, hfiles, Pruned.refl htree, fun _ => hchild⟩

theorem Pruned.not_isChildOf {files after : Table} {top idx i : Slot}
    (h : Pruned files after top) (hnot : ¬ IsChildOf files idx i) :
    ¬ IsChildOf after idx i := by
  rintro ⟨hne, hused, hparent⟩
  have heq := h.slot_eq hused
  rw [heq] at hused hparent
  exact hnot ⟨hne, hused, hparent⟩

theorem foldlM_deleteChild (files : Table) (idx : Slot) (second : Bool)
    {delete : Table → Slot → Option Table} (hused : (files idx).inUse = true)
    (hdelete : ∀ middle, Underway files middle idx → ∀ i, IsChildOf middle idx i →
      Deletes middle i (delete middle i))
    (slots : List Slot) {middle : Table} (hmiddle : Underway files middle idx) :
    ∃ after, slots.foldlM (deleteChild delete idx second) middle = some after ∧
      Underway files after idx ∧ Pruned middle after idx ∧
      (second = true → ∀ i ∈ slots, ¬ IsChildOf after idx i) := by
  induction slots generalizing middle with
  | nil =>
      exact ⟨middle, rfl, hmiddle, Pruned.refl hmiddle.pruned.tree, fun _ i hi => nomatch hi⟩
  | cons i rest ih =>
      obtain ⟨next, hnext, hunder, hpruned, hgone⟩ :=
        deleteChild_spec hmiddle hused (hdelete middle hmiddle i)
      obtain ⟨after, hafter, hunderAfter, hprunedAfter, hrest⟩ := ih hunder
      refine ⟨after, ?_, hunderAfter, hpruned.trans hprunedAfter, ?_⟩
      · rw [List.foldlM_cons, hnext]
        exact hafter
      · intro hsecond j hj
        rcases List.mem_cons.mp hj with rfl | hj
        · exact hprunedAfter.not_isChildOf (hgone hsecond)
        · exact hrest hsecond j hj

theorem Underway.clear_self {files middle : Table} {idx : Slot}
    (hmiddle : Underway files middle idx) (hidx : idx ≠ rootSlot)
    (hused : (files idx).inUse = true) (hnone : ∀ i, ¬ IsChildOf middle idx i) :
    Deletes files idx (some (clearSlot middle idx)) := by
  have htree := hmiddle.pruned.tree
  have hleaf : ∀ slot, (middle slot).inUse = true → parentOf middle slot ≠ idx := by
    rintro slot hslot rfl
    refine hnone slot ⟨?_, hslot, htree.parent_index slot hslot⟩
    rintro rfl
    exact hidx htree.parentOf_root
  have hmiddleUsed : (middle idx).inUse = true := by
    rw [hmiddle.self]
    exact hused
  refine ⟨_, rfl, hmiddle.pruned.trans (Pruned.clear htree hidx hmiddleUsed hleaf), ?_⟩
  simp [clearSlot]

/-- With a depth of as many calls as there are nodes below it, a node in use is deleted. -/
theorem deleteRecursive_spec {depth : ℕ} {files : Table} {idx : Slot}
    (hfiles : TreeInvariant files) (hidx : idx ≠ rootSlot) (hused : (files idx).inUse = true)
    (hdepth : (below files idx).card ≤ depth) :
    Deletes files idx (deleteRecursive depth files idx) := by
  induction depth generalizing files idx with
  | zero =>
      have hself : idx ∈ below files idx := mem_below.mpr ⟨hused, Climbs.refl _⟩
      have hpos := Finset.card_pos.mpr ⟨idx, hself⟩
      omega
  | succ depth ih =>
      have hdelete : ∀ middle, Underway files middle idx → ∀ i, IsChildOf middle idx i →
          Deletes middle i (deleteRecursive depth middle i) := by
        intro middle hmiddle i hchild
        have hlt := card_below_lt hmiddle.pruned hused hchild
        exact ih hmiddle.pruned.tree hchild.1 hchild.2.1 (by omega)
      have hstart : Underway files files idx := ⟨Pruned.refl hfiles, rfl⟩
      obtain ⟨first, hfirst, hunder, _, _⟩ :=
        foldlM_deleteChild files idx false hused hdelete (List.finRange maxFiles) hstart
      have hpass : deletePass (deleteRecursive depth) idx false files = some first := hfirst
      rw [deleteRecursive, if_neg (by simp [hidx, hused]), hpass, Option.bind_some]
      by_cases hdir : (first idx).type = .directory
      · obtain ⟨last, hlast, hunderLast, _, hgone⟩ :=
          foldlM_deleteChild files idx true hused hdelete (List.finRange maxFiles) hunder
        have hsecond : deletePass (deleteRecursive depth) idx true first = some last := hlast
        rw [if_pos hdir, hsecond, Option.bind_some]
        exact hunderLast.clear_self hidx hused fun i => hgone rfl i (List.mem_finRange i)
      · rw [if_neg hdir, Option.bind_some]
        refine hunder.clear_self hidx hused ?_
        intro i hchild
        have hparent := hunder.pruned.tree.parent_directory i hchild.2.1
        rw [hchild.parentOf_eq] at hparent
        exact hdir hparent.type_eq

theorem deleteRecursive_maxFiles {files : Table} {idx : Slot} (hfiles : TreeInvariant files)
    (hidx : idx ≠ rootSlot) (hused : (files idx).inUse = true) :
    Deletes files idx (deleteRecursive maxFiles files idx) := by
  apply deleteRecursive_spec hfiles hidx hused
  have hle := Finset.card_le_univ (below files idx)
  rw [Fintype.card_fin] at hle
  exact hle

end EigenOS.Filesystem
