import EigenOS.Filesystem.Operations

/-!
# Changes that keep the tree

The four ways a call changes the node table: a new node in a free slot, a node under
another name or parent, other contents of a node, and a slot that is cleared when nothing
hangs off it.  Each keeps the tree invariant under the conditions stated with it.
-/

namespace EigenOS.Filesystem

open EigenOS.ParentTree Function

/-- `parent` is the index of a directory in use. -/
def IsDirIndex (files : Table) (parent : ℤ) : Prop :=
  parent = (slotAt parent).val ∧ IsDirectory (files (slotAt parent))

/-- No node below `parent` but possibly `self` has the name that `name` is stored as. -/
def NameFree (files : Table) (parent : ℤ) (name : List UInt8) (self : Slot) : Prop :=
  ∀ slot, slot ≠ rootSlot → slot ≠ self → (files slot).inUse = true →
    (files slot).parentDir = parent → cString (files slot).name ≠ name.take (maxFilename - 1)

theorem parentOf_update (files : Table) (idx : Slot) (fp : FileNode) :
    parentOf (update files idx fp) =
      update (parentOf files) idx (slotAt fp.parentDir) := by
  funext slot
  by_cases hslot : slot = idx
  · subst hslot
    simp [parentOf]
  · simp [parentOf, hslot]

namespace TreeInvariant

variable {files : Table}

theorem parent_inUse (hfiles : TreeInvariant files) (slot : Slot)
    (hslot : (files slot).inUse = true) : (files (parentOf files slot)).inUse = true :=
  (hfiles.parent_directory slot hslot).inUse

theorem parentOf_root (hfiles : TreeInvariant files) : parentOf files rootSlot = rootSlot := by
  unfold parentOf
  rw [hfiles.root_parent]
  exact slotAt_natCast rootSlot

theorem update_free (hfiles : TreeInvariant files) {idx : Slot} {fp : FileNode}
    (hidx : (files idx).inUse = false) (hfp : fp.inUse = false) :
    TreeInvariant (update files idx fp) := by
  have hne : ∀ slot, (update files idx fp slot).inUse = true →
      slot ≠ idx ∧ (files slot).inUse = true := by
    intro slot hslot
    by_cases heq : slot = idx
    · subst heq
      rw [update_self, hfp] at hslot
      cases hslot
    · rw [update_of_ne heq] at hslot
      exact ⟨heq, hslot⟩
  have hnode : ∀ slot, (files slot).inUse = true →
      update files idx fp slot = files slot := by
    intro slot hslot
    apply update_of_ne
    rintro rfl
    rw [hidx] at hslot
    cases hslot
  have hparent : ∀ slot, (files slot).inUse = true →
      parentOf (update files idx fp) slot = parentOf files slot := by
    intro slot hslot
    unfold parentOf
    rw [hnode slot hslot]
  have hroot := hnode rootSlot hfiles.root_directory.inUse
  refine ⟨hroot ▸ hfiles.root_directory, hroot ▸ hfiles.root_parent, ?_, ?_, ?_, ?_, ?_, ?_⟩
  · intro slot hslot
    have hold := (hne slot hslot).2
    rw [hnode slot hold, hparent slot hold]
    exact hfiles.parent_index slot hold
  · intro slot hslot
    have hold := (hne slot hslot).2
    rw [hparent slot hold, hnode _ (hfiles.parent_inUse slot hold)]
    exact hfiles.parent_directory slot hold
  · intro slot hslot
    have hold := (hne slot hslot).2
    exact (hfiles.reaches_root slot hold).congr_on hfiles.parent_inUse hparent hold
  · intro slot hslot
    have hold := (hne slot hslot).2
    rw [hnode slot hold]
    exact hfiles.name_terminated slot hold
  · intro slot hslot
    have hold := (hne slot hslot).2
    rw [hnode slot hold]
    exact hfiles.name_nonempty slot hold
  · intro left right hleft hright hleftUse hrightUse
    have hleftOld := (hne left hleftUse).2
    have hrightOld := (hne right hrightUse).2
    rw [hnode left hleftOld, hnode right hrightOld]
    exact hfiles.siblings_distinct left right hleft hright hleftOld hrightOld

/-- Every node after a slot other than the root was rewritten is the new node or an old
one. -/
theorem of_update (hfiles : TreeInvariant files) {idx : Slot} {fp : FileNode}
    (hidx : idx ≠ rootSlot) (hfp : fp.inUse = true)
    (hchildren : fp.type = .directory ∨
      ∀ slot, (files slot).inUse = true → parentOf files slot ≠ idx)
    (hparent : IsDirIndex files fp.parentDir) (hself : slotAt fp.parentDir ≠ idx)
    (hreaches : ∀ slot, slot = idx ∨ (files slot).inUse = true →
      Climbs (parentOf (update files idx fp)) slot rootSlot)
    (hterminated : Terminated fp.name) (hnonempty : cString fp.name ≠ [])
    (hdistinct : ∀ slot, slot ≠ rootSlot → slot ≠ idx → (files slot).inUse = true →
      (files slot).parentDir = fp.parentDir → cString (files slot).name ≠ cString fp.name) :
    TreeInvariant (update files idx fp) := by
  have hnode : ∀ slot, slot ≠ idx → update files idx fp slot = files slot :=
    fun slot hslot => update_of_ne hslot _ _
  have hroot := hnode rootSlot hidx.symm
  have hdirectory : ∀ slot, IsDirectory (files slot) → (slot = idx → fp.type = .directory) →
      IsDirectory (update files idx fp slot) := by
    intro slot hslot htype
    by_cases heq : slot = idx
    · subst heq
      rw [update_self]
      exact ⟨hfp, htype rfl⟩
    · rw [hnode slot heq]
      exact hslot
  refine ⟨hroot ▸ hfiles.root_directory, hroot ▸ hfiles.root_parent, ?_, ?_, ?_, ?_, ?_, ?_⟩
  · intro slot hslot
    by_cases heq : slot = idx
    · subst heq
      rw [parentOf_update, update_self, update_self]
      exact hparent.1
    · rw [hnode slot heq] at hslot
      rw [parentOf_update, update_of_ne heq, update_of_ne heq]
      exact hfiles.parent_index slot hslot
  · intro slot hslot
    by_cases heq : slot = idx
    · subst heq
      rw [parentOf_update, update_self, hnode _ hself]
      exact hparent.2
    · rw [parentOf_update, update_of_ne heq]
      rw [hnode slot heq] at hslot
      apply hdirectory _ (hfiles.parent_directory slot hslot)
      intro hup
      rcases hchildren with htype | hnone
      · exact htype
      · exact absurd hup (hnone slot hslot)
  · intro slot hslot
    apply hreaches
    by_cases heq : slot = idx
    · exact Or.inl heq
    · rw [hnode slot heq] at hslot
      exact Or.inr hslot
  · intro slot hslot
    by_cases heq : slot = idx
    · subst heq
      rw [update_self]
      exact hterminated
    · rw [hnode slot heq] at hslot ⊢
      exact hfiles.name_terminated slot hslot
  · intro slot hslot
    by_cases heq : slot = idx
    · subst heq
      rw [update_self]
      exact hnonempty
    · rw [hnode slot heq] at hslot ⊢
      exact hfiles.name_nonempty slot hslot
  · intro left right hleft hright hleftUse hrightUse hsame hname
    by_cases hl : left = idx <;> by_cases hr : right = idx
    · rw [hl, hr]
    · subst hl
      rw [hnode right hr] at hrightUse hsame hname
      rw [update_self] at hsame hname
      exact absurd hname.symm (hdistinct right hright hr hrightUse hsame.symm)
    · subst hr
      rw [hnode left hl] at hleftUse hsame hname
      rw [update_self] at hsame hname
      exact absurd hname (hdistinct left hleft hl hleftUse hsame)
    · rw [hnode left hl] at hleftUse hsame hname
      rw [hnode right hr] at hrightUse hsame hname
      exact hfiles.siblings_distinct left right hleft hright hleftUse hrightUse hsame hname

theorem create (hfiles : TreeInvariant files) {idx : Slot} {fp : FileNode}
    (hidx : idx ≠ rootSlot) (hfree : (files idx).inUse = false) (hfp : fp.inUse = true)
    (hparent : IsDirIndex files fp.parentDir) (hterminated : Terminated fp.name)
    (hnonempty : cString fp.name ≠ [])
    (hdistinct : ∀ slot, slot ≠ rootSlot → slot ≠ idx → (files slot).inUse = true →
      (files slot).parentDir = fp.parentDir → cString (files slot).name ≠ cString fp.name) :
    TreeInvariant (update files idx fp) := by
  have hused : ∀ slot, (files slot).inUse = true → slot ≠ idx := by
    rintro slot hslot rfl
    rw [hfree] at hslot
    cases hslot
  have hsame : ∀ slot, (files slot).inUse = true →
      parentOf (update files idx fp) slot = parentOf files slot := by
    intro slot hslot
    rw [parentOf_update, update_of_ne (hused slot hslot)]
  have hreaches : ∀ slot, (files slot).inUse = true →
      Climbs (parentOf (update files idx fp)) slot rootSlot := fun slot hslot =>
    (hfiles.reaches_root slot hslot).congr_on hfiles.parent_inUse hsame hslot
  refine hfiles.of_update hidx hfp (Or.inr ?_) hparent (hused _ hparent.2.inUse) ?_
    hterminated hnonempty hdistinct
  · intro slot hslot
    exact hused _ (hfiles.parent_inUse slot hslot)
  · rintro slot (rfl | hslot)
    · have hparentReaches := hreaches _ hparent.2.inUse
      apply Climbs.step
      rw [parentOf_update] at hparentReaches ⊢
      rw [update_self]
      exact hparentReaches
    · exact hreaches slot hslot

/-- A node in use under another name or below another directory that is not below it. -/
theorem move (hfiles : TreeInvariant files) {e : Slot} {fp : FileNode} (he : e ≠ rootSlot)
    (hused : (files e).inUse = true) (hfp : fp.inUse = true) (htype : fp.type = (files e).type)
    (hparent : IsDirIndex files fp.parentDir)
    (houtside : ¬ Climbs (parentOf files) (slotAt fp.parentDir) e)
    (hterminated : Terminated fp.name) (hnonempty : cString fp.name ≠ [])
    (hdistinct : ∀ slot, slot ≠ rootSlot → slot ≠ e → (files slot).inUse = true →
      (files slot).parentDir = fp.parentDir → cString (files slot).name ≠ cString fp.name) :
    TreeInvariant (update files e fp) := by
  have hself : slotAt fp.parentDir ≠ e := by
    intro heq
    rw [heq] at houtside
    exact houtside (Climbs.refl _)
  refine hfiles.of_update he hfp ?_ hparent hself ?_ hterminated hnonempty hdistinct
  · by_cases hdir : (files e).type = .directory
    · exact Or.inl (htype.trans hdir)
    · right
      rintro slot hslot rfl
      exact hdir (hfiles.parent_directory slot hslot).type_eq
  · intro slot hslot
    have hclimbs : Climbs (parentOf files) slot rootSlot := by
      rcases hslot with rfl | hslot
      · exact hfiles.reaches_root _ hused
      · exact hfiles.reaches_root slot hslot
    rw [parentOf_update]
    exact Climbs.update (hfiles.reaches_root _ hparent.2.inUse) houtside hclimbs

theorem congr_node (hfiles : TreeInvariant files) {idx : Slot} {fp : FileNode}
    (hused : fp.inUse = (files idx).inUse) (htype : fp.type = (files idx).type)
    (hparent : fp.parentDir = (files idx).parentDir) (hname : fp.name = (files idx).name) :
    TreeInvariant (update files idx fp) := by
  have hsame : ∀ slot, (update files idx fp slot).inUse = (files slot).inUse ∧
      (update files idx fp slot).type = (files slot).type ∧
      (update files idx fp slot).parentDir = (files slot).parentDir ∧
      (update files idx fp slot).name = (files slot).name := by
    intro slot
    by_cases heq : slot = idx
    · subst heq
      rw [update_self]
      exact ⟨hused, htype, hparent, hname⟩
    · rw [update_of_ne heq]
      exact ⟨rfl, rfl, rfl, rfl⟩
  have hparents : parentOf (update files idx fp) = parentOf files := by
    funext slot
    unfold parentOf
    rw [(hsame slot).2.2.1]
  have hdirectory : ∀ slot, IsDirectory (files slot) →
      IsDirectory (update files idx fp slot) := fun slot hslot =>
    ⟨(hsame slot).1.trans hslot.inUse, (hsame slot).2.1.trans hslot.type_eq⟩
  refine ⟨hdirectory _ hfiles.root_directory, ?_, ?_, ?_, ?_, ?_, ?_, ?_⟩
  · rw [(hsame rootSlot).2.2.1]
    exact hfiles.root_parent
  · intro slot hslot
    rw [(hsame slot).1] at hslot
    rw [(hsame slot).2.2.1, hparents]
    exact hfiles.parent_index slot hslot
  · intro slot hslot
    rw [(hsame slot).1] at hslot
    rw [hparents]
    exact hdirectory _ (hfiles.parent_directory slot hslot)
  · intro slot hslot
    rw [(hsame slot).1] at hslot
    rw [hparents]
    exact hfiles.reaches_root slot hslot
  · intro slot hslot
    rw [(hsame slot).1] at hslot
    rw [(hsame slot).2.2.2]
    exact hfiles.name_terminated slot hslot
  · intro slot hslot
    rw [(hsame slot).1] at hslot
    rw [(hsame slot).2.2.2]
    exact hfiles.name_nonempty slot hslot
  · intro left right hleft hright
    rw [(hsame left).1, (hsame right).1, (hsame left).2.2.1, (hsame right).2.2.1,
      (hsame left).2.2.2, (hsame right).2.2.2]
    exact hfiles.siblings_distinct left right hleft hright

end TreeInvariant

end EigenOS.Filesystem
