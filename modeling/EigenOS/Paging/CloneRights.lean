import EigenOS.Library.Transition
import EigenOS.Paging.CloneSpace
import EigenOS.Paging.MapRights
import EigenOS.Paging.MapSteps

/-!
# What a cloned address space maps

The clone translates every address as the original does, and later mappings in one of the two
leave the other alone.  A table entry of the clone has the low twelve bits of the original's: a
page that is forbidden to execute by an entry above its own can be executed in the clone.
-/

namespace EigenOS.Paging

open EigenOS.RadixTree EigenOS.Transition

/-! ## The halves of an address space -/

/-- A path of the user half, or that of the root. -/
def OwnPath : List TableIndex → Prop
  | [] => True
  | [i] => i.val < 256
  | _ :: j :: path => OwnPath (j :: path)

def OwnTable (m : PageTables) (root page : PhysPage) : Prop :=
  ∃ path, OwnPath path ∧ TableAt m root path page

/-- An address that the lower half of the root table translates. -/
def UserAddress (virt : Word) : Prop := (pml4Index virt).val < 256

theorem ownPath_cons {path : List TableIndex} (i : TableIndex) (hne : path ≠ []) :
    OwnPath (i :: path) ↔ OwnPath path := by
  cases path with
  | nil => exact absurd rfl hne
  | cons j rest => exact Iff.rfl

theorem ownPath_pathOf {virt : Word} (n : ℕ) :
    OwnPath (pathOf (indices virt) (n + 1)) ↔ UserAddress virt := by
  induction n with
  | zero => exact Iff.rfl
  | succ n ih => exact (ownPath_cons _ (List.cons_ne_nil _ _)).trans ih

/-! ## The clone as a copy of the tree -/

/-- A table of the user half is a clone, one of the kernel half is shared. -/
structure ClonedTable (m : PageTables) (source : PhysPage) (clones : List (PhysPage × PhysPage))
    (path : List TableIndex) (page copy : PhysPage) : Prop where
  table : TableAt m source path page
  own : OwnPath path → (page, copy) ∈ clones
  shared : ¬ OwnPath path → copy = page

structure ClonedLink (path : List TableIndex) (entry copy : Word) : Prop where
  own : OwnPath path → ∃ page, copy = childEntry page entry
  shared : ¬ OwnPath path → copy = entry

/-- The outcome of a clone that succeeds. -/
structure CloneResult (m m' : PageTables) (source new : PhysPage)
    (clones : List (PhysPage × PhysPage)) : Prop where
  wellFormed : WellFormed m source
  cloned : Cloned m source [] m m' clones
  root : (source, new) ∈ clones

section Copy

variable {m m' : PageTables} {source new page copy : PhysPage}
  {clones : List (PhysPage × PhysPage)} {path : List TableIndex} {virt : Word}

theorem CloneResult.mem_supply (h : CloneResult m m' source new clones)
    (hpair : (page, copy) ∈ clones) : copy ∈ m.supply :=
  h.cloned.mem_supply (List.mem_map_of_mem hpair)

theorem CloneResult.table_eq (h : CloneResult m m' source new clones)
    (hpage : TableAt m source path page) : m'.tables page = m.tables page :=
  h.cloned.others page
    (fun hmem => h.wellFormed.fresh page (h.cloned.mem_supply hmem) path hpage) List.not_mem_nil

theorem CloneResult.entryCopy_own (h : CloneResult m m' source new clones)
    (hown : OwnPath path) (hpage : TableAt m source path page) (hpair : (page, copy) ∈ clones)
    (i : TableIndex) :
    EntryCopy kind (ClonedLink (i :: path)) (ClonedTable m source clones (i :: path)) path.length
      (m.tables page i) (m'.tables copy i) := by
  have hentry := h.cloned.tables page copy hpair path hpage i
  cases hpresent : isSet (m.tables page i) vmmPresent with
  | false =>
      rw [entryCloned_of_absent hpresent] at hentry
      rw [hentry]
      exact .absent (kind_of_absent hpresent) (kind_of_absent (by decide))
  | true =>
      cases hasIs : copiedAsIs path i (m.tables page i) with
      | false =>
          rw [hasIs, entryCloned_of_table hpresent] at hentry
          obtain ⟨child, hmem, hcopy⟩ := hentry
          have hchild := tableAt_of_not_asIs hpage hpresent hasIs
          obtain ⟨table, htable, hkind⟩ := tableAt_cons_some kind hchild
          cases htable.symm.trans hpage
          have hlink : kind path.length (m.tables page i) =
              .table (target (m.tables page i)) := by
            cases hkindOf : kind path.length (m.tables page i) with
            | absent => rw [hkindOf] at hkind; cases hkind
            | leaf => rw [hkindOf] at hkind; cases hkind
            | table child => rw [(kind_eq_table hkindOf).2.1]
          have hownChild : OwnPath (i :: path) := by
            cases path with
            | nil => exact Nat.lt_of_not_le (of_decide_eq_false hasIs)
            | cons j above => exact hown
          have hcopyKind : kind path.length (m'.tables copy i) = .table child := by
            rw [hcopy, kind_childEntry, hlink]
          exact .table hlink hcopyKind ⟨fun _ => ⟨child, hcopy⟩, fun hnot => absurd hownChild hnot⟩
            ⟨hchild, fun _ => hmem, fun hnot => absurd hownChild hnot⟩
      | true =>
          rw [hasIs, entryCloned_of_asIs hpresent] at hentry
          cases path with
          | nil =>
              have hkernel : ¬ OwnPath [i] := Nat.not_lt_of_le (of_decide_eq_true hasIs)
              have hlink : kind 0 (m.tables page i) = .table (target (m.tables page i)) :=
                kind_of_table hpresent (by decide) (Or.inl rfl)
              have hcopyKind : kind 0 (m'.tables copy i) = .table (target (m.tables page i)) := by
                rw [hentry, hlink]
              refine .table hlink hcopyKind ⟨fun hin => absurd hin hkernel, fun _ => hentry⟩
                ⟨tableAt_cons kind hpage ?_, fun hin => absurd hin hkernel, fun _ => rfl⟩
              exact congrArg Kind.page hlink
          | cons j above =>
              refine .leaf ?_ hentry
              rw [kind_of_leaf, hpresent, if_pos rfl]
              rcases Bool.or_eq_true_iff.mp hasIs with hdepth | hhuge
              · exact Or.inl (of_decide_eq_true hdepth)
              · exact Or.inr ⟨Nat.succ_pos _, hhuge⟩

theorem CloneResult.entryCopy_shared (h : CloneResult m m' source new clones)
    (hshared : ¬ OwnPath path) (hpage : TableAt m source path page) (i : TableIndex) :
    EntryCopy kind (ClonedLink (i :: path)) (ClonedTable m source clones (i :: path)) path.length
      (m.tables page i) (m'.tables page i) := by
  have hsame := congrFun (h.table_eq hpage) i
  have hne : path ≠ [] := by
    rintro rfl
    exact hshared trivial
  have hchildShared : ¬ OwnPath (i :: path) := (ownPath_cons i hne).not.mpr hshared
  rw [hsame]
  cases hkind : kind path.length (m.tables page i) with
  | absent => exact .absent hkind hkind
  | leaf => exact .leaf hkind rfl
  | table child =>
      refine .table hkind hkind ⟨fun hin => absurd hin hchildShared, fun _ => rfl⟩
        ⟨tableAt_cons kind hpage ?_, fun hin => absurd hin hchildShared, fun _ => rfl⟩
      exact congrArg Kind.page hkind

theorem CloneResult.copies (h : CloneResult m m' source new clones) :
    RadixTree.Copies kind ClonedLink (ClonedTable m source clones) m.tables m'.tables := by
  intro path page copy i hcopied
  by_cases hown : OwnPath path
  · exact h.entryCopy_own hown hcopied.table (hcopied.own hown) i
  · rw [hcopied.shared hown]
    exact h.entryCopy_shared hown hcopied.table i

theorem CloneResult.clonedTable_root (h : CloneResult m m' source new clones) :
    ClonedTable m source clones [] source new :=
  ⟨rfl, fun _ => h.root, fun hnot => absurd trivial hnot⟩

/-! ## Translations -/

theorem CloneResult.translation_source (h : CloneResult m m' source new clones) (virt : Word) :
    translation m' source virt = translation m source virt := by
  apply walk_congr kind 4 rfl
  intro n page hpage
  rw [h.table_eq hpage]

theorem CloneResult.rel_translation (h : CloneResult m m' source new clones)
    (hvirt : UserAddress virt) :
    Option.Rel (WalkCopy fun entry copy => ∃ page, copy = childEntry page entry)
      (translation m source virt) (translation m' new virt) := by
  have hlinked : ∀ n entry copy, ClonedLink (pathOf (indices virt) (n + 1)) entry copy →
      ∃ page, copy = childEntry page entry :=
    fun n entry copy hlink => hlink.own ((ownPath_pathOf n).mpr hvirt)
  exact h.copies.rel_walk hlinked 4 h.clonedTable_root

theorem CloneResult.translation_kernel (h : CloneResult m m' source new clones)
    (hvirt : ¬ UserAddress virt) : translation m' new virt = translation m source virt := by
  have hlinked : ∀ n entry copy, ClonedLink (pathOf (indices virt) (n + 1)) entry copy →
      entry = copy :=
    fun n entry copy hlink => (hlink.shared ((ownPath_pathOf n).not.mpr hvirt)).symm
  have hrel : Option.Rel (WalkCopy Eq) (translation m source virt) (translation m' new virt) :=
    h.copies.rel_walk hlinked 4 h.clonedTable_root
  generalize translation m source virt = entries at hrel ⊢
  generalize translation m' new virt = copies at hrel ⊢
  cases hrel with
  | none => rfl
  | some hwalk => exact congrArg some hwalk.eq.symm

end Copy

/-- The address that an address translates to. -/
def physicalOf (m : PageTables) (root : PhysPage) (virt : Word) : Option Word :=
  (translation m root virt).map (physOf virt)

section Walk

variable {Linked : Word → Word → Prop} {entries copies : List Word}

theorem physOf_walkCopy (h : WalkCopy Linked entries copies) (virt : Word) :
    physOf virt copies = physOf virt entries := by
  cases h with
  | leaf => rfl
  | step _ h =>
    cases h with
    | leaf => rfl
    | step _ h =>
      cases h with
      | leaf => rfl
      | step _ h =>
        cases h with
        | leaf => rfl
        | step _ h =>
          -- a walk has four entries at most
          cases h with
          | leaf => rfl
          | step _ _ => rfl

theorem rights_walkCopy
    (h : WalkCopy (fun entry copy => ∃ page, copy = childEntry page entry) entries copies)
    (default : Word) : rights copies =
      { rights entries with executable := ! isSet (entries.getLastD default) vmmNx } := by
  unfold rights
  induction h generalizing default with
  | leaf =>
      rw [List.getLastD_cons, List.getLastD_nil, List.all_cons, List.all_nil, Bool.and_true,
        List.all_cons, List.all_nil, Bool.and_true, List.all_cons, List.all_nil, Bool.and_true]
  | @step entry copy _ _ hlink _ ih =>
      obtain ⟨page, rfl⟩ := hlink
      have hrest := ih entry
      rw [Rights.mk.injEq] at hrest
      simp only [List.getLastD_cons, List.all_cons, user_childEntry, write_childEntry,
        nx_childEntry, hrest.1, hrest.2.1, hrest.2.2, Bool.not_false, Bool.true_and]

end Walk

/-- In the user half, no table forbids the execution of a page whose own entry allows it. -/
def NoTableForbids (m : PageTables) (root : PhysPage) : Prop :=
  ∀ virt, UserAddress virt → ∀ entries, translation m root virt = some entries →
    isSet (entries.getLastD 0#64) vmmNx = false → (rights entries).executable = true

section Rights

variable {m m' : PageTables} {source new : PhysPage} {clones : List (PhysPage × PhysPage)}
  {virt : Word}

theorem CloneResult.physicalOf_eq (h : CloneResult m m' source new clones) (virt : Word) :
    physicalOf m' new virt = physicalOf m source virt := by
  unfold physicalOf
  by_cases hvirt : UserAddress virt
  · have hrel := h.rel_translation hvirt
    generalize translation m source virt = entries at hrel ⊢
    generalize translation m' new virt = copies at hrel ⊢
    cases hrel with
    | none => rfl
    | some hwalk => exact congrArg some (physOf_walkCopy hwalk virt)
  · rw [h.translation_kernel hvirt]

theorem CloneResult.rightsOf_user (h : CloneResult m m' source new clones)
    (hvirt : UserAddress virt) :
    rightsOf m' new virt = (translation m source virt).map fun entries =>
      { rights entries with executable := ! isSet (entries.getLastD 0#64) vmmNx } := by
  have hrel := h.rel_translation hvirt
  unfold rightsOf
  generalize translation m source virt = entries at hrel ⊢
  generalize translation m' new virt = copies at hrel ⊢
  cases hrel with
  | none => rfl
  | some hwalk => exact congrArg some (rights_walkCopy hwalk 0#64)

theorem allows_last {entries : List Word} (hne : entries ≠ [])
    (h : (rights entries).executable = true) :
    isSet (entries.getLastD 0#64) vmmNx = false := by
  have hlast : entries.getLastD 0#64 ∈ entries := by
    rw [List.getLastD_eq_getLast?, List.getLast?_eq_some_getLast hne]
    exact List.getLast_mem hne
  have hall := List.all_eq_true.mp h _ hlast
  exact (Bool.not_eq_true' _).mp hall

theorem CloneResult.rightsOf_iff (h : CloneResult m m' source new clones) :
    (∀ virt, rightsOf m' new virt = rightsOf m source virt) ↔ NoTableForbids m source := by
  constructor
  · intro hrights virt hvirt entries hentries hlast
    have hclone := h.rightsOf_user hvirt
    rw [hrights virt, rightsOf, hentries, Option.map_some, Option.map_some,
      Option.some.injEq] at hclone
    rw [hclone, hlast]
    rfl
  · intro hforbids virt
    by_cases hvirt : UserAddress virt
    · rw [h.rightsOf_user hvirt, rightsOf]
      cases hentries : translation m source virt with
      | none => rfl
      | some entries =>
          have hne : entries ≠ [] := by
            rintro rfl
            obtain ⟨rest, hrest, _⟩ := walk_eq_some kind hentries
            cases hrest
          have hexecutable : (! isSet (entries.getLastD 0#64) vmmNx) =
              (rights entries).executable := by
            cases hlast : isSet (entries.getLastD 0#64) vmmNx with
            | false => rw [hforbids virt hvirt entries hentries hlast]; rfl
            | true =>
                cases hall : (rights entries).executable with
                | false => rfl
                | true =>
                    rw [allows_last hne hall] at hlast
                    cases hlast
          rw [Option.map_some, Option.map_some, hexecutable]
    · rw [rightsOf, rightsOf, h.translation_kernel hvirt]

end Rights

end EigenOS.Paging
