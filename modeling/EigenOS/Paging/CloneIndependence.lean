import Mathlib.Algebra.GroupWithZero.Nat
import Mathlib.Data.List.Nodup
import EigenOS.Paging.CloneRights
import EigenOS.Paging.ForkRights

/-!
# The independence of a clone

Two address spaces that share nothing but tables of the kernel half stay apart: a mapping of a
user address writes tables of the user half and frames of the supply.
-/

namespace EigenOS.Paging

open EigenOS.RadixTree EigenOS.Transition

/-- Two address spaces share no tables but those of the kernel half. -/
structure Separate (m : PageTables) (left right : PhysPage) : Prop where
  wellFormedLeft : WellFormed m left
  wellFormedRight : WellFormed m right
  leftOwn : ∀ page, OwnTable m left page → Fresh kind m.tables right page
  rightOwn : ∀ page, OwnTable m right page → Fresh kind m.tables left page

theorem Separate.symm {m : PageTables} {left right : PhysPage} (h : Separate m left right) :
    Separate m right left :=
  ⟨h.wellFormedRight, h.wellFormedLeft, h.rightOwn, h.leftOwn⟩

/-! ## The clone is separate -/

section Clone

variable {m m' : PageTables} {source new page copy : PhysPage}
  {clones : List (PhysPage × PhysPage)} {path : List TableIndex}

theorem CloneResult.sameKinds (h : CloneResult m m' source new clones) :
    SameKinds kind m.tables m'.tables source := by
  intro path page index hpage
  rw [h.table_eq hpage]

theorem CloneResult.distinct (h : CloneResult m m' source new clones) :
    (clones.map Prod.snd).Nodup ∧ m'.supply.Nodup ∧
      ∀ page ∈ clones.map Prod.snd, page ∉ m'.supply := by
  have hdistinct := h.wellFormed.distinct
  rw [h.cloned.supply] at hdistinct
  obtain ⟨hclones, hrest, happart⟩ := List.nodup_append.mp hdistinct
  exact ⟨hclones, hrest, fun page hpage hin => happart page hpage page hin rfl⟩

theorem CloneResult.fresh_source (h : CloneResult m m' source new clones)
    (hpage : page ∈ m.supply) : Fresh kind m'.tables source page := by
  intro path hpath
  rw [h.sameKinds.tableAt_eq] at hpath
  exact h.wellFormed.fresh page hpage path hpath

theorem CloneResult.wellFormed_source (h : CloneResult m m' source new clones) :
    WellFormed m' source :=
  h.wellFormed.of_sameKinds h.sameKinds h.distinct.2.1 h.cloned.supply_subset

theorem CloneResult.original_unique (h : CloneResult m m' source new clones)
    {left right : List TableIndex} {page' : PhysPage}
    (hpage : TableAt m source left page) (hpage' : TableAt m source right page')
    (hcopy : ClonedTable m source clones left page copy)
    (hcopy' : ClonedTable m source clones right page' copy) : page = page' := by
  by_cases hleft : OwnPath left
  · have hsupply := h.mem_supply (hcopy.own hleft)
    by_cases hright : OwnPath right
    · have hsame := List.inj_on_of_nodup_map h.distinct.1 (hcopy.own hleft)
        (hcopy'.own hright) rfl
      exact congrArg Prod.fst hsame
    · rw [hcopy'.shared hright] at hsupply
      exact absurd hpage' (h.wellFormed.fresh page' hsupply right)
  · by_cases hright : OwnPath right
    · have hsupply := h.mem_supply (hcopy'.own hright)
      rw [hcopy.shared hleft] at hsupply
      exact absurd hpage (h.wellFormed.fresh page hsupply left)
    · rw [← hcopy.shared hleft, hcopy'.shared hright]

theorem CloneResult.wellFormed_clone (h : CloneResult m m' source new clones) :
    WellFormed m' new where
  tree := by
    apply h.copies.isTree h.clonedTable_root h.wellFormed.tree
    intro left right page page' copy hpage hpage' hcopy hcopy'
    exact h.original_unique hpage hpage' hcopy hcopy'
  distinct := h.distinct.2.1
  fresh := by
    intro copy hfree path hpath
    obtain ⟨page, hpage, hcopied⟩ := h.copies.exists_original h.clonedTable_root hpath
    by_cases hown : OwnPath path
    · exact h.distinct.2.2 copy (List.mem_map_of_mem (hcopied.own hown)) hfree
    · rw [hcopied.shared hown] at hfree
      exact h.wellFormed.fresh page (h.cloned.supply_subset hfree) path hpage

theorem CloneResult.own_mem_supply (h : CloneResult m m' source new clones)
    (hcopy : OwnTable m' new copy) : copy ∈ m.supply := by
  obtain ⟨path, hown, hpath⟩ := hcopy
  obtain ⟨page, _, hcopied⟩ := h.copies.exists_original h.clonedTable_root hpath
  exact h.mem_supply (hcopied.own hown)

theorem CloneResult.separate (h : CloneResult m m' source new clones) :
    Separate m' source new where
  wellFormedLeft := h.wellFormed_source
  wellFormedRight := h.wellFormed_clone
  leftOwn := by
    rintro page ⟨path, hown, hpath⟩ along halong
    rw [TableAt, h.sameKinds.tableAt_eq] at hpath
    obtain ⟨original, horiginal, hcopied⟩ :=
      h.copies.exists_original h.clonedTable_root halong
    by_cases hside : OwnPath along
    · exact h.wellFormed.fresh page (h.mem_supply (hcopied.own hside)) path hpath
    · rw [← hcopied.shared hside] at horiginal
      cases h.wellFormed.tree path along page hpath horiginal
      exact hside hown
  rightOwn := fun _ hpage => h.fresh_source (h.own_mem_supply hpage)

end Clone

/-! ## Mappings in separate address spaces -/

section Mapping

variable {m : PageTables} {left right : PhysPage} {virt phys flags : Word}

/-- A mapping of a user address does not write the tables of the other address space. -/
theorem Separate.table_eq (h : Separate m left right) (hvirt : UserAddress virt)
    {path : List TableIndex} {page : PhysPage} (hpage : TableAt m right path page) :
    (vmmMap m left virt phys flags).2.tables page = m.tables page := by
  apply (vmmMap_writesOnPath _ _ _ _ _ h.wellFormedLeft).others page
  · exact fun hfree => h.wellFormedRight.fresh page hfree path hpage
  · rintro ⟨n, hn⟩
    have hown : OwnPath (pathOf (indices virt) n) := by
      cases n with
      | zero => trivial
      | succ n => exact (ownPath_pathOf n).mpr hvirt
    exact h.leftOwn page ⟨_, hown, hn⟩ path hpage

variable (phys flags) in
theorem Separate.sameKinds (h : Separate m left right) (hvirt : UserAddress virt) :
    SameKinds kind m.tables (vmmMap m left virt phys flags).2.tables right := by
  intro path page index hpage
  rw [h.table_eq hvirt hpage]

theorem Separate.translation_eq (h : Separate m left right) (hvirt : UserAddress virt)
    (other : Word) :
    translation (vmmMap m left virt phys flags).2 right other = translation m right other := by
  apply walk_congr kind 4 rfl
  intro n page hpage
  rw [h.table_eq hvirt hpage]

theorem Separate.map (h : Separate m left right) (hvirt : UserAddress virt) :
    Separate (vmmMap m left virt phys flags).2 left right := by
  have hwrites := vmmMap_writesOnPath m left virt phys flags h.wellFormedLeft
  have hkinds := h.sameKinds phys flags hvirt
  have hleft := (vmmMap_spec m left virt phys flags h.wellFormedLeft).1.wellFormed
  have hright := h.wellFormedRight.of_sameKinds hkinds hleft.distinct hwrites.supply
  refine ⟨hleft, hright, ?_, ?_⟩
  · rintro page ⟨path, hown, hpath⟩ along halong
    rw [hkinds.tableAt_eq] at halong
    rcases hwrites.tables path page hpath with hbefore | hfree
    · exact h.leftOwn page ⟨path, hown, hbefore⟩ along halong
    · exact h.wellFormedRight.fresh page hfree along halong
  · rintro page ⟨path, hown, hpath⟩ along halong
    rw [TableAt, hkinds.tableAt_eq] at hpath
    rcases hwrites.tables along page halong with hbefore | hfree
    · exact h.rightOwn page ⟨path, hown, hpath⟩ along hbefore
    · exact h.wellFormedRight.fresh page hfree path hpath

end Mapping

/-! ## Runs of mappings -/

/-- A call of `vmm_map` in one of two address spaces. -/
structure MapCall where
  root : PhysPage
  virt : Word
  phys : Word
  flags : Word

def mapNext (m : PageTables) (call : MapCall) : PageTables :=
  (vmmMap m call.root call.virt call.phys call.flags).2

/-- A user address is mapped in one of the two. -/
def MapCall.Within (left right : PhysPage) (call : MapCall) : Prop :=
  (call.root = left ∨ call.root = right) ∧ UserAddress call.virt

/-- A call changes no translation in the address space it is not for. -/
def OtherKept (left right : PhysPage) (before : PageTables) (call : MapCall)
    (after : PageTables) : Prop :=
  ∀ root, root = left ∨ root = right → root ≠ call.root → ∀ virt,
    translation after root virt = translation before root virt

/-- However user addresses are mapped in the two, neither affects the other. -/
def Independent (m : PageTables) (left right : PhysPage) : Prop :=
  ∀ calls : List MapCall, (∀ call ∈ calls, call.Within left right) →
    Along (OtherKept left right) m (trace mapNext m calls)

section Runs

variable {m : PageTables} {left right : PhysPage} {call : MapCall}

theorem Separate.next (h : Separate m left right) (hcall : call.Within left right) :
    Separate (mapNext m call) left right := by
  obtain ⟨hroot | hroot, hvirt⟩ := hcall
  · rw [mapNext, hroot]
    exact h.map hvirt
  · rw [mapNext, hroot]
    exact (h.symm.map hvirt).symm

theorem Separate.otherKept (h : Separate m left right) (hcall : call.Within left right) :
    OtherKept left right m call (mapNext m call) := by
  obtain ⟨hroot, hvirt⟩ := hcall
  intro root hside hne virt
  rw [mapNext]
  rcases hroot with hroot | hroot
  · have hother : root = right := hside.resolve_left fun hleft => hne (hleft.trans hroot.symm)
    rw [hroot, hother]
    exact h.translation_eq hvirt virt
  · have hother : root = left := hside.resolve_right fun hright => hne (hright.trans hroot.symm)
    rw [hroot, hother]
    exact h.symm.translation_eq hvirt virt

theorem Separate.independent (h : Separate m left right) : Independent m left right := by
  intro calls hcalls
  induction calls generalizing m with
  | nil => trivial
  | cons call rest ih =>
      have hcall := hcalls call List.mem_cons_self
      exact ⟨h.otherKept hcall,
        ih (h.next hcall) fun other hother => hcalls other (List.mem_cons_of_mem call hother)⟩

end Runs

/-! ## The clone against the original -/

/-- The clone of an address space: what it maps, and how it is apart from the original. -/
structure ClonesSpace (m m' : PageTables) (source new : PhysPage) : Prop where
  physical : ∀ virt, physicalOf m' new virt = physicalOf m source virt
  rights : ∀ virt, rightsOf m' new virt = rightsOf m source virt
  original : ∀ virt, translation m' source virt = translation m source virt
  apart : ∀ page, OwnTable m' new page → ¬ OwnTable m' source page
  independent : Independent m' source new

/-- A clone that succeeds has the rights of the original if and only if no table of the user half
forbids execution where the entry of the page allows it. -/
theorem clonesSpace_iff {m m' : PageTables} {source new : PhysPage}
    (hwellFormed : WellFormed m source)
    (hclone : vmmCloneCurrentPml4 m source = (some new, m')) :
    ClonesSpace m m' source new ↔ NoTableForbids m source := by
  obtain ⟨clones, hcloned, hroot⟩ := vmmCloneCurrentPml4_cloned hwellFormed hclone
  have h : CloneResult m m' source new clones := ⟨hwellFormed, hcloned, hroot⟩
  have hseparate := h.separate
  constructor
  · exact fun hclones => h.rightsOf_iff.mp hclones.rights
  · intro hforbids
    refine ⟨h.physicalOf_eq, h.rightsOf_iff.mpr hforbids, h.translation_source, ?_,
      hseparate.independent⟩
    rintro page hnew ⟨path, _, hpath⟩
    exact hseparate.rightOwn page hnew path hpath

theorem vmmCloneCurrentPml4_eq {m : PageTables} {source new : PhysPage}
    (h : (vmmCloneCurrentPml4 m source).1 = some new) :
    vmmCloneCurrentPml4 m source = (some new, (vmmCloneCurrentPml4 m source).2) :=
  Prod.ext h rfl

theorem aligned_cloneFrame : 0x3000#64 &&& addrMask = 0x3000#64 := by decide

/-- The frame of the new root. -/
def cloneFrame : PhysPage := ⟨0x3000#64, aligned_cloneFrame⟩

/-- A page of 1 GiB is cloned. -/
theorem clonesSpace_gigabyte :
    ClonesSpace (gigabyteSpace vmmWrite)
      (vmmCloneCurrentPml4 (gigabyteSpace vmmWrite) rootFrame).2 rootFrame cloneFrame := by
  have hnew : (vmmCloneCurrentPml4 (gigabyteSpace vmmWrite) rootFrame).1 = some cloneFrame := by
    decide +kernel
  refine (clonesSpace_iff (wellFormed_gigabyteSpace vmmWrite)
    (vmmCloneCurrentPml4_eq hnew)).mpr ?_
  intro virt _ entries hentries _
  refine all_of_walk ?_ hentries
  intro page i
  unfold gigabyteSpace
  dsimp only
  split_ifs <;> decide

local instance neZero_tableEntries : NeZero 512 := ⟨Nat.succ_ne_zero 511⟩

/-- The page of 1 GiB, in a table that forbids execution. -/
def guardedSpace : PageTables where
  tables := write (gigabyteSpace vmmWrite).tables rootFrame 0 (splitLink pdptFrame vmmUser ||| vmmNx)
  supply := freeFrames

theorem wellFormed_guardedSpace : WellFormed guardedSpace rootFrame := by
  refine (wellFormed_gigabyteSpace vmmWrite).of_sameKinds ?_ (by decide) (List.Subset.refl _)
  intro path page index hpage
  by_cases hlink : page = rootFrame ∧ index = 0
  · obtain ⟨rfl, rfl⟩ := hlink
    rcases tableAt_gigabyteSpace hpage with ⟨rfl, _⟩ | ⟨_, hroot⟩
    · have hguarded : kind 0 (splitLink pdptFrame vmmUser ||| vmmNx) = .table pdptFrame := by
        rw [kind_of_table (by decide) (by decide) (Or.inl rfl)]
        exact congrArg Kind.table (by decide)
      exact (congrArg (kind 0) (write_self _ _ _ _)).trans
        (hguarded.trans (kind_splitLink pdptFrame vmmUser (by decide)).symm)
    · exact absurd hroot (by decide)
  · exact congrArg (kind path.length) (write_of_ne _ _ hlink)

/-- The clone can execute what the original cannot. -/
theorem not_clonesSpace_guarded :
    WellFormed guardedSpace rootFrame ∧
      ∃ m', vmmCloneCurrentPml4 guardedSpace rootFrame = (some cloneFrame, m') ∧
        rightsOf guardedSpace rootFrame 0x40000000#64 = some ⟨false, true, false⟩ ∧
        rightsOf m' cloneFrame 0x40000000#64 = some ⟨false, true, true⟩ ∧
        ¬ ClonesSpace guardedSpace m' rootFrame cloneFrame := by
  have hnew : (vmmCloneCurrentPml4 guardedSpace rootFrame).1 = some cloneFrame := by
    decide +kernel
  have horiginal : rightsOf guardedSpace rootFrame 0x40000000#64 = some ⟨false, true, false⟩ := by
    decide +kernel
  have hrights : rightsOf (vmmCloneCurrentPml4 guardedSpace rootFrame).2 cloneFrame
      0x40000000#64 = some ⟨false, true, true⟩ := by
    decide +kernel
  refine ⟨wellFormed_guardedSpace, _, vmmCloneCurrentPml4_eq hnew, horiginal, hrights, fun h => ?_⟩
  have hsame := h.rights 0x40000000#64
  rw [horiginal, hrights] at hsame
  cases hsame

end EigenOS.Paging
