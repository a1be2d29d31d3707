import EigenOS.Paging.MapFrame

/-!
# The rights of a mapping

The processor combines the bits of all entries of a walk: user and write access have to be
granted by each of them, and each can forbid execution.  A page that is split keeps its
rights unless the new table is for the kernel only, or it is the page itself that forbids
execution: `split_huge_2m` and `split_huge_1g` copy the low twelve bits of an entry.
-/

namespace EigenOS.Paging

open EigenOS.RadixTree

structure Rights where
  user : Bool
  writable : Bool
  executable : Bool
  deriving DecidableEq, Repr

/-- The rights that the entries of a walk give. -/
def rights (entries : List Word) : Rights where
  user := entries.all fun entry => isSet entry vmmUser
  writable := entries.all fun entry => isSet entry vmmWrite
  executable := entries.all fun entry => ! isSet entry vmmNx

/-- A split keeps the rights of a page: a page for user access is split for user access, and
forbids execution on account of an entry above its own. -/
def SplitKeepsRights (newFlags : Word) (entries : List Word) : Prop :=
  ((rights entries).user = true → isSet newFlags vmmUser = true) ∧
    ((rights entries.dropLast).executable = true → (rights entries).executable = true)

instance (newFlags : Word) (entries : List Word) : Decidable (SplitKeepsRights newFlags entries) :=
  inferInstanceAs (Decidable (_ ∧ _))

/-! ## Bits of the new entries -/

theorem user_splitLink (page : PhysPage) (newFlags : Word) :
    isSet (splitLink page newFlags) vmmUser = isSet newFlags vmmUser := by
  rw [isSet_user, getLsbD_splitLink, getLsbD_addr page (by omega)]
  simp

theorem write_splitLink (page : PhysPage) (newFlags : Word) :
    isSet (splitLink page newFlags) vmmWrite = true := by
  rw [isSet_write, getLsbD_splitLink]
  simp

theorem nx_splitLink (page : PhysPage) (newFlags : Word) :
    isSet (splitLink page newFlags) vmmNx = false := by
  rw [isSet_nx, getLsbD_splitLink, getLsbD_addr page (by omega)]
  simp

theorem user_entries1g (old : Word) (j : TableIndex) :
    isSet (entries1g old j) vmmUser = isSet old vmmUser := by
  rw [isSet_user, isSet_user, getLsbD_entries1g]
  simp

theorem write_entries1g (old : Word) (j : TableIndex) :
    isSet (entries1g old j) vmmWrite = isSet old vmmWrite := by
  rw [isSet_write, isSet_write, getLsbD_entries1g]
  simp

theorem nx_entries1g (old : Word) (j : TableIndex) : isSet (entries1g old j) vmmNx = false := by
  rw [isSet_nx, getLsbD_entries1g]
  simp

theorem user_entries2m (old : Word) (j : TableIndex) :
    isSet (entries2m old j) vmmUser = isSet old vmmUser := by
  rw [isSet_user, isSet_user, getLsbD_entries2m]
  simp

theorem write_entries2m (old : Word) (j : TableIndex) :
    isSet (entries2m old j) vmmWrite = isSet old vmmWrite := by
  rw [isSet_write, isSet_write, getLsbD_entries2m]
  simp

theorem nx_entries2m (old : Word) (j : TableIndex) : isSet (entries2m old j) vmmNx = false := by
  rw [isSet_nx, getLsbD_entries2m]
  simp

attribute [local simp] user_splitLink write_splitLink nx_splitLink user_entries1g write_entries1g
  nx_entries1g user_entries2m write_entries2m nx_entries2m

/-! ## One split -/

section Split

variable {newFlags virt : Word} {before after : List Word}

theorem SplitOf.rights_iff (h : SplitOf newFlags virt before after) :
    rights after = rights before ↔ SplitKeepsRights newFlags before := by
  cases h with
  | pdpt pml4e pdpte page =>
      simp only [rights, SplitKeepsRights, List.all_cons, List.all_nil, List.dropLast,
        Rights.mk.injEq, user_splitLink, write_splitLink, nx_splitLink, user_entries1g,
        write_entries1g, nx_entries1g]
      cases isSet newFlags vmmUser <;> cases isSet pml4e vmmUser <;> cases isSet pdpte vmmUser <;>
        cases isSet pml4e vmmNx <;> cases isSet pdpte vmmNx <;> simp
  | pd pml4e pdpte pde page =>
      simp only [rights, SplitKeepsRights, List.all_cons, List.all_nil, List.dropLast,
        Rights.mk.injEq, user_splitLink, write_splitLink, nx_splitLink, user_entries2m,
        write_entries2m, nx_entries2m]
      cases isSet newFlags vmmUser <;> cases isSet pml4e vmmUser <;> cases isSet pdpte vmmUser <;>
        cases isSet pde vmmUser <;> cases isSet pml4e vmmNx <;> cases isSet pdpte vmmNx <;>
        cases isSet pde vmmNx <;> simp

theorem SplitOf.keepsRights (h : SplitOf newFlags virt before after) :
    SplitKeepsRights newFlags after := by
  have huser : ∀ {entries : List Word} (page : PhysPage), splitLink page newFlags ∈ entries →
      (rights entries).user = true → isSet newFlags vmmUser = true := by
    intro entries page hmem hall
    have hlink := List.all_eq_true.mp hall _ hmem
    rwa [user_splitLink] at hlink
  cases h with
  | pdpt pml4e pdpte page =>
      refine ⟨huser page (by simp), fun hexec => ?_⟩
      simpa [rights, nx_entries1g] using hexec
  | pd pml4e pdpte pde page =>
      refine ⟨huser page (by simp), fun hexec => ?_⟩
      simpa [rights, nx_entries2m] using hexec

end Split

/-! ## A whole mapping -/

section Mapping

variable {m m' : PageTables} {root : PhysPage} {virt phys flags : Word}

/-- The rights of an address, if it is mapped. -/
def rightsOf (m : PageTables) (root : PhysPage) (virt : Word) : Option Rights :=
  (translation m root virt).map rights

/-- The page of an address is split without a change of rights. -/
def KeepsAt (m : PageTables) (root : PhysPage) (virt flags : Word) : Prop :=
  ∀ entries, translation m root virt = some entries → entries.length < 4 →
    SplitKeepsRights flags entries

theorem SplitOf.length_lt {before after : List Word} (h : SplitOf flags virt before after) :
    before.length < 4 := by
  cases h with
  | pdpt => exact (by decide : 2 < 4)
  | pd => exact (by decide : 3 < 4)

theorem Stage.keepsAt (h : Stage root virt flags m m') (hkeeps : KeepsAt m root virt flags) :
    KeepsAt m' root virt flags := by
  intro entries hentries hlength
  rcases h.translation virt with hsame | ⟨before, after, _, hafter, hsplit, _⟩
  · exact hkeeps entries (hsame.symm.trans hentries) hlength
  · cases hafter.symm.trans hentries
    exact hsplit.keepsRights

theorem Stage.rightsOf_eq (h : Stage root virt flags m m') (hkeeps : KeepsAt m root virt flags)
    (other : Word) : rightsOf m' root other = rightsOf m root other := by
  unfold rightsOf
  rcases h.translation other with hsame | ⟨before, after, hbefore, hafter, hsplit, hvirt⟩
  · rw [hsame]
  · have hrights := hsplit.rights_iff.mpr (hkeeps before hvirt hsplit.length_lt)
    rw [hbefore, hafter, Option.map_some, Option.map_some, hrights]

theorem rightsOf_of_stages (h : Relation.ReflTransGen (Stage root virt flags) m m')
    (hkeeps : KeepsAt m root virt flags) :
    KeepsAt m' root virt flags ∧ ∀ other, rightsOf m' root other = rightsOf m root other := by
  induction h with
  | refl => exact ⟨hkeeps, fun _ => rfl⟩
  | tail _ hstage ih =>
      exact ⟨hstage.keepsAt ih.1, fun other => (hstage.rightsOf_eq ih.1 other).trans (ih.2 other)⟩

theorem stages_of_empty (h : Relation.ReflTransGen (Stage root virt flags) m m')
    (hsupply : m.supply = []) : m' = m := by
  induction h with
  | refl => rfl
  | tail _ hstage ih =>
      subst ih
      exact hstage.supply hsupply

theorem Mapped.rightsOf_eq (h : Mapped root virt flags m m')
    (hkeeps : m.supply ≠ [] → KeepsAt m root virt flags) {other : Word}
    (hoff : pathOf (indices other) 4 ≠ pathOf (indices virt) 4) :
    rightsOf m' root other = rightsOf m root other := by
  obtain ⟨mid, hstages, hlast⟩ := h.stages
  have hmid : rightsOf mid root other = rightsOf m root other := by
    by_cases hsupply : m.supply = []
    · rw [stages_of_empty hstages hsupply]
    · exact (rightsOf_of_stages hstages (hkeeps hsupply)).2 other
  rw [← hmid, rightsOf, rightsOf, hlast other hoff]

/-! ## The split of a huge page -/

theorem getNextLevel_of_present {table : PhysPage} {i : TableIndex} {allocate : Bool}
    (h : isSet (m.tables table i) vmmPresent = true) :
    getNextLevel m table i allocate = (some (target (m.tables table i)), m) := by
  unfold getNextLevel
  rw [h, if_pos rfl]

theorem vmmMap_of_table (h : isSet (m.tables root (pml4Index virt)) vmmPresent = true) :
    vmmMap m root virt phys flags =
      mapInPdpt virt phys flags m (target (m.tables root (pml4Index virt))) := by
  unfold vmmMap
  rw [getNextLevel_of_present h]

theorem mapInPdpt_of_table {pdpt : PhysPage}
    (h : isSet (m.tables pdpt (pdptIndex virt)) vmmPresent = true)
    (hclear : isSet (m.tables pdpt (pdptIndex virt)) vmmHuge = false) :
    mapInPdpt virt phys flags m pdpt =
      mapInPd virt phys flags m (target (m.tables pdpt (pdptIndex virt))) := by
  unfold mapInPdpt
  rw [hclear, if_neg Bool.false_ne_true]
  dsimp only
  rw [getNextLevel_of_present h]

variable (m flags) in
theorem splitHuge_of_supply {table : PhysPage} (i : TableIndex)
    (entries : Word → TableIndex → Word) (h : m.supply ≠ []) :
    ∃ m', splitHuge m table i flags entries = (true, m') := by
  unfold splitHuge
  cases hsupply : m.supply with
  | nil => exact absurd hsupply h
  | cons page rest => exact ⟨_, rfl⟩

variable (m root virt phys flags) in
theorem vmmMap_of_huge (h : WellFormed m root) (entries : List Word)
    (hentries : translation m root virt = some entries) (hlength : entries.length < 4)
    (hsupply : m.supply ≠ []) :
    ∃ mid, Mapped root virt flags mid (vmmMap m root virt phys flags).2 ∧
      ∀ other, pathOf (indices other) 3 = pathOf (indices virt) 3 →
        ∃ after, translation mid root other = some after ∧ SplitOf flags other entries after := by
  have hroot : TableAt m root (pathOf (indices virt) 0) root := rfl
  have hshared : ∀ other, pathOf (indices other) 3 = pathOf (indices virt) 3 →
      translation m root other = some entries :=
    fun other hpath => translation_of_path hpath hentries (by omega)
  obtain ⟨rest, rfl, ⟨_, hleaf⟩ | ⟨pdpt, hpml4e, hwalk⟩⟩ := walk_eq_some kind hentries
  · have := (kind_eq_leaf hleaf).2
    omega
  obtain ⟨hpresent, rfl, _⟩ := kind_eq_table hpml4e
  have hpdpt : TableAt m root (pathOf (indices virt) 1) (target (m.tables root (indices virt 0))) :=
    tableAt_cons kind hroot (congrArg Kind.page hpml4e)
  have hmap : vmmMap m root virt phys flags =
      mapInPdpt virt phys flags m (target (m.tables root (indices virt 0))) :=
    vmmMap_of_table hpresent
  rw [hmap]
  obtain ⟨rest, rfl, ⟨rfl, hleaf⟩ | ⟨pd, hpdpte, hwalk⟩⟩ := walk_eq_some kind hwalk
  · obtain ⟨hpresent, hend⟩ := kind_eq_leaf hleaf
    have hhuge := (hend.resolve_left (by decide)).2
    obtain ⟨mid, hsplit⟩ := splitHuge_of_supply m flags (indices virt 1) entries1g hsupply
    obtain ⟨hextends, hclear, _, hsplits⟩ := splitHuge1g_stage h hpdpt hhuge hsplit
    refine ⟨mid, ?_, fun other hpath => ?_⟩
    · rw [mapInPdpt_of_split hhuge hsplit hclear]
      exact (mapInPdpt_spec hextends.wellFormed (hextends.tables _ _ hpdpt)).1
    · exact hsplits other _ (List.cons.inj hpath).2 hpresent (hshared other hpath)
  obtain ⟨hpresent, rfl, _, hclear⟩ := kind_eq_table hpdpte
  have hpd := tableAt_cons kind hpdpt (congrArg Kind.page hpdpte)
  have hmap' : mapInPdpt virt phys flags m (target (m.tables root (indices virt 0))) =
      mapInPd virt phys flags m
        (target (m.tables (target (m.tables root (indices virt 0))) (indices virt 1))) :=
    mapInPdpt_of_table hpresent (hclear.resolve_left (by decide))
  rw [hmap']
  obtain ⟨rest, rfl, ⟨rfl, hleaf⟩ | ⟨pt, _, hwalk⟩⟩ := walk_eq_some kind hwalk
  · obtain ⟨hpresent, hend⟩ := kind_eq_leaf hleaf
    have hhuge := (hend.resolve_left (by decide)).2
    obtain ⟨mid, hsplit⟩ := splitHuge_of_supply m flags (indices virt 2) entries2m hsupply
    obtain ⟨hextends, hclear, _, hsplits⟩ := splitHuge2m_stage h hpd hhuge hsplit
    refine ⟨mid, ?_, fun other hpath => hsplits other _ hpath hpresent (hshared other hpath)⟩
    rw [mapInPd_of_split hhuge hsplit hclear]
    exact (mapInPd_spec hextends.wellFormed (hextends.tables _ _ hpd)).1
  · obtain ⟨rest, rfl, _⟩ := walk_eq_some kind hwalk
    simp only [List.length_cons] at hlength
    omega

/-! ## The rights of the other pages -/

/-- Every mapped address outside the page has the rights it had before. -/
def RightsKept (root : PhysPage) (virt : Word) (m m' : PageTables) : Prop :=
  ∀ other, Canonical other → pageOf other ≠ pageOf virt → ∀ entries,
    translation m root other = some entries →
      rightsOf m' root other = some (rights entries)

/-- The address in the next page, or in the page before. -/
def neighbour (virt : Word) : Word := virt ^^^ 0x1000#64

theorem getLsbD_neighbour (virt : Word) (i : ℕ) :
    (neighbour virt).getLsbD i = (virt.getLsbD i ^^ decide (i = 12)) := by
  have hbit := getLsbD_flag 12 i
  have h4k : 0x1000#64 = 1#64 <<< 12 := by decide
  unfold neighbour
  rw [BitVec.getLsbD_xor, h4k, hbit]
  by_cases hi : i = 12
  · subst hi
    rfl
  · rw [decide_eq_false hi, Bool.false_and]

theorem index_neighbour (virt : Word) {shift : ℕ} (hshift : 12 < shift) :
    index (neighbour virt) shift = index virt shift := by
  apply Fin.ext
  apply Nat.eq_of_testBit_eq
  intro k
  have hne : shift + k ≠ 12 := by omega
  rw [testBit_index, testBit_index, getLsbD_neighbour, decide_eq_false hne, Bool.xor_false]

theorem pageOf_neighbour_ne (virt : Word) : pageOf (neighbour virt) ≠ pageOf virt := by
  intro h
  have hbit := congrArg (fun x => BitVec.getLsbD x 0) h
  simp only [pageOf, BitVec.getLsbD_ushiftRight, getLsbD_neighbour] at hbit
  simp at hbit

theorem canonical_neighbour {virt : Word} (h : Canonical virt) : Canonical (neighbour virt) := by
  rw [canonical_iff] at h ⊢
  intro i hlow hhigh
  rw [getLsbD_neighbour, getLsbD_neighbour, h i hlow hhigh, decide_eq_false (by omega : i ≠ 12)]
  rfl

theorem pathOf_neighbour (virt : Word) :
    pathOf (indices (neighbour virt)) 3 = pathOf (indices virt) 3 := by
  have hpath : ∀ v, pathOf (indices v) 3 = [index v 21, index v 30, index v 39] := fun _ => rfl
  rw [hpath, hpath, index_neighbour virt (by decide), index_neighbour virt (by decide),
    index_neighbour virt (by decide)]

theorem rightsOf_of_some {entries : List Word} (h : translation m root virt = some entries) :
    rightsOf m root virt = some (rights entries) := by
  rw [rightsOf, h, Option.map_some]

theorem RightsKept.keepsAt (hwellFormed : WellFormed m root) (hvirt : Canonical virt)
    (hkept : RightsKept root virt m (vmmMap m root virt phys flags).2) (hsupply : m.supply ≠ []) :
    KeepsAt m root virt flags := by
  intro entries hentries hlength
  obtain ⟨mid, hmapped, hsplits⟩ :=
    vmmMap_of_huge m root virt phys flags hwellFormed entries hentries hlength hsupply
  obtain ⟨after, hafter, hsplit⟩ := hsplits _ (pathOf_neighbour virt)
  obtain ⟨afterVirt, hafterVirt, hsplitVirt⟩ := hsplits virt rfl
  have hbefore : translation m root (neighbour virt) = some entries :=
    translation_of_path (pathOf_neighbour virt) hentries (by omega)
  -- the rest of the mapping keeps the rights that the split leaves
  have hmid : KeepsAt mid root virt flags := by
    intro t ht _
    cases hafterVirt.symm.trans ht
    exact hsplitVirt.keepsRights
  have hoff : pathOf (indices (neighbour virt)) 4 ≠ pathOf (indices virt) 4 := fun hpath =>
    pageOf_neighbour_ne virt
      ((path_eq_iff_pageOf hvirt (canonical_neighbour hvirt)).mp hpath)
  have hlast := hmapped.rightsOf_eq (fun _ => hmid) hoff
  have hfirst := hkept _ (canonical_neighbour hvirt) (pageOf_neighbour_ne virt) _ hbefore
  rw [hlast, rightsOf_of_some hafter] at hfirst
  exact hsplit.rights_iff.mp (Option.some.inj hfirst)

theorem rightsKept_of_keepsAt (hwellFormed : WellFormed m root) (hvirt : Canonical virt)
    (hkeeps : m.supply ≠ [] → KeepsAt m root virt flags) :
    RightsKept root virt m (vmmMap m root virt phys flags).2 := by
  intro other hother hpage entries hentries
  have hmapped := (vmmMap_spec m root virt phys flags hwellFormed).1
  have hoff : pathOf (indices other) 4 ≠ pathOf (indices virt) 4 := fun hpath =>
    hpage ((path_eq_iff_pageOf hvirt hother).mp hpath)
  rw [hmapped.rightsOf_eq hkeeps hoff, rightsOf_of_some hentries]

end Mapping

/-- Other pages keep their rights exactly when the huge page of the address, if it is split,
can be split without a change of rights. -/
theorem rightsKept_iff (m : PageTables) (root : PhysPage) (virt phys flags : Word)
    (hwellFormed : WellFormed m root) (hvirt : Canonical virt) :
    RightsKept root virt m (vmmMap m root virt phys flags).2 ↔
      (m.supply ≠ [] → KeepsAt m root virt flags) :=
  ⟨fun hkept => hkept.keepsAt hwellFormed hvirt, rightsKept_of_keepsAt hwellFormed hvirt⟩

/-- A page of kernel code, mapped for writing. -/
theorem rightsKept_gigabyte :
    RightsKept rootFrame 0x40201000#64 (gigabyteSpace vmmWrite)
      (vmmMap (gigabyteSpace vmmWrite) rootFrame 0x40201000#64 0x9000#64 vmmWrite).2 := by
  refine (rightsKept_iff _ rootFrame _ _ _ (wellFormed_gigabyteSpace _) (by decide)).mpr ?_
  intro _ entries hentries _
  have htranslation : translation (gigabyteSpace vmmWrite) rootFrame 0x40201000#64 =
      some [splitLink pdptFrame vmmUser, hugeEntry vmmWrite] := by decide +kernel
  cases htranslation.symm.trans hentries
  decide +kernel

/-- The other pages of a huge page that forbids execution do not forbid it afterwards. -/
theorem noExecute_not_rightsKept :
    ¬ RightsKept rootFrame 0x40201000#64 (gigabyteSpace (vmmWrite ||| vmmNx))
      (vmmMap (gigabyteSpace (vmmWrite ||| vmmNx)) rootFrame 0x40201000#64 0x9000#64
        vmmWrite).2 := by
  intro hkept
  have htranslation : translation (gigabyteSpace (vmmWrite ||| vmmNx)) rootFrame 0x40201000#64 =
      some [splitLink pdptFrame vmmUser, hugeEntry (vmmWrite ||| vmmNx)] := by decide +kernel
  have hkeeps := hkept.keepsAt (wellFormed_gigabyteSpace _) (by decide) (by decide) _
    htranslation (by decide)
  exact absurd hkeeps (by decide +kernel)

end EigenOS.Paging
