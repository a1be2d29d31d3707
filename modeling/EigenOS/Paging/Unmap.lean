import EigenOS.Paging.MapRights

/-!
# Unmapping a page

`vmm_unmap` takes every present entry for a table, also that of a huge page.  It unmaps its
page and nothing else exactly when the page is not part of a huge one.
-/

namespace EigenOS.Paging

open EigenOS.RadixTree

/-- Two addresses of one 4 KiB page: the walk looks at no bits but 12 to 47. -/
def SamePage (virt other : Word) : Prop := pathOf (indices other) 4 = pathOf (indices virt) 4

instance (virt other : Word) : Decidable (SamePage virt other) :=
  inferInstanceAs (Decidable (_ = _))

structure Unmaps (root : PhysPage) (virt : Word) (m m' : PageTables) : Prop where
  unmapped : ∀ other, SamePage virt other → vmmVirtMapped m' root other = false
  others : ∀ other, ¬ SamePage virt other →
    translation m' root other = translation m root other
  memory : ∀ page, (∀ path, ¬ TableAt m root path page) → m'.tables page = m.tables page

def NotHuge (m : PageTables) (root : PhysPage) (virt : Word) : Prop :=
  ∀ entries, translation m root virt = some entries → entries.length = 4

theorem vmmVirtMapped_eq (m : PageTables) (root : PhysPage) (virt : Word) :
    vmmVirtMapped m root virt = (translation m root virt).isSome := by
  have hsome : (translation m root virt).isSome = (translation m root virt).elim false
      fun _ => true := by
    cases translation m root virt <;> rfl
  rw [hsome, translation_elim]
  unfold vmmVirtMapped
  simp

/-! ## Neighbours -/

theorem not_samePage_neighbour (virt : Word) : ¬ SamePage virt (neighbour virt) := by
  intro h
  have hindex : index (neighbour virt) 12 = index virt 12 := (List.cons.inj h).1
  have hbit := getLsbD_of_index_eq hindex (Nat.le_refl 12) (by decide)
  rw [getLsbD_neighbour, decide_eq_true rfl, Bool.xor_true] at hbit
  exact absurd hbit (by simp)

theorem Unmaps.notHuge {m m' : PageTables} {root : PhysPage} {virt : Word}
    (h : Unmaps root virt m m') : NotHuge m root virt := by
  intro entries hentries
  by_contra hne
  have hlength : entries.length ≤ 3 := by
    have := length_walk_le kind hentries
    omega
  have hneighbour : translation m root (neighbour virt) = some entries :=
    translation_of_path (pathOf_neighbour virt) hentries hlength
  have hafter := (h.others _ (not_samePage_neighbour virt)).trans hneighbour
  have hvirt : translation m' root virt = some entries :=
    translation_of_path (pathOf_neighbour virt).symm hafter hlength
  have hunmapped := h.unmapped virt rfl
  rw [vmmVirtMapped_eq, hvirt] at hunmapped
  cases hunmapped

/-! ## The walk of the source -/

section Walk

variable {m : PageTables} {root : PhysPage} {virt : Word}

theorem getNextLevel_of_absent {table : PhysPage} {i : TableIndex}
    (h : isSet (m.tables table i) vmmPresent = false) :
    getNextLevel m table i false = (none, m) := by
  unfold getNextLevel
  rw [h, if_neg Bool.false_ne_true, if_pos rfl]

theorem unmaps_self (h : translation m root virt = none) : Unmaps root virt m m := by
  refine ⟨fun other hsame => ?_, fun _ _ => rfl, fun _ _ => rfl⟩
  rw [vmmVirtMapped_eq]
  cases hother : translation m root other with
  | none => rfl
  | some entries =>
      have hvirt := translation_of_path hsame.symm hother (length_walk_le kind hother)
      rw [h] at hvirt
      cases hvirt

theorem unmaps_clear (htree : IsTree kind m.tables root) {pt : PhysPage}
    (hpt : TableAt m root (pathOf (indices virt) 3) pt) :
    Unmaps root virt m { m with tables := write m.tables pt (ptIndex virt) 0#64 } := by
  have hempty : kind (pathOf (indices virt) 3).length 0#64 = .absent := kind_of_absent (by decide)
  refine ⟨fun other hsame => ?_, fun other hoff => ?_, fun page htable => ?_⟩
  · have hnone : translation { m with tables := write m.tables pt (ptIndex virt) 0#64 } root other =
        none := walk_write_absent kind htree hpt hsame hempty 0
    rw [vmmVirtMapped_eq, hnone]
    rfl
  · exact walk_write_off kind htree hpt hoff 4
  · have hne : page ≠ pt := by
      rintro rfl
      exact htable _ hpt
    funext i
    exact write_of_ne _ _ fun h => hne h.1

theorem getNextLevel_cases (h : NotHuge m root virt) {depth : ℕ} {page : PhysPage}
    (hpage : TableAt m root (pathOf (indices virt) depth) page) (hdepth : depth < 3) :
    getNextLevel m page (indices virt depth) false = (none, m) ∧ translation m root virt = none ∨
      ∃ child, getNextLevel m page (indices virt depth) false = (some child, m) ∧
        TableAt m root (pathOf (indices virt) (depth + 1)) child := by
  obtain ⟨before, hlength, hwalk⟩ := exists_walk_eq_append kind hpage fun _ _ _ _ => rfl
  have hfuel : 3 - depth + 1 + depth = 4 := by omega
  have htranslation : translation m root virt =
      (walk kind m.tables (indices virt) (3 - depth + 1) depth page).map (before ++ ·) := by
    rw [← (hwalk (3 - depth + 1)).1, hfuel]
    rfl
  cases hpresent : isSet (m.tables page (indices virt depth)) vmmPresent with
  | false =>
      rw [walk_absent rfl hpresent] at htranslation
      exact Or.inl ⟨getNextLevel_of_absent hpresent, htranslation⟩
  | true =>
      have hclear : depth = 0 ∨ isSet (m.tables page (indices virt depth)) vmmHuge = false := by
        rcases Nat.eq_zero_or_pos depth with hzero | hpos
        · exact Or.inl hzero
        · refine Or.inr (Bool.eq_false_iff.mpr fun hhuge => ?_)
          rw [walk_leaf rfl hpresent (Or.inr ⟨hpos, hhuge⟩), Option.map_some] at htranslation
          have := h _ htranslation
          rw [List.length_append, List.length_singleton] at this
          omega
      refine Or.inr ⟨_, getNextLevel_of_present hpresent, tableAt_cons kind hpage ?_⟩
      rw [length_pathOf, kind_of_table hpresent hdepth hclear]
      rfl

theorem unmaps_of_notHuge (htree : IsTree kind m.tables root) (h : NotHuge m root virt) :
    Unmaps root virt m (vmmUnmap m root virt) := by
  have hroot : TableAt m root (pathOf (indices virt) 0) root := rfl
  unfold vmmUnmap
  rcases getNextLevel_cases h hroot (by decide) with ⟨hnext, hnone⟩ | ⟨pdpt, hnext, hpdpt⟩
  · have hpml4 : getNextLevel m root (pml4Index virt) false = (none, m) := hnext
    rw [hpml4]
    exact unmaps_self hnone
  have hpml4 : getNextLevel m root (pml4Index virt) false = (some pdpt, m) := hnext
  rw [hpml4]
  dsimp only
  rw [← indices_one]
  rcases getNextLevel_cases h hpdpt (by decide) with ⟨hnext, hnone⟩ | ⟨pd, hnext, hpd⟩
  · rw [hnext]
    exact unmaps_self hnone
  rw [hnext]
  dsimp only
  rw [← indices_two]
  rcases getNextLevel_cases h hpd (by decide) with ⟨hnext, hnone⟩ | ⟨pt, hnext, hpt⟩
  · rw [hnext]
    exact unmaps_self hnone
  rw [hnext]
  exact unmaps_clear htree hpt

end Walk

/-- A page is unmapped, and nothing else, exactly when it is not part of a huge page. -/
theorem unmaps_iff (m : PageTables) (root : PhysPage) (virt : Word)
    (htree : IsTree kind m.tables root) :
    Unmaps root virt m (vmmUnmap m root virt) ↔ NotHuge m root virt :=
  ⟨Unmaps.notHuge, unmaps_of_notHuge htree⟩

/-- A page mapped in the middle of a split huge page. -/
def splitSpace : PageTables :=
  (vmmMap (gigabyteSpace vmmWrite) rootFrame 0x40201000#64 newFrame.addr userPage.bits).2

theorem unmaps_splitSpace :
    Unmaps rootFrame 0x40201000#64 splitSpace (vmmUnmap splitSpace rootFrame 0x40201000#64) := by
  obtain ⟨hmapped, hmaps⟩ := vmmMap_spec _ rootFrame 0x40201000#64 newFrame.addr userPage.bits
    (wellFormed_gigabyteSpace vmmWrite)
  have hdone : (vmmMap (gigabyteSpace vmmWrite) rootFrame 0x40201000#64 newFrame.addr
      userPage.bits).1 = true := by decide +kernel
  refine (unmaps_iff splitSpace rootFrame 0x40201000#64 hmapped.wellFormed.tree).mpr ?_
  intro entries hentries
  obtain ⟨upper, hlength, htranslation⟩ := hmaps hdone 0x40201000#64 rfl
  cases htranslation.symm.trans hentries
  rw [List.length_append, hlength, List.length_singleton]

/-- An address in a page of 1 GiB stays mapped. -/
theorem not_unmaps_gigabyte :
    IsTree kind (gigabyteSpace vmmWrite).tables rootFrame ∧
      ¬ Unmaps rootFrame 0x40201000#64 (gigabyteSpace vmmWrite)
        (vmmUnmap (gigabyteSpace vmmWrite) rootFrame 0x40201000#64) := by
  refine ⟨(wellFormed_gigabyteSpace vmmWrite).tree, fun h => ?_⟩
  have htranslation : translation (gigabyteSpace vmmWrite) rootFrame 0x40201000#64 =
      some [splitLink pdptFrame vmmUser, hugeEntry vmmWrite] := by decide +kernel
  exact absurd (h.notHuge _ htranslation) (by decide)

end EigenOS.Paging
