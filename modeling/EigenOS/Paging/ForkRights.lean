import EigenOS.Paging.ForkSpace

/-!
# The rights of a forked child

The child maps the parent's pages to copies of them.  The entries of the child keep the low
twelve bits of the parent's: a page that forbids execution is executable in the child.
-/

namespace EigenOS.Paging

open EigenOS.RadixTree

/-! ## Walks of the child -/

/-- The entries of a walk in the child against those of one in the parent. -/
inductive CopiedWalk (used : List PhysPage) (tables : Tables) : List Word → List Word → Prop where
  | leaf {page : PhysPage} {entry : Word} : page ∈ used → tables page = tables (target entry) →
      CopiedWalk used tables [entry] [childEntry page entry]
  | step {page : PhysPage} {entry : Word} {entries copies : List Word} :
      CopiedWalk used tables entries copies →
      CopiedWalk used tables (entry :: entries) (childEntry page entry :: copies)

theorem rel_map_step {used : List PhysPage} {tables : Tables} {page : PhysPage} {entry : Word}
    {walk walk' : Option (List Word)} (h : Option.Rel (CopiedWalk used tables) walk walk') :
    Option.Rel (CopiedWalk used tables) (walk.map (entry :: ·))
      (walk'.map (childEntry page entry :: ·)) := by
  cases h with
  | none => exact Option.Rel.none
  | some hwalk => exact Option.Rel.some hwalk.step

theorem walk_not_followed {m : PageTables} {virt : Word} {levels depth : ℕ}
    {source : PhysPage} (hdepth : depth + levels = 3)
    (huser : depth = 0 → (indices virt 0).val < 256)
    (hpages : ∀ entries, walk kind m.tables (indices virt) (levels + 1) depth source =
      some entries → entries.length = levels + 1)
    (hfollow : follows levels (indices virt depth) (m.tables source (indices virt depth)) = false) :
    isSet (m.tables source (indices virt depth)) vmmPresent = false := by
  by_contra hpresent
  rw [Bool.not_eq_false] at hpresent
  unfold follows at hfollow
  rw [hpresent, Bool.true_and] at hfollow
  match levels, hdepth with
  | 0, _ => cases hfollow
  | 3, hdepth =>
      have hzero : depth = 0 := by omega
      subst hzero
      rw [decide_eq_true (huser rfl)] at hfollow
      cases hfollow
  | 1, hdepth | 2, hdepth =>
      have hhuge : isSet (m.tables source (indices virt depth)) vmmHuge = true := by
        simpa using hfollow
      have hlength := hpages _ (walk_leaf rfl hpresent (Or.inr ⟨by omega, hhuge⟩))
      cases hlength

theorem rel_walk_of_entryCopied {m : PageTables} {virt : Word} {used : List PhysPage}
    {levels depth : ℕ} {source dest : PhysPage} (hdepth : depth + levels = 3)
    (huser : depth = 0 → (indices virt 0).val < 256)
    (hpages : ∀ entries, walk kind m.tables (indices virt) (levels + 1) depth source =
      some entries → entries.length = levels + 1)
    (hcopied : EntryCopied used (CopyOf used m.tables levels)
      (follows levels (indices virt depth) (m.tables source (indices virt depth)))
      (m.tables source (indices virt depth)) (m.tables dest (indices virt depth))) :
    Option.Rel (CopiedWalk used m.tables)
      (walk kind m.tables (indices virt) (levels + 1) depth source)
      (walk kind m.tables (indices virt) (levels + 1) depth dest) := by
  induction levels generalizing depth source dest with
  | zero =>
      cases hfollow : follows 0 (indices virt depth) (m.tables source (indices virt depth)) with
      | false =>
          have habsent := walk_not_followed hdepth huser hpages hfollow
          rw [hfollow] at hcopied
          rw [walk_absent rfl habsent, walk_absent hcopied (by decide)]
          exact Option.Rel.none
      | true =>
          rw [hfollow] at hcopied
          obtain ⟨page, hpage, hchild, hcopy⟩ := hcopied
          have hpresent := (Bool.and_eq_true_iff.mp hfollow).1
          rw [walk_leaf rfl hpresent (Or.inl (by omega)),
            walk_leaf hchild ((present_childEntry page _).trans hpresent) (Or.inl (by omega))]
          exact Option.Rel.some (CopiedWalk.leaf hpage hcopy)
  | succ levels ih =>
      cases hfollow : follows (levels + 1) (indices virt depth)
          (m.tables source (indices virt depth)) with
      | false =>
          have habsent := walk_not_followed hdepth huser hpages hfollow
          rw [hfollow] at hcopied
          rw [walk_absent rfl habsent, walk_absent hcopied (by decide)]
          exact Option.Rel.none
      | true =>
          rw [hfollow] at hcopied
          obtain ⟨page, hpage, hchild, hcopy⟩ := hcopied
          obtain ⟨hpresent, hlevel⟩ := Bool.and_eq_true_iff.mp hfollow
          have hsmall : depth = 0 ∨
              isSet (m.tables source (indices virt depth)) vmmHuge = false := by
            rcases Nat.eq_zero_or_pos depth with hzero | hpos
            · exact Or.inl hzero
            · have hne : levels ≠ 2 := by omega
              refine Or.inr ?_
              simpa [hne] using hlevel
          have hsmallChild : depth = 0 ∨
              isSet (childEntry page (m.tables source (indices virt depth))) vmmHuge = false := by
            rw [huge_childEntry]
            exact hsmall
          have hsource := walk_table m source virt (levels + 1) depth rfl hpresent (by omega)
            hsmall
          have hdest := walk_table m dest virt (levels + 1) depth hchild
            ((present_childEntry page _).trans hpresent) (by omega) hsmallChild
          rw [target_childEntry] at hdest
          rw [hsource, hdest]
          apply rel_map_step
          refine ih (by omega) (fun hzero => (by omega)) ?_ (hcopy _)
          intro entries hentries
          have hlength := hpages (m.tables source (indices virt depth) :: entries) (by
            rw [hsource, hentries]
            rfl)
          rw [List.length_cons] at hlength
          omega

theorem CopiedWalk.rights_eq {used : List PhysPage} {tables : Tables} {entries copies : List Word}
    (h : CopiedWalk used tables entries copies) :
    rights copies = { rights entries with executable := true } := by
  unfold rights
  induction h with
  | leaf =>
      simp only [List.all_cons, List.all_nil, user_childEntry, write_childEntry, nx_childEntry,
        Bool.not_false, Bool.and_self]
  | step _ ih =>
      rw [Rights.mk.injEq] at ih
      simp only [List.all_cons, user_childEntry, write_childEntry, nx_childEntry, ih.1, ih.2.1,
        ih.2.2, Bool.not_false, Bool.and_self]

/-- The frame at the end of the walk is a new one, with the contents of the parent's. -/
theorem CopiedWalk.frame {used : List PhysPage} {tables : Tables} {entries copies : List Word}
    (h : CopiedWalk used tables entries copies) (default default' : Word) :
    target (copies.getLastD default') ∈ used ∧
      tables (target (copies.getLastD default')) = tables (target (entries.getLastD default)) := by
  induction h generalizing default default' with
  | @leaf page entry hpage hcopy =>
      rw [List.getLastD_cons, List.getLastD_cons, List.getLastD_nil, List.getLastD_nil,
        target_childEntry]
      exact ⟨hpage, hcopy⟩
  | step _ ih =>
      rw [List.getLastD_cons, List.getLastD_cons]
      exact ih _ _

/-! ## What the child maps -/

def InUserHalf (virt : Word) : Prop := virt.toNat < 2 ^ 47

/-- The user half has no pages but those of 4 KiB. -/
def SmallPages (m : PageTables) (root : PhysPage) : Prop :=
  ∀ virt, InUserHalf virt → ∀ entries, translation m root virt = some entries →
    entries.length = 4

/-- The frame that an address is mapped to. -/
def frameOf (m : PageTables) (root : PhysPage) (virt : Word) : Option PhysPage :=
  (translation m root virt).map fun entries => target (entries.getLastD 0#64)

def contentsOf (m : PageTables) (root : PhysPage) (virt : Word) : Option (TableIndex → Word) :=
  (frameOf m root virt).map m.tables

/-- The user half of the child duplicates the parent's, which stays as it was. -/
structure Duplicates (m m' : PageTables) (parent child : PhysPage) : Prop where
  rights : ∀ virt, InUserHalf virt → rightsOf m' child virt = rightsOf m parent virt
  contents : ∀ virt, InUserHalf virt → contentsOf m' child virt = contentsOf m parent virt
  disjoint : ∀ virt other frame, InUserHalf virt → InUserHalf other →
    frameOf m' child virt = some frame → frameOf m' parent other ≠ some frame
  mappings : ∀ virt, translation m' parent virt = translation m parent virt
  unchanged : ∀ virt, InUserHalf virt → contentsOf m' parent virt = contentsOf m parent virt

theorem indices_zero_lt {virt : Word} (h : InUserHalf virt) : (indices virt 0).val < 256 := by
  have hshift : (virt >>> 39).toNat < 256 := by
    rw [BitVec.toNat_ushiftRight, Nat.shiftRight_eq_div_pow]
    unfold InUserHalf at h
    omega
  exact Nat.lt_of_le_of_lt (Nat.mod_le _ _) hshift

/-- The pages at the ends of the walks of the user half are among those a copy reads. -/
theorem reads_of_walk {m : PageTables} {virt : Word} {levels depth : ℕ} {source : PhysPage}
    {entries : List Word} (hdepth : depth + levels = 3)
    (huser : depth = 0 → (indices virt 0).val < 256)
    (hwalk : walk kind m.tables (indices virt) (levels + 1) depth source = some entries)
    (hlength : entries.length = levels + 1) (default : Word) :
    Reads m.tables (levels + 1) source (target (entries.getLastD default)) := by
  induction levels generalizing depth source entries default with
  | zero =>
      obtain ⟨rest, rfl, ⟨rfl, hkind⟩ | ⟨child, hkind, hrest⟩⟩ := walk_eq_some kind hwalk
      · have hfollow : follows 0 (indices virt depth) (m.tables source (indices virt depth)) =
            true := by
          rw [follows, (kind_eq_leaf hkind).1]
          rfl
        exact Reads.below hfollow rfl
      · have hlow := (kind_eq_table hkind).2.2.1
        omega
  | succ levels ih =>
      have hpages : ∀ other, walk kind m.tables (indices virt) (levels + 1 + 1) depth source =
          some other → other.length = levels + 1 + 1 := by
        intro other hother
        cases hwalk.symm.trans hother
        exact hlength
      have hfollow : follows (levels + 1) (indices virt depth)
          (m.tables source (indices virt depth)) = true := by
        by_contra hnot
        rw [Bool.not_eq_true] at hnot
        rw [walk_absent rfl (walk_not_followed hdepth huser hpages hnot)] at hwalk
        cases hwalk
      obtain ⟨rest, rfl, ⟨rfl, _⟩ | ⟨child, hkind, hrest⟩⟩ := walk_eq_some kind hwalk
      · cases hlength
      · obtain ⟨_, rfl, _, _⟩ := kind_eq_table hkind
        rw [List.getLastD_cons]
        apply Reads.below hfollow
        rw [List.length_cons] at hlength
        exact ih (by omega) (fun hzero => (by omega)) hrest (by omega) _

section Fork

variable {m m' : PageTables} {parent child : PhysPage} {used : List PhysPage} {virt : Word}

theorem reads_of_frameOf (hpages : SmallPages m parent) (hvirt : InUserHalf virt)
    {frame : PhysPage} (hframe : frameOf m parent virt = some frame) :
    Reads m.tables 4 parent frame := by
  obtain ⟨entries, hentries, rfl⟩ := Option.map_eq_some_iff.mp hframe
  have hdepth : 0 + 3 = 3 := rfl
  exact reads_of_walk hdepth (fun _ => indices_zero_lt hvirt) hentries
    (hpages virt hvirt entries hentries) _

theorem Forked.translation_parent (h : Forked m m' parent child used)
    (hfree : FramesFree m parent) (virt : Word) :
    translation m' parent virt = translation m parent virt := by
  apply walk_congr kind 4 rfl
  intro n page hpage
  rw [h.others page (hfree.tables _ page hpage)]

theorem Forked.frameOf_parent (h : Forked m m' parent child used) (hfree : FramesFree m parent)
    (virt : Word) : frameOf m' parent virt = frameOf m parent virt := by
  rw [frameOf, frameOf, h.translation_parent hfree]

theorem Forked.contents_frame (h : Forked m m' parent child used) (hfree : FramesFree m parent)
    (hpages : SmallPages m parent) (hvirt : InUserHalf virt) {frame : PhysPage}
    (hframe : frameOf m parent virt = some frame) : m'.tables frame = m.tables frame :=
  h.others frame (hfree.pages frame (reads_of_frameOf hpages hvirt hframe))

theorem Forked.contentsOf_parent (h : Forked m m' parent child used)
    (hfree : FramesFree m parent) (hpages : SmallPages m parent) (hvirt : InUserHalf virt) :
    contentsOf m' parent virt = contentsOf m parent virt := by
  rw [contentsOf, contentsOf, h.frameOf_parent hfree]
  cases hframe : frameOf m parent virt with
  | none => rfl
  | some frame => exact congrArg some (h.contents_frame hfree hpages hvirt hframe)

theorem Forked.rel_translation (h : Forked m m' parent child used) (hfree : FramesFree m parent)
    (hpages : SmallPages m parent) (hvirt : InUserHalf virt) :
    Option.Rel (CopiedWalk used m'.tables) (translation m parent virt)
      (translation m' child virt) := by
  have hparent := h.translation_parent hfree virt
  have hdepth : 0 + 3 = 3 := rfl
  have hindex := indices_zero_lt hvirt
  rw [← hparent]
  refine rel_walk_of_entryCopied hdepth (fun _ => hindex) ?_ (h.copied _ hindex)
  intro entries hentries
  exact hpages virt hvirt entries (hparent.symm.trans hentries)

theorem Forked.rightsOf_child (h : Forked m m' parent child used) (hfree : FramesFree m parent)
    (hpages : SmallPages m parent) (hvirt : InUserHalf virt) :
    rightsOf m' child virt =
      (rightsOf m parent virt).map fun rights => { rights with executable := true } := by
  have hrel := h.rel_translation hfree hpages hvirt
  unfold rightsOf
  generalize translation m parent virt = entries at hrel ⊢
  generalize translation m' child virt = copies at hrel ⊢
  cases hrel with
  | none => rfl
  | some hwalk => exact congrArg some hwalk.rights_eq

theorem Forked.frameOf_child (h : Forked m m' parent child used) (hfree : FramesFree m parent)
    (hpages : SmallPages m parent) (hvirt : InUserHalf virt) :
    Option.Rel (fun frame copy => copy ∈ used ∧ m'.tables copy = m'.tables frame)
      (frameOf m parent virt) (frameOf m' child virt) := by
  have hrel := h.rel_translation hfree hpages hvirt
  unfold frameOf
  generalize translation m parent virt = entries at hrel ⊢
  generalize translation m' child virt = copies at hrel ⊢
  cases hrel with
  | none => exact Option.Rel.none
  | some hwalk => exact Option.Rel.some (hwalk.frame _ _)

theorem Forked.contentsOf_child (h : Forked m m' parent child used)
    (hfree : FramesFree m parent) (hpages : SmallPages m parent) (hvirt : InUserHalf virt) :
    contentsOf m' child virt = contentsOf m parent virt := by
  have hrel := h.frameOf_child hfree hpages hvirt
  unfold contentsOf
  generalize hframe : frameOf m parent virt = frame at hrel ⊢
  generalize frameOf m' child virt = copy at hrel ⊢
  cases hrel with
  | none => rfl
  | some hcopy =>
      have hkept := h.contents_frame hfree hpages hvirt hframe
      exact congrArg some (hcopy.2.trans hkept)

theorem Forked.frameOf_ne (h : Forked m m' parent child used) (hfree : FramesFree m parent)
    (hpages : SmallPages m parent) (hvirt : InUserHalf virt) {other : Word}
    (hother : InUserHalf other) {frame : PhysPage}
    (hchild : frameOf m' child virt = some frame) : frameOf m' parent other ≠ some frame := by
  intro hparent
  have hrel := h.frameOf_child hfree hpages hvirt
  rw [hchild] at hrel
  have hused : frame ∈ used := by
    generalize frameOf m parent virt = original at hrel
    cases hrel with
    | some hcopy => exact hcopy.1
  rw [h.frameOf_parent hfree] at hparent
  exact hfree.pages frame (reads_of_frameOf hpages hother hparent) (h.taken hused)

end Fork

/-- A fork duplicates the address space if and only if the user half of the parent has no page
that forbids execution. -/
theorem duplicates_iff_executable {m m' : PageTables} {parent child : PhysPage}
    (hfree : FramesFree m parent) (hpages : SmallPages m parent)
    (hfork : forkAddressSpace m parent = (some child, m')) :
    Duplicates m m' parent child ↔
      ∀ virt, InUserHalf virt → ∀ rights, rightsOf m parent virt = some rights →
        rights.executable = true := by
  obtain ⟨used, h⟩ := forkAddressSpace_forked hfree hfork
  constructor
  · intro hdup virt hvirt rights hrights
    have hchild := h.rightsOf_child hfree hpages hvirt
    rw [hdup.rights virt hvirt, hrights, Option.map_some, Option.some.injEq] at hchild
    rw [hchild]
  · intro hexec
    refine ⟨?_, fun virt hvirt => h.contentsOf_child hfree hpages hvirt, ?_,
      h.translation_parent hfree, fun virt hvirt => h.contentsOf_parent hfree hpages hvirt⟩
    · intro virt hvirt
      rw [h.rightsOf_child hfree hpages hvirt]
      cases hrights : rightsOf m parent virt with
      | none => rfl
      | some rights =>
          have hset := hexec virt hvirt rights hrights
          rw [Option.map_some, ← hset]
    · intro virt other frame hvirt hother hchild
      exact h.frameOf_ne hfree hpages hvirt hother hchild

/-! ## An address space with one page -/

section Closed

variable {m : PageTables} {root page : PhysPage} {pages : List PhysPage}

/-- The tables of an address space are among pages whose entries stay among them. -/
theorem tableAt_mem (hroot : root ∈ pages) (hclosed : ∀ page ∈ pages, ∀ i,
      isSet (m.tables page i) vmmPresent = true → target (m.tables page i) ∈ pages)
    {path : List TableIndex} (h : TableAt m root path page) : page ∈ pages := by
  induction path generalizing page with
  | nil =>
      cases h
      exact hroot
  | cons i path ih =>
      obtain ⟨parent, hparent, hchild⟩ := tableAt_cons_some kind h
      cases hkind : kind path.length (m.tables parent i) with
      | absent => rw [hkind] at hchild; cases hchild
      | leaf => rw [hkind] at hchild; cases hchild
      | table child =>
          rw [hkind] at hchild
          cases hchild
          obtain ⟨hpresent, rfl, _, _⟩ := kind_eq_table hkind
          exact hclosed parent (ih hparent) i hpresent

theorem reads_mem (hroot : root ∈ pages) (hclosed : ∀ page ∈ pages, ∀ i,
      isSet (m.tables page i) vmmPresent = true → target (m.tables page i) ∈ pages)
    {levels : ℕ} (h : Reads m.tables levels root page) : page ∈ pages := by
  induction levels generalizing root with
  | zero =>
      cases h
      exact hroot
  | succ levels ih =>
      rcases h with rfl | ⟨i, hfollow, hread⟩
      · exact hroot
      · exact ih (hclosed root hroot i (Bool.and_eq_true_iff.mp hfollow).1) hread

variable (pages) in
theorem framesFree_of_closed (hroot : root ∈ pages) (hclosed : ∀ page ∈ pages, ∀ i,
      isSet (m.tables page i) vmmPresent = true → target (m.tables page i) ∈ pages)
    (hdistinct : m.supply.Nodup) (hfree : ∀ page ∈ pages, page ∉ m.supply) :
    FramesFree m root where
  distinct := hdistinct
  tables := fun _ _ h => hfree _ (tableAt_mem hroot hclosed h)
  pages := fun _ h => hfree _ (reads_mem hroot hclosed h)

theorem all_of_walk {p : Word → Bool} (hall : ∀ page i, p (m.tables page i) = true)
    {virt : Word} {fuel depth : ℕ} {entries : List Word}
    (h : walk kind m.tables (indices virt) fuel depth page = some entries) :
    entries.all p = true := by
  induction fuel generalizing depth page entries with
  | zero => cases h
  | succ fuel ih =>
      obtain ⟨rest, rfl, ⟨rfl, _⟩ | ⟨child, _, hrest⟩⟩ := walk_eq_some kind h
      · rw [List.all_cons, hall]
        rfl
      · rw [List.all_cons, hall, ih hrest]
        rfl

theorem length_of_walk (hsmall : ∀ page i, isSet (m.tables page i) vmmHuge = false)
    {virt : Word} {fuel depth : ℕ} (hdepth : depth + fuel = 4) {entries : List Word}
    (h : walk kind m.tables (indices virt) fuel depth page = some entries) :
    entries.length = fuel := by
  induction fuel generalizing depth page entries with
  | zero => cases h
  | succ fuel ih =>
      obtain ⟨rest, rfl, ⟨rfl, hkind⟩ | ⟨child, _, hrest⟩⟩ := walk_eq_some kind h
      · rcases (kind_eq_leaf hkind).2 with hlast | ⟨_, hhuge⟩
        · rw [List.length_singleton]
          omega
        · rw [hsmall] at hhuge
          cases hhuge
      · rw [List.length_cons, ih (by omega) hrest]

end Closed

/-- The frame of a number. -/
def frame (n : Fin 16) : PhysPage := ⟨BitVec.ofNat 64 n <<< 12, by revert n; decide⟩

def tableEntry (page : PhysPage) : Word := page.addr ||| vmmPresent ||| vmmWrite ||| vmmUser

/-- The page at address zero, which forbids execution or does not. -/
def pageEntry (noExecute : Bool) : Word :=
  (frame 5).addr ||| vmmPresent ||| vmmUser ||| if noExecute then vmmNx else 0#64

theorem zero_lt_tableLength : 0 < 512 := by decide

/-- An address space with one page. -/
def onePage (noExecute : Bool) : PageTables where
  tables page i :=
    if i ≠ ⟨0, zero_lt_tableLength⟩ then 0#64
    else if page = frame 1 then tableEntry (frame 2)
    else if page = frame 2 then tableEntry (frame 3)
    else if page = frame 3 then tableEntry (frame 4)
    else if page = frame 4 then pageEntry noExecute
    else 0#64
  supply := [frame 6, frame 7, frame 8, frame 9, frame 10]

theorem framesFree_onePage (noExecute : Bool) : FramesFree (onePage noExecute) (frame 1) := by
  refine framesFree_of_closed [frame 1, frame 2, frame 3, frame 4, frame 5] (by decide)
    ?_ (by cases noExecute <;> decide) (by cases noExecute <;> decide)
  cases noExecute <;> decide +kernel

theorem smallPages_onePage (noExecute : Bool) : SmallPages (onePage noExecute) (frame 1) := by
  intro virt _ entries hentries
  apply length_of_walk ?_ rfl hentries
  intro page i
  unfold onePage
  dsimp only
  split_ifs <;> cases noExecute <;> decide

theorem forkAddressSpace_onePage (noExecute : Bool) :
    forkAddressSpace (onePage noExecute) (frame 1) =
      (some (frame 6), (forkAddressSpace (onePage noExecute) (frame 1)).2) := by
  have hchild : (forkAddressSpace (onePage noExecute) (frame 1)).1 = some (frame 6) := by
    cases noExecute <;> decide +kernel
  exact (Prod.eta _).symm.trans
    (congrArg (fun child => (child, (forkAddressSpace (onePage noExecute) (frame 1)).2)) hchild)

/-- A page that can be executed is duplicated. -/
theorem duplicates_onePage :
    Duplicates (onePage false) (forkAddressSpace (onePage false) (frame 1)).2 (frame 1)
      (frame 6) := by
  apply (duplicates_iff_executable (framesFree_onePage false) (smallPages_onePage false)
    (forkAddressSpace_onePage false)).mpr
  intro virt _ rights hrights
  obtain ⟨entries, hentries, rfl⟩ := Option.map_eq_some_iff.mp hrights
  apply all_of_walk ?_ hentries
  intro page i
  unfold onePage
  dsimp only
  split_ifs <;> decide

/-- A page that forbids execution can be executed in the child. -/
theorem noExecute_not_duplicates :
    FramesFree (onePage true) (frame 1) ∧ SmallPages (onePage true) (frame 1) ∧
      ∃ m', forkAddressSpace (onePage true) (frame 1) = (some (frame 6), m') ∧
        rightsOf (onePage true) (frame 1) 0#64 = some ⟨true, false, false⟩ ∧
        rightsOf m' (frame 6) 0#64 = some ⟨true, false, true⟩ ∧
        ¬ Duplicates (onePage true) m' (frame 1) (frame 6) := by
  have hparent : rightsOf (onePage true) (frame 1) 0#64 = some ⟨true, false, false⟩ := by
    decide +kernel
  have hchild : rightsOf (forkAddressSpace (onePage true) (frame 1)).2 (frame 6) 0#64 =
      some ⟨true, false, true⟩ := by
    decide +kernel
  refine ⟨framesFree_onePage true, smallPages_onePage true, _, forkAddressSpace_onePage true,
    hparent, hchild, ?_⟩
  intro hdup
  have hsame := hdup.rights 0#64 (Nat.two_pow_pos 47)
  rw [hparent, hchild] at hsame
  cases hsame

end EigenOS.Paging
