import EigenOS.Paging.MapFrame

/-!
# The writes of a mapping

Whatever a mapping finds on its way, it links frames of the supply in the place of entries that
name no table, and sets the entry of the page at last.  A frame that is neither a table nor in
the supply is not written at all.
-/

namespace EigenOS.Paging

open EigenOS.RadixTree
open Relation (ReflTransGen)

/-- A write of `vmm_map` before its last one. -/
inductive LinkStep (root : PhysPage) (virt flags : Word) : PageTables → PageTables → Prop
  | attach (m : PageTables) (table page : PhysPage) (path : List TableIndex) (i : TableIndex)
      (rest : List PhysPage) (entries : TableIndex → Word) (newFlags : Word)
      (wellFormed : WellFormed m root) (supply : m.supply = page :: rest)
      (parent : TableAt m root path table) (depth : path.length < 3)
      (old : (kind path.length (m.tables table i)).page = none)
      (new : ∀ j, (kind (path.length + 1) (entries j)).page = none)
      (user : isSet flags vmmUser = true → isSet newFlags vmmUser = true)
      (stage : Stage root virt flags m
        ⟨RadixTree.attach m.tables table i page entries (splitLink page newFlags), rest⟩) :
      LinkStep root virt flags m
        ⟨RadixTree.attach m.tables table i page entries (splitLink page newFlags), rest⟩

abbrev LinkRun (root : PhysPage) (virt flags : Word) : PageTables → PageTables → Prop :=
  ReflTransGen (LinkStep root virt flags)

/-- The last write of `vmm_map`. -/
def setPage (m : PageTables) (pt : PhysPage) (virt phys flags : Word) : PageTables :=
  { m with tables := write m.tables pt (ptIndex virt) (leafEntry phys flags) }

/-- A mapping that fails links tables at most; one that succeeds sets the entry of its page as
well. -/
def MapRun (root : PhysPage) (virt phys flags : Word) (m : PageTables)
    (result : Bool × PageTables) : Prop :=
  ∃ mid, LinkRun root virt flags m mid ∧ (result = (false, mid) ∨
    ∃ pt, WellFormed mid root ∧ TableAt mid root (pathOf (indices virt) 3) pt ∧
      result = (true, setPage mid pt virt phys flags))

/-- A table that the walk of an address goes through. -/
def OnPath (m : PageTables) (root : PhysPage) (virt : Word) (page : PhysPage) : Prop :=
  ∃ n, TableAt m root (pathOf (indices virt) n) page

/-- The write is on the path of the address. -/
structure PathStep (root : PhysPage) (virt flags : Word) (m m' : PageTables) : Prop where
  link : LinkStep root virt flags m m'
  others : ∀ page, page ∉ m.supply → ¬ OnPath m root virt page → m'.tables page = m.tables page

abbrev PathRun (root : PhysPage) (virt flags : Word) : PageTables → PageTables → Prop :=
  ReflTransGen (PathStep root virt flags)

/-- All writes of a mapping are on the path of its address. -/
def MapOnPath (root : PhysPage) (virt phys flags : Word) (m : PageTables)
    (result : Bool × PageTables) : Prop :=
  ∃ mid, PathRun root virt flags m mid ∧ (result = (false, mid) ∨
    ∃ pt, WellFormed mid root ∧ TableAt mid root (pathOf (indices virt) 3) pt ∧
      result = (true, setPage mid pt virt phys flags))

section Steps

variable {m m' mid : PageTables} {root table child : PhysPage} {path : List TableIndex}
  {i : TableIndex} {virt phys flags : Word} {result : Bool × PageTables}

theorem MapOnPath.mapRun (h : MapOnPath root virt phys flags m result) :
    MapRun root virt phys flags m result := by
  obtain ⟨mid, hrun, hresult⟩ := h
  have hle : PathStep root virt flags ≤ LinkStep root virt flags := fun _ _ hstep => hstep.link
  exact ⟨mid, ReflTransGen.mono hle _ _ hrun, hresult⟩

theorem mapOnPath_false (m : PageTables) : MapOnPath root virt phys flags m (false, m) :=
  ⟨m, .refl, Or.inl rfl⟩

theorem MapOnPath.after (h : MapOnPath root virt phys flags mid result)
    (hrun : PathRun root virt flags m mid) : MapOnPath root virt phys flags m result := by
  obtain ⟨last, hlast, hresult⟩ := h
  exact ⟨last, hrun.trans hlast, hresult⟩

theorem LinkStep.pathStep {page : PhysPage} {rest : List PhysPage} {entries : TableIndex → Word}
    {link : Word} (hsupply : m.supply = page :: rest) (hon : OnPath m root virt table)
    (h : LinkStep root virt flags m ⟨RadixTree.attach m.tables table i page entries link, rest⟩) :
    PathStep root virt flags m ⟨RadixTree.attach m.tables table i page entries link, rest⟩ := by
  refine ⟨h, fun other hother hoff => funext fun j => attach_of_ne ?_ ?_⟩
  · rintro rfl
    exact hother (hsupply ▸ List.mem_cons_self)
  · rintro ⟨rfl, _⟩
    exact hoff hon

theorem getNextLevel_run (h : WellFormed m root) (hpath : TableAt m root path table)
    (hdepth : path.length < 3) (hon : OnPath m root virt table)
    (hhuge : path.length = 0 ∨ isSet (m.tables table i) vmmHuge = false)
    (hnext : getNextLevel m table i true = (some child, m')) : PathRun root virt flags m m' := by
  obtain ⟨_, _, hsame⟩ := getNextLevel_spec h hpath hdepth hhuge hnext
  have hstage : Stage root virt flags m m' := getNextLevel_stage hsame hnext
  unfold getNextLevel at hnext
  cases hpresent : isSet (m.tables table i) vmmPresent with
  | true =>
      rw [hpresent, if_pos rfl] at hnext
      cases hnext
      exact .refl
  | false =>
      rw [hpresent, if_neg Bool.false_ne_true, if_neg (by decide)] at hnext
      cases hsupply : m.supply with
      | nil =>
          rw [hsupply] at hnext
          cases hnext
      | cons page rest =>
          rw [hsupply] at hnext
          dsimp only at hnext
          rw [nextLevel_link] at hnext
          cases hnext
          refine .single (LinkStep.pathStep hsupply hon
            (.attach m table child path i rest _ vmmUser h hsupply hpath hdepth ?_
              (fun j => ?_) (fun _ => by decide) hstage))
          · rw [kind_of_absent hpresent]
            rfl
          · rw [kind_of_absent (by decide)]
            rfl

theorem splitHuge_run (h : WellFormed m root) (hpath : TableAt m root path table)
    (hon : OnPath m root virt table) (hdepth : path.length < 3) (hpos : 0 < path.length)
    (hhuge : isSet (m.tables table i) vmmHuge = true) {entries : Word → TableIndex → Word}
    (hend : ∀ old j, 3 ≤ path.length + 1 ∨
      0 < path.length + 1 ∧ isSet (entries old j) vmmHuge = true)
    (hstage : Stage root virt flags m m')
    (hsplit : splitHuge m table i flags entries = (true, m')) : PathRun root virt flags m m' := by
  unfold splitHuge at hsplit
  cases hsupply : m.supply with
  | nil =>
      rw [hsupply] at hsplit
      cases hsplit
  | cons page rest =>
      rw [hsupply] at hsplit
      cases hsplit
      exact .single (LinkStep.pathStep hsupply hon
        (.attach m table page path i rest _ flags h hsupply hpath hdepth
          (page_of_leaf (Or.inr ⟨hpos, hhuge⟩)) (fun j => page_of_leaf (hend _ j)) id hstage))

theorem mapInPd_run (h : WellFormed m root) {pd : PhysPage}
    (hpath : TableAt m root (pathOf (indices virt) 2) pd) :
    MapOnPath root virt phys flags m (mapInPd virt phys flags m pd) := by
  have hdepth : (pathOf (indices virt) 2).length = 2 := length_pathOf _ _
  refine mapThrough_cases h hpath (fun m _ => mapOnPath_false m) ?_ ?_
  · intro mid hhuge hsplit
    obtain ⟨hextends, hclear, hstage, _⟩ := splitHuge2m_stage h hpath hhuge hsplit
    refine ⟨hextends, hclear, fun _ hresult => hresult.after ?_⟩
    exact splitHuge_run h hpath ⟨_, hpath⟩ (by omega) (by omega) hhuge
      (fun _ _ => Or.inl (by omega)) hstage hsplit
  · intro m h hpath hclear pt mid hnext
    obtain ⟨hextends, hpt, _⟩ := getNextLevel_spec h hpath (by omega) (Or.inr hclear) hnext
    exact ⟨mid, getNextLevel_run h hpath (by omega) ⟨_, hpath⟩ (Or.inr hclear) hnext,
      Or.inr ⟨pt, hextends.wellFormed, hpt, rfl⟩⟩

theorem mapInPdpt_run (h : WellFormed m root) {pdpt : PhysPage}
    (hpath : TableAt m root (pathOf (indices virt) 1) pdpt) :
    MapOnPath root virt phys flags m (mapInPdpt virt phys flags m pdpt) := by
  have hdepth : (pathOf (indices virt) 1).length = 1 := length_pathOf _ _
  refine mapThrough_cases h hpath (fun m _ => mapOnPath_false m) ?_ ?_
  · intro mid hhuge hsplit
    obtain ⟨hextends, hclear, hstage, _⟩ := splitHuge1g_stage h hpath hhuge hsplit
    refine ⟨hextends, hclear, fun _ hresult => hresult.after ?_⟩
    exact splitHuge_run h hpath ⟨_, hpath⟩ (by omega) (by omega) hhuge
      (fun old j => Or.inr ⟨Nat.succ_pos _, huge_entries1g old j⟩) hstage hsplit
  · intro m h hpath hclear pd mid hnext
    obtain ⟨hextends, hpd, _⟩ := getNextLevel_spec h hpath (by omega) (Or.inr hclear) hnext
    exact (mapInPd_run hextends.wellFormed hpd).after
      (getNextLevel_run h hpath (by omega) ⟨_, hpath⟩ (Or.inr hclear) hnext)

variable (m root virt phys flags) in
theorem vmmMap_onPath (h : WellFormed m root) :
    MapOnPath root virt phys flags m (vmmMap m root virt phys flags) := by
  have hroot : TableAt m root (pathOf (indices virt) 0) root := rfl
  have hdepth : (pathOf (indices virt) 0).length < 3 := Nat.zero_lt_succ _
  unfold vmmMap
  cases hnext : getNextLevel m root (pml4Index virt) true with
  | mk next mid =>
      cases next with
      | none =>
          cases getNextLevel_none hnext
          exact mapOnPath_false m
      | some pdpt =>
          obtain ⟨hextends, hpdpt, _⟩ := getNextLevel_spec h hroot hdepth (Or.inl rfl) hnext
          exact (mapInPdpt_run hextends.wellFormed hpdpt).after
            (getNextLevel_run h hroot hdepth ⟨0, hroot⟩ (Or.inl rfl) hnext)

variable (m root virt phys flags) in
/-- All that `vmm_map` does. -/
theorem vmmMap_run (h : WellFormed m root) :
    MapRun root virt phys flags m (vmmMap m root virt phys flags) :=
  (vmmMap_onPath _ _ _ _ _ h).mapRun

theorem stages_of_linkRun (h : LinkRun root virt flags m m') :
    ReflTransGen (Stage root virt flags) m m' := by
  induction h with
  | refl => exact .refl
  | tail _ hstep ih =>
      cases hstep with
      | attach _ _ _ _ _ _ _ _ _ _ _ _ _ _ hstage => exact ih.tail hstage

end Steps

/-! ## Frames that are not written -/

/-- A frame that is neither a table of the address space nor going to be allocated. -/
structure Outside (m : PageTables) (root page : PhysPage) : Prop where
  noTable : Fresh kind m.tables root page
  notFree : page ∉ m.supply

/-- A frame that stays what it is, with what it holds. -/
structure Kept (root page : PhysPage) (m m' : PageTables) : Prop where
  outside : Outside m' root page
  contents : m'.tables page = m.tables page

theorem Outside.kept {m : PageTables} {root page : PhysPage} (h : Outside m root page) :
    Kept root page m m :=
  ⟨h, rfl⟩

theorem Kept.trans {m m' m'' : PageTables} {root page : PhysPage} (h : Kept root page m m')
    (h' : Kept root page m' m'') : Kept root page m m'' :=
  ⟨h'.outside, h'.contents.trans h.contents⟩

section Frames

variable {m m' : PageTables} {root page : PhysPage} {virt phys flags : Word}

theorem LinkStep.kept (h : LinkStep root virt flags m m') (hout : Outside m root page) :
    Kept root page m m' := by
  cases h with
  | attach table new path i rest entries newFlags hwf hsupply hparent hdepth _ hnew _ _ =>
      have hfresh : Fresh kind m.tables root new := hwf.fresh new (hsupply ▸ List.mem_cons_self)
      have hne : page ≠ new := by
        rintro rfl
        exact hout.notFree (hsupply ▸ List.mem_cons_self)
      have hnoParent : page ≠ table := by
        rintro rfl
        exact hout.noTable _ hparent
      refine ⟨⟨?_, fun hmem => ?_⟩, funext fun j => ?_⟩
      · exact fresh_attach kind hwf.tree hparent hfresh (kind_splitLink new newFlags hdepth) hnew
          hout.noTable hne
      · exact hout.notFree (hsupply ▸ List.mem_cons_of_mem _ hmem)
      · exact attach_of_ne hne fun hentry => hnoParent hentry.1

theorem kept_of_linkRun (h : LinkRun root virt flags m m') (hout : Outside m root page) :
    Kept root page m m' := by
  induction h with
  | refl => exact hout.kept
  | tail _ hstep ih => exact ih.trans (hstep.kept ih.outside)

theorem kept_setPage {pt : PhysPage} (h : WellFormed m root)
    (hpt : TableAt m root (pathOf (indices virt) 3) pt) (hout : Outside m root page) :
    Kept root page m (setPage m pt virt phys flags) := by
  have hne : page ≠ pt := by
    rintro rfl
    exact hout.noTable _ hpt
  refine ⟨⟨fun along halong => ?_, hout.notFree⟩, funext fun j => ?_⟩
  · refine hout.noTable along (tableAt_of_write kind ?_ h.tree hpt halong)
    exact page_of_leaf (Or.inl (Nat.le_of_eq (length_pathOf _ _).symm))
  · exact write_of_ne _ _ fun hentry => hne hentry.1

variable (virt phys flags) in
theorem kept_vmmMap (h : WellFormed m root) (hout : Outside m root page) :
    Kept root page m (vmmMap m root virt phys flags).2 := by
  obtain ⟨mid, hrun, hresult⟩ := vmmMap_run m root virt phys flags h
  have hmid := kept_of_linkRun hrun hout
  rcases hresult with hfalse | ⟨pt, hwf, hpt, htrue⟩
  · rw [hfalse]
    exact hmid
  · rw [htrue]
    exact hmid.trans (kept_setPage hwf hpt hmid.outside)

end Frames

/-- Nothing is written but tables on the path of an address and frames of the supply, and new
tables are such frames. -/
structure WritesOnPath (root : PhysPage) (virt : Word) (m m' : PageTables) : Prop where
  others : ∀ page, page ∉ m.supply → ¬ OnPath m root virt page → m'.tables page = m.tables page
  tables : ∀ path page, TableAt m' root path page → TableAt m root path page ∨ page ∈ m.supply
  supply : m'.supply ⊆ m.supply

section OnPath

variable {m m' m'' : PageTables} {root : PhysPage} {virt phys flags : Word}

theorem writesOnPath_refl (m : PageTables) : WritesOnPath root virt m m :=
  ⟨fun _ _ _ => rfl, fun _ _ hpage => Or.inl hpage, List.Subset.refl _⟩

theorem WritesOnPath.trans (h : WritesOnPath root virt m m') (h' : WritesOnPath root virt m' m'') :
    WritesOnPath root virt m m'' where
  others := by
    intro page hpage hoff
    rw [h'.others page (fun hin => hpage (h.supply hin)), h.others page hpage hoff]
    rintro ⟨n, hn⟩
    rcases h.tables _ _ hn with hbefore | hin
    · exact hoff ⟨n, hbefore⟩
    · exact hpage hin
  tables := by
    intro path page hpage
    rcases h'.tables path page hpage with hmid | hin
    · exact h.tables path page hmid
    · exact Or.inr (h.supply hin)
  supply := fun _ hpage => h.supply (h'.supply hpage)

theorem PathStep.writesOnPath (h : PathStep root virt flags m m') :
    WritesOnPath root virt m m' := by
  refine ⟨h.others, ?_, ?_⟩
  · cases h.link with
    | attach table new path i rest entries newFlags hwf hsupply hparent hdepth _ hnew _ _ =>
        intro along page hpage
        have hmem : new ∈ m.supply := hsupply ▸ List.mem_cons_self
        rcases tableAt_of_attach kind hwf.tree hparent (hwf.fresh new hmem)
          (kind_splitLink new newFlags hdepth) hnew hpage with hbefore | ⟨_, rfl⟩
        · exact Or.inl hbefore
        · exact Or.inr hmem
  · cases h.link with
    | attach table new path i rest entries newFlags hwf hsupply _ _ _ _ _ _ =>
        exact fun page hpage => hsupply ▸ List.mem_cons_of_mem new hpage

theorem writesOnPath_setPage {pt : PhysPage} (h : WellFormed m root)
    (hpt : TableAt m root (pathOf (indices virt) 3) pt) :
    WritesOnPath root virt m (setPage m pt virt phys flags) where
  others := by
    intro page _ hoff
    have hne : page ≠ pt := by
      rintro rfl
      exact hoff ⟨3, hpt⟩
    exact funext fun j => write_of_ne _ _ fun hentry => hne hentry.1
  tables := by
    intro along page hpage
    refine Or.inl (tableAt_of_write kind ?_ h.tree hpt hpage)
    exact page_of_leaf (Or.inl (Nat.le_of_eq (length_pathOf _ _).symm))
  supply := List.Subset.refl _

variable (m root virt phys flags) in
theorem vmmMap_writesOnPath (h : WellFormed m root) :
    WritesOnPath root virt m (vmmMap m root virt phys flags).2 := by
  obtain ⟨mid, hrun, hresult⟩ := vmmMap_onPath m root virt phys flags h
  have hmid : WritesOnPath root virt m mid := by
    clear hresult
    induction hrun with
    | refl => exact writesOnPath_refl m
    | tail _ hstep ih => exact ih.trans hstep.writesOnPath
  rcases hresult with hfalse | ⟨pt, hwf, hpt, htrue⟩
  · rw [hfalse]
    exact hmid
  · rw [htrue]
    exact hmid.trans (writesOnPath_setPage hwf hpt)

end OnPath

/-! ## Links -/

def LinkAt (m : PageTables) (root : PhysPage) (path : List TableIndex) (entry : Word) : Prop :=
  entryAt kind m.tables root path = some entry ∧ ∃ table, TableAt m root path table

/-- An entry made for a new table. -/
def MadeLink (flags entry : Word) : Prop :=
  ∃ page newFlags, entry = splitLink page newFlags ∧
    (isSet flags vmmUser = true → isSet newFlags vmmUser = true)

/-- What a mapping does to the links: those that were there stay, and new ones are made for new
tables. -/
structure LinksMade (root : PhysPage) (flags : Word) (m m' : PageTables) : Prop where
  kept : ∀ path entry, LinkAt m root path entry → LinkAt m' root path entry
  fresh : ∀ path entry, LinkAt m' root path entry →
    LinkAt m root path entry ∨ MadeLink flags entry

section Links

variable {m m' m'' : PageTables} {root table page : PhysPage} {path : List TableIndex}
  {i : TableIndex} {virt phys flags : Word} {rest : List PhysPage}

theorem linkAt_iff {entry : Word} : LinkAt m root (i :: path) entry ↔
    ∃ table, TableAt m root path table ∧ m.tables table i = entry ∧
      (kind path.length entry).page ≠ none := by
  unfold LinkAt TableAt
  constructor
  · rintro ⟨hentry, child, hchild⟩
    obtain ⟨table, htable, rfl, _⟩ := (entryAt_eq_some_iff kind).mp hentry
    obtain ⟨table', htable', hpage⟩ := tableAt_cons_some kind hchild
    cases htable.symm.trans htable'
    exact ⟨table, htable, rfl, by rw [hpage]; exact Option.some_ne_none child⟩
  · rintro ⟨table, htable, rfl, hpage⟩
    obtain ⟨child, hchild⟩ := Option.ne_none_iff_exists'.mp hpage
    refine ⟨(entryAt_eq_some_iff kind).mpr ⟨table, htable, rfl, fun habsent => ?_⟩, child,
      tableAt_cons kind htable hchild⟩
    rw [habsent] at hpage
    exact hpage rfl

theorem not_linkAt_nil {entry : Word} : ¬ LinkAt m root [] entry := fun h => nomatch h.1

theorem LinksMade.refl (m : PageTables) : LinksMade root flags m m :=
  ⟨fun _ _ h => h, fun _ _ h => Or.inl h⟩

theorem LinksMade.trans (h : LinksMade root flags m m') (h' : LinksMade root flags m' m'') :
    LinksMade root flags m m'' := by
  refine ⟨fun path entry hlink => h'.kept _ _ (h.kept _ _ hlink), fun path entry hlink => ?_⟩
  rcases h'.fresh _ _ hlink with hold | hmade
  · exact h.fresh _ _ hold
  · exact Or.inr hmade

theorem linksMade_attach (h : WellFormed m root) (hsupply : m.supply = page :: rest)
    (hpath : TableAt m root path table) (hdepth : path.length < 3)
    (hold : (kind path.length (m.tables table i)).page = none)
    {entries : TableIndex → Word} {newFlags : Word}
    (hnew : ∀ j, (kind (path.length + 1) (entries j)).page = none)
    (huser : isSet flags vmmUser = true → isSet newFlags vmmUser = true) :
    LinksMade root flags m
      ⟨RadixTree.attach m.tables table i page entries (splitLink page newFlags), rest⟩ := by
  have hfresh : Fresh kind m.tables root page := h.fresh page (hsupply ▸ List.mem_cons_self)
  have hlink := kind_splitLink page newFlags hdepth
  constructor
  · intro along entry hentry
    cases along with
    | nil => exact absurd hentry not_linkAt_nil
    | cons j along =>
        obtain ⟨other, hother, rfl, hpage⟩ := linkAt_iff.mp hentry
        have hsame : RadixTree.attach m.tables table i page entries (splitLink page newFlags)
            other j = m.tables other j := by
          refine attach_of_ne ?_ ?_
          · rintro rfl
            exact hfresh _ hother
          · rintro ⟨rfl, rfl⟩
            cases h.tree _ _ _ hother hpath
            exact hpage hold
        exact linkAt_iff.mpr
          ⟨other, tableAt_attach_of_some kind hpath hfresh hold h.tree hother, hsame, hpage⟩
  · intro along entry hentry
    cases along with
    | nil => exact absurd hentry not_linkAt_nil
    | cons j along =>
        obtain ⟨other, hother, rfl, hpage⟩ := linkAt_iff.mp hentry
        have hne : page ≠ table := by
          rintro rfl
          exact hfresh _ hpath
        rcases tableAt_of_attach kind h.tree hpath hfresh hlink hnew hother with hwas | ⟨rfl, rfl⟩
        · by_cases hentry : other = table ∧ j = i
          · obtain ⟨rfl, rfl⟩ := hentry
            exact Or.inr ⟨page, newFlags, attach_self, huser⟩
          · have hsame : RadixTree.attach m.tables table i page entries (splitLink page newFlags)
                other j = m.tables other j := by
              refine attach_of_ne ?_ hentry
              rintro rfl
              exact hfresh _ hwas
            exact Or.inl (linkAt_iff.mpr ⟨other, hwas, hsame.symm, hpage⟩)
        · dsimp only at hpage
          rw [attach_fresh hne, List.length_cons] at hpage
          exact absurd (hnew j) hpage

theorem linksMade_write (h : WellFormed m root) (hpath : TableAt m root path table)
    (hdepth : path.length = 3) (entry : Word) :
    LinksMade root flags m { m with tables := write m.tables table i entry } := by
  have hleaf : ∀ e, (kind path.length e).page = none :=
    fun e => page_of_leaf (Or.inl (Nat.le_of_eq hdepth.symm))
  have hsame : ∀ {along : List TableIndex} {other : PhysPage} {j : TableIndex} {e : Word},
      TableAt m root along other → (kind along.length e).page ≠ none →
        write m.tables table i entry other j = m.tables other j := by
    intro along other j e hother hpage
    refine write_of_ne _ _ ?_
    rintro ⟨rfl, rfl⟩
    cases h.tree _ _ _ hother hpath
    exact hpage (hleaf e)
  constructor
  · intro along e hlink
    cases along with
    | nil => exact absurd hlink not_linkAt_nil
    | cons j along =>
        obtain ⟨other, hother, rfl, hpage⟩ := linkAt_iff.mp hlink
        exact linkAt_iff.mpr ⟨other,
          tableAt_write_of_some kind (hleaf _) h.tree hpath hother, hsame hother hpage, hpage⟩
  · intro along e hlink
    cases along with
    | nil => exact absurd hlink not_linkAt_nil
    | cons j along =>
        obtain ⟨other, hother, rfl, hpage⟩ := linkAt_iff.mp hlink
        have hbefore := tableAt_of_write kind (hleaf _) h.tree hpath hother
        exact Or.inl (linkAt_iff.mpr ⟨other, hbefore, (hsame hbefore hpage).symm, hpage⟩)

theorem LinkStep.linksMade (h : LinkStep root virt flags m m') : LinksMade root flags m m' := by
  cases h with
  | attach table page path i rest entries newFlags hwf hsupply hparent hdepth hold hnew huser _ =>
      exact linksMade_attach hwf hsupply hparent hdepth hold hnew huser

variable (m root virt phys flags) in
theorem linksMade_vmmMap (h : WellFormed m root) :
    LinksMade root flags m (vmmMap m root virt phys flags).2 := by
  obtain ⟨mid, hrun, hresult⟩ := vmmMap_run m root virt phys flags h
  have hmid : LinksMade root flags m mid := by
    clear hresult
    induction hrun with
    | refl => exact LinksMade.refl m
    | tail _ hstep ih => exact ih.trans hstep.linksMade
  rcases hresult with hfalse | ⟨pt, hwf, hpt, htrue⟩
  · rw [hfalse]
    exact hmid
  · rw [htrue]
    exact hmid.trans (linksMade_write hwf hpt (length_pathOf _ _) _)

end Links

/-! ## The frames that a mapping needs -/

section Supply

variable {m : PageTables} {root table pd pdpt : PhysPage} {i : TableIndex}
  {virt phys flags : Word} {count : ℕ}

theorem getNextLevel_of_frames (h : count + 1 ≤ m.supply.length) :
    ∃ child m', getNextLevel m table i true = (some child, m') ∧ count ≤ m'.supply.length := by
  unfold getNextLevel
  by_cases hpresent : isSet (m.tables table i) vmmPresent = true
  · exact ⟨_, m, by rw [if_pos hpresent], Nat.le_of_succ_le h⟩
  · rw [if_neg hpresent, if_neg (by decide)]
    cases hsupply : m.supply with
    | nil =>
        rw [hsupply] at h
        exact absurd h (Nat.not_succ_le_zero count)
    | cons page rest =>
        rw [hsupply, List.length_cons] at h
        exact ⟨page, _, rfl, Nat.le_of_succ_le_succ h⟩

/-- After the split of a page its entry names the new table, and no other frame is needed. -/
theorem splitHuge_of_frames {entries : Word → TableIndex → Word}
    (h : count + 1 ≤ m.supply.length) :
    ∃ child m', splitHuge m table i flags entries = (true, m') ∧
      getNextLevel m' table i true = (some child, m') ∧ count ≤ m'.supply.length := by
  unfold splitHuge
  cases hsupply : m.supply with
  | nil =>
      rw [hsupply] at h
      exact absurd h (Nat.not_succ_le_zero count)
  | cons page rest =>
      rw [hsupply, List.length_cons] at h
      have hset : isSet (attach m.tables table i page (entries (m.tables table i))
          (splitLink page flags) table i) vmmPresent = true := by
        rw [attach_self, isSet_present, getLsbD_splitLink]
        simp
      have hnext : ∀ m' : PageTables, isSet (m'.tables table i) vmmPresent = true →
          getNextLevel m' table i true = (some (target (m'.tables table i)), m') := by
        intro m' hset
        unfold getNextLevel
        exact if_pos hset
      exact ⟨_, _, rfl, hnext _ hset, Nat.le_of_succ_le_succ h⟩

theorem mapInPd_of_frames (h : count + 1 ≤ m.supply.length) :
    ∃ m', mapInPd virt phys flags m pd = (true, m') ∧ count ≤ m'.supply.length := by
  unfold mapInPd
  by_cases hhuge : isSet (m.tables pd (pdIndex virt)) vmmHuge = true
  · obtain ⟨child, m', hsplit, hnext, hcount⟩ := splitHuge_of_frames h
    rw [if_pos hhuge, splitHuge2m, hsplit]
    dsimp only
    rw [hnext]
    exact ⟨_, rfl, hcount⟩
  · obtain ⟨child, m', hnext, hcount⟩ := getNextLevel_of_frames h
    rw [if_neg hhuge]
    dsimp only
    rw [hnext]
    exact ⟨_, rfl, hcount⟩

theorem mapInPdpt_of_frames (h : count + 2 ≤ m.supply.length) :
    ∃ m', mapInPdpt virt phys flags m pdpt = (true, m') ∧ count ≤ m'.supply.length := by
  unfold mapInPdpt
  by_cases hhuge : isSet (m.tables pdpt (pdptIndex virt)) vmmHuge = true
  · obtain ⟨child, m', hsplit, hnext, hcount⟩ := splitHuge_of_frames h
    rw [if_pos hhuge, splitHuge1g, hsplit]
    dsimp only
    rw [hnext]
    exact mapInPd_of_frames hcount
  · obtain ⟨child, m', hnext, hcount⟩ := getNextLevel_of_frames h
    rw [if_neg hhuge]
    dsimp only
    rw [hnext]
    exact mapInPd_of_frames hcount

variable (m root virt phys flags count) in
theorem vmmMap_of_frames (h : count + 3 ≤ m.supply.length) :
    ∃ m', vmmMap m root virt phys flags = (true, m') ∧ count ≤ m'.supply.length := by
  obtain ⟨child, m', hnext, hcount⟩ := getNextLevel_of_frames h
  unfold vmmMap
  rw [hnext]
  exact mapInPdpt_of_frames hcount

end Supply

end EigenOS.Paging
