import Mathlib.Logic.Relation
import EigenOS.Paging.Entries

/-!
# The frame of a mapping

Mapping a page changes the translation of that page and of no other.  The tables stay a
tree; a huge page that is split translates as before.
-/

namespace EigenOS.Paging

open EigenOS.RadixTree

/-- No table is reached along two paths, and the frames to be allocated are no tables. -/
structure WellFormed (m : PageTables) (root : PhysPage) : Prop where
  tree : IsTree kind m.tables root
  distinct : m.supply.Nodup
  fresh : ∀ page ∈ m.supply, Fresh kind m.tables root page

theorem WellFormed.of_sameKinds {m m' : PageTables} {root : PhysPage} (h : WellFormed m root)
    (hkinds : SameKinds kind m.tables m'.tables root) (hdistinct : m'.supply.Nodup)
    (hsub : m'.supply ⊆ m.supply) : WellFormed m' root where
  tree := hkinds.isTree h.tree
  distinct := hdistinct
  fresh := by
    intro page hpage path hpath
    rw [hkinds.tableAt_eq] at hpath
    exact h.fresh page (hsub hpage) path hpath

/-- The path of a table of the address space. -/
def TableAt (m : PageTables) (root : PhysPage) (path : List TableIndex) (table : PhysPage) :
    Prop :=
  tableAt kind m.tables root path = some table

/-- What a step before the last does: the tables that were there are still there. -/
structure Extends (root : PhysPage) (m m' : PageTables) : Prop where
  wellFormed : WellFormed m' root
  tables : ∀ path table, TableAt m root path table → TableAt m' root path table

theorem WellFormed.extends_self {m : PageTables} {root : PhysPage} (h : WellFormed m root) :
    Extends root m m :=
  ⟨h, fun _ _ htable => htable⟩

section Attach

variable {m : PageTables} {root table page : PhysPage} {path : List TableIndex}
  {i : TableIndex} {rest : List PhysPage} {entries : TableIndex → Word} {newFlags : Word}

variable (newFlags) in
/-- A frame of the supply is linked in the place of an entry that names no table. -/
theorem WellFormed.attach (h : WellFormed m root) (hsupply : m.supply = page :: rest)
    (hpath : TableAt m root path table) (hdepth : path.length < 3)
    (hold : (kind path.length (m.tables table i)).page = none)
    (hnew : ∀ j, (kind (path.length + 1) (entries j)).page = none) :
    Extends root m ⟨RadixTree.attach m.tables table i page entries (splitLink page newFlags), rest⟩ ∧
      TableAt ⟨RadixTree.attach m.tables table i page entries (splitLink page newFlags), rest⟩ root
        (i :: path) page := by
  have hfresh : Fresh kind m.tables root page :=
    h.fresh page (hsupply ▸ List.mem_cons_self)
  have hlink := kind_splitLink page newFlags hdepth
  have hnodup := hsupply ▸ h.distinct
  obtain ⟨hnotMem, hrest⟩ := List.nodup_cons.mp hnodup
  refine ⟨⟨⟨?_, hrest, ?_⟩, ?_⟩, ?_⟩
  · exact isTree_attach kind h.tree hpath hfresh hlink hnew
  · intro other hother
    refine fresh_attach kind h.tree hpath hfresh hlink hnew ?_ ?_
    · exact h.fresh other (hsupply ▸ List.mem_cons_of_mem _ hother)
    · rintro rfl
      exact hnotMem hother
  · exact fun along other halong => tableAt_attach_of_some kind hpath hfresh hold h.tree halong
  · exact tableAt_attach_self kind hpath hfresh hold hlink h.tree

theorem translation_attach_off (h : WellFormed m root) (hsupply : m.supply = page :: rest)
    (hpath : TableAt m root path table) {virt link : Word}
    (hoff : pathOf (indices virt) (path.length + 1) ≠ i :: path) :
    translation ⟨RadixTree.attach m.tables table i page entries link, rest⟩ root virt =
      translation m root virt :=
  walk_attach_off kind h.tree hpath (h.fresh page (hsupply ▸ List.mem_cons_self)) hoff 4

variable (newFlags) in
theorem translation_attach_on (h : WellFormed m root) (hsupply : m.supply = page :: rest)
    (hpath : TableAt m root path table) (hdepth : path.length < 3)
    (hold : (kind path.length (m.tables table i)).page = none)
    (hnew : ∀ j, (kind (path.length + 1) (entries j)).page = none) {virt : Word}
    (hon : pathOf (indices virt) (path.length + 1) = i :: path) :
    ∃ before : List Word, before.length = path.length ∧
      translation m root virt =
        (if (kind path.length (m.tables table i)).isLeaf
          then some (before ++ [m.tables table i]) else none) ∧
      translation ⟨RadixTree.attach m.tables table i page entries (splitLink page newFlags), rest⟩
          root virt =
        (if (kind (path.length + 1) (entries (indices virt (path.length + 1)))).isLeaf
          then some (before ++
            [splitLink page newFlags, entries (indices virt (path.length + 1))]) else none) := by
  have hfresh : Fresh kind m.tables root page :=
    h.fresh page (hsupply ▸ List.mem_cons_self)
  obtain ⟨before, hlength, hwalk⟩ := walk_attach_on kind h.tree hpath hfresh hon hold
    (kind_splitLink page newFlags hdepth) hnew
  have hfuel : 2 - path.length + 2 + path.length = 4 := by omega
  have h4 := hwalk (2 - path.length)
  rw [hfuel] at h4
  exact ⟨before, hlength, h4⟩

end Attach

/-! ## Steps of a mapping -/

section Steps

variable {m m' : PageTables} {root table child : PhysPage} {path : List TableIndex}
  {i : TableIndex} {newFlags : Word}

theorem getNextLevel_spec (h : WellFormed m root) (hpath : TableAt m root path table)
    (hdepth : path.length < 3)
    (hhuge : path.length = 0 ∨ isSet (m.tables table i) vmmHuge = false)
    (hnext : getNextLevel m table i true = (some child, m')) :
    Extends root m m' ∧ TableAt m' root (i :: path) child ∧
      ∀ virt, translation m' root virt = translation m root virt := by
  unfold getNextLevel at hnext
  cases hpresent : isSet (m.tables table i) vmmPresent with
  | true =>
      rw [hpresent, if_pos rfl] at hnext
      cases hnext
      refine ⟨h.extends_self, tableAt_cons kind hpath ?_, fun _ => rfl⟩
      rw [kind_of_table hpresent hdepth hhuge]
      rfl
  | false =>
      rw [hpresent, if_neg Bool.false_ne_true, if_neg (by decide)] at hnext
      cases hsupply : m.supply with
      | nil =>
          rw [hsupply] at hnext
          cases hnext
      | cons page rest =>
          rw [hsupply] at hnext
          dsimp only at hnext
          rw [nextLevel_link] at hnext
          cases hnext
          have hempty : isSet 0#64 vmmPresent = false := by decide
          have hold : kind path.length (m.tables table i) = .absent := kind_of_absent hpresent
          have hnew : kind (path.length + 1) 0#64 = .absent := kind_of_absent hempty
          have holdPage : (kind path.length (m.tables table i)).page = none := by
            rw [hold]
            rfl
          have hnewPage : ∀ j : TableIndex,
              (kind (path.length + 1) ((fun _ => 0#64) j)).page = none := by
            intro j
            dsimp only
            rw [hnew]
            rfl
          obtain ⟨hextends, hchild⟩ :=
            h.attach vmmUser hsupply hpath hdepth holdPage hnewPage
          refine ⟨hextends, hchild, fun virt => ?_⟩
          by_cases hon : pathOf (indices virt) (path.length + 1) = i :: path
          · obtain ⟨before, _, hbefore, hafter⟩ := translation_attach_on vmmUser
              h hsupply hpath hdepth holdPage hnewPage hon
            rw [hbefore, hafter, hold, hnew]
            rfl
          · exact translation_attach_off h hsupply hpath hon

/-- The old entry ended the translation of an address, and now an entry made from it does. -/
def SplitAt (depth : ℕ) (entries : Word → TableIndex → Word) (newFlags virt old : Word)
    (before after : Option (List Word)) : Prop :=
  isSet old vmmPresent = true ∧ ∃ (upper : List Word) (page : PhysPage), upper.length = depth ∧
    before = some (upper ++ [old]) ∧
      after = some (upper ++ [splitLink page newFlags, entries old (indices virt (depth + 1))])

variable {entries : Word → TableIndex → Word}

theorem splitHuge_spec {depth : ℕ} (hlength : path.length = depth) (h : WellFormed m root)
    (hpath : TableAt m root path table) (hdepth : depth < 3) (hpos : 0 < depth)
    (hhuge : isSet (m.tables table i) vmmHuge = true)
    (hend : ∀ old j, 3 ≤ depth + 1 ∨ 0 < depth + 1 ∧ isSet (entries old j) vmmHuge = true)
    (hpresent : ∀ old j, isSet (entries old j) vmmPresent = isSet old vmmPresent)
    (hsplit : splitHuge m table i newFlags entries = (true, m')) :
    Extends root m m' ∧ isSet (m'.tables table i) vmmHuge = false ∧
      ∀ virt,
        (pathOf (indices virt) (depth + 1) = i :: path ∧
            SplitAt depth entries newFlags virt (m.tables table i)
              (translation m root virt) (translation m' root virt)) ∨
          ((pathOf (indices virt) (depth + 1) ≠ i :: path ∨
              isSet (m.tables table i) vmmPresent = false) ∧
            translation m' root virt = translation m root virt) := by
  subst hlength
  have hpage : ∀ old j, (kind (path.length + 1) (entries old j)).page = none :=
    fun old j => page_of_leaf (hend old j)
  have hleaf : ∀ old j, (kind (path.length + 1) (entries old j)).isLeaf = isSet old vmmPresent :=
    fun old j => (isLeaf_of_leaf (hend old j)).trans (hpresent old j)
  unfold splitHuge at hsplit
  cases hsupply : m.supply with
  | nil =>
      rw [hsupply] at hsplit
      cases hsplit
  | cons page rest =>
      rw [hsupply] at hsplit
      cases hsplit
      have hwas : 3 ≤ path.length ∨ 0 < path.length ∧ isSet (m.tables table i) vmmHuge = true :=
        Or.inr ⟨hpos, hhuge⟩
      have hold := page_of_leaf hwas
      obtain ⟨hextends, _⟩ :=
        h.attach newFlags hsupply hpath hdepth hold (hpage (m.tables table i))
      refine ⟨hextends, ?_, fun virt => ?_⟩
      · dsimp only
        rw [attach_self, isSet_huge, getLsbD_splitLink, getLsbD_addr page (by omega)]
        simp
      · by_cases hon : pathOf (indices virt) (path.length + 1) = i :: path
        · obtain ⟨upper, hlength, hbefore, hafter⟩ := translation_attach_on
            newFlags h hsupply hpath hdepth hold (hpage (m.tables table i)) hon
          rw [isLeaf_of_leaf hwas] at hbefore
          rw [hleaf] at hafter
          cases hset : isSet (m.tables table i) vmmPresent with
          | true =>
              rw [hset, if_pos rfl] at hbefore hafter
              exact Or.inl ⟨hon, hset, upper, page, hlength, hbefore, hafter⟩
          | false =>
              rw [hset, if_neg Bool.false_ne_true] at hbefore hafter
              exact Or.inr ⟨Or.inr rfl, hafter.trans hbefore.symm⟩
        · exact Or.inr ⟨Or.inl hon, translation_attach_off h hsupply hpath hon⟩

variable (m root table i) in
theorem write_spec (h : WellFormed m root) (hpath : TableAt m root path table)
    (hdepth : path.length = 3) {entry : Word} (hpresent : isSet entry vmmPresent = true) :
    WellFormed ⟨write m.tables table i entry, m.supply⟩ root ∧
      ∀ virt, (pathOf (indices virt) 4 = i :: path ∧ ∃ upper : List Word, upper.length = 3 ∧
          translation ⟨write m.tables table i entry, m.supply⟩ root virt =
            some (upper ++ [entry])) ∨
        (pathOf (indices virt) 4 ≠ i :: path ∧
          translation ⟨write m.tables table i entry, m.supply⟩ root virt =
            translation m root virt) := by
  have hend : 3 ≤ path.length ∨ 0 < path.length ∧ isSet entry vmmHuge = true :=
    Or.inl (Nat.le_of_eq hdepth.symm)
  have hpage := page_of_leaf hend
  have hleaf := (isLeaf_of_leaf hend).trans hpresent
  refine ⟨⟨?_, h.distinct, ?_⟩, fun virt => ?_⟩
  · exact isTree_write kind hpage h.tree hpath
  · exact fun page hmem along halong =>
      h.fresh page hmem along (tableAt_of_write kind hpage h.tree hpath halong)
  · by_cases hon : pathOf (indices virt) 4 = i :: path
    · have hon' : pathOf (indices virt) (path.length + 1) = i :: path := by rwa [hdepth]
      obtain ⟨upper, hlength, hwalk⟩ := walk_write_on kind h.tree hpath hon' hleaf
      have hfour := hwalk 0
      rw [hdepth] at hfour hlength
      exact Or.inl ⟨hon, upper, hlength, hfour⟩
    · have hoff : pathOf (indices virt) (path.length + 1) ≠ i :: path := by rwa [hdepth]
      exact Or.inr ⟨hon, walk_write_off kind h.tree hpath hoff 4⟩

end Steps

/-! ## A whole mapping -/

/-- The entries of a translation before and after its page is split. -/
inductive SplitOf (newFlags virt : Word) : List Word → List Word → Prop where
  | pdpt (pml4e pdpte : Word) (page : PhysPage) :
      SplitOf newFlags virt [pml4e, pdpte]
        [pml4e, splitLink page newFlags, entries1g pdpte (pdIndex virt)]
  | pd (pml4e pdpte pde : Word) (page : PhysPage) :
      SplitOf newFlags virt [pml4e, pdpte, pde]
        [pml4e, pdpte, splitLink page newFlags, entries2m pde (ptIndex virt)]

/-- A step of `vmm_map` before the last one.  What is split is the page that the address to be
mapped is on. -/
structure Stage (root : PhysPage) (mapped newFlags : Word) (m m' : PageTables) : Prop where
  translation : ∀ virt, translation m' root virt = translation m root virt ∨
    ∃ before after, translation m root virt = some before ∧
      translation m' root virt = some after ∧ SplitOf newFlags virt before after ∧
        translation m root mapped = some before
  supply : m.supply = [] → m' = m

theorem SplitAt.splitOf_1g {newFlags virt old : Word} {before after : Option (List Word)}
    (h : SplitAt 1 entries1g newFlags virt old before after) :
    ∃ t t', before = some t ∧ after = some t' ∧ t.length = 2 ∧ SplitOf newFlags virt t t' := by
  obtain ⟨_, upper, page, hlength, hbefore, hafter⟩ := h
  obtain ⟨pml4e, rfl⟩ := List.length_eq_one_iff.mp hlength
  exact ⟨_, _, hbefore, hafter, rfl, SplitOf.pdpt pml4e old page⟩

theorem SplitAt.splitOf_2m {newFlags virt old : Word} {before after : Option (List Word)}
    (h : SplitAt 2 entries2m newFlags virt old before after) :
    ∃ t t', before = some t ∧ after = some t' ∧ t.length = 3 ∧ SplitOf newFlags virt t t' := by
  obtain ⟨_, upper, page, hlength, hbefore, hafter⟩ := h
  obtain ⟨pml4e, pdpte, rfl⟩ := List.length_eq_two.mp hlength
  exact ⟨_, _, hbefore, hafter, rfl, SplitOf.pd pml4e pdpte old page⟩

theorem translation_of_path {m : PageTables} {root : PhysPage} {virt other : Word}
    {entries : List Word} {depth : ℕ}
    (hpath : pathOf (indices other) depth = pathOf (indices virt) depth)
    (h : translation m root virt = some entries) (hlength : entries.length ≤ depth) :
    translation m root other = some entries := by
  have hindices : ∀ n, n < depth → indices other n = indices virt n := by
    clear hlength h
    induction depth with
    | zero => exact fun n hn => absurd hn (Nat.not_lt_zero n)
    | succ depth ih =>
        obtain ⟨hhead, htail⟩ := List.cons.inj hpath
        intro n hn
        rcases Nat.lt_succ_iff_lt_or_eq.mp hn with hlt | rfl
        · exact ih htail n hlt
        · exact hhead
  exact walk_of_steps kind h fun n _ hn => hindices n (by omega)

section Mapping

variable {m m' : PageTables} {root : PhysPage} {virt phys flags : Word}

/-- The outcome of the splits of a mapping, and of the write at its end. -/
structure Mapped (root : PhysPage) (virt flags : Word) (m m' : PageTables) : Prop where
  wellFormed : WellFormed m' root
  stages : ∃ mid, Relation.ReflTransGen (Stage root virt flags) m mid ∧
    ∀ other, pathOf (indices other) 4 ≠ pathOf (indices virt) 4 →
      translation m' root other = translation mid root other

theorem WellFormed.mapped (h : WellFormed m root) : Mapped root virt flags m m :=
  ⟨h, m, .refl, fun _ _ => rfl⟩

theorem Mapped.stage {mid : PageTables} (hstage : Stage root virt flags m mid)
    (h : Mapped root virt flags mid m') : Mapped root virt flags m m' := by
  obtain ⟨last, hstages, hlast⟩ := h.stages
  exact ⟨h.wellFormed, last, .head hstage hstages, hlast⟩

theorem getNextLevel_stage {table child : PhysPage} {i : TableIndex}
    (hsame : ∀ other, translation m' root other = translation m root other)
    (hnext : getNextLevel m table i true = (some child, m')) : Stage root virt flags m m' := by
  refine ⟨fun other => Or.inl (hsame other), fun hsupply => ?_⟩
  unfold getNextLevel at hnext
  cases hpresent : isSet (m.tables table i) vmmPresent with
  | true =>
      rw [hpresent, if_pos rfl] at hnext
      exact (Prod.mk.inj hnext).2.symm
  | false =>
      rw [hpresent, if_neg Bool.false_ne_true, if_neg (by decide), hsupply] at hnext
      cases hnext

theorem splitHuge_stage {depth : ℕ} {entries : Word → TableIndex → Word} {table : PhysPage}
    (h : WellFormed m root) (hpath : TableAt m root (pathOf (indices virt) depth) table)
    (hdepth : depth < 3) (hpos : 0 < depth)
    (hhuge : isSet (m.tables table (indices virt depth)) vmmHuge = true)
    (hend : ∀ old j, 3 ≤ depth + 1 ∨ 0 < depth + 1 ∧ isSet (entries old j) vmmHuge = true)
    (hpresent : ∀ old j, isSet (entries old j) vmmPresent = isSet old vmmPresent)
    (hof : ∀ other old before after, SplitAt depth entries flags other old before after →
      ∃ t t', before = some t ∧ after = some t' ∧ t.length = depth + 1 ∧
        SplitOf flags other t t')
    (hsplit : splitHuge m table (indices virt depth) flags entries = (true, m')) :
    Extends root m m' ∧ isSet (m'.tables table (indices virt depth)) vmmHuge = false ∧
      Stage root virt flags m m' ∧ ∀ other t,
        pathOf (indices other) (depth + 1) = pathOf (indices virt) (depth + 1) →
        isSet (m.tables table (indices virt depth)) vmmPresent = true →
        translation m root other = some t →
        ∃ t', translation m' root other = some t' ∧ SplitOf flags other t t' := by
  obtain ⟨hextends, hclear, hsplits⟩ := splitHuge_spec (length_pathOf _ _) h hpath hdepth hpos
    hhuge hend hpresent hsplit
  refine ⟨hextends, hclear, ⟨fun other => ?_, fun hsupply => ?_⟩, fun other t hon hset ht => ?_⟩
  · rcases hsplits other with ⟨hon, hsplitAt⟩ | ⟨_, hsame⟩
    · obtain ⟨t, t', hbefore, hafter, hlength, hsplitOf⟩ := hof _ _ _ _ hsplitAt
      have hvirt : pathOf (indices virt) (depth + 1) = pathOf (indices other) (depth + 1) :=
        hon.symm
      exact Or.inr ⟨t, t', hbefore, hafter, hsplitOf,
        translation_of_path hvirt hbefore (Nat.le_of_eq hlength)⟩
    · exact Or.inl hsame
  · unfold splitHuge at hsplit
    rw [hsupply] at hsplit
    cases hsplit
  · rcases hsplits other with ⟨_, hsplitAt⟩ | ⟨hoff | hclear, _⟩
    · obtain ⟨t₀, t', hbefore, hafter, _, hsplitOf⟩ := hof _ _ _ _ hsplitAt
      cases hbefore.symm.trans ht
      exact ⟨t', hafter, hsplitOf⟩
    · exact absurd hon hoff
    · rw [hclear] at hset
      cases hset

theorem indices_one (virt : Word) : indices virt 1 = pdptIndex virt := rfl

theorem indices_two (virt : Word) : indices virt 2 = pdIndex virt := rfl

theorem splitHuge1g_stage (h : WellFormed m root) {pdpt : PhysPage}
    (hpath : TableAt m root (pathOf (indices virt) 1) pdpt)
    (hhuge : isSet (m.tables pdpt (pdptIndex virt)) vmmHuge = true)
    (hsplit : splitHuge1g m pdpt (pdptIndex virt) flags = (true, m')) :
    Extends root m m' ∧ isSet (m'.tables pdpt (pdptIndex virt)) vmmHuge = false ∧
      Stage root virt flags m m' ∧ ∀ other t,
        pathOf (indices other) (1 + 1) = pathOf (indices virt) (1 + 1) →
        isSet (m.tables pdpt (pdptIndex virt)) vmmPresent = true → translation m root other = some t →
        ∃ t', translation m' root other = some t' ∧ SplitOf flags other t t' := by
  have hend : ∀ old j, 3 ≤ 1 + 1 ∨ 0 < 1 + 1 ∧ isSet (entries1g old j) vmmHuge = true :=
    fun old j => Or.inr ⟨by decide, huge_entries1g old j⟩
  rw [← indices_one] at hhuge hsplit ⊢
  exact splitHuge_stage h hpath (by decide) (by decide) hhuge hend present_entries1g
    (fun _ _ _ _ hat => hat.splitOf_1g) hsplit

theorem splitHuge2m_stage (h : WellFormed m root) {pd : PhysPage}
    (hpath : TableAt m root (pathOf (indices virt) 2) pd)
    (hhuge : isSet (m.tables pd (pdIndex virt)) vmmHuge = true)
    (hsplit : splitHuge2m m pd (pdIndex virt) flags = (true, m')) :
    Extends root m m' ∧ isSet (m'.tables pd (pdIndex virt)) vmmHuge = false ∧
      Stage root virt flags m m' ∧ ∀ other t,
        pathOf (indices other) (2 + 1) = pathOf (indices virt) (2 + 1) →
        isSet (m.tables pd (pdIndex virt)) vmmPresent = true → translation m root other = some t →
        ∃ t', translation m' root other = some t' ∧ SplitOf flags other t t' := by
  have hend : ∀ old j, 3 ≤ 2 + 1 ∨ 0 < 2 + 1 ∧ isSet (entries2m old j) vmmHuge = true :=
    fun _ _ => Or.inl (by decide)
  rw [← indices_two] at hhuge hsplit ⊢
  exact splitHuge_stage h hpath (by decide) (by decide) hhuge hend present_entries2m
    (fun _ _ _ _ hat => hat.splitOf_2m) hsplit

/-- The entry for the page itself. -/
def leafEntry (phys flags : Word) : Word := (phys &&& addrMask) ||| flags ||| vmmPresent

theorem present_leafEntry (phys flags : Word) :
    isSet (leafEntry phys flags) vmmPresent = true := by
  have hpresent := getLsbD_flag 0 0
  unfold leafEntry
  rw [isSet_present, BitVec.getLsbD_or]
  refine (congrArg (_ || ·) hpresent).trans ?_
  exact Bool.or_true _

/-- What `vmm_map` leaves when it succeeds. -/
def MapsPage (root : PhysPage) (virt phys flags : Word) (m' : PageTables) : Prop :=
  ∀ other, pathOf (indices other) 4 = pathOf (indices virt) 4 →
    ∃ upper : List Word, upper.length = 3 ∧
      translation m' root other = some (upper ++ [leafEntry phys flags])

theorem getNextLevel_none {table : PhysPage} {i : TableIndex} {allocate : Bool}
    (h : getNextLevel m table i allocate = (none, m')) : m' = m := by
  unfold getNextLevel at h
  cases hpresent : isSet (m.tables table i) vmmPresent with
  | true =>
      rw [hpresent, if_pos rfl] at h
      cases h
  | false =>
      rw [hpresent, if_neg Bool.false_ne_true] at h
      cases allocate with
      | false =>
          rw [if_pos rfl] at h
          exact (Prod.mk.inj h).2.symm
      | true =>
          rw [if_neg (by decide)] at h
          cases hsupply : m.supply with
          | nil =>
              rw [hsupply] at h
              exact (Prod.mk.inj h).2.symm
          | cons page rest =>
              rw [hsupply] at h
              cases h

theorem splitHuge_false {table : PhysPage} {i : TableIndex} {entries : Word → TableIndex → Word}
    (h : splitHuge m table i flags entries = (false, m')) : m' = m := by
  unfold splitHuge at h
  cases hsupply : m.supply with
  | nil =>
      rw [hsupply] at h
      exact (Prod.mk.inj h).2.symm
  | cons page rest =>
      rw [hsupply] at h
      cases h

/-- A mapping, whether it succeeds or not. -/
def MapResult (root : PhysPage) (virt phys flags : Word) (m : PageTables)
    (result : Bool × PageTables) : Prop :=
  Mapped root virt flags m result.2 ∧
    (result.1 = true → MapsPage root virt phys flags result.2)

theorem WellFormed.mapResult_false (h : WellFormed m root) :
    MapResult root virt phys flags m (false, m) :=
  ⟨h.mapped, fun hfalse => absurd hfalse Bool.false_ne_true⟩

theorem MapResult.stage {mid : PageTables} {result : Bool × PageTables}
    (hstage : Stage root virt flags m mid) (h : MapResult root virt phys flags mid result) :
    MapResult root virt phys flags m result :=
  ⟨h.1.stage hstage, h.2⟩

theorem mapInPt_spec (h : WellFormed m root) {pt : PhysPage}
    (hpath : TableAt m root (pathOf (indices virt) 3) pt) :
    MapResult root virt phys flags m
      (true, ⟨write m.tables pt (ptIndex virt) (leafEntry phys flags), m.supply⟩) := by
  have hpathOf : pathOf (indices virt) 4 = ptIndex virt :: pathOf (indices virt) 3 := rfl
  obtain ⟨hwellFormed, hwrite⟩ := write_spec m root pt (ptIndex virt) h hpath
    (length_pathOf _ _) (present_leafEntry phys flags)
  refine ⟨⟨hwellFormed, m, .refl, fun other hoff => ?_⟩, fun _ other hon => ?_⟩
  · rcases hwrite other with ⟨hsame, _⟩ | ⟨_, hkeep⟩
    · exact absurd (hsame.trans hpathOf.symm) hoff
    · exact hkeep
  · rcases hwrite other with ⟨_, hentry⟩ | ⟨hne, _⟩
    · exact hentry
    · exact absurd (hon.trans hpathOf) hne

/-- One level of `vmm_map`: a huge page is split, and the walk goes on in the table below. -/
def mapThrough (entries : Word → TableIndex → Word) (i : TableIndex) (flags : Word)
    (next : PageTables → PhysPage → Bool × PageTables) (m : PageTables) (table : PhysPage) :
    Bool × PageTables :=
  match if isSet (m.tables table i) vmmHuge
    then splitHuge m table i flags entries else (true, m) with
  | (false, m) => (false, m)
  | (true, m) =>
    match getNextLevel m table i true with
    | (none, m) => (false, m)
    | (some child, m) => next m child

/-- What holds of a level when it holds of its failures, of the rest after a split and of the
walk in the table below. -/
theorem mapThrough_cases {R : PageTables → Bool × PageTables → Prop} {path : List TableIndex}
    {table : PhysPage} {i : TableIndex} {entries : Word → TableIndex → Word}
    {next : PageTables → PhysPage → Bool × PageTables} (h : WellFormed m root)
    (hpath : TableAt m root path table) (hfails : ∀ m, WellFormed m root → R m (false, m))
    (hsplits : ∀ mid, isSet (m.tables table i) vmmHuge = true →
      splitHuge m table i flags entries = (true, mid) → Extends root m mid ∧
        isSet (mid.tables table i) vmmHuge = false ∧ ∀ result, R mid result → R m result)
    (hnext : ∀ m, WellFormed m root → TableAt m root path table →
      isSet (m.tables table i) vmmHuge = false → ∀ child mid,
        getNextLevel m table i true = (some child, mid) → R m (next mid child)) :
    R m (mapThrough entries i flags next m table) := by
  have hbelow : ∀ m, WellFormed m root → TableAt m root path table →
      isSet (m.tables table i) vmmHuge = false →
      R m (mapThrough entries i flags next m table) := by
    intro m h hpath hclear
    unfold mapThrough
    rw [hclear, if_neg Bool.false_ne_true]
    dsimp only
    cases hchild : getNextLevel m table i true with
    | mk child mid =>
        cases child with
        | none =>
            cases getNextLevel_none hchild
            exact hfails m h
        | some child => exact hnext m h hpath hclear child mid hchild
  cases hhuge : isSet (m.tables table i) vmmHuge with
  | false => exact hbelow m h hpath hhuge
  | true =>
      cases hsplit : splitHuge m table i flags entries with
      | mk done mid =>
          cases done with
          | false =>
              unfold mapThrough
              rw [hhuge, if_pos rfl, hsplit]
              cases splitHuge_false hsplit
              exact hfails m h
          | true =>
              obtain ⟨hextends, hclear, hafter⟩ := hsplits mid hhuge hsplit
              have hsame : mapThrough entries i flags next m table =
                  mapThrough entries i flags next mid table := by
                unfold mapThrough
                rw [hhuge, if_pos rfl, hsplit, hclear, if_neg Bool.false_ne_true]
              rw [hsame]
              exact hafter _ (hbelow mid hextends.wellFormed (hextends.tables _ _ hpath) hclear)

theorem mapInPd_of_split {pd : PhysPage} (hhuge : isSet (m.tables pd (pdIndex virt)) vmmHuge = true)
    (hsplit : splitHuge2m m pd (pdIndex virt) flags = (true, m'))
    (hclear : isSet (m'.tables pd (pdIndex virt)) vmmHuge = false) :
    mapInPd virt phys flags m pd = mapInPd virt phys flags m' pd := by
  unfold mapInPd
  rw [hhuge, if_pos rfl, hsplit, hclear, if_neg Bool.false_ne_true]

theorem mapInPdpt_of_split {pdpt : PhysPage}
    (hhuge : isSet (m.tables pdpt (pdptIndex virt)) vmmHuge = true)
    (hsplit : splitHuge1g m pdpt (pdptIndex virt) flags = (true, m'))
    (hclear : isSet (m'.tables pdpt (pdptIndex virt)) vmmHuge = false) :
    mapInPdpt virt phys flags m pdpt = mapInPdpt virt phys flags m' pdpt := by
  unfold mapInPdpt
  rw [hhuge, if_pos rfl, hsplit, hclear, if_neg Bool.false_ne_true]

theorem mapInPd_spec (h : WellFormed m root) {pd : PhysPage}
    (hpath : TableAt m root (pathOf (indices virt) 2) pd) :
    MapResult root virt phys flags m (mapInPd virt phys flags m pd) := by
  refine mapThrough_cases h hpath (fun _ h => h.mapResult_false) ?_ ?_
  · intro mid hhuge hsplit
    obtain ⟨hextends, hclear, hstage, _⟩ := splitHuge2m_stage h hpath hhuge hsplit
    exact ⟨hextends, hclear, fun _ hresult => hresult.stage hstage⟩
  · intro m h hpath hclear pt mid hnext
    obtain ⟨hextends, hpt, hsame⟩ := getNextLevel_spec h hpath
      (by rw [length_pathOf]; decide) (Or.inr hclear) hnext
    exact (mapInPt_spec hextends.wellFormed hpt).stage (getNextLevel_stage hsame hnext)

theorem mapInPdpt_spec (h : WellFormed m root) {pdpt : PhysPage}
    (hpath : TableAt m root (pathOf (indices virt) 1) pdpt) :
    MapResult root virt phys flags m (mapInPdpt virt phys flags m pdpt) := by
  refine mapThrough_cases h hpath (fun _ h => h.mapResult_false) ?_ ?_
  · intro mid hhuge hsplit
    obtain ⟨hextends, hclear, hstage, _⟩ := splitHuge1g_stage h hpath hhuge hsplit
    exact ⟨hextends, hclear, fun _ hresult => hresult.stage hstage⟩
  · intro m h hpath hclear pd mid hnext
    obtain ⟨hextends, hpd, hsame⟩ := getNextLevel_spec h hpath
      (by rw [length_pathOf]; decide) (Or.inr hclear) hnext
    exact (mapInPd_spec hextends.wellFormed hpd).stage (getNextLevel_stage hsame hnext)

variable (m root virt phys flags) in
theorem vmmMap_spec (h : WellFormed m root) :
    MapResult root virt phys flags m (vmmMap m root virt phys flags) := by
  have hroot : TableAt m root (pathOf (indices virt) 0) root := rfl
  unfold vmmMap
  cases hnext : getNextLevel m root (pml4Index virt) true with
  | mk next mid =>
      cases next with
      | none =>
          cases getNextLevel_none hnext
          exact h.mapResult_false
      | some pdpt =>
          obtain ⟨hextends, hpdpt, hsame⟩ := getNextLevel_spec h hroot
            (Nat.zero_lt_succ _) (Or.inl rfl) hnext
          exact (mapInPdpt_spec hextends.wellFormed hpdpt).stage (getNextLevel_stage hsame hnext)

end Mapping

/-! ## Pages of addresses -/

theorem canonical_iff (virt : Word) :
    Canonical virt ↔ ∀ i, 48 ≤ i → i < 64 → virt.getLsbD i = virt.getLsbD 47 := by
  have hbit : ∀ i, i < 64 → ((virt.setWidth 48).signExtend 64).getLsbD i =
      if i < 48 then virt.getLsbD i else virt.getLsbD 47 := by
    intro i hi
    rw [BitVec.getLsbD_signExtend, decide_eq_true hi, Bool.true_and, BitVec.msb_setWidth]
    by_cases hlow : i < 48
    · rw [if_pos hlow, if_pos hlow, BitVec.getLsbD_setWidth, decide_eq_true hlow, Bool.true_and]
    · rw [if_neg hlow, if_neg hlow]
      rfl
  constructor
  · intro h i hlow hhigh
    have hi := hbit i hhigh
    rwa [h, if_neg (by omega)] at hi
  · intro h
    apply BitVec.eq_of_getLsbD_eq
    intro i hi
    rw [hbit i hi]
    by_cases hlow : i < 48
    · rw [if_pos hlow]
    · rw [if_neg hlow, h i (by omega) hi]

theorem getLsbD_of_index_eq {virt other : Word} {shift i : ℕ}
    (h : index other shift = index virt shift) (hlow : shift ≤ i) (hhigh : i < shift + 9) :
    other.getLsbD i = virt.getLsbD i := by
  have hbit := congrArg (fun j : TableIndex => j.val.testBit (i - shift)) h
  have hshift : shift + (i - shift) = i := by omega
  rwa [testBit_index, testBit_index, decide_eq_true (by omega : i - shift < 9), Bool.true_and,
    Bool.true_and, hshift] at hbit

theorem index_eq_of_pageOf {virt other : Word} {shift : ℕ} (hshift : 12 ≤ shift)
    (h : pageOf other = pageOf virt) : index other shift = index virt shift := by
  apply Fin.ext
  apply Nat.eq_of_testBit_eq
  intro k
  have hbit := congrArg (fun x => BitVec.getLsbD x (shift + k - 12)) h
  have hsum : 12 + (shift + k - 12) = shift + k := by omega
  dsimp only [pageOf] at hbit
  rw [BitVec.getLsbD_ushiftRight, BitVec.getLsbD_ushiftRight, hsum] at hbit
  rw [testBit_index, testBit_index, hbit]

theorem path_eq_iff_pageOf {virt other : Word} (hvirt : Canonical virt) (hother : Canonical other) :
    pathOf (indices other) 4 = pathOf (indices virt) 4 ↔ pageOf other = pageOf virt := by
  have hpath : ∀ v, pathOf (indices v) 4 = [index v 12, index v 21, index v 30, index v 39] :=
    fun _ => rfl
  rw [hpath, hpath]
  constructor
  · intro h
    simp only [List.cons.injEq, and_true] at h
    obtain ⟨h12, h21, h30, h39⟩ := h
    have hlow : ∀ i, 12 ≤ i → i < 48 → other.getLsbD i = virt.getLsbD i := by
      intro i hi hhigh
      by_cases hi21 : i < 21
      · exact getLsbD_of_index_eq h12 hi hi21
      · by_cases hi30 : i < 30
        · exact getLsbD_of_index_eq h21 (by omega) hi30
        · by_cases hi39 : i < 39
          · exact getLsbD_of_index_eq h30 (by omega) hi39
          · exact getLsbD_of_index_eq h39 (by omega) hhigh
    apply BitVec.eq_of_getLsbD_eq
    intro i _
    unfold pageOf
    rw [BitVec.getLsbD_ushiftRight, BitVec.getLsbD_ushiftRight]
    by_cases hi : 12 + i < 48
    · exact hlow _ (by omega) hi
    · by_cases hin : 12 + i < 64
      · rw [(canonical_iff other).mp hother _ (by omega) hin,
          (canonical_iff virt).mp hvirt _ (by omega) hin]
        exact hlow 47 (by decide) (by decide)
      · rw [BitVec.getLsbD_of_ge _ _ (by omega), BitVec.getLsbD_of_ge _ _ (by omega)]
  · intro h
    rw [index_eq_of_pageOf (by decide) h, index_eq_of_pageOf (by decide) h,
      index_eq_of_pageOf (by decide) h, index_eq_of_pageOf (by decide) h]

/-! ## What an address translates to -/

theorem SplitOf.physOf_eq {newFlags virt : Word} {before after : List Word}
    (h : SplitOf newFlags virt before after) : physOf virt after = physOf virt before := by
  cases h with
  | pdpt pml4e pdpte page => exact phys_entries1g virt pml4e pdpte _
  | pd pml4e pdpte pde page => exact phys_entries2m virt pml4e pdpte pde _

theorem Stage.vmmGetPhys_eq {root : PhysPage} {mapped newFlags : Word} {m m' : PageTables}
    (h : Stage root mapped newFlags m m') (virt : Word) :
    vmmGetPhys m' root virt = vmmGetPhys m root virt := by
  rw [Paging.vmmGetPhys_eq, Paging.vmmGetPhys_eq]
  rcases h.translation virt with hsame | ⟨before, after, hbefore, hafter, hsplit, _⟩
  · rw [hsame]
  · rw [hbefore, hafter]
    exact hsplit.physOf_eq

theorem vmmGetPhys_of_stages {root : PhysPage} {mapped newFlags : Word} {m m' : PageTables}
    (h : Relation.ReflTransGen (Stage root mapped newFlags) m m') (virt : Word) :
    vmmGetPhys m' root virt = vmmGetPhys m root virt := by
  induction h with
  | refl => rfl
  | tail _ hstage ih => exact (hstage.vmmGetPhys_eq virt).trans ih

theorem Mapped.vmmGetPhys_eq {root : PhysPage} {virt flags : Word} {m m' : PageTables}
    (h : Mapped root virt flags m m') {other : Word}
    (hoff : pathOf (indices other) 4 ≠ pathOf (indices virt) 4) :
    vmmGetPhys m' root other = vmmGetPhys m root other := by
  obtain ⟨mid, hstages, hlast⟩ := h.stages
  rw [← vmmGetPhys_of_stages hstages other, Paging.vmmGetPhys_eq, Paging.vmmGetPhys_eq,
    hlast other hoff]

/-- Flags of a mapping: bits beside the address. -/
structure MapFlags where
  bits : Word
  noAddress : bits &&& addrMask = 0#64

theorem and_addrMask_leafEntry (page : PhysPage) (flags : MapFlags) :
    leafEntry page.addr flags.bits &&& addrMask = page.addr := by
  have hpresent : vmmPresent &&& addrMask = 0#64 := by decide
  unfold leafEntry
  rw [page.aligned, BitVec.and_or_distrib_right, BitVec.and_or_distrib_right, page.aligned,
    flags.noAddress, hpresent, BitVec.or_zero, BitVec.or_zero]

theorem MapsPage.vmmGetPhys_eq {root : PhysPage} {virt : Word} {page : PhysPage}
    {flags : MapFlags} {m' : PageTables} (h : MapsPage root virt page.addr flags.bits m')
    {other : Word} (hon : pathOf (indices other) 4 = pathOf (indices virt) 4) :
    vmmGetPhys m' root other = page.addr ||| (other &&& 0xFFF#64) := by
  obtain ⟨upper, hlength, htranslation⟩ := h other hon
  obtain ⟨pml4e, pdpte, pde, rfl⟩ := List.length_eq_three.mp hlength
  rw [Paging.vmmGetPhys_eq, htranslation]
  have hphys : physOf other ([pml4e, pdpte, pde] ++ [leafEntry page.addr flags.bits]) =
      (leafEntry page.addr flags.bits &&& addrMask) ||| (other &&& 0xFFF#64) := rfl
  exact hphys.trans (by rw [and_addrMask_leafEntry])

theorem addr_or_offset (page : PhysPage) (virt : Word) :
    page.addr ||| (virt &&& 0xFFF#64) = page.addr + (virt &&& 0xFFF#64) := by
  refine (BitVec.add_eq_or_of_and_eq_zero _ _ ?_).symm
  rw [← page.aligned]
  have hmask : addrMask &&& 0xFFF#64 = 0#64 := by decide
  rw [BitVec.and_comm virt, ← BitVec.and_assoc, BitVec.and_assoc page.addr, hmask,
    BitVec.and_zero, BitVec.zero_and]

/-- A mapping that succeeds moves its page to the frame, and no other address. -/
theorem vmmGetPhys_vmmMap (m : PageTables) (root : PhysPage) (virt : Word) (page : PhysPage)
    (flags : MapFlags) (hwellFormed : WellFormed m root) (hvirt : Canonical virt)
    (hdone : (vmmMap m root virt page.addr flags.bits).1 = true) (other : Word)
    (hother : Canonical other) :
    vmmGetPhys (vmmMap m root virt page.addr flags.bits).2 root other =
      if pageOf other = pageOf virt then page.addr + (other &&& 0xFFF#64)
      else vmmGetPhys m root other := by
  obtain ⟨hmapped, hmaps⟩ := vmmMap_spec m root virt page.addr flags.bits hwellFormed
  by_cases hpage : pageOf other = pageOf virt
  · rw [if_pos hpage, (hmaps hdone).vmmGetPhys_eq ((path_eq_iff_pageOf hvirt hother).mpr hpage),
      addr_or_offset]
  · rw [if_neg hpage]
    exact hmapped.vmmGetPhys_eq fun hpath => hpage ((path_eq_iff_pageOf hvirt hother).mp hpath)

/-! ## A page of 1 GiB -/

def rootFrame : PhysPage := ⟨0x1000#64, by decide⟩

def pdptFrame : PhysPage := ⟨0x2000#64, by decide⟩

def hugeEntry (flags : Word) : Word := 0x40000000#64 ||| flags ||| vmmHuge ||| vmmPresent

def freeFrames : List PhysPage := [⟨0x3000#64, by decide⟩, ⟨0x4000#64, by decide⟩]

/-- An address space with a single page of 1 GiB, at its own address. -/
def gigabyteSpace (flags : Word) : PageTables where
  tables := fun page i =>
    if page = rootFrame ∧ i = 0 then splitLink pdptFrame vmmUser
    else if page = pdptFrame ∧ i = 1 then hugeEntry flags
    else 0#64
  supply := freeFrames

theorem page_hugeEntry (flags : Word) : (kind 1 (hugeEntry flags)).page = none := by
  refine page_of_leaf (Or.inr ⟨by decide, ?_⟩)
  have hhuge : vmmHuge.getLsbD 7 = true := by decide
  unfold hugeEntry
  rw [isSet_huge, BitVec.getLsbD_or, BitVec.getLsbD_or, hhuge, Bool.or_true, Bool.true_or]

theorem tableAt_gigabyteSpace {flags : Word} {path : List TableIndex} {page : PhysPage}
    (h : tableAt kind (gigabyteSpace flags).tables rootFrame path = some page) :
    path = [] ∧ page = rootFrame ∨ path = [0] ∧ page = pdptFrame := by
  have hempty : ∀ depth, (kind depth 0#64).page = none := by
    intro depth
    rw [kind_of_absent (by decide)]
    rfl
  induction path generalizing page with
  | nil => exact Or.inl ⟨rfl, (Option.some.inj h).symm⟩
  | cons next rest ih =>
      obtain ⟨parent, hparent, hchild⟩ := tableAt_cons_some kind h
      rcases ih hparent with ⟨rfl, rfl⟩ | ⟨rfl, rfl⟩
      · have hentry : (gigabyteSpace flags).tables rootFrame next =
            if next = 0 then splitLink pdptFrame vmmUser else 0#64 := by
          simp [gigabyteSpace, rootFrame, pdptFrame]
        rw [hentry] at hchild
        by_cases hnext : next = 0
        · rw [if_pos hnext, kind_splitLink _ _ (by decide)] at hchild
          exact Or.inr ⟨by rw [hnext], (Option.some.inj hchild).symm⟩
        · rw [if_neg hnext, hempty] at hchild
          cases hchild
      · have hentry : (gigabyteSpace flags).tables pdptFrame next =
            if next = 1 then hugeEntry flags else 0#64 := by
          simp [gigabyteSpace, rootFrame, pdptFrame]
        rw [hentry] at hchild
        by_cases hnext : next = 1
        · rw [if_pos hnext, List.length_singleton, page_hugeEntry] at hchild
          cases hchild
        · rw [if_neg hnext, hempty] at hchild
          cases hchild

/-- An address space that has no other tables than these two. -/
theorem wellFormed_of_twoTables {m : PageTables} (hsupply : m.supply = freeFrames)
    (htables : ∀ path page, tableAt kind m.tables rootFrame path = some page →
      path = [] ∧ page = rootFrame ∨ path = [0] ∧ page = pdptFrame) : WellFormed m rootFrame := by
  refine ⟨fun left right page hleft hright => ?_, ?_, fun page hpage path hpath => ?_⟩
  · rcases htables _ _ hleft with ⟨rfl, rfl⟩ | ⟨rfl, rfl⟩
    · rcases htables _ _ hright with ⟨rfl, _⟩ | ⟨_, hpage⟩
      · rfl
      · exact absurd hpage (by decide)
    · rcases htables _ _ hright with ⟨_, hpage⟩ | ⟨rfl, _⟩
      · exact absurd hpage (by decide)
      · rfl
  · rw [hsupply]
    exact (by decide : freeFrames.Nodup)
  · have hused : page = rootFrame ∨ page = pdptFrame :=
      (htables _ _ hpath).imp And.right And.right
    have hfree : ∀ page ∈ freeFrames, ¬ (page = rootFrame ∨ page = pdptFrame) := by decide
    exact hfree page (hsupply ▸ hpage) hused

theorem wellFormed_gigabyteSpace (flags : Word) : WellFormed (gigabyteSpace flags) rootFrame :=
  wellFormed_of_twoTables rfl fun _ _ => tableAt_gigabyteSpace

def userPage : MapFlags := ⟨vmmWrite ||| vmmUser, by decide⟩

def newFrame : PhysPage := ⟨0x9000#64, by decide⟩

/-- One page is mapped anew, and its neighbour keeps its frame. -/
theorem vmmGetPhys_vmmMap_gigabyte :
    vmmGetPhys (vmmMap (gigabyteSpace vmmWrite) rootFrame 0x40201000#64 newFrame.addr
        userPage.bits).2 rootFrame 0x40201123#64 = 0x9123#64 ∧
      vmmGetPhys (vmmMap (gigabyteSpace vmmWrite) rootFrame 0x40201000#64 newFrame.addr
        userPage.bits).2 rootFrame 0x40202123#64 = 0x40202123#64 := by
  have hmap := vmmGetPhys_vmmMap (gigabyteSpace vmmWrite) rootFrame 0x40201000#64 newFrame
    userPage (wellFormed_gigabyteSpace vmmWrite) (by decide) (by decide +kernel)
  constructor
  · rw [hmap _ (by decide), if_pos (by decide)]
    decide
  · rw [hmap _ (by decide), if_neg (by decide)]
    decide

end EigenOS.Paging
