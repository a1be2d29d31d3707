import Mathlib.Algebra.GroupWithZero.Nat
import EigenOS.Paging.MapSteps
import EigenOS.Paging.Unmap

/-!
# The rights that are asked for

A page has the rights that its mapping asks for when the tables above it grant them as well.
`vmm_map` and `vmm_map_range` look at no table that is already there: new tables grant
everything, and old ones stay as they are.  `vmm_add_flags` adds the rights on all levels,
for the pages that are mapped.
-/

namespace EigenOS.Paging

open EigenOS.RadixTree

/-- User and write access, as far as the flags ask for them. -/
def Grants (flags entry : Word) : Prop :=
  (isSet flags vmmUser = true → isSet entry vmmUser = true) ∧
    (isSet flags vmmWrite = true → isSet entry vmmWrite = true)

instance (flags entry : Word) : Decidable (Grants flags entry) :=
  inferInstanceAs (Decidable (_ ∧ _))

/-- An address with the rights that flags ask for. -/
def UsableAt (m : PageTables) (root : PhysPage) (flags addr : Word) : Prop :=
  ∃ r, rightsOf m root addr = some r ∧ (isSet flags vmmUser = true → r.user = true) ∧
    (isSet flags vmmWrite = true → r.writable = true)

/-- The tables on the way to an address grant what flags ask for, as far as they are there. -/
def LinksGrant (m : PageTables) (root : PhysPage) (flags addr : Word) : Prop :=
  ∀ depth entry, LinkAt m root (pathOf (indices addr) depth) entry → Grants flags entry

section Usable

variable {m m' : PageTables} {root : PhysPage} {flags addr : Word} {entries : List Word}

theorem usableAt_iff : UsableAt m root flags addr ↔
    ∃ entries, translation m root addr = some entries ∧ ∀ e ∈ entries, Grants flags e := by
  unfold UsableAt rightsOf
  constructor
  · rintro ⟨r, hr, huser, hwrite⟩
    obtain ⟨entries, hentries, rfl⟩ := Option.map_eq_some_iff.mp hr
    exact ⟨entries, hentries, fun e he =>
      ⟨fun h => List.all_eq_true.mp (huser h) e he, fun h => List.all_eq_true.mp (hwrite h) e he⟩⟩
  · rintro ⟨entries, hentries, hgrants⟩
    refine ⟨_, by rw [hentries, Option.map_some], fun h => ?_, fun h => ?_⟩
    · exact List.all_eq_true.mpr fun e he => (hgrants e he).1 h
    · exact List.all_eq_true.mpr fun e he => (hgrants e he).2 h

theorem getElem?_translation (h : translation m root addr = some entries) (n : ℕ) :
    entries[n]? = entryAt kind m.tables root (pathOf (indices addr) (n + 1)) := by
  have hroot : tableAt kind m.tables root (pathOf (indices addr) 0) = some root := rfl
  have hentry := getElem?_walk kind hroot h n
  rwa [Nat.zero_add] at hentry

theorem usableAt_iff_entryAt : UsableAt m root flags addr ↔
    (translation m root addr).isSome = true ∧ ∀ n e,
      entryAt kind m.tables root (pathOf (indices addr) (n + 1)) = some e → Grants flags e := by
  rw [usableAt_iff]
  constructor
  · rintro ⟨entries, hentries, hgrants⟩
    refine ⟨by rw [hentries]; rfl, fun n e he => ?_⟩
    rw [← getElem?_translation hentries] at he
    exact hgrants e (List.mem_of_getElem? he)
  · rintro ⟨hsome, hgrants⟩
    obtain ⟨entries, hentries⟩ := Option.isSome_iff_exists.mp hsome
    refine ⟨entries, hentries, fun e he => ?_⟩
    obtain ⟨n, hn⟩ := List.mem_iff_getElem?.mp he
    exact hgrants n e ((getElem?_translation hentries n).symm.trans hn)

theorem UsableAt.of_path {other : Word}
    (hpath : pathOf (indices other) 4 = pathOf (indices addr) 4)
    (h : UsableAt m root flags addr) : UsableAt m root flags other := by
  obtain ⟨entries, hentries, hgrants⟩ := usableAt_iff.mp h
  exact usableAt_iff.mpr
    ⟨entries, translation_of_path hpath hentries (length_walk_le kind hentries), hgrants⟩

end Usable

/-! ## Links of a mapping -/

/-- What a mapping does to the links: those that were there stay, and new ones grant what is
asked for. -/
structure LinksGrow (root : PhysPage) (flags : Word) (m m' : PageTables) : Prop where
  kept : ∀ path entry, LinkAt m root path entry → LinkAt m' root path entry
  fresh : ∀ path entry, LinkAt m' root path entry →
    LinkAt m root path entry ∨ Grants flags entry

section Links

variable {m m' m'' : PageTables} {root table page : PhysPage} {path : List TableIndex}
  {i : TableIndex} {flags addr : Word} {rest : List PhysPage}

theorem LinksGrow.refl (m : PageTables) : LinksGrow root flags m m :=
  ⟨fun _ _ h => h, fun _ _ h => Or.inl h⟩

theorem LinksGrow.trans (h : LinksGrow root flags m m') (h' : LinksGrow root flags m' m'') :
    LinksGrow root flags m m'' := by
  refine ⟨fun path entry hlink => h'.kept _ _ (h.kept _ _ hlink), fun path entry hlink => ?_⟩
  rcases h'.fresh _ _ hlink with hold | hgrants
  · exact h.fresh _ _ hold
  · exact Or.inr hgrants

theorem LinksGrow.linksGrant_iff (h : LinksGrow root flags m m') :
    LinksGrant m' root flags addr ↔ LinksGrant m root flags addr := by
  constructor
  · exact fun hgrant depth entry hlink => hgrant depth entry (h.kept _ _ hlink)
  · intro hgrant depth entry hlink
    rcases h.fresh _ _ hlink with hold | hnew
    · exact hgrant depth entry hold
    · exact hnew

variable (page flags) in
theorem grants_splitLink (newFlags : Word)
    (huser : isSet flags vmmUser = true → isSet newFlags vmmUser = true) :
    Grants flags (splitLink page newFlags) :=
  ⟨fun h => (user_splitLink page newFlags).trans (huser h), fun _ => write_splitLink page newFlags⟩

end Links

section Mapping

variable {m m' : PageTables} {root : PhysPage} {virt phys flags addr : Word}

variable (m root virt phys flags) in
theorem vmmMap_linksGrow (h : WellFormed m root) :
    LinksGrow root flags m (vmmMap m root virt phys flags).2 := by
  have hlinks := linksMade_vmmMap m root virt phys flags h
  refine ⟨hlinks.kept, fun path entry hlink => ?_⟩
  rcases hlinks.fresh path entry hlink with hold | ⟨page, newFlags, rfl, huser⟩
  · exact Or.inl hold
  · exact Or.inr (grants_splitLink _ _ _ huser)

/-! ## A mapped page -/

/-- An address with an entry of its own in a page table, made with the given flags. -/
def MappedWith (m : PageTables) (root : PhysPage) (flags addr : Word) : Prop :=
  ∃ (upper : List Word) (phys : Word), upper.length = 3 ∧
    translation m root addr = some (upper ++ [leafEntry phys flags])

theorem grants_leafEntry (phys flags : Word) : Grants flags (leafEntry phys flags) := by
  have hbit : ∀ k, flags.getLsbD k = true → (leafEntry phys flags).getLsbD k = true := by
    intro k hk
    unfold leafEntry
    rw [BitVec.getLsbD_or, BitVec.getLsbD_or, hk, Bool.or_true, Bool.true_or]
  refine ⟨fun h => ?_, fun h => ?_⟩
  · rw [isSet_user] at h ⊢
    exact hbit 2 h
  · rw [isSet_write] at h ⊢
    exact hbit 1 h

theorem MappedWith.usableAt_iff (h : MappedWith m root flags addr) :
    UsableAt m root flags addr ↔ LinksGrant m root flags addr := by
  obtain ⟨upper, phys, hlength, htranslation⟩ := h
  rw [usableAt_iff_entryAt, htranslation]
  constructor
  · rintro ⟨_, hgrants⟩ depth entry ⟨hentry, _⟩
    cases depth with
    | zero => cases hentry
    | succ n => exact hgrants n entry hentry
  · intro hgrants
    refine ⟨rfl, fun n e he => ?_⟩
    have hn := getElem?_translation htranslation n
    rw [he] at hn
    by_cases hlast : n < 3
    · have hnext := getElem?_translation htranslation (n + 1)
      rw [List.getElem?_eq_getElem (by rw [List.length_append, hlength]; exact Nat.succ_lt_succ hlast)]
        at hnext
      obtain ⟨table, htable, _⟩ := (entryAt_eq_some_iff kind).mp hnext.symm
      exact hgrants (n + 1) e ⟨he, table, htable⟩
    · rw [List.getElem?_append_right (by omega), hlength] at hn
      have hzero : n - 3 = 0 := by
        by_contra hne
        rw [List.getElem?_eq_none (by rw [List.length_singleton]; omega)] at hn
        cases hn
      rw [hzero] at hn
      cases hn
      exact grants_leafEntry phys flags

theorem Stage.usableAt_iff (h : Stage root virt flags m m') :
    UsableAt m' root flags addr ↔ UsableAt m root flags addr := by
  rw [Paging.usableAt_iff, Paging.usableAt_iff]
  rcases h.translation addr with hsame | ⟨before, after, hbefore, hafter, hsplit, _⟩
  · rw [hsame]
  · rw [hbefore, hafter]
    have hgrants : (∀ e ∈ after, Grants flags e) ↔ ∀ e ∈ before, Grants flags e := by
      cases hsplit with
      | pdpt pml4e pdpte page =>
          have hpage : Grants flags (entries1g pdpte (pdIndex addr)) ↔ Grants flags pdpte := by
            unfold Grants
            rw [user_entries1g, write_entries1g]
          simp only [List.forall_mem_cons, hpage, grants_splitLink page flags flags id, true_and]
      | pd pml4e pdpte pde page =>
          have hpage : Grants flags (entries2m pde (ptIndex addr)) ↔ Grants flags pde := by
            unfold Grants
            rw [user_entries2m, write_entries2m]
          simp only [List.forall_mem_cons, hpage, grants_splitLink page flags flags id, true_and]
    simp only [Option.some.injEq, exists_eq_left', hgrants]

theorem Mapped.usableAt_iff (h : Mapped root virt flags m m')
    (hoff : pathOf (indices addr) 4 ≠ pathOf (indices virt) 4) :
    UsableAt m' root flags addr ↔ UsableAt m root flags addr := by
  obtain ⟨mid, hstages, hlast⟩ := h.stages
  have hmid : UsableAt mid root flags addr ↔ UsableAt m root flags addr := by
    clear hlast
    induction hstages with
    | refl => rfl
    | tail _ hstage ih => exact hstage.usableAt_iff.trans ih
  rw [← hmid, Paging.usableAt_iff, Paging.usableAt_iff, hlast addr hoff]

theorem Mapped.mappedWith (h : Mapped root virt flags m m')
    (hoff : pathOf (indices addr) 4 ≠ pathOf (indices virt) 4)
    (hmapped : MappedWith m root flags addr) : MappedWith m' root flags addr := by
  obtain ⟨mid, hstages, hlast⟩ := h.stages
  obtain ⟨upper, phys, hlength, htranslation⟩ := hmapped
  refine ⟨upper, phys, hlength, ?_⟩
  rw [hlast addr hoff]
  clear hlast
  induction hstages with
  | refl => exact htranslation
  | tail _ hstage ih =>
      rcases hstage.translation addr with hsame | ⟨before, after, hbefore, _, hsplit, _⟩
      · exact hsame.trans ih
      · cases hbefore.symm.trans ih
        have hshort := hsplit.length_lt
        rw [List.length_append, hlength, List.length_singleton] at hshort
        exact absurd hshort (Nat.lt_irrefl 4)

end Mapping

/-! ## Ranges -/

def InRange (virt size addr : Word) : Prop :=
  ∃ n, n < size.toNat ∧ addr = virt + BitVec.ofNat 64 n

/-- An address on a page that the first rounds of a loop over a range have come to. -/
def ReachedBy (virt addr : Word) (count : ℕ) : Prop :=
  ∃ k < count, pathOf (indices addr) 4 = pathOf (indices (virt + offset k)) 4

section Range

variable {m m' : PageTables} {root : PhysPage} {virt phys size flags addr : Word}

/-- What the first rounds of `vmm_map_range` have done. -/
structure RangeMapped (root : PhysPage) (virt flags : Word) (count : ℕ)
    (m m' : PageTables) : Prop where
  wellFormed : WellFormed m' root
  links : LinksGrow root flags m m'
  reached : ∀ addr, ReachedBy virt addr count → MappedWith m' root flags addr
  others : ∀ addr, ¬ ReachedBy virt addr count →
    (UsableAt m' root flags addr ↔ UsableAt m root flags addr)

theorem rangeMapped (h : WellFormed m root) {count : ℕ}
    (hdone : mapRounds root virt phys flags count m = (true, m')) :
    RangeMapped root virt flags count m m' := by
  induction count generalizing m' with
  | zero =>
      cases hdone
      exact ⟨h, LinksGrow.refl m, fun _ ⟨_, hk, _⟩ => absurd hk (Nat.not_lt_zero _),
        fun _ _ => Iff.rfl⟩
  | succ count ih =>
      rw [mapRounds] at hdone
      cases hrounds : mapRounds root virt phys flags count m with
      | mk done mid =>
          rw [hrounds] at hdone
          cases done with
          | false => cases hdone
          | true =>
              dsimp only at hdone
              have hbefore := ih hrounds
              obtain ⟨hmapped, hmaps⟩ := vmmMap_spec mid root (virt + offset count)
                (phys + offset count) flags hbefore.wellFormed
              have hlinks := vmmMap_linksGrow mid root (virt + offset count)
                (phys + offset count) flags hbefore.wellFormed
              rw [hdone] at hmapped hmaps hlinks
              refine ⟨hmapped.wellFormed, hbefore.links.trans hlinks, fun addr hreached => ?_,
                fun addr hnot => ?_⟩
              · by_cases hon :
                    pathOf (indices addr) 4 = pathOf (indices (virt + offset count)) 4
                · obtain ⟨upper, hlength, htranslation⟩ := hmaps rfl addr hon
                  exact ⟨upper, _, hlength, htranslation⟩
                · obtain ⟨k, hk, hpath⟩ := hreached
                  have hlt : k < count := by
                    rcases Nat.lt_succ_iff_lt_or_eq.mp hk with hlt | rfl
                    · exact hlt
                    · exact absurd hpath hon
                  exact hmapped.mappedWith hon (hbefore.reached addr ⟨k, hlt, hpath⟩)
              · have hoff : pathOf (indices addr) 4 ≠ pathOf (indices (virt + offset count)) 4 :=
                  fun hpath => hnot ⟨count, Nat.lt_succ_self _, hpath⟩
                have hearlier : ¬ ReachedBy virt addr count := fun ⟨k, hk, hpath⟩ =>
                  hnot ⟨k, Nat.lt_succ_of_lt hk, hpath⟩
                exact (hmapped.usableAt_iff hoff).trans (hbefore.others addr hearlier)

/-- A mapped range has the rights it asks for exactly when the tables above its pages grant
them, and the end of an unaligned range, which the loop does not reach, has them already. -/
theorem usableAt_vmmMapRange_iff (h : WellFormed m root)
    (hdone : vmmMapRange m root virt phys size flags = some (true, m')) (addr : Word) :
    UsableAt m' root flags addr ↔
      (ReachedBy virt addr (rounds size) ∧ LinksGrant m root flags addr) ∨
        (¬ ReachedBy virt addr (rounds size) ∧ UsableAt m root flags addr) := by
  unfold vmmMapRange at hdone
  cases hrounds : mapRounds root virt phys flags (rounds size) m with
  | mk done last =>
      rw [hrounds] at hdone
      cases done with
      | false => cases hdone
      | true =>
          dsimp only at hdone
          split at hdone
          · cases hdone
          · cases hdone
            have hrange := rangeMapped h hrounds
            by_cases hreached : ReachedBy virt addr (rounds size)
            · rw [(hrange.reached addr hreached).usableAt_iff, hrange.links.linksGrant_iff]
              simp only [hreached, true_and, not_true_eq_false, false_and, or_false]
            · rw [hrange.others addr hreached]
              simp only [hreached, false_and, not_false_eq_true, true_and, false_or]

end Range

/-! ## Added flags -/

/-- Entries get the rights that flags ask for, those on marked paths, and keep their kinds. -/
structure Raises (root : PhysPage) (flags : Word) (marked : List TableIndex → Prop)
    (m m' : PageTables) : Prop where
  kinds : SameKinds kind m.tables m'.tables root
  grants : ∀ path table i, TableAt m root path table →
    kind path.length (m.tables table i) ≠ .absent →
      (Grants flags (m'.tables table i) ↔ Grants flags (m.tables table i) ∨ marked (i :: path))

section Raises

variable {m m' m'' : PageTables} {root table : PhysPage} {flags addr bits : Word}
  {path : List TableIndex} {i : TableIndex} {marked marked' : List TableIndex → Prop}

theorem Raises.refl (m : PageTables) : Raises root flags (fun _ => False) m m :=
  ⟨fun _ _ _ _ => rfl, fun _ _ _ _ _ => (or_iff_left id).symm⟩

theorem Raises.trans (h : Raises root flags marked m m') (h' : Raises root flags marked' m' m'') :
    Raises root flags (fun path => marked path ∨ marked' path) m m'' := by
  refine ⟨h.kinds.trans h'.kinds, fun path table i htable hpresent => ?_⟩
  have htable' : TableAt m' root path table := (h.kinds.tableAt_eq path).trans htable
  have hpresent' : kind path.length (m'.tables table i) ≠ .absent := by
    rwa [h.kinds path table i htable]
  rw [h'.grants path table i htable' hpresent', h.grants path table i htable hpresent, or_assoc]

theorem Raises.remark (h : Raises root flags marked m m')
    (hsame : ∀ path table i, TableAt m root path table →
      kind path.length (m.tables table i) ≠ .absent → (marked (i :: path) ↔ marked' (i :: path))) :
    Raises root flags marked' m m' :=
  ⟨h.kinds, fun path table i htable hpresent => by
    rw [h.grants path table i htable hpresent, hsame path table i htable hpresent]⟩

theorem Raises.usableAt_iff (h : Raises root flags marked m m') :
    UsableAt m' root flags addr ↔ (translation m root addr).isSome = true ∧ ∀ n e,
      entryAt kind m.tables root (pathOf (indices addr) (n + 1)) = some e →
        Grants flags e ∨ marked (pathOf (indices addr) (n + 1)) := by
  have hroot : tableAt kind m.tables root (pathOf (indices addr) 0) = some root := rfl
  have hsome : (translation m' root addr).isSome = (translation m root addr).isSome :=
    h.kinds.isSome_walk hroot
  rw [usableAt_iff_entryAt, hsome]
  refine and_congr_right fun _ => forall_congr' fun n => ?_
  constructor
  · intro hgrants e he
    obtain ⟨table, htable, rfl, hpresent⟩ := (entryAt_eq_some_iff kind).mp he
    refine (h.grants _ table _ htable hpresent).mp (hgrants _ ?_)
    refine (entryAt_eq_some_iff kind).mpr ⟨table, (h.kinds.tableAt_eq _).trans htable, rfl, ?_⟩
    rwa [h.kinds _ table _ htable]
  · intro hgrants e he
    obtain ⟨table, htable', rfl, hpresent'⟩ := (entryAt_eq_some_iff kind).mp he
    have htable := (h.kinds.tableAt_eq _).symm.trans htable'
    have hpresent := hpresent'
    rw [h.kinds _ table _ htable] at hpresent
    exact (h.grants _ table _ htable hpresent).mpr
      (hgrants _ ((entryAt_eq_some_iff kind).mpr ⟨table, htable, rfl, hpresent⟩))

theorem grants_or (hbits : Grants flags bits) (entry : Word) : Grants flags (entry ||| bits) := by
  unfold Grants at hbits ⊢
  simp only [isSet_user, isSet_write, BitVec.getLsbD_or, Bool.or_eq_true] at hbits ⊢
  exact ⟨fun h => Or.inr (hbits.1 h), fun h => Or.inr (hbits.2 h)⟩

theorem getLsbD_hierarchyFlags (flags : Word) (k : ℕ) :
    (hierarchyFlags flags).getLsbD k =
      (flags.getLsbD k && (decide (k = 2) || decide (k = 1))) := by
  have huser := getLsbD_flag 2 k
  have hwrite := getLsbD_flag 1 k
  unfold hierarchyFlags vmmUser vmmWrite
  rw [BitVec.getLsbD_and, BitVec.getLsbD_or, huser, hwrite]
  by_cases hk : k < 64
  · simp [hk]
  · rw [BitVec.getLsbD_of_ge _ _ (by omega), Bool.false_and, Bool.false_and]

theorem grants_hierarchyFlags (flags : Word) : Grants flags (hierarchyFlags flags) := by
  unfold Grants
  rw [isSet_user, isSet_user, isSet_write, isSet_write, getLsbD_hierarchyFlags,
    getLsbD_hierarchyFlags]
  exact ⟨fun h => by rw [h]; rfl, fun h => by rw [h]; rfl⟩

theorem kind_or_hierarchyFlags (depth : ℕ) (entry flags : Word) :
    kind depth (entry ||| hierarchyFlags flags) = kind depth entry := by
  have hpresent : isSet (entry ||| hierarchyFlags flags) vmmPresent = isSet entry vmmPresent := by
    rw [isSet_present, isSet_present, BitVec.getLsbD_or, getLsbD_hierarchyFlags]
    simp
  have hhuge : isSet (entry ||| hierarchyFlags flags) vmmHuge = isSet entry vmmHuge := by
    rw [isSet_huge, isSet_huge, BitVec.getLsbD_or, getLsbD_hierarchyFlags]
    simp
  have haddr : (entry ||| hierarchyFlags flags) &&& addrMask = entry &&& addrMask := by
    apply BitVec.eq_of_getLsbD_eq
    intro k _
    rw [BitVec.getLsbD_and, BitVec.getLsbD_and, BitVec.getLsbD_or, getLsbD_hierarchyFlags,
      getLsbD_addrMask]
    by_cases hk : 12 ≤ k
    · simp [show k ≠ 2 by omega, show k ≠ 1 by omega]
    · simp [hk]
  have htarget : target (entry ||| hierarchyFlags flags) = target entry := by
    unfold target
    simp only [PhysPage.mk.injEq]
    exact haddr
  unfold kind
  rw [hpresent, hhuge, htarget]

theorem present_or {entry : Word} (h : isSet entry vmmPresent = true) :
    isSet (entry ||| bits) vmmPresent = true := by
  rw [isSet_present] at h ⊢
  rw [BitVec.getLsbD_or, h, Bool.true_or]

theorem kind_or_of_leaf {depth : ℕ} {entry : Word} (h : kind depth entry = .leaf) :
    kind depth (entry ||| flags) = .leaf := by
  obtain ⟨hpresent, hend⟩ := kind_eq_leaf h
  rw [kind_of_leaf, if_pos (present_or hpresent)]
  refine hend.imp id fun ⟨hpos, hhuge⟩ => ⟨hpos, ?_⟩
  rw [isSet_huge] at hhuge ⊢
  rw [BitVec.getLsbD_or, hhuge, Bool.true_or]

@[simp]
theorem orEntry_self (m : PageTables) (table : PhysPage) (i : TableIndex) (bits : Word) :
    (orEntry m table i bits).tables table i = m.tables table i ||| bits :=
  write_self _ _ _ _

theorem raises_orEntry (htree : IsTree kind m.tables root) (hpath : TableAt m root path table)
    (hkind : kind path.length (m.tables table i ||| bits) = kind path.length (m.tables table i))
    (hbits : Grants flags bits) :
    Raises root flags (fun other => other = i :: path) m (orEntry m table i bits) := by
  have hentry : ∀ other j, ¬ (other = table ∧ j = i) →
      (orEntry m table i bits).tables other j = m.tables other j :=
    fun other j hne => write_of_ne _ _ hne
  have hself := orEntry_self m table i bits
  constructor
  · intro along other j hother
    by_cases hsame : other = table ∧ j = i
    · obtain ⟨rfl, rfl⟩ := hsame
      cases htree _ _ _ hother hpath
      rw [hself, hkind]
    · rw [hentry other j hsame]
  · intro along other j hother _
    by_cases hsame : other = table ∧ j = i
    · obtain ⟨rfl, rfl⟩ := hsame
      cases htree _ _ _ hother hpath
      rw [hself]
      simp only [grants_or hbits, or_true]
    · rw [hentry other j hsame]
      refine (or_iff_left ?_).symm
      intro hpaths
      obtain ⟨rfl, rfl⟩ := List.cons.inj hpaths
      exact hsame ⟨Option.some.inj (hother.symm.trans hpath), rfl⟩

def Marks (addr : Word) (level : ℕ) (path : List TableIndex) : Prop :=
  ∃ n, level ≤ n ∧ path = pathOf (indices addr) (n + 1)

theorem marks_iff {level : ℕ} : Marks addr level path ↔
    path = pathOf (indices addr) (level + 1) ∨ Marks addr (level + 1) path := by
  constructor
  · rintro ⟨n, hn, rfl⟩
    rcases Nat.eq_or_lt_of_le hn with rfl | hlt
    · exact Or.inl rfl
    · exact Or.inr ⟨n, hlt, rfl⟩
  · rintro (rfl | ⟨n, hn, rfl⟩)
    · exact ⟨level, Nat.le_refl _, rfl⟩
    · exact ⟨n, Nat.le_of_succ_le hn, rfl⟩

/-- An entry above the page gets the flags for its level, and the rest of the round the others. -/
theorem Raises.below {level : ℕ}
    (h : Raises root flags (fun path => path = pathOf (indices addr) (level + 1)) m m')
    (h' : Raises root flags (Marks addr (level + 1)) m' m'') :
    Raises root flags (Marks addr level) m m'' :=
  (h.trans h').remark fun _ _ _ _ _ => marks_iff.symm

section Level

variable {level : ℕ} (hpage : TableAt m root (pathOf (indices addr) level) table)

include hpage

theorem not_marks_of_ended
    (hended : (kind level (m.tables table (indices addr level))).page = none)
    {other : PhysPage} (hother : TableAt m root path other) :
    ¬ Marks addr (level + 1) (i :: path) := by
  rintro ⟨n, hn, hpath⟩
  obtain ⟨_, rfl⟩ := List.cons.inj hpath
  have hnone : tableAt kind m.tables root (pathOf (indices addr) (level + 1)) = none := by
    have hsome : tableAt kind m.tables root (pathOf (indices addr) level) = some table := hpage
    rw [pathOf, tableAt, hsome, Option.bind_some, length_pathOf, hended]
  obtain ⟨k, rfl⟩ := Nat.exists_eq_add_of_le hn
  exact absurd ((tableAt_of_ended kind hnone k).symm.trans hother) (by simp)

theorem raises_absent (habsent : isSet (m.tables table (indices addr level)) vmmPresent = false) :
    Raises root flags (Marks addr level) m m := by
  have hkind : kind level (m.tables table (indices addr level)) = .absent := kind_of_absent habsent
  refine (Raises.refl m).remark fun path other i hother hpresent => ?_
  rw [marks_iff, false_iff, not_or]
  constructor
  · intro hpath
    obtain ⟨rfl, rfl⟩ := List.cons.inj hpath
    cases hpage.symm.trans hother
    rw [length_pathOf] at hpresent
    exact hpresent hkind
  · exact not_marks_of_ended hpage (by rw [hkind]; rfl) hother

theorem Raises.ended (h : Raises root flags (fun path => path = pathOf (indices addr) (level + 1))
      m m') (hended : (kind level (m.tables table (indices addr level))).page = none) :
    Raises root flags (Marks addr level) m m' := by
  refine h.remark fun path other i hother _ => ?_
  rw [marks_iff, or_iff_left (not_marks_of_ended hpage hended hother)]

variable (m root table flags addr level) in
theorem raises_hierarchy (htree : IsTree kind m.tables root) :
    Raises root flags (fun path => path = pathOf (indices addr) (level + 1)) m
      (orEntry m table (indices addr level) (hierarchyFlags flags)) :=
  raises_orEntry htree hpage (kind_or_hierarchyFlags _ _ _) (grants_hierarchyFlags flags)

variable (m root table flags addr level) in
theorem raises_leaf (htree : IsTree kind m.tables root)
    (hleaf : kind level (m.tables table (indices addr level)) = .leaf) :
    Raises root flags (Marks addr level) m (orEntry m table (indices addr level) flags) := by
  have hlength : kind (pathOf (indices addr) level).length (m.tables table (indices addr level)) =
      .leaf := by rwa [length_pathOf]
  have hflags : Grants flags flags := ⟨id, id⟩
  refine Raises.ended hpage ?_ (by rw [hleaf]; rfl)
  exact raises_orEntry htree hpage ((kind_or_of_leaf hlength).trans hlength.symm) hflags

end Level

theorem addFlagsInPt_raises (htree : IsTree kind m.tables root)
    (hpt : TableAt m root (pathOf (indices addr) 3) table) :
    Raises root flags (Marks addr 3) m (addFlagsInPt m table addr flags) := by
  unfold addFlagsInPt
  cases hpresent : isSet (m.tables table (ptIndex addr)) vmmPresent with
  | false =>
      rw [if_pos (by simp)]
      exact raises_absent hpt hpresent
  | true =>
      rw [if_neg (by simp)]
      have hleaf : kind 3 (m.tables table (indices addr 3)) = .leaf := by
        rw [kind_of_leaf (Or.inl (Nat.le_refl 3))]
        exact if_pos hpresent
      exact raises_leaf _ _ _ _ _ _ hpt htree hleaf

theorem raises_middle {level : ℕ} (hpos : 0 < level) (hlevel : level < 3)
    (below : PageTables → PhysPage → PageTables) (htree : IsTree kind m.tables root)
    (hpage : TableAt m root (pathOf (indices addr) level) table)
    (hbelow : ∀ m child, IsTree kind m.tables root →
      TableAt m root (pathOf (indices addr) (level + 1)) child →
        Raises root flags (Marks addr (level + 1)) m (below m child)) :
    Raises root flags (Marks addr level) m
      (if ¬ isSet (m.tables table (indices addr level)) vmmPresent then m
      else
        let m := orEntry m table (indices addr level) (hierarchyFlags flags)
        if isSet (m.tables table (indices addr level)) vmmHuge
          then orEntry m table (indices addr level) flags
        else below m (target (m.tables table (indices addr level)))) := by
  cases hpresent : isSet (m.tables table (indices addr level)) vmmPresent with
  | false =>
      rw [if_pos (by simp)]
      exact raises_absent hpage hpresent
  | true =>
      rw [if_neg (by simp)]
      dsimp only
      have hfirst := raises_hierarchy m root table flags addr level hpage htree
      have hpage' : TableAt (orEntry m table (indices addr level) (hierarchyFlags flags)) root
          (pathOf (indices addr) level) table := (hfirst.kinds.tableAt_eq _).trans hpage
      have htree' := hfirst.kinds.isTree htree
      have hpresent' : isSet ((orEntry m table (indices addr level) (hierarchyFlags flags)).tables
          table (indices addr level)) vmmPresent = true := by
        rw [orEntry_self]
        exact present_or hpresent
      generalize orEntry m table (indices addr level) (hierarchyFlags flags) = m' at *
      cases hhuge : isSet (m'.tables table (indices addr level)) vmmHuge with
      | true =>
          rw [if_pos rfl]
          have hleaf : kind level (m'.tables table (indices addr level)) = .leaf := by
            rw [kind_of_leaf (Or.inr ⟨hpos, hhuge⟩), if_pos hpresent']
          have hlast := raises_leaf m' root table flags addr level hpage' htree' hleaf
          exact (hfirst.trans hlast).remark fun _ _ _ _ _ =>
            or_iff_right_of_imp fun hpath => marks_iff.mpr (Or.inl hpath)
      | false =>
          rw [if_neg Bool.false_ne_true]
          refine Raises.below hfirst (hbelow m' _ htree' (tableAt_cons kind hpage' ?_))
          rw [length_pathOf, kind_of_table hpresent' hlevel (Or.inr hhuge)]
          rfl

theorem addFlagsInPd_raises (htree : IsTree kind m.tables root)
    (hpd : TableAt m root (pathOf (indices addr) 2) table) :
    Raises root flags (Marks addr 2) m (addFlagsInPd m table addr flags) :=
  raises_middle (by decide) (by decide) (fun m pt => addFlagsInPt m pt addr flags) htree hpd
    fun _ _ => addFlagsInPt_raises

theorem addFlagsInPdpt_raises (htree : IsTree kind m.tables root)
    (hpdpt : TableAt m root (pathOf (indices addr) 1) table) :
    Raises root flags (Marks addr 1) m (addFlagsInPdpt m table addr flags) :=
  raises_middle (by decide) (by decide) (fun m pd => addFlagsInPd m pd addr flags) htree hpdpt
    fun _ _ => addFlagsInPd_raises

variable (root flags addr) in
theorem addFlags_raises (htree : IsTree kind m.tables root) :
    Raises root flags (Marks addr 0) m (addFlags m root addr flags) := by
  have hroot : TableAt m root (pathOf (indices addr) 0) root := rfl
  unfold addFlags
  cases hpresent : isSet (m.tables root (pml4Index addr)) vmmPresent with
  | false =>
      rw [if_pos (by simp)]
      exact raises_absent hroot hpresent
  | true =>
      rw [if_neg (by simp)]
      have hfirst := raises_hierarchy m root root flags addr 0 hroot htree
      refine Raises.below hfirst (addFlagsInPdpt_raises (hfirst.kinds.isTree htree) ?_)
      refine tableAt_cons kind rfl (congrArg Kind.page (kind_of_table ?_ (by decide) (Or.inl rfl)))
      rw [orEntry_self]
      exact present_or hpresent

theorem addFlagsRounds_raises (htree : IsTree kind m.tables root) (virt : Word) (count : ℕ) :
    Raises root flags (fun path => ∃ k < count, Marks (virt + offset k) 0 path) m
      (addFlagsRounds root virt flags count m) := by
  induction count with
  | zero =>
      refine (Raises.refl m).remark fun _ _ _ _ _ => ?_
      exact ⟨False.elim, fun ⟨_, hk, _⟩ => Nat.not_lt_zero _ hk⟩
  | succ count ih =>
      have hround := addFlags_raises root flags (virt + offset count) (ih.kinds.isTree htree)
      refine (ih.trans hround).remark fun path _ i _ _ => ?_
      constructor
      · rintro (⟨k, hk, hmarks⟩ | hmarks)
        · exact ⟨k, Nat.lt_succ_of_lt hk, hmarks⟩
        · exact ⟨count, Nat.lt_succ_self _, hmarks⟩
      · rintro ⟨k, hk, hmarks⟩
        rcases Nat.lt_succ_iff_lt_or_eq.mp hk with hlt | rfl
        · exact Or.inl ⟨k, hlt, hmarks⟩
        · exact Or.inr hmarks

/-- Flags are added for an address on all levels that the loop over the range comes to. -/
theorem usableAt_vmmAddFlags_iff (htree : IsTree kind m.tables root) {virt size : Word}
    (hdone : vmmAddFlags m root virt size flags = some m') :
    UsableAt m' root flags addr ↔ ∃ entries, translation m root addr = some entries ∧
      ∀ n e, entries[n]? = some e → Grants flags e ∨ ∃ k < rounds size,
        pathOf (indices addr) (n + 1) = pathOf (indices (virt + offset k)) (n + 1) := by
  unfold vmmAddFlags at hdone
  split at hdone
  · cases hdone
  · cases hdone
    have hmarks : ∀ n other, Marks other 0 (pathOf (indices addr) (n + 1)) ↔
        pathOf (indices addr) (n + 1) = pathOf (indices other) (n + 1) := by
      intro n other
      constructor
      · rintro ⟨n', _, hpath⟩
        have hlength := congrArg List.length hpath
        rw [length_pathOf, length_pathOf] at hlength
        cases hlength
        exact hpath
      · exact fun hpath => ⟨n, Nat.zero_le n, hpath⟩
    rw [(addFlagsRounds_raises htree virt (rounds size)).usableAt_iff]
    simp only [hmarks]
    constructor
    · rintro ⟨hsome, hgrants⟩
      obtain ⟨entries, hentries⟩ := Option.isSome_iff_exists.mp hsome
      exact ⟨entries, hentries, fun n e he =>
        hgrants n e ((getElem?_translation hentries n).symm.trans he)⟩
    · rintro ⟨entries, hentries, hgrants⟩
      exact ⟨by rw [hentries]; rfl, fun n e he =>
        hgrants n e ((getElem?_translation hentries n).trans he)⟩

end Raises

/-! ## The whole range -/

theorem offset_toNat {k : ℕ} {size : Word} (hk : k < rounds size) :
    (offset k).toNat = 4096 * k := by
  have hsize := size.isLt
  unfold rounds pageSize at hk
  unfold offset pageSize
  rw [BitVec.toNat_ofNat, Nat.mod_eq_of_lt (by omega)]

theorem reachedBy_of_aligned {virt size addr : Word} (halign : virt.toNat % 4096 = 0)
    (hin : InRange virt size addr) : ReachedBy virt addr (rounds size) := by
  obtain ⟨n, hn, rfl⟩ := hin
  have hsize := size.isLt
  have hround : n / 4096 < rounds size := by
    unfold rounds pageSize
    omega
  have hpage : pageOf (virt + BitVec.ofNat 64 n) = pageOf (virt + offset (n / 4096)) := by
    apply BitVec.eq_of_toNat_eq
    have hvirt := virt.isLt
    unfold pageOf
    rw [BitVec.toNat_ushiftRight, BitVec.toNat_ushiftRight, BitVec.toNat_add, BitVec.toNat_add,
      offset_toNat hround, BitVec.toNat_ofNat, Nat.shiftRight_eq_div_pow,
      Nat.shiftRight_eq_div_pow, Nat.mod_eq_of_lt (by omega : n < 2 ^ 64)]
    omega
  refine ⟨n / 4096, hround, ?_⟩
  have hpath : ∀ v, pathOf (indices v) 4 = [index v 12, index v 21, index v 30, index v 39] :=
    fun _ => rfl
  rw [hpath, hpath, index_eq_of_pageOf (by decide) hpage, index_eq_of_pageOf (by decide) hpage,
    index_eq_of_pageOf (by decide) hpage, index_eq_of_pageOf (by decide) hpage]

/-- When the calls that map pages and add flags give all addresses the rights they ask for: what
is above a mapped page has to grant them already, and a page to which flags are added has to be
mapped.  The end of an unaligned range, which no round comes to, is left as it is, apart from
what it has in common with the other pages. -/
theorem userMappings_iff (m : PageTables) (root : PhysPage) (h : WellFormed m root)
    (virt phys size flags : Word) (m' : PageTables) :
    (vmmMap m root virt phys flags = (true, m') →
      ((∀ addr, SamePage virt addr → UsableAt m' root flags addr) ↔
        LinksGrant m root flags virt)) ∧
    (vmmMapRange m root virt phys size flags = some (true, m') →
      ((∀ addr, InRange virt size addr → UsableAt m' root flags addr) ↔
        ∀ addr, InRange virt size addr →
          (ReachedBy virt addr (rounds size) ∧ LinksGrant m root flags addr) ∨
            (¬ ReachedBy virt addr (rounds size) ∧ UsableAt m root flags addr))) ∧
    (vmmAddFlags m root virt size flags = some m' →
      ((∀ addr, InRange virt size addr → UsableAt m' root flags addr) ↔
        ∀ addr, InRange virt size addr → ∃ entries, translation m root addr = some entries ∧
          ∀ n e, entries[n]? = some e → Grants flags e ∨ ∃ k < rounds size,
            pathOf (indices addr) (n + 1) = pathOf (indices (virt + offset k)) (n + 1))) := by
  refine ⟨fun hdone => ?_, fun hdone => ?_, fun hdone => ?_⟩
  · have hmaps := (vmmMap_spec m root virt phys flags h).2
    have hlinks := vmmMap_linksGrow m root virt phys flags h
    rw [hdone] at hmaps hlinks
    obtain ⟨upper, hlength, htranslation⟩ := hmaps rfl virt rfl
    have hmapped : MappedWith m' root flags virt := ⟨upper, phys, hlength, htranslation⟩
    rw [← hlinks.linksGrant_iff, ← hmapped.usableAt_iff]
    exact ⟨fun hall => hall virt rfl, fun husable addr hsame => husable.of_path hsame⟩
  · exact forall₂_congr fun addr _ => usableAt_vmmMapRange_iff h hdone addr
  · exact forall₂_congr fun addr _ => usableAt_vmmAddFlags_iff h.tree hdone

theorem linksGrant_gigabyteSpace (addr : Word) :
    LinksGrant (gigabyteSpace vmmWrite) rootFrame (vmmWrite ||| vmmUser) addr := by
  intro depth entry hlink
  cases depth with
  | zero => exact absurd hlink not_linkAt_nil
  | succ n =>
      obtain ⟨table, htable, rfl, hpage⟩ := linkAt_iff.mp hlink
      by_cases hroot : table = rootFrame ∧ indices addr n = 0
      · have hlink : (gigabyteSpace vmmWrite).tables table (indices addr n) =
            splitLink pdptFrame vmmUser := if_pos hroot
        rw [hlink]
        exact grants_splitLink _ _ _ fun _ => by decide
      · by_cases hpdpt : table = pdptFrame ∧ indices addr n = 1
        · have hhuge : (gigabyteSpace vmmWrite).tables table (indices addr n) =
              hugeEntry vmmWrite := (if_neg hroot).trans (if_pos hpdpt)
          rcases tableAt_gigabyteSpace htable with ⟨_, hframe⟩ | ⟨hpath, _⟩
          · exact absurd (hframe.symm.trans hpdpt.1) (by decide)
          · rw [hhuge, hpath, List.length_singleton, page_hugeEntry] at hpage
            exact absurd rfl hpage
        · have hzero : (gigabyteSpace vmmWrite).tables table (indices addr n) = 0#64 :=
            (if_neg hroot).trans (if_neg hpdpt)
          rw [hzero, kind_of_absent (by decide)] at hpage
          exact absurd rfl hpage

/-- A page in the middle of a huge page of the kernel is given to user code in three ways. -/
theorem userMappings_gigabyte :
    UsableAt (vmmMap (gigabyteSpace vmmWrite) rootFrame 0x40201000#64 0x9000#64
        (vmmWrite ||| vmmUser)).2 rootFrame (vmmWrite ||| vmmUser) 0x40201123#64 ∧
      (∃ m', vmmMapRange (gigabyteSpace vmmWrite) rootFrame 0x40201000#64 0x9000#64 0x1000#64
          (vmmWrite ||| vmmUser) = some (true, m') ∧
        UsableAt m' rootFrame (vmmWrite ||| vmmUser) 0x40201123#64) ∧
      ∃ m', vmmAddFlags (gigabyteSpace vmmWrite) rootFrame 0x40201000#64 0x1000#64
          (vmmWrite ||| vmmUser) = some m' ∧
        UsableAt m' rootFrame (vmmWrite ||| vmmUser) 0x40201123#64 := by
  have hiff := userMappings_iff (gigabyteSpace vmmWrite) rootFrame
    (wellFormed_gigabyteSpace vmmWrite) 0x40201000#64 0x9000#64 0x1000#64 (vmmWrite ||| vmmUser)
  have hin : InRange 0x40201000#64 0x1000#64 0x40201123#64 := ⟨0x123, by decide, by decide⟩
  have hreached : ∀ addr, InRange 0x40201000#64 0x1000#64 addr →
      ReachedBy 0x40201000#64 addr (rounds 0x1000#64) :=
    fun _ => reachedBy_of_aligned (by decide)
  refine ⟨?_, ?_, ?_⟩
  · have hdone : (vmmMap (gigabyteSpace vmmWrite) rootFrame 0x40201000#64 0x9000#64
        (vmmWrite ||| vmmUser)).1 = true := by decide +kernel
    exact ((hiff _).1 (Prod.ext hdone rfl)).mpr (linksGrant_gigabyteSpace _) _ (by decide)
  · have hdone : (vmmMapRange (gigabyteSpace vmmWrite) rootFrame 0x40201000#64 0x9000#64 0x1000#64
        (vmmWrite ||| vmmUser)).map Prod.fst = some true := by decide +kernel
    obtain ⟨⟨_, m'⟩, hresult, rfl⟩ := Option.map_eq_some_iff.mp hdone
    refine ⟨m', hresult, ((hiff m').2.1 hresult).mpr (fun addr haddr => ?_) _ hin⟩
    exact Or.inl ⟨hreached addr haddr, linksGrant_gigabyteSpace addr⟩
  · refine ⟨_, rfl, ((hiff _).2.2 rfl).mpr (fun addr haddr => ?_) _ hin⟩
    have htranslation : translation (gigabyteSpace vmmWrite) rootFrame 0x40201000#64 =
        some [splitLink pdptFrame vmmUser, hugeEntry vmmWrite] := by decide +kernel
    obtain ⟨k, hk, hpath⟩ := hreached addr haddr
    have hzero : k = 0 := by
      have hrounds : rounds 0x1000#64 = 1 := by decide
      omega
    subst hzero
    have hpath2 : pathOf (indices addr) 2 = pathOf (indices 0x40201000#64) 2 :=
      (List.cons.inj (List.cons.inj hpath).2).2
    refine ⟨_, translation_of_path hpath2 htranslation (Nat.le_refl 2), fun n e he => ?_⟩
    refine Or.inr ⟨0, hk, ?_⟩
    have hn : n < 2 := (List.getElem?_eq_some_iff.mp he).1
    obtain rfl | rfl : n = 0 ∨ n = 1 := by omega
    · exact (List.cons.inj hpath2).2
    · exact hpath2

/-! ## A table of the kernel -/

local instance neZero_entries : NeZero 512 := ⟨Nat.succ_ne_zero 511⟩

/-- An address space with one table below its root, and no pages. -/
def oneTableSpace (flags : Word) : PageTables where
  tables := fun page i =>
    if page = rootFrame ∧ i = 0 then splitLink pdptFrame flags else 0#64
  supply := freeFrames

theorem tableAt_oneTableSpace {flags : Word} {path : List TableIndex} {page : PhysPage}
    (h : tableAt kind (oneTableSpace flags).tables rootFrame path = some page) :
    path = [] ∧ page = rootFrame ∨ path = [0] ∧ page = pdptFrame := by
  have hempty : ∀ depth, (kind depth 0#64).page = none := by
    intro depth
    rw [kind_of_absent (by decide)]
    rfl
  induction path generalizing page with
  | nil => exact Or.inl ⟨rfl, (Option.some.inj h).symm⟩
  | cons next rest ih =>
      obtain ⟨parent, hparent, hchild⟩ := tableAt_cons_some kind h
      by_cases hentry : parent = rootFrame ∧ next = 0
      · obtain ⟨rfl, rfl⟩ := hentry
        rcases ih hparent with ⟨rfl, _⟩ | ⟨_, hpage⟩
        · have hlink : (oneTableSpace flags).tables rootFrame 0 = splitLink pdptFrame flags := rfl
          rw [hlink, kind_splitLink _ _ (by decide)] at hchild
          exact Or.inr ⟨rfl, (Option.some.inj hchild).symm⟩
        · exact absurd hpage (by decide)
      · have hzero : (oneTableSpace flags).tables parent next = 0#64 := if_neg hentry
        rw [hzero, hempty] at hchild
        cases hchild

theorem wellFormed_oneTableSpace (flags : Word) : WellFormed (oneTableSpace flags) rootFrame :=
  wellFormed_of_twoTables rfl fun _ _ => tableAt_oneTableSpace

/-- A page mapped for user access below a table of the kernel. -/
theorem not_usable_oneTable :
    WellFormed (oneTableSpace 0#64) rootFrame ∧
      (vmmMap (oneTableSpace 0#64) rootFrame 0x400000#64 0x9000#64 (vmmWrite ||| vmmUser)).1 =
        true ∧
      ¬ UsableAt (vmmMap (oneTableSpace 0#64) rootFrame 0x400000#64 0x9000#64
        (vmmWrite ||| vmmUser)).2 rootFrame (vmmWrite ||| vmmUser) 0x400000#64 := by
  have h := wellFormed_oneTableSpace 0#64
  have hdone : (vmmMap (oneTableSpace 0#64) rootFrame 0x400000#64 0x9000#64
      (vmmWrite ||| vmmUser)).1 = true := by decide +kernel
  refine ⟨h, hdone, fun husable => ?_⟩
  have hlink : LinkAt (oneTableSpace 0#64) rootFrame (pathOf (indices 0x400000#64) 1)
      (splitLink pdptFrame 0#64) := linkAt_iff.mpr ⟨rootFrame, rfl, rfl, by decide⟩
  have hafter := (vmmMap_linksGrow _ _ 0x400000#64 0x9000#64 (vmmWrite ||| vmmUser) h).kept _ _
    hlink
  have hgrants := (usableAt_iff_entryAt.mp husable).2 0 _ hafter.1
  exact absurd hgrants (by decide)

end EigenOS.Paging
