import EigenOS.Paging.ForkCopy
import EigenOS.Paging.MapRights

/-!
# The address space of a forked child

The copy reads tables and pages of the parent and writes new frames only.  What it leaves is
a copy of each table and page that it follows, level by level.
-/

namespace EigenOS.Paging

open EigenOS.RadixTree Function

/-! ## What a copy reads and what it leaves -/

/-- Whether the loop of a level follows an entry; `levels` counts the levels below it.  The
outermost loop ends with the user half. -/
def follows (levels : ℕ) (i : TableIndex) (entry : Word) : Bool :=
  isSet entry vmmPresent &&
    (levels == 0 || levels == 3 && decide (i.val < 256) || levels != 3 && !isSet entry vmmHuge)

/-- The tables and pages that are read when a table with some levels below it is copied. -/
def Reads (tables : Tables) : ℕ → PhysPage → PhysPage → Prop
  | 0, source, page => page = source
  | levels + 1, source, page => page = source ∨ ∃ i, follows levels i (tables source i) = true ∧
      Reads tables levels (target (tables source i)) page

/-- An entry of the child against one of the parent. -/
def EntryCopied (used : List PhysPage) (below : PhysPage → PhysPage → Prop) (follow : Bool)
    (entry child : Word) : Prop :=
  if follow then ∃ page ∈ used, child = childEntry page entry ∧ below (target entry) page
  else child = 0#64

def CopyOf (used : List PhysPage) (tables : Tables) : ℕ → PhysPage → PhysPage → Prop
  | 0, source, dest => tables dest = tables source
  | levels + 1, source, dest => ∀ i, EntryCopied used (CopyOf used tables levels)
      (follows levels i (tables source i)) (tables source i) (tables dest i)

theorem reads_self (tables : Tables) (levels : ℕ) (source : PhysPage) :
    Reads tables levels source source := by
  cases levels with
  | zero => rfl
  | succ levels => exact Or.inl rfl

theorem Reads.below {tables : Tables} {levels : ℕ} {source page : PhysPage} {i : TableIndex}
    (hfollow : follows levels i (tables source i) = true)
    (hread : Reads tables levels (target (tables source i)) page) :
    Reads tables (levels + 1) source page :=
  Or.inr ⟨i, hfollow, hread⟩

theorem reads_congr {tables tables' : Tables} {levels : ℕ} {source page : PhysPage}
    (hsame : ∀ page, Reads tables levels source page → tables' page = tables page) :
    Reads tables' levels source page ↔ Reads tables levels source page := by
  induction levels generalizing source with
  | zero => exact Iff.rfl
  | succ levels ih =>
      have hsource : tables' source = tables source := hsame source (reads_self _ _ _)
      unfold Reads
      rw [hsource]
      apply or_congr_right
      apply exists_congr
      intro i
      apply and_congr_right
      intro hfollow
      exact ih fun page hread => hsame page (Reads.below hfollow hread)

theorem EntryCopied.mono {used used' : List PhysPage} {below below' : PhysPage → PhysPage → Prop}
    {follow : Bool} {entry child : Word} (h : EntryCopied used below follow entry child)
    (hsub : used ⊆ used')
    (hbelow : follow = true → ∀ page ∈ used, below (target entry) page →
      below' (target entry) page) : EntryCopied used' below' follow entry child := by
  cases follow with
  | false => exact h
  | true =>
      obtain ⟨page, hpage, hchild, hcopy⟩ := h
      exact ⟨page, hsub hpage, hchild, hbelow rfl page hpage hcopy⟩

theorem CopyOf.mono {used used' : List PhysPage} {tables tables' : Tables} {levels : ℕ}
    {source dest : PhysPage} (h : CopyOf used tables levels source dest) (hsub : used ⊆ used')
    (hread : ∀ page, Reads tables levels source page → tables' page = tables page)
    (hused : ∀ page ∈ used, tables' page = tables page) (hdest : tables' dest = tables dest) :
    CopyOf used' tables' levels source dest := by
  induction levels generalizing source dest with
  | zero =>
      have hsource : tables' source = tables source := hread source rfl
      unfold CopyOf
      rw [hdest, hsource]
      exact h
  | succ levels ih =>
      have hsource : tables' source = tables source := hread source (reads_self _ _ _)
      intro i
      rw [hsource, hdest]
      apply (h i).mono hsub
      intro hfollow page hpage hcopy
      exact ih hcopy (fun other hother => hread other (Reads.below hfollow hother)) (hused page hpage)

/-! ## What a part of the copy does -/

/-- The frames that are going to be allocated are none that the copy reads or fills. -/
structure Apart (m : PageTables) (levels : ℕ) (source dest : PhysPage) : Prop where
  distinct : m.supply.Nodup
  fresh : dest ∉ m.supply
  reads : ∀ page, Reads m.tables levels source page → page ∉ m.supply ∧ page ≠ dest

/-- Frames are taken from the supply, and nothing else but the table is written. -/
structure Filled (m m' : PageTables) (dest : PhysPage) (used : List PhysPage) : Prop where
  supply : m.supply = used ++ m'.supply
  others : ∀ page, page ∉ used → page ≠ dest → m'.tables page = m.tables page

theorem Filled.mem_supply {m m' : PageTables} {dest page : PhysPage} {used : List PhysPage}
    (h : Filled m m' dest used) (hpage : page ∈ used) : page ∈ m.supply := by
  rw [h.supply]
  exact List.mem_append_left _ hpage

theorem Filled.reads {m m' : PageTables} {levels : ℕ} {source dest page : PhysPage}
    {used : List PhysPage} (h : Filled m m' dest used) (hapart : Apart m levels source dest)
    (hread : Reads m.tables levels source page) : m'.tables page = m.tables page := by
  obtain ⟨hfree, hne⟩ := hapart.reads page hread
  exact h.others page (fun hpage => hfree (h.mem_supply hpage)) hne

theorem Apart.after {m m' : PageTables} {levels : ℕ} {source dest : PhysPage}
    {used : List PhysPage} (hapart : Apart m levels source dest) (h : Filled m m' dest used) :
    Apart m' levels source dest := by
  have hsub : ∀ page ∈ m'.supply, page ∈ m.supply := by
    intro page hpage
    rw [h.supply]
    exact List.mem_append_right _ hpage
  have hdistinct := hapart.distinct
  rw [h.supply] at hdistinct
  refine ⟨(List.nodup_append.mp hdistinct).2.1, fun hdest => hapart.fresh (hsub dest hdest), ?_⟩
  intro page hread
  rw [reads_congr fun page => h.reads hapart] at hread
  obtain ⟨hfree, hne⟩ := hapart.reads page hread
  exact ⟨fun hpage => hfree (hsub page hpage), hne⟩

/-- A function that copies a table, or a page, with some levels below it. -/
def Copies (levels : ℕ) (copy : PhysPage → PhysPage → PageTables → Bool × PageTables) : Prop :=
  ∀ m m' source dest, Apart m levels source dest → (∀ i, m.tables dest i = 0#64) →
    copy source dest m = (true, m') →
      ∃ used, Filled m m' dest used ∧ CopyOf used m'.tables levels source dest

/-- The body of a loop over some entries copies one of them. -/
def CopiesEntry (levels : ℕ) (entries : List TableIndex)
    (body : PhysPage → PhysPage → PageTables → TableIndex → Bool × PageTables) : Prop :=
  ∀ m m' source dest, ∀ i ∈ entries, Apart m (levels + 1) source dest → m.tables dest i = 0#64 →
    body source dest m i = (true, m') →
      ∃ used, Filled m m' dest used ∧ (∀ j, j ≠ i → m'.tables dest j = m.tables dest j) ∧
        EntryCopied used (CopyOf used m'.tables levels) (follows levels i (m.tables source i))
          (m.tables source i) (m'.tables dest i)

section Loops

variable {levels : ℕ}
  {body : PhysPage → PhysPage → PageTables → TableIndex → Bool × PageTables}

theorem forEntries_copies {entries : List TableIndex} {source dest : PhysPage}
    (hbody : CopiesEntry levels entries body) (hnodup : entries.Nodup) {m m' : PageTables}
    (hapart : Apart m (levels + 1) source dest) (hempty : ∀ i ∈ entries, m.tables dest i = 0#64)
    (hloop : forEntries (body source dest) entries m = (true, m')) :
    ∃ used, Filled m m' dest used ∧ (∀ j, j ∉ entries → m'.tables dest j = m.tables dest j) ∧
      ∀ i ∈ entries, EntryCopied used (CopyOf used m'.tables levels)
        (follows levels i (m.tables source i)) (m.tables source i) (m'.tables dest i) := by
  induction entries generalizing m with
  | nil =>
      cases hloop
      exact ⟨[], ⟨rfl, fun _ _ _ => rfl⟩, fun _ _ => rfl, nofun⟩
  | cons i rest ih =>
      obtain ⟨hnot, hrest⟩ := List.nodup_cons.mp hnodup
      rw [forEntries] at hloop
      cases hfirst : body source dest m i with
      | mk ok mid =>
          rw [hfirst] at hloop
          cases ok with
          | false => cases hloop
          | true =>
              obtain ⟨first, hfilled, hkept, hcopied⟩ :=
                hbody m mid source dest i List.mem_cons_self hapart
                  (hempty i List.mem_cons_self) hfirst
              have hmid := hapart.after hfilled
              have hsource : mid.tables source = m.tables source :=
                hfilled.reads hapart (reads_self _ _ _)
              have hstill : ∀ j ∈ rest, mid.tables dest j = 0#64 := by
                intro j hj
                rw [hkept j fun heq => hnot (heq ▸ hj)]
                exact hempty j (List.mem_cons_of_mem i hj)
              obtain ⟨later, hlater, hkeptLater, hcopiedLater⟩ :=
                ih (fun m m' source dest j hj => hbody m m' source dest j
                  (List.mem_cons_of_mem i hj)) hrest hmid hstill hloop
              have hsupply : m.supply = (first ++ later) ++ m'.supply := by
                rw [hfilled.supply, hlater.supply, List.append_assoc]
              refine ⟨first ++ later, ⟨hsupply, ?_⟩, ?_, ?_⟩
              · intro page hpage hne
                rw [List.mem_append, not_or] at hpage
                rw [hlater.others page hpage.2 hne, hfilled.others page hpage.1 hne]
              · intro j hj
                rw [List.mem_cons, not_or] at hj
                rw [hkeptLater j hj.2, hkept j hj.1]
              · intro j hj
                rcases List.mem_cons.mp hj with heq | hmem
                · subst heq
                  rw [hkeptLater j hnot]
                  apply hcopied.mono (List.subset_append_left first later)
                  intro hfollow page hpage hcopy
                  -- the frames of the first entry are not among those of the later ones
                  have hunused : ∀ other ∈ first, m'.tables other = mid.tables other := by
                    intro other hother
                    apply hlater.others other
                    · have hdistinct := hapart.distinct
                      rw [hfilled.supply] at hdistinct
                      intro hlaterMem
                      exact (List.nodup_append.mp hdistinct).2.2 other hother other
                        (hlater.mem_supply hlaterMem) rfl
                    · rintro rfl
                      exact hapart.fresh (hfilled.mem_supply hother)
                  apply hcopy.mono (List.subset_append_left first later) ?_ hunused
                    (hunused page hpage)
                  intro other hother
                  apply hlater.reads hmid
                  rw [← hsource] at hfollow hother
                  exact Reads.below hfollow hother
                · have hentry := hcopiedLater j hmem
                  rw [hsource] at hentry
                  apply hentry.mono (List.subset_append_right first later)
                  intro _ page hpage hcopy
                  exact hcopy.mono (List.subset_append_right first later) (fun _ _ => rfl)
                    (fun _ _ => rfl) rfl

theorem copies_of_loop (hbody : CopiesEntry levels allEntries body)
    {copy : PhysPage → PhysPage → PageTables → Bool × PageTables}
    (hcopy : ∀ source dest m, copy source dest m =
      forEntries (body source dest) allEntries m) : Copies (levels + 1) copy := by
  intro m m' source dest hapart hempty hloop
  rw [hcopy] at hloop
  obtain ⟨used, hfilled, _, hcopied⟩ :=
    forEntries_copies hbody (List.nodup_finRange 512) hapart (fun i _ => hempty i) hloop
  refine ⟨used, hfilled, ?_⟩
  intro i
  have hentry := hcopied i (List.mem_finRange i)
  rw [hfilled.reads hapart (reads_self _ _ _)]
  exact hentry

end Loops

/-! ## The loops of the source -/

section Attach

variable {m : PageTables} {dest page : PhysPage} {i : TableIndex} {entries : TableIndex → Word}
  {link : Word}

theorem attach_tables_other {other : PhysPage} (hfresh : other ≠ page)
    (hother : other ≠ dest) :
    attach m.tables dest i page entries link other = m.tables other := by
  funext j
  exact attach_of_ne hfresh fun h => hother h.1

theorem attach_tables_fresh (hne : page ≠ dest) :
    attach m.tables dest i page entries link page = entries := by
  funext j
  exact attach_fresh hne j

variable (m dest page i entries link) in
theorem filled_attach (rest : List PhysPage) (hsupply : m.supply = page :: rest) :
    Filled m { tables := attach m.tables dest i page entries link, supply := rest } dest
      [page] where
  supply := hsupply
  others := by
    intro other hother hdest
    exact attach_tables_other (fun heq => hother (List.mem_singleton.mpr heq)) hdest

theorem ne_dest_of_apart {levels : ℕ} {source : PhysPage} {rest : List PhysPage}
    (hapart : Apart m levels source dest) (hsupply : m.supply = page :: rest) : page ≠ dest := by
  rintro rfl
  apply hapart.fresh
  rw [hsupply]
  exact List.mem_cons_self

end Attach

theorem entryCopied_skip {levels : ℕ} {m : PageTables} {source dest : PhysPage} {i : TableIndex}
    (hempty : m.tables dest i = 0#64) (hfollow : follows levels i (m.tables source i) = false) :
    ∃ used, Filled m m dest used ∧ (∀ j, j ≠ i → m.tables dest j = m.tables dest j) ∧
      EntryCopied used (CopyOf used m.tables levels) (follows levels i (m.tables source i))
        (m.tables source i) (m.tables dest i) := by
  refine ⟨[], ⟨rfl, fun _ _ _ => rfl⟩, fun _ _ => rfl, ?_⟩
  rw [hfollow]
  exact hempty

theorem copyPage_copies : CopiesEntry 0 allEntries copyPage := by
  intro m m' source dest i _ hapart hempty hcopy
  unfold copyPage at hcopy
  dsimp only at hcopy
  by_cases habsent : isSet (m.tables source i) vmmPresent = false
  · rw [if_pos habsent] at hcopy
    cases hcopy
    apply entryCopied_skip hempty
    unfold follows
    rw [habsent]
    rfl
  · rw [if_neg habsent] at hcopy
    have hfollow : follows 0 i (m.tables source i) = true := by
      unfold follows
      rw [Bool.not_eq_false] at habsent
      rw [habsent]
      rfl
    cases hsupply : m.supply with
    | nil =>
        rw [hsupply] at hcopy
        cases hcopy
    | cons page rest =>
        rw [hsupply] at hcopy
        cases hcopy
        have hne := ne_dest_of_apart hapart hsupply
        have hfilled : Filled m _ dest [page] := filled_attach m dest page i
          (m.tables (target (m.tables source i))) (childEntry page (m.tables source i)) rest
          hsupply
        refine ⟨[page], hfilled, ?_, ?_⟩
        · intro j hj
          exact attach_of_ne hne.symm fun h => hj h.2
        · rw [hfollow]
          refine ⟨page, List.mem_singleton_self page, attach_self, ?_⟩
          have htarget := hfilled.reads hapart (Reads.below hfollow (reads_self _ _ _))
          unfold CopyOf
          rw [htarget]
          exact attach_tables_fresh hne

theorem copyTable_copies {levels : ℕ} {skipsHuge : Bool} {entries : List TableIndex}
    {copyBelow : PhysPage → PhysPage → PageTables → Bool × PageTables}
    (hbelow : Copies (levels + 1) copyBelow)
    (hfollows : ∀ i ∈ entries, ∀ entry, follows (levels + 1) i entry =
      (isSet entry vmmPresent && !(skipsHuge && isSet entry vmmHuge))) :
    CopiesEntry (levels + 1) entries (copyTable skipsHuge copyBelow) := by
  intro m m' source dest i hi hapart hempty hcopy
  have hfollow := hfollows i hi (m.tables source i)
  unfold copyTable at hcopy
  dsimp only at hcopy
  by_cases habsent : isSet (m.tables source i) vmmPresent = false
  · rw [if_pos habsent] at hcopy
    cases hcopy
    apply entryCopied_skip hempty
    rw [hfollow, habsent]
    rfl
  rw [if_neg habsent] at hcopy
  rw [Bool.not_eq_false] at habsent
  by_cases hhuge : (skipsHuge && isSet (m.tables source i) vmmHuge) = true
  · rw [if_pos hhuge] at hcopy
    cases hcopy
    apply entryCopied_skip hempty
    rw [hfollow, habsent, hhuge]
    rfl
  rw [if_neg hhuge] at hcopy
  rw [Bool.not_eq_true] at hhuge
  rw [habsent, hhuge] at hfollow
  replace hfollow : follows (levels + 1) i (m.tables source i) = true := hfollow
  cases hsupply : m.supply with
  | nil =>
      rw [hsupply] at hcopy
      cases hcopy
  | cons page rest =>
      rw [hsupply] at hcopy
      dsimp only at hcopy
      have hne := ne_dest_of_apart hapart hsupply
      have hnodup := hapart.distinct
      rw [hsupply] at hnodup
      obtain ⟨hpage, hrest⟩ := List.nodup_cons.mp hnodup
      have hlinked : Filled m _ dest [page] := filled_attach m dest page i (fun _ => 0#64)
        (childEntry page (m.tables source i)) rest hsupply
      have hread : ∀ other,
          Reads m.tables (levels + 1) (target (m.tables source i)) other →
            attach m.tables dest i page (fun _ => 0#64)
              (childEntry page (m.tables source i)) other = m.tables other :=
        fun other hother => hlinked.reads hapart (Reads.below hfollow hother)
      obtain ⟨used, hfilled, hcopied⟩ := hbelow _ _ _ _ (by
        refine ⟨hrest, hpage, ?_⟩
        intro other hother
        rw [reads_congr hread] at hother
        obtain ⟨hfree, _⟩ := hapart.reads other (Reads.below hfollow hother)
        rw [hsupply, List.mem_cons, not_or] at hfree
        exact ⟨hfree.2, hfree.1⟩) (fun j => congrFun (attach_tables_fresh hne) j) hcopy
      have hrestEq : rest = used ++ m'.supply := hfilled.supply
      have hdest : m'.tables dest =
          attach m.tables dest i page (fun _ => 0#64) (childEntry page (m.tables source i))
            dest := by
        apply hfilled.others dest ?_ hne.symm
        intro hused
        apply hapart.fresh
        rw [hsupply, hrestEq]
        exact List.mem_cons_of_mem page (List.mem_append_left _ hused)
      refine ⟨page :: used, ⟨?_, ?_⟩, ?_, ?_⟩
      · rw [hsupply, hrestEq]
        rfl
      · intro other hother hotherDest
        rw [List.mem_cons, not_or] at hother
        rw [hfilled.others other hother.2 hother.1]
        exact attach_tables_other hother.1 hotherDest
      · intro j hj
        rw [hdest]
        exact attach_of_ne hne.symm fun h => hj h.2
      · rw [hfollow]
        refine ⟨page, List.mem_cons_self, ?_, ?_⟩
        · rw [hdest]
          exact attach_self
        · exact hcopied.mono (List.subset_cons_self page used) (fun _ _ => rfl)
            (fun _ _ => rfl) rfl

theorem copyL1_copies : Copies 1 copyL1 := by
  apply copies_of_loop copyPage_copies
  intro source dest m
  rw [copyL1]

theorem copyL2_copies : Copies 2 copyL2 := by
  have hbody : CopiesEntry 1 allEntries (copyTable true copyL1) :=
    copyTable_copies copyL1_copies fun _ _ _ => rfl
  apply copies_of_loop hbody
  intro source dest m
  rw [copyL2]

theorem copyL3_copies : Copies 3 copyL3 := by
  have hbody : CopiesEntry 2 allEntries (copyTable true copyL2) :=
    copyTable_copies copyL2_copies fun _ _ _ => rfl
  apply copies_of_loop hbody
  intro source dest m
  rw [copyL3]

theorem mem_userEntries (i : TableIndex) : i ∈ userEntries ↔ i.val < 256 := by
  rw [userEntries, List.mem_take_iff_getElem]
  constructor
  · rintro ⟨n, hn, rfl⟩
    simp only [allEntries, List.getElem_finRange, Fin.val_cast]
    omega
  · intro hi
    have hlength : allEntries.length = 512 := List.length_finRange
    have hbound : i.val < min 256 allEntries.length := by omega
    refine ⟨i.val, hbound, ?_⟩
    simp only [allEntries, List.getElem_finRange, Fin.cast_mk, Fin.eta]

theorem copyUserAs_copies {m m' : PageTables} {source dest : PhysPage}
    (hapart : Apart m 4 source dest) (hempty : ∀ i : TableIndex, i.val < 256 →
      m.tables dest i = 0#64) (hcopy : copyUserAs m source dest = (true, m')) :
    ∃ used, Filled m m' dest used ∧ ∀ i : TableIndex, i.val < 256 →
      EntryCopied used (CopyOf used m'.tables 3) (follows 3 i (m.tables source i))
        (m.tables source i) (m'.tables dest i) := by
  have hbody : CopiesEntry 3 userEntries (copyTable false copyL3) := by
    apply copyTable_copies copyL3_copies
    intro i hi entry
    unfold follows
    rw [decide_eq_true ((mem_userEntries i).mp hi)]
    rfl
  have hnodup : userEntries.Nodup := (List.nodup_finRange 512).sublist (List.take_sublist _ _)
  obtain ⟨used, hfilled, _, hcopied⟩ := forEntries_copies hbody hnodup hapart
    (fun i hi => hempty i ((mem_userEntries i).mp hi)) hcopy
  exact ⟨used, hfilled, fun i hi => hcopied i ((mem_userEntries i).mpr hi)⟩

/-! ## The child of a fork -/

/-- No frame that is going to be allocated is a table of the address space, or a page that
its user half maps. -/
structure FramesFree (m : PageTables) (root : PhysPage) : Prop where
  distinct : m.supply.Nodup
  tables : ∀ path page, TableAt m root path page → page ∉ m.supply
  pages : ∀ page, Reads m.tables 4 root page → page ∉ m.supply

/-- What a fork that succeeds leaves in memory. -/
structure Forked (m m' : PageTables) (parent child : PhysPage) (used : List PhysPage) : Prop where
  taken : used ⊆ m.supply
  others : ∀ page, page ∉ m.supply → m'.tables page = m.tables page
  copied : ∀ i : TableIndex, i.val < 256 →
    EntryCopied used (CopyOf used m'.tables 3) (follows 3 i (m'.tables parent i))
      (m'.tables parent i) (m'.tables child i)

/-- The memory after `vmm_new_user_pml4` has taken its frame. -/
def withKernelHalf (m : PageTables) (parent child : PhysPage) (rest : List PhysPage) :
    PageTables where
  tables := update m.tables child fun i =>
    if 256 ≤ i.val then m.tables parent i else 0#64
  supply := rest

theorem forkAddressSpace_eq_some {m m' : PageTables} {parent child : PhysPage}
    (hfork : forkAddressSpace m parent = (some child, m')) :
    ∃ rest, m.supply = child :: rest ∧
      copyUserAs (withKernelHalf m parent child rest) parent child = (true, m') := by
  unfold forkAddressSpace vmmNewUserPml4 at hfork
  cases hsupply : m.supply with
  | nil =>
      rw [hsupply] at hfork
      cases hfork
  | cons page rest =>
      rw [hsupply] at hfork
      dsimp only at hfork
      cases hcopy : copyUserAs (withKernelHalf m parent page rest) parent page with
      | mk ok after =>
          rw [withKernelHalf] at hcopy
          rw [hcopy] at hfork
          cases ok with
          | false => cases hfork
          | true =>
              injection hfork with hchild hafter
              injection hchild with hpage
              subst hpage hafter
              exact ⟨rest, rfl, hcopy⟩

theorem forkAddressSpace_forked {m m' : PageTables} {parent child : PhysPage}
    (hfree : FramesFree m parent) (hfork : forkAddressSpace m parent = (some child, m')) :
    ∃ used, Forked m m' parent child used := by
  obtain ⟨rest, hsupply, hcopy⟩ := forkAddressSpace_eq_some hfork
  have hdistinct := hfree.distinct
  rw [hsupply] at hdistinct
  obtain ⟨hpage, hrest⟩ := List.nodup_cons.mp hdistinct
  have hmid : ∀ other, other ≠ child →
      (withKernelHalf m parent child rest).tables other = m.tables other :=
    fun other hne => update_of_ne hne _ _
  have hread : ∀ other, Reads m.tables 4 parent other → other ∉ rest ∧ other ≠ child := by
    intro other hother
    have hnot := hfree.pages other hother
    rw [hsupply, List.mem_cons, not_or] at hnot
    exact ⟨hnot.2, hnot.1⟩
  have hapart : Apart (withKernelHalf m parent child rest) 4 parent child := by
    refine ⟨hrest, hpage, ?_⟩
    intro other hother
    rw [reads_congr fun other hother => hmid other (hread other hother).2] at hother
    exact hread other hother
  have hempty : ∀ i : TableIndex, i.val < 256 →
      (withKernelHalf m parent child rest).tables child i = 0#64 := by
    intro i hi
    have hchild : (withKernelHalf m parent child rest).tables child =
        fun i => if 256 ≤ i.val then m.tables parent i else 0#64 :=
      update_self child _ m.tables
    rw [hchild]
    exact if_neg (by omega)
  obtain ⟨used, hfilled, hcopied⟩ := copyUserAs_copies hapart hempty hcopy
  have hparent := hfilled.reads hapart (reads_self _ _ _)
  have hsub : used ⊆ rest := fun other hother => hfilled.mem_supply hother
  refine ⟨used, ?_, ?_, ?_⟩
  · rw [hsupply]
    exact fun other hother => List.mem_cons_of_mem child (hsub hother)
  · intro other hother
    rw [hsupply, List.mem_cons, not_or] at hother
    rw [hfilled.others other (fun hmem => hother.2 (hsub hmem)) hother.1]
    exact hmid other hother.1
  · rw [hparent]
    exact hcopied

end EigenOS.Paging
