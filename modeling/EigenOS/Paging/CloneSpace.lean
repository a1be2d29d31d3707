import EigenOS.Paging.ForkCopy
import EigenOS.Paging.MapFrame

/-!
# Cloning an address space

`vmm_clone_current_pml4` shares the kernel half of the tables with the new root and clones the
tables of the user half into new frames.  The pages that the tables map are shared.
-/

namespace EigenOS.Paging

open EigenOS.RadixTree Function

def setEntry (m : PageTables) (table : PhysPage) (j : TableIndex) (entry : Word) : PageTables :=
  { m with tables := write m.tables table j entry }

/-- A round of the loop over a table: an entry is copied, or the table it names is cloned. -/
def cloneEntry (copies : TableIndex → Word → Bool)
    (cloneBelow : PhysPage → PageTables → Option PhysPage × PageTables)
    (source dest : PhysPage) (m : PageTables) (j : TableIndex) : Bool × PageTables :=
  let entry := m.tables source j
  if isSet entry vmmPresent = false then (true, m)
  else if copies j entry = true then (true, setEntry m dest j entry)
  else
    match cloneBelow (target entry) m with
    | (none, m) => (false, m)
    | (some child, m) => (true, setEntry m dest j (childEntry child entry))

/-- A table for the copies of the entries of another one. -/
def cloneWith (copies : TableIndex → Word → Bool)
    (cloneBelow : PhysPage → PageTables → Option PhysPage × PageTables)
    (source : PhysPage) (m : PageTables) : Option PhysPage × PageTables :=
  match m.supply with
  | [] => (none, m)
  | page :: rest =>
      match forEntries (cloneEntry copies cloneBelow source page) allEntries
          { tables := update m.tables page fun _ => 0#64, supply := rest } with
      | (false, m) => (none, m)
      | (true, m) => (some page, m)

/-- `clone_table` at level `2 - below`. -/
def cloneTable : ℕ → PhysPage → PageTables → Option PhysPage × PageTables
  | 0 => cloneWith (fun _ _ => true) fun _ m => (none, m)
  | below + 1 => cloneWith (fun _ entry => isSet entry vmmHuge) (cloneTable below)

/-- `vmm_clone_current_pml4` in the address space of `active`. -/
def vmmCloneCurrentPml4 (m : PageTables) (active : PhysPage) : Option PhysPage × PageTables :=
  cloneWith (fun i _ => decide (256 ≤ i.val)) (cloneTable 2) active m

section SetEntry

variable {m : PageTables} {table other : PhysPage} {j i : TableIndex} {entry : Word}

theorem setEntry_self : (setEntry m table j entry).tables table j = entry :=
  write_self _ _ _ _

theorem setEntry_of_ne (hne : i ≠ j) :
    (setEntry m table j entry).tables table i = m.tables table i :=
  write_of_ne _ _ fun h => hne h.2

theorem setEntry_other (hne : other ≠ table) :
    (setEntry m table j entry).tables other = m.tables other := by
  funext i
  exact write_of_ne _ _ fun h => hne h.1

end SetEntry

/-! ## What a clone is -/

def copiedAsIs (path : List TableIndex) (j : TableIndex) (entry : Word) : Bool :=
  match path with
  | [] => decide (256 ≤ j.val)
  | _ :: above => decide (3 ≤ above.length + 1) || isSet entry vmmHuge

/-- An entry of a clone against one of the original.  The tables that have been cloned are
paired with their clones. -/
def EntryCloned (clones : List (PhysPage × PhysPage)) (asIs : Bool) (entry clone : Word) : Prop :=
  if isSet entry vmmPresent = false then clone = 0#64
  else if asIs = true then clone = entry
  else ∃ page, (target entry, page) ∈ clones ∧ clone = childEntry page entry

def TableCloned (m m' : PageTables) (clones : List (PhysPage × PhysPage))
    (path : List TableIndex) (source dest : PhysPage) : Prop :=
  ∀ j, EntryCloned clones (copiedAsIs path j (m.tables source j)) (m.tables source j)
    (m'.tables dest j)

section Entries

variable {clones clones' : List (PhysPage × PhysPage)} {asIs : Bool} {entry clone : Word}

theorem entryCloned_of_absent (habsent : isSet entry vmmPresent = false) :
    EntryCloned clones asIs entry clone ↔ clone = 0#64 := by
  unfold EntryCloned
  rw [if_pos habsent]

theorem entryCloned_of_asIs (hpresent : isSet entry vmmPresent = true) :
    EntryCloned clones true entry clone ↔ clone = entry := by
  have hnot : ¬ isSet entry vmmPresent = false := ne_false_of_eq_true hpresent
  unfold EntryCloned
  rw [if_neg hnot, if_pos rfl]

theorem entryCloned_of_table (hpresent : isSet entry vmmPresent = true) :
    EntryCloned clones false entry clone ↔
      ∃ page, (target entry, page) ∈ clones ∧ clone = childEntry page entry := by
  have hnot : ¬ isSet entry vmmPresent = false := ne_false_of_eq_true hpresent
  unfold EntryCloned
  rw [if_neg hnot, if_neg Bool.false_ne_true]

theorem EntryCloned.mono (h : EntryCloned clones asIs entry clone) (hsub : clones ⊆ clones') :
    EntryCloned clones' asIs entry clone := by
  cases hpresent : isSet entry vmmPresent with
  | false =>
      rw [entryCloned_of_absent hpresent] at h ⊢
      exact h
  | true =>
      cases asIs with
      | true =>
          rw [entryCloned_of_asIs hpresent] at h ⊢
          exact h
      | false =>
          rw [entryCloned_of_table hpresent] at h ⊢
          obtain ⟨page, hpage, hclone⟩ := h
          exact ⟨page, hsub hpage, hclone⟩

end Entries

theorem tableAt_of_not_asIs {m : PageTables} {root source : PhysPage} {path : List TableIndex}
    {j : TableIndex} (hpath : TableAt m root path source)
    (hpresent : isSet (m.tables source j) vmmPresent = true)
    (hasIs : copiedAsIs path j (m.tables source j) = false) :
    TableAt m root (j :: path) (target (m.tables source j)) := by
  refine tableAt_cons kind hpath ?_
  rw [kind_of_table hpresent]
  · rfl
  · cases path with
    | nil => exact Nat.succ_pos 2
    | cons i above =>
        have hdepth := (Bool.or_eq_false_iff.mp hasIs).1
        exact Nat.lt_of_not_le (of_decide_eq_false hdepth)
  · cases path with
    | nil => exact Or.inl rfl
    | cons i above => exact Or.inr (Bool.or_eq_false_iff.mp hasIs).2

/-! ## What a part of the clone does -/

/-- Memory while an address space is being cloned. -/
structure Cloning (m₀ : PageTables) (root : PhysPage) (m : PageTables) : Prop where
  kept : ∀ path page, TableAt m₀ root path page → m.tables page = m₀.tables page
  fresh : ∀ page ∈ m.supply, Fresh kind m₀.tables root page
  distinct : m.supply.Nodup

/-- Frames are taken from the supply for clones, and nothing else is written but the table that
is being filled. -/
structure Cloned (m₀ : PageTables) (root : PhysPage) (filling : List PhysPage)
    (m m' : PageTables) (clones : List (PhysPage × PhysPage)) : Prop where
  supply : m.supply = clones.map Prod.snd ++ m'.supply
  others : ∀ page, page ∉ clones.map Prod.snd → page ∉ filling →
    m'.tables page = m.tables page
  tables : ∀ source dest, (source, dest) ∈ clones → ∀ path, TableAt m₀ root path source →
    TableCloned m₀ m' clones path source dest

/-- A function that clones the tables of a level. -/
def Clones (m₀ : PageTables) (root : PhysPage) (depth : ℕ)
    (clone : PhysPage → PageTables → Option PhysPage × PageTables) : Prop :=
  ∀ path source, TableAt m₀ root path source → path.length = depth → ∀ m m' dest,
    Cloning m₀ root m → clone source m = (some dest, m') →
      ∃ clones, Cloned m₀ root [] m m' clones ∧ (source, dest) ∈ clones

section Cloned

variable {m₀ m mid m' : PageTables} {root source dest : PhysPage} {filling : List PhysPage}
  {clones first later : List (PhysPage × PhysPage)} {path : List TableIndex}

theorem cloned_self : Cloned m₀ root filling m m [] :=
  ⟨rfl, fun _ _ _ => rfl, nofun⟩

theorem Cloned.mem_supply (h : Cloned m₀ root filling m m' clones) {page : PhysPage}
    (hpage : page ∈ clones.map Prod.snd) : page ∈ m.supply := by
  rw [h.supply]
  exact List.mem_append_left _ hpage

theorem Cloned.supply_subset (h : Cloned m₀ root filling m m' clones) :
    m'.supply ⊆ m.supply := by
  rw [h.supply]
  exact List.subset_append_right _ _

theorem Cloning.after (h : Cloning m₀ root m) (hrun : Cloned m₀ root filling m m' clones)
    (hfilling : ∀ page ∈ filling, Fresh kind m₀.tables root page) : Cloning m₀ root m' where
  kept := by
    intro path page hpage
    rw [hrun.others page, h.kept path page hpage]
    · intro hmem
      exact h.fresh page (hrun.mem_supply hmem) path hpage
    · intro hmem
      exact hfilling page hmem path hpage
  fresh := fun page hpage => h.fresh page (hrun.supply_subset hpage)
  distinct := by
    have hdistinct := h.distinct
    rw [hrun.supply] at hdistinct
    exact (List.nodup_append.mp hdistinct).2.1

theorem Cloned.append (hfirst : Cloned m₀ root filling m mid first)
    (hlater : Cloned m₀ root filling mid m' later) (hdistinct : m.supply.Nodup)
    (hfilling : ∀ page ∈ filling, page ∉ m.supply) :
    Cloned m₀ root filling m m' (first ++ later) where
  supply := by rw [hfirst.supply, hlater.supply, List.map_append, List.append_assoc]
  others := by
    intro page hpage hnot
    rw [List.map_append, List.mem_append, not_or] at hpage
    rw [hlater.others page hpage.2 hnot, hfirst.others page hpage.1 hnot]
  tables := by
    intro source dest hmem path hpath j
    rcases List.mem_append.mp hmem with hmem | hmem
    · have hdest : dest ∈ first.map Prod.snd := List.mem_map_of_mem hmem
      -- the frames of the first part are not written by the later one
      have hsame : m'.tables dest = mid.tables dest := by
        apply hlater.others
        · intro hin
          rw [hfirst.supply] at hdistinct
          exact (List.nodup_append.mp hdistinct).2.2 dest hdest dest (hlater.mem_supply hin) rfl
        · intro hin
          exact hfilling dest hin (hfirst.mem_supply hdest)
      rw [hsame]
      exact (hfirst.tables source dest hmem path hpath j).mono (List.subset_append_left _ _)
    · exact (hlater.tables source dest hmem path hpath j).mono (List.subset_append_right _ _)

end Cloned

/-! ## The loops of the source -/

section Loops

variable {m₀ m m' : PageTables} {root source dest : PhysPage} {path : List TableIndex}
  {copies : TableIndex → Word → Bool}
  {cloneBelow : PhysPage → PageTables → Option PhysPage × PageTables}

/-- The table that is being filled is a frame that has been taken for it. -/
structure Filling (m₀ : PageTables) (root dest : PhysPage) (m : PageTables) : Prop where
  taken : dest ∉ m.supply
  fresh : Fresh kind m₀.tables root dest

theorem cloneEntry_cloned {j : TableIndex} (hpath : TableAt m₀ root path source)
    (hcopies : ∀ j entry, copies j entry = copiedAsIs path j entry)
    (hbelow : Clones m₀ root (path.length + 1) cloneBelow) (h : Cloning m₀ root m)
    (hfilling : Filling m₀ root dest m) (hempty : m.tables dest j = 0#64)
    (hround : cloneEntry copies cloneBelow source dest m j = (true, m')) :
    ∃ clones, Cloned m₀ root [dest] m m' clones ∧
      (∀ i, i ≠ j → m'.tables dest i = m.tables dest i) ∧
        EntryCloned clones (copiedAsIs path j (m₀.tables source j)) (m₀.tables source j)
          (m'.tables dest j) := by
  unfold cloneEntry at hround
  rw [h.kept path source hpath] at hround
  dsimp only at hround
  rw [hcopies] at hround
  cases hpresent : isSet (m₀.tables source j) vmmPresent with
  | false =>
      rw [if_pos hpresent] at hround
      cases hround
      exact ⟨[], cloned_self, fun _ _ => rfl, (entryCloned_of_absent hpresent).mpr hempty⟩
  | true =>
      rw [if_neg (ne_false_of_eq_true hpresent)] at hround
      cases hasIs : copiedAsIs path j (m₀.tables source j) with
      | true =>
          rw [if_pos hasIs] at hround
          cases hround
          refine ⟨[], ⟨rfl, ?_, nofun⟩, fun i hi => setEntry_of_ne hi, ?_⟩
          · intro page _ hnot
            exact setEntry_other fun heq => hnot (List.mem_singleton.mpr heq)
          · exact (entryCloned_of_asIs hpresent).mpr setEntry_self
      | false =>
          rw [if_neg (ne_true_of_eq_false hasIs)] at hround
          have hchildAt := tableAt_of_not_asIs hpath hpresent hasIs
          cases hclone : cloneBelow (target (m₀.tables source j)) m with
          | mk child mid =>
              rw [hclone] at hround
              cases child with
              | none => cases hround
              | some child =>
                  cases hround
                  obtain ⟨clones, hrun, hmem⟩ :=
                    hbelow (j :: path) _ hchildAt rfl m mid child h hclone
                  have hnotDest : ∀ {page}, page ∈ clones.map Prod.snd → page ≠ dest := by
                    rintro page hpage rfl
                    exact hfilling.taken (hrun.mem_supply hpage)
                  have hdest : mid.tables dest = m.tables dest :=
                    hrun.others dest (fun hin => hnotDest hin rfl) List.not_mem_nil
                  refine ⟨clones, ⟨hrun.supply, ?_, ?_⟩, ?_, ?_⟩
                  · intro page hpage hnot
                    have hne : page ≠ dest := fun heq => hnot (List.mem_singleton.mpr heq)
                    rw [setEntry_other hne, hrun.others page hpage List.not_mem_nil]
                  · intro source' dest' hpair path' hpath' i
                    have hne : dest' ≠ dest := hnotDest (List.mem_map_of_mem hpair)
                    rw [setEntry_other hne]
                    exact hrun.tables source' dest' hpair path' hpath' i
                  · intro i hi
                    rw [setEntry_of_ne hi, hdest]
                  · exact (entryCloned_of_table hpresent).mpr ⟨child, hmem, setEntry_self⟩

theorem forEntries_cloned {entries : List TableIndex} (hnodup : entries.Nodup)
    (hpath : TableAt m₀ root path source)
    (hcopies : ∀ j entry, copies j entry = copiedAsIs path j entry)
    (hbelow : Clones m₀ root (path.length + 1) cloneBelow) (h : Cloning m₀ root m)
    (hfilling : Filling m₀ root dest m) (hempty : ∀ j ∈ entries, m.tables dest j = 0#64)
    (hloop : forEntries (cloneEntry copies cloneBelow source dest) entries m = (true, m')) :
    ∃ clones, Cloned m₀ root [dest] m m' clones ∧
      (∀ i, i ∉ entries → m'.tables dest i = m.tables dest i) ∧
        ∀ j ∈ entries, EntryCloned clones (copiedAsIs path j (m₀.tables source j))
          (m₀.tables source j) (m'.tables dest j) := by
  induction entries generalizing m with
  | nil =>
      cases hloop
      exact ⟨[], cloned_self, fun _ _ => rfl, nofun⟩
  | cons j rest ih =>
      obtain ⟨hnot, hrest⟩ := List.nodup_cons.mp hnodup
      rw [forEntries] at hloop
      cases hround : cloneEntry copies cloneBelow source dest m j with
      | mk ok mid =>
          rw [hround] at hloop
          cases ok with
          | false => cases hloop
          | true =>
              obtain ⟨first, hrun, hothers, hentry⟩ := cloneEntry_cloned hpath hcopies hbelow h
                hfilling (hempty j List.mem_cons_self) hround
              have hfresh : ∀ page ∈ [dest], Fresh kind m₀.tables root page := by
                intro page hpage
                rw [List.mem_singleton.mp hpage]
                exact hfilling.fresh
              have htaken : ∀ page ∈ [dest], page ∉ m.supply := by
                intro page hpage
                rw [List.mem_singleton.mp hpage]
                exact hfilling.taken
              have hnext : Filling m₀ root dest mid :=
                ⟨fun hin => hfilling.taken (hrun.supply_subset hin), hfilling.fresh⟩
              have hstill : ∀ i ∈ rest, mid.tables dest i = 0#64 := by
                intro i hi
                rw [hothers i fun heq => hnot (heq ▸ hi)]
                exact hempty i (List.mem_cons_of_mem j hi)
              obtain ⟨later, hrunLater, hothersLater, hentryLater⟩ :=
                ih hrest (h.after hrun hfresh) hnext hstill hloop
              refine ⟨first ++ later, hrun.append hrunLater h.distinct htaken, ?_, ?_⟩
              · intro i hi
                rw [List.mem_cons, not_or] at hi
                rw [hothersLater i hi.2, hothers i hi.1]
              · intro i hi
                rcases List.mem_cons.mp hi with heq | hmem
                · subst heq
                  rw [hothersLater i hnot]
                  exact hentry.mono (List.subset_append_left first later)
                · exact (hentryLater i hmem).mono (List.subset_append_right first later)

theorem cloneWith_cloned (htree : IsTree kind m₀.tables root) (hpath : TableAt m₀ root path source)
    (hcopies : ∀ j entry, copies j entry = copiedAsIs path j entry)
    (hbelow : Clones m₀ root (path.length + 1) cloneBelow) (h : Cloning m₀ root m)
    (hclone : cloneWith copies cloneBelow source m = (some dest, m')) :
    ∃ clones, Cloned m₀ root [] m m' clones ∧ (source, dest) ∈ clones := by
  unfold cloneWith at hclone
  cases hsupply : m.supply with
  | nil =>
      rw [hsupply] at hclone
      cases hclone
  | cons page rest =>
      rw [hsupply] at hclone
      dsimp only at hclone
      generalize hstart : PageTables.mk (update m.tables page fun _ => 0#64) rest = start
        at hclone
      have hrest : start.supply = rest := by rw [← hstart]
      have hsame : ∀ other, other ≠ page → start.tables other = m.tables other := by
        intro other hne
        rw [← hstart]
        exact update_of_ne hne _ _
      have hzero : start.tables page = fun _ => 0#64 := by
        rw [← hstart]
        exact update_self _ _ _
      have hdistinct := h.distinct
      rw [hsupply] at hdistinct
      obtain ⟨hpage, hnodup⟩ := List.nodup_cons.mp hdistinct
      have hfresh : ∀ other ∈ page :: rest, Fresh kind m₀.tables root other := hsupply ▸ h.fresh
      have hpageFresh := hfresh page List.mem_cons_self
      have hcloning : Cloning m₀ root start := by
        refine ⟨?_, ?_, hrest ▸ hnodup⟩
        · intro path other hother
          rw [hsame other, h.kept path other hother]
          rintro rfl
          exact hpageFresh path hother
        · intro other hother
          exact hfresh other (List.mem_cons_of_mem page (hrest ▸ hother))
      have hfilling : Filling m₀ root page start := ⟨hrest ▸ hpage, hpageFresh⟩
      cases hloop : forEntries (cloneEntry copies cloneBelow source page) allEntries start with
      | mk ok after =>
          rw [hloop] at hclone
          cases ok with
          | false => cases hclone
          | true =>
              cases hclone
              obtain ⟨clones, hrun, _, hentries⟩ := forEntries_cloned (List.nodup_finRange 512)
                hpath hcopies hbelow hcloning hfilling (fun j _ => congrFun hzero j) hloop
              have hrestEq : rest = clones.map Prod.snd ++ m'.supply := hrest ▸ hrun.supply
              refine ⟨(source, dest) :: clones, ⟨?_, ?_, ?_⟩, List.mem_cons_self⟩
              · rw [hsupply, hrestEq]
                rfl
              · intro other hother _
                rw [List.map_cons, List.mem_cons, not_or] at hother
                have hne : other ∉ [dest] := fun hin => hother.1 (List.mem_singleton.mp hin)
                rw [hrun.others other hother.2 hne, hsame other hother.1]
              · intro source' dest' hpair path' hpath' j
                rcases List.mem_cons.mp hpair with heq | hmem
                · cases heq
                  cases htree path' path source hpath' hpath
                  exact (hentries j (List.mem_finRange j)).mono (List.subset_cons_self _ _)
                · exact (hrun.tables source' dest' hmem path' hpath' j).mono
                    (List.subset_cons_self _ _)

theorem cloneTable_clones (htree : IsTree kind m₀.tables root) {depth below : ℕ}
    (hdepth : depth + below = 3) (hpos : 0 < depth) : Clones m₀ root depth (cloneTable below) := by
  induction below generalizing depth with
  | zero =>
      intro path source hpath hlength m m' dest h hclone
      rw [cloneTable] at hclone
      refine cloneWith_cloned htree hpath ?_ ?_ h hclone
      · intro j entry
        cases path with
        | nil => exact absurd hlength.symm (Nat.ne_of_gt hpos).elim
        | cons i above =>
            rw [List.length_cons] at hlength
            rw [copiedAsIs, decide_eq_true (by omega : 3 ≤ above.length + 1), Bool.true_or]
      · intro _ _ _ _ _ _ _ _ hnone
        cases hnone
  | succ below ih =>
      intro path source hpath hlength m m' dest h hclone
      rw [cloneTable] at hclone
      refine cloneWith_cloned htree hpath ?_ ?_ h hclone
      · intro j entry
        cases path with
        | nil => exact absurd hlength.symm (Nat.ne_of_gt hpos).elim
        | cons i above =>
            rw [List.length_cons] at hlength
            rw [copiedAsIs, decide_eq_false (by omega : ¬ 3 ≤ above.length + 1), Bool.false_or]
      · rw [hlength]
        exact ih (by omega) (Nat.succ_pos depth)

end Loops

theorem vmmCloneCurrentPml4_cloned {m m' : PageTables} {source new : PhysPage}
    (h : WellFormed m source) (hclone : vmmCloneCurrentPml4 m source = (some new, m')) :
    ∃ clones, Cloned m source [] m m' clones ∧ (source, new) ∈ clones := by
  have hroot : TableAt m source [] source := rfl
  have hcloning : Cloning m source m := ⟨fun _ _ _ => rfl, h.fresh, h.distinct⟩
  exact cloneWith_cloned h.tree hroot (fun _ _ => rfl)
    (cloneTable_clones h.tree rfl Nat.one_pos) hcloning hclone

end EigenOS.Paging
