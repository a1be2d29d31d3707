import Mathlib.Data.List.Basic

/-!
# Radix trees of tables in memory

A table is a page of entries.  An entry is absent, ends the walk or names the
table of the next level.  As long as no page is reached along two paths, a
change of one entry is seen by the walks through that entry and by no other,
and a fresh page is seen by none until it is linked.  Paths are lists of
indices, the last step first.
-/

namespace EigenOS.RadixTree

open Function

inductive Kind (Page : Type*) where
  | absent
  | leaf
  | table (page : Page)

namespace Kind

variable {Page : Type*}

def page : Kind Page → Option Page
  | .table page => some page
  | _ => none

def isLeaf : Kind Page → Bool
  | .leaf => true
  | _ => false

end Kind

variable {Page Index Entry : Type*} (kind : ℕ → Entry → Kind Page)

/-- The table at the end of a path. -/
def tableAt (tables : Page → Index → Entry) (root : Page) : List Index → Option Page
  | [] => some root
  | index :: path =>
      (tableAt tables root path).bind fun page => (kind path.length (tables page index)).page

/-- The entries of a walk, when it ends at a leaf. -/
def walk (tables : Page → Index → Entry) (indices : ℕ → Index) :
    ℕ → ℕ → Page → Option (List Entry)
  | 0, _, _ => none
  | fuel + 1, depth, page =>
      match kind depth (tables page (indices depth)) with
      | .absent => none
      | .leaf => some [tables page (indices depth)]
      | .table child =>
          (walk tables indices fuel (depth + 1) child).map (tables page (indices depth) :: ·)

/-- The path of the first steps of a walk. -/
def pathOf (indices : ℕ → Index) : ℕ → List Index
  | 0 => []
  | depth + 1 => indices depth :: pathOf indices depth

def IsTree (tables : Page → Index → Entry) (root : Page) : Prop :=
  ∀ left right page, tableAt kind tables root left = some page →
    tableAt kind tables root right = some page → left = right

def Fresh (tables : Page → Index → Entry) (root page : Page) : Prop :=
  ∀ path, tableAt kind tables root path ≠ some page

@[simp]
theorem length_pathOf (indices : ℕ → Index) (depth : ℕ) :
    (pathOf indices depth).length = depth := by
  induction depth with
  | zero => rfl
  | succ depth ih => exact congrArg (· + 1) ih

variable {index : Index} {entries : List Entry} {other : Page}

theorem tableAt_cons {tables : Page → Index → Entry} {root page child : Page} {path : List Index}
    (hpath : tableAt kind tables root path = some page)
    (hchild : (kind path.length (tables page index)).page = some child) :
    tableAt kind tables root (index :: path) = some child := by
  rw [tableAt, hpath]
  exact hchild

theorem tableAt_cons_some {tables : Page → Index → Entry} {root child : Page} {path : List Index}
    (h : tableAt kind tables root (index :: path) = some child) :
    ∃ page, tableAt kind tables root path = some page ∧
      (kind path.length (tables page index)).page = some child := by
  rw [tableAt] at h
  exact Option.bind_eq_some_iff.mp h

section Walks

variable {tables tables' : Page → Index → Entry} {root page : Page} {indices : ℕ → Index}

theorem walk_congr (fuel : ℕ) {depth : ℕ}
    (hpage : tableAt kind tables root (pathOf indices depth) = some page)
    (hsame : ∀ n page, tableAt kind tables root (pathOf indices n) = some page →
      tables' page (indices n) = tables page (indices n)) :
    walk kind tables' indices fuel depth page = walk kind tables indices fuel depth page := by
  induction fuel generalizing depth page with
  | zero => rfl
  | succ fuel ih =>
      rw [walk, walk, hsame depth page hpage]
      cases hkind : kind depth (tables page (indices depth)) with
      | absent => rfl
      | leaf => rfl
      | table child =>
          have hchild : tableAt kind tables root (pathOf indices (depth + 1)) = some child := by
            refine tableAt_cons kind hpage ?_
            rw [length_pathOf, hkind]
            rfl
          dsimp only
          rw [ih hchild]

theorem walk_of_steps {indices' : ℕ → Index} {fuel depth : ℕ}
    (h : walk kind tables indices fuel depth page = some entries)
    (hsame : ∀ n, depth ≤ n → n < depth + entries.length → indices' n = indices n) :
    walk kind tables indices' fuel depth page = some entries := by
  induction fuel generalizing depth page entries with
  | zero => cases h
  | succ fuel ih =>
      have hpos : 0 < entries.length := by
        rw [walk] at h
        cases hkind : kind depth (tables page (indices depth)) with
        | absent => rw [hkind] at h; cases h
        | leaf =>
            rw [hkind] at h
            cases h
            exact Nat.one_pos
        | table child =>
            rw [hkind] at h
            obtain ⟨rest, _, rfl⟩ := Option.map_eq_some_iff.mp h
            exact Nat.succ_pos _
      rw [walk] at h ⊢
      rw [hsame depth (Nat.le_refl _) (by omega)]
      cases hkind : kind depth (tables page (indices depth)) with
      | absent => rw [hkind] at h; cases h
      | leaf => rw [hkind] at h; exact h
      | table child =>
          rw [hkind] at h
          obtain ⟨rest, hrest, rfl⟩ := Option.map_eq_some_iff.mp h
          have hchild := ih hrest fun n hlow hhigh => hsame n (by omega) (by
            rw [List.length_cons]
            omega)
          dsimp only
          rw [hchild]
          rfl

theorem walk_eq_some {fuel depth : ℕ}
    (h : walk kind tables indices (fuel + 1) depth page = some entries) :
    ∃ rest, entries = tables page (indices depth) :: rest ∧
      (rest = [] ∧ kind depth (tables page (indices depth)) = .leaf ∨
        ∃ child, kind depth (tables page (indices depth)) = .table child ∧
          walk kind tables indices fuel (depth + 1) child = some rest) := by
  rw [walk] at h
  cases hkind : kind depth (tables page (indices depth)) with
  | absent => rw [hkind] at h; cases h
  | leaf =>
      rw [hkind] at h
      cases h
      exact ⟨[], rfl, Or.inl ⟨rfl, rfl⟩⟩
  | table child =>
      rw [hkind] at h
      obtain ⟨rest, hrest, rfl⟩ := Option.map_eq_some_iff.mp h
      exact ⟨rest, rfl, Or.inr ⟨child, rfl, hrest⟩⟩

theorem length_walk_le {fuel depth : ℕ}
    (h : walk kind tables indices fuel depth page = some entries) : entries.length ≤ fuel := by
  induction fuel generalizing depth page entries with
  | zero => cases h
  | succ fuel ih =>
      obtain ⟨rest, rfl, ⟨rfl, _⟩ | ⟨child, _, hrest⟩⟩ := walk_eq_some kind h
      · exact Nat.succ_le_succ (Nat.zero_le fuel)
      · exact Nat.succ_le_succ (ih hrest)

theorem exists_walk_eq_append {depth : ℕ}
    (hpage : tableAt kind tables root (pathOf indices depth) = some page)
    (hsame : ∀ n page, n < depth → tableAt kind tables root (pathOf indices n) = some page →
      tables' page (indices n) = tables page (indices n)) :
    ∃ entries : List Entry, entries.length = depth ∧ ∀ fuel,
      walk kind tables indices (fuel + depth) 0 root =
          (walk kind tables indices fuel depth page).map (entries ++ ·) ∧
        walk kind tables' indices (fuel + depth) 0 root =
          (walk kind tables' indices fuel depth page).map (entries ++ ·) := by
  induction depth generalizing page with
  | zero =>
      cases hpage
      refine ⟨[], rfl, fun fuel => ⟨?_, ?_⟩⟩
      · exact Option.map_id'.symm
      · exact Option.map_id'.symm
  | succ depth ih =>
      obtain ⟨parent, hparent, hkind⟩ := tableAt_cons_some kind hpage
      rw [length_pathOf] at hkind
      have htable : kind depth (tables parent (indices depth)) = .table page := by
        cases h : kind depth (tables parent (indices depth)) with
        | absent => rw [h] at hkind; cases hkind
        | leaf => rw [h] at hkind; cases hkind
        | table child =>
            rw [h] at hkind
            exact congrArg Kind.table (Option.some.inj hkind)
      have hentry := hsame depth parent (Nat.lt_succ_self depth) hparent
      obtain ⟨entries, hlength, hwalk⟩ := ih hparent fun n page hn =>
        hsame n page (Nat.lt_succ_of_lt hn)
      refine ⟨entries ++ [tables parent (indices depth)], ?_, fun fuel => ?_⟩
      · rw [List.length_append, hlength]
        rfl
      · have hfuel : fuel + (depth + 1) = fuel + 1 + depth := by omega
        obtain ⟨hleft, hright⟩ := hwalk (fuel + 1)
        rw [hfuel, hleft, hright, walk, walk, hentry, htable]
        dsimp only
        rw [Option.map_map, Option.map_map]
        simp only [Function.comp_def, List.append_assoc, List.singleton_append, and_self]

theorem not_entry_of_off {path : List Index} (htree : IsTree kind tables root)
    (hpath : tableAt kind tables root path = some page)
    (hoff : pathOf indices (path.length + 1) ≠ index :: path) {n : ℕ}
    (hother : tableAt kind tables root (pathOf indices n) = some other) :
    ¬ (other = page ∧ indices n = index) := by
  rintro ⟨rfl, rfl⟩
  have hsame : pathOf indices n = path := htree _ _ _ hother hpath
  have hlength : path.length = n := by rw [← hsame, length_pathOf]
  rw [hlength] at hoff
  exact hoff (congrArg (indices n :: ·) hsame)

theorem not_entry_of_lt {path : List Index} (htree : IsTree kind tables root)
    (hpath : tableAt kind tables root path = some page) {n : ℕ} (hn : n < path.length)
    (hother : tableAt kind tables root (pathOf indices n) = some other) :
    ¬ (other = page ∧ indices n = index) := by
  rintro ⟨rfl, _⟩
  have hlength := congrArg List.length (htree _ _ _ hother hpath)
  rw [length_pathOf] at hlength
  exact absurd hlength (Nat.ne_of_lt hn)

end Walks

/-! ## Entries by their paths -/

/-- The entry at the end of a path, if it is present. -/
def entryAt (tables : Page → Index → Entry) (root : Page) : List Index → Option Entry
  | [] => none
  | index :: path =>
      (tableAt kind tables root path).bind fun page =>
        match kind path.length (tables page index) with
        | .absent => none
        | _ => some (tables page index)

section Entries

variable {tables tables' : Page → Index → Entry} {root page : Page} {indices : ℕ → Index}

theorem entryAt_eq_some_iff {path : List Index} {entry : Entry} :
    entryAt kind tables root (index :: path) = some entry ↔
      ∃ page, tableAt kind tables root path = some page ∧ tables page index = entry ∧
        kind path.length entry ≠ .absent := by
  rw [entryAt, Option.bind_eq_some_iff]
  refine exists_congr fun page => and_congr_right fun _ => ?_
  constructor
  · intro h
    cases hkind : kind path.length (tables page index) with
    | absent => rw [hkind] at h; cases h
    | leaf | table child =>
        rw [hkind] at h
        cases h
        exact ⟨rfl, by rw [hkind]; exact nofun⟩
  · rintro ⟨rfl, hpresent⟩
    cases hkind : kind path.length (tables page index) with
    | absent => exact absurd hkind hpresent
    | leaf => rfl
    | table child => rfl

theorem tableAt_of_ended {n : ℕ} (h : tableAt kind tables root (pathOf indices n) = none)
    (k : ℕ) : tableAt kind tables root (pathOf indices (n + k)) = none := by
  induction k with
  | zero => exact h
  | succ k ih => rw [← Nat.add_assoc, pathOf, tableAt, ih]; rfl

theorem getElem?_walk {fuel depth : ℕ}
    (hpage : tableAt kind tables root (pathOf indices depth) = some page)
    (h : walk kind tables indices fuel depth page = some entries) (n : ℕ) :
    entries[n]? = entryAt kind tables root (pathOf indices (depth + n + 1)) := by
  induction fuel generalizing depth page entries n with
  | zero => cases h
  | succ fuel ih =>
      obtain ⟨rest, rfl, hend⟩ := walk_eq_some kind h
      have hfirst : entryAt kind tables root (pathOf indices (depth + 1)) =
          some (tables page (indices depth)) := by
        refine (entryAt_eq_some_iff kind).mpr ⟨page, hpage, rfl, ?_⟩
        rw [length_pathOf]
        rcases hend with ⟨_, hleaf⟩ | ⟨child, htable, _⟩
        · rw [hleaf]
          exact nofun
        · rw [htable]
          exact nofun
      cases n with
      | zero => exact hfirst.symm
      | succ n =>
          rcases hend with ⟨rfl, hleaf⟩ | ⟨child, htable, hrest⟩
          · have hended : tableAt kind tables root (pathOf indices (depth + 1)) = none := by
              rw [pathOf, tableAt, hpage, Option.bind_some, length_pathOf, hleaf]
              rfl
            have hnone := tableAt_of_ended kind hended n
            have hsum : depth + (n + 1) = depth + 1 + n := by omega
            rw [pathOf, entryAt, hsum, hnone]
            rfl
          · have hchild : tableAt kind tables root (pathOf indices (depth + 1)) = some child := by
              refine tableAt_cons kind hpage ?_
              rw [length_pathOf, htable]
              rfl
            have hsum : depth + (n + 1) + 1 = depth + 1 + n + 1 := by omega
            rw [List.getElem?_cons_succ, ih hchild hrest, hsum]

def SameKinds (tables tables' : Page → Index → Entry) (root : Page) : Prop :=
  ∀ path page index, tableAt kind tables root path = some page →
    kind path.length (tables' page index) = kind path.length (tables page index)

variable {kind}

theorem SameKinds.tableAt_eq (h : SameKinds kind tables tables' root) (path : List Index) :
    tableAt kind tables' root path = tableAt kind tables root path := by
  induction path with
  | nil => rfl
  | cons index path ih =>
      rw [tableAt, tableAt, ih]
      cases hpage : tableAt kind tables root path with
      | none => rfl
      | some page => rw [Option.bind_some, Option.bind_some, h path page index hpage]

theorem SameKinds.isSome_walk (h : SameKinds kind tables tables' root) {fuel depth : ℕ}
    (hpage : tableAt kind tables root (pathOf indices depth) = some page) :
    (walk kind tables' indices fuel depth page).isSome =
      (walk kind tables indices fuel depth page).isSome := by
  induction fuel generalizing depth page with
  | zero => rfl
  | succ fuel ih =>
      have hkinds := h _ _ (indices depth) hpage
      rw [length_pathOf] at hkinds
      rw [walk, walk, hkinds]
      cases hkind : kind depth (tables page (indices depth)) with
      | absent => rfl
      | leaf => rfl
      | table child =>
          dsimp only
          rw [Option.isSome_map, Option.isSome_map]
          refine ih (tableAt_cons kind hpage ?_)
          rw [length_pathOf, hkind]
          rfl

theorem SameKinds.trans {tables'' : Page → Index → Entry}
    (h : SameKinds kind tables tables' root) (h' : SameKinds kind tables' tables'' root) :
    SameKinds kind tables tables'' root := by
  intro path page index hpage
  have hpage' : tableAt kind tables' root path = some page := (h.tableAt_eq path).trans hpage
  rw [h' path page index hpage', h path page index hpage]

theorem SameKinds.isTree (h : SameKinds kind tables tables' root)
    (htree : IsTree kind tables root) : IsTree kind tables' root := by
  intro left right page hleft hright
  rw [h.tableAt_eq] at hleft hright
  exact htree left right page hleft hright

end Entries

/-! ## Changing an entry -/

variable {along : List Index}

section Changes

variable [DecidableEq Page] [DecidableEq Index]

def write (tables : Page → Index → Entry) (page : Page) (index : Index) (entry : Entry) :
    Page → Index → Entry :=
  update tables page (update (tables page) index entry)

def attach (tables : Page → Index → Entry) (page : Page) (index : Index) (fresh : Page)
    (entries : Index → Entry) (link : Entry) : Page → Index → Entry :=
  write (update tables fresh entries) page index link

variable {tables : Page → Index → Entry} {root page fresh : Page} {path : List Index}
  {index : Index} {indices : ℕ → Index} {entry link : Entry} {entries : Index → Entry}

@[simp]
theorem write_self (tables : Page → Index → Entry) (page : Page) (index : Index)
    (entry : Entry) : write tables page index entry page index = entry := by
  rw [write, update_self, update_self]

theorem write_of_ne (tables : Page → Index → Entry) {page other : Page}
    {index otherIndex : Index} (entry : Entry) (hne : ¬ (other = page ∧ otherIndex = index)) :
    write tables page index entry other otherIndex = tables other otherIndex := by
  by_cases hpage : other = page
  · subst hpage
    rw [write, update_self, update_of_ne fun h => hne ⟨rfl, h⟩]
  · rw [write, update_of_ne hpage]

theorem attach_self : attach tables page index fresh entries link page index = link :=
  write_self _ _ _ _

theorem attach_fresh (hne : fresh ≠ page) (other : Index) :
    attach tables page index fresh entries link fresh other = entries other := by
  rw [attach, write_of_ne _ _ fun h => hne h.1, update_self]

theorem attach_of_ne {otherIndex : Index} (hfresh : other ≠ fresh)
    (hne : ¬ (other = page ∧ otherIndex = index)) :
    attach tables page index fresh entries link other otherIndex = tables other otherIndex := by
  rw [attach, write_of_ne _ _ hne, update_of_ne hfresh]

/-! ## A new leaf -/

section Write

variable (htree : IsTree kind tables root)
  (hpath : tableAt kind tables root path = some page)

include htree hpath

theorem walk_write_off (hoff : pathOf indices (path.length + 1) ≠ index :: path) (fuel : ℕ) :
    walk kind (write tables page index entry) indices fuel 0 root =
      walk kind tables indices fuel 0 root := by
  have hroot : tableAt kind tables root (pathOf indices 0) = some root := rfl
  exact walk_congr kind fuel hroot fun n other hother =>
    write_of_ne _ _ (not_entry_of_off kind htree hpath hoff hother)

variable (entry) in
theorem exists_walk_write (hon : pathOf indices (path.length + 1) = index :: path) :
    ∃ before : List Entry, before.length = path.length ∧ ∀ fuel,
      walk kind tables indices (fuel + path.length) 0 root =
          (walk kind tables indices fuel path.length page).map (before ++ ·) ∧
        walk kind (write tables page index entry) indices (fuel + path.length) 0 root =
          (walk kind (write tables page index entry) indices fuel path.length page).map
            (before ++ ·) := by
  obtain ⟨_, hpathOf⟩ := List.cons.inj hon
  have hpage : tableAt kind tables root (pathOf indices path.length) = some page := by
    rw [hpathOf]
    exact hpath
  exact exists_walk_eq_append kind hpage fun n other hn hother =>
    write_of_ne _ _ (not_entry_of_lt kind htree hpath hn hother)

theorem walk_write_on (hon : pathOf indices (path.length + 1) = index :: path)
    (hleaf : (kind path.length entry).isLeaf = true) :
    ∃ before : List Entry, before.length = path.length ∧ ∀ fuel,
      walk kind (write tables page index entry) indices (fuel + 1 + path.length) 0 root =
        some (before ++ [entry]) := by
  have hindex := (List.cons.inj hon).1
  obtain ⟨before, hlength, hwalk⟩ := exists_walk_write kind entry htree hpath hon
  refine ⟨before, hlength, fun fuel => ?_⟩
  rw [(hwalk (fuel + 1)).2, walk, hindex, write_self]
  cases hkind : kind path.length entry with
  | absent => rw [hkind] at hleaf; cases hleaf
  | table child => rw [hkind] at hleaf; cases hleaf
  | leaf => rfl

theorem walk_write_absent (hon : pathOf indices (path.length + 1) = index :: path)
    (habsent : kind path.length entry = .absent) (fuel : ℕ) :
    walk kind (write tables page index entry) indices (fuel + 1 + path.length) 0 root = none := by
  have hindex := (List.cons.inj hon).1
  obtain ⟨before, _, hwalk⟩ := exists_walk_write kind entry htree hpath hon
  rw [(hwalk (fuel + 1)).2, walk, hindex, write_self, habsent]
  rfl

end Write

/-! ## A new table -/

section Attach

variable (htree : IsTree kind tables root)
  (hpath : tableAt kind tables root path = some page)
  (hfresh : Fresh kind tables root fresh)

include htree hpath hfresh

theorem walk_attach_off (hoff : pathOf indices (path.length + 1) ≠ index :: path) (fuel : ℕ) :
    walk kind (attach tables page index fresh entries link) indices fuel 0 root =
      walk kind tables indices fuel 0 root := by
  have hroot : tableAt kind tables root (pathOf indices 0) = some root := rfl
  refine walk_congr kind fuel hroot fun n other hother => attach_of_ne ?_ ?_
  · rintro rfl
    exact hfresh _ hother
  · exact not_entry_of_off kind htree hpath hoff hother

/-- The entry that was replaced ended the walk, or was absent; now the entries of the new
table do. -/
theorem walk_attach_on (hon : pathOf indices (path.length + 1) = index :: path)
    (hold : (kind path.length (tables page index)).page = none)
    (hlink : kind path.length link = .table fresh)
    (hnew : ∀ other, (kind (path.length + 1) (entries other)).page = none) :
    ∃ before : List Entry, before.length = path.length ∧ ∀ fuel,
      walk kind tables indices (fuel + 2 + path.length) 0 root =
          (if (kind path.length (tables page index)).isLeaf
            then some (before ++ [tables page index]) else none) ∧
        walk kind (attach tables page index fresh entries link) indices
            (fuel + 2 + path.length) 0 root =
          (if (kind (path.length + 1) (entries (indices (path.length + 1)))).isLeaf
            then some (before ++ [link, entries (indices (path.length + 1))]) else none) := by
  obtain ⟨hindex, hpathOf⟩ := List.cons.inj hon
  have hpage : tableAt kind tables root (pathOf indices path.length) = some page := by
    rw [hpathOf]
    exact hpath
  have hsame : ∀ n other, n < path.length →
      tableAt kind tables root (pathOf indices n) = some other →
        attach tables page index fresh entries link other (indices n) =
          tables other (indices n) := by
    intro n other hn hother
    refine attach_of_ne ?_ (not_entry_of_lt kind htree hpath hn hother)
    rintro rfl
    exact hfresh _ hother
  have hne : fresh ≠ page := by
    rintro rfl
    exact hfresh _ hpath
  obtain ⟨before, hlength, hwalk⟩ := exists_walk_eq_append kind hpage hsame
  refine ⟨before, hlength, fun fuel => ?_⟩
  obtain ⟨hbefore, hafter⟩ := hwalk (fuel + 2)
  have hended : ∀ (k : Kind Page), k.page = none → k = .absent ∨ k = .leaf := by
    intro k hk
    cases k with
    | absent => exact Or.inl rfl
    | leaf => exact Or.inr rfl
    | table child => cases hk
  constructor
  · rw [hbefore, walk, hindex]
    rcases hended _ hold with h | h
    · rw [h]
      rfl
    · rw [h]
      rfl
  · rw [hafter, walk, hindex, attach_self, hlink]
    dsimp only
    rw [walk, attach_fresh hne]
    rcases hended _ (hnew (indices (path.length + 1))) with h | h
    · rw [h]
      rfl
    · rw [h]
      rfl

end Attach

/-! ## The tree after a change -/

/-- The entry that is replaced led to no table, so every table stays where it is. -/
theorem tableAt_write_of_some (hold : (kind path.length (tables page index)).page = none)
    (htree : IsTree kind tables root) (hpath : tableAt kind tables root path = some page)
    (h : tableAt kind tables root along = some other) :
    tableAt kind (write tables page index entry) root along = some other := by
  induction along generalizing other with
  | nil => exact h
  | cons next rest ih =>
      obtain ⟨parent, hparent, hchild⟩ := tableAt_cons_some kind h
      refine tableAt_cons kind (ih hparent) ?_
      rw [write_of_ne, hchild]
      rintro ⟨rfl, rfl⟩
      have heq := htree _ _ _ hparent hpath
      rw [heq, hold] at hchild
      cases hchild

theorem tableAt_of_write (hnew : (kind path.length entry).page = none)
    (htree : IsTree kind tables root) (hpath : tableAt kind tables root path = some page)
    (h : tableAt kind (write tables page index entry) root along = some other) :
    tableAt kind tables root along = some other := by
  induction along generalizing other with
  | nil => exact h
  | cons next rest ih =>
      obtain ⟨parent, hparent, hchild⟩ := tableAt_cons_some kind h
      refine tableAt_cons kind (ih hparent) ?_
      rwa [write_of_ne] at hchild
      rintro ⟨rfl, rfl⟩
      have heq := htree _ _ _ (ih hparent) hpath
      rw [write_self, heq, hnew] at hchild
      cases hchild

theorem isTree_write (hnew : (kind path.length entry).page = none)
    (htree : IsTree kind tables root) (hpath : tableAt kind tables root path = some page) :
    IsTree kind (write tables page index entry) root :=
  fun left right other hleft hright =>
    htree left right other (tableAt_of_write kind hnew htree hpath hleft)
      (tableAt_of_write kind hnew htree hpath hright)

section Attach

variable (htree : IsTree kind tables root)
  (hpath : tableAt kind tables root path = some page)
  (hfresh : Fresh kind tables root fresh)

include hpath hfresh

theorem tableAt_attach_of_some (hold : (kind path.length (tables page index)).page = none)
    (htree : IsTree kind tables root) (h : tableAt kind tables root along = some other) :
    tableAt kind (attach tables page index fresh entries link) root along = some other := by
  induction along generalizing other with
  | nil => exact h
  | cons next rest ih =>
      obtain ⟨parent, hparent, hchild⟩ := tableAt_cons_some kind h
      refine tableAt_cons kind (ih hparent) ?_
      rw [attach_of_ne, hchild]
      · rintro rfl
        exact hfresh _ hparent
      · rintro ⟨rfl, rfl⟩
        have heq := htree _ _ _ hparent hpath
        rw [heq, hold] at hchild
        cases hchild

theorem tableAt_attach_self (hold : (kind path.length (tables page index)).page = none)
    (hlink : kind path.length link = .table fresh) (htree : IsTree kind tables root) :
    tableAt kind (attach tables page index fresh entries link) root (index :: path) =
      some fresh := by
  refine tableAt_cons kind (tableAt_attach_of_some kind hpath hfresh hold htree hpath) ?_
  rw [attach_self, hlink]
  rfl

include htree

theorem tableAt_of_attach (hlink : kind path.length link = .table fresh)
    (hnew : ∀ other, (kind (path.length + 1) (entries other)).page = none)
    (h : tableAt kind (attach tables page index fresh entries link) root along = some other) :
    tableAt kind tables root along = some other ∨ along = index :: path ∧ other = fresh := by
  have hne : fresh ≠ page := by
    rintro rfl
    exact hfresh _ hpath
  induction along generalizing other with
  | nil => exact Or.inl h
  | cons next rest ih =>
      obtain ⟨parent, hparent, hchild⟩ := tableAt_cons_some kind h
      rcases ih hparent with hrest | ⟨rfl, rfl⟩
      · have hparentNe : parent ≠ fresh := by
          rintro rfl
          exact hfresh _ hrest
        by_cases hentry : parent = page ∧ next = index
        · obtain ⟨rfl, rfl⟩ := hentry
          have heq := htree _ _ _ hrest hpath
          subst heq
          rw [attach_self, hlink] at hchild
          exact Or.inr ⟨rfl, (Option.some.inj hchild).symm⟩
        · rw [attach_of_ne hparentNe hentry] at hchild
          exact Or.inl (tableAt_cons kind hrest hchild)
      · rw [attach_fresh hne, List.length_cons, hnew] at hchild
        cases hchild

theorem isTree_attach (hlink : kind path.length link = .table fresh)
    (hnew : ∀ other, (kind (path.length + 1) (entries other)).page = none) :
    IsTree kind (attach tables page index fresh entries link) root := by
  intro left right other hleft hright
  rcases tableAt_of_attach kind htree hpath hfresh hlink hnew hleft with hl | ⟨rfl, rfl⟩
  · rcases tableAt_of_attach kind htree hpath hfresh hlink hnew hright with hr | ⟨rfl, rfl⟩
    · exact htree left right other hl hr
    · exact absurd hl (hfresh _)
  · rcases tableAt_of_attach kind htree hpath hfresh hlink hnew hright with hr | ⟨rfl, _⟩
    · exact absurd hr (hfresh _)
    · rfl

theorem fresh_attach (hlink : kind path.length link = .table fresh)
    (hnew : ∀ other, (kind (path.length + 1) (entries other)).page = none)
    (hother : Fresh kind tables root other) (hne : other ≠ fresh) :
    Fresh kind (attach tables page index fresh entries link) root other := by
  intro along h
  rcases tableAt_of_attach kind htree hpath hfresh hlink hnew h with hold | ⟨_, heq⟩
  · exact hother _ hold
  · exact hne heq

end Attach

end Changes

end EigenOS.RadixTree

/-!
## Copies of radix trees

A tree is a copy of another one when tables correspond along each path, the entries of
corresponding tables are of one kind, and leaves are the same.  Entries that name tables
differ in the page at least; how they may differ is a parameter.
-/

namespace EigenOS.RadixTree

variable {Page Index Entry : Type*} (kind : ℕ → Entry → Kind Page)

inductive EntryCopy (Linked : Entry → Entry → Prop) (Copied : Page → Page → Prop) (depth : ℕ) :
    Entry → Entry → Prop where
  | absent {entry copy : Entry} : kind depth entry = .absent → kind depth copy = .absent →
      EntryCopy Linked Copied depth entry copy
  | leaf {entry copy : Entry} : kind depth entry = .leaf → copy = entry →
      EntryCopy Linked Copied depth entry copy
  | table {entry copy : Entry} {child child' : Page} : kind depth entry = .table child →
      kind depth copy = .table child' → Linked entry copy → Copied child child' →
      EntryCopy Linked Copied depth entry copy

def Copies (Linked : List Index → Entry → Entry → Prop) (Copied : List Index → Page → Page → Prop)
    (tables tables' : Page → Index → Entry) : Prop :=
  ∀ path page page' i, Copied path page page' →
    EntryCopy kind (Linked (i :: path)) (Copied (i :: path)) path.length (tables page i)
      (tables' page' i)

inductive WalkCopy (Linked : Entry → Entry → Prop) : List Entry → List Entry → Prop where
  | leaf {entry : Entry} : WalkCopy Linked [entry] [entry]
  | step {entry copy : Entry} {entries copies : List Entry} : Linked entry copy →
      WalkCopy Linked entries copies → WalkCopy Linked (entry :: entries) (copy :: copies)

theorem WalkCopy.eq {entries copies : List Entry} (h : WalkCopy Eq entries copies) :
    entries = copies := by
  induction h with
  | leaf => rfl
  | step hentry _ ih => rw [hentry, ih]

section Copies

variable {kind} {Linked : List Index → Entry → Entry → Prop}
  {Copied : List Index → Page → Page → Prop} {tables tables' : Page → Index → Entry}
  {root root' : Page}

theorem Copies.rel_tableAt (h : Copies kind Linked Copied tables tables')
    (hroot : Copied [] root root') (path : List Index) :
    Option.Rel (Copied path) (tableAt kind tables root path)
      (tableAt kind tables' root' path) := by
  induction path with
  | nil => exact Option.Rel.some hroot
  | cons i path ih =>
      rw [tableAt, tableAt]
      generalize tableAt kind tables root path = page at ih ⊢
      generalize tableAt kind tables' root' path = page' at ih ⊢
      cases ih with
      | none => exact Option.Rel.none
      | some hpage =>
          rw [Option.bind_some, Option.bind_some]
          cases h path _ _ i hpage with
          | absent hentry hcopy =>
              rw [hentry, hcopy]
              exact Option.Rel.none
          | leaf hleaf hsame =>
              rw [hsame, hleaf]
              exact Option.Rel.none
          | table hentry hcopy _ hchild =>
              rw [hentry, hcopy]
              exact Option.Rel.some hchild

theorem Copies.exists_original (h : Copies kind Linked Copied tables tables')
    (hroot : Copied [] root root') {path : List Index} {page' : Page}
    (hpage : tableAt kind tables' root' path = some page') :
    ∃ page, tableAt kind tables root path = some page ∧ Copied path page page' := by
  have hrel := h.rel_tableAt hroot path
  rw [hpage] at hrel
  generalize tableAt kind tables root path = original at hrel ⊢
  cases hrel with
  | some hcopied => exact ⟨_, rfl, hcopied⟩

theorem Copies.isTree (h : Copies kind Linked Copied tables tables')
    (hroot : Copied [] root root') (htree : IsTree kind tables root)
    (hinjective : ∀ left right page page' copy, tableAt kind tables root left = some page →
      tableAt kind tables root right = some page' → Copied left page copy →
        Copied right page' copy → page = page') : IsTree kind tables' root' := by
  intro left right copy hleft hright
  obtain ⟨page, hpage, hcopied⟩ := h.exists_original hroot hleft
  obtain ⟨page', hpage', hcopied'⟩ := h.exists_original hroot hright
  have hsame := hinjective left right page page' copy hpage hpage' hcopied hcopied'
  rw [← hsame] at hpage'
  exact htree left right page hpage hpage'

theorem Copies.rel_walk (h : Copies kind Linked Copied tables tables') {indices : ℕ → Index}
    {linked : Entry → Entry → Prop}
    (hlinked : ∀ n entry copy, Linked (pathOf indices (n + 1)) entry copy → linked entry copy)
    (fuel : ℕ) {depth : ℕ} {page page' : Page} (hpage : Copied (pathOf indices depth) page page') :
    Option.Rel (WalkCopy linked) (walk kind tables indices fuel depth page)
      (walk kind tables' indices fuel depth page') := by
  induction fuel generalizing depth page page' with
  | zero => exact Option.Rel.none
  | succ fuel ih =>
      have hentry := h _ _ _ (indices depth) hpage
      rw [length_pathOf] at hentry
      rw [walk, walk]
      generalize tables page (indices depth) = entry at hentry ⊢
      generalize tables' page' (indices depth) = copy at hentry ⊢
      cases hentry with
      | absent habsent hcopy =>
          rw [habsent, hcopy]
          exact Option.Rel.none
      | leaf hleaf hsame =>
          rw [hsame, hleaf]
          exact Option.Rel.some WalkCopy.leaf
      | table htable hcopy hlink hchild =>
          rename_i child child'
          rw [htable, hcopy]
          dsimp only
          have hnext : Copied (pathOf indices (depth + 1)) child child' := hchild
          have hrest := ih hnext
          generalize walk kind tables indices fuel (depth + 1) child = rest at hrest ⊢
          generalize walk kind tables' indices fuel (depth + 1) child' = rest' at hrest ⊢
          cases hrest with
          | none => exact Option.Rel.none
          | some hwalk => exact Option.Rel.some (WalkCopy.step (hlinked depth _ _ hlink) hwalk)

end Copies

end EigenOS.RadixTree
