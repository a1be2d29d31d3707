import Mathlib.Data.List.Sort

/-!
# Sorting and searching

`qsort` moves each element down past the ones before it that compare greater.  Read from its end,
the part in order is what inserting the elements one by one makes of it.  `bsearch` halves the
range that can still hold the key.
-/

namespace EigenOS.Libc

variable {α κ : Type*}

/-! ## `qsort` -/

section Order

variable (cmp : α → α → ℤ)

/-- The inner loop of `qsort` from index `j` on.  `swap_b` exchanges two neighbours. -/
def qsortInner : ℕ → List α → List α
  | 0, table => table
  | j + 1, table =>
      match table[j]?, table[j + 1]? with
      | some before, some elem =>
          if 0 < cmp before elem then qsortInner j ((table.set j elem).set (j + 1) before)
          else table
      | _, _ => table

/-- The rounds of the outer loop that are left from index `i` on. -/
def qsortOuter : ℕ → ℕ → List α → List α
  | 0, _, table => table
  | rounds + 1, i, table => qsortOuter rounds (i + 1) (qsortInner cmp i table)

def qsort (table : List α) : List α := qsortOuter cmp (table.length - 1) 1 table

/-- What callers promise of `cmp`: its sign turns around with its arguments, and the order it
gives is transitive. -/
structure IsComparison : Prop where
  antisymm : ∀ a b, 0 ≤ cmp a b ↔ cmp b a ≤ 0
  trans : ∀ a b c, cmp a b ≤ 0 → cmp b c ≤ 0 → cmp a c ≤ 0

/-- No element compares greater than a later one. -/
def InOrder (table : List α) : Prop := table.Pairwise fun a b => cmp a b ≤ 0

theorem qsortInner_eq (before : List α) (elem : α) (rest : List α) :
    qsortInner cmp before.length (before.reverse ++ elem :: rest) =
      (before.orderedInsert (fun a b => cmp b a ≤ 0) elem).reverse ++ rest := by
  induction before generalizing rest with
  | nil => rfl
  | cons last before ih =>
      have htable : (last :: before).reverse ++ elem :: rest =
          before.reverse ++ last :: elem :: rest := by simp
      have hswap : ((before.reverse ++ last :: elem :: rest).set before.length elem).set
          (before.length + 1) last = before.reverse ++ elem :: last :: rest := by simp
      have hlast : (before.reverse ++ last :: elem :: rest)[before.length]? = some last := by simp
      have helem : (before.reverse ++ last :: elem :: rest)[before.length + 1]? = some elem := by
        simp
      rw [htable, List.length_cons, qsortInner, hlast, helem, List.orderedInsert_cons]
      dsimp only
      by_cases hgreater : 0 < cmp last elem
      · rw [if_pos hgreater, hswap, ih, if_neg (not_le.mpr hgreater)]
        simp
      · rw [if_neg hgreater, if_pos (not_lt.mp hgreater)]
        simp

theorem qsortOuter_eq (rest before : List α) :
    qsortOuter cmp rest.length before.length (before.reverse ++ rest) =
      (rest.foldl (fun done elem => done.orderedInsert (fun a b => cmp b a ≤ 0) elem)
        before).reverse := by
  induction rest generalizing before with
  | nil => simp [qsortOuter]
  | cons elem rest ih =>
      have hlength : before.length + 1 =
          (before.orderedInsert (fun a b => cmp b a ≤ 0) elem).length :=
        (List.orderedInsert_length _ before elem).symm
      rw [List.length_cons, qsortOuter, qsortInner_eq, hlength, ih, List.foldl_cons]

theorem qsort_eq (table : List α) :
    qsort cmp table = (table.reverse.insertionSort fun a b => cmp b a ≤ 0).reverse := by
  have hfold : table.reverse.insertionSort (fun a b => cmp b a ≤ 0) =
      table.foldl (fun done elem => done.orderedInsert (fun a b => cmp b a ≤ 0) elem) [] := by
    rw [List.insertionSort, List.foldr_reverse]
  rw [hfold]
  cases table with
  | nil => rfl
  | cons first rest => exact qsortOuter_eq cmp rest [first]

theorem perm_qsort (table : List α) : (qsort cmp table).Perm table := by
  rw [qsort_eq]
  exact (List.reverse_perm _).trans ((List.perm_insertionSort _ _).trans (List.reverse_perm _))

variable {cmp}

theorem IsComparison.inOrder_qsort (hcmp : IsComparison cmp) (table : List α) :
    InOrder cmp (qsort cmp table) := by
  have htotal : Std.Total fun a b => cmp b a ≤ 0 :=
    ⟨fun a b => (le_total 0 (cmp a b)).imp (hcmp.antisymm a b).mp id⟩
  have htrans : IsTrans α fun a b => cmp b a ≤ 0 := ⟨fun a b c hab hbc => hcmp.trans c b a hbc hab⟩
  rw [InOrder, qsort_eq, List.pairwise_reverse]
  exact List.pairwise_insertionSort _ _

/-- The result has the elements of the table in order, and elements that are in order already
stay so: the sort is stable. -/
theorem qsort_sorts (hcmp : IsComparison cmp) (table : List α) :
    (qsort cmp table).Perm table ∧ InOrder cmp (qsort cmp table) ∧
      ∀ part, InOrder cmp part → part.Sublist table → part.Sublist (qsort cmp table) := by
  refine ⟨perm_qsort cmp table, hcmp.inOrder_qsort table, fun part horder hpart => ?_⟩
  have hreversed : part.reverse.Sublist (table.reverse.insertionSort fun a b => cmp b a ≤ 0) :=
    List.sublist_insertionSort (List.pairwise_reverse.mpr horder) hpart.reverse
  rw [qsort_eq]
  simpa using hreversed.reverse

end Order

/-! ## `bsearch` -/

section Search

variable (cmp : κ → α → ℤ) (key : κ) (table : List α)

/-- The index of the element that `bsearch` returns when its loop is between `lo` and `hi`. -/
def bsearchLoop (lo hi : ℕ) : Option ℕ :=
  if lo < hi then
    match table[lo + (hi - lo) / 2]? with
    | none => none
    | some elem =>
        if cmp key elem < 0 then bsearchLoop lo (lo + (hi - lo) / 2)
        else if 0 < cmp key elem then bsearchLoop (lo + (hi - lo) / 2 + 1) hi
        else some (lo + (hi - lo) / 2)
  else none
termination_by hi - lo

def bsearch : Option ℕ := bsearchLoop cmp key table 0 table.length

/-- Elements the key is behind come first, those it is in front of come last. -/
def Splits : Prop :=
  table.Pairwise fun a b =>
    (0 < cmp key b → 0 < cmp key a) ∧ (cmp key a < 0 → cmp key b < 0)

/-- An index is that of an element equal to the key; without one there is no such element. -/
def Answers : Option ℕ → Prop
  | some i => ∃ elem, table[i]? = some elem ∧ cmp key elem = 0
  | none => ∀ elem ∈ table, cmp key elem ≠ 0

variable {cmp key table}

theorem answers_bsearchLoop (hsplits : Splits cmp key table) {lo hi : ℕ} (hhi : hi ≤ table.length)
    (hbelow : ∀ i elem, i < lo → table[i]? = some elem → 0 < cmp key elem)
    (habove : ∀ i elem, hi ≤ i → table[i]? = some elem → cmp key elem < 0) :
    Answers cmp key table (bsearchLoop cmp key table lo hi) := by
  have hpair : ∀ (i j : ℕ) (a b : α), i < j → table[i]? = some a → table[j]? = some b →
      (0 < cmp key b → 0 < cmp key a) ∧ (cmp key a < 0 → cmp key b < 0) := by
    intro i j a b hij ha hb
    obtain ⟨hi, rfl⟩ := List.getElem?_eq_some_iff.mp ha
    obtain ⟨hj, rfl⟩ := List.getElem?_eq_some_iff.mp hb
    exact List.pairwise_iff_getElem.mp hsplits i j hi hj hij
  fun_induction bsearchLoop cmp key table lo hi with
  | case1 lo hi hlt hnone =>
      have := List.getElem?_eq_none_iff.mp hnone
      omega
  | case2 lo hi hlt elem helem hless ih =>
      refine ih (by omega) hbelow fun i other hi hother => ?_
      rcases Nat.eq_or_lt_of_le hi with rfl | hafter
      · rw [helem] at hother
        cases hother
        exact hless
      · exact (hpair _ _ _ _ hafter helem hother).2 hless
  | case3 lo hi hlt elem helem _ hgreater ih =>
      refine ih hhi (fun i other hi hother => ?_) habove
      rcases Nat.eq_or_lt_of_le (Nat.le_of_lt_succ hi) with rfl | hbefore
      · rw [helem] at hother
        cases hother
        exact hgreater
      · exact (hpair _ _ _ _ hbefore hother helem).1 hgreater
  | case4 lo hi hlt elem helem hless hgreater =>
      exact ⟨elem, helem, Int.le_antisymm (not_lt.mp hgreater) (not_lt.mp hless)⟩
  | case5 lo hi hlt =>
      intro elem hmem
      obtain ⟨i, helem⟩ := List.mem_iff_getElem?.mp hmem
      by_cases hi : i < lo
      · exact (hbelow i elem hi helem).ne'
      · exact (habove i elem (by omega) helem).ne

theorem answers_bsearch (hsplits : Splits cmp key table) :
    Answers cmp key table (bsearch cmp key table) := by
  rw [bsearch]
  refine answers_bsearchLoop hsplits le_rfl (fun i _ hi => absurd hi (Nat.not_lt_zero i)) ?_
  intro i elem hi helem
  rw [List.getElem?_eq_none hi] at helem
  cases helem

end Search

/-- In a table that `qsort` has put in order, `bsearch` finds an element equal to the key if and
only if there was one. -/
theorem answers_bsearch_qsort {cmp : α → α → ℤ} (hcmp : IsComparison cmp) (key : α)
    (table : List α) :
    Answers cmp key (qsort cmp table) (bsearch cmp key (qsort cmp table)) ∧
      ((bsearch cmp key (qsort cmp table)).isSome ↔ ∃ elem ∈ table, cmp key elem = 0) := by
  have hsplits : Splits cmp key (qsort cmp table) := by
    refine (hcmp.inOrder_qsort table).imp fun {a b} hab => ⟨fun hb => ?_, fun ha => ?_⟩
    · by_contra hle
      exact absurd hb (not_lt.mpr (hcmp.trans key a b (not_lt.mp hle) hab))
    · by_contra hle
      have hkey := (hcmp.antisymm key b).mp (not_lt.mp hle)
      exact absurd ha (not_lt.mpr ((hcmp.antisymm key a).mpr (hcmp.trans a b key hab hkey)))
  have hanswers := answers_bsearch hsplits
  refine ⟨hanswers, ?_⟩
  cases hfound : bsearch cmp key (qsort cmp table) with
  | none =>
      rw [hfound] at hanswers
      have hnone : ¬ ∃ elem ∈ table, cmp key elem = 0 := fun ⟨elem, hmem, hzero⟩ =>
        hanswers elem ((perm_qsort cmp table).mem_iff.mpr hmem) hzero
      simp [hnone]
  | some i =>
      rw [hfound] at hanswers
      obtain ⟨elem, helem, hzero⟩ := hanswers
      have hmem := (perm_qsort cmp table).mem_iff.mp (List.mem_of_getElem? helem)
      simpa using ⟨elem, hmem, hzero⟩

theorem isComparison_sub : IsComparison fun a b : ℤ => a - b where
  antisymm a b := by omega
  trans a b c := by omega

theorem qsort_sorts_numbers : (qsort (fun a b : ℤ => a - b) [3, 1, 2]).Perm [3, 1, 2] :=
  (qsort_sorts isComparison_sub [3, 1, 2]).1

theorem answers_bsearch_qsort_numbers :
    (bsearch (fun a b : ℤ => a - b) 2 (qsort (fun a b => a - b) [3, 1, 2])).isSome :=
  (answers_bsearch_qsort isComparison_sub 2 [3, 1, 2]).2.mpr ⟨2, by decide, by decide⟩

end EigenOS.Libc
