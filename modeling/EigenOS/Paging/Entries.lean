import Mathlib.Algebra.Group.Nat.Defs
import EigenOS.Paging.VirtualMemory

/-!
# Entries, bit by bit

The entries that the virtual memory manager writes, and the addresses they translate to.
-/

namespace EigenOS.Paging

open EigenOS.RadixTree

/-! ## Masks and flags -/

theorem getLsbD_field {mask : Word} {low high : ℕ} (hhigh : high ≤ 64)
    (hbits : ∀ i : Fin 64, mask.getLsbD i = (decide (low ≤ i.val) && decide (i.val < high)))
    (i : ℕ) : mask.getLsbD i = (decide (low ≤ i) && decide (i < high)) := by
  by_cases h : i < 64
  · exact hbits ⟨i, h⟩
  · have hout : ¬ i < high := by omega
    rw [BitVec.getLsbD_of_ge _ _ (by omega), decide_eq_false hout, Bool.and_false]

theorem getLsbD_addrMask (i : ℕ) : addrMask.getLsbD i = (decide (12 ≤ i) && decide (i < 52)) :=
  getLsbD_field (by decide) (by decide) i

theorem getLsbD_mask2m (i : ℕ) : mask2m.getLsbD i = (decide (21 ≤ i) && decide (i < 52)) :=
  getLsbD_field (by decide) (by decide) i

theorem getLsbD_mask1g (i : ℕ) : mask1g.getLsbD i = (decide (30 ≤ i) && decide (i < 52)) :=
  getLsbD_field (by decide) (by decide) i

theorem getLsbD_lowMask (n : ℕ) (hn : n ≤ 64) (i : ℕ) :
    (BitVec.ofNat 64 (2 ^ n - 1)).getLsbD i = decide (i < n) := by
  rw [BitVec.getLsbD_ofNat, Nat.testBit_two_pow_sub_one]
  by_cases h : i < n
  · rw [decide_eq_true h, decide_eq_true (by omega : i < 64), Bool.and_true]
  · rw [decide_eq_false h, Bool.and_false]

theorem getLsbD_flag (k i : ℕ) : (1#64 <<< k).getLsbD i = (decide (i = k) && decide (i < 64)) := by
  rw [← BitVec.twoPow_eq, BitVec.getLsbD_twoPow]
  by_cases h : i = k
  · subst h
    simp
  · rw [decide_eq_false h, decide_eq_false (Ne.symm h : ¬ k = i), Bool.and_false, Bool.false_and]

theorem isSet_flag (entry : Word) {k : ℕ} (hk : k < 64) :
    isSet entry (1#64 <<< k) = entry.getLsbD k := by
  rw [isSet, ← BitVec.twoPow_eq, BitVec.and_twoPow]
  cases hbit : entry.getLsbD k with
  | false => rfl
  | true =>
      rw [if_pos rfl, bne_iff_ne]
      intro h
      have := congrArg (fun x => BitVec.getLsbD x k) h
      simp [hk] at this

theorem isSet_present (entry : Word) : isSet entry vmmPresent = entry.getLsbD 0 :=
  isSet_flag entry (by decide)

theorem isSet_write (entry : Word) : isSet entry vmmWrite = entry.getLsbD 1 :=
  isSet_flag entry (by decide)

theorem isSet_user (entry : Word) : isSet entry vmmUser = entry.getLsbD 2 :=
  isSet_flag entry (by decide)

theorem isSet_huge (entry : Word) : isSet entry vmmHuge = entry.getLsbD 7 :=
  isSet_flag entry (by decide)

theorem isSet_nx (entry : Word) : isSet entry vmmNx = entry.getLsbD 63 :=
  isSet_flag entry (by decide)

/-! ## Indices -/

theorem testBit_index (virt : Word) (shift k : ℕ) :
    (index virt shift).val.testBit k = (decide (k < 9) && virt.getLsbD (shift + k)) := by
  have hmod : (index virt shift).val = (virt >>> shift).toNat % 2 ^ 9 := rfl
  rw [hmod, Nat.testBit_mod_two_pow]
  congr 1
  exact BitVec.getLsbD_ushiftRight virt shift k

theorem testBit_tableIndex (j : TableIndex) {k : ℕ} (hk : 9 ≤ k) : j.val.testBit k = false := by
  apply Nat.testBit_lt_two_pow
  calc j.val < 2 ^ 9 := j.isLt
    _ ≤ 2 ^ k := Nat.pow_le_pow_right (by decide) hk

theorem getLsbD_mul_twoPow (j : TableIndex) {n : ℕ} (hn : n + 9 ≤ 64) (i : ℕ) :
    (BitVec.ofNat 64 j * BitVec.ofNat 64 (2 ^ n)).getLsbD i =
      (decide (n ≤ i) && j.val.testBit (i - n)) := by
  rw [← BitVec.ofNat_mul, BitVec.getLsbD_ofNat, Nat.testBit_mul_two_pow]
  by_cases h : i < 64
  · rw [decide_eq_true h, Bool.true_and]
  · rw [decide_eq_false h, Bool.false_and, testBit_tableIndex j (by omega), Bool.and_false]

/-! ## The entries of a split page -/

theorem getLsbD_base_add (base : Word) (j : TableIndex) {n : ℕ} (hn : n + 9 ≤ 64)
    (hbase : ∀ i, i < n + 9 → base.getLsbD i = false) (i : ℕ) :
    (base + BitVec.ofNat 64 j * BitVec.ofNat 64 (2 ^ n)).getLsbD i =
      (base.getLsbD i || (decide (n ≤ i) && j.val.testBit (i - n))) := by
  have hdisjoint : base &&& BitVec.ofNat 64 j * BitVec.ofNat 64 (2 ^ n) = 0#64 := by
    apply BitVec.eq_of_getLsbD_eq
    intro k _
    rw [BitVec.getLsbD_and, getLsbD_mul_twoPow j hn, BitVec.getLsbD_zero]
    by_cases hk : k < n + 9
    · rw [hbase k hk, Bool.false_and]
    · rw [testBit_tableIndex j (by omega), Bool.and_false, Bool.and_false]
  rw [BitVec.add_eq_or_of_and_eq_zero _ _ hdisjoint, BitVec.getLsbD_or, getLsbD_mul_twoPow j hn]

theorem getLsbD_lowFlags (old : Word) (i : ℕ) :
    ((old &&& 0xFFF#64) &&& ~~~vmmHuge).getLsbD i =
      (decide (i < 12) && decide (i ≠ 7) && old.getLsbD i) := by
  have hlow : (0xFFF#64 : Word).getLsbD i = decide (i < 12) :=
    getLsbD_lowMask 12 (by decide) i
  have hhuge := getLsbD_flag 7 i
  unfold vmmHuge
  rw [BitVec.getLsbD_and, BitVec.getLsbD_and, BitVec.getLsbD_not, hlow, hhuge]
  by_cases hi : i < 12
  · have hlt : i < 64 := by omega
    by_cases h7 : i = 7
    · simp [h7]
    · simp [hi, h7, hlt]
  · simp [hi]

theorem getLsbD_entries2m (old : Word) (j : TableIndex) (i : ℕ) :
    (entries2m old j).getLsbD i =
      if i < 12 then decide (i ≠ 7) && old.getLsbD i
      else if i < 21 then j.val.testBit (i - 12)
      else decide (i < 52) && old.getLsbD i := by
  have hbase : ∀ i, i < 12 + 9 → (old &&& mask2m).getLsbD i = false := by
    intro i hi
    rw [BitVec.getLsbD_and, getLsbD_mask2m, decide_eq_false (by omega : ¬ 21 ≤ i),
      Bool.false_and, Bool.and_false]
  have hsum := getLsbD_base_add _ j (by decide : 12 + 9 ≤ 64) hbase i
  unfold entries2m
  rw [BitVec.getLsbD_or, getLsbD_lowFlags]
  refine (congrArg (· || _) hsum).trans ?_
  rw [BitVec.getLsbD_and, getLsbD_mask2m]
  by_cases h12 : i < 12
  · simp [h12, show ¬ 21 ≤ i by omega, show ¬ 12 ≤ i by omega]
  · by_cases h21 : i < 21
    · simp [h12, h21, show ¬ 21 ≤ i by omega, show 12 ≤ i by omega]
    · have htest : j.val.testBit (i - 12) = false := testBit_tableIndex j (by omega)
      simp [h12, h21, htest, show 21 ≤ i by omega, Bool.and_comm]

theorem getLsbD_entries1g (old : Word) (j : TableIndex) (i : ℕ) :
    (entries1g old j).getLsbD i =
      if i < 12 then decide (i = 7) || old.getLsbD i
      else if i < 21 then false
      else if i < 30 then j.val.testBit (i - 21)
      else decide (i < 52) && old.getLsbD i := by
  have hbase : ∀ i, i < 21 + 9 → (old &&& mask1g).getLsbD i = false := by
    intro i hi
    rw [BitVec.getLsbD_and, getLsbD_mask1g, decide_eq_false (by omega : ¬ 30 ≤ i),
      Bool.false_and, Bool.and_false]
  have hsum := getLsbD_base_add _ j (by decide : 21 + 9 ≤ 64) hbase i
  have hhuge := getLsbD_flag 7 i
  unfold entries1g
  rw [BitVec.getLsbD_or, BitVec.getLsbD_or, getLsbD_lowFlags]
  refine (congrArg (· || _) hsum).trans ?_
  unfold vmmHuge
  rw [BitVec.getLsbD_and, getLsbD_mask1g, hhuge]
  by_cases h12 : i < 12
  · by_cases h7 : i = 7
    · simp [h7]
    · simp [h12, h7, show ¬ 30 ≤ i by omega, show ¬ 21 ≤ i by omega]
  · by_cases h21 : i < 21
    · simp [h12, h21, show ¬ 30 ≤ i by omega, show ¬ 21 ≤ i by omega, show i ≠ 7 by omega]
    · by_cases h30 : i < 30
      · simp [h12, h21, h30, show ¬ 30 ≤ i by omega, show 21 ≤ i by omega, show i ≠ 7 by omega]
      · have htest : j.val.testBit (i - 21) = false := testBit_tableIndex j (by omega)
        simp [h12, h21, h30, htest, show 30 ≤ i by omega, show i ≠ 7 by omega, Bool.and_comm]

theorem phys_entries1g (virt pml4e pdpte link : Word) :
    physOf virt [pml4e, link, entries1g pdpte (index virt 21)] = physOf virt [pml4e, pdpte] := by
  apply BitVec.eq_of_getLsbD_eq
  intro i hi
  have h2m : (0x1FFFFF#64 : Word).getLsbD i = decide (i < 21) :=
    getLsbD_lowMask 21 (by decide) i
  have h1g : (0x3FFFFFFF#64 : Word).getLsbD i = decide (i < 30) :=
    getLsbD_lowMask 30 (by decide) i
  unfold physOf
  rw [BitVec.getLsbD_or, BitVec.getLsbD_or, BitVec.getLsbD_and, BitVec.getLsbD_and,
    BitVec.getLsbD_and, BitVec.getLsbD_and, getLsbD_entries1g, getLsbD_mask2m, getLsbD_mask1g,
    h2m, h1g, testBit_index]
  by_cases h21 : i < 21
  · simp [h21, show ¬ 21 ≤ i by omega, show ¬ 30 ≤ i by omega, show i < 30 by omega]
  · by_cases h30 : i < 30
    · have hbit : 21 + (i - 21) = i := by omega
      simp [h21, h30, hbit, show ¬ i < 12 by omega, show 21 ≤ i by omega,
        show ¬ 30 ≤ i by omega, show i < 52 by omega, show i - 21 < 9 by omega]
    · simp [h21, h30, show ¬ i < 12 by omega, show 21 ≤ i by omega, show 30 ≤ i by omega,
        Bool.and_comm]

theorem phys_entries2m (virt pml4e pdpte pde link : Word) :
    physOf virt [pml4e, pdpte, link, entries2m pde (index virt 12)] =
      physOf virt [pml4e, pdpte, pde] := by
  apply BitVec.eq_of_getLsbD_eq
  intro i hi
  have h4k : (0xFFF#64 : Word).getLsbD i = decide (i < 12) :=
    getLsbD_lowMask 12 (by decide) i
  have h2m : (0x1FFFFF#64 : Word).getLsbD i = decide (i < 21) :=
    getLsbD_lowMask 21 (by decide) i
  unfold physOf
  rw [BitVec.getLsbD_or, BitVec.getLsbD_or, BitVec.getLsbD_and, BitVec.getLsbD_and,
    BitVec.getLsbD_and, BitVec.getLsbD_and, getLsbD_entries2m, getLsbD_addrMask, getLsbD_mask2m,
    h4k, h2m, testBit_index]
  by_cases h12 : i < 12
  · simp [h12, show ¬ 12 ≤ i by omega, show ¬ 21 ≤ i by omega, show i < 21 by omega]
  · by_cases h21 : i < 21
    · have hbit : 12 + (i - 12) = i := by omega
      simp [h12, h21, hbit, show 12 ≤ i by omega, show ¬ 21 ≤ i by omega,
        show i < 52 by omega, show i - 12 < 9 by omega]
    · simp [h12, h21, show 12 ≤ i by omega, show 21 ≤ i by omega, Bool.and_comm]

/-! ## Links -/

theorem getLsbD_addr (page : PhysPage) {i : ℕ} (hi : i < 12 ∨ 52 ≤ i) :
    page.addr.getLsbD i = false := by
  rw [← page.aligned, BitVec.getLsbD_and, getLsbD_addrMask]
  rcases hi with h | h
  · rw [decide_eq_false (by omega : ¬ 12 ≤ i), Bool.false_and, Bool.and_false]
  · rw [decide_eq_false (by omega : ¬ i < 52), Bool.and_false, Bool.and_false]

theorem getLsbD_splitLink (page : PhysPage) (newFlags : Word) (i : ℕ) :
    (splitLink page newFlags).getLsbD i =
      (page.addr.getLsbD i || decide (i = 0) || decide (i = 1) ||
        (decide (i = 2) && isSet newFlags vmmUser)) := by
  have hpresent := getLsbD_flag 0 i
  have hwrite := getLsbD_flag 1 i
  have huser := getLsbD_flag 2 i
  unfold splitLink vmmPresent vmmWrite
  rw [BitVec.getLsbD_or, BitVec.getLsbD_or, BitVec.getLsbD_or, hpresent, hwrite, Bool.or_assoc,
    Bool.or_assoc]
  have hlt : ∀ k, k < 64 → (decide (i = k) && decide (i < 64)) = decide (i = k) := by
    intro k hk
    by_cases h : i = k
    · subst h
      simp [hk]
    · simp [h]
  rw [hlt 0 (by decide), hlt 1 (by decide)]
  cases isSet newFlags vmmUser with
  | false => simp [Bool.or_assoc]
  | true =>
      rw [if_pos rfl, vmmUser, huser, hlt 2 (by decide), Bool.and_true, Bool.or_assoc]

theorem target_splitLink (page : PhysPage) (newFlags : Word) :
    target (splitLink page newFlags) = page := by
  have haddr : splitLink page newFlags &&& addrMask = page.addr := by
    apply BitVec.eq_of_getLsbD_eq
    intro i _
    rw [BitVec.getLsbD_and, getLsbD_splitLink, getLsbD_addrMask]
    by_cases h : 12 ≤ i ∧ i < 52
    · simp [h.1, h.2, show i ≠ 0 by omega, show i ≠ 1 by omega, show i ≠ 2 by omega]
    · rw [getLsbD_addr page (by omega)]
      by_cases h12 : 12 ≤ i
      · simp [show ¬ i < 52 by omega]
      · simp [h12]
  unfold target
  cases page
  simp only [PhysPage.mk.injEq]
  exact haddr

theorem kind_splitLink (page : PhysPage) (newFlags : Word) {depth : ℕ} (hdepth : depth < 3) :
    kind depth (splitLink page newFlags) = .table page := by
  have hpresent : isSet (splitLink page newFlags) vmmPresent = true := by
    rw [isSet_present, getLsbD_splitLink]
    simp
  have hhuge : isSet (splitLink page newFlags) vmmHuge = false := by
    rw [isSet_huge, getLsbD_splitLink, getLsbD_addr page (by omega)]
    simp
  unfold kind
  rw [hpresent, hhuge, target_splitLink, if_neg (by simp), if_neg (by simp; omega)]

/-- The entry `get_next_level` writes is that of a split for a user mapping. -/
theorem nextLevel_link (page : PhysPage) :
    page.addr ||| vmmPresent ||| vmmWrite ||| vmmUser = splitLink page vmmUser := by
  have huser : isSet vmmUser vmmUser = true := by decide
  rw [splitLink, huser, if_pos rfl, BitVec.or_assoc, BitVec.or_assoc, BitVec.or_assoc]

/-! ## Kinds -/

theorem kind_of_leaf {depth : ℕ} {entry : Word}
    (h : 3 ≤ depth ∨ 0 < depth ∧ isSet entry vmmHuge = true) :
    kind depth entry = if isSet entry vmmPresent then .leaf else .absent := by
  unfold kind
  cases isSet entry vmmPresent with
  | false => rfl
  | true => rw [if_neg (by simp), if_pos h, if_pos rfl]

theorem kind_of_absent {depth : ℕ} {entry : Word} (h : isSet entry vmmPresent = false) :
    kind depth entry = .absent := by
  unfold kind
  rw [h, if_pos (by simp)]

theorem kind_of_table {depth : ℕ} {entry : Word} (hpresent : isSet entry vmmPresent = true)
    (hdepth : depth < 3) (hhuge : depth = 0 ∨ isSet entry vmmHuge = false) :
    kind depth entry = .table (target entry) := by
  unfold kind
  rw [hpresent, if_neg (by simp), if_neg]
  rintro (h | ⟨h, hset⟩)
  · omega
  · rcases hhuge with h0 | hclear
    · omega
    · rw [hclear] at hset
      cases hset

theorem kind_eq_table {depth : ℕ} {entry : Word} {page : PhysPage}
    (h : kind depth entry = .table page) : isSet entry vmmPresent = true ∧
      page = target entry ∧ depth < 3 ∧ (depth = 0 ∨ isSet entry vmmHuge = false) := by
  unfold kind at h
  split at h
  · cases h
  · split at h
    · cases h
    · rename_i hset hend
      cases h
      refine ⟨by simpa using hset, rfl, by omega, ?_⟩
      rcases Nat.eq_zero_or_pos depth with h0 | hpos
      · exact Or.inl h0
      · exact Or.inr (Bool.eq_false_iff.mpr fun hhuge => hend (Or.inr ⟨hpos, hhuge⟩))

theorem kind_eq_leaf {depth : ℕ} {entry : Word} (h : kind depth entry = .leaf) :
    isSet entry vmmPresent = true ∧ (3 ≤ depth ∨ 0 < depth ∧ isSet entry vmmHuge = true) := by
  unfold kind at h
  split at h
  · cases h
  · split at h
    · rename_i hset hend
      exact ⟨by simpa using hset, hend⟩
    · cases h

theorem page_of_leaf {depth : ℕ} {entry : Word}
    (h : 3 ≤ depth ∨ 0 < depth ∧ isSet entry vmmHuge = true) :
    (kind depth entry).page = none := by
  rw [kind_of_leaf h]
  split <;> rfl

theorem isLeaf_of_leaf {depth : ℕ} {entry : Word}
    (h : 3 ≤ depth ∨ 0 < depth ∧ isSet entry vmmHuge = true) :
    (kind depth entry).isLeaf = isSet entry vmmPresent := by
  rw [kind_of_leaf h]
  cases isSet entry vmmPresent <;> rfl

theorem huge_entries1g (old : Word) (j : TableIndex) :
    isSet (entries1g old j) vmmHuge = true := by
  rw [isSet_huge, getLsbD_entries1g]
  simp

theorem present_entries1g (old : Word) (j : TableIndex) :
    isSet (entries1g old j) vmmPresent = isSet old vmmPresent := by
  rw [isSet_present, isSet_present, getLsbD_entries1g]
  simp

theorem present_entries2m (old : Word) (j : TableIndex) :
    isSet (entries2m old j) vmmPresent = isSet old vmmPresent := by
  rw [isSet_present, isSet_present, getLsbD_entries2m]
  simp

/-! ## Walks of the source -/

section Walks

variable {m : PageTables} {page : PhysPage} {virt : Word} {fuel depth : ℕ} {entry : Word}

theorem walk_absent (hentry : m.tables page (indices virt depth) = entry)
    (h : isSet entry vmmPresent = false) :
    walk kind m.tables (indices virt) (fuel + 1) depth page = none := by
  rw [walk, hentry, kind_of_absent h]

theorem walk_leaf (hentry : m.tables page (indices virt depth) = entry)
    (hpresent : isSet entry vmmPresent = true)
    (h : 3 ≤ depth ∨ 0 < depth ∧ isSet entry vmmHuge = true) :
    walk kind m.tables (indices virt) (fuel + 1) depth page = some [entry] := by
  rw [walk, hentry, kind_of_leaf h, if_pos hpresent]

variable (m page virt fuel depth) in
theorem walk_table (hentry : m.tables page (indices virt depth) = entry)
    (hpresent : isSet entry vmmPresent = true) (hdepth : depth < 3)
    (hhuge : depth = 0 ∨ isSet entry vmmHuge = false) :
    walk kind m.tables (indices virt) (fuel + 1) depth page =
      (walk kind m.tables (indices virt) fuel (depth + 1) (target entry)).map (entry :: ·) := by
  rw [walk, hentry, kind_of_table hpresent hdepth hhuge]

end Walks

/-- The walk, in the order in which the lookups of `vmm.c` read the entries. -/
theorem translation_elim {α : Type} (m : PageTables) (root : PhysPage) (virt : Word) (absent : α)
    (found : List Word → α) :
    (translation m root virt).elim absent found =
      let pml4e := m.tables root (pml4Index virt)
      if ¬ isSet pml4e vmmPresent then absent
      else
        let pdpte := m.tables (target pml4e) (pdptIndex virt)
        if ¬ isSet pdpte vmmPresent then absent
        else if isSet pdpte vmmHuge then found [pml4e, pdpte]
        else
          let pde := m.tables (target pdpte) (pdIndex virt)
          if ¬ isSet pde vmmPresent then absent
          else if isSet pde vmmHuge then found [pml4e, pdpte, pde]
          else
            let pte := m.tables (target pde) (ptIndex virt)
            if ¬ isSet pte vmmPresent then absent else found [pml4e, pdpte, pde, pte] := by
  unfold translation
  dsimp only
  generalize h4 : m.tables root (pml4Index virt) = pml4e
  cases hp4 : isSet pml4e vmmPresent with
  | false => rw [walk_absent h4 hp4, if_pos (by simp)]; rfl
  | true =>
      rw [walk_table _ _ _ _ _ h4 hp4 (by decide) (Or.inl rfl), if_neg (by simp)]
      generalize h3 : m.tables (target pml4e) (pdptIndex virt) = pdpte
      cases hp3 : isSet pdpte vmmPresent with
      | false => rw [walk_absent h3 hp3, if_pos (by simp)]; rfl
      | true =>
          rw [if_neg (by simp)]
          cases hh3 : isSet pdpte vmmHuge with
          | true => rw [walk_leaf h3 hp3 (Or.inr ⟨by decide, hh3⟩), if_pos rfl]; rfl
          | false =>
              rw [walk_table _ _ _ _ _ h3 hp3 (by decide) (Or.inr hh3), if_neg (by simp)]
              generalize h2 : m.tables (target pdpte) (pdIndex virt) = pde
              cases hp2 : isSet pde vmmPresent with
              | false => rw [walk_absent h2 hp2, if_pos (by simp)]; rfl
              | true =>
                  rw [if_neg (by simp)]
                  cases hh2 : isSet pde vmmHuge with
                  | true => rw [walk_leaf h2 hp2 (Or.inr ⟨by decide, hh2⟩), if_pos rfl]; rfl
                  | false =>
                      rw [walk_table _ _ _ _ _ h2 hp2 (by decide) (Or.inr hh2), if_neg (by simp)]
                      generalize h1 : m.tables (target pde) (ptIndex virt) = pte
                      cases hp1 : isSet pte vmmPresent with
                      | false => rw [walk_absent h1 hp1, if_pos (by simp)]; rfl
                      | true =>
                          rw [walk_leaf h1 hp1 (Or.inl (by decide)), if_neg (by simp)]
                          rfl

theorem vmmGetPhys_eq (m : PageTables) (root : PhysPage) (virt : Word) :
    vmmGetPhys m root virt = (translation m root virt).elim 0#64 (physOf virt) :=
  (translation_elim m root virt 0#64 (physOf virt)).symm

end EigenOS.Paging
