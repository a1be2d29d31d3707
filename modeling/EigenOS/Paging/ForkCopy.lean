import EigenOS.Paging.Entries

/-!
# Copying an address space

`sys_fork` gives the child a table of its own with the kernel half of the parent's, and
copies the pages of the user half and the tables above them into new frames.
-/

namespace EigenOS.Paging

open EigenOS.RadixTree

def allEntries : List TableIndex := List.finRange 512

def userEntries : List TableIndex := allEntries.take 256

/-- A loop over entries that ends with the first failure; `false` is `-1`. -/
def forEntries (body : PageTables → TableIndex → Bool × PageTables) :
    List TableIndex → PageTables → Bool × PageTables
  | [], m => (true, m)
  | i :: rest, m =>
      match body m i with
      | (false, m) => (false, m)
      | (true, m) => forEntries body rest m

/-- The entry of the child in the place of one of the parent. -/
def childEntry (page : PhysPage) (entry : Word) : Word := page.addr ||| (entry &&& 0xFFF#64)

/-- The body of the innermost loop: a page is copied. -/
def copyPage (source dest : PhysPage) (m : PageTables) (i : TableIndex) : Bool × PageTables :=
  let entry := m.tables source i
  if isSet entry vmmPresent = false then (true, m)
  else
    match m.supply with
    | [] => (false, m)
    | page :: rest =>
        (true,
          { tables := attach m.tables dest i page (m.tables (target entry))
              (childEntry page entry)
            supply := rest })

/-- The body of the other loops: an empty table is linked, and filled by the loop below.  Two
of them pass over huge pages. -/
def copyTable (skipsHuge : Bool) (copyBelow : PhysPage → PhysPage → PageTables → Bool × PageTables)
    (source dest : PhysPage) (m : PageTables) (i : TableIndex) : Bool × PageTables :=
  let entry := m.tables source i
  if isSet entry vmmPresent = false then (true, m)
  else if skipsHuge && isSet entry vmmHuge then (true, m)
  else
    match m.supply with
    | [] => (false, m)
    | page :: rest =>
        copyBelow (target entry) page
          { tables := attach m.tables dest i page (fun _ => 0#64) (childEntry page entry)
            supply := rest }

/-- The loop over a page table. -/
def copyL1 (source dest : PhysPage) (m : PageTables) : Bool × PageTables :=
  forEntries (copyPage source dest) allEntries m

/-- The loop over a page directory. -/
def copyL2 (source dest : PhysPage) (m : PageTables) : Bool × PageTables :=
  forEntries (copyTable true copyL1 source dest) allEntries m

/-- The loop over a page directory pointer table. -/
def copyL3 (source dest : PhysPage) (m : PageTables) : Bool × PageTables :=
  forEntries (copyTable true copyL2 source dest) allEntries m

/-- `copy_user_as`. -/
def copyUserAs (m : PageTables) (source dest : PhysPage) : Bool × PageTables :=
  forEntries (copyTable false copyL3 source dest) userEntries m

/-- `vmm_new_user_pml4` in the address space of `active`. -/
def vmmNewUserPml4 (m : PageTables) (active : PhysPage) : Option PhysPage × PageTables :=
  match m.supply with
  | [] => (none, m)
  | page :: rest =>
      (some page,
        { tables := Function.update m.tables page fun i =>
            if 256 ≤ i.val then m.tables active i else 0#64
          supply := rest })

/-- The address space that `sys_fork` makes for the child of the task that runs in `parent`;
`none` is a failure. -/
def forkAddressSpace (m : PageTables) (parent : PhysPage) : Option PhysPage × PageTables :=
  match vmmNewUserPml4 m parent with
  | (none, m) => (none, m)
  | (some child, m) =>
      match copyUserAs m parent child with
      | (false, m) => (none, m)
      | (true, m) => (some child, m)

/-! ## Entries of the child -/

section Entries

variable (page : PhysPage) (entry : Word)

theorem getLsbD_childEntry (i : ℕ) :
    (childEntry page entry).getLsbD i =
      (page.addr.getLsbD i || (decide (i < 12) && entry.getLsbD i)) := by
  have hlow : (0xFFF#64 : Word).getLsbD i = decide (i < 12) :=
    getLsbD_lowMask 12 (by decide) i
  unfold childEntry
  rw [BitVec.getLsbD_or, BitVec.getLsbD_and, hlow, Bool.and_comm (entry.getLsbD i)]

theorem getLsbD_childEntry_low {i : ℕ} (hi : i < 12) :
    (childEntry page entry).getLsbD i = entry.getLsbD i := by
  rw [getLsbD_childEntry, getLsbD_addr page (Or.inl hi), decide_eq_true hi, Bool.true_and,
    Bool.false_or]

theorem getLsbD_childEntry_high {i : ℕ} (hi : 52 ≤ i) :
    (childEntry page entry).getLsbD i = false := by
  rw [getLsbD_childEntry, getLsbD_addr page (Or.inr hi),
    decide_eq_false (by omega : ¬ i < 12)]
  rfl

theorem present_childEntry : isSet (childEntry page entry) vmmPresent = isSet entry vmmPresent := by
  rw [isSet_present, isSet_present, getLsbD_childEntry_low page entry (by decide)]

theorem write_childEntry : isSet (childEntry page entry) vmmWrite = isSet entry vmmWrite := by
  rw [isSet_write, isSet_write, getLsbD_childEntry_low page entry (by decide)]

theorem user_childEntry : isSet (childEntry page entry) vmmUser = isSet entry vmmUser := by
  rw [isSet_user, isSet_user, getLsbD_childEntry_low page entry (by decide)]

theorem huge_childEntry : isSet (childEntry page entry) vmmHuge = isSet entry vmmHuge := by
  rw [isSet_huge, isSet_huge, getLsbD_childEntry_low page entry (by decide)]

theorem nx_childEntry : isSet (childEntry page entry) vmmNx = false := by
  rw [isSet_nx, getLsbD_childEntry_high page entry (by decide)]

theorem target_childEntry : target (childEntry page entry) = page := by
  have haddr : childEntry page entry &&& addrMask = page.addr := by
    apply BitVec.eq_of_getLsbD_eq
    intro i _
    rw [BitVec.getLsbD_and, getLsbD_addrMask]
    by_cases hlow : i < 12
    · rw [getLsbD_addr page (Or.inl hlow), decide_eq_false (by omega : ¬ 12 ≤ i),
        Bool.false_and, Bool.and_false]
    · rw [getLsbD_childEntry, decide_eq_false hlow, Bool.false_and, Bool.or_false,
        decide_eq_true (by omega : 12 ≤ i), Bool.true_and]
      by_cases hhigh : i < 52
      · rw [decide_eq_true hhigh, Bool.and_true]
      · rw [getLsbD_addr page (Or.inr (by omega)), Bool.false_and]
  cases page
  exact PhysPage.mk.injEq _ _ _ _ ▸ haddr

theorem kind_childEntry (depth : ℕ) :
    kind depth (childEntry page entry) =
      match kind depth entry with
      | .absent => .absent
      | .leaf => .leaf
      | .table _ => .table page := by
  unfold kind
  rw [present_childEntry, huge_childEntry, target_childEntry]
  split_ifs
  · rfl
  · rfl
  · rfl

end Entries

end EigenOS.Paging
