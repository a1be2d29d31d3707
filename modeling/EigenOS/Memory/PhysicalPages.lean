import Mathlib.Algebra.GroupWithZero.Nat
import EigenOS.Library.Custody
import EigenOS.Library.Transition
import EigenOS.Memory.UserHeap

/-!
# The physical page allocator

`pmm_init` puts the pages of the memory map on a stack that lies in one of its entries, and
`pmm_alloc` and `pmm_free` take them from there and put them back.
-/

namespace EigenOS.Memory

open EigenOS.Custody EigenOS.Transition

/-! ## Initialisation -/

/-- `struct limine_memmap_entry`. -/
structure MemmapEntry where
  base : ℕ
  length : ℕ
  usable : Bool

/-- A `uint64_t` on the stack of pages. -/
def wordSize : ℕ := 8

/-- The address of `free_pages_stack` less `hhdm_offset`, if the pointer is set, the number of
pages that were counted for it, and the pages on it, the last one first. -/
structure Pmm where
  stack : Option ℕ
  totalPages : ℕ
  pages : List ℕ

/-- The first pass: the pages of all entries. -/
def countPages (total : ℕ) : List MemmapEntry → ℕ
  | [] => total
  | entry :: rest =>
      countPages
        (if entry.usable then (total + entry.length / pageSize) % 2 ^ 64 else total) rest

def stackEntry (total : ℕ) (entries : List MemmapEntry) : Option MemmapEntry :=
  entries.find? fun entry =>
    entry.usable && decide (total * wordSize % 2 ^ 64 ≤ entry.length)

def pushPages (stackPhys stackEnd end' : ℕ) (addr : ℕ) (pages : List ℕ) : List ℕ :=
  if addr < end' then
    pushPages stackPhys stackEnd end' (addr + pageSize)
      (if stackPhys ≤ addr ∧ addr < stackEnd then pages else addr :: pages)
  else pages
termination_by end' - addr
decreasing_by
  have hsize : pageSize = 4096 := rfl
  omega

/-- The second pass. -/
def pushEntries (stackPhys stackEnd : ℕ) (pages : List ℕ) : List MemmapEntry → List ℕ
  | [] => pages
  | entry :: rest =>
      pushEntries stackPhys stackEnd
        (if entry.usable then
          pushPages stackPhys stackEnd ((entry.base + entry.length) % 2 ^ 64) entry.base pages
        else pages) rest

/-- `pmm_init`. -/
def pmmInit (hhdmOffset : ℕ) (entries : List MemmapEntry) : Pmm :=
  let total := countPages 0 entries
  match stackEntry total entries with
  | none => ⟨none, total, []⟩
  | some entry =>
      let freePagesStack := (entry.base + hhdmOffset) % 2 ^ 64
      if freePagesStack = 0 then ⟨none, total, []⟩
      else
        let stackPhys := (freePagesStack + 2 ^ 64 - hhdmOffset) % 2 ^ 64
        let stackEnd := (stackPhys + total * wordSize) % 2 ^ 64
        ⟨some stackPhys, total, pushEntries stackPhys stackEnd [] entries⟩

/-- `pmm_free`. -/
def pmmFree (phys : ℕ) (pages : List ℕ) : List ℕ := phys :: pages

/-! ## The memory map -/

/-- The memory map as the boot loader promises it: usable entries are page-aligned, disjoint,
without frame 0 and in reach of the direct map, which is in the upper half and ends below the
kernel. -/
structure ValidMap (hhdmOffset : ℕ) (entries : List MemmapEntry) : Prop where
  upper : 2 ^ 63 ≤ hhdmOffset
  aligned : ∀ entry ∈ entries, entry.usable = true →
    pageSize ∣ entry.base ∧ pageSize ∣ entry.length
  mapped : ∀ entry ∈ entries, entry.usable = true →
    hhdmOffset + entry.base + entry.length < 2 ^ 64
  noZero : ∀ entry ∈ entries, entry.usable = true → 0 < entry.length → 0 < entry.base
  disjoint : entries.Pairwise fun entry other => entry.usable = true → other.usable = true →
    entry.base + entry.length ≤ other.base ∨ other.base + other.length ≤ entry.base

def MemmapEntry.pageCount (entry : MemmapEntry) : ℕ :=
  if entry.usable then entry.length / pageSize else 0

def pageCount (entries : List MemmapEntry) : ℕ := (entries.map MemmapEntry.pageCount).sum

/-- Some usable entry has room for a word for each page. -/
def Roomy (entries : List MemmapEntry) : Prop :=
  ∃ entry ∈ entries, entry.usable = true ∧ pageCount entries * wordSize ≤ entry.length

def UsablePage (entries : List MemmapEntry) (addr : ℕ) : Prop :=
  pageSize ∣ addr ∧ ∃ entry ∈ entries, entry.usable = true ∧ entry.base ≤ addr ∧
    addr + pageSize ≤ entry.base + entry.length

/-- The page has no byte in common with the stack's storage. -/
def Pmm.Outside (pmm : Pmm) (addr : ℕ) : Prop :=
  ∀ stack, pmm.stack = some stack →
    addr + pageSize ≤ stack ∨ stack + pmm.totalPages * wordSize ≤ addr

/-- Every usable page outside the storage is on the stack once, and nothing else is. -/
structure Places (entries : List MemmapEntry) (pmm : Pmm) : Prop where
  nodup : pmm.pages.Nodup
  mem_iff : ∀ addr, addr ∈ pmm.pages ↔ UsablePage entries addr ∧ pmm.Outside addr

/-- The stack lies in one usable entry, and has not outgrown its storage. -/
structure Stored (entries : List MemmapEntry) (pmm : Pmm) : Prop where
  fits : pmm.pages.length ≤ pmm.totalPages
  inside : ∀ stack, pmm.stack = some stack → ∃ entry ∈ entries, entry.usable = true ∧
    entry.base ≤ stack ∧ stack + pmm.totalPages * wordSize ≤ entry.base + entry.length

/-! ## The passes -/

theorem pageSize_eq : pageSize = 4096 := rfl

def MemmapEntry.addresses (entry : MemmapEntry) : List ℕ :=
  List.range' entry.base entry.pageCount pageSize

def allPages (entries : List MemmapEntry) : List ℕ := entries.flatMap MemmapEntry.addresses

theorem length_allPages (entries : List MemmapEntry) :
    (allPages entries).length = pageCount entries := by
  rw [allPages, List.length_flatMap, pageCount]
  congr 1
  apply List.map_congr_left
  intro entry _
  exact List.length_range'

theorem countPages_eq {total : ℕ} {entries : List MemmapEntry}
    (hlt : total + pageCount entries < 2 ^ 64) :
    countPages total entries = total + pageCount entries := by
  induction entries generalizing total with
  | nil => rfl
  | cons entry rest ih =>
      have hcount : pageCount (entry :: rest) = entry.pageCount + pageCount rest := List.sum_cons
      have hfirst : (if entry.usable then (total + entry.length / pageSize) % 2 ^ 64 else total) =
          total + entry.pageCount := by
        unfold MemmapEntry.pageCount at hcount ⊢
        by_cases husable : entry.usable = true
        · rw [if_pos husable] at hcount
          rw [if_pos husable, if_pos husable, Nat.mod_eq_of_lt (by omega)]
        · rw [if_neg husable, if_neg husable, add_zero]
      rw [countPages, hfirst, ih (by omega)]
      omega

/-- A page that the stack does not lie in. -/
def clear (stackPhys stackEnd addr : ℕ) : Bool := !decide (stackPhys ≤ addr ∧ addr < stackEnd)

theorem clear_eq_true {stackPhys stackEnd addr : ℕ} :
    clear stackPhys stackEnd addr = true ↔ ¬ (stackPhys ≤ addr ∧ addr < stackEnd) := by
  rw [clear, Bool.not_eq_true', decide_eq_false_iff_not]

theorem pushPages_eq (stackPhys stackEnd end' addr : ℕ) (pages : List ℕ) :
    pushPages stackPhys stackEnd end' addr pages =
      ((List.range' addr ((end' - addr + 4095) / pageSize) pageSize).filter
        (clear stackPhys stackEnd)).reverse ++ pages := by
  induction addr, pages using pushPages.induct stackPhys stackEnd end' with
  | case1 addr pages hlt ih =>
      have hcount : (end' - addr + 4095) / pageSize =
          (end' - (addr + pageSize) + 4095) / pageSize + 1 := by
        rw [pageSize_eq]
        omega
      simp only [dite_eq_ite] at ih
      rw [pushPages, if_pos hlt, ih, hcount, List.range'_succ, List.filter_cons]
      by_cases hinside : stackPhys ≤ addr ∧ addr < stackEnd
      · rw [if_pos hinside, if_neg fun h => clear_eq_true.mp h hinside]
      · rw [if_neg hinside, if_pos (clear_eq_true.mpr hinside), List.reverse_cons,
          List.append_assoc, List.singleton_append]
  | case2 addr pages hge =>
      have hcount : (end' - addr + 4095) / pageSize = 0 := by
        rw [pageSize_eq]
        omega
      rw [pushPages, if_neg hge, hcount]
      rfl

section Map

variable {hhdmOffset : ℕ} {entries : List MemmapEntry}

theorem pushEntries_eq (stackPhys stackEnd : ℕ) (pages : List ℕ)
    (haligned : ∀ entry ∈ entries, entry.usable = true → pageSize ∣ entry.length)
    (hmapped : ∀ entry ∈ entries, entry.usable = true → entry.base + entry.length < 2 ^ 64) :
    pushEntries stackPhys stackEnd pages entries =
      ((allPages entries).filter (clear stackPhys stackEnd)).reverse ++ pages := by
  induction entries generalizing pages with
  | nil => rfl
  | cons entry rest ih =>
      have hrest := fun pages => ih pages (fun e he => haligned e (List.mem_cons_of_mem _ he))
        (fun e he => hmapped e (List.mem_cons_of_mem _ he))
      have hfirst : (if entry.usable then
          pushPages stackPhys stackEnd ((entry.base + entry.length) % 2 ^ 64) entry.base pages
          else pages) =
          (entry.addresses.filter (clear stackPhys stackEnd)).reverse ++ pages := by
        unfold MemmapEntry.addresses MemmapEntry.pageCount
        by_cases husable : entry.usable = true
        · obtain ⟨count, hcount⟩ := haligned entry List.mem_cons_self husable
          have hrounds : (entry.base + entry.length - entry.base + 4095) / pageSize =
              entry.length / pageSize := by
            rw [pageSize_eq] at hcount ⊢
            omega
          rw [if_pos husable, if_pos husable,
            Nat.mod_eq_of_lt (hmapped entry List.mem_cons_self husable), pushPages_eq, hrounds]
        · rw [if_neg husable, if_neg husable]
          rfl
      have hall : allPages (entry :: rest) = entry.addresses ++ allPages rest :=
        List.flatMap_cons
      rw [pushEntries, hfirst, hrest, hall, List.filter_append, List.reverse_append,
        List.append_assoc]

namespace ValidMap

variable (hvalid : ValidMap hhdmOffset entries)
include hvalid

theorem mem_addresses {entry : MemmapEntry} (hentry : entry ∈ entries) (addr : ℕ) :
    addr ∈ entry.addresses ↔ entry.usable = true ∧ pageSize ∣ addr ∧ entry.base ≤ addr ∧
      addr + pageSize ≤ entry.base + entry.length := by
  unfold MemmapEntry.addresses MemmapEntry.pageCount
  rw [List.mem_range']
  by_cases husable : entry.usable = true
  · obtain ⟨⟨first, hfirst⟩, ⟨count, hcount⟩⟩ := hvalid.aligned entry hentry husable
    rw [if_pos husable]
    rw [pageSize_eq] at hfirst hcount ⊢
    constructor
    · rintro ⟨i, hi, rfl⟩
      exact ⟨husable, ⟨first + i, by omega⟩, by omega, by omega⟩
    · rintro ⟨_, ⟨i, hi⟩, hbase, hlimit⟩
      exact ⟨i - first, by omega, by omega⟩
  · rw [if_neg husable]
    constructor
    · rintro ⟨i, hi, _⟩
      exact absurd hi (Nat.not_lt_zero i)
    · exact fun h => absurd h.1 husable

theorem mem_allPages (addr : ℕ) : addr ∈ allPages entries ↔ UsablePage entries addr := by
  rw [allPages, List.mem_flatMap]
  constructor
  · rintro ⟨entry, hentry, haddr⟩
    obtain ⟨husable, haligned, hinside⟩ := (hvalid.mem_addresses hentry addr).mp haddr
    exact ⟨haligned, entry, hentry, husable, hinside⟩
  · rintro ⟨haligned, entry, hentry, husable, hinside⟩
    exact ⟨entry, hentry, (hvalid.mem_addresses hentry addr).mpr ⟨husable, haligned, hinside⟩⟩

theorem nodup_allPages : (allPages entries).Nodup := by
  rw [allPages, List.nodup_flatMap]
  constructor
  · intro entry _
    exact List.nodup_range' _ (by decide)
  · apply hvalid.disjoint.imp_of_mem
    intro entry other hentry hother hdisjoint addr haddr haddr'
    obtain ⟨husable, _, hbase, hlimit⟩ := (hvalid.mem_addresses hentry addr).mp haddr
    obtain ⟨husable', _, hbase', hlimit'⟩ := (hvalid.mem_addresses hother addr).mp haddr'
    have hsize := pageSize_eq
    have hapart := hdisjoint husable husable'
    omega

theorem pageCount_le : pageCount entries ≤ 2 ^ 51 := by
  have hsubset : allPages entries ⊆ (List.range (2 ^ 51)).map (pageSize * ·) := by
    intro addr haddr
    obtain ⟨⟨i, hi⟩, entry, hentry, husable, _, hlimit⟩ := (hvalid.mem_allPages addr).mp haddr
    have hmapped := hvalid.mapped entry hentry husable
    have hupper := hvalid.upper
    rw [pageSize_eq] at hi hlimit
    exact List.mem_map.mpr ⟨i, List.mem_range.mpr (by omega), hi.symm⟩
  have hle := (List.subperm_of_subset hvalid.nodup_allPages hsubset).length_le
  rwa [length_allPages, List.length_map, List.length_range] at hle

theorem storage_lt : pageCount entries * wordSize < 2 ^ 64 := by
  have hle := hvalid.pageCount_le
  change pageCount entries * 8 < 2 ^ 64
  omega

/-! ## The stack -/

theorem countPages_eq_pageCount : countPages 0 entries = pageCount entries := by
  have hle := hvalid.pageCount_le
  rw [countPages_eq (by omega), zero_add]

theorem stackEntry_eq_some {entry : MemmapEntry}
    (hfound : stackEntry (countPages 0 entries) entries = some entry) :
    entry ∈ entries ∧ entry.usable = true ∧ pageCount entries * wordSize ≤ entry.length := by
  have htest := List.find?_some hfound
  rw [hvalid.countPages_eq_pageCount, Bool.and_eq_true, decide_eq_true_eq,
    Nat.mod_eq_of_lt hvalid.storage_lt] at htest
  exact ⟨List.mem_of_find?_eq_some hfound, htest⟩

theorem stackEntry_isSome : (stackEntry (countPages 0 entries) entries).isSome ↔ Roomy entries := by
  rw [stackEntry, List.find?_isSome, hvalid.countPages_eq_pageCount,
    Nat.mod_eq_of_lt hvalid.storage_lt]
  simp only [Bool.and_eq_true, decide_eq_true_eq]
  rfl

/-- The stack is at the start of an entry with room for it, and has on it what is clear of
it. -/
theorem pmmInit_eq {entry : MemmapEntry}
    (hfound : stackEntry (countPages 0 entries) entries = some entry) :
    pmmInit hhdmOffset entries = ⟨some entry.base, pageCount entries,
      ((allPages entries).filter
        (clear entry.base (entry.base + pageCount entries * wordSize))).reverse⟩ := by
  obtain ⟨hentry, husable, hroom⟩ := hvalid.stackEntry_eq_some hfound
  have hmapped := hvalid.mapped entry hentry husable
  have hupper := hvalid.upper
  have hpointer : (entry.base + hhdmOffset) % 2 ^ 64 = entry.base + hhdmOffset :=
    Nat.mod_eq_of_lt (by omega)
  have hphys : (entry.base + hhdmOffset + 2 ^ 64 - hhdmOffset) % 2 ^ 64 = entry.base := by
    omega
  have hend : (entry.base + pageCount entries * wordSize) % 2 ^ 64 =
      entry.base + pageCount entries * wordSize := Nat.mod_eq_of_lt (by omega)
  unfold pmmInit
  dsimp only
  rw [hfound]
  dsimp only
  rw [hpointer, if_neg (by omega), hphys, hvalid.countPages_eq_pageCount, hend,
    pushEntries_eq _ _ _ (fun e he hu => (hvalid.aligned e he hu).2)
      (fun e he hu => by have := hvalid.mapped e he hu; omega), List.append_nil]

theorem pmmInit_of_not_roomy (hroomy : ¬ Roomy entries) :
    pmmInit hhdmOffset entries = ⟨none, pageCount entries, []⟩ := by
  have hnone : stackEntry (countPages 0 entries) entries = none := by
    rw [← Option.not_isSome_iff_eq_none, hvalid.stackEntry_isSome]
    exact hroomy
  unfold pmmInit
  dsimp only
  rw [hnone, hvalid.countPages_eq_pageCount]

theorem places (hroomy : Roomy entries) : Places entries (pmmInit hhdmOffset entries) := by
  obtain ⟨entry, hfound⟩ := Option.isSome_iff_exists.mp (hvalid.stackEntry_isSome.mpr hroomy)
  obtain ⟨hentry, husable, hroom⟩ := hvalid.stackEntry_eq_some hfound
  obtain ⟨⟨first, hfirst⟩, _⟩ := hvalid.aligned entry hentry husable
  rw [hvalid.pmmInit_eq hfound]
  constructor
  · exact List.nodup_reverse.mpr (hvalid.nodup_allPages.filter _)
  · intro addr
    rw [List.mem_reverse, List.mem_filter, hvalid.mem_allPages, clear_eq_true]
    apply and_congr_right
    rintro ⟨⟨i, hi⟩, _⟩
    rw [pageSize_eq] at hfirst hi
    constructor
    · intro hclear stack hstack
      cases hstack
      rw [pageSize_eq]
      dsimp only
      omega
    · intro houtside hinside
      have hapart := houtside entry.base rfl
      rw [pageSize_eq] at hapart
      dsimp only at hapart
      omega

theorem stored : Stored entries (pmmInit hhdmOffset entries) := by
  by_cases hroomy : Roomy entries
  · obtain ⟨entry, hfound⟩ := Option.isSome_iff_exists.mp (hvalid.stackEntry_isSome.mpr hroomy)
    obtain ⟨hentry, husable, hroom⟩ := hvalid.stackEntry_eq_some hfound
    rw [hvalid.pmmInit_eq hfound]
    constructor
    · dsimp only
      rw [List.length_reverse, ← length_allPages]
      exact List.length_filter_le _ _
    · intro stack hstack
      cases hstack
      exact ⟨entry, hentry, husable, Nat.le_refl _, Nat.add_le_add_left hroom _⟩
  · rw [hvalid.pmmInit_of_not_roomy hroomy]
    exact ⟨Nat.zero_le _, nofun⟩

/-- A map with few usable entries has one that is large enough, unless it has no page at all. -/
theorem pageCount_eq_zero_of_not_roomy
    (hfew : (entries.filter MemmapEntry.usable).length ≤ 512) (hroomy : ¬ Roomy entries) :
    pageCount entries = 0 := by
  have hsmall : ∀ entry ∈ entries, entry.usable = true →
      512 * entry.pageCount + 1 ≤ pageCount entries := by
    intro entry hentry husable
    obtain ⟨count, hcount⟩ := (hvalid.aligned entry hentry husable).2
    have hroom : ¬ pageCount entries * 8 ≤ entry.length :=
      fun h => hroomy ⟨entry, hentry, husable, h⟩
    rw [MemmapEntry.pageCount, if_pos husable]
    rw [pageSize_eq] at hcount ⊢
    omega
  have hsum : ∀ part : List MemmapEntry, (∀ entry ∈ part, entry ∈ entries) →
      512 * pageCount part + (part.filter MemmapEntry.usable).length ≤
        (part.filter MemmapEntry.usable).length * pageCount entries := by
    intro part hpart
    induction part with
    | nil => exact Nat.zero_le _
    | cons entry rest ih =>
        have hrest := ih fun e he => hpart e (List.mem_cons_of_mem _ he)
        have hcount : pageCount (entry :: rest) = entry.pageCount + pageCount rest := List.sum_cons
        by_cases husable : entry.usable = true
        · have hentry := hsmall entry (hpart entry List.mem_cons_self) husable
          have hproduct := Nat.succ_mul (rest.filter MemmapEntry.usable).length (pageCount entries)
          rw [List.filter_cons, if_pos husable, List.length_cons, hcount, hproduct]
          omega
        · have hzero : entry.pageCount = 0 := if_neg husable
          rw [List.filter_cons, if_neg husable, hcount, hzero, zero_add]
          exact hrest
  have htotal := hsum entries fun _ h => h
  have hproduct := Nat.mul_le_mul_right (pageCount entries) hfew
  have hnone : (entries.filter MemmapEntry.usable).length = 0 := by omega
  rw [hnone, Nat.zero_mul] at htotal
  omega

theorem places_of_few (hfew : (entries.filter MemmapEntry.usable).length ≤ 512) :
    Places entries (pmmInit hhdmOffset entries) := by
  by_cases hroomy : Roomy entries
  · exact hvalid.places hroomy
  · have hnone : allPages entries = [] := by
      rw [← List.length_eq_zero_iff, length_allPages]
      exact hvalid.pageCount_eq_zero_of_not_roomy hfew hroomy
    rw [hvalid.pmmInit_of_not_roomy hroomy]
    constructor
    · exact List.nodup_nil
    · intro addr
      rw [← hvalid.mem_allPages, hnone]
      exact ⟨fun h => absurd h List.not_mem_nil, fun h => absurd h.1 List.not_mem_nil⟩

theorem zero_notMem : 0 ∉ (pmmInit hhdmOffset entries).pages := by
  by_cases hroomy : Roomy entries
  · intro hzero
    obtain ⟨⟨_, entry, hentry, husable, hbase, hlimit⟩, _⟩ :=
      ((hvalid.places hroomy).mem_iff 0).mp hzero
    rw [pageSize_eq] at hlimit
    have hpos := hvalid.noZero entry hentry husable (by omega)
    omega
  · rw [hvalid.pmmInit_of_not_roomy hroomy]
    exact List.not_mem_nil

theorem nodup_pages : (pmmInit hhdmOffset entries).pages.Nodup := by
  by_cases hroomy : Roomy entries
  · exact (hvalid.places hroomy).nodup
  · rw [hvalid.pmmInit_of_not_roomy hroomy]
    exact List.nodup_nil

end ValidMap

end Map

/-! ## Runs -/

section Runs

variable {Owner : Type*} [DecidableEq Owner]

inductive PageAction (Owner : Type*) where
  | alloc (owner : Owner)
  | free (owner : Owner) (phys : ℕ)

/-- The allocator, and the pages that it gave out with their owners. -/
structure PageRun (Owner : Type*) where
  pmm : Pmm
  held : List (Owner × ℕ)

namespace PageRun

/-- `pmm_alloc` for an owner; 0 is no page. -/
def alloc (run : PageRun Owner) (owner : Owner) : PageRun Owner where
  pmm := { run.pmm with pages := (pmmAlloc run.pmm.pages).2 }
  held :=
    if (pmmAlloc run.pmm.pages).1 = 0 then run.held
    else (owner, (pmmAlloc run.pmm.pages).1) :: run.held

/-- `pmm_free`, of a page that its owner has. -/
def free (run : PageRun Owner) (owner : Owner) (phys : ℕ) : PageRun Owner :=
  if (owner, phys) ∈ run.held then
    { pmm := { run.pmm with pages := pmmFree phys run.pmm.pages }
      held := run.held.erase (owner, phys) }
  else run

def next (run : PageRun Owner) : PageAction Owner → PageRun Owner
  | .alloc owner => run.alloc owner
  | .free owner phys => run.free owner phys

def pool (run : PageRun Owner) : Pool Owner ℕ := ⟨run.pmm.pages, run.held⟩

/-- No page has two owners, none that has one is on the stack, none is lost, and the stack
stays within its storage. -/
structure Accounted (init : Pmm) (run : PageRun Owner) : Prop where
  all : run.pool.all.Perm init.pages
  unique : ∀ owner other phys, (owner, phys) ∈ run.held → (other, phys) ∈ run.held →
    owner = other
  notFree : ∀ owner phys, (owner, phys) ∈ run.held → phys ∉ run.pmm.pages
  fits : run.pmm.pages.length ≤ init.totalPages

variable {init : Pmm} {run : PageRun Owner}

omit [DecidableEq Owner] in
theorem accounted_of_perm (hnodup : init.pages.Nodup) (hfits : init.pages.length ≤ init.totalPages)
    (hall : run.pool.all.Perm init.pages) : run.Accounted init where
  all := hall
  unique := fun _ _ _ h h' => Pool.owner_unique (hall.nodup_iff.mpr hnodup) h h'
  notFree := fun _ _ hheld hfree =>
    Pool.not_held_of_free (hall.nodup_iff.mpr hnodup) hfree hheld
  fits := by
    have hlength := hall.length_eq
    rw [Pool.all, List.length_append] at hlength
    change run.pmm.pages.length + _ = _ at hlength
    omega

omit [DecidableEq Owner] in
theorem pool_alloc (hzero : 0 ∉ run.pmm.pages) (owner : Owner) :
    (run.alloc owner).pool = run.pool.take owner := by
  unfold alloc pool Pool.take
  cases hpages : run.pmm.pages with
  | nil => rfl
  | cons phys rest =>
      have hne : phys ≠ 0 := by
        intro h
        rw [hpages, h] at hzero
        exact hzero List.mem_cons_self
      simp [pmmAlloc, hne]

theorem pool_free (owner : Owner) (phys : ℕ) :
    (run.free owner phys).pool = run.pool.give owner phys := by
  unfold free Pool.give
  by_cases hheld : (owner, phys) ∈ run.held
  · rw [if_pos hheld, if_pos (by exact hheld)]
    rfl
  · rw [if_neg hheld, if_neg (by exact hheld)]

theorem all_next (hzero : 0 ∉ run.pmm.pages) (action : PageAction Owner) :
    (run.next action).pool.all.Perm run.pool.all := by
  cases action with
  | alloc owner =>
      rw [next, pool_alloc hzero]
      exact run.pool.all_take owner
  | free owner phys =>
      rw [next, pool_free]
      exact run.pool.all_give owner phys

end PageRun

/-- The allocator is sound on every map that the boot loader may hand over. -/
theorem pmm_sound {hhdmOffset : ℕ} {entries : List MemmapEntry}
    (hvalid : ValidMap hhdmOffset entries) (actions : List (PageAction Owner)) :
    (Roomy entries → Places entries (pmmInit hhdmOffset entries)) ∧
      (¬ Roomy entries → (pmmInit hhdmOffset entries).pages = []) ∧
      ((entries.filter MemmapEntry.usable).length ≤ 512 →
        Places entries (pmmInit hhdmOffset entries)) ∧
      Stored entries (pmmInit hhdmOffset entries) ∧
      Always (PageRun.Accounted (pmmInit hhdmOffset entries)) ⟨pmmInit hhdmOffset entries, []⟩
        (trace PageRun.next ⟨pmmInit hhdmOffset entries, []⟩ actions) := by
  have hstored := hvalid.stored
  have hnodup := hvalid.nodup_pages
  have hzero := hvalid.zero_notMem
  refine ⟨hvalid.places, ?_, hvalid.places_of_few, hstored, ?_⟩
  · intro hroomy
    rw [hvalid.pmmInit_of_not_roomy hroomy]
  · apply always_of_invariant _ _ _ (along_trace PageRun.next _ actions)
    · rintro run action next haccounted rfl
      have hnone : 0 ∉ run.pmm.pages := fun h =>
        hzero (haccounted.all.mem_iff.mp (List.mem_append_left _ h))
      exact PageRun.accounted_of_perm hnodup hstored.fits
        ((PageRun.all_next hnone action).trans haccounted.all)
    · apply PageRun.accounted_of_perm hnodup hstored.fits
      exact List.Perm.of_eq (List.append_nil _)

end Runs

def twoPages : List MemmapEntry := [⟨0x1000, 0x2000, true⟩]

theorem validMap_twoPages : ValidMap 0xFFFF800000000000 twoPages := by
  constructor
  · decide
  · intro entry hentry _
    rw [List.mem_singleton.mp hentry]
    decide
  · intro entry hentry _
    rw [List.mem_singleton.mp hentry]
    decide
  · intro entry hentry _ _
    rw [List.mem_singleton.mp hentry]
    decide
  · exact List.pairwise_singleton _ _

/-- The first page holds the stack, the second is taken, given back and taken by another owner. -/
theorem pmm_sound_twoPages : Places twoPages (pmmInit 0xFFFF800000000000 twoPages) ∧
    Stored twoPages (pmmInit 0xFFFF800000000000 twoPages) ∧
    Always (PageRun.Accounted (pmmInit 0xFFFF800000000000 twoPages))
      ⟨pmmInit 0xFFFF800000000000 twoPages, []⟩
      (trace PageRun.next ⟨pmmInit 0xFFFF800000000000 twoPages, []⟩
        [.alloc 1, .free 1 0x2000, .alloc 2, .alloc 3]) := by
  have hroomy : Roomy twoPages := ⟨_, List.mem_singleton_self _, rfl, by decide⟩
  have hsound := pmm_sound validMap_twoPages
    ([.alloc 1, .free 1 0x2000, .alloc 2, .alloc 3] : List (PageAction ℕ))
  exact ⟨hsound.1 hroomy, hsound.2.2.2⟩

/-- So many entries of one page, with gaps between them. -/
def scattered (count : ℕ) : List MemmapEntry :=
  (List.range count).map fun i => ⟨8192 * (i + 1), 4096, true⟩

theorem mem_scattered {count : ℕ} {entry : MemmapEntry} :
    entry ∈ scattered count ↔ ∃ i < count, entry = ⟨8192 * (i + 1), 4096, true⟩ := by
  rw [scattered, List.mem_map]
  constructor
  · rintro ⟨i, hi, rfl⟩
    exact ⟨i, List.mem_range.mp hi, rfl⟩
  · rintro ⟨i, hi, rfl⟩
    exact ⟨i, List.mem_range.mpr hi, rfl⟩

theorem validMap_scattered {count : ℕ} (hcount : count < 2 ^ 20) :
    ValidMap 0xFFFF800000000000 (scattered count) := by
  constructor
  · decide
  · intro entry hentry _
    obtain ⟨i, hi, rfl⟩ := mem_scattered.mp hentry
    have hbase : 8192 * (i + 1) = pageSize * (2 * (i + 1)) := by
      rw [pageSize_eq]
      omega
    exact ⟨⟨_, hbase⟩, ⟨1, rfl⟩⟩
  · intro entry hentry _
    obtain ⟨i, hi, rfl⟩ := mem_scattered.mp hentry
    dsimp only
    omega
  · intro entry hentry _ _
    obtain ⟨i, hi, rfl⟩ := mem_scattered.mp hentry
    dsimp only
    omega
  · rw [scattered, List.pairwise_map]
    apply List.pairwise_lt_range.imp
    intro i j hlt _ _
    dsimp only
    omega

theorem pageCount_scattered (count : ℕ) : pageCount (scattered count) = count := by
  induction count with
  | zero => rfl
  | succ count ih =>
      have hsnoc : scattered (count + 1) = scattered count ++ [⟨8192 * (count + 1), 4096, true⟩] := by
        rw [scattered, List.range_succ, List.map_append]
        rfl
      have hone : (⟨8192 * (count + 1), 4096, true⟩ : MemmapEntry).pageCount = 1 := by
        rw [MemmapEntry.pageCount, if_pos rfl, pageSize_eq]
        dsimp only
      rw [pageCount] at ih
      rw [hsnoc, pageCount, List.map_append, List.sum_append, ih, List.map_singleton, hone]
      rfl

/-- With 513 entries of one page none has room for the stack, and no page is placed. -/
theorem not_places_scattered : ValidMap 0xFFFF800000000000 (scattered 513) ∧
    ¬ Places (scattered 513) (pmmInit 0xFFFF800000000000 (scattered 513)) := by
  have hvalid := validMap_scattered (by decide : 513 < 2 ^ 20)
  have hroomy : ¬ Roomy (scattered 513) := by
    rintro ⟨entry, hentry, _, hroom⟩
    obtain ⟨i, _, rfl⟩ := mem_scattered.mp hentry
    rw [pageCount_scattered] at hroom
    change 513 * 8 ≤ 4096 at hroom
    omega
  refine ⟨hvalid, ?_⟩
  intro hplaces
  have hpage : UsablePage (scattered 513) 8192 :=
    ⟨by decide, _, mem_scattered.mpr ⟨0, by decide, rfl⟩, rfl, by decide, by decide⟩
  have hempty := hvalid.pmmInit_of_not_roomy hroomy
  have hmem := (hplaces.mem_iff 8192).mpr ⟨hpage, fun stack hstack => by
    rw [hempty] at hstack
    exact nomatch hstack⟩
  rw [hempty] at hmem
  exact absurd hmem List.not_mem_nil

end EigenOS.Memory
