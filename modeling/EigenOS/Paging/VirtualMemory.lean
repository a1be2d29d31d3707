import Mathlib.Algebra.Group.Nat.Defs
import EigenOS.Library.RadixTree

/-!
# Page tables

The walks of the virtual memory manager over tables in physical memory, which it reaches
through the direct map.  The direct map reaches every frame and is not itself remapped, so a table
page is named by its physical address.
-/

namespace EigenOS.Paging

open EigenOS.RadixTree

abbrev Word := BitVec 64

def vmmPresent : Word := 1#64 <<< 0
def vmmWrite : Word := 1#64 <<< 1
def vmmUser : Word := 1#64 <<< 2
def vmmHuge : Word := 1#64 <<< 7
def vmmNx : Word := 1#64 <<< 63

/-- The physical address in an entry. -/
def addrMask : Word := 0x000FFFFFFFFFF000#64

/-- The address in the entry of a 2 MiB page. -/
def mask2m : Word := 0x000FFFFFFFE00000#64

/-- The address in the entry of a 1 GiB page. -/
def mask1g : Word := 0x000FFFFFC0000000#64

/-- A page frame: its address has no bits but those an entry can hold. -/
structure PhysPage where
  addr : Word
  aligned : addr &&& addrMask = addr
  deriving DecidableEq

/-- The frame that an entry names. -/
def target (entry : Word) : PhysPage where
  addr := entry &&& addrMask
  aligned := by rw [BitVec.and_assoc, BitVec.and_self]

def isSet (entry flag : Word) : Bool := entry &&& flag != 0

abbrev TableIndex := Fin 512

abbrev Tables := PhysPage → TableIndex → Word

/-- The tables and the frames that `pmm_alloc` is going to return. -/
structure PageTables where
  tables : Tables
  supply : List PhysPage

def index (virt : Word) (shift : ℕ) : TableIndex :=
  ⟨(virt >>> shift).toNat % 512, Nat.mod_lt _ (by decide)⟩

def pml4Index (virt : Word) : TableIndex := index virt 39
def pdptIndex (virt : Word) : TableIndex := index virt 30
def pdIndex (virt : Word) : TableIndex := index virt 21
def ptIndex (virt : Word) : TableIndex := index virt 12

/-- `get_next_level`. -/
def getNextLevel (m : PageTables) (table : PhysPage) (i : TableIndex) (allocate : Bool) :
    Option PhysPage × PageTables :=
  if isSet (m.tables table i) vmmPresent then (some (target (m.tables table i)), m)
  else if allocate = false then (none, m)
  else
    match m.supply with
    | [] => (none, m)
    | page :: rest =>
        (some page,
          { tables := attach m.tables table i page (fun _ => 0#64)
              (page.addr ||| vmmPresent ||| vmmWrite ||| vmmUser)
            supply := rest })

/-- The entry of a table that takes the place of a huge page. -/
def splitLink (page : PhysPage) (newFlags : Word) : Word :=
  page.addr ||| (vmmPresent ||| vmmWrite ||| if isSet newFlags vmmUser then vmmUser else 0#64)

/-- A huge page is split into the entries of a new table; `false` is `NULL`. -/
def splitHuge (m : PageTables) (table : PhysPage) (i : TableIndex) (newFlags : Word)
    (entries : Word → TableIndex → Word) : Bool × PageTables :=
  match m.supply with
  | [] => (false, m)
  | page :: rest =>
      (true,
        { tables := attach m.tables table i page (entries (m.tables table i))
            (splitLink page newFlags)
          supply := rest })

/-- The page table for a 2 MiB page. -/
def entries2m (old : Word) (j : TableIndex) : Word :=
  ((old &&& mask2m) + BitVec.ofNat 64 j * 4096#64) ||| ((old &&& 0xFFF#64) &&& ~~~vmmHuge)

/-- The page directory for a 1 GiB page. -/
def entries1g (old : Word) (j : TableIndex) : Word :=
  ((old &&& mask1g) + BitVec.ofNat 64 j * 0x200000#64) |||
    (((old &&& 0xFFF#64) &&& ~~~vmmHuge) ||| vmmHuge)

/-- `split_huge_2m`. -/
def splitHuge2m (m : PageTables) (pd : PhysPage) (i : TableIndex) (newFlags : Word) :
    Bool × PageTables :=
  splitHuge m pd i newFlags entries2m

/-- `split_huge_1g`. -/
def splitHuge1g (m : PageTables) (pdpt : PhysPage) (i : TableIndex) (newFlags : Word) :
    Bool × PageTables :=
  splitHuge m pdpt i newFlags entries1g

/-- The last part of `vmm_map`, from the page directory on. -/
def mapInPd (virt phys flags : Word) (m : PageTables) (pd : PhysPage) : Bool × PageTables :=
  match if isSet (m.tables pd (pdIndex virt)) vmmHuge
    then splitHuge2m m pd (pdIndex virt) flags else (true, m) with
  | (false, m) => (false, m)
  | (true, m) =>
    match getNextLevel m pd (pdIndex virt) true with
    | (none, m) => (false, m)
    | (some pt, m) =>
        (true, { m with
          tables := write m.tables pt (ptIndex virt) ((phys &&& addrMask) ||| flags ||| vmmPresent) })

/-- `vmm_map` from the page directory pointer table on. -/
def mapInPdpt (virt phys flags : Word) (m : PageTables) (pdpt : PhysPage) : Bool × PageTables :=
  match if isSet (m.tables pdpt (pdptIndex virt)) vmmHuge
    then splitHuge1g m pdpt (pdptIndex virt) flags else (true, m) with
  | (false, m) => (false, m)
  | (true, m) =>
    match getNextLevel m pdpt (pdptIndex virt) true with
    | (none, m) => (false, m)
    | (some pd, m) => mapInPd virt phys flags m pd

/-- `vmm_map` in the address space of a root table. -/
def vmmMap (m : PageTables) (root : PhysPage) (virt phys flags : Word) : Bool × PageTables :=
  match getNextLevel m root (pml4Index virt) true with
  | (none, m) => (false, m)
  | (some pdpt, m) => mapInPdpt virt phys flags m pdpt

/-- `vmm_get_phys`. -/
def vmmGetPhys (m : PageTables) (root : PhysPage) (virt : Word) : Word :=
  let pml4e := m.tables root (pml4Index virt)
  if ¬ isSet pml4e vmmPresent then 0#64
  else
    let pdpte := m.tables (target pml4e) (pdptIndex virt)
    if ¬ isSet pdpte vmmPresent then 0#64
    else if isSet pdpte vmmHuge then (pdpte &&& mask1g) ||| (virt &&& 0x3FFFFFFF#64)
    else
      let pde := m.tables (target pdpte) (pdIndex virt)
      if ¬ isSet pde vmmPresent then 0#64
      else if isSet pde vmmHuge then (pde &&& mask2m) ||| (virt &&& 0x1FFFFF#64)
      else
        let pte := m.tables (target pde) (ptIndex virt)
        if ¬ isSet pte vmmPresent then 0#64
        else (pte &&& addrMask) ||| (virt &&& 0xFFF#64)

/-! ## Ranges -/

/-- `PAGE_SIZE`. -/
def pageSize : ℕ := 4096

/-- The number of rounds of a loop over the pages of a range. -/
def rounds (size : Word) : ℕ := (size.toNat + (pageSize - 1)) / pageSize

/-- The loop counter wraps around before it passes the size. -/
def endless (size : Word) : Bool := decide (2 ^ 64 - pageSize < size.toNat)

/-- The loop counter in a round. -/
def offset (k : ℕ) : Word := BitVec.ofNat 64 (pageSize * k)

/-- The first rounds of `vmm_map_range`; `false` is the return in the middle of one. -/
def mapRounds (root : PhysPage) (virt phys flags : Word) :
    ℕ → PageTables → Bool × PageTables
  | 0, m => (true, m)
  | k + 1, m =>
      match mapRounds root virt phys flags k m with
      | (false, m) => (false, m)
      | (true, m) => vmmMap m root (virt + offset k) (phys + offset k) flags

/-- `vmm_map_range`, whose rounds do what `vmm_map` does; `none` does not return. -/
def vmmMapRange (m : PageTables) (root : PhysPage) (virt phys size flags : Word) :
    Option (Bool × PageTables) :=
  match mapRounds root virt phys flags (rounds size) m with
  | (false, m) => some (false, m)
  | (true, m) => if endless size then none else some (true, m)

def orEntry (m : PageTables) (table : PhysPage) (i : TableIndex) (bits : Word) : PageTables :=
  { m with tables := write m.tables table i (m.tables table i ||| bits) }

/-- The flags for the entries above a page. -/
def hierarchyFlags (flags : Word) : Word := flags &&& (vmmUser ||| vmmWrite)

/-- A round of `vmm_add_flags` from the page table on. -/
def addFlagsInPt (m : PageTables) (pt : PhysPage) (addr flags : Word) : PageTables :=
  if ¬ isSet (m.tables pt (ptIndex addr)) vmmPresent then m
  else orEntry m pt (ptIndex addr) flags

/-- A round of `vmm_add_flags` from the page directory on. -/
def addFlagsInPd (m : PageTables) (pd : PhysPage) (addr flags : Word) : PageTables :=
  if ¬ isSet (m.tables pd (pdIndex addr)) vmmPresent then m
  else
    let m := orEntry m pd (pdIndex addr) (hierarchyFlags flags)
    if isSet (m.tables pd (pdIndex addr)) vmmHuge then orEntry m pd (pdIndex addr) flags
    else addFlagsInPt m (target (m.tables pd (pdIndex addr))) addr flags

/-- A round of `vmm_add_flags` from the page directory pointer table on. -/
def addFlagsInPdpt (m : PageTables) (pdpt : PhysPage) (addr flags : Word) : PageTables :=
  if ¬ isSet (m.tables pdpt (pdptIndex addr)) vmmPresent then m
  else
    let m := orEntry m pdpt (pdptIndex addr) (hierarchyFlags flags)
    if isSet (m.tables pdpt (pdptIndex addr)) vmmHuge then orEntry m pdpt (pdptIndex addr) flags
    else addFlagsInPd m (target (m.tables pdpt (pdptIndex addr))) addr flags

/-- A round of `vmm_add_flags`. -/
def addFlags (m : PageTables) (root : PhysPage) (addr flags : Word) : PageTables :=
  if ¬ isSet (m.tables root (pml4Index addr)) vmmPresent then m
  else
    let m := orEntry m root (pml4Index addr) (hierarchyFlags flags)
    addFlagsInPdpt m (target (m.tables root (pml4Index addr))) addr flags

/-- The first rounds of `vmm_add_flags`. -/
def addFlagsRounds (root : PhysPage) (virt flags : Word) : ℕ → PageTables → PageTables
  | 0, m => m
  | k + 1, m => addFlags (addFlagsRounds root virt flags k m) root (virt + offset k) flags

/-- `vmm_add_flags`; `none` does not return. -/
def vmmAddFlags (m : PageTables) (root : PhysPage) (virt size flags : Word) :
    Option PageTables :=
  if endless size then none else some (addFlagsRounds root virt flags (rounds size) m)

/-- `vmm_unmap` in the address space of a root table. -/
def vmmUnmap (m : PageTables) (root : PhysPage) (virt : Word) : PageTables :=
  match getNextLevel m root (pml4Index virt) false with
  | (none, m) => m
  | (some pdpt, m) =>
    match getNextLevel m pdpt (pdptIndex virt) false with
    | (none, m) => m
    | (some pd, m) =>
      match getNextLevel m pd (pdIndex virt) false with
      | (none, m) => m
      | (some pt, m) => { m with tables := write m.tables pt (ptIndex virt) 0#64 }

/-- `vmm_virt_mapped`. -/
def vmmVirtMapped (m : PageTables) (root : PhysPage) (virt : Word) : Bool :=
  let pml4e := m.tables root (pml4Index virt)
  if ¬ isSet pml4e vmmPresent then false
  else
    let pdpte := m.tables (target pml4e) (pdptIndex virt)
    if ¬ isSet pdpte vmmPresent then false
    else if isSet pdpte vmmHuge then true
    else
      let pde := m.tables (target pdpte) (pdIndex virt)
      if ¬ isSet pde vmmPresent then false
      else if isSet pde vmmHuge then true
      else isSet (m.tables (target pde) (ptIndex virt)) vmmPresent

/-! ## Address translation -/

/-- What the processor does with an entry. -/
def kind (depth : ℕ) (entry : Word) : Kind PhysPage :=
  if ¬ isSet entry vmmPresent then .absent
  else if 3 ≤ depth ∨ 0 < depth ∧ isSet entry vmmHuge then .leaf
  else .table (target entry)

def indices (virt : Word) (depth : ℕ) : TableIndex := index virt (39 - 9 * depth)

/-- The entries that translate an address, if it is mapped. -/
def translation (m : PageTables) (root : PhysPage) (virt : Word) : Option (List Word) :=
  walk kind m.tables (indices virt) 4 0 root

/-- The address that entries translate to: a page of 1 GiB, 2 MiB or 4 KiB. -/
def physOf (virt : Word) : List Word → Word
  | [_, pdpte] => (pdpte &&& mask1g) ||| (virt &&& 0x3FFFFFFF#64)
  | [_, _, pde] => (pde &&& mask2m) ||| (virt &&& 0x1FFFFF#64)
  | [_, _, _, pte] => (pte &&& addrMask) ||| (virt &&& 0xFFF#64)
  | _ => 0#64

/-- An address with the sign extension of bit 47 in its upper bits. -/
def Canonical (virt : Word) : Prop := (virt.setWidth 48).signExtend 64 = virt

instance (virt : Word) : Decidable (Canonical virt) := inferInstanceAs (Decidable (_ = _))

/-- The 4 KiB page of an address. -/
def pageOf (virt : Word) : Word := virt >>> 12

end EigenOS.Paging
