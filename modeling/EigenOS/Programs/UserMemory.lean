import EigenOS.Library.SparseMemory
import EigenOS.Paging.UserMappings

/-!
# The memory of a program

The bytes that the kernel reads and writes at user addresses, through the page tables of the
address space that is active.  A frame holds 512 words, each with its lowest byte first.
-/

namespace EigenOS.Programs

open EigenOS.Paging Function
open EigenOS.RadixTree (Fresh Kind pathOf tableAt walk write)
open EigenOS.SparseMemory (blit)

abbrev Byte := BitVec 8

/-! ## Bytes of a frame -/

def byteOf (word : Word) (k : Fin 8) : Byte := word.extractLsb' (8 * k) 8

def setByte (word : Word) (k : Fin 8) (value : Byte) : Word :=
  (word &&& ~~~(0xFF#64 <<< (8 * k.val))) ||| (value.setWidth 64 <<< (8 * k.val))

def wordIndex (offset : Fin 4096) : TableIndex := ⟨offset.val / 8, by omega⟩

def byteIndex (offset : Fin 4096) : Fin 8 := ⟨offset.val % 8, by omega⟩

def byteAt (tables : Tables) (page : PhysPage) (offset : Fin 4096) : Byte :=
  byteOf (tables page (wordIndex offset)) (byteIndex offset)

def putByte (tables : Tables) (page : PhysPage) (offset : Fin 4096) (value : Byte) : Tables :=
  write tables page (wordIndex offset)
    (setByte (tables page (wordIndex offset)) (byteIndex offset) value)

theorem byteOf_setByte (word : Word) (k l : Fin 8) (value : Byte) :
    byteOf (setByte word k value) l = if l = k then value else byteOf word l := by
  have hmask : ∀ i, (0xFF#64).getLsbD i = decide (i < 8) := getLsbD_lowMask 8 (by decide)
  have hbit : ∀ i < 8, (byteOf (setByte word k value) l).getLsbD i =
      if 8 * k.val ≤ 8 * l.val + i ∧ 8 * l.val + i - 8 * k.val < 8
        then value.getLsbD (8 * l.val + i - 8 * k.val) else word.getLsbD (8 * l.val + i) := by
    intro i hi
    have hlt : 8 * l.val + i < 64 := by omega
    simp only [byteOf, setByte, BitVec.getLsbD_extractLsb', BitVec.getLsbD_or, BitVec.getLsbD_and,
      BitVec.getLsbD_not, BitVec.getLsbD_shiftLeft, hmask, BitVec.getLsbD_setWidth, hi, hlt,
      decide_true, Bool.true_and]
    by_cases hlow : 8 * l.val + i < 8 * k.val
    · simp [hlow]
    · by_cases hnear : 8 * l.val + i - 8 * k.val < 8
      · simp [hlow, hnear, Nat.le_of_not_lt hlow, show 8 * l.val + i - 8 * k.val < 64 by omega]
      · simp [hlow, hnear, BitVec.getLsbD_of_ge value _ (Nat.le_of_not_lt hnear)]
  apply BitVec.eq_of_getLsbD_eq
  intro i hi
  rw [hbit i hi]
  by_cases heq : l = k
  · rw [if_pos heq, heq, if_pos (by omega), Nat.add_sub_cancel_left]
  · have hval : l.val ≠ k.val := fun h => heq (Fin.ext h)
    rw [if_neg heq, if_neg (by omega), byteOf, BitVec.getLsbD_extractLsb', decide_eq_true hi,
      Bool.true_and]

theorem byteAt_putByte (tables : Tables) (page other : PhysPage) (offset offset' : Fin 4096)
    (value : Byte) :
    byteAt (putByte tables page offset value) other offset' =
      if other = page ∧ offset' = offset then value else byteAt tables other offset' := by
  by_cases hword : other = page ∧ wordIndex offset' = wordIndex offset
  · obtain ⟨rfl, hindex⟩ := hword
    have hoffset : byteIndex offset' = byteIndex offset ↔ offset' = offset := by
      have hquotient := congrArg Fin.val hindex
      simp only [wordIndex] at hquotient
      simp only [byteIndex, Fin.ext_iff]
      omega
    simp only [byteAt, putByte, hindex, RadixTree.write_self, byteOf_setByte, hoffset, true_and]
  · have hne : ¬ (other = page ∧ offset' = offset) := by
      rintro ⟨rfl, rfl⟩
      exact hword ⟨rfl, rfl⟩
    rw [if_neg hne, byteAt, byteAt, putByte, RadixTree.write_of_ne _ _ hword]

/-! ## Loads and stores -/

/-- The lower half of the address space. -/
def User (addr : Word) : Prop := addr.toNat < 2 ^ 47

instance (addr : Word) : Decidable (User addr) := inferInstanceAs (Decidable (_ < _))

def frameOf (m : PageTables) (root : PhysPage) (addr : Word) : Option PhysPage :=
  if Canonical addr then (translation m root addr).map fun entries => target (physOf addr entries)
  else none

def pageOffset (addr : Word) : Fin 4096 := ⟨addr.toNat % 4096, Nat.mod_lt _ (by decide)⟩

/-- A byte of memory; `none` is a fault. -/
def loadByte (m : PageTables) (root : PhysPage) (addr : Word) : Option Byte :=
  (frameOf m root addr).map fun page => byteAt m.tables page (pageOffset addr)

/-- `none` is a fault. -/
def storeByte (m : PageTables) (root : PhysPage) (addr : Word) (value : Byte) :
    Option PageTables :=
  (frameOf m root addr).map fun page =>
    { m with tables := putByte m.tables page (pageOffset addr) value }

/-- The first rounds of a loop that stores bytes. -/
def storeBytes (root : PhysPage) (start : Word) (bytes : ℕ → Byte) :
    ℕ → PageTables → Option PageTables
  | 0, m => some m
  | count + 1, m =>
      (storeBytes root start bytes count m).bind fun m =>
        storeByte m root (start + BitVec.ofNat 64 count) (bytes count)

/-- What a program sees of its memory. -/
def userView (m : PageTables) (root : PhysPage) : SparseMemory.Memory 64 Byte :=
  fun addr => if User addr then loadByte m root addr else none

/-! ## Addresses of a program -/

theorem canonical_of_user {addr : Word} (h : User addr) : Canonical addr := by
  have hhigh : ∀ i, 47 ≤ i → addr.getLsbD i = false := by
    intro i hi
    have hlt : addr.toNat < 2 ^ i :=
      Nat.lt_of_lt_of_le h (Nat.pow_le_pow_right (by decide) hi)
    rw [← BitVec.testBit_toNat]
    exact Nat.testBit_lt_two_pow hlt
  rw [canonical_iff]
  intro i hi _
  rw [hhigh i (by omega), hhigh 47 (by decide)]

theorem frameOf_of_user {m : PageTables} {root : PhysPage} {addr : Word} (h : User addr) :
    frameOf m root addr =
      (translation m root addr).map fun entries => target (physOf addr entries) :=
  if_pos (canonical_of_user h)

/-- An entry that lets a program read, write and execute. -/
def Permissive (entry : Word) : Prop :=
  isSet entry vmmUser = true ∧ isSet entry vmmWrite = true ∧ isSet entry vmmNx = false

/-- An address space whose user half has been filled by page mappings: each page has a frame of
its own, which is no table. -/
structure UserSpace (m : PageTables) (root : PhysPage) : Prop where
  wellFormed : WellFormed m root
  pages : ∀ addr entries, User addr → translation m root addr = some entries →
    entries.length = 4 ∧ ∀ entry ∈ entries, Permissive entry
  links : ∀ addr depth entry, User addr → LinkAt m root (pathOf (indices addr) depth) entry →
    Permissive entry
  outside : ∀ addr page, User addr → frameOf m root addr = some page → Outside m root page
  apart : ∀ addr other page, User addr → User other → frameOf m root addr = some page →
    frameOf m root other = some page → pageOf other = pageOf addr

theorem UserSpace.rightsOf_eq {m : PageTables} {root : PhysPage} {addr : Word}
    (h : UserSpace m root) (hmapped : (userView m root addr).isSome = true) :
    rightsOf m root addr = some ⟨true, true, true⟩ := by
  have haddr : User addr := by
    by_contra hnot
    rw [userView, if_neg hnot] at hmapped
    cases hmapped
  rw [userView, if_pos haddr, loadByte, frameOf_of_user haddr, Option.isSome_map,
    Option.isSome_map] at hmapped
  obtain ⟨entries, hentries⟩ := Option.isSome_iff_exists.mp hmapped
  have hall := (h.pages addr entries haddr hentries).2
  rw [rightsOf, hentries, Option.map_some, rights, List.all_eq_true.mpr fun e he => (hall e he).1,
    List.all_eq_true.mpr fun e he => (hall e he).2.1,
    List.all_eq_true.mpr fun e he => by rw [(hall e he).2.2]; rfl]

/-! ## Stores -/

/-- What a store leaves as it is. -/
structure SameTables (root : PhysPage) (m m' : PageTables) : Prop where
  supply : m'.supply = m.supply
  tables : ∀ path table, TableAt m root path table → m'.tables table = m.tables table

section Stores

variable {m m' : PageTables} {root : PhysPage} {addr other : Word} {value : Byte}

theorem SameTables.sameKinds (h : SameTables root m m') :
    RadixTree.SameKinds kind m.tables m'.tables root :=
  fun path page index hpage => by rw [h.tables path page hpage]

theorem SameTables.tableAt_iff (h : SameTables root m m') {path : List TableIndex}
    {table : PhysPage} : TableAt m' root path table ↔ TableAt m root path table := by
  rw [TableAt, h.sameKinds.tableAt_eq]
  exact Iff.rfl

theorem SameTables.translation_eq (h : SameTables root m m') (addr : Word) :
    translation m' root addr = translation m root addr := by
  have hroot : tableAt kind m.tables root (pathOf (indices addr) 0) = some root := rfl
  exact RadixTree.walk_congr kind 4 hroot fun n page hpage =>
    congrFun (h.tables _ page hpage) _

theorem SameTables.frameOf_eq (h : SameTables root m m') (addr : Word) :
    frameOf m' root addr = frameOf m root addr := by
  rw [frameOf, frameOf, h.translation_eq]

theorem SameTables.linkAt_iff (h : SameTables root m m') {path : List TableIndex} {entry : Word} :
    LinkAt m' root path entry ↔ LinkAt m root path entry := by
  cases path with
  | nil => exact iff_of_false not_linkAt_nil not_linkAt_nil
  | cons i path =>
      rw [Paging.linkAt_iff, Paging.linkAt_iff]
      apply exists_congr
      intro table
      rw [h.tableAt_iff]
      apply and_congr_right
      intro htable
      rw [h.tables path table htable]

theorem SameTables.outside_iff (h : SameTables root m m') {page : PhysPage} :
    Outside m' root page ↔ Outside m root page := by
  have hfresh : Fresh kind m'.tables root page ↔ Fresh kind m.tables root page :=
    forall_congr' fun path => not_congr h.tableAt_iff
  constructor
  · rintro ⟨hnoTable, hnotFree⟩
    exact ⟨hfresh.mp hnoTable, h.supply ▸ hnotFree⟩
  · rintro ⟨hnoTable, hnotFree⟩
    exact ⟨hfresh.mpr hnoTable, h.supply.symm ▸ hnotFree⟩

theorem SameTables.wellFormed (h : SameTables root m m') (hm : WellFormed m root) :
    WellFormed m' root := by
  have hdistinct : m'.supply.Nodup := by
    rw [h.supply]
    exact hm.distinct
  exact hm.of_sameKinds h.sameKinds hdistinct (h.supply ▸ List.Subset.refl _)

theorem SameTables.userSpace (h : SameTables root m m') (hm : UserSpace m root) :
    UserSpace m' root where
  wellFormed := h.wellFormed hm.wellFormed
  pages := by
    intro addr entries haddr hentries
    exact hm.pages addr entries haddr ((h.translation_eq addr).symm.trans hentries)
  links := by
    intro addr depth entry haddr hlink
    exact hm.links addr depth entry haddr (h.linkAt_iff.mp hlink)
  outside := by
    intro addr page haddr hframe
    rw [h.frameOf_eq] at hframe
    exact h.outside_iff.mpr (hm.outside addr page haddr hframe)
  apart := by
    intro addr other page haddr hother hframe hframe'
    rw [h.frameOf_eq] at hframe hframe'
    exact hm.apart addr other page haddr hother hframe hframe'

theorem storeByte_sameTables (h : UserSpace m root) (haddr : User addr)
    (hstore : storeByte m root addr value = some m') : SameTables root m m' := by
  obtain ⟨page, hframe, rfl⟩ := Option.map_eq_some_iff.mp hstore
  refine ⟨rfl, fun path table htable => ?_⟩
  have hne : table ≠ page := by
    rintro rfl
    exact (h.outside addr table haddr hframe).noTable path htable
  funext i
  exact RadixTree.write_of_ne _ _ fun hentry => hne hentry.1

theorem eq_of_pageOffset (hpage : pageOf other = pageOf addr)
    (hoffset : pageOffset other = pageOffset addr) : other = addr := by
  have hquotient : other.toNat / 4096 = addr.toNat / 4096 := by
    have h := congrArg BitVec.toNat hpage
    rwa [pageOf, pageOf, BitVec.toNat_ushiftRight, BitVec.toNat_ushiftRight,
      Nat.shiftRight_eq_div_pow, Nat.shiftRight_eq_div_pow] at h
  have hremainder : other.toNat % 4096 = addr.toNat % 4096 := congrArg Fin.val hoffset
  apply BitVec.eq_of_toNat_eq
  omega

theorem userView_of_user (h : User addr) : userView m root addr = loadByte m root addr := if_pos h

theorem userView_of_not_user (h : ¬ User addr) : userView m root addr = none := if_neg h

theorem userView_storeByte (h : UserSpace m root) (haddr : User addr)
    (hstore : storeByte m root addr value = some m') :
    userView m' root = update (userView m root) addr (some value) := by
  have hsame := storeByte_sameTables h haddr hstore
  obtain ⟨page, hframe, rfl⟩ := Option.map_eq_some_iff.mp hstore
  funext other
  by_cases hother : User other
  · rw [userView_of_user hother, loadByte, hsame.frameOf_eq]
    by_cases heq : other = addr
    · subst heq
      rw [update_self, hframe, Option.map_some, byteAt_putByte, if_pos ⟨rfl, rfl⟩]
    · rw [update_of_ne heq, userView_of_user hother, loadByte]
      cases hframe' : frameOf m root other with
      | none => rfl
      | some page' =>
          rw [Option.map_some, Option.map_some, byteAt_putByte, if_neg]
          rintro ⟨rfl, hoffset⟩
          exact heq (eq_of_pageOffset (h.apart addr other page' haddr hother hframe hframe') hoffset)
  · have hne : other ≠ addr := by
      rintro rfl
      exact hother haddr
    rw [update_of_ne hne, userView_of_not_user hother, userView_of_not_user hother]

end Stores

/-! ## Blocks of bytes -/

section Blocks

variable {m m' m'' : PageTables} {root : PhysPage} {start addr : Word} {bytes : ℕ → Byte}
  {value : Byte} {count : ℕ}

theorem SameTables.refl (root : PhysPage) (m : PageTables) : SameTables root m m :=
  ⟨rfl, fun _ _ _ => rfl⟩

theorem SameTables.trans (h : SameTables root m m') (h' : SameTables root m' m'') :
    SameTables root m m'' := by
  refine ⟨h'.supply.trans h.supply, fun path table htable => ?_⟩
  rw [h'.tables path table (h.tableAt_iff.mpr htable), h.tables path table htable]

variable (start) in
theorem toNat_add_ofNat (k : ℕ) (h : start.toNat + k < 2 ^ 64) :
    (start + BitVec.ofNat 64 k).toNat = start.toNat + k := by
  rw [BitVec.toNat_add, BitVec.toNat_ofNat, Nat.mod_eq_of_lt (by omega : k < 2 ^ 64),
    Nat.mod_eq_of_lt h]

theorem user_add {k : ℕ} (h : start.toNat + k < 2 ^ 47) : User (start + BitVec.ofNat 64 k) := by
  rw [User, toNat_add_ofNat _ _ (by omega)]
  exact h

theorem storeBytes_spec (h : UserSpace m root) (hrange : start.toNat + count ≤ 2 ^ 47)
    (hstore : storeBytes root start bytes count m = some m') :
    SameTables root m m' ∧ userView m' root = blit (userView m root) start count bytes := by
  induction count generalizing m' with
  | zero =>
      cases hstore
      exact ⟨SameTables.refl root m, (SparseMemory.blit_zero _ _ _).symm⟩
  | succ count ih =>
      obtain ⟨mid, hmid, hlast⟩ := Option.bind_eq_some_iff.mp hstore
      obtain ⟨hsame, hview⟩ := ih (by omega) hmid
      have hspace := hsame.userSpace h
      have huser : User (start + BitVec.ofNat 64 count) := user_add (by omega)
      refine ⟨hsame.trans (storeByte_sameTables hspace huser hlast), ?_⟩
      rw [userView_storeByte hspace huser hlast, hview, SparseMemory.blit_succ (by omega)]

theorem storeByte_isSome_iff (haddr : User addr) :
    (storeByte m root addr value).isSome = (userView m root addr).isSome := by
  rw [userView_of_user haddr, storeByte, loadByte, Option.isSome_map, Option.isSome_map]

variable (m root start bytes count) in
theorem storeBytes_of_mapped (h : UserSpace m root) (hrange : start.toNat + count ≤ 2 ^ 47)
    (hmapped : ∀ k < count, (userView m root (start + BitVec.ofNat 64 k)).isSome = true) :
    ∃ m', storeBytes root start bytes count m = some m' := by
  induction count with
  | zero => exact ⟨m, rfl⟩
  | succ count ih =>
      obtain ⟨mid, hmid⟩ := ih (by omega) fun k hk => hmapped k (Nat.lt_succ_of_lt hk)
      have hview := (storeBytes_spec h (by omega) hmid).2
      have huser : User (start + BitVec.ofNat 64 count) := user_add (by omega)
      have hsome : (storeByte mid root (start + BitVec.ofNat 64 count) (bytes count)).isSome =
          true := by
        rw [storeByte_isSome_iff huser, hview]
        exact SparseMemory.blit_isSome (hmapped count (Nat.lt_succ_self count))
      obtain ⟨m', hm'⟩ := Option.isSome_iff_exists.mp hsome
      exact ⟨m', by rw [storeBytes, hmid, Option.bind_some, hm']⟩

end Blocks

end EigenOS.Programs
