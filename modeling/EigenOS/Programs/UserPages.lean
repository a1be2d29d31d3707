import EigenOS.Paging.ForkCopy
import EigenOS.Programs.UserMemory

/-!
# Filling an address space

A page that is mapped for a program gets a frame of its own, with all rights, and the other
pages keep what they hold.  A new address space has no pages in its user half.
-/

namespace EigenOS.Programs

open EigenOS.Paging Function
open EigenOS.RadixTree (Fresh Kind pathOf tableAt walk write)

/-! ## New pages -/

/-- `VMM_PRESENT | VMM_WRITE | VMM_USER`. -/
def userFlags : Word := vmmPresent ||| vmmWrite ||| vmmUser

section Pages

variable {m m' : PageTables} {root page : PhysPage} {rest : List PhysPage} {virt addr other : Word}
  {result : Bool × PageTables}

theorem UserSpace.afterAlloc (h : UserSpace m root) (hsupply : m.supply = page :: rest) :
    UserSpace { m with supply := rest } root where
  wellFormed :=
    ⟨h.wellFormed.tree, (List.nodup_cons.mp (hsupply ▸ h.wellFormed.distinct)).2,
      fun other hother => h.wellFormed.fresh other (hsupply ▸ List.mem_cons_of_mem _ hother)⟩
  pages := h.pages
  links := h.links
  outside := by
    intro addr frame haddr hframe
    have hout := h.outside addr frame haddr hframe
    exact ⟨hout.noTable, fun hmem => hout.notFree (hsupply ▸ List.mem_cons_of_mem _ hmem)⟩
  apart := h.apart

theorem UserSpace.allocated (h : UserSpace m root) (hsupply : m.supply = page :: rest) :
    Outside { m with supply := rest } root page ∧
      ∀ addr, User addr → frameOf m root addr ≠ some page := by
  have hmem : page ∈ m.supply := hsupply ▸ List.mem_cons_self
  refine ⟨⟨h.wellFormed.fresh page hmem, ?_⟩, fun addr haddr hframe => ?_⟩
  · exact (List.nodup_cons.mp (hsupply ▸ h.wellFormed.distinct)).1
  · exact (h.outside addr page haddr hframe).notFree hmem

theorem permissive_splitLink {newFlags : Word} (huser : isSet newFlags vmmUser = true) :
    Permissive (splitLink page newFlags) :=
  ⟨(user_splitLink page newFlags).trans huser, write_splitLink page newFlags,
    nx_splitLink page newFlags⟩

theorem permissive_leafEntry (page : PhysPage) : Permissive (leafEntry page.addr userFlags) := by
  have hgrants := grants_leafEntry page.addr userFlags
  refine ⟨hgrants.1 (by decide), hgrants.2 (by decide), ?_⟩
  have hflags : userFlags.getLsbD 63 = false := by decide
  have hpresent : vmmPresent.getLsbD 63 = false := by decide
  rw [isSet_nx, leafEntry, page.aligned, BitVec.getLsbD_or, BitVec.getLsbD_or,
    getLsbD_addr page (Or.inr (by decide)), hflags, hpresent]
  rfl

theorem target_leafEntry (upper : List Word) (hlength : upper.length = 3) :
    target (physOf addr (upper ++ [leafEntry page.addr userFlags])) = page := by
  obtain ⟨pml4e, pdpte, pde, rfl⟩ := List.length_eq_three.mp hlength
  have haddr := and_addrMask_leafEntry page ⟨userFlags, by decide⟩
  have hmask : (0xFFF#64 : Word) &&& addrMask = 0#64 := by decide
  have hphys : physOf addr ([pml4e, pdpte, pde] ++ [leafEntry page.addr userFlags]) =
      page.addr ||| (addr &&& 0xFFF#64) :=
    congrArg (· ||| (addr &&& 0xFFF#64)) haddr
  have htarget : (page.addr ||| (addr &&& 0xFFF#64)) &&& addrMask = page.addr := by
    rw [BitVec.and_or_distrib_right, page.aligned, BitVec.and_assoc, hmask, BitVec.and_zero,
      BitVec.or_zero]
  rw [hphys]
  cases page
  exact PhysPage.mk.injEq _ _ _ _ ▸ htarget

theorem translation_of_stages {mapped newFlags : Word}
    (h : Relation.ReflTransGen (Stage root mapped newFlags) m m')
    (hfull : ∀ entries, translation m root addr = some entries → entries.length = 4) :
    translation m' root addr = translation m root addr := by
  induction h with
  | refl => rfl
  | tail _ hstage ih =>
      rcases hstage.translation addr with hsame | ⟨before, after, hbefore, _, hsplit, _⟩
      · exact hsame.trans ih
      · have hlength := hfull before (ih.symm.trans hbefore)
        have hshort := hsplit.length_lt
        omega

variable (m root page virt addr) in
theorem translation_vmmMap (h : UserSpace m root) (hvirt : User virt) (haddr : User addr) :
    if pageOf addr = pageOf virt ∧ (vmmMap m root virt page.addr userFlags).1 = true then
      ∃ upper : List Word, upper.length = 3 ∧
        translation (vmmMap m root virt page.addr userFlags).2 root addr =
          some (upper ++ [leafEntry page.addr userFlags])
    else
      translation (vmmMap m root virt page.addr userFlags).2 root addr =
        translation m root addr := by
  have hpath := path_eq_iff_pageOf (canonical_of_user hvirt) (canonical_of_user haddr)
  have hfull := fun entries hentries => (h.pages addr entries haddr hentries).1
  obtain ⟨hmapped, hmaps⟩ := vmmMap_spec m root virt page.addr userFlags h.wellFormed
  split_ifs with hon
  · exact hmaps hon.2 addr (hpath.mpr hon.1)
  · by_cases hpage : pageOf addr = pageOf virt
    · obtain ⟨mid, hrun, hfalse | ⟨_, _, _, htrue⟩⟩ :=
        vmmMap_run m root virt page.addr userFlags h.wellFormed
      · rw [hfalse]
        exact translation_of_stages (stages_of_linkRun hrun) hfull
      · rw [htrue] at hon
        exact absurd ⟨hpage, rfl⟩ hon
    · obtain ⟨mid, hstages, hlast⟩ := hmapped.stages
      rw [hlast addr fun hsame => hpage (hpath.mp hsame)]
      exact translation_of_stages hstages hfull

theorem frameOf_vmmMap (h : UserSpace m root) (hvirt : User virt) (haddr : User addr) :
    frameOf (vmmMap m root virt page.addr userFlags).2 root addr =
      if pageOf addr = pageOf virt ∧ (vmmMap m root virt page.addr userFlags).1 = true then
        some page
      else frameOf m root addr := by
  have htranslation := translation_vmmMap m root page virt addr h hvirt haddr
  rw [frameOf_of_user haddr, frameOf_of_user haddr]
  split_ifs at htranslation ⊢ with hon
  · obtain ⟨upper, hlength, hentries⟩ := htranslation
    rw [hentries, Option.map_some, target_leafEntry upper hlength]
  · rw [htranslation]

theorem permissive_of_upper {upper : List Word} {last entry : Word}
    (hlinks : ∀ addr depth entry, User addr → LinkAt m root (pathOf (indices addr) depth) entry →
      Permissive entry)
    (haddr : User addr) (h : translation m root addr = some (upper ++ [last]))
    (hentry : entry ∈ upper) : Permissive entry := by
  obtain ⟨n, hn, rfl⟩ := List.mem_iff_getElem.mp hentry
  have hnow := getElem?_translation h n
  have hnext := getElem?_translation h (n + 1)
  rw [List.getElem?_append_left hn, List.getElem?_eq_getElem hn] at hnow
  rw [List.getElem?_eq_getElem
    (by rw [List.length_append, List.length_singleton]; exact Nat.succ_lt_succ hn)] at hnext
  obtain ⟨table, htable, _⟩ := (RadixTree.entryAt_eq_some_iff kind).mp hnext.symm
  exact hlinks addr (n + 1) _ haddr ⟨hnow.symm, table, htable⟩

theorem UserSpace.map (h : UserSpace m root) (hvirt : User virt) (hpage : Outside m root page)
    (hunused : ∀ addr, User addr → frameOf m root addr ≠ some page) :
    UserSpace (vmmMap m root virt page.addr userFlags).2 root := by
  have hlinks : ∀ addr depth entry, User addr →
      LinkAt (vmmMap m root virt page.addr userFlags).2 root (pathOf (indices addr) depth) entry →
        Permissive entry := by
    intro addr depth entry haddr hlink
    rcases (linksMade_vmmMap m root virt page.addr userFlags h.wellFormed).fresh _ _ hlink with
      hold | ⟨table, newFlags, rfl, huser⟩
    · exact h.links addr depth entry haddr hold
    · exact permissive_splitLink (huser (by decide))
  refine ⟨(vmmMap_spec m root virt page.addr userFlags h.wellFormed).1.wellFormed, ?_, hlinks,
    ?_, ?_⟩
  · intro addr entries haddr hentries
    have htranslation := translation_vmmMap m root page virt addr h hvirt haddr
    split_ifs at htranslation with hon
    · obtain ⟨upper, hlength, hupper⟩ := htranslation
      cases hupper.symm.trans hentries
      refine ⟨by rw [List.length_append, hlength]; rfl, fun entry hentry => ?_⟩
      rcases List.mem_append.mp hentry with habove | hlast
      · exact permissive_of_upper hlinks haddr hentries habove
      · rw [List.mem_singleton.mp hlast]
        exact permissive_leafEntry page
    · exact h.pages addr entries haddr (htranslation.symm.trans hentries)
  · intro addr frame haddr hframe
    rw [frameOf_vmmMap h hvirt haddr] at hframe
    split_ifs at hframe with hon
    · cases hframe
      exact (kept_vmmMap _ _ _ h.wellFormed hpage).outside
    · exact (kept_vmmMap _ _ _ h.wellFormed (h.outside addr frame haddr hframe)).outside
  · intro addr other frame haddr hother hframe hframe'
    rw [frameOf_vmmMap h hvirt haddr] at hframe
    rw [frameOf_vmmMap h hvirt hother] at hframe'
    split_ifs at hframe hframe' with hon hon' hon'
    · exact hon'.1.trans hon.1.symm
    · cases hframe
      exact absurd hframe' (hunused other hother)
    · cases hframe'
      exact absurd hframe (hunused addr haddr)
    · exact h.apart addr other frame haddr hother hframe hframe'

theorem loadByte_isSome_iff (addr : Word) :
    (loadByte m root addr).isSome = (frameOf m root addr).isSome := Option.isSome_map

variable (root page virt) in
theorem userView_vmmMap (h : UserSpace m root) (hvirt : User virt) (addr : Word) :
    if User addr ∧ pageOf addr = pageOf virt ∧
        (vmmMap m root virt page.addr userFlags).1 = true then
      (userView (vmmMap m root virt page.addr userFlags).2 root addr).isSome = true
    else
      userView (vmmMap m root virt page.addr userFlags).2 root addr = userView m root addr := by
  split_ifs with hon
  · obtain ⟨haddr, hmapped⟩ := hon
    rw [userView_of_user haddr, loadByte_isSome_iff, frameOf_vmmMap h hvirt haddr, if_pos hmapped]
    rfl
  · by_cases haddr : User addr
    · rw [userView_of_user haddr, userView_of_user haddr, loadByte, loadByte,
        frameOf_vmmMap h hvirt haddr, if_neg fun hmapped => hon ⟨haddr, hmapped⟩]
      cases hframe : frameOf m root addr with
      | none => rfl
      | some frame =>
          have hkept := kept_vmmMap virt page.addr userFlags h.wellFormed
            (h.outside addr frame haddr hframe)
          rw [Option.map_some, Option.map_some, byteAt, byteAt, hkept.contents]
    · rw [userView_of_not_user haddr, userView_of_not_user haddr]

end Pages

/-! ## Code that fills an address space -/

/-- What becomes of code that changes memory: it goes on, returns an error, or does not come
back. -/
inductive Outcome where
  | done (m : PageTables)
  | refused (m : PageTables)
  | fault

namespace Outcome

def bind (outcome : Outcome) (next : PageTables → Outcome) : Outcome :=
  match outcome with
  | .done m => next m
  | .refused m => .refused m
  | .fault => .fault

/-- Code that has no error of its own. -/
def ofOption : Option PageTables → Outcome
  | some m => .done m
  | none => .fault

theorem ofOption_eq_done {result : Option PageTables} {m : PageTables} :
    ofOption result = .done m ↔ result = some m := by
  cases result with
  | none => exact ⟨nofun, nofun⟩
  | some m' => exact ⟨fun h => congrArg some (Outcome.done.inj h),
      fun h => congrArg Outcome.done (Option.some.inj h)⟩

end Outcome

/-- `pmm_alloc` and `vmm_map_range` for a page, whose failure nobody looks at. -/
def mapNewPage (root : PhysPage) (virt : Word) (m : PageTables) : Outcome :=
  match m.supply with
  | [] => .refused m
  | page :: rest =>
      match vmmMapRange { m with supply := rest } root virt page.addr 4096#64 userFlags with
      | none => .fault
      | some (_, m) => .done m

theorem vmmMapRange_page (m : PageTables) (root : PhysPage) (virt phys flags : Word) :
    vmmMapRange m root virt phys 4096#64 flags = some (vmmMap m root virt phys flags) := by
  have hrounds : rounds 4096#64 = 1 := by decide
  have hends : endless 4096#64 = false := by decide
  have hoffset : offset 0 = 0#64 := by decide
  have honly : mapRounds root virt phys flags 1 m = vmmMap m root virt phys flags := by
    rw [mapRounds, mapRounds, hoffset, BitVec.add_zero, BitVec.add_zero]
  rw [vmmMapRange, hrounds, honly, hends]
  cases vmmMap m root virt phys flags with
  | mk done m' =>
      cases done with
      | false => rfl
      | true => rfl

section NewPage

variable {m m' : PageTables} {root page : PhysPage} {rest : List PhysPage} {virt addr : Word}
  {count : ℕ}

theorem mapNewPage_cons (hsupply : m.supply = page :: rest) :
    mapNewPage root virt m =
      .done (vmmMap { m with supply := rest } root virt page.addr userFlags).2 := by
  rw [mapNewPage, hsupply]
  dsimp only
  rw [vmmMapRange_page]

theorem mapNewPage_eq_done (h : mapNewPage root virt m = .done m') :
    ∃ page rest, m.supply = page :: rest ∧
      m' = (vmmMap { m with supply := rest } root virt page.addr userFlags).2 := by
  cases hsupply : m.supply with
  | nil =>
      rw [mapNewPage, hsupply] at h
      cases h
  | cons page rest =>
      rw [mapNewPage_cons hsupply] at h
      exact ⟨page, rest, rfl, (Outcome.done.inj h).symm⟩

theorem mapNewPage_spec (h : UserSpace m root) (hvirt : User virt)
    (hmap : mapNewPage root virt m = .done m') :
    UserSpace m' root ∧
      (∀ addr, pageOf addr ≠ pageOf virt → userView m' root addr = userView m root addr) ∧
      ∀ addr, (userView m root addr).isSome = true → (userView m' root addr).isSome = true := by
  obtain ⟨page, rest, hsupply, rfl⟩ := mapNewPage_eq_done hmap
  have hspace := h.afterAlloc hsupply
  obtain ⟨hout, hunused⟩ := h.allocated hsupply
  have hview := fun addr => userView_vmmMap root page virt hspace hvirt addr
  refine ⟨hspace.map hvirt hout hunused, fun addr hoff => ?_, fun addr hsome => ?_⟩
  · have haddr := hview addr
    rw [if_neg fun hon => hoff hon.2.1] at haddr
    exact haddr
  · have haddr := hview addr
    split_ifs at haddr with hon
    · exact haddr
    · rw [haddr]
      exact hsome

variable (m root virt count) in
theorem mapNewPage_of_frames (h : UserSpace m root) (hvirt : User virt)
    (hframes : count + 4 ≤ m.supply.length) :
    ∃ m', mapNewPage root virt m = .done m' ∧ count ≤ m'.supply.length ∧
      ∀ addr, User addr → pageOf addr = pageOf virt → (userView m' root addr).isSome = true := by
  cases hsupply : m.supply with
  | nil =>
      rw [hsupply] at hframes
      exact absurd hframes (Nat.not_succ_le_zero _)
  | cons page rest =>
      rw [hsupply, List.length_cons] at hframes
      have hspace := h.afterAlloc hsupply
      obtain ⟨m', hmap, hcount⟩ := vmmMap_of_frames { m with supply := rest } root virt page.addr
        userFlags count (Nat.le_of_succ_le_succ hframes)
      refine ⟨m', by rw [mapNewPage_cons hsupply, hmap], hcount, fun addr haddr hon => ?_⟩
      have hview := userView_vmmMap root page virt hspace hvirt addr
      rw [hmap, if_pos ⟨haddr, hon, rfl⟩] at hview
      exact hview

end NewPage

/-! ## A new address space -/

section NewSpace

variable {m m' : PageTables} {active root page : PhysPage} {path : List TableIndex} {addr : Word}

theorem vmmNewUserPml4_eq_some (h : vmmNewUserPml4 m active = (some root, m')) :
    ∃ rest, m.supply = root :: rest ∧
      m' = ⟨update m.tables root fun i =>
        if 256 ≤ i.val then m.tables active i else 0#64, rest⟩ := by
  rw [vmmNewUserPml4] at h
  cases hsupply : m.supply with
  | nil =>
      rw [hsupply] at h
      cases h
  | cons page rest =>
      rw [hsupply] at h
      cases h
      exact ⟨rest, rfl, rfl⟩

variable (m m' active root page path) in
theorem tableAt_newUserPml4 (h : WellFormed m active)
    (hnew : vmmNewUserPml4 m active = (some root, m')) (htable : TableAt m' root path page) :
    path = [] ∧ page = root ∨ page ≠ root ∧ TableAt m active path page := by
  obtain ⟨rest, hsupply, rfl⟩ := vmmNewUserPml4_eq_some hnew
  have hfresh : ∀ along, ¬ TableAt m active along root :=
    h.fresh root (hsupply ▸ List.mem_cons_self)
  induction path generalizing page with
  | nil => exact Or.inl ⟨rfl, (Option.some.inj htable).symm⟩
  | cons i path ih =>
      obtain ⟨parent, hparent, hchild⟩ := RadixTree.tableAt_cons_some kind htable
      have hbelow : TableAt m active (i :: path) page := by
        dsimp only at hchild
        rcases ih _ hparent with ⟨rfl, rfl⟩ | ⟨hne, hold⟩
        · rw [update_self] at hchild
          split_ifs at hchild with hkernel
          · exact RadixTree.tableAt_cons kind rfl hchild
          · rw [kind_of_absent (by decide)] at hchild
            cases hchild
        · rw [update_of_ne hne] at hchild
          exact RadixTree.tableAt_cons kind hold hchild
      refine Or.inr ⟨?_, hbelow⟩
      rintro rfl
      exact hfresh _ hbelow

theorem wellFormed_newUserPml4 (h : WellFormed m active)
    (hnew : vmmNewUserPml4 m active = (some root, m')) : WellFormed m' root := by
  have htables := fun path page => tableAt_newUserPml4 m m' active root page path h hnew
  obtain ⟨rest, hsupply, rfl⟩ := vmmNewUserPml4_eq_some hnew
  obtain ⟨hnotMem, hdistinct⟩ := List.nodup_cons.mp (hsupply ▸ h.distinct)
  refine ⟨fun left right page hleft hright => ?_, hdistinct, fun page hpage path htable => ?_⟩
  · rcases htables left page hleft with ⟨rfl, rfl⟩ | ⟨hne, hleft⟩
    · rcases htables right page hright with ⟨rfl, _⟩ | ⟨hne, _⟩
      · rfl
      · exact absurd rfl hne
    · rcases htables right page hright with ⟨_, rfl⟩ | ⟨_, hright⟩
      · exact absurd rfl hne
      · exact h.tree left right page hleft hright
  · rcases htables path page htable with ⟨_, rfl⟩ | ⟨_, hold⟩
    · exact hnotMem hpage
    · exact h.fresh page (hsupply ▸ List.mem_cons_of_mem _ hpage) path hold

theorem pml4Index_of_user (h : User addr) : (indices addr 0).val < 256 := by
  have hlt : addr.toNat < 2 ^ 47 := h
  have hshift : (addr >>> 39).toNat = addr.toNat / 2 ^ 39 := by
    rw [BitVec.toNat_ushiftRight, Nat.shiftRight_eq_div_pow]
  have hindex : (indices addr 0).val = (addr >>> 39).toNat % 512 := rfl
  omega

theorem entry_newUserPml4 (hnew : vmmNewUserPml4 m active = (some root, m')) (haddr : User addr) :
    m'.tables root (indices addr 0) = 0#64 := by
  obtain ⟨rest, _, rfl⟩ := vmmNewUserPml4_eq_some hnew
  have hindex := pml4Index_of_user haddr
  dsimp only
  rw [update_self, if_neg (by omega)]

theorem not_tableAt_of_empty (hempty : m.tables root (indices addr 0) = 0#64) (depth : ℕ) :
    ¬ TableAt m root (pathOf (indices addr) (depth + 1)) page := by
  induction depth generalizing page with
  | zero =>
      intro htable
      obtain ⟨parent, hparent, hchild⟩ := RadixTree.tableAt_cons_some kind htable
      cases hparent
      rw [hempty, kind_of_absent (by decide)] at hchild
      cases hchild
  | succ depth ih =>
      intro htable
      obtain ⟨parent, hparent, _⟩ := RadixTree.tableAt_cons_some kind htable
      exact ih hparent

theorem not_linkAt_of_empty {entry : Word} (hempty : m.tables root (indices addr 0) = 0#64)
    (depth : ℕ) : ¬ LinkAt m root (pathOf (indices addr) depth) entry := by
  cases depth with
  | zero => exact not_linkAt_nil
  | succ depth => exact fun ⟨_, _, htable⟩ => not_tableAt_of_empty hempty depth htable

theorem userSpace_of_empty (h : WellFormed m root)
    (hempty : ∀ addr, User addr → m.tables root (indices addr 0) = 0#64) :
    UserSpace m root ∧ userView m root = fun _ => none := by
  have htranslation : ∀ addr, User addr → translation m root addr = none :=
    fun addr haddr => walk_absent (hempty addr haddr) (by decide)
  have hframe : ∀ addr, User addr → frameOf m root addr = none := by
    intro addr haddr
    rw [frameOf_of_user haddr, htranslation addr haddr, Option.map_none]
  refine ⟨⟨h, ?_, ?_, ?_, ?_⟩, ?_⟩
  · intro addr entries haddr hentries
    cases (htranslation addr haddr).symm.trans hentries
  · intro addr depth entry haddr hlink
    exact absurd hlink (not_linkAt_of_empty (hempty addr haddr) depth)
  · intro addr page haddr hpage
    cases (hframe addr haddr).symm.trans hpage
  · intro addr other page haddr _ hpage
    cases (hframe addr haddr).symm.trans hpage
  · funext addr
    by_cases haddr : User addr
    · rw [userView_of_user haddr, loadByte, hframe addr haddr, Option.map_none]
    · exact userView_of_not_user haddr

theorem userSpace_newUserPml4 (h : WellFormed m active)
    (hnew : vmmNewUserPml4 m active = (some root, m')) :
    UserSpace m' root ∧ userView m' root = fun _ => none :=
  userSpace_of_empty (wellFormed_newUserPml4 h hnew) fun _ haddr => entry_newUserPml4 hnew haddr

end NewSpace

/-! ## A space with many frames -/

/-- The frames in the order of their addresses, without the first one. -/
def frame (k : ℕ) : PhysPage := target (BitVec.ofNat 64 (k + 1) <<< 12)

/-- Tables without entries, and frames for more of them. -/
def emptySpace (count : ℕ) : PageTables where
  tables := fun _ _ => 0#64
  supply := (List.range count).map fun k => frame (k + 1)

theorem frame_injective {k l : ℕ} (hk : k < 2 ^ 39) (hl : l < 2 ^ 39) (h : frame k = frame l) :
    k = l := by
  have hbit : ∀ n j, j < 40 → (frame n).addr.getLsbD (12 + j) = (n + 1).testBit j := by
    intro n j hj
    rw [frame, target, BitVec.getLsbD_and, BitVec.getLsbD_shiftLeft, BitVec.getLsbD_ofNat,
      getLsbD_addrMask]
    simp [show 12 + j < 64 by omega, show 12 + j < 52 by omega, show j < 64 by omega]
  have hsucc : k + 1 = l + 1 := by
    apply Nat.eq_of_testBit_eq
    intro j
    by_cases hj : j < 40
    · rw [← hbit k j hj, ← hbit l j hj, h]
    · have hlarge : 2 ^ 40 ≤ 2 ^ j := Nat.pow_le_pow_right (by decide) (Nat.le_of_not_lt hj)
      rw [Nat.testBit_lt_two_pow (by omega), Nat.testBit_lt_two_pow (by omega)]
  exact Nat.succ.inj hsucc

theorem tableAt_emptySpace {count : ℕ} {root page : PhysPage} {path : List TableIndex}
    (h : TableAt (emptySpace count) root path page) : path = [] ∧ page = root := by
  cases path with
  | nil => exact ⟨rfl, (Option.some.inj h).symm⟩
  | cons i path =>
      obtain ⟨parent, _, hchild⟩ := RadixTree.tableAt_cons_some kind h
      change (kind path.length 0#64).page = some page at hchild
      rw [kind_of_absent (by decide)] at hchild
      cases hchild

theorem userSpace_emptySpace (count : ℕ) (hcount : count ≤ 2 ^ 38) :
    UserSpace (emptySpace count) (frame 0) ∧
      userView (emptySpace count) (frame 0) = fun _ => none := by
  apply userSpace_of_empty _ fun _ _ => rfl
  refine ⟨fun left right page hleft hright => ?_, ?_, fun page hpage path htable => ?_⟩
  · exact (tableAt_emptySpace hleft).1.trans (tableAt_emptySpace hright).1.symm
  · refine List.Nodup.map_on (fun k hk l hl heq => ?_) List.nodup_range
    have hk' := List.mem_range.mp hk
    have hl' := List.mem_range.mp hl
    exact Nat.succ.inj (frame_injective (by omega) (by omega) heq)
  · obtain ⟨k, hk, rfl⟩ := List.mem_map.mp hpage
    have hk' := List.mem_range.mp hk
    have hzero := frame_injective (by omega) (by omega) (tableAt_emptySpace htable).2
    exact Nat.succ_ne_zero k hzero

theorem newUserPml4_emptySpace (count : ℕ) :
    ∃ m, vmmNewUserPml4 (emptySpace (count + 1)) (frame 0) = (some (frame 1), m) ∧
      m.supply.length = count := by
  have hsupply : (emptySpace (count + 1)).supply =
      frame 1 :: (List.range count).map fun k => frame (k + 2) := by
    rw [emptySpace, List.range_succ_eq_map, List.map_cons, List.map_map]
    rfl
  refine ⟨_, by rw [vmmNewUserPml4, hsupply], ?_⟩
  rw [List.length_map, List.length_range]

/-- A space with one page for the program, which holds some bytes. -/
def pageWith (count : ℕ) (virt : Word) (bytes : ℕ → Byte) : PageTables :=
  match mapNewPage (frame 0) virt (emptySpace count) with
  | .done m => (storeBytes (frame 0) virt bytes 4096 m).getD m
  | _ => emptySpace count

theorem pageOf_add {virt : Word} (haligned : virt.toNat % 4096 = 0) {k : ℕ} (hk : k < 4096) :
    pageOf (virt + BitVec.ofNat 64 k) = pageOf virt := by
  apply BitVec.eq_of_toNat_eq
  rw [pageOf, pageOf, BitVec.toNat_ushiftRight, BitVec.toNat_ushiftRight,
    Nat.shiftRight_eq_div_pow, Nat.shiftRight_eq_div_pow, toNat_add_ofNat _ _ (by omega)]
  omega

theorem pageWith_spec {count : ℕ} {virt : Word} {bytes : ℕ → Byte} (hcount : count + 4 ≤ 2 ^ 38)
    (haligned : virt.toNat % 4096 = 0) (hfits : virt.toNat + 4096 ≤ 2 ^ 47) :
    UserSpace (pageWith (count + 4) virt bytes) (frame 0) ∧
      count ≤ (pageWith (count + 4) virt bytes).supply.length ∧
        ∀ k < 4096, userView (pageWith (count + 4) virt bytes) (frame 0)
          (virt + BitVec.ofNat 64 k) = some (bytes k) := by
  have hvirt : User virt := by
    rw [User]
    omega
  have hspace := (userSpace_emptySpace _ hcount).1
  have hframes : count + 4 ≤ (emptySpace (count + 4)).supply.length := by
    rw [emptySpace, List.length_map, List.length_range]
  obtain ⟨m, hmap, hleft, hmapped⟩ := mapNewPage_of_frames _ _ _ _ hspace hvirt hframes
  have hspace' := (mapNewPage_spec hspace hvirt hmap).1
  obtain ⟨m', hstore⟩ := storeBytes_of_mapped m (frame 0) virt bytes 4096 hspace' hfits
    fun k hk => hmapped _ (user_add (by omega)) (pageOf_add haligned hk)
  obtain ⟨hsame, hview⟩ := storeBytes_spec hspace' hfits hstore
  have heq : pageWith (count + 4) virt bytes = m' := by
    rw [pageWith, hmap]
    dsimp only
    rw [hstore, Option.getD_some]
  rw [heq]
  refine ⟨hsame.userSpace hspace', hsame.supply ▸ hleft, fun k hk => ?_⟩
  rw [hview, SparseMemory.blit_add hk (by decide)]

end EigenOS.Programs
