import EigenOS.Programs.ElfBounds
import EigenOS.Programs.UserStrings

/-!
# The pages of a new program

An address space for a program stays one while the image, the stack and the page of the main
thread are put into it.  With frames enough the stack is all zeros.
-/

namespace EigenOS.Programs

open EigenOS.Paging

/-! ## The address space while it is filled -/

/-- Whatever memory is left behind has a property. -/
inductive Outcome.All (P : PageTables → Prop) : Outcome → Prop
  | done {m : PageTables} (h : P m) : All P (.done m)
  | refused {m : PageTables} (h : P m) : All P (.refused m)
  | fault : All P .fault

section All

variable {P : PageTables → Prop}

theorem Outcome.all_bind {outcome : Outcome} {next : PageTables → Outcome} (h : outcome.All P)
    (hnext : ∀ m, P m → (next m).All P) : (outcome.bind next).All P := by
  cases h with
  | done h => exact hnext _ h
  | refused h => exact .refused h
  | fault => exact .fault

theorem Outcome.all_ofOption {result : Option PageTables} (h : ∀ m, result = some m → P m) :
    (Outcome.ofOption result).All P := by
  cases result with
  | none => exact .fault
  | some m => exact .done (h m rfl)

end All

section Space

variable {image : Image} {m m' : PageTables} {root : PhysPage} {virt value : Word} {count i : ℕ}
  {bytes : ℕ → Byte}

theorem UserSpace.storeBytes (h : UserSpace m root) (hle : virt.toNat ≤ 2 ^ 47)
    (hstore : storeBytes root virt bytes count m = some m') : UserSpace m' root :=
  (storeBytes_spec h (storeBytes_inside hle hstore) hstore).1.userSpace h

theorem UserSpace.clearPage (h : UserSpace m root) (hle : virt.toNat ≤ 2 ^ 47)
    (hclear : Programs.clearPage root virt m = some m') : UserSpace m' root := by
  rw [Programs.clearPage] at hclear
  exact h.storeBytes hle hclear

theorem UserSpace.mapNewPage (h : UserSpace m root) (hvirt : User virt) :
    (mapNewPage root virt m).All (UserSpace · root) := by
  cases hmap : Programs.mapNewPage root virt m with
  | done m' => exact .done (mapNewPage_spec h hvirt hmap).1
  | refused m' =>
      unfold Programs.mapNewPage at hmap
      cases hsupply : m.supply with
      | nil =>
          rw [hsupply] at hmap
          cases hmap
          exact .refused h
      | cons page rest =>
          rw [hsupply] at hmap
          dsimp only at hmap
          rw [vmmMapRange_page] at hmap
          cases hmap
  | fault => exact .fault

theorem UserSpace.stackPages (h : UserSpace m root) (hrange : virt.toNat + 4096 * count ≤ 2 ^ 47) :
    (stackPages root count virt m).All (UserSpace · root) := by
  induction count generalizing virt m with
  | zero => exact .done h
  | succ count ih =>
      have hvirt : User virt := by
        rw [User]
        omega
      have hnext : (virt + 4096#64).toNat = virt.toNat + 4096 :=
        toNat_add_ofNat virt 4096 (by omega)
      rw [Programs.stackPages]
      apply Outcome.all_bind (h.mapNewPage hvirt)
      intro mid hmid
      apply Outcome.all_bind
      · apply Outcome.all_ofOption
        intro m' hclear
        exact hmid.clearPage (by omega) hclear
      · intro m' hm'
        exact ih hm' (by omega)

variable (value) in
theorem UserSpace.tlsPage (h : UserSpace m root) (hrange : virt.toNat + 4096 ≤ 2 ^ 47) :
    (tlsPage root virt value m).All (UserSpace · root) := by
  have hvirt : User virt := by
    rw [User]
    omega
  have hself : (virt + threadTlsSelfOff).toNat = virt.toNat + 520 :=
    toNat_add_ofNat virt 520 (by omega)
  rw [Programs.tlsPage]
  apply Outcome.all_bind (h.mapNewPage hvirt)
  intro mid hmid
  apply Outcome.all_ofOption
  intro m' hstores
  obtain ⟨first, hclear, hrest⟩ := Option.bind_eq_some_iff.mp hstores
  obtain ⟨second, hid, hlast⟩ := Option.bind_eq_some_iff.mp hrest
  have hfirst : UserSpace first root := hmid.clearPage (by omega) hclear
  have hsecond : UserSpace second root := hfirst.storeBytes (by omega) hid
  exact hsecond.storeBytes (by omega) hlast

/-- A segment that is accepted and gets pages ends before the address space does. -/
theorem endFits_of_covers (hgoes : ¬ image.ScanStops i) (hcovers : image.Covers i) :
    image.EndFits i := by
  have hmemsz : (image.pMemsz i).toNat ≤ maxSegment.toNat := by
    apply BitVec.le_def.mp
    apply BitVec.not_lt.mp
    exact fun hlarge => hgoes (Or.inr ⟨hcovers.1, Or.inl hlarge⟩)
  have hmax : maxSegment.toNat = 2 ^ 28 := by decide
  have hlow : (0xFFF#64 : Word).toNat = 4095 := rfl
  have hvaddr := (image.pVaddr i).isLt
  have hfirst := Image.toNat_first image i
  have hlt := BitVec.lt_def.mp hcovers.2
  by_contra hwraps
  unfold Image.EndFits at hwraps
  have hsum : (image.pVaddr i + image.pMemsz i + 0xFFF#64).toNat =
      (image.pVaddr i).toNat + (image.pMemsz i).toNat + 4095 - 2 ^ 64 := by
    rw [BitVec.toNat_add, BitVec.toNat_add, Nat.mod_add_mod, hlow]
    omega
  rw [Image.last, toNat_pageFloor, hsum] at hlt
  omega

theorem UserSpace.elfLoad (h : UserSpace m root) (hdone : (elfLoad image root m).2 = .done m') :
    UserSpace m' root := by
  obtain ⟨⟨_, _, hscan⟩, hload⟩ := elfLoad_done hdone
  refine (loadSegments_spec h (fun k hlow hhigh hcovers => ?_) hload).2.1
  exact endFits_of_covers (hscan k hlow hhigh) hcovers

end Space

/-! ## Pages of zeros -/

section Zeros

variable {m : PageTables} {root : PhysPage} {virt value : Word} {count rest : ℕ}

/-- A page of zeros, and no other page is changed. -/
structure Cleared (root : PhysPage) (virt : Word) (m m' : PageTables) : Prop where
  space : UserSpace m' root
  zeros : ∀ k < 4096, userView m' root (virt + BitVec.ofNat 64 k) = some 0#8
  others : ∀ addr, pageOf addr ≠ pageOf virt → userView m' root addr = userView m root addr

variable (m root virt rest) in
theorem newPage_of_frames (h : UserSpace m root) (haligned : virt.toNat % 4096 = 0)
    (hrange : virt.toNat + 4096 ≤ 2 ^ 47) (hframes : rest + 4 ≤ m.supply.length) :
    ∃ mid m', mapNewPage root virt m = .done mid ∧ clearPage root virt mid = some m' ∧
      Cleared root virt m m' ∧ rest ≤ m'.supply.length := by
  have hvirt : User virt := by
    rw [User]
    omega
  obtain ⟨mid, hmap, hleft, hmapped⟩ := mapNewPage_of_frames _ _ _ _ h hvirt hframes
  obtain ⟨hspace, hothers, _⟩ := mapNewPage_spec h hvirt hmap
  obtain ⟨m', hclear⟩ := storeBytes_of_mapped mid root virt (fun _ => 0#8) 4096 hspace hrange
    fun k hk => hmapped _ (user_add (by omega)) (pageOf_add haligned hk)
  have hkeeps := storeBytes_keeps hspace (by omega) hclear
  refine ⟨mid, m', hmap, hclear, ⟨hkeeps.tables.userSpace hspace, ?_, ?_⟩, ?_⟩
  · intro k hk
    exact storeBytes_view hspace (by omega) hclear hk
  · intro addr haddr
    rw [hkeeps.view addr, hothers addr haddr]
    rw [ne_eq, pageOf_eq_iff] at haddr
    omega
  · rw [hkeeps.tables.supply]
    exact hleft

variable (m root virt count rest) in
/-- The frames of a stack, and of the tables above its pages, are enough for it. -/
theorem stackPages_of_frames (h : UserSpace m root) (haligned : virt.toNat % 4096 = 0)
    (hrange : virt.toNat + 4096 * count ≤ 2 ^ 47)
    (hframes : rest + 4 * count ≤ m.supply.length) :
    ∃ m', stackPages root count virt m = .done m' ∧ UserSpace m' root ∧
      rest ≤ m'.supply.length ∧
      (∀ k < 4096 * count, userView m' root (virt + BitVec.ofNat 64 k) = some 0#8) ∧
      ∀ addr : Word, addr.toNat < virt.toNat → userView m' root addr = userView m root addr := by
  induction count generalizing virt m with
  | zero => exact ⟨m, rfl, h, hframes, fun k hk => absurd hk (Nat.not_lt_zero k), fun _ _ => rfl⟩
  | succ count ih =>
      have hinside : virt.toNat + 4096 ≤ 2 ^ 47 :=
        (Nat.add_le_add_left (Nat.le_mul_of_pos_right 4096 count.succ_pos) _).trans hrange
      have hsupply : rest + 4 * count + 4 ≤ m.supply.length := by omega
      obtain ⟨mid, first, hmap, hclear, hpage, hleft⟩ :=
        newPage_of_frames _ _ _ _ h haligned hinside hsupply
      have hnext : (virt + 4096#64).toNat = virt.toNat + 4096 :=
        toNat_add_ofNat virt 4096 (by omega)
      obtain ⟨m', hpages, hspace, hrest, hzeros, hbelow⟩ :=
        ih _ _ hpage.space (by omega : (virt + 4096#64).toNat % 4096 = 0) (by omega) hleft
      refine ⟨m', ?_, hspace, hrest, fun k hk => ?_, fun addr haddr => ?_⟩
      · rw [stackPages, hmap, Outcome.bind, hclear]
        exact hpages
      · by_cases hfirst : k < 4096
        · have haddr : (virt + BitVec.ofNat 64 k).toNat = virt.toNat + k :=
            toNat_add_ofNat _ _ (by omega)
          rw [hbelow _ (by omega), hpage.zeros k hfirst]
        · have hsplit : virt + BitVec.ofNat 64 k =
              virt + 4096#64 + BitVec.ofNat 64 (k - 4096) := by
            rw [BitVec.add_assoc, ← BitVec.ofNat_add, Nat.add_sub_cancel' (not_lt.mp hfirst)]
          rw [hsplit]
          exact hzeros (k - 4096) (by omega)
      · rw [hbelow addr (by omega), hpage.others addr]
        rw [ne_eq, pageOf_eq_iff]
        omega

variable (m root virt value) in
theorem tlsPage_of_frames (h : UserSpace m root) (haligned : virt.toNat % 4096 = 0)
    (hrange : virt.toNat + 4096 ≤ 2 ^ 47) (hframes : 4 ≤ m.supply.length) :
    ∃ m', tlsPage root virt value m = .done m' ∧ UserSpace m' root ∧
      ∀ addr, pageOf addr ≠ pageOf virt → userView m' root addr = userView m root addr := by
  obtain ⟨mid, first, hmap, hclear, hpage, _⟩ :=
    newPage_of_frames m root virt 0 h haligned hrange hframes
  have hself : (virt + threadTlsSelfOff).toNat = virt.toNat + 520 :=
    toNat_add_ofNat virt 520 (by omega)
  have hmapped : ∀ k < 4096, (userView first root (virt + BitVec.ofNat 64 k)).isSome = true := by
    intro k hk
    rw [hpage.zeros k hk]
    rfl
  obtain ⟨second, hid⟩ := storeBytes_of_mapped first root (virt + threadTlsSelfOff)
    (InitialStack.byteOfWord value) 8 hpage.space (by omega) fun k hk => by
      have hshift : virt + threadTlsSelfOff + BitVec.ofNat 64 k =
          virt + BitVec.ofNat 64 (520 + k) := by
        rw [BitVec.ofNat_add, ← BitVec.add_assoc]
        rfl
      rw [hshift]
      exact hmapped _ (by omega)
  have hsecond := storeBytes_keeps hpage.space (by omega) hid
  have hspace := hsecond.tables.userSpace hpage.space
  obtain ⟨m', hlast⟩ := storeBytes_of_mapped second root virt (InitialStack.byteOfWord virt) 8
    hspace (by omega) fun k hk => by
      have haddr : (virt + BitVec.ofNat 64 k).toNat = virt.toNat + k := toNat_add_ofNat _ _ (by omega)
      rw [hsecond.view _ (by omega)]
      exact hmapped k (by omega)
  have hthird := storeBytes_keeps hspace (by omega) hlast
  refine ⟨m', ?_, hthird.tables.userSpace hspace, fun addr haddr => ?_⟩
  · rw [tlsPage, hmap, Outcome.bind]
    change Outcome.ofOption ((clearPage root virt mid).bind fun m =>
      (storeWord root (virt + threadTlsSelfOff) value m).bind fun m =>
        storeWord root virt virt m) = .done m'
    rw [hclear, Option.bind_some, storeWord, hid, Option.bind_some, storeWord, hlast]
    rfl
  · have hoff := hpage.others addr haddr
    rw [ne_eq, pageOf_eq_iff] at haddr
    rw [hthird.view addr (by omega), hsecond.view addr (by omega), hoff]

end Zeros

end EigenOS.Programs
