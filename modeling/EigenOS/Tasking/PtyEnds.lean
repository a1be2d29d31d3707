import EigenOS.Library.Tally
import EigenOS.Tasking.ThreadGroups

/-!
# Open ends of ptys

The counts of a pty against the open descriptors of a set of tasks.  Opening, copying and
closing a descriptor change a count together with the descriptor.
-/

namespace EigenOS.Tasking

open Transition Tally Function

/-- An open descriptor at one end of a pty. -/
def IsEndOf (p : Fin maxPtys) (master : Bool) (slot : FdSlot) : Prop :=
  slot.type = .pty ∧ slot.pty = p ∧ slot.isUpperEnd = master

instance (p : Fin maxPtys) (master : Bool) : DecidablePred (IsEndOf p master) :=
  fun _ => inferInstanceAs (Decidable (_ ∧ _))

/-- The open descriptors at one end of a pty, over all live tasks. -/
def ptyEnds (k : Kernel) (p : Fin maxPtys) (master : Bool) :
    Finset (Fin maxTasks × Fin maxFds) :=
  Finset.univ.filter fun e => IsLive (k.tasks e.1) ∧ IsEndOf p master (k.slot e.1 e.2)

def Pty.refs (pty : Pty) (master : Bool) : ℕ :=
  if master then pty.masterRefs else pty.slaveRefs

structure PtysExact (k : Kernel) : Prop where
  refs : ∀ p master, (k.ptys p).refs master = (ptyEnds k p master).card
  free : ∀ p, (k.ptys p).used = false ↔ ∀ master, (k.ptys p).refs master = 0

def HoldsPty (k : Kernel) (t : Fin maxTasks) : Prop := ∃ fd, (k.slot t fd).type = .pty

/-! ## Exactness over given tasks -/

def Kernel.table (k : Kernel) : Fin maxTasks × Fin maxFds → FdSlot := fun e => k.slot e.1 e.2

/-- The counts are those of the descriptors of the given tasks. -/
structure ExactOn (live : Finset (Fin maxTasks)) (k : Kernel) : Prop where
  refs : ∀ p master, (k.ptys p).refs master =
    tally (live ×ˢ Finset.univ) k.table (IsEndOf p master)
  free : ∀ p, (k.ptys p).used = false ↔ ∀ master, (k.ptys p).refs master = 0

def liveTasks (k : Kernel) : Finset (Fin maxTasks) :=
  Finset.univ.filter fun t => IsLive (k.tasks t)

variable {t : Fin maxTasks} {slot : FdSlot} {p : Fin maxPtys} {fd : Fin maxFds}

theorem mem_liveTasks {k : Kernel} : t ∈ liveTasks k ↔ IsLive (k.tasks t) := by
  simp [liveTasks]

theorem card_ptyEnds (k : Kernel) (p : Fin maxPtys) (master : Bool) :
    (ptyEnds k p master).card =
      tally (liveTasks k ×ˢ Finset.univ) k.table (IsEndOf p master) := by
  have hsame : ptyEnds k p master = (liveTasks k ×ˢ Finset.univ).filter fun e =>
      IsEndOf p master (k.table e) := by
    apply Finset.ext
    rintro ⟨t, fd⟩
    unfold ptyEnds
    rw [Finset.mem_filter, Finset.mem_filter, Finset.mem_product, mem_liveTasks]
    simp only [Finset.mem_univ, true_and, and_true]
    rfl
  rw [hsame]
  rfl

theorem ptysExact_iff {k : Kernel} : PtysExact k ↔ ExactOn (liveTasks k) k := by
  constructor
  · intro h
    exact ⟨fun p master => (h.refs p master).trans (card_ptyEnds k p master), h.free⟩
  · intro h
    exact ⟨fun p master => (h.refs p master).trans (card_ptyEnds k p master).symm, h.free⟩

theorem liveTasks_congr {k next : Kernel} (hnext : FdsOnly t k next) :
    liveTasks next = liveTasks k := by
  unfold liveTasks
  apply Finset.filter_congr
  intro u _
  unfold IsLive
  rw [hnext.state_eq u]

@[simp]
theorem ptys_setFd (k : Kernel) (t : Fin maxTasks) (fd : Fin maxFds) (slot : FdSlot) :
    (k.setFd t fd slot).ptys = k.ptys := rfl

theorem table_setFd (k : Kernel) (t : Fin maxTasks) (fd : Fin maxFds) (slot : FdSlot) :
    (k.setFd t fd slot).table = update k.table (t, fd) slot := by
  funext e
  unfold Kernel.table
  rw [Kernel.slot_setFd]
  by_cases he : e = (t, fd)
  · subst he
    simp
  · rw [update_of_ne he, if_neg]
    rintro ⟨rfl, rfl⟩
    exact he rfl

theorem not_isEndOf (hslot : slot.type ≠ .pty) (p : Fin maxPtys) (master : Bool) :
    ¬ IsEndOf p master slot := fun h => hslot h.1

theorem isEndOf_self (hslot : slot.type = .pty) :
    IsEndOf slot.pty slot.isUpperEnd slot := ⟨hslot, rfl, rfl⟩

theorem isEndOf_iff (hslot : slot.type = .pty) {master : Bool} :
    IsEndOf p master slot ↔ slot.pty = p ∧ slot.isUpperEnd = master :=
  and_iff_right hslot

theorem refs_ptyDupRef {k : Kernel} (hused : (k.ptys p).used = true) (master : Bool)
    (q : Fin maxPtys) (m : Bool) :
    ((ptyDupRef k p master).ptys q).refs m =
      (k.ptys q).refs m + if p = q ∧ master = m then 1 else 0 := by
  unfold ptyDupRef
  dsimp only
  rw [if_pos hused]
  by_cases hq : q = p
  · subst hq
    cases master <;> cases m <;> simp [Kernel.setPty, Pty.refs]
  · simp [Kernel.setPty, hq, Ne.symm hq]

theorem used_ptyDupRef {k : Kernel} (hused : (k.ptys p).used = true) (master : Bool)
    (q : Fin maxPtys) : ((ptyDupRef k p master).ptys q).used = (k.ptys q).used := by
  unfold ptyDupRef
  dsimp only
  rw [if_pos hused]
  by_cases hq : q = p
  · subst hq
    cases master <;> simp [Kernel.setPty]
  · simp [Kernel.setPty, hq]

/-- The pty that `pty_close` leaves. -/
def Pty.dropped (pty : Pty) (master : Bool) : Pty :=
  if master then { pty with masterRefs := pty.masterRefs - 1 }
  else { pty with slaveRefs := pty.slaveRefs - 1 }

theorem Pty.refs_dropped (pty : Pty) (master m : Bool) :
    (pty.dropped master).refs m = pty.refs m - if master = m then 1 else 0 := by
  cases master <;> cases m <;> rfl

theorem Pty.refs_eq_zero {pty : Pty} :
    (pty.masterRefs = 0 ∧ pty.slaveRefs = 0) ↔ ∀ m, pty.refs m = 0 := by
  simp [Pty.refs, and_comm]

theorem ptys_ptyClose {k : Kernel} (hused : (k.ptys p).used = true) (master : Bool) :
    (ptyClose k p master).ptys p =
      if ∀ m, ((k.ptys p).dropped master).refs m = 0 then Pty.zero
      else (k.ptys p).dropped master := by
  unfold ptyClose
  dsimp only
  rw [if_pos hused]
  simp only [Kernel.setPty, update_self]
  exact if_congr Pty.refs_eq_zero rfl rfl

theorem refs_ptyClose {k : Kernel} (hused : (k.ptys p).used = true) (master m : Bool) :
    ((ptyClose k p master).ptys p).refs m =
      (k.ptys p).refs m - if master = m then 1 else 0 := by
  rw [ptys_ptyClose hused, ← Pty.refs_dropped]
  split
  · rename_i hzero
    rw [hzero m]
    cases m <;> rfl
  · rfl

theorem used_ptyClose {k : Kernel} (hused : (k.ptys p).used = true) (master : Bool) :
    ((ptyClose k p master).ptys p).used = false ↔
      ∀ m, ((ptyClose k p master).ptys p).refs m = 0 := by
  rw [ptys_ptyClose hused]
  split
  · exact iff_of_true rfl fun m => by cases m <;> rfl
  · rename_i hnot
    refine iff_of_false ?_ hnot
    cases master <;> simp [Pty.dropped, hused]

theorem ptys_ptyClose_of_ne {k : Kernel} {p q : Fin maxPtys} (hq : q ≠ p) (master : Bool) :
    (ptyClose k p master).ptys q = k.ptys q := by
  unfold ptyClose
  dsimp only
  split
  · simp [Kernel.setPty, hq]
  · rfl

namespace ExactOn

variable {live : Finset (Fin maxTasks)} {k : Kernel}

theorem congr {next : Kernel} (hk : ExactOn live k) (hptys : next.ptys = k.ptys)
    (hends : ∀ t ∈ live, ∀ fd p master,
      IsEndOf p master (next.slot t fd) ↔ IsEndOf p master (k.slot t fd)) :
    ExactOn live next where
  refs p master := by
    rw [hptys, hk.refs]
    symm
    apply tally_congr
    intro e he
    exact hends e.1 (Finset.mem_product.mp he).1 e.2 p master
  free := by
    rw [hptys]
    exact hk.free

theorem relive {live' : Finset (Fin maxTasks)} (hk : ExactOn live k)
    (hgone : ∀ t ∈ live, t ∉ live' → ¬ HoldsPty k t)
    (hnew : ∀ t ∈ live', t ∉ live → ¬ HoldsPty k t) : ExactOn live' k where
  refs p master := by
    rw [hk.refs]
    unfold tally
    congr 1
    ext ⟨t, fd⟩
    simp only [Finset.mem_filter, Finset.mem_product, Finset.mem_univ, and_true]
    constructor
    · rintro ⟨ht, hend⟩
      by_contra hnot
      exact hgone t ht (fun h => hnot ⟨h, hend⟩) ⟨fd, hend.1⟩
    · rintro ⟨ht, hend⟩
      by_contra hnot
      exact hnew t ht (fun h => hnot ⟨h, hend⟩) ⟨fd, hend.1⟩
  free := hk.free

theorem congr_ptys {next : Kernel} (hk : ExactOn live k) (hptys : next.ptys = k.ptys)
    (hslot : next.slot = k.slot) : ExactOn live next := by
  apply hk.congr hptys
  intro t _ fd p master
  rw [hslot]

theorem setFd_same (hk : ExactOn live k) (t : Fin maxTasks) (fd : Fin maxFds)
    (hsame : ∀ p master, IsEndOf p master slot ↔ IsEndOf p master (k.slot t fd)) :
    ExactOn live (k.setFd t fd slot) := by
  have hptys : (k.setFd t fd slot).ptys = k.ptys := rfl
  apply hk.congr hptys
  intro u _ fd' p master
  rw [Kernel.slot_setFd]
  split
  · rename_i heq
    obtain ⟨rfl, rfl⟩ := heq
    exact hsame p master
  · exact Iff.rfl

theorem setFd_none (hk : ExactOn live k) (t : Fin maxTasks) (fd : Fin maxFds)
    (hold : (k.slot t fd).type ≠ .pty) (hnew : slot.type ≠ .pty) :
    ExactOn live (k.setFd t fd slot) :=
  hk.setFd_same t fd fun p master =>
    iff_of_false (not_isEndOf hnew p master) (not_isEndOf hold p master)

theorem setFd_outside (hk : ExactOn live k) (ht : t ∉ live) (fd : Fin maxFds) (slot : FdSlot) :
    ExactOn live (k.setFd t fd slot) := by
  have hptys : (k.setFd t fd slot).ptys = k.ptys := rfl
  apply hk.congr hptys
  intro u hu fd' p master
  rw [Kernel.slot_setFd, if_neg]
  rintro ⟨rfl, -⟩
  exact ht hu

theorem used_of_isEndOf (hk : ExactOn live k) (ht : t ∈ live) {master : Bool}
    (hend : IsEndOf p master (k.slot t fd)) : (k.ptys p).used = true := by
  by_contra hnot
  rw [Bool.not_eq_true] at hnot
  have hzero := (hk.free p).mp hnot master
  have hmem : (t, fd) ∈ live ×ˢ (Finset.univ : Finset (Fin maxFds)) :=
    Finset.mem_product.mpr ⟨ht, Finset.mem_univ fd⟩
  have hpos : 0 < tally (live ×ˢ Finset.univ) k.table (IsEndOf p master) :=
    tally_pos hmem hend
  rw [← hk.refs] at hpos
  omega

theorem tally_setFd (live : Finset (Fin maxTasks)) (k : Kernel) (ht : t ∈ live)
    (hold : (k.slot t fd).type ≠ .pty) (hslot : slot.type = .pty) (p : Fin maxPtys)
    (master : Bool) :
    tally (live ×ˢ Finset.univ) (k.setFd t fd slot).table (IsEndOf p master) =
      tally (live ×ˢ Finset.univ) k.table (IsEndOf p master) +
        if slot.pty = p ∧ slot.isUpperEnd = master then 1 else 0 := by
  have hmem : (t, fd) ∈ live ×ˢ (Finset.univ : Finset (Fin maxFds)) :=
    Finset.mem_product.mpr ⟨ht, Finset.mem_univ fd⟩
  have htally := tally_update k.table (IsEndOf p master) hmem slot
  have holdweight : weight (IsEndOf p master) (k.table (t, fd)) = 0 :=
    weight_of_not (not_isEndOf hold p master)
  have hweight : weight (IsEndOf p master) slot =
      if slot.pty = p ∧ slot.isUpperEnd = master then 1 else 0 :=
    if_congr (isEndOf_iff hslot) rfl rfl
  rw [table_setFd]
  omega

theorem openEnd (hk : ExactOn live k) (ht : t ∈ live) (hold : (k.slot t fd).type ≠ .pty)
    (hslot : slot.type = .pty) (hused : (k.ptys slot.pty).used = true) :
    ExactOn live (ptyDupRef (k.setFd t fd slot) slot.pty slot.isUpperEnd) where
  refs p master := by
    have htally := tally_setFd live k ht hold hslot p master
    have htable : (ptyDupRef (k.setFd t fd slot) slot.pty slot.isUpperEnd).table =
        (k.setFd t fd slot).table := by
      unfold Kernel.table
      rw [slot_ptyDupRef]
    have hused' : ((k.setFd t fd slot).ptys slot.pty).used = true := hused
    have hrefs := hk.refs p master
    have hptys : ((k.setFd t fd slot).ptys p).refs master = (k.ptys p).refs master := rfl
    rw [refs_ptyDupRef hused', htable, htally]
    omega
  free p := by
    have hused' : ((k.setFd t fd slot).ptys slot.pty).used = true := hused
    rw [used_ptyDupRef hused']
    by_cases hp : p = slot.pty
    · subst hp
      refine iff_of_false (by simp [hused]) ?_
      intro hzero
      have hone := hzero slot.isUpperEnd
      rw [refs_ptyDupRef hused', if_pos ⟨rfl, rfl⟩] at hone
      omega
    · have hsame : ∀ m, ((ptyDupRef (k.setFd t fd slot) slot.pty slot.isUpperEnd).ptys
          p).refs m = (k.ptys p).refs m := by
        intro m
        rw [refs_ptyDupRef hused', if_neg (fun h => hp h.1.symm)]
        rfl
      simp only [hsame]
      exact hk.free p

theorem closeEnd (hk : ExactOn live k) (ht : t ∈ live) (hold : (k.slot t fd).type = .pty)
    (hslot : slot.type ≠ .pty) :
    ExactOn live ((ptyClose k (k.slot t fd).pty (k.slot t fd).isUpperEnd).setFd t fd slot) := by
  have hused := hk.used_of_isEndOf ht (isEndOf_self hold)
  refine ⟨?_, ?_⟩
  · intro p master
    have hmem : (t, fd) ∈ live ×ˢ (Finset.univ : Finset (Fin maxFds)) :=
      Finset.mem_product.mpr ⟨ht, Finset.mem_univ fd⟩
    have htally := tally_update k.table (IsEndOf p master) hmem slot
    have hnewweight : weight (IsEndOf p master) slot = 0 :=
      weight_of_not (not_isEndOf hslot p master)
    have holdweight : weight (IsEndOf p master) (k.table (t, fd)) =
        if (k.slot t fd).pty = p ∧ (k.slot t fd).isUpperEnd = master then 1 else 0 :=
      if_congr (isEndOf_iff hold) rfl rfl
    have htable : (ptyClose k (k.slot t fd).pty (k.slot t fd).isUpperEnd).table = k.table := by
      unfold Kernel.table
      rw [slot_ptyClose]
    have hptys : ((((ptyClose k (k.slot t fd).pty (k.slot t fd).isUpperEnd).setFd t fd
        slot).ptys p).refs master) = ((ptyClose k (k.slot t fd).pty
          (k.slot t fd).isUpperEnd).ptys p).refs master := rfl
    have hrefs := hk.refs p master
    rw [hnewweight, holdweight] at htally
    rw [hptys, table_setFd, htable]
    by_cases hp : p = (k.slot t fd).pty
    · subst hp
      rw [refs_ptyClose hused]
      simp only [true_and] at htally
      omega
    · rw [ptys_ptyClose_of_ne hp]
      rw [if_neg (fun h => hp h.1.symm)] at htally
      omega
  · intro p
    by_cases hp : p = (k.slot t fd).pty
    · subst hp
      exact used_ptyClose hused _
    · have hsame : ((ptyClose k (k.slot t fd).pty (k.slot t fd).isUpperEnd).setFd t fd
          slot).ptys p = k.ptys p := ptys_ptyClose_of_ne hp _
      rw [hsame]
      exact hk.free p

theorem copyEnd (hk : ExactOn live k) {source target : Fin maxTasks}
    (hsource : source ∈ live) (htarget : target ∈ live) {old new : Fin maxFds}
    (hnew : (k.slot target new).type ≠ .pty) :
    ExactOn live (addSlotRef (k.setFd target new (k.slot source old)) (k.slot source old)) := by
  unfold Tasking.addSlotRef
  split
  · rename_i hpipe
    have hset : ExactOn live (k.setFd target new (k.slot source old)) :=
      hk.setFd_none target new hnew (by simp [hpipe])
    exact hset.congr_ptys rfl rfl
  · rename_i hpty
    exact hk.openEnd htarget hnew hpty (hk.used_of_isEndOf hsource (isEndOf_self hpty))
  · rename_i hpty
    exact hk.setFd_none target new hnew hpty

/-! ### The calls -/

variable {cur : Fin maxTasks}

theorem closeFd (hk : ExactOn live k) (hcur : cur ∈ live) (fd : Fin maxFds) :
    ExactOn live (closeFd k cur fd).1 := by
  unfold Tasking.closeFd
  dsimp only
  split
  · exact hk.setFd_same cur fd fun _ _ => Iff.rfl
  · split
    · rename_i hpipe
      have hold : (k.slot cur fd).type ≠ .pty := by simp [hpipe]
      split
      · exact (hk.setFd_none cur fd hold (by simp)).congr_ptys rfl rfl
      · exact hk.setFd_none cur fd hold (by simp)
    · rename_i hpty
      exact hk.closeEnd hcur hpty (by simp)
    · exact hk.setFd_same cur fd fun _ _ => Iff.rfl

theorem sysClose (hk : ExactOn live k) (hcur : cur ∈ live) (fd : ℤ) :
    ExactOn live (sysClose k cur fd).1 := by
  unfold Tasking.sysClose
  split
  · exact hk.closeFd hcur _
  · exact hk

theorem sysOpen (hk : ExactOn live k) (index node : Option ℕ) :
    ExactOn live (sysOpen k cur index node).kernel := by
  unfold Tasking.sysOpen
  split
  · exact hk
  · split
    · exact hk.setFd_same cur _ fun _ _ => Iff.rfl
    · exact hk.setFd_same cur _ fun _ _ => Iff.rfl
    · exact hk

theorem setPipe (hk : ExactOn live k) (pno : Fin maxPipes) (buf : PipeBuf) :
    ExactOn live (k.setPipe pno buf) := hk.congr_ptys rfl rfl

theorem addPipeRef (hk : ExactOn live k) (pno : Fin maxPipes) (write : Bool) :
    ExactOn live (addPipeRef k pno write) := hk.congr_ptys rfl rfl

theorem sysPipe (hk : ExactOn live k) : ExactOn live (sysPipe k cur).kernel := by
  unfold Tasking.sysPipe
  split
  · exact hk
  · rename_i pno _
    have hpipe := hk.setPipe pno PipeBuf.zero
    dsimp only
    split
    · exact hpipe
    · rename_i rd hrd
      have hrdtype : ((k.setPipe pno PipeBuf.zero).slot cur rd).type ≠ .pty := by
        rw [(allocFd_spec hrd).2.2.2]
        simp
      split
      · simp only [Outcome.failure, Kernel.setFd_setFd]
        exact hpipe.setFd_none cur rd hrdtype (by simp)
      · rename_i wr hwr
        obtain ⟨hne, hwrfree⟩ := allocFd_marked (by simp) hwr
        simp only [Kernel.setFd_setFd]
        apply addPipeRef
        apply addPipeRef
        apply addPipeRef
        apply addPipeRef
        apply setFd_none
        · exact hpipe.setFd_none cur rd hrdtype (by simp [pipeSlot])
        · rw [Kernel.slot_setFd_of_ne _ _ _ hne, hwrfree.2.2.2]
          simp
        · simp [pipeSlot]

theorem setPty_zero (hk : ExactOn live k) {idx : Fin maxPtys}
    (hfree : (k.ptys idx).used = false) : ExactOn live (k.setPty idx Pty.zero) where
  refs p master := by
    have htally := hk.refs p master
    rw [show (k.setPty idx Pty.zero).table = k.table from rfl, ← htally]
    by_cases hp : p = idx
    · subst hp
      rw [(hk.free p).mp hfree master]
      cases master <;> simp [Kernel.setPty, Pty.zero, Pty.refs]
    · simp [Kernel.setPty, hp]
  free p := by
    by_cases hp : p = idx
    · subst hp
      simp [Kernel.setPty, Pty.zero, Pty.refs]
    · simpa [Kernel.setPty, hp] using hk.free p

theorem isUpperEnd_ptyMaster (slot : FdSlot) (idx : Fin maxPtys) :
    (ptySlot slot idx ptyMaster).isUpperEnd = true := by
  change decide (ptyMaster &&& 1 ≠ 0) = true
  decide

theorem isUpperEnd_ptySlave (slot : FdSlot) (idx : Fin maxPtys) :
    (ptySlot slot idx ptySlave).isUpperEnd = false := by
  change decide (ptySlave &&& 1 ≠ 0) = false
  decide

theorem openBoth (hk : ExactOn live k) {cur : Fin maxTasks} (hcur : cur ∈ live)
    {idx : Fin maxPtys} (hunused : (k.ptys idx).used = false) {m s : Fin maxFds}
    {master slave : FdSlot} (hm : (k.slot cur m).type ≠ .pty)
    (hs : ((k.setFd cur m (ptySlot master idx ptyMaster)).slot cur s).type ≠ .pty) :
    ExactOn live (((k.setFd cur m (ptySlot master idx ptyMaster)).setFd cur s
      (ptySlot slave idx ptySlave)).setPty idx ⟨true, 1, 1⟩) where
  refs p b := by
    have hfirst := tally_setFd live k hcur hm (rfl : (ptySlot master idx ptyMaster).type = .pty) p b
    have hsecond := tally_setFd live _ hcur hs (rfl : (ptySlot slave idx ptySlave).type = .pty) p b
    rw [isUpperEnd_ptyMaster, ← hk.refs] at hfirst
    rw [isUpperEnd_ptySlave, hfirst] at hsecond
    have htable : (((k.setFd cur m (ptySlot master idx ptyMaster)).setFd cur s
        (ptySlot slave idx ptySlave)).setPty idx ⟨true, 1, 1⟩).table =
        ((k.setFd cur m (ptySlot master idx ptyMaster)).setFd cur s
          (ptySlot slave idx ptySlave)).table := rfl
    rw [htable, hsecond]
    by_cases hp : p = idx
    · subst hp
      rw [(hk.free p).mp hunused b]
      cases b <;> simp [Kernel.setPty, Pty.refs, ptySlot]
    · have hne : ¬ idx = p := fun h => hp h.symm
      simp [Kernel.setPty, hp, ptySlot, hne, Kernel.setFd, Kernel.setTask]
  free p := by
    by_cases hp : p = idx
    · subst hp
      simp [Kernel.setPty, Pty.refs]
    · simpa [Kernel.setPty, hp] using hk.free p

theorem sysOpenpty (hk : ExactOn live k) (hcur : cur ∈ live) :
    ExactOn live (sysOpenpty k cur).kernel := by
  unfold Tasking.sysOpenpty
  split
  · exact hk
  · rename_i idx hidx
    have hunused : (k.ptys idx).used = false := by
      simpa using Fin.eq_true_of_find?_eq_some hidx
    split
    · exact hk.setPty_zero hunused
    · rename_i m hm
      have hmtype : (k.slot cur m).type ≠ .pty := by simp [(allocFd_spec hm).2.2.2]
      dsimp only
      split
      · simp only [Outcome.failure]
        have hset : ExactOn live ((k.setPty idx Pty.zero).setFd cur m
            { ptySlot (k.slot cur m) idx ptyMaster with type := .vfs }) :=
          (hk.setPty_zero hunused).setFd_none cur m hmtype (by simp)
        have hsame : ((k.setFd cur m (ptySlot (k.slot cur m) idx ptyMaster)).setPty idx
            Pty.zero).setFd cur m { (k.setFd cur m (ptySlot (k.slot cur m) idx
              ptyMaster)).slot cur m with type := .vfs } =
            (k.setPty idx Pty.zero).setFd cur m
              { ptySlot (k.slot cur m) idx ptyMaster with type := .vfs } := by
          rw [Kernel.slot_setFd_self]
          exact Kernel.setFd_setFd (k.setPty idx Pty.zero) cur m _ _
        rw [hsame]
        exact hset
      · rename_i s hs
        obtain ⟨hne, hsfree⟩ := allocFd_marked (by simp [ptySlot]) hs
        have hstype : ((k.setFd cur m (ptySlot (k.slot cur m) idx ptyMaster)).slot cur
            s).type ≠ .pty := by
          rw [Kernel.slot_setFd_of_ne _ _ _ hne, hsfree.2.2.2]
          simp
        exact hk.openBoth hcur hunused hmtype hstype

theorem netSocket (hk : ExactOn live k)
    (hspares : ∀ sock fd, freeSocket k = some sock → toFd sock.val = some fd →
      (k.slot cur fd).type ≠ .pty) : ExactOn live (netSocket k cur).kernel := by
  unfold Tasking.netSocket
  split
  · exact hk
  · rename_i sock hsock
    have hmarked : ExactOn live { k with sockets := update k.sockets sock true } :=
      hk.congr_ptys rfl rfl
    dsimp only
    split
    · rename_i fd hfd
      exact hmarked.setFd_none cur fd (hspares sock fd hsock hfd) (by simp)
    · exact hmarked

theorem netClose (hk : ExactOn live k) (s : ℤ) : ExactOn live (netClose k s) := by
  unfold Tasking.netClose
  split
  · exact hk.congr_ptys rfl rfl
  · exact hk

theorem closeFd_type {k : Kernel} {cur : Fin maxTasks}
    (hspares : 0 < (k.slot cur fd).flags → (k.slot cur fd).type ≠ .pty) :
    ((Tasking.closeFd k cur fd).1.slot cur fd).type ≠ .pty := by
  unfold Tasking.closeFd
  dsimp only
  split
  · rename_i hflags
    rw [Kernel.slot_setFd_self]
    exact hspares hflags
  · split
    · split <;> simp
    · simp
    · rename_i hpty
      rw [Kernel.slot_setFd_self]
      exact hpty

theorem dupOnto (hk : ExactOn live k) (hcur : cur ∈ live) (old : Fin maxFds)
    {new : Fin maxFds}
    (hspares : 0 < (k.slot cur new).flags → (k.slot cur new).type ≠ .pty) :
    ExactOn live (dupOnto k cur old new).kernel := by
  unfold Tasking.dupOnto
  simp only [Kernel.slot_setFd_self]
  split
  · exact (hk.closeFd hcur new).copyEnd hcur hcur (closeFd_type hspares)
  · rename_i hopen
    exact hk.copyEnd hcur hcur fun hpty => hopen (Or.inr (Or.inl hpty))

theorem sysDup2 (hk : ExactOn live k) (hcur : cur ∈ live) (oldfd : ℤ) {newfd : ℤ}
    (hspares : ∀ new, toFd newfd = some new → 0 < (k.slot cur new).flags →
      (k.slot cur new).type ≠ .pty) : ExactOn live (sysDup2 k cur oldfd newfd).kernel := by
  unfold Tasking.sysDup2
  split
  · rename_i old new _ hnew
    split
    · exact hk
    · split
      · exact hk.dupOnto hcur old (hspares new hnew)
      · exact hk
  · exact hk

theorem isUpperEnd_or (x : UInt32) :
    decide ((x ||| oNonblock) &&& 1 ≠ 0) = decide (x &&& 1 ≠ 0) := by
  have hmask : oNonblock.toBitVec &&& 1#32 = 0#32 := by decide
  have hbit : (x ||| oNonblock) &&& 1 = x &&& 1 := by
    apply UInt32.toBitVec_inj.mp
    calc
      (x.toBitVec ||| oNonblock.toBitVec) &&& 1#32
        = (x.toBitVec &&& 1#32) ||| (oNonblock.toBitVec &&& 1#32) :=
          BitVec.and_or_distrib_right
      _ = x.toBitVec &&& 1#32 := by rw [hmask, BitVec.or_zero]
  rw [hbit]

theorem isUpperEnd_and (x : UInt32) :
    decide ((x &&& ~~~oNonblock) &&& 1 ≠ 0) = decide (x &&& 1 ≠ 0) := by
  have hmask : ~~~oNonblock &&& 1 = 1 := by decide
  rw [UInt32.and_assoc, hmask]

/-- `O_NONBLOCK` is another bit than the one that marks the master. -/
theorem fcntlSetFl (hk : ExactOn live k) (fd : ℤ) (arg : UInt32) :
    ExactOn live (fcntlSetFl k cur fd arg) := by
  unfold Tasking.fcntlSetFl
  split
  · exact hk
  · rename_i i _
    dsimp only
    split
    · apply hk.setFd_same
      intro p master
      unfold IsEndOf FdSlot.isUpperEnd
      split
      · rw [isUpperEnd_or]
      · rw [isUpperEnd_and]
    · rename_i htype
      have hold : (k.slot cur i).type ≠ .pty := fun h => htype (Or.inr h)
      split
      · exact hk.setFd_none cur i hold hold
      · exact hk

/-! ### Copying the descriptors of a task -/

theorem dupFds (hk : ExactOn live k) {source target : Fin maxTasks} (hsource : source ∈ live)
    (htarget : target ∈ live) (fds : List (Fin maxFds))
    (hnodup : fds.Nodup) (hbare : ∀ fd ∈ fds, (k.slot target fd).type ≠ .pty) :
    ExactOn live (fds.foldl (dupFd source target) k) := by
  induction fds generalizing k with
  | nil => exact hk
  | cons fd rest ih =>
      obtain ⟨hfd, hrest⟩ := List.nodup_cons.mp hnodup
      rw [List.foldl_cons]
      apply ih (hk.copyEnd hsource htarget (hbare fd List.mem_cons_self)) hrest
      intro other hother
      have hdiff : other ≠ fd := by
        rintro rfl
        exact hfd hother
      rw [slot_addSlotRef, Kernel.slot_setFd_of_ne _ _ _ hdiff]
      exact hbare other (List.mem_cons_of_mem fd hother)

/-! ### Ending a task -/

theorem exitFds (hk : ExactOn live k) (ht : t ∉ live) (fds : List (Fin maxFds)) :
    ExactOn live (fds.foldl (exitFd t) k) := by
  induction fds generalizing k with
  | nil => exact hk
  | cons fd rest ih =>
      rw [List.foldl_cons]
      apply ih
      unfold exitFd
      dsimp only
      split
      · split
        · have hdrop : ExactOn live (dropPipeRef k (k.slot t fd).pipe
              (k.slot t fd).isUpperEnd) := hk.congr_ptys rfl rfl
          exact hdrop.setFd_outside ht fd _
        · exact hk.setFd_outside ht fd _
      · exact hk.setFd_outside ht fd _

end ExactOn

end EigenOS.Tasking
