import EigenOS.Scheduling.Scheduler

/-!
# Consistency of the scheduler

A history remembers where each task left its frame when it last gave the processor up, or
where its creation put one.  As long as every creation still finds its slot free when it ends,
the scheduler agrees with it after every switch: the running task is the current one and is
resumed from the frame it left.
-/

namespace EigenOS.Scheduling

open EigenOS.Signals EigenOS.Transition Function

/-- The processor with the frames that the tasks and the idle loop have left. -/
structure History where
  cpu : Cpu
  left : Slot → ℕ
  idleLeft : ℕ

/-- What a step adds to the frames that were left.  A task that lives in the slot which another
creation fills has left its frame where it was. -/
def Event.left (h : History) : Event → Slot → ℕ
  | .tick rsp _ _ =>
      match h.cpu.kernel.current with
      | some cur => update h.left cur rsp
      | none => h.left
  | .fill slot rsp =>
      if (h.cpu.kernel.tasks slot).state.isLive then h.left else update h.left slot rsp
  | _ => h.left

def Event.idleLeft (h : History) : Event → ℕ
  | .tick rsp _ _ => if h.cpu.kernel.current = none then rsp else h.idleLeft
  | _ => h.idleLeft

def History.next (h : History) (event : Event) : History where
  cpu := event.run h.cpu
  left := event.left h
  idleLeft := event.idleLeft h

def History.withKernel (h : History) (kernel : Kernel) : History :=
  { h with cpu := { h.cpu with kernel } }

/-- The creation that ends finds its slot as it has picked it. -/
def FindsFree (h : History) : Event → Prop
  | .fill slot _ | .abandon slot => (h.cpu.kernel.tasks slot).state = .free
  | _ => True

def History.initial (mem : Memory) (stack idleRsp : ℕ) : History where
  cpu := initTasking mem stack idleRsp
  left _ := 0
  idleLeft := idleRsp

def History.run (h : History) : List Event → List (Event × History)
  | [] => []
  | event :: rest => (event, h.next event) :: (h.next event).run rest

def HistoryStep (h : History) (event : Event) (next : History) : Prop :=
  Possible h.cpu event ∧ h.next event = next

/-- What a switch returns with: the running task is the current one, it is resumed where it
left its frame, and so is every other task that lives later. -/
structure Consistent (h : History) (returned : Option ℕ) : Prop where
  unique : ∀ left right, (h.cpu.kernel.tasks left).state = .running →
    (h.cpu.kernel.tasks right).state = .running → left = right
  running : ∀ slot, (h.cpu.kernel.tasks slot).state = .running →
    h.cpu.kernel.current = some slot
  resumed : ∀ rsp slot, returned = some rsp → h.cpu.kernel.current = some slot →
    (h.cpu.kernel.tasks slot).state = .running ∧ rsp = h.left slot
  idle : ∀ rsp, returned = some rsp → h.cpu.kernel.current = none → rsp = h.idleLeft
  kept : ∀ slot, (h.cpu.kernel.tasks slot).state.isLive = true →
    (h.cpu.kernel.tasks slot).rsp = h.left slot

/-- The stack pointer that a switch returns. -/
def Event.returned (c : Cpu) : Event → Option ℕ
  | .tick rsp now mapped => (c.schedule rsp now mapped).2
  | _ => none

def SwitchesConsistently (h : History) (event : Event) (next : History) : Prop :=
  ∀ rsp now mapped, event = .tick rsp now mapped → Consistent next (event.returned h.cpu)

/-- Every task that lives and does not run keeps the frame it left. -/
def KeepsFrames (h : History) : Prop :=
  ∀ slot, h.cpu.kernel.current ≠ some slot →
    (h.cpu.kernel.tasks slot).state.isLive = true →
      (h.cpu.kernel.tasks slot).rsp = h.left slot

/-! ## The invariant -/

structure Inv (h : History) : Prop where
  running : ∀ slot, (h.cpu.kernel.tasks slot).state = .running →
    h.cpu.kernel.current = some slot
  used : ∀ slot, h.cpu.kernel.current = some slot →
    (h.cpu.kernel.tasks slot).state ≠ .free
  kept : KeepsFrames h
  idle : h.cpu.kernel.current ≠ none → h.cpu.idleRsp = h.idleLeft

variable {slot : Slot}

theorem initTasking_of_ne (mem : Memory) (stack idleRsp : ℕ) (hne : slot ≠ mainSlot) :
    (initTasking mem stack idleRsp).kernel.tasks slot = Task.zero := by
  unfold initTasking
  dsimp only
  rw [update_of_ne hne]

theorem initTasking_main (mem : Memory) (stack idleRsp : ℕ) :
    ((initTasking mem stack idleRsp).kernel.tasks mainSlot).state = .running := by
  unfold initTasking
  dsimp only
  rw [update_self]

theorem inv_initial (mem : Memory) (stack idleRsp : ℕ) :
    Inv (History.initial mem stack idleRsp) := by
  have hmain := initTasking_main mem stack idleRsp
  have hother : ∀ slot, slot ≠ mainSlot →
      ((initTasking mem stack idleRsp).kernel.tasks slot).state = .free := by
    intro slot hne
    rw [initTasking_of_ne mem stack idleRsp hne]
    rfl
  refine ⟨?_, ?_, ?_, fun _ => rfl⟩
  · intro slot hrunning
    by_cases heq : slot = mainSlot
    · rw [heq]
      rfl
    · rw [History.initial, hother slot heq] at hrunning
      cases hrunning
  · intro slot hcurrent
    rw [History.initial, ← Option.some.inj hcurrent, hmain]
    exact nofun
  · intro slot hne hlive
    have hslot : slot ≠ mainSlot := by
      rintro rfl
      exact hne rfl
    rw [History.initial, hother slot hslot] at hlive
    cases hlive

/-- What a step outside the scheduler may do to a task. -/
structure SlotStep (before after : History) (slot : Slot) : Prop where
  running : (after.cpu.kernel.tasks slot).state = .running →
    (before.cpu.kernel.tasks slot).state = .running ∨ before.cpu.kernel.current = some slot
  used : before.cpu.kernel.current = some slot → (after.cpu.kernel.tasks slot).state ≠ .free
  kept : before.cpu.kernel.current ≠ some slot →
    (after.cpu.kernel.tasks slot).state.isLive = true →
      (after.cpu.kernel.tasks slot).rsp = after.left slot

theorem Inv.congr {before after : History} (h : Inv before)
    (hcurrent : after.cpu.kernel.current = before.cpu.kernel.current)
    (hrsp : after.cpu.idleRsp = before.cpu.idleRsp) (hidle : after.idleLeft = before.idleLeft)
    (hslots : ∀ slot, SlotStep before after slot) : Inv after where
  running := by
    intro slot hrunning
    rw [hcurrent]
    rcases (hslots slot).running hrunning with hwas | hcur
    · exact h.running slot hwas
    · exact hcur
  used := by
    intro slot hcur
    rw [hcurrent] at hcur
    exact (hslots slot).used hcur
  kept := by
    intro slot hne hlive
    rw [hcurrent] at hne
    exact (hslots slot).kept hne hlive
  idle := by
    rw [hcurrent, hrsp, hidle]
    exact h.idle

theorem SlotStep.same {before after : History} (h : Inv before)
    (htask : after.cpu.kernel.tasks slot = before.cpu.kernel.tasks slot)
    (hleft : after.left slot = before.left slot) : SlotStep before after slot where
  running := by
    rw [htask]
    exact Or.inl
  used := by
    rw [htask]
    exact h.used slot
  kept := by
    rw [htask, hleft]
    exact h.kept slot

theorem Inv.changeTask {before : History} (h : Inv before) (slot : Slot) (change : Task → Task)
    (left : Slot → ℕ) (hleft : ∀ other, other ≠ slot → left other = before.left other)
    (hslot : SlotStep before
      { before.withKernel (Signals.changeTask before.cpu.kernel slot change) with left } slot) :
    Inv { before.withKernel (Signals.changeTask before.cpu.kernel slot change) with left } := by
  refine h.congr ?_ ?_ ?_ ?_
  · rfl
  · rfl
  · rfl
  intro other
  by_cases heq : other = slot
  · rw [heq]
    exact hslot
  · exact SlotStep.same h (update_of_ne heq _ _) (hleft other heq)

/-- One task changes neither its frame nor, unless it is the current one, what it may do. -/
theorem Inv.changeState {before : History} (h : Inv before) (slot : Slot)
    (change : Task → Task)
    (hrunning : (change (before.cpu.kernel.tasks slot)).state = .running →
      (before.cpu.kernel.tasks slot).state = .running ∨ before.cpu.kernel.current = some slot)
    (hused : before.cpu.kernel.current = some slot →
      (change (before.cpu.kernel.tasks slot)).state ≠ .free)
    (hkept : before.cpu.kernel.current ≠ some slot →
      (change (before.cpu.kernel.tasks slot)).state.isLive = true →
        (before.cpu.kernel.tasks slot).state.isLive = true ∧
          (change (before.cpu.kernel.tasks slot)).rsp = (before.cpu.kernel.tasks slot).rsp) :
    Inv (before.withKernel (Signals.changeTask before.cpu.kernel slot change)) := by
  have hself : (Signals.changeTask before.cpu.kernel slot change).tasks slot =
      change (before.cpu.kernel.tasks slot) := update_self _ _ _
  refine h.changeTask slot change before.left (fun _ _ => rfl) ⟨?_, ?_, ?_⟩
  · unfold History.withKernel
    dsimp only
    rw [hself]
    exact hrunning
  · unfold History.withKernel
    dsimp only
    rw [hself]
    exact hused
  · unfold History.withKernel
    dsimp only
    rw [hself]
    intro hne hlive
    obtain ⟨hwas, hrsp⟩ := hkept hne hlive
    exact hrsp.trans (h.kept slot hne hwas)

theorem Inv.changeCurrent {before : History} (h : Inv before) {change : Task → Task}
    (hused : ∀ cur, before.cpu.kernel.current = some cur →
      (change (before.cpu.kernel.tasks cur)).state ≠ .free) :
    Inv (before.withKernel (Scheduling.changeCurrent before.cpu.kernel change)) := by
  cases hcurrent : before.cpu.kernel.current with
  | none =>
      have hsame : Scheduling.changeCurrent before.cpu.kernel change = before.cpu.kernel := by
        unfold Scheduling.changeCurrent
        simp only [hcurrent]
      rw [hsame]
      exact h
  | some cur =>
      have hchange : Scheduling.changeCurrent before.cpu.kernel change =
          Signals.changeTask before.cpu.kernel cur change := by
        unfold Scheduling.changeCurrent
        simp only [hcurrent]
      rw [hchange]
      apply h.changeState
      · exact fun _ => Or.inr hcurrent
      · exact fun hcur => hused cur hcur
      · exact fun hne => absurd hcurrent hne

/-! ## A switch -/

theorem live_stateAt (k : Kernel) (now : ℕ) (slot : Slot) :
    (stateAt k now slot).isLive = (k.tasks slot).state.isLive := by
  unfold stateAt
  dsimp only
  split_ifs with hrunning hsleeping
  · rw [hrunning.1]
    rfl
  · rw [hsleeping.1]
    rfl
  · rfl

theorem stateAt_ne_running {k : Kernel} (now : ℕ)
    (hrunning : ∀ slot, (k.tasks slot).state = .running → k.current = some slot)
    (slot : Slot) : stateAt k now slot ≠ .running := by
  unfold stateAt
  dsimp only
  split_ifs with hcur hsleeping
  · exact nofun
  · exact nofun
  · exact fun heq => hcur ⟨heq, hrunning slot heq⟩

/-- What a task is after a switch. -/
structure SlotSwitched (k : Kernel) (rsp : ℕ) (after : Kernel) (resumed : Option Slot)
    (slot : Slot) : Prop where
  live : (after.tasks slot).state.isLive = true → (k.tasks slot).state.isLive = true
  rsp : (after.tasks slot).state.isLive = true → (after.tasks slot).rsp = frameLeft k rsp slot
  running : (after.tasks slot).state = .running →
    after.current = some slot ∧ resumed = some slot
  resumed : resumed = some slot →
    after.current = some slot ∧ (after.tasks slot).state = .running
  used : (k.tasks slot).state ≠ .free → (after.tasks slot).state ≠ .free

section Slots

variable {k : Kernel} {rsp now : ℕ} {tasks : Slot → Task} {next : Option Slot} {slots : List Slot}

theorem slotSwitched_of_found
    (hrunning : ∀ slot, (k.tasks slot).state = .running → k.current = some slot)
    (hfound : Found (searched k rsp now).tasks slots tasks next) {after : Kernel}
    {resumed : Option Slot} (hafter : after.tasks slot = tasks slot)
    (hresumed : resumed ≠ some slot) : SlotSwitched k rsp after resumed slot := by
  have hrsp : (tasks slot).rsp = frameLeft k rsp slot :=
    (hfound.rsp slot).trans (searched_rsp k rsp now slot)
  have hstate : (tasks slot).state = stateAt k now slot ∨ (tasks slot).state = .dead := by
    rcases hfound.kept slot with heq | ⟨_, _, heq⟩
    · rw [heq]
      exact Or.inl (searched_state k rsp now slot)
    · rw [heq]
      exact Or.inr rfl
  refine ⟨?_, ?_, ?_, fun heq => absurd heq hresumed, ?_⟩
  · rw [hafter]
    rcases hstate with heq | heq
    · rw [heq, live_stateAt]
      exact fun hlive => hlive
    · rw [heq]
      exact nofun
  · rw [hafter]
    exact fun _ => hrsp
  · rw [hafter]
    rcases hstate with heq | heq
    · rw [heq]
      exact fun hrun => absurd hrun (stateAt_ne_running now hrunning slot)
    · rw [heq]
      exact nofun
  · intro hused
    rw [hafter]
    rcases hstate with heq | heq
    · rw [heq]
      unfold stateAt
      dsimp only
      split_ifs
      · exact nofun
      · exact nofun
      · exact hused
    · rw [heq]
      exact nofun

theorem slotSwitched
    (hrunning : ∀ slot, (k.tasks slot).state = .running → k.current = some slot)
    {mapped : Bool} {after : Kernel} {resumed : Option Slot}
    (h : Switched k rsp now mapped after resumed) (slot : Slot) :
    SlotSwitched k rsp after resumed slot := by
  cases h with
  | idle hfound =>
      exact slotSwitched_of_found hrunning hfound rfl nofun
  | @picked tasks mem next after resumed hfound hdelivered =>
      have hothers : ∀ other, other ≠ next → after.tasks other = tasks other := by
        intro other hne
        rw [hdelivered.others other hne]
        exact update_of_ne hne _ _
      have hresumed : ∀ other, resumed = some other → other = next := by
        intro other hother
        rcases hdelivered.outcome with ⟨hsome, _⟩ | ⟨hnone, _⟩
        · exact Option.some.inj (hother.symm.trans hsome)
        · rw [hnone] at hother
          cases hother
      by_cases heq : slot = next
      · subst heq
        obtain ⟨⟨hready, _⟩, _⟩ := hfound.first slot rfl
        have hlive : (k.tasks slot).state.isLive = true := by
          rw [← live_stateAt k now slot, ← searched_state k rsp now slot, hready]
          rfl
        have hrsp : (tasks slot).rsp = frameLeft k rsp slot :=
          (hfound.rsp slot).trans (searched_rsp k rsp now slot)
        rcases hdelivered.outcome with ⟨hsome, hcurrent, hrun, hsame⟩ | ⟨hnone, hdead, _⟩
        · have hrspNext : (after.tasks slot).rsp = (tasks slot).rsp := by
            rw [hsame]
            dsimp only
            rw [update_self]
          refine ⟨fun _ => hlive, fun _ => hrspNext.trans hrsp, fun _ => ⟨hcurrent, hsome⟩,
            fun _ => ⟨hcurrent, hrun⟩, ?_⟩
          rw [hrun]
          exact nofun
        · refine ⟨fun _ => hlive, ?_, ?_, ?_, ?_⟩
          · rw [hdead]
            exact nofun
          · rw [hdead]
            exact nofun
          · rw [hnone]
            exact nofun
          · rw [hdead]
            exact nofun
      · exact slotSwitched_of_found hrunning hfound (hothers slot heq)
          fun hsome => heq (hresumed slot hsome)

end Slots

variable {h : History}

theorem frameLeft_eq_left (hinv : Inv h) (rsp now : ℕ) (mapped : Bool)
    (hlive : (h.cpu.kernel.tasks slot).state.isLive = true) :
    frameLeft h.cpu.kernel rsp slot = (Event.tick rsp now mapped).left h slot := by
  unfold frameLeft Event.left
  cases hcurrent : h.cpu.kernel.current with
  | none =>
      have hne : h.cpu.kernel.current ≠ some slot := by
        rw [hcurrent]
        exact nofun
      exact (if_neg nofun).trans (hinv.kept slot hne hlive)
  | some cur =>
      dsimp only
      by_cases heq : slot = cur
      · rw [heq, if_pos rfl, update_self]
      · have hne : h.cpu.kernel.current ≠ some slot := by
          rw [hcurrent]
          exact fun hsome => heq (Option.some.inj hsome).symm
        rw [if_neg (fun hsome => heq (Option.some.inj hsome).symm), update_of_ne heq]
        exact hinv.kept slot hne hlive

theorem kernel_tick (h : History) (rsp now : ℕ) (mapped : Bool) :
    (h.next (.tick rsp now mapped)).cpu.kernel =
      (Signals.schedule h.cpu.kernel rsp now mapped).1 := rfl

theorem slotSwitched_tick (hinv : Inv h) (rsp now : ℕ) (mapped : Bool) (slot : Slot) :
    SlotSwitched h.cpu.kernel rsp (h.next (.tick rsp now mapped)).cpu.kernel
      (Signals.schedule h.cpu.kernel rsp now mapped).2 slot := by
  rw [kernel_tick]
  exact slotSwitched hinv.running (schedule_switched h.cpu.kernel rsp now mapped) slot

theorem kept_tick (hinv : Inv h) (rsp now : ℕ) (mapped : Bool) (slot : Slot)
    (hlive : ((h.next (.tick rsp now mapped)).cpu.kernel.tasks slot).state.isLive = true) :
    ((h.next (.tick rsp now mapped)).cpu.kernel.tasks slot).rsp =
      (h.next (.tick rsp now mapped)).left slot := by
  have hslot := slotSwitched_tick hinv rsp now mapped slot
  exact (hslot.rsp hlive).trans (frameLeft_eq_left hinv rsp now mapped (hslot.live hlive))

theorem idleRsp_tick (hinv : Inv h) (rsp now : ℕ) (mapped : Bool) :
    (h.next (.tick rsp now mapped)).cpu.idleRsp = (h.next (.tick rsp now mapped)).idleLeft := by
  have hboth : (if h.cpu.kernel.current = none then rsp else h.cpu.idleRsp) =
      if h.cpu.kernel.current = none then rsp else h.idleLeft := by
    by_cases hnone : h.cpu.kernel.current = none
    · rw [if_pos hnone, if_pos hnone]
    · rw [if_neg hnone, if_neg hnone]
      exact hinv.idle hnone
  exact hboth

theorem used_tick (h : History) (rsp now : ℕ) (mapped : Bool) (slot : Slot)
    (hcurrent : (h.next (.tick rsp now mapped)).cpu.kernel.current = some slot) :
    ((h.next (.tick rsp now mapped)).cpu.kernel.tasks slot).state ≠ .free := by
  have hswitched := schedule_switched h.cpu.kernel rsp now mapped
  rw [kernel_tick] at hcurrent ⊢
  generalize Signals.schedule h.cpu.kernel rsp now mapped = switched at hswitched hcurrent
  obtain ⟨after, resumed⟩ := switched
  cases hswitched with
  | idle hfound => cases hcurrent
  | @picked tasks mem next _ _ hfound hdelivered =>
      rcases hdelivered.outcome with ⟨_, hcur, hrun, _⟩ | ⟨_, hdead, hcur | hcur⟩
      · rw [hcur] at hcurrent
        rw [← Option.some.inj hcurrent, hrun]
        exact nofun
      · rw [hcur] at hcurrent
        rw [← Option.some.inj hcurrent, hdead]
        exact nofun
      · rw [hcur] at hcurrent
        cases hcurrent

theorem inv_tick (hinv : Inv h) (rsp now : ℕ) (mapped : Bool) :
    Inv (h.next (.tick rsp now mapped)) where
  running := fun slot hrunning =>
    ((slotSwitched_tick hinv rsp now mapped slot).running hrunning).1
  used := used_tick h rsp now mapped
  kept := fun slot _ hlive => kept_tick hinv rsp now mapped slot hlive
  idle := fun _ => idleRsp_tick hinv rsp now mapped

/-- The stack pointer that is returned is that of the task that is resumed, or of the idle
loop. -/
theorem schedule_returned {c : Cpu} {rsp now : ℕ} {mapped : Bool} {returned : ℕ}
    (h : (c.schedule rsp now mapped).2 = some returned) :
    (∃ slot, (Signals.schedule c.kernel rsp now mapped).2 = some slot ∧
      returned = ((c.schedule rsp now mapped).1.kernel.tasks slot).rsp) ∨
    ((Signals.schedule c.kernel rsp now mapped).2 = none ∧
      (c.schedule rsp now mapped).1.kernel.current = none ∧
      returned = (c.schedule rsp now mapped).1.idleRsp) := by
  unfold Cpu.schedule at h ⊢
  dsimp only at h ⊢
  cases hresumed : (Signals.schedule c.kernel rsp now mapped).2 with
  | some slot =>
      rw [hresumed] at h
      exact Or.inl ⟨slot, rfl, (Option.some.inj h).symm⟩
  | none =>
      rw [hresumed] at h
      by_cases hnone : (Signals.schedule c.kernel rsp now mapped).1.current = none
      · dsimp only at h
        rw [if_pos hnone] at h
        exact Or.inr ⟨rfl, hnone, (Option.some.inj h).symm⟩
      · dsimp only at h
        rw [if_neg hnone] at h
        cases h

theorem consistent_tick (hinv : Inv h) (rsp now : ℕ) (mapped : Bool) :
    Consistent (h.next (.tick rsp now mapped)) (h.cpu.schedule rsp now mapped).2 := by
  have hslot := slotSwitched_tick hinv rsp now mapped
  refine ⟨?_, fun slot hrunning => ((hslot slot).running hrunning).1, ?_, ?_,
    kept_tick hinv rsp now mapped⟩
  · intro left right hleft hright
    have hboth := ((hslot left).running hleft).1.symm.trans ((hslot right).running hright).1
    exact Option.some.inj hboth
  · intro returned slot hreturned hcurrent
    rcases schedule_returned hreturned with ⟨other, hresumed, hrsp⟩ | ⟨_, hnone, _⟩
    · obtain ⟨hcur, hrun⟩ := (hslot other).resumed hresumed
      have heq : other = slot := Option.some.inj (hcur.symm.trans hcurrent)
      rw [← heq]
      refine ⟨hrun, hrsp.trans ?_⟩
      apply kept_tick hinv rsp now mapped other
      rw [hrun]
      rfl
    · have hboth : (none : Option Slot) = some slot := hnone.symm.trans hcurrent
      cases hboth
  · intro returned hreturned hcurrent
    rcases schedule_returned hreturned with ⟨other, hresumed, _⟩ | ⟨_, _, hrsp⟩
    · have hboth := ((hslot other).resumed hresumed).1
      rw [hcurrent] at hboth
      cases hboth
    · exact hrsp.trans (idleRsp_tick hinv rsp now mapped)

/-! ## The other steps -/

theorem Inv.withPicks (hinv : Inv h) (picks : List Slot) :
    Inv { h with cpu := { h.cpu with picks } } :=
  ⟨hinv.running, hinv.used, hinv.kept, hinv.idle⟩

theorem inv_prepare (hinv : Inv h) (slot : Slot) (ring : Ring) (stack : ℕ) (clears : Bool) :
    Inv (h.next (.prepare slot ring stack clears)) :=
  hinv.changeState slot (fun t => { newTask t ring stack t.rsp clears with state := t.state })
    Or.inl (hinv.used slot) fun _ hlive => ⟨hlive, rfl⟩

theorem inv_fill (hinv : Inv h) {rsp : ℕ} (hfree : (h.cpu.kernel.tasks slot).state = .free) :
    Inv (h.next (.fill slot rsp)) := by
  have hself : (changeTask h.cpu.kernel slot fun t =>
      { t with rsp := rsp, state := .ready }).tasks slot =
        { h.cpu.kernel.tasks slot with rsp := rsp, state := .ready } := update_self _ _ _
  have hleft : (Event.fill slot rsp).left h = update h.left slot rsp := by
    unfold Event.left
    dsimp only
    rw [hfree]
    rfl
  unfold History.next
  rw [hleft]
  refine (hinv.changeTask slot (fun t => { t with rsp := rsp, state := .ready })
    (update h.left slot rsp) (fun other hne => update_of_ne hne _ _) ⟨?_, ?_, ?_⟩).withPicks _
  · unfold History.withKernel
    dsimp only
    rw [hself]
    exact nofun
  · exact fun hcurrent => absurd hfree (hinv.used slot hcurrent)
  · unfold History.withKernel
    dsimp only
    rw [hself, update_self]
    exact fun _ _ => rfl

theorem inv_abandon (hinv : Inv h) (hfree : (h.cpu.kernel.tasks slot).state = .free) :
    Inv (h.next (.abandon slot)) := by
  refine (hinv.changeState slot (fun t => { t with state := .free }) ?_ ?_ ?_).withPicks _
  · exact nofun
  · exact fun hcurrent => absurd hfree (hinv.used slot hcurrent)
  · exact nofun

theorem inv_kill (hinv : Inv h) (slot : Slot) (sig : Signal) : Inv (h.next (.kill slot sig)) := by
  let t := h.cpu.kernel.tasks slot
  have hnext : h.next (.kill slot sig) =
      h.withKernel (sendSignal h.cpu.kernel slot sig) := rfl
  rw [hnext]
  by_cases hgone : sig.val = 0 ∨ t.state = .free ∨ t.state = .dead
  · have hsame : sendSignal h.cpu.kernel slot sig = h.cpu.kernel := by
      unfold sendSignal
      exact if_pos hgone
    rw [hsame]
    exact hinv
  · have hchange : sendSignal h.cpu.kernel slot sig = changeTask h.cpu.kernel slot fun t =>
        { t with sigPending := update t.sigPending sig true } := by
      unfold sendSignal
      exact if_neg hgone
    rw [hchange]
    exact hinv.changeState slot _ Or.inl (hinv.used slot) fun _ hlive => ⟨hlive, rfl⟩

theorem inv_exit (hinv : Inv h) (code : ℤ) : Inv (h.next (.exit code)) := by
  have hnext : h.next (.exit code) = h.withKernel (exitTask h.cpu.kernel code) := rfl
  rw [hnext]
  by_cases hmain : h.cpu.kernel.current = some mainSlot
  · have hsame : exitTask h.cpu.kernel code = h.cpu.kernel := if_pos hmain
    rw [hsame]
    exact hinv
  · have hchange : exitTask h.cpu.kernel code = changeCurrent h.cpu.kernel fun t =>
        { t with state := .dead, exitCode := code, kernelStackBase := 0, rsp := 0 } :=
      if_neg hmain
    rw [hchange]
    exact hinv.changeCurrent nofun

theorem inv_killGroup (hinv : Inv h) (member : Slot → Bool) : Inv (h.next (.killGroup member)) := by
  refine hinv.congr ?_ ?_ ?_ ?_
  · rfl
  · rfl
  · rfl
  intro slot
  let t := h.cpu.kernel.tasks slot
  have hslot : (h.next (.killGroup member)).cpu.kernel.tasks slot =
      if 1 ≤ slot.val ∧ t.state ≠ .free ∧ member slot then { t with state := .dead }
      else t := rfl
  by_cases hmember : 1 ≤ slot.val ∧ t.state ≠ .free ∧ member slot
  · rw [if_pos hmember] at hslot
    refine ⟨?_, ?_, ?_⟩
    · rw [hslot]
      exact nofun
    · rw [hslot]
      exact nofun
    · rw [hslot]
      exact nofun
  · rw [if_neg hmember] at hslot
    exact SlotStep.same hinv hslot rfl

theorem inv_wake (hinv : Inv h) (slot : Slot) : Inv (h.next (.wake slot)) := by
  apply hinv.changeState
  · split
    · exact nofun
    · exact Or.inl
  · intro hcurrent
    split
    · exact nofun
    · exact hinv.used slot hcurrent
  · intro _
    split
    · rename_i hsleeping
      rw [hsleeping]
      exact fun _ => ⟨rfl, rfl⟩
    · exact fun hlive => ⟨hlive, rfl⟩

theorem inv_next (hinv : Inv h) {event : Event} (hpossible : Possible h.cpu event)
    (hfinds : FindsFree h event) : Inv (h.next event) := by
  cases event with
  | tick rsp now mapped => exact inv_tick hinv rsp now mapped
  | pick slot => exact hinv.withPicks _
  | prepare slot ring stack clears => exact inv_prepare hinv slot ring stack clears
  | fill slot rsp => exact inv_fill hinv hfinds
  | abandon slot => exact inv_abandon hinv hfinds
  | kill slot sig => exact inv_kill hinv slot sig
  | sigaction sig handler => exact hinv.changeCurrent hinv.used
  | sigreturn => exact hinv.changeCurrent hinv.used
  | sleep deadline => exact hinv.changeCurrent nofun
  | backOut => exact hinv.changeCurrent nofun
  | wake slot => exact inv_wake hinv slot
  | execve => exact hinv.changeCurrent nofun
  | exit code => exact inv_exit hinv code
  | killGroup member => exact inv_killGroup hinv member
  | reap slot =>
      refine hinv.changeState slot (fun t => { t with state := .free }) ?_ ?_ ?_
      · exact nofun
      · exact fun hcurrent => absurd hcurrent hpossible
      · exact nofun

/-! ## Runs -/

/-- In every run from the start of tasking whose creations find their slots free when they end,
every switch is consistent, and in every state every task that waits keeps the frame it left. -/
theorem scheduler_consistent (mem : Memory) (stack idleRsp : ℕ) (run : List (Event × History))
    (hrun : Along HistoryStep (History.initial mem stack idleRsp) run)
    (hfinds : Along (fun h event _ => FindsFree h event) (History.initial mem stack idleRsp) run) :
    Along SwitchesConsistently (History.initial mem stack idleRsp) run ∧
      Always KeepsFrames (History.initial mem stack idleRsp) run := by
  have hstart := inv_initial mem stack idleRsp
  have hstep : ∀ (h : History) event next, Inv h → FindsFree h event →
      HistoryStep h event next → Inv next ∧ SwitchesConsistently h event next := by
    rintro h event _ hinv hfree ⟨hpossible, rfl⟩
    refine ⟨inv_next hinv hpossible hfree, ?_⟩
    rintro rsp now mapped rfl
    exact consistent_tick hinv rsp now mapped
  constructor
  · exact along_of_guarded Inv hstep hstart hrun hfinds
  · have hinv : Always Inv (History.initial mem stack idleRsp) run :=
      always_of_guarded Inv (fun h event next hinv hfree hnext =>
        (hstep h event next hinv hfree hnext).1) hstart hrun hfinds
    exact hinv.mono fun _ h => h.kept

/-- The main task gives the processor up to a task it has created. -/
theorem scheduler_consistent_switch :
    let start := History.initial (fun _ => 0) 8 16
    let events : List Event := creation ⟨1, by decide⟩ .ring0 24 kernelBase ++
      [.tick (kernelBase + 160) 1 true]
    Along SwitchesConsistently start (start.run events) ∧
      Always KeepsFrames start (start.run events) :=
  scheduler_consistent (fun _ => 0) 8 16 _
    ⟨⟨by decide +kernel, rfl⟩, ⟨by decide +kernel, rfl⟩, ⟨by decide +kernel, rfl⟩,
      ⟨trivial, rfl⟩, trivial⟩
    ⟨trivial, trivial, rfl, trivial, trivial⟩

/-- The main task is interrupted while it creates a task in the second slot.  The task in the
first slot forks into the same one, and the main task goes on over the child that waits there. -/
theorem not_consistent_overlap :
    let start := History.initial (fun _ => 0) 8 16
    let events : List Event := creation ⟨1, by decide⟩ .ring3 24 kernelBase ++
      [.pick ⟨2, by decide⟩, .tick (kernelBase + 160) 1 true] ++
      creation ⟨2, by decide⟩ .ring3 40 (kernelBase + 320) ++
      [.tick (kernelBase + 480) 2 true, .tick (kernelBase + 640) 3 true,
        .prepare ⟨2, by decide⟩ .ring0 56 false, .fill ⟨2, by decide⟩ (kernelBase + 800)]
    Along HistoryStep start (start.run events) ∧
      ¬ (Along SwitchesConsistently start (start.run events) ∧
        Always KeepsFrames start (start.run events)) := by
  refine ⟨?_, ?_⟩
  · refine ⟨⟨?_, rfl⟩, ⟨?_, rfl⟩, ⟨?_, rfl⟩, ⟨?_, rfl⟩, ⟨trivial, rfl⟩, ⟨?_, rfl⟩, ⟨?_, rfl⟩,
      ⟨?_, rfl⟩, ⟨trivial, rfl⟩, ⟨trivial, rfl⟩, ⟨?_, rfl⟩, ⟨?_, rfl⟩, trivial⟩
    all_goals decide +kernel
  · rintro ⟨_, hkeeps⟩
    have hlast := hkeeps.2.2.2.2.2.2.2.2.2.2.2.2.start ⟨2, by decide⟩ (by decide +kernel)
      (by decide +kernel)
    revert hlast
    decide +kernel

end EigenOS.Scheduling
