import Mathlib.Tactic.Ring
import EigenOS.Scheduling.Futex

/-!
# Futex accounting

A ledger keeps an entry for every wait that has not returned: whether a wake has counted it
and whether its deadline was passed before.  What the calls return, and which tasks a wake
makes runnable, agrees with the ledger in every run.
-/

namespace EigenOS.Scheduling.Futex

open EigenOS.Signals EigenOS.Transition Function

/-- A wait that has not returned. -/
structure Wait where
  addr : UInt64
  deadline : ℕ
  /-- How many wakes have counted it. -/
  wakes : ℕ
  /-- The deadline was passed at a tick, before a wake. -/
  expired : Bool

/-- Neither woken nor timed out. -/
def Wait.IsOpen (w : Wait) : Prop := w.wakes = 0 ∧ w.expired = false

def Wait.expire (now : ℕ) (w : Wait) : Wait :=
  if w.wakes = 0 ∧ w.deadline ≤ now then { w with expired := true } else w

structure Ledger where
  state : State
  waits : Slot → Option Wait

/-- The call is not refused. -/
def Accepted (s : State) (cur : Slot) (addr : UInt64) : Prop :=
  (s.kernel.tasks cur).ring = .ring3 ∧ userPtrOk addr = true

instance (s : State) (cur : Slot) (addr : UInt64) : Decidable (Accepted s cur addr) :=
  inferInstanceAs (Decidable (_ ∧ _))

/-- The wait that an event starts: the word holds the expected value. -/
def Event.registers (s : State) : Event → Option (Slot × Wait)
  | .futex op addr val timeoutMs _ _ =>
      match s.caller with
      | some cur =>
          if Accepted s cur addr ∧ op = 0 ∧ s.word (s.group cur) addr = val.toUInt32 then
            some (cur, ⟨addr, waitDeadline s timeoutMs, 0, false⟩)
          else none
      | none => none
  | _ => none

def Event.ticks (s : State) : Event → Bool
  | .tick _ _ => true
  | .sleep _ _ _ => s.caller.isSome
  | .futex op addr val timeoutMs rsp mapped =>
      (Event.registers s (.futex op addr val timeoutMs rsp mapped)).isSome
  | .store _ _ => false

/-- The event is a wake by a task of the group. -/
def Event.IsWake (s : State) (cur : Slot) (addr val : UInt64) (event : Event) : Prop :=
  s.caller = some cur ∧ Accepted s cur addr ∧
    ∃ timeoutMs rsp mapped, event = .futex 1 addr val timeoutMs rsp mapped

/-- The time that the tick of an event reads. -/
def tickNow (s : State) : ℕ := (s.timerTicks + 1).toUInt32.toNat

def MadeRunnable (before after : State) (slot : Slot) : Prop :=
  (before.kernel.tasks slot).state ≠ .ready ∧ (after.kernel.tasks slot).state = .ready

instance (before after : State) : DecidablePred (MadeRunnable before after) :=
  fun _ => inferInstanceAs (Decidable (_ ∧ _))

def Ledger.registered (l : Ledger) (event : Event) : Slot → Option Wait :=
  match event.registers l.state with
  | some (cur, w) => update l.waits cur (some w)
  | none => l.waits

/-- The waits at the end of an event, with the one that returns in it. -/
def Ledger.pending (l : Ledger) (event : Event) (slot : Slot) : Option Wait :=
  if event.ticks l.state then (l.registered event slot).map (Wait.expire (tickNow l.state))
  else (l.registered event slot).map fun w =>
    if MadeRunnable l.state (event.run l.state).1 slot then { w with wakes := w.wakes + 1 }
    else w

def Ledger.next (l : Ledger) (event : Event) : Ledger where
  state := (event.run l.state).1
  waits slot :=
    if event.ticks l.state ∧ (event.run l.state).2.map Prod.fst = some slot then none
    else l.pending event slot

def Ledger.run (l : Ledger) : List Event → List (Event × Ledger)
  | [] => []
  | event :: rest => (event, l.next event) :: (l.next event).run rest

def LedgerStep (l : Ledger) (event : Event) (next : Ledger) : Prop := l.next event = next

/-- The task waits on the address, in the group. -/
def Ledger.WaitsOn (l : Ledger) (addr : UInt64) (g : ℤ) (slot : Slot) : Prop :=
  (∃ w, l.waits slot = some w ∧ w.IsOpen ∧ w.addr = addr) ∧ l.state.group slot = g

/-- A set of tasks has a number of members. -/
def Counts (p : Slot → Prop) (n : ℤ) : Prop :=
  ∃ members : Finset Slot, (∀ slot, slot ∈ members ↔ p slot) ∧ (members.card : ℤ) = n

/-- What a wake with a count of at least one returns and does. -/
def WakesExactly (l : Ledger) (event : Event) (next : Ledger) : Prop :=
  ∀ cur addr val, event.IsWake l.state cur addr val → 0 < l.state.group cur →
    1 ≤ val.toUInt32.toInt32.toInt →
    ∃ waiting, Counts (l.WaitsOn addr (l.state.group cur)) waiting ∧
      (event.run l.state).2 = some (cur, min val.toUInt32.toInt32.toInt waiting) ∧
      Counts (MadeRunnable l.state next.state) (min val.toUInt32.toInt32.toInt waiting) ∧
      ∀ slot, MadeRunnable l.state next.state slot → l.WaitsOn addr (l.state.group cur) slot

/-- A wait is the call that returns in the event: at once, since the word differs, or after
it has slept. -/
def WaitsReturnRightly (l : Ledger) (event : Event) : Prop :=
  (∀ cur addr val timeoutMs rsp mapped, event = .futex 0 addr val timeoutMs rsp mapped →
    l.state.caller = some cur → Accepted l.state cur addr →
      l.state.word (l.state.group cur) addr ≠ val.toUInt32 →
        (event.run l.state).2 = some (cur, 0)) ∧
  (event.ticks l.state = true → ∀ slot result, (event.run l.state).2 = some (slot, result) →
    ∃ w, l.pending event slot = some w ∧ (result = 0 ∨ result = 1) ∧
      (result = 0 ↔ 0 < w.wakes) ∧ (result = 1 ↔ w.expired = true))

def AccountsExactly (l : Ledger) (event : Event) (next : Ledger) : Prop :=
  WakesExactly l event next ∧ WaitsReturnRightly l event

def CountedOnce (l : Ledger) : Prop := ∀ slot w, l.waits slot = some w → w.wakes ≤ 1

/-- Nothing waits yet, and the main task is a kernel task. -/
structure Fresh (s : State) : Prop where
  addr : ∀ slot, s.futexAddr slot = 0
  inWait : ∀ slot, s.inWait slot = none
  main : (s.kernel.tasks mainSlot).ring = .ring0

/-! ## The invariant -/

/-- What an entry of the ledger says about the task. -/
inductive Recorded (t : Task) (futexAddr : UInt64) (w : Wait) : Prop
  | sleeping (hopen : w.IsOpen) (hstate : t.state = .sleeping) (haddr : futexAddr = w.addr)
      (hdeadline : t.sleepUntil = w.deadline)
  | woken (hwakes : w.wakes = 1) (hexpired : w.expired = false) (hstate : t.state ≠ .sleeping)
      (haddr : futexAddr = 0)
  | timedOut (hwakes : w.wakes = 0) (hexpired : w.expired = true) (hstate : t.state ≠ .sleeping)
      (haddr : futexAddr = w.addr)

structure SlotInv (s : State) (slot : Slot) (entry : Option Wait) : Prop where
  free : entry = none → s.inWait slot = none ∧ s.futexAddr slot = 0
  taken : ∀ w, entry = some w → s.inWait slot = some w.addr ∧ w.addr ≠ 0 ∧ slot ≠ mainSlot ∧
    Recorded (s.kernel.tasks slot) (s.futexAddr slot) w

structure Inv (l : Ledger) : Prop where
  slots : ∀ slot, SlotInv l.state slot (l.waits slot)
  caller : ∀ cur, l.state.caller = some cur → l.waits cur = none
  main : (l.state.kernel.tasks mainSlot).ring = .ring0

theorem inv_fresh {s : State} (h : Fresh s) : Inv { state := s, waits := fun _ => none } where
  slots slot := ⟨fun _ => ⟨h.inWait slot, h.addr slot⟩, nofun⟩
  caller _ _ := rfl
  main := h.main

theorem Recorded.wakes_le {t : Task} {futexAddr : UInt64} {w : Wait}
    (h : Recorded t futexAddr w) : w.wakes ≤ 1 := by
  cases h with
  | sleeping hopen _ _ _ => exact hopen.1.le.trans (Nat.zero_le 1)
  | woken hwakes _ _ _ => exact hwakes.le
  | timedOut hwakes _ _ _ => exact hwakes.le.trans (Nat.zero_le 1)

theorem Inv.countedOnce {l : Ledger} (h : Inv l) : CountedOnce l := by
  intro slot w hw
  obtain ⟨_, _, _, hrecorded⟩ := (h.slots slot).taken w hw
  exact hrecorded.wakes_le

/-! ## A tick -/

/-- What a switch leaves of a task, as far as sleeping goes. -/
structure SlotScheduled (k : Kernel) (now : ℕ) (after : Kernel) (resumed : Option Slot)
    (slot : Slot) : Prop where
  asleep : stateAt k now slot = .sleeping → (after.tasks slot).state = .sleeping ∧
    (after.tasks slot).sleepUntil = (k.tasks slot).sleepUntil ∧ resumed ≠ some slot
  awake : stateAt k now slot ≠ .sleeping → (after.tasks slot).state ≠ .sleeping
  resumed : after.current = some slot →
    (after.tasks slot).state = .running ∨ (after.tasks slot).state = .ready →
      resumed = some slot
  ring : (after.tasks slot).ring = (k.tasks slot).ring

variable {resumed : Option Slot} {slot : Slot}

section Tick

variable {k : Kernel} {rsp now : ℕ} {mapped : Bool}

theorem slotScheduled_of_found {tasks : Slot → Task} {slots : List Slot} {next : Option Slot}
    (hfound : Found (searched k rsp now).tasks slots tasks next) {after : Kernel}
    (hafter : after.tasks slot = tasks slot) (hresumed : resumed ≠ some slot)
    (hcurrent : after.current ≠ some slot) : SlotScheduled k now after resumed slot := by
  have hsame : SameTask (k.tasks slot) (tasks slot) :=
    (searched_same k rsp now slot).trans (hfound.same slot)
  have hstate : (tasks slot).state = stateAt k now slot ∨
      (stateAt k now slot = .ready ∧ (tasks slot).state = .dead) := by
    rcases hfound.kept slot with heq | ⟨hready, _, heq⟩
    · rw [heq]
      exact Or.inl (searched_state k rsp now slot)
    · rw [heq]
      exact Or.inr ⟨(searched_state k rsp now slot).symm.trans hready, rfl⟩
  refine ⟨?_, ?_, fun hcur _ => absurd hcur hcurrent, ?_⟩
  · intro hasleep
    rw [hafter]
    refine ⟨?_, hsame.sleepUntil, hresumed⟩
    rcases hstate with heq | ⟨hready, _⟩
    · exact heq.trans hasleep
    · rw [hasleep] at hready
      cases hready
  · intro hawake
    rw [hafter]
    rcases hstate with heq | ⟨_, hdead⟩
    · rw [heq]
      exact hawake
    · rw [hdead]
      exact nofun
  · rw [hafter]
    exact hsame.ring

theorem slotScheduled {after : Kernel} (h : Switched k rsp now mapped after resumed) (slot : Slot) :
    SlotScheduled k now after resumed slot := by
  cases h with
  | idle hfound =>
      exact slotScheduled_of_found hfound rfl nofun nofun
  | @picked tasks mem next after resumed hfound hdelivered =>
      by_cases heq : slot = next
      · subst heq
        obtain ⟨⟨hready, _⟩, _⟩ := hfound.first slot rfl
        have hstate : stateAt k now slot = .ready :=
          (searched_state k rsp now slot).symm.trans hready
        have hsame : SameTask (k.tasks slot) (tasks slot) :=
          (searched_same k rsp now slot).trans (hfound.same slot)
        have hring : (after.tasks slot).ring = (k.tasks slot).ring := by
          rw [hdelivered.ring]
          dsimp only
          rw [update_self]
          exact hsame.ring
        rcases hdelivered.outcome with ⟨hsome, _, hrun, _⟩ | ⟨_, hdead, _⟩
        · refine ⟨?_, ?_, fun _ _ => hsome, hring⟩
          · rw [hstate]
            exact nofun
          · rw [hrun]
            exact nofun
        · refine ⟨?_, ?_, ?_, hring⟩
          · rw [hstate]
            exact nofun
          · rw [hdead]
            exact nofun
          · rw [hdead]
            rintro _ (hlive | hlive)
            · cases hlive
            · cases hlive
      · have hafter : after.tasks slot = tasks slot := by
          rw [hdelivered.others slot heq]
          exact update_of_ne heq _ _
        apply slotScheduled_of_found hfound hafter
        · intro hsome
          rcases hdelivered.outcome with ⟨hnext, _⟩ | ⟨hnone, _⟩
          · exact heq (Option.some.inj (hsome.symm.trans hnext))
          · rw [hnone] at hsome
            cases hsome
        · intro hcurrent
          rcases hdelivered.outcome with ⟨_, hcur, _⟩ | ⟨_, _, hcur | hcur⟩
          · exact heq (Option.some.inj (hcurrent.symm.trans hcur))
          · exact heq (Option.some.inj (hcurrent.symm.trans hcur))
          · rw [hcur] at hcurrent
            cases hcurrent

end Tick

theorem stateAt_of_sleeping (k : Kernel) (now : ℕ) (slot : Slot)
    (hstate : (k.tasks slot).state = .sleeping) :
    stateAt k now slot = if (k.tasks slot).sleepUntil ≤ now then .ready else .sleeping := by
  unfold stateAt
  simp [hstate]

theorem stateAt_ne_sleeping {k : Kernel} {now : ℕ} (hstate : (k.tasks slot).state ≠ .sleeping) :
    stateAt k now slot ≠ .sleeping := by
  unfold stateAt
  dsimp only
  split_ifs with hrunning hsleeping
  · exact nofun
  · exact nofun
  · exact hstate

/-- The search wakes a waiting task exactly when its deadline is passed. -/
theorem recorded_schedule {k after : Kernel} {now : ℕ}
    (hslot : SlotScheduled k now after resumed slot) {futexAddr : UInt64} {w : Wait}
    (h : Recorded (k.tasks slot) futexAddr w) :
    Recorded (after.tasks slot) futexAddr (w.expire now) ∧
      (resumed = some slot → ¬ (w.expire now).IsOpen) := by
  cases h with
  | sleeping hopen hstate haddr hdeadline =>
      have hat := stateAt_of_sleeping k now slot hstate
      rw [hdeadline] at hat
      by_cases hpassed : w.deadline ≤ now
      · rw [if_pos hpassed] at hat
        have hexpire : w.expire now = { w with expired := true } := if_pos ⟨hopen.1, hpassed⟩
        rw [hexpire]
        constructor
        · refine Recorded.timedOut (w := { w with expired := true }) hopen.1 rfl
            (hslot.awake ?_) haddr
          rw [hat]
          exact nofun
        · exact fun _ hstill => Bool.noConfusion hstill.2
      · rw [if_neg hpassed] at hat
        have hexpire : w.expire now = w := if_neg fun hboth => hpassed hboth.2
        obtain ⟨hasleep, huntil, hnot⟩ := hslot.asleep hat
        rw [hexpire]
        exact ⟨Recorded.sleeping hopen hasleep haddr (huntil.trans hdeadline),
          fun hresumed => absurd hresumed hnot⟩
  | woken hwakes hexpired hstate haddr =>
      have hexpire : w.expire now = w := by
        apply if_neg
        rw [hwakes]
        exact fun hboth => absurd hboth.1 one_ne_zero
      rw [hexpire]
      refine ⟨Recorded.woken hwakes hexpired (hslot.awake (stateAt_ne_sleeping hstate)) haddr, ?_⟩
      exact fun _ hstill => one_ne_zero (hwakes.symm.trans hstill.1)
  | timedOut hwakes hexpired hstate haddr =>
      have hsame : w.expire now = w := by
        unfold Wait.expire
        rw [← hexpired]
        split
        · rfl
        · rfl
      rw [hsame]
      refine ⟨Recorded.timedOut hwakes hexpired
        (hslot.awake (stateAt_ne_sleeping hstate)) haddr, ?_⟩
      exact fun _ hstill => Bool.noConfusion (hexpired.symm.trans hstill.2)

theorem Wait.expire_addr (now : ℕ) (w : Wait) : (w.expire now).addr = w.addr := by
  unfold Wait.expire
  split
  · rfl
  · rfl

/-- The ledger at the end of a tick. -/
structure Ticked (waits : Slot → Option Wait) (s : State) (after : State)
    (reply : Option (Slot × ℤ)) : Prop where
  slots : ∀ slot, SlotInv after slot
    (if reply.map Prod.fst = some slot then none
      else (waits slot).map (Wait.expire (tickNow s)))
  caller : ∀ cur, after.caller = some cur →
    reply.map Prod.fst = some cur ∨ waits cur = none
  ring : ∀ slot, (after.kernel.tasks slot).ring = (s.kernel.tasks slot).ring
  group : after.group = s.group
  returned : ∀ slot result, reply = some (slot, result) →
    ∃ w, (waits slot).map (Wait.expire (tickNow s)) = some w ∧ (result = 0 ∨ result = 1) ∧
      (result = 0 ↔ 0 < w.wakes) ∧ (result = 1 ↔ w.expired = true)

theorem caller_eq_some {s : State} {cur : Slot} (h : s.caller = some cur) :
    s.kernel.current = some cur ∧ ((s.kernel.tasks cur).state = .running ∨
      (s.kernel.tasks cur).state = .ready) := by
  unfold State.caller at h
  cases hcurrent : s.kernel.current with
  | none =>
      simp only [hcurrent] at h
      cases h
  | some slot =>
      simp only [hcurrent] at h
      split at h
      · rename_i hstate
        cases h
        exact ⟨rfl, hstate⟩
      · cases h

/-- The table after the search, before a wait returns. -/
def scheduled (s : State) (rsp : ℕ) (mapped : Bool) : State :=
  { s with
    timerTicks := s.timerTicks + 1
    kernel := (Signals.schedule s.kernel rsp (tickNow s) mapped).1 }

theorem irq0_eq (s : State) (rsp : ℕ) (mapped : Bool) :
    irq0 s rsp mapped =
      match (Signals.schedule s.kernel rsp (tickNow s) mapped).2 with
      | some slot => finishWait (scheduled s rsp mapped) slot
      | none => (scheduled s rsp mapped, none) := rfl

theorem slotScheduled_schedule (s : State) (rsp : ℕ) (mapped : Bool) (slot : Slot) :
    SlotScheduled s.kernel (tickNow s) (scheduled s rsp mapped).kernel
      (Signals.schedule s.kernel rsp (tickNow s) mapped).2 slot :=
  slotScheduled (schedule_switched s.kernel rsp (tickNow s) mapped) slot

section Irq

variable {s : State} {rsp : ℕ} {mapped : Bool} {waits : Slot → Option Wait}

theorem slotInv_scheduled (h : SlotInv s slot (waits slot)) :
    SlotInv (scheduled s rsp mapped) slot ((waits slot).map (Wait.expire (tickNow s))) where
  free := by
    intro hnone
    exact h.free (Option.map_eq_none_iff.mp hnone)
  taken := by
    intro after hafter
    obtain ⟨w, hw, rfl⟩ := Option.map_eq_some_iff.mp hafter
    obtain ⟨hin, hne, hmain, hrecorded⟩ := h.taken w hw
    rw [Wait.expire_addr]
    exact ⟨hin, hne, hmain,
      (recorded_schedule (slotScheduled_schedule s rsp mapped slot) hrecorded).1⟩

/-- The resumed task finds `futex_addr` still set exactly when it timed out. -/
theorem finishWait_result (h : SlotInv s slot (waits slot))
    (hresumed : (Signals.schedule s.kernel rsp (tickNow s) mapped).2 = some slot) {w : Wait}
    (hw : waits slot = some w) :
    ∃ result, finishWait (scheduled s rsp mapped) slot =
      ({ scheduled s rsp mapped with
          inWait := update s.inWait slot none
          futexAddr := update s.futexAddr slot 0 }, some (slot, result)) ∧
      (result = 0 ∨ result = 1) ∧ (result = 0 ↔ 0 < (w.expire (tickNow s)).wakes) ∧
      (result = 1 ↔ (w.expire (tickNow s)).expired = true) := by
  obtain ⟨hin, hne, _, hrecorded⟩ := h.taken w hw
  obtain ⟨hafter, hclosed⟩ :=
    recorded_schedule (slotScheduled_schedule s rsp mapped slot) hrecorded
  have hfinish : finishWait (scheduled s rsp mapped) slot =
      if s.futexAddr slot = w.addr then
        ({ scheduled s rsp mapped with
            inWait := update s.inWait slot none
            futexAddr := update s.futexAddr slot 0 }, some (slot, 1))
      else
        ({ scheduled s rsp mapped with
            inWait := update s.inWait slot none }, some (slot, 0)) := by
    unfold finishWait
    have hsame : (scheduled s rsp mapped).inWait slot = some w.addr := hin
    simp only [hsame]
    rfl
  rw [hfinish]
  cases hafter with
  | sleeping hopen _ _ _ => exact absurd hopen (hclosed hresumed)
  | woken hwakes hexpired _ haddr =>
      have hdiffers : ¬ s.futexAddr slot = w.addr := by
        rw [haddr]
        exact fun heq => hne heq.symm
      rw [if_neg hdiffers, hwakes, hexpired]
      have hsame : update s.futexAddr slot 0 = s.futexAddr := by
        rw [← haddr]
        exact update_eq_self _ _
      refine ⟨0, ?_, Or.inl rfl, by decide, by decide⟩
      rw [hsame]
      rfl
  | timedOut hwakes hexpired _ haddr =>
      rw [Wait.expire_addr] at haddr
      rw [if_pos haddr, hwakes, hexpired]
      exact ⟨1, rfl, Or.inr rfl, by decide, by decide⟩

theorem slotInv_of_ne {after : State} {entry : Option Wait} (h : SlotInv s slot entry)
    (htask : after.kernel.tasks slot = s.kernel.tasks slot)
    (hin : after.inWait slot = s.inWait slot) (haddr : after.futexAddr slot = s.futexAddr slot) :
    SlotInv after slot entry where
  free := by
    rw [hin, haddr]
    exact h.free
  taken := by
    rw [htask, hin, haddr]
    exact h.taken

theorem irq0_ticked (h : ∀ slot, SlotInv s slot (waits slot)) :
    Ticked waits s (irq0 s rsp mapped).1 (irq0 s rsp mapped).2 := by
  have hslots : ∀ slot, SlotInv (scheduled s rsp mapped) slot
      ((waits slot).map (Wait.expire (tickNow s))) := fun slot => slotInv_scheduled (h slot)
  have hsched := slotScheduled_schedule s rsp mapped
  rw [irq0_eq]
  cases hresumed : (Signals.schedule s.kernel rsp (tickNow s) mapped).2 with
  | none =>
      refine ⟨?_, ?_, fun slot => (hsched slot).ring, rfl, nofun⟩
      · exact fun slot => hslots slot
      · intro cur hcaller
        obtain ⟨hcurrent, hstate⟩ := caller_eq_some hcaller
        have hsome := (hsched cur).resumed hcurrent hstate
        rw [hresumed] at hsome
        cases hsome
  | some slot =>
      dsimp only
      have honly : ∀ cur, (scheduled s rsp mapped).caller = some cur → cur = slot := by
        intro cur hcaller
        obtain ⟨hcurrent, hstate⟩ := caller_eq_some hcaller
        have hsome := (hsched cur).resumed hcurrent hstate
        exact Option.some.inj (hsome.symm.trans hresumed)
      cases hw : waits slot with
      | none =>
          have hin : (scheduled s rsp mapped).inWait slot = none := ((h slot).free hw).1
          have hfinish : finishWait (scheduled s rsp mapped) slot =
              (scheduled s rsp mapped, none) := by
            unfold finishWait
            simp only [hin]
          rw [hfinish]
          refine ⟨?_, ?_, fun slot => (hsched slot).ring, rfl, nofun⟩
          · exact fun slot => hslots slot
          · intro cur hcaller
            rw [honly cur hcaller]
            exact Or.inr hw
      | some w =>
          obtain ⟨result, hfinish, hcases, hwoken, htimedOut⟩ :=
            finishWait_result (h slot) hresumed hw
          rw [hfinish]
          refine ⟨?_, ?_, fun slot => (hsched slot).ring, rfl, ?_⟩
          · intro other
            dsimp only
            by_cases heq : other = slot
            · rw [heq, Option.map_some, if_pos rfl]
              refine ⟨fun _ => ⟨?_, ?_⟩, nofun⟩
              · exact update_self _ _ _
              · exact update_self _ _ _
            · rw [Option.map_some, if_neg fun hsome => heq (Option.some.inj hsome).symm]
              refine slotInv_of_ne (hslots other) ?_ ?_ ?_
              · rfl
              · exact update_of_ne heq _ _
              · exact update_of_ne heq _ _
          · intro cur hcaller
            have heq : cur = slot := honly cur hcaller
            exact Or.inl (congrArg some heq.symm)
          · intro other returned hreply
            cases hreply
            exact ⟨w.expire (tickNow s), by rw [hw]; rfl, hcases, hwoken, htimedOut⟩

end Irq

/-! ## A wake -/

theorem wakeTasks_part {α : Type} (part : State → α) (woken : α → α) (slot : Slot)
    (hself : ∀ s, part (wakeTask s slot) = woken (part s))
    (hother : ∀ s first, slot ≠ first → part (wakeTask s first) = part s)
    (htwice : ∀ a, woken (woken a) = woken a) (s : State) (slots : List Slot) :
    part (slots.foldl wakeTask s) = if slot ∈ slots then woken (part s) else part s := by
  induction slots generalizing s with
  | nil => rfl
  | cons first rest ih =>
      rw [List.foldl_cons, ih]
      by_cases heq : slot = first
      · rw [← heq, hself, htwice, if_pos List.mem_cons_self]
        split
        · rfl
        · rfl
      · rw [hother s first heq]
        by_cases hrest : slot ∈ rest
        · rw [if_pos hrest, if_pos (List.mem_cons.mpr (Or.inr hrest))]
        · rw [if_neg hrest, if_neg fun hmem => (List.mem_cons.mp hmem).elim heq hrest]

theorem wakeTasks_tasks (s : State) (slots : List Slot) (slot : Slot) :
    (slots.foldl wakeTask s).kernel.tasks slot =
      if slot ∈ slots then { s.kernel.tasks slot with state := .ready }
      else s.kernel.tasks slot :=
  wakeTasks_part (fun s => s.kernel.tasks slot) (fun task => { task with state := .ready }) slot
    (fun _ => update_self _ _ _) (fun _ _ hne => update_of_ne hne _ _)
    (fun _ => rfl) s slots

theorem wakeTasks_futexAddr (s : State) (slots : List Slot) (slot : Slot) :
    (slots.foldl wakeTask s).futexAddr slot = if slot ∈ slots then 0 else s.futexAddr slot :=
  wakeTasks_part (fun s => s.futexAddr slot) (fun _ => 0) slot
    (fun _ => update_self _ _ _) (fun _ _ hne => update_of_ne hne _ _)
    (fun _ => rfl) s slots

theorem wakeTasks_same (s : State) (slots : List Slot) :
    (slots.foldl wakeTask s).kernel.current = s.kernel.current ∧
      (slots.foldl wakeTask s).inWait = s.inWait ∧ (slots.foldl wakeTask s).group = s.group := by
  induction slots generalizing s with
  | nil => exact ⟨rfl, rfl, rfl⟩
  | cons first rest ih => exact ih (wakeTask s first)

variable {addr : UInt64}

theorem wakeLoop_eq {g n : ℤ} {slots : List Slot} (hnodup : slots.Nodup) (woken : ℤ) (s : State) :
    wakeLoop addr g n slots woken s =
      (((slots.filter (Sleeps s addr g)).take (n - woken).toNat).foldl wakeTask s,
        woken + ((slots.filter (Sleeps s addr g)).take (n - woken).toNat).length) := by
  induction slots generalizing woken s with
  | nil =>
      rw [wakeLoop, List.filter_nil, List.take_nil]
      exact Prod.ext rfl (add_zero woken).symm
  | cons slot rest ih =>
      obtain ⟨hnot, hrest⟩ := List.nodup_cons.mp hnodup
      rw [wakeLoop]
      by_cases hmore : woken < n
      · rw [if_pos hmore]
        by_cases hsleeps : Sleeps s addr g slot
        · have hsame : rest.filter (Sleeps (wakeTask s slot) addr g) =
              rest.filter (Sleeps s addr g) := by
            apply List.filter_congr
            intro other hother
            have hne : other ≠ slot := by
              rintro rfl
              exact hnot hother
            have htask : (wakeTask s slot).kernel.tasks other = s.kernel.tasks other :=
              update_of_ne hne _ _
            have haddr : (wakeTask s slot).futexAddr other = s.futexAddr other :=
              update_of_ne hne _ _
            have hgroup : (wakeTask s slot).group = s.group := rfl
            have hiff : Sleeps (wakeTask s slot) addr g other ↔ Sleeps s addr g other := by
              unfold Sleeps
              rw [htask, haddr, hgroup]
            exact decide_eq_decide.mpr hiff
          have hcount : (n - woken).toNat = (n - (woken + 1)).toNat + 1 := by omega
          rw [if_pos hsleeps, ih hrest, hsame, List.filter_cons_of_pos (by simpa using hsleeps),
            hcount, List.take_succ_cons, List.foldl_cons, List.length_cons]
          refine Prod.ext rfl ?_
          push_cast
          ring
        · rw [if_neg hsleeps, ih hrest, List.filter_cons_of_neg (by simpa using hsleeps)]
      · have hzero : (n - woken).toNat = 0 := by omega
        rw [if_neg hmore, hzero, List.take_zero]
        exact Prod.ext rfl (add_zero woken).symm

/-! ## Events that end in a tick -/

theorem inv_of_ticked (l : Ledger) (event : Event) (hticks : event.ticks l.state = true)
    (s : State) (hnow : tickNow s = tickNow l.state)
    (hmain : (s.kernel.tasks mainSlot).ring = .ring0)
    (h : Ticked (l.registered event) s (event.run l.state).1 (event.run l.state).2) :
    Inv (l.next event) ∧ ∀ slot result, (event.run l.state).2 = some (slot, result) →
      ∃ w, l.pending event slot = some w ∧ (result = 0 ∨ result = 1) ∧
        (result = 0 ↔ 0 < w.wakes) ∧ (result = 1 ↔ w.expired = true) := by
  have hpending : ∀ slot, l.pending event slot =
      (l.registered event slot).map (Wait.expire (tickNow s)) := by
    intro slot
    rw [hnow]
    exact if_pos hticks
  have hwaits : ∀ slot, (l.next event).waits slot =
      if (event.run l.state).2.map Prod.fst = some slot then none
      else (l.registered event slot).map (Wait.expire (tickNow s)) := by
    intro slot
    rw [← hpending slot]
    unfold Ledger.next
    simp only [hticks, true_and]
  refine ⟨⟨?_, ?_, ?_⟩, ?_⟩
  · intro slot
    rw [hwaits slot]
    exact h.slots slot
  · intro cur hcaller
    rw [hwaits cur]
    rcases h.caller cur hcaller with hreply | hnone
    · rw [if_pos hreply]
    · rw [hnone]
      split
      · rfl
      · rfl
  · exact (h.ring mainSlot).trans hmain
  · intro slot result hreply
    rw [hpending slot]
    exact h.returned slot result hreply

theorem slotInv_none {s : State} (hin : s.inWait slot = none) (haddr : s.futexAddr slot = 0) :
    SlotInv s slot none :=
  ⟨fun _ => ⟨hin, haddr⟩, nofun⟩

variable {event : Event}

section Steps

variable {l : Ledger} (hinv : Inv l)

include hinv

variable (l) in
theorem slotInv_sleep (cur : Slot) (hcaller : l.state.caller = some cur) (s : State)
    (change : Task → Task) (hkernel : s.kernel = changeTask l.state.kernel cur change)
    (hin : s.inWait = l.state.inWait) (haddr : s.futexAddr = l.state.futexAddr) (slot : Slot) :
    SlotInv s slot (l.waits slot) := by
  by_cases heq : slot = cur
  · rw [heq, hinv.caller cur hcaller]
    obtain ⟨hnone, hzero⟩ := (hinv.slots cur).free (hinv.caller cur hcaller)
    rw [← hin] at hnone
    rw [← haddr] at hzero
    exact slotInv_none hnone hzero
  · refine slotInv_of_ne (hinv.slots slot) ?_ (congrFun hin slot) (congrFun haddr slot)
    rw [hkernel]
    exact update_of_ne heq _ _

theorem ticked_tick (rsp : ℕ) (mapped : Bool) :
    Ticked (l.registered (.tick rsp mapped)) l.state (irq0 l.state rsp mapped).1
      (irq0 l.state rsp mapped).2 :=
  irq0_ticked hinv.slots

variable (l) in
theorem ticked_wait (cur : Slot) (hcaller : l.state.caller = some cur) (addr timeoutMs : UInt64)
    (haccepted : Accepted l.state cur addr) (rsp : ℕ) (mapped : Bool) :
    Ticked
      (update l.waits cur (some ⟨addr, waitDeadline l.state timeoutMs, 0, false⟩))
      { registerWait l.state cur addr timeoutMs with
        inWait := update l.state.inWait cur (some addr) }
      (irq0 { registerWait l.state cur addr timeoutMs with
        inWait := update l.state.inWait cur (some addr) } rsp mapped).1
      (irq0 { registerWait l.state cur addr timeoutMs with
        inWait := update l.state.inWait cur (some addr) } rsp mapped).2 := by
  apply irq0_ticked
  intro slot
  by_cases heq : slot = cur
  · rw [heq, update_self]
    refine ⟨nofun, ?_⟩
    intro w hw
    rw [← Option.some.inj hw]
    refine ⟨update_self _ _ _, ?_, ?_, ?_⟩
    · rintro rfl
      exact absurd haccepted.2 (by decide)
    · rintro rfl
      have hring := haccepted.1
      rw [hinv.main] at hring
      cases hring
    · have htask : (registerWait l.state cur addr timeoutMs).kernel.tasks cur =
          { l.state.kernel.tasks cur with
            sleepUntil := waitDeadline l.state timeoutMs, state := .sleeping } :=
        update_self _ _ _
      apply Recorded.sleeping ⟨rfl, rfl⟩
      · dsimp only
        rw [htask]
      · exact update_self _ _ _
      · dsimp only
        rw [htask]
  · rw [update_of_ne heq]
    refine slotInv_of_ne (hinv.slots slot) ?_ ?_ ?_
    · exact update_of_ne heq _ _
    · exact update_of_ne heq _ _
    · exact update_of_ne heq _ _

/-! ## Events without a tick -/

/-- Exactly the tasks that wait on an address in a group sleep on it. -/
theorem waitsOn_iff (haddr : addr ≠ 0) (g : ℤ) (slot : Slot) :
    l.WaitsOn addr g slot ↔ Sleeps l.state addr g slot := by
  constructor
  · rintro ⟨⟨w, hw, hopen, rfl⟩, hgroup⟩
    obtain ⟨_, _, _, hrecorded⟩ := (hinv.slots slot).taken w hw
    cases hrecorded with
    | sleeping _ hstate hsame _ => exact ⟨hstate, hsame, hgroup⟩
    | woken hwakes _ _ _ => exact absurd (hwakes.symm.trans hopen.1) one_ne_zero
    | timedOut _ hexpired _ _ => exact Bool.noConfusion (hexpired.symm.trans hopen.2)
  · rintro ⟨hstate, hsame, hgroup⟩
    refine ⟨?_, hgroup⟩
    cases hw : l.waits slot with
    | none => exact absurd (hsame.symm.trans ((hinv.slots slot).free hw).2) haddr
    | some w =>
        obtain ⟨_, _, _, hrecorded⟩ := (hinv.slots slot).taken w hw
        cases hrecorded with
        | sleeping hopen _ hrecord _ => exact ⟨w, rfl, hopen, hrecord.symm.trans hsame⟩
        | woken _ _ hawake _ => exact absurd hstate hawake
        | timedOut _ _ hawake _ => exact absurd hstate hawake

theorem sleeper_ne_main (haddr : addr ≠ 0) {g : ℤ} (hsleeps : Sleeps l.state addr g slot) :
    slot ≠ mainSlot := by
  obtain ⟨⟨w, hw, _⟩, _⟩ := (waitsOn_iff hinv haddr g slot).mpr hsleeps
  exact ((hinv.slots slot).taken w hw).2.2.1

/-- What the end of an event without a tick leaves of the ledger. -/
theorem inv_of_slots (hticks : event.ticks l.state = false)
    (hslots : ∀ slot, SlotInv (event.run l.state).1 slot (l.pending event slot))
    (hcaller : ∀ cur, (event.run l.state).1.caller = some cur → l.state.caller = some cur)
    (hregistered : l.registered event = l.waits)
    (hring : ((event.run l.state).1.kernel.tasks mainSlot).ring =
      (l.state.kernel.tasks mainSlot).ring) : Inv (l.next event) := by
  have hwaits : (l.next event).waits = l.pending event := by
    funext slot
    unfold Ledger.next
    simp only [hticks, Bool.false_eq_true, false_and, if_false]
  refine ⟨?_, ?_, hring.trans hinv.main⟩
  · rw [hwaits]
    exact hslots
  · intro cur hcur
    rw [hwaits]
    unfold Ledger.pending
    rw [hticks, hregistered, hinv.caller cur (hcaller cur hcur)]
    rfl

theorem inv_of_unmoved (hticks : event.ticks l.state = false)
    (hregistered : l.registered event = l.waits)
    (hslots : ∀ slot, SlotInv (event.run l.state).1 slot (l.waits slot))
    (hcaller : ∀ cur, (event.run l.state).1.caller = some cur → l.state.caller = some cur)
    (hring : ((event.run l.state).1.kernel.tasks mainSlot).ring =
      (l.state.kernel.tasks mainSlot).ring)
    (hmade : ∀ slot, MadeRunnable l.state (event.run l.state).1 slot → l.waits slot = none) :
    Inv (l.next event) := by
  apply inv_of_slots hinv hticks ?_ hcaller hregistered hring
  intro slot
  have hpending : l.pending event slot = l.waits slot := by
    unfold Ledger.pending
    rw [hticks, hregistered]
    simp only [Bool.false_eq_true, if_false]
    by_cases hrunnable : MadeRunnable l.state (event.run l.state).1 slot
    · rw [hmade slot hrunnable]
      rfl
    · simp only [hrunnable, if_false, Option.map_id']
  rw [hpending]
  exact hslots slot

theorem inv_of_same (hticks : event.ticks l.state = false)
    (hregistered : l.registered event = l.waits) (hsame : (event.run l.state).1 = l.state) :
    Inv (l.next event) := by
  apply inv_of_unmoved hinv hticks hregistered
  · rw [hsame]
    exact hinv.slots
  · rw [hsame]
    exact fun _ hcur => hcur
  · rw [hsame]
  · rw [hsame]
    exact fun _ hmade => absurd hmade.2 hmade.1

end Steps

/-- The tasks that a wake makes runnable. -/
def awoken (s : State) (cur : Slot) (addr val : UInt64) : List Slot :=
  (wakeSlots.filter (Sleeps s addr (if 0 < s.group cur then s.group cur else s.id cur))).take
    (wakeCount val).toNat

theorem futexWake_eq (s : State) (cur : Slot) (addr val : UInt64) :
    futexWake s cur addr val =
      ((awoken s cur addr val).foldl wakeTask s, ((awoken s cur addr val).length : ℤ)) := by
  unfold futexWake
  dsimp only
  rw [wakeLoop_eq (by decide), sub_zero, zero_add]
  rfl

variable {val : UInt64}

theorem sleeps_of_mem_awoken {s : State} {cur : Slot} (hslot : slot ∈ awoken s cur addr val) :
    Sleeps s addr (if 0 < s.group cur then s.group cur else s.id cur) slot := by
  have hmem := List.mem_of_mem_take hslot
  exact of_decide_eq_true (List.mem_filter.mp hmem).2

theorem madeRunnable_awoken (s : State) (cur : Slot) (addr val : UInt64) (slot : Slot) :
    MadeRunnable s ((awoken s cur addr val).foldl wakeTask s) slot ↔
      slot ∈ awoken s cur addr val := by
  unfold MadeRunnable
  rw [wakeTasks_tasks]
  constructor
  · rintro ⟨hbefore, hafter⟩
    by_contra hnot
    rw [if_neg hnot] at hafter
    exact hbefore hafter
  · intro hmem
    rw [if_pos hmem]
    refine ⟨?_, rfl⟩
    rw [(sleeps_of_mem_awoken hmem).1]
    exact nofun

/-- What an accepted wake leaves. -/
structure WakeStep (l : Ledger) (event : Event) (cur : Slot) (addr val : UInt64) : Prop where
  caller : l.state.caller = some cur
  accepted : Accepted l.state cur addr
  ticks : event.ticks l.state = false
  registered : l.registered event = l.waits
  run : event.run l.state =
    ((awoken l.state cur addr val).foldl wakeTask l.state,
      some (cur, ((awoken l.state cur addr val).length : ℤ)))

theorem accepted_ne_zero {s : State} {cur : Slot} (h : Accepted s cur addr) : addr ≠ 0 := by
  rintro rfl
  exact absurd h.2 (by decide)

theorem inv_wake {l : Ledger} (hinv : Inv l) {cur : Slot} (h : WakeStep l event cur addr val) :
    Inv (l.next event) := by
  have hzero := accepted_ne_zero h.accepted
  have htasks := wakeTasks_tasks l.state (awoken l.state cur addr val)
  have haddr := wakeTasks_futexAddr l.state (awoken l.state cur addr val)
  obtain ⟨hcurrent, hin, _⟩ := wakeTasks_same l.state (awoken l.state cur addr val)
  have hafter : (event.run l.state).1 = (awoken l.state cur addr val).foldl wakeTask l.state :=
    congrArg Prod.fst h.run
  apply inv_of_slots hinv h.ticks ?_ ?_ h.registered
  · rw [hafter, htasks]
    split
    · rfl
    · rfl
  · intro slot
    have hpending : l.pending event slot = (l.waits slot).map fun w =>
        if slot ∈ awoken l.state cur addr val then { w with wakes := w.wakes + 1 } else w := by
      unfold Ledger.pending
      rw [h.ticks, h.registered, hafter]
      simp only [Bool.false_eq_true, if_false, madeRunnable_awoken]
    rw [hpending, hafter]
    by_cases hmem : slot ∈ awoken l.state cur addr val
    · have hsleeps := sleeps_of_mem_awoken hmem
      obtain ⟨⟨w, hw, hopen, _⟩, _⟩ := (waitsOn_iff hinv hzero _ slot).mpr hsleeps
      obtain ⟨hwait, hne, hmain, _⟩ := (hinv.slots slot).taken w hw
      rw [hw]
      refine ⟨nofun, ?_⟩
      intro after heq
      rw [Option.map_some, if_pos hmem] at heq
      rw [← Option.some.inj heq, hin, htasks, haddr, if_pos hmem, if_pos hmem]
      refine ⟨hwait, hne, hmain, ?_⟩
      apply Recorded.woken
      · exact congrArg (· + 1) hopen.1
      · exact hopen.2
      · exact nofun
      · rfl
    · simp only [if_neg hmem, Option.map_id']
      refine slotInv_of_ne (hinv.slots slot) ?_ ?_ ?_
      · rw [htasks, if_neg hmem]
      · rw [hin]
      · rw [haddr, if_neg hmem]
  · intro other hother
    obtain ⟨hcur, _⟩ := caller_eq_some hother
    obtain ⟨hwas, _⟩ := caller_eq_some h.caller
    rw [hafter, hcurrent, hwas] at hcur
    rw [h.caller, hcur]

theorem wakesExactly_of_wake {l : Ledger} (hinv : Inv l) {cur : Slot}
    (h : WakeStep l event cur addr val) (hgroup : 0 < l.state.group cur)
    (hcount : 1 ≤ val.toUInt32.toInt32.toInt) :
    ∃ waiting, Counts (l.WaitsOn addr (l.state.group cur)) waiting ∧
      (event.run l.state).2 = some (cur, min val.toUInt32.toInt32.toInt waiting) ∧
      Counts (MadeRunnable l.state (l.next event).state)
        (min val.toUInt32.toInt32.toInt waiting) ∧
      ∀ slot, MadeRunnable l.state (l.next event).state slot →
        l.WaitsOn addr (l.state.group cur) slot := by
  let sleepers := wakeSlots.filter (Sleeps l.state addr (l.state.group cur))
  let n := val.toUInt32.toInt32.toInt
  have hzero := accepted_ne_zero h.accepted
  have hn : wakeCount val = n := if_neg (by omega)
  have hawoken : awoken l.state cur addr val = sleepers.take n.toNat := by
    unfold awoken
    rw [if_pos hgroup, hn]
  have hnodup : sleepers.Nodup := List.Nodup.filter _ (by decide)
  have hlength : ((awoken l.state cur addr val).length : ℤ) = min n sleepers.length := by
    rw [hawoken, List.length_take]
    omega
  have hsleepers : ∀ slot, slot ∈ sleepers ↔ l.WaitsOn addr (l.state.group cur) slot := by
    intro slot
    rw [waitsOn_iff hinv hzero, List.mem_filter]
    constructor
    · exact fun hmem => of_decide_eq_true hmem.2
    · intro hsleeps
      have hall : ∀ slot, slot ≠ mainSlot → slot ∈ wakeSlots := by decide
      exact ⟨hall slot (sleeper_ne_main hinv hzero hsleeps), decide_eq_true hsleeps⟩
  have hnext : (l.next event).state = (awoken l.state cur addr val).foldl wakeTask l.state :=
    congrArg Prod.fst h.run
  refine ⟨sleepers.length, ?_, ?_, ?_, ?_⟩
  · refine ⟨sleepers.toFinset, fun slot => ?_, ?_⟩
    · rw [List.mem_toFinset]
      exact hsleepers slot
    · rw [List.toFinset_card_of_nodup hnodup]
  · rw [h.run, hlength]
  · refine ⟨(awoken l.state cur addr val).toFinset, fun slot => ?_, ?_⟩
    · rw [List.mem_toFinset, hnext]
      exact (madeRunnable_awoken l.state cur addr val slot).symm
    · rw [List.toFinset_card_of_nodup, hlength]
      rw [hawoken]
      exact hnodup.sublist (List.take_sublist _ _)
  · intro slot hmade
    rw [hnext, madeRunnable_awoken, hawoken] at hmade
    exact (hsleepers slot).mp (List.mem_of_mem_take hmade)

/-! ## The system call -/

section Call

variable {l : Ledger} {cur : Slot} (hcaller : l.state.caller = some cur)
  (op addr val timeoutMs : UInt64) (rsp : ℕ) (mapped : Bool)

include hcaller

theorem run_futex : Event.run l.state (.futex op addr val timeoutMs rsp mapped) =
    kSysFutex l.state cur op addr val timeoutMs rsp mapped := by
  unfold Event.run
  simp only [hcaller]

theorem registers_futex : Event.registers l.state (.futex op addr val timeoutMs rsp mapped) =
    if Accepted l.state cur addr ∧ op = 0 ∧
        l.state.word (l.state.group cur) addr = val.toUInt32 then
      some (cur, ⟨addr, waitDeadline l.state timeoutMs, 0, false⟩)
    else none := by
  unfold Event.registers
  simp only [hcaller]

theorem quiet_futex (hnot : ¬ (Accepted l.state cur addr ∧ op = 0 ∧
      l.state.word (l.state.group cur) addr = val.toUInt32)) :
    Event.ticks l.state (.futex op addr val timeoutMs rsp mapped) = false ∧
      l.registered (.futex op addr val timeoutMs rsp mapped) = l.waits := by
  have hnone := registers_futex hcaller op addr val timeoutMs rsp mapped
  rw [if_neg hnot] at hnone
  constructor
  · exact congrArg Option.isSome hnone
  · unfold Ledger.registered
    rw [hnone]

theorem run_accepted (haccepted : Accepted l.state cur addr) :
    Event.run l.state (.futex op addr val timeoutMs rsp mapped) =
      if op = 0 then futexWait l.state cur addr val timeoutMs rsp mapped
      else if op = 1 then
        ((futexWake l.state cur addr val).1, some (cur, (futexWake l.state cur addr val).2))
      else (l.state, some (cur, errInval)) := by
  rw [run_futex hcaller]
  unfold kSysFutex
  rw [if_neg (not_not.mpr haccepted.1), if_neg (not_not.mpr haccepted.2)]

theorem run_refused (hrefused : ¬ Accepted l.state cur addr) :
    Event.run l.state (.futex op addr val timeoutMs rsp mapped) =
      (l.state, some (cur, errInval)) := by
  rw [run_futex hcaller]
  unfold kSysFutex
  by_cases hring : (l.state.kernel.tasks cur).ring = .ring3
  · have hptr : ¬ userPtrOk addr = true := fun hptr => hrefused ⟨hring, hptr⟩
    rw [if_neg (not_not.mpr hring), if_pos hptr]
  · rw [if_pos hring]

theorem wakeStep (haccepted : Accepted l.state cur addr) :
    WakeStep l (.futex 1 addr val timeoutMs rsp mapped) cur addr val := by
  have hquiet := quiet_futex hcaller 1 addr val timeoutMs rsp mapped
    fun hwait => absurd hwait.2.1 (by decide)
  refine ⟨hcaller, haccepted, hquiet.1, hquiet.2, ?_⟩
  rw [run_accepted hcaller 1 addr val timeoutMs rsp mapped haccepted, if_neg (by decide),
    if_pos rfl, futexWake_eq]

theorem run_differs (haccepted : Accepted l.state cur addr)
    (hword : l.state.word (l.state.group cur) addr ≠ val.toUInt32) :
    Event.run l.state (.futex 0 addr val timeoutMs rsp mapped) =
      (backOut (registerWait l.state cur addr timeoutMs) cur, some (cur, 0)) := by
  rw [run_accepted hcaller 0 addr val timeoutMs rsp mapped haccepted, if_pos rfl]
  unfold futexWait
  exact if_pos hword

end Call

theorem backOut_tasks (s : State) (cur : Slot) (addr timeoutMs : UInt64) (slot : Slot) :
    (backOut (registerWait s cur addr timeoutMs) cur).kernel.tasks slot =
      if slot = cur then
        { s.kernel.tasks cur with sleepUntil := waitDeadline s timeoutMs, state := .ready }
      else s.kernel.tasks slot := by
  unfold backOut registerWait changeTask
  dsimp only
  by_cases heq : slot = cur
  · rw [if_pos heq, heq, update_self, update_self]
  · rw [if_neg heq, update_of_ne heq, update_of_ne heq]

theorem inv_differs {l : Ledger} (hinv : Inv l) {cur : Slot}
    (hcaller : l.state.caller = some cur) {addr val timeoutMs : UInt64} {rsp : ℕ} {mapped : Bool}
    (haccepted : Accepted l.state cur addr)
    (hword : l.state.word (l.state.group cur) addr ≠ val.toUInt32) :
    Inv (l.next (.futex 0 addr val timeoutMs rsp mapped)) := by
  have hquiet := quiet_futex hcaller 0 addr val timeoutMs rsp mapped
    fun hwait => hword hwait.2.2
  have hrun := run_differs hcaller addr val timeoutMs rsp mapped haccepted hword
  have hafter := congrArg Prod.fst hrun
  have htasks := backOut_tasks l.state cur addr timeoutMs
  have hnone := hinv.caller cur hcaller
  obtain ⟨hcurrent, _⟩ := caller_eq_some hcaller
  dsimp only at hafter
  apply inv_of_unmoved hinv hquiet.1 hquiet.2
  · intro slot
    rw [hafter]
    by_cases heq : slot = cur
    · rw [heq, hnone]
      refine slotInv_none ?_ ?_
      · exact ((hinv.slots cur).free hnone).1
      · exact update_self _ _ _
    · refine slotInv_of_ne (hinv.slots slot) ?_ rfl ?_
      · rw [htasks, if_neg heq]
      · exact (update_of_ne heq _ _).trans (update_of_ne heq _ _)
  · intro other hother
    obtain ⟨hcur, _⟩ := caller_eq_some hother
    rw [hafter] at hcur
    rw [hcaller]
    exact hcurrent.symm.trans hcur
  · rw [hafter, htasks]
    split
    · rename_i heq
      rw [heq]
    · rfl
  · intro slot hmade
    rw [hafter] at hmade
    by_cases heq : slot = cur
    · rw [heq]
      exact hnone
    · have hstill := hmade.2
      rw [htasks, if_neg heq] at hstill
      exact absurd hstill hmade.1

/-! ## One step -/

/-- The ledger after a step agrees with the table, and a call that returns at the tick of the
step returns what its entry says. -/
def StepAgrees (l : Ledger) (event : Event) : Prop :=
  Inv (l.next event) ∧ (event.ticks l.state = true → ∀ slot result,
    (event.run l.state).2 = some (slot, result) →
      ∃ w, l.pending event slot = some w ∧ (result = 0 ∨ result = 1) ∧
        (result = 0 ↔ 0 < w.wakes) ∧ (result = 1 ↔ w.expired = true))

theorem stepAgrees_quiet {l : Ledger} (hticks : event.ticks l.state = false)
    (hnext : Inv (l.next event)) : StepAgrees l event := by
  refine ⟨hnext, fun htick => ?_⟩
  rw [hticks] at htick
  cases htick

theorem stepAgrees_sleep {l : Ledger} (hinv : Inv l) (ms : UInt32) (rsp : ℕ) (mapped : Bool) :
    StepAgrees l (.sleep ms rsp mapped) := by
  cases hcaller : l.state.caller with
  | none =>
      have hticks : Event.ticks l.state (.sleep ms rsp mapped) = false :=
        congrArg Option.isSome hcaller
      apply stepAgrees_quiet hticks
      apply inv_of_same hinv hticks rfl
      unfold Event.run
      simp only [hcaller]
  | some cur =>
      have hticks : Event.ticks l.state (.sleep ms rsp mapped) = true :=
        congrArg Option.isSome hcaller
      let deadline := (l.state.timerGetMs + ms).toNat
      let asleep : State :=
        { l.state with kernel := changeTask l.state.kernel cur fun t =>
            { t with sleepUntil := deadline, state := .sleeping } }
      have hrun : Event.run l.state (.sleep ms rsp mapped) = irq0 asleep rsp mapped := by
        unfold Event.run
        simp only [hcaller]
        rfl
      have hslots : ∀ slot, SlotInv asleep slot (l.waits slot) :=
        slotInv_sleep l hinv cur hcaller asleep
          (fun t => { t with sleepUntil := deadline, state := .sleeping }) rfl rfl rfl
      have hmain : (asleep.kernel.tasks mainSlot).ring = .ring0 := by
        unfold asleep changeTask
        dsimp only
        by_cases heq : mainSlot = cur
        · rw [← heq, update_self]
          exact hinv.main
        · rw [update_of_ne heq]
          exact hinv.main
      obtain ⟨hnext, hreturned⟩ := inv_of_ticked l (.sleep ms rsp mapped) hticks asleep rfl
        hmain (by rw [hrun]; exact irq0_ticked hslots)
      exact ⟨hnext, fun _ => hreturned⟩

theorem stepAgrees_store {l : Ledger} (hinv : Inv l) (addr : UInt64) (value : UInt32) :
    StepAgrees l (.store addr value) := by
  have hticks : Event.ticks l.state (.store addr value) = false := rfl
  apply stepAgrees_quiet hticks
  cases hcaller : l.state.caller with
  | none =>
      apply inv_of_same hinv hticks rfl
      unfold Event.run
      simp only [hcaller]
  | some cur =>
      have hrun : (Event.run l.state (.store addr value)).1 =
          { l.state with word := fun g a =>
              if g = l.state.group cur ∧ a = addr then value else l.state.word g a } := by
        unfold Event.run
        simp only [hcaller]
      apply inv_of_unmoved hinv hticks rfl
      · intro slot
        rw [hrun]
        exact slotInv_of_ne (hinv.slots slot) rfl rfl rfl
      · intro other hother
        rw [hrun] at hother
        exact hother
      · rw [hrun]
      · rw [hrun]
        exact fun _ hmade => absurd hmade.2 hmade.1

theorem stepAgrees_wait {l : Ledger} (hinv : Inv l) {cur : Slot}
    (hcaller : l.state.caller = some cur) {addr val timeoutMs : UInt64} (rsp : ℕ) (mapped : Bool)
    (haccepted : Accepted l.state cur addr)
    (hword : l.state.word (l.state.group cur) addr = val.toUInt32) :
    StepAgrees l (.futex 0 addr val timeoutMs rsp mapped) := by
  have hregisters := registers_futex hcaller 0 addr val timeoutMs rsp mapped
  rw [if_pos ⟨haccepted, rfl, hword⟩] at hregisters
  have hticks : Event.ticks l.state (.futex 0 addr val timeoutMs rsp mapped) = true :=
    congrArg Option.isSome hregisters
  have hregistered : l.registered (.futex 0 addr val timeoutMs rsp mapped) =
      update l.waits cur (some ⟨addr, waitDeadline l.state timeoutMs, 0, false⟩) := by
    unfold Ledger.registered
    rw [hregisters]
  have hrun := run_accepted hcaller 0 addr val timeoutMs rsp mapped haccepted
  rw [if_pos rfl] at hrun
  have hwait : futexWait l.state cur addr val timeoutMs rsp mapped =
      irq0 { registerWait l.state cur addr timeoutMs with
        inWait := update l.state.inWait cur (some addr) } rsp mapped := by
    unfold futexWait
    exact if_neg (not_not.mpr hword)
  have hticked := ticked_wait l hinv cur hcaller addr timeoutMs haccepted rsp mapped
  rw [← hwait, ← hrun, ← hregistered] at hticked
  have hmain : ((registerWait l.state cur addr timeoutMs).kernel.tasks mainSlot).ring =
      .ring0 := by
    unfold registerWait changeTask
    dsimp only
    by_cases heq : mainSlot = cur
    · rw [← heq, update_self]
      exact hinv.main
    · rw [update_of_ne heq]
      exact hinv.main
  obtain ⟨hnext, hreturned⟩ := inv_of_ticked l _ hticks
    { registerWait l.state cur addr timeoutMs with
      inWait := update l.state.inWait cur (some addr) } rfl hmain hticked
  exact ⟨hnext, fun _ => hreturned⟩

theorem stepAgrees_futex {l : Ledger} (hinv : Inv l) (op addr val timeoutMs : UInt64) (rsp : ℕ)
    (mapped : Bool) : StepAgrees l (.futex op addr val timeoutMs rsp mapped) := by
  cases hcaller : l.state.caller with
  | none =>
      have hregisters : Event.registers l.state (.futex op addr val timeoutMs rsp mapped) =
          none := by
        unfold Event.registers
        simp only [hcaller]
      have hticks : Event.ticks l.state (.futex op addr val timeoutMs rsp mapped) = false :=
        congrArg Option.isSome hregisters
      apply stepAgrees_quiet hticks
      apply inv_of_same hinv hticks
      · unfold Ledger.registered
        rw [hregisters]
      · unfold Event.run
        simp only [hcaller]
  | some cur =>
      by_cases haccepted : Accepted l.state cur addr
      · have hrun := run_accepted hcaller op addr val timeoutMs rsp mapped haccepted
        by_cases hwait : op = 0
        · subst hwait
          by_cases hword : l.state.word (l.state.group cur) addr = val.toUInt32
          · exact stepAgrees_wait hinv hcaller rsp mapped haccepted hword
          · have hquiet := quiet_futex hcaller 0 addr val timeoutMs rsp mapped
              fun hwait => hword hwait.2.2
            exact stepAgrees_quiet hquiet.1 (inv_differs hinv hcaller haccepted hword)
        · have hquiet := quiet_futex hcaller op addr val timeoutMs rsp mapped
            fun hboth => hwait hboth.2.1
          apply stepAgrees_quiet hquiet.1
          by_cases hwake : op = 1
          · subst hwake
            exact inv_wake hinv (wakeStep hcaller addr val timeoutMs rsp mapped haccepted)
          · rw [if_neg hwait, if_neg hwake] at hrun
            exact inv_of_same hinv hquiet.1 hquiet.2 (congrArg Prod.fst hrun)
      · have hquiet := quiet_futex hcaller op addr val timeoutMs rsp mapped
          fun hboth => haccepted hboth.1
        have hrun := run_refused hcaller op addr val timeoutMs rsp mapped haccepted
        apply stepAgrees_quiet hquiet.1
        exact inv_of_same hinv hquiet.1 hquiet.2 (congrArg Prod.fst hrun)

theorem stepAgrees {l : Ledger} (hinv : Inv l) (event : Event) : StepAgrees l event := by
  cases event with
  | tick rsp mapped =>
      obtain ⟨hnext, hreturned⟩ := inv_of_ticked l (.tick rsp mapped) rfl l.state rfl hinv.main
        (ticked_tick hinv rsp mapped)
      exact ⟨hnext, fun _ => hreturned⟩
  | futex op addr val timeoutMs rsp mapped =>
      exact stepAgrees_futex hinv op addr val timeoutMs rsp mapped
  | sleep ms rsp mapped => exact stepAgrees_sleep hinv ms rsp mapped
  | store addr value => exact stepAgrees_store hinv addr value

theorem accountsExactly {l : Ledger} (hinv : Inv l) (event : Event) :
    AccountsExactly l event (l.next event) := by
  refine ⟨?_, ?_, (stepAgrees hinv event).2⟩
  · rintro cur addr val ⟨hcaller, haccepted, timeoutMs, rsp, mapped, rfl⟩ hgroup hcount
    exact wakesExactly_of_wake hinv (wakeStep hcaller addr val timeoutMs rsp mapped haccepted)
      hgroup hcount
  · rintro cur addr val timeoutMs rsp mapped rfl hcaller haccepted hword
    rw [run_differs hcaller addr val timeoutMs rsp mapped haccepted hword]

/-! ## Runs -/

/-- In every run, wakes and waits return what the ledger says, and no wait is counted by two
wakes. -/
theorem futex_accounts (s : State) (hfresh : Fresh s) (run : List (Event × Ledger))
    (hrun : Along LedgerStep { state := s, waits := fun _ => none } run) :
    Along AccountsExactly { state := s, waits := fun _ => none } run ∧
      Always CountedOnce { state := s, waits := fun _ => none } run := by
  have hstart := inv_fresh hfresh
  have hguard : Along (fun _ _ _ => True) { state := s, waits := fun _ => none } run :=
    hrun.mono fun _ _ _ _ => trivial
  constructor
  · apply along_of_guarded Inv _ hstart hrun hguard
    rintro l event next hinv _ rfl
    exact ⟨(stepAgrees hinv event).1, accountsExactly hinv event⟩
  · have hall : Always Inv { state := s, waits := fun _ => none } run := by
      apply always_of_guarded Inv _ hstart hrun hguard
      rintro l event next hinv _ rfl
      exact (stepAgrees hinv event).1
    exact hall.mono fun _ h => h.countedOnce

/-- A thread waits, and another thread of its group wakes it. -/
theorem futex_accounts_wake :
    let thread : Task := { Task.zero with
      state := .ready, ring := .ring3, kernelStackBase := 8, rsp := kernelBase }
    let start : State :=
      { kernel :=
          { (initTasking (fun _ => 0) 8 kernelBase).kernel with
            tasks := fun slot => if slot = mainSlot then { Task.zero with state := .running }
              else if slot.val < 3 then thread else Task.zero }
        timerTicks := 0
        id := fun slot => slot.val
        group := fun _ => 1
        futexAddr := fun _ => 0
        inWait := fun _ => none
        word := fun _ _ => 0 }
    let events : List Event := [.tick kernelBase true, .futex 0 0x1000 0 0 kernelBase true,
      .futex 1 0x1000 1 0 kernelBase true, .tick kernelBase true]
    let ledger : Ledger := { state := start, waits := fun _ => none }
    Along AccountsExactly ledger (ledger.run events) ∧
      Always CountedOnce ledger (ledger.run events) :=
  futex_accounts _ ⟨fun _ => rfl, fun _ => rfl, rfl⟩ _ ⟨rfl, rfl, rfl, rfl, trivial⟩

end EigenOS.Scheduling.Futex
