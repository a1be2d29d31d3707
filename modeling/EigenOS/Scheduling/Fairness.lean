import EigenOS.Scheduling.Scheduler

/-!
# Fairness of the round robin

The search for the next task starts behind the current one.  As long as no switch drops the
task it has picked, the current index moves through the slots in a circle, and a task that
stays ready is picked before another is picked a second time.  After a dropped task the
search starts at the first slot again.
-/

namespace EigenOS.Scheduling

open EigenOS.Signals EigenOS.Transition Function

def Runnable (t : Task) : Prop := t.state = .ready ∨ t.state = .running

/-- A task that was just selected is not selected again before another one that is ready and
stays runnable. -/
def NoBypass (start : Cpu) (run : List (Event × Cpu)) : Prop :=
  ∀ taken waiting : Slot, taken ≠ waiting → start.kernel.current = some taken →
    (start.kernel.tasks waiting).state = .ready →
    Always (fun c => Runnable (c.kernel.tasks waiting)) start run →
    Along (fun c event _ => event.selected c ≠ some waiting) start run →
      Along (fun c event _ => event.selected c ≠ some taken) start run

/-- The same from every moment of a run on. -/
def RoundRobin (start : Cpu) (run : List (Event × Cpu)) : Prop :=
  ∀ before after, run = before ++ after → NoBypass (final start before) after

/-! ## The order of the search -/

/-- How many slots the search looks at before it comes to a slot. -/
def distance (start slot : Slot) : ℕ := (slot.val + (maxTasks - 1) - start.val) % maxTasks

theorem rounds_pairwise (start : Slot) :
    (rounds start).Pairwise fun left right => distance start left < distance start right := by
  unfold rounds
  rw [List.pairwise_map]
  apply List.pairwise_lt_range.imp_of_mem
  intro left right hleft hright hlt
  rw [List.mem_range] at hleft hright
  have hstart : start.val < 64 := start.isLt
  have hoffset : ∀ offset, offset < 64 →
      distance start ⟨(start.val + 1 + offset) % maxTasks, Nat.mod_lt _ (by decide)⟩ = offset := by
    intro offset hoffset
    unfold distance maxTasks
    dsimp only
    omega
  rw [hoffset left hleft, hoffset right hright]
  exact hlt

theorem mem_rounds (start slot : Slot) : slot ∈ rounds start := by
  have hstart : start.val < 64 := start.isLt
  have hslot : slot.val < 64 := slot.isLt
  apply List.mem_map.mpr
  refine ⟨distance start slot, List.mem_range.mpr (Nat.mod_lt _ (by decide)), ?_⟩
  apply Fin.ext
  unfold distance maxTasks
  dsimp only
  omega

/-! ## The condition -/

/-- A task that the switch may pick. -/
def SelectableAt (k : Kernel) (rsp now : ℕ) (slot : Slot) : Prop :=
  stateAt k now slot = .ready ∧ (k.tasks slot).kernelStackBase ≠ 0 ∧ frameLeft k rsp slot ≠ 0

/-- The first task in the order of the round robin that the switch may pick. -/
def ComesNext (k : Kernel) (rsp now : ℕ) (slot : Slot) : Prop :=
  SelectableAt k rsp now slot ∧ ∀ other, SelectableAt k rsp now other →
    distance (k.current.getD mainSlot) slot ≤ distance (k.current.getD mainSlot) other

/-- No pending signal ends the task that comes next, and its frame is one the scheduler
trusts. -/
def KeepsNext (c : Cpu) : Event → Prop
  | .tick rsp now mapped => ∀ slot, ComesNext c.kernel rsp now slot →
      ¬ Dropped { c.kernel.tasks slot with rsp := frameLeft c.kernel rsp slot } mapped
  | _ => True

theorem selectable_searched (k : Kernel) (rsp now : ℕ) (slot : Slot) :
    Selectable ((searched k rsp now).tasks slot) ↔ SelectableAt k rsp now slot := by
  unfold Selectable SelectableAt
  rw [searched_state, searched_rsp, (searched_same k rsp now slot).stack]

theorem dropped_congr {before after : Task} (h : SameTask before after)
    (hrsp : after.rsp = before.rsp) (mapped : Bool) :
    Dropped after mapped ↔ Dropped before mapped := by
  have hpending : firstPending after = firstPending before := by
    unfold firstPending
    rw [h.pending]
  have hdelivers : ∀ sig, Delivers after sig ↔ Delivers before sig := by
    intro sig
    unfold Delivers
    rw [hpending, h.ring, h.inHandler, hrsp]
  have hfatal : ∀ sig, Fatal after sig ↔ Fatal before sig := by
    intro sig
    unfold Fatal
    rw [h.handlers]
  unfold Dropped
  simp only [hdelivers, hfatal, hrsp]

section Pick

variable {k : Kernel} {rsp now : ℕ} {tasks : Slot → Task} {next : Slot}

theorem distance_of_found {start : Slot}
    (hfound : Found (searched k rsp now).tasks (rounds start) tasks (some next)) {slot : Slot}
    (hne : slot ≠ next)
    (hslot : Selectable ((searched k rsp now).tasks slot) ∨ (tasks slot).state = .ready) :
    distance start next < distance start slot := by
  obtain ⟨_, before, rest, hslots, hbefore⟩ := hfound.first next rfl
  have horder := rounds_pairwise start
  have hmem := mem_rounds start slot
  rw [hslots] at horder hmem
  have hrest : slot ∈ rest := by
    rcases List.mem_append.mp hmem with hpassed | hlater
    · obtain ⟨hnot, hstate⟩ := hbefore slot hpassed
      rcases hslot with hselectable | hready
      · exact absurd hselectable hnot
      · exact absurd hready hstate
    · exact (List.mem_cons.mp hlater).resolve_left hne
  have hcons := (List.pairwise_append.mp horder).2.1
  exact (List.pairwise_cons.mp hcons).1 slot hrest

theorem comesNext_of_found
    (hfound : Found (searched k rsp now).tasks (rounds (k.current.getD mainSlot)) tasks
      (some next)) : ComesNext k rsp now next := by
  obtain ⟨hselectable, _⟩ := hfound.first next rfl
  refine ⟨(selectable_searched k rsp now next).mp hselectable, ?_⟩
  intro other hother
  by_cases heq : other = next
  · rw [heq]
  · apply le_of_lt
    exact distance_of_found hfound heq (Or.inl ((selectable_searched k rsp now other).mpr hother))

end Pick

/-! ## The circle -/

/-- How far a slot is behind another one in the circle of the slots. -/
def ahead (base slot : Slot) : ℕ := (slot.val + maxTasks - base.val) % maxTasks

theorem ahead_self (base : Slot) : ahead base base = 0 := by
  unfold ahead
  rw [Nat.add_sub_cancel_left]
  exact Nat.mod_self _

/-- What comes before a slot in the search from a third one lies between these two. -/
theorem ahead_of_distance {base current next slot : Slot}
    (hcurrent : ahead base current < ahead base slot)
    (hnext : distance current next < distance current slot) :
    ahead base next < ahead base slot ∧ next ≠ base := by
  have hbase : base.val < 64 := base.isLt
  have hcur : current.val < 64 := current.isLt
  have hnextLt : next.val < 64 := next.isLt
  have hslot : slot.val < 64 := slot.isLt
  unfold ahead distance maxTasks at *
  constructor
  · omega
  · rintro rfl
    omega

/-! ## One switch -/

section Step

variable {c : Cpu} {rsp now : ℕ} {mapped : Bool} {waiting : Slot}

theorem tick_between {taken current : Slot}
    (hcurrent : c.kernel.current = some current)
    (hbetween : ahead taken current < ahead taken waiting)
    (hready : ((c.schedule rsp now mapped).1.kernel.tasks waiting).state = .ready)
    (hkeeps : KeepsNext c (.tick rsp now mapped)) :
    ∃ next, (c.schedule rsp now mapped).1.kernel.current = some next ∧
      ahead taken next < ahead taken waiting ∧
      (Event.tick rsp now mapped).selected c ≠ some taken := by
  have hswitched := schedule_switched c.kernel rsp now mapped
  have hkernel : (c.schedule rsp now mapped).1.kernel =
      (Signals.schedule c.kernel rsp now mapped).1 := rfl
  have hselected : (Event.tick rsp now mapped).selected c =
      (Signals.schedule c.kernel rsp now mapped).2 := rfl
  rw [hkernel] at hready ⊢
  rw [hselected]
  generalize Signals.schedule c.kernel rsp now mapped = switched at hswitched hready
  obtain ⟨after, resumed⟩ := switched
  cases hswitched with
  | idle hfound =>
      exact absurd hready (hfound.nothing rfl waiting (mem_rounds _ waiting))
  | @picked tasks mem next _ _ hfound hdelivered =>
      have hne : waiting ≠ next := by
        rintro rfl
        rcases hdelivered.outcome with ⟨_, _, hrun, _⟩ | ⟨_, hdead, _⟩
        · rw [hrun] at hready
          cases hready
        · rw [hdead] at hready
          cases hready
      have htask : after.tasks waiting = tasks waiting := by
        rw [hdelivered.others waiting hne]
        exact update_of_ne hne _ _
      rw [htask] at hready
      have hdistance := distance_of_found hfound hne (Or.inr hready)
      rw [hcurrent, Option.getD_some] at hdistance
      obtain ⟨hahead, hnext⟩ := ahead_of_distance hbetween hdistance
      have hkept : after.current ≠ none := by
        intro hnone
        apply hkeeps next (comesNext_of_found hfound)
        have hdropped := hdelivered.dropped hnone
        have hsame : SameTask (c.kernel.tasks next) (tasks next) := by
          rw [hfound.picked]
          exact searched_same c.kernel rsp now next
        have hrsp : (tasks next).rsp = frameLeft c.kernel rsp next :=
          (hfound.rsp next).trans (searched_rsp c.kernel rsp now next)
        dsimp only at hdropped
        rw [update_self] at hdropped
        refine (dropped_congr ?_ ?_ mapped).mp hdropped
        · exact ⟨hsame.ring, hsame.stack, hsame.handlers, hsame.pending, hsame.inHandler,
            hsame.sleepUntil⟩
        · exact hrsp
      refine ⟨next, ?_, hahead, ?_⟩
      · rcases hdelivered.outcome with ⟨_, hcur, _⟩ | ⟨_, _, hcur | hcur⟩
        · exact hcur
        · exact hcur
        · exact absurd hcur hkept
      · rcases hdelivered.outcome with ⟨hsome, _⟩ | ⟨hnone, _⟩
        · rw [hsome]
          exact fun heq => hnext (Option.some.inj heq)
        · rw [hnone]
          exact nofun

end Step

theorem ready_tick {c : Cpu} {rsp now : ℕ} {mapped : Bool} {waiting : Slot}
    (hready : (c.kernel.tasks waiting).state = .ready)
    (hrunnable : Runnable ((c.schedule rsp now mapped).1.kernel.tasks waiting))
    (hselected : (Event.tick rsp now mapped).selected c ≠ some waiting) :
    ((c.schedule rsp now mapped).1.kernel.tasks waiting).state = .ready := by
  have hswitched := schedule_switched c.kernel rsp now mapped
  have hkernel : (c.schedule rsp now mapped).1.kernel =
      (Signals.schedule c.kernel rsp now mapped).1 := rfl
  have hresumed : (Event.tick rsp now mapped).selected c =
      (Signals.schedule c.kernel rsp now mapped).2 := rfl
  rw [hkernel] at hrunnable ⊢
  rw [hresumed] at hselected
  generalize Signals.schedule c.kernel rsp now mapped = switched at hswitched hrunnable hselected
  obtain ⟨after, resumed⟩ := switched
  have hstate : stateAt c.kernel now waiting = .ready := by
    unfold stateAt
    simp [hready]
  have hkept : ∀ {slots : List Slot} {tasks : Slot → Task} {next : Option Slot},
      Found (searched c.kernel rsp now).tasks slots tasks next → Runnable (tasks waiting) →
        (tasks waiting).state = .ready := by
    intro slots tasks next hfound hwaiting
    rcases hfound.kept waiting with heq | ⟨_, _, heq⟩
    · rw [heq, searched_state, hstate]
    · rw [heq] at hwaiting
      rcases hwaiting with hdead | hdead
      · cases hdead
      · cases hdead
  cases hswitched with
  | idle hfound => exact hkept hfound hrunnable
  | @picked tasks mem next _ _ hfound hdelivered =>
      by_cases heq : waiting = next
      · subst heq
        rcases hdelivered.outcome with ⟨hsome, _⟩ | ⟨_, hdead, _⟩
        · exact absurd hsome hselected
        · rcases hrunnable with hlive | hlive
          · rw [hdead] at hlive
            cases hlive
          · rw [hdead] at hlive
            cases hlive
      · have htask : after.tasks waiting = tasks waiting := by
          rw [hdelivered.others waiting heq]
          exact update_of_ne heq _ _
        rw [htask] at hrunnable ⊢
        exact hkept hfound hrunnable

/-! ## The other steps -/

theorem changeCurrent_current (k : Kernel) (change : Task → Task) :
    (changeCurrent k change).current = k.current := by
  unfold changeCurrent
  split
  · rfl
  · rfl

theorem changeCurrent_of_ne (k : Kernel) (change : Task → Task) {slot : Slot}
    (hne : k.current ≠ some slot) : (changeCurrent k change).tasks slot = k.tasks slot := by
  unfold changeCurrent
  split
  · rename_i cur hcurrent
    apply update_of_ne
    rintro rfl
    exact hne hcurrent
  · rfl

theorem changeTask_state {k : Kernel} {slot other : Slot} {change : Task → Task}
    (hchange : (change (k.tasks slot)).state = .running → (k.tasks slot).state = .running)
    (hrunning : ((changeTask k slot change).tasks other).state = .running) :
    (k.tasks other).state = .running := by
  unfold changeTask at hrunning
  dsimp only at hrunning
  by_cases heq : other = slot
  · rw [heq, update_self] at hrunning
    rw [heq]
    exact hchange hrunning
  · rw [update_of_ne heq] at hrunning
    exact hrunning

/-- What a step outside the scheduler leaves: the current index, and that a task which is not
the current one is not running. -/
structure Outside (k after : Kernel) (slot : Slot) : Prop where
  current : after.current = k.current
  running : k.current ≠ some slot → (after.tasks slot).state = .running →
    (k.tasks slot).state = .running

theorem outside_changeCurrent (k : Kernel) (change : Task → Task) (slot : Slot) :
    Outside k (changeCurrent k change) slot where
  current := changeCurrent_current k change
  running := by
    intro hne hrunning
    rw [changeCurrent_of_ne k change hne] at hrunning
    exact hrunning

theorem outside_changeTask (k : Kernel) (slot : Slot) (change : Task → Task) (other : Slot)
    (hchange : (change (k.tasks slot)).state = .running → (k.tasks slot).state = .running) :
    Outside k (changeTask k slot change) other :=
  ⟨rfl, fun _ hrunning => changeTask_state hchange hrunning⟩

theorem outside_run (k : Kernel) (slot : Slot) {event : Event}
    (hevent : ∀ rsp now mapped, event ≠ .tick rsp now mapped) :
    Outside k (event.runKernel k) slot := by
  cases event with
  | tick rsp now mapped => exact absurd rfl (hevent rsp now mapped)
  | pick target => exact ⟨rfl, fun _ hrunning => hrunning⟩
  | prepare target ring stack clears =>
      apply outside_changeTask k target
        (fun t => { newTask t ring stack t.rsp clears with state := t.state }) slot
      exact fun hrunning => hrunning
  | fill target rsp =>
      apply outside_changeTask k target (fun t => { t with rsp := rsp, state := .ready }) slot
      exact nofun
  | kill target sig =>
      unfold Event.runKernel sendSignal
      dsimp only
      split
      · exact ⟨rfl, fun _ hrunning => hrunning⟩
      · apply outside_changeTask k target
          (fun t => { t with sigPending := update t.sigPending sig true }) slot
        exact fun hrunning => hrunning
  | sigaction sig handler | sigreturn | sleep deadline | backOut | execve =>
      exact outside_changeCurrent k _ slot
  | wake target =>
      apply outside_changeTask k target
        (fun t => if t.state = .sleeping then { t with state := .ready } else t) slot
      split
      · exact nofun
      · exact fun hrunning => hrunning
  | exit code =>
      unfold Event.runKernel exitTask
      dsimp only
      split
      · exact ⟨rfl, fun _ hrunning => hrunning⟩
      · exact outside_changeCurrent k _ slot
  | killGroup member =>
      refine ⟨rfl, fun _ hrunning => ?_⟩
      unfold Event.runKernel at hrunning
      dsimp only at hrunning
      split at hrunning
      · cases hrunning
      · exact hrunning
  | abandon target | reap target =>
      apply outside_changeTask k target (fun t => { t with state := .free }) slot
      exact nofun

theorem run_kernel (c : Cpu) {event : Event}
    (hevent : ∀ rsp now mapped, event ≠ .tick rsp now mapped) :
    (event.run c).kernel = event.runKernel c.kernel := by
  cases event with
  | tick rsp now mapped => exact absurd rfl (hevent rsp now mapped)
  | _ => rfl

theorem selected_of_not_tick (c : Cpu) {event : Event}
    (hevent : ∀ rsp now mapped, event ≠ .tick rsp now mapped) : event.selected c = none := by
  cases event with
  | tick rsp now mapped => exact absurd rfl (hevent rsp now mapped)
  | _ => rfl

/-! ## Runs -/

/-- Between two selections of a task the current index stays behind the one that waits. -/
theorem noBypass_of_between {taken waiting : Slot} {start : Cpu} {run : List (Event × Cpu)}
    (hrun : Along CpuStep start run)
    (hkeeps : Along (fun c event _ => KeepsNext c event) start run)
    (hready : (start.kernel.tasks waiting).state = .ready)
    (hrunnable : Always (fun c => Runnable (c.kernel.tasks waiting)) start run)
    (hskipped : Along (fun c event _ => event.selected c ≠ some waiting) start run)
    (hcurrent : ∃ current, start.kernel.current = some current ∧
      ahead taken current < ahead taken waiting) :
    Along (fun c event _ => event.selected c ≠ some taken) start run := by
  induction run generalizing start with
  | nil => trivial
  | cons head rest ih =>
      obtain ⟨event, next⟩ := head
      obtain ⟨rfl, hrest⟩ := hrun
      obtain ⟨current, hcur, hbetween⟩ := hcurrent
      by_cases htick : ∃ rsp now mapped, event = .tick rsp now mapped
      · obtain ⟨rsp, now, mapped, rfl⟩ := htick
        have hstill := ready_tick hready hrunnable.2.start hskipped.1
        obtain ⟨picked, hpicked, hahead, hselected⟩ :=
          tick_between hcur hbetween hstill hkeeps.1
        exact ⟨hselected, ih hrest hkeeps.2 hstill hrunnable.2 hskipped.2
          ⟨picked, hpicked, hahead⟩⟩
      · have hevent : ∀ rsp now mapped, event ≠ .tick rsp now mapped :=
          fun rsp now mapped heq => htick ⟨rsp, now, mapped, heq⟩
        have houtside := outside_run start.kernel waiting hevent
        rw [← run_kernel start hevent] at houtside
        have hne : start.kernel.current ≠ some waiting := by
          rw [hcur]
          intro heq
          rw [Option.some.inj heq] at hbetween
          exact lt_irrefl _ hbetween
        have hstill : ((event.run start).kernel.tasks waiting).state = .ready := by
          rcases hrunnable.2.start with heq | hrunning
          · exact heq
          · have hwas := houtside.running hne hrunning
            rw [hready] at hwas
            cases hwas
        refine ⟨?_, ih hrest hkeeps.2 hstill hrunnable.2 hskipped.2
          ⟨current, houtside.current.trans hcur, hbetween⟩⟩
        have hnone := selected_of_not_tick start hevent
        intro heq
        rw [hnone] at heq
        cases heq

/-- A run in which no switch drops the task that comes next is a round robin. -/
theorem roundRobin_of_keepsNext (start : Cpu) (run : List (Event × Cpu))
    (hrun : Along CpuStep start run)
    (hkeeps : Along (fun c event _ => KeepsNext c event) start run) : RoundRobin start run := by
  rintro before after rfl taken waiting hne hcurrent hready hrunnable hskipped
  apply noBypass_of_between (along_append hrun) (along_append hkeeps) hready hrunnable hskipped
  refine ⟨taken, hcurrent, ?_⟩
  rw [ahead_self]
  have htaken : taken.val < 64 := taken.isLt
  have hwaiting : waiting.val < 64 := waiting.isLt
  have hval : taken.val ≠ waiting.val := fun heq => hne (Fin.ext heq)
  unfold ahead maxTasks
  omega

instance (k : Kernel) (rsp now : ℕ) (slot : Slot) : Decidable (SelectableAt k rsp now slot) :=
  inferInstanceAs (Decidable (_ ∧ _))

instance (k : Kernel) (rsp now : ℕ) (slot : Slot) : Decidable (ComesNext k rsp now slot) :=
  inferInstanceAs (Decidable (_ ∧ _))

instance (c : Cpu) : ∀ event, Decidable (KeepsNext c event)
  | .tick rsp now mapped => inferInstanceAs (Decidable (∀ slot, ComesNext c.kernel rsp now slot →
      ¬ Dropped { c.kernel.tasks slot with rsp := frameLeft c.kernel rsp slot } mapped))
  | .pick .. | .prepare .. | .fill .. | .abandon .. | .kill .. | .sigaction .. | .sigreturn
  | .sleep .. | .backOut | .wake ..
  | .execve | .exit .. | .killGroup .. | .reap .. => .isTrue trivial

/-- Ticks alone, with no signal pending, take two tasks in turn. -/
theorem roundRobin_of_keepsNext_turns :
    let start := initTasking (fun _ => 0) 8 kernelBase
    let events : List Event := creation ⟨1, by decide⟩ .ring0 24 kernelBase ++
      [.tick kernelBase 1 true, .tick kernelBase 2 true, .tick kernelBase 3 true]
    RoundRobin start (runOf start events) := by
  apply roundRobin_of_keepsNext
  · exact ⟨rfl, rfl, rfl, rfl, rfl, rfl, trivial⟩
  · refine ⟨trivial, trivial, trivial, ?_, ?_, ?_, trivial⟩
    all_goals
      dsimp only
      decide +kernel

/-- The first task is selected, the second one is killed, and the first one is selected again
before the third one: when the second one is picked and dropped, the search starts over. -/
theorem roundRobin_not_kept :
    ¬ ∀ run, Along SchedulerStep (initTasking (fun _ => 0) 8 kernelBase) run →
      RoundRobin (initTasking (fun _ => 0) 8 kernelBase) run := by
  intro h
  let start := initTasking (fun _ => 0) 8 kernelBase
  let first : List Event := creation ⟨1, by decide⟩ .ring0 24 kernelBase ++
    creation ⟨2, by decide⟩ .ring3 24 kernelBase ++
    creation ⟨3, by decide⟩ .ring0 24 kernelBase ++ [.tick kernelBase 1 true]
  let rest : List Event := [.kill ⟨2, by decide⟩ sigkill, .tick kernelBase 2 true,
    .tick kernelBase 3 true]
  have hrun : Along SchedulerStep start (runOf start first ++
      runOf (final start (runOf start first)) rest) := by
    refine ⟨⟨?_, rfl⟩, ⟨?_, rfl⟩, ⟨?_, rfl⟩, ⟨?_, rfl⟩, ⟨?_, rfl⟩, ⟨?_, rfl⟩, ⟨?_, rfl⟩,
      ⟨?_, rfl⟩, ⟨?_, rfl⟩, ⟨trivial, rfl⟩, ⟨trivial, rfl⟩, ⟨trivial, rfl⟩, ⟨trivial, rfl⟩, trivial⟩
    all_goals decide +kernel
  have hskip := h _ hrun _ _ rfl ⟨1, by decide⟩ ⟨3, by decide⟩ (by decide)
    (by decide +kernel) (by decide +kernel)
    ⟨Or.inl (by decide +kernel), Or.inl (by decide +kernel), Or.inl (by decide +kernel),
      Or.inl (by decide +kernel)⟩
    ⟨by decide +kernel, by decide +kernel, by decide +kernel, trivial⟩
  exact hskip.2.2.1 (by decide +kernel)

end EigenOS.Scheduling
