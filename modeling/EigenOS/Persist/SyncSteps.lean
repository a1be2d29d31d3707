import EigenOS.Persist.CrashSafety

/-!
# A sync step by step

`persist_sync` runs in a task that other tasks preempt: between any two of its steps they
change the table and call `persist_mark_dirty`.  The flag is cleared once the snapshot is
written, so a mark that comes between the copy of the table and that step is lost.
-/

namespace EigenOS.Persist

open EigenOS.Filesystem EigenOS.Transition Function

/-- Where `persist_sync` is. -/
inductive SyncPoint where
  | outside
  | entered
  | copying (i : ℕ) (st : SnapshotState)
  | built (snap : Snapshot)
  | writing (rest : List SectorWrite)
  | saved
  | freeing
  | returned
  | stopped

/-- The machine in the middle of a sync.  `marked` records whether `persist_mark_dirty` was
called after this sync had copied the table. -/
structure Syncing where
  machine : Machine
  point : SyncPoint
  marked : Bool

/-- The table has been copied, and the call has not returned. -/
def SyncPoint.copied : SyncPoint → Bool
  | .copying i _ => decide (maxFiles ≤ i)
  | .built _ | .writing _ | .saved | .freeing => true
  | .outside | .entered | .returned | .stopped => false

/-- One step of `persist_sync`; a new call begins where the last has returned. -/
def syncStep (allocated : Bool) (outcome : WriteOutcome) (s : Syncing) : Syncing :=
  match s.point with
  | .outside | .returned => { s with point := .entered, marked := false }
  | .entered =>
      if s.machine.dirty = false ∨ allocated = false then { s with point := .returned }
      else
        { s with
          point := .copying 0
            { buf := List.replicate (recRegion + payloadSize (List.ofFn s.machine.files)) 0
              off := 0
              pay := recRegion
              nodes := 0 } }
  | .copying i st =>
      if hi : i < maxFiles then
        { s with point := .copying (i + 1) (snapshotStep st (s.machine.files ⟨i, hi⟩)) }
      else { s with point := .built { bytes := st.buf, nodes := st.nodes } }
  | .built snap =>
      if slotSectors < sectorsFor snap.bytes.length + 1 then { s with point := .returned }
      else
        { s with
          machine := { s.machine with seq := s.machine.seq + 1 }
          point := .writing (slotWrites (slotOf (s.machine.seq + 1)) snap.bytes snap.nodes
            (s.machine.seq + 1)) }
  | .writing [] => { s with point := .saved }
  | .writing ((lba, sector) :: rest) =>
      match outcome with
      | .ok =>
          { s with
            machine := { s.machine with disk := update s.machine.disk lba sector }
            point := .writing rest }
      | .error true =>
          { s with
            machine := { s.machine with disk := update s.machine.disk lba sector }
            point := .freeing }
      | .error false => { s with point := .freeing }
      | .stop => { s with machine := { s.machine with running := false }, point := .stopped }
  | .saved => { s with machine := { s.machine with dirty := false }, point := .freeing }
  | .freeing => { s with point := .returned }
  | .stopped => s

/-- A step of the sync, a change of the table by another task, or its call of
`persist_mark_dirty`. -/
inductive SyncEvent where
  | sync (allocated : Bool) (outcome : WriteOutcome)
  | change (files : Table)
  | mark

def Syncing.next (s : Syncing) : SyncEvent → Syncing
  | .sync allocated outcome => syncStep allocated outcome s
  | .change files => { s with machine := { s.machine with files := files } }
  | .mark =>
      { s with
        machine := { s.machine with dirty := true }
        marked := s.marked || s.point.copied }

def Syncing.after (s : Syncing) (events : List SyncEvent) : Syncing :=
  events.foldl Syncing.next s

theorem Syncing.after_append (s : Syncing) (left right : List SyncEvent) :
    s.after (left ++ right) = (s.after left).after right := List.foldl_append

/-! ## A sync that nothing interrupts -/

def Alone (events : List SyncEvent) : Prop :=
  ∀ event ∈ events, ∃ allocated outcome, event = .sync allocated outcome

theorem alone_nil : Alone [] := fun _ h => absurd h List.not_mem_nil

theorem Alone.cons {events : List SyncEvent} (h : Alone events) (allocated : Bool)
    (outcome : WriteOutcome) : Alone (.sync allocated outcome :: events) := by
  intro event hmem
  rcases List.mem_cons.mp hmem with rfl | hrest
  · exact ⟨allocated, outcome, rfl⟩
  · exact h event hrest

theorem Alone.append {left right : List SyncEvent} (hleft : Alone left) (hright : Alone right) :
    Alone (left ++ right) := fun event hmem =>
  (List.mem_append.mp hmem).elim (hleft event) (hright event)

section Phases

variable (m : Machine) (marked : Bool)

theorem exists_copy (rest : List FileNode) {i : ℕ} (st : SnapshotState)
    (hrest : (List.ofFn m.files).drop i = rest) (hi : i ≤ maxFiles) :
    ∃ events, Alone events ∧ Syncing.after ⟨m, .copying i st, marked⟩ events =
      ⟨m, .built ⟨(rest.foldl snapshotStep st).buf, (rest.foldl snapshotStep st).nodes⟩,
        marked⟩ := by
  have hlength : (List.ofFn m.files).length = maxFiles := List.length_ofFn
  induction rest generalizing i st with
  | nil =>
      have hend : ¬ i < maxFiles := by
        have := List.drop_eq_nil_iff.mp hrest
        omega
      refine ⟨[.sync true .ok], alone_nil.cons _ _, ?_⟩
      simp [Syncing.after, Syncing.next, syncStep, hend]
  | cons fp rest ih =>
      have hlt : i < maxFiles := by
        have hne : (List.ofFn m.files).drop i ≠ [] := by
          rw [hrest]
          exact List.cons_ne_nil _ _
        have := List.drop_eq_nil_iff.not.mp hne
        omega
      have hhead := List.drop_eq_getElem_cons (by omega : i < (List.ofFn m.files).length)
      rw [hrest] at hhead
      obtain ⟨hfp, htail⟩ := List.cons.inj hhead
      rw [List.getElem_ofFn] at hfp
      obtain ⟨events, halone, hafter⟩ := ih (snapshotStep st fp) htail.symm (by omega)
      refine ⟨.sync true .ok :: events, halone.cons _ _, ?_⟩
      have hstep : Syncing.next ⟨m, .copying i st, marked⟩ (.sync true .ok) =
          ⟨m, .copying (i + 1) (snapshotStep st fp), marked⟩ := by
        rw [hfp]
        exact dif_pos hlt
      rw [Syncing.after, List.foldl_cons, hstep]
      exact hafter

/-- What is left of the machine after the writes of a slot. -/
def writtenPoint : WriteResult → SyncPoint
  | .done => .saved
  | .failed => .freeing
  | .stopped => .stopped

theorem exists_write (writes : List SectorWrite) (outcomes : List WriteOutcome) :
    ∃ events, Alone events ∧ Syncing.after ⟨m, .writing writes, marked⟩ events =
      ⟨{ m with
          disk := (writeSectors m.disk writes outcomes).1
          running := if (writeSectors m.disk writes outcomes).2 = .stopped then false
            else m.running },
        writtenPoint (writeSectors m.disk writes outcomes).2, marked⟩ := by
  induction writes generalizing m outcomes with
  | nil => exact ⟨[.sync true .ok], alone_nil.cons _ _, rfl⟩
  | cons write rest ih =>
      obtain ⟨lba, sector⟩ := write
      cases houtcome : nextOutcome outcomes with
      | ok =>
          obtain ⟨events, halone, hafter⟩ :=
            ih { m with disk := update m.disk lba sector } outcomes.tail
          refine ⟨.sync true .ok :: events, halone.cons _ _, ?_⟩
          rw [Syncing.after, List.foldl_cons]
          simp only [writeSectors, houtcome]
          exact hafter
      | error reached =>
          refine ⟨[.sync true (.error reached)], alone_nil.cons _ _, ?_⟩
          cases reached with
          | false | true => simp [Syncing.after, Syncing.next, syncStep, writeSectors, houtcome,
              writtenPoint]
      | stop =>
          refine ⟨[.sync true .stop], alone_nil.cons _ _, ?_⟩
          simp [Syncing.after, Syncing.next, syncStep, writeSectors, houtcome, writtenPoint]

end Phases

theorem exists_rest (m : Machine) (marked : Bool) (snap : Snapshot)
    (outcomes : List WriteOutcome) (hfits : ¬ slotSectors < sectorsFor snap.bytes.length + 1) :
    ∃ events point, Alone events ∧ Syncing.after ⟨m, .built snap, marked⟩ events =
      ⟨{ m with
          disk := (writeSlot m.disk (slotOf (m.seq + 1)) snap (m.seq + 1) outcomes).1
          seq := m.seq + 1
          dirty := if (writeSlot m.disk (slotOf (m.seq + 1)) snap (m.seq + 1) outcomes).2 = .done
            then false else m.dirty
          running := if (writeSlot m.disk (slotOf (m.seq + 1)) snap (m.seq + 1) outcomes).2 =
            .stopped then false else m.running }, point, marked⟩ ∧
      (point = .returned ∨ point = .stopped) ∧
        ((writeSlot m.disk (slotOf (m.seq + 1)) snap (m.seq + 1) outcomes).2 = .done →
          point = .returned) := by
  have hslot : writeSlot m.disk (slotOf (m.seq + 1)) snap (m.seq + 1) outcomes =
      writeSectors m.disk (slotWrites (slotOf (m.seq + 1)) snap.bytes snap.nodes (m.seq + 1))
        outcomes := if_neg hfits
  rw [hslot]
  obtain ⟨events, halone, hafter⟩ := exists_write { m with seq := m.seq + 1 } marked
    (slotWrites (slotOf (m.seq + 1)) snap.bytes snap.nodes (m.seq + 1)) outcomes
  have hbuilt : Syncing.after ⟨m, .built snap, marked⟩ (.sync true .ok :: events) =
      Syncing.after ⟨{ m with seq := m.seq + 1 },
        .writing (slotWrites (slotOf (m.seq + 1)) snap.bytes snap.nodes (m.seq + 1)), marked⟩
        events := by
    rw [Syncing.after, List.foldl_cons]
    simp only [Syncing.next, syncStep, if_neg hfits]
    rfl
  cases hresult : (writeSectors m.disk
      (slotWrites (slotOf (m.seq + 1)) snap.bytes snap.nodes (m.seq + 1)) outcomes).2 with
  | done =>
      refine ⟨.sync true .ok :: events ++ [.sync true .ok, .sync true .ok], .returned,
        (halone.cons _ _).append ((alone_nil.cons _ _).cons _ _), ?_, Or.inl rfl, fun _ => rfl⟩
      rw [Syncing.after_append, hbuilt, hafter, hresult]
      rfl
  | failed =>
      refine ⟨.sync true .ok :: events ++ [.sync true .ok], .returned,
        (halone.cons _ _).append (alone_nil.cons _ _), ?_, Or.inl rfl, fun _ => rfl⟩
      rw [Syncing.after_append, hbuilt, hafter, hresult]
      rfl
  | stopped =>
      refine ⟨.sync true .ok :: events, .stopped, halone.cons _ _, ?_, Or.inr rfl,
        nofun⟩
      rw [hbuilt, hafter, hresult]
      rfl

theorem exists_built (m : Machine) (marked : Bool) (hdirty : m.dirty = true) :
    ∃ events snap, Alone events ∧ buildSnapshot true m.files = some snap ∧
      Syncing.after ⟨m, .entered, marked⟩ events = ⟨m, .built snap, marked⟩ := by
  obtain ⟨events, halone, hafter⟩ := exists_copy m marked (List.ofFn m.files)
    { buf := List.replicate (recRegion + payloadSize (List.ofFn m.files)) 0
      off := 0
      pay := recRegion
      nodes := 0 } List.drop_zero (Nat.zero_le _)
  refine ⟨.sync true .ok :: events, _, halone.cons _ _, rfl, ?_⟩
  rw [Syncing.after, List.foldl_cons]
  simp only [Syncing.next, syncStep, hdirty, Bool.true_eq_false, or_self, if_false]
  exact hafter

/-- A sync that nothing interrupts is `persist_sync` as a whole. -/
theorem exists_alone (m : Machine) (marked : Bool) (allocated : Bool)
    (outcomes : List WriteOutcome) :
    ∃ events point, Alone events ∧ (point = .returned ∨ point = .stopped) ∧
      Syncing.after ⟨m, .entered, marked⟩ events =
        ⟨persistSync allocated outcomes m, point, marked⟩ := by
  by_cases hearly : m.dirty = false ∨ allocated = false
  · refine ⟨[.sync allocated .ok], .returned, alone_nil.cons _ _, Or.inl rfl, ?_⟩
    have hsame : persistSync allocated outcomes m = m := by
      rcases hearly with hdirty | rfl
      · simp [persistSync, hdirty]
      · simp [persistSync, buildSnapshot]
    rw [hsame]
    simp [Syncing.after, Syncing.next, syncStep, hearly]
  · rw [not_or, Bool.not_eq_false, Bool.not_eq_false] at hearly
    obtain ⟨hdirty, rfl⟩ := hearly
    obtain ⟨copy, snap, hcopy, hsnap, hbuilt⟩ := exists_built m marked hdirty
    by_cases hroom : slotSectors < sectorsFor snap.bytes.length + 1
    · refine ⟨copy ++ [.sync true .ok], .returned, hcopy.append (alone_nil.cons _ _),
        Or.inl rfl, ?_⟩
      have hsame : persistSync true outcomes m = m := by
        simp [persistSync, hdirty, hsnap, hroom]
      rw [Syncing.after_append, hbuilt, hsame]
      simp [Syncing.after, Syncing.next, syncStep, hroom]
    · obtain ⟨rest, point, hrest, hafter, hpoint, _⟩ := exists_rest m marked snap outcomes hroom
      refine ⟨copy ++ rest, point, hcopy.append hrest, hpoint, ?_⟩
      rw [Syncing.after_append, hbuilt, hafter]
      simp [persistSync, hdirty, hsnap, hroom]

/-! ## Marks during a sync -/

def SyncStep (s : Syncing) (event : SyncEvent) (s' : Syncing) : Prop := s' = s.next event

/-- When the sync returns, the flag is set if it was set again after the table was copied. -/
def MarkKept (s : Syncing) : Prop :=
  s.point = .returned → s.marked = true → s.machine.dirty = true

/-- A step that clears the flag comes before any mark since the copy. -/
def ClearsNoMark (s : Syncing) : SyncEvent → Prop
  | .sync .. => s.point = .saved → s.marked = false
  | _ => True

theorem marked_step {s : Syncing} {event : SyncEvent} (h : s.marked = true → s.machine.dirty = true)
    (hclears : ClearsNoMark s event) :
    (s.next event).marked = true → (s.next event).machine.dirty = true := by
  cases event with
  | change files => exact h
  | mark => exact fun _ => rfl
  | sync allocated outcome =>
      unfold Syncing.next syncStep
      dsimp only
      split
      · exact fun hmarked => absurd hmarked Bool.false_ne_true
      · exact fun hmarked => absurd hmarked Bool.false_ne_true
      · split <;> exact h
      · split <;> exact h
      · split <;> exact h
      · exact h
      · split <;> exact h
      · rename_i hpoint
        intro hmarked
        rw [hclears hpoint] at hmarked
        cases hmarked
      · exact h
      · exact h

/-- A mark is kept as long as the flag is not cleared after it in the same sync. -/
theorem markKept_always (m : Machine) (run : List (SyncEvent × Syncing))
    (hrun : Along SyncStep ⟨m, .outside, false⟩ run)
    (hclears : Along (fun s event _ => ClearsNoMark s event) ⟨m, .outside, false⟩ run) :
    Always MarkKept ⟨m, .outside, false⟩ run := by
  have hmarked := always_of_guarded (fun s : Syncing => s.marked = true → s.machine.dirty = true)
    (fun s event s' h hclears hstep => by rw [hstep]; exact marked_step h hclears)
    (fun hmarked => absurd hmarked Bool.false_ne_true) hrun hclears
  exact hmarked.mono fun _ h _ => h

/-! ## A mark during the writes -/

theorem final_syncs (s : Syncing) (events : List SyncEvent) :
    final s (trace Syncing.next s events) = s.after events := by
  induction events generalizing s with
  | nil => rfl
  | cons event rest ih => exact ih _

/-- The root directory alone, not saved yet. -/
def unsaved : Machine where
  disk := fun _ _ => 0
  files := initialTable
  seq := 0
  dirty := true
  running := true

/-- Another task marks the table once it has been copied; the writes succeed and the flag is
cleared all the same. -/
theorem lateMark_not_kept :
    ¬ ∀ run, Along SyncStep ⟨unsaved, .outside, false⟩ run →
      Always MarkKept ⟨unsaved, .outside, false⟩ run := by
  intro h
  obtain ⟨copy, snap, _, hsnap, hbuilt⟩ := exists_built unsaved false rfl
  have hfits : ¬ slotSectors < sectorsFor snap.bytes.length + 1 := by
    rw [length_buildSnapshot hsnap]
    exact Nat.not_lt.mpr (fits_of_files_eq rfl)
  obtain ⟨rest, point, _, hrest, _, hdone⟩ := exists_rest unsaved true snap [] hfits
  have hwritten : (writeSlot unsaved.disk (slotOf (unsaved.seq + 1)) snap (unsaved.seq + 1)
      []).2 = .done := by
    rw [writeSlot, if_neg hfits, writeSectors_nil]
  have hafter : Syncing.after ⟨unsaved, .outside, false⟩
      ([.sync true .ok] ++ copy ++ [.mark] ++ rest) =
        Syncing.after ⟨unsaved, .built snap, true⟩ rest := by
    rw [Syncing.after_append, Syncing.after_append, Syncing.after_append]
    have hentered : Syncing.after ⟨unsaved, .outside, false⟩ [.sync true .ok] =
        ⟨unsaved, .entered, false⟩ := rfl
    rw [hentered, hbuilt]
    rfl
  have hkept := (h _ (along_trace _ _ ([.sync true .ok] ++ copy ++ [.mark] ++ rest))).final
  rw [final_syncs, hafter, hrest] at hkept
  have hdirty := hkept (hdone hwritten) rfl
  rw [hwritten] at hdirty
  cases hdirty

theorem clearsNoMark_append {s : Syncing} {events rest : List SyncEvent} (halone : Alone events)
    (hmarked : s.marked = false) (hrest : Along (fun s event _ => ClearsNoMark s event)
      (s.after events) (trace Syncing.next (s.after events) rest)) :
    Along (fun s event _ => ClearsNoMark s event) s (trace Syncing.next s (events ++ rest)) := by
  induction events generalizing s with
  | nil => exact hrest
  | cons event tail ih =>
      obtain ⟨allocated, outcome, rfl⟩ := halone event List.mem_cons_self
      refine ⟨fun _ => hmarked, ih (fun e he => halone e (List.mem_cons_of_mem _ he)) ?_ hrest⟩
      unfold Syncing.next syncStep
      dsimp only
      repeat' split
      all_goals first | rfl | exact hmarked

/-- The mark comes after the copy as well, and then a write fails. -/
theorem lateMark_kept_of_failure : ∃ copy final, Alone copy ∧
    Syncing.after ⟨unsaved, .outside, false⟩ (.sync true .ok :: copy ++
      [.mark, .sync true .ok, .sync true (.error false), .sync true .ok]) =
        ⟨final, .returned, true⟩ ∧
    Always MarkKept ⟨unsaved, .outside, false⟩ (trace Syncing.next ⟨unsaved, .outside, false⟩
      (.sync true .ok :: copy ++
        [.mark, .sync true .ok, .sync true (.error false), .sync true .ok])) := by
  obtain ⟨copy, snap, hcopy, hsnap, hbuilt⟩ := exists_built unsaved false rfl
  have hfits : ¬ slotSectors < sectorsFor snap.bytes.length + 1 := by
    rw [length_buildSnapshot hsnap]
    exact Nat.not_lt.mpr (fits_of_files_eq rfl)
  have hstart : Syncing.after ⟨unsaved, .outside, false⟩ (.sync true .ok :: copy) =
      ⟨unsaved, .built snap, false⟩ := hbuilt
  obtain ⟨write, rest, hwrites⟩ := List.exists_cons_of_ne_nil (List.append_ne_nil_of_right_ne_nil
    (payloadWrites (sectorsFor snap.bytes.length) ((slotOf (unsaved.seq + 1)).base + 1) snap.bytes)
    (List.cons_ne_nil _ _))
  have hwriting : Syncing.next ⟨unsaved, .built snap, true⟩ (.sync true .ok) =
      ⟨{ unsaved with seq := unsaved.seq + 1 }, .writing (write :: rest), true⟩ := by
    simp only [Syncing.next, syncStep, if_neg hfits]
    rw [← hwrites]
    rfl
  refine ⟨copy, { unsaved with seq := unsaved.seq + 1 }, hcopy, ?_,
    markKept_always _ _ (along_trace _ _ _) (clearsNoMark_append (hcopy.cons true .ok) rfl ?_)⟩
  · rw [Syncing.after_append, hstart]
    change Syncing.after (Syncing.next ⟨unsaved, .built snap, true⟩ (.sync true .ok)) _ = _
    rw [hwriting]
    rfl
  · rw [hstart]
    refine ⟨trivial, nofun, ?_⟩
    change Along _ (Syncing.next ⟨unsaved, .built snap, true⟩ (.sync true .ok))
      (trace Syncing.next (Syncing.next ⟨unsaved, .built snap, true⟩ (.sync true .ok)) _)
    rw [hwriting]
    exact ⟨nofun, nofun, trivial⟩

end EigenOS.Persist
