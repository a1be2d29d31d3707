import EigenOS.Persist.Restore

/-!
# `persist_sync` and `persist_load`

The machine is the disk, the node table and the two statics `seq` and `dirty`.  A
sync that begins to write advances `seq` first and keeps the new value however the
write ends.
-/

namespace EigenOS.Persist

open EigenOS.Filesystem

structure Machine where
  disk : Disk
  files : Table
  seq : UInt32
  dirty : Bool
  running : Bool

/-- `persist_sync`; `allocated` and `outcomes` say how its `kmalloc` and its sector
writes turn out. -/
def persistSync (allocated : Bool) (outcomes : List WriteOutcome) (m : Machine) : Machine :=
  if m.dirty = false then m
  else
    match buildSnapshot allocated m.files with
    | none => m
    | some snap =>
        if slotSectors < sectorsFor snap.bytes.length + 1 then m
        else
          let seq := m.seq + 1
          let written := writeSlot m.disk (slotOf seq) snap seq outcomes
          { m with
            disk := written.1
            seq := seq
            dirty := if written.2 = .done then false else m.dirty
            running := if written.2 = .stopped then false else m.running }

/-- `persist_load`. -/
def persistLoad (env : LoadEnv) (m : Machine) : Machine :=
  let st := chooseSlot env m.disk m.seq
  match st.best, st.found with
  | some buf, true =>
      { m with
        files := restoreTable env buf
        seq := st.seq
        dirty := false }
  | _, _ => { m with seq := st.seq }

/-- A restart: memory is lost, and `init_filesystem` loads the saved tree over a table
that holds the root alone. -/
def boot (env : LoadEnv) (m : Machine) : Machine :=
  persistLoad env
    { disk := m.disk, files := initialTable, seq := 0, dirty := false, running := true }

/-! ## What one sync does -/

def imageOf (files : Table) (seq : UInt32)
    (hfits : sectorsFor (recRegion + payloadSize (List.ofFn files)) + 1 ≤ slotSectors)
    {snap : Snapshot} (hsnap : buildSnapshot true files = some snap) : Image where
  bytes := snap.bytes
  nodes := snap.nodes
  seq := seq
  records_le := by
    rw [length_buildSnapshot hsnap]
    exact Nat.le_add_right _ _
  fits := by
    rw [length_buildSnapshot hsnap]
    exact hfits

/-- A sync that starts to write: the image it saves and how far the writes get. -/
structure SyncWrites (m next : Machine) (image : Image)
    (outcomes : List WriteOutcome) : Prop where
  dirty_before : m.dirty = true
  snapshot_eq : buildSnapshot true m.files =
    some { bytes := image.bytes, nodes := image.nodes }
  seq_image : image.seq = m.seq + 1
  disk_eq : next.disk = (writeSectors m.disk
    (slotWrites (slotOf image.seq) image.bytes image.nodes image.seq) outcomes).1
  seq_eq : next.seq = image.seq
  dirty_iff : next.dirty = false ↔ (writeSectors m.disk
    (slotWrites (slotOf image.seq) image.bytes image.nodes image.seq) outcomes).2 = .done
  running_iff : next.running = true ↔ (writeSectors m.disk
    (slotWrites (slotOf image.seq) image.bytes image.nodes image.seq) outcomes).2 ≠ .stopped ∧
      m.running = true
  files_eq : next.files = m.files

variable {m : Machine} {image : Image} {outcomes : List WriteOutcome}

/-- A sync of unsaved changes that fit a slot writes them under the next number. -/
theorem persistSync_writes (outcomes : List WriteOutcome) (hdirty : m.dirty = true)
    (hfits : sectorsFor (recRegion + payloadSize (List.ofFn m.files)) + 1 ≤ slotSectors) :
    ∃ image, SyncWrites m (persistSync true outcomes m) image outcomes := by
  obtain ⟨snap, hsnap⟩ : ∃ snap, buildSnapshot true m.files = some snap := ⟨_, rfl⟩
  have hroom : ¬slotSectors < sectorsFor snap.bytes.length + 1 := by
    rw [length_buildSnapshot hsnap]
    exact Nat.not_lt.mpr hfits
  refine ⟨imageOf m.files (m.seq + 1) hfits hsnap, ?_⟩
  constructor <;> simp [persistSync, hdirty, hsnap, hroom, imageOf, writeSlot]

theorem persistSync_cases (allocated : Bool) (outcomes : List WriteOutcome) (m : Machine) :
    persistSync allocated outcomes m = m ∨
      allocated = true ∧
        ∃ image, SyncWrites m (persistSync allocated outcomes m) image outcomes := by
  cases hdirty : m.dirty with
  | false => simp [persistSync, hdirty]
  | true =>
      cases allocated with
      | false => simp [persistSync, buildSnapshot]
      | true =>
          obtain ⟨snap, hsnap⟩ : ∃ snap, buildSnapshot true m.files = some snap :=
            ⟨_, rfl⟩
          have hlength := length_buildSnapshot hsnap
          by_cases hroom : slotSectors < sectorsFor snap.bytes.length + 1
          · simp [persistSync, hdirty, hsnap, hroom]
          · right
            rw [hlength] at hroom
            exact ⟨rfl, persistSync_writes outcomes hdirty (Nat.le_of_not_lt hroom)⟩

theorem SyncWrites.holds_of_clean {m next : Machine} (hsync : SyncWrites m next image outcomes)
    (hclean : next.dirty = false) : Holds next.disk (slotOf image.seq) image := by
  have hdone := writeSectors_of_done (hsync.dirty_iff.mp hclean)
  rw [hsync.disk_eq, hdone]
  exact holds_applyWrites _ _ _

theorem persistSync_clean
    (hfits : sectorsFor (recRegion + payloadSize (List.ofFn m.files)) + 1 ≤ slotSectors) :
    (persistSync true [] m).dirty = false := by
  cases hdirty : m.dirty with
  | false => simp [persistSync, hdirty]
  | true =>
      obtain ⟨image, hsync⟩ := persistSync_writes [] hdirty hfits
      rw [hsync.dirty_iff, writeSectors_nil]

theorem SyncWrites.disk_other {m next : Machine} (hsync : SyncWrites m next image outcomes)
    {lba : ℕ} (hlba : (slotOf image.seq).other.Contains lba) : next.disk lba = m.disk lba := by
  rw [hsync.disk_eq]
  exact writeSectors_slotWrites_other image outcomes hlba

theorem SyncWrites.holds_or_header {m next : Machine} (hsync : SyncWrites m next image outcomes) :
    Holds next.disk (slotOf image.seq) image ∨
      next.dirty = true ∧
        slotHeader next.disk (slotOf image.seq) = slotHeader m.disk (slotOf image.seq) := by
  have hcases := writeSectors_slotWrites m.disk (slotOf image.seq) image outcomes
  simp only [← hsync.disk_eq] at hcases
  rcases hcases with hholds | ⟨hresult, hheader⟩
  · exact Or.inl hholds
  · refine Or.inr ⟨?_, hheader⟩
    by_contra hclean
    exact hresult (hsync.dirty_iff.mp (Bool.eq_false_of_not_eq_true hclean))

/-! ## What a boot restores -/

theorem boot_disk (env : LoadEnv) (m : Machine) : (boot env m).disk = m.disk := by
  simp only [boot, persistLoad]
  split <;> rfl

theorem boot_of_holds {slot : Slot} (beyond : ℕ → UInt8) (hholds : Holds m.disk slot image)
    (holder : Older m.disk slot.other image) :
    boot (LoadEnv.succeeding beyond) m =
      { disk := m.disk
        files := restoreTable (LoadEnv.succeeding beyond) image.bytes
        seq := image.seq
        dirty := false
        running := true } := by
  rw [boot, persistLoad, chooseSlot_of_holds 0 beyond hholds holder]

end EigenOS.Persist
