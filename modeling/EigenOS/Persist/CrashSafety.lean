import EigenOS.Library.Transition
import EigenOS.Persist.RoundTrip

/-!
# Crash safety of the two slots

Syncs follow each other; any sector write of one may fail, and the machine may stop
before any of them and boot again.  The last saved snapshot survives as long as no
failing or interrupted sync is aimed at the slot that holds it.  Because the counter
advances on failure too, the sync after a failed one is aimed exactly there.
-/

namespace EigenOS.Persist

open EigenOS.Filesystem EigenOS.Transition Function

/-- The machine, and the image of the last sync that cleared the dirty flag. -/
structure CrashState where
  machine : Machine
  saved : Image

inductive Event where
  | change (files : Table) (mark : Bool)
  | sync (allocated : Bool) (outcomes : List WriteOutcome)
  | boot (beyond : ℕ → UInt8)

/-- The image a sync of `m` writes. -/
structure ImageOf (m : Machine) (image : Image) : Prop where
  snapshot_eq : buildSnapshot true m.files =
    some { bytes := image.bytes, nodes := image.nodes }
  seq_eq : image.seq = m.seq + 1

/-- A machine that has stopped can only boot. -/
inductive CrashStep : CrashState → Event → CrashState → Prop where
  | change {m : Machine} {saved : Image} (files : Table) (mark : Bool)
      (hrunning : m.running = true) :
      CrashStep ⟨m, saved⟩ (.change files mark)
        ⟨{ m with files := files, dirty := m.dirty || mark }, saved⟩
  | keep {m : Machine} {saved : Image} {allocated : Bool} {outcomes : List WriteOutcome}
      (hrunning : m.running = true)
      (hdirty : (persistSync allocated outcomes m).dirty = m.dirty) :
      CrashStep ⟨m, saved⟩ (.sync allocated outcomes)
        ⟨persistSync allocated outcomes m, saved⟩
  | save {m : Machine} {saved image : Image} {allocated : Bool}
      {outcomes : List WriteOutcome} (hrunning : m.running = true)
      (hdirty : m.dirty = true)
      (hclean : (persistSync allocated outcomes m).dirty = false)
      (himage : ImageOf m image) :
      CrashStep ⟨m, saved⟩ (.sync allocated outcomes)
        ⟨persistSync allocated outcomes m, image⟩
  | boot {m : Machine} {saved : Image} (beyond : ℕ → UInt8) :
      CrashStep ⟨m, saved⟩ (.boot beyond) ⟨boot (LoadEnv.succeeding beyond) m, saved⟩

/-- A slot still holds the saved image in full, and a boot restores it or a newer image
that is complete on the disk. -/
structure CrashSafe (st : CrashState) : Prop where
  held : ∃ slot, Holds st.machine.disk slot st.saved
  restored : ∃ slot image, Holds st.machine.disk slot image ∧
    (image = st.saved ∨ st.saved.seq < image.seq) ∧
    ∀ beyond, (boot (LoadEnv.succeeding beyond) st.machine).files =
      restoreTable (LoadEnv.succeeding beyond) image.bytes

/-- The state a successful sync leaves: the image in its slot, the other slot older. -/
structure JustSaved (st : CrashState) : Prop where
  held : Holds st.machine.disk (slotOf st.saved.seq) st.saved
  other_older : Older st.machine.disk (slotOf st.saved.seq).other st.saved
  seq_eq : st.machine.seq = st.saved.seq

/-- A sync that writes is aimed at the other slot, or all of its writes succeed. -/
def AimedAway (st : CrashState) : Event → CrashState → Prop
  | .sync allocated outcomes, _ =>
      st.machine.dirty = true → allocated = true →
        st.machine.seq.toNat + 1 < 2 ^ 32 ∧
          (slotOf (st.machine.seq + 1) ≠ slotOf st.saved.seq ∨
            ∀ outcome ∈ outcomes, outcome = .ok)
  | _, _ => True

/-! ## The invariant -/

/-- The slot without the saved image has an older header, or a complete image that a
failed sync left there under the current number. -/
structure CrashInv (st : CrashState) : Prop where
  held : Holds st.machine.disk (slotOf st.saved.seq) st.saved
  saved_le : st.saved.seq ≤ st.machine.seq
  other : Older st.machine.disk (slotOf st.saved.seq).other st.saved ∨
    ∃ image, Holds st.machine.disk (slotOf st.saved.seq).other image ∧
      slotOf image.seq = (slotOf st.saved.seq).other ∧ st.saved.seq < image.seq ∧
      image.seq = st.machine.seq

variable {st : CrashState} {m next : Machine} {outcomes : List WriteOutcome}

theorem JustSaved.crashInv (hst : JustSaved st) : CrashInv st where
  held := hst.held
  saved_le := by
    rw [hst.seq_eq]
    exact UInt32.le_refl _
  other := Or.inl hst.other_older

theorem CrashInv.exists_loaded (hst : CrashInv st) :
    ∃ image, Holds st.machine.disk (slotOf image.seq) image ∧
      Older st.machine.disk (slotOf image.seq).other image ∧
      (image = st.saved ∨ slotOf image.seq = (slotOf st.saved.seq).other ∧
        st.saved.seq < image.seq) := by
  rcases hst.other with holder | ⟨image, hholds, hparity, hlt, _⟩
  · exact ⟨st.saved, hst.held, holder, Or.inl rfl⟩
  · refine ⟨image, ?_, ?_, Or.inr ⟨hparity, hlt⟩⟩
    · rw [hparity]
      exact hholds
    · rw [hparity, Slot.other_other]
      exact hst.held.older_of_lt hlt

theorem CrashInv.crashSafe (hst : CrashInv st) : CrashSafe st := by
  obtain ⟨image, hholds, holder, hwhich⟩ := hst.exists_loaded
  refine ⟨⟨_, hst.held⟩, _, image, hholds, hwhich.imp_right And.right, ?_⟩
  intro beyond
  rw [boot_of_holds beyond hholds holder]

theorem crashInv_boot {saved : Image} (hst : CrashInv ⟨m, saved⟩) (beyond : ℕ → UInt8) :
    CrashInv ⟨boot (LoadEnv.succeeding beyond) m, saved⟩ := by
  obtain ⟨image, hholds, holder, hwhich⟩ := hst.exists_loaded
  have hboot := boot_of_holds beyond hholds holder
  rcases hwhich with rfl | ⟨hparity, hlt⟩
  · rw [hboot]
    exact ⟨hholds, UInt32.le_refl _, Or.inl holder⟩
  · rw [hboot]
    refine ⟨hst.held, UInt32.le_of_lt hlt, Or.inr ⟨image, ?_, hparity, hlt, rfl⟩⟩
    rw [← hparity]
    exact hholds

/-- A sync aimed at the other slot, however far it gets, without being acknowledged. -/
theorem crashInv_sync_away {saved image : Image} (hst : CrashInv ⟨m, saved⟩)
    (hsync : SyncWrites m next image outcomes) (hlt : m.seq < image.seq)
    (haway : slotOf image.seq = (slotOf saved.seq).other) : CrashInv ⟨next, saved⟩ := by
  have hkept : Holds next.disk (slotOf saved.seq) saved := by
    apply hst.held.congr
    intro lba hlba
    apply hsync.disk_other
    rw [haway, Slot.other_other]
    exact hlba
  have hsavedLt : saved.seq < image.seq := UInt32.lt_of_le_of_lt hst.saved_le hlt
  refine ⟨hkept, ?_, ?_⟩
  · rw [hsync.seq_eq]
    exact UInt32.le_of_lt hsavedLt
  · rcases hsync.holds_or_header with hholds | ⟨_, hheader⟩
    · rw [haway] at hholds
      exact Or.inr ⟨image, hholds, haway, hsavedLt, hsync.seq_eq.symm⟩
    · rw [haway] at hheader
      left
      rcases hst.other with holder | ⟨left, _, hparity, _, hseq⟩
      · rw [Older, hheader]
        exact holder
      · -- the number after that of a complete image selects the saved image's slot
        have hnext : slotOf image.seq = (slotOf left.seq).other := by
          rw [hsync.seq_image, hseq]
          exact slotOf_succ _
        rw [hnext, hparity, Slot.other_other] at haway
        exact absurd haway.symm (Slot.other_ne _)

theorem SyncWrites.image_unique {image other : Image} (hsync : SyncWrites m next image outcomes)
    (hother : ImageOf m other) : image = other := by
  have hsnap := hsync.snapshot_eq
  rw [hother.snapshot_eq, Option.some.injEq, Snapshot.mk.injEq] at hsnap
  obtain ⟨hbytes, hnodes⟩ := hsnap
  have hseq : image.seq = other.seq := hsync.seq_image.trans hother.seq_eq.symm
  cases image
  cases other
  simp only at hbytes hnodes hseq
  subst hbytes hnodes hseq
  rfl

theorem crashInv_sync_saved {saved image : Image} (hst : CrashInv ⟨m, saved⟩)
    (hsync : SyncWrites m next image outcomes) (hlt : m.seq < image.seq)
    (hclean : next.dirty = false) : CrashInv ⟨next, image⟩ := by
  have hsavedLt : saved.seq < image.seq := UInt32.lt_of_le_of_lt hst.saved_le hlt
  refine ⟨hsync.holds_of_clean hclean, ?_, Or.inl ?_⟩
  · rw [hsync.seq_eq]
    exact UInt32.le_refl _
  · rw [Older, slotHeader_congr (hsync.disk_other (Slot.contains_base _))]
    by_cases haway : slotOf image.seq = slotOf saved.seq
    · rw [haway]
      rcases hst.other with holder | ⟨left, hleft, _, _, hseq⟩
      · exact fun hmagic => UInt32.lt_trans (holder hmagic) hsavedLt
      · apply hleft.older_of_lt
        rw [hseq]
        exact hlt
    · have hother := Slot.eq_other_of_ne haway
      rw [hother, Slot.other_other]
      exact hst.held.older_of_lt hsavedLt

theorem crashInv_step {st next : CrashState} {event : Event} (hst : CrashInv st)
    (haimed : AimedAway st event next) (hstep : CrashStep st event next) :
    CrashInv next := by
  cases hstep with
  | change files mark hrunning => exact ⟨hst.held, hst.saved_le, hst.other⟩
  | boot beyond => exact crashInv_boot hst beyond
  | @keep m saved allocated outcomes hrunning hdirty =>
      rcases persistSync_cases allocated outcomes m with hsame | ⟨hallocated, image, hsync⟩
      · rw [hsame]
        exact hst
      · obtain ⟨hseq, hslot⟩ := haimed hsync.dirty_before hallocated
        have hlt : m.seq < image.seq := by
          rw [hsync.seq_image]
          exact lt_succ_of_no_wrap hseq
        have hnot : ¬∀ outcome ∈ outcomes, outcome = .ok := by
          intro hok
          have hclean := hsync.dirty_iff.mpr
            (congrArg Prod.snd (writeSectors_of_all_ok hok))
          rw [hdirty, hsync.dirty_before] at hclean
          exact absurd hclean (by decide)
        have haway := Slot.eq_other_of_ne (hslot.resolve_right hnot)
        rw [← hsync.seq_image] at haway
        exact crashInv_sync_away hst hsync hlt haway
  | @save m saved image allocated outcomes hrunning hdirty hclean himage =>
      rcases persistSync_cases allocated outcomes m with hsame | ⟨hallocated, written, hsync⟩
      · rw [hsame, hdirty] at hclean
        exact absurd hclean (by decide)
      · obtain ⟨hseq, _⟩ := haimed hdirty hallocated
        obtain rfl := hsync.image_unique himage
        have hlt : m.seq < written.seq := by
          rw [hsync.seq_image]
          exact lt_succ_of_no_wrap hseq
        exact crashInv_sync_saved hst hsync hlt hclean

/-- The last saved snapshot survives every run in which no failing or interrupted sync is
aimed at the slot that holds it. -/
theorem crashSafe_of_aimedAway {start : CrashState} {run : List (Event × CrashState)}
    (hstart : JustSaved start) (hrun : Along CrashStep start run)
    (haimed : Along AimedAway start run) : Always CrashSafe start run := by
  have hinv := always_of_guarded CrashInv
    (fun _ _ _ hst hguard hstep => crashInv_step hst hguard hstep)
    hstart.crashInv hrun haimed
  exact hinv.mono fun _ hst => hst.crashSafe

/-! ## Two syncs in a row that fail -/

/-- All files are deleted. -/
def emptied (m : Machine) : Machine :=
  { m with files := initialTable, dirty := m.dirty || true }

/-- The first sector write of the next sync fails. -/
def failed (m : Machine) : Machine := persistSync true [.error false] (emptied m)

/-- The sync after that is cut off behind its first sector. -/
def stopped (m : Machine) : Machine := persistSync true [.ok, .stop] (failed m)

/-- A sync that is cut off before its first sector, and the boot after it. -/
def interruptedRun (m : Machine) (image : Image) : List (Event × CrashState) :=
  let off := persistSync true [.stop] (emptied m)
  [(.change initialTable true, ⟨emptied m, image⟩), (.sync true [.stop], ⟨off, image⟩),
    (.boot fun _ => 0, ⟨boot (LoadEnv.succeeding fun _ => 0) off, image⟩)]

/-- A sync that fails and one that is cut off. -/
def failingRun (m : Machine) (image : Image) : List (Event × CrashState) :=
  [(.change initialTable true, ⟨emptied m, image⟩),
    (.sync true [.error false], ⟨failed m, image⟩),
    (.sync true [.ok, .stop], ⟨stopped m, image⟩)]

theorem emptied_dirty (m : Machine) : (emptied m).dirty = true := by
  simp [emptied]

theorem storesBody_initialTable (slot : Fin maxFiles) :
    storesBody (initialTable slot) = false := by
  by_cases hslot : slot = rootSlot
  · simp [storesBody, initialTable, hslot, rootNode]
  · simp [storesBody, initialTable, hslot]

theorem fits_of_files_eq (hfiles : m.files = initialTable) :
    sectorsFor (recRegion + payloadSize (List.ofFn m.files)) + 1 ≤ slotSectors := by
  have hpayload : payloadSize (List.ofFn m.files) = 0 := by
    rw [hfiles, payloadSize, List.sum_eq_zero_iff]
    intro value hvalue
    obtain ⟨fp, hfp, rfl⟩ := List.mem_map.mp hvalue
    obtain ⟨slot, rfl⟩ := List.mem_ofFn.mp hfp
    rw [storesBody_initialTable]
    rfl
  rw [hpayload]
  decide

variable {image : Image}

theorem SyncWrites.of_stop (hsync : SyncWrites m next image [.stop]) : next.dirty = true := by
  obtain ⟨rest, _, hwrites⟩ := slotWrites_eq_cons (slotOf image.seq) image
  have hdirty := hsync.dirty_iff
  rw [hwrites] at hdirty
  simpa [writeSectors, nextOutcome] using hdirty

theorem along_interruptedRun (hrunning : m.running = true) :
    Along CrashStep ⟨m, image⟩ (interruptedRun m image) := by
  obtain ⟨written, hwrites⟩ := persistSync_writes [.stop] (emptied_dirty m)
    (fits_of_files_eq rfl)
  have hdirty : (persistSync true [.stop] (emptied m)).dirty = (emptied m).dirty := by
    rw [hwrites.of_stop, emptied_dirty]
  exact ⟨.change initialTable true hrunning, .keep hrunning hdirty, .boot _, trivial⟩

theorem aimedAway_interruptedRun (hsaved : JustSaved ⟨m, image⟩) (hseq : m.seq.toNat + 1 < 2 ^ 32) :
    Along AimedAway ⟨m, image⟩ (interruptedRun m image) := by
  refine ⟨trivial, fun _ _ => ⟨hseq, Or.inl ?_⟩, trivial, trivial⟩
  have hsavedSeq : m.seq = image.seq := hsaved.seq_eq
  have hslot : slotOf (m.seq + 1) = (slotOf image.seq).other := by
    rw [slotOf_succ, hsavedSeq]
  exact hslot ▸ Slot.other_ne _

theorem SyncWrites.of_first_error (hsync : SyncWrites m next image [.error false]) :
    next.disk = m.disk ∧ next.dirty = true ∧
      (m.running = true → next.running = true) := by
  obtain ⟨rest, _, hwrites⟩ := slotWrites_eq_cons (slotOf image.seq) image
  have hresult : writeSectors m.disk
      (slotWrites (slotOf image.seq) image.bytes image.nodes image.seq) [.error false] =
        (m.disk, .failed) := by
    rw [hwrites]
    rfl
  have hdirty := hsync.dirty_iff
  rw [hresult] at hdirty
  refine ⟨?_, by simpa using hdirty, ?_⟩
  · rw [hsync.disk_eq, hresult]
  · intro hrunning
    rw [hsync.running_iff, hresult]
    exact ⟨WriteResult.noConfusion, hrunning⟩

theorem SyncWrites.of_second_stop (hsync : SyncWrites m next image [.ok, .stop]) :
    next.disk = update m.disk ((slotOf image.seq).base + 1)
        (toSector (image.bytes.take sectorSize)) ∧ next.dirty = true := by
  obtain ⟨rest, hrest, hwrites⟩ := slotWrites_eq_cons (slotOf image.seq) image
  obtain ⟨⟨lba, sector⟩, others, rfl⟩ := List.exists_cons_of_ne_nil hrest
  have hresult : writeSectors m.disk
      (slotWrites (slotOf image.seq) image.bytes image.nodes image.seq) [.ok, .stop] =
        (update m.disk ((slotOf image.seq).base + 1)
          (toSector (image.bytes.take sectorSize)), .stopped) := by
    rw [hwrites]
    rfl
  have hdirty := hsync.dirty_iff
  rw [hresult] at hdirty
  refine ⟨?_, by simpa using hdirty⟩
  rw [hsync.disk_eq, hresult]

theorem used_snapshotBytes {files : Table} (slot : Fin maxFiles)
    (hparent : InInt32 (recordOf (files slot)).parent) :
    (snapshotBytes files).getD (slot.val * recSize) 0 = (recordOf (files slot)).used := by
  have hused := used_recordAt (snapshotBytes files) (fun _ => 0) slot
  rw [snapshotBytes, recordAt_snapshot _ slot _ hparent] at hused
  exact hused.symm

theorem Holds.getD_bytes {disk : Disk} {slot : Slot} (hholds : Holds disk slot image)
    (index : Fin sectorSize) : image.bytes.getD index 0 = disk (slot.base + 1) index := by
  have hle := image.records_le
  have hregion : recRegion = 22016 := rfl
  have hsector : sectorSize = 512 := rfl
  have hlt : index.val < image.bytes.length := by
    have := index.isLt
    omega
  have hpos : sectorsFor image.bytes.length ≠ 0 := by
    have hbytes := sectorsFor_mul_ge image.bytes.length
    intro hzero
    rw [hzero] at hbytes
    omega
  obtain ⟨count, hcount⟩ := Nat.exists_eq_succ_of_ne_zero hpos
  have hbytes := hholds.bytes_eq
  rw [hcount] at hbytes
  exact getD_readSectors hbytes hlt

theorem slotOf_second_sync (seq : UInt32) : slotOf (seq + 1 + 1) = slotOf seq := by
  rw [slotOf_succ, slotOf_succ, Slot.other_other]

/-- The two failing syncs destroy a saved image with a file in slot 1 when the other slot
is blank. -/
theorem failingRun_destroys (hsaved : JustSaved ⟨m, image⟩) (hrunning : m.running = true)
    (hfile : image.bytes.getD recSize 0 = 1)
    (hblank : (slotHeader m.disk (slotOf image.seq).other).magic ≠ persistMagic) :
    Along CrashStep ⟨m, image⟩ (failingRun m image) ∧
      ¬Always CrashSafe ⟨m, image⟩ (failingRun m image) := by
  obtain ⟨second, hsecond⟩ :
      ∃ second, SyncWrites (emptied m) (failed m) second [.error false] :=
    persistSync_writes _ (emptied_dirty m) (fits_of_files_eq rfl)
  obtain ⟨hdisk, hdirty, hstillRunning⟩ := hsecond.of_first_error
  obtain ⟨third, hthird⟩ :
      ∃ third, SyncWrites (failed m) (stopped m) third [.ok, .stop] :=
    persistSync_writes _ hdirty (fits_of_files_eq hsecond.files_eq)
  obtain ⟨hstopped, hstoppedDirty⟩ := hthird.of_second_stop
  have hfirstKept : (failed m).dirty = (emptied m).dirty := by
    rw [emptied_dirty]
    exact hdirty
  have hsecondKept : (stopped m).dirty = (failed m).dirty := by
    rw [hfirstKept, emptied_dirty]
    exact hstoppedDirty
  refine ⟨⟨.change initialTable true hrunning, .keep hrunning hfirstKept,
    .keep (hstillRunning hrunning) hsecondKept, trivial⟩, ?_⟩
  intro hsafe
  have hlast : CrashSafe ⟨stopped m, image⟩ := hsafe.final
  obtain ⟨slot, hholds⟩ := hlast.held
  have hparity : slotOf third.seq = slotOf image.seq := by
    have hseq : third.seq = m.seq + 1 + 1 := by
      rw [hthird.seq_image, hsecond.seq_eq, hsecond.seq_image]
      rfl
    have hsavedSeq : m.seq = image.seq := hsaved.seq_eq
    rw [hseq, slotOf_second_sync, hsavedSeq]
  rw [hdisk, hparity] at hstopped
  by_cases hslot : slot = slotOf image.seq
  · -- its first sector now says that slot 1 is unused
    have hbacked : ∀ entry, Backed ((failed m).files entry) := by
      intro entry hstores
      rw [hsecond.files_eq] at hstores
      exact absurd (hstores.symm.trans (storesBody_initialTable entry)) (by decide)
    have hbytes : third.bytes = snapshotBytes initialTable := by
      rw [hthird.bytes_eq hbacked, hsecond.files_eq]
      rfl
    have hunused : (snapshotBytes initialTable).getD recSize 0 = 0 :=
      used_snapshotBytes firstSlot ⟨by decide, by decide⟩
    have hread := hholds.getD_bytes ⟨recSize, by decide⟩
    rw [hslot] at hread
    have hsector : (third.bytes.take sectorSize).getD recSize 0 = 0 := by
      rw [List.getD_eq_getElem?_getD, List.getElem?_take_of_lt (by decide),
        ← List.getD_eq_getElem?_getD, hbytes, hunused]
    simp only [hstopped, update_self, toSector] at hread
    rw [hfile, hsector] at hread
    exact absurd hread (by decide)
  · -- the other slot has no header
    rw [Slot.eq_other_of_ne hslot] at hholds
    have hne : (slotOf image.seq).other.base ≠ (slotOf image.seq).base + 1 := by
      cases slotOf image.seq <;> decide
    have hsame : (stopped m).disk (slotOf image.seq).other.base =
        m.disk (slotOf image.seq).other.base := by
      rw [hstopped, update_of_ne hne]
      rfl
    rw [← slotHeader_congr hsame, hholds.header_eq] at hblank
    exact hblank image.magic_header

/-- A machine with one saved snapshot, under number 1. -/
def savedMachine : Machine := persistSync true [] (unsavedMachine externalSecond)

theorem exists_justSaved : ∃ image, SyncWrites (unsavedMachine externalSecond) savedMachine
    image [] ∧ JustSaved ⟨savedMachine, image⟩ ∧ savedMachine.running = true := by
  have hclean : (persistSync true [] (unsavedMachine externalSecond)).dirty = false :=
    persistSync_clean (by decide +kernel)
  obtain ⟨image, hsync, hholds, holder⟩ :=
    (faultFree_unsavedMachine externalSecond).holds_persistSync (by decide) rfl hclean
  refine ⟨image, hsync, ⟨hholds, holder, hsync.seq_eq⟩, ?_⟩
  rw [savedMachine, hsync.running_iff, writeSectors_nil]
  exact ⟨WriteResult.noConfusion, rfl⟩

/-- The saved snapshot survives a sync that is cut off in the other slot. -/
theorem interruptedRun_crashSafe :
    ∃ image, Always CrashSafe ⟨savedMachine, image⟩ (interruptedRun savedMachine image) := by
  obtain ⟨image, hsync, hsaved, hrunning⟩ := exists_justSaved
  have hseq : savedMachine.seq.toNat + 1 < 2 ^ 32 := by
    rw [hsync.seq_eq, hsync.seq_image]
    decide
  exact ⟨image, crashSafe_of_aimedAway hsaved (along_interruptedRun hrunning)
    (aimedAway_interruptedRun hsaved hseq)⟩

/-- After a failed sync the next one is aimed at the saved snapshot, and destroys it when
it is cut off. -/
theorem failingRun_not_crashSafe : ∃ image, JustSaved ⟨savedMachine, image⟩ ∧
    Along CrashStep ⟨savedMachine, image⟩ (failingRun savedMachine image) ∧
      ¬Always CrashSafe ⟨savedMachine, image⟩ (failingRun savedMachine image) := by
  obtain ⟨image, hsync, hsaved, hrunning⟩ := exists_justSaved
  have hbytes : image.bytes = snapshotBytes externalSecond :=
    hsync.bytes_eq (storable_twoFiles 7 5 Int.one_nonneg le_rfl).backed
  have hfile : image.bytes.getD recSize 0 = 1 := by
    rw [hbytes]
    exact used_snapshotBytes firstSlot ⟨by decide, by decide⟩
  have hblank : (slotHeader savedMachine.disk (slotOf image.seq).other).magic ≠
      persistMagic := by
    rw [slotHeader_congr (hsync.disk_other (Slot.contains_base _))]
    exact magic_unsavedMachine externalSecond _
  exact ⟨image, hsaved, failingRun_destroys hsaved hrunning hfile hblank⟩

end EigenOS.Persist
