import EigenOS.Persist.CrashSafety

/-!
# The choice between the slots

`persist_load` compares the headers before it looks at a payload, and drops the slot it has
as soon as the other header is newer.  When that other slot then fails to load, nothing is
left: a valid even slot is lost exactly when the odd slot has a newer header over an invalid
rest.  On every other disk the valid slot with the highest sequence number is restored.
-/

namespace EigenOS.Persist

open EigenOS.Filesystem EigenOS.ByteLayout Function

/-- The size `load_slot` computes from a header. -/
def PkHdr.total (h : PkHdr) : ℕ := (h.recBytes.toNat + h.payloadBytes.toNat) % 2 ^ 64

/-- A valid header, and behind it bytes that match its CRC. -/
structure ValidSlot (disk : Disk) (slot : Slot) (buf : List UInt8) : Prop where
  magic_eq : (slotHeader disk slot).magic = persistMagic
  version_eq : (slotHeader disk slot).version = persistVersion
  recBytes_eq : (slotHeader disk slot).recBytes.toNat = recRegion
  total_pos : (slotHeader disk slot).total ≠ 0
  total_le : (slotHeader disk slot).total ≤ slotSectors * sectorSize - sectorSize
  bytes_eq : readSectors (fun _ => true) disk (sectorsFor (slotHeader disk slot).total)
    (slot.base + 1) (slotHeader disk slot).total = some buf
  crc_eq : crc32Buf buf = (slotHeader disk slot).crc

def IsValid (disk : Disk) (slot : Slot) : Prop := ∃ buf, ValidSlot disk slot buf

variable {slot : Slot} {buf : List UInt8}

theorem loadSlot_eq_some_iff {disk : Disk} (beyond : ℕ → UInt8) :
    loadSlot (LoadEnv.succeeding beyond) disk slot = some buf ↔ ValidSlot disk slot buf := by
  have hreadable : (LoadEnv.succeeding beyond).readable = fun _ => true := rfl
  constructor
  · intro h
    unfold loadSlot at h
    dsimp only at h
    rw [if_neg (by simp)] at h
    split at h
    · cases h
    · rename_i hmagic
      split at h
      · cases h
      · rename_i hversion
        split at h
        · cases h
        · rename_i hrec
          split at h
          · cases h
          · rename_i htotal
            obtain ⟨hpos, hle⟩ := not_or.mp htotal
            rw [if_neg (by simp), hreadable] at h
            split at h
            · cases h
            · rename_i bytes hbytes
              split at h
              · cases h
              · rename_i hcrc
                obtain rfl : bytes = buf := Option.some.inj h
                exact ⟨not_not.mp hmagic, not_not.mp hversion, not_not.mp hrec, hpos,
                  not_lt.mp hle, hbytes, not_not.mp hcrc⟩
  · intro h
    have hbytes : readSectors (LoadEnv.succeeding beyond).readable disk
        (sectorsFor (slotHeader disk slot).total) (slot.base + 1)
        (slotHeader disk slot).total = some buf := h.bytes_eq
    have hrange : ¬ ((slotHeader disk slot).total = 0 ∨
        slotSectors * sectorSize - sectorSize < (slotHeader disk slot).total) :=
      not_or.mpr ⟨h.total_pos, not_lt.mpr h.total_le⟩
    unfold PkHdr.total at hbytes hrange
    unfold loadSlot
    dsimp only
    rw [if_neg (by simp), if_neg (not_not.mpr h.magic_eq), if_neg (not_not.mpr h.version_eq),
      if_neg (not_not.mpr h.recBytes_eq), if_neg hrange, if_neg (by simp), hbytes]
    dsimp only
    rw [if_neg (not_not.mpr h.crc_eq)]

theorem loadSlot_eq_none_iff {disk : Disk} (beyond : ℕ → UInt8) :
    loadSlot (LoadEnv.succeeding beyond) disk slot = none ↔ ¬ IsValid disk slot := by
  constructor
  · rintro hnone ⟨buf, hbuf⟩
    rw [(loadSlot_eq_some_iff beyond).mpr hbuf] at hnone
    cases hnone
  · intro hinvalid
    cases hload : loadSlot (LoadEnv.succeeding beyond) disk slot with
    | none => rfl
    | some buf => exact absurd ⟨buf, (loadSlot_eq_some_iff beyond).mp hload⟩ hinvalid

/-! ## The state after the scan -/

/-- The scan ends with this slot's bytes. -/
def Chosen (st : LoadState) (disk : Disk) (slot : Slot) (buf : List UInt8) : Prop :=
  st.best = some buf ∧ st.found = true ∧ st.seq = (slotHeader disk slot).seq

section Scan

variable {disk : Disk} {seq : UInt32} (beyond : ℕ → UInt8)

def LoadState.start (seq : UInt32) : LoadState :=
  { best := none, bestSeq := 0, found := false, seq := seq }

theorem chooseSlot_eq (env : LoadEnv) :
    chooseSlot env disk seq =
      loadStep env disk (loadStep env disk (LoadState.start seq) .even) .odd := rfl

theorem loadStep_of_valid {st : LoadState} (hvalid : ValidSlot disk slot buf)
    (hnewer : st.best.isSome → st.bestSeq < (slotHeader disk slot).seq) :
    loadStep (LoadEnv.succeeding beyond) disk st slot =
      { best := some buf, bestSeq := (slotHeader disk slot).seq, found := true,
        seq := (slotHeader disk slot).seq } := by
  have hlook : ¬ (st.best.isSome ∧ (slotHeader disk slot).seq ≤ st.bestSeq) := by
    rintro ⟨hbest, hle⟩
    exact absurd (hnewer hbest) (UInt32.not_lt.mpr hle)
  unfold loadStep
  dsimp only
  rw [if_neg (by simp), if_neg (not_not.mpr hvalid.magic_eq), if_neg hlook,
    (loadSlot_eq_some_iff beyond).mpr hvalid]

/-- A slot that is not looked into: it has no magic, or a header that is not newer. -/
theorem loadStep_of_skipped {st : LoadState} (env : LoadEnv)
    (hskip : (slotHeader disk slot).magic = persistMagic →
      st.best.isSome ∧ (slotHeader disk slot).seq ≤ st.bestSeq) :
    loadStep env disk st slot = st := by
  unfold loadStep
  dsimp only
  split
  · rfl
  · split
    · rfl
    · rename_i hmagic
      exact if_pos (hskip (not_not.mp hmagic))

/-- After a slot that does not load nothing is kept, unless it was not looked into. -/
theorem best_loadStep_of_invalid {st : LoadState} (hinvalid : ¬ IsValid disk slot)
    (hmagic : (slotHeader disk slot).magic = persistMagic)
    (hnewer : st.best.isSome → st.bestSeq < (slotHeader disk slot).seq) :
    (loadStep (LoadEnv.succeeding beyond) disk st slot).best = none := by
  have hlook : ¬ (st.best.isSome ∧ (slotHeader disk slot).seq ≤ st.bestSeq) := by
    rintro ⟨hbest, hle⟩
    exact absurd (hnewer hbest) (UInt32.not_lt.mpr hle)
  unfold loadStep
  dsimp only
  rw [if_neg (by simp), if_neg (not_not.mpr hmagic), if_neg hlook,
    (loadSlot_eq_none_iff beyond).mpr hinvalid]

theorem best_first_of_invalid (hinvalid : ¬ IsValid disk .even) :
    (loadStep (LoadEnv.succeeding beyond) disk (LoadState.start seq) .even).best = none := by
  by_cases hmagic : (slotHeader disk .even).magic = persistMagic
  · exact best_loadStep_of_invalid beyond hinvalid hmagic nofun
  · rw [loadStep_of_skipped _ fun h => absurd h hmagic]
    rfl

/-- The odd slot has a newer header than the valid even slot, and does not load. -/
structure NewerBroken (disk : Disk) : Prop where
  even_valid : IsValid disk .even
  magic_eq : (slotHeader disk .odd).magic = persistMagic
  seq_lt : (slotHeader disk .even).seq < (slotHeader disk .odd).seq
  odd_invalid : ¬ IsValid disk .odd

/-- The valid slot with the highest sequence number. -/
structure Newest (disk : Disk) (slot : Slot) (buf : List UInt8) : Prop where
  valid : ValidSlot disk slot buf
  highest : ∀ other, IsValid disk other →
    (slotHeader disk other).seq ≤ (slotHeader disk slot).seq

theorem newest_iff :
    Newest disk slot buf ↔ ValidSlot disk slot buf ∧
      (IsValid disk slot.other →
        (slotHeader disk slot.other).seq ≤ (slotHeader disk slot).seq) := by
  constructor
  · exact fun h => ⟨h.valid, h.highest slot.other⟩
  · rintro ⟨hvalid, hother⟩
    refine ⟨hvalid, ?_⟩
    intro other hvalidOther
    by_cases hsame : other = slot
    · rw [hsame]
      exact UInt32.le_refl _
    · obtain rfl := Slot.eq_other_of_ne hsame
      exact hother hvalidOther

theorem chosen_of_even (heven : ValidSlot disk .even buf) (hsound : ¬ NewerBroken disk) :
    ∃ slot buf, Newest disk slot buf ∧
      Chosen (chooseSlot (LoadEnv.succeeding beyond) disk seq) disk slot buf := by
  have hfirst : loadStep (LoadEnv.succeeding beyond) disk (LoadState.start seq) .even = _ :=
    loadStep_of_valid beyond heven nofun
  by_cases hnewer : (slotHeader disk .odd).magic = persistMagic ∧
      (slotHeader disk .even).seq < (slotHeader disk .odd).seq
  · obtain ⟨hmagic, hlt⟩ := hnewer
    have hodd : IsValid disk .odd := by
      by_contra hinvalid
      exact hsound ⟨⟨buf, heven⟩, hmagic, hlt, hinvalid⟩
    obtain ⟨bytes, hbytes⟩ := hodd
    refine ⟨.odd, bytes, newest_iff.mpr ⟨hbytes, fun _ => UInt32.le_of_lt hlt⟩, ?_⟩
    rw [chooseSlot_eq, hfirst, loadStep_of_valid beyond hbytes]
    · exact ⟨rfl, rfl, rfl⟩
    · exact fun _ => hlt
  · have hold : (slotHeader disk .odd).magic = persistMagic →
        (slotHeader disk .odd).seq ≤ (slotHeader disk .even).seq := by
      intro hmagic
      exact UInt32.not_lt.mp fun hlt => hnewer ⟨hmagic, hlt⟩
    refine ⟨.even, buf, newest_iff.mpr ⟨heven, ?_⟩, ?_⟩
    · rintro ⟨bytes, hbytes⟩
      exact hold hbytes.magic_eq
    · rw [chooseSlot_eq, hfirst, loadStep_of_skipped]
      · exact ⟨rfl, rfl, rfl⟩
      · exact fun hmagic => ⟨rfl, hold hmagic⟩

theorem chosen_of_odd (heven : ¬ IsValid disk .even) (hodd : ValidSlot disk .odd buf) :
    ∃ slot buf, Newest disk slot buf ∧
      Chosen (chooseSlot (LoadEnv.succeeding beyond) disk seq) disk slot buf := by
  have hbest : (loadStep (LoadEnv.succeeding beyond) disk (LoadState.start seq) .even).best =
      none := best_first_of_invalid beyond heven
  refine ⟨.odd, buf, newest_iff.mpr ⟨hodd, fun h => absurd h heven⟩, ?_⟩
  rw [chooseSlot_eq, loadStep_of_valid beyond hodd]
  · exact ⟨rfl, rfl, rfl⟩
  · rw [hbest]
    exact nofun

theorem best_of_newerBroken (hbroken : NewerBroken disk) :
    (chooseSlot (LoadEnv.succeeding beyond) disk seq).best = none := by
  obtain ⟨buf, heven⟩ := hbroken.even_valid
  have hfirst : loadStep (LoadEnv.succeeding beyond) disk (LoadState.start seq) .even = _ :=
    loadStep_of_valid beyond heven nofun
  rw [chooseSlot_eq, hfirst]
  exact best_loadStep_of_invalid beyond hbroken.odd_invalid hbroken.magic_eq
    fun _ => hbroken.seq_lt

end Scan

/-! ## What a boot restores -/

theorem boot_of_chosen {env : LoadEnv} {m : Machine}
    (h : Chosen (chooseSlot env m.disk 0) m.disk slot buf) :
    (boot env m).files = restoreTable env buf ∧
      (boot env m).seq = (slotHeader m.disk slot).seq := by
  obtain ⟨hbest, hfound, hseq⟩ := h
  unfold boot persistLoad
  dsimp only
  rw [hbest, hfound]
  exact ⟨rfl, hseq⟩

theorem boot_of_nothing {env : LoadEnv} {m : Machine}
    (h : (chooseSlot env m.disk 0).best = none) : (boot env m).files = initialTable := by
  unfold boot persistLoad
  dsimp only
  rw [h]

/-- A restored free slot has the parent -1, which no slot of the fresh table has. -/
theorem restoreTable_ne_initialTable (env : LoadEnv) (buf : List UInt8) :
    restoreTable env buf ≠ initialTable := by
  intro hsame
  have hslot := congrFun hsame ⟨1, by decide⟩
  have hfresh : initialTable ⟨1, by decide⟩ = FileNode.zero := if_neg (by decide)
  rw [hfresh] at hslot
  unfold restoreTable restoreNode at hslot
  dsimp only at hslot
  split at hslot
  · have hparent : (-1 : ℤ) = 0 := congrArg FileNode.parentDir hslot
    cases hparent
  · rename_i hused
    have hinUse := congrArg FileNode.inUse hslot
    split at hinUse
    · split at hinUse
      · simp [hused] at hinUse
      · simp [hused] at hinUse
    · simp [hused] at hinUse

/-- If a slot is valid, the boot restores the valid slot with the highest sequence
number. -/
def RestoresNewest (env : LoadEnv) (m : Machine) : Prop :=
  (∃ slot, IsValid m.disk slot) →
    ∃ slot buf, Newest m.disk slot buf ∧ (boot env m).files = restoreTable env buf ∧
      (boot env m).seq = (slotHeader m.disk slot).seq

theorem restoresNewest_of_sound (beyond : ℕ → UInt8) {m : Machine}
    (hsound : ¬ NewerBroken m.disk) : RestoresNewest (LoadEnv.succeeding beyond) m := by
  rintro ⟨slot, hslot⟩
  have hchosen : ∃ slot buf, Newest m.disk slot buf ∧
      Chosen (chooseSlot (LoadEnv.succeeding beyond) m.disk 0) m.disk slot buf := by
    by_cases heven : IsValid m.disk .even
    · obtain ⟨buf, hbuf⟩ := heven
      exact chosen_of_even beyond hbuf hsound
    · cases slot with
      | even => exact absurd hslot heven
      | odd =>
          obtain ⟨buf, hbuf⟩ := hslot
          exact chosen_of_odd beyond heven hbuf
  obtain ⟨slot, buf, hnewest, hchosen⟩ := hchosen
  exact ⟨slot, buf, hnewest, boot_of_chosen hchosen⟩

theorem not_restoresNewest_of_broken (beyond : ℕ → UInt8) {m : Machine}
    (hbroken : NewerBroken m.disk) : ¬ RestoresNewest (LoadEnv.succeeding beyond) m := by
  intro hrestores
  obtain ⟨slot, buf, _, hfiles, _⟩ := hrestores ⟨.even, hbroken.even_valid⟩
  have hnothing : (boot (LoadEnv.succeeding beyond) m).files = initialTable :=
    boot_of_nothing (best_of_newerBroken beyond hbroken)
  exact restoreTable_ne_initialTable _ buf (hfiles.symm.trans hnothing)

/-- The boot restores the newest valid slot of every disk but those whose odd slot has a
newer header than the valid even slot and is invalid itself. -/
theorem restoresNewest_iff (beyond : ℕ → UInt8) (m : Machine) :
    RestoresNewest (LoadEnv.succeeding beyond) m ↔ ¬ NewerBroken m.disk := by
  constructor
  · exact fun hrestores hbroken => not_restoresNewest_of_broken beyond hbroken hrestores
  · exact restoresNewest_of_sound beyond

/-! ## A damaged header -/

def rootMachine : Machine where
  disk := fun _ _ => 0
  files := initialTable
  seq := 1
  dirty := true
  running := true

/-- Its snapshot, as the second save writes it. -/
def rootImage : Image :=
  imageOf rootMachine.files 2 (fits_of_files_eq rfl)
    (Option.some_get (rfl : (buildSnapshot true rootMachine.files).isSome = true)).symm

/-- The header of the third save with a wrong payload size. -/
def damagedHdr : PkHdr where
  magic := persistMagic
  version := persistVersion
  seq := 3
  nodeCount := 1
  recBytes := UInt32.ofNat recRegion
  payloadBytes := 0x10000000000
  crc := 0
  reserved := 0

def damagedDisk : Disk :=
  update
    (applyWrites rootMachine.disk
      (slotWrites .even rootImage.bytes rootImage.nodes rootImage.seq))
    Slot.odd.base (toSector (encodeHdr damagedHdr))

theorem holds_damagedDisk : Holds damagedDisk .even rootImage := by
  apply (holds_applyWrites rootMachine.disk .even rootImage).congr
  intro lba hlba
  have hne : lba ≠ Slot.odd.base := by
    rintro rfl
    exact Slot.not_contains_of_other .odd hlba (Slot.contains_base .odd)
  exact update_of_ne hne _ _

theorem newerBroken_damagedDisk : NewerBroken damagedDisk := by
  have hodd : slotHeader damagedDisk .odd = damagedHdr :=
    slotHeader_of_sector rfl (update_self _ _ _)
  have heven := holds_damagedDisk
  refine ⟨⟨rootImage.bytes, ?_⟩, ?_, ?_, ?_⟩
  · rw [← loadSlot_eq_some_iff fun _ => 0]
    exact loadSlot_of_holds _ heven
  · rw [hodd]
    rfl
  · rw [hodd, heven.header_eq]
    decide
  · rintro ⟨buf, hbuf⟩
    have hle := hbuf.total_le
    rw [hodd] at hle
    exact absurd hle (by decide)

/-- One damaged header in the odd slot loses the good snapshot in the even slot. -/
theorem damagedHeader_not_restored :
    ¬ RestoresNewest (LoadEnv.succeeding fun _ => 0)
      { rootMachine with disk := damagedDisk } :=
  not_restoresNewest_of_broken _ newerBroken_damagedDisk

end EigenOS.Persist
