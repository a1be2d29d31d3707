import EigenOS.Library.BufferAccess
import EigenOS.Persist.SlotChoice

/-!
# What the loader reads of an accepted slot

`load_slot` bounds the sum of the two sizes in the header, but adds them in 64 bits first;
`persist_load` takes every size and parent from the records as they are.  The loader stays
inside its buffer, and installs parents that are slots, exactly for the images whose header
and records agree: a CRC does not see to that.
-/

namespace EigenOS.Persist

open EigenOS.Filesystem EigenOS.ByteLayout EigenOS.BufferAccess

/-! ## The reads of the rebuilding loop -/

section Reads

variable (env : LoadEnv) (buf : List UInt8)

/-- `memcpy(&r, best + i * REC_SIZE, sizeof(r))`. -/
def readRecord (index : ℕ) : Reader PkRec :=
  Reader.range (index * recSize) recSize (recordAt buf env.beyond index)

/-- What the inner loop looks at of an earlier record, in place: `used`, then `type`, then
`size`. -/
def readClaimed (index : ℕ) : Reader ℕ := do
  let r := recordAt buf env.beyond index
  let used ← Reader.range (index * recSize) 1 r.used
  if used ≠ 0 then
    let type ← Reader.range (index * recSize + 69) 1 r.type
    if type = 0 then
      let size ← Reader.range (index * recSize + 74) 4 r.size
      return size.toNat
    else return 0
  else return 0

/-- The inner loop of `persist_load`. -/
def readOffset (index : ℕ) : Reader ℕ :=
  (List.range index).foldlM
    (fun off before => do
      let size ← readClaimed env buf before
      return off + size) recRegion

/-- One turn of the rebuilding loop. -/
def readNode (slot : Fin maxFiles) : Reader PUnit := do
  let r ← readRecord env buf slot
  if r.used ≠ 0 ∧ r.type = 0 ∧ 0 < r.size then
    let off ← readOffset env buf slot
    if env.bodyAllocated slot then Reader.range off r.size.toNat ⟨⟩ else return ⟨⟩
  else return ⟨⟩

def readTable : Reader PUnit := forM (List.finRange maxFiles) (readNode env buf)

variable {env buf}

theorem value_readClaimed (index : ℕ) :
    (readClaimed env buf index).value = claimedSize (recordAt buf env.beyond index) := by
  unfold readClaimed claimedSize
  by_cases hused : (recordAt buf env.beyond index).used = 0
  · simp [hused]
    rfl
  · by_cases htype : (recordAt buf env.beyond index).type = 0
    · simp [hused, htype]
      rfl
    · simp [hused, htype]
      rfl

theorem safe_readClaimed {index : ℕ} (hindex : index * recSize + recSize ≤ buf.length) :
    (readClaimed env buf index).Safe buf.length := by
  have hrec : recSize = 86 := rfl
  unfold readClaimed
  simp only [Reader.safe_bind, Reader.safe_range_iff, Reader.safe_ite, Reader.safe_pure]
  refine ⟨by omega, fun _ => ⟨by omega, fun _ => ⟨by omega, trivial⟩, ?_⟩, ?_⟩
  · exact fun _ => trivial
  · exact fun _ => trivial

theorem value_readOffset (index : ℕ) :
    (readOffset env buf index).value = bodyOffset buf env.beyond index := by
  unfold readOffset bodyOffset
  rw [Reader.value_foldlM, List.sum_eq_foldl, List.foldl_map]
  have hshift : ∀ (items : List ℕ) (start acc : ℕ),
      items.foldl (fun off before =>
          off + claimedSize (recordAt buf env.beyond before)) (start + acc) =
        start + items.foldl (fun off before =>
          off + claimedSize (recordAt buf env.beyond before)) acc := by
    intro items start
    induction items with
    | nil => exact fun _ => rfl
    | cons item rest ih =>
        intro acc
        rw [List.foldl_cons, List.foldl_cons, Nat.add_assoc, ih]
  have hbody : (fun off before => (do
        let size ← readClaimed env buf before
        return off + size : Reader ℕ).value) =
      fun off before => off + claimedSize (recordAt buf env.beyond before) := by
    funext off before
    rw [Reader.value_bind, value_readClaimed]
    rfl
  rw [hbody]
  exact hshift _ recRegion 0

end Reads

/-! ## Accepted slots -/

theorem length_readSectors {readable : ℕ → Bool} {disk : Disk} {count lba left : ℕ}
    {bytes : List UInt8} (h : readSectors readable disk count lba left = some bytes)
    (hcount : left ≤ count * sectorSize) : bytes.length = left := by
  induction count generalizing lba left bytes with
  | zero =>
      obtain rfl : [] = bytes := Option.some.inj h
      rw [Nat.zero_mul] at hcount
      exact (Nat.le_zero.mp hcount).symm
  | succ count ih =>
      unfold readSectors at h
      dsimp only at h
      split at h
      · obtain ⟨rest, hrest, rfl⟩ := Option.map_eq_some_iff.mp h
        have hchunk := length_sectorBytes (disk lba) (Nat.min_le_right left sectorSize)
        have hleft : left - min left sectorSize ≤ count * sectorSize := by
          rw [Nat.succ_mul] at hcount
          omega
        rw [List.length_append, hchunk, ih hrest hleft]
        omega
      · cases h

theorem readSectors_of_readable {readable : ℕ → Bool} {disk : Disk} {count lba left : ℕ}
    {bytes : List UInt8} (h : readSectors readable disk count lba left = some bytes) :
    readSectors (fun _ => true) disk count lba left = some bytes := by
  induction count generalizing lba left bytes with
  | zero => exact h
  | succ count ih =>
      unfold readSectors at h ⊢
      dsimp only at h ⊢
      split at h
      · obtain ⟨rest, hrest, rfl⟩ := Option.map_eq_some_iff.mp h
        rw [if_pos rfl, ih hrest]
        rfl
      · cases h

theorem validSlot_of_loadSlot {env : LoadEnv} {disk : Disk} {slot : Slot} {buf : List UInt8}
    (h : loadSlot env disk slot = some buf) : ValidSlot disk slot buf := by
  rw [← loadSlot_eq_some_iff env.beyond]
  unfold loadSlot at h ⊢
  dsimp only at h ⊢
  rw [if_neg (by simp)]
  split at h
  · cases h
  · split at h
    · cases h
    · rename_i hmagic
      split at h
      · cases h
      · rename_i hversion
        split at h
        · cases h
        · rename_i hrec
          split at h
          · cases h
          · rename_i htotal
            split at h
            · cases h
            · split at h
              · cases h
              · rename_i bytes hbytes
                have hall : readSectors (LoadEnv.succeeding env.beyond).readable disk _ _ _ =
                    some bytes := readSectors_of_readable hbytes
                rw [if_neg hmagic, if_neg hversion, if_neg hrec, if_neg htotal,
                  if_neg (by simp), hall]
                exact h

theorem ValidSlot.length_eq {disk : Disk} {slot : Slot} {buf : List UInt8}
    (h : ValidSlot disk slot buf) : buf.length = (slotHeader disk slot).total :=
  length_readSectors h.bytes_eq (sectorsFor_mul_ge _)

theorem ValidSlot.sectors_le {disk : Disk} {slot : Slot} {buf : List UInt8}
    (h : ValidSlot disk slot buf) : sectorsFor buf.length + 1 ≤ slotSectors := by
  have hle := h.total_le
  have hslot : slotSectors = 65536 := rfl
  rw [h.length_eq]
  simp only [sectorsFor, sectorSize] at *
  omega

/-! ## Safe decoding -/

/-- The sums do not wrap, every read is inside the buffer, and what is installed is in
range and terminated. -/
structure DecodesSafely (env : LoadEnv) (h : PkHdr) (buf : List UInt8) : Prop where
  sizes : h.recBytes.toNat + h.payloadBytes.toNat < 2 ^ 64
  sectors : sectorsFor buf.length + 1 ≤ slotSectors
  offsets : ∀ slot : Fin maxFiles,
    bodyOffset buf env.beyond slot + claimedSize (recordAt buf env.beyond slot) < 2 ^ 64
  reads : (readTable env buf).Safe buf.length
  parents : ∀ slot, (restoreTable env buf slot).inUse = true →
    0 ≤ (restoreTable env buf slot).parentDir ∧
      (restoreTable env buf slot).parentDir < maxFiles
  names : ∀ slot, Terminated (restoreTable env buf slot).name

/-- Whenever `load_slot` accepts the slot, decoding it is safe. -/
def SlotDecodesSafely (disk : Disk) (slot : Slot) : Prop :=
  ∀ env buf, loadSlot env disk slot = some buf →
    DecodesSafely env (slotHeader disk slot) buf

def storedRecord (buf : List UInt8) (index : ℕ) : PkRec :=
  decodeRec (window (index * recSize) recSize buf)

/-- What the file records before `index` claim for their bodies. -/
def claimedBefore (buf : List UInt8) (index : ℕ) : ℕ :=
  ((List.range index).map fun before => claimedSize (storedRecord buf before)).sum

/-- The header's sizes add up, the file records claim no more than the payload, and every
record in use has the number of a slot as its parent. -/
structure ConsistentImage (h : PkHdr) (buf : List UInt8) : Prop where
  sizes : recRegion + h.payloadBytes.toNat < 2 ^ 64
  bodies : claimedBefore buf maxFiles ≤ h.payloadBytes.toNat
  parents : ∀ slot : Fin maxFiles, (storedRecord buf slot).used ≠ 0 →
    0 ≤ (storedRecord buf slot).parent ∧ (storedRecord buf slot).parent < maxFiles

theorem claimedBefore_succ (buf : List UInt8) (index : ℕ) :
    claimedBefore buf (index + 1) =
      claimedBefore buf index + claimedSize (storedRecord buf index) := by
  unfold claimedBefore
  rw [List.range_succ, List.map_append, List.sum_append]
  simp

theorem claimedBefore_mono (buf : List UInt8) {low high : ℕ} (hle : low ≤ high) :
    claimedBefore buf low ≤ claimedBefore buf high := by
  induction high, hle using Nat.le_induction with
  | base => exact le_rfl
  | succ high _ ih =>
      rw [claimedBefore_succ]
      exact ih.trans (Nat.le_add_right _ _)

section Records

variable {buf : List UInt8} (hrecords : recRegion ≤ buf.length)

include hrecords

theorem record_inside {index : ℕ} (hindex : index < maxFiles) :
    index * recSize + recSize ≤ buf.length := by
  refine le_trans ?_ hrecords
  rw [recRegion, ← Nat.succ_mul]
  exact Nat.mul_le_mul_right _ hindex

theorem recordAt_eq_stored (beyond : ℕ → UInt8) {index : ℕ} (hindex : index < maxFiles) :
    recordAt buf beyond index = storedRecord buf index := by
  unfold recordAt storedRecord
  rw [readHeap_eq_window beyond (record_inside hrecords hindex)]

theorem bodyOffset_eq (beyond : ℕ → UInt8) {index : ℕ} (hindex : index ≤ maxFiles) :
    bodyOffset buf beyond index = recRegion + claimedBefore buf index := by
  unfold bodyOffset claimedBefore
  congr 2
  apply List.map_congr_left
  intro before hbefore
  rw [recordAt_eq_stored hrecords beyond ((List.mem_range.mp hbefore).trans_le hindex)]

theorem safe_readNode_iff {env : LoadEnv} {slot : Fin maxFiles} :
    (readNode env buf slot).Safe buf.length ↔
      (env.bodyAllocated slot = true → claimedSize (storedRecord buf slot) ≠ 0 →
        recRegion + claimedBefore buf (slot + 1) ≤ buf.length) := by
  have hrecord := record_inside hrecords slot.isLt
  have hoffsetSafe : (readOffset env buf slot).Safe buf.length := by
    apply Reader.safe_foldlM
    intro acc before hbefore
    have hlt := (List.mem_range.mp hbefore).trans slot.isLt
    rw [Reader.safe_bind]
    exact ⟨safe_readClaimed (record_inside hrecords hlt), (Reader.safe_pure _).mpr trivial⟩
  have hread : (readRecord env buf slot).Safe buf.length :=
    (Reader.safe_range_iff _ _ _).mpr (Or.inr hrecord)
  have hvalue : (readRecord env buf slot).value = storedRecord buf slot :=
    recordAt_eq_stored hrecords env.beyond slot.isLt
  have hsize : claimedSize (storedRecord buf slot) ≠ 0 ↔
      (storedRecord buf slot).used ≠ 0 ∧ (storedRecord buf slot).type = 0 ∧
        0 < (storedRecord buf slot).size := by
    unfold claimedSize
    split
    · rename_i hfile
      have hpos : 0 < (storedRecord buf slot).size ↔
          (storedRecord buf slot).size.toNat ≠ 0 := by
        rw [UInt32.lt_iff_toNat_lt, UInt32.toNat_zero, Nat.pos_iff_ne_zero]
      exact ⟨fun h => ⟨hfile.1, hfile.2, hpos.mpr h⟩, fun h => hpos.mp h.2.2⟩
    · rename_i hfile
      exact ⟨fun h => absurd rfl h, fun h => absurd ⟨h.1, h.2.1⟩ hfile⟩
  have hend : ∀ hclaims : claimedSize (storedRecord buf slot) ≠ 0,
      claimedBefore buf (slot + 1) =
        claimedBefore buf slot + (storedRecord buf slot).size.toNat := by
    intro hclaims
    obtain ⟨hused, htype, _⟩ := hsize.mp hclaims
    rw [claimedBefore_succ, claimedSize, if_pos ⟨hused, htype⟩]
  unfold readNode
  rw [Reader.safe_bind, hvalue]
  simp only [Reader.safe_ite, Reader.safe_bind, Reader.safe_pure, Reader.safe_range_iff,
    value_readOffset, bodyOffset_eq hrecords env.beyond slot.isLt.le, hread, hoffsetSafe,
    true_and, implies_true, and_true]
  rw [← hsize]
  constructor
  · intro h hallocated hclaims
    rcases h hclaims hallocated with hzero | hinside
    · obtain ⟨hused, htype, _⟩ := hsize.mp hclaims
      rw [claimedSize, if_pos ⟨hused, htype⟩] at hclaims
      exact absurd hzero hclaims
    · rw [hend hclaims]
      omega
  · intro h hclaims hallocated
    right
    have hinside := h hallocated hclaims
    rw [hend hclaims] at hinside
    omega

end Records

theorem safe_readTable_iff {env : LoadEnv} {buf : List UInt8} :
    (readTable env buf).Safe buf.length ↔
      ∀ slot, (readNode env buf slot).Safe buf.length := by
  unfold readTable
  rw [Reader.safe_forM_iff]
  exact ⟨fun h slot => h slot (List.mem_finRange slot), fun h slot _ => h slot⟩

/-! ## The two directions -/

section Accepted

variable {disk : Disk} {slot : Slot} {buf : List UInt8}

theorem ValidSlot.length_of_sizes (h : ValidSlot disk slot buf)
    (hsizes : recRegion + (slotHeader disk slot).payloadBytes.toNat < 2 ^ 64) :
    buf.length = recRegion + (slotHeader disk slot).payloadBytes.toNat := by
  rw [h.length_eq, PkHdr.total, h.recBytes_eq, Nat.mod_eq_of_lt hsizes]

theorem terminated_restoreTable (env : LoadEnv) (buf : List UInt8) (slot : Fin maxFiles) :
    Terminated (restoreTable env buf slot).name := by
  have hlast : ∀ name : Name,
      Terminated (Function.update name ⟨maxFilename - 1, by decide⟩ 0) :=
    fun name => Function.update_self _ _ name
  unfold restoreTable restoreNode
  dsimp only
  split
  · exact terminated_zero
  · split
    · split
      · exact hlast _
      · exact hlast _
    · exact hlast _

theorem inUse_restoreTable (env : LoadEnv) (buf : List UInt8) (slot : Fin maxFiles) :
    (restoreTable env buf slot).inUse = decide ((recordAt buf env.beyond slot).used ≠ 0) := by
  unfold restoreTable restoreNode
  dsimp only
  split
  · rfl
  · split
    · split
      · rfl
      · rfl
    · rfl

theorem parentDir_restoreTable {env : LoadEnv} {buf : List UInt8} {slot : Fin maxFiles}
    (hused : (recordAt buf env.beyond slot).used ≠ 0) :
    (restoreTable env buf slot).parentDir = (recordAt buf env.beyond slot).parent := by
  unfold restoreTable restoreNode
  dsimp only
  rw [if_neg hused]
  split
  · split
    · rfl
    · rfl
  · rfl

theorem decodesSafely_of_consistent {env : LoadEnv} (hvalid : ValidSlot disk slot buf)
    (himage : ConsistentImage (slotHeader disk slot) buf) :
    DecodesSafely env (slotHeader disk slot) buf := by
  have hlength := hvalid.length_of_sizes himage.sizes
  have hrecords : recRegion ≤ buf.length := by omega
  have hinside : ∀ index : Fin maxFiles,
      recRegion + claimedBefore buf (index + 1) ≤ buf.length := by
    intro index
    have hmono : claimedBefore buf (index + 1) ≤ claimedBefore buf maxFiles :=
      claimedBefore_mono buf index.isLt
    have hbodies := himage.bodies
    rw [hlength]
    omega
  refine ⟨?_, hvalid.sectors_le, ?_, ?_, ?_, terminated_restoreTable env buf⟩
  · rw [hvalid.recBytes_eq]
    exact himage.sizes
  · intro index
    have hbound := hinside index
    rw [claimedBefore_succ] at hbound
    rw [bodyOffset_eq hrecords env.beyond index.isLt.le,
      recordAt_eq_stored hrecords env.beyond index.isLt]
    have hsizes := himage.sizes
    omega
  · rw [safe_readTable_iff]
    intro index
    rw [safe_readNode_iff hrecords]
    exact fun _ _ => hinside index
  · intro index hused
    rw [inUse_restoreTable, decide_eq_true_eq] at hused
    rw [parentDir_restoreTable hused, recordAt_eq_stored hrecords env.beyond index.isLt]
    rw [recordAt_eq_stored hrecords env.beyond index.isLt] at hused
    exact himage.parents index hused

/-- Each file that claims bytes is copied from inside the buffer, so all claims together
fit: induction over the records. -/
theorem claimedBefore_le_of_safe {env : LoadEnv} (hrecords : recRegion ≤ buf.length)
    (hallocated : ∀ slot, env.bodyAllocated slot = true)
    (hreads : (readTable env buf).Safe buf.length) {index : ℕ} (hindex : index ≤ maxFiles) :
    recRegion + claimedBefore buf index ≤ buf.length := by
  induction index with
  | zero => exact hrecords
  | succ index ih =>
      have hprevious := ih (Nat.le_of_succ_le hindex)
      by_cases hclaims : claimedSize (storedRecord buf index) = 0
      · rw [claimedBefore_succ, hclaims]
        exact hprevious
      · have hnode := safe_readTable_iff.mp hreads ⟨index, hindex⟩
        exact (safe_readNode_iff hrecords).mp hnode (hallocated _) hclaims

theorem consistent_of_decodesSafely {env : LoadEnv} (hvalid : ValidSlot disk slot buf)
    (hallocated : ∀ slot, env.bodyAllocated slot = true)
    (hsafe : DecodesSafely env (slotHeader disk slot) buf) :
    ConsistentImage (slotHeader disk slot) buf := by
  have hsizes := hsafe.sizes
  rw [hvalid.recBytes_eq] at hsizes
  have hlength := hvalid.length_of_sizes hsizes
  have hrecords : recRegion ≤ buf.length := by omega
  refine ⟨hsizes, ?_, ?_⟩
  · have hall := claimedBefore_le_of_safe hrecords hallocated hsafe.reads le_rfl
    omega
  · intro index hused
    have hrecord : recordAt buf env.beyond index = storedRecord buf index :=
      recordAt_eq_stored hrecords env.beyond index.isLt
    have hparent := hsafe.parents index
    rw [inUse_restoreTable, decide_eq_true_eq, hrecord] at hparent
    rw [← hrecord] at hused
    rw [parentDir_restoreTable hused, hrecord] at hparent
    rw [hrecord] at hused
    exact hparent hused

end Accepted

/-- Decoding a slot is safe, whatever else happens during the load, exactly when it is not
valid or its header and records agree. -/
theorem slotDecodesSafely_iff (disk : Disk) (slot : Slot) :
    SlotDecodesSafely disk slot ↔
      ∀ buf, ValidSlot disk slot buf → ConsistentImage (slotHeader disk slot) buf := by
  constructor
  · intro hsafe buf hvalid
    have hloaded : loadSlot (LoadEnv.succeeding fun _ => 0) disk slot = some buf :=
      (loadSlot_eq_some_iff _).mpr hvalid
    exact consistent_of_decodesSafely hvalid (fun _ => rfl) (hsafe _ buf hloaded)
  · intro hconsistent env buf hloaded
    have hvalid := validSlot_of_loadSlot hloaded
    exact decodesSafely_of_consistent hvalid (hconsistent buf hvalid)

/-! ## The kernel's own snapshots -/

theorem not_consistent_of_external {files : Table} {external : Fin maxFiles} {disk : Disk}
    {slot : Slot} (hfiles : Storable files) (hexternal : External (files external))
    (hvalid : ValidSlot disk slot (snapshotBytes files)) :
    ¬ ConsistentImage (slotHeader disk slot) (snapshotBytes files) := by
  intro himage
  have hlength := hvalid.length_of_sizes himage.sizes
  have hrecords : recRegion ≤ (snapshotBytes files).length := by omega
  have hclaimed : recRegion + claimedBefore (snapshotBytes files) maxFiles =
      claimedOffset files maxFiles := by
    rw [← bodyOffset_eq hrecords (fun _ => 0) le_rfl]
    exact hfiles.bodyOffset_eq_of_le _ le_rfl
  have hlt : payloadOffset files maxFiles < claimedOffset files maxFiles :=
    payloadOffset_lt_claimedOffset hfiles.backed hexternal external.isLt
  rw [← length_snapshotBytes, ← hclaimed, hlength] at hlt
  have hbodies := himage.bodies
  omega

/-- The first save of a machine with an application in boot-module memory. -/
def externalImage : Image :=
  imageOf externalFirst 1 (by decide +kernel)
    (buildSnapshot_spec (storable_twoFiles 5 7 le_rfl Int.one_nonneg).backed)

def externalDisk : Disk :=
  applyWrites (fun _ _ => 0)
    (slotWrites .odd externalImage.bytes externalImage.nodes externalImage.seq)

/-- Loading what the kernel has saved itself reads behind the buffer. -/
theorem externalSnapshot_not_safe : ¬ SlotDecodesSafely externalDisk .odd := by
  intro hsafe
  have hholds : Holds externalDisk .odd externalImage := holds_applyWrites _ .odd externalImage
  have hbytes : externalImage.bytes = snapshotBytes externalFirst := rfl
  have hloaded := loadSlot_of_holds (fun _ => 0) hholds
  rw [hbytes] at hloaded
  have hvalid := (loadSlot_eq_some_iff _).mp hloaded
  have himage := consistent_of_decodesSafely hvalid (fun _ => rfl) (hsafe _ _ hloaded)
  have hexternal : External (externalFirst ⟨1, by decide⟩) := ⟨rfl, rfl, by decide, rfl⟩
  exact not_consistent_of_external (storable_twoFiles 5 7 le_rfl Int.one_nonneg) hexternal
    hvalid himage

end EigenOS.Persist
