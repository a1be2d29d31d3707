import EigenOS.Persist.Sync
import Mathlib.Data.Finset.Max

/-!
# Save, restart, load

A table is saved, memory is lost, and the snapshot is loaded into an empty table.
The metadata of every node survives.  The bytes survive exactly when no external
file precedes a file that owns its bytes, because the decoder counts external sizes
and the encoder does not.
-/

namespace EigenOS.Persist

open EigenOS.Filesystem EigenOS.ByteLayout

/-! ## What a round trip must keep -/

/-- Everything but the bytes. -/
structure SameMetadata (before after : FileNode) : Prop where
  inUse : after.inUse = true
  name : cString after.name = cString before.name
  parentDir : after.parentDir = before.parentDir
  type_eq : after.type = before.type
  flags : after.flags = before.flags
  size : after.size = before.size
  creationTime : after.creationTime = before.creationTime
  modifiedTime : after.modifiedTime = before.modifiedTime

/-- The bytes read for one slot and the payload stored for another do not overlap. -/
def ReadsApart (files : Table) (beyond : ℕ → UInt8) (reader owner : Fin maxFiles) : Prop :=
  bodyOffset (snapshotBytes files) beyond reader + (files reader).size.toNat ≤
      payloadOffset files owner ∨
    payloadOffset files owner + (files owner).size.toNat ≤
      bodyOffset (snapshotBytes files) beyond reader

/-- `restored` is the saved table again: same metadata, same bytes in every file that
owns its bytes, and nobody's bytes come out of another node's payload. -/
structure RoundTrip (files restored : Table) (beyond : ℕ → UInt8) : Prop where
  metadata : ∀ slot, (files slot).inUse = true → SameMetadata (files slot) (restored slot)
  owned_contents : ∀ slot, storesBody (files slot) = true →
    contents (restored slot) = contents (files slot)
  reads_apart : ∀ reader owner, reader ≠ owner → (files reader).inUse = true →
    (files reader).type = .file → 0 < (files reader).size →
    storesBody (files owner) = true → ReadsApart files beyond reader owner

/-- Every external file lies in a higher slot than every file that owns bytes. -/
def ExternalsLast (files : Table) : Prop :=
  ∀ external stored, External (files external) → storesBody (files stored) = true →
    stored < external

/-- What the file operations keep of the nodes, beside the tree. -/
structure Storable (files : Table) : Prop where
  tree : TreeInvariant files
  stored : ∀ slot, (files slot).inUse = true → WellStored (files slot)

/-! ## One node -/

variable {files : Table} {fp : FileNode}

theorem Storable.backed (hfiles : Storable files) (slot : Fin maxFiles) : Backed (files slot) :=
  WellStored.backed (hfiles.stored slot)

theorem inInt32_of_slot {value : ℤ} (hlow : 0 ≤ value) (hhigh : value < maxFiles) :
    InInt32 value := by
  have hfiles : (maxFiles : ℤ) = 256 := rfl
  constructor <;> omega

theorem Storable.parent_int32 (hfiles : Storable files) (slot : Fin maxFiles) :
    InInt32 (recordOf (files slot)).parent := by
  by_cases hused : (files slot).inUse = true
  · have hparent := hfiles.tree.parent_index slot hused
    have hlt : ((parentOf files slot).val : ℤ) < maxFiles :=
      Int.ofNat_lt.mpr (parentOf files slot).isLt
    simp only [recordOf, hused, if_true]
    rw [hparent]
    exact inInt32_of_slot (Int.natCast_nonneg _) hlt
  · have hzero : recordOf (files slot) = PkRec.zero := by simp [recordOf, hused]
    rw [hzero]
    exact ⟨by decide, by decide⟩

theorem Storable.recordAt_eq (hfiles : Storable files) (beyond : ℕ → UInt8) (slot : Fin maxFiles) :
    recordAt (snapshotBytes files) beyond slot = recordOf (files slot) :=
  recordAt_snapshot beyond slot _ (hfiles.parent_int32 slot)

theorem size_recordOf (hused : fp.inUse = true) (hfp : WellStored fp) :
    (recordOf fp).size.toNat = fp.size.toNat := by
  have hbits := int32Bits_of_nonneg hfp.size_int32 hfp.size_nonneg
  have hlt := int32Bits_lt fp.size
  simp only [recordOf, hused, if_true]
  rw [UInt32.toNat_ofNat_of_lt' (by simpa using hlt), hbits]

theorem used_recordOf (hused : fp.inUse = true) : (recordOf fp).used = 1 := by
  simp [recordOf, hused]

theorem type_recordOf_eq_zero (hused : fp.inUse = true) (hfp : WellStored fp) :
    (recordOf fp).type = 0 ↔ fp.type = .file := by
  simp only [recordOf, hused, if_true]
  rcases hfp.type_eq with htype | htype <;> simp [htype, FsType.toByte]

theorem claimedSize_recordOf (hfp : fp.inUse = true → WellStored fp) :
    claimedSize (recordOf fp) = claimed fp := by
  by_cases hused : fp.inUse = true
  · have hstored := hfp hused
    simp only [claimedSize, claimed, used_recordOf hused, size_recordOf hused hstored,
      type_recordOf_eq_zero hused hstored, hused]
    simp
  · simp [claimedSize, claimed, recordOf, hused, PkRec.zero]

theorem Storable.bodyOffset_eq_of_le (hfiles : Storable files) (beyond : ℕ → UInt8) {index : ℕ}
    (hindex : index ≤ maxFiles) :
    bodyOffset (snapshotBytes files) beyond index = claimedOffset files index := by
  have hsizes :
      (List.range index).map (fun before =>
          claimedSize (recordAt (snapshotBytes files) beyond before)) =
        ((List.ofFn files).take index).map claimed := by
    have hlength : (List.ofFn files).length = maxFiles := List.length_ofFn
    apply List.ext_getElem
    · rw [List.length_map, List.length_range, List.length_map, List.length_take, hlength]
      exact (Nat.min_eq_left hindex).symm
    · intro before hleft hright
      have hbefore : before < index := by simpa using hleft
      have hrecord := hfiles.recordAt_eq beyond ⟨before, hbefore.trans_le hindex⟩
      rw [List.getElem_map, List.getElem_range, List.getElem_map, List.getElem_take,
        List.getElem_ofFn]
      rw [hrecord]
      exact claimedSize_recordOf (hfiles.stored _)
  rw [bodyOffset, hsizes, claimedOffset]

theorem Storable.bodyOffset_eq (hfiles : Storable files) (beyond : ℕ → UInt8) (slot : Fin maxFiles)
    :
    bodyOffset (snapshotBytes files) beyond slot = claimedOffset files slot :=
  hfiles.bodyOffset_eq_of_le beyond slot.isLt.le

/-! ## The restored node -/

theorem cString_recordOf (hused : fp.inUse = true) (hname : Terminated fp.name) :
    cString (Function.update (recordOf fp).name ⟨maxFilename - 1, by decide⟩ 0) =
      cString fp.name := by
  have hzero : Terminated PkRec.zero.name := rfl
  have hrecord : (recordOf fp).name =
      strncpy PkRec.zero.name (cString fp.name) (maxFilename - 1) := by
    simp [recordOf, hused]
  have hlast : (recordOf fp).name ⟨maxFilename - 1, by decide⟩ = 0 := by
    rw [hrecord]
    exact terminated_strncpy.mpr hzero
  have hshort := length_cString_lt hname
  have hsame := Function.update_eq_self ⟨maxFilename - 1, by decide⟩ (recordOf fp).name
  rw [hlast] at hsame
  rw [hsame, hrecord, cString_strncpy hzero (zero_notMem_cString _)]
  exact List.take_of_length_le (Nat.le_sub_one_of_lt hshort)

theorem Storable.restored_metadata (hfiles : Storable files) (beyond : ℕ → UInt8)
    {slot : Fin maxFiles} (hused : (files slot).inUse = true) :
    SameMetadata (files slot)
      (restoreTable (LoadEnv.succeeding beyond) (snapshotBytes files) slot) := by
  have hstored := hfiles.stored slot hused
  have hrecord := hfiles.recordAt_eq beyond slot
  have hone : (recordOf (files slot)).used ≠ 0 := by
    rw [used_recordOf hused]
    decide
  have hname := cString_recordOf hused (hfiles.tree.name_terminated slot hused)
  have hsize : int32OfBits (recordOf (files slot)).size.toNat = (files slot).size := by
    rw [size_recordOf hused hstored, ← int32Bits_of_nonneg hstored.size_int32
      hstored.size_nonneg, int32OfBits_int32Bits hstored.size_int32]
  have htype : FsType.ofByte (recordOf (files slot)).type = (files slot).type := by
    rcases hstored.type_eq with htype | htype <;>
      simp [recordOf, hused, htype, FsType.toByte, FsType.ofByte]
  have hflags : (recordOf (files slot)).flags.toUInt8 = (files slot).flags := by
    simp [recordOf, hused]
  have hparent : (recordOf (files slot)).parent = (files slot).parentDir := by
    simp [recordOf, hused]
  have hctime : (recordOf (files slot)).ctime = (files slot).creationTime := by
    simp [recordOf, hused]
  have hmtime : (recordOf (files slot)).mtime = (files slot).modifiedTime := by
    simp [recordOf, hused]
  by_cases hbody : (recordOf (files slot)).type = 0 ∧ 0 < (recordOf (files slot)).size
  · rw [hbody.1] at htype
    constructor <;>
      simp [restoreTable, restoreNode, hrecord, hone, hbody, hname, hsize, htype, hflags,
        hparent, hctime, hmtime]
  · constructor <;>
      simp [restoreTable, restoreNode, hrecord, hone, hbody, hname, hsize, htype, hflags,
        hparent, hctime, hmtime]

theorem Storable.restored_contents (hfiles : Storable files) (beyond : ℕ → UInt8)
    {slot : Fin maxFiles} (hused : (files slot).inUse = true) (hfile : (files slot).type = .file)
    (hsize : 0 < (files slot).size) :
    contents (restoreTable (LoadEnv.succeeding beyond) (snapshotBytes files) slot) =
      readHeap (snapshotBytes files) beyond (claimedOffset files slot)
        (files slot).size.toNat := by
  have hstored := hfiles.stored slot hused
  have hrecord := hfiles.recordAt_eq beyond slot
  have hone : (recordOf (files slot)).used ≠ 0 := by
    rw [used_recordOf hused]
    decide
  have hbytes : (recordOf (files slot)).size.toNat = (files slot).size.toNat :=
    size_recordOf hused hstored
  have hbody : (recordOf (files slot)).type = 0 ∧ 0 < (recordOf (files slot)).size := by
    refine ⟨(type_recordOf_eq_zero hused hstored).mpr hfile, ?_⟩
    rw [UInt32.lt_iff_toNat_lt, hbytes]
    simpa using hsize
  have hdata :
      (restoreTable (LoadEnv.succeeding beyond) (snapshotBytes files) slot).data =
        some (readHeap (snapshotBytes files) beyond (claimedOffset files slot)
          (files slot).size.toNat) := by
    simp [restoreTable, restoreNode, hrecord, hone, hbody, hbytes,
      hfiles.bodyOffset_eq beyond slot]
  rw [contents, hdata, (hfiles.restored_metadata beyond hused).size, Option.getD_some]
  exact List.take_of_length_le (by simp)

/-! ## When the bytes survive -/

theorem ExternalsLast.not_external_before (hlast : ExternalsLast files) {stored : Fin maxFiles}
    (hstored : storesBody (files stored) = true) (slot : Fin maxFiles)
    (hslot : slot.val < stored.val) : ¬External (files slot) := by
  intro hexternal
  have hlt := hlast slot stored hexternal hstored
  exact absurd hslot (Nat.lt_asymm hlt)

/-- When no slot from `index` on stores a body, the buffer ends where such a body would
begin. -/
theorem length_snapshotBytes_of_none (hfiles : Storable files) {index : ℕ}
    (hnone : ∀ slot : Fin maxFiles, index ≤ slot.val → storesBody (files slot) ≠ true) :
    (snapshotBytes files).length = payloadOffset files index := by
  have hempty : ∀ fp ∈ (List.ofFn files).drop index, (body fp).length = 0 := by
    intro fp hfp
    obtain ⟨slot, hslot, rfl⟩ := mem_drop_ofFn.mp hfp
    rw [length_body (hfiles.backed slot), if_neg (hnone slot hslot)]
  have hrest : (((List.ofFn files).drop index).map fun fp => (body fp).length).sum = 0 := by
    rw [List.sum_eq_zero_iff]
    intro value hvalue
    obtain ⟨fp, hfp, rfl⟩ := List.mem_map.mp hvalue
    exact hempty fp hfp
  have hlength : (List.ofFn files).length = maxFiles := List.length_ofFn
  have hsplit := congrArg (fun nodes => (nodes.map fun fp => (body fp).length).sum)
    (List.take_append_drop index (List.ofFn files))
  simp only [List.map_append, List.sum_append, hrest, add_zero] at hsplit
  rw [length_snapshotBytes, payloadOffset_eq_sum, payloadOffset_eq_sum,
    List.take_of_length_le hlength.le, hsplit]

theorem ExternalsLast.length_le_claimedOffset (hfiles : Storable files)
    (hlast : ExternalsLast files) {external : Fin maxFiles} (hexternal : External (files external))
    :
    (snapshotBytes files).length ≤ claimedOffset files external := by
  have hnone : ∀ slot : Fin maxFiles, external.val ≤ slot.val →
      storesBody (files slot) ≠ true := by
    intro slot hslot hstores
    have hlt : slot < external := hlast external slot hexternal hstores
    exact absurd hslot (Nat.not_le.mpr hlt)
  rw [length_snapshotBytes_of_none hfiles hnone]
  exact payloadOffset_le_claimedOffset hfiles.backed external

theorem contents_of_stores (hstores : storesBody fp = true) : body fp = contents fp := by
  simp [body, hstores]

theorem roundTrip_of_externalsLast (hfiles : Storable files) (hlast : ExternalsLast files)
    (beyond : ℕ → UInt8) :
    RoundTrip files (restoreTable (LoadEnv.succeeding beyond) (snapshotBytes files))
      beyond := by
  have hoffset : ∀ slot, storesBody (files slot) = true →
      claimedOffset files slot = payloadOffset files slot := fun slot hstores =>
    claimedOffset_eq_payloadOffset hfiles.stored (hlast.not_external_before hstores)
  have hlength : ∀ slot, storesBody (files slot) = true →
      (body (files slot)).length = (files slot).size.toNat := by
    intro slot hstores
    rw [length_body (hfiles.backed slot), if_pos hstores]
  constructor
  · intro slot hused
    exact hfiles.restored_metadata beyond hused
  · intro slot hstores
    obtain ⟨hused, hfile, _, hsize, _⟩ := (storesBody_iff _).mp hstores
    have hfits := payloadOffset_add_length_le_length files slot
    have hwindow := window_payloadOffset files slot
    rw [hlength slot hstores] at hfits hwindow
    rw [hfiles.restored_contents beyond hused hfile hsize, hoffset slot hstores,
      readHeap_eq_window beyond hfits, hwindow, contents_of_stores hstores]
  · intro reader owner hne hused hfile hsize howner
    have howned := payloadOffset_add_length_le_length files owner
    rw [hlength owner howner] at howned
    rw [ReadsApart, hfiles.bodyOffset_eq]
    rcases (hfiles.stored reader hused).stores_or_external hused hfile hsize with
      hstores | hexternal
    · rw [hoffset reader hstores, ← hlength reader hstores, ← hlength owner howner]
      rcases lt_or_gt_of_ne hne with hlt | hgt
      · exact Or.inl (payloadOffset_add_length_le files hlt)
      · exact Or.inr (payloadOffset_add_length_le files hgt)
    · right
      exact howned.trans (hlast.length_le_claimedOffset hfiles hexternal)

theorem exists_last_stored {stored : Fin maxFiles} (hstored : storesBody (files stored) = true) :
    ∃ last, storesBody (files last) = true ∧ stored ≤ last ∧
      ∀ slot, storesBody (files slot) = true → slot ≤ last := by
  have hmem : stored ∈ Finset.univ.filter fun slot => storesBody (files slot) = true := by
    simpa using hstored
  refine ⟨Finset.max' _ ⟨stored, hmem⟩, ?_, Finset.le_max' _ _ hmem, ?_⟩
  · have hmax := Finset.max'_mem _ ⟨stored, hmem⟩
    simpa using hmax
  · intro slot hslot
    exact Finset.le_max' _ _ (by simpa using hslot)

theorem getLast?_readHeap {buf : List UInt8} {offset length : ℕ} (byte : UInt8)
    (hlength : 0 < length) (hend : buf.length < offset + length) :
    (readHeap buf (fun _ => byte) offset length).getLast? = some byte := by
  obtain ⟨count, rfl⟩ := Nat.exists_eq_succ_of_ne_zero hlength.ne'
  have hlast : buf.length ≤ offset + count := by omega
  rw [readHeap, List.range_succ, List.map_append, List.map_singleton,
    List.getLast?_concat, List.getD_eq_default _ _ hlast]

/-- With an external file in front, the last stored file is read past the end of the
buffer, and what lies there need not be its bytes. -/
theorem externalsLast_of_roundTrip (hfiles : Storable files) (hround : ∀ beyond, RoundTrip files
      (restoreTable (LoadEnv.succeeding beyond) (snapshotBytes files)) beyond) :
    ExternalsLast files := by
  intro external stored hexternal hstored
  by_contra hle
  obtain ⟨last, hlast, hstoredLe, hmax⟩ := exists_last_stored hstored
  have hne : external ≠ last := by
    rintro rfl
    rw [not_storesBody_of_external hexternal] at hlast
    exact Bool.false_ne_true hlast
  have hbefore : external < last :=
    lt_of_le_of_ne ((not_lt.mp hle).trans hstoredLe) hne
  obtain ⟨hused, hfile, _, hsize, _⟩ := (storesBody_iff _).mp hlast
  have hpos : 0 < (files last).size.toNat := by simpa using hsize
  have hlength : (body (files last)).length = (files last).size.toNat := by
    rw [length_body (hfiles.backed last), if_pos hlast]
  -- the buffer ends with the body of `last`, and the decoder starts too late by then
  have hnone : ∀ slot : Fin maxFiles, last.val + 1 ≤ slot.val →
      storesBody (files slot) ≠ true := by
    intro slot hslot hstores
    have hle : slot.val ≤ last.val := hmax slot hstores
    omega
  have hend : (snapshotBytes files).length =
      payloadOffset files last + (files last).size.toNat := by
    rw [length_snapshotBytes_of_none hfiles hnone, payloadOffset_succ, hlength]
  have hlate := payloadOffset_lt_claimedOffset hfiles.backed hexternal hbefore
  have hover : (snapshotBytes files).length <
      claimedOffset files last + (files last).size.toNat := by omega
  obtain ⟨byte, hbyte⟩ : ∃ byte, (contents (files last)).getLast? = some byte := by
    rw [← contents_of_stores hlast]
    have hnil : body (files last) ≠ [] := by
      rw [← List.length_pos_iff, hlength]
      exact hpos
    exact ⟨_, List.getLast?_eq_some_getLast hnil⟩
  have hsame := (hround fun _ => byte + 1).owned_contents last hlast
  rw [hfiles.restored_contents _ hused hfile hsize] at hsame
  have hread := getLast?_readHeap (byte + 1) hpos hover
  rw [hsame, hbyte] at hread
  simp at hread

/-! ## Save and restart -/

/-- Machines that began with a blank disk and have met no failure since.  The counter
has not wrapped: that takes 2^32 saves. -/
inductive FaultFree : Machine → Prop where
  | blank (m : Machine) (hseq : m.seq = 0)
      (hblank : ∀ slot, (slotHeader m.disk slot).magic ≠ persistMagic) : FaultFree m
  | change {m : Machine} (files : Table) (dirty : Bool) (hm : FaultFree m) :
      FaultFree { m with files := files, dirty := dirty }
  | sync {m : Machine} (hseq : m.seq.toNat + 1 < 2 ^ 32) (hm : FaultFree m) :
      FaultFree (persistSync true [] m)
  | boot {m : Machine} (beyond : ℕ → UInt8) (hm : FaultFree m) :
      FaultFree (boot (LoadEnv.succeeding beyond) m)

/-- Every header on the disk covers a complete image, no newer than the counter. -/
def SlotsCurrent (disk : Disk) (seq : UInt32) : Prop :=
  ∀ slot, (slotHeader disk slot).magic = persistMagic →
    ∃ image, Holds disk slot image ∧ slotOf image.seq = slot ∧ image.seq ≤ seq

theorem lt_succ_of_no_wrap {seq : UInt32} (hseq : seq.toNat + 1 < 2 ^ 32) :
    seq < seq + 1 := by
  have hadd : (seq + 1).toNat = (seq.toNat + 1) % 2 ^ 32 := UInt32.toNat_add seq 1
  rw [UInt32.lt_iff_toNat_lt, hadd, Nat.mod_eq_of_lt hseq]
  exact Nat.lt_succ_self _

theorem Holds.older_of_lt {disk : Disk} {slot : Slot} {held image : Image}
    (hheld : Holds disk slot held) (hlt : held.seq < image.seq) : Older disk slot image := by
  intro _
  rw [hheld.header_eq]
  exact hlt

variable {image : Image} {m : Machine}

theorem SlotsCurrent.older {disk : Disk} {seq : UInt32} (hcurrent : SlotsCurrent disk seq)
    (slot : Slot) (hlt : seq < image.seq) : Older disk slot image := by
  intro hmagic
  obtain ⟨held, hheld, _, hle⟩ := hcurrent slot hmagic
  exact hheld.older_of_lt (UInt32.lt_of_le_of_lt hle hlt) hmagic

theorem SyncWrites.slotsCurrent {m next : Machine} (hsync : SyncWrites m next image [])
    (hseq : m.seq.toNat + 1 < 2 ^ 32) (hcurrent : SlotsCurrent m.disk m.seq) :
    SlotsCurrent next.disk next.seq := by
  have hclean : next.dirty = false := by
    rw [hsync.dirty_iff, writeSectors_nil]
  have hholds := hsync.holds_of_clean hclean
  have hlt : m.seq < image.seq := by
    rw [hsync.seq_image]
    exact lt_succ_of_no_wrap hseq
  intro slot hmagic
  by_cases hslot : slot = slotOf image.seq
  · subst hslot
    exact ⟨image, hholds, rfl, hsync.seq_eq ▸ UInt32.le_refl _⟩
  · obtain rfl := Slot.eq_other_of_ne hslot
    have hsame : ∀ lba, (slotOf image.seq).other.Contains lba →
        next.disk lba = m.disk lba := fun lba hlba => hsync.disk_other hlba
    rw [slotHeader_congr (hsame _ (Slot.contains_base _))] at hmagic
    obtain ⟨held, hheld, hparity, hle⟩ := hcurrent _ hmagic
    refine ⟨held, hheld.congr hsame, hparity, ?_⟩
    rw [hsync.seq_eq]
    exact UInt32.le_trans hle (UInt32.le_of_lt hlt)

theorem Holds.seq_unique {disk : Disk} {slot : Slot} {left right : Image}
    (hleft : Holds disk slot left) (hright : Holds disk slot right) :
    left.seq = right.seq := by
  rw [← left.seq_header, ← hleft.header_eq, hright.header_eq, right.seq_header]

theorem SlotsCurrent.exists_newest {disk : Disk} {seq : UInt32}
    (hcurrent : SlotsCurrent disk seq) {first : Slot}
    (hfirst : (slotHeader disk first).magic = persistMagic) :
    ∃ slot image, Holds disk slot image ∧ Older disk slot.other image := by
  obtain ⟨image, hholds, hparity, _⟩ := hcurrent first hfirst
  by_cases hother : (slotHeader disk first.other).magic = persistMagic
  · obtain ⟨held, hheld, hheldParity, _⟩ := hcurrent first.other hother
    have hne : held.seq ≠ image.seq := by
      intro heq
      rw [heq, hparity] at hheldParity
      exact Slot.other_ne first hheldParity.symm
    rcases UInt32.lt_or_lt_of_ne hne with hlt | hgt
    · exact ⟨first, image, hholds, hheld.older_of_lt hlt⟩
    · refine ⟨first.other, held, hheld, ?_⟩
      rw [Slot.other_other]
      exact hholds.older_of_lt hgt
  · exact ⟨first, image, hholds, fun hmagic => absurd hmagic hother⟩

theorem SlotsCurrent.boot {seq : UInt32} (beyond : ℕ → UInt8) (hcurrent : SlotsCurrent m.disk seq) :
    SlotsCurrent (boot (LoadEnv.succeeding beyond) m).disk
      (boot (LoadEnv.succeeding beyond) m).seq := by
  rw [boot_disk]
  intro slot hmagic
  obtain ⟨newest, image, hholds, holder⟩ := hcurrent.exists_newest hmagic
  obtain ⟨held, hheld, hparity, _⟩ := hcurrent slot hmagic
  rw [boot_of_holds beyond hholds holder]
  refine ⟨held, hheld, hparity, ?_⟩
  by_cases hslot : slot = newest
  · subst hslot
    rw [hheld.seq_unique hholds]
    exact UInt32.le_refl _
  · obtain rfl := Slot.eq_other_of_ne hslot
    have hlt := holder hmagic
    rw [hheld.header_eq, held.seq_header] at hlt
    exact UInt32.le_of_lt hlt

theorem FaultFree.slotsCurrent (hm : FaultFree m) : SlotsCurrent m.disk m.seq := by
  induction hm with
  | blank m hseq hblank => exact fun slot hmagic => absurd hmagic (hblank slot)
  | change files dirty hm ih => exact ih
  | sync hseq hm ih =>
      rename_i m
      rcases persistSync_cases true [] m with hsame | ⟨_, image, hsync⟩
      · rw [hsame]
        exact ih
      · exact hsync.slotsCurrent hseq ih
  | boot beyond hm ih => exact ih.boot beyond

theorem SyncWrites.bytes_eq {m next : Machine} {outcomes : List WriteOutcome}
    (hsync : SyncWrites m next image outcomes) (hbacked : ∀ slot, Backed (m.files slot)) :
    image.bytes = snapshotBytes m.files := by
  have hsnap := hsync.snapshot_eq
  rw [buildSnapshot_spec hbacked, Option.some.injEq] at hsnap
  exact (congrArg Snapshot.bytes hsnap).symm

/-- After a successful sync its slot holds the image and the other slot is older. -/
theorem FaultFree.holds_persistSync (hm : FaultFree m) (hseq : m.seq.toNat + 1 < 2 ^ 32)
    (hdirty : m.dirty = true) (hsaved : (persistSync true [] m).dirty = false) :
    ∃ image, SyncWrites m (persistSync true [] m) image [] ∧
      Holds (persistSync true [] m).disk (slotOf image.seq) image ∧
      Older (persistSync true [] m).disk (slotOf image.seq).other image := by
  rcases persistSync_cases true [] m with hsame | ⟨_, image, hsync⟩
  · rw [hsame, hdirty] at hsaved
    exact absurd hsaved (by decide)
  · refine ⟨image, hsync, hsync.holds_of_clean hsaved, ?_⟩
    have hlt : m.seq < image.seq := by
      rw [hsync.seq_image]
      exact lt_succ_of_no_wrap hseq
    have hbefore := hm.slotsCurrent.older (slotOf image.seq).other hlt
    rw [Older, slotHeader_congr (hsync.disk_other (Slot.contains_base _))]
    exact hbefore

theorem boot_persistSync_files (hm : FaultFree m) (hbacked : ∀ slot, Backed (m.files slot))
    (hseq : m.seq.toNat + 1 < 2 ^ 32) (hdirty : m.dirty = true)
    (hsaved : (persistSync true [] m).dirty = false) (beyond : ℕ → UInt8) :
    (boot (LoadEnv.succeeding beyond) (persistSync true [] m)).files =
      restoreTable (LoadEnv.succeeding beyond) (snapshotBytes m.files) := by
  obtain ⟨image, hsync, hholds, holder⟩ := hm.holds_persistSync hseq hdirty hsaved
  rw [boot_of_holds beyond hholds holder, hsync.bytes_eq hbacked]

/-- A saved table survives the restart, whatever the heap holds behind the loaded
buffer, exactly when its external files come after all files that own their bytes. -/
theorem roundTrip_iff_externalsLast {m : Machine} (hm : FaultFree m)
    (hfiles : Storable m.files) (hseq : m.seq.toNat + 1 < 2 ^ 32)
    (hdirty : m.dirty = true) (hsaved : (persistSync true [] m).dirty = false) :
    (∀ beyond, RoundTrip m.files
        (boot (LoadEnv.succeeding beyond) (persistSync true [] m)).files beyond) ↔
      ExternalsLast m.files := by
  have hrestored := boot_persistSync_files hm hfiles.backed hseq hdirty hsaved
  constructor
  · intro hround
    apply externalsLast_of_roundTrip hfiles
    intro beyond
    rw [← hrestored]
    exact hround beyond
  · intro hlast beyond
    rw [hrestored]
    exact roundTrip_of_externalsLast hfiles hlast beyond

/-! ## Two files below the root -/

def twoFiles (first second : FileNode) : Table := fun slot =>
  match slot.val with
  | 0 => rootNode
  | 1 => first
  | 2 => second
  | _ => FileNode.zero

/-- A one-byte file of the root directory. -/
def smallFile (letter byte : UInt8) (capacity : ℤ) : FileNode :=
  { FileNode.zero with
    name := strncpy (fun _ => 0) [letter] (maxFilename - 1)
    data := some [byte]
    size := 1
    capacity := capacity
    inUse := true }

/-- A machine with a blank disk and unsaved changes. -/
def unsavedMachine (files : Table) : Machine where
  disk := fun _ _ => 0
  files := files
  seq := 0
  dirty := true
  running := true

theorem magic_unsavedMachine (files : Table) (slot : Slot) :
    (slotHeader (unsavedMachine files).disk slot).magic ≠ persistMagic := by
  have hsectors : min 40 sectorSize = 40 := by decide
  simp [slotHeader, unsavedMachine, decodeHdr, sectorBytes, window, persistMagic, hdrSize,
    hsectors, List.replicate]

theorem faultFree_unsavedMachine (files : Table) : FaultFree (unsavedMachine files) :=
  FaultFree.blank _ rfl (magic_unsavedMachine files)

theorem cString_smallFile {letter : UInt8} (hletter : letter ≠ 0) (byte : UInt8)
    (capacity : ℤ) : cString (smallFile letter byte capacity).name = [letter] := by
  have hzero : Terminated fun _ => (0 : UInt8) := rfl
  have hnoNul : 0 ∉ [letter] := by simpa using hletter.symm
  exact cString_strncpy hzero hnoNul

theorem wellStored_smallFile (letter byte : UInt8) {capacity : ℤ} (hcapacity : 0 ≤ capacity) :
    WellStored (smallFile letter byte capacity) where
  type_eq := Or.inl rfl
  size_nonneg := Int.one_nonneg
  size_int32 := ⟨by simp [smallFile], by simp [smallFile]⟩
  capacity_nonneg := hcapacity
  data_of_size := fun _ _ => ⟨[byte], rfl, le_rfl⟩

def firstSlot : Fin maxFiles := ⟨1, by decide⟩
def secondSlot : Fin maxFiles := ⟨2, by decide⟩

theorem slot_of_twoFiles_inUse {first second : FileNode} {slot : Fin maxFiles}
    (hused : (twoFiles first second slot).inUse = true) :
    slot = rootSlot ∨ slot = firstSlot ∨ slot = secondSlot := by
  obtain ⟨index, hindex⟩ := slot
  match index with
  | 0 => exact Or.inl rfl
  | 1 => exact Or.inr (Or.inl rfl)
  | 2 => exact Or.inr (Or.inr rfl)
  | index + 3 => exact absurd hused (by simp [twoFiles])

theorem storable_twoFiles (firstByte secondByte : UInt8) {firstCapacity secondCapacity : ℤ}
    (hfirst : 0 ≤ firstCapacity) (hsecond : 0 ≤ secondCapacity) :
    Storable (twoFiles (smallFile 97 firstByte firstCapacity)
      (smallFile 98 secondByte secondCapacity)) := by
  have hfirstName := cString_smallFile (by decide : (97 : UInt8) ≠ 0) firstByte firstCapacity
  have hsecondName :=
    cString_smallFile (by decide : (98 : UInt8) ≠ 0) secondByte secondCapacity
  have hrootName : cString rootNode.name = [47] :=
    cString_strncpy (by rfl) (by decide)
  generalize hfiles : twoFiles (smallFile 97 firstByte firstCapacity)
    (smallFile 98 secondByte secondCapacity) = files
  have hslots : ∀ slot, (files slot).inUse = true →
      slot = rootSlot ∨ slot = firstSlot ∨ slot = secondSlot := by
    intro slot hused
    rw [← hfiles] at hused
    exact slot_of_twoFiles_inUse hused
  have hroot : files rootSlot = rootNode := by rw [← hfiles]; rfl
  have hone : files firstSlot = smallFile 97 firstByte firstCapacity := by
    rw [← hfiles]; rfl
  have htwo : files secondSlot = smallFile 98 secondByte secondCapacity := by
    rw [← hfiles]; rfl
  have hparent : ∀ slot, (files slot).inUse = true → (files slot).parentDir = 0 := by
    intro slot hused
    rcases hslots slot hused with rfl | rfl | rfl
    · rw [hroot]; rfl
    · rw [hone]; rfl
    · rw [htwo]; rfl
  have hparentOf : ∀ slot, (files slot).inUse = true → parentOf files slot = rootSlot := by
    intro slot hused
    rw [parentOf, hparent slot hused]
    rfl
  constructor
  · constructor
    · rw [hroot]
      exact ⟨rfl, rfl⟩
    · rw [hroot]
      rfl
    · intro slot hused
      rw [hparent slot hused, hparentOf slot hused]
      rfl
    · intro slot hused
      rw [hparentOf slot hused, hroot]
      exact ⟨rfl, rfl⟩
    · intro slot hused
      have hclimbs : ParentTree.Climbs (parentOf files) slot (parentOf files slot) :=
        ParentTree.climbs_parent _ slot
      rwa [hparentOf slot hused] at hclimbs
    · intro slot hused
      rcases hslots slot hused with rfl | rfl | rfl
      · rw [hroot]; rfl
      · rw [hone]; rfl
      · rw [htwo]; rfl
    · intro slot hused
      rcases hslots slot hused with rfl | rfl | rfl
      · rw [hroot, hrootName]; exact List.cons_ne_nil _ _
      · rw [hone, hfirstName]; exact List.cons_ne_nil _ _
      · rw [htwo, hsecondName]; exact List.cons_ne_nil _ _
    · intro left right hleft hright hleftUsed hrightUsed _ hname
      rcases hslots left hleftUsed with rfl | rfl | rfl <;>
        rcases hslots right hrightUsed with rfl | rfl | rfl
      all_goals first
        | rfl
        | exact absurd rfl hleft
        | exact absurd rfl hright
        | (rw [hone, htwo, hfirstName, hsecondName] at hname
           exact absurd hname (by decide))
  · intro slot hused
    rcases hslots slot hused with rfl | rfl | rfl
    · rw [hroot]
      exact ⟨Or.inr rfl, by decide, ⟨by decide, by decide⟩, by decide,
        fun hfile => absurd hfile (by decide)⟩
    · rw [hone]
      exact wellStored_smallFile 97 firstByte hfirst
    · rw [htwo]
      exact wellStored_smallFile 98 secondByte hsecond

/-- An external file in slot 1 and an owned one in slot 2. -/
def externalFirst : Table := twoFiles (smallFile 97 5 0) (smallFile 98 7 1)

/-- An owned file in slot 1 and an external one in slot 2. -/
def externalSecond : Table := twoFiles (smallFile 97 7 1) (smallFile 98 5 0)

/-- A saved table whose owned file does not get its bytes back. -/
theorem externalFirst_loses_contents :
    FaultFree (unsavedMachine externalFirst) ∧ Storable externalFirst ∧
      (persistSync true [] (unsavedMachine externalFirst)).dirty = false ∧
      ¬∀ beyond, RoundTrip externalFirst
        (boot (LoadEnv.succeeding beyond)
          (persistSync true [] (unsavedMachine externalFirst))).files beyond := by
  have hfiles : Storable externalFirst := storable_twoFiles 5 7 le_rfl Int.one_nonneg
  have hclean : (persistSync true [] (unsavedMachine externalFirst)).dirty = false :=
    persistSync_clean (by decide +kernel)
  refine ⟨faultFree_unsavedMachine _, hfiles, hclean, ?_⟩
  intro hround
  have hrestored := boot_persistSync_files (faultFree_unsavedMachine externalFirst)
    hfiles.backed (by decide) rfl hclean
  have hlast : ExternalsLast externalFirst := by
    apply externalsLast_of_roundTrip hfiles
    intro beyond
    have hfilesRestored := hrestored beyond
    have hroundBeyond := hround beyond
    rwa [hfilesRestored] at hroundBeyond
  have hlt := hlast firstSlot secondSlot ⟨rfl, rfl, Int.one_pos, rfl⟩ (by decide +kernel)
  exact absurd hlt (by decide)

theorem externalSecond_roundTrip :
    (∀ beyond, RoundTrip externalSecond
        (boot (LoadEnv.succeeding beyond)
          (persistSync true [] (unsavedMachine externalSecond))).files beyond) ↔
      ExternalsLast externalSecond :=
  roundTrip_iff_externalsLast (faultFree_unsavedMachine externalSecond)
    (storable_twoFiles 7 5 Int.one_nonneg le_rfl) (by decide) rfl
    (persistSync_clean (by decide +kernel))

end EigenOS.Persist
