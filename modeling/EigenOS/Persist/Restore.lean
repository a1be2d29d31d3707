import EigenOS.Persist.Slots
import Mathlib.Algebra.Order.BigOperators.Group.List

/-!
# Rebuilding the table

`persist_load` walks the loaded buffer once for each slot.  For a file it adds up
the sizes of the files in the slots before it to find the body, with no record of
which of them stored one; past the end of the buffer it reads whatever the heap
holds there.
-/

namespace EigenOS.Persist

open EigenOS.Filesystem EigenOS.ByteLayout

/-- `length` bytes from `offset` on: the buffer, and behind it the heap. -/
def readHeap (buf : List UInt8) (beyond : ℕ → UInt8) (offset length : ℕ) : List UInt8 :=
  (List.range length).map fun index =>
    buf.getD (offset + index) (beyond (offset + index))

def recordAt (buf : List UInt8) (beyond : ℕ → UInt8) (index : ℕ) : PkRec :=
  decodeRec (readHeap buf beyond (index * recSize) recSize)

/-- What a record adds to the running offset. -/
def claimedSize (r : PkRec) : ℕ :=
  if r.used ≠ 0 ∧ r.type = 0 then r.size.toNat else 0

def bodyOffset (buf : List UInt8) (beyond : ℕ → UInt8) (index : ℕ) : ℕ :=
  recRegion +
    ((List.range index).map fun before => claimedSize (recordAt buf beyond before)).sum

def FsType.ofByte (code : UInt8) : FsType :=
  if code = 0 then .file else if code = 1 then .directory else .other code

theorem lastByte_lt_maxFilename : maxFilename - 1 < maxFilename := by decide

/-- One turn of the rebuilding loop. -/
def restoreNode (env : LoadEnv) (buf : List UInt8) (slot : Fin maxFiles) : FileNode :=
  let r := recordAt buf env.beyond slot
  let fp : FileNode :=
    { FileNode.zero with
      inUse := r.used ≠ 0
      type := FsType.ofByte r.type }
  if r.used = 0 then { fp with parentDir := -1 }
  else
    let kept : FileNode :=
      { fp with
        name := Function.update r.name ⟨maxFilename - 1, lastByte_lt_maxFilename⟩ 0
        parentDir := r.parent
        flags := r.flags.toUInt8
        size := int32OfBits r.size.toNat
        creationTime := r.ctime
        modifiedTime := r.mtime }
    if r.type = 0 ∧ 0 < r.size then
      if env.bodyAllocated slot then
        { kept with
          data := some (readHeap buf env.beyond (bodyOffset buf env.beyond slot)
            r.size.toNat)
          capacity := int32OfBits r.size.toNat }
      else { kept with size := 0 }
    else kept

def restoreTable (env : LoadEnv) (buf : List UInt8) : Table :=
  restoreNode env buf

/-! ## Reading records back -/

@[simp]
theorem length_readHeap (buf : List UInt8) (beyond : ℕ → UInt8) (offset length : ℕ) :
    (readHeap buf beyond offset length).length = length := by
  simp [readHeap]

theorem readHeap_eq_window {buf : List UInt8} (beyond : ℕ → UInt8) {offset length : ℕ}
    (hfits : offset + length ≤ buf.length) :
    readHeap buf beyond offset length = window offset length buf := by
  apply List.ext_getElem
  · rw [length_readHeap, length_window hfits]
  · intro index hleft _
    have hindex : index < length := by simpa using hleft
    have hbuf : offset + index < buf.length := by omega
    simp only [readHeap, window, List.getElem_map, List.getElem_range,
      List.getElem_take, List.getElem_drop]
    rw [List.getD_eq_getElem _ _ hbuf]

theorem used_recordAt (buf : List UInt8) (beyond : ℕ → UInt8) (index : ℕ) :
    (recordAt buf beyond index).used =
      buf.getD (index * recSize) (beyond (index * recSize)) := by
  have hrange : List.range recSize = 0 :: (List.range (recSize - 1)).map Nat.succ :=
    List.range_succ_eq_map
  simp [recordAt, decodeRec, window, readHeap, hrange]

theorem recordAt_snapshot {files : Table} (beyond : ℕ → UInt8) (slot : Fin maxFiles)
    (tail : List UInt8) (hparent : InInt32 (recordOf (files slot)).parent) :
    recordAt ((recordBlocks files).flatten ++ tail) beyond slot =
      recordOf (files slot) := by
  have hslot : slot.val < (recordBlocks files).length := by
    rw [length_recordBlocks]
    exact slot.isLt
  have hwidth : ∀ block ∈ recordBlocks files, block.length = recSize :=
    fun _ => length_of_mem_recordBlocks
  have hoffset : blockOffset (recordBlocks files) slot = slot * recSize :=
    blockOffset_eq_mul hwidth hslot.le
  have hblock : (recordBlocks files)[slot.val] = encodeRec (recordOf (files slot)) := by
    simp [recordBlocks]
  have hfits : slot * recSize + recSize ≤ (recordBlocks files).flatten.length := by
    rw [length_flatten_recordBlocks, recRegion, ← Nat.succ_mul]
    exact Nat.mul_le_mul_right _ slot.isLt
  have hwindow := window_flatten (recordBlocks files) slot hslot
  rw [hoffset, hblock, length_encodeRec] at hwindow
  rw [recordAt, readHeap_eq_window, window_append_left _ _ hfits, hwindow,
    decodeRec_encodeRec hparent]
  rw [List.length_append]
  exact hfits.trans (Nat.le_add_right _ _)

/-! ## Owned and external files -/

/-- What the file operations keep of a node's data: a positive size has bytes behind
it, and the capacity tells whether the node owns them. -/
structure WellStored (fp : FileNode) : Prop where
  type_eq : fp.type = .file ∨ fp.type = .directory
  size_nonneg : 0 ≤ fp.size
  size_int32 : InInt32 fp.size
  capacity_nonneg : 0 ≤ fp.capacity
  data_of_size : fp.type = .file → 0 < fp.size →
    ∃ bytes, fp.data = some bytes ∧ fp.size.toNat ≤ bytes.length

/-- A file aliased to boot-module memory: it has a size but owns no bytes. -/
structure External (fp : FileNode) : Prop where
  inUse : fp.inUse = true
  type_eq : fp.type = .file
  size_pos : 0 < fp.size
  capacity_eq : fp.capacity = 0

/-- What a node adds to the decoder's running offset. -/
def claimed (fp : FileNode) : ℕ :=
  if fp.inUse = true ∧ fp.type = .file then fp.size.toNat else 0

theorem storesBody_iff (fp : FileNode) :
    storesBody fp = true ↔ fp.inUse = true ∧ fp.type = .file ∧ fp.data.isSome = true ∧
      0 < fp.size ∧ 0 < fp.capacity := by
  simp [storesBody, and_assoc]

theorem WellStored.backed {fp : FileNode} (hfp : fp.inUse = true → WellStored fp) :
    Backed fp := by
  intro hstores
  obtain ⟨hused, htype, _, hsize, _⟩ := (storesBody_iff fp).mp hstores
  obtain ⟨bytes, hbytes, hlength⟩ := (hfp hused).data_of_size htype hsize
  simpa [hbytes] using hlength

theorem WellStored.stores_or_external {fp : FileNode} (hfp : WellStored fp)
    (hused : fp.inUse = true) (htype : fp.type = .file) (hsize : 0 < fp.size) :
    storesBody fp = true ∨ External fp := by
  obtain ⟨bytes, hbytes, _⟩ := hfp.data_of_size htype hsize
  rcases hfp.capacity_nonneg.lt_or_eq with hcapacity | hcapacity
  · left
    rw [storesBody_iff]
    exact ⟨hused, htype, by rw [hbytes]; rfl, hsize, hcapacity⟩
  · right
    exact ⟨hused, htype, hsize, hcapacity.symm⟩

theorem not_storesBody_of_external {fp : FileNode} (hfp : External fp) :
    storesBody fp = false := by
  have hcapacity := hfp.capacity_eq
  simp [storesBody, hcapacity]

theorem claimed_eq_length_body {fp : FileNode} (hfp : fp.inUse = true → WellStored fp)
    (hexternal : ¬External fp) : claimed fp = (body fp).length := by
  rw [length_body (WellStored.backed hfp)]
  by_cases hfile : fp.inUse = true ∧ fp.type = .file
  · simp only [claimed, hfile, and_self, if_true]
    rcases (hfp hfile.1).size_nonneg.lt_or_eq with hsize | hsize
    · have hstores := ((hfp hfile.1).stores_or_external hfile.1 hfile.2 hsize).resolve_right
        hexternal
      rw [if_pos hstores]
    · simp [← hsize]
  · have hstores : storesBody fp = false := by
      by_contra hstores
      have hparts := (storesBody_iff fp).mp (Bool.eq_true_of_not_eq_false hstores)
      exact hfile ⟨hparts.1, hparts.2.1⟩
    simp [claimed, hfile, hstores]

theorem length_body_le_claimed (fp : FileNode) (hbacked : Backed fp) :
    (body fp).length ≤ claimed fp := by
  rw [length_body hbacked]
  by_cases hstores : storesBody fp = true
  · obtain ⟨hused, htype, _⟩ := (storesBody_iff fp).mp hstores
    simp [claimed, hused, htype, hstores]
  · simp [hstores]

/-! ## Where the two loops put and find the bodies -/

def snapshotBytes (files : Table) : List UInt8 :=
  (recordBlocks files).flatten ++ (bodyBlocks files).flatten

/-- Where `build_snapshot` puts the body of a slot. -/
def payloadOffset (files : Table) (index : ℕ) : ℕ :=
  recRegion + blockOffset (bodyBlocks files) index

/-- The running offset of the decoder, in terms of the table that was saved. -/
def claimedOffset (files : Table) (index : ℕ) : ℕ :=
  recRegion + (((List.ofFn files).take index).map claimed).sum

theorem payloadOffset_eq_sum (files : Table) (index : ℕ) :
    payloadOffset files index =
      recRegion + (((List.ofFn files).take index).map fun fp => (body fp).length).sum := by
  have hbodies : bodyBlocks files = (List.ofFn files).map body := by
    rw [List.map_ofFn]
    rfl
  rw [payloadOffset, blockOffset, hbodies, ← List.map_take, List.map_map]
  rfl

theorem length_snapshotBytes (files : Table) :
    (snapshotBytes files).length = payloadOffset files maxFiles := by
  rw [snapshotBytes, List.length_append, length_flatten_recordBlocks,
    length_flatten_eq_blockOffset, length_bodyBlocks, payloadOffset]

theorem payloadOffset_succ (files : Table) (slot : Fin maxFiles) :
    payloadOffset files (slot + 1) =
      payloadOffset files slot + (body (files slot)).length := by
  have hslot : slot.val < (bodyBlocks files).length := by
    rw [length_bodyBlocks]
    exact slot.isLt
  have hbody : (bodyBlocks files)[slot.val] = body (files slot) := by simp [bodyBlocks]
  rw [payloadOffset, blockOffset_succ _ _ hslot, hbody, payloadOffset, add_assoc]

theorem payloadOffset_add_length_le (files : Table) {slot : Fin maxFiles} {index : ℕ}
    (hlt : slot.val < index) :
    payloadOffset files slot + (body (files slot)).length ≤ payloadOffset files index := by
  rw [← payloadOffset_succ]
  exact Nat.add_le_add_left (blockOffset_mono _ hlt) _

theorem payloadOffset_add_length_le_length (files : Table) (slot : Fin maxFiles) :
    payloadOffset files slot + (body (files slot)).length ≤ (snapshotBytes files).length := by
  rw [length_snapshotBytes]
  exact payloadOffset_add_length_le files slot.isLt

theorem window_payloadOffset (files : Table) (slot : Fin maxFiles) :
    window (payloadOffset files slot) (body (files slot)).length (snapshotBytes files) =
      body (files slot) := by
  have hslot : slot.val < (bodyBlocks files).length := by
    rw [length_bodyBlocks]
    exact slot.isLt
  have hbody : (bodyBlocks files)[slot.val] = body (files slot) := by simp [bodyBlocks]
  have hwindow := window_flatten (bodyBlocks files) slot hslot
  rw [hbody] at hwindow
  rw [window, payloadOffset, ← length_flatten_recordBlocks files, ← List.drop_drop,
    snapshotBytes, List.drop_left]
  exact hwindow

theorem payloadOffset_le_claimedOffset {files : Table}
    (hbacked : ∀ slot, Backed (files slot)) (index : ℕ) :
    payloadOffset files index ≤ claimedOffset files index := by
  rw [payloadOffset_eq_sum, claimedOffset]
  apply Nat.add_le_add_left
  apply List.sum_le_sum
  intro fp hfp
  obtain ⟨slot, rfl⟩ := List.mem_ofFn.mp (List.mem_of_mem_take hfp)
  exact length_body_le_claimed _ (hbacked slot)

theorem claimedOffset_eq_payloadOffset {files : Table}
    (hfiles : ∀ slot, (files slot).inUse = true → WellStored (files slot)) {index : ℕ}
    (hbefore : ∀ slot : Fin maxFiles, slot.val < index → ¬External (files slot)) :
    claimedOffset files index = payloadOffset files index := by
  have hsame : ∀ fp ∈ (List.ofFn files).take index, claimed fp = (body fp).length := by
    intro fp hfp
    obtain ⟨slot, hslot, rfl⟩ := mem_take_ofFn.mp hfp
    exact claimed_eq_length_body (hfiles slot) (hbefore slot hslot)
  rw [payloadOffset_eq_sum, claimedOffset, List.map_congr_left hsame]

theorem payloadOffset_lt_claimedOffset {files : Table}
    (hbacked : ∀ slot, Backed (files slot)) {external : Fin maxFiles} {index : ℕ}
    (hexternal : External (files external)) (hlt : external.val < index) :
    payloadOffset files index < claimedOffset files index := by
  rw [payloadOffset_eq_sum, claimedOffset]
  apply Nat.add_lt_add_left
  apply List.sum_lt_sum
  · intro fp hfp
    obtain ⟨slot, rfl⟩ := List.mem_ofFn.mp (List.mem_of_mem_take hfp)
    exact length_body_le_claimed _ (hbacked slot)
  · refine ⟨files external, mem_take_ofFn.mpr ⟨external, hlt, rfl⟩, ?_⟩
    · have hsize := hexternal.size_pos
      rw [length_body (hbacked external), not_storesBody_of_external hexternal]
      simp [claimed, hexternal.inUse, hexternal.type_eq, hsize]

end EigenOS.Persist
