import EigenOS.Filesystem.Table
import EigenOS.Library.ByteLayout

/-!
# Snapshot format

A snapshot is 256 packed records, record `i` for table slot `i`, followed by the
bodies of the files that own their bytes, in slot order.  `build_snapshot` fills
the buffer with two running offsets; here they are shown to lay the two regions
out one after the other.
-/

namespace EigenOS.Persist

open EigenOS.Filesystem EigenOS.ByteLayout

/-! ## Machine integers -/

/-- The 32 bits of an `int`. -/
def int32Bits (value : ℤ) : ℕ := (value % 2 ^ 32).toNat

/-- The `int` with these 32 bits. -/
def int32OfBits (bits : ℕ) : ℤ :=
  if bits < 2 ^ 31 then bits else (bits : ℤ) - 2 ^ 32

def InInt32 (value : ℤ) : Prop := -2 ^ 31 ≤ value ∧ value < 2 ^ 31

theorem int32Bits_lt (value : ℤ) : int32Bits value < 2 ^ 32 := by
  unfold int32Bits
  omega

theorem int32OfBits_int32Bits {value : ℤ} (hvalue : InInt32 value) :
    int32OfBits (int32Bits value) = value := by
  obtain ⟨hlow, hhigh⟩ := hvalue
  unfold int32OfBits int32Bits
  split <;> omega

theorem int32Bits_of_nonneg {value : ℤ} (hvalue : InInt32 value) (hnonneg : 0 ≤ value) :
    int32Bits value = value.toNat := by
  obtain ⟨_, hhigh⟩ := hvalue
  unfold int32Bits
  omega

/-! ## Records -/

/-- `pk_rec_t`, packed. -/
structure PkRec where
  used : UInt8
  name : Name
  parent : ℤ
  type : UInt8
  flags : UInt32
  size : UInt32
  ctime : UInt32
  mtime : UInt32

def recSize : ℕ := 86
def recRegion : ℕ := maxFiles * recSize

def PkRec.zero : PkRec where
  used := 0
  name := fun _ => 0
  parent := 0
  type := 0
  flags := 0
  size := 0
  ctime := 0
  mtime := 0

def PkRec.fields (r : PkRec) : List (List UInt8) :=
  [[r.used], List.ofFn r.name, littleEndian 4 (int32Bits r.parent), [r.type],
    littleEndian 4 r.flags.toNat, littleEndian 4 r.size.toNat,
    littleEndian 4 r.ctime.toNat, littleEndian 4 r.mtime.toNat]

def recWidths : List ℕ := [1, maxFilename, 4, 1, 4, 4, 4, 4]

def encodeRec (r : PkRec) : List UInt8 := r.fields.flatten

def uint32At (offset : ℕ) (bytes : List UInt8) : UInt32 :=
  UInt32.ofNat (fromLittleEndian (window offset 4 bytes))

def decodeRec (bytes : List UInt8) : PkRec where
  used := (window 0 1 bytes).headD 0
  name := fun index => (window 1 maxFilename bytes).getD index 0
  parent := int32OfBits (fromLittleEndian (window 65 4 bytes))
  type := (window 69 1 bytes).headD 0
  flags := uint32At 70 bytes
  size := uint32At 74 bytes
  ctime := uint32At 78 bytes
  mtime := uint32At 82 bytes

theorem PkRec.map_length_fields (r : PkRec) : r.fields.map List.length = recWidths := by
  have hname : (List.ofFn r.name).length = maxFilename := List.length_ofFn
  simp [PkRec.fields, recWidths, hname]

@[simp]
theorem length_encodeRec (r : PkRec) : (encodeRec r).length = recSize := by
  rw [encodeRec, List.length_flatten, r.map_length_fields]
  rfl

theorem uint32At_littleEndian {value : UInt32} {offset : ℕ} {bytes : List UInt8}
    (hwindow : window offset 4 bytes = littleEndian 4 value.toNat) :
    uint32At offset bytes = value := by
  have hlt : value.toNat < 2 ^ 32 := value.toNat_lt
  rw [uint32At, hwindow, fromLittleEndian_littleEndian, Nat.mod_eq_of_lt (by omega),
    UInt32.ofNat_toNat]

theorem window_encodeRec (r : PkRec) (index : Fin 8) :
    window (recWidths.take index).sum recWidths[index] (encodeRec r) =
      r.fields[index] :=
  window_flatten_of_widths r.map_length_fields index index.isLt index.isLt

theorem decodeRec_encodeRec {r : PkRec} (hparent : InInt32 r.parent) :
    decodeRec (encodeRec r) = r := by
  have hused : window 0 1 (encodeRec r) = [r.used] := window_encodeRec r 0
  have hname : window 1 maxFilename (encodeRec r) = List.ofFn r.name :=
    window_encodeRec r 1
  have hparentBytes : window 65 4 (encodeRec r) = littleEndian 4 (int32Bits r.parent) :=
    window_encodeRec r 2
  have htype : window 69 1 (encodeRec r) = [r.type] := window_encodeRec r 3
  have hflags : uint32At 70 (encodeRec r) = r.flags :=
    uint32At_littleEndian (window_encodeRec r 4)
  have hsize : uint32At 74 (encodeRec r) = r.size :=
    uint32At_littleEndian (window_encodeRec r 5)
  have hctime : uint32At 78 (encodeRec r) = r.ctime :=
    uint32At_littleEndian (window_encodeRec r 6)
  have hmtime : uint32At 82 (encodeRec r) = r.mtime :=
    uint32At_littleEndian (window_encodeRec r 7)
  have hbits : fromLittleEndian (littleEndian 4 (int32Bits r.parent)) =
      int32Bits r.parent := by
    have hlt := int32Bits_lt r.parent
    rw [fromLittleEndian_littleEndian, Nat.mod_eq_of_lt (by omega)]
  cases r
  simp only at *
  simp only [decodeRec, hused, hname, hparentBytes, htype, hflags, hsize, hctime,
    hmtime, hbits, int32OfBits_int32Bits hparent, List.headD_cons, PkRec.mk.injEq,
    true_and, and_true]
  funext index
  simp

/-! ## Building a snapshot -/

def FsType.toByte : FsType → UInt8
  | .file => 0
  | .directory => 1
  | .other code => code

/-- The nodes whose bytes go into the payload area. -/
def storesBody (fp : FileNode) : Bool :=
  fp.inUse && fp.type = .file && fp.data.isSome && 0 < fp.size && 0 < fp.capacity

/-- The bytes `memcpy(buf + pay, fp->data, fp->size)` copies. -/
def contents (fp : FileNode) : List UInt8 :=
  (fp.data.getD []).take fp.size.toNat

/-- The payload a node contributes. -/
def body (fp : FileNode) : List UInt8 :=
  if storesBody fp then contents fp else []

def recordOf (fp : FileNode) : PkRec :=
  if fp.inUse then
    { used := 1
      name := strncpy PkRec.zero.name (cString fp.name) (maxFilename - 1)
      parent := fp.parentDir
      type := FsType.toByte fp.type
      flags := fp.flags.toUInt32
      size := UInt32.ofNat (int32Bits fp.size)
      ctime := fp.creationTime
      mtime := fp.modifiedTime }
  else PkRec.zero

/-- `snap`, `snap_len` and `snap_nodes`; the length is that of the buffer. -/
structure Snapshot where
  bytes : List UInt8
  nodes : UInt32

/-- The buffer and the two running offsets of `build_snapshot`'s second loop. -/
structure SnapshotState where
  buf : List UInt8
  off : ℕ
  pay : ℕ
  nodes : UInt32

def payloadSize (nodes : List FileNode) : ℕ :=
  (nodes.map fun fp => if storesBody fp then fp.size.toNat else 0).sum

def snapshotStep (st : SnapshotState) (fp : FileNode) : SnapshotState :=
  let stored :=
    if storesBody fp then
      { st with
        buf := splice st.buf st.pay (contents fp)
        pay := st.pay + fp.size.toNat }
    else st
  { buf := splice stored.buf stored.off (encodeRec (recordOf fp))
    off := stored.off + recSize
    pay := stored.pay
    nodes := if fp.inUse then stored.nodes + 1 else stored.nodes }

/-- `build_snapshot`; `allocated` is whether its `kmalloc` succeeds. -/
def buildSnapshot (allocated : Bool) (files : Table) : Option Snapshot :=
  let nodes := List.ofFn files
  let total := recRegion + payloadSize nodes
  if allocated then
    let st := nodes.foldl snapshotStep
      { buf := List.replicate total 0, off := 0, pay := recRegion, nodes := 0 }
    some { bytes := st.buf, nodes := st.nodes }
  else none

/-! ## What the two running offsets build -/

/-- A node's data buffer is at least as long as the size it claims. -/
def Backed (fp : FileNode) : Prop :=
  storesBody fp = true → fp.size.toNat ≤ (fp.data.getD []).length

theorem length_contents {fp : FileNode} (hbacked : Backed fp)
    (hstores : storesBody fp = true) : (contents fp).length = fp.size.toNat := by
  rw [contents, List.length_take]
  exact Nat.min_eq_left (hbacked hstores)

theorem length_body {fp : FileNode} (hbacked : Backed fp) :
    (body fp).length = if storesBody fp then fp.size.toNat else 0 := by
  by_cases hstores : storesBody fp = true
  · simp only [body, hstores, if_true, length_contents hbacked hstores]
  · simp [body, hstores]

/-- One turn of the loop, on a buffer whose record and payload areas are filled up
to the two offsets. -/
theorem snapshotStep_spec {fp : FileNode} (hbacked : Backed fp)
    (records gap bodies rest : List UInt8) (count : UInt32) :
    snapshotStep
        { buf := records ++ List.replicate recSize 0 ++ gap ++ bodies ++
            List.replicate (body fp).length 0 ++ rest
          off := records.length
          pay := records.length + recSize + gap.length + bodies.length
          nodes := count } fp =
      { buf := records ++ encodeRec (recordOf fp) ++ gap ++ bodies ++ body fp ++ rest
        off := records.length + recSize
        pay := records.length + recSize + gap.length + bodies.length + (body fp).length
        nodes := if fp.inUse then count + 1 else count } := by
  have hrecord : ∀ tail : List UInt8,
      splice (records ++ List.replicate recSize 0 ++ tail) records.length
          (encodeRec (recordOf fp)) =
        records ++ encodeRec (recordOf fp) ++ tail := by
    intro tail
    apply splice_append_middle
    simp
  by_cases hstores : storesBody fp = true
  · have hbody : body fp = contents fp := by simp [body, hstores]
    have hlength : (body fp).length = fp.size.toNat := by
      rw [hbody, length_contents hbacked hstores]
    have hpayload :
        splice (records ++ List.replicate recSize 0 ++ gap ++ bodies ++
            List.replicate (body fp).length 0 ++ rest)
          (records.length + recSize + gap.length + bodies.length) (body fp) =
        records ++ List.replicate recSize 0 ++ gap ++ bodies ++ body fp ++ rest := by
      have hmiddle := splice_append_middle
        (records ++ List.replicate recSize 0 ++ gap ++ bodies)
        (List.replicate (body fp).length 0) rest (body fp) (by simp)
      simpa [add_assoc] using hmiddle
    have hfinal := hrecord (gap ++ bodies ++ body fp ++ rest)
    simp only [← List.append_assoc] at hfinal
    simp only [snapshotStep, hstores, if_true, ← hbody, hpayload, hfinal]
    rw [hlength]
  · have hbody : body fp = [] := by simp [body, hstores]
    have hfinal := hrecord (gap ++ bodies ++ rest)
    simpa [snapshotStep, hstores, hbody] using hfinal

theorem foldl_snapshotStep {nodes : List FileNode} (hbacked : ∀ fp ∈ nodes, Backed fp)
    (records bodies : List UInt8) (count : UInt32) :
    nodes.foldl snapshotStep
        { buf := records ++ List.replicate (nodes.length * recSize) 0 ++ bodies ++
            List.replicate (payloadSize nodes) 0
          off := records.length
          pay := records.length + nodes.length * recSize + bodies.length
          nodes := count } =
      { buf := records ++ (nodes.map fun fp => encodeRec (recordOf fp)).flatten ++
          bodies ++ (nodes.map body).flatten
        off := records.length + nodes.length * recSize
        pay := records.length + nodes.length * recSize + bodies.length +
          payloadSize nodes
        nodes := count + UInt32.ofNat (nodes.countP FileNode.inUse) } := by
  induction nodes generalizing records bodies count with
  | nil => simp [payloadSize]
  | cons fp rest ih =>
      have hfp : Backed fp := hbacked fp (by simp)
      have hrest : ∀ next ∈ rest, Backed next :=
        fun next hnext => hbacked next (by simp [hnext])
      have hsplit : payloadSize (fp :: rest) = (body fp).length + payloadSize rest := by
        rw [length_body hfp]
        simp [payloadSize]
      have hstep := snapshotStep_spec hfp records
        (List.replicate (rest.length * recSize) 0) bodies
        (List.replicate (payloadSize rest) 0) count
      have hrun := ih hrest (records ++ encodeRec (recordOf fp)) (bodies ++ body fp)
        (if fp.inUse then count + 1 else count)
      have hrecords : (fp :: rest).length * recSize = recSize + rest.length * recSize := by
        rw [List.length_cons, Nat.succ_mul, add_comm]
      have hcount : (if fp.inUse then count + 1 else count) +
            UInt32.ofNat (rest.countP FileNode.inUse) =
          count + UInt32.ofNat ((fp :: rest).countP FileNode.inUse) := by
        cases hused : fp.inUse with
        | false => simp [hused]
        | true => simp [hused, add_assoc, add_comm (1 : UInt32)]
      simp only [List.length_replicate, List.length_append, length_encodeRec,
        List.append_assoc] at hstep hrun
      simp only [List.foldl_cons, hsplit, hrecords, List.replicate_add, List.append_assoc,
        ← hcount, List.map_cons, List.flatten_cons]
      simp only [add_assoc] at hstep hrun ⊢
      rw [hstep, hrun]

theorem length_snapshotStep {st : SnapshotState} {fp : FileNode}
    (hoff : st.off + recSize ≤ st.buf.length)
    (hpay : st.pay + (if storesBody fp then fp.size.toNat else 0) ≤ st.buf.length) :
    (snapshotStep st fp).buf.length = st.buf.length := by
  have hcontents : (contents fp).length ≤ fp.size.toNat := List.length_take_le _ _
  by_cases hstores : storesBody fp = true
  · simp only [hstores, if_true] at hpay
    have hbody : (splice st.buf st.pay (contents fp)).length = st.buf.length :=
      length_splice (by omega)
    simp only [snapshotStep, hstores, if_true]
    rw [length_splice (by simpa [hbody] using hoff), hbody]
  · simp only [snapshotStep, hstores]
    exact length_splice (by simpa using hoff)

theorem length_foldl_snapshotStep {nodes : List FileNode} {st : SnapshotState}
    (hoff : st.off + nodes.length * recSize ≤ st.buf.length)
    (hpay : st.pay + payloadSize nodes ≤ st.buf.length) :
    (nodes.foldl snapshotStep st).buf.length = st.buf.length := by
  induction nodes generalizing st with
  | nil => rfl
  | cons fp rest ih =>
      have hsplit : payloadSize (fp :: rest) =
          (if storesBody fp then fp.size.toNat else 0) + payloadSize rest := by
        simp [payloadSize]
      rw [List.length_cons, Nat.succ_mul] at hoff
      have hstep : (snapshotStep st fp).buf.length = st.buf.length :=
        length_snapshotStep (by omega) (by omega)
      have hnextOff : (snapshotStep st fp).off = st.off + recSize := by
        by_cases hstores : storesBody fp = true <;> simp [snapshotStep, hstores]
      have hnextPay : (snapshotStep st fp).pay =
          st.pay + (if storesBody fp then fp.size.toNat else 0) := by
        by_cases hstores : storesBody fp = true <;> simp [snapshotStep, hstores]
      rw [List.foldl_cons, ih (by omega) (by omega), hstep]

theorem length_buildSnapshot {files : Table} {snap : Snapshot}
    (hsnap : buildSnapshot true files = some snap) :
    snap.bytes.length = recRegion + payloadSize (List.ofFn files) := by
  have hlength : (List.ofFn files).length = maxFiles := List.length_ofFn
  simp only [buildSnapshot, if_true, Option.some.injEq] at hsnap
  rw [← hsnap, length_foldl_snapshotStep]
  · simp
  · simp [hlength, recRegion]
  · simp

def recordBlocks (files : Table) : List (List UInt8) :=
  List.ofFn fun slot => encodeRec (recordOf (files slot))

def bodyBlocks (files : Table) : List (List UInt8) :=
  List.ofFn fun slot => body (files slot)

@[simp]
theorem length_recordBlocks (files : Table) : (recordBlocks files).length = maxFiles :=
  List.length_ofFn

@[simp]
theorem length_bodyBlocks (files : Table) : (bodyBlocks files).length = maxFiles :=
  List.length_ofFn

theorem length_of_mem_recordBlocks {files : Table} {block : List UInt8}
    (hblock : block ∈ recordBlocks files) : block.length = recSize := by
  obtain ⟨slot, rfl⟩ := List.mem_ofFn.mp hblock
  exact length_encodeRec _

theorem length_flatten_recordBlocks (files : Table) :
    (recordBlocks files).flatten.length = recRegion := by
  rw [length_flatten_eq_blockOffset,
    blockOffset_eq_mul (fun _ => length_of_mem_recordBlocks) le_rfl, length_recordBlocks]
  rfl

theorem buildSnapshot_spec {files : Table} (hbacked : ∀ slot, Backed (files slot)) :
    buildSnapshot true files =
      some
        { bytes := (recordBlocks files).flatten ++ (bodyBlocks files).flatten
          nodes := UInt32.ofNat ((List.ofFn files).countP FileNode.inUse) } := by
  have hnodes : ∀ fp ∈ List.ofFn files, Backed fp := by
    intro fp hfp
    obtain ⟨slot, rfl⟩ := List.mem_ofFn.mp hfp
    exact hbacked slot
  have hlength : (List.ofFn files).length = maxFiles := List.length_ofFn
  have hrun := foldl_snapshotStep hnodes [] [] 0
  simp only [hlength, List.nil_append, List.append_nil, List.length_nil, zero_add,
    add_zero, List.replicate_append_replicate, List.map_ofFn] at hrun
  simp only [buildSnapshot, if_true, recRegion, hrun]
  rfl

end EigenOS.Persist
