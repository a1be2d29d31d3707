import EigenOS.Persist.BlockDevice
import EigenOS.Persist.Snapshot

/-!
# The two slots

`persist_sync` writes the snapshot to the slot its sequence number selects, bodies
first and header last; `persist_load` looks at both headers and keeps the newer
slot that loads.
-/

namespace EigenOS.Persist

open EigenOS.Filesystem EigenOS.ByteLayout

/-! ## Slot headers -/

def crc32Bit (c : UInt32) : UInt32 :=
  (c >>> 1) ^^^ (0xEDB88320 &&& (0 - (c &&& 1)))

def crc32Byte (c : UInt32) (byte : UInt8) : UInt32 :=
  crc32Bit^[8] (c ^^^ byte.toUInt32)

def crc32Buf (bytes : List UInt8) : UInt32 :=
  ~~~(bytes.foldl crc32Byte 0xFFFFFFFF)

/-- `pk_hdr_t`, packed. -/
structure PkHdr where
  magic : List UInt8
  version : UInt32
  seq : UInt32
  nodeCount : UInt32
  recBytes : UInt32
  payloadBytes : UInt64
  crc : UInt32
  reserved : UInt32

/-- `"EGNDSK02"`. -/
def persistMagic : List UInt8 := [69, 71, 78, 68, 83, 75, 48, 50]
def persistVersion : UInt32 := 1
def hdrSize : ℕ := 40

def PkHdr.fields (h : PkHdr) : List (List UInt8) :=
  [h.magic, littleEndian 4 h.version.toNat, littleEndian 4 h.seq.toNat,
    littleEndian 4 h.nodeCount.toNat, littleEndian 4 h.recBytes.toNat,
    littleEndian 8 h.payloadBytes.toNat, littleEndian 4 h.crc.toNat,
    littleEndian 4 h.reserved.toNat]

def hdrWidths : List ℕ := [8, 4, 4, 4, 4, 8, 4, 4]

def encodeHdr (h : PkHdr) : List UInt8 := h.fields.flatten

def decodeHdr (bytes : List UInt8) : PkHdr where
  magic := window 0 8 bytes
  version := uint32At 8 bytes
  seq := uint32At 12 bytes
  nodeCount := uint32At 16 bytes
  recBytes := uint32At 20 bytes
  payloadBytes := UInt64.ofNat (fromLittleEndian (window 24 8 bytes))
  crc := uint32At 32 bytes
  reserved := uint32At 36 bytes

theorem PkHdr.map_length_fields {h : PkHdr} (hmagic : h.magic.length = 8) :
    h.fields.map List.length = hdrWidths := by
  simp [PkHdr.fields, hdrWidths, hmagic]

theorem length_encodeHdr {h : PkHdr} (hmagic : h.magic.length = 8) :
    (encodeHdr h).length = hdrSize := by
  rw [encodeHdr, List.length_flatten, PkHdr.map_length_fields hmagic]
  rfl

theorem window_encodeHdr {h : PkHdr} (hmagic : h.magic.length = 8) (index : Fin 8) :
    window (hdrWidths.take index).sum hdrWidths[index] (encodeHdr h) =
      h.fields[index] :=
  window_flatten_of_widths (PkHdr.map_length_fields hmagic) index index.isLt index.isLt

theorem decodeHdr_encodeHdr {h : PkHdr} (hmagic : h.magic.length = 8) :
    decodeHdr (encodeHdr h) = h := by
  have hmagicBytes : window 0 8 (encodeHdr h) = h.magic := window_encodeHdr hmagic 0
  have hversion : uint32At 8 (encodeHdr h) = h.version :=
    uint32At_littleEndian (window_encodeHdr hmagic 1)
  have hseq : uint32At 12 (encodeHdr h) = h.seq :=
    uint32At_littleEndian (window_encodeHdr hmagic 2)
  have hnodes : uint32At 16 (encodeHdr h) = h.nodeCount :=
    uint32At_littleEndian (window_encodeHdr hmagic 3)
  have hrec : uint32At 20 (encodeHdr h) = h.recBytes :=
    uint32At_littleEndian (window_encodeHdr hmagic 4)
  have hpayloadBytes : window 24 8 (encodeHdr h) =
      littleEndian 8 h.payloadBytes.toNat := window_encodeHdr hmagic 5
  have hpayload : UInt64.ofNat (fromLittleEndian (window 24 8 (encodeHdr h))) =
      h.payloadBytes := by
    have hlt : h.payloadBytes.toNat < 2 ^ 64 := h.payloadBytes.toNat_lt
    rw [hpayloadBytes, fromLittleEndian_littleEndian, Nat.mod_eq_of_lt (by omega),
      UInt64.ofNat_toNat]
  have hcrc : uint32At 32 (encodeHdr h) = h.crc :=
    uint32At_littleEndian (window_encodeHdr hmagic 6)
  have hreserved : uint32At 36 (encodeHdr h) = h.reserved :=
    uint32At_littleEndian (window_encodeHdr hmagic 7)
  rw [decodeHdr, hmagicBytes, hversion, hseq, hnodes, hrec, hpayload, hcrc, hreserved]

/-! ## Slots -/

/-- The slots, by the parity of the sequence numbers they take. -/
inductive Slot where
  | even
  | odd
  deriving DecidableEq, Repr

def Slot.other : Slot → Slot
  | .even => .odd
  | .odd => .even

def slotOf (seq : UInt32) : Slot :=
  if seq &&& 1 = 0 then .even else .odd

def persistBaseLba : ℕ := 4096
def slotSectors : ℕ := 32 * 1024 * 1024 / 512

def Slot.base : Slot → ℕ
  | .even => persistBaseLba
  | .odd => persistBaseLba + slotSectors

def slotHeader (disk : Disk) (slot : Slot) : PkHdr :=
  decodeHdr (sectorBytes (disk slot.base) hdrSize)

/-- A snapshot of a size that a slot can take, under its sequence number. -/
structure Image where
  bytes : List UInt8
  nodes : UInt32
  seq : UInt32
  records_le : recRegion ≤ bytes.length
  fits : sectorsFor bytes.length + 1 ≤ slotSectors

/-- The header `write_slot` puts over a snapshot. -/
def headerFor (bytes : List UInt8) (nodes seq : UInt32) : PkHdr where
  magic := persistMagic
  version := persistVersion
  seq := seq
  nodeCount := nodes
  recBytes := UInt32.ofNat recRegion
  payloadBytes := UInt64.ofNat (bytes.length - recRegion)
  crc := crc32Buf bytes
  reserved := 0

def Image.header (image : Image) : PkHdr :=
  headerFor image.bytes image.nodes image.seq

def slotWrites (slot : Slot) (bytes : List UInt8) (nodes seq : UInt32) :
    List SectorWrite :=
  payloadWrites (sectorsFor bytes.length) (slot.base + 1) bytes ++
    [(slot.base, toSector (encodeHdr (headerFor bytes nodes seq)))]

def writeSlot (disk : Disk) (slot : Slot) (snap : Snapshot) (seq : UInt32)
    (outcomes : List WriteOutcome) : Disk × WriteResult :=
  if slotSectors < sectorsFor snap.bytes.length + 1 then (disk, .failed)
  else writeSectors disk (slotWrites slot snap.bytes snap.nodes seq) outcomes

/-- The slot holds the image in full: the header is the image's, CRC included, and
the sectors after it give back its bytes. -/
structure Holds (disk : Disk) (slot : Slot) (image : Image) : Prop where
  header_eq : slotHeader disk slot = image.header
  bytes_eq : readSectors (fun _ => true) disk (sectorsFor image.bytes.length)
    (slot.base + 1) image.bytes.length = some image.bytes

/-! ## Loading -/

/-- How the reads and allocations of one `persist_load` turn out, and what lies in
memory behind the buffer it loads. -/
structure LoadEnv where
  scanned : Slot → Bool
  headerReadable : Slot → Bool
  readable : ℕ → Bool
  allocated : Slot → Bool
  bodyAllocated : Fin maxFiles → Bool
  beyond : ℕ → UInt8

/-- Every read and allocation succeeds. -/
@[simps]
def LoadEnv.succeeding (beyond : ℕ → UInt8) : LoadEnv where
  scanned := fun _ => true
  headerReadable := fun _ => true
  readable := fun _ => true
  allocated := fun _ => true
  bodyAllocated := fun _ => true
  beyond := beyond

@[simp]
theorem LoadEnv.beyond_succeeding (beyond : ℕ → UInt8) :
    (LoadEnv.succeeding beyond).beyond = beyond := rfl

def loadSlot (env : LoadEnv) (disk : Disk) (slot : Slot) : Option (List UInt8) :=
  let h := slotHeader disk slot
  let total := (h.recBytes.toNat + h.payloadBytes.toNat) % 2 ^ 64
  if env.headerReadable slot = false then none
  else if h.magic ≠ persistMagic then none
  else if h.version ≠ persistVersion then none
  else if h.recBytes.toNat ≠ recRegion then none
  else if total = 0 ∨ slotSectors * sectorSize - sectorSize < total then none
  else if env.allocated slot = false then none
  else
    match readSectors env.readable disk (sectorsFor total) (slot.base + 1) total with
    | none => none
    | some buf => if crc32Buf buf ≠ h.crc then none else some buf

/-- `best`, `best_seq`, `found` and the static `seq` while the slots are scanned. -/
structure LoadState where
  best : Option (List UInt8)
  bestSeq : UInt32
  found : Bool
  seq : UInt32

def loadStep (env : LoadEnv) (disk : Disk) (st : LoadState) (slot : Slot) : LoadState :=
  let h := slotHeader disk slot
  if env.scanned slot = false then st
  else if h.magic ≠ persistMagic then st
  else if st.best.isSome ∧ h.seq ≤ st.bestSeq then st
  else
    match loadSlot env disk slot with
    | some buf => { best := some buf, bestSeq := h.seq, found := true, seq := h.seq }
    | none =>
        { st with
          best := none
          found := if st.found ∧ st.bestSeq = h.seq then false else st.found }

def chooseSlot (env : LoadEnv) (disk : Disk) (seq : UInt32) : LoadState :=
  [Slot.even, Slot.odd].foldl (loadStep env disk)
    { best := none, bestSeq := 0, found := false, seq := seq }

/-! ## The two slots do not overlap -/

@[simp]
theorem Slot.other_other (slot : Slot) : slot.other.other = slot := by
  cases slot <;> rfl

theorem Slot.other_ne (slot : Slot) : slot.other ≠ slot := by
  cases slot <;> decide

theorem Slot.eq_other_of_ne {left right : Slot} (hne : left ≠ right) :
    left = right.other := by
  cases left <;> cases right <;> first | rfl | exact absurd rfl hne

theorem slotOf_eq_iff (seq : UInt32) : slotOf seq = .even ↔ seq.toNat % 2 = 0 := by
  have hbit : (seq &&& 1).toNat = seq.toNat % 2 := by
    rw [UInt32.toNat_and]
    exact Nat.and_one_is_mod _
  have hzero : seq &&& 1 = 0 ↔ (seq &&& 1).toNat = 0 := UInt32.toNat_inj.symm
  rw [hbit] at hzero
  by_cases heven : seq &&& 1 = 0
  · simp [slotOf, heven, hzero.mp heven]
  · simp [slotOf, heven, mt hzero.mpr heven]

theorem slotOf_succ (seq : UInt32) : slotOf (seq + 1) = (slotOf seq).other := by
  have hlt : seq.toNat < 2 ^ 32 := seq.toNat_lt
  have hsucc : (seq + 1).toNat % 2 = (seq.toNat + 1) % 2 := by
    have hadd : (seq + 1).toNat = (seq.toNat + 1) % 2 ^ 32 := UInt32.toNat_add seq 1
    omega
  cases hseq : slotOf seq with
  | even =>
      have heven := (slotOf_eq_iff seq).mp hseq
      have hodd : slotOf (seq + 1) ≠ .even := by
        rw [Ne, slotOf_eq_iff]
        omega
      exact Slot.eq_other_of_ne hodd
  | odd =>
      have hodd : seq.toNat % 2 ≠ 0 := by
        rw [Ne, ← slotOf_eq_iff, hseq]
        decide
      have heven : slotOf (seq + 1) = .even := by
        rw [slotOf_eq_iff]
        omega
      exact heven

/-- The sectors of a slot: its header and the body behind it. -/
def Slot.Contains (slot : Slot) (lba : ℕ) : Prop :=
  slot.base ≤ lba ∧ lba < slot.base + slotSectors

theorem Slot.not_contains_of_other (slot : Slot) {lba : ℕ} (hlba : slot.other.Contains lba) :
    ¬slot.Contains lba := by
  obtain ⟨hlow, hhigh⟩ := hlba
  rintro ⟨hlow', hhigh'⟩
  cases slot <;> simp only [Slot.other, Slot.base] at * <;> omega

theorem Slot.contains_base (slot : Slot) : slot.Contains slot.base :=
  ⟨le_rfl, Nat.lt_add_of_pos_right (by decide)⟩

variable {slot : Slot}

theorem contains_of_mem_slotWrites {bytes : List UInt8} {nodes seq : UInt32} {lba : ℕ}
    (hfits : sectorsFor bytes.length + 1 ≤ slotSectors)
    (hlba : lba ∈ (slotWrites slot bytes nodes seq).map Prod.fst) : slot.Contains lba := by
  rw [slotWrites, List.map_append, List.mem_append] at hlba
  rcases hlba with hbody | hheader
  · have hrange := mem_payloadWrites hbody
    exact ⟨by omega, by omega⟩
  · obtain rfl : lba = slot.base := by simpa using hheader
    exact slot.contains_base

theorem base_notMem_payloadWrites (slot : Slot) (count : ℕ) (bytes : List UInt8) :
    slot.base ∉ (payloadWrites count (slot.base + 1) bytes).map Prod.fst := by
  intro hmem
  have := mem_payloadWrites hmem
  omega

/-! ## Writing a slot -/

theorem sectorsFor_mul_ge (length : ℕ) : length ≤ sectorsFor length * sectorSize := by
  simp only [sectorsFor, sectorSize]
  omega

@[simp]
theorem Image.magic_header (image : Image) : image.header.magic = persistMagic := rfl

@[simp]
theorem Image.version_header (image : Image) : image.header.version = persistVersion :=
  rfl

@[simp]
theorem Image.seq_header (image : Image) : image.header.seq = image.seq := rfl

@[simp]
theorem Image.crc_header (image : Image) : image.header.crc = crc32Buf image.bytes := rfl

@[simp]
theorem Image.recBytes_header (image : Image) : image.header.recBytes.toNat = recRegion :=
  rfl

theorem Image.length_lt (image : Image) : image.bytes.length < 2 ^ 64 := by
  have hcount := image.fits
  have hbytes := sectorsFor_mul_ge image.bytes.length
  have hslot : slotSectors = 65536 := rfl
  simp only [sectorSize] at hbytes
  omega

/-- `rec_bytes + payload_bytes` of a saved header is the length of the buffer. -/
theorem Image.total_header (image : Image) :
    (image.header.recBytes.toNat + image.header.payloadBytes.toNat) % 2 ^ 64 =
      image.bytes.length := by
  have hlt := image.length_lt
  have hle := image.records_le
  have hpayload : image.header.payloadBytes.toNat = image.bytes.length - recRegion := by
    have hofNat : image.header.payloadBytes =
        UInt64.ofNat (image.bytes.length - recRegion) := rfl
    rw [hofNat, UInt64.toNat_ofNat_of_lt' (by simp only [UInt64.size]; omega)]
  rw [image.recBytes_header, hpayload, Nat.add_sub_cancel' hle, Nat.mod_eq_of_lt hlt]

variable {disk : Disk} {image : Image}

theorem slotHeader_of_sector {h : PkHdr} (hmagic : h.magic.length = 8)
    (hsector : disk slot.base = toSector (encodeHdr h)) : slotHeader disk slot = h := by
  have hlength := length_encodeHdr hmagic
  have hfits : (encodeHdr h).length ≤ sectorSize := by
    rw [hlength]
    decide
  have hbytes := sectorBytes_toSector hfits
  rw [slotHeader, hsector, ← hlength, hbytes, decodeHdr_encodeHdr hmagic]

theorem slotWrites_eq_cons (slot : Slot) (image : Image) :
    ∃ rest, rest ≠ [] ∧ slotWrites slot image.bytes image.nodes image.seq =
      (slot.base + 1, toSector (image.bytes.take sectorSize)) :: rest := by
  have hpos : sectorsFor image.bytes.length ≠ 0 := by
    have hle := image.records_le
    have hregion : 0 < recRegion := by decide
    have hbytes := sectorsFor_mul_ge image.bytes.length
    intro hzero
    rw [hzero] at hbytes
    omega
  obtain ⟨count, hcount⟩ := Nat.exists_eq_succ_of_ne_zero hpos
  rw [slotWrites, hcount]
  exact ⟨_, by simp, rfl⟩

theorem holds_applyWrites (disk : Disk) (slot : Slot) (image : Image) :
    Holds (applyWrites disk (slotWrites slot image.bytes image.nodes image.seq)) slot
      image := by
  have hheader :
      applyWrites disk (slotWrites slot image.bytes image.nodes image.seq) slot.base =
        toSector (encodeHdr image.header) := by
    rw [slotWrites, applyWrites_append]
    exact Function.update_self _ _ _
  have hbody : ∀ lba, slot.base + 1 ≤ lba →
      lba < slot.base + 1 + sectorsFor image.bytes.length →
        applyWrites disk (slotWrites slot image.bytes image.nodes image.seq) lba =
          applyWrites disk (payloadWrites (sectorsFor image.bytes.length)
            (slot.base + 1) image.bytes) lba := by
    intro lba hlow _
    rw [slotWrites, applyWrites_append, applyWrites, applyWrites,
      Function.update_of_ne (by omega)]
  constructor
  · exact slotHeader_of_sector rfl hheader
  · rw [readSectors_congr hbody]
    exact readSectors_applyWrites disk (fun _ => rfl) (sectorsFor_mul_ge _)

theorem Holds.congr {first second : Disk} (hholds : Holds first slot image)
    (hsame : ∀ lba, slot.Contains lba → second lba = first lba) : Holds second slot image := by
  have hfits := image.fits
  constructor
  · rw [slotHeader, hsame _ slot.contains_base]
    exact hholds.header_eq
  · have hbody : ∀ lba, slot.base + 1 ≤ lba →
        lba < slot.base + 1 + sectorsFor image.bytes.length → second lba = first lba :=
      fun lba hlow hhigh => hsame lba ⟨by omega, by omega⟩
    rw [readSectors_congr hbody]
    exact hholds.bytes_eq

theorem slotHeader_congr {first second : Disk} (hsame : second slot.base = first slot.base) :
    slotHeader second slot = slotHeader first slot := by
  rw [slotHeader, slotHeader, hsame]

/-- How a write to a slot can end: complete, or not done with the old header still in
place. -/
theorem writeSectors_slotWrites (disk : Disk) (slot : Slot) (image : Image)
    (outcomes : List WriteOutcome) :
    let written := writeSectors disk
      (slotWrites slot image.bytes image.nodes image.seq) outcomes
    Holds written.1 slot image ∨
      written.2 ≠ .done ∧ slotHeader written.1 slot = slotHeader disk slot := by
  have hcases := writeSectors_append_header disk
    (payloadWrites (sectorsFor image.bytes.length) (slot.base + 1) image.bytes)
    slot.base (toSector (encodeHdr image.header)) outcomes
    (base_notMem_payloadWrites slot _ _)
  rcases hcases with hall | ⟨hresult, hsector⟩
  · left
    have hholds := holds_applyWrites disk slot image
    rwa [slotWrites, ← Image.header, ← hall] at hholds
  · right
    exact ⟨hresult, slotHeader_congr hsector⟩

theorem writeSectors_slotWrites_other (image : Image) (outcomes : List WriteOutcome) {lba : ℕ}
    (hlba : slot.other.Contains lba) :
    (writeSectors disk (slotWrites slot image.bytes image.nodes image.seq) outcomes).1
        lba = disk lba := by
  apply writeSectors_of_notMem
  intro hmem
  exact Slot.not_contains_of_other _ hlba (contains_of_mem_slotWrites image.fits hmem)

/-! ## Choosing a slot -/

theorem loadSlot_of_holds (beyond : ℕ → UInt8) (hholds : Holds disk slot image) :
    loadSlot (LoadEnv.succeeding beyond) disk slot = some image.bytes := by
  have hpos : image.bytes.length ≠ 0 := by
    have hle := image.records_le
    have hregion : 0 < recRegion := by decide
    omega
  have hsmall : ¬slotSectors * sectorSize - sectorSize < image.bytes.length := by
    have hfits := image.fits
    have hbytes := sectorsFor_mul_ge image.bytes.length
    have hslot : slotSectors = 65536 := rfl
    simp only [sectorSize] at *
    omega
  have hbytes : readSectors (LoadEnv.succeeding beyond).readable disk
      (sectorsFor image.bytes.length) (slot.base + 1) image.bytes.length =
        some image.bytes := hholds.bytes_eq
  simp only [loadSlot, hholds.header_eq, image.total_header]
  simp [hpos, hsmall, hbytes]

def Older (disk : Disk) (slot : Slot) (image : Image) : Prop :=
  (slotHeader disk slot).magic = persistMagic → (slotHeader disk slot).seq < image.seq

theorem loadStep_of_holds (beyond : ℕ → UInt8) (hholds : Holds disk slot image) {st : LoadState}
    (hst : st.best.isSome → st.bestSeq < image.seq) :
    loadStep (LoadEnv.succeeding beyond) disk st slot =
      { best := some image.bytes, bestSeq := image.seq, found := true,
        seq := image.seq } := by
  have hskip : ¬(st.best.isSome ∧ image.seq ≤ st.bestSeq) := by
    rintro ⟨hbest, hle⟩
    exact absurd (hst hbest) (UInt32.not_lt.mpr hle)
  simp [loadStep, loadSlot_of_holds beyond hholds, hholds.header_eq, hskip]

theorem chooseSlot_of_holds (seq : UInt32) (beyond : ℕ → UInt8) (hholds : Holds disk slot image)
    (holder : Older disk slot.other image) :
    chooseSlot (LoadEnv.succeeding beyond) disk seq =
      { best := some image.bytes, bestSeq := image.seq, found := true,
        seq := image.seq } := by
  cases slot with
  | even =>
      have hfirst : loadStep (LoadEnv.succeeding beyond) disk
          { best := none, bestSeq := 0, found := false, seq := seq } .even = _ :=
        loadStep_of_holds beyond hholds (by simp)
      simp only [chooseSlot, List.foldl_cons, List.foldl_nil, hfirst]
      by_cases hmagic : (slotHeader disk Slot.odd).magic = persistMagic
      · have hle : (slotHeader disk Slot.odd).seq ≤ image.seq :=
          UInt32.le_of_lt (holder hmagic)
        simp [loadStep, hmagic, hle]
      · simp [loadStep, hmagic]
  | odd =>
      simp only [chooseSlot, List.foldl_cons, List.foldl_nil]
      apply loadStep_of_holds beyond hholds
      intro hbest
      by_cases hmagic : (slotHeader disk Slot.even).magic = persistMagic
      · have hlt : (slotHeader disk Slot.even).seq < image.seq := holder hmagic
        cases hload : loadSlot (LoadEnv.succeeding beyond) disk .even with
        | none => simp [loadStep, hmagic, hload] at hbest
        | some buf => simpa [loadStep, hmagic, hload] using hlt
      · simp [loadStep, hmagic] at hbest

end EigenOS.Persist
