import EigenOS.Library.ByteLayout
import Mathlib.Data.Fintype.Pi
import Mathlib.Data.List.GetD
import Mathlib.Data.UInt

/-!
# Sector device

The disk is a function from sector number to 512 bytes.  A multi-sector write is
the list of its single-sector writes; each of them may fail, with or without
having reached the disk, and the machine may stop before it.
-/

namespace EigenOS.Persist

open EigenOS.ByteLayout Function

def sectorSize : ℕ := 512

abbrev Sector := Fin sectorSize → UInt8
abbrev Disk := ℕ → Sector

/-- `memset(sec, 0, SECTOR)` and then `memcpy(sec, bytes, ..)`. -/
def toSector (bytes : List UInt8) : Sector :=
  fun index => bytes.getD index 0

/-- The first `count` bytes of a sector buffer. -/
def sectorBytes (sector : Sector) (count : ℕ) : List UInt8 :=
  (List.ofFn sector).take count

theorem sectorBytes_toSector {bytes : List UInt8} (hfits : bytes.length ≤ sectorSize) :
    sectorBytes (toSector bytes) bytes.length = bytes := by
  have hofFn : (List.ofFn (toSector bytes)).length = sectorSize := List.length_ofFn
  apply List.ext_getElem
  · simp only [sectorBytes, List.length_take, hofFn, Nat.min_eq_left hfits]
  · intro index _ hindex
    simp only [sectorBytes]
    rw [List.getElem_take, List.getElem_ofFn, toSector,
      List.getD_eq_getElem _ _ hindex]

theorem length_sectorBytes (sector : Sector) {count : ℕ} (hcount : count ≤ sectorSize) :
    (sectorBytes sector count).length = count := by
  have hofFn : (List.ofFn sector).length = sectorSize := List.length_ofFn
  rw [sectorBytes, List.length_take, hofFn]
  exact Nat.min_eq_left hcount

/-! ## Writing -/

/-- What happens at one sector write.  A failing write reaches the disk or not;
a stop is a power cut before the write. -/
inductive WriteOutcome where
  | ok
  | error (reached : Bool)
  | stop
  deriving DecidableEq, Repr

inductive WriteResult where
  | done
  | failed
  | stopped
  deriving DecidableEq, Repr

abbrev SectorWrite := ℕ × Sector

def nextOutcome (outcomes : List WriteOutcome) : WriteOutcome := outcomes.headD .ok

/-- Perform the writes in order and give up at the first that is not `ok`. -/
def writeSectors : Disk → List SectorWrite → List WriteOutcome → Disk × WriteResult
  | disk, [], _ => (disk, .done)
  | disk, (lba, sector) :: rest, outcomes =>
      match nextOutcome outcomes with
      | .ok => writeSectors (update disk lba sector) rest outcomes.tail
      | .error true => (update disk lba sector, .failed)
      | .error false => (disk, .failed)
      | .stop => (disk, .stopped)

/-- All the writes, without failures. -/
def applyWrites : Disk → List SectorWrite → Disk
  | disk, [] => disk
  | disk, (lba, sector) :: rest => applyWrites (update disk lba sector) rest

theorem applyWrites_append (disk : Disk) (first second : List SectorWrite) :
    applyWrites disk (first ++ second) = applyWrites (applyWrites disk first) second := by
  induction first generalizing disk with
  | nil => rfl
  | cons write rest ih => exact ih _

theorem applyWrites_of_notMem {disk : Disk} {writes : List SectorWrite} {lba : ℕ}
    (hlba : lba ∉ writes.map Prod.fst) : applyWrites disk writes lba = disk lba := by
  induction writes generalizing disk with
  | nil => rfl
  | cons write rest ih =>
      simp only [List.map_cons, List.mem_cons, not_or] at hlba
      rw [applyWrites, ih hlba.2, update_of_ne hlba.1]

theorem writeSectors_of_all_ok {disk : Disk} {writes : List SectorWrite}
    {outcomes : List WriteOutcome} (hok : ∀ outcome ∈ outcomes, outcome = .ok) :
    writeSectors disk writes outcomes = (applyWrites disk writes, .done) := by
  induction writes generalizing disk outcomes with
  | nil => rfl
  | cons write rest ih =>
      have hhead : nextOutcome outcomes = .ok := by
        cases outcomes with
        | nil => rfl
        | cons outcome others => exact hok outcome (by simp)
      simp only [writeSectors, hhead]
      exact ih fun outcome hmem => hok outcome (List.mem_of_mem_tail hmem)

theorem writeSectors_nil (disk : Disk) (writes : List SectorWrite) :
    writeSectors disk writes [] = (applyWrites disk writes, .done) :=
  writeSectors_of_all_ok (by simp)

theorem writeSectors_of_done {disk : Disk} {writes : List SectorWrite}
    {outcomes : List WriteOutcome}
    (hdone : (writeSectors disk writes outcomes).2 = .done) :
    (writeSectors disk writes outcomes).1 = applyWrites disk writes := by
  induction writes generalizing disk outcomes with
  | nil => rfl
  | cons write rest ih =>
      obtain ⟨lba, sector⟩ := write
      cases hhead : nextOutcome outcomes with
      | ok =>
          simp only [writeSectors, hhead] at hdone ⊢
          exact ih hdone
      | error reached => cases reached <;> simp [writeSectors, hhead] at hdone
      | stop => simp [writeSectors, hhead] at hdone

theorem writeSectors_of_notMem {disk : Disk} {writes : List SectorWrite}
    {outcomes : List WriteOutcome} {lba : ℕ} (hlba : lba ∉ writes.map Prod.fst) :
    (writeSectors disk writes outcomes).1 lba = disk lba := by
  induction writes generalizing disk outcomes with
  | nil => rfl
  | cons write rest ih =>
      obtain ⟨first, sector⟩ := write
      simp only [List.map_cons, List.mem_cons, not_or] at hlba
      cases hhead : nextOutcome outcomes with
      | ok =>
          simp only [writeSectors, hhead]
          rw [ih hlba.2, update_of_ne hlba.1]
      | error reached => cases reached <;> simp [writeSectors, hhead, hlba.1]
      | stop => simp [writeSectors, hhead]

/-- A write list whose last sector is a header: either every write took effect, or
the header's sector still holds what it held. -/
theorem writeSectors_append_header (disk : Disk) (payload : List SectorWrite)
    (lba : ℕ) (header : Sector) (outcomes : List WriteOutcome)
    (hlba : lba ∉ payload.map Prod.fst) :
    (writeSectors disk (payload ++ [(lba, header)]) outcomes).1 =
        applyWrites disk (payload ++ [(lba, header)]) ∨
      (writeSectors disk (payload ++ [(lba, header)]) outcomes).2 ≠ .done ∧
        (writeSectors disk (payload ++ [(lba, header)]) outcomes).1 lba = disk lba := by
  induction payload generalizing disk outcomes with
  | nil =>
      cases hhead : nextOutcome outcomes with
      | ok => simp [writeSectors, applyWrites, hhead]
      | error reached => cases reached <;> simp [writeSectors, applyWrites, hhead]
      | stop => simp [writeSectors, hhead]
  | cons write rest ih =>
      obtain ⟨first, sector⟩ := write
      simp only [List.map_cons, List.mem_cons, not_or] at hlba
      cases hhead : nextOutcome outcomes with
      | ok =>
          simp only [List.cons_append, writeSectors, applyWrites, hhead]
          have hrest := ih (update disk first sector) outcomes.tail hlba.2
          rwa [update_of_ne hlba.1] at hrest
      | error reached =>
          right
          cases reached <;> simp [writeSectors, hhead, hlba.1]
      | stop =>
          right
          simp [writeSectors, hhead]

/-! ## Reading and writing a run of sectors -/

/-- How many times `while (left > 0)` runs for `length` bytes. -/
def sectorsFor (length : ℕ) : ℕ := (length + sectorSize - 1) / sectorSize

/-- The writes of `write_slot`'s loop: consecutive sectors of the buffer. -/
def payloadWrites : ℕ → ℕ → List UInt8 → List SectorWrite
  | 0, _, _ => []
  | count + 1, lba, bytes =>
      (lba, toSector (bytes.take sectorSize)) ::
        payloadWrites count (lba + 1) (bytes.drop sectorSize)

/-- The loop of `load_slot`; `readable` tells which sector reads succeed. -/
def readSectors (readable : ℕ → Bool) (disk : Disk) : ℕ → ℕ → ℕ → Option (List UInt8)
  | 0, _, _ => some []
  | count + 1, lba, left =>
      let chunk := min left sectorSize
      if readable lba then
        (readSectors readable disk count (lba + 1) (left - chunk)).map
          (sectorBytes (disk lba) chunk ++ ·)
      else none

theorem mem_payloadWrites {count lba : ℕ} {bytes : List UInt8} {sector : ℕ}
    (hsector : sector ∈ (payloadWrites count lba bytes).map Prod.fst) :
    lba ≤ sector ∧ sector < lba + count := by
  induction count generalizing lba bytes with
  | zero => simp [payloadWrites] at hsector
  | succ count ih =>
      simp only [payloadWrites, List.map_cons, List.mem_cons] at hsector
      rcases hsector with rfl | hrest
      · omega
      · have := ih hrest
        omega

theorem readSectors_congr {readable : ℕ → Bool} {first second : Disk}
    {count lba left : ℕ}
    (hsame : ∀ sector, lba ≤ sector → sector < lba + count →
      first sector = second sector) :
    readSectors readable first count lba left =
      readSectors readable second count lba left := by
  induction count generalizing lba left with
  | zero => rfl
  | succ count ih =>
      have hhead : first lba = second lba := hsame lba le_rfl (by omega)
      have htail : readSectors readable first count (lba + 1) (left - min left sectorSize) =
          readSectors readable second count (lba + 1) (left - min left sectorSize) :=
        ih fun sector hlow hhigh => hsame sector (by omega) (by omega)
      simp only [readSectors, hhead, htail]

theorem getD_readSectors {readable : ℕ → Bool} {disk : Disk} {count lba left : ℕ}
    {bytes : List UInt8} (hbytes : readSectors readable disk (count + 1) lba left = some bytes)
    {index : Fin sectorSize} (hindex : index.val < left) :
    bytes.getD index 0 = disk lba index := by
  have hofFn : (List.ofFn (disk lba)).length = sectorSize := List.length_ofFn
  have hchunk : index.val < min left sectorSize := lt_min hindex index.isLt
  have hlength := length_sectorBytes (disk lba) (Nat.min_le_right left sectorSize)
  by_cases hreadable : readable lba = true
  · simp only [readSectors, hreadable, if_true, Option.map_eq_some_iff] at hbytes
    obtain ⟨rest, _, rfl⟩ := hbytes
    rw [List.getD_append _ _ _ _ (by rwa [hlength]), List.getD_eq_getElem _ _ (by rwa [hlength])]
    simp only [sectorBytes]
    rw [List.getElem_take, List.getElem_ofFn]
  · simp [readSectors, hreadable] at hbytes

theorem readSectors_applyWrites {readable : ℕ → Bool} (disk : Disk) {count lba : ℕ}
    {bytes : List UInt8} (hreadable : ∀ sector, readable sector = true)
    (hcount : bytes.length ≤ count * sectorSize) :
    readSectors readable (applyWrites disk (payloadWrites count lba bytes)) count lba
        bytes.length = some bytes := by
  induction count generalizing disk lba bytes with
  | zero =>
      have hnil : bytes = [] := List.eq_nil_of_length_eq_zero (by omega)
      rw [hnil]
      rfl
  | succ count ih =>
      have hhead : applyWrites disk (payloadWrites (count + 1) lba bytes) lba =
          toSector (bytes.take sectorSize) := by
        rw [payloadWrites, applyWrites, applyWrites_of_notMem, update_self]
        intro hmem
        have := mem_payloadWrites hmem
        omega
      have hchunk : sectorBytes (toSector (bytes.take sectorSize))
          (min bytes.length sectorSize) = bytes.take sectorSize := by
        have hlength : (bytes.take sectorSize).length = min bytes.length sectorSize := by
          rw [List.length_take, Nat.min_comm]
        rw [← hlength]
        exact sectorBytes_toSector (by simp)
      have hleft : bytes.length - min bytes.length sectorSize =
          (bytes.drop sectorSize).length := by
        rw [List.length_drop]
        omega
      have hrest : (bytes.drop sectorSize).length ≤ count * sectorSize := by
        rw [List.length_drop, Nat.sub_le_iff_le_add, ← Nat.succ_mul]
        exact hcount
      have htail := @ih (update disk lba (toSector (bytes.take sectorSize)))
        (lba + 1) (bytes.drop sectorSize) hrest
      rw [readSectors, hhead, hchunk, hleft]
      simp only [hreadable, if_true, payloadWrites, applyWrites, htail, Option.map_some,
        List.take_append_drop]

end EigenOS.Persist
