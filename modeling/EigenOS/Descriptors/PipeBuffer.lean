import EigenOS.Descriptors.DataPath

/-!
# The pipe buffer

`struct pipe_buf` with its two unsigned indices, and the loops of `pipe_read` and
`pipe_write`.  As long as the indices are inside the array the buffer is a ring, and both
functions are the operations of that ring.
-/

namespace EigenOS.PipeBuffer

open EigenOS.Descriptors (Pipe pipeBufSize)
open EigenOS.MachineInt
open EigenOS.RingBuffer

/-- `PIPE_BUF_SIZE`. -/
def bufSize : UInt32 := 4096

/-- `struct pipe_buf`. -/
structure PipeBuf where
  head : UInt32
  tail : UInt32
  writerCount : ℕ
  readerCount : ℕ
  data : Fin pipeBufSize → UInt8

/-- The place in the array that an unsigned number leads to. -/
def place (index : UInt32) : Fin pipeBufSize :=
  ⟨(index % bufSize).toNat, Nat.mod_lt _ Descriptors.pipeBufSize_pos⟩

/-- `(p->head - p->tail + PIPE_BUF_SIZE) % PIPE_BUF_SIZE`. -/
def PipeBuf.avail (p : PipeBuf) : UInt32 := (p.head - p.tail + bufSize) % bufSize

/-- `(p->tail - p->head + PIPE_BUF_SIZE - 1) % PIPE_BUF_SIZE`. -/
def PipeBuf.free (p : PipeBuf) : UInt32 := (p.tail - p.head + bufSize - 1) % bufSize

/-- The bytes from an index on. -/
def PipeBuf.bytesFrom (p : PipeBuf) (start : UInt32) (n : ℕ) : List UInt8 :=
  (List.range n).map fun i => p.data (place (start + UInt32.ofNat i))

/-- `pipe_read`: what it returns, the bytes it stores and the buffer it leaves. -/
def pipeRead (p : PipeBuf) (count : UInt32) : ℤ × List UInt8 × PipeBuf :=
  if p.head = p.tail then
    if p.writerCount = 0 then (0, [], p) else (-1, [], p)
  else
    let n := if p.avail < count then p.avail else count
    (asInt n.toNat, p.bytesFrom p.tail n.toNat, { p with tail := (p.tail + n) % bufSize })

/-- The loop of `pipe_write`. -/
def storeBytes (data : Fin pipeBufSize → UInt8) (head : UInt32) (buf : ℕ → UInt8) :
    ℕ → Fin pipeBufSize → UInt8
  | 0 => data
  | i + 1 => Function.update (storeBytes data head buf i) (place (head + UInt32.ofNat i)) (buf i)

/-- `pipe_write` of the bytes at `buf`. -/
def pipeWrite (p : PipeBuf) (buf : ℕ → UInt8) (count : UInt32) : ℤ × PipeBuf :=
  if p.readerCount = 0 then (-1, p)
  else
    let n := if p.free < count then p.free else count
    (asInt n.toNat,
      { p with
        data := storeBytes p.data p.head buf n.toNat
        head := (p.head + n) % bufSize })

/-! ## The ring -/

/-- The indices are inside the array. -/
structure PipeBuf.InRing (p : PipeBuf) : Prop where
  head_lt : p.head.toNat < pipeBufSize
  tail_lt : p.tail.toNat < pipeBufSize

theorem toNat_bufSize : bufSize.toNat = pipeBufSize := rfl

def PipeBuf.ring (p : PipeBuf) : Ring UInt8 pipeBufSize := ⟨place p.head, place p.tail, p.data⟩

/-- The pipe that a buffer stands for. -/
def PipeBuf.toPipe (p : PipeBuf) : Pipe := ⟨p.ring, p.writerCount, p.readerCount⟩

@[simp] theorem ring_toPipe (p : PipeBuf) : p.toPipe.ring = p.ring := rfl
@[simp] theorem writerCount_toPipe (p : PipeBuf) : p.toPipe.writerCount = p.writerCount := rfl
@[simp] theorem readerCount_toPipe (p : PipeBuf) : p.toPipe.readerCount = p.readerCount := rfl

theorem val_place (index : UInt32) : (place index).val = index.toNat % pipeBufSize :=
  UInt32.toNat_mod _ _

theorem toNat_mod_bufSize (index : UInt32) :
    (index % bufSize).toNat = index.toNat % pipeBufSize := UInt32.toNat_mod _ _

theorem place_mod (index : UInt32) : place (index % bufSize) = place index := by
  apply Fin.ext
  rw [val_place, val_place, toNat_mod_bufSize, Nat.mod_mod]

theorem place_add (index steps : UInt32) :
    place (index + steps) = Ring.advance (place index) steps.toNat := by
  have hdvd : pipeBufSize ∣ 2 ^ 32 := ⟨2 ^ 20, rfl⟩
  apply Fin.ext
  calc
    (place (index + steps)).val = (index.toNat + steps.toNat) % 2 ^ 32 % pipeBufSize := by
      rw [val_place, UInt32.toNat_add]
    _ = (index.toNat + steps.toNat) % pipeBufSize := Nat.mod_mod_of_dvd _ hdvd
    _ = ((place index).val + steps.toNat) % pipeBufSize := by rw [val_place, Nat.mod_add_mod]

theorem place_add_ofNat (index : UInt32) {i : ℕ} (hi : i < pipeBufSize) :
    place (index + UInt32.ofNat i) = Ring.advance (place index) i := by
  have hsmall : i < UInt32.size := lt_trans hi (by decide)
  rw [place_add, UInt32.toNat_ofNat_of_lt' hsmall]

namespace PipeBuf.InRing

variable {p : PipeBuf} (h : p.InRing)

include h

theorem val_head : (place p.head).val = p.head.toNat := by
  rw [val_place, Nat.mod_eq_of_lt h.head_lt]

theorem val_tail : (place p.tail).val = p.tail.toNat := by
  rw [val_place, Nat.mod_eq_of_lt h.tail_lt]

theorem ring_empty_iff : p.ring.head = p.ring.tail ↔ p.head = p.tail := by
  rw [PipeBuf.ring, Fin.ext_iff, h.val_head, h.val_tail, UInt32.toNat_inj]

theorem toNat_avail : p.avail.toNat = p.ring.avail := by
  have hhead := h.head_lt
  have htail := h.tail_lt
  have havail : p.ring.avail = (p.head.toNat + pipeBufSize - p.tail.toNat) % pipeBufSize := by
    rw [Ring.avail, PipeBuf.ring, h.val_head, h.val_tail]
  rw [havail, PipeBuf.avail, toNat_mod_bufSize, UInt32.toNat_add, UInt32.toNat_sub, toNat_bufSize]
  unfold pipeBufSize at *
  omega

theorem toNat_free : p.free.toNat = p.ring.room := by
  have hhead := h.head_lt
  have htail := h.tail_lt
  have havail : p.ring.avail = (p.head.toNat + pipeBufSize - p.tail.toNat) % pipeBufSize := by
    rw [Ring.avail, PipeBuf.ring, h.val_head, h.val_tail]
  have hone : (1 : UInt32).toNat = 1 := rfl
  rw [Ring.room, havail, PipeBuf.free, toNat_mod_bufSize, UInt32.toNat_sub, UInt32.toNat_add,
    UInt32.toNat_sub, toNat_bufSize, hone]
  unfold pipeBufSize at *
  omega

end PipeBuf.InRing

theorem toNat_min (left right : UInt32) :
    (if left < right then left else right).toNat = min left.toNat right.toNat := by
  by_cases hlt : left < right
  · rw [if_pos hlt, Nat.min_eq_left (UInt32.lt_iff_toNat_lt.mp hlt).le]
  · rw [if_neg hlt, Nat.min_eq_right]
    exact not_lt.mp fun h => hlt (UInt32.lt_iff_toNat_lt.mpr h)

theorem bytesFrom_eq_peek (p : PipeBuf) {n : ℕ} (hn : n ≤ pipeBufSize) :
    p.bytesFrom p.tail n = p.ring.peek n := by
  apply List.map_congr_left
  intro i hi
  have hlt := List.mem_range.mp hi
  rw [place_add_ofNat p.tail (by omega)]
  rfl

theorem ring_store (p : PipeBuf) (buf : ℕ → UInt8) {n : ℕ} (hn : n ≤ p.ring.room) :
    p.ring.putAll ((List.range n).map buf) =
      { p.ring with
        head := Ring.advance p.ring.head n
        data := storeBytes p.data p.head buf n } := by
  induction n with
  | zero =>
      have hhead : Ring.advance p.ring.head 0 = p.ring.head :=
        Fin.ext (Nat.mod_eq_of_lt p.ring.head.isLt)
      rw [hhead]
      rfl
  | succ n ih =>
      have hstep := ih (by omega)
      have hroom : (p.ring.putAll ((List.range n).map buf)).room ≠ 0 := by
        have hlen : ((List.range n).map buf).length = n := by
          rw [List.length_map, List.length_range]
        have hcontents := Ring.contents_putAll p.ring (by rw [hlen]; omega)
        have havail := congrArg List.length hcontents
        rw [List.length_append, Ring.length_contents, Ring.length_contents, hlen] at havail
        rw [Ring.room] at hn ⊢
        omega
      have hsmall : n < pipeBufSize := by
        have hlt : p.ring.room ≤ pipeBufSize - 1 := Nat.sub_le _ _
        omega
      rw [List.range_succ, List.map_append, Ring.putAll, List.foldl_append]
      change (p.ring.putAll ((List.range n).map buf)).put (buf n) = _
      rw [Ring.put, if_neg hroom, hstep, storeBytes, place_add_ofNat p.head hsmall]
      dsimp only
      rw [Ring.advance_advance]
      rfl

theorem asInt_of_le_bufSize {n : ℕ} (hn : n ≤ pipeBufSize) : asInt n = n := by
  apply asInt_eq
  · omega
  · unfold pipeBufSize at hn
    omega

/-! ## The functions are those of the ring -/

theorem pipeRead_refines {p : PipeBuf} (h : p.InRing) (count : UInt32) :
    Descriptors.pipeRead p.toPipe count.toNat =
      ((pipeRead p count).1, (pipeRead p count).2.1, (pipeRead p count).2.2.toPipe) := by
  have hempty := h.ring_empty_iff
  unfold Descriptors.pipeRead pipeRead
  rw [ring_toPipe, writerCount_toPipe]
  by_cases hhead : p.head = p.tail
  · rw [if_pos (hempty.mpr hhead), if_pos hhead]
    split <;> rfl
  · have hlt := p.ring.avail_lt
    have hn : (if p.avail < count then p.avail else count).toNat =
        min p.ring.avail count.toNat := by
      rw [toNat_min, h.toNat_avail]
    have hle : min p.ring.avail count.toNat ≤ pipeBufSize := by omega
    rw [if_neg fun heq => hhead (hempty.mp heq), if_neg hhead]
    dsimp only
    rw [hn, asInt_of_le_bufSize hle, bytesFrom_eq_peek p hle]
    unfold PipeBuf.toPipe PipeBuf.ring Ring.drop
    dsimp only
    rw [place_mod, place_add, hn]
    rfl

theorem pipeWrite_refines {p : PipeBuf} (h : p.InRing) (buf : ℕ → UInt8) (count : UInt32) :
    Descriptors.pipeWrite p.toPipe ((List.range count.toNat).map buf) =
      ((pipeWrite p buf count).1, (pipeWrite p buf count).2.toPipe) := by
  unfold Descriptors.pipeWrite pipeWrite
  rw [ring_toPipe, readerCount_toPipe]
  by_cases hnone : p.readerCount = 0
  · rw [if_pos hnone, if_pos hnone]
  · have hroom : p.ring.room ≤ pipeBufSize - 1 := Nat.sub_le _ _
    have hn : (if p.free < count then p.free else count).toNat =
        min p.ring.room count.toNat := by
      rw [toNat_min, h.toNat_free]
    have hle : min p.ring.room count.toNat ≤ pipeBufSize := by omega
    have htake : ((List.range count.toNat).map buf).take (min p.ring.room count.toNat) =
        (List.range (min p.ring.room count.toNat)).map buf := by
      rw [← List.map_take, List.take_range, Nat.min_eq_left (Nat.min_le_right _ _)]
    rw [if_neg hnone, if_neg hnone]
    dsimp only
    rw [hn, asInt_of_le_bufSize hle, List.length_map, List.length_range]
    unfold PipeBuf.toPipe
    dsimp only
    rw [htake, ring_store p buf (Nat.min_le_left _ _)]
    unfold PipeBuf.ring
    dsimp only
    rw [place_mod, place_add, hn]
    rfl

theorem inRing_pipeRead {p : PipeBuf} (h : p.InRing) (count : UInt32) :
    (pipeRead p count).2.2.InRing := by
  unfold pipeRead
  split
  · split <;> exact h
  · refine ⟨h.head_lt, ?_⟩
    rw [toNat_mod_bufSize]
    exact Nat.mod_lt _ Descriptors.pipeBufSize_pos

theorem inRing_pipeWrite {p : PipeBuf} (h : p.InRing) (buf : ℕ → UInt8) (count : UInt32) :
    (pipeWrite p buf count).2.InRing := by
  unfold pipeWrite
  split
  · exact h
  · refine ⟨?_, h.tail_lt⟩
    rw [toNat_mod_bufSize]
    exact Nat.mod_lt _ Descriptors.pipeBufSize_pos

end EigenOS.PipeBuffer
