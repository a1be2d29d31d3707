import EigenOS.Descriptors.PipeBuffer

/-!
# A pipe is a queue

Any calls of `pipe_read` and `pipe_write` on one pipe, in any order, while descriptors of
either end come and go.  What readers got and what the buffer holds is, put together, what
was accepted from writers.
-/

namespace EigenOS.PipeBuffer

open EigenOS.Descriptors (Pipe pipeBufSize)
open EigenOS.RingBuffer EigenOS.Transition

/-- What happens to a pipe.  `ends` is any change of the two counts. -/
inductive PipeCall where
  | read (count : UInt32)
  | write (buf : ℕ → UInt8) (count : UInt32)
  | ends (writerCount readerCount : ℕ)

/-- A pipe with the bytes its writers have handed in and its readers have got. -/
structure Flow where
  pipe : PipeBuf
  accepted : List UInt8
  delivered : List UInt8

/-- The bytes of a write that its return value says were accepted. -/
def acceptedOf (buf : ℕ → UInt8) (ret : ℤ) : List UInt8 := (List.range ret.toNat).map buf

def Flow.act (flow : Flow) : PipeCall → Flow
  | .read count =>
      { flow with
        pipe := (pipeRead flow.pipe count).2.2
        delivered := flow.delivered ++ (pipeRead flow.pipe count).2.1 }
  | .write buf count =>
      { flow with
        pipe := (pipeWrite flow.pipe buf count).2
        accepted := flow.accepted ++ acceptedOf buf (pipeWrite flow.pipe buf count).1 }
  | .ends writerCount readerCount =>
      { flow with
        pipe := { flow.pipe with writerCount := writerCount, readerCount := readerCount } }

/-- A pipe as `sys_pipe` starts it: both indices 0, over whatever the array holds. -/
def Flow.start (data : Fin pipeBufSize → UInt8) (writerCount readerCount : ℕ) : Flow where
  pipe := ⟨0, 0, writerCount, readerCount, data⟩
  accepted := []
  delivered := []

/-- The bytes in the buffer, the oldest first. -/
def PipeBuf.stored (p : PipeBuf) : List UInt8 := p.bytesFrom p.tail p.avail.toNat

/-- What readers got is a prefix of what writers handed in, the rest is stored, and the
indices are inside the array. -/
structure Flow.Fifo (flow : Flow) : Prop where
  delivered_prefix : flow.delivered <+: flow.accepted
  difference : flow.accepted = flow.delivered ++ flow.pipe.stored
  inRing : flow.pipe.InRing

/-- The number of bytes that a call returns and the bytes that it moves; `ends` is no call. -/
def PipeCall.returned (flow : Flow) : PipeCall → Option ℤ
  | .read count => some (pipeRead flow.pipe count).1
  | .write buf count => some (pipeWrite flow.pipe buf count).1
  | .ends _ _ => none

def Flow.moved (before after : Flow) : ℤ :=
  (after.accepted.length - before.accepted.length) +
    (after.delivered.length - before.delivered.length)

/-- A call that returns -1 moves nothing, and any other returns how much it moves. -/
def ReturnsMoved (before : Flow) (call : PipeCall) (after : Flow) : Prop :=
  ∀ ret ∈ call.returned before, ret = -1 ∧ before.moved after = 0 ∨ ret = before.moved after

/-- A call returns -1 just where it cannot move anything: a read of an empty pipe that still
has writers, and a write to a pipe without readers. -/
def RefusesRightly (before : Flow) : PipeCall → Flow → Prop
  | .read count, _ => (pipeRead before.pipe count).1 = -1 ↔
      before.pipe.stored = [] ∧ before.pipe.writerCount ≠ 0
  | .write buf count, _ => (pipeWrite before.pipe buf count).1 = -1 ↔
      before.pipe.readerCount = 0
  | .ends _ _, _ => True

/-! ## One call -/

section Ring

theorem contents_eq_nil_iff (ring : Ring UInt8 pipeBufSize) :
    ring.contents = [] ↔ ring.head = ring.tail := by
  rw [← List.length_eq_zero_iff, ring.length_contents, ring.avail_eq_zero_iff]

theorem contents_pipeRead (pipe : Pipe) (count : ℕ) :
    pipe.ring.contents = (Descriptors.pipeRead pipe count).2.1 ++
      (Descriptors.pipeRead pipe count).2.2.ring.contents := by
  unfold Descriptors.pipeRead
  split
  · split <;> rfl
  · exact (pipe.ring.peek_append_contents_drop (Nat.min_le_left _ _)).symm

theorem ret_pipeRead (pipe : Pipe) (count : ℕ) :
    (Descriptors.pipeRead pipe count).1 = -1 ∧ (Descriptors.pipeRead pipe count).2.1 = [] ∧
        pipe.ring.contents = [] ∧ pipe.writerCount ≠ 0 ∨
      (Descriptors.pipeRead pipe count).1 = (Descriptors.pipeRead pipe count).2.1.length ∧
        ¬ (pipe.ring.contents = [] ∧ pipe.writerCount ≠ 0) := by
  rw [contents_eq_nil_iff]
  unfold Descriptors.pipeRead
  split
  · rename_i hempty
    split
    · rename_i hnone
      exact Or.inr ⟨rfl, fun h => h.2 hnone⟩
    · rename_i hsome
      exact Or.inl ⟨rfl, rfl, hempty, hsome⟩
  · rename_i hempty
    refine Or.inr ⟨?_, fun h => hempty h.1⟩
    simp [Ring.peek]

theorem contents_pipeWrite (pipe : Pipe) (buf : List UInt8) :
    (Descriptors.pipeWrite pipe buf).2.ring.contents =
      pipe.ring.contents ++ buf.take (Descriptors.pipeWrite pipe buf).1.toNat := by
  unfold Descriptors.pipeWrite
  split
  · exact (List.append_nil _).symm
  · apply Ring.contents_putAll
    rw [List.length_take]
    omega

theorem ret_pipeWrite (pipe : Pipe) (buf : List UInt8) :
    (Descriptors.pipeWrite pipe buf).1 = -1 ∧ pipe.readerCount = 0 ∨
      0 ≤ (Descriptors.pipeWrite pipe buf).1 ∧
        (Descriptors.pipeWrite pipe buf).1 ≤ buf.length ∧ pipe.readerCount ≠ 0 := by
  unfold Descriptors.pipeWrite
  split
  · rename_i hnone
    exact Or.inl ⟨rfl, hnone⟩
  · rename_i hsome
    have hle : min pipe.ring.room buf.length ≤ buf.length := Nat.min_le_right _ _
    exact Or.inr ⟨Int.natCast_nonneg _, Int.ofNat_le.mpr hle, hsome⟩

end Ring

section Calls

variable {p : PipeBuf} (h : p.InRing)

include h

theorem PipeBuf.InRing.stored_eq : p.stored = p.toPipe.ring.contents := by
  rw [PipeBuf.stored, h.toNat_avail, bytesFrom_eq_peek p p.ring.avail_lt.le]
  rfl

theorem PipeBuf.InRing.stored_pipeRead (count : UInt32) :
    p.stored = (pipeRead p count).2.1 ++ (pipeRead p count).2.2.stored := by
  have hring := contents_pipeRead p.toPipe count.toNat
  rw [pipeRead_refines h count] at hring
  rw [h.stored_eq, (inRing_pipeRead h count).stored_eq]
  exact hring

theorem PipeBuf.InRing.ret_pipeRead (count : UInt32) :
    (pipeRead p count).1 = -1 ∧ (pipeRead p count).2.1 = [] ∧ p.stored = [] ∧
        p.writerCount ≠ 0 ∨
      (pipeRead p count).1 = (pipeRead p count).2.1.length ∧
        ¬ (p.stored = [] ∧ p.writerCount ≠ 0) := by
  have hring := PipeBuffer.ret_pipeRead p.toPipe count.toNat
  rw [pipeRead_refines h count, ← h.stored_eq] at hring
  exact hring

theorem PipeBuf.InRing.stored_pipeWrite (buf : ℕ → UInt8) (count : UInt32) :
    (pipeWrite p buf count).2.stored =
      p.stored ++ acceptedOf buf (pipeWrite p buf count).1 := by
  have hring := contents_pipeWrite p.toPipe ((List.range count.toNat).map buf)
  have hret := PipeBuffer.ret_pipeWrite p.toPipe ((List.range count.toNat).map buf)
  rw [pipeWrite_refines h buf count, List.length_map, List.length_range] at hret
  rw [pipeWrite_refines h buf count, ← List.map_take, List.take_range] at hring
  rw [h.stored_eq, (inRing_pipeWrite h buf count).stored_eq, acceptedOf]
  rw [Nat.min_eq_left (by omega)] at hring
  exact hring

theorem PipeBuf.InRing.ret_pipeWrite (buf : ℕ → UInt8) (count : UInt32) :
    (pipeWrite p buf count).1 = -1 ∧ p.readerCount = 0 ∨
      0 ≤ (pipeWrite p buf count).1 ∧ p.readerCount ≠ 0 := by
  have hret := PipeBuffer.ret_pipeWrite p.toPipe ((List.range count.toNat).map buf)
  rw [pipeWrite_refines h buf count] at hret
  exact hret.imp_right fun hsome => ⟨hsome.1, hsome.2.2⟩

end Calls

/-! ## Runs -/

theorem Flow.Fifo.of_difference {flow : Flow} (hinRing : flow.pipe.InRing)
    (hdiff : flow.accepted = flow.delivered ++ flow.pipe.stored) : flow.Fifo :=
  ⟨⟨_, hdiff.symm⟩, hdiff, hinRing⟩

theorem fifo_start (data : Fin pipeBufSize → UInt8) (writerCount readerCount : ℕ) :
    (Flow.start data writerCount readerCount).Fifo := by
  have hzero : (0 : UInt32).toNat < pipeBufSize := by decide
  have hinRing : (Flow.start data writerCount readerCount).pipe.InRing := ⟨hzero, hzero⟩
  apply Flow.Fifo.of_difference hinRing
  rw [hinRing.stored_eq, (contents_eq_nil_iff _).mpr rfl]
  rfl

theorem Flow.Fifo.act {flow : Flow} (h : flow.Fifo) (call : PipeCall) : (flow.act call).Fifo := by
  cases call with
  | read count =>
      apply Flow.Fifo.of_difference (inRing_pipeRead h.inRing count)
      change flow.accepted =
        (flow.delivered ++ (pipeRead flow.pipe count).2.1) ++ (pipeRead flow.pipe count).2.2.stored
      rw [List.append_assoc, ← h.inRing.stored_pipeRead count]
      exact h.difference
  | write buf count =>
      apply Flow.Fifo.of_difference (inRing_pipeWrite h.inRing buf count)
      change flow.accepted ++ acceptedOf buf (pipeWrite flow.pipe buf count).1 =
        flow.delivered ++ (pipeWrite flow.pipe buf count).2.stored
      rw [h.inRing.stored_pipeWrite buf count, ← List.append_assoc, ← h.difference]
  | ends writerCount readerCount =>
      exact Flow.Fifo.of_difference ⟨h.inRing.head_lt, h.inRing.tail_lt⟩ h.difference

theorem Flow.Fifo.returnsMoved {flow : Flow} (h : flow.Fifo) (call : PipeCall) :
    ReturnsMoved flow call (flow.act call) := by
  cases call with
  | read count =>
      rintro _ ⟨⟩
      have hmoved : flow.moved (flow.act (.read count)) =
          (pipeRead flow.pipe count).2.1.length := by
        simp [Flow.moved, Flow.act]
      rw [hmoved]
      rcases h.inRing.ret_pipeRead count with ⟨hret, hbytes, _⟩ | ⟨hret, _⟩
      · exact Or.inl ⟨hret, by rw [hbytes]; rfl⟩
      · exact Or.inr hret
  | write buf count =>
      rintro _ ⟨⟩
      have hmoved : flow.moved (flow.act (.write buf count)) =
          (pipeWrite flow.pipe buf count).1.toNat := by
        simp [Flow.moved, Flow.act, acceptedOf]
      rw [hmoved]
      rcases h.inRing.ret_pipeWrite buf count with ⟨hret, _⟩ | ⟨hret, _⟩
      · exact Or.inl ⟨hret, by rw [hret]; rfl⟩
      · exact Or.inr (Int.toNat_of_nonneg hret).symm
  | ends writerCount readerCount => exact fun ret hret => nomatch hret

theorem Flow.Fifo.refusesRightly {flow : Flow} (h : flow.Fifo) (call : PipeCall) :
    RefusesRightly flow call (flow.act call) := by
  cases call with
  | read count =>
      rcases h.inRing.ret_pipeRead count with ⟨hret, _, hempty⟩ | ⟨hret, hempty⟩
      · exact iff_of_true hret hempty
      · exact iff_of_false (by rw [hret]; omega) hempty
  | write buf count =>
      rcases h.inRing.ret_pipeWrite buf count with ⟨hret, hnone⟩ | ⟨hret, hsome⟩
      · exact iff_of_true hret hnone
      · exact iff_of_false (by omega) hsome
  | ends writerCount readerCount => trivial

/-- Whatever is read and written, in whatever order, the pipe is a queue, and every call
returns how much it moved, or -1 where it could move nothing. -/
theorem pipe_fifo (data : Fin pipeBufSize → UInt8) (writerCount readerCount : ℕ)
    (calls : List PipeCall) :
    let start := Flow.start data writerCount readerCount
    Always Flow.Fifo start (trace Flow.act start calls) ∧
      Along (fun before call after =>
        ReturnsMoved before call after ∧ RefusesRightly before call after) start
          (trace Flow.act start calls) := by
  intro start
  have hrun := along_trace Flow.act start calls
  have hstart : start.Fifo := fifo_start data writerCount readerCount
  constructor
  · apply always_of_invariant Flow.Fifo _ hstart hrun
    rintro flow call _ hflow rfl
    exact hflow.act call
  · apply along_of_guarded Flow.Fifo _ hstart hrun hrun
    rintro flow call _ hflow rfl _
    exact ⟨hflow.act call, hflow.returnsMoved call, hflow.refusesRightly call⟩

/-- A read of an empty pipe with a writer moves no byte and returns -1. -/
theorem not_returns_moved :
    ¬ ∀ (data : Fin pipeBufSize → UInt8) (writerCount readerCount : ℕ)
      (calls : List PipeCall),
      Along (fun before call after => ∀ ret ∈ call.returned before, ret = before.moved after)
        (Flow.start data writerCount readerCount)
        (trace Flow.act (Flow.start data writerCount readerCount) calls) := by
  intro hall
  have hfirst := (hall (fun _ => 0) 1 1 [.read 1]).1 (-1) rfl
  exact absurd hfirst (by decide)

end EigenOS.PipeBuffer
