import EigenOS.Library.SequenceNumbers
import EigenOS.Net.Checksums
import EigenOS.Net.Connecting

/-!
# Sending until it is acknowledged

Calls of `sys_send` on a connection, with segments arriving between any two of their steps.
What the calls report as sent has been acknowledged, and the mark in `so_una` follows the
acknowledgements, in the runs where the plain comparisons of `sys_send` and `tcp_input` agree with
the order of the bytes.
-/

namespace EigenOS.Net

open EigenOS.Transition EigenOS.SequenceNumbers

/-- What `sys_send` does next. -/
inductive SendPc where
  | idle
  | transmit
  | loop
  | checkAck
  | checkClosed
  | resend
  deriving DecidableEq

/-- A connection and the call of `sys_send` on it.  `first` is the number of the first byte,
`callSeq` and `bytes` what the call sends, `packets` the numbers and bytes of its packets, `sent`
all bytes that have been sent, each as it was sent first, `acked` how many of them the other side
has acknowledged, and `reported` the bytes that the calls have reported as sent. -/
structure Sender where
  socket : Socket
  first : UInt32
  pc : SendPc
  callSeq : UInt32
  bytes : List UInt8
  targetSeq : UInt32
  timeout : ℕ
  ticksSinceTx : ℕ
  result : Option ℤ
  packets : List (UInt32 × List UInt8)
  sent : List UInt8
  acked : ℕ
  reported : List UInt8

/-- A segment for the socket arrives, `sys_send` is called, or the call goes on. -/
inductive SendEvent where
  | segment (segment : TcpSegment)
  | call (msg : ℕ → UInt8) (len : ℤ)
  | step (sending : Sending)

variable {mark : ℕ} {segment : TcpSegment}

namespace Sender

/-- A connection whose handshake has set the numbers. -/
def start (so : Socket) (first : UInt32) : Sender where
  socket := { so with soState := .established, soSeq := first, soUna := first }
  first := first
  pc := .idle
  callSeq := first
  bytes := []
  targetSeq := 0
  timeout := 0
  ticksSinceTx := 0
  result := none
  packets := []
  sent := []
  acked := 0
  reported := []

variable (s : Sender)

/-- The number after the last byte that has been sent. -/
def sendEnd : UInt32 := numberOf s.first s.sent.length

/-- How far the other side has acknowledged, after a segment. -/
def acknowledge (segment : TcpSegment) : ℕ :=
  let distance := (segment.ackNumber - numberOf s.first s.acked).toNat
  if segment.rst = false ∧ segment.ack = true ∧ distance ≤ s.sent.length - s.acked then
    s.acked + distance
  else s.acked

def receive (segment : TcpSegment) : Sender :=
  { s with socket := tcpInput s.socket segment, acked := s.acknowledge segment }

/-- `sys_send` up to its first packet. -/
def call (msg : ℕ → UInt8) (len : ℤ) : Sender :=
  if s.socket.soState ≠ .established then { s with result := some (-1) }
  else if len < 0 then { s with result := some (-1) }
  else
    let bytes := sentPayload (some msg) len
    { s with
      pc := .transmit
      callSeq := s.socket.soSeq
      bytes := bytes
      targetSeq := s.socket.soSeq + UInt32.ofNat bytes.length
      timeout := 400
      ticksSinceTx := 0
      result := none
      packets := [] }

/-- The bytes of the call go out with the number of the socket. -/
def transmit (sending : Sending) : Sender :=
  if sending.handed = true then
    { s with
      packets := s.packets ++ [(s.socket.soSeq, s.bytes)]
      sent := s.sent ++ s.bytes.drop (s.sent.length - s.reported.length) }
  else s

def goTo (pc : SendPc) : Sender := { s with pc := pc }

def giveUp : Sender := { s with pc := .idle, result := some (-1) }

/-- All bytes count as sent. -/
def finish : Sender :=
  { s with
    socket := { s.socket with soSeq := s.targetSeq }
    pc := .idle
    result := some s.bytes.length
    reported := s.reported ++ s.bytes }

def step (sending : Sending) : Sender :=
  match s.pc with
  | .idle => s
  | .transmit => (s.transmit sending).goTo .loop
  | .loop =>
      if 0 < s.timeout then
        { s with
          timeout := s.timeout - 1
          ticksSinceTx := s.ticksSinceTx + 1
          pc := .checkAck }
      else s.giveUp
  | .checkAck => if s.targetSeq ≤ s.socket.soUna then s.finish else s.goTo .checkClosed
  | .checkClosed =>
      if s.socket.soClosed = true then s.giveUp
      else if 120 ≤ s.ticksSinceTx then { s with ticksSinceTx := 0, pc := .resend }
      else s.goTo .loop
  | .resend => (s.transmit sending).goTo .loop

/-- One call at a time. -/
def next : SendEvent → Sender
  | .segment segment => s.receive segment
  | .call msg len => if s.pc = .idle then s.call msg len else s
  | .step sending => s.step sending

/-- The bytes that a call has returned are acknowledged, and its packets are all the same. -/
structure Accounted : Prop where
  result : ∀ len : ℕ, s.result = some (len : ℤ) → len = s.bytes.length ∧ s.bytes <:+ s.reported
  reported : s.reported <+: s.sent
  acked : s.reported.length ≤ s.acked
  packets : ∀ packet ∈ s.packets, packet = (s.callSeq, s.bytes)

/-- The segment acknowledges bytes that have been sent and were not acknowledged. -/
def AcksNew (segment : TcpSegment) : Prop :=
  segment.rst = false ∧ segment.ack = true ∧ 0 < segment.ackNumber - s.socket.soUna ∧
    segment.ackNumber - s.socket.soUna ≤ s.sendEnd - s.socket.soUna

/-- Nothing but a new acknowledgement moves the mark. -/
def KeepsMark (event : SendEvent) (after : Sender) : Prop :=
  (∀ segment, event = .segment segment → ¬ s.AcksNew segment) →
    after.socket.soUna = s.socket.soUna

/-- The bytes do not differ from those sent under the same numbers before. -/
def Repeats (bytes : List UInt8) : Prop :=
  s.sent.drop s.reported.length <+: bytes ∨ bytes <+: s.sent.drop s.reported.length

/-- A segment with a larger number acknowledges something new, and at the start of a call the
mark is not above the end of its bytes unless it is past them. -/
def Comparable : SendEvent → Prop
  | .segment segment =>
      segment.rst = false → s.socket.soUna < segment.ackNumber →
        segment.ack = true ∧
          segment.ackNumber - s.socket.soUna ≤ s.sendEnd - s.socket.soUna
  | .call msg len =>
      s.pc = .idle → 0 ≤ len →
        (s.socket.soSeq + UInt32.ofNat (sentPayload (some msg) len).length ≤ s.socket.soUna →
          s.socket.soUna - (s.socket.soSeq + UInt32.ofNat (sentPayload (some msg) len).length) <
            0x80000000) ∧
          s.Repeats (sentPayload (some msg) len)
  | .step _ => True

instance (bytes : List UInt8) : Decidable (s.Repeats bytes) :=
  inferInstanceAs (Decidable (_ ∨ _))

instance (event : SendEvent) : Decidable (s.Comparable event) :=
  match event with
  | .segment _ => inferInstanceAs (Decidable (_ → _ → _ ∧ _))
  | .call _ _ => inferInstanceAs (Decidable (_ → _ → _ ∧ _))
  | .step _ => isTrue trivial

/-! ## The invariant -/

variable {s}

/-- The call that is going on. -/
structure InCall (s : Sender) (mark : ℕ) : Prop where
  callSeq : s.callSeq = s.socket.soSeq
  target : s.targetSeq = numberOf s.first (s.reported.length + s.bytes.length)
  length : s.bytes.length ≤ maxTcpPayload
  repeats : s.Repeats s.bytes
  order : mark < s.reported.length + s.bytes.length → s.socket.soUna < s.targetSeq

/-- `mark` is the position of `so_una`. -/
structure Accounts (s : Sender) (mark : ℕ) : Prop where
  established : s.socket.soState = .established
  seq : s.socket.soSeq = numberOf s.first s.reported.length
  una : s.socket.soUna = numberOf s.first mark
  le_mark : s.reported.length ≤ mark
  mark_le : mark ≤ s.acked
  acked_le : s.acked ≤ s.sent.length
  window : s.sent.length ≤ s.reported.length + maxTcpPayload
  prefix_sent : s.reported <+: s.sent
  packets : ∀ packet ∈ s.packets, packet = (s.callSeq, s.bytes)
  result : ∀ len : ℕ, s.result = some (len : ℤ) → len = s.bytes.length ∧ s.bytes <:+ s.reported
  call : s.pc ≠ .idle → s.InCall mark

theorem accounts_start (so : Socket) (first : UInt32) : (start so first).Accounts 0 where
  established := rfl
  seq := numberOf_zero.symm
  una := numberOf_zero.symm
  le_mark := le_rfl
  mark_le := le_rfl
  acked_le := le_rfl
  window := Nat.zero_le _
  prefix_sent := List.prefix_rfl
  packets _ h := nomatch h
  result _ h := nomatch h
  call h := absurd rfl h

theorem Accounts.accounted (h : s.Accounts mark) : s.Accounted where
  result := h.result
  reported := h.prefix_sent
  acked := h.le_mark.trans h.mark_le
  packets := h.packets

theorem maxTcpPayload_eq : maxTcpPayload = 1752 := rfl

theorem Accounts.near (h : s.Accounts mark) : s.sent.length - mark ≤ 1752 := by
  have hwindow := h.window
  have hmark := h.le_mark
  rw [maxTcpPayload_eq] at hwindow
  omega

/-! ## Steps of a call -/

theorem Accounts.move (h : s.Accounts mark) (hpc : s.pc ≠ .idle) (pc : SendPc) (timeout ticks : ℕ) :
    Accounts { s with pc := pc, timeout := timeout, ticksSinceTx := ticks } mark :=
  { h with call := fun _ => { h.call hpc with } }

theorem Accounts.giveUp (h : s.Accounts mark) : s.giveUp.Accounts mark :=
  { h with
    result := fun len hlen => by
      have hnegative : (-1 : ℤ) = len := Option.some.inj hlen
      omega
    call := fun hidle => absurd rfl hidle }

theorem Accounts.transmit (h : s.Accounts mark) (hpc : s.pc ≠ .idle) (sending : Sending) :
    (s.transmit sending).Accounts mark := by
  unfold Sender.transmit
  split
  case isFalse => exact h
  case isTrue =>
    have hcall := h.call hpc
    have hlength := hcall.length
    have hwindow := h.window
    have hprefix : s.sent <+: s.sent ++ s.bytes.drop (s.sent.length - s.reported.length) :=
      List.prefix_append _ _
    have hreported : s.reported.length ≤ s.sent.length := h.prefix_sent.length_le
    have hdrop : (s.sent ++ s.bytes.drop (s.sent.length - s.reported.length)).drop
        s.reported.length =
          s.sent.drop s.reported.length ++
            s.bytes.drop (s.sent.length - s.reported.length) :=
      List.drop_append_of_le_length hreported
    have hrepeats : s.bytes <+: (s.sent ++
        s.bytes.drop (s.sent.length - s.reported.length)).drop s.reported.length := by
      rw [hdrop]
      rcases hcall.repeats with hshort | hlong
      · obtain ⟨rest, hrest⟩ := hshort
        have hrestEq : s.bytes.drop (s.sent.length - s.reported.length) = rest := by
          rw [← hrest, ← List.length_drop, List.drop_left]
        rw [hrestEq, hrest]
      · exact hlong.trans (List.prefix_append _ _)
    refine { h with
      acked_le := h.acked_le.trans hprefix.length_le
      window := ?_
      prefix_sent := h.prefix_sent.trans hprefix
      packets := fun packet hpacket => ?_
      call := fun _ => { hcall with repeats := Or.inr hrepeats } }
    · change (s.sent ++ _).length ≤ s.reported.length + maxTcpPayload
      rw [List.length_append, List.length_drop]
      omega
    · rcases List.mem_append.mp hpacket with hold | hnew
      · exact h.packets packet hold
      · rw [List.mem_singleton.mp hnew, hcall.callSeq]

theorem Accounts.finish (h : s.Accounts mark) (hpc : s.pc ≠ .idle)
    (hacked : s.targetSeq ≤ s.socket.soUna) : s.finish.Accounts mark := by
  have hcall := h.call hpc
  have hpast : s.reported.length + s.bytes.length ≤ mark := by
    by_contra hbefore
    exact absurd (hcall.order (not_le.mp hbefore)) (UInt32.not_lt.mpr hacked)
  have hsent : s.reported.length + s.bytes.length ≤ s.sent.length :=
    hpast.trans (h.mark_le.trans h.acked_le)
  have hbytes : s.bytes <+: s.sent.drop s.reported.length := by
    rcases hcall.repeats with hshort | hlong
    · have hlength : s.bytes.length ≤ (s.sent.drop s.reported.length).length := by
        rw [List.length_drop]
        omega
      rw [hshort.eq_of_length_le hlength]
    · exact hlong
  have hreported : s.reported ++ s.bytes <+: s.sent := by
    have hsplit : s.sent = s.reported ++ s.sent.drop s.reported.length := by
      have htake : s.reported = s.sent.take s.reported.length :=
        List.prefix_iff_eq_take.mp h.prefix_sent
      conv_lhs => rw [← List.take_append_drop s.reported.length s.sent, ← htake]
    rw [hsplit]
    exact (List.prefix_append_right_inj _).mpr hbytes
  have hlength : (s.reported ++ s.bytes).length = s.reported.length + s.bytes.length :=
    List.length_append
  refine { h with
    seq := ?_
    le_mark := hlength.trans_le hpast
    window := ?_
    prefix_sent := hreported
    result := fun len hlen => ?_
    call := fun hidle => absurd rfl hidle }
  · change s.targetSeq = numberOf s.first (s.reported ++ s.bytes).length
    rw [hlength]
    exact hcall.target
  · have hwindow := h.window
    change s.sent.length ≤ (s.reported ++ s.bytes).length + maxTcpPayload
    omega
  · have hlen : (s.bytes.length : ℤ) = len := Option.some.inj hlen
    exact ⟨(Int.ofNat_inj.mp hlen).symm, List.suffix_append _ _⟩

theorem Accounts.step {mark : ℕ} (h : s.Accounts mark) (sending : Sending) :
    (s.step sending).Accounts mark := by
  unfold Sender.step
  cases hpc : s.pc with
  | idle => exact h
  | transmit | resend =>
      have hout := h.transmit (hpc ▸ nofun) sending
      have hcall : (s.transmit sending).pc ≠ .idle := by
        unfold Sender.transmit
        split <;> exact hpc ▸ nofun
      exact hout.move hcall .loop _ _
  | loop =>
      dsimp only
      split
      · exact h.move (hpc ▸ nofun) .checkAck _ _
      · exact h.giveUp
  | checkAck =>
      dsimp only
      split
      · next hacked => exact h.finish (hpc ▸ nofun) hacked
      · exact h.move (hpc ▸ nofun) .checkClosed _ _
  | checkClosed =>
      dsimp only
      split
      · exact h.giveUp
      · split
        · exact h.move (hpc ▸ nofun) .resend _ _
        · exact h.move (hpc ▸ nofun) .loop _ _

/-! ## The start of a call -/

theorem Accounts.startCall (h : s.Accounts mark) (msg : ℕ → UInt8) (len : ℤ) (hpc : s.pc = .idle)
    (hguard : s.Comparable (.call msg len)) : (s.call msg len).Accounts mark := by
  unfold Sender.call
  rw [if_neg (not_not.mpr h.established)]
  have hresult : ∀ n : ℕ, some (-1 : ℤ) = some (n : ℤ) → n = s.bytes.length ∧
      s.bytes <:+ s.reported := by
    intro n hn
    have hnegative : (-1 : ℤ) = n := Option.some.inj hn
    omega
  split
  case isTrue => exact { h with result := hresult, call := fun hbusy => absurd hpc hbusy }
  case isFalse hlen =>
    obtain ⟨hcompare, hrepeats⟩ := hguard hpc (not_lt.mp hlen)
    have htarget : s.socket.soSeq + UInt32.ofNat (sentPayload (some msg) len).length =
        numberOf s.first (s.reported.length + (sentPayload (some msg) len).length) := by
      rw [numberOf_add, h.seq]
    have hlength := length_sentPayload (some msg) len
    refine { h with
      packets := fun packet hpacket => nomatch hpacket
      result := nofun
      call := fun _ => ⟨rfl, htarget, hlength, hrepeats, fun hmark => ?_⟩ }
    by_contra hpast
    have hhalf := UInt32.lt_iff_toNat_lt.mp (hcompare (UInt32.not_lt.mp hpast))
    have hnear : s.reported.length + (sentPayload (some msg) len).length - mark ≤ 2 ^ 31 := by
      have hmark := h.le_mark
      rw [maxTcpPayload_eq] at hlength
      omega
    rw [htarget, h.una] at hhalf
    exact absurd hhalf (not_lt.mpr (le_sub_of_lt hmark hnear))

/-! ## Segments -/

theorem tcpInput_soSeq {so : Socket} (h : so.soState = .established) (segment : TcpSegment) :
    (tcpInput so segment).soSeq = so.soSeq := by
  cases hrst : segment.rst with
  | true =>
      unfold tcpInput
      rw [if_pos hrst]
  | false =>
      rw [tcpInput_eq hrst, handshake_established h, finish_soSeq, payload_soSeq, trackAck_soSeq]

theorem tcpInput_soUna {so : Socket} (h : so.soState = .established) (segment : TcpSegment) :
    (tcpInput so segment).soUna =
      if segment.rst = false ∧ so.soUna < segment.ackNumber then segment.ackNumber
      else so.soUna := by
  cases hrst : segment.rst with
  | true =>
      unfold tcpInput
      rw [if_pos hrst, if_neg fun hnot => nomatch hnot.1]
  | false =>
      rw [tcpInput_eq hrst, handshake_established h, finish_soUna, payload_soUna]
      unfold Socket.trackAck
      by_cases hlt : so.soUna < segment.ackNumber
      · rw [if_pos hlt, if_pos ⟨rfl, hlt⟩]
      · rw [if_neg hlt, if_neg fun hboth => hlt hboth.2]

theorem le_acknowledge (s : Sender) (segment : TcpSegment) : s.acked ≤ s.acknowledge segment := by
  unfold Sender.acknowledge
  dsimp only
  split
  · exact Nat.le_add_right _ _
  · exact le_rfl

theorem acknowledge_le (h : s.Accounts mark) (segment : TcpSegment) :
    s.acknowledge segment ≤ s.sent.length := by
  have hacked := h.acked_le
  unfold Sender.acknowledge
  dsimp only
  split
  · next hacks => omega
  · exact hacked

theorem le_acknowledge_of_number {mark position : ℕ} (h : s.Accounts mark)
    (hrst : segment.rst = false) (hack : segment.ack = true) (hmark : mark ≤ position)
    (hsent : position ≤ s.sent.length) (hnumber : segment.ackNumber = numberOf s.first position) :
    position ≤ s.acknowledge segment := by
  by_cases hold : position ≤ s.acked
  · exact hold.trans (le_acknowledge s segment)
  · have hnear := h.near
    have hacked := h.mark_le
    have hdistance : (segment.ackNumber - numberOf s.first s.acked).toNat = position - s.acked := by
      rw [hnumber]
      exact sub_toNat (not_le.mp hold).le (by omega)
    unfold Sender.acknowledge
    dsimp only
    rw [if_pos ⟨hrst, hack, by omega⟩]
    omega

theorem Accounts.receive (h : s.Accounts mark) (hguard : s.Comparable (.segment segment)) :
    ∃ mark, (s.receive segment).Accounts mark := by
  have hseq : (s.receive segment).socket.soSeq = s.socket.soSeq :=
    tcpInput_soSeq h.established segment
  have huna := tcpInput_soUna h.established segment
  have hacked := le_acknowledge s segment
  by_cases hmoves : segment.rst = false ∧ s.socket.soUna < segment.ackNumber
  · rw [if_pos hmoves] at huna
    obtain ⟨hack, hbetween⟩ := hguard hmoves.1 hmoves.2
    have hnear := h.near
    have hmark : mark ≤ s.sent.length := h.mark_le.trans h.acked_le
    unfold sendEnd at hbetween
    rw [h.una] at hbetween
    obtain ⟨position, hle, hsent, hnumber, _⟩ := exists_position hmark (by omega) hbetween
    refine ⟨position, { h with
      established := tcpInput_soState h.established segment
      seq := hseq.trans h.seq
      una := huna.trans hnumber
      le_mark := h.le_mark.trans hle
      mark_le := le_acknowledge_of_number h hmoves.1 hack hle hsent hnumber
      acked_le := acknowledge_le h segment
      call := fun hpc => ?_ }⟩
    have hcall := h.call hpc
    refine { hcall with callSeq := hcall.callSeq.trans hseq.symm, order := fun hbefore => ?_ }
    change (tcpInput s.socket segment).soUna < s.targetSeq
    -- neither the acknowledgement nor the target lies past the wrap
    have hlength := hcall.length
    rw [maxTcpPayload_eq] at hlength
    have hpast : position < s.reported.length + s.bytes.length := hbefore
    have hreported := h.le_mark
    have horder := hcall.order (hle.trans_lt hpast)
    have hunaLt := hmoves.2
    rw [h.una, hcall.target] at horder
    rw [h.una, hnumber] at hunaLt
    have htargetNat := toNat_of_lt (hle.trans hpast.le) (by omega) horder
    have hnumberNat := toNat_of_lt hle (by omega) hunaLt
    rw [huna, hnumber, hcall.target, UInt32.lt_iff_toNat_lt]
    omega
  · rw [if_neg hmoves] at huna
    refine ⟨mark, { h with
      established := tcpInput_soState h.established segment
      seq := hseq.trans h.seq
      una := huna.trans h.una
      mark_le := h.mark_le.trans hacked
      acked_le := acknowledge_le h segment
      call := fun hpc => ?_ }⟩
    have hcall := h.call hpc
    refine { hcall with callSeq := hcall.callSeq.trans hseq.symm, order := fun hbefore => ?_ }
    change (tcpInput s.socket segment).soUna < s.targetSeq
    rw [huna]
    exact hcall.order hbefore

/-! ## Runs -/

theorem Accounts.next (h : s.Accounts mark) {event : SendEvent} (hguard : s.Comparable event) :
    ∃ mark, (s.next event).Accounts mark := by
  cases event with
  | segment segment => exact h.receive hguard
  | call msg len =>
      unfold Sender.next
      dsimp only
      split
      · next hpc => exact ⟨mark, h.startCall msg len hpc hguard⟩
      · exact ⟨mark, h⟩
  | step sending => exact ⟨mark, h.step sending⟩

theorem call_soUna (s : Sender) (msg : ℕ → UInt8) (len : ℤ) :
    (s.call msg len).socket.soUna = s.socket.soUna := by
  unfold Sender.call
  split
  · rfl
  · split <;> rfl

theorem step_soUna (s : Sender) (sending : Sending) :
    (s.step sending).socket.soUna = s.socket.soUna := by
  have hout : (s.transmit sending).socket.soUna = s.socket.soUna := by
    unfold Sender.transmit
    split <;> rfl
  unfold Sender.step
  cases s.pc with
  | idle => rfl
  | transmit => exact hout
  | loop | checkAck =>
      dsimp only
      split <;> rfl
  | checkClosed =>
      dsimp only
      split
      · rfl
      · split <;> rfl
  | resend => exact hout

theorem Accounts.keepsMark (h : s.Accounts mark) {event : SendEvent} (hguard : s.Comparable event) :
    s.KeepsMark event (s.next event) := by
  intro hnot
  cases event with
  | segment segment =>
      change (tcpInput s.socket segment).soUna = s.socket.soUna
      rw [tcpInput_soUna h.established]
      refine if_neg fun hmoves => hnot segment rfl ?_
      obtain ⟨hack, hbetween⟩ := hguard hmoves.1 hmoves.2
      have hpositive : 0 < segment.ackNumber - s.socket.soUna :=
        UInt32.pos_iff_ne_zero.mpr fun hzero =>
          UInt32.ne_of_lt hmoves.2 (sub_eq_zero.mp hzero).symm
      exact ⟨hmoves.1, hack, hpositive, hbetween⟩
  | call msg len =>
      unfold Sender.next
      dsimp only
      split
      · exact call_soUna s msg len
      · rfl
  | step sending => exact step_soUna s sending

/-- Whatever arrives, and from whatever number on. -/
theorem sends_accounted (so : Socket) (first : UInt32) (events : List SendEvent)
    (hguard : Along (fun s event _ => s.Comparable event) (start so first)
      (trace next (start so first) events)) :
    Always Accounted (start so first) (trace next (start so first) events) ∧
      Along KeepsMark (start so first) (trace next (start so first) events) := by
  have hnext : ∀ (s : Sender) (event : SendEvent) (after : Sender),
      (∃ mark, s.Accounts mark) → s.Comparable event → after = s.next event →
        (∃ mark, after.Accounts mark) ∧ s.KeepsMark event after := by
    rintro s event after ⟨mark, h⟩ hcompare rfl
    exact ⟨h.next hcompare, h.keepsMark hcompare⟩
  have hstart : ∃ mark, (start so first).Accounts mark := ⟨0, accounts_start so first⟩
  have hrun := along_trace next (start so first) events
  constructor
  · have haccounts : Always (fun s => ∃ mark, s.Accounts mark) (start so first)
        (trace next (start so first) events) :=
      always_of_guarded _ (fun s event after h hcompare hstep =>
        (hnext s event after h hcompare hstep).1) hstart hrun hguard
    exact haccounts.mono fun s ⟨mark, h⟩ => h.accounted
  · exact along_of_guarded (fun s => ∃ mark, s.Accounts mark) hnext hstart hrun hguard

/-- Four bytes that are acknowledged at once. -/
def promptAck : List SendEvent :=
  [.call (fun i => UInt8.ofNat i) 4, .step .sent, .step .sent,
    .segment ⟨false, false, false, true, 9000, 1005, []⟩, .step .sent]

theorem sends_accounted_promptAck :
    Accounted (final (start .connecting 1001) (trace next (start .connecting 1001) promptAck)) ∧
      (final (start .connecting 1001) (trace next (start .connecting 1001) promptAck)).reported =
        [0, 1, 2, 3] :=
  ⟨(sends_accounted .connecting 1001 promptAck (by decide)).1.final, by decide⟩

/-- Eight bytes whose numbers cross 2^32, and no segment. -/
def acrossWrap : List SendEvent :=
  [.call (fun i => UInt8.ofNat i) 8, .step .sent, .step .sent, .step .sent]

/-- An acknowledgement of nothing. -/
def unsentAck : List SendEvent := [.segment ⟨false, false, false, true, 9000, 5000000, []⟩]

theorem not_accounted_acrossWrap :
    ¬ Always Accounted (start .connecting 0xFFFFFFFC)
        (trace next (start .connecting 0xFFFFFFFC) acrossWrap) ∧
      ¬ Along KeepsMark (start .connecting 1001)
        (trace next (start .connecting 1001) unsentAck) := by
  constructor
  · intro h
    have hlength : ¬ (final (start .connecting 0xFFFFFFFC)
        (trace next (start .connecting 0xFFFFFFFC) acrossWrap)).reported.length ≤
          (final (start .connecting 0xFFFFFFFC)
            (trace next (start .connecting 0xFFFFFFFC) acrossWrap)).acked := by decide
    exact hlength h.final.acked
  · rintro ⟨hkeeps, _⟩
    have hnot : ∀ segment, SendEvent.segment ⟨false, false, false, true, 9000, 5000000, []⟩ =
        .segment segment → ¬ (start .connecting 1001).AcksNew segment := by
      rintro segment ⟨⟩
      exact fun hnew => absurd hnew.2.2.2 (by decide)
    exact absurd (hkeeps hnot) (by decide)

end Sender

end EigenOS.Net
