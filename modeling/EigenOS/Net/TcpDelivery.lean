import EigenOS.Library.Transition
import EigenOS.Net.Tcp

/-!
# Delivery in order

`tcp_input` takes the sequence number of a segment as it comes.  When every segment with
data or a FIN starts at the next byte and fits in the buffer, what `sys_recv` returns is a
prefix of the stream and the acknowledgement number counts the bytes that were accepted.  Each
segment that is received and each call is one step.
-/

namespace EigenOS.Net

open EigenOS.Transition

/-- The other side: what it sends, and the sequence number of the first byte. -/
structure Peer where
  stream : List UInt8
  firstSeq : UInt32

/-- A connection with what has been read from it, and whether the FIN has been reached. -/
structure Connection where
  socket : Socket
  returned : List UInt8
  finReached : Bool

/-- The bytes accepted so far. -/
def Connection.accepted (c : Connection) : List UInt8 := c.returned ++ c.socket.soRcvBuf

inductive TcpEvent where
  /-- A segment whose data start at an offset of the stream arrives. -/
  | segment (segment : TcpSegment) (offset : ℕ)
  | recv (len : UInt32)

/-- A segment that the peer can send: a part of the stream under its sequence number, with
the FIN after the last byte.  A segment that carries neither has any number. -/
structure SentBy (peer : Peer) (segment : TcpSegment) (offset : ℕ) : Prop where
  data : segment.data = (peer.stream.drop offset).take segment.data.length
  length : segment.data.length < 65536
  within : offset + segment.data.length ≤ peer.stream.length
  fin : segment.fin = true → offset + segment.data.length = peer.stream.length
  seq : segment.data ≠ [] ∨ segment.fin = true →
    segment.seq = peer.firstSeq + UInt32.ofNat offset

def Connection.receive (c : Connection) (segment : TcpSegment) (offset : ℕ) : Connection where
  socket := tcpInput c.socket segment
  returned := c.returned
  finReached := c.finReached || segment.fin && !segment.rst &&
    offset + segment.data.length == (c.returned ++ (tcpInput c.socket segment).soRcvBuf).length

def Connection.next (c : Connection) : TcpEvent → Connection
  | .segment segment offset => c.receive segment offset
  | .recv len =>
      { c with
        socket := (sysRecv c.socket len).1
        returned := c.returned ++ (sysRecv c.socket len).2 }

def TcpStep (peer : Peer) (c : Connection) (event : TcpEvent) (next : Connection) : Prop :=
  (∀ segment offset, event = .segment segment offset → SentBy peer segment offset) ∧
    next = c.next event

/-- The peer's part of the handshake. -/
def Peer.synAck (peer : Peer) (ackNumber : UInt32) : TcpSegment where
  fin := false
  syn := true
  rst := false
  ack := true
  seq := peer.firstSeq - 1
  ackNumber := ackNumber
  data := []

/-- The connection after the handshake. -/
def Connection.established (peer : Peer) (ackNumber : UInt32) : Connection where
  socket := tcpInput Socket.connecting (peer.synAck ackNumber)
  returned := []
  finReached := false

/-- What was read is a prefix of the stream, and the acknowledgement number is that of the
first byte that was not accepted. -/
structure InSequence (peer : Peer) (c : Connection) : Prop where
  returned : c.returned <+: peer.stream
  ack : c.socket.soAck = peer.firstSeq + UInt32.ofNat c.accepted.length +
    (if c.finReached then 1 else 0)

/-- The next byte, or the FIN when all bytes are there, and room for the data. -/
def ArrivesInOrder (c : Connection) : TcpEvent → Prop
  | .segment segment offset =>
      segment.rst = false → segment.data ≠ [] ∨ segment.fin = true →
        offset = c.accepted.length ∧ c.finReached = false ∧
          c.socket.soRcvBuf.length + segment.data.length ≤ sockRcvbuf
  | .recv _ => True

instance (c : Connection) (event : TcpEvent) : Decidable (ArrivesInOrder c event) :=
  match event with
  | .segment _ _ => inferInstanceAs (Decidable (_ → _ → _ ∧ _ ∧ _))
  | .recv _ => isTrue trivial

/-! ## The invariant -/

structure Accepts (peer : Peer) (c : Connection) : Prop where
  established : c.socket.soState = .established
  accepted : c.accepted <+: peer.stream
  ack : c.socket.soAck = peer.firstSeq + UInt32.ofNat c.accepted.length +
    (if c.finReached then 1 else 0)

variable {peer : Peer} {c : Connection}

theorem Accepts.inSequence (h : Accepts peer c) :
    InSequence peer c where
  returned := (List.prefix_append _ _).trans h.accepted
  ack := h.ack

/-! ## A segment on an established connection -/

section Segment

variable {so : Socket} {segment : TcpSegment}

theorem trackAck_soState : (so.trackAck segment).soState = so.soState := by
  unfold Socket.trackAck
  split <;> rfl

theorem trackAck_soAck : (so.trackAck segment).soAck = so.soAck := by
  unfold Socket.trackAck
  split <;> rfl

theorem trackAck_soRcvBuf : (so.trackAck segment).soRcvBuf = so.soRcvBuf := by
  unfold Socket.trackAck
  split <;> rfl

theorem handshake_established (h : so.soState = .established) :
    so.handshake segment = so := by
  unfold Socket.handshake
  rw [h, if_neg fun hsyn => nomatch hsyn.2.2]

theorem tcpInput_eq (hrst : segment.rst = false) :
    tcpInput so segment =
      (((so.handshake segment).trackAck segment).payload segment).finish segment := by
  unfold tcpInput
  rw [hrst]
  exact if_neg Bool.false_ne_true

theorem finish_soState : (so.finish segment).soState = so.soState := by
  unfold Socket.finish
  split <;> rfl

theorem finish_soRcvBuf : (so.finish segment).soRcvBuf = so.soRcvBuf := by
  unfold Socket.finish
  split <;> rfl

theorem finish_soAck :
    (so.finish segment).soAck = so.soAck + (if segment.fin then 1 else 0) := by
  unfold Socket.finish
  split
  · rfl
  · exact (UInt32.add_zero _).symm

theorem payload_soState : (so.payload segment).soState = so.soState := by
  unfold Socket.payload
  split <;> rfl

theorem payload_nil (h : segment.data = []) : so.payload segment = so := by
  unfold Socket.payload
  rw [h]
  exact if_neg fun hlength => absurd hlength.1 (lt_irrefl 0)

theorem payload_fits (h : so.soState = .established) (hne : segment.data ≠ [])
    (hfits : so.soRcvBuf.length + segment.data.length ≤ sockRcvbuf) :
    (so.payload segment).soAck = segment.seq + UInt32.ofNat segment.data.length ∧
      (so.payload segment).soRcvBuf = so.soRcvBuf ++ segment.data := by
  unfold Socket.payload appendRcv
  rw [if_pos ⟨List.length_pos_iff.mpr hne, h⟩]
  exact ⟨rfl, if_pos hfits⟩

end Segment

theorem tcpInput_soState {so : Socket} (h : so.soState = .established)
    (segment : TcpSegment) : (tcpInput so segment).soState = .established := by
  cases hrst : segment.rst with
  | true =>
      unfold tcpInput
      rw [if_pos hrst]
      exact h
  | false =>
      rw [tcpInput_eq hrst, handshake_established h, finish_soState, payload_soState,
        trackAck_soState, h]

/-- A segment without data or FIN changes neither the buffer nor the acknowledgement. -/
theorem tcpInput_bare {so : Socket} (h : so.soState = .established) {segment : TcpSegment}
    (hbare : segment.rst = true ∨ segment.data = [] ∧ segment.fin = false) :
    (tcpInput so segment).soRcvBuf = so.soRcvBuf ∧ (tcpInput so segment).soAck = so.soAck := by
  cases hrst : segment.rst with
  | true =>
      unfold tcpInput
      rw [if_pos hrst]
      exact ⟨rfl, rfl⟩
  | false =>
      obtain ⟨hdata, hfin⟩ := hbare.resolve_left (Bool.eq_false_iff.mp hrst)
      rw [tcpInput_eq hrst, handshake_established h, finish_soRcvBuf, finish_soAck,
        payload_nil hdata, hfin, trackAck_soRcvBuf, trackAck_soAck]
      exact ⟨rfl, UInt32.add_zero _⟩

theorem tcpInput_inOrder {so : Socket} (h : so.soState = .established) {segment : TcpSegment}
    (hrst : segment.rst = false)
    (hfits : so.soRcvBuf.length + segment.data.length ≤ sockRcvbuf)
    (hseq : so.soAck = segment.seq) :
    (tcpInput so segment).soRcvBuf = so.soRcvBuf ++ segment.data ∧
      (tcpInput so segment).soAck =
        segment.seq + UInt32.ofNat segment.data.length + (if segment.fin then 1 else 0) := by
  rw [tcpInput_eq hrst, handshake_established h, finish_soRcvBuf, finish_soAck]
  by_cases hdata : segment.data = []
  · rw [payload_nil hdata, trackAck_soRcvBuf, trackAck_soAck, hdata, List.append_nil, hseq]
    exact ⟨rfl, congrArg (· + _) (UInt32.add_zero _).symm⟩
  · have hbuffer : (so.trackAck segment).soRcvBuf.length + segment.data.length ≤ sockRcvbuf := by
      rwa [trackAck_soRcvBuf]
    obtain ⟨hack, hbuf⟩ := payload_fits (trackAck_soState.trans h) hdata hbuffer
    rw [hack, hbuf, trackAck_soRcvBuf]
    exact ⟨rfl, rfl⟩

theorem accepts_established (peer : Peer) (ackNumber : UInt32) :
    Accepts peer (.established peer ackNumber) := by
  have hdata : (peer.synAck ackNumber).data = [] := rfl
  have hsocket : tcpInput Socket.connecting (peer.synAck ackNumber) =
      ((Socket.connecting.handshake (peer.synAck ackNumber)).trackAck
        (peer.synAck ackNumber)).finish (peer.synAck ackNumber) := by
    rw [tcpInput_eq rfl, payload_nil hdata]
  have hempty : (Connection.established peer ackNumber).accepted = [] := by
    unfold Connection.accepted Connection.established
    rw [hsocket, finish_soRcvBuf, trackAck_soRcvBuf]
    rfl
  refine ⟨?_, ?_, ?_⟩
  · unfold Connection.established
    rw [hsocket, finish_soState, trackAck_soState]
    rfl
  · rw [hempty]
    exact List.nil_prefix
  · rw [hempty]
    unfold Connection.established
    rw [hsocket, finish_soAck, trackAck_soAck]
    have hfirst : peer.firstSeq - 1 + 1 = peer.firstSeq := UInt32.sub_add_cancel ..
    exact congrArg (· + 0) (hfirst.trans (UInt32.add_zero _).symm)

/-! ## Steps -/

theorem Accepts.bare (h : Accepts peer c) {segment : TcpSegment} {offset : ℕ}
    (hbare : segment.rst = true ∨ segment.data = [] ∧ segment.fin = false) :
    Accepts peer (c.receive segment offset) := by
  obtain ⟨hbuf, hack⟩ := tcpInput_bare h.established hbare
  have haccepted : (c.receive segment offset).accepted = c.accepted :=
    congrArg (c.returned ++ ·) hbuf
  have hfin : (c.receive segment offset).finReached = c.finReached := by
    unfold Connection.receive
    rcases hbare with hrst | ⟨_, hfin⟩
    · rw [hrst]
      simp
    · rw [hfin]
      simp
  refine ⟨tcpInput_soState h.established segment, ?_, ?_⟩
  · rw [haccepted]
    exact h.accepted
  · rw [haccepted, hfin]
    exact hack.trans h.ack

theorem prefix_append {accepted : List UInt8} {segment : TcpSegment} (h : accepted <+: peer.stream)
    (hsent : SentBy peer segment accepted.length) : accepted ++ segment.data <+: peer.stream := by
  have htake : accepted = peer.stream.take accepted.length := List.prefix_iff_eq_take.mp h
  have hboth : accepted ++ segment.data =
      peer.stream.take (accepted.length + segment.data.length) := by
    rw [List.take_add, ← hsent.data, ← htake]
  rw [hboth]
  exact List.take_prefix _ _

theorem Accepts.inOrder (h : Accepts peer c) {segment : TcpSegment}
    (hsent : SentBy peer segment c.accepted.length) (hrst : segment.rst = false)
    (hcarries : segment.data ≠ [] ∨ segment.fin = true) (hfin : c.finReached = false)
    (hfits : c.socket.soRcvBuf.length + segment.data.length ≤ sockRcvbuf) :
    Accepts peer (c.receive segment c.accepted.length) := by
  have hseq : c.socket.soAck = segment.seq := by
    rw [h.ack, hsent.seq hcarries, hfin]
    exact UInt32.add_zero _
  obtain ⟨hbuf, hack⟩ := tcpInput_inOrder h.established hrst hfits hseq
  have haccepted : (c.receive segment c.accepted.length).accepted =
      c.accepted ++ segment.data := by
    unfold Connection.receive Connection.accepted
    rw [hbuf, List.append_assoc]
  have hreached : (c.receive segment c.accepted.length).finReached = segment.fin := by
    have hlength : c.accepted.length + segment.data.length =
        (c.returned ++ (tcpInput c.socket segment).soRcvBuf).length := by
      rw [hbuf, ← List.append_assoc, List.length_append]
      rfl
    unfold Connection.receive
    dsimp only
    rw [← hlength, hfin, hrst]
    simp
  refine ⟨tcpInput_soState h.established segment, ?_, ?_⟩
  · rw [haccepted]
    exact prefix_append h.accepted hsent
  · rw [haccepted, hreached, List.length_append, UInt32.ofNat_add, ← UInt32.add_assoc,
      ← hsent.seq hcarries]
    exact hack

theorem Accepts.recv (h : Accepts peer c) (len : UInt32) : Accepts peer (c.next (.recv len)) := by
  have haccepted : (c.next (.recv len)).accepted = c.accepted := by
    unfold Connection.accepted Connection.next sysRecv
    dsimp only
    rw [List.append_assoc, List.take_append_drop]
  refine ⟨h.established, ?_, ?_⟩
  · rw [haccepted]
    exact h.accepted
  · rw [haccepted]
    exact h.ack

theorem Accepts.step {peer : Peer} {c next : Connection} {event : TcpEvent}
    (h : Accepts peer c) (hguard : ArrivesInOrder c event) (hstep : TcpStep peer c event next) :
    Accepts peer next := by
  obtain ⟨hsent, rfl⟩ := hstep
  cases event with
  | recv len => exact h.recv len
  | segment segment offset =>
      cases hrst : segment.rst with
      | true => exact h.bare (Or.inl hrst)
      | false =>
          by_cases hcarries : segment.data ≠ [] ∨ segment.fin = true
          · obtain ⟨rfl, hfin, hfits⟩ := hguard hrst hcarries
            exact h.inOrder (hsent _ _ rfl) hrst hcarries hfin hfits
          · rw [not_or, not_not, Bool.not_eq_true] at hcarries
            exact h.bare (Or.inr hcarries)

/-- When every segment with data or a FIN arrives in its turn and fits, the connection
delivers the stream. -/
theorem inSequence_always {peer : Peer} {ackNumber : UInt32}
    {run : List (TcpEvent × Connection)}
    (hrun : Along (TcpStep peer) (.established peer ackNumber) run)
    (hguard : Along (fun c event _ => ArrivesInOrder c event)
      (.established peer ackNumber) run) :
    Always (InSequence peer) (.established peer ackNumber) run := by
  have haccepts : Always (Accepts peer) (.established peer ackNumber) run :=
    always_of_guarded (Accepts peer) (fun _ _ _ h hinOrder hstep => h.step hinOrder hstep)
      (accepts_established peer ackNumber) hrun hguard
  exact haccepts.mono fun _ h => h.inSequence

def runEvents : Connection → List TcpEvent → List (TcpEvent × Connection)
  | _, [] => []
  | c, event :: rest => (event, c.next event) :: runEvents (c.next event) rest

/-- A peer that sends two bytes and whose sequence numbers wrap in between. -/
def twoBytes : Peer where
  stream := [72, 105]
  firstSeq := 0xFFFFFFFF

def firstByte : TcpSegment where
  fin := false
  syn := false
  rst := false
  ack := true
  seq := 0xFFFFFFFF
  ackNumber := 1001
  data := [72]

def secondByte : TcpSegment where
  fin := true
  syn := false
  rst := false
  ack := true
  seq := 0
  ackNumber := 1001
  data := [105]

theorem sentBy_firstByte : SentBy twoBytes firstByte 0 where
  data := rfl
  length := by decide
  within := by decide
  fin h := nomatch h
  seq _ := rfl

theorem sentBy_secondByte : SentBy twoBytes secondByte 1 where
  data := rfl
  length := by decide
  within := by decide
  fin _ := rfl
  seq _ := rfl

theorem tcpStep_segment {segment : TcpSegment} {offset : ℕ} (h : SentBy peer segment offset) :
    TcpStep peer c (.segment segment offset) (c.next (.segment segment offset)) := by
  refine ⟨?_, rfl⟩
  rintro _ _ ⟨⟩
  exact h

theorem tcpStep_recv (peer : Peer) (c : Connection) (len : UInt32) :
    TcpStep peer c (.recv len) (c.next (.recv len)) :=
  ⟨nofun, rfl⟩

def inTurn : List TcpEvent := [.segment firstByte 0, .recv 16, .segment secondByte 1, .recv 16]

def secondFirst : List TcpEvent := [.segment secondByte 1, .recv 16]

theorem inTurn_inSequence :
    Always (InSequence twoBytes) (.established twoBytes 1001)
      (runEvents (.established twoBytes 1001) inTurn) := by
  refine @inSequence_always twoBytes 1001 _ ?_ ?_
  · exact ⟨tcpStep_segment sentBy_firstByte, tcpStep_recv _ _ _,
      tcpStep_segment sentBy_secondByte, tcpStep_recv _ _ _, trivial⟩
  · exact ⟨by decide, trivial, by decide, trivial, trivial⟩

theorem secondFirst_not_inSequence :
    Along (TcpStep twoBytes) (.established twoBytes 1001)
        (runEvents (.established twoBytes 1001) secondFirst) ∧
      ¬ Always (InSequence twoBytes) (.established twoBytes 1001)
        (runEvents (.established twoBytes 1001) secondFirst) := by
  refine ⟨⟨tcpStep_segment sentBy_secondByte, tcpStep_recv _ _ _, trivial⟩, ?_⟩
  intro h
  have hprefix := h.final.returned
  revert hprefix
  decide

end EigenOS.Net
