import Mathlib.Data.UInt

/-!
# The receive side of a TCP socket

`tcp_input` for the socket a segment belongs to, and `sys_recv`, which hands out what has
been buffered.
-/

namespace EigenOS.Net

inductive TcpState where
  | closed
  | synSent
  | established
  deriving DecidableEq

/-- `struct socket` as the receive path uses it.  `so_rcv_len` is the length of the buffer. -/
structure Socket where
  soState : TcpState
  soRcvBuf : List UInt8
  soRcvTotal : UInt64
  soSeq : UInt32
  soAck : UInt32
  soUna : UInt32
  soClosed : Bool

/-- What `tcp_input` reads of a segment. -/
structure TcpSegment where
  fin : Bool
  syn : Bool
  rst : Bool
  ack : Bool
  seq : UInt32
  ackNumber : UInt32
  data : List UInt8

def sockRcvbuf : ℕ := 256 * 1024

/-- The socket while `sys_connect` waits for the other side. -/
def Socket.connecting : Socket where
  soState := .synSent
  soRcvBuf := []
  soRcvTotal := 0
  soSeq := 1001
  soAck := 0
  soUna := 0
  soClosed := false

/-- The answer to our SYN. -/
def Socket.handshake (so : Socket) (segment : TcpSegment) : Socket :=
  if segment.syn ∧ segment.ack ∧ so.soState = .synSent then
    { so with
      soAck := segment.seq + 1
      soSeq := segment.ackNumber
      soUna := segment.ackNumber
      soState := .established }
  else so

def Socket.trackAck (so : Socket) (segment : TcpSegment) : Socket :=
  if so.soUna < segment.ackNumber then { so with soUna := segment.ackNumber } else so

/-- The buffer after a payload; what does not fit pushes the oldest bytes out. -/
def appendRcv (buffer data : List UInt8) : List UInt8 :=
  if buffer.length + data.length ≤ sockRcvbuf then buffer ++ data
  else
    let excess := buffer.length + data.length - sockRcvbuf
    let kept := if buffer.length ≤ excess then [] else buffer.drop excess
    kept ++ data.take (sockRcvbuf - kept.length)

def Socket.payload (so : Socket) (segment : TcpSegment) : Socket :=
  if 0 < segment.data.length ∧ so.soState = .established then
    { so with
      soAck := segment.seq + UInt32.ofNat segment.data.length
      soRcvTotal := so.soRcvTotal + UInt64.ofNat segment.data.length
      soRcvBuf := appendRcv so.soRcvBuf segment.data }
  else so

def Socket.finish (so : Socket) (segment : TcpSegment) : Socket :=
  if segment.fin then { so with soAck := so.soAck + 1, soClosed := true } else so

/-- `tcp_input` after it has found the socket. -/
def tcpInput (so : Socket) (segment : TcpSegment) : Socket :=
  if segment.rst then { so with soClosed := true }
  else (((so.handshake segment).trackAck segment).payload segment).finish segment

/-- `sys_recv`: the bytes copied out.  `len` is what the comparison with `so_rcv_len` makes
of the argument. -/
def sysRecv (so : Socket) (len : UInt32) : Socket × List UInt8 :=
  let toCopy := if len.toNat < so.soRcvBuf.length then len.toNat else so.soRcvBuf.length
  ({ so with soRcvBuf := so.soRcvBuf.drop toCopy }, so.soRcvBuf.take toCopy)

end EigenOS.Net
