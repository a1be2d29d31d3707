import EigenOS.Library.BufferAccess
import EigenOS.Net.Tcp

/-!
# The receive path

From the Ethernet header to the protocols over IP, with every access to the received frame.
Offsets count from the start of the frame; what lies behind its end is whatever the cluster
held before.
-/

namespace EigenOS.Net

open EigenOS.BufferAccess

/-- `MCLBYTES`, the size of the memory a frame is received into. -/
def mclbytes : ℕ := 2048

/-- A received frame: the memory from its first byte on, and its length. -/
structure Frame where
  bytes : ℕ → UInt8
  length : ℕ
  length_le : length ≤ mclbytes

/-- The part of a frame that a protocol is given: `m_data` and `m_len`. -/
structure Mbuf where
  data : ℕ
  len : ℤ

def Mbuf.advance (m : Mbuf) (count : ℕ) : Mbuf where
  data := m.data + count
  len := m.len - count

def Frame.half (f : Frame) (offset : ℕ) : ℕ :=
  (f.bytes offset).toNat * 256 + (f.bytes (offset + 1)).toNat

def Frame.word (f : Frame) (offset : ℕ) : ℕ := f.half offset * 65536 + f.half (offset + 2)

def Frame.remaining (f : Frame) (offset : ℕ) : ℕ := f.length - offset

section Readers

variable (f : Frame)

def readByte (offset : ℕ) : Reader UInt8 := .range offset 1 (f.bytes offset)

/-- `ntohs` of a field. -/
def readHalf (offset : ℕ) : Reader ℕ := .range offset 2 (f.half offset)

/-- `ntohl` of a field. -/
def readWord (offset : ℕ) : Reader ℕ := .range offset 4 (f.word offset)

/-- A `memcpy` of fixed size from the frame. -/
def readBytes (offset count : ℕ) : Reader (List UInt8) :=
  .range offset count ((List.range count).map fun index => f.bytes (offset + index))

/-- A copy, or a checksum, of as many bytes as a header says. -/
def useBytes (offset : ℕ) (count : ℤ) : Reader (List UInt8) := do
  Reader.pass count (f.remaining offset)
  readBytes f offset count.toNat

end Readers

/-! ## Protocols over IP -/

def etherHdrLen : ℕ := 14
def etherArpSize : ℕ := 28
def ipSize : ℕ := 20
def udpSize : ℕ := 8

def ethertypeIp : ℕ := 0x0800
def ethertypeArp : ℕ := 0x0806

def arpopRequest : ℕ := 1
def arpopReply : ℕ := 2

def ipprotoIcmp : ℕ := 1
def ipprotoTcp : ℕ := 6
def ipprotoUdp : ℕ := 17

def icmpEchoreply : ℕ := 0
def icmpEcho : ℕ := 8

/-- What finding the socket of a segment uses of it. -/
structure TcpPort where
  port : ℕ
  state : TcpState

/-- What the receive path looks up. -/
structure NetState where
  sockets : List (Option TcpPort)
  ifIp : List UInt8
  /-- The cache has an entry, or room for one, for an address and it is not static. -/
  arpCacheTakes : ℕ → Bool
  mbufFree : Bool

variable (f : Frame) (net : NetState)

/-- The loop of `tcp_input` over the sockets. -/
def findSocket (m : Mbuf) : List (Option TcpPort) → Reader (Option TcpPort)
  | [] => pure none
  | none :: rest => findSocket m rest
  | some so :: rest => do
      let dport ← readHalf f (m.data + 2)
      if so.port = dport then pure (some so) else findSocket m rest

def tcpSyn : ℕ := 0x02
def tcpRst : ℕ := 0x04
def tcpAck : ℕ := 0x10

def hasFlag (flags : UInt8) (flag : ℕ) : Bool := flags.toNat &&& flag != 0

/-- The state of a socket after the handshake part of `tcp_input`. -/
def stateAfter (so : TcpPort) (flags : UInt8) : TcpState :=
  if hasFlag flags tcpSyn ∧ hasFlag flags tcpAck ∧ so.state = .synSent then .established
  else so.state

/-- What the handshake part of `tcp_input` reads. -/
def tcpHandshake (m : Mbuf) (so : TcpPort) (flags : UInt8) : Reader Unit :=
  if hasFlag flags tcpSyn ∧ hasFlag flags tcpAck ∧ so.state = .synSent then do
    let _seq ← readWord f (m.data + 4)
    let _ack ← readWord f (m.data + 8)
    pure ()
  else pure ()

/-- The payload part of `tcp_input`.  A payload is shorter than the receive buffer, so all
of it is copied even when old bytes are dropped for it. -/
def tcpPayload (m : Mbuf) (off : ℕ) (so : TcpPort) (flags : UInt8) : Reader Unit := do
  let ipLen ← readHalf f (m.data - off + 2)
  let ipHl ← readByte f (m.data - off)
  let thOff ← readByte f (m.data + 12)
  let hlen := ipHl.toNat % 16 * 4
  let header := thOff.toNat / 16 * 4
  let dataLen : ℤ := ipLen - hlen - header
  if 0 < dataLen ∧ stateAfter so flags = .established then do
    let _seq ← readWord f (m.data + 4)
    let _data ← useBytes f (m.data + header) dataLen
    pure ()
  else pure ()

/-- `tcp_input` for the socket it has found. -/
def tcpSegment (m : Mbuf) (off : ℕ) (so : TcpPort) : Reader Unit := do
  let flags ← readByte f (m.data + 13)
  if hasFlag flags tcpRst then do
    let _dport ← readHalf f (m.data + 2)
    pure ()
  else do
    tcpHandshake f m so flags
    let _ack ← readWord f (m.data + 8)
    tcpPayload f m off so flags

def tcpInputReads (m : Mbuf) (off : ℕ) : Reader Unit := do
  match ← findSocket f m net.sockets with
  | none => pure ()
  | some so => tcpSegment f m off so

/-- `udp_input`. -/
def udpInput (m : Mbuf) (off : ℕ) : Reader Unit := do
  let _dport ← readHalf f (m.data + 2)
  let _sport ← readHalf f m.data
  let udpLen ← readHalf f (m.data + 4)
  if udpLen < udpSize then pure ()
  else do
    let payloadLen := udpLen - udpSize
    let _src ← readWord f (m.data - off + 12)
    let len := if payloadLen < 1500 then payloadLen else 1500
    let _ ← useBytes f (m.data + udpSize) len
    pure ()

/-- `icmp_input`, up to the reply. -/
def icmpInput (m : Mbuf) (off : ℕ) : Reader Unit := do
  let ipLen ← readHalf f (m.data - off + 2)
  let icmplen : ℤ := ipLen - off
  let type ← readByte f m.data
  if type.toNat = icmpEcho then do
    let _sum ← useBytes f m.data icmplen
    let _src ← readWord f (m.data - off + 12)
    let _dst ← readWord f (m.data - off + 16)
    pure ()
  else if type.toNat = icmpEchoreply then do
    let _src ← readWord f (m.data - off + 12)
    let _id ← readHalf f (m.data + 4)
    let _seq ← readHalf f (m.data + 6)
    pure ()
  else pure ()

/-! ## IP, ARP and Ethernet -/

/-- A packet is handed on behind its header. -/
def handOn (m : Mbuf) (hlen : ℕ) (input : Mbuf → ℕ → Reader Unit) : Reader Unit := do
  Reader.pass hlen (f.remaining m.data)
  Reader.pass (m.advance hlen).len (f.remaining (m.advance hlen).data)
  input (m.advance hlen) hlen

/-- `ip_input`. -/
def ipInput (m : Mbuf) : Reader Unit := do
  if m.len < ipSize then pure ()
  else do
    let version ← readByte f m.data
    if version.toNat / 16 ≠ 4 then pure ()
    else do
      let first ← readByte f m.data
      let hlen := first.toNat % 16 * 4
      if hlen < ipSize then pure ()
      else do
        let protocol ← readByte f (m.data + 9)
        if protocol.toNat = ipprotoTcp then handOn f m hlen (tcpInputReads f net)
        else if protocol.toNat = ipprotoIcmp then handOn f m hlen (icmpInput f)
        else if protocol.toNat = ipprotoUdp then handOn f m hlen (udpInput f)
        else pure ()

/-- `arp_input`. -/
def arpInput (m : Mbuf) : Reader Unit := do
  if m.len < etherArpSize then pure ()
  else do
    let op ← readHalf f (m.data + 6)
    if op = arpopReply then do
      let _replyIp ← readWord f (m.data + 14)
      let _targetIp ← readWord f (m.data + 24)
      let _mac ← readBytes f (m.data + 8) 6
      pure ()
    else if op = arpopRequest then do
      let requestIp ← readWord f (m.data + 14)
      let _targetIp ← readWord f (m.data + 24)
      if net.arpCacheTakes requestIp then do
        let _mac ← readBytes f (m.data + 8) 6
        pure ()
      let target ← readBytes f (m.data + 24) 4
      if target = net.ifIp ∧ net.mbufFree then do
        let _mac ← readBytes f (m.data + 8) 6
        let _ip ← readBytes f (m.data + 14) 4
        let _destination ← readBytes f (m.data + 8) 6
        pure ()
    else pure ()

/-- `ether_input`. -/
def etherInput : Reader Unit := do
  if f.length < etherHdrLen then pure ()
  else do
    let type ← readHalf f 12
    let m : Mbuf := { data := etherHdrLen, len := f.length - etherHdrLen }
    if type = ethertypeIp then ipInput f net m
    else if type = ethertypeArp then arpInput f net m
    else pure ()

end EigenOS.Net
