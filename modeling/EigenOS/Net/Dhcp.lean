import EigenOS.Library.ByteLayout
import EigenOS.Library.TagLength
import EigenOS.Net.ByteOrder
import EigenOS.Net.Udp

/-!
# Asking for an address

`dhcp_request`: a DISCOVER is sent until an OFFER comes in, the offered address is requested, and
the interface takes what the ACK says.  What `udp_recv` hands out at each poll is given from
outside, and so is the time, as the polls of each try.
-/

namespace EigenOS.Net

open ByteLayout

def dhcpOffer : UInt8 := 2
def dhcpRequestType : UInt8 := 3
def dhcpAck : UInt8 := 5
def dhcpNak : UInt8 := 6

def dhcpServerPort : UInt16 := 67
def dhcpHdrMagic : UInt32 := 0x63825363

def dhcpOptSubnet : UInt8 := 1
def dhcpOptRouter : UInt8 := 3
def dhcpOptDns : UInt8 := 6
def dhcpOptReqIp : UInt8 := 50
def dhcpOptMsgType : UInt8 := 53
def dhcpOptServerId : UInt8 := 54
def dhcpOptClientId : UInt8 := 61
def dhcpOptEnd : UInt8 := 255

/-- `sizeof(options)`. -/
def dhcpOptionsSize : ℕ := 312

/-- `sizeof(struct dhcp_pkt)`. -/
def dhcpPktSize : ℕ := 552

/-- The word in memory at the front of some bytes. -/
def word (bytes : List UInt8) : UInt32 := UInt32.ofNat (fromLittleEndian (bytes.take 4))

/-- A word as it stands in memory. -/
def wordBytes (n : UInt32) : List UInt8 := littleEndian 4 n.toNat

/-- `struct dhcp_pkt` as it stands in memory: the fields that are set or read. -/
structure DhcpPkt where
  op : UInt8 := 0
  htype : UInt8 := 0
  hlen : UInt8 := 0
  xid : UInt32
  flags : UInt16 := 0
  yiaddr : UInt32 := 0
  chaddr : List UInt8 := []
  magic : UInt32
  options : List UInt8

/-- A buffer seen as a `struct dhcp_pkt`. -/
def DhcpPkt.ofBuf (buf : List UInt8) : DhcpPkt where
  xid := word (buf.drop 4)
  yiaddr := word (buf.drop 16)
  magic := word (buf.drop 236)
  options := (buf.drop 240).take dhcpOptionsSize

/-! ## Sending -/

/-- The hardware address of the interface, and the byte behind `g_mac`. -/
structure DhcpClient where
  mac : Fin 6 → UInt8
  behind : UInt8

/-- `dhcp_add_option`. -/
def dhcpAddOption (o : List UInt8) (tag : UInt8) (len : ℕ) (val : List UInt8) : List UInt8 :=
  o ++ tag :: UInt8.ofNat len :: val.take len

namespace DhcpClient

variable (client : DhcpClient)

/-- `g_xid`. -/
def xid : UInt32 :=
  (0x12345678 : UInt32) + ((client.mac 5).toUInt32 <<< (8 : UInt32)) + (client.mac 4).toUInt32

/-- The packet that `dhcp_send` passes on.  The client identifier takes seven bytes of the
six of `g_mac`. -/
def dhcpSend (msgtype : UInt8) (reqIp serverIp : UInt32) : DhcpPkt :=
  let o := dhcpAddOption [] dhcpOptMsgType 1 [msgtype]
  let o :=
    if msgtype = dhcpRequestType ∧ reqIp ≠ 0 then
      dhcpAddOption o dhcpOptReqIp 4 (wordBytes (htonl reqIp))
    else o
  let o :=
    if msgtype = dhcpRequestType ∧ serverIp ≠ 0 then
      dhcpAddOption o dhcpOptServerId 4 (wordBytes (htonl serverIp))
    else o
  let o := dhcpAddOption o dhcpOptClientId 7 (List.ofFn client.mac ++ [client.behind])
  let o := o ++ [dhcpOptEnd]
  { op := 1
    htype := 1
    hlen := 6
    xid := htonl client.xid
    flags := htons 0x8000
    chaddr := List.ofFn client.mac ++ List.replicate 10 0
    magic := htonl dhcpHdrMagic
    options := o ++ List.replicate (dhcpOptionsSize - o.length) 0 }

end DhcpClient

/-! ## Receiving -/

/-- What `udp_recv` hands out, and the byte on the stack behind the buffer. -/
structure DhcpInput extends UdpReply where
  behind : UInt8

/-- What `dhcp_recv` writes through its pointers. -/
structure DhcpFields where
  msgtype : UInt8 := 0
  yiaddr : UInt32 := 0
  mask : UInt32 := 0
  gw : UInt32 := 0
  dns : UInt32 := 0
  server : UInt32 := 0

/-- What is done with an option. -/
def DhcpFields.option (fields : DhcpFields) (tag olen : UInt8) (v : List UInt8) : DhcpFields :=
  if tag = dhcpOptMsgType then { fields with msgtype := v.getD 0 0 }
  else if tag = dhcpOptSubnet ∧ 4 ≤ olen then { fields with mask := htonl (word v) }
  else if tag = dhcpOptRouter ∧ 4 ≤ olen then { fields with gw := htonl (word v) }
  else if tag = dhcpOptDns ∧ 4 ≤ olen then { fields with dns := htonl (word v) }
  else fields

/-- The loop over the options.  The first byte of an option without bytes is the byte that
follows, which may be the one behind the buffer. -/
def dhcpOptions (options : List UInt8) (behind : UInt8) (off : ℕ) (fields : DhcpFields) :
    DhcpFields :=
  if dhcpOptionsSize ≤ off + 1 then fields
  else
    let tag := options.getD off 0
    if tag = dhcpOptEnd then fields
    else if tag = 0 then dhcpOptions options behind (off + 1) fields
    else
      let olen := options.getD (off + 1) 0
      if dhcpOptionsSize < off + 2 + olen.toNat then fields
      else
        dhcpOptions options behind (off + 2 + olen.toNat)
          (fields.option tag olen ((options ++ [behind]).drop (off + 2)))
termination_by dhcpOptionsSize - off

/-- `dhcp_recv`: the fields that are written, when it returns 0. -/
def dhcpRecv (wantXid : UInt32) (input : DhcpInput) (fields : DhcpFields) : Option DhcpFields :=
  let buf := input.data.take dhcpPktSize
  let p := DhcpPkt.ofBuf buf
  if buf.length < dhcpPktSize then none
  else if htonl p.xid ≠ wantXid then none
  else if htonl p.magic ≠ dhcpHdrMagic then none
  else if input.srcPort ≠ dhcpServerPort then none
  else
    some (dhcpOptions p.options input.behind 0
      { fields with yiaddr := htonl p.yiaddr, server := input.srcIp, msgtype := 0 })

/-! ## The exchange -/

/-- The polls of a try, up to the OFFER that is taken. -/
def tryOffer (wantXid : UInt32) : List (Option DhcpInput) → DhcpFields →
    DhcpFields × Option DhcpInput
  | [], fields => (fields, none)
  | none :: rest, fields => tryOffer wantXid rest fields
  | some input :: rest, fields =>
      match dhcpRecv wantXid input fields with
      | none => tryOffer wantXid rest fields
      | some fields =>
          if fields.msgtype = dhcpOffer ∧ fields.yiaddr ≠ 0 then (fields, some input)
          else tryOffer wantXid rest fields

/-- The tries in the discover step. -/
def awaitOffer (wantXid : UInt32) : List (List (Option DhcpInput)) → DhcpFields →
    DhcpFields × Option DhcpInput
  | [], fields => (fields, none)
  | polls :: rest, fields =>
      match tryOffer wantXid polls fields with
      | (fields, some input) => (fields, some input)
      | (fields, none) => awaitOffer wantXid rest fields

/-- How the wait for an answer to the REQUEST may end. -/
inductive DhcpAnswer where
  | timeout
  | nak
  | ack (input : DhcpInput) (fields : DhcpFields)

/-- The polls of a try, up to the ACK or the NAK. -/
def tryAck (wantXid : UInt32) : List (Option DhcpInput) → DhcpAnswer
  | [] => .timeout
  | none :: rest => tryAck wantXid rest
  | some input :: rest =>
      match dhcpRecv wantXid input {} with
      | none => tryAck wantXid rest
      | some fields =>
          if fields.msgtype = dhcpAck ∧ fields.yiaddr ≠ 0 then .ack input fields
          else if fields.msgtype = dhcpNak then .nak
          else tryAck wantXid rest

/-- The tries in the request step, and how often the REQUEST is sent again. -/
def awaitAck (wantXid : UInt32) : List (List (Option DhcpInput)) → DhcpAnswer × ℕ
  | [] => (.timeout, 0)
  | polls :: rest =>
      match tryAck wantXid polls with
      | .timeout => ((awaitAck wantXid rest).1, (awaitAck wantXid rest).2 + 1)
      | answer => (answer, 0)

/-- What is set in the interface. -/
structure IfConfig where
  ip : UInt32
  netmask : UInt32
  gateway : UInt32
  dns : UInt32

/-- The configuration that an ACK leads to. -/
def DhcpFields.configure (fields : DhcpFields) : IfConfig where
  ip := htonl fields.yiaddr
  netmask := if fields.mask ≠ 0 then htonl fields.mask else htonl 0xFFFFFF00
  gateway := if fields.gw ≠ 0 then htonl fields.gw else 0
  dns := if fields.dns ≠ 0 then htonl fields.dns else htonl 0x0A000203

/-- What `dhcp_request` did: the OFFER and the ACK it took, the REQUESTs it sent, and the
configuration, when it returns 0. -/
structure DhcpRun where
  offer : Option DhcpInput := none
  requests : List DhcpPkt := []
  ack : Option DhcpInput := none
  config : Option IfConfig := none

/-- What happens around `dhcp_request`: whether the first DISCOVER and the first REQUEST go out,
and what comes in at the polls of each try. -/
structure DhcpEvents where
  discovers : Bool
  offers : List (List (Option DhcpInput))
  sends : Bool
  answers : List (List (Option DhcpInput))

/-- `dhcp_request`, for an interface that is there. -/
def DhcpClient.dhcpRequest (client : DhcpClient) (events : DhcpEvents) : DhcpRun :=
  if events.discovers = false then {}
  else
    match awaitOffer client.xid (events.offers.take 8) {} with
    | (_, none) => {}
    | (fields, some offer) =>
        if events.sends = false then { offer := some offer }
        else
          let request := client.dhcpSend dhcpRequestType fields.yiaddr fields.server
          match awaitAck client.xid (events.answers.take 8) with
          | (.timeout, again) =>
              { offer := some offer, requests := request :: List.replicate again request }
          | (.nak, again) =>
              { offer := some offer, requests := request :: List.replicate again request }
          | (.ack input taken, again) =>
              { offer := some offer
                requests := request :: List.replicate again request
                ack := some input
                config := some taken.configure }

end EigenOS.Net
