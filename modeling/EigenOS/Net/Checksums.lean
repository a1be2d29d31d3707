import EigenOS.Library.ByteLayout
import EigenOS.Library.OnesComplement
import EigenOS.Net.Demultiplexing
import EigenOS.Net.Mbufs

/-!
# Checksums on output

The bytes of the packets that `tcp_send_packet` and `ip_output` make, and the checksums in
them: a receiver that sums the IP header, and the pseudo-header with the segment, finds both
to be right.
-/

namespace EigenOS.Net

open EigenOS.ByteLayout EigenOS.OnesComplement

/-! ## Headers -/

/-- `struct ip`, with the values that the fields have in the machine. -/
structure Ip where
  ipHl : BitVec 4
  ipV : BitVec 4
  ipTos : UInt8
  ipLen : UInt16
  ipId : UInt16
  ipOff : UInt16
  ipTtl : UInt8
  ipP : UInt8
  ipSum : UInt16
  ipSrc : UInt32
  ipDst : UInt32

/-- `struct tcphdr`. -/
structure Tcphdr where
  thSport : UInt16
  thDport : UInt16
  thSeq : UInt32
  thAck : UInt32
  thX2 : BitVec 4
  thOff : BitVec 4
  thFlags : UInt8
  thWin : UInt16
  thSum : UInt16
  thUrp : UInt16

def bitFields (low high : BitVec 4) : UInt8 := UInt8.ofBitVec (high ++ low)

def field16 (value : UInt16) : List UInt8 := littleEndian 2 value.toNat

def field32 (value : UInt32) : List UInt8 := littleEndian 4 value.toNat

def Ip.bytes (ip : Ip) : List UInt8 :=
  [bitFields ip.ipHl ip.ipV, ip.ipTos] ++ field16 ip.ipLen ++ field16 ip.ipId ++
    field16 ip.ipOff ++ [ip.ipTtl, ip.ipP] ++ field16 ip.ipSum ++ field32 ip.ipSrc ++
    field32 ip.ipDst

def Tcphdr.bytes (th : Tcphdr) : List UInt8 :=
  field16 th.thSport ++ field16 th.thDport ++ field32 th.thSeq ++ field32 th.thAck ++
    [bitFields th.thX2 th.thOff, th.thFlags] ++ field16 th.thWin ++ field16 th.thSum ++
    field16 th.thUrp

/-- An mbuf from `m_data` on: the IP header and what follows it. -/
structure Packet where
  ip : Ip
  rest : List UInt8

def Packet.bytes (m : Packet) : List UInt8 := m.ip.bytes ++ m.rest

/-- `IPPROTO_TCP`, in the protocol field. -/
def protoTcp : UInt8 := 6
def maxTcpPayload : ℕ := 1752

/-! ## The checksums -/

/-- The words of a byte string are added up. -/
def sumWords (sum : UInt32) : List UInt8 → UInt32
  | [] => sum
  | [high] => sum + high.toUInt32 <<< 8
  | high :: low :: rest => sumWords (sum + (high.toUInt32 <<< 8 ||| low.toUInt32)) rest

/-- One turn of the loop that adds the carries. -/
def foldCarry (sum : UInt32) : UInt32 := (sum &&& (0xFFFF : UInt32)) + (sum >>> 16)

theorem shiftRight_toNat (sum : UInt32) : (sum >>> 16).toNat = sum.toNat / 65536 := by
  rw [UInt32.toNat_shiftRight]
  exact Nat.shiftRight_eq_div_pow _ 16

theorem foldCarry_toNat (sum : UInt32) : (foldCarry sum).toNat = foldOnce 65536 sum.toNat := by
  have hlow : (sum &&& (0xFFFF : UInt32)).toNat = sum.toNat % 65536 := by
    rw [UInt32.toNat_and]
    exact Nat.and_two_pow_sub_one_eq_mod _ 16
  have hlt := sum.toNat_lt
  rw [foldCarry, UInt32.toNat_add, hlow, shiftRight_toNat, foldOnce]
  exact Nat.mod_eq_of_lt (by omega)

theorem shiftRight_ne_zero_iff (sum : UInt32) : sum >>> 16 ≠ 0 ↔ 65536 ≤ sum.toNat := by
  rw [ne_eq, ← UInt32.toNat_inj, shiftRight_toNat]
  change ¬ sum.toNat / 65536 = 0 ↔ _
  omega

def foldCarries (sum : UInt32) : UInt32 :=
  if sum >>> 16 ≠ 0 then foldCarries (foldCarry sum) else sum
termination_by sum.toNat
decreasing_by
  rw [foldCarry_toNat]
  exact foldOnce_lt (by decide) ((shiftRight_ne_zero_iff sum).mp ‹_›)

/-- `ip_checksum`. -/
def ipChecksum (data : List UInt8) : UInt16 := htons (~~~ foldCarries (sumWords 0 data)).toUInt16

/-- `m_copydata`, from an mbuf that has no next. -/
def mCopydata (m : List UInt8) (off len : ℕ) : List UInt8 := (m.drop off).take len

/-- The length that `tcp_checksum` finds in the IP header. -/
def tcpLen (ip : Ip) : UInt16 :=
  htons ip.ipLen - UInt16.ofNat (ip.ipHl.toNat * 4)

/-- `tcp_checksum`. -/
def tcpChecksum (ip : Ip) (m : List UInt8) (off : ℕ) : UInt16 :=
  let buf := field32 ip.ipSrc ++ field32 ip.ipDst ++ [0, protoTcp] ++
    [(tcpLen ip >>> 8 &&& 0xFF).toUInt8, (tcpLen ip &&& 0xFF).toUInt8] ++
    mCopydata m off (tcpLen ip).toNat
  htons (~~~ (foldCarries (sumWords 0 buf)).toUInt16)

/-! ## Output -/

/-- The fields that `ip_output` fills in. -/
def Ip.filled (ip : Ip) (ipIdCounter : UInt16) : Ip :=
  { ip with
    ipV := 4
    ipHl := 5
    ipId := htonsNext ipIdCounter
    ipOff := 0
    ipTtl := if ip.ipTtl = 0 then 64 else ip.ipTtl
    ipSum := 0 }

/-- What `ip_output` hands on to be sent, if there is an interface. -/
def ipOutput (ipIdCounter : UInt16) (ifp primary : Option Interface) (m : Packet) :
    Option Packet :=
  match ifp.or primary with
  | none => none
  | some _ =>
      let ip := m.ip.filled ipIdCounter
      some { m with ip := { ip with ipSum := ipChecksum ip.bytes } }

/-- What `tcp_send_packet` copies of the data it is given. -/
def sentPayload (data : Option (ℕ → UInt8)) (len : ℤ) : List UInt8 :=
  let len := if len < 0 then 0 else len
  let len := if maxTcpPayload < len then (maxTcpPayload : ℤ) else len
  match data with
  | none => []
  | some data => (List.range len.toNat).map data

/-- The window that is advertised. -/
def freeWin (so : TcpSocket) : UInt16 :=
  let freeWin := UInt32.ofNat sockRcvbuf - UInt32.ofNat so.control.soRcvBuf.length
  (if 65535 < freeWin then 65535 else freeWin).toUInt16

section Send

variable (so : TcpSocket) (flags : UInt8) (data : Option (ℕ → UInt8)) (len : ℤ)
  (primary : Option Interface) (tcpIpId ipIdCounter : UInt16)

/-- The TCP header before its checksum is set. -/
def tcpHeader : Tcphdr where
  thSport := so.localPort
  thDport := so.remotePort
  thSeq := htonl so.control.soSeq
  thAck := htonl so.control.soAck
  thX2 := 0
  thOff := 5
  thFlags := flags
  thWin := htons (freeWin so)
  thSum := 0
  thUrp := 0

/-- The IP header of a packet with so many bytes. -/
def tcpIpHeader (length : ℕ) : Ip where
  ipHl := 5
  ipV := 4
  ipTos := 0
  ipLen := htons (UInt16.ofNat length)
  ipId := htonsNext tcpIpId
  ipOff := 0
  ipTtl := 64
  ipP := protoTcp
  ipSum := 0
  ipSrc :=
    match primary with
    | none => htonl 0x0A00020F
    | some ifp => if ifp.ifIp ≠ 0 then ifp.ifIp else htonl 0x0A00020F
  ipDst := so.remoteAddr

/-- The packet that `tcp_send_packet` makes. -/
def tcpPacket : Packet :=
  let payload := sentPayload data len
  let th := tcpHeader so flags
  let ip := tcpIpHeader so primary tcpIpId (20 + (20 + payload.length))
  let sum := tcpChecksum ip (ip.bytes ++ (th.bytes ++ payload)) 20
  ⟨ip, { th with thSum := sum }.bytes ++ payload⟩

/-- What `tcp_send_packet` sends; `memory` says whether there is an mbuf for it. -/
def tcpSendPacket (memory : Bool) : Option Packet :=
  if memory then ipOutput ipIdCounter primary primary (tcpPacket so flags data len primary tcpIpId)
  else none

end Send

/-! ## A receiver -/

def headerLength (packet : List UInt8) : ℕ := 4 * ((packet.getD 0 0).toNat % 16)

/-- The length of a packet, from its IP header. -/
def totalLength (packet : List UInt8) : ℕ :=
  256 * (packet.getD 2 0).toNat + (packet.getD 3 0).toNat

/-- What an IP packet carries. -/
def segmentOf (packet : List UInt8) : List UInt8 :=
  (packet.take (totalLength packet)).drop (headerLength packet)

/-- The addresses, the protocol and the length of the segment, as TCP sums them. -/
def pseudoHeader (packet : List UInt8) : List UInt8 :=
  window 12 8 packet ++ [0, packet.getD 9 0] ++
    [UInt8.ofNat ((segmentOf packet).length / 256), UInt8.ofNat (segmentOf packet).length]

def IpVerifies (packet : List UInt8) : Prop := Verifies (packet.take (headerLength packet))

def TcpVerifies (packet : List UInt8) : Prop :=
  Verifies (pseudoHeader packet ++ segmentOf packet)

/-! ## The loops -/

theorem upperByte_toNat (high : UInt8) : (high.toUInt32 <<< 8).toNat = 256 * high.toNat := by
  have hlt := high.toNat_lt
  rw [UInt32.toNat_shiftLeft, UInt8.toNat_toUInt32]
  change high.toNat <<< 8 % 2 ^ 32 = _
  rw [Nat.shiftLeft_eq, Nat.mod_eq_of_lt (by omega)]
  omega

theorem word_toNat (high low : UInt8) :
    (high.toUInt32 <<< 8 ||| low.toUInt32).toNat = 256 * high.toNat + low.toNat := by
  rw [UInt32.toNat_or, upperByte_toNat, UInt8.toNat_toUInt32]
  exact (Nat.two_pow_add_eq_or_of_lt low.toNat_lt high.toNat).symm

/-- The words are added up without a carry out of the sum. -/
theorem sumWords_toNat (data : List UInt8) {sum : UInt32}
    (hlt : sum.toNat + wordSum data < 2 ^ 32) :
    (sumWords sum data).toNat = sum.toNat + wordSum data := by
  induction data using wordSum.induct generalizing sum with
  | case1 => rfl
  | case2 high =>
      rw [wordSum] at hlt ⊢
      rw [sumWords, UInt32.toNat_add, upperByte_toNat]
      exact Nat.mod_eq_of_lt hlt
  | case3 high low rest ih =>
      rw [wordSum] at hlt ⊢
      have hword : (sum + (high.toUInt32 <<< 8 ||| low.toUInt32)).toNat =
          sum.toNat + (256 * high.toNat + low.toNat) := by
        rw [UInt32.toNat_add, word_toNat]
        exact Nat.mod_eq_of_lt (by omega)
      rw [sumWords, ih (by rw [hword]; omega), hword]
      omega

theorem foldCarries_folds (sum : UInt32) : Folds 65536 sum.toNat (foldCarries sum).toNat := by
  induction sum using foldCarries.induct with
  | case1 sum hcarry ih =>
      rw [foldCarries, if_pos hcarry]
      rw [foldCarry_toNat] at ih
      exact ih.of_foldOnce (by decide)
  | case2 sum hcarry =>
      rw [foldCarries, if_neg hcarry]
      exact .of_lt (not_le.mp ((shiftRight_ne_zero_iff sum).not.mp hcarry))

theorem htons_toNat (n : UInt16) : (htons n).toNat = n.toNat / 256 + 256 * (n.toNat % 256) := by
  have hlt := n.toNat_lt
  have hupper : ((n &&& (0xFF00 : UInt16)) >>> 8).toNat = n.toNat / 256 := by
    rw [UInt16.toNat_shiftRight, UInt16.toNat_and]
    change (n.toNat &&& 0xFF00) >>> 8 = _
    rw [Nat.shiftRight_and_distrib, Nat.shiftRight_eq_div_pow]
    change n.toNat / 256 &&& (2 ^ 8 - 1) = _
    rw [Nat.and_two_pow_sub_one_eq_mod, Nat.mod_eq_of_lt (by omega)]
  have hlower : ((n &&& (0x00FF : UInt16)) <<< 8).toNat = 2 ^ 8 * (n.toNat % 256) := by
    rw [UInt16.toNat_shiftLeft, UInt16.toNat_and]
    change (n.toNat &&& (2 ^ 8 - 1)) <<< 8 % 2 ^ 16 = _
    rw [Nat.and_two_pow_sub_one_eq_mod, Nat.shiftLeft_eq, Nat.mod_eq_of_lt (by omega), mul_comm]
  rw [htons, UInt16.toNat_or, hupper, hlower, Nat.or_comm,
    ← Nat.two_pow_add_eq_or_of_lt (by omega), add_comm]

theorem field16_htons (n : UInt16) :
    field16 (htons n) = [UInt8.ofNat (n.toNat / 256), UInt8.ofNat n.toNat] := by
  have hlt := n.toNat_lt
  rw [field16, htons_toNat]
  have hlow : UInt8.ofNat (n.toNat / 256 + 256 * (n.toNat % 256)) = UInt8.ofNat (n.toNat / 256) := by
    apply UInt8.toNat_inj.mp
    rw [UInt8.toNat_ofNat', UInt8.toNat_ofNat', Nat.add_mul_mod_self_left]
  have hhigh : UInt8.ofNat ((n.toNat / 256 + 256 * (n.toNat % 256)) / 256) = UInt8.ofNat n.toNat := by
    apply UInt8.toNat_inj.mp
    rw [UInt8.toNat_ofNat', UInt8.toNat_ofNat', Nat.add_mul_div_left _ _ (by decide),
      Nat.div_eq_of_lt (by omega : n.toNat / 256 < 256), zero_add]
    exact Nat.mod_mod _ _
  rw [littleEndian, littleEndian, hlow, hhigh, littleEndian]

theorem checksum_bytes {data : List UInt8} (hlength : data.length ≤ 65536) :
    ∃ high low folded,
      field16 (htons (~~~ (foldCarries (sumWords 0 data)).toUInt16)) = [high, low] ∧
        Folds 65536 (wordSum data) folded ∧
        256 * high.toNat + low.toNat = 65535 - folded := by
  have hle := wordSum_le data
  have hsum : (sumWords 0 data).toNat = wordSum data := by
    rw [sumWords_toNat data]
    · exact Nat.zero_add _
    · change 0 + wordSum data < _
      omega
  have hfolds := foldCarries_folds (sumWords 0 data)
  rw [hsum] at hfolds
  have hlt := hfolds.lt
  have hcomplement : (~~~ (foldCarries (sumWords 0 data)).toUInt16).toNat =
      65535 - (foldCarries (sumWords 0 data)).toNat := by
    rw [UInt16.toNat_not, UInt32.toNat_toUInt16, Nat.mod_eq_of_lt hlt]
    rfl
  refine ⟨_, _, _, field16_htons _, hfolds, ?_⟩
  rw [UInt8.toNat_ofNat', UInt8.toNat_ofNat', hcomplement]
  omega

/-! ## The IP header -/

/-- The IP header up to its checksum. -/
def Ip.front (ip : Ip) : List UInt8 :=
  [bitFields ip.ipHl ip.ipV, ip.ipTos] ++ field16 ip.ipLen ++ field16 ip.ipId ++
    field16 ip.ipOff ++ [ip.ipTtl, ip.ipP]

theorem Ip.bytes_eq (ip : Ip) :
    ip.bytes = ip.front ++ (field16 ip.ipSum ++ (field32 ip.ipSrc ++ field32 ip.ipDst)) := by
  simp only [bytes, front, List.append_assoc]

theorem ipOutput_eq {ipIdCounter : UInt16} {ifp primary : Option Interface} {m out : Packet}
    (hout : ipOutput ipIdCounter ifp primary m = some out) :
    out = ⟨{ m.ip.filled ipIdCounter with
      ipSum := ipChecksum (m.ip.filled ipIdCounter).bytes }, m.rest⟩ := by
  unfold ipOutput at hout
  split at hout
  · exact nomatch hout
  · exact (Option.some.inj hout).symm

theorem field16_zero : field16 0 = [0, 0] := by decide

theorem Ip.length_bytes (ip : Ip) : ip.bytes.length = 20 := rfl

theorem headerLength_bytes {m : Packet} (hversion : m.ip.ipV = 4) (hlength : m.ip.ipHl = 5) :
    headerLength m.bytes = 20 := by
  change 4 * ((bitFields m.ip.ipHl m.ip.ipV).toNat % 16) = 20
  rw [hversion, hlength]
  rfl

theorem ipOutput_ipVerifies {ipIdCounter : UInt16} {ifp primary : Option Interface}
    {m out : Packet} (hout : ipOutput ipIdCounter ifp primary m = some out) :
    IpVerifies out.bytes := by
  rw [ipOutput_eq hout]
  have hshort : (m.ip.filled ipIdCounter).bytes.length ≤ 65536 := by
    rw [Ip.length_bytes]
    decide
  obtain ⟨high, low, folded, hbytes, hfolds, hcomplement⟩ := checksum_bytes hshort
  rw [Ip.bytes_eq, show (m.ip.filled ipIdCounter).ipSum = 0 from rfl, field16_zero] at hfolds
  have hfront : (m.ip.filled ipIdCounter).front.length = 2 * 5 := rfl
  have hverifies := verifies_of_complement hfront hfolds hcomplement
  rw [IpVerifies, headerLength_bytes rfl rfl, Packet.bytes,
    List.take_append_of_le_length (by rw [Ip.length_bytes]), List.take_of_length_le
    (by rw [Ip.length_bytes]), Ip.bytes_eq, ipChecksum, UInt32.toUInt16_not, hbytes]
  exact hverifies

/-! ## The TCP segment -/

/-- The TCP header up to its checksum. -/
def Tcphdr.front (th : Tcphdr) : List UInt8 :=
  field16 th.thSport ++ field16 th.thDport ++ field32 th.thSeq ++ field32 th.thAck ++
    [bitFields th.thX2 th.thOff, th.thFlags] ++ field16 th.thWin

theorem Tcphdr.bytes_eq (th : Tcphdr) :
    th.bytes = th.front ++ (field16 th.thSum ++ field16 th.thUrp) := by
  simp only [bytes, front, List.append_assoc]

theorem htons_htons (n : UInt16) : htons (htons n) = n := by
  have hlt := n.toNat_lt
  apply UInt16.toNat_inj.mp
  rw [htons_toNat, htons_toNat]
  omega

theorem length_sentPayload (data : Option (ℕ → UInt8)) (len : ℤ) :
    (sentPayload data len).length ≤ maxTcpPayload := by
  unfold sentPayload
  cases data with
  | none => exact Nat.zero_le _
  | some data =>
      simp only [List.length_map, List.length_range]
      split <;> omega

theorem totalLength_bytes {m : Packet} {length : ℕ} (hlt : length < 65536)
    (hlength : m.ip.ipLen = htons (UInt16.ofNat length)) : totalLength m.bytes = length := by
  have hfield : field16 m.ip.ipLen = [UInt8.ofNat (length / 256), UInt8.ofNat length] := by
    rw [hlength, field16_htons, UInt16.toNat_ofNat', Nat.mod_eq_of_lt hlt]
  have hbytes : m.bytes =
      [bitFields m.ip.ipHl m.ip.ipV, m.ip.ipTos] ++ (field16 m.ip.ipLen ++ m.bytes.drop 4) := rfl
  rw [totalLength, hbytes, hfield]
  change 256 * (UInt8.ofNat (length / 256)).toNat + (UInt8.ofNat length).toNat = length
  rw [UInt8.toNat_ofNat', UInt8.toNat_ofNat']
  omega

section Segment

variable {so : TcpSocket} {flags : UInt8} {data : Option (ℕ → UInt8)} {len : ℤ}
  {primary : Option Interface} {tcpIpId ipIdCounter : UInt16}

theorem tcpLen_tcpIpHeader (length : ℕ) :
    tcpLen (tcpIpHeader so primary tcpIpId (20 + length)) = UInt16.ofNat length := by
  have hsub : UInt16.ofNat (20 + length) - 20 = UInt16.ofNat length := by
    rw [UInt16.ofNat_add]
    exact add_sub_cancel_left _ _
  unfold tcpLen
  change htons (htons (UInt16.ofNat (20 + length))) - 20 = _
  rw [htons_htons, hsub]

/-- The addresses, the protocol and the length, as `tcp_checksum` puts them into its buffer. -/
def tcpPseudo (ip : Ip) (length : ℕ) : List UInt8 :=
  field32 ip.ipSrc ++ field32 ip.ipDst ++ [0, ip.ipP] ++
    [UInt8.ofNat (length / 256), UInt8.ofNat length]

theorem tcpChecksum_eq {segment : List UInt8} (hlt : 20 + segment.length < 65536) {ip : Ip}
    (hip : ip = tcpIpHeader so primary tcpIpId (20 + segment.length)) :
    tcpChecksum ip (ip.bytes ++ segment) 20 =
      htons (~~~ (foldCarries
        (sumWords 0 (tcpPseudo ip segment.length ++ segment))).toUInt16) := by
  have hlen : tcpLen ip = UInt16.ofNat segment.length := by
    rw [hip]
    exact tcpLen_tcpIpHeader _
  have hnat : (UInt16.ofNat segment.length).toNat = segment.length := by
    rw [UInt16.toNat_ofNat', Nat.mod_eq_of_lt (by omega)]
  have hcopy : mCopydata (ip.bytes ++ segment) 20 segment.length = segment := by
    rw [mCopydata, List.drop_left' ip.length_bytes, List.take_length]
  have hproto : ip.ipP = protoTcp := by
    rw [hip]
    rfl
  have hlower : ∀ value : UInt16, (value &&& 0xFF).toUInt8 = UInt8.ofNat value.toNat := by
    intro value
    apply UInt8.toNat_inj.mp
    rw [UInt16.toNat_toUInt8, UInt16.toNat_and, UInt8.toNat_ofNat']
    change (value.toNat &&& (2 ^ 8 - 1)) % 2 ^ 8 = _
    rw [Nat.and_two_pow_sub_one_eq_mod, Nat.mod_mod]
  have hshift : (UInt16.ofNat segment.length >>> 8).toNat = segment.length / 256 := by
    rw [UInt16.toNat_shiftRight, hnat]
    exact Nat.shiftRight_eq_div_pow _ 8
  unfold tcpChecksum
  rw [hlen, hnat, hcopy, hlower, hlower, hshift, hnat, tcpPseudo, hproto]

theorem segmentOf_bytes {m : Packet} (hversion : m.ip.ipV = 4) (hheader : m.ip.ipHl = 5)
    (hlt : 20 + m.rest.length < 65536)
    (hlength : m.ip.ipLen = htons (UInt16.ofNat (20 + m.rest.length))) :
    segmentOf m.bytes = m.rest := by
  have hbytes : m.bytes.length = 20 + m.rest.length := by
    rw [Packet.bytes, List.length_append, Ip.length_bytes]
  rw [segmentOf, headerLength_bytes hversion hheader, totalLength_bytes hlt hlength,
    List.take_of_length_le hbytes.le, Packet.bytes, List.drop_left' m.ip.length_bytes]

theorem pseudoHeader_bytes {m : Packet} (hsegment : segmentOf m.bytes = m.rest) :
    pseudoHeader m.bytes = tcpPseudo m.ip m.rest.length := by
  rw [pseudoHeader, hsegment]
  rfl

theorem verifies_tcpChecksum {ip : Ip} {th : Tcphdr} {payload : List UInt8}
    (hsum : th.thSum = 0) (hpayload : payload.length ≤ maxTcpPayload)
    (hip : ip = tcpIpHeader so primary tcpIpId (20 + (20 + payload.length))) :
    Verifies (tcpPseudo ip (20 + payload.length) ++
      ({ th with thSum := tcpChecksum ip (ip.bytes ++ (th.bytes ++ payload)) 20 }.bytes ++
        payload)) := by
  have hmax : maxTcpPayload = 1752 := rfl
  have hsegment : (th.bytes ++ payload).length = 20 + payload.length := List.length_append
  have hchecksum : tcpChecksum ip (ip.bytes ++ (th.bytes ++ payload)) 20 = _ :=
    tcpChecksum_eq (by omega) (by rw [hsegment]; exact hip)
  rw [hsegment] at hchecksum
  have hshort : (tcpPseudo ip (20 + payload.length) ++ (th.bytes ++ payload)).length ≤ 65536 := by
    rw [List.length_append, hsegment]
    change 12 + _ ≤ _
    omega
  obtain ⟨high, low, folded, hbytes, hfolds, hcomplement⟩ := checksum_bytes hshort
  rw [← hchecksum] at hbytes
  have hlayout : ∀ sum : List UInt8,
      tcpPseudo ip (20 + payload.length) ++ (th.front ++ (sum ++ field16 th.thUrp) ++ payload) =
        tcpPseudo ip (20 + payload.length) ++ th.front ++ (sum ++ (field16 th.thUrp ++ payload)) := by
    intro sum
    simp only [List.append_assoc]
  have hfront : (tcpPseudo ip (20 + payload.length) ++ th.front).length = 2 * 14 := rfl
  rw [Tcphdr.bytes_eq, hsum, field16_zero, hlayout] at hfolds
  rw [Tcphdr.bytes_eq, hbytes]
  change Verifies (_ ++ (th.front ++ ([high, low] ++ field16 th.thUrp) ++ payload))
  rw [hlayout]
  exact verifies_of_complement hfront hfolds hcomplement

theorem tcpSendPacket_tcpVerifies {memory : Bool} {out : Packet}
    (hout : tcpSendPacket so flags data len primary tcpIpId ipIdCounter memory = some out) :
    TcpVerifies out.bytes := by
  cases memory with
  | false => exact nomatch hout
  | true =>
      have hpayload := length_sentPayload data len
      have hmax : maxTcpPayload = 1752 := rfl
      have hlength : (tcpPacket so flags data len primary tcpIpId).rest.length =
          20 + (sentPayload data len).length := List.length_append
      have heq := ipOutput_eq hout
      have hrest : out.rest = (tcpPacket so flags data len primary tcpIpId).rest := by rw [heq]
      have hsegment : segmentOf out.bytes = out.rest := by
        apply segmentOf_bytes
        · rw [heq]
          rfl
        · rw [heq]
          rfl
        · rw [hrest]
          omega
        · rw [hrest, hlength, heq]
          rfl
      have hpseudo : pseudoHeader out.bytes =
          tcpPseudo (tcpPacket so flags data len primary tcpIpId).ip
            (20 + (sentPayload data len).length) := by
        rw [pseudoHeader_bytes hsegment, hrest, hlength, heq]
        rfl
      rw [TcpVerifies, hsegment, hpseudo, hrest]
      exact verifies_tcpChecksum rfl hpayload rfl

theorem tcpSendPacket_ipVerifies {memory : Bool} {out : Packet}
    (hout : tcpSendPacket so flags data len primary tcpIpId ipIdCounter memory = some out) :
    IpVerifies out.bytes := by
  cases memory with
  | false => exact nomatch hout
  | true => exact ipOutput_ipVerifies hout

end Segment

/-- A segment that is sent verifies at the receiver, and so does the IP header of every packet,
whoever made it. -/
theorem sent_verifies (so : TcpSocket) (flags : UInt8) (data : Option (ℕ → UInt8)) (len : ℤ)
    (primary : Option Interface) (tcpIpId ipIdCounter : UInt16) (memory : Bool) :
    (∀ out, tcpSendPacket so flags data len primary tcpIpId ipIdCounter memory = some out →
        TcpVerifies out.bytes ∧ IpVerifies out.bytes) ∧
      ∀ ifp m out, ipOutput ipIdCounter ifp primary m = some out → IpVerifies out.bytes :=
  ⟨fun _ hout => ⟨tcpSendPacket_tcpVerifies hout, tcpSendPacket_ipVerifies hout⟩,
    fun _ _ _ hout => ipOutput_ipVerifies hout⟩

/-- An odd payload of one byte. -/
theorem sent_verifies_oneByte :
    ∃ out, tcpSendPacket (.zero 1) 0x18 (some fun _ => 65) 1 (some ⟨0x0F02000A, 0, 0, 0⟩) 0 0
        true = some out ∧ out.rest.length = 21 ∧ TcpVerifies out.bytes ∧ IpVerifies out.bytes :=
  ⟨_, rfl, rfl, (sent_verifies (.zero 1) 0x18 (some fun _ => 65) 1
    (some ⟨0x0F02000A, 0, 0, 0⟩) 0 0 true).1 _ rfl⟩

end EigenOS.Net
