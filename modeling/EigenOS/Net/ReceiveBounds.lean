import EigenOS.Net.Receive

/-!
# Bounds on the receive path

The Ethernet, ARP and IP headers are compared with the length of the frame before they are
read; the headers and lengths behind the IP header are not.  A frame is handled within its
bounds exactly when they happen to fit.
-/

namespace EigenOS.Net

open EigenOS.BufferAccess

/-! ## Header fields -/

namespace Frame

variable (f : Frame)

def ipVersion : ℕ := (f.bytes 14).toNat / 16

/-- The header length that the IP header states. -/
def ipHlen : ℕ := (f.bytes 14).toNat % 16 * 4

def ipLen : ℕ := f.half 16

def protocol : ℕ := (f.bytes 23).toNat

/-- Where the protocol over IP starts. -/
def payload : ℕ := etherHdrLen + f.ipHlen

def tcpFlags : UInt8 := f.bytes (f.payload + 13)

def tcpHeader : ℕ := (f.bytes (f.payload + 12)).toNat / 16 * 4

def udpLen : ℕ := f.half (f.payload + 4)

def icmpType : ℕ := (f.bytes f.payload).toNat

end Frame

/-- The socket that a segment for a port goes to. -/
def socketFor (sockets : List (Option TcpPort)) (port : ℕ) : Option TcpPort :=
  (sockets.filterMap id).find? fun so => so.port = port

/-! ## The condition -/

/-- With a socket around, the port is within the frame; when a socket is found the flags
are, and a payload for an established connection ends where the frame does or before. -/
def TcpFits (f : Frame) (net : NetState) : Prop :=
  (∃ so, some so ∈ net.sockets) → f.payload + 4 ≤ f.length ∧
    ∀ so, socketFor net.sockets (f.half (f.payload + 2)) = some so →
      f.payload + 14 ≤ f.length ∧
        (hasFlag f.tcpFlags tcpRst = false → f.ipHlen + f.tcpHeader < f.ipLen →
          stateAfter so f.tcpFlags = .established → etherHdrLen + f.ipLen ≤ f.length)

/-- The fields that are read are within the frame, and so is the part of the payload that
is kept. -/
def UdpFits (f : Frame) : Prop :=
  f.payload + 6 ≤ f.length ∧
    (udpSize ≤ f.udpLen →
      min (f.udpLen - udpSize) 1500 ≤ f.length - (f.payload + udpSize))

/-- The length of an echo request is within the frame, and so is the header of a reply. -/
def IcmpFits (f : Frame) : Prop :=
  f.payload + 1 ≤ f.length ∧
    (f.icmpType = icmpEcho →
      f.ipHlen ≤ f.ipLen ∧ etherHdrLen + f.ipLen ≤ f.length) ∧
    (f.icmpType = icmpEchoreply → f.payload + 8 ≤ f.length)

/-- The IP header ends within the frame, and what follows fits. -/
def IpFits (f : Frame) (net : NetState) : Prop :=
  (f.protocol = ipprotoTcp → f.payload ≤ f.length ∧ TcpFits f net) ∧
    (f.protocol = ipprotoIcmp → f.payload ≤ f.length ∧ IcmpFits f) ∧
    (f.protocol = ipprotoUdp → f.payload ≤ f.length ∧ UdpFits f)

def FrameFits (f : Frame) (net : NetState) : Prop :=
  etherHdrLen + ipSize ≤ f.length → f.half 12 = ethertypeIp → f.ipVersion = 4 →
    ipSize ≤ f.ipHlen → IpFits f net

/-! ## Reading one field -/

section Fields

variable {f : Frame} {length : ℕ} {α : Type} (offset : ℕ)

theorem safe_readByte_bind (rest : UInt8 → Reader α) :
    (readByte f offset >>= rest).Safe length ↔
      offset + 1 ≤ length ∧ (rest (f.bytes offset)).Safe length :=
  (Reader.safe_bind _ _).trans (and_congr_left' (Reader.safe_range_succ offset 0 _))

theorem safe_readHalf_bind (rest : ℕ → Reader α) :
    (readHalf f offset >>= rest).Safe length ↔
      offset + 2 ≤ length ∧ (rest (f.half offset)).Safe length :=
  (Reader.safe_bind _ _).trans (and_congr_left' (Reader.safe_range_succ offset 1 _))

theorem safe_readWord_bind (rest : ℕ → Reader α) :
    (readWord f offset >>= rest).Safe length ↔
      offset + 4 ≤ length ∧ (rest (f.word offset)).Safe length :=
  (Reader.safe_bind _ _).trans (and_congr_left' (Reader.safe_range_succ offset 3 _))

/-- A `memcpy` that is not empty. -/
theorem safe_readBytes_bind (count : ℕ) (rest : List UInt8 → Reader α) :
    (readBytes f offset (count + 1) >>= rest).Safe length ↔
      offset + (count + 1) ≤ length ∧
        (rest (readBytes f offset (count + 1)).value).Safe length :=
  (Reader.safe_bind _ _).trans (and_congr_left' (Reader.safe_range_succ offset count _))

theorem safe_useBytes_bind (count : ℤ) (rest : List UInt8 → Reader α) :
    (useBytes f offset count >>= rest).Safe f.length ↔
      (0 ≤ count ∧ count ≤ f.remaining offset) ∧
        (rest (useBytes f offset count).value).Safe f.length := by
  refine (Reader.safe_bind _ _).trans (and_congr_left' ?_)
  unfold useBytes readBytes
  rw [Reader.safe_bind, Reader.safe_pass, Reader.safe_range_iff]
  refine ⟨And.left, fun hcount => ⟨hcount, ?_⟩⟩
  unfold Frame.remaining at hcount
  omega

end Fields

/-! ## Protocols over IP -/

section Protocols

variable (f : Frame) (net : NetState) (len : ℤ)

theorem payload_sub : f.payload - f.ipHlen = 14 := Nat.add_sub_cancel _ _

theorem socketFor_cons (so : TcpPort) (rest : List (Option TcpPort)) (port : ℕ) :
    socketFor (some so :: rest) port =
      if so.port = port then some so else socketFor rest port := by
  have hfilter : (some so :: rest).filterMap id = so :: rest.filterMap id := rfl
  unfold socketFor
  rw [hfilter, List.find?_cons]
  by_cases h : so.port = port
  · rw [if_pos h, decide_eq_true h]
  · rw [if_neg h, decide_eq_false h]

theorem mem_of_socketFor {sockets : List (Option TcpPort)} {port : ℕ} {so : TcpPort}
    (h : socketFor sockets port = some so) : some so ∈ sockets := by
  obtain ⟨found, hmem, heq⟩ := List.mem_filterMap.mp (List.mem_of_find?_eq_some h)
  exact heq ▸ hmem

theorem value_findSocket (sockets : List (Option TcpPort)) :
    (findSocket f ⟨f.payload, len⟩ sockets).value =
      socketFor sockets (f.half (f.payload + 2)) := by
  induction sockets with
  | nil => rfl
  | cons first rest ih =>
      cases first with
      | none => exact ih
      | some so =>
          rw [socketFor_cons]
          unfold findSocket
          rw [Reader.value_bind]
          change (if so.port = f.half (f.payload + 2) then _ else _ : Reader _).value = _
          by_cases h : so.port = f.half (f.payload + 2)
          · rw [if_pos h, if_pos h]
            rfl
          · rw [if_neg h, if_neg h]
            exact ih

theorem safe_findSocket (sockets : List (Option TcpPort)) :
    (findSocket f ⟨f.payload, len⟩ sockets).Safe f.length ↔
      ((∃ so, some so ∈ sockets) → f.payload + 4 ≤ f.length) := by
  induction sockets with
  | nil => exact iff_of_true ((Reader.safe_pure _).mpr trivial) fun h => nomatch h.choose_spec
  | cons first rest ih =>
      cases first with
      | none =>
          refine Iff.trans ih (imp_congr_left ?_)
          simp only [List.mem_cons, reduceCtorEq, false_or]
      | some so =>
          have hexists : ∃ other, some other ∈ some so :: rest := ⟨so, List.mem_cons_self⟩
          unfold findSocket
          rw [safe_readHalf_bind]
          refine ⟨fun h _ => h.1, fun h => ⟨h hexists, ?_⟩⟩
          split
          · exact (Reader.safe_pure _).mpr trivial
          · exact ih.mpr fun _ => h hexists

theorem dataLen_within :
    (0 < (f.ipLen : ℤ) - f.ipHlen - f.tcpHeader →
      (f.ipLen : ℤ) - f.ipHlen - f.tcpHeader ≤ f.remaining (f.payload + f.tcpHeader)) ↔
    (f.ipHlen + f.tcpHeader < f.ipLen → etherHdrLen + f.ipLen ≤ f.length) := by
  unfold Frame.remaining Frame.payload
  omega

theorem safe_tcpPayload (hframe : etherHdrLen + ipSize ≤ f.length)
    (hheader : f.payload + 14 ≤ f.length) (so : TcpPort) (flags : UInt8) :
    (tcpPayload f ⟨f.payload, len⟩ f.ipHlen so flags).Safe f.length ↔
      (f.ipHlen + f.tcpHeader < f.ipLen → stateAfter so flags = .established →
        etherHdrLen + f.ipLen ≤ f.length) := by
  have hip : 14 + 2 + 2 ≤ f.length ∧ 14 + 1 ≤ f.length := by
    unfold etherHdrLen ipSize at hframe
    omega
  have hsafe : (tcpPayload f ⟨f.payload, len⟩ f.ipHlen so flags).Safe f.length ↔
      (0 < (f.ipLen : ℤ) - f.ipHlen - f.tcpHeader ∧ stateAfter so flags = .established →
        (f.ipLen : ℤ) - f.ipHlen - f.tcpHeader ≤ f.remaining (f.payload + f.tcpHeader)) := by
    unfold tcpPayload
    simp only [payload_sub, safe_readByte_bind, safe_readHalf_bind, Reader.safe_ite,
      safe_readWord_bind, safe_useBytes_bind, Reader.safe_pure, implies_true, and_true]
    constructor
    · exact fun h hdata => (h.2.2.2 hdata).2.2
    · refine fun h => ⟨hip.1, hip.2, by omega, fun hdata => ⟨by omega, ?_, h hdata⟩⟩
      exact le_of_lt hdata.1
  rw [hsafe, and_comm, and_imp, imp_congr_right fun _ => dataLen_within f]
  exact ⟨fun h hdata hstate => h hstate hdata, fun h hstate hdata => h hdata hstate⟩

theorem safe_tcpHandshake (hheader : f.payload + 14 ≤ f.length) (so : TcpPort)
    (flags : UInt8) : (tcpHandshake f ⟨f.payload, len⟩ so flags).Safe f.length := by
  unfold tcpHandshake
  simp only [safe_readWord_bind, Reader.safe_ite, Reader.safe_pure, implies_true, and_true]
  exact fun _ => ⟨by omega, by omega⟩

theorem safe_tcpSegment (hframe : etherHdrLen + ipSize ≤ f.length) (so : TcpPort) :
    (tcpSegment f ⟨f.payload, len⟩ f.ipHlen so).Safe f.length ↔
      f.payload + 14 ≤ f.length ∧
        (hasFlag f.tcpFlags tcpRst = false → f.ipHlen + f.tcpHeader < f.ipLen →
          stateAfter so f.tcpFlags = .established → etherHdrLen + f.ipLen ≤ f.length) := by
  unfold tcpSegment
  rw [safe_readByte_bind]
  refine and_congr_right fun hflags => ?_
  have hheader : f.payload + 14 ≤ f.length := hflags
  rw [Reader.safe_ite, Reader.safe_bind (tcpHandshake f _ so _), safe_readHalf_bind,
    safe_readWord_bind, safe_tcpPayload f len hframe hheader, Bool.not_eq_true]
  constructor
  · exact fun h hrst => (h.2 hrst).2.2
  · refine fun h => ⟨fun _ => ⟨?_, (Reader.safe_pure _).mpr trivial⟩, fun hrst => ⟨?_, ?_, h hrst⟩⟩
    · dsimp only
      omega
    · exact safe_tcpHandshake f len hheader so _
    · dsimp only
      omega

theorem safe_tcpInputReads (hframe : etherHdrLen + ipSize ≤ f.length) :
    (tcpInputReads f net ⟨f.payload, len⟩ f.ipHlen).Safe f.length ↔ TcpFits f net := by
  unfold tcpInputReads TcpFits
  rw [Reader.safe_bind, safe_findSocket, value_findSocket]
  cases hfound : socketFor net.sockets (f.half (f.payload + 2)) with
  | none =>
      refine ⟨fun h hexists => ⟨h.1 hexists, fun so hso => (nomatch hso)⟩, fun h => ?_⟩
      exact ⟨fun hexists => (h hexists).1, (Reader.safe_pure _).mpr trivial⟩
  | some so =>
      have hexists : ∃ so, some so ∈ net.sockets := ⟨so, mem_of_socketFor hfound⟩
      have hsegment := safe_tcpSegment f len hframe so
      constructor
      · rintro ⟨hport, hsafe⟩ -
        refine ⟨hport hexists, ?_⟩
        rintro _ ⟨⟩
        exact hsegment.mp hsafe
      · intro h
        exact ⟨fun hexists => (h hexists).1, hsegment.mpr ((h hexists).2 so rfl)⟩

theorem safe_udpInput (hframe : etherHdrLen + ipSize ≤ f.length) :
    (udpInput f ⟨f.payload, len⟩ f.ipHlen).Safe f.length ↔ UdpFits f := by
  have hsrc : 14 + 12 + 4 ≤ f.length := by
    unfold etherHdrLen ipSize at hframe
    omega
  unfold udpInput UdpFits
  simp only [payload_sub, safe_readHalf_bind, Reader.safe_ite, safe_readWord_bind,
    safe_useBytes_bind, Reader.safe_pure, implies_true, and_true, true_and]
  change _ ∧ _ ∧ _ ∧ (¬ f.udpLen < udpSize → _ ∧ _ ∧
    ((if f.udpLen - udpSize < 1500 then f.udpLen - udpSize else 1500 : ℕ) : ℤ) ≤
      (f.length - (f.payload + udpSize) : ℕ)) ↔ _
  have hmin : (if f.udpLen - udpSize < 1500 then f.udpLen - udpSize else 1500) =
      min (f.udpLen - udpSize) 1500 := by
    split <;> omega
  rw [hmin]
  omega

theorem safe_icmpInput (hframe : etherHdrLen + ipSize ≤ f.length)
    (hpayload : f.payload ≤ f.length) :
    (icmpInput f ⟨f.payload, len⟩ f.ipHlen).Safe f.length ↔ IcmpFits f := by
  have hip : 14 + 2 + 2 ≤ f.length ∧ 14 + 12 + 4 ≤ f.length ∧ 14 + 16 + 4 ≤ f.length := by
    unfold etherHdrLen ipSize at hframe
    omega
  have hlen : (0 ≤ (f.ipLen : ℤ) - f.ipHlen ∧
      (f.ipLen : ℤ) - f.ipHlen ≤ f.remaining f.payload) ↔
        f.ipHlen ≤ f.ipLen ∧ etherHdrLen + f.ipLen ≤ f.length := by
    unfold Frame.remaining Frame.payload at *
    omega
  unfold icmpInput IcmpFits
  simp only [payload_sub, safe_readByte_bind, safe_readHalf_bind, Reader.safe_ite,
    safe_readWord_bind, safe_useBytes_bind, Reader.safe_pure, implies_true, and_true]
  constructor
  · rintro ⟨-, htype, hecho, hreply⟩
    refine ⟨htype, fun h => hlen.mp (hecho h).1, fun h => ?_⟩
    have hne : ¬ f.icmpType = icmpEcho := by
      rw [h]
      decide
    exact (hreply hne h).2.2
  · rintro ⟨htype, hecho, hreply⟩
    refine ⟨hip.1, htype, fun h => ⟨hlen.mpr (hecho h), hip.2⟩, fun _ h => ?_⟩
    have hend := hreply h
    exact ⟨hip.2.1, by omega, hend⟩

/-! ## The whole path -/

theorem safe_handOn {input : Mbuf → ℕ → Reader Unit} {fits : Prop}
    (hinput : f.payload ≤ f.length →
      ((input ⟨f.payload, f.length - etherHdrLen - f.ipHlen⟩ f.ipHlen).Safe f.length ↔ fits)) :
    (handOn f ⟨etherHdrLen, f.length - etherHdrLen⟩ f.ipHlen input).Safe f.length ↔
      f.payload ≤ f.length ∧ fits := by
  unfold handOn
  rw [Reader.safe_bind, Reader.safe_pass, Reader.safe_bind, Reader.safe_pass]
  have hlen : ((0 ≤ (f.ipHlen : ℤ) ∧ (f.ipHlen : ℤ) ≤ f.remaining etherHdrLen) ∧
      0 ≤ (f.length : ℤ) - etherHdrLen - f.ipHlen ∧
        (f.length : ℤ) - etherHdrLen - f.ipHlen ≤ f.remaining f.payload) ↔
      f.payload ≤ f.length := by
    unfold Frame.remaining Frame.payload
    omega
  constructor
  · rintro ⟨hhlen, hm, hrest⟩
    have hpayload := hlen.mp ⟨hhlen, hm⟩
    exact ⟨hpayload, (hinput hpayload).mp hrest⟩
  · rintro ⟨hpayload, hfits⟩
    obtain ⟨hhlen, hm⟩ := hlen.mpr hpayload
    exact ⟨hhlen, hm, (hinput hpayload).mpr hfits⟩

theorem safe_ipInput :
    (ipInput f net ⟨etherHdrLen, f.length - etherHdrLen⟩).Safe f.length ↔
      (etherHdrLen + ipSize ≤ f.length → f.ipVersion = 4 → ipSize ≤ f.ipHlen →
        IpFits f net) := by
  unfold ipInput
  simp only [Reader.safe_ite, Reader.safe_pure, implies_true, true_and, and_true,
    safe_readByte_bind]
  by_cases hframe : etherHdrLen + ipSize ≤ f.length
  · have hlong : ¬ (f.length : ℤ) - etherHdrLen < ipSize := by omega
    have hread : etherHdrLen + 1 ≤ f.length ∧ etherHdrLen + 9 + 1 ≤ f.length := by
      unfold etherHdrLen ipSize at *
      omega
    have htcp := safe_handOn f fun _ => safe_tcpInputReads f net _ hframe
    have hicmp := safe_handOn f fun hpayload => safe_icmpInput f _ hframe hpayload
    have hudp := safe_handOn f fun _ => safe_udpInput f _ hframe
    constructor
    · intro h _ hversion hhlen
      obtain ⟨_, hip⟩ := h hlong
      obtain ⟨_, hproto⟩ := hip (not_not.mpr hversion)
      obtain ⟨_, hfirst, hrest⟩ := hproto (not_lt.mpr hhlen)
      refine ⟨fun hp => htcp.mp (hfirst hp), fun hp => ?_, fun hp => ?_⟩
      · have hne : f.protocol ≠ ipprotoTcp := by
          rw [hp]
          decide
        exact hicmp.mp ((hrest hne).1 hp)
      · have hne : f.protocol ≠ ipprotoTcp ∧ f.protocol ≠ ipprotoIcmp := by
          rw [hp]
          decide
        exact hudp.mp ((hrest hne.1).2 hne.2 hp)
    · intro h _
      refine ⟨hread.1, fun hversion => ⟨hread.1, fun hhlen => ⟨hread.2, ?_⟩⟩⟩
      obtain ⟨hfirst, hsecond, hthird⟩ := h hframe (not_not.mp hversion) (not_lt.mp hhlen)
      exact ⟨fun hp => htcp.mpr (hfirst hp), fun _ =>
        ⟨fun hp => hicmp.mpr (hsecond hp), fun _ hp => hudp.mpr (hthird hp)⟩⟩
  · have hshort : (f.length : ℤ) - etherHdrLen < ipSize := by omega
    exact iff_of_true (fun h => absurd hshort h) fun h => absurd h hframe

theorem safe_arpInput :
    (arpInput f net ⟨etherHdrLen, f.length - etherHdrLen⟩).Safe f.length := by
  unfold arpInput
  rw [Reader.safe_ite]
  refine ⟨fun _ => (Reader.safe_pure _).mpr trivial, fun hlong => ?_⟩
  have hframe : 42 ≤ f.length := by
    unfold etherHdrLen etherArpSize at hlong
    dsimp only at hlong
    omega
  unfold etherHdrLen
  simp only [safe_readHalf_bind, safe_readWord_bind, safe_readBytes_bind, Reader.safe_ite,
    Reader.safe_pure, implies_true, and_true]
  have hanswer : 14 + 24 + (3 + 1) ≤ f.length ∧
      ((readBytes f (14 + 24) (3 + 1)).value = net.ifIp ∧ net.mbufFree = true →
        14 + 8 + (5 + 1) ≤ f.length ∧ 14 + 14 + (3 + 1) ≤ f.length ∧
          14 + 8 + (5 + 1) ≤ f.length) :=
    ⟨by omega, fun _ => ⟨by omega, by omega, by omega⟩⟩
  refine ⟨by omega, fun _ => ⟨by omega, by omega, by omega⟩, fun _ _ => ?_⟩
  exact ⟨by omega, by omega, fun _ => ⟨by omega, hanswer⟩, fun _ => hanswer⟩

/-- A frame is handled within its bounds exactly when what its headers say fits. -/
theorem safe_etherInput_iff :
    (etherInput f net).Safe f.length ↔ FrameFits f net := by
  unfold etherInput FrameFits
  simp only [Reader.safe_ite, Reader.safe_pure, implies_true, true_and, and_true,
    safe_readHalf_bind]
  constructor
  · intro h hframe htype
    have hether : ¬ f.length < etherHdrLen := by omega
    exact (safe_ipInput f net).mp ((h hether).2.1 htype) hframe
  · intro h hether
    have hread : 12 + 2 ≤ f.length := not_lt.mp hether
    refine ⟨hread, fun htype => (safe_ipInput f net).mpr fun hframe => h hframe htype, ?_⟩
    exact fun _ _ => safe_arpInput f net

end Protocols

/-- A UDP packet whose length field says 100 in a frame that ends with the UDP header. -/
def shortUdp : Frame where
  bytes offset :=
    if offset = 12 then 0x08
    else if offset = 14 then 0x45
    else if offset = 23 then 17
    else if offset = 39 then 100
    else 0
  length := 42
  length_le := by decide

/-- No sockets and an empty ARP cache. -/
def idleNet : NetState where
  sockets := []
  ifIp := [10, 0, 2, 15]
  arpCacheTakes _ := true
  mbufFree := true

theorem shortUdp_not_safe : ¬ (etherInput shortUdp idleNet).Safe shortUdp.length := by
  intro h
  have hcopy := h (.hand 92 0) (by decide)
  exact absurd hcopy.2 (by decide)

end EigenOS.Net
