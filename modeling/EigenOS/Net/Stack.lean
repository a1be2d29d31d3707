import EigenOS.Net.Tcp
import EigenOS.Net.ArpResolution

/-!
# The mbufs of the network stack

Every function of the stack that is given an mbuf or makes one, with what it does with it.
The contents of packets are left out but for what decides where they go.  Each packet that is
received and each call is one step.
-/

namespace EigenOS.Net

inductive IcmpType where
  | echo
  | echoReply
  | other

/-- What `ip_input` makes of a packet.  A TCP segment comes with the socket that it finds
and the address the socket is connected to. -/
inductive IpPacket where
  | invalid
  | tcp (so : Option (Socket × UInt32)) (segment : TcpSegment)
  | icmp (type : IcmpType) (src : UInt32)
  | udp (short : Bool)
  | other

/-- What a driver makes of a received frame; `refused` has a length that it does not take. -/
inductive Incoming where
  | refused
  | short
  | other
  | arp (packet : Option EtherArp)
  | ip (packet : IpPacket)

def Interface.nextHop (ifp : Interface) (dst : UInt32) : UInt32 :=
  if ifp.ifNetmask ≠ 0 ∧ dst &&& ifp.ifNetmask ≠ ifp.ifIp &&& ifp.ifNetmask ∧
    ifp.ifGateway ≠ 0 then ifp.ifGateway
  else dst

namespace NetWorld

variable (world : NetWorld)

/-! ## Sending -/

/-- `ip_output`.  Without an interface it takes `if_find_primary`. -/
def ipOutput (m : ℕ) (ifp primary : Option Interface) (dst : UInt32) : ℤ × NetWorld :=
  match ifp.or primary with
  | none => (-1, world.mFree m)
  | some ifp => world.arpResolve ifp m (ifp.nextHop dst)

/-- `udp_output`. -/
def udpOutput (primary : Option Interface) (dst : UInt32) : ℤ × NetWorld :=
  match primary with
  | none => (-1, world)
  | some ifp =>
      match world.mGetcl with
      | (none, world) => (-1, world)
      | (some m, world) => world.ipOutput m (some ifp) primary dst

/-- `tcp_send_packet`. -/
def tcpSendPacket (primary : Option Interface) (dst : UInt32) : ℤ × NetWorld :=
  match world.mGetcl with
  | (none, world) => (-1, world)
  | (some m, world) => world.ipOutput m primary primary dst

/-- `sys_ping` up to the point where it waits.  Its interface is the first that runs and has
an address. -/
def sysPing (ifp primary : Option Interface) (dst : UInt32) : ℤ × NetWorld :=
  match ifp with
  | none => (-1, world)
  | some ifp =>
      match world.mGetcl with
      | (none, world) => (-1, world)
      | (some m, world) =>
          let (ret, world) := world.ipOutput m (some ifp) primary dst
          (if ret ≠ 0 then -1 else 0, world)

/-- `dhcp_send`: the packet is made in an mbuf of its own and copied by `udp_output`. -/
def dhcpSend (primary : Option Interface) : ℤ × NetWorld :=
  match world.mGetcl with
  | (none, world) => (-1, world)
  | (some _, world) => world.udpOutput primary inaddrBroadcast

/-! ## Receiving -/

/-- An acknowledgement under a condition. -/
def ackIf (condition : Bool) (primary : Option Interface) (dst : UInt32) : NetWorld :=
  if condition then (world.tcpSendPacket primary dst).2 else world

/-- `tcp_input`. -/
def tcpInput (m : ℕ) (primary : Option Interface) (so : Option (Socket × UInt32))
    (segment : TcpSegment) : NetWorld :=
  match so with
  | none => world.mFree m
  | some (so, remote) =>
      if segment.rst then world.mFree m
      else
        let world := world.ackIf (segment.syn && segment.ack && so.soState ≠ .closed) primary remote
        let world := world.ackIf
          (0 < segment.data.length && (so.handshake segment).soState = .established) primary remote
        let world := world.ackIf segment.fin primary remote
        world.mFree m

/-- `icmp_input`: an echo request becomes the reply, and goes back in the same mbuf. -/
def icmpInput (m : ℕ) (primary : Option Interface) (type : IcmpType) (src : UInt32) : NetWorld :=
  match type with
  | .echo => (world.ipOutput m none primary src).2
  | .echoReply => world.mFree m
  | .other => world.mFree m

/-- `udp_input`. -/
def udpInput (m : ℕ) (short : Bool) : NetWorld :=
  if short then world.mFree m else world.mFree m

/-- `ip_input`. -/
def ipInput (m : ℕ) (primary : Option Interface) (packet : IpPacket) : NetWorld :=
  match packet with
  | .invalid => world.mFree m
  | .tcp so segment => world.tcpInput m primary so segment
  | .icmp type src => world.icmpInput m primary type src
  | .udp short => world.udpInput m short
  | .other => world.mFree m

/-- `ether_input`, as a driver calls it with a frame that it takes. -/
def etherInput (m : ℕ) (ifp : Interface) (primary : Option Interface) (frame : Incoming) :
    NetWorld :=
  match frame with
  | .refused => world.mFree m
  | .short => world.mFree m
  | .other => world.mFree m
  | .arp packet => world.arpInput ifp m packet
  | .ip packet => world.ipInput m primary packet

def driverPoll (ifp : Interface) (primary : Option Interface) (frame : Incoming) : NetWorld :=
  match world.mGetcl with
  | (none, world) => world
  | (some m, world) => world.etherInput m ifp primary frame

end NetWorld

/-- What enters the stack, from a system call, the kernel or the wire. -/
inductive StackEvent where
  | udp (primary : Option Interface) (dst : UInt32)
  | tcp (primary : Option Interface) (dst : UInt32)
  | ping (ifp primary : Option Interface) (dst : UInt32)
  | dhcp (primary : Option Interface)
  | receive (ifp : Interface) (primary : Option Interface) (frame : Incoming)

def NetWorld.stackNext (world : NetWorld) : StackEvent → NetWorld
  | .udp primary dst => (world.udpOutput primary dst).2
  | .tcp primary dst => (world.tcpSendPacket primary dst).2
  | .ping ifp primary dst => (world.sysPing ifp primary dst).2
  | .dhcp primary => (world.dhcpSend primary).2
  | .receive ifp primary frame => world.driverPoll ifp primary frame

end EigenOS.Net

/-!
## Every mbuf has one owner

Running code owes the mbufs that it holds: each is released, or left with the packets that
wait for an address, and neither happens twice.  Only `dhcp_send` leaves with an mbuf.
-/

namespace EigenOS.Net

open EigenOS.Transition

namespace NetWorld

/-- The mbufs that wait for an address. -/
def queued (world : NetWorld) : List ℕ := world.pending.map Pending.m

/-- Each mbuf that was allocated has been released, waits for an address, or is one of those
that running code holds, and is one of these once. -/
structure Owes (world : NetWorld) (hands : List ℕ) : Prop where
  named : ∀ m ∈ world.allocated, m < world.attempts
  nodup : world.allocated.Nodup
  once : ∀ m, world.freed.count m + world.queued.count m + hands.count m =
    world.allocated.count m

/-- Between the calls nothing is held. -/
def Settled (world : NetWorld) : Prop := world.Owes []

/-- Not a DHCP packet for which an mbuf can be had. -/
def Returns (world : NetWorld) (event : StackEvent) (_ : NetWorld) : Prop :=
  match event with
  | .dhcp _ => ¬ (world.Available 0 ∧ world.Available 1)
  | _ => True

variable {world : NetWorld} {hands : List ℕ} {m : ℕ}

/-! ## Mbufs -/

theorem Owes.perm (howes : world.Owes hands) {hands' : List ℕ} (hperm : hands.Perm hands') :
    world.Owes hands' := by
  refine ⟨howes.named, howes.nodup, ?_⟩
  intro m
  rw [← hperm.count_eq m]
  exact howes.once m

theorem Owes.congr (howes : world.Owes hands) {next : NetWorld}
    (hallocated : next.allocated = world.allocated) (hfreed : next.freed = world.freed)
    (hqueued : next.queued = world.queued) (hattempts : world.attempts ≤ next.attempts) :
    next.Owes hands := by
  constructor
  · intro m hm
    exact (howes.named m (hallocated ▸ hm)).trans_le hattempts
  · exact hallocated.symm ▸ howes.nodup
  · rw [hallocated, hfreed, hqueued]
    exact howes.once

theorem Owes.mFree (howes : world.Owes (m :: hands)) : (world.mFree m).Owes hands := by
  refine ⟨howes.named, howes.nodup, ?_⟩
  intro k
  have hk := howes.once k
  change (world.freed ++ [m]).count k + world.queued.count k + hands.count k =
    world.allocated.count k
  rw [List.count_append, List.count_singleton]
  rw [List.count_cons] at hk
  omega

theorem Owes.mGet_new (howes : world.Owes hands) :
    ({ world with
      attempts := world.attempts + 1
      allocated := world.allocated ++ [world.attempts] } : NetWorld).Owes
      (world.attempts :: hands) := by
  constructor
  · intro k hk
    rcases List.mem_append.mp hk with hold | hnew
    · exact Nat.lt_succ_of_lt (howes.named k hold)
    · rw [List.mem_singleton.mp hnew]
      exact Nat.lt_succ_self _
  · apply List.Nodup.append howes.nodup (List.nodup_singleton _)
    rw [List.disjoint_singleton]
    exact fun hmem => absurd (howes.named _ hmem) (lt_irrefl _)
  · intro k
    have hk := howes.once k
    change world.freed.count k + world.queued.count k + (world.attempts :: hands).count k =
      (world.allocated ++ [world.attempts]).count k
    rw [List.count_append, List.count_singleton, List.count_cons]
    omega

theorem Owes.attempt (howes : world.Owes hands) :
    ({ world with attempts := world.attempts + 1 } : NetWorld).Owes hands :=
  howes.congr rfl rfl rfl (Nat.le_succ _)

theorem Owes.mGet_some (howes : world.Owes hands) {made : NetWorld}
    (h : world.mGet = (some m, made)) : made.Owes (m :: hands) := by
  by_cases havailable : world.Available 0
  · rw [mGet_of_available world havailable] at h
    cases h
    exact howes.mGet_new
  · rw [mGet_of_not_available world havailable] at h
    exact nomatch congrArg Prod.fst h

theorem Owes.mGet_none (howes : world.Owes hands) {made : NetWorld}
    (h : world.mGet = (none, made)) : made.Owes hands := by
  by_cases havailable : world.Available 0
  · rw [mGet_of_available world havailable] at h
    exact nomatch congrArg Prod.fst h
  · rw [mGet_of_not_available world havailable] at h
    cases h
    exact howes.attempt

theorem Owes.mGetcl_some (howes : world.Owes hands) {made : NetWorld}
    (h : world.mGetcl = (some m, made)) : made.Owes (m :: hands) := by
  unfold mGetcl at h
  split at h
  · exact nomatch congrArg Prod.fst h
  · next k got hgot =>
      dsimp only at h
      split at h
      · cases h
        exact (howes.mGet_some hgot).attempt
      · exact nomatch congrArg Prod.fst h

theorem Owes.mGetcl_none (howes : world.Owes hands) {made : NetWorld}
    (h : world.mGetcl = (none, made)) : made.Owes hands := by
  unfold mGetcl at h
  split at h
  · next got hgot =>
      cases h
      exact howes.mGet_none hgot
  · next k got hgot =>
      dsimp only at h
      split at h
      · exact nomatch congrArg Prod.fst h
      · cases h
        exact (howes.mGet_some hgot).attempt.mFree

/-! ## Sending -/

theorem Owes.etherOutput (howes : world.Owes (m :: hands)) (dst : Mac) (type : EtherType) :
    (world.etherOutput m dst type).Owes hands := by
  unfold NetWorld.etherOutput
  split
  · next got hgot => exact (howes.mGet_none hgot).mFree
  · next header got hgot =>
      have hsent : ({ got with sent := got.sent ++ [⟨m, dst, type⟩] } : NetWorld).Owes
          (header :: m :: hands) := (howes.mGet_some hgot).congr rfl rfl rfl (le_refl _)
      exact hsent.mFree.mFree

theorem Owes.writeArp (howes : world.Owes hands) (am : ℕ) (arp : EtherArp) :
    (world.writeArp am arp).Owes hands :=
  howes.congr rfl rfl rfl (le_refl _)

theorem Owes.queue (howes : world.Owes (m :: hands)) (dst : UInt32) :
    ({ world with pending := world.pending ++ [⟨dst, m⟩] } : NetWorld).Owes hands := by
  refine ⟨howes.named, howes.nodup, ?_⟩
  intro k
  have hk := howes.once k
  have hqueued : (world.pending ++ [(⟨dst, m⟩ : Pending)]).map Pending.m =
      world.queued ++ [m] := by
    rw [List.map_append, List.map_singleton, queued]
  change world.freed.count k +
    ((world.pending ++ [(⟨dst, m⟩ : Pending)]).map Pending.m).count k + hands.count k =
      world.allocated.count k
  rw [hqueued, List.count_append, List.count_singleton]
  rw [List.count_cons] at hk
  omega

theorem Owes.arpAsk (howes : world.Owes (m :: hands)) (ifp : Interface) (dst : UInt32) :
    (world.arpAsk ifp m dst).2.Owes hands := by
  unfold NetWorld.arpAsk
  dsimp only
  split
  · next got hgot => exact (howes.queue dst).mGet_none hgot
  · next am got hgot =>
      exact (((howes.queue dst).mGet_some hgot).writeArp am _).etherOutput broadcastMac .arp

theorem Owes.arpResolve (howes : world.Owes (m :: hands)) (ifp : Interface) (dst : UInt32) :
    (world.arpResolve ifp m dst).2.Owes hands := by
  unfold NetWorld.arpResolve
  split
  · exact howes.etherOutput _ _
  · split
    · exact howes.mFree
    · split
      · exact howes.etherOutput _ _
      · split
        · exact howes.mFree
        · exact howes.arpAsk ifp dst

theorem Owes.ipOutput (howes : world.Owes (m :: hands)) (ifp primary : Option Interface)
    (dst : UInt32) : (world.ipOutput m ifp primary dst).2.Owes hands := by
  unfold NetWorld.ipOutput
  split
  · exact howes.mFree
  · exact howes.arpResolve _ _

theorem Owes.udpOutput (howes : world.Owes hands) (primary : Option Interface) (dst : UInt32) :
    (world.udpOutput primary dst).2.Owes hands := by
  unfold NetWorld.udpOutput
  split
  · exact howes
  · split
    · next hgot => exact howes.mGetcl_none hgot
    · next hgot => exact (howes.mGetcl_some hgot).ipOutput _ _ _

theorem Owes.tcpSendPacket (howes : world.Owes hands) (primary : Option Interface)
    (dst : UInt32) : (world.tcpSendPacket primary dst).2.Owes hands := by
  unfold NetWorld.tcpSendPacket
  split
  · next hgot => exact howes.mGetcl_none hgot
  · next hgot => exact (howes.mGetcl_some hgot).ipOutput _ _ _

theorem Owes.sysPing (howes : world.Owes hands) (ifp primary : Option Interface)
    (dst : UInt32) : (world.sysPing ifp primary dst).2.Owes hands := by
  unfold NetWorld.sysPing
  split
  · exact howes
  · split
    · next hgot => exact howes.mGetcl_none hgot
    · next hgot => exact (howes.mGetcl_some hgot).ipOutput _ _ _

/-! ## Receiving -/

theorem Owes.arpFlush (ip : UInt32) (mac : Mac) (entries : List Pending) {world : NetWorld}
    {hands : List ℕ} (howes : world.Owes (entries.map Pending.m ++ hands)) :
    (arpFlush ip mac entries world).2.Owes
      ((arpFlush ip mac entries world).1.map Pending.m ++ hands) := by
  induction entries generalizing world hands with
  | nil => exact howes
  | cons entry rest ih =>
      unfold NetWorld.arpFlush
      by_cases hdst : entry.dst = ip
      · rw [if_pos hdst]
        exact ih (howes.etherOutput mac .ip)
      · rw [if_neg hdst]
        have hrest : world.Owes (rest.map Pending.m ++ entry.m :: hands) :=
          howes.perm (List.perm_middle).symm
        exact (ih hrest).perm List.perm_middle

theorem Owes.take (howes : world.Owes hands) :
    ({ world with pending := [] } : NetWorld).Owes (world.pending.map Pending.m ++ hands) := by
  refine ⟨howes.named, howes.nodup, ?_⟩
  intro k
  have hk := howes.once k
  change world.freed.count k + ([] : List ℕ).count k +
    (world.queued ++ hands).count k = world.allocated.count k
  rw [List.count_nil, List.count_append]
  omega

theorem Owes.put {entries : List Pending} (howes : world.Owes (entries.map Pending.m ++ hands))
    (hpending : world.pending = []) :
    ({ world with pending := entries } : NetWorld).Owes hands := by
  refine ⟨howes.named, howes.nodup, ?_⟩
  intro k
  have hk := howes.once k
  have hempty : world.queued = [] := by
    rw [queued, hpending, List.map_nil]
  rw [hempty, List.count_nil, List.count_append] at hk
  change world.freed.count k + (entries.map Pending.m).count k + hands.count k =
    world.allocated.count k
  omega

theorem Owes.arpLearn (howes : world.Owes hands) (ip : UInt32) (mac : Mac) :
    (world.arpLearn ip mac).Owes hands := by
  unfold NetWorld.arpLearn
  split
  · exact howes
  · split
    · exact howes
    · exact howes.congr rfl rfl rfl (le_refl _)

theorem Owes.arpReply (howes : world.Owes (m :: hands)) (arp : EtherArp) :
    (world.arpReply m arp).Owes hands := by
  have hflushed := (howes.arpLearn arp.spa arp.sha).take.arpFlush arp.spa arp.sha _
  obtain ⟨_, _, hpending, _⟩ := arpFlush_eq arp.spa arp.sha
    (world.arpLearn arp.spa arp.sha).pending
    { world.arpLearn arp.spa arp.sha with pending := [] }
  exact (hflushed.put hpending).mFree

theorem Owes.arpRequest (howes : world.Owes (m :: hands)) (ifp : Interface) (arp : EtherArp) :
    (world.arpRequest ifp m arp).Owes hands := by
  have hlearned := howes.arpLearn arp.spa arp.sha
  unfold NetWorld.arpRequest
  dsimp only
  split
  · split
    · next hgot => exact (hlearned.mGet_none hgot).mFree
    · next am got hgot =>
        exact (((hlearned.mGet_some hgot).writeArp am _).etherOutput arp.sha .arp).mFree
  · exact hlearned.mFree

theorem Owes.arpInput (howes : world.Owes (m :: hands)) (ifp : Interface)
    (packet : Option EtherArp) : (world.arpInput ifp m packet).Owes hands := by
  unfold NetWorld.arpInput
  split
  · exact howes.mFree
  · split
    · exact howes.arpReply _
    · exact howes.arpRequest ifp _
    · exact howes.mFree

theorem Owes.ackIf (howes : world.Owes hands) (condition : Bool) (primary : Option Interface)
    (dst : UInt32) : (world.ackIf condition primary dst).Owes hands := by
  unfold NetWorld.ackIf
  split
  · exact howes.tcpSendPacket primary dst
  · exact howes

theorem Owes.tcpInput (howes : world.Owes (m :: hands)) (primary : Option Interface)
    (so : Option (Socket × UInt32)) (segment : TcpSegment) :
    (world.tcpInput m primary so segment).Owes hands := by
  unfold NetWorld.tcpInput
  split
  · exact howes.mFree
  · split
    · exact howes.mFree
    · exact (((howes.ackIf _ _ _).ackIf _ _ _).ackIf _ _ _).mFree

theorem Owes.icmpInput (howes : world.Owes (m :: hands)) (primary : Option Interface)
    (type : IcmpType) (src : UInt32) : (world.icmpInput m primary type src).Owes hands := by
  cases type with
  | echo => exact howes.ipOutput none primary src
  | echoReply => exact howes.mFree
  | other => exact howes.mFree

theorem Owes.ipInput (howes : world.Owes (m :: hands)) (primary : Option Interface)
    (packet : IpPacket) : (world.ipInput m primary packet).Owes hands := by
  cases packet with
  | invalid => exact howes.mFree
  | tcp so segment => exact howes.tcpInput primary so segment
  | icmp type src => exact howes.icmpInput primary type src
  | udp short =>
      cases short with
      | true => exact howes.mFree
      | false => exact howes.mFree
  | other => exact howes.mFree

theorem Owes.etherInput (howes : world.Owes (m :: hands)) (ifp : Interface)
    (primary : Option Interface) (frame : Incoming) :
    (world.etherInput m ifp primary frame).Owes hands := by
  cases frame with
  | refused => exact howes.mFree
  | short => exact howes.mFree
  | other => exact howes.mFree
  | arp packet => exact howes.arpInput ifp packet
  | ip packet => exact howes.ipInput primary packet

theorem Owes.driverPoll (howes : world.Owes hands) (ifp : Interface)
    (primary : Option Interface) (frame : Incoming) :
    (world.driverPoll ifp primary frame).Owes hands := by
  unfold NetWorld.driverPoll
  split
  · next hgot => exact howes.mGetcl_none hgot
  · next hgot => exact (howes.mGetcl_some hgot).etherInput ifp primary frame

/-! ## Runs -/

theorem mGetcl_eq_some_iff :
    (∃ m made, world.mGetcl = (some m, made)) ↔ world.Available 0 ∧ world.Available 1 := by
  unfold mGetcl
  by_cases hfirst : world.Available 0
  · rw [mGet_of_available world hfirst]
    change (∃ m made, (if world.Available 1 then _ else _ : Option ℕ × NetWorld) = _) ↔ _
    by_cases hsecond : world.Available 1
    · rw [if_pos hsecond]
      exact ⟨fun _ => ⟨hfirst, hsecond⟩, fun _ => ⟨_, _, rfl⟩⟩
    · rw [if_neg hsecond]
      constructor
      · rintro ⟨_, _, h⟩
        exact nomatch congrArg Prod.fst h
      · exact fun h => absurd h.2 hsecond
  · rw [mGet_of_not_available world hfirst]
    constructor
    · rintro ⟨_, _, h⟩
      exact nomatch congrArg Prod.fst h
    · exact fun h => absurd h.1 hfirst

theorem Owes.not_settled (howes : world.Owes [m]) : ¬ world.Settled := by
  intro hsettled
  have hheld := howes.once m
  have hnone := hsettled.once m
  rw [List.count_singleton_self] at hheld
  rw [List.count_nil] at hnone
  omega

/-- `dhcp_send` keeps its own mbuf. -/
theorem Settled.dhcpSend_iff (hsettled : world.Settled) (primary : Option Interface) :
    (world.dhcpSend primary).2.Settled ↔ ¬ (world.Available 0 ∧ world.Available 1) := by
  rw [← mGetcl_eq_some_iff]
  unfold NetWorld.dhcpSend
  split
  · next made hgot =>
      constructor
      · rintro _ ⟨_, _, h⟩
        rw [hgot] at h
        exact nomatch congrArg Prod.fst h
      · exact fun _ => Owes.mGetcl_none hsettled hgot
  · next m made hgot =>
      have hkept := (Owes.mGetcl_some hsettled hgot).udpOutput primary inaddrBroadcast
      exact ⟨fun h => absurd h hkept.not_settled, fun h => absurd ⟨m, made, hgot⟩ h⟩

theorem Settled.stackNext_iff (hsettled : world.Settled) (event : StackEvent) :
    (world.stackNext event).Settled ↔ world.Returns event (world.stackNext event) := by
  cases event with
  | udp primary dst => exact iff_of_true (Owes.udpOutput hsettled primary dst) trivial
  | tcp primary dst => exact iff_of_true (Owes.tcpSendPacket hsettled primary dst) trivial
  | ping ifp primary dst => exact iff_of_true (Owes.sysPing hsettled ifp primary dst) trivial
  | dhcp primary => exact hsettled.dhcpSend_iff primary
  | receive ifp primary frame =>
      exact iff_of_true (Owes.driverPoll hsettled ifp primary frame) trivial

theorem settled_boot (memory : ℕ → Bool) : (boot memory).Settled :=
  ⟨nofun, List.nodup_nil, fun _ => rfl⟩

/-- All mbufs have one owner always, if and only if no mbuf is had for a DHCP packet. -/
theorem settled_iff (memory : ℕ → Bool) (events : List StackEvent) :
    Always Settled (boot memory) (trace stackNext (boot memory) events) ↔
      Along Returns (boot memory) (trace stackNext (boot memory) events) :=
  always_trace_iff stackNext (fun _ event hsettled => hsettled.stackNext_iff event)
    (settled_boot memory) events

/-- The mbuf in which the first DISCOVER was made is lost. -/
theorem not_settled_discover :
    ¬ Always Settled (boot fun _ => true)
      (trace stackNext (boot fun _ => true) [.dhcp (some hostInterface)]) := by
  rintro ⟨_, hsettled⟩
  have hlost := hsettled.once 0
  exact absurd hlost (by decide)

end NetWorld

end EigenOS.Net
