import EigenOS.Net.Mbufs

/-!
# Address resolution

`arp_input` and `arp_resolve`.
-/

namespace EigenOS.Net

namespace NetWorld

variable (world : NetWorld)

/-- The entry for an address. -/
def arpFind (ip : UInt32) : Option (Fin arpCacheSize) :=
  Fin.find? fun i => (world.cache i).valid && (world.cache i).ip == ip

/-- `arp_find_or_alloc`. -/
def arpFindOrAlloc (ip : UInt32) : Option (Fin arpCacheSize) :=
  match world.arpFind ip with
  | some i => some i
  | none => Fin.find? fun i => !(world.cache i).valid

/-- `arp_input` learns an address. -/
def arpLearn (ip : UInt32) (mac : Mac) : NetWorld :=
  match world.arpFindOrAlloc ip with
  | none => world
  | some i =>
      if (world.cache i).isStatic then world
      else
        { world with
          cache := Function.update world.cache i
            { world.cache i with ip := ip, mac := mac, valid := true } }

/-- The loop of `arp_input` over the packets that wait: those for the address are sent, and
the others are kept. -/
def arpFlush (ip : UInt32) (mac : Mac) : List Pending → NetWorld → List Pending × NetWorld
  | [], world => ([], world)
  | entry :: rest, world =>
      if entry.dst = ip then arpFlush ip mac rest (world.etherOutput entry.m mac .ip)
      else
        let (kept, world) := arpFlush ip mac rest world
        (entry :: kept, world)

/-- `arp_input`, of a reply. -/
def arpReply (m : ℕ) (arp : EtherArp) : NetWorld :=
  let learned := world.arpLearn arp.spa arp.sha
  let (kept, flushed) := arpFlush arp.spa arp.sha learned.pending { learned with pending := [] }
  ({ flushed with pending := kept } : NetWorld).mFree m

/-- `arp_input`, of a request. -/
def arpRequest (ifp : Interface) (m : ℕ) (arp : EtherArp) : NetWorld :=
  let learned := world.arpLearn arp.spa arp.sha
  if arp.tpa = ifp.ifIp then
    match learned.mGet with
    | (none, world) => world.mFree m
    | (some am, world) =>
        ((world.writeArp am ⟨.reply, ifp.ifHwaddr, ifp.ifIp, arp.sha, arp.spa⟩).etherOutput am
          arp.sha .arp).mFree m
  else learned.mFree m

/-- `arp_input`.  A packet that is too short is `none`. -/
def arpInput (ifp : Interface) (m : ℕ) (packet : Option EtherArp) : NetWorld :=
  match packet with
  | none => world.mFree m
  | some arp =>
      match arp.op with
      | .reply => world.arpReply m arp
      | .request => world.arpRequest ifp m arp
      | .other => world.mFree m

end NetWorld

/-- The broadcast address of the subnet. -/
def Interface.broadcast (ifp : Interface) : UInt32 :=
  (ifp.ifIp &&& ifp.ifNetmask) ||| ~~~ ifp.ifNetmask

def inaddrBroadcast : UInt32 := 0xffffffff

/-- The destinations that `arp_resolve` sends to everyone. -/
def Interface.Broadcasts (ifp : Interface) (dst : UInt32) : Prop :=
  dst = inaddrBroadcast ∨ (ifp.ifNetmask ≠ 0 ∧ dst = ifp.broadcast)

instance (ifp : Interface) (dst : UInt32) : Decidable (ifp.Broadcasts dst) :=
  inferInstanceAs (Decidable (_ ∨ _))

namespace NetWorld

variable (world : NetWorld)

/-- The end of `arp_resolve`: the packet waits, and a request goes out. -/
def arpAsk (ifp : Interface) (m : ℕ) (dst : UInt32) : ℤ × NetWorld :=
  let queued : NetWorld := { world with pending := world.pending ++ [⟨dst, m⟩] }
  match queued.mGet with
  | (none, world) => (-1, world)
  | (some am, world) =>
      (0, (world.writeArp am ⟨.request, ifp.ifHwaddr, ifp.ifIp, 0, dst⟩).etherOutput am
        broadcastMac .arp)

/-- `arp_resolve`. -/
def arpResolve (ifp : Interface) (m : ℕ) (dst : UInt32) : ℤ × NetWorld :=
  if ifp.Broadcasts dst then (0, world.etherOutput m broadcastMac .ip)
  else if world.pending.any fun entry => entry.dst == dst then (-1, world.mFree m)
  else
    match world.arpFind dst with
    | some i => (0, world.etherOutput m (world.cache i).mac .ip)
    | none =>
        if arpPendingMax ≤ world.pending.length then (-1, world.mFree m)
        else world.arpAsk ifp m dst

end NetWorld

end EigenOS.Net
