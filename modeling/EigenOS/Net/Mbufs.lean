import Mathlib.Data.UInt

/-!
# Network buffers

Every `m_get` is one more try of `kmalloc`, and the number of the try names the mbuf it
makes.  The state of the network stack carries a record of what has been allocated, released
and handed to a driver.
-/

namespace EigenOS.Net

/-- A hardware address. -/
abbrev Mac := BitVec 48

def broadcastMac : Mac := BitVec.allOnes 48

inductive EtherType where
  | ip
  | arp
  deriving DecidableEq

inductive ArpOp where
  | request
  | reply
  | other
  deriving DecidableEq

/-- `struct ether_arp`. -/
structure EtherArp where
  op : ArpOp
  sha : Mac
  spa : UInt32
  tha : Mac
  tpa : UInt32
  deriving DecidableEq

/-- `struct arp_entry`. -/
structure ArpEntry where
  ip : UInt32
  mac : Mac
  valid : Bool
  isStatic : Bool
  deriving DecidableEq

/-- A packet that waits for the hardware address of its next hop. -/
structure Pending where
  dst : UInt32
  m : ℕ
  deriving DecidableEq

/-- A packet that `if_output` is given. -/
structure Transmission where
  m : ℕ
  dst : Mac
  type : EtherType
  deriving DecidableEq

/-- What the network code uses of an interface. -/
structure Interface where
  ifIp : UInt32
  ifNetmask : UInt32
  ifGateway : UInt32
  ifHwaddr : Mac

def arpCacheSize : ℕ := 16
def arpPendingMax : ℕ := 4

/-- `arp_cache` and `arp_pending`, the tries of `kmalloc` so far and which of all tries
succeed, and the record of allocations, releases and transmissions.  `arpData` is what was
written into mbufs as ARP packets. -/
structure NetWorld where
  cache : Fin arpCacheSize → ArpEntry
  pending : List Pending
  memory : ℕ → Bool
  attempts : ℕ
  allocated : List ℕ
  freed : List ℕ
  sent : List Transmission
  arpData : ℕ → Option EtherArp

namespace NetWorld

variable (world : NetWorld)

/-- `m_get`, and `m_gethdr`. -/
def mGet : Option ℕ × NetWorld :=
  if world.memory world.attempts then
    (some world.attempts,
      { world with
        attempts := world.attempts + 1
        allocated := world.allocated ++ [world.attempts] })
  else (none, { world with attempts := world.attempts + 1 })

/-- `m_free`, and `m_freem` of a single mbuf. -/
def mFree (m : ℕ) : NetWorld := { world with freed := world.freed ++ [m] }

/-- `m_getcl`: the cluster is one more try. -/
def mGetcl : Option ℕ × NetWorld :=
  match world.mGet with
  | (none, world) => (none, world)
  | (some m, world) =>
      let tried := { world with attempts := world.attempts + 1 }
      if world.memory world.attempts then (some m, tried) else (none, tried.mFree m)

/-- `if_output`: every driver releases the chain that it is given, the header and the packet,
whether or not it could send it. -/
def ifOutput (header m : ℕ) (dst : Mac) (type : EtherType) : NetWorld :=
  (({ world with sent := world.sent ++ [⟨m, dst, type⟩] } : NetWorld).mFree header).mFree m

/-- `ether_output`.  No caller uses its result. -/
def etherOutput (m : ℕ) (dst : Mac) (type : EtherType) : NetWorld :=
  match world.mGet with
  | (none, world) => world.mFree m
  | (some header, world) => world.ifOutput header m dst type

/-- An ARP packet is written into an mbuf. -/
def writeArp (m : ℕ) (arp : EtherArp) : NetWorld :=
  { world with arpData := Function.update world.arpData m (some arp) }

end NetWorld

end EigenOS.Net
