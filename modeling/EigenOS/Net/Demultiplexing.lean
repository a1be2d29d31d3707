import EigenOS.Net.ByteOrder
import EigenOS.Net.TcpDelivery

/-!
# The table of sockets

`tcp_input` finds the socket of a segment by its local port alone, and `sys_connect` takes
the next port in turn.  Segments reach the socket they belong to, and no two connections to
one peer share a local port, exactly in the runs where both happen to be enough.
-/

namespace EigenOS.Net

open EigenOS.Transition Function

def maxSockets : ℕ := 32

/-- `struct socket`.  Ports and addresses are in network byte order. -/
structure TcpSocket where
  soType : ℤ
  localPort : UInt16
  remotePort : UInt16
  remoteAddr : UInt32
  control : Socket

/-- A TCP segment in its IP packet.  The length of the payload comes from `ip_len`. -/
structure Received where
  src : UInt32
  sport : UInt16
  dport : UInt16
  segment : TcpSegment
  length : segment.data.length < 65536

/-- `sockets` and `next_ephemeral`. -/
structure SocketTable where
  sockets : Fin maxSockets → Option TcpSocket
  nextEphemeral : UInt16

def TcpSocket.zero (type : ℤ) : TcpSocket where
  soType := type
  localPort := 0
  remotePort := 0
  remoteAddr := 0
  control := ⟨.closed, [], 0, 0, 0, 0, false⟩

/-- The socket has been connected to a peer. -/
def TcpSocket.Bound (so : TcpSocket) : Prop := so.control.soState ≠ .closed

instance (so : TcpSocket) : Decidable so.Bound := inferInstanceAs (Decidable (_ ≠ _))

namespace SocketTable

variable (table : SocketTable)

def set (i : Fin maxSockets) (so : Option TcpSocket) : SocketTable :=
  { table with sockets := update table.sockets i so }

/-- The socket that a call names. -/
def slot (s : ℤ) : Option (Fin maxSockets) :=
  if h : 0 ≤ s ∧ s < maxSockets then some ⟨s.toNat, by omega⟩ else none

/-- A socket is changed, if it exists. -/
def modify (i : Fin maxSockets) (change : TcpSocket → TcpSocket) : SocketTable :=
  match table.sockets i with
  | none => table
  | some so => table.set i (some (change so))

/-- The first socket with a local port. -/
def find (dport : UInt16) : Option (Fin maxSockets) :=
  Fin.find? fun i =>
    match table.sockets i with
    | none => false
    | some so => htons so.localPort == htons dport

/-- `tcp_input`. -/
def tcpInput (received : Received) : SocketTable :=
  match table.find received.dport with
  | none => table
  | some i =>
      table.modify i fun so => { so with control := Net.tcpInput so.control received.segment }

/-- `sys_socket`. -/
def sysSocket (type : ℤ) : SocketTable :=
  match Fin.find? fun i => (table.sockets i).isNone with
  | none => table
  | some i => table.set i (some (TcpSocket.zero type))

/-- `next_ephemeral` after a port was taken.  `htons` has advanced it twice. -/
def nextPort (port : UInt16) : UInt16 := if 40000 ≤ port + 2 then 20000 else port + 2

/-- What `sys_connect` makes of a socket; `sent` says whether the SYN went out. -/
def connecting (addr : UInt32) (port : UInt16) (sent : Bool) (so : TcpSocket) : TcpSocket :=
  { so with
    remoteAddr := addr
    remotePort := port
    localPort := htonsNext table.nextEphemeral
    control := { so.control with
      soState := .synSent
      soSeq := if sent then 1001 else 1000
      soAck := 0 } }

/-- `sys_connect` up to the point where it waits. -/
def sysConnect (s : ℤ) (addr : UInt32) (port : UInt16) (sent : Bool) : SocketTable :=
  match slot s with
  | none => table
  | some i =>
      match table.sockets i with
      | none => table
      | some so =>
          { table.set i (some (table.connecting addr port sent so)) with
            nextEphemeral := nextPort table.nextEphemeral }

def control (s : ℤ) (change : Socket → Socket) : SocketTable :=
  match slot s with
  | none => table
  | some i => table.modify i fun so => { so with control := change so.control }

/-- `sys_socket_close`. -/
def sysSocketClose (s : ℤ) : SocketTable :=
  match slot s with
  | none => table
  | some i => table.set i none

end SocketTable

/-- What happens to the table.  A `seq` is what `sys_connect` sets when it sends its SYN
again, and `sys_send` when its data is acknowledged. -/
inductive SocketEvent where
  | socket (type : ℤ)
  | connect (s : ℤ) (addr : UInt32) (port : UInt16) (sent : Bool)
  | seq (s : ℤ) (seq : UInt32)
  | recv (s : ℤ) (len : UInt32)
  | close (s : ℤ)
  | segment (received : Received)

def SocketTable.next (table : SocketTable) : SocketEvent → SocketTable
  | .socket type => table.sysSocket type
  | .connect s addr port sent => table.sysConnect s addr port sent
  | .seq s seq => table.control s fun so => { so with soSeq := seq }
  | .recv s len => table.control s fun so => (sysRecv so len).1
  | .close s => table.sysSocketClose s
  | .segment received => table.tcpInput received

def SocketTable.initial : SocketTable := ⟨fun _ => none, 20000⟩

/-! ## What a segment may change -/

/-- The segment comes from the peer of the socket, and goes to its port. -/
def TcpSocket.Matches (so : TcpSocket) (received : Received) : Prop :=
  so.localPort = received.dport ∧ so.remotePort = received.sport ∧
    (so.Bound → so.remoteAddr = received.src)

def Socket.Ignores (so : Socket) (segment : TcpSegment) : Prop :=
  if segment.rst then so.soClosed = true
  else
    ¬ (segment.syn ∧ segment.ack ∧ so.soState = .synSent) ∧
      ¬ so.soUna < segment.ackNumber ∧
      ¬ (0 < segment.data.length ∧ so.soState = .established) ∧
      segment.fin = false

/-- A segment changes a socket only if it belongs to it. -/
def DeliversToPeer (table : SocketTable) (event : SocketEvent) (next : SocketTable) : Prop :=
  ∀ received, event = .segment received →
    ∀ i so, table.sockets i = some so → next.sockets i ≠ some so → so.Matches received

section Peers

variable {Peer : Type*} (peer : UInt32 → UInt16 → Peer)

/-- The peer and the local port of a socket that is connected.  What counts as one peer is
given by `peer`: the address, or the address and the port. -/
def TcpSocket.key (so : TcpSocket) : Option (Peer × UInt16) :=
  if so.Bound then some (peer so.remoteAddr so.remotePort, so.localPort) else none

def SocketTable.key (table : SocketTable) (i : Fin maxSockets) : Option (Peer × UInt16) :=
  (table.sockets i).bind (TcpSocket.key peer)

/-- No two connections to one peer share a local port. -/
def DistinctPorts (table : SocketTable) : Prop :=
  ∀ i j key, table.key peer i = some key → table.key peer j = some key → i = j

/-- A connection finds its port unused for its peer, and the first socket with the port of a
segment is the one it belongs to, or has no use for it. -/
def Separate (table : SocketTable) (event : SocketEvent) (_ : SocketTable) : Prop :=
  match event with
  | .connect s addr port _ =>
      ∀ i so, SocketTable.slot s = some i → table.sockets i = some so →
        ∀ j, j ≠ i → table.key peer j ≠ some (peer addr port, htonsNext table.nextEphemeral)
  | .segment received =>
      ∀ i so, table.find received.dport = some i → table.sockets i = some so →
        so.Matches received ∨ so.control.Ignores received.segment
  | _ => True

end Peers

/-! ## What a segment changes in its socket -/

section Segment

variable {so : Socket} {segment : TcpSegment}

theorem handshake_soState_eq_closed :
    (so.handshake segment).soState = .closed ↔ so.soState = .closed := by
  unfold Socket.handshake
  by_cases hsyn : segment.syn ∧ segment.ack ∧ so.soState = .synSent
  · rw [if_pos hsyn, hsyn.2.2]
    exact ⟨nofun, nofun⟩
  · rw [if_neg hsyn]

theorem tcpInput_soState_eq_closed :
    (tcpInput so segment).soState = .closed ↔ so.soState = .closed := by
  unfold tcpInput
  by_cases hrst : segment.rst = true
  · rw [if_pos hrst]
  · rw [if_neg hrst, finish_soState, payload_soState, trackAck_soState,
      handshake_soState_eq_closed]

theorem payload_soRcvTotal_ne (hlength : segment.data.length < 65536)
    (hdata : 0 < segment.data.length) (hestablished : so.soState = .established) :
    (so.payload segment).soRcvTotal ≠ so.soRcvTotal := by
  unfold Socket.payload
  rw [if_pos ⟨hdata, hestablished⟩]
  intro htotal
  have hzero : UInt64.ofNat segment.data.length = 0 := by
    simpa using htotal
  have hnat := congrArg UInt64.toNat hzero
  rw [UInt64.toNat_ofNat', Nat.mod_eq_of_lt (by omega)] at hnat
  exact absurd hnat hdata.ne'

theorem payload_soUna : (so.payload segment).soUna = so.soUna := by
  unfold Socket.payload
  split <;> rfl

theorem finish_soUna : (so.finish segment).soUna = so.soUna := by
  unfold Socket.finish
  split <;> rfl

theorem finish_soRcvTotal : (so.finish segment).soRcvTotal = so.soRcvTotal := by
  unfold Socket.finish
  split <;> rfl

/-- A segment leaves a socket as it is if and only if it has nothing for it. -/
theorem tcpInput_eq_self_iff (hlength : segment.data.length < 65536) :
    tcpInput so segment = so ↔ so.Ignores segment := by
  unfold tcpInput Socket.Ignores
  by_cases hrst : segment.rst = true
  · rw [if_pos hrst, if_pos hrst]
    constructor
    · intro heq
      exact (congrArg Socket.soClosed heq).symm
    · intro hclosed
      rw [← hclosed]
  · rw [if_neg hrst, if_neg hrst]
    constructor
    · intro heq
      have hstate : (so.handshake segment).soState = so.soState := by
        have h := congrArg Socket.soState heq
        rwa [finish_soState, payload_soState, trackAck_soState] at h
      have hsyn : ¬ (segment.syn ∧ segment.ack ∧ so.soState = .synSent) := by
        intro hsyn
        unfold Socket.handshake at hstate
        rw [if_pos hsyn, hsyn.2.2] at hstate
        exact nomatch hstate
      rw [Socket.handshake, if_neg hsyn] at heq
      have hack : ¬ so.soUna < segment.ackNumber := by
        intro hack
        have h := congrArg Socket.soUna heq
        rw [finish_soUna, payload_soUna, Socket.trackAck, if_pos hack] at h
        change segment.ackNumber = so.soUna at h
        rw [h] at hack
        exact absurd hack (UInt32.lt_irrefl _)
      rw [Socket.trackAck, if_neg hack] at heq
      have hdata : ¬ (0 < segment.data.length ∧ so.soState = .established) := by
        intro hdata
        have h := congrArg Socket.soRcvTotal heq
        rw [finish_soRcvTotal] at h
        exact payload_soRcvTotal_ne hlength hdata.1 hdata.2 h
      rw [Socket.payload, if_neg hdata] at heq
      refine ⟨hsyn, hack, hdata, ?_⟩
      cases hfin : segment.fin with
      | false => rfl
      | true =>
          have h := congrArg Socket.soAck heq
          rw [finish_soAck, hfin, if_pos rfl] at h
          exact absurd (UInt32.add_eq_left.mp h) (by decide)
    · rintro ⟨hsyn, hack, hdata, hfin⟩
      rw [Socket.handshake, if_neg hsyn, Socket.trackAck, if_neg hack, Socket.payload,
        if_neg hdata, Socket.finish, hfin]
      rfl

end Segment

/-! ## Keys -/

section PartialMaps

variable {Index Key : Type*} [DecidableEq Index] {keys : Index → Option Key}

/-- A map that gives no two indices the same key keeps doing so where one key is taken away. -/
theorem distinct_update_none
    (hdistinct : ∀ i j key, keys i = some key → keys j = some key → i = j) (at' : Index) :
    ∀ i j key, update keys at' none i = some key →
      update keys at' none j = some key → i = j := by
  have hkept : ∀ i key, update keys at' none i = some key → keys i = some key := by
    intro i key hi
    by_cases hat : i = at'
    · rw [hat, update_self] at hi
      exact nomatch hi
    · rwa [update_of_ne hat] at hi
  intro i j key hi hj
  exact hdistinct i j key (hkept i key hi) (hkept j key hj)

theorem distinct_update_some_iff
    (hdistinct : ∀ i j key, keys i = some key → keys j = some key → i = j) (at' : Index)
    (new : Key) :
    (∀ i j key, update keys at' (some new) i = some key →
      update keys at' (some new) j = some key → i = j) ↔
      ∀ j, j ≠ at' → keys j ≠ some new := by
  constructor
  · intro hafter j hj hnew
    apply hj
    apply hafter j at' new
    · rw [update_of_ne hj, hnew]
    · rw [update_self]
  · intro hunused i j key hi hj
    by_cases hiat : i = at'
    · by_cases hjat : j = at'
      · rw [hiat, hjat]
      · rw [hiat, update_self] at hi
        rw [update_of_ne hjat, ← hi] at hj
        exact absurd hj (hunused j hjat)
    · rw [update_of_ne hiat] at hi
      by_cases hjat : j = at'
      · rw [hjat, update_self] at hj
        rw [← hj] at hi
        exact absurd hi (hunused i hiat)
      · rw [update_of_ne hjat] at hj
        exact hdistinct i j key hi hj

end PartialMaps

namespace SocketTable

variable {Peer : Type*} {peer : UInt32 → UInt16 → Peer} (table : SocketTable)

theorem key_set (i : Fin maxSockets) (so : Option TcpSocket) :
    (table.set i so).key peer =
      update (table.key peer) i (so.bind (TcpSocket.key peer)) := by
  funext j
  change (update table.sockets i so j).bind (TcpSocket.key peer) = _
  by_cases hj : j = i
  · rw [hj, update_self, update_self]
  · rw [update_of_ne hj, update_of_ne hj, key]

theorem key_modify (i : Fin maxSockets) {change : TcpSocket → TcpSocket}
    (hchange : ∀ so, (change so).key peer = so.key peer) :
    (table.modify i change).key peer = table.key peer := by
  unfold modify
  split
  · rfl
  · next so hso =>
      have hkey : table.key peer i = so.key peer := by
        rw [key, hso, Option.bind_some]
      rw [key_set, Option.bind_some, hchange, ← hkey, update_eq_self]

theorem key_control_eq (so : TcpSocket) {control : Socket}
    (hclosed : control.soState = .closed ↔ so.control.soState = .closed) :
    ({ so with control := control } : TcpSocket).key peer = so.key peer :=
  if_congr (not_congr hclosed) rfl rfl

theorem key_control (s : ℤ) {change : Socket → Socket}
    (hchange : ∀ so, (change so).soState = so.soState) :
    (table.control s change).key peer = table.key peer := by
  unfold control
  split
  · rfl
  · apply key_modify
    intro so
    apply key_control_eq
    rw [hchange]

theorem key_tcpInput (received : Received) :
    (table.tcpInput received).key peer = table.key peer := by
  unfold tcpInput
  split
  · rfl
  · apply key_modify
    intro so
    exact key_control_eq so tcpInput_soState_eq_closed

theorem key_sysSocket (type : ℤ) : (table.sysSocket type).key peer = table.key peer := by
  unfold sysSocket
  split
  · rfl
  · next i hi =>
      have hnone : table.sockets i = none :=
        Option.isNone_iff_eq_none.mp (Fin.eq_true_of_find?_eq_some hi)
      have hkey : table.key peer i = none := by
        rw [key, hnone, Option.bind_none]
      have hzero : (TcpSocket.zero type).key peer = none := if_neg fun h => h rfl
      rw [key_set, Option.bind_some, hzero, ← hkey, update_eq_self]

theorem key_sysConnect {s : ℤ} {i : Fin maxSockets} {so : TcpSocket} (hslot : slot s = some i)
    (hso : table.sockets i = some so) (addr : UInt32) (port : UInt16) (sent : Bool) :
    (table.sysConnect s addr port sent).key peer =
      update (table.key peer) i (some (peer addr port, htonsNext table.nextEphemeral)) := by
  have hbound : (table.connecting addr port sent so).key peer =
      some (peer addr port, htonsNext table.nextEphemeral) := if_pos (by nofun)
  unfold sysConnect
  rw [hslot]
  dsimp only
  rw [hso]
  change (table.set i (some (table.connecting addr port sent so))).key peer = _
  rw [key_set, Option.bind_some, hbound]

end SocketTable

section Ports

variable {Peer : Type*} {peer : UInt32 → UInt16 → Peer} {table : SocketTable}

theorem DistinctPorts.congr {next : SocketTable} (hdistinct : DistinctPorts peer table)
    (hkeys : next.key peer = table.key peer) : DistinctPorts peer next := by
  unfold DistinctPorts
  rw [hkeys]
  exact hdistinct

theorem DistinctPorts.close (hdistinct : DistinctPorts peer table) (s : ℤ) :
    DistinctPorts peer (table.sysSocketClose s) := by
  unfold SocketTable.sysSocketClose
  split
  · exact hdistinct
  · unfold DistinctPorts
    rw [SocketTable.key_set]
    exact distinct_update_none hdistinct _

/-- A connection keeps the ports apart if and only if its own is unused for its peer. -/
theorem DistinctPorts.connect_iff (hdistinct : DistinctPorts peer table) (s : ℤ) (addr : UInt32)
    (port : UInt16) (sent : Bool) :
    DistinctPorts peer (table.sysConnect s addr port sent) ↔
      Separate peer table (.connect s addr port sent) (table.sysConnect s addr port sent) := by
  by_cases hexists : ∃ i so, SocketTable.slot s = some i ∧ table.sockets i = some so
  · obtain ⟨i, so, hslot, hso⟩ := hexists
    have hiff := distinct_update_some_iff hdistinct i (peer addr port, htonsNext table.nextEphemeral)
    rw [← table.key_sysConnect hslot hso addr port sent] at hiff
    apply hiff.trans
    constructor
    · intro hunused i' so' hslot' _
      rw [hslot] at hslot'
      cases hslot'
      exact hunused
    · intro hseparate
      exact hseparate i so hslot hso
  · have hsame : table.sysConnect s addr port sent = table := by
      unfold SocketTable.sysConnect
      split
      · rfl
      · next i hslot =>
          split
          · rfl
          · next so hso => exact absurd ⟨i, so, hslot, hso⟩ hexists
    rw [hsame]
    constructor
    · intro _ i so hslot hso
      exact absurd ⟨i, so, hslot, hso⟩ hexists
    · exact fun _ => hdistinct

end Ports

/-! ## Segments -/

section Delivery

variable {table : SocketTable} {received : Received}

/-- Only the socket that is found is changed, and only by a segment that it does not ignore. -/
theorem tcpInput_changes_iff {i : Fin maxSockets} {so : TcpSocket}
    (hso : table.sockets i = some so) :
    (table.tcpInput received).sockets i ≠ some so ↔
      table.find received.dport = some i ∧ ¬ so.control.Ignores received.segment := by
  unfold SocketTable.tcpInput
  rw [← tcpInput_eq_self_iff received.length]
  split
  · next hnone =>
      rw [hso, hnone]
      exact ⟨fun h => absurd rfl h, fun h => nomatch h.1⟩
  · next found hfound =>
      rw [hfound, Option.some.injEq]
      by_cases hi : found = i
      · subst hi
        have hafter : (table.modify found fun so =>
            { so with control := tcpInput so.control received.segment }).sockets found =
            some { so with control := tcpInput so.control received.segment } := by
          unfold SocketTable.modify
          rw [hso]
          exact update_self ..
        rw [hafter, ne_eq, Option.some.injEq]
        constructor
        · intro hne
          refine ⟨rfl, ?_⟩
          intro hsame
          rw [hsame] at hne
          exact hne rfl
        · rintro ⟨_, hne⟩ hsame
          exact hne (congrArg TcpSocket.control hsame)
      · have hafter : (table.modify found fun so =>
            { so with control := tcpInput so.control received.segment }).sockets i =
            table.sockets i := by
          unfold SocketTable.modify
          split
          · rfl
          · exact update_of_ne (Ne.symm hi) ..
        rw [hafter, hso]
        exact ⟨fun h => absurd rfl h, fun h => absurd h.1 hi⟩

theorem deliversToPeer_segment_iff {Peer : Type*} (peer : UInt32 → UInt16 → Peer)
    (next : SocketTable) :
    DeliversToPeer table (.segment received) (table.tcpInput received) ↔
      Separate peer table (.segment received) next := by
  constructor
  · intro hdelivers i so hfound hso
    by_cases hignores : so.control.Ignores received.segment
    · exact Or.inr hignores
    · exact Or.inl (hdelivers received rfl i so hso
        ((tcpInput_changes_iff hso).mpr ⟨hfound, hignores⟩))
  · intro hseparate received' heq i so hso hchanged
    cases heq
    obtain ⟨hfound, hignores⟩ := (tcpInput_changes_iff hso).mp hchanged
    exact (hseparate i so hfound hso).resolve_right hignores

theorem deliversToPeer_of_ne {event : SocketEvent} (next : SocketTable)
    (hne : ∀ received, event ≠ .segment received) : DeliversToPeer table event next :=
  fun received heq => absurd heq (hne received)

end Delivery

/-! ## Runs -/

section Runs

variable {Peer : Type*} (peer : UInt32 → UInt16 → Peer)

theorem separate_next_iff {table : SocketTable} (event : SocketEvent)
    (hdistinct : DistinctPorts peer table) :
    Separate peer table event (table.next event) ↔
      DeliversToPeer table event (table.next event) ∧ DistinctPorts peer (table.next event) := by
  cases event with
  | segment received =>
      have hkept := hdistinct.congr (table.key_tcpInput received)
      exact ⟨fun h => ⟨(deliversToPeer_segment_iff peer _).mpr h, hkept⟩,
        fun h => (deliversToPeer_segment_iff peer _).mp h.1⟩
  | connect s addr port sent =>
      have hiff := hdistinct.connect_iff s addr port sent
      exact ⟨fun h => ⟨deliversToPeer_of_ne _ nofun, hiff.mpr h⟩, fun h => hiff.mp h.2⟩
  | socket type =>
      have hkept := hdistinct.congr (table.key_sysSocket type)
      exact ⟨fun _ => ⟨deliversToPeer_of_ne _ nofun, hkept⟩, fun _ => trivial⟩
  | seq s seq =>
      have hkept : DistinctPorts peer (table.next (.seq s seq)) :=
        hdistinct.congr (table.key_control s fun _ => rfl)
      exact ⟨fun _ => ⟨deliversToPeer_of_ne _ nofun, hkept⟩, fun _ => trivial⟩
  | recv s len =>
      have hkept : DistinctPorts peer (table.next (.recv s len)) :=
        hdistinct.congr (table.key_control s fun _ => rfl)
      exact ⟨fun _ => ⟨deliversToPeer_of_ne _ nofun, hkept⟩, fun _ => trivial⟩
  | close s =>
      exact ⟨fun _ => ⟨deliversToPeer_of_ne _ nofun, hdistinct.close s⟩, fun _ => trivial⟩

theorem distinctPorts_initial : DistinctPorts peer SocketTable.initial :=
  nofun

/-- Every segment is delivered to its peer's socket, and ports are always distinct, exactly in
the runs where the port is enough to tell the connections apart. -/
theorem demultiplexes_iff (events : List SocketEvent) :
    Along DeliversToPeer .initial (trace SocketTable.next .initial events) ∧
        Always (DistinctPorts peer) .initial (trace SocketTable.next .initial events) ↔
      Along (Separate peer) .initial (trace SocketTable.next .initial events) :=
  along_and_always_iff SocketTable.next (fun _ event hdistinct =>
    separate_next_iff peer event hdistinct) (distinctPorts_initial peer) events

end Runs

/-- A reset from anyone. -/
def forgedReset : Received where
  src := 0x0100007F
  sport := htons 443
  dport := htons 20001
  segment := ⟨false, false, true, false, 0, 0, []⟩
  length := by decide

/-- A reset from a host that is not the peer closes the first connection. -/
theorem not_deliversToPeer_forgedReset :
    ¬ Along DeliversToPeer .initial (trace SocketTable.next .initial
      [.socket 1, .connect 0 0x0101A8C0 (htons 80) true, .segment forgedReset]) := by
  rintro ⟨_, _, hdelivers, _⟩
  have hchanged := hdelivers forgedReset rfl ⟨0, by decide⟩ _ rfl fun hsame => by
    have hclosed := congrArg (Option.map fun so => so.control.soClosed) hsame
    exact absurd hclosed (by decide)
  exact absurd hchanged.2.1 (by decide)

end EigenOS.Net
