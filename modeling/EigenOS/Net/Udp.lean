import Mathlib.Data.UInt

/-!
# Received datagrams

`udp_input` keeps the last 32 datagrams, and `udp_recv` hands out the first for a port.
-/

namespace EigenOS.Net

def udpRxSlots : ℕ := 32

/-- A datagram that is received: the ports are in host order, the address in network order.
The length of the data comes from the UDP header. -/
structure Datagram where
  srcIp : UInt32
  srcPort : UInt16
  dport : UInt16
  data : List UInt8

/-- A place in `udp_rx`. -/
structure UdpRx where
  port : UInt16
  srcIp : UInt32
  srcPort : UInt16
  data : List UInt8
  used : Bool

/-- What `udp_recv` hands out. -/
structure UdpReply where
  srcIp : UInt32
  srcPort : UInt16
  data : List UInt8

/-- `udp_rx` and `udp_next_rx`. -/
structure UdpQueue where
  rx : Fin udpRxSlots → UdpRx
  next : Fin udpRxSlots

namespace UdpQueue

variable (queue : UdpQueue)

/-- `udp_input`, of a datagram whose length covers its header. -/
def udpInput (datagram : Datagram) : UdpQueue where
  rx := Function.update queue.rx queue.next
    ⟨datagram.dport, datagram.srcIp, datagram.srcPort, datagram.data.take 1500, true⟩
  next := ⟨(queue.next.val + 1) % udpRxSlots, Nat.mod_lt _ (by decide)⟩

/-- The first datagram for a port. -/
def find (port : UInt16) : Option (Fin udpRxSlots) :=
  Fin.find? fun i => (queue.rx i).used && (queue.rx i).port == port

/-- `udp_recv` into a buffer of a size. -/
def udpRecv (port : UInt16) (len : ℕ) : Option UdpReply × UdpQueue :=
  match queue.find port with
  | none => (none, queue)
  | some i =>
      (some ⟨(queue.rx i).srcIp, (queue.rx i).srcPort, (queue.rx i).data.take len⟩,
        { queue with
          rx := Function.update queue.rx i ({ queue.rx i with used := false, port := 0 }) })

end UdpQueue

section Recv

variable {queue : UdpQueue} {port : UInt16} {len : ℕ} {i : Fin udpRxSlots}

theorem find_eq_some (h : queue.find port = some i) :
    (queue.rx i).used = true ∧ (queue.rx i).port = port ∧
      ∀ j, (queue.rx j).used = true → (queue.rx j).port = port → i ≤ j := by
  unfold UdpQueue.find at h
  rw [Fin.find?_eq_some_iff] at h
  obtain ⟨hi, hfirst⟩ := h
  simp only [Bool.and_eq_true, beq_iff_eq] at hi
  refine ⟨hi.1, hi.2, ?_⟩
  intro j hused hport
  by_contra hlt
  have hmiss := hfirst j (not_le.mp hlt)
  simp [hused, hport] at hmiss

theorem find_eq_none (h : queue.find port = none) (i : Fin udpRxSlots)
    (hused : (queue.rx i).used = true) : (queue.rx i).port ≠ port := by
  unfold UdpQueue.find at h
  rw [Fin.find?_eq_none_iff] at h
  have hmiss := h i
  simpa [hused] using hmiss

theorem udpRecv_of_none (h : queue.find port = none) : queue.udpRecv port len = (none, queue) := by
  unfold UdpQueue.udpRecv
  rw [h]

end Recv

end EigenOS.Net
