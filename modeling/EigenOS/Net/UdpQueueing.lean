import EigenOS.Library.Transition
import EigenOS.Net.Udp

/-!
# The order of received datagrams

The slots of `udp_rx` are written round and round and read from the first.  Arrivals are numbered,
so that the datagrams which wait can be compared with a mailbox that hands out the oldest.  Each
datagram that is received and each call is one step.
-/

namespace EigenOS.Net

open EigenOS.Transition Function

/-- The queue with the number and content of the datagram that each slot took last, how many have
arrived, and the port and number of each that was handed out, the last first. -/
structure UdpRun where
  queue : UdpQueue
  held : Fin udpRxSlots → Option (ℕ × Datagram)
  count : ℕ
  handedOut : List (UInt16 × ℕ)

/-- A datagram arrives, or `udp_recv` is called with a buffer of a size. -/
inductive UdpAct where
  | input (datagram : Datagram)
  | recv (port : UInt16) (len : ℕ)

theorem udpRxSlots_pos : 0 < udpRxSlots := by decide

/-- `udp_rx` before the first datagram. -/
def UdpQueue.initial : UdpQueue where
  rx _ := ⟨0, 0, 0, [], false⟩
  next := ⟨0, udpRxSlots_pos⟩

variable {n : ℕ} {datagram other : Datagram} {queue : UdpQueue} {i : Fin udpRxSlots}

namespace UdpRun

def initial : UdpRun where
  queue := .initial
  held _ := none
  count := 0
  handedOut := []

variable (s : UdpRun)

/-- The arrival in the slot that a call reads. -/
def found (port : UInt16) : Option ℕ :=
  (s.queue.find port).bind fun i => (s.held i).map Prod.fst

def next : UdpAct → UdpRun
  | .input datagram =>
      { s with
        queue := s.queue.udpInput datagram
        held := update s.held s.queue.next (some (s.count, datagram))
        count := s.count + 1 }
  | .recv port len =>
      { s with
        queue := (s.queue.udpRecv port len).2
        handedOut := ((s.found port).map fun n => (port, n)).toList ++ s.handedOut }

/-! ## What the queue is for -/

/-- Arrival `n` waits in some slot. -/
def Waits (n : ℕ) (datagram : Datagram) : Prop :=
  ∃ i, (s.queue.rx i).used = true ∧ s.held i = some (n, datagram)

/-- The first to arrive of those that wait for a port. -/
def Oldest (port : UInt16) (n : ℕ) (datagram : Datagram) : Prop :=
  s.Waits n datagram ∧ datagram.dport = port ∧
    ∀ m other, s.Waits m other → other.dport = port → n ≤ m

/-- A datagram takes the place of the one 32 arrivals before it and leaves the others alone, and a
call hands out the oldest for its port, with its own source and data, and leaves the others alone;
it fails when none waits. -/
def Delivers (act : UdpAct) (next : UdpRun) : Prop :=
  match act with
  | .input datagram => ∀ m other, next.Waits m other ↔
      m = s.count ∧ other = datagram ∨ s.Waits m other ∧ m + udpRxSlots ≠ s.count
  | .recv port len =>
      match (s.queue.udpRecv port len).1 with
      | none => (∀ n datagram, s.Waits n datagram → datagram.dport ≠ port) ∧
          ∀ m other, next.Waits m other ↔ s.Waits m other
      | some reply => ∃ n datagram, s.Oldest port n datagram ∧
          reply = ⟨datagram.srcIp, datagram.srcPort, datagram.data.take len⟩ ∧
          next.handedOut = (port, n) :: s.handedOut ∧
          ∀ m other, next.Waits m other ↔ s.Waits m other ∧ m ≠ n

/-- No arrival is handed out twice, and those of one port are handed out as they arrived. -/
def InOrder : Prop :=
  s.handedOut.Pairwise fun later earlier => later.1 = earlier.1 → earlier.2 < later.2

/-- The slots that wait for a port lie all before the write position or all after it. -/
def OneSided (port : UInt16) : Prop :=
  ∀ i j, (s.queue.rx i).used = true → (s.queue.rx i).port = port →
    (s.queue.rx j).used = true → (s.queue.rx j).port = port →
    i < s.queue.next → j < s.queue.next

/-- What a call is to find: its port on one side of the write position, and an oldest datagram that
was not cut to the size of a slot, or a buffer that small. -/
def Readable : UdpAct → Prop
  | .input _ => True
  | .recv port len => s.OneSided port ∧
      ∀ n datagram, s.Oldest port n datagram → datagram.data.length ≤ 1500 ∨ len ≤ 1500

/-! ## The numbers in the slots -/

/-- The slots hold the last arrivals, each in the slot of its number. -/
structure Stamped (s : UdpRun) : Prop where
  next : s.queue.next.val = s.count % udpRxSlots
  stamp : ∀ i n datagram, s.held i = some (n, datagram) →
    n % udpRxSlots = i.val ∧ n < s.count ∧ s.count ≤ n + udpRxSlots
  filled : ∀ i, (s.queue.rx i).used = true → ∃ n datagram, s.held i = some (n, datagram) ∧
    s.queue.rx i = ⟨datagram.dport, datagram.srcIp, datagram.srcPort,
      datagram.data.take 1500, true⟩

theorem stamped_initial : Stamped initial where
  next := rfl
  stamp _ _ _ h := nomatch h
  filled _ h := nomatch h

variable {s : UdpRun}

/-- A waiting arrival is the one that its slot shows. -/
theorem Stamped.waits_iff (hs : Stamped s) :
    s.Waits n datagram ↔ ∃ i, s.held i = some (n, datagram) ∧
      s.queue.rx i = ⟨datagram.dport, datagram.srcIp, datagram.srcPort,
        datagram.data.take 1500, true⟩ := by
  constructor
  · rintro ⟨i, hused, hheld⟩
    obtain ⟨m, other, hother, hrx⟩ := hs.filled i hused
    cases hheld.symm.trans hother
    exact ⟨i, hheld, hrx⟩
  · rintro ⟨i, hheld, hrx⟩
    exact ⟨i, by rw [hrx], hheld⟩

theorem Stamped.slot_eq (hs : Stamped s) {i j : Fin udpRxSlots} (hi : s.held i = some (n, datagram))
    (hj : s.held j = some (n, other)) : i = j := by
  apply Fin.ext
  rw [← (hs.stamp i n datagram hi).1, ← (hs.stamp j n other hj).1]

theorem Stamped.lt_of_sides (hs : Stamped s) {i j : Fin udpRxSlots} {n m : ℕ}
    (hi : s.held i = some (n, datagram)) (hj : s.held j = some (m, other))
    (hbefore : i < s.queue.next) (hafter : ¬ j < s.queue.next) : m < n := by
  obtain ⟨hni, hn, hcount⟩ := hs.stamp i n datagram hi
  obtain ⟨hmj, hm, _⟩ := hs.stamp j m other hj
  rw [Fin.lt_def, hs.next] at hbefore hafter
  unfold udpRxSlots at *
  omega

theorem Stamped.le_of_side (hs : Stamped s) {i j : Fin udpRxSlots} {n m : ℕ}
    (hi : s.held i = some (n, datagram)) (hj : s.held j = some (m, other))
    (hside : i < s.queue.next ↔ j < s.queue.next) (hle : i ≤ j) : n ≤ m := by
  obtain ⟨hni, hn, _⟩ := hs.stamp i n datagram hi
  obtain ⟨hmj, hm, hcount⟩ := hs.stamp j m other hj
  rw [Fin.lt_def, Fin.lt_def, hs.next] at hside
  rw [Fin.le_def] at hle
  unfold udpRxSlots at *
  omega

theorem Stamped.input (hs : Stamped s) (datagram : Datagram) :
    Stamped (s.next (.input datagram)) where
  next := by
    have hnext := hs.next
    dsimp only [UdpRun.next, UdpQueue.udpInput]
    rw [hnext, Nat.mod_add_mod]
  stamp i n other hheld := by
    dsimp only [UdpRun.next] at hheld ⊢
    by_cases hi : i = s.queue.next
    · subst hi
      rw [update_self] at hheld
      cases hheld
      exact ⟨hs.next.symm, Nat.lt_succ_self _, by unfold udpRxSlots; omega⟩
    · rw [update_of_ne hi] at hheld
      obtain ⟨hni, hn, hcount⟩ := hs.stamp i n other hheld
      have hne : i.val ≠ s.count % udpRxSlots := by
        rw [← hs.next]
        exact fun h => hi (Fin.ext h)
      refine ⟨hni, Nat.lt_succ_of_lt hn, ?_⟩
      -- The arrival 32 before stands in the slot that is written.
      unfold udpRxSlots at *
      omega
  filled i hused := by
    dsimp only [UdpRun.next, UdpQueue.udpInput] at hused ⊢
    by_cases hi : i = s.queue.next
    · subst hi
      rw [update_self, update_self]
      exact ⟨s.count, datagram, rfl, rfl⟩
    · rw [update_of_ne hi] at hused ⊢
      rw [update_of_ne hi]
      exact hs.filled i hused

/-! ## One call -/

section Recv

variable {port : UInt16} {len : ℕ}

theorem next_recv_of_none (h : s.queue.find port = none) : s.next (.recv port len) = s := by
  unfold next found
  dsimp only
  rw [udpRecv_of_none h, h]
  rfl

theorem udpRecv_of_some (h : queue.find port = some i)
    (hrx : queue.rx i = ⟨datagram.dport, datagram.srcIp, datagram.srcPort,
      datagram.data.take 1500, true⟩) :
    (queue.udpRecv port len).1 = some ⟨datagram.srcIp, datagram.srcPort,
      (datagram.data.take 1500).take len⟩ := by
  unfold UdpQueue.udpRecv
  rw [h]
  dsimp only
  rw [hrx]

theorem rx_recv_of_some (h : s.queue.find port = some i) :
    (s.next (.recv port len)).queue.rx = update s.queue.rx i
      { s.queue.rx i with used := false, port := 0 } := by
  dsimp only [next]
  unfold UdpQueue.udpRecv
  rw [h]

theorem handedOut_recv_of_some (h : s.queue.find port = some i)
    (hheld : s.held i = some (n, datagram)) :
    (s.next (.recv port len)).handedOut = (port, n) :: s.handedOut := by
  have hfound : s.found port = some n := by
    unfold found
    rw [h, Option.bind_some, hheld]
    rfl
  dsimp only [next]
  rw [hfound]
  rfl

theorem next_recv_next : (s.next (.recv port len)).queue.next = s.queue.next := by
  dsimp only [next]
  unfold UdpQueue.udpRecv
  split <;> rfl

/-- The slot that is read is free afterwards, and the others are as they were. -/
theorem waits_recv_iff (hs : Stamped s) (h : s.queue.find port = some i)
    (hheld : s.held i = some (n, datagram)) (m : ℕ) (other : Datagram) :
    (s.next (.recv port len)).Waits m other ↔ s.Waits m other ∧ m ≠ n := by
  unfold Waits
  rw [rx_recv_of_some h]
  constructor
  · rintro ⟨j, hused, hj⟩
    by_cases hji : j = i
    · subst hji
      rw [update_self] at hused
      cases hused
    · rw [update_of_ne hji] at hused
      refine ⟨⟨j, hused, hj⟩, ?_⟩
      rintro rfl
      exact hji (hs.slot_eq hj hheld)
  · rintro ⟨⟨j, hused, hj⟩, hne⟩
    have hji : j ≠ i := by
      rintro rfl
      cases hj.symm.trans hheld
      exact hne rfl
    exact ⟨j, by rwa [update_of_ne hji], hj⟩

theorem Stamped.recv (hs : Stamped s) (port : UInt16) (len : ℕ) :
    Stamped (s.next (.recv port len)) := by
  cases h : s.queue.find port with
  | none => rwa [next_recv_of_none h]
  | some i =>
      refine ⟨(congrArg Fin.val next_recv_next).trans hs.next, hs.stamp, ?_⟩
      intro j hused
      rw [rx_recv_of_some h] at hused ⊢
      by_cases hji : j = i
      · subst hji
        rw [update_self] at hused
        cases hused
      · rw [update_of_ne hji] at hused ⊢
        exact hs.filled j hused

end Recv

/-- A buffer that small does not show that a datagram was cut. -/
theorem take_take_eq_iff {α : Type*} (data : List α) (size len : ℕ) :
    (data.take size).take len = data.take len ↔ data.length ≤ size ∨ len ≤ size := by
  constructor
  · intro h
    have hlength := congrArg List.length h
    simp only [List.length_take] at hlength
    omega
  · intro h
    rw [List.take_take, List.take_eq_take_iff]
    omega

theorem delivers_input (hs : Stamped s) (datagram : Datagram) :
    s.Delivers (.input datagram) (s.next (.input datagram)) := by
  have hold : ∀ m other, (s.next (.input datagram)).Waits m other ↔
      m = s.count ∧ other = datagram ∨
        ∃ j, j ≠ s.queue.next ∧ (s.queue.rx j).used = true ∧ s.held j = some (m, other) := by
    intro m other
    dsimp only [Waits, UdpRun.next, UdpQueue.udpInput]
    constructor
    · rintro ⟨j, hused, hj⟩
      by_cases hjn : j = s.queue.next
      · subst hjn
        rw [update_self] at hj
        cases hj
        exact .inl ⟨rfl, rfl⟩
      · rw [update_of_ne hjn] at hused hj
        exact .inr ⟨j, hjn, hused, hj⟩
    · rintro (⟨rfl, rfl⟩ | ⟨j, hjn, hused, hj⟩)
      · exact ⟨s.queue.next, by rw [update_self], update_self _ _ _⟩
      · refine ⟨j, ?_, ?_⟩
        · rwa [update_of_ne hjn]
        · rwa [update_of_ne hjn]
  intro m other
  rw [hold]
  refine or_congr Iff.rfl ⟨?_, ?_⟩
  · rintro ⟨j, hjn, hused, hj⟩
    obtain ⟨hmj, _, _⟩ := hs.stamp j m other hj
    refine ⟨⟨j, hused, hj⟩, fun hcount => hjn (Fin.ext ?_)⟩
    rw [hs.next, ← hmj, ← hcount, Nat.add_mod_right]
  · rintro ⟨⟨j, hused, hj⟩, hcount⟩
    refine ⟨j, ?_, hused, hj⟩
    rintro rfl
    obtain ⟨hmj, hm, hle⟩ := hs.stamp _ m other hj
    rw [hs.next] at hmj
    unfold udpRxSlots at *
    omega

/-- The slot that a call reads holds the oldest for its port where no slot for the port stands on
the other side of the write position. -/
theorem oldest_iff_oneSided (hs : Stamped s) {port : UInt16} (h : s.queue.find port = some i)
    (hheld : s.held i = some (n, datagram))
    (hrx : s.queue.rx i = ⟨datagram.dport, datagram.srcIp, datagram.srcPort,
      datagram.data.take 1500, true⟩) : s.Oldest port n datagram ↔ s.OneSided port := by
  obtain ⟨hused, hport, hfirst⟩ := find_eq_some h
  constructor
  · rintro ⟨_, _, hleast⟩ a b haused haport hbused hbport hbefore
    by_contra hafter
    obtain ⟨m, other, hb, hbrx⟩ := hs.filled b hbused
    have hbwaits : s.Waits m other := ⟨b, hbused, hb⟩
    have hib : i < s.queue.next := (hfirst a haused haport).trans_lt hbefore
    have hlt := hs.lt_of_sides hheld hb hib hafter
    rw [hbrx] at hbport
    exact absurd (hleast m other hbwaits hbport) (Nat.not_le.mpr hlt)
  · intro hside
    refine ⟨⟨i, hused, hheld⟩, by rw [hrx] at hport; exact hport, ?_⟩
    intro m other hwaits hother
    obtain ⟨j, hj, hjrx⟩ := hs.waits_iff.mp hwaits
    have hjused : (s.queue.rx j).used = true := by rw [hjrx]
    have hjport : (s.queue.rx j).port = port := by rw [hjrx]; exact hother
    refine hs.le_of_side hheld hj ?_ (hfirst j hjused hjport)
    exact ⟨hside i j hused hport hjused hjport, hside j i hjused hjport hused hport⟩

theorem Stamped.oldest_unique (hs : Stamped s) {port : UInt16} {n m : ℕ}
    (hn : s.Oldest port n datagram) (hm : s.Oldest port m other) : n = m ∧ datagram = other := by
  have hnm : n = m :=
    Nat.le_antisymm (hn.2.2 m other hm.1 hm.2.1) (hm.2.2 n datagram hn.1 hn.2.1)
  subst hnm
  obtain ⟨i, _, hi⟩ := hn.1
  obtain ⟨j, _, hj⟩ := hm.1
  cases hs.slot_eq hi hj
  cases hi.symm.trans hj
  exact ⟨rfl, rfl⟩

theorem delivers_recv_iff (hs : Stamped s) (port : UInt16) (len : ℕ) :
    s.Delivers (.recv port len) (s.next (.recv port len)) ↔ s.Readable (.recv port len) := by
  cases h : s.queue.find port with
  | none =>
      have hnone : ∀ i, (s.queue.rx i).used = true → (s.queue.rx i).port ≠ port :=
        find_eq_none h
      have hwaits : ∀ n datagram, s.Waits n datagram → datagram.dport ≠ port := by
        intro n datagram hwaits
        obtain ⟨i, _, hrx⟩ := hs.waits_iff.mp hwaits
        have hport := hnone i (by rw [hrx])
        rwa [hrx] at hport
      refine iff_of_true ?_ ⟨?_, ?_⟩
      · unfold Delivers
        dsimp only
        rw [udpRecv_of_none h, next_recv_of_none h]
        exact ⟨hwaits, fun _ _ => Iff.rfl⟩
      · intro i j hused hport
        exact absurd hport (hnone i hused)
      · intro n datagram holdest
        exact absurd holdest.2.1 (hwaits n datagram holdest.1)
  | some i =>
      obtain ⟨n, datagram, hheld, hrx⟩ := hs.filled i (find_eq_some h).1
      have hiff := oldest_iff_oneSided hs h hheld hrx
      have hhanded : (s.next (.recv port len)).handedOut = (port, n) :: s.handedOut :=
        handedOut_recv_of_some h hheld
      unfold Delivers
      dsimp only
      rw [udpRecv_of_some h hrx, hhanded]
      constructor
      · rintro ⟨m, other, holdest, hreply, hlog, _⟩
        cases hlog
        obtain ⟨j, _, hj⟩ := holdest.1
        cases hs.slot_eq hheld hj
        cases hheld.symm.trans hj
        simp only [UdpReply.mk.injEq, true_and] at hreply
        refine ⟨hiff.mp holdest, ?_⟩
        intro k another hother
        obtain ⟨-, rfl⟩ := hs.oldest_unique holdest hother
        exact (take_take_eq_iff _ _ _).mp hreply
      · rintro ⟨hside, hcut⟩
        have holdest := hiff.mpr hside
        refine ⟨n, datagram, holdest, ?_, rfl, fun m other => waits_recv_iff hs h hheld m other⟩
        rw [(take_take_eq_iff _ _ _).mpr (hcut n datagram holdest)]

theorem act_delivers_iff (hs : Stamped s) (act : UdpAct) :
    s.Delivers act (s.next act) ↔ s.Readable act := by
  cases act with
  | input datagram => exact iff_of_true (delivers_input hs datagram) trivial
  | recv port len => exact delivers_recv_iff hs port len

theorem Stamped.step (hs : Stamped s) (act : UdpAct) : Stamped (s.next act) := by
  cases act with
  | input datagram => exact hs.input datagram
  | recv port len => exact hs.recv port len

/-! ## The runs -/

/-- What was handed out for a port came before everything that waits for it, and the log is in
order. -/
structure Sorted (s : UdpRun) : Prop where
  old : ∀ entry ∈ s.handedOut, entry.2 < s.count
  ahead : ∀ entry ∈ s.handedOut, ∀ m other, s.Waits m other → other.dport = entry.1 →
    entry.2 < m
  inOrder : s.InOrder

theorem sorted_initial : Sorted initial where
  old _ h := nomatch h
  ahead _ h := nomatch h
  inOrder := List.Pairwise.nil

theorem Sorted.input (hsorted : Sorted s)
    (hdelivers : s.Delivers (.input datagram) (s.next (.input datagram))) :
    Sorted (s.next (.input datagram)) where
  old entry hentry := Nat.lt_succ_of_lt (hsorted.old entry hentry)
  ahead entry hentry m other hwaits hport := by
    rcases (hdelivers m other).mp hwaits with ⟨rfl, _⟩ | ⟨hbefore, _⟩
    · exact hsorted.old entry hentry
    · exact hsorted.ahead entry hentry m other hbefore hport
  inOrder := hsorted.inOrder

theorem Sorted.recv (hs : Stamped s) (hsorted : Sorted s) {port : UInt16} {len : ℕ}
    (hdelivers : s.Delivers (.recv port len) (s.next (.recv port len))) :
    Sorted (s.next (.recv port len)) := by
  cases h : s.queue.find port with
  | none => rwa [next_recv_of_none h]
  | some i =>
      obtain ⟨n, datagram, hheld, hrx⟩ := hs.filled i (find_eq_some h).1
      unfold Delivers at hdelivers
      dsimp only at hdelivers
      rw [udpRecv_of_some h hrx] at hdelivers
      obtain ⟨k, another, holdest, _, hlog, hwaits⟩ := hdelivers
      obtain ⟨j, _, hj⟩ := holdest.1
      have hk : k < s.count := (hs.stamp j k another hj).2.1
      refine ⟨?_, ?_, ?_⟩
      · intro entry hentry
        rw [hlog] at hentry
        rcases List.mem_cons.mp hentry with rfl | hentry
        · exact hk
        · exact hsorted.old entry hentry
      · intro entry hentry m other hm hport
        obtain ⟨hbefore, hne⟩ := (hwaits m other).mp hm
        rw [hlog] at hentry
        rcases List.mem_cons.mp hentry with rfl | hentry
        · have hle := holdest.2.2 m other hbefore hport
          dsimp only
          omega
        · exact hsorted.ahead entry hentry m other hbefore hport
      · unfold InOrder
        rw [hlog, List.pairwise_cons]
        refine ⟨?_, hsorted.inOrder⟩
        intro entry hentry hport
        exact hsorted.ahead entry hentry k another holdest.1 (holdest.2.1.trans hport)

theorem Sorted.step (hs : Stamped s) (hsorted : Sorted s) {act : UdpAct}
    (hdelivers : s.Delivers act (s.next act)) : Sorted (s.next act) := by
  cases act with
  | input datagram => exact hsorted.input hdelivers
  | recv port len => exact hsorted.recv hs hdelivers

/-- The run of some arrivals and calls from an empty queue. -/
def run (acts : List UdpAct) : List (UdpAct × UdpRun) := trace next initial acts

theorem inOrder_of_delivers {acts : List UdpAct}
    (h : Along Delivers initial (run acts)) : Always InOrder initial (run acts) := by
  have hboth : Always (fun s => Stamped s ∧ Sorted s) initial (run acts) := by
    refine always_of_guarded _ ?_ ⟨stamped_initial, sorted_initial⟩ (along_trace next initial acts) h
    rintro s act _ ⟨hs, hsorted⟩ hdelivers rfl
    exact ⟨hs.step act, hsorted.step hs hdelivers⟩
  exact hboth.mono fun _ hs => hs.2.inOrder

/-- In a run every call hands out the oldest datagram for its port, whole, and none twice or out of
order, if and only if each call finds its port on one side of the write position and an oldest
datagram that was not cut. -/
theorem delivers_iff_readable (acts : List UdpAct) :
    Along Delivers initial (run acts) ∧ Always InOrder initial (run acts) ↔
      Along (fun s act _ => s.Readable act) initial (run acts) := by
  have hiff : Along Delivers initial (run acts) ↔
      Along (fun s act _ => s.Readable act) initial (run acts) :=
    along_trace_iff next (fun s act (hs : Stamped s) => ⟨act_delivers_iff hs act, hs.step act⟩)
      stamped_initial acts
  constructor
  · exact fun h => hiff.mp h.1
  · intro h
    have hdelivers := hiff.mpr h
    exact ⟨hdelivers, inOrder_of_delivers hdelivers⟩

def smallDatagram (dport : UInt16) (byte : UInt8) : Datagram := ⟨0x0A000002, 4000, dport, [byte]⟩

/-- Port 7 gets a datagram in the last slot and one in the first, and both are read. -/
def wrappedAround : List UdpAct :=
  List.replicate 31 (.input (smallDatagram 9 0)) ++
    [.input (smallDatagram 7 1), .input (smallDatagram 7 2), .recv 7 10, .recv 7 10]

theorem not_inOrder_wrappedAround : ¬ Always InOrder initial (run wrappedAround) := by
  intro h
  have hlog : (final initial (run wrappedAround)).handedOut = [(7, 31), (7, 32)] := by
    decide +kernel
  have horder := h.final
  unfold InOrder at horder
  rw [hlog] at horder
  exact absurd horder (by decide)

end UdpRun

end EigenOS.Net
