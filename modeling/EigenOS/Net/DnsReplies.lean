import EigenOS.Net.DnsNames

/-!
# Replies that can be used

What a datagram has to hold for `dns_query_once` to take an address from it, and which datagram
`dns_query_once` looks at: the one in the first place for its port, at its first look at the queue
that finds one there.
-/

namespace EigenOS.Net

open Function

/-! ## Bytes -/

/-- A name that `parse_dns_name` can read at an offset, behind the text it has read before, and
where the name ends: at most so many labels up to a pointer, as many pointers as calls, and 255
characters. -/
inductive ReadsName (msg : List UInt8) : ℕ → ℕ → ℕ → List UInt8 → ℕ → List UInt8 → Prop where
  | root {calls left off : ℕ} {before : List UInt8} :
      msg[off]? = some 0 → ReadsName msg (calls + 1) left off before (off + 1) before
  | runsOff {calls left off : ℕ} {before : List UInt8} :
      msg.length ≤ off → ReadsName msg (calls + 1) left off before off before.dropLast
  | label {calls left off stop : ℕ} {b : UInt8} {before name : List UInt8} :
      msg[off]? = some b → b ≠ 0 → b.toNat < 64 → off + 1 + b.toNat ≤ msg.length →
      before.length + b.toNat + 1 < 256 →
      ReadsName msg (calls + 1) left (off + 1 + b.toNat)
        (before ++ (msg.drop (off + 1)).take b.toNat ++ [46]) stop name →
      ReadsName msg (calls + 1) (left + 1) off before stop name
  | pointer {calls left off stop : ℕ} {high low : UInt8} {before tail : List UInt8} :
      msg[off]? = some high → 192 ≤ high.toNat → msg[off + 1]? = some low →
      ReadsName msg calls 16 ((high.toNat - 192) * 256 + low.toNat) [] stop tail →
      before.length + (tail.takeWhile (· ≠ 0)).length + 1 < 256 →
      ReadsName msg (calls + 1) left off before (off + 2) (before ++ tail.takeWhile (· ≠ 0))

/-- A name from an offset up to another. -/
def NameEnds (msg : List UInt8) (depth off stop : ℕ) : Prop :=
  ∃ name, ReadsName msg depth 16 off [] stop name

/-- So many questions, each a name with its type and class. -/
inductive ReadsQuestions (msg : List UInt8) (depth : ℕ) : ℕ → ℕ → ℕ → Prop where
  | none {off : ℕ} : ReadsQuestions msg depth 0 off off
  | next {count off stop finish : ℕ} :
      NameEnds msg depth off stop → ReadsQuestions msg depth count (stop + 4) finish →
      ReadsQuestions msg depth (count + 1) off finish

/-- The type and the length of a record are those of an address, which the message holds. -/
def HoldsAddress (msg : List UInt8) (off : ℕ) : Prop :=
  half msg off = dnsTypeA ∧ half msg (off + 8) = 4 ∧ off + 14 ≤ msg.length

/-- One of so many records holds an address, and none before it does. -/
inductive ReadsAddress (msg : List UInt8) (depth : ℕ) : ℕ → ℕ → UInt32 → Prop where
  | here {count off stop : ℕ} :
      NameEnds msg depth off stop → HoldsAddress msg stop →
      ReadsAddress msg depth (count + 1) off (addressAt msg (stop + 10))
  | later {count off stop : ℕ} {ip : UInt32} :
      NameEnds msg depth off stop → stop + 10 ≤ msg.length → ¬ HoldsAddress msg stop →
      ReadsAddress msg depth count (stop + 10 + half msg (stop + 8)) ip →
      ReadsAddress msg depth (count + 1) off ip

/-- A header without an error, its questions, and an address among its answers. -/
structure Usable (msg : List UInt8) (depth : ℕ) (ip : UInt32) : Prop where
  header : dnsHeaderSize ≤ msg.length
  noError : half msg 2 % 16 = 0
  answers : half msg 6 ≠ 0
  address : ∃ stop, ReadsQuestions msg depth (half msg 4) dnsHeaderSize stop ∧
    ReadsAddress msg depth (half msg 6) stop ip

/-! ## The parser -/

section Parser

variable {msg : List UInt8} {depth : ℕ}

theorem getD_of_getElem? {off : ℕ} {b : UInt8} (h : msg[off]? = some b) :
    off < msg.length ∧ msg.getD off 0 = b := by
  refine ⟨(List.getElem?_eq_some_iff.mp h).1, ?_⟩
  rw [List.getD_eq_getElem?_getD, h]
  rfl

theorem and_3F_of_le {b : ℕ} (hb : b < 256) (hle : 192 ≤ b) : b &&& 0x3F = b - 192 := by
  have hmask : b &&& 0x3F = b % 64 := Nat.and_two_pow_sub_one_eq_mod b 6
  omega

theorem readsName_of_parseLabels (hrecur : ∀ target stop name,
      parseDnsName msg depth target = .ok stop name → ReadsName msg depth 16 target [] stop name)
    {left off stop : ℕ} {before name : List UInt8}
    (h : parseLabels msg (parseDnsName msg depth) left off before = .ok stop name) :
    ReadsName msg (depth + 1) left off before stop name := by
  fun_induction parseLabels msg (parseDnsName msg depth) left off before with
  | case1 left off before hoff b hzero =>
      cases h
      have hroot : msg.getD off 0 = 0 := UInt8.toNat_inj.mp hzero
      exact .root (hroot ▸ getElem?_of_lt hoff)
  | case6 left off before hoff b hzero hkind hlast next tail hparse tmp hlong =>
      cases h
      have hlarge := (and_C0_of_lt (UInt8.toNat_lt _)).1.mp hkind
      rw [and_3F_of_le (UInt8.toNat_lt _) hlarge] at hparse
      exact .pointer (getElem?_of_lt hoff) hlarge (getElem?_of_lt (Nat.lt_of_not_le hlast))
        (hrecur _ _ _ hparse) (Nat.lt_of_not_le hlong)
  | case11 off before hoff b hzero hpointer hkind hends hlong left ih =>
      refine .label (getElem?_of_lt hoff) ?_ ((and_C0_of_lt (UInt8.toNat_lt _)).2.mp
        (not_not.mp hkind)) (Nat.le_of_not_lt hends) (Nat.lt_of_not_le hlong) (ih h)
      exact fun hroot => hzero (congrArg UInt8.toNat hroot)
  | case12 left off before hoff =>
      cases h
      exact .runsOff (Nat.le_of_not_lt hoff)
  | _ => cases h

theorem parseLabels_of_readsName {left off stop calls : ℕ} {before name : List UInt8}
    (h : ReadsName msg calls left off before stop name) :
    ∃ depth, calls = depth + 1 ∧
      parseLabels msg (parseDnsName msg depth) left off before = .ok stop name := by
  induction h with
  | @root depth left off before hroot =>
      refine ⟨depth, rfl, ?_⟩
      obtain ⟨hoff, hbyte⟩ := getD_of_getElem? hroot
      unfold parseLabels
      rw [if_pos hoff, hbyte]
      rfl
  | @runsOff depth left off before hoff =>
      refine ⟨depth, rfl, ?_⟩
      unfold parseLabels
      rw [if_neg (Nat.not_lt.mpr hoff)]
  | @label depth left off stop b before name hb hzero hsmall hends hlong _ ih =>
      obtain ⟨_, ⟨⟩, hparse⟩ := ih
      refine ⟨depth, rfl, ?_⟩
      obtain ⟨hoff, hbyte⟩ := getD_of_getElem? hb
      obtain ⟨hlarge, hkind⟩ := and_C0_of_lt b.toNat_lt
      have hpos : b.toNat ≠ 0 := fun h => hzero (UInt8.toNat_inj.mp h)
      unfold parseLabels
      rw [if_pos hoff, hbyte]
      dsimp only
      rw [if_neg hpos, if_neg fun h => absurd (hlarge.mp h) (by omega),
        if_neg (not_not.mpr (hkind.mpr hsmall)), if_neg (Nat.not_lt.mpr hends),
        if_neg (Nat.not_le.mpr hlong)]
      exact hparse
  | @pointer calls left off stop high low before tail hhigh hlarge hlow _ hlong ih =>
      obtain ⟨depth, rfl, hparse⟩ := ih
      refine ⟨depth + 1, rfl, ?_⟩
      obtain ⟨hoff, hbyte⟩ := getD_of_getElem? hhigh
      obtain ⟨hlast, hnext⟩ := getD_of_getElem? hlow
      unfold parseLabels
      rw [if_pos hoff, hbyte, hnext]
      dsimp only
      rw [if_neg (by omega), if_pos ((and_C0_of_lt high.toNat_lt).1.mpr hlarge),
        if_neg (Nat.not_le.mpr hlast), and_3F_of_le high.toNat_lt hlarge,
        show parseDnsName msg (depth + 1) _ = _ from hparse]
      exact if_neg (Nat.not_le.mpr hlong)

theorem parseDnsName_eq_ok_iff {off stop : ℕ} {name : List UInt8} :
    parseDnsName msg depth off = .ok stop name ↔ ReadsName msg depth 16 off [] stop name := by
  constructor
  · induction depth generalizing off stop name with
    | zero => exact nofun
    | succ depth ih => exact readsName_of_parseLabels fun _ _ _ => ih
  · intro h
    obtain ⟨_, rfl, hparse⟩ := parseLabels_of_readsName h
    exact hparse

theorem skipQuestions_eq_ok_iff {count off stop : ℕ} {name : List UInt8} :
    skipQuestions msg depth count off = .ok stop name ↔
      name = [] ∧ ReadsQuestions msg depth count off stop := by
  induction count generalizing off with
  | zero =>
      constructor
      · rintro ⟨⟩
        exact ⟨rfl, .none⟩
      · rintro ⟨rfl, ⟨⟩⟩
        rfl
  | succ count ih =>
      unfold skipQuestions
      constructor
      · intro h
        split at h
        · cases h
        · cases h
        · rename_i next text hname
          obtain ⟨hempty, hrest⟩ := ih.mp h
          exact ⟨hempty, .next ⟨text, parseDnsName_eq_ok_iff.mp hname⟩ hrest⟩
      · rintro ⟨hempty, _ | ⟨⟨text, hname⟩, hrest⟩⟩
        rw [parseDnsName_eq_ok_iff.mpr hname]
        exact ih.mpr ⟨hempty, hrest⟩

theorem findAddress_eq_found_iff {count off : ℕ} {ip : UInt32} :
    findAddress msg depth count off = .found ip ↔ ReadsAddress msg depth count off ip := by
  induction count generalizing off with
  | zero => exact iff_of_false nofun nofun
  | succ count ih =>
      unfold findAddress
      constructor
      · intro h
        split at h
        · cases h
        · cases h
        · rename_i stop text hname
          have hends : NameEnds msg depth off stop := ⟨text, parseDnsName_eq_ok_iff.mp hname⟩
          split at h
          · cases h
          · rename_i hfits
            dsimp only at h
            split at h
            · rename_i hholds
              cases h
              exact .here hends hholds
            · rename_i hholds
              exact .later hends (Nat.le_of_not_lt hfits) hholds (ih.mp h)
      · rintro (⟨⟨text, hname⟩, hholds⟩ | ⟨⟨text, hname⟩, hfits, hholds, hrest⟩)
        · rw [parseDnsName_eq_ok_iff.mpr hname]
          dsimp only
          rw [if_neg (by have := hholds.2.2; omega)]
          exact if_pos hholds
        · rw [parseDnsName_eq_ok_iff.mpr hname]
          dsimp only
          rw [if_neg (Nat.not_lt.mpr hfits)]
          exact (if_neg hholds).trans (ih.mpr hrest)

/-- `dns_query_once` takes an address from exactly the replies that can be used. -/
theorem parseReply_eq_found_iff {ip : UInt32} :
    parseReply msg depth = .found ip ↔ Usable msg depth ip := by
  have hmask : half msg 2 &&& 0x000F = half msg 2 % 16 := Nat.and_two_pow_sub_one_eq_mod _ 4
  unfold parseReply
  rw [hmask]
  constructor
  · intro h
    split at h
    · cases h
    · rename_i hheader
      split at h
      · cases h
      · rename_i herror
        split at h
        · cases h
        · rename_i hanswers
          split at h
          · cases h
          · cases h
          · rename_i stop _ hquestions
            exact ⟨Nat.le_of_not_lt hheader, not_not.mp herror, hanswers, stop,
              (skipQuestions_eq_ok_iff.mp hquestions).2, findAddress_eq_found_iff.mp h⟩
  · rintro ⟨hheader, herror, hanswers, stop, hquestions, haddress⟩
    rw [if_neg (Nat.not_lt.mpr hheader), if_neg (not_not.mpr herror), if_neg hanswers,
      skipQuestions_eq_ok_iff.mpr ⟨rfl, hquestions⟩]
    exact findAddress_eq_found_iff.mpr haddress

end Parser

/-! ## The first datagram -/

namespace UdpQueue

variable (queue : UdpQueue) (port : UInt16)

/-- A place has a datagram for a port. -/
def HoldsFor (i : Fin udpRxSlots) : Prop := (queue.rx i).used = true ∧ (queue.rx i).port = port

/-- The places for a port are free again. -/
def without : UdpQueue where
  rx i := if (queue.rx i).used = true ∧ (queue.rx i).port = port then
    { queue.rx i with used := false, port := 0 } else queue.rx i
  next := queue.next

/-- What 512 bytes hold of the datagram in the first place for a port. -/
def HasFirst (reply : UdpReply) : Prop :=
  ∃ i, queue.HoldsFor port i ∧ (∀ j, queue.HoldsFor port j → i ≤ j) ∧
    reply = ⟨(queue.rx i).srcIp, (queue.rx i).srcPort, (queue.rx i).data.take 512⟩

def after (batches : List (List Datagram)) : UdpQueue := batches.flatten.foldl udpInput queue

end UdpQueue

/-- Stale datagrams are out of the queue.  A datagram is in the first place for the port at one of
100 looks, each after a batch has come in, and none is there at the looks before. -/
def Dns.ComesFirst (dns : Dns) (batches : List (List Datagram)) (reply : UdpReply) : Prop :=
  ∃ look < (batches.take 100).length,
    (∀ earlier < look, ∀ i, ¬ ((dns.queue.without dns.sport).after
      ((batches.take 100).take (earlier + 1))).HoldsFor dns.sport i) ∧
    ((dns.queue.without dns.sport).after ((batches.take 100).take (look + 1))).HasFirst
      dns.sport reply

section Await

variable {queue : UdpQueue} {port : UInt16}

theorem udpRecv_of_find {i : Fin udpRxSlots} (h : queue.find port = some i) (len : ℕ) :
    queue.udpRecv port len =
      (some ⟨(queue.rx i).srcIp, (queue.rx i).srcPort, (queue.rx i).data.take len⟩,
        { queue with
          rx := update queue.rx i ({ queue.rx i with used := false, port := 0 }) }) := by
  unfold UdpQueue.udpRecv
  rw [h]

theorem not_holdsFor_of_find (h : queue.find port = none) (i : Fin udpRxSlots) :
    ¬ queue.HoldsFor port i := fun hholds => find_eq_none h i hholds.1 hholds.2

theorem hasFirst_iff_of_find {i : Fin udpRxSlots} (h : queue.find port = some i)
    (reply : UdpReply) : queue.HasFirst port reply ↔
      reply = ⟨(queue.rx i).srcIp, (queue.rx i).srcPort, (queue.rx i).data.take 512⟩ := by
  obtain ⟨hused, hport, hleast⟩ := find_eq_some h
  constructor
  · rintro ⟨j, hj, hfirst, rfl⟩
    obtain rfl := le_antisymm (hfirst i ⟨hused, hport⟩) (hleast j hj.1 hj.2)
    rfl
  · exact fun hreply => ⟨i, ⟨hused, hport⟩, fun j hj => hleast j hj.1 hj.2, hreply⟩

theorem without_eq_self (h : ∀ i, ¬ queue.HoldsFor port i) : queue.without port = queue := by
  unfold UdpQueue.without
  simp only [show ∀ i, ¬ ((queue.rx i).used = true ∧ (queue.rx i).port = port) from h, if_false]

/-- Each call takes the first place for the port, so those left are behind it. -/
theorem flushPort_eq_without {tries : ℕ}
    (h : ∀ i, queue.HoldsFor port i → udpRxSlots ≤ i.val + tries) :
    flushPort port tries queue = queue.without port := by
  induction tries generalizing queue with
  | zero => exact (without_eq_self fun i hi => absurd (h i hi) (Nat.not_le.mpr i.isLt)).symm
  | succ tries ih =>
      unfold flushPort
      cases hfind : queue.find port with
      | none =>
          rw [udpRecv_of_none hfind, without_eq_self (not_holdsFor_of_find hfind)]
          rfl
      | some i =>
          obtain ⟨hused, hport, hleast⟩ := find_eq_some hfind
          rw [udpRecv_of_find hfind]
          refine (if_pos rfl).trans ((ih ?_).trans ?_)
          · rintro j ⟨hjused, hjport⟩
            dsimp only at hjused hjport
            rcases eq_or_ne j i with rfl | hne
            · rw [update_self] at hjused
              cases hjused
            · rw [update_of_ne hne] at hjused hjport
              have hi := h i ⟨hused, hport⟩
              have hlt := lt_of_le_of_ne (hleast j hjused hjport) hne.symm
              omega
          · unfold UdpQueue.without
            congr 1
            funext j
            dsimp only
            rcases eq_or_ne j i with rfl | hne
            · simp [hused, hport]
            · simp only [update_of_ne hne]

theorem after_cons (batch : List Datagram) (rest : List (List Datagram)) :
    queue.after (batch :: rest) = (batch.foldl UdpQueue.udpInput queue).after rest := by
  unfold UdpQueue.after
  rw [List.flatten_cons, List.foldl_append]

theorem awaitReply_cons (batch : List Datagram) (rest : List (List Datagram)) :
    awaitReply port (batch :: rest) queue =
      match (batch.foldl UdpQueue.udpInput queue).udpRecv port 512 with
      | (some reply, queue) => (some reply, queue)
      | (none, queue) => awaitReply port rest queue := by
  rfl

theorem awaitReply_eq_some_iff {reply : UdpReply} {batches : List (List Datagram)} :
    (awaitReply port batches queue).1 = some reply ↔
      ∃ look < batches.length,
        (∀ earlier < look, ∀ i, ¬ (queue.after (batches.take (earlier + 1))).HoldsFor port i) ∧
        (queue.after (batches.take (look + 1))).HasFirst port reply := by
  induction batches generalizing queue with
  | nil =>
      refine iff_of_false nofun ?_
      rintro ⟨look, hlook, _⟩
      exact absurd hlook (Nat.not_lt_zero look)
  | cons batch rest ih =>
      simp only [List.take_succ_cons, after_cons, List.length_cons]
      rw [awaitReply_cons]
      generalize batch.foldl UdpQueue.udpInput queue = queue
      cases hfind : queue.find port with
      | none =>
          have hnone := not_holdsFor_of_find hfind
          rw [udpRecv_of_none hfind]
          refine ih.trans ⟨?_, ?_⟩
          · rintro ⟨look, hlook, hearlier, hfirst⟩
            refine ⟨look + 1, Nat.succ_lt_succ hlook, ?_, hfirst⟩
            rintro (_ | earlier) hlt
            · exact hnone
            · exact hearlier earlier (Nat.lt_of_succ_lt_succ hlt)
          · rintro ⟨_ | look, hlook, hearlier, hfirst⟩
            · obtain ⟨i, hi, _⟩ := hfirst
              exact absurd hi (hnone i)
            · exact ⟨look, Nat.lt_of_succ_lt_succ hlook,
                fun earlier hlt => hearlier (earlier + 1) (Nat.succ_lt_succ hlt), hfirst⟩
      | some i =>
          obtain ⟨hused, hport, _⟩ := find_eq_some hfind
          rw [udpRecv_of_find hfind]
          constructor
          · intro hreply
            exact ⟨0, Nat.succ_pos _, fun earlier hlt => absurd hlt (Nat.not_lt_zero earlier),
              (hasFirst_iff_of_find hfind _).mpr (Option.some.inj hreply).symm⟩
          · rintro ⟨_ | look, _, hearlier, hfirst⟩
            · exact congrArg some ((hasFirst_iff_of_find hfind _).mp hfirst).symm
            · exact absurd ⟨hused, hport⟩ (hearlier 0 (Nat.succ_pos look) i)

/-- The datagram that is taken for the reply is the one that comes first. -/
theorem awaited_eq_some_iff {dns : Dns} {batches : List (List Datagram)} {reply : UdpReply} :
    (dns.awaited batches).1 = some reply ↔ dns.ComesFirst batches reply := by
  unfold Dns.awaited Dns.ComesFirst
  rw [flushPort_eq_without fun i _ => Nat.le_add_left _ _]
  exact awaitReply_eq_some_iff

end Await

end EigenOS.Net
