import EigenOS.Net.DnsEncoding
import EigenOS.Net.DnsReplies

/-!
# Who answers a query

What a reply has to be, in the terms of the protocol: names as lists of labels, questions and
records one after the other.  `dns_query_once` takes an address from such a reply only,
exactly where no other datagram that it can use comes to its port first.
-/

namespace EigenOS.Net

/-! ## Messages -/

/-- A name at an offset of a message, and where it ends there. -/
inductive NameAt (msg : List UInt8) : ℕ → List (List UInt8) → ℕ → Prop where
  | root {off : ℕ} : msg[off]? = some 0 → NameAt msg off [] (off + 1)
  | label {off stop : ℕ} {b : UInt8} {rest : List (List UInt8)} :
      msg[off]? = some b → b ≠ 0 → b < 64 → off + 1 + b.toNat ≤ msg.length →
      NameAt msg (off + 1 + b.toNat) rest stop →
      NameAt msg off ((msg.drop (off + 1)).take b.toNat :: rest) stop
  | pointer {off stop : ℕ} {high low : UInt8} {labels : List (List UInt8)} :
      msg[off]? = some high → 192 ≤ high → msg[off + 1]? = some low →
      NameAt msg ((high.toNat - 192) * 256 + low.toNat) labels stop →
      NameAt msg off labels (off + 2)

/-- Questions from an offset on, and where they end. -/
inductive QuestionsAt (msg : List UInt8) : ℕ → List (List (List UInt8)) → ℕ → Prop where
  | nil {off : ℕ} : QuestionsAt msg off [] off
  | cons {off stop finish : ℕ} {name : List (List UInt8)} {rest : List (List (List UInt8))} :
      NameAt msg off name stop → QuestionsAt msg (stop + 4) rest finish →
      QuestionsAt msg off (name :: rest) finish

/-- A resource record: its data are so many bytes from an offset on. -/
structure DnsRecord where
  owner : List (List UInt8)
  type : ℕ
  data : ℕ
  length : ℕ

/-- Records from an offset on. -/
inductive RecordsAt (msg : List UInt8) : ℕ → List DnsRecord → Prop where
  | nil {off : ℕ} : RecordsAt msg off []
  | cons {off stop : ℕ} {owner : List (List UInt8)} {rest : List DnsRecord} :
      NameAt msg off owner stop → stop + 10 + half msg (stop + 8) ≤ msg.length →
      RecordsAt msg (stop + 10 + half msg (stop + 8)) rest →
      RecordsAt msg off (⟨owner, half msg stop, stop + 10, half msg (stop + 8)⟩ :: rest)

/-- A letter of a name, which is the same in upper and lower case. -/
def foldCase (c : UInt8) : UInt8 := if 65 ≤ c ∧ c ≤ 90 then c + 32 else c

def SameName (left right : List (List UInt8)) : Prop :=
  left.map (List.map foldCase) = right.map (List.map foldCase)

def dnsTypeCname : ℕ := 5

/-- The name that was asked for, and those that its chain of CNAME records leads to. -/
inductive Belongs (msg : List UInt8) (records : List DnsRecord) (host : List (List UInt8)) :
    List (List UInt8) → Prop where
  | asked {name : List (List UInt8)} : SameName name host → Belongs msg records host name
  | cname {name target : List (List UInt8)} {stop : ℕ} {record : DnsRecord} :
      record ∈ records → record.type = dnsTypeCname → Belongs msg records host record.owner →
      NameAt msg record.data target stop → SameName name target →
      Belongs msg records host name

/-- The reply of the server to the query, with an address of the name. -/
structure Authentic (server : UInt32) (id : UInt16) (hostname : List UInt8) (reply : UdpReply)
    (ip : UInt32) : Prop where
  source : reply.srcIp = server ∧ reply.srcPort = dnsPort
  transaction : half reply.data 0 = id.toNat
  response : half reply.data 2 &&& 0x8000 ≠ 0
  answer : ∃ names records stop record,
    QuestionsAt reply.data dnsHeaderSize names stop ∧ names.length = half reply.data 4 ∧
      (∃ name, names.head? = some name ∧ SameName name (hostLabels hostname)) ∧
      RecordsAt reply.data stop records ∧ records.length = half reply.data 6 ∧
      record ∈ records ∧ record.type = dnsTypeA ∧ record.length = 4 ∧
      addressAt reply.data record.data = ip ∧
      Belongs reply.data records (hostLabels hostname) record.owner

/-! ## What is taken for the reply -/

section Query

variable (dns : Dns) (server : UInt32) (hostname : List UInt8) (depth : ℕ) (sends : Bool)
  (batches : List (List Datagram))

/-- An address is the result, and enters the cache, only from the server's reply. -/
structure AnswersAuthentically : Prop where
  found : ∀ ip, (dns.queryOnce hostname depth sends batches).result = .found ip →
    ∃ reply, (dns.queryOnce hostname depth sends batches).reply = some reply ∧
      Authentic server dns.askedId hostname reply ip
  cached : (dns.queryOnce hostname depth sends batches).dns.cache ≠ dns.cache →
    ∃ ip, (dns.queryOnce hostname depth sends batches).result = .found ip ∧
      (dns.queryOnce hostname depth sends batches).dns.cache = cacheInsert dns.cache hostname ip

/-- If the query goes out, the datagram that comes first is the reply of the server, or cannot be
used. -/
def FirstIsAuthentic : Prop :=
  (∀ label ∈ hostLabels hostname, label.length ≤ 63) → sends = true →
    ∀ reply ip, dns.ComesFirst batches reply → Usable reply.data depth ip →
      Authentic server dns.askedId hostname reply ip

theorem accepted_iff : (encodeDnsName hostname).accepted = true ↔
    ∀ label ∈ hostLabels hostname, label.length ≤ 63 := by
  constructor
  · intro haccepted label hmem
    by_contra hlong
    rw [encodeDnsName, (encodeLabels_of_long ⟨label, hmem, Nat.lt_of_not_le hlong⟩ []).1] at haccepted
    cases haccepted
  · intro hshort
    rw [encodeDnsName, encodeLabels_of_short hshort]

theorem queryOnce_sent (hname : (encodeDnsName hostname).accepted = true)
    {reply : UdpReply} (hreply : (dns.awaited batches).1 = some reply) {ip : UInt32}
    (hparse : parseReply reply.data depth = .found ip) :
    (dns.queryOnce hostname depth true batches).result = .found ip ∧
      (dns.queryOnce hostname depth true batches).reply = some reply ∧
      (dns.queryOnce hostname depth true batches).dns.cache =
        cacheInsert dns.cache hostname ip := by
  have hawaited : dns.awaited batches = (some reply, (dns.awaited batches).2) := by
    rw [← hreply]
  unfold Dns.queryOnce
  dsimp only
  rw [hname, if_neg (by decide), if_neg (by decide), hawaited]
  dsimp only
  rw [hparse]
  exact ⟨rfl, rfl, rfl⟩

/-- A query that brings an address, or a cache that has changed, comes from a datagram. -/
theorem queryOnce_cases :
    (∃ reply ip, (encodeDnsName hostname).accepted = true ∧ sends = true ∧
        (dns.awaited batches).1 = some reply ∧ parseReply reply.data depth = .found ip) ∨
      ((∀ ip, (dns.queryOnce hostname depth sends batches).result ≠ .found ip) ∧
        (dns.queryOnce hostname depth sends batches).dns.cache = dns.cache) := by
  unfold Dns.queryOnce
  dsimp only
  split
  · exact Or.inr ⟨nofun, rfl⟩
  · next hname =>
      by_cases hsends : sends = false
      · rw [if_pos hsends]
        exact Or.inr ⟨nofun, rfl⟩
      · rw [if_neg hsends]
        split
        · exact Or.inr ⟨nofun, rfl⟩
        · next reply queue hawaited =>
            split
            · exact Or.inr ⟨nofun, rfl⟩
            · exact Or.inr ⟨nofun, rfl⟩
            · next ip hparse =>
                left
                refine ⟨reply, ip, Bool.eq_true_of_not_eq_false hname,
                  Bool.eq_true_of_not_eq_false hsends, ?_, hparse⟩
                rw [hawaited]

end Query

/-- The host `a.b`. -/
def askedHost : List UInt8 := [97, 46, 98]

/-- The reply of a server: the question, and an address whose owner is a pointer to it. -/
def serverReply : UdpReply where
  srcIp := 0x0302000A
  srcPort := 53
  data := [0, 1, 129, 128, 0, 1, 0, 1, 0, 0, 0, 0,
    1, 97, 1, 98, 0, 0, 1, 0, 1,
    192, 12, 0, 1, 0, 1, 0, 0, 0, 0, 0, 4, 93, 184, 216, 34]

example : Authentic 0x0302000A 1 askedHost serverReply 0x22D8B85D := by
  have hname : NameAt serverReply.data 12 [[97], [98]] 17 :=
    .label (b := 1) rfl (by decide) (by decide) (by decide)
      (.label (b := 1) rfl (by decide) (by decide) (by decide) (.root rfl))
  have howner : NameAt serverReply.data 21 [[97], [98]] 23 :=
    @NameAt.pointer _ 21 17 192 12 _ rfl (by decide) rfl hname
  exact ⟨⟨rfl, rfl⟩, by decide, by decide, [[[97], [98]]], [⟨[[97], [98]], 1, 33, 4⟩], 21,
    ⟨[[97], [98]], 1, 33, 4⟩, .cons hname .nil, by decide, ⟨_, rfl, rfl⟩,
    .cons howner (by decide) .nil, by decide, List.mem_singleton_self _, rfl, rfl, by decide,
    .asked rfl⟩

/-! ## A forged answer -/

/-- Nothing was received and nothing is cached. -/
def Dns.initial : Dns where
  queryId := 1
  cache := fun _ => ⟨[], 0, false⟩
  queue := ⟨fun _ => ⟨0, 0, 0, [], false⟩, ⟨0, by decide⟩⟩

/-- An answer without a question, for the root, from an address that was not asked. -/
def forgedAnswer : Datagram where
  srcIp := 0x06060606
  srcPort := 1234
  dport := 30003
  data := [255, 255, 0, 0, 0, 0, 0, 1, 0, 0, 0, 0,
    0, 0, 1, 0, 1, 0, 0, 0, 0, 0, 4, 6, 6, 6, 6]

end EigenOS.Net
