import EigenOS.Net.ByteOrder
import EigenOS.Net.Udp

/-!
# A query for an address

`dns_query_once`: the query is sent, and the first datagram that comes to its local port is
taken for the reply.  `depth` is how deep the recursion of `parse_dns_name` may go before the
kernel stack is at its end.
-/

namespace EigenOS.Net

def dnsHeaderSize : ℕ := 12
def dnsPort : UInt16 := 53
def dnsTypeA : ℕ := 1
def dnsCacheSize : ℕ := 16

/-- Two bytes of a message in network order. -/
def half (msg : List UInt8) (off : ℕ) : ℕ :=
  (msg.getD off 0).toNat * 256 + (msg.getD (off + 1) 0).toNat

/-! ## Names -/

inductive NameParse where
  | bad
  | overflow
  | ok (off : ℕ) (name : List UInt8)

/-- The loop of `parse_dns_name`, which takes 16 labels at most and has room for 256
characters.  `recur` parses the name a pointer leads to. -/
def parseLabels (msg : List UInt8) (recur : ℕ → NameParse) : ℕ → ℕ → List UInt8 → NameParse
  | left, off, out =>
      if off < msg.length then
        let b := (msg.getD off 0).toNat
        if b = 0 then .ok (off + 1) out
        else if b &&& 0xC0 = 0xC0 then
          if msg.length ≤ off + 1 then .bad
          else
            match recur ((b &&& 0x3F) * 256 + (msg.getD (off + 1) 0).toNat) with
            | .bad => .bad
            | .overflow => .overflow
            | .ok _ tmp =>
                let tmp := tmp.takeWhile (· ≠ 0)
                if 256 ≤ out.length + tmp.length + 1 then .bad else .ok (off + 2) (out ++ tmp)
        else if b &&& 0xC0 ≠ 0 then .bad
        else if msg.length < off + 1 + b then .bad
        else if 256 ≤ out.length + b + 1 then .bad
        else
          match left with
          | 0 => .bad
          | left + 1 =>
              parseLabels msg recur left (off + 1 + b) (out ++ (msg.drop (off + 1)).take b ++ [46])
      else .ok off out.dropLast

/-- `parse_dns_name`. -/
def parseDnsName (msg : List UInt8) : ℕ → ℕ → NameParse
  | 0, _ => .overflow
  | depth + 1, off => parseLabels msg (parseDnsName msg depth) 16 off []

/-- The labels of a host name, which end at its dots. -/
def hostLabels (hostname : List UInt8) : List (List UInt8) :=
  let labels := hostname.splitOn 46
  if labels.getLast? = some [] then labels.dropLast else labels

/-- What `encode_dns_name` has written when it returns: their number, or -1. -/
structure NameEncoding where
  accepted : Bool
  written : List UInt8
  deriving DecidableEq

/-- The loop of `encode_dns_name`, which copies each label before it looks at the next. -/
def encodeLabels : List (List UInt8) → List UInt8 → NameEncoding
  | [], dst => ⟨true, dst ++ [0]⟩
  | label :: rest, dst =>
      if 63 < label.length then ⟨false, dst⟩
      else encodeLabels rest (dst ++ UInt8.ofNat label.length :: label)

/-- `encode_dns_name`. -/
def encodeDnsName (hostname : List UInt8) : NameEncoding := encodeLabels (hostLabels hostname) []

/-! ## Replies -/

inductive DnsParse where
  | failed
  | overflow
  | found (ip : UInt32)
  deriving DecidableEq

/-- The questions of a reply are passed over. -/
def skipQuestions (msg : List UInt8) (depth : ℕ) : ℕ → ℕ → NameParse
  | 0, off => .ok off []
  | count + 1, off =>
      match parseDnsName msg depth off with
      | .bad => .bad
      | .overflow => .overflow
      | .ok off _ => skipQuestions msg depth count (off + 4)

/-- The address of a record, in network order. -/
def addressAt (msg : List UInt8) (off : ℕ) : UInt32 :=
  htonl (((msg.getD off 0).toUInt32 <<< 24) ||| ((msg.getD (off + 1) 0).toUInt32 <<< 16) |||
    ((msg.getD (off + 2) 0).toUInt32 <<< 8) ||| (msg.getD (off + 3) 0).toUInt32)

/-- The first address among the answers. -/
def findAddress (msg : List UInt8) (depth : ℕ) : ℕ → ℕ → DnsParse
  | 0, _ => .failed
  | count + 1, off =>
      match parseDnsName msg depth off with
      | .bad => .failed
      | .overflow => .overflow
      | .ok off _ =>
          if msg.length < off + 10 then .failed
          else
            let rdlength := half msg (off + 8)
            if half msg off = dnsTypeA ∧ rdlength = 4 ∧ off + 14 ≤ msg.length then
              .found (addressAt msg (off + 10))
            else findAddress msg depth count (off + 10 + rdlength)

/-- What `dns_query_once` makes of a reply. -/
def parseReply (msg : List UInt8) (depth : ℕ) : DnsParse :=
  if msg.length < dnsHeaderSize then .failed
  else if half msg 2 &&& 0x000F ≠ 0 then .failed
  else if half msg 6 = 0 then .failed
  else
    match skipQuestions msg depth (half msg 4) dnsHeaderSize with
    | .bad => .failed
    | .overflow => .overflow
    | .ok off _ => findAddress msg depth (half msg 6) off

/-! ## The query -/

/-- `struct dns_cache_entry`. -/
structure DnsCacheEntry where
  hostname : List UInt8
  ip : UInt32
  valid : Bool

/-- `query_id`, `dns_cache` and the datagrams that were received. -/
structure Dns where
  queryId : UInt16
  cache : Fin dnsCacheSize → DnsCacheEntry
  queue : UdpQueue

/-- The entry that `dns_cache_insert` takes: the first that is free, or that with the least
address. -/
def cacheVictim (cache : Fin dnsCacheSize → DnsCacheEntry) : Fin dnsCacheSize :=
  match Fin.find? fun i => !(cache i).valid with
  | some i => i
  | none =>
      ((List.finRange dnsCacheSize).foldl (fun (idx, best) i =>
        if (cache i).ip < best then (i, (cache i).ip) else (idx, best))
        (⟨0, by decide⟩, 0xFFFFFFFF)).1

/-- `dns_cache_insert`. -/
def cacheInsert (cache : Fin dnsCacheSize → DnsCacheEntry) (hostname : List UInt8)
    (ip : UInt32) : Fin dnsCacheSize → DnsCacheEntry :=
  Function.update cache (cacheVictim cache) ⟨hostname.take 63, ip, true⟩

/-- Stale datagrams for the port are taken out.  There are no more than places. -/
def flushPort (port : UInt16) : ℕ → UdpQueue → UdpQueue
  | 0, queue => queue
  | tries + 1, queue =>
      if (queue.udpRecv port 64).1.isSome then flushPort port tries (queue.udpRecv port 64).2
      else queue

/-- The datagrams that come in between two looks at the queue, and the first for the port. -/
def awaitReply (port : UInt16) : List (List Datagram) → UdpQueue → Option UdpReply × UdpQueue
  | [], queue => (none, queue)
  | batch :: rest, queue =>
      match (batch.foldl UdpQueue.udpInput queue).udpRecv port 512 with
      | (some reply, queue) => (some reply, queue)
      | (none, queue) => awaitReply port rest queue

/-- The transaction id of the next query, in host order. -/
def Dns.askedId (dns : Dns) : UInt16 := htons (htonsNext dns.queryId)

/-- The local port of the next query.  `htons` has advanced `query_id` twice. -/
def Dns.sport (dns : Dns) : UInt16 := 30000 + (dns.queryId + 2) % 1000

/-- What `dns_query_once` leads to: the result, the datagram it used, and the state. -/
structure DnsResult where
  result : DnsParse
  reply : Option UdpReply
  dns : Dns

section Query

variable (dns : Dns) (hostname : List UInt8) (depth : ℕ) (sends : Bool)
  (batches : List (List Datagram))

/-- The datagram that is taken for the reply.  `sends` says whether the query went out. -/
def Dns.awaited : Option UdpReply × UdpQueue :=
  awaitReply dns.sport (batches.take 100) (flushPort dns.sport udpRxSlots dns.queue)

/-- `dns_query_once`.  The server is used for the query only. -/
def Dns.queryOnce : DnsResult :=
  let asked := { dns with queryId := dns.queryId + 2 }
  if (encodeDnsName hostname).accepted = false then ⟨.failed, none, asked⟩
  else if sends = false then ⟨.failed, none, asked⟩
  else
    match dns.awaited batches with
    | (none, queue) => ⟨.failed, none, { asked with queue := queue }⟩
    | (some reply, queue) =>
        match parseReply reply.data depth with
        | .failed => ⟨.failed, some reply, { asked with queue := queue }⟩
        | .overflow => ⟨.overflow, some reply, { asked with queue := queue }⟩
        | .found ip =>
            ⟨.found ip, some reply,
              { asked with queue := queue, cache := cacheInsert dns.cache hostname ip }⟩

end Query

end EigenOS.Net
