import EigenOS.Net.DnsAnswers
import EigenOS.Net.UdpQueueing

/-!
# Resolving a name

`dns_resolve`: an address that is written out, then the cache, then the resolvers one after the
other, then a short list.  Several tasks may resolve at once, so that the stores to the cache come
in any order.
-/

namespace EigenOS.Net

open EigenOS.Transition

/-! ## The functions -/

/-- `ip_val`, `octets` and `cur_val`. -/
structure LiteralScan where
  ipVal : UInt32
  octets : ℕ
  curVal : UInt32

/-- `ip_val` with one more octet. -/
def LiteralScan.withOctet (scan : LiteralScan) : UInt32 :=
  (scan.ipVal <<< 8) ||| (scan.curVal &&& 0xFF)

/-- The loop over the characters; none at one that is neither a digit nor a dot. -/
def scanLiteral : List UInt8 → LiteralScan → Option LiteralScan
  | [], scan => some scan
  | c :: rest, scan =>
      if 48 ≤ c ∧ c ≤ 57 then
        scanLiteral rest { scan with curVal := scan.curVal * 10 + (c - 48).toUInt32 }
      else if c = 46 then scanLiteral rest ⟨scan.withOctet, scan.octets + 1, 0⟩
      else none

/-- The address that a host name is taken for, if it is taken for one. -/
def literalAddress (hostname : List UInt8) : Option UInt32 :=
  match scanLiteral hostname ⟨0, 0, 0⟩ with
  | some scan => if scan.octets = 3 then some (htonl scan.withOctet) else none
  | none => none

/-- `dns_cache_lookup`. -/
def cacheLookup (cache : Fin dnsCacheSize → DnsCacheEntry) (hostname : List UInt8) :
    Option UInt32 :=
  (Fin.find? fun i => (cache i).valid && (cache i).hostname == hostname).map fun i => (cache i).ip

/-- What becomes of one query: how deep the parser may go, whether it is sent, and what arrives. -/
structure Exchange where
  depth : ℕ
  sends : Bool
  batches : List (List Datagram)

/-- The loop over the resolvers.  No server is 0. -/
def queryAll (hostname : List UInt8) : List (UInt32 × Exchange) → Dns → DnsParse × Dns
  | [], dns => (.failed, dns)
  | (server, exchange) :: rest, dns =>
      if server = 0 then queryAll hostname rest dns
      else
        let answer := dns.queryOnce hostname exchange.depth exchange.sends exchange.batches
        match answer.result with
        | .failed => queryAll hostname rest answer.dns
        | result => (result, answer.dns)

/-- `fb`, with the names as bytes. -/
def fallbacks : List (List UInt8 × UInt32) :=
  [("google.com".toUTF8.toList, htonl 0xD83AD6CE), ("example.com".toUTF8.toList, htonl 0x5DB8D822),
    ("github.com".toUTF8.toList, htonl 0xC01EFF71),
    ("open-meteo.com".toUTF8.toList, htonl 0x681A0E6F),
    ("api.open-meteo.com".toUTF8.toList, htonl 0x681A0E6F)]

/-- `dns_fallback_whitelist`. -/
def fallbackWhitelist (dns : Dns) (hostname : List UInt8) : DnsParse × Dns :=
  match fallbacks.find? fun entry => hostname == entry.1 with
  | some entry => (.found entry.2, { dns with cache := cacheInsert dns.cache hostname entry.2 })
  | none => (.failed, dns)

/-- `dns_resolve`, with the configured server and what becomes of the three queries. -/
def dnsResolve (dns : Dns) (hostname : List UInt8) (server : UInt32)
    (first second third : Exchange) : DnsParse × Dns :=
  match literalAddress hostname with
  | some ip => (.found ip, dns)
  | none =>
      match cacheLookup dns.cache hostname with
      | some ip => (.found ip, dns)
      | none =>
          match queryAll hostname
              [(server, first), (htonl 0x01010101, second), (htonl 0x08080808, third)] dns with
          | (.failed, dns) => fallbackWhitelist dns hostname
          | resolved => resolved

/-! ## Addresses that are written out -/

/-- The value of digits in base ten. -/
def decimalValue (digits : List UInt8) : ℕ :=
  digits.foldl (fun value c => value * 10 + (c.toNat - 48)) 0

/-- The bytes of digits. -/
def AllDigits (part : List UInt8) : Prop := ∀ c ∈ part, 48 ≤ c ∧ c ≤ 57

instance : DecidablePred AllDigits := fun part =>
  inferInstanceAs (Decidable (∀ c ∈ part, 48 ≤ c ∧ c ≤ 57))

/-- A decimal number from 0 to 255. -/
def IsOctet (part : List UInt8) (value : ℕ) : Prop :=
  part ≠ [] ∧ AllDigits part ∧ decimalValue part = value ∧ value ≤ 255

/-- Four parts with a dot between each two. -/
def joinDots (p q r s : List UInt8) : List UInt8 := p ++ 46 :: (q ++ 46 :: (r ++ 46 :: s))

/-- The address of four octets, in network order. -/
def quadAddress (a b c d : ℕ) : UInt32 :=
  htonl (UInt32.ofNat (a * 2 ^ 24 + b * 2 ^ 16 + c * 2 ^ 8 + d))

/-- Four decimal numbers from 0 to 255 with a dot between each two. -/
def IsQuad (hostname : List UInt8) (ip : UInt32) : Prop :=
  ∃ p q r s a b c d, hostname = joinDots p q r s ∧ IsOctet p a ∧ IsOctet q b ∧ IsOctet r c ∧
    IsOctet s d ∧ ip = quadAddress a b c d

/-- A host name is taken for an address exactly where it is one, and for that address. -/
def LiteralRight (hostname : List UInt8) : Prop :=
  ∀ ip, literalAddress hostname = some ip ↔ IsQuad hostname ip

/-- If a host name is four parts of digits with dots between them, the parts are numbers from 0 to
255. -/
def PartsAreOctets (hostname : List UInt8) : Prop :=
  ∀ p q r s, hostname = joinDots p q r s → AllDigits p → AllDigits q → AllDigits r → AllDigits s →
    ∀ part ∈ [p, q, r, s], part ≠ [] ∧ decimalValue part ≤ 255

/-- A digit more, in 32 bits. -/
def withDigit (value : UInt32) (c : UInt8) : UInt32 := value * 10 + (c - 48).toUInt32

theorem withDigit_ofNat {c : UInt8} (hc : 48 ≤ c) (n : ℕ) :
    withDigit (UInt32.ofNat n) c = UInt32.ofNat (n * 10 + (c.toNat - 48)) := by
  have hdigit : (c - 48).toUInt32 = UInt32.ofNat (c.toNat - 48) := by
    apply UInt32.toNat_inj.mp
    have hlt := c.toNat_lt
    rw [UInt8.toNat_toUInt32, UInt8.toNat_sub_of_le _ _ hc, UInt32.toNat_ofNat', Nat.mod_eq_of_lt]
    · rfl
    · omega
  rw [withDigit, hdigit, UInt32.ofNat_add, UInt32.ofNat_mul]
  rfl

theorem foldl_withDigit {digits : List UInt8} (h : AllDigits digits) (n : ℕ) :
    digits.foldl withDigit (UInt32.ofNat n) =
      UInt32.ofNat (digits.foldl (fun value c => value * 10 + (c.toNat - 48)) n) := by
  induction digits generalizing n with
  | nil => rfl
  | cons c rest ih =>
      rw [List.foldl_cons, List.foldl_cons, withDigit_ofNat (h c List.mem_cons_self).1]
      exact ih (fun d hd => h d (List.mem_cons_of_mem c hd)) _

theorem scanLiteral_digits {digits : List UInt8} (h : AllDigits digits) (rest : List UInt8)
    (scan : LiteralScan) :
    scanLiteral (digits ++ rest) scan =
      scanLiteral rest { scan with curVal := digits.foldl withDigit scan.curVal } := by
  induction digits generalizing scan with
  | nil => rfl
  | cons c tail ih =>
      rw [List.cons_append, scanLiteral, if_pos (h c List.mem_cons_self),
        ih fun d hd => h d (List.mem_cons_of_mem c hd)]
      rfl

theorem scanLiteral_dot (rest : List UInt8) (scan : LiteralScan) :
    scanLiteral (46 :: rest) scan = scanLiteral rest ⟨scan.withOctet, scan.octets + 1, 0⟩ := by
  rw [scanLiteral, if_neg (by decide), if_pos rfl]

theorem withOctet_ofNat {n v : ℕ} (hn : n < 2 ^ 24) (hv : v ≤ 255) (octets : ℕ) :
    LiteralScan.withOctet ⟨UInt32.ofNat n, octets, UInt32.ofNat v⟩ = UInt32.ofNat (n * 2 ^ 8 + v) := by
  apply UInt32.toNat_inj.mp
  have hshift : (UInt32.ofNat n <<< 8).toNat = n * 2 ^ 8 := by
    have height : (8 : UInt32).toNat % 32 = 8 := by decide
    rw [UInt32.toNat_shiftLeft, UInt32.toNat_ofNat', Nat.shiftLeft_eq, height,
      Nat.mod_eq_of_lt (by omega), Nat.mod_eq_of_lt (by omega)]
  have hmask : (UInt32.ofNat v &&& 0xFF).toNat = v := by
    rw [UInt32.toNat_and, UInt32.toNat_ofNat', show (0xFF : UInt32).toNat = 2 ^ 8 - 1 from rfl,
      Nat.and_two_pow_sub_one_eq_mod]
    omega
  unfold LiteralScan.withOctet
  rw [UInt32.toNat_or, hshift, hmask, UInt32.toNat_ofNat', ← Nat.shiftLeft_eq,
    ← Nat.shiftLeft_add_eq_or_of_lt (by omega), Nat.shiftLeft_eq, Nat.mod_eq_of_lt (by omega)]

theorem scanLiteral_octet {part : List UInt8} {n v : ℕ} (hpart : IsOctet part v)
    (hn : n < 2 ^ 24) (rest : List UInt8) (octets : ℕ) :
    scanLiteral (part ++ 46 :: rest) ⟨UInt32.ofNat n, octets, 0⟩ =
      scanLiteral rest ⟨UInt32.ofNat (n * 2 ^ 8 + v), octets + 1, 0⟩ := by
  obtain ⟨_, hdigits, hvalue, hsmall⟩ := hpart
  rw [scanLiteral_digits hdigits, scanLiteral_dot]
  have hfold : part.foldl withDigit 0 = UInt32.ofNat v := by
    rw [← hvalue]
    exact foldl_withDigit hdigits 0
  dsimp only
  rw [hfold, withOctet_ofNat hn hsmall]

theorem literalAddress_of_isQuad {hostname : List UInt8} {ip : UInt32} (h : IsQuad hostname ip) :
    literalAddress hostname = some ip := by
  obtain ⟨p, q, r, s, a, b, c, d, rfl, hp, hq, hr, hs, rfl⟩ := h
  have ha := hp.2.2.2
  have hb := hq.2.2.2
  have hc := hr.2.2.2
  have hd := hs.2.2.2
  have hfold : s.foldl withDigit 0 = UInt32.ofNat d := by
    rw [← hs.2.2.1]
    exact foldl_withDigit hs.2.1 0
  have hscan : scanLiteral (joinDots p q r s) ⟨0, 0, 0⟩ =
      some ⟨UInt32.ofNat ((a * 2 ^ 8 + b) * 2 ^ 8 + c), 3, UInt32.ofNat d⟩ := by
    have hfirst := scanLiteral_octet hp (n := 0) (by decide) (q ++ 46 :: (r ++ 46 :: s)) 0
    rw [Nat.zero_mul, Nat.zero_add] at hfirst
    unfold joinDots
    refine hfirst.trans ?_
    rw [scanLiteral_octet hq (by omega), scanLiteral_octet hr (by omega)]
    have hlast := scanLiteral_digits hs.2.1 []
      ⟨UInt32.ofNat ((a * 2 ^ 8 + b) * 2 ^ 8 + c), 3, 0⟩
    rw [List.append_nil] at hlast
    refine hlast.trans ?_
    dsimp only
    rw [hfold]
    rfl
  unfold literalAddress
  rw [hscan]
  dsimp only
  have hsum : ((a * 2 ^ 8 + b) * 2 ^ 8 + c) * 2 ^ 8 + d =
      a * 2 ^ 24 + b * 2 ^ 16 + c * 2 ^ 8 + d := by omega
  rw [if_pos rfl, withOctet_ofNat (by omega) hd, hsum]
  rfl

theorem scanLiteral_eq_some {hostname : List UInt8} {scan last : LiteralScan}
    (h : scanLiteral hostname scan = some last) :
    (last.octets = scan.octets ∧ AllDigits hostname) ∨
      ∃ part rest next, hostname = part ++ 46 :: rest ∧ AllDigits part ∧
        scanLiteral rest next = some last ∧ next.octets = scan.octets + 1 := by
  induction hostname generalizing scan with
  | nil =>
      cases h
      exact .inl ⟨rfl, List.forall_mem_nil _⟩
  | cons c rest ih =>
      unfold scanLiteral at h
      split at h
      · rename_i hdigit
        rcases ih h with ⟨hoctets, hdigits⟩ | ⟨part, tail, next, htail, hpart, hnext, hcount⟩
        · exact .inl ⟨hoctets, List.forall_mem_cons.mpr ⟨hdigit, hdigits⟩⟩
        · refine .inr ⟨c :: part, tail, next, ?_, List.forall_mem_cons.mpr ⟨hdigit, hpart⟩, hnext,
            hcount⟩
          rw [htail, List.cons_append]
      · split at h
        · rename_i hdot
          subst hdot
          exact .inr ⟨[], rest, _, rfl, List.forall_mem_nil _, h, rfl⟩
        · cases h

theorem scanLiteral_octets_le {hostname : List UInt8} {scan last : LiteralScan}
    (h : scanLiteral hostname scan = some last) : scan.octets ≤ last.octets := by
  induction hostname generalizing scan with
  | nil =>
      cases h
      exact le_rfl
  | cons c rest ih =>
      unfold scanLiteral at h
      split at h
      · have hle := ih h
        exact hle
      · split at h
        · exact (Nat.le_succ _).trans (ih h)
        · cases h

theorem joinDots_of_literalAddress {hostname : List UInt8} {ip : UInt32}
    (h : literalAddress hostname = some ip) :
    ∃ p q r s, hostname = joinDots p q r s ∧ AllDigits p ∧ AllDigits q ∧ AllDigits r ∧
      AllDigits s := by
  unfold literalAddress at h
  split at h
  · rename_i last hscan
    split at h
    · rename_i hthree
      rcases scanLiteral_eq_some hscan with ⟨hnone, _⟩ | ⟨p, _, s₁, rfl, hp, h₁, ho₁⟩
      · rw [hthree] at hnone
        cases hnone
      rcases scanLiteral_eq_some h₁ with ⟨hnone, _⟩ | ⟨q, _, s₂, rfl, hq, h₂, ho₂⟩
      · rw [hthree, ho₁] at hnone
        cases hnone
      rcases scanLiteral_eq_some h₂ with ⟨hnone, _⟩ | ⟨r, s, s₃, rfl, hr, h₃, ho₃⟩
      · rw [hthree, ho₂, ho₁] at hnone
        cases hnone
      rcases scanLiteral_eq_some h₃ with ⟨_, hs⟩ | ⟨_, _, s₄, _, _, h₄, ho₄⟩
      · exact ⟨p, q, r, s, rfl, hp, hq, hr, hs⟩
      · have hle := scanLiteral_octets_le h₄
        rw [hthree, ho₄, ho₃, ho₂, ho₁] at hle
        exact absurd hle (by decide)
    · cases h
  · cases h

theorem literalAddress_joinDots {p q r s : List UInt8} (hp : AllDigits p) (hq : AllDigits q)
    (hr : AllDigits r) (hs : AllDigits s) : (literalAddress (joinDots p q r s)).isSome := by
  have hscan : ∃ last, scanLiteral (joinDots p q r s) ⟨0, 0, 0⟩ = some last ∧ last.octets = 3 := by
    unfold joinDots
    rw [scanLiteral_digits hp, scanLiteral_dot, scanLiteral_digits hq, scanLiteral_dot,
      scanLiteral_digits hr, scanLiteral_dot]
    have hlast := scanLiteral_digits hs []
    simp only [List.append_nil] at hlast
    rw [hlast]
    exact ⟨_, rfl, rfl⟩
  obtain ⟨last, hlast, hthree⟩ := hscan
  unfold literalAddress
  rw [hlast]
  dsimp only
  rw [if_pos hthree]
  rfl

theorem joinDots_inj {p q r s p' q' r' s' : List UInt8} (hp : AllDigits p) (hp' : AllDigits p')
    (hq : AllDigits q) (hq' : AllDigits q') (hr : AllDigits r) (hr' : AllDigits r')
    (h : joinDots p q r s = joinDots p' q' r' s') : p = p' ∧ q = q' ∧ r = r' ∧ s = s' := by
  have hdot : ∀ {x : List UInt8}, AllDigits x → ∀ c ∈ x, (c ≠ 46 : Prop) := by
    rintro x hx c hc rfl
    exact absurd (hx 46 hc).1 (by decide)
  have hsplit : ∀ {x x' y y' : List UInt8}, AllDigits x → AllDigits x' →
      x ++ 46 :: y = x' ++ 46 :: y' → x = x' ∧ y = y' := by
    intro x x' y y' hx hx' heq
    have htake := congrArg (List.takeWhile (· ≠ 46)) heq
    have hall : ∀ {x y : List UInt8}, AllDigits x →
        (x ++ 46 :: y).takeWhile (· ≠ 46) = x := by
      intro x y hx
      rw [List.takeWhile_append_of_pos]
      · simp
      · intro c hc
        simpa using hdot hx c hc
    rw [hall hx, hall hx'] at htake
    subst htake
    exact ⟨rfl, List.tail_eq_of_cons_eq (List.append_cancel_left heq)⟩
  obtain ⟨hpp, hrest⟩ := hsplit hp hp' h
  obtain ⟨hqq, hrest⟩ := hsplit hq hq' hrest
  obtain ⟨hrr, hss⟩ := hsplit hr hr' hrest
  exact ⟨hpp, hqq, hrr, hss⟩

theorem literalRight_iff (hostname : List UInt8) :
    LiteralRight hostname ↔ PartsAreOctets hostname := by
  constructor
  · intro hright p q r s hjoin hp hq hr hs
    have hsome := literalAddress_joinDots hp hq hr hs
    rw [← hjoin, Option.isSome_iff_exists] at hsome
    obtain ⟨ip, hip⟩ := hsome
    obtain ⟨p', q', r', s', a, b, c, d, hjoin', hp', hq', hr', hs', _⟩ := (hright ip).mp hip
    obtain ⟨rfl, rfl, rfl, rfl⟩ := joinDots_inj hp hp'.2.1 hq hq'.2.1 hr hr'.2.1
      (hjoin.symm.trans hjoin')
    have hpart : ∀ {part : List UInt8} {v : ℕ}, IsOctet part v →
        part ≠ [] ∧ decimalValue part ≤ 255 := by
      rintro part v ⟨hne, _, rfl, hsmall⟩
      exact ⟨hne, hsmall⟩
    simp only [List.forall_mem_cons, List.not_mem_nil, false_imp_iff, implies_true, and_true]
    exact ⟨hpart hp', hpart hq', hpart hr', hpart hs'⟩
  · intro hparts ip
    refine ⟨fun hip => ?_, literalAddress_of_isQuad⟩
    obtain ⟨p, q, r, s, hjoin, hp, hq, hr, hs⟩ := joinDots_of_literalAddress hip
    have hoctets := hparts p q r s hjoin hp hq hr hs
    simp only [List.forall_mem_cons, List.not_mem_nil, false_imp_iff, implies_true, and_true]
      at hoctets
    obtain ⟨⟨hp₀, hp₁⟩, ⟨hq₀, hq₁⟩, ⟨hr₀, hr₁⟩, hs₀, hs₁⟩ := hoctets
    have hquad : IsQuad hostname (quadAddress (decimalValue p) (decimalValue q) (decimalValue r)
        (decimalValue s)) :=
      ⟨p, q, r, s, _, _, _, _, hjoin, ⟨hp₀, hp, rfl, hp₁⟩, ⟨hq₀, hq, rfl, hq₁⟩,
        ⟨hr₀, hr, rfl, hr₁⟩, ⟨hs₀, hs, rfl, hs₁⟩, rfl⟩
    have hsame := Option.some_injective _ (hip.symm.trans (literalAddress_of_isQuad hquad))
    rwa [hsame]

/-! ## What a call does to the cache -/

section Resolve

variable (dns : Dns) (hostname : List UInt8)

variable {dns hostname} (server : UInt32) (first second third : Exchange)

theorem dnsResolve_of_hit (hname : literalAddress hostname = none) {ip : UInt32}
    (hhit : cacheLookup dns.cache hostname = some ip) :
    dnsResolve dns hostname server first second third = (.found ip, dns) := by
  unfold dnsResolve
  rw [hname, hhit]

end Resolve

/-! ## Runs of stores -/

/-- The cache, and what was stored to it, the last first. -/
structure CacheRun where
  cache : Fin dnsCacheSize → DnsCacheEntry
  stored : List (List UInt8 × UInt32)

namespace CacheRun

def initial : CacheRun where
  cache _ := ⟨[], 0, false⟩
  stored := []

variable (s : CacheRun)

/-- A resolution stores the address that it has found. -/
def store (entry : List UInt8 × UInt32) : CacheRun where
  cache := cacheInsert s.cache entry.1 entry.2
  stored := entry :: s.stored

/-- The address that was stored last for exactly this name. -/
def latest (hostname : List UInt8) : Option UInt32 :=
  (s.stored.find? fun entry => entry.1 == hostname).map Prod.snd

/-- Every call for a name that the cache has returns the address that was stored last for it. -/
def HitsRight : Prop :=
  ∀ (dns : Dns) (hostname : List UInt8) (server : UInt32) (first second third : Exchange),
    dns.cache = s.cache → literalAddress hostname = none →
      ∀ ip, cacheLookup dns.cache hostname = some ip →
        dnsResolve dns hostname server first second third = (.found ip, dns) ∧
          s.latest hostname = some ip

/-- The name fits an entry, and no entry that stays holds another address for it. -/
def StoresRight (entry : List UInt8 × UInt32) : Prop :=
  entry.1.length ≤ 63 ∧
    ∀ i, i ≠ cacheVictim s.cache → (s.cache i).valid = true → (s.cache i).hostname = entry.1 →
      (s.cache i).ip = entry.2

/-- Every entry holds the address that was stored last for its name. -/
def Truthful : Prop :=
  ∀ i, (s.cache i).valid = true → s.latest (s.cache i).hostname = some (s.cache i).ip

theorem truthful_initial : Truthful initial := nofun

variable {s} {entry : List UInt8 × UInt32}

theorem latest_store_self : (s.store entry).latest entry.1 = some entry.2 := by
  simp [latest, store]

theorem latest_store_of_ne {hostname : List UInt8} (h : entry.1 ≠ hostname) :
    (s.store entry).latest hostname = s.latest hostname := by
  simp [latest, store, h]

theorem Truthful.store (hs : Truthful s) (hright : s.StoresRight entry) :
    Truthful (s.store entry) := by
  obtain ⟨hlength, hothers⟩ := hright
  intro i hvalid
  by_cases hi : i = cacheVictim s.cache
  · have hnew : (s.store entry).cache i = ⟨entry.1.take 63, entry.2, true⟩ := by
      rw [hi]
      exact Function.update_self _ _ _
    rw [hnew, List.take_of_length_le hlength]
    exact latest_store_self
  · have hold : (s.store entry).cache i = s.cache i := Function.update_of_ne hi _ _
    rw [hold] at hvalid ⊢
    by_cases hname : entry.1 = (s.cache i).hostname
    · rw [hothers i hi hvalid hname.symm, ← hname]
      exact latest_store_self
    · rw [latest_store_of_ne hname]
      exact hs i hvalid

theorem Truthful.hitsRight (hs : Truthful s) : HitsRight s := by
  intro dns hostname server first second third hcache hname ip hhit
  refine ⟨dnsResolve_of_hit server first second third hname hhit, ?_⟩
  unfold cacheLookup at hhit
  rw [hcache, Option.map_eq_some_iff] at hhit
  obtain ⟨i, hfind, rfl⟩ := hhit
  have hfound := Fin.eq_true_of_find?_eq_some hfind
  simp only [Bool.and_eq_true, beq_iff_eq] at hfound
  rw [← hfound.2]
  exact hs i hfound.1

def run (stores : List (List UInt8 × UInt32)) : List ((List UInt8 × UInt32) × CacheRun) :=
  trace store initial stores

theorem hitsRight_run {stores : List (List UInt8 × UInt32)}
    (h : Along (fun s entry _ => s.StoresRight entry) initial (run stores)) :
    Always HitsRight initial (run stores) := by
  have htruthful : Always Truthful initial (run stores) := by
    refine always_of_guarded Truthful ?_ truthful_initial (along_trace store initial stores) h
    rintro s entry _ hs hright rfl
    exact hs.store hright
  exact htruthful.mono fun _ hs => hs.hitsRight

/-- A host name is rightly taken for an address if and only if its parts, where they are four of
digits, are octets; and in every run whose stores are of names that fit, with no other address left
for them, every hit is right. -/
theorem literalRight_iff_and_hitsRight (hostname : List UInt8) (stores) :
    (LiteralRight hostname ↔ PartsAreOctets hostname) ∧
      (Along (fun s entry _ => s.StoresRight entry) initial (run stores) →
        Always HitsRight initial (run stores)) :=
  ⟨literalRight_iff hostname, hitsRight_run⟩

/-- `1.2.3.`, which is taken for 1.2.3.0. -/
def lastPartEmpty : List UInt8 := [49, 46, 50, 46, 51, 46]

/-- Names that are alike in their first 63 bytes: one of 64, which is stored, and one of 63. -/
def longName : List UInt8 := List.replicate 64 97

theorem not_literalRight_and_not_hitsRight :
    ¬ (∀ hostname, LiteralRight hostname) ∧
      ¬ ∀ stores, Always HitsRight initial (run stores) := by
  constructor
  · intro hright
    have hparts := (literalRight_iff _).mp (hright lastPartEmpty) [49] [50] [51] [] rfl
      (by simp [AllDigits]) (by simp [AllDigits]) (by simp [AllDigits]) (by simp [AllDigits]) []
      (by decide)
    exact hparts.1 rfl
  · intro hright
    have hhits := (hright [(longName, 0x01020304)]).final
    have hhit := hhits ⟨0, (initial.store (longName, 0x01020304)).cache, .initial⟩
      (List.replicate 63 97) 0 ⟨0, false, []⟩ ⟨0, false, []⟩ ⟨0, false, []⟩ rfl (by decide)
      0x01020304 (by decide +kernel)
    exact absurd hhit.2 (by decide +kernel)

end CacheRun

end EigenOS.Net
