import EigenOS.Library.Transition
import EigenOS.Net.Arp

/-!
# What address resolution delivers

A packet for a known address is sent there, one for an unknown address waits for the reply or
is dropped, and a reply sends what waits for it.  This holds in exactly the runs in which no
packet is dropped for an address that is known by now, and no mbuf is missing where the code
does not expect it.  Each packet that is sent or received is one step.
-/

namespace EigenOS.Net

open EigenOS.Transition Function

/-- A packet is sent to a next hop, or an ARP packet is received. -/
inductive ArpEvent where
  | send (ifp : Interface) (dst : UInt32)
  | receive (ifp : Interface) (packet : Option EtherArp)

namespace NetWorld

/-- The packet is made, and then handled. -/
def arpNext (world : NetWorld) (event : ArpEvent) : NetWorld :=
  match world.mGetcl with
  | (none, world) => world
  | (some m, world) =>
      match event with
      | .send ifp dst => (world.arpResolve ifp m dst).2
      | .receive ifp packet => world.arpInput ifp m packet

/-- Nothing is known, nothing waits and nothing has been allocated. -/
def boot (memory : ℕ → Bool) : NetWorld where
  cache := fun _ => ⟨0, 0, false, false⟩
  pending := []
  memory := memory
  attempts := 0
  allocated := []
  freed := []
  sent := []
  arpData := fun _ => none

variable (world : NetWorld)

/-- The next try of `kmalloc` after so many others succeeds. -/
def Available (count : ℕ) : Prop := world.memory (world.attempts + count) = true

instance (count : ℕ) : Decidable (world.Available count) :=
  inferInstanceAs (Decidable (_ = true))

def Caches (dst : UInt32) (i : Fin arpCacheSize) : Prop :=
  (world.cache i).valid = true ∧ (world.cache i).ip = dst

instance (dst : UInt32) (i : Fin arpCacheSize) : Decidable (world.Caches dst i) :=
  inferInstanceAs (Decidable (_ ∧ _))

/-- A request for an address has been sent since. -/
def Asked (next : NetWorld) (ifp : Interface) (dst : UInt32) : Prop :=
  ∃ am, next.sent = world.sent ++ [⟨am, broadcastMac, .arp⟩] ∧
    next.arpData am = some ⟨.request, ifp.ifHwaddr, ifp.ifIp, 0, dst⟩

/-- What `arp_resolve` does with a packet for a unicast address. -/
structure Resolves (ifp : Interface) (m : ℕ) (dst : UInt32) : Prop where
  known : ∀ i, world.Caches dst i →
    (world.arpResolve ifp m dst).2.sent = world.sent ++ [⟨m, (world.cache i).mac, .ip⟩]
  waits : (∀ i, ¬ world.Caches dst i) → (world.arpResolve ifp m dst).1 = 0 →
    ⟨dst, m⟩ ∈ (world.arpResolve ifp m dst).2.pending ∧
      world.Asked (world.arpResolve ifp m dst).2 ifp dst
  drops : (∀ i, ¬ world.Caches dst i) → (world.arpResolve ifp m dst).1 = -1 →
    m ∈ (world.arpResolve ifp m dst).2.freed ∧
      ∀ entry ∈ (world.arpResolve ifp m dst).2.pending, entry.m ≠ m

/-- The packets that wait for an address. -/
def waiting (ip : UInt32) : List Pending := world.pending.filter fun entry => entry.dst = ip

/-- Each packet that waits for the address is sent once and the others still wait. -/
structure Flushes (m : ℕ) (arp : EtherArp) : Prop where
  sent : (world.arpReply m arp).sent =
    world.sent ++ (world.waiting arp.spa).map fun entry => ⟨entry.m, arp.sha, .ip⟩
  kept : (world.arpReply m arp).pending = world.pending.filter fun entry => entry.dst ≠ arp.spa

/-- What the code is to do at an event. -/
def Delivers (event : ArpEvent) (_ : NetWorld) : Prop :=
  ∀ m made, world.mGetcl = (some m, made) →
    match event with
    | .send ifp dst => ¬ ifp.Broadcasts dst → made.Resolves ifp m dst
    | .receive _ packet => ∀ arp, packet = some arp → arp.op = .reply → made.Flushes m arp

/-- No packet waits for an address that is known, and mbufs are there for the headers and the
requests. -/
def Prepared (event : ArpEvent) (_ : NetWorld) : Prop :=
  ∀ m made, world.mGetcl = (some m, made) →
    match event with
    | .send ifp dst => ¬ ifp.Broadcasts dst →
        if (made.arpFind dst).isSome then
          (∀ entry ∈ made.pending, entry.dst ≠ dst) ∧ made.Available 0
        else
          (∃ entry ∈ made.pending, entry.dst = dst) ∨ arpPendingMax ≤ made.pending.length ∨
            (made.Available 0 ∧ made.Available 1)
    | .receive _ packet => ∀ arp, packet = some arp → arp.op = .reply →
        ∀ k, k < (made.waiting arp.spa).length → made.Available k

/-! ## Buffers -/

theorem mGet_of_available (h : world.Available 0) :
    world.mGet = (some world.attempts,
      { world with
        attempts := world.attempts + 1
        allocated := world.allocated ++ [world.attempts] }) := if_pos h

theorem mGet_of_not_available (h : ¬ world.Available 0) :
    world.mGet = (none, { world with attempts := world.attempts + 1 }) := if_neg h

/-- `ether_output` makes one try, and sends if it succeeds. -/
theorem etherOutput_eq (m : ℕ) (dst : Mac) (type : EtherType) :
    let next := world.etherOutput m dst type
    next.cache = world.cache ∧ next.pending = world.pending ∧ next.memory = world.memory ∧
      next.attempts = world.attempts + 1 ∧ next.arpData = world.arpData ∧
      next.sent = if world.Available 0 then world.sent ++ [⟨m, dst, type⟩] else world.sent := by
  unfold etherOutput
  by_cases h : world.Available 0
  · rw [mGet_of_available world h, if_pos h]
    exact ⟨rfl, rfl, rfl, rfl, rfl, rfl⟩
  · rw [mGet_of_not_available world h, if_neg h]
    exact ⟨rfl, rfl, rfl, rfl, rfl, rfl⟩

theorem mGetcl_eq {m : ℕ} {made : NetWorld} (h : world.mGetcl = (some m, made)) :
    m = world.attempts ∧ made.attempts = world.attempts + 2 ∧ made.cache = world.cache ∧
      made.pending = world.pending := by
  unfold mGetcl at h
  by_cases hfirst : world.Available 0
  · rw [mGet_of_available world hfirst] at h
    dsimp only at h
    split at h
    · cases h
      exact ⟨rfl, rfl, rfl, rfl⟩
    · exact nomatch congrArg Prod.fst h
  · rw [mGet_of_not_available world hfirst] at h
    exact nomatch congrArg Prod.fst h

/-! ## The cache -/

variable {world : NetWorld}

theorem caches_of_arpFind {dst : UInt32} {i : Fin arpCacheSize}
    (h : world.arpFind dst = some i) : world.Caches dst i := by
  have hfound := Fin.eq_true_of_find?_eq_some h
  rw [Bool.and_eq_true, beq_iff_eq] at hfound
  exact hfound

theorem not_caches_of_arpFind {dst : UInt32} (h : world.arpFind dst = none)
    (i : Fin arpCacheSize) : ¬ world.Caches dst i := by
  rintro ⟨hvalid, hip⟩
  have hnot := Fin.find?_eq_none_iff.mp h i
  rw [hvalid, hip, beq_self_eq_true] at hnot
  exact nomatch hnot

/-- An address has one entry at most, and the packets that wait were made before. -/
structure Sound (world : NetWorld) : Prop where
  unique : ∀ ip i j, world.Caches ip i → world.Caches ip j → i = j
  made : ∀ entry ∈ world.pending, entry.m < world.attempts

theorem unique_arpLearn (hunique : ∀ ip i j, world.Caches ip i → world.Caches ip j → i = j)
    (ip : UInt32) (mac : Mac) :
    ∀ ip' i j, (world.arpLearn ip mac).Caches ip' i → (world.arpLearn ip mac).Caches ip' j →
      i = j := by
  unfold arpLearn
  split
  · exact hunique
  · next at' hat =>
      split
      · exact hunique
      · -- no other entry has the address
        have hother : ∀ j, j ≠ at' → ¬ world.Caches ip j := by
          intro j hj
          unfold arpFindOrAlloc at hat
          cases hfind : world.arpFind ip with
          | some k =>
              rw [hfind] at hat
              cases hat
              exact fun hcached => hj (hunique ip j _ hcached (caches_of_arpFind hfind))
          | none => exact not_caches_of_arpFind hfind j
        have hcases : ∀ ip' j,
            (update world.cache at'
              { world.cache at' with ip := ip, mac := mac, valid := true } j).valid = true ∧
            (update world.cache at'
              { world.cache at' with ip := ip, mac := mac, valid := true } j).ip = ip' →
            (j = at' ∧ ip' = ip) ∨ (j ≠ at' ∧ world.Caches ip' j) := by
          intro ip' j hcached
          by_cases hj : j = at'
          · rw [hj, update_self] at hcached
            exact Or.inl ⟨hj, hcached.2.symm⟩
          · rw [update_of_ne hj] at hcached
            exact Or.inr ⟨hj, hcached⟩
        intro ip' i j hi hj
        rcases hcases ip' i hi with ⟨hi, hip⟩ | ⟨hi, hcached⟩
        · rcases hcases ip' j hj with ⟨hj, _⟩ | ⟨hj, hcached⟩
          · rw [hi, hj]
          · exact absurd (hip ▸ hcached) (hother j hj)
        · rcases hcases ip' j hj with ⟨_, hip⟩ | ⟨_, hcached'⟩
          · exact absurd (hip ▸ hcached) (hother i hi)
          · exact hunique ip' i j hcached hcached'

theorem arpLearn_eq (ip : UInt32) (mac : Mac) :
    (world.arpLearn ip mac).pending = world.pending ∧
      (world.arpLearn ip mac).memory = world.memory ∧
      (world.arpLearn ip mac).attempts = world.attempts ∧
      (world.arpLearn ip mac).sent = world.sent := by
  unfold arpLearn
  split
  · exact ⟨rfl, rfl, rfl, rfl⟩
  · split <;> exact ⟨rfl, rfl, rfl, rfl⟩

/-! ## A reply -/

section Flush

variable (ip : UInt32) (mac : Mac)

theorem arpFlush_eq (entries : List Pending) (world : NetWorld) :
    (arpFlush ip mac entries world).1 = entries.filter (fun entry => entry.dst ≠ ip) ∧
      (arpFlush ip mac entries world).2.cache = world.cache ∧
      (arpFlush ip mac entries world).2.pending = world.pending ∧
      world.attempts ≤ (arpFlush ip mac entries world).2.attempts := by
  induction entries generalizing world with
  | nil => exact ⟨rfl, rfl, rfl, le_refl _⟩
  | cons entry rest ih =>
      unfold arpFlush
      by_cases hdst : entry.dst = ip
      · rw [if_pos hdst, List.filter_cons_of_neg (by simp [hdst])]
        obtain ⟨hcache, hpending, _, hattempts, _, _⟩ := world.etherOutput_eq entry.m mac .ip
        obtain ⟨hkept, hcache', hpending', hattempts'⟩ := ih (world.etherOutput entry.m mac .ip)
        refine ⟨hkept, hcache'.trans hcache, hpending'.trans hpending, ?_⟩
        omega
      · rw [if_neg hdst, List.filter_cons_of_pos (by simp [hdst])]
        obtain ⟨hkept, hcache, hpending, hattempts⟩ := ih world
        exact ⟨congrArg (entry :: ·) hkept, hcache, hpending, hattempts⟩

theorem length_sent_arpFlush_le (entries : List Pending) (world : NetWorld) :
    (arpFlush ip mac entries world).2.sent.length ≤
      world.sent.length + (entries.filter fun entry => entry.dst = ip).length := by
  induction entries generalizing world with
  | nil => exact le_refl _
  | cons entry rest ih =>
      unfold arpFlush
      by_cases hdst : entry.dst = ip
      · rw [if_pos hdst, List.filter_cons_of_pos (by simp [hdst]), List.length_cons]
        apply (ih (world.etherOutput entry.m mac .ip)).trans
        rw [(world.etherOutput_eq entry.m mac .ip).2.2.2.2.2]
        split
        · rw [List.length_append, List.length_singleton]
          omega
        · omega
      · rw [if_neg hdst, List.filter_cons_of_neg (by simp [hdst])]
        exact ih world

/-- Everything that waits for the address is sent if and only if all headers can be had. -/
theorem sent_arpFlush_iff (entries : List Pending) (world : NetWorld) :
    (arpFlush ip mac entries world).2.sent = world.sent ++
        (entries.filter fun entry => entry.dst = ip).map (fun entry => ⟨entry.m, mac, .ip⟩) ↔
      ∀ k, k < (entries.filter fun entry => entry.dst = ip).length → world.Available k := by
  induction entries generalizing world with
  | nil => exact ⟨fun _ k hk => absurd hk (Nat.not_lt_zero k), fun _ => (List.append_nil _).symm⟩
  | cons entry rest ih =>
      unfold arpFlush
      by_cases hdst : entry.dst = ip
      · rw [if_pos hdst, List.filter_cons_of_pos (by simp [hdst]), List.map_cons,
          List.length_cons]
        obtain ⟨_, _, hmemory, hattempts, _, hsent⟩ := world.etherOutput_eq entry.m mac .ip
        have hshift : ∀ k, (world.etherOutput entry.m mac .ip).Available k ↔
            world.Available (k + 1) := by
          intro k
          unfold Available
          rw [hmemory, hattempts, Nat.add_right_comm, Nat.add_assoc]
        by_cases hheader : world.Available 0
        · rw [if_pos hheader] at hsent
          have hrest := ih (world.etherOutput entry.m mac .ip)
          rw [hsent, List.append_assoc, List.singleton_append] at hrest
          apply hrest.trans
          constructor
          · intro hall k hk
            cases k with
            | zero => exact hheader
            | succ k => exact (hshift k).mp (hall k (Nat.lt_of_succ_lt_succ hk))
          · intro hall k hk
            exact (hshift k).mpr (hall (k + 1) (Nat.succ_lt_succ hk))
        · rw [if_neg hheader] at hsent
          constructor
          · intro heq
            have hlength := length_sent_arpFlush_le ip mac rest (world.etherOutput entry.m mac .ip)
            rw [heq, hsent, List.length_append, List.length_cons, List.length_map] at hlength
            omega
          · intro hall
            exact absurd (hall 0 (Nat.zero_lt_succ _)) hheader
      · rw [if_neg hdst, List.filter_cons_of_neg (by simp [hdst])]
        exact ih world

end Flush

theorem arpReply_eq (m : ℕ) (arp : EtherArp) :
    world.arpReply m arp =
      ({ (arpFlush arp.spa arp.sha world.pending
          { world.arpLearn arp.spa arp.sha with pending := [] }).2 with
        pending := (arpFlush arp.spa arp.sha world.pending
          { world.arpLearn arp.spa arp.sha with pending := [] }).1 } : NetWorld).mFree m := by
  unfold arpReply
  dsimp only
  rw [(world.arpLearn_eq arp.spa arp.sha).1]

theorem flushes_iff (m : ℕ) (arp : EtherArp) :
    world.Flushes m arp ↔
      ∀ k, k < (world.waiting arp.spa).length → world.Available k := by
  obtain ⟨_, hmemory, hattempts, hsent⟩ := world.arpLearn_eq arp.spa arp.sha
  have hiff := sent_arpFlush_iff arp.spa arp.sha world.pending
    { world.arpLearn arp.spa arp.sha with pending := [] }
  have hkept := (arpFlush_eq arp.spa arp.sha world.pending
    { world.arpLearn arp.spa arp.sha with pending := [] }).1
  have havailable : ∀ k, ({ world.arpLearn arp.spa arp.sha with pending := [] } :
      NetWorld).Available k ↔ world.Available k := by
    intro k
    unfold Available
    rw [hmemory, hattempts]
  constructor
  · intro hflushes k hk
    have hall := hflushes.sent
    rw [arpReply_eq, ← hsent] at hall
    exact (havailable k).mp (hiff.mp hall k hk)
  · intro hall
    constructor
    · rw [arpReply_eq, ← hsent]
      exact hiff.mpr fun k hk => (havailable k).mpr (hall k hk)
    · rw [arpReply_eq]
      exact hkept

/-! ## A packet for an address -/

section Send

variable {ifp : Interface} {m : ℕ} {dst : UInt32}

/-- A known address is sent to at once, unless a packet waits for it. -/
theorem resolves_known_iff (hsound : world.Sound) (hunicast : ¬ ifp.Broadcasts dst)
    {i : Fin arpCacheSize} (hfind : world.arpFind dst = some i) :
    world.Resolves ifp m dst ↔
      (∀ entry ∈ world.pending, entry.dst ≠ dst) ∧ world.Available 0 := by
  have hcached := caches_of_arpFind hfind
  have hsome : ¬ ∀ j, ¬ world.Caches dst j := fun h => h i hcached
  by_cases hwaits : ∃ entry ∈ world.pending, entry.dst = dst
  · have hany : (world.pending.any fun entry => entry.dst == dst) = true := by
      simpa using hwaits
    constructor
    · intro hresolves
      have hsent := hresolves.known i hcached
      unfold arpResolve at hsent
      rw [if_neg hunicast, if_pos hany] at hsent
      have hlength := congrArg List.length hsent
      rw [List.length_append, List.length_singleton] at hlength
      exact absurd hlength (Nat.ne_of_lt (Nat.lt_succ_self _))
    · rintro ⟨hnone, _⟩
      obtain ⟨entry, hentry, hdst⟩ := hwaits
      exact absurd hdst (hnone entry hentry)
  · have hany : ¬ (world.pending.any fun entry => entry.dst == dst) = true := by
      simpa using hwaits
    have hresolve : world.arpResolve ifp m dst =
        (0, world.etherOutput m (world.cache i).mac .ip) := by
      unfold arpResolve
      rw [if_neg hunicast, if_neg hany, hfind]
    have hsent := (world.etherOutput_eq m (world.cache i).mac .ip).2.2.2.2.2
    constructor
    · intro hresolves
      have hknown := hresolves.known i hcached
      rw [hresolve] at hknown
      refine ⟨fun entry hentry hdst => hwaits ⟨entry, hentry, hdst⟩, ?_⟩
      by_contra hheader
      rw [if_neg hheader] at hsent
      have hlength := congrArg List.length (hsent.symm.trans hknown)
      rw [List.length_append, List.length_singleton] at hlength
      omega
    · rintro ⟨_, hheader⟩
      rw [if_pos hheader] at hsent
      constructor
      · intro j hj
        rw [hsound.unique dst j i hj hcached, hresolve]
        exact hsent
      · exact fun h => absurd h hsome
      · exact fun h => absurd h hsome

/-- The packet waits, and the request has been written. -/
def asking (world : NetWorld) (ifp : Interface) (m : ℕ) (dst : UInt32) : NetWorld :=
  { world with
    pending := world.pending ++ [⟨dst, m⟩]
    attempts := world.attempts + 1
    allocated := world.allocated ++ [world.attempts]
    arpData := update world.arpData world.attempts
      (some ⟨.request, ifp.ifHwaddr, ifp.ifIp, 0, dst⟩) }

theorem arpAsk_of_available (h : world.Available 0) :
    world.arpAsk ifp m dst =
      (0, (world.asking ifp m dst).etherOutput world.attempts broadcastMac .arp) := by
  have hqueued : ({ world with pending := world.pending ++ [⟨dst, m⟩] } : NetWorld).Available 0 := h
  unfold arpAsk
  dsimp only
  rw [mGet_of_available _ hqueued]
  rfl

theorem arpAsk_of_not_available (h : ¬ world.Available 0) :
    world.arpAsk ifp m dst =
      (-1, { world with
        pending := world.pending ++ [⟨dst, m⟩]
        attempts := world.attempts + 1 }) := by
  have hqueued : ¬ ({ world with pending := world.pending ++ [⟨dst, m⟩] } : NetWorld).Available 0 :=
    h
  unfold arpAsk
  dsimp only
  rw [mGet_of_not_available _ hqueued]

theorem resolves_asks_iff (hunknown : ∀ i, ¬ world.Caches dst i)
    (hresolve : world.arpResolve ifp m dst = world.arpAsk ifp m dst) :
    world.Resolves ifp m dst ↔ world.Available 0 ∧ world.Available 1 := by
  have hmember : (⟨dst, m⟩ : Pending) ∈ world.pending ++ [⟨dst, m⟩] :=
    List.mem_append_right _ (List.mem_singleton_self _)
  by_cases hfirst : world.Available 0
  · rw [arpAsk_of_available hfirst] at hresolve
    obtain ⟨_, hpending, _, _, hdata, hsent⟩ :=
      (world.asking ifp m dst).etherOutput_eq world.attempts broadcastMac .arp
    have hheader : (world.asking ifp m dst).Available 0 ↔ world.Available 1 := Iff.rfl
    constructor
    · intro hresolves
      obtain ⟨am, hasked, _⟩ := (hresolves.waits hunknown (congrArg Prod.fst hresolve)).2
      refine ⟨hfirst, ?_⟩
      by_contra hnone
      rw [if_neg (hheader.not.mpr hnone)] at hsent
      rw [hresolve, hsent] at hasked
      have hlength := congrArg List.length hasked
      rw [List.length_append, List.length_singleton] at hlength
      exact absurd hlength (Nat.ne_of_lt (Nat.lt_succ_self _))
    · rintro ⟨_, hsecond⟩
      rw [if_pos (hheader.mpr hsecond)] at hsent
      constructor
      · exact fun i hi => absurd hi (hunknown i)
      · intro _ _
        rw [hresolve]
        refine ⟨hpending.symm ▸ hmember, world.attempts, hsent, ?_⟩
        rw [hdata]
        exact update_self ..
      · intro _ hret
        rw [hresolve] at hret
        have hzero : (0 : ℤ) = -1 := hret
        exact absurd hzero (by decide)
  · rw [arpAsk_of_not_available hfirst] at hresolve
    constructor
    · intro hresolves
      have hgone := (hresolves.drops hunknown (congrArg Prod.fst hresolve)).2
      rw [hresolve] at hgone
      exact absurd rfl (hgone ⟨dst, m⟩ hmember)
    · exact fun h => absurd h.1 hfirst

/-- An unknown address is asked for, unless that is not needed or there is no room. -/
theorem resolves_unknown_iff (hunicast : ¬ ifp.Broadcasts dst)
    (hfind : world.arpFind dst = none) (hfresh : ∀ entry ∈ world.pending, entry.m ≠ m) :
    world.Resolves ifp m dst ↔
      (∃ entry ∈ world.pending, entry.dst = dst) ∨ arpPendingMax ≤ world.pending.length ∨
        (world.Available 0 ∧ world.Available 1) := by
  have hunknown := not_caches_of_arpFind hfind
  by_cases hdropped : (∃ entry ∈ world.pending, entry.dst = dst) ∨
      arpPendingMax ≤ world.pending.length
  · have hresolve : world.arpResolve ifp m dst = (-1, world.mFree m) := by
      unfold arpResolve
      rw [if_neg hunicast]
      by_cases hwaits : ∃ entry ∈ world.pending, entry.dst = dst
      · rw [if_pos (by simpa using hwaits)]
      · rw [if_neg (by simpa using hwaits), hfind]
        exact if_pos (hdropped.resolve_left hwaits)
    constructor
    · intro _
      rcases hdropped with hwaits | hfull
      · exact Or.inl hwaits
      · exact Or.inr (Or.inl hfull)
    · intro _
      constructor
      · exact fun i hi => absurd hi (hunknown i)
      · intro _ hret
        rw [hresolve] at hret
        have hzero : (-1 : ℤ) = 0 := hret
        exact absurd hzero (by decide)
      · intro _ _
        rw [hresolve]
        exact ⟨List.mem_append_right _ (List.mem_singleton_self m), hfresh⟩
  · have hwaits : ¬ ∃ entry ∈ world.pending, entry.dst = dst := fun h => hdropped (Or.inl h)
    have hroom : ¬ arpPendingMax ≤ world.pending.length := fun h => hdropped (Or.inr h)
    have hresolve : world.arpResolve ifp m dst = world.arpAsk ifp m dst := by
      unfold arpResolve
      rw [if_neg hunicast, if_neg (by simpa using hwaits), hfind]
      exact if_neg hroom
    have hiff := resolves_asks_iff hunknown hresolve
    apply hiff.trans
    constructor
    · exact fun h => Or.inr (Or.inr h)
    · intro h
      exact (h.resolve_left hwaits).resolve_left hroom

end Send

/-! ## Runs -/

theorem Sound.of_frame (hsound : world.Sound) {next : NetWorld}
    (hcache : next.cache = world.cache) (hattempts : world.attempts ≤ next.attempts)
    (hpending : ∀ entry ∈ next.pending, entry ∈ world.pending ∨ entry.m < next.attempts) :
    next.Sound := by
  constructor
  · unfold Caches
    rw [hcache]
    exact hsound.unique
  · intro entry hentry
    rcases hpending entry hentry with hold | hnew
    · exact (hsound.made entry hold).trans_le hattempts
    · exact hnew

theorem Sound.mGetcl (hsound : world.Sound) : world.mGetcl.2.Sound := by
  unfold NetWorld.mGetcl
  by_cases hfirst : world.Available 0
  · rw [mGet_of_available world hfirst]
    dsimp only
    split
    · exact hsound.of_frame rfl (Nat.le_add_right _ 2) fun _ h => Or.inl h
    · exact hsound.of_frame rfl (Nat.le_add_right _ 2) fun _ h => Or.inl h
  · rw [mGet_of_not_available world hfirst]
    exact hsound.of_frame rfl (Nat.le_succ _) fun _ h => Or.inl h

theorem Sound.etherOutput (hsound : world.Sound) (m : ℕ) (dst : Mac) (type : EtherType) :
    (world.etherOutput m dst type).Sound := by
  obtain ⟨hcache, hpending, _, hattempts, _, _⟩ := world.etherOutput_eq m dst type
  exact hsound.of_frame hcache (by omega) fun _ h => Or.inl (hpending ▸ h)

theorem Sound.mFree (hsound : world.Sound) (m : ℕ) : (world.mFree m).Sound :=
  hsound.of_frame rfl (le_refl _) fun _ h => Or.inl h

theorem Sound.arpAsk (hsound : world.Sound) (ifp : Interface) {m : ℕ} (dst : UInt32)
    (hm : m < world.attempts) : (world.arpAsk ifp m dst).2.Sound := by
  have hpending : ∀ entry ∈ world.pending ++ [⟨dst, m⟩],
      entry ∈ world.pending ∨ entry.m < world.attempts + 1 := by
    intro entry hentry
    rcases List.mem_append.mp hentry with hold | hnew
    · exact Or.inl hold
    · rw [List.mem_singleton.mp hnew]
      exact Or.inr (Nat.lt_succ_of_lt hm)
  by_cases hfirst : world.Available 0
  · rw [arpAsk_of_available hfirst]
    have hasking : (world.asking ifp m dst).Sound :=
      hsound.of_frame rfl (Nat.le_succ _) hpending
    exact hasking.etherOutput _ _ _
  · rw [arpAsk_of_not_available hfirst]
    exact hsound.of_frame rfl (Nat.le_succ _) hpending

theorem Sound.arpResolve (hsound : world.Sound) (ifp : Interface) {m : ℕ} (dst : UInt32)
    (hm : m < world.attempts) : (world.arpResolve ifp m dst).2.Sound := by
  unfold NetWorld.arpResolve
  split
  · exact hsound.etherOutput _ _ _
  · split
    · exact hsound.mFree m
    · split
      · exact hsound.etherOutput _ _ _
      · split
        · exact hsound.mFree m
        · exact hsound.arpAsk ifp dst hm

theorem Sound.arpLearn (hsound : world.Sound) (ip : UInt32) (mac : Mac) :
    (world.arpLearn ip mac).Sound := by
  obtain ⟨hpending, _, hattempts, _⟩ := world.arpLearn_eq ip mac
  refine ⟨unique_arpLearn hsound.unique ip mac, ?_⟩
  rw [hpending, hattempts]
  exact hsound.made

theorem Sound.arpReply (hsound : world.Sound) (m : ℕ) (arp : EtherArp) :
    (world.arpReply m arp).Sound := by
  have hlearned := hsound.arpLearn arp.spa arp.sha
  rw [arpReply_eq]
  obtain ⟨hkept, hcache, _, hattempts⟩ := arpFlush_eq arp.spa arp.sha world.pending
    { world.arpLearn arp.spa arp.sha with pending := [] }
  apply Sound.mFree
  refine hlearned.of_frame ?_ ?_ ?_
  · exact hcache
  · exact hattempts
  · intro entry hentry
    left
    rw [(world.arpLearn_eq arp.spa arp.sha).1]
    rw [hkept] at hentry
    exact List.mem_of_mem_filter hentry

theorem Sound.arpRequest (hsound : world.Sound) (ifp : Interface) (m : ℕ) (arp : EtherArp) :
    (world.arpRequest ifp m arp).Sound := by
  have hlearned := hsound.arpLearn arp.spa arp.sha
  unfold NetWorld.arpRequest
  dsimp only
  split
  · by_cases hfirst : (world.arpLearn arp.spa arp.sha).Available 0
    · rw [mGet_of_available _ hfirst]
      apply Sound.mFree
      apply Sound.etherOutput
      exact hlearned.of_frame rfl (Nat.le_succ _) fun _ h => Or.inl h
    · rw [mGet_of_not_available _ hfirst]
      apply Sound.mFree
      exact hlearned.of_frame rfl (Nat.le_succ _) fun _ h => Or.inl h
  · exact hlearned.mFree m

theorem Sound.arpInput (hsound : world.Sound) (ifp : Interface) (m : ℕ)
    (packet : Option EtherArp) : (world.arpInput ifp m packet).Sound := by
  unfold NetWorld.arpInput
  split
  · exact hsound.mFree m
  · split
    · exact hsound.arpReply m _
    · exact hsound.arpRequest ifp m _
    · exact hsound.mFree m

theorem Sound.of_mGetcl (hsound : world.Sound) {m : Option ℕ} {made : NetWorld}
    (hmade : world.mGetcl = (m, made)) : made.Sound := by
  have hgot := hsound.mGetcl
  rw [hmade] at hgot
  exact hgot

theorem Sound.arpNext (hsound : world.Sound) (event : ArpEvent) : (world.arpNext event).Sound := by
  unfold NetWorld.arpNext
  split
  · next made hmade => exact hsound.of_mGetcl hmade
  · next m made hmade =>
      have hgot := hsound.of_mGetcl hmade
      obtain ⟨hm, hattempts, _, _⟩ := mGetcl_eq world hmade
      cases event with
      | send ifp dst => exact hgot.arpResolve ifp dst (by omega)
      | receive ifp packet => exact hgot.arpInput ifp m packet

theorem sound_boot (memory : ℕ → Bool) : (boot memory).Sound :=
  ⟨fun _ _ _ h => (nomatch h.1), nofun⟩

theorem delivers_iff_prepared (hsound : world.Sound) (event : ArpEvent) (next : NetWorld) :
    world.Delivers event next ↔ world.Prepared event next := by
  apply forall_congr'
  intro m
  apply forall_congr'
  intro made
  apply forall_congr'
  intro hmade
  have hgot := hsound.of_mGetcl hmade
  obtain ⟨hm, _, _, hpending⟩ := mGetcl_eq world hmade
  cases event with
  | send ifp dst =>
      apply forall_congr'
      intro hunicast
      cases hfind : made.arpFind dst with
      | some i =>
          rw [if_pos Option.isSome_some]
          exact resolves_known_iff hgot hunicast hfind
      | none =>
          rw [if_neg (by decide)]
          apply resolves_unknown_iff hunicast hfind
          intro entry hentry
          rw [hm]
          rw [hpending] at hentry
          exact (hsound.made entry hentry).ne
  | receive ifp packet =>
      apply forall_congr'
      intro arp
      apply forall_congr'
      intro _
      apply forall_congr'
      intro _
      exact flushes_iff m arp

/-- Address resolution delivers in exactly the runs that are prepared for it. -/
theorem delivers_iff (memory : ℕ → Bool) (events : List ArpEvent) :
    Along Delivers (boot memory) (trace arpNext (boot memory) events) ↔
      Along Prepared (boot memory) (trace arpNext (boot memory) events) := by
  have hstep : ∀ (world : NetWorld) (event : ArpEvent), world.Sound →
      (world.Delivers event (world.arpNext event) ↔ world.Prepared event (world.arpNext event)) ∧
        (world.arpNext event).Sound := by
    intro world event hsound
    exact ⟨delivers_iff_prepared hsound event _, hsound.arpNext event⟩
  exact along_trace_iff arpNext hstep (sound_boot memory) events

/-! ## A host that asks while a packet waits for it -/

def hostInterface : Interface := ⟨0x0F02000A, 0x00FFFFFF, 0x0202000A, 0x525400123456#48⟩

def hostAddress : UInt32 := 0x0302000A

/-- The request of the host that the packet waits for, which names its hardware address. -/
def hostRequest : EtherArp :=
  ⟨.request, 0x525400ABCDEF#48, hostAddress, 0, hostInterface.ifIp⟩

/-- The reply is lost, the host's own request is learned, and the next packet is dropped. -/
theorem not_delivers_hostRequest :
    ¬ Along Delivers (boot fun _ => true) (trace arpNext (boot fun _ => true)
      [.send hostInterface hostAddress, .receive hostInterface (some hostRequest),
        .send hostInterface hostAddress]) := by
  rintro ⟨_, _, hdelivers, _⟩
  have hresolves := hdelivers _ _ rfl (by decide)
  have hsent := congrArg List.length (hresolves.known ⟨0, by decide⟩ (by decide))
  exact absurd hsent (by decide)

end NetWorld

end EigenOS.Net
