import EigenOS.Library.Tally
import EigenOS.Library.Transition
import EigenOS.Pthread.Barrier

/-!
# Cycles of a barrier

The threads that have ended a cycle, in order, say how many cycles are over.  A thread is at most
one cycle ahead of another, so the counter that a waiting thread has recorded is the one of its
cycle, and it differs from the current one exactly if that cycle is over.
-/

namespace EigenOS.Pthread

open EigenOS.Tally EigenOS.Transition Function

/-- Where a thread has the mutex. -/
def BarrierPc.holds : BarrierPc → Bool
  | .outside | .lock | .asleep _ | .relock _ => false
  | _ => true

/-- Where a thread has taken itself off the number of those to come, and has not arrived yet. -/
def BarrierPc.arriving : BarrierPc → Bool
  | .leftTest | .tripLoad | .tripStore _ => true
  | _ => false

/-- Where the last thread is between the advance of the counter and the broadcast. -/
def BarrierPc.advancing : BarrierPc → Bool
  | .refill | .broadcast => true
  | _ => false

structure BarrierThread.Counts (th : BarrierThread) (calls arrived returned : ℕ) : Prop where
  calls : th.calls = calls
  arrived : th.arrived = arrived
  returned : th.results.length = returned

/-- A thread waits in the cycle after `cycle` others.  That one is the current one, or it is over
and another thread has ended it. -/
def WaitsIn {Thread : Type*} (trippers : List Thread) (t : Thread) (cycle : ℕ) : Prop :=
  cycle = trippers.length ∨ cycle + 1 = trippers.length ∧ trippers[cycle]? ≠ some t

/-- The waits of a thread at each place, once the given threads have each ended a cycle. -/
def Placed {Thread : Type*} (trippers : List Thread) (t : Thread) (th : BarrierThread) : Prop :=
  match th.pc with
  | .outside => th.Counts trippers.length trippers.length trippers.length
  | .lock | .leftLoad | .leftStore _ | .leftTest | .tripLoad | .tripStore _ =>
    th.Counts (trippers.length + 1) trippers.length trippers.length
  | .record =>
    th.Counts (trippers.length + 1) (trippers.length + 1) trippers.length
  | .condWait trip =>
    th.Counts (trippers.length + 1) (trippers.length + 1) trippers.length ∧
      trip = UInt32.ofNat trippers.length
  | .tripTest trip | .asleep trip | .relock trip =>
    ∃ cycle, th.Counts (cycle + 1) (cycle + 1) cycle ∧ WaitsIn trippers t cycle ∧
      trip = UInt32.ofNat cycle
  | .refill | .broadcast | .serialUnlock =>
    ∃ cycle, th.Counts (cycle + 1) (cycle + 1) cycle ∧ cycle + 1 = trippers.length ∧
      trippers[cycle]? = some t
  | .unlock =>
    ∃ cycle, th.Counts (cycle + 1) (cycle + 1) cycle ∧ cycle + 1 = trippers.length ∧
      trippers[cycle]? ≠ some t

/-- What a thread inside its critical section knows of the fields of the barrier. -/
def BarrierPc.Knows (left trip : UInt32) : BarrierPc → Prop
  | .leftStore seen => seen = left
  | .tripLoad => left = 0
  | .tripStore seen => left = 0 ∧ seen = trip
  | _ => True

/-- The thread need not come any more in the cycle after `cycles` others. -/
def HasCome (cycles : ℕ) (th : BarrierThread) : Prop :=
  th.arrived = cycles + 1 ∨ th.pc.arriving = true

instance (cycles : ℕ) : DecidablePred (HasCome cycles) := fun _ =>
  inferInstanceAs (Decidable (_ ∨ _))

variable {Thread : Type*}

/-- The owner of the mutex is the thread that is where it has the mutex. -/
def Owned (owner : Option Thread) (thread : Thread → BarrierThread) : Prop :=
  ∀ t, (thread t).pc.holds = true ↔ owner = some t

section Invariant

variable [DecidableEq Thread]

/-- The waits of a thread have returned the serial value in the cycles that it has ended. -/
def Outcomes (trippers : List Thread) (t : Thread) (results : List ℤ) : Prop :=
  ∀ (cycle : ℕ) (result : ℤ), results[cycle]? = some result → ∃ u, trippers[cycle]? = some u ∧
    result = if u = t then PTHREAD_BARRIER_SERIAL_THREAD else 0

variable [Fintype Thread]

/-- How many threads need not come any more. -/
def cameCount (cycles : ℕ) (thread : Thread → BarrierThread) : ℕ :=
  tally Finset.univ thread (HasCome cycles)

structure BarrierInv (trippers : List Thread) (s : BarrierState Thread) : Prop where
  card : Fintype.card Thread = s.count.toNat
  initialized : s.initialized = true
  trip : s.trip = UInt32.ofNat trippers.length
  owned : Owned s.owner s.thread
  placed : ∀ t, Placed trippers t (s.thread t)
  knows : ∀ t, (s.thread t).pc.Knows s.left s.trip
  left : (∀ t, (s.thread t).pc ≠ .refill) →
    s.left.toNat + cameCount trippers.length s.thread = Fintype.card Thread
  refilled : (∃ t, (s.thread t).pc = .refill) → cameCount trippers.length s.thread = 0
  missing : ∃ t, (s.thread t).arrived = trippers.length
  asleep : ∀ t trip, (s.thread t).pc = .asleep trip →
    (s.thread t).arrived = trippers.length + 1 ∨ ∃ u, (s.thread u).pc.advancing = true
  outcomes : ∀ t, Outcomes trippers t (s.thread t).results

end Invariant

theorem BarrierPc.advancing_cases {pc : BarrierPc} (h : pc.advancing = true) :
    pc = .refill ∨ pc = .broadcast := by
  cases pc with
  | refill => exact .inl rfl
  | broadcast => exact .inr rfl
  | outside | lock | leftLoad | leftStore | leftTest | tripLoad | tripStore | serialUnlock | record
  | tripTest | condWait | asleep | relock | unlock => exact nomatch h

theorem ofNat_succ_ne (cycle : ℕ) : UInt32.ofNat (cycle + 1) ≠ UInt32.ofNat cycle := by
  rw [UInt32.ofNat_add]
  simp

/-! ## Who has the mutex -/

section Owner

variable {owner : Option Thread} {thread : Thread → BarrierThread} {t u : Thread}
  {th : BarrierThread}

theorem Owned.unique (h : Owned owner thread) (ht : (thread t).pc.holds = true)
    (hu : (thread u).pc.holds = true) : u = t := by
  have hsome := ((h u).mp hu).symm.trans ((h t).mp ht)
  exact Option.some.inj hsome

variable [DecidableEq Thread]

theorem Owned.keep (h : Owned owner thread) (hsame : th.pc.holds = (thread t).pc.holds) :
    Owned owner (update thread t th) := by
  intro u
  by_cases heq : u = t
  · rw [heq, update_self, hsame]
    exact h t
  · rw [update_of_ne heq]
    exact h u

theorem Owned.take (h : Owned owner thread) (hfree : owner = none) (hth : th.pc.holds = true) :
    Owned (some t) (update thread t th) := by
  intro u
  by_cases heq : u = t
  · rw [heq, update_self]
    exact iff_of_true hth rfl
  · rw [update_of_ne heq, h u, hfree]
    exact iff_of_false nofun fun hsome => heq (Option.some.inj hsome).symm

theorem Owned.release (h : Owned owner thread) (ht : (thread t).pc.holds = true)
    (hth : th.pc.holds = false) : Owned none (update thread t th) := by
  intro u
  by_cases heq : u = t
  · rw [heq, update_self, hth]
    exact iff_of_false Bool.false_ne_true nofun
  · rw [update_of_ne heq]
    exact iff_of_false (fun hu => heq (h.unique ht hu)) nofun

end Owner

theorem knows_of_not_holds {pc : BarrierPc} (h : pc.holds = false) (left trip : UInt32) :
    pc.Knows left trip := by
  cases pc with
  | outside | lock | asleep | relock => trivial
  | leftLoad | leftStore | leftTest | tripLoad | tripStore | refill | broadcast | serialUnlock
  | record | tripTest | condWait | unlock => exact nomatch h

theorem BarrierPc.not_arriving {pc : BarrierPc} (h : pc.holds = false) :
    ¬ pc.arriving = true := by
  cases pc with
  | leftTest | tripLoad | tripStore => exact nomatch h
  | outside | lock | leftLoad | leftStore | refill | broadcast | serialUnlock | record | tripTest
  | condWait | asleep | relock | unlock => exact Bool.false_ne_true

/-! ## One thread moves -/

section Moves

variable [DecidableEq Thread] [Fintype Thread] {trippers : List Thread} {s : BarrierState Thread}
  {t : Thread} {th : BarrierThread}

theorem cameCount_update (cycles : ℕ) (thread : Thread → BarrierThread) (t : Thread)
    (th : BarrierThread) :
    cameCount cycles (update thread t th) + weight (HasCome cycles) (thread t) =
      cameCount cycles thread + weight (HasCome cycles) th := tally_update _ _ (Finset.mem_univ t) th

theorem cameCount_update_of_iff {cycles : ℕ} {thread : Thread → BarrierThread}
    (hiff : HasCome cycles th ↔ HasCome cycles (thread t)) :
    cameCount cycles (update thread t th) = cameCount cycles thread := by
  have htally := cameCount_update cycles thread t th
  rw [weight_congr hiff] at htally
  exact Nat.add_right_cancel htally

theorem BarrierInv.others_know (h : BarrierInv trippers s) (ht : (s.thread t).pc.holds = true)
    {u : Thread} (hne : u ≠ t) (left trip : UInt32) : (s.thread u).pc.Knows left trip := by
  apply knows_of_not_holds
  rw [Bool.eq_false_iff]
  exact fun hu => hne (h.owned.unique ht hu)

theorem BarrierInv.asleep_update (h : BarrierInv trippers s)
    (hbefore : (s.thread t).pc.advancing = false)
    (hasleep : ∀ trip, th.pc = .asleep trip → th.arrived = trippers.length + 1)
    (u : Thread) (trip : UInt32) (hu : (update s.thread t th u).pc = .asleep trip) :
    (update s.thread t th u).arrived = trippers.length + 1 ∨
      ∃ w, (update s.thread t th w).pc.advancing = true := by
  by_cases heq : u = t
  · rw [heq, update_self] at hu ⊢
    exact .inl (hasleep trip hu)
  · rw [update_of_ne heq] at hu ⊢
    rcases h.asleep u trip hu with harrived | ⟨w, hw⟩
    · exact .inl harrived
    · have hne : w ≠ t := by
        rintro rfl
        exact nomatch hbefore.symm.trans hw
      refine .inr ⟨w, ?_⟩
      rwa [update_of_ne hne]

theorem BarrierInv.steady (h : BarrierInv trippers s) {owner : Option Thread} {left : UInt32}
    (howned : Owned owner (update s.thread t th))
    (hleft : left = s.left ∨ (s.thread t).pc.holds = true)
    (hplaced : Placed trippers t th) (hknows : th.pc.Knows left s.trip)
    (hbefore : (s.thread t).pc ≠ .refill) (hafter : th.pc ≠ .refill)
    (hcount : left.toNat + weight (HasCome trippers.length) th =
      s.left.toNat + weight (HasCome trippers.length) (s.thread t))
    (hmissing : ∃ u, (update s.thread t th u).arrived = trippers.length)
    (hasleep : ∀ u trip, (update s.thread t th u).pc = .asleep trip →
      (update s.thread t th u).arrived = trippers.length + 1 ∨
        ∃ w, (update s.thread t th w).pc.advancing = true)
    (houtcomes : Outcomes trippers t th.results) :
    BarrierInv trippers
      ⟨owner, s.count, s.trip, left, s.initialized, update s.thread t th⟩ := by
  have htally := cameCount_update trippers.length s.thread t th
  refine ⟨h.card, h.initialized, h.trip, howned, ?placed, ?knows, ?left, ?refilled, hmissing,
    hasleep, ?outcomes⟩
  case placed =>
    intro u
    dsimp only
    by_cases heq : u = t
    · rw [heq, update_self]
      exact hplaced
    · rw [update_of_ne heq]
      exact h.placed u
  case knows =>
    intro u
    dsimp only
    by_cases heq : u = t
    · rw [heq, update_self]
      exact hknows
    · rw [update_of_ne heq]
      rcases hleft with rfl | hholds
      · exact h.knows u
      · exact h.others_know hholds heq left s.trip
  case left =>
    intro hnone
    have hold := h.left fun u hu => by
      have hne : u ≠ t := by
        rintro rfl
        exact hbefore hu
      apply hnone u
      dsimp only
      rwa [update_of_ne hne]
    dsimp only
    omega
  case refilled =>
    rintro ⟨u, hu⟩
    dsimp only at hu
    have hne : u ≠ t := by
      rintro rfl
      rw [update_self] at hu
      exact hafter hu
    rw [update_of_ne hne] at hu
    have hzero := h.refilled ⟨u, hu⟩
    have hsame : left = s.left := by
      refine hleft.resolve_right fun hholds => hne (h.owned.unique hholds ?_)
      rw [hu]
      rfl
    rw [hsame] at hcount
    dsimp only
    omega
  case outcomes =>
    intro u
    dsimp only
    by_cases heq : u = t
    · rw [heq, update_self]
      exact houtcomes
    · rw [update_of_ne heq]
      exact h.outcomes u

theorem BarrierInv.missing_update (h : BarrierInv trippers s)
    (harrived : th.arrived = (s.thread t).arrived) :
    ∃ u, (update s.thread t th u).arrived = trippers.length := by
  obtain ⟨u, hu⟩ := h.missing
  refine ⟨u, ?_⟩
  by_cases heq : u = t
  · rw [heq, update_self, harrived, ← heq]
    exact hu
  · rwa [update_of_ne heq]

theorem BarrierInv.move (h : BarrierInv trippers s) {p : BarrierPc} {owner : Option Thread}
    (hpc : (s.thread t).pc = p) (howned : Owned owner (update s.thread t th))
    (hplaced : Placed trippers t th) (hknows : th.pc.Knows s.left s.trip)
    (hbefore : p.advancing = false) (hafter : th.pc.advancing = false)
    (harrived : th.arrived = (s.thread t).arrived) (harriving : th.pc.arriving = p.arriving)
    (hasleep : ∀ trip, th.pc = .asleep trip → th.arrived = trippers.length + 1)
    (houtcomes : Outcomes trippers t th.results) :
    BarrierInv trippers
      ⟨owner, s.count, s.trip, s.left, s.initialized, update s.thread t th⟩ := by
  rw [← hpc] at hbefore harriving
  refine h.steady howned (.inl rfl) hplaced hknows ?_ ?_ ?_ (h.missing_update harrived)
    (h.asleep_update hbefore hasleep) houtcomes
  · intro hrefill
    rw [hrefill] at hbefore
    exact nomatch hbefore
  · intro hrefill
    rw [hrefill] at hafter
    exact nomatch hafter
  · have hiff : HasCome trippers.length th ↔ HasCome trippers.length (s.thread t) := by
      unfold HasCome
      rw [harrived, harriving]
    rw [weight_congr hiff]

theorem BarrierInv.goTo (h : BarrierInv trippers s) {p q : BarrierPc} {owner : Option Thread}
    (hpc : (s.thread t).pc = p)
    (howned : Owned owner (update s.thread t { s.thread t with pc := q }))
    (hplaced : Placed trippers t { s.thread t with pc := q }) (hknows : q.Knows s.left s.trip)
    (hbefore : p.advancing = false) (hafter : q.advancing = false)
    (harriving : q.arriving = p.arriving)
    (hasleep : ∀ trip, q = .asleep trip → (s.thread t).arrived = trippers.length + 1) :
    BarrierInv trippers ({ s with owner := owner }.goTo t q) :=
  h.move hpc howned hplaced hknows hbefore hafter rfl harriving hasleep (h.outcomes t)

/-! ## Who has come -/

omit [DecidableEq Thread] [Fintype Thread] in
theorem Placed.arrived (h : Placed trippers t th) :
    th.arrived = trippers.length ∨ th.arrived = trippers.length + 1 := by
  rw [Placed] at h
  cases hpc : th.pc with
  | outside | lock | leftLoad | leftStore | leftTest | tripLoad | tripStore =>
    rw [hpc] at h
    exact .inl h.arrived
  | record =>
    rw [hpc] at h
    exact .inr h.arrived
  | condWait =>
    rw [hpc] at h
    exact .inr h.1.arrived
  | refill | broadcast | serialUnlock | unlock =>
    rw [hpc] at h
    obtain ⟨cycle, hcounts, hcycle, -⟩ := h
    exact .inl (hcounts.arrived.trans hcycle)
  | tripTest | asleep | relock =>
    rw [hpc] at h
    obtain ⟨cycle, hcounts, hcycle | ⟨hcycle, -⟩, -⟩ := h
    · exact .inr (hcounts.arrived.trans (congrArg (· + 1) hcycle))
    · exact .inl (hcounts.arrived.trans hcycle)

omit [DecidableEq Thread] in
theorem cameCount_lt {cycles : ℕ} {thread : Thread → BarrierThread}
    (hnot : ¬ HasCome cycles (thread t)) : cameCount cycles thread < Fintype.card Thread := by
  have hmem : t ∉ Finset.univ.filter fun u => HasCome cycles (thread u) :=
    fun hmem => hnot (Finset.mem_filter.mp hmem).2
  exact Finset.card_lt_univ_of_notMem hmem

omit [DecidableEq Thread] in
theorem exists_not_hasCome {cycles : ℕ} {thread : Thread → BarrierThread}
    (hlt : cameCount cycles thread < Fintype.card Thread) : ∃ u, ¬ HasCome cycles (thread u) := by
  by_contra hall
  have hcounted : ∀ u, HasCome cycles (thread u) := not_exists_not.mp hall
  rw [cameCount, tally, Finset.filter_true_of_mem fun u _ => hcounted u, Finset.card_univ] at hlt
  exact lt_irrefl _ hlt

theorem BarrierInv.left_eq (h : BarrierInv trippers s) (ht : (s.thread t).pc.holds = true)
    (hne : (s.thread t).pc ≠ .refill) :
    s.left.toNat + cameCount trippers.length s.thread = Fintype.card Thread := by
  refine h.left fun u hu => ?_
  have heq : u = t := by
    refine h.owned.unique ht ?_
    rw [hu]
    rfl
  rw [heq] at hu
  exact hne hu

/-! ## The steps that count -/

theorem BarrierThread.Counts.goTo {calls arrived returned : ℕ}
    (h : th.Counts calls arrived returned) (pc : BarrierPc) :
    ({ th with pc := pc } : BarrierThread).Counts calls arrived returned :=
  ⟨h.calls, h.arrived, h.returned⟩

theorem BarrierInv.leftStore (h : BarrierInv trippers s) {seen : UInt32}
    (hpc : (s.thread t).pc = .leftStore seen) :
    BarrierInv trippers ({ s with left := seen - 1 }.goTo t .leftTest) := by
  have hplaced := h.placed t
  have hknows := h.knows t
  rw [Placed, hpc] at hplaced
  rw [hpc] at hknows
  have hseen : seen = s.left := hknows
  have hholds : (s.thread t).pc.holds = true := by rw [hpc]; rfl
  have hbefore : (s.thread t).pc.advancing = false := by rw [hpc]; rfl
  have hrefill : (s.thread t).pc ≠ .refill := by rw [hpc]; nofun
  have hnot : ¬ HasCome trippers.length (s.thread t) := by
    rw [HasCome, hpc, hplaced.arrived]
    exact not_or.mpr ⟨Nat.ne_of_lt (Nat.lt_succ_self _), nofun⟩
  have hleft := h.left_eq hholds hrefill
  have hlt := cameCount_lt hnot
  have hone : (1 : UInt32) ≤ s.left := by
    rw [UInt32.le_iff_toNat_le, UInt32.toNat_one]
    omega
  refine h.steady (h.owned.keep (hholds.symm ▸ rfl)) (.inr hholds) (hplaced.goTo _) trivial hrefill
    nofun ?_ (h.missing_update rfl) (h.asleep_update hbefore nofun) (h.outcomes t)
  rw [weight_of_not hnot, weight_of_kind (.inr rfl), hseen, UInt32.toNat_sub_of_le _ _ hone,
    UInt32.toNat_one]
  rw [UInt32.le_iff_toNat_le, UInt32.toNat_one] at hone
  omega

theorem BarrierInv.leftTest (h : BarrierInv trippers s) (hpc : (s.thread t).pc = .leftTest)
    (hleft : s.left ≠ 0) : BarrierInv trippers (s.arrive t .record) := by
  have hplaced := h.placed t
  rw [Placed, hpc] at hplaced
  have hholds : (s.thread t).pc.holds = true := by rw [hpc]; rfl
  have hbefore : (s.thread t).pc.advancing = false := by rw [hpc]; rfl
  have hrefill : (s.thread t).pc ≠ .refill := by rw [hpc]; nofun
  have hcounted : HasCome trippers.length (s.thread t) := .inr (by rw [hpc]; rfl)
  have hsum := h.left_eq hholds hrefill
  have hpos : 0 < s.left.toNat := by
    rw [Nat.pos_iff_ne_zero]
    exact fun hzero => hleft (UInt32.toNat_inj.mp hzero)
  have hlt : cameCount trippers.length s.thread < Fintype.card Thread := by omega
  obtain ⟨u, hu⟩ := exists_not_hasCome hlt
  have hne : u ≠ t := by
    rintro rfl
    exact hu hcounted
  have hnext : ({ s.thread t with
      pc := .record, arrived := (s.thread t).arrived + 1 } : BarrierThread).Counts
      (trippers.length + 1) (trippers.length + 1) trippers.length :=
    ⟨hplaced.calls, congrArg (· + 1) hplaced.arrived, hplaced.returned⟩
  refine h.steady (h.owned.keep (hholds.symm ▸ rfl)) (.inl rfl) hnext trivial hrefill nofun ?_
    ⟨u, ?_⟩ (h.asleep_update hbefore nofun) (h.outcomes t)
  · rw [weight_of_kind hcounted, weight_of_kind (.inl hnext.arrived)]
  · rw [update_of_ne hne]
    exact (h.placed u).arrived.resolve_right fun harrived => hu (.inl harrived)

omit [Fintype Thread] in
theorem Outcomes.append {results : List ℤ} (h : Outcomes trippers t results) (last : Thread) :
    Outcomes (trippers ++ [last]) t results := by
  intro cycle result hresult
  obtain ⟨u, hu, heq⟩ := h cycle result hresult
  have hlt : cycle < trippers.length := (List.getElem?_eq_some_iff.mp hu).1
  exact ⟨u, (List.getElem?_append_left hlt).trans hu, heq⟩

omit [Fintype Thread] [DecidableEq Thread] in
/-- When all others have come, a thread outside the mutex waits in the current cycle, and the last
thread ends it. -/
theorem Placed.append (h : Placed trippers t th) (hholds : th.pc.holds = false)
    (hcounted : HasCome trippers.length th) {last : Thread} (hne : last ≠ t) :
    th.arrived = trippers.length + 1 ∧ Placed (trippers ++ [last]) t th := by
  have harrived : th.arrived = trippers.length + 1 :=
    hcounted.resolve_right (BarrierPc.not_arriving hholds)
  refine ⟨harrived, ?_⟩
  rw [Placed] at h ⊢
  cases hpc : th.pc with
  | outside | lock =>
    rw [hpc] at h
    exact absurd (h.arrived.symm.trans harrived) (Nat.ne_of_lt (Nat.lt_succ_self _))
  | asleep | relock =>
    rw [hpc] at h
    obtain ⟨cycle, hcounts, -, htrip⟩ := h
    have hcycle : cycle = trippers.length :=
      Nat.succ.inj (hcounts.arrived.symm.trans harrived)
    refine ⟨cycle, hcounts, .inr ⟨?_, ?_⟩, htrip⟩
    · rw [hcycle, List.length_append, List.length_singleton]
    · rw [hcycle, List.getElem?_concat_length]
      exact fun hsome => hne (Option.some.inj hsome)
  | leftLoad | leftStore | leftTest | tripLoad | tripStore | refill | broadcast | serialUnlock
  | record | tripTest | condWait | unlock =>
    rw [hpc] at hholds
    exact nomatch hholds

theorem BarrierInv.tripStore (h : BarrierInv trippers s) {seen : UInt32}
    (hpc : (s.thread t).pc = .tripStore seen) :
    BarrierInv (trippers ++ [t]) ({ s with trip := seen + 1 }.arrive t .refill) := by
  have hplaced := h.placed t
  have hknows := h.knows t
  rw [Placed, hpc] at hplaced
  rw [hpc] at hknows
  obtain ⟨hzero, hseen⟩ : s.left = 0 ∧ seen = s.trip := hknows
  have hholds : (s.thread t).pc.holds = true := by rw [hpc]; rfl
  have hsum := h.left_eq hholds (by rw [hpc]; nofun)
  have hcounted : ∀ u, HasCome trippers.length (s.thread u) := by
    intro u
    by_contra hnot
    have hlt := cameCount_lt hnot
    rw [hzero, UInt32.toNat_zero] at hsum
    omega
  have hothers : ∀ u, u ≠ t → (s.thread u).pc.holds = false := fun u hne =>
    Bool.eq_false_iff.mpr fun hu => hne (h.owned.unique hholds hu)
  have hlength : (trippers ++ [t]).length = trippers.length + 1 := by
    rw [List.length_append, List.length_singleton]
  have hcome : ∀ u, u ≠ t → (s.thread u).arrived = trippers.length + 1 ∧
      Placed (trippers ++ [t]) u (s.thread u) := fun u hne =>
    (h.placed u).append (hothers u hne) (hcounted u) hne.symm
  have hself : ∀ th, (update s.thread t th t) = th := fun th =>
    update_self t th s.thread
  refine ⟨h.card, h.initialized, ?trip, h.owned.keep (hholds.symm ▸ rfl), ?placed, ?knows, ?left,
    ?refilled, ?missing, ?asleep, ?outcomes⟩
  case trip =>
    change seen + 1 = UInt32.ofNat (trippers ++ [t]).length
    rw [hseen, h.trip, hlength, UInt32.ofNat_add]
    rfl
  case placed =>
    intro u
    dsimp only [BarrierState.arrive, BarrierState.set]
    by_cases heq : u = t
    · rw [heq, hself]
      refine ⟨trippers.length, ⟨?_, ?_, hplaced.returned⟩, hlength.symm,
        List.getElem?_concat_length⟩
      · exact hplaced.calls
      · exact congrArg (· + 1) hplaced.arrived
    · rw [update_of_ne heq]
      exact (hcome u heq).2
  case knows =>
    intro u
    dsimp only [BarrierState.arrive, BarrierState.set]
    by_cases heq : u = t
    · rw [heq, hself]
      trivial
    · rw [update_of_ne heq]
      exact knows_of_not_holds (hothers u heq) _ _
  case left =>
    intro hnone
    refine absurd ?_ (hnone t)
    dsimp only [BarrierState.arrive, BarrierState.set]
    rw [hself]
  case refilled =>
    intro _
    apply tally_eq_zero
    intro u _
    dsimp only [BarrierState.arrive, BarrierState.set]
    rw [HasCome, hlength]
    by_cases heq : u = t
    · rw [heq, hself, hplaced.arrived]
      exact not_or.mpr ⟨Nat.ne_of_lt (Nat.lt_succ_self _), nofun⟩
    · rw [update_of_ne heq, (hcome u heq).1]
      exact not_or.mpr ⟨Nat.ne_of_lt (Nat.lt_succ_self _),
        BarrierPc.not_arriving (hothers u heq)⟩
  case missing =>
    refine ⟨t, ?_⟩
    dsimp only [BarrierState.arrive, BarrierState.set]
    rw [hself, hlength]
    exact congrArg (· + 1) hplaced.arrived
  case asleep =>
    intro u trip _
    refine .inr ⟨t, ?_⟩
    dsimp only [BarrierState.arrive, BarrierState.set]
    rw [hself]
    rfl
  case outcomes =>
    intro u
    dsimp only [BarrierState.arrive, BarrierState.set]
    by_cases heq : u = t
    · rw [heq, hself]
      exact (h.outcomes t).append t
    · rw [update_of_ne heq]
      exact (h.outcomes u).append t

theorem BarrierInv.refill (h : BarrierInv trippers s) (hpc : (s.thread t).pc = .refill) :
    BarrierInv trippers ({ s with left := s.count }.goTo t .broadcast) := by
  have hplaced := h.placed t
  rw [Placed, hpc] at hplaced
  have hholds : (s.thread t).pc.holds = true := by rw [hpc]; rfl
  have hzero := h.refilled ⟨t, hpc⟩
  have hiff : HasCome trippers.length { s.thread t with pc := .broadcast } ↔
      HasCome trippers.length (s.thread t) := by
    refine or_congr Iff.rfl ?_
    rw [hpc]
    rfl
  have hnone := (cameCount_update_of_iff hiff).trans hzero
  refine ⟨h.card, h.initialized, h.trip, h.owned.keep (hholds.symm ▸ rfl), ?placed, ?knows, ?left,
    ?refilled, h.missing_update rfl, ?asleep, ?outcomes⟩
  case placed =>
    intro u
    dsimp only [BarrierState.goTo, BarrierState.set]
    by_cases heq : u = t
    · rw [heq, update_self]
      obtain ⟨cycle, hcounts, hcycle⟩ := hplaced
      exact ⟨cycle, hcounts.goTo _, hcycle⟩
    · rw [update_of_ne heq]
      exact h.placed u
  case knows =>
    intro u
    dsimp only [BarrierState.goTo, BarrierState.set]
    by_cases heq : u = t
    · rw [heq, update_self]
      trivial
    · rw [update_of_ne heq]
      exact h.others_know hholds heq _ _
  case left =>
    intro _
    dsimp only [BarrierState.goTo, BarrierState.set]
    rw [hnone, h.card, Nat.add_zero]
  case refilled =>
    rintro ⟨u, hu⟩
    dsimp only [BarrierState.goTo, BarrierState.set] at hu
    by_cases heq : u = t
    · rw [heq, update_self] at hu
      exact nomatch hu
    · rw [update_of_ne heq] at hu
      refine absurd (h.owned.unique hholds ?_) heq
      rw [hu]
      rfl
  case asleep =>
    intro u trip _
    refine .inr ⟨t, ?_⟩
    dsimp only [BarrierState.goTo, BarrierState.set]
    rw [update_self]
    rfl
  case outcomes =>
    intro u
    dsimp only [BarrierState.goTo, BarrierState.set]
    by_cases heq : u = t
    · rw [heq, update_self]
      exact h.outcomes t
    · rw [update_of_ne heq]
      exact h.outcomes u

/-! ## The broadcast -/

omit [DecidableEq Thread] [Fintype Thread] in
theorem BarrierThread.broadcast_cases (th : BarrierThread) :
    (∃ trip, th.pc = .asleep trip ∧ th.broadcast = { th with pc := .relock trip }) ∨
      (∀ trip, th.pc ≠ .asleep trip) ∧ th.broadcast = th := by
  rw [BarrierThread.broadcast]
  cases hpc : th.pc with
  | asleep trip => exact .inl ⟨trip, rfl, rfl⟩
  | outside | lock | leftLoad | leftStore | leftTest | tripLoad | tripStore | refill | broadcast
  | serialUnlock | record | tripTest | condWait | relock | unlock => exact .inr ⟨nofun, rfl⟩

omit [DecidableEq Thread] [Fintype Thread] in
theorem Placed.broadcast (h : Placed trippers t th) : Placed trippers t th.broadcast := by
  obtain ⟨trip, hpc, heq⟩ | ⟨-, heq⟩ := th.broadcast_cases
  · rw [Placed, hpc] at h
    rw [heq]
    obtain ⟨cycle, hcounts, hwaits⟩ := h
    exact ⟨cycle, hcounts.goTo _, hwaits⟩
  · rwa [heq]

theorem BarrierThread.broadcast_same (th : BarrierThread) :
    th.broadcast.arrived = th.arrived ∧ th.broadcast.results = th.results ∧
      th.broadcast.pc.holds = th.pc.holds ∧ th.broadcast.pc.arriving = th.pc.arriving ∧
      (th.broadcast.pc = .refill ↔ th.pc = .refill) := by
  obtain ⟨trip, hpc, heq⟩ | ⟨-, heq⟩ := th.broadcast_cases
  · rw [heq, hpc]
    exact ⟨rfl, rfl, rfl, rfl, iff_of_false nofun nofun⟩
  · rw [heq]
    exact ⟨rfl, rfl, rfl, rfl, Iff.rfl⟩

theorem BarrierThread.not_asleep_broadcast (th : BarrierThread) (trip : UInt32) :
    th.broadcast.pc ≠ .asleep trip := by
  obtain ⟨woken, -, heq⟩ | ⟨hnot, heq⟩ := th.broadcast_cases
  · rw [heq]
    nofun
  · rw [heq]
    exact hnot trip

theorem BarrierInv.wakeAll (h : BarrierInv trippers s) :
    BarrierInv trippers { s with thread := fun u => (s.thread u).broadcast } := by
  have hsame := fun u => (s.thread u).broadcast_same
  have hcounted : cameCount trippers.length (fun u => (s.thread u).broadcast) =
      cameCount trippers.length s.thread := by
    apply tally_congr
    intro u _
    rw [HasCome, HasCome, (hsame u).1, (hsame u).2.2.2.1]
  refine ⟨h.card, h.initialized, h.trip, ?owned, fun u => (h.placed u).broadcast, ?knows, ?left,
    ?refilled, ?missing, ?asleep, ?outcomes⟩
  case owned =>
    intro u
    rw [(hsame u).2.2.1]
    exact h.owned u
  case knows =>
    intro u
    dsimp only
    obtain ⟨trip, -, heq⟩ | ⟨-, heq⟩ := (s.thread u).broadcast_cases
    · rw [heq]
      trivial
    · rw [heq]
      exact h.knows u
  case left =>
    intro hnone
    dsimp only at hnone ⊢
    rw [hcounted]
    exact h.left fun u hu => hnone u ((hsame u).2.2.2.2.mpr hu)
  case refilled =>
    rintro ⟨u, hu⟩
    dsimp only at hu ⊢
    rw [hcounted]
    exact h.refilled ⟨u, (hsame u).2.2.2.2.mp hu⟩
  case missing =>
    obtain ⟨u, hu⟩ := h.missing
    exact ⟨u, (hsame u).1.trans hu⟩
  case asleep => exact fun u trip hu => absurd hu ((s.thread u).not_asleep_broadcast trip)
  case outcomes =>
    intro u
    dsimp only
    rw [(hsame u).2.1]
    exact h.outcomes u

theorem BarrierInv.broadcast (h : BarrierInv trippers s) (hpc : (s.thread t).pc = .broadcast) :
    BarrierInv trippers
      ({ s with thread := fun u => (s.thread u).broadcast }.goTo t .serialUnlock) := by
  have hplaced := h.placed t
  rw [Placed, hpc] at hplaced
  have hself : (s.thread t).broadcast = s.thread t := by
    obtain ⟨trip, hasleep, -⟩ | ⟨-, heq⟩ := (s.thread t).broadcast_cases
    · rw [hpc] at hasleep
      exact nomatch hasleep
    · exact heq
  have hwoken := h.wakeAll
  refine hwoken.steady (hwoken.owned.keep ?_) (.inl rfl) ?_ trivial ?_ nofun ?_
    (hwoken.missing_update rfl) ?_ (hwoken.outcomes t)
  · dsimp only
    rw [hself, hpc]
    rfl
  · dsimp only
    rw [hself]
    obtain ⟨cycle, hcounts, hcycle⟩ := hplaced
    exact ⟨cycle, hcounts.goTo _, hcycle⟩
  · dsimp only
    rw [hself, hpc]
    nofun
  · refine congrArg (s.left.toNat + ·) (weight_congr (or_congr Iff.rfl ?_))
    dsimp only
    rw [hself, hpc]
    rfl
  · intro u trip hu
    by_cases heq : u = t
    · rw [heq, update_self] at hu
      exact nomatch hu
    · rw [update_of_ne heq] at hu
      exact absurd hu ((s.thread u).not_asleep_broadcast trip)

/-! ## Every step -/

omit [Fintype Thread] in
/-- The outcomes of a thread that returns from the wait that it has ended, or not ended. -/
theorem Outcomes.concat {results : List ℤ} {result : ℤ} (h : Outcomes trippers t results)
    (hlast : ∃ u, trippers[results.length]? = some u ∧
      result = if u = t then PTHREAD_BARRIER_SERIAL_THREAD else 0) :
    Outcomes trippers t (results ++ [result]) := by
  intro cycle value hvalue
  by_cases hlt : cycle < results.length
  · rw [List.getElem?_append_left hlt] at hvalue
    exact h cycle value hvalue
  · have hle : cycle ≤ results.length := by
      have hbound := (List.getElem?_eq_some_iff.mp hvalue).1
      rw [List.length_append, List.length_singleton] at hbound
      exact Nat.le_of_lt_succ hbound
    have heq : cycle = results.length := Nat.le_antisymm hle (Nat.not_lt.mp hlt)
    rw [heq, List.getElem?_concat_length] at hvalue
    rw [heq, ← Option.some.inj hvalue]
    exact hlast

theorem BarrierInv.unlockReturn (h : BarrierInv trippers s) {p : BarrierPc} {result : ℤ}
    {cycle : ℕ} (hpc : (s.thread t).pc = p) (hholds : p.holds = true)
    (hadvancing : p.advancing = false) (harriving : p.arriving = false)
    (hcounts : (s.thread t).Counts (cycle + 1) (cycle + 1) cycle)
    (hcycle : cycle + 1 = trippers.length)
    (hresult : ∃ u, trippers[cycle]? = some u ∧
      result = if u = t then PTHREAD_BARRIER_SERIAL_THREAD else 0) :
    BarrierInv trippers (s.unlockReturn t result) := by
  have hholdsAt : (s.thread t).pc.holds = true := by rwa [hpc]
  refine h.move hpc (h.owned.release hholdsAt rfl) ⟨?_, ?_, ?_⟩ trivial hadvancing rfl rfl
    harriving.symm nofun ?_
  · exact hcounts.calls.trans hcycle
  · exact hcounts.arrived.trans hcycle
  · dsimp only
    rw [List.length_append, hcounts.returned]
    exact hcycle
  · apply (h.outcomes t).concat
    rwa [hcounts.returned]

theorem BarrierInv.step (h : BarrierInv trippers s)
    (hlocks : (s.thread t).pc.Locks → s.owner = none) :
    ∃ trippers, BarrierInv trippers (s.step t) := by
  have hplaced := h.placed t
  rw [Placed] at hplaced
  have hkeep : ∀ {q : BarrierPc}, q.holds = (s.thread t).pc.holds →
      Owned s.owner (update s.thread t { s.thread t with pc := q }) :=
    fun hsame => h.owned.keep hsame
  have htake : ∀ {q : BarrierPc}, (s.thread t).pc.Locks → q.holds = true →
      Owned (some t) (update s.thread t { s.thread t with pc := q }) :=
    fun hpc hq => h.owned.take (hlocks hpc) hq
  rw [BarrierState.step]
  cases hpc : (s.thread t).pc with
  | outside | asleep => exact ⟨trippers, h⟩
  | lock =>
    rw [hpc] at hplaced htake
    exact ⟨trippers, h.goTo hpc (htake trivial rfl) (hplaced.goTo _) trivial rfl rfl rfl nofun⟩
  | leftLoad =>
    rw [hpc] at hplaced hkeep
    exact ⟨trippers, h.goTo hpc (hkeep rfl) (hplaced.goTo _) rfl rfl rfl rfl nofun⟩
  | leftStore => exact ⟨trippers, h.leftStore hpc⟩
  | leftTest =>
    rw [hpc] at hplaced hkeep
    dsimp only
    split_ifs with hleft
    · exact ⟨trippers, h.goTo hpc (hkeep rfl) (hplaced.goTo _) hleft rfl rfl rfl nofun⟩
    · exact ⟨trippers, h.leftTest hpc hleft⟩
  | tripLoad =>
    have hknows := h.knows t
    rw [hpc] at hplaced hkeep hknows
    exact ⟨trippers, h.goTo hpc (hkeep rfl) (hplaced.goTo _) ⟨hknows, rfl⟩ rfl rfl rfl nofun⟩
  | tripStore => exact ⟨trippers ++ [t], h.tripStore hpc⟩
  | refill => exact ⟨trippers, h.refill hpc⟩
  | broadcast => exact ⟨trippers, h.broadcast hpc⟩
  | serialUnlock =>
    rw [hpc] at hplaced
    obtain ⟨cycle, hcounts, hcycle, htripper⟩ := hplaced
    exact ⟨trippers, h.unlockReturn hpc rfl rfl rfl hcounts hcycle
      ⟨t, htripper, (if_pos rfl).symm⟩⟩
  | record =>
    rw [hpc] at hplaced hkeep
    refine ⟨trippers, h.goTo hpc (hkeep rfl) ?_ trivial rfl rfl rfl nofun⟩
    exact ⟨trippers.length, hplaced.goTo _, .inl rfl, h.trip⟩
  | tripTest trip =>
    rw [hpc] at hplaced hkeep
    obtain ⟨cycle, hcounts, hwaits, htrip⟩ := hplaced
    dsimp only
    split_ifs with heq
    · have hnow : cycle = trippers.length := by
        refine hwaits.resolve_right fun hover => ofNat_succ_ne cycle ?_
        rw [hover.1, ← h.trip, ← htrip, heq]
      rw [hnow] at hcounts htrip
      exact ⟨trippers, h.goTo hpc (hkeep rfl) ⟨hcounts.goTo _, htrip⟩ trivial rfl rfl rfl nofun⟩
    · have hover : cycle + 1 = trippers.length ∧ trippers[cycle]? ≠ some t := by
        refine hwaits.resolve_left fun hnow => heq ?_
        rw [htrip, hnow, h.trip]
      refine ⟨trippers, h.goTo hpc (hkeep rfl) ?_ trivial rfl rfl rfl nofun⟩
      exact ⟨cycle, hcounts.goTo _, hover⟩
  | condWait trip =>
    rw [hpc] at hplaced
    obtain ⟨hcounts, htrip⟩ := hplaced
    have hholds : (s.thread t).pc.holds = true := by rw [hpc]; rfl
    refine ⟨trippers, h.goTo hpc (h.owned.release hholds rfl) ?_ trivial rfl rfl rfl ?_⟩
    · exact ⟨trippers.length, hcounts.goTo _, .inl rfl, htrip⟩
    · exact fun _ _ => hcounts.arrived
  | relock trip =>
    rw [hpc] at hplaced htake
    obtain ⟨cycle, hcounts, hwaits⟩ := hplaced
    refine ⟨trippers, h.goTo hpc (htake trivial rfl) ?_ trivial rfl rfl rfl nofun⟩
    exact ⟨cycle, hcounts.goTo _, hwaits⟩
  | unlock =>
    rw [hpc] at hplaced
    obtain ⟨cycle, hcounts, hcycle, htripper⟩ := hplaced
    have hlt : cycle < trippers.length := hcycle ▸ Nat.lt_succ_self cycle
    refine ⟨trippers, h.unlockReturn hpc rfl rfl rfl hcounts hcycle
      ⟨trippers[cycle], List.getElem?_eq_getElem hlt, (if_neg fun heq => htripper ?_).symm⟩⟩
    rw [List.getElem?_eq_getElem hlt, heq]

theorem BarrierInv.run {action : BarrierAction Thread} {next : BarrierState Thread}
    (h : BarrierInv trippers s) (hstep : BarrierStep s action next) :
    ∃ trippers, BarrierInv trippers next := by
  obtain ⟨henabled, rfl⟩ := hstep
  cases action with
  | call t =>
    have hpc : (s.thread t).pc = .outside := henabled
    have hplaced := h.placed t
    rw [Placed, hpc] at hplaced
    rw [BarrierAction.run, BarrierState.call, if_pos h.initialized]
    refine ⟨trippers, h.move hpc (h.owned.keep (hpc.symm ▸ rfl)) ?_ trivial rfl rfl rfl rfl nofun
      (h.outcomes t)⟩
    exact ⟨congrArg (· + 1) hplaced.calls, hplaced.arrived, hplaced.returned⟩
  | step t => exact h.step henabled.2
  | wake t trip =>
    have hpc : (s.thread t).pc = .asleep trip := henabled
    have hplaced := h.placed t
    rw [Placed, hpc] at hplaced
    obtain ⟨cycle, hcounts, hwaits⟩ := hplaced
    refine ⟨trippers, h.goTo hpc (h.owned.keep (hpc.symm ▸ rfl)) ?_ trivial rfl rfl rfl nofun⟩
    exact ⟨cycle, hcounts.goTo _, hwaits⟩

theorem barrierInv_init {count : UInt32} (hcard : Fintype.card Thread = count.toNat)
    (hinit : pthreadBarrierInit Thread count = some s) : BarrierInv [] s := by
  rw [pthreadBarrierInit] at hinit
  split_ifs at hinit with hzero
  cases hinit
  have hnone : cameCount 0 (fun _ : Thread => (⟨.outside, 0, 0, []⟩ : BarrierThread)) = 0 :=
    tally_eq_zero fun _ _ => not_or.mpr ⟨nofun, nofun⟩
  have hpos : 0 < Fintype.card Thread := by
    rw [hcard, Nat.pos_iff_ne_zero]
    exact fun heq => hzero (UInt32.toNat_inj.mp heq)
  obtain ⟨t⟩ := Fintype.card_pos_iff.mp hpos
  exact
    { card := hcard
      initialized := rfl
      trip := rfl
      owned := fun _ => iff_of_false Bool.false_ne_true nofun
      placed := fun _ => ⟨rfl, rfl, rfl⟩
      knows := fun _ => trivial
      left := fun _ => hcard.symm ▸ congrArg (count.toNat + ·) hnone
      refilled := fun _ => hnone
      missing := ⟨t, rfl⟩
      asleep := nofun
      outcomes := nofun }

/-! ## What holds of the waits -/

omit [DecidableEq Thread] [Fintype Thread] in
theorem Placed.counts (h : Placed trippers t th) :
    th.results.length ≤ trippers.length ∧ th.arrived ≤ th.calls := by
  rw [Placed] at h
  cases hpc : th.pc with
  | outside | lock | leftLoad | leftStore | leftTest | tripLoad | tripStore | record =>
    rw [hpc] at h
    rw [h.calls, h.arrived, h.returned]
    omega
  | condWait =>
    rw [hpc] at h
    rw [h.1.calls, h.1.arrived, h.1.returned]
    omega
  | refill | broadcast | serialUnlock | unlock =>
    rw [hpc] at h
    obtain ⟨cycle, hcounts, hcycle, -⟩ := h
    rw [hcounts.calls, hcounts.arrived, hcounts.returned]
    omega
  | tripTest | asleep | relock =>
    rw [hpc] at h
    obtain ⟨cycle, hcounts, hwaits, -⟩ := h
    rw [hcounts.calls, hcounts.arrived, hcounts.returned]
    rcases hwaits with hcycle | ⟨hcycle, -⟩
    · omega
    · omega

theorem BarrierInv.returnsTogether (h : BarrierInv trippers s) : ReturnsTogether s := by
  intro t u
  refine ⟨?_, (h.placed u).counts.2⟩
  have hreturned := (h.placed t).counts.1
  rcases (h.placed u).arrived with harrived | harrived
  · rwa [harrived]
  · rw [harrived]
    exact Nat.le_succ_of_le hreturned

/-- The thread that has the serial value is the one that has ended the cycle. -/
theorem BarrierInv.serial_iff (h : BarrierInv trippers s) {k : ℕ} {result : ℤ}
    (hresult : (s.thread t).results[k]? = some result) :
    result = PTHREAD_BARRIER_SERIAL_THREAD ↔ trippers[k]? = some t := by
  obtain ⟨u, hu, heq⟩ := h.outcomes t k result hresult
  rw [hu, heq]
  split_ifs with hut
  · rw [hut]
    exact iff_of_true rfl rfl
  · exact iff_of_false nofun fun hsome => hut (Option.some.inj hsome)

theorem BarrierInv.oneSerial (h : BarrierInv trippers s) : OneSerial s := by
  refine ⟨fun t result hmem => ?_, fun k t u ht hu => ?_, fun k hall => ?_⟩
  · obtain ⟨k, hk⟩ := List.mem_iff_getElem?.mp hmem
    obtain ⟨u, -, heq⟩ := h.outcomes t k result hk
    rw [heq]
    split_ifs
    · exact .inr rfl
    · exact .inl rfl
  · have htripper := (h.serial_iff ht).mp rfl
    rw [(h.serial_iff hu).mp rfl] at htripper
    exact (Option.some.inj htripper).symm
  · obtain ⟨w, -⟩ := h.missing
    have hlt : k < trippers.length := Nat.lt_of_lt_of_le (hall w) (h.placed w).counts.1
    have hresult := List.getElem?_eq_getElem (hall trippers[k])
    have hserial := (h.serial_iff hresult).mpr (List.getElem?_eq_getElem hlt)
    refine ⟨trippers[k], hresult.trans (congrArg some hserial), fun u hu => ?_⟩
    have htripper := (h.serial_iff hu).mp rfl
    rw [List.getElem?_eq_getElem hlt] at htripper
    exact (Option.some.inj htripper).symm

theorem BarrierInv.noneLeftBehind (h : BarrierInv trippers s) : NoneLeftBehind s := by
  intro t hall recorded hwaits
  obtain ⟨w, hw⟩ := h.missing
  have hcalls : (s.thread t).calls ≤ trippers.length := hw ▸ hall w
  have hplaced := h.placed t
  have hasleep := h.asleep t recorded
  rw [Placed] at hplaced
  cases hpc : (s.thread t).pc with
  | tripTest trip | asleep trip | relock trip =>
    rw [hpc] at hplaced hwaits
    obtain ⟨cycle, hcounts, hcycle, htrip⟩ := hplaced
    rw [hcounts.calls] at hcalls
    have hover : cycle + 1 = trippers.length := by
      rcases hcycle with hcycle | ⟨hcycle, -⟩
      · omega
      · exact hcycle
    have hrecorded : recorded = trip := hwaits
    refine ⟨?_, fun hpcAsleep => ?_⟩
    · rw [hrecorded, htrip, h.trip, ← hover]
      exact (ofNat_succ_ne cycle).symm
    · obtain ⟨u, hu⟩ := (hasleep (hpc.trans hpcAsleep)).resolve_left fun harrived => by
        rw [hcounts.arrived, hover] at harrived
        exact Nat.ne_of_lt (Nat.lt_succ_self _) harrived
      exact ⟨u, BarrierPc.advancing_cases hu⟩
  | condWait trip =>
    rw [hpc] at hplaced
    rw [hplaced.1.calls] at hcalls
    exact absurd hcalls (Nat.not_succ_le_self _)
  | outside | lock | leftLoad | leftStore | leftTest | tripLoad | tripStore | refill | broadcast
  | serialUnlock | record | unlock =>
    rw [hpc] at hwaits
    exact hwaits.elim

/-- As many threads as the count says wait for each other, any number of times. -/
theorem always_barrier {count : UInt32} (hcard : Fintype.card Thread = count.toNat)
    (hinit : pthreadBarrierInit Thread count = some s)
    {run : List (BarrierAction Thread × BarrierState Thread)} (hrun : Along BarrierStep s run) :
    Always (fun s => ReturnsTogether s ∧ OneSerial s ∧ NoneLeftBehind s) s run := by
  have hinv : Always (fun s => ∃ trippers, BarrierInv trippers s) s run :=
    always_of_invariant _ (fun _ _ _ ⟨_, h⟩ hstep => h.run hstep) ⟨[], barrierInv_init hcard hinit⟩
      hrun
  exact hinv.mono fun _ ⟨_, h⟩ => ⟨h.returnsTogether, h.oneSerial, h.noneLeftBehind⟩

end Moves

/-! ## A run of two threads -/

instance : DecidablePred BarrierPc.Locks
  | .lock | .relock _ => .isTrue trivial
  | .outside | .leftLoad | .leftStore _ | .leftTest | .tripLoad | .tripStore _ | .refill
  | .broadcast | .serialUnlock | .record | .tripTest _ | .condWait _ | .asleep _ | .unlock =>
    .isFalse id

instance (s : BarrierState Bool) : DecidablePred (BarrierAction.Enabled s)
  | .call _ | .wake _ _ => inferInstanceAs (Decidable (_ = _))
  | .step _ => inferInstanceAs (Decidable (_ ∧ (_ → _)))

/-- A barrier for two threads. -/
def barrierOfTwo : BarrierState Bool where
  owner := none
  count := 2
  trip := 0
  left := 2
  initialized := true
  thread _ := ⟨.outside, 0, 0, []⟩

/-- One thread sleeps until the other comes, which is back in the next cycle before it leaves. -/
def twoCycles : List (BarrierAction Bool) :=
  [BarrierAction.call true] ++ List.replicate 7 (BarrierAction.step true) ++
    [BarrierAction.call false] ++ List.replicate 9 (BarrierAction.step false) ++
    [BarrierAction.call false] ++ List.replicate 7 (BarrierAction.step false) ++
    List.replicate 3 (BarrierAction.step true) ++ [BarrierAction.wake false 1] ++
    [BarrierAction.call true] ++ List.replicate 9 (BarrierAction.step true) ++
    List.replicate 3 (BarrierAction.step false)

theorem always_barrier_twoCycles :
    Always (fun s => ReturnsTogether s ∧ OneSerial s ∧ NoneLeftBehind s) barrierOfTwo
      (trace BarrierAction.run barrierOfTwo twoCycles) := by
  have henabled : Along (fun s action _ => action.Enabled s) barrierOfTwo
      (trace BarrierAction.run barrierOfTwo twoCycles) := by
    decide +kernel
  have hcard : Fintype.card Bool = (2 : UInt32).toNat := rfl
  exact always_barrier hcard rfl (along_trace_of_enabled _ henabled)

end EigenOS.Pthread
