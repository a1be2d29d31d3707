import EigenOS.Memory.HeapClients

/-!
# Runs of the kernel heap

Each call keeps what clients and headers agree on, so it holds in every run.
-/

namespace EigenOS.HeapImage

open EigenOS.ByteMemory
open EigenOS.Memory (BlockMeta kheapSize le_roundSize metaSize)
open EigenOS.Transition

variable {heap : ℕ} {s : Clients} {blocks : List BlockMeta} {owner length : ℕ → ℕ}

/-- What an event does from a state with headers. -/
structure Handles (heap : ℕ) (s : Clients) (event : HeapEvent) (next : Clients) : Prop where
  act_eq : event.act heap s = some next
  held : ∃ blocks owner length, Held heap next blocks owner length
  keeps : KeepsBytes s event next
  new : ReturnsNew heap s event next

theorem Held.live_null (hheld : Held heap s blocks owner length) : s.live 0 = none := by
  by_contra hlive
  obtain ⟨_, _, howns⟩ := hheld.exists_live hlive
  have hle := howns.le
  unfold metaSize at hle
  omega

theorem Clients.obtain_of_ne (s : Clients) (request : Allocation) {ptr : ℕ} (hne : ptr ≠ 0)
    (h' : Heap) :
    s.obtain request (ptr, h') = ⟨h', Function.update s.live ptr (some request)⟩ := by
  unfold Clients.obtain
  dsimp only
  rw [if_neg hne]

/-! ## Each call -/

/-- A call for a block finds none, or its block goes to the pointer that it returns. -/
theorem handles_of_reply (hheld : Held heap s blocks owner length) {event : HeapEvent}
    {request : Allocation} {reply : Option (ℕ × Heap)}
    (hact : event.act heap s = reply.map (s.obtain request))
    (hreturns : ∀ next, (∀ r, reply = some r → s.live r.1 = none) → ReturnsNew heap s event next)
    (hspec : reply = some (0, s.heap) ∨ ∃ addr taken ptr h' blocks', reply = some (ptr, h') ∧
      ptr ≠ 0 ∧ Represents heap h' blocks' ∧ Allocates blocks blocks' addr taken ∧
      KeepsPayloads blocks s.heap.memory h'.memory ∧
      Owns h'.memory blocks' addr taken ptr request) : ∃ next, Handles heap s event next := by
  rcases hspec with rfl | ⟨addr, taken, ptr, h', blocks', rfl, hptr, hrep, halloc, hkeeps, hnew⟩
  · refine ⟨s, hact, ⟨blocks, owner, length, hheld⟩, fun _ _ _ _ _ _ => rfl, hreturns s ?_⟩
    intro reply hreply
    cases hreply
    exact hheld.live_null
  · obtain ⟨hfresh, hheld'⟩ := hheld.obtain hrep halloc hkeeps hnew
    refine ⟨_, ?_, ⟨blocks', _, _, hheld'⟩, ?_, hreturns _ ?_⟩
    · rw [hact, Option.map_some, s.obtain_of_ne _ hptr]
    · intro _ other a hlive i hi
      exact hheld.keeps_live hkeeps hlive hi
    · intro reply hreply
      cases hreply
      exact hfresh

theorem handles_kmalloc (harray : HeapArray heap) (hheld : Held heap s blocks owner length)
    {size : ℕ} (hallowed : (HeapEvent.kmalloc size).Allowed s) :
    ∃ next, Handles heap s (.kmalloc size) next := by
  have hsmall : size < kheapSize := hallowed
  refine handles_of_reply hheld rfl (fun _ hnew => hnew) ?_
  refine (kmalloc_image_spec harray hheld.rep size).imp_right ?_
  rintro ⟨addr, taken, h', blocks', hcall, hrep, halloc, htaken, hkeeps⟩
  have hround : size ≤ taken :=
    (le_roundSize (by unfold kheapSize at hsmall; omega)).trans htaken
  exact ⟨addr, taken, _, h', blocks', hcall, by unfold metaSize; omega, hrep, halloc, hkeeps,
    (halloc.used_iff _ _).mpr (Or.inl ⟨rfl, rfl⟩), by dsimp only; omega, fun _ => rfl,
    fun haligned => Bool.noConfusion haligned⟩

theorem handles_kmallocAligned (harray : HeapArray heap)
    (hheld : Held heap s blocks owner length) {size align : ℕ}
    (hallowed : (HeapEvent.kmallocAligned size align).Allowed s) :
    ∃ next, Handles heap s (.kmallocAligned size align) next := by
  obtain ⟨hsmall, hpos, halign⟩ := hallowed
  have hsum : size + align + 15 < 2 ^ 64 := by
    unfold kheapSize at hsmall
    omega
  refine handles_of_reply hheld rfl (fun _ hnew => hnew) ?_
  refine (kmallocAligned_image_spec harray hheld.rep hpos hsum).imp_right ?_
  rintro ⟨addr, taken, ptr, h', blocks', hcall, hrep, halloc, _, hlow, hroom, hback, hkeeps⟩
  exact ⟨addr, taken, ptr, h', blocks', hcall, by omega, hrep, halloc, hkeeps,
    (halloc.used_iff _ _).mpr (Or.inl ⟨rfl, rfl⟩), hroom, fun hplain => Bool.noConfusion hplain,
    fun _ => ⟨hlow, hback⟩⟩

theorem Held.kfree (harray : HeapArray heap) (hheld : Held heap s blocks owner length) {ptr : ℕ}
    {a : Allocation} (hlive : s.live ptr = some a) :
    (∃ blocks', Held heap (s.release ptr (HeapImage.kfree heap s.heap (owner ptr + metaSize)))
      blocks' owner length) ∧
      KeepsPayloads blocks s.heap.memory
        (HeapImage.kfree heap s.heap (owner ptr + metaSize)).memory := by
  have howns := hheld.owns ptr a hlive
  obtain ⟨blocks', hrep, hused, hkeeps⟩ := kfree_image_spec harray hheld.rep howns.used
  exact ⟨⟨blocks', hheld.release hlive hrep hused hkeeps⟩, hkeeps⟩

theorem handles_kfree (harray : HeapArray heap) (hheld : Held heap s blocks owner length)
    {ptr : ℕ} (hallowed : (HeapEvent.kfree ptr).Allowed s) :
    ∃ next, Handles heap s (.kfree ptr) next := by
  obtain ⟨a, hlive, hplain⟩ := hallowed
  obtain ⟨⟨blocks', hheld'⟩, hkeeps⟩ := hheld.kfree harray hlive
  have hptr := (hheld.owns ptr a hlive).plain hplain
  rw [← hptr] at hheld' hkeeps
  exact ⟨_, rfl, ⟨blocks', owner, length, hheld'⟩,
    fun _ _ _ hother _ hi => hheld.keeps_live hkeeps hother hi, trivial⟩

theorem handles_kfreeAligned (harray : HeapArray heap)
    (hheld : Held heap s blocks owner length) {ptr : ℕ}
    (hallowed : (HeapEvent.kfreeAligned ptr).Allowed s) :
    ∃ next, Handles heap s (.kfreeAligned ptr) next := by
  obtain ⟨a, hlive, haligned⟩ := hallowed
  obtain ⟨⟨blocks', hheld'⟩, hkeeps⟩ := hheld.kfree harray hlive
  have howns := hheld.owns ptr a hlive
  obtain ⟨hle, hback⟩ := howns.aligned haligned
  have hend := (hheld.rep.bounds howns.used).2
  have hroom := howns.room
  have hfits := harray.fits
  have hcall : HeapImage.kfreeAligned heap s.heap ptr =
      HeapImage.kfree heap s.heap (owner ptr + metaSize) := by
    rw [HeapImage.kfreeAligned, if_neg (by omega), sub64_eq (by omega) (by omega), hback]
  rw [← hcall] at hheld' hkeeps
  exact ⟨_, rfl, ⟨blocks', owner, length, hheld'⟩,
    fun _ _ _ hother _ hi => hheld.keeps_live hkeeps hother hi, trivial⟩

theorem exists_handles (harray : HeapArray heap) (hheld : Held heap s blocks owner length)
    {event : HeapEvent} (hallowed : event.Allowed s) : ∃ next, Handles heap s event next := by
  cases event with
  | kmalloc size => exact handles_kmalloc harray hheld hallowed
  | kmallocAligned size align => exact handles_kmallocAligned harray hheld hallowed
  | kfree ptr => exact handles_kfree harray hheld hallowed
  | kfreeAligned ptr => exact handles_kfreeAligned harray hheld hallowed
  | write ptr offset byte =>
      obtain ⟨a, hlive, hoffset⟩ := hallowed
      exact ⟨_, rfl, ⟨blocks, owner, length, hheld.write hlive hoffset byte⟩,
        fun hcall => absurd rfl (hcall ptr offset byte), trivial⟩

/-! ## The first call -/

theorem kmallocAligned_ready (heap : ℕ) (h : Heap) (bytes align : ℕ) :
    kmallocAligned heap (ready heap h) bytes align = kmallocAligned heap h bytes align := by
  rw [kmallocAligned, kmallocAligned, kmalloc_ready, kmalloc_ready]

variable (heap) in
theorem held_kheapInit (h : Heap) {live : ℕ → Option Allocation} (hnone : ∀ ptr, live ptr = none) :
    Held heap ⟨kheapInit heap h, live⟩ [⟨heap, kheapSize - metaSize, true⟩] (fun _ => 0)
      (fun _ => 0) := by
  refine ⟨represents_kheapInit heap h, ?_, ?_⟩
  · intro ptr a hlive
    exact absurd (hlive.symm.trans (hnone ptr)) (Option.some_ne_none a)
  · intro p q hp
    exact absurd (hnone p) hp

theorem exists_handles_of_invariant (harray : HeapArray heap) (hinv : Invariant heap s)
    {event : HeapEvent} (hallowed : event.Allowed s) : ∃ next, Handles heap s event next := by
  rcases hinv with ⟨hidle, hnone⟩ | ⟨blocks, owner, length, hheld⟩
  · have hready : ready heap s.heap = kheapInit heap s.heap := by
      rw [ready, hidle]
      rfl
    have hheld := held_kheapInit heap s.heap hnone
    have hkeeps : ∀ next, KeepsBytes s event next := by
      intro next _ ptr a hlive
      rw [hnone] at hlive
      cases hlive
    rw [← hready] at hheld
    cases event with
    | kmalloc size =>
        obtain ⟨next, hact, hnext, _, hnew⟩ := handles_kmalloc harray hheld hallowed
        rw [HeapEvent.act, kmalloc_ready] at hact
        exact ⟨next, hact, hnext, hkeeps next, fun reply hreply =>
          hnew reply ((kmalloc_ready heap s.heap size).trans hreply)⟩
    | kmallocAligned size align =>
        obtain ⟨next, hact, hnext, _, hnew⟩ := handles_kmallocAligned harray hheld hallowed
        rw [HeapEvent.act, kmallocAligned_ready] at hact
        exact ⟨next, hact, hnext, hkeeps next, fun reply hreply =>
          hnew reply ((kmallocAligned_ready heap s.heap size align).trans hreply)⟩
    | kfree ptr | kfreeAligned ptr | write ptr =>
        obtain ⟨a, hlive, _⟩ := hallowed
        rw [hnone] at hlive
        cases hlive
  · exact exists_handles harray hheld hallowed

/-! ## Every run -/

theorem invariant_of_fresh (hfresh : Fresh heap s) : Invariant heap s := by
  obtain ⟨hnone, hidle | ⟨h, hinit⟩⟩ := hfresh
  · exact Or.inl ⟨hidle, hnone⟩
  · obtain ⟨_, live⟩ := s
    cases hinit
    exact Or.inr ⟨_, _, _, held_kheapInit _ h hnone⟩

def Sound (heap : ℕ) (s : Clients) : Prop := ∃ blocks limit, Intact heap s blocks limit

theorem Held.intact (hheld : Held heap s blocks owner length) :
    Intact heap s blocks fun ptr => owner ptr + metaSize + length ptr where
  headers _ := hheld.rep.headers
  tiles _ := hheld.rep.filled
  block ptr hlive := by
    obtain ⟨a, _, howns⟩ := hheld.exists_live hlive
    exact ⟨_, howns.used, rfl, howns.le, rfl⟩
  large ptr a hlive := (hheld.owns ptr a hlive).room
  inside ptr hlive := by
    obtain ⟨a, _, howns⟩ := hheld.exists_live hlive
    obtain ⟨hlow, hhigh⟩ := hheld.rep.bounds howns.used
    have hle := howns.le
    exact ⟨by omega, hhigh⟩
  apart p q hp hq hne := by
    obtain ⟨a, _, hownsp⟩ := hheld.exists_live hp
    obtain ⟨b, _, hownsq⟩ := hheld.exists_live hq
    have hapart := hheld.rep.apart hownsp.used hownsq.used fun heq =>
      hne (hheld.single p q hp hq heq)
    have hlep := hownsp.le
    have hleq := hownsq.le
    omega

theorem sound_of_invariant (hinv : Invariant heap s) : Sound heap s := by
  rcases hinv with ⟨hidle, hnone⟩ | ⟨blocks, owner, length, hheld⟩
  · have hnot : ¬ s.heap.initialized = true := by
      rw [hidle]
      exact Bool.false_ne_true
    refine ⟨[], fun _ => 0, ⟨fun h => absurd h hnot, fun h => absurd h hnot, ?_, ?_, ?_, ?_⟩⟩
    · exact fun ptr hlive => absurd (hnone ptr) hlive
    · intro ptr a hlive
      rw [hnone] at hlive
      cases hlive
    · exact fun ptr hlive => absurd (hnone ptr) hlive
    · exact fun p q hp => absurd (hnone p) hp
  · exact ⟨blocks, _, hheld.intact⟩

theorem returns_of_invariant (harray : HeapArray heap) (hinv : Invariant heap s) :
    Returns heap s := by
  intro event hallowed
  obtain ⟨next, hhandles⟩ := exists_handles_of_invariant harray hinv hallowed
  exact ⟨next, hhandles.act_eq⟩

/-- In every run of the allocator and its clients the headers are those of blocks that fill the
heap, and live pointers have bytes of their own in it, as many as asked for.  The calls return,
with pointers that are not live, and leave the bytes of live pointers as they are. -/
theorem sound_always (harray : HeapArray heap) {run : List (HeapEvent × Clients)}
    (hfresh : Fresh heap s) (hrun : Along (HeapStep heap) s run) :
    Always (Sound heap) s run ∧ Always (Returns heap) s run ∧
      Along KeepsBytes s run ∧ Along (ReturnsNew heap) s run := by
  have hstep : ∀ before event after, Invariant heap before → HeapStep heap before event after →
      Handles heap before event after := by
    rintro before event after hinv ⟨hallowed, hact⟩
    obtain ⟨next, hhandles⟩ := exists_handles_of_invariant harray hinv hallowed
    rw [hhandles.act_eq, Option.some.injEq] at hact
    rw [← hact]
    exact hhandles
  have hstart := invariant_of_fresh hfresh
  have hinv : Always (Invariant heap) s run :=
    always_of_invariant (Invariant heap)
      (fun _ _ _ hbefore h => Or.inr (hstep _ _ _ hbefore h).held) hstart hrun
  have hboth : Along (fun before event after => KeepsBytes before event after ∧
      ReturnsNew heap before event after) s run :=
    along_of_guarded (Invariant heap)
      (fun _ _ _ hbefore _ h => ⟨Or.inr (hstep _ _ _ hbefore h).held,
        (hstep _ _ _ hbefore h).keeps, (hstep _ _ _ hbefore h).new⟩) hstart hrun hrun
  exact ⟨hinv.mono fun _ => sound_of_invariant, hinv.mono fun _ => returns_of_invariant harray,
    hboth.mono fun _ _ _ h => h.1, hboth.mono fun _ _ _ h => h.2⟩

/-! ## A run -/

/-- Memory of zeros, in which `heap` is one page from the null pointer. -/
def emptyClients : Clients := ⟨⟨fun _ => 0, 0, false⟩, fun _ => none⟩

def pageRun (events : List HeapEvent) : List (HeapEvent × Clients) :=
  trace (fun s event => (event.act 4096 s).getD s) emptyClients events

/-- Two clients allocate, one writes, and both release. -/
def twoClients : List HeapEvent :=
  [.kmalloc 5, .kmallocAligned 100 64, .write 4160 99 7, .kfree 4120, .kfreeAligned 4160]

theorem sound_twoClients :
    Always (Sound 4096) emptyClients (pageRun twoClients) ∧
      Always (Returns 4096) emptyClients (pageRun twoClients) ∧
      Along KeepsBytes emptyClients (pageRun twoClients) ∧
      Along (ReturnsNew 4096) emptyClients (pageRun twoClients) := by
  have hsome : ∀ (s : Clients) (event : HeapEvent), (event.act 4096 s).isSome = true →
      event.act 4096 s = some ((event.act 4096 s).getD s) := by
    intro s event h
    obtain ⟨next, hnext⟩ := Option.isSome_iff_exists.mp h
    rw [hnext]
    rfl
  apply sound_always ⟨by decide, by decide⟩ ⟨fun _ => rfl, Or.inl rfl⟩
  refine ⟨⟨(by decide : 5 < kheapSize), hsome _ _ (by decide +kernel)⟩,
    ⟨⟨by decide, by decide, by decide⟩, hsome _ _ (by decide +kernel)⟩,
    ⟨⟨⟨100, true⟩, by decide +kernel, by decide⟩, rfl⟩,
    ⟨⟨⟨5, false⟩, by decide +kernel, rfl⟩, rfl⟩,
    ⟨⟨⟨100, true⟩, by decide +kernel, rfl⟩, rfl⟩, trivial⟩

end EigenOS.HeapImage
