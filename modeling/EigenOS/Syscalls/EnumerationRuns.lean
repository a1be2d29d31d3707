import EigenOS.Syscalls.Getdents

/-!
# What a reading returns

A call returns the children that it takes the descriptor past.  A child that is there all the
time is ahead of the descriptor at first and behind it at the end, so a reading returns it once
more than it is put ahead again, less the times that it is put behind.
-/

namespace EigenOS.Enumeration

open EigenOS.Crossings
open EigenOS.Filesystem (Caller FsCall Slot Table cString maxFiles slotAt slotAt_natCast)
open EigenOS.Posix
open EigenOS.Tasking (FdSlot maxFds toFd toFd_eq_some)
open EigenOS.Transition

/-- In a list without repetition, the part from `c` on of length `k` has the members with their
place in it. -/
theorem mem_take_drop_iff {α : Type*} [DecidableEq α] {l : List α} {a : α} (hl : l.Nodup)
    (ha : a ∈ l) (c k : ℕ) :
    a ∈ (l.drop c).take k ↔ ¬ l.idxOf a < c ∧ l.idxOf a < c + k := by
  constructor
  · intro hmem
    obtain ⟨i, hi⟩ := List.mem_iff_getElem?.mp hmem
    rw [List.getElem?_take] at hi
    by_cases hk : i < k
    · rw [if_pos hk, List.getElem?_drop] at hi
      obtain ⟨hlt, heq⟩ := List.getElem?_eq_some_iff.mp hi
      have hplace : l.idxOf a = c + i := by
        rw [← heq]
        exact hl.idxOf_getElem (c + i) hlt
      omega
    · rw [if_neg hk] at hi
      cases hi
  · rintro ⟨hge, hlt⟩
    have hplace : l.idxOf a < l.length := List.idxOf_lt_length_iff.mpr ha
    apply List.mem_iff_getElem?.mpr
    refine ⟨l.idxOf a - c, ?_⟩
    rw [List.getElem?_take, if_pos (by omega), List.getElem?_drop,
      Nat.add_sub_cancel' (Nat.le_of_not_lt hge), List.getElem?_eq_getElem hplace,
      List.getElem_idxOf hplace]

section Steps

variable {f : Fin maxFds} {sys next : System}

/-- The descriptor of a task that runs is of a directory. -/
structure Opened (f : Fin maxFds) (sys : System) : Prop where
  current : sys.kernel.current ≠ none
  opened : 0 < (sys.io.fds f).flags
  short : cursor f sys ≤ maxFiles

/-- What a call of `sys_getdents64` does: it goes over the next `k` children, and returns those
of them that have a name. -/
structure GoesOver (f : Fin maxFds) (count : UInt32) (k : ℕ) (sys next : System) : Prop where
  opened : Opened f next
  entries_eq : entries f next = entries f sys
  files_eq : next.io.files = sys.io.files
  cursor_eq : cursor f next = cursor f sys + k
  slots : (returned f sys (.getdents64 count)).map Prod.fst =
    (((entries f sys).drop (cursor f sys)).take k).filter fun child =>
      cString (sys.io.files child).name ≠ []
  ret : (sysGetdents64 sys f true count).1 =
    (((returned f sys (.getdents64 count)).map Prod.snd).map Dirent.reclen).sum

theorem exists_goesOver (h : Opened f sys) {count : UInt32}
    (hstep : ListingStep f sys (.getdents64 count) next) : ∃ k, GoesOver f count k sys next := by
  obtain ⟨cur, hcur⟩ := Option.ne_none_iff_exists'.mp h.current
  obtain ⟨k, hk, hemit, hslots⟩ := emitDirents_eq sys.io.files count.toNat (cursor f sys)
    ((entries f sys).drop (cursor f sys))
  have hcall : sysGetdents64 sys f true count =
      ((((((returned f sys (.getdents64 count)).map Prod.snd).map Dirent.reclen).sum : ℕ) : ℤ),
        (returned f sys (.getdents64 count)).map Prod.snd,
        sys.io.setSlot f { sys.io.fds f with offset := (cursor f sys + k) % 2 ^ 32 }) := by
    unfold cursor entries at hemit
    unfold sysGetdents64
    rw [hcur, toFd_eq_some.mpr rfl]
    dsimp only
    rw [if_neg (by decide), if_neg h.opened.ne', hemit]
    rfl
  have hlength := length_children_le sys.io.files ((sys.io.fds f).flags - 1)
  have hfit : cursor f sys + k ≤ maxFiles := by
    rw [List.length_drop, entries] at hk
    have hshort := h.short
    omega
  have hsmall : (cursor f sys + k) % 2 ^ 32 = cursor f sys + k :=
    Nat.mod_eq_of_lt (hfit.trans_lt (by decide))
  rw [hsmall] at hcall
  have hnext := Option.some.inj hstep
  rw [hcall] at hnext
  refine ⟨k, ?_⟩
  rw [← hnext]
  exact {
    opened := ⟨h.current, by simpa [Descriptors.Io.setSlot] using h.opened,
      by simpa [cursor, Descriptors.Io.setSlot] using hfit⟩
    entries_eq := by simp [entries, Descriptors.Io.setSlot]
    files_eq := rfl
    cursor_eq := by simp [cursor, Descriptors.Io.setSlot]
    slots := hslots
    ret := congrArg Prod.fst hcall }

theorem opened_change (h : Opened f sys) {homeDir trashDir : ℤ} {caller : Caller} {call : FsCall}
    (hstep : ListingStep f sys (.change homeDir trashDir caller call) next) : Opened f next := by
  obtain ⟨reply, _, hnext⟩ := Option.map_eq_some_iff.mp hstep
  rw [← hnext]
  exact ⟨h.current, h.opened, h.short⟩

theorem opened_step (h : Opened f sys) {event : ListingEvent}
    (hstep : ListingStep f sys event next) : Opened f next := by
  cases event with
  | getdents64 count =>
      obtain ⟨_, hover⟩ := exists_goesOver h hstep
      exact hover.opened
  | change => exact opened_change h hstep

/-- A call returns a child if and only if it takes the descriptor past it. -/
theorem GoesOver.mem_returned_iff {count : UInt32} {k : ℕ} (h : GoesOver f count k sys next)
    {slot : Slot} (hpresent : Present f slot sys) :
    slot ∈ (returned f sys (.getdents64 count)).map Prod.fst ↔
      Enters (Passed f slot) sys (ListingEvent.getdents64 count) next := by
  have hnodup : (entries f sys).Nodup := nodup_children _ _
  rw [h.slots, List.mem_filter, mem_take_drop_iff hnodup hpresent.1]
  unfold Enters Passed
  rw [h.entries_eq, h.cursor_eq]
  exact and_iff_left (by simpa using hpresent.2)

theorem GoesOver.not_leaves {count : UInt32} {k : ℕ} (h : GoesOver f count k sys next)
    (slot : Slot) : ¬ Leaves (Passed f slot) sys (ListingEvent.getdents64 count) next := by
  rintro ⟨hbefore, hafter⟩
  apply hafter
  unfold Passed at hbefore ⊢
  rw [h.entries_eq, h.cursor_eq]
  omega

theorem nodup_returned (f : Fin maxFds) (sys : System) (h : Opened f sys) (count : UInt32) :
    ((returned f sys (.getdents64 count)).map Prod.fst).Nodup := by
  obtain ⟨k, hover⟩ := exists_goesOver h rfl
  have hnodup : (entries f sys).Nodup := nodup_children _ _
  have hpart : (((entries f sys).drop (cursor f sys)).take k).Nodup :=
    (hnodup.sublist (List.drop_sublist _ _)).sublist (List.take_sublist _ _)
  rw [hover.slots]
  exact hpart.filter _

/-- With a buffer for the next record, a call stores none if and only if no child is left. -/
theorem returned_eq_nil_iff {count : UInt32} (hroom : NextFits sys (sys.io.fds f) count) :
    returned f sys (.getdents64 count) = [] ↔ namedFrom sys (sys.io.fds f) = [] := by
  obtain ⟨_, _, hemit, _⟩ := emitDirents_eq sys.io.files count.toNat (cursor f sys)
    ((entries f sys).drop (cursor f sys))
  have hstored := congrArg Prod.fst hemit
  have hempty := emitDirents_eq_nil_iff sys.io.files count.toNat (cursor f sys)
    ((entries f sys).drop (cursor f sys))
  rw [hstored, List.map_eq_nil_iff] at hempty
  refine hempty.trans ⟨?_, ?_⟩
  · intro hfull
    cases hnamed : namedFrom sys (sys.io.fds f) with
    | nil => rfl
    | cons child rest =>
        exact absurd (hfull child rest hnamed) (not_lt.mpr (hroom child rest hnamed))
  · intro hnone child rest hchild
    have hsome : namedFrom sys (sys.io.fds f) = child :: rest := hchild
    rw [hnone] at hsome
    cases hsome

/-- A call that returns 0 with a buffer for the next record has found no child left. -/
theorem namedFrom_eq_nil (h : Opened f sys) {count : UInt32}
    (hroom : NextFits sys (sys.io.fds f) count) (hret : (sysGetdents64 sys f true count).1 = 0) :
    namedFrom sys (sys.io.fds f) = [] := by
  obtain ⟨k, hover⟩ := exists_goesOver h (rfl : ListingStep f sys (.getdents64 count) _)
  apply (returned_eq_nil_iff hroom).mp
  cases hrecords : returned f sys (.getdents64 count) with
  | nil => rfl
  | cons first others =>
      have hsum := hover.ret
      have hfirst := first.2.stored_le_reclen
      rw [hret, hrecords, List.map_cons, List.map_cons, List.sum_cons] at hsum
      omega

/-- A child with a name is left as long as the descriptor is not past it. -/
theorem mem_namedFrom_iff {slot : Slot} (hpresent : Present f slot sys) :
    slot ∈ namedFrom sys (sys.io.fds f) ↔ ¬ Passed f slot sys := by
  have hnodup : (entries f sys).Nodup := nodup_children _ _
  have hplace : (entries f sys).idxOf slot < (entries f sys).length :=
    List.idxOf_lt_length_iff.mpr hpresent.1
  have hpart := mem_take_drop_iff hnodup hpresent.1 (cursor f sys) (entries f sys).length
  rw [List.take_of_length_le (by simp)] at hpart
  unfold namedFrom Passed
  rw [List.mem_filter]
  constructor
  · intro hmem
    exact (hpart.mp hmem.1).1
  · intro hahead
    exact ⟨hpart.mpr ⟨hahead, by omega⟩, by simpa using hpresent.2⟩

end Steps

/-! ## Whole readings -/

section Runs

variable {f : Fin maxFds} {start : System} {run : List (ListingEvent × System)} {slot : Slot}

/-- A call takes the descriptor past the child. -/
def Reads (f : Fin maxFds) (slot : Slot) (sys : System) (event : ListingEvent) (next : System) :
    Prop :=
  ¬ (∀ count, event ≠ .getdents64 count) ∧ Enters (Passed f slot) sys event next

instance (sys : System) (event : ListingEvent) (next : System) :
    Decidable (Reads f slot sys event next) := inferInstanceAs (Decidable (_ ∧ _))

theorem count_returnedSlots (hopened : Opened f start) (hrun : Along (ListingStep f) start run)
    (hpresent : Always (Present f slot) start run) :
    (returnedSlots f start run).count slot = steps (Reads f slot) start run := by
  induction run generalizing start with
  | nil => rfl
  | cons head rest ih =>
      obtain ⟨event, next⟩ := head
      have hrest := ih (opened_step hopened hrun.1) hrun.2 hpresent.2
      rw [returnedSlots, List.count_append, hrest, steps]
      congr 1
      cases event with
      | getdents64 count =>
          obtain ⟨k, hover⟩ := exists_goesOver hopened hrun.1
          have hreads : slot ∈ (returned f start (.getdents64 count)).map Prod.fst ↔
              Reads f slot start (.getdents64 count) next := by
            rw [hover.mem_returned_iff hpresent.1]
            exact (and_iff_right fun h => h count rfl).symm
          rw [(nodup_returned f start hopened count).count, if_congr hreads rfl rfl]
      | change =>
          rw [if_neg]
          · rfl
          · intro hreads
            exact hreads.1 fun _ => ListingEvent.noConfusion

theorem passed_final (hopened : Opened f start) (hrun : Along (ListingStep f) start run)
    (hroom : Along (LargeEnough f) start run) (hended : Ended f start run)
    (hpresent : Always (Present f slot) start run) : Passed f slot (final start run) := by
  induction run generalizing start with
  | nil => exact hended.elim
  | cons head rest ih =>
      obtain ⟨event, next⟩ := head
      cases rest with
      | nil =>
          cases event with
          | getdents64 count =>
              have hnone := namedFrom_eq_nil hopened (hroom.1 count rfl) hended
              obtain ⟨k, hover⟩ := exists_goesOver hopened hrun.1
              have hpassed : Passed f slot start := by
                by_contra hahead
                have hmem := (mem_namedFrom_iff hpresent.1).mpr hahead
                rw [hnone] at hmem
                cases hmem
              by_contra hahead
              exact hover.not_leaves slot ⟨hpassed, hahead⟩
          | change => exact hended.elim
      | cons second others =>
          have hlater : Ended f next (second :: others) := by
            cases event <;> exact hended
          exact ih (opened_step hopened hrun.1) hrun.2 hroom.2 hlater hpresent.2

theorem count_add_skips (hopened : Opened f start) (hrewound : cursor f start = 0)
    (hrun : Along (ListingStep f) start run) (hroom : Along (LargeEnough f) start run)
    (hended : Ended f start run) (hpresent : Always (Present f slot) start run) :
    (returnedSlots f start run).count slot + steps (Skips f slot) start run =
      steps (Repeats f slot) start run + 1 := by
  have hahead : ¬ Passed f slot start := by
    unfold Passed
    omega
  have hpassed := passed_final hopened hrun hroom hended hpresent
  have henters : steps (Enters (Passed f slot)) start run =
      steps (Reads f slot) start run + steps (Skips f slot) start run := by
    apply steps_eq_add
    refine Along.mono ?_ hrun
    intro sys event next _
    unfold Reads Skips
    tauto
  have hleaves : steps (Leaves (Passed f slot)) start run = steps (Repeats f slot) start run := by
    apply steps_congr
    refine along_of_guarded (Opened f) ?_ hopened hrun hrun
    intro sys event next hsys _ hstep
    refine ⟨opened_step hsys hstep, ?_⟩
    unfold Repeats
    cases event with
    | getdents64 count =>
        obtain ⟨k, hover⟩ := exists_goesOver hsys hstep
        exact iff_of_false (hover.not_leaves slot) fun h => hover.not_leaves slot h.2
    | change => exact (and_iff_right fun _ => ListingEvent.noConfusion).symm
  have hbalance := enters_eq_leaves_succ (Passed f slot) hahead hpassed
  rw [count_returnedSlots hopened hrun hpresent]
  omega

/-! ## The listing as a whole -/

theorem within_step (f : Fin maxFds) (sys : System) (event : ListingEvent) (next : System) :
    Within f sys event next := by
  rintro count rfl before entry after hsplit
  exact records_within hsplit

/-- A record has the number of a child where `fill_kstat` has its slot, and these differ. -/
theorem ino_ne {sys : System} {event : ListingEvent} {entry : Slot × Dirent}
    (hentry : entry ∈ returned f sys event) :
    entry.2.ino ≠ (fillKstat sys.io.files entry.1.val).ino := by
  cases event with
  | getdents64 count =>
      obtain ⟨i, hi, heq⟩ := records_eq_direntOf hentry
      rw [List.getElem?_drop] at hi
      have hnumber := number_lt_slot hi
      have hkstat : (fillKstat sys.io.files entry.1.val).ino = entry.1.val + 2 := by
        rw [fillKstat, if_neg (not_le.mpr entry.1.isLt)]
      rw [hkstat, heq, direntOf]
      dsimp only
      omega
  | change => cases hentry

theorem sameInodes_iff {sys next : System} {event : ListingEvent}
    (hroom : LargeEnough f sys event next) :
    SameInodes f sys event next ↔ NothingLeft f sys event next := by
  have hnone : SameInodes f sys event next ↔ returned f sys event = [] := by
    constructor
    · intro hsame
      exact List.eq_nil_iff_forall_not_mem.mpr fun entry hentry =>
        ino_ne hentry (hsame entry hentry)
    · intro hnil entry hentry
      rw [hnil] at hentry
      cases hentry
  rw [hnone]
  cases event with
  | getdents64 count =>
      rw [returned_eq_nil_iff (hroom count rfl)]
      constructor
      · rintro hnil other hother
        exact hnil
      · intro hnil
        exact hnil count rfl
  | change => exact iff_of_true rfl fun _ hevent => ListingEvent.noConfusion hevent

theorem ended_of_change {sys next : System} {homeDir trashDir : ℤ} {caller : Caller}
    {call : FsCall} {rest : List (ListingEvent × System)}
    (hended : Ended f sys ((.change homeDir trashDir caller call, next) :: rest)) :
    Ended f next rest := by
  cases rest with
  | nil => exact hended.elim
  | cons second others => exact hended

theorem not_always_present (hopened : Opened f start) (hrewound : cursor f start = 0)
    (hrun : Along (ListingStep f) start run) (hended : Ended f start run)
    (hnothing : Along (NothingLeft f) start run) : ¬ Always (Present f slot) start run := by
  induction run generalizing start with
  | nil => exact hended.elim
  | cons head rest ih =>
      obtain ⟨event, next⟩ := head
      intro hpresent
      cases event with
      | getdents64 count =>
          have hahead : ¬ Passed f slot start := by
            unfold Passed
            omega
          have hmem := (mem_namedFrom_iff hpresent.1).mpr hahead
          rw [hnothing.1 count rfl] at hmem
          cases hmem
      | change homeDir trashDir caller call =>
          have hcursor : cursor f next = 0 := by
            obtain ⟨reply, _, hnext⟩ := Option.map_eq_some_iff.mp hrun.1
            rw [← hnext]
            exact hrewound
          exact ih (opened_change hopened hrun.1) hcursor hrun.2 (ended_of_change hended)
            hnothing.2 hpresent.2

theorem Reading.opened_first (h : Reading f start run) : Opened f start :=
  ⟨h.current, h.opened, h.rewound.trans_le (Nat.zero_le _)⟩

/-- A reading is what it is for if and only if it never finds a child.  The records lie in the
buffer, and a child that is there all the time is returned once if and only if changes of the
tree put it behind the descriptor as often as ahead of it again. -/
theorem enumerates_iff (h : Reading f start run) :
    (Enumerates f start run ↔ Along (NothingLeft f) start run) ∧
      Along (Within f) start run ∧
      ∀ slot, Always (Present f slot) start run →
        ((returnedSlots f start run).count slot = 1 ↔
          steps (Skips f slot) start run = steps (Repeats f slot) start run) := by
  have hwithin : Along (Within f) start run :=
    Along.mono (fun sys event next _ => within_step f sys event next) h.steps
  have hinodes : Along (SameInodes f) start run ↔ Along (NothingLeft f) start run :=
    along_iff_of_invariant (fun _ => True)
      (fun _ _ _ _ hroom => ⟨trivial, sameInodes_iff hroom⟩) trivial h.room
  refine ⟨⟨fun hall => hinodes.mp hall.inodes, fun hnothing => ?_⟩, hwithin, ?_⟩
  · exact {
      once := fun slot hpresent =>
        absurd hpresent (not_always_present h.opened_first h.rewound h.steps h.ended hnothing)
      within := hwithin
      inodes := hinodes.mpr hnothing }
  · intro slot hpresent
    have hcount := count_add_skips h.opened_first h.rewound h.steps h.room h.ended hpresent
    omega

end Runs

/-! ## Two readings -/

instance (sys : System) (slot : FdSlot) (count : UInt32) : Decidable (NextFits sys slot count) :=
  match hnamed : namedFrom sys slot with
  | [] => .isTrue fun _ _ hsome => absurd (hnamed.symm.trans hsome) (List.cons_ne_nil _ _).symm
  | child :: rest =>
      decidable_of_iff ((direntOf (sys.io.files child) 0).reclen ≤ count.toNat) <| by
        constructor
        · intro hfits other more hother
          rw [hnamed, List.cons.injEq] at hother
          rw [← hother.1]
          exact hfits
        · intro hfits
          exact hfits child rest hnamed

instance (f : Fin maxFds) (sys : System) (event : ListingEvent) (next : System) :
    Decidable (LargeEnough f sys event next) :=
  match event with
  | .getdents64 count =>
      decidable_of_iff (NextFits sys (sys.io.fds f) count) <| by
        constructor
        · intro hfits other hother
          rw [← ListingEvent.getdents64.inj hother]
          exact hfits
        · intro hall
          exact hall count rfl
  | .change .. => .isTrue fun _ hevent => ListingEvent.noConfusion hevent

instance decidablePresent (f : Fin maxFds) (slot : Slot) :
    ∀ (start : System) (run : List (ListingEvent × System)),
      Decidable (Always (Present f slot) start run)
  | start, [] => inferInstanceAs (Decidable (Present f slot start))
  | start, (_, next) :: rest =>
      have := decidablePresent f slot next rest
      inferInstanceAs (Decidable (Present f slot start ∧ Always (Present f slot) next rest))

def rootReader : Caller := ⟨Filesystem.rootSlot, 0, true⟩

def dirA : Filesystem.CString := ⟨[Filesystem.slash, 97], by decide⟩
def dirB : Filesystem.CString := ⟨[Filesystem.slash, 98], by decide⟩
def dirC : Filesystem.CString := ⟨[Filesystem.slash, 99], by decide⟩

/-- The root with directories in it. -/
def rootWith (dirs : List Filesystem.CString) : Table :=
  dirs.foldl (fun files path => (Filesystem.fsMkdir files rootReader path).1)
    Filesystem.initialTable

/-- Descriptor 3 is of the root. -/
def rootFd : Fin maxFds := ⟨3, Tasking.three_lt_maxFds⟩

def rootOpened (dirs : List Filesystem.CString) : System where
  kernel := { Tasking.initTasking with current := some ⟨1, Tasking.one_lt_maxTasks⟩ }
  io := { Descriptors.bootIo with
    files := rootWith dirs
    fds := fun f => if f = rootFd then { FdSlot.zero with flags := 1 } else FdSlot.zero }
  cwd := Filesystem.rootSlot
  fsBase := 0
  sigHandlers := fun _ => 0

def listingRun (dirs : List Filesystem.CString) (events : List ListingEvent) :
    List (ListingEvent × System) :=
  trace (fun sys event => (event.next rootFd sys).getD sys) (rootOpened dirs) events

/-- The root has two directories, and a third is made when the first has been returned. -/
def addedRun : List (ListingEvent × System) :=
  listingRun [dirA, dirB]
    [.getdents64 24, .change (-1) (-1) rootReader (.mkdir dirC), .getdents64 24, .getdents64 24,
      .getdents64 24]

theorem reading_added : Reading rootFd (rootOpened [dirA, dirB]) addedRun where
  current := by decide
  opened := by decide
  rewound := rfl
  steps := ⟨rfl, rfl, rfl, rfl, rfl, trivial⟩
  room := by decide +kernel
  ended := by
    change _ = (0 : ℤ)
    decide +kernel

/-- The two directories are returned once each, under other inode numbers than their own. -/
theorem returned_once_added :
    (returnedSlots rootFd (rootOpened [dirA, dirB]) addedRun).count ⟨1, by decide⟩ = 1 ∧
      (returnedSlots rootFd (rootOpened [dirA, dirB]) addedRun).count ⟨2, by decide⟩ = 1 ∧
      ¬ Enumerates rootFd (rootOpened [dirA, dirB]) addedRun := by
  obtain ⟨hiff, -, honce⟩ := enumerates_iff reading_added
  refine ⟨(honce _ (by decide +kernel)).mpr (by decide +kernel),
    (honce _ (by decide +kernel)).mpr (by decide +kernel), fun hall => ?_⟩
  have hnothing : namedFrom (rootOpened [dirA, dirB]) ((rootOpened [dirA, dirB]).io.fds rootFd) =
      [] := (hiff.mp hall).1 24 rfl
  exact absurd hnothing (by decide +kernel)

/-- The root has three directories, and the first one is removed when it has been returned. -/
def removedRun : List (ListingEvent × System) :=
  listingRun [dirA, dirB, dirC]
    [.getdents64 24, .change (-1) (-1) rootReader (.rmdir dirA), .getdents64 24, .getdents64 24]

theorem reading_removed : Reading rootFd (rootOpened [dirA, dirB, dirC]) removedRun where
  current := by decide
  opened := by decide
  rewound := rfl
  steps := ⟨rfl, rfl, rfl, rfl, trivial⟩
  room := by decide +kernel
  ended := by
    change _ = (0 : ℤ)
    decide +kernel

/-- The second directory is there all the time and is not returned. -/
theorem not_enumerates_removed :
    Reading rootFd (rootOpened [dirA, dirB, dirC]) removedRun ∧
      ¬ Enumerates rootFd (rootOpened [dirA, dirB, dirC]) removedRun := by
  refine ⟨reading_removed, fun hall => ?_⟩
  have hpresent : Always (Present rootFd ⟨2, by decide⟩) (rootOpened [dirA, dirB, dirC])
      removedRun := by decide +kernel
  have hnever : (returnedSlots rootFd (rootOpened [dirA, dirB, dirC]) removedRun).count
      ⟨2, by decide⟩ = 0 := by decide +kernel
  have honce := hall.once _ hpresent
  rw [hnever] at honce
  cases honce

end EigenOS.Enumeration
