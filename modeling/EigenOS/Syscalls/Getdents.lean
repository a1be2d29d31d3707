import EigenOS.Syscalls.ErrorReturns
import EigenOS.Library.Crossings

/-!
# What one listing call stores

The records of a call of `sys_getdents64`, each with the slot of the child that it is about.
-/

namespace EigenOS.Posix

open EigenOS.Filesystem (Slot Table cString maxFiles rootSlot)
open EigenOS.Tasking (maxFds toFd toFd_eq_some)

/-- The loop of `sys_getdents64` again, with the child of each record. -/
def records (files : Table) : ℕ → ℕ → List Slot → List (Slot × Dirent)
  | _, _, [] => []
  | room, nth, child :: rest =>
      let d := direntOf (files child) nth
      if d.name = [] then records files room (nth + 1) rest
      else if room < d.reclen then []
      else (child, d) :: records files (room - d.reclen) (nth + 1) rest

/-- The loop stores the records of the children up to the one where it stops, those without a
name left out. -/
theorem emitDirents_eq (files : Table) (room nth : ℕ) (nodes : List Slot) :
    ∃ k ≤ nodes.length,
      emitDirents files room nth nodes = ((records files room nth nodes).map Prod.snd, nth + k) ∧
      (records files room nth nodes).map Prod.fst =
        (nodes.take k).filter fun child => cString (files child).name ≠ [] := by
  induction nodes generalizing room nth with
  | nil => exact ⟨0, le_rfl, rfl, rfl⟩
  | cons child rest ih =>
      rw [emitDirents, records]
      dsimp only
      by_cases hname : (direntOf (files child) nth).name = []
      · obtain ⟨k, hk, hemit, hslots⟩ := ih room (nth + 1)
        refine ⟨k + 1, Nat.succ_le_succ hk, ?_, ?_⟩
        · rw [if_pos hname, if_pos hname, hemit, Nat.add_right_comm, Nat.add_assoc]
        · rw [if_pos hname, hslots, List.take_succ_cons,
            List.filter_cons_of_neg (by simpa [direntOf] using hname)]
      · by_cases hroom : room < (direntOf (files child) nth).reclen
        · refine ⟨0, Nat.zero_le _, ?_, ?_⟩
          · rw [if_neg hname, if_neg hname, if_pos hroom, if_pos hroom]
            rfl
          · rw [if_neg hname, if_pos hroom]
            rfl
        · obtain ⟨k, hk, hemit, hslots⟩ := ih (room - (direntOf (files child) nth).reclen) (nth + 1)
          refine ⟨k + 1, Nat.succ_le_succ hk, ?_, ?_⟩
          · rw [if_neg hname, if_neg hname, if_neg hroom, if_neg hroom, hemit]
            rw [List.map_cons, Nat.add_right_comm, Nat.add_assoc]
          · rw [if_neg hname, if_neg hroom, List.map_cons, hslots, List.take_succ_cons,
              List.filter_cons_of_pos (by simpa [direntOf] using hname)]

/-- Each record is about the child that it is stored for, by the number of that child. -/
theorem records_eq_direntOf {files : Table} {room nth : ℕ} {nodes : List Slot}
    {entry : Slot × Dirent} (hentry : entry ∈ records files room nth nodes) :
    ∃ i, nodes[i]? = some entry.1 ∧ entry.2 = direntOf (files entry.1) (nth + i) := by
  induction nodes generalizing room nth with
  | nil => simp [records] at hentry
  | cons child rest ih =>
      rw [records] at hentry
      by_cases hname : (direntOf (files child) nth).name = []
      · rw [if_pos hname] at hentry
        obtain ⟨i, hi, heq⟩ := ih hentry
        exact ⟨i + 1, hi, by rw [heq, Nat.add_right_comm, Nat.add_assoc]⟩
      · rw [if_neg hname] at hentry
        by_cases hroom : room < (direntOf (files child) nth).reclen
        · rw [if_pos hroom] at hentry
          cases hentry
        · rw [if_neg hroom] at hentry
          cases hentry with
          | head => exact ⟨0, rfl, rfl⟩
          | tail _ hrest =>
              obtain ⟨i, hi, heq⟩ := ih hrest
              exact ⟨i + 1, hi, by rw [heq, Nat.add_right_comm, Nat.add_assoc]⟩

/-- The records lie one after the other in the buffer, each with its name and the NUL of it. -/
theorem records_within {files : Table} {room nth : ℕ} {nodes : List Slot}
    {before after : List (Slot × Dirent)} {entry : Slot × Dirent}
    (hsplit : records files room nth nodes = before ++ entry :: after) :
    (before.map fun stored => stored.2.reclen).sum + (19 + entry.2.name.length + 1) ≤ room := by
  induction nodes generalizing room nth before with
  | nil => simp [records] at hsplit
  | cons child rest ih =>
      rw [records] at hsplit
      by_cases hname : (direntOf (files child) nth).name = []
      · rw [if_pos hname] at hsplit
        exact ih hsplit
      · rw [if_neg hname] at hsplit
        by_cases hroom : room < (direntOf (files child) nth).reclen
        · rw [if_pos hroom] at hsplit
          simp at hsplit
        · rw [if_neg hroom] at hsplit
          cases before with
          | nil =>
              rw [List.nil_append, List.cons.injEq] at hsplit
              have hstored := (direntOf (files child) nth).stored_le_reclen
              rw [← hsplit.1]
              simp only [List.map_nil, List.sum_nil]
              omega
          | cons first others =>
              rw [List.cons_append, List.cons.injEq] at hsplit
              have hrest := ih hsplit.2
              rw [← hsplit.1]
              simp only [List.map_cons, List.sum_cons]
              omega

/-! ## The numbers of children -/

theorem nodup_children (files : Table) (dir : ℕ) : (children files dir).Nodup :=
  (List.nodup_finRange maxFiles).filter _

theorem length_children_le (files : Table) (dir : ℕ) : (children files dir).length ≤ maxFiles := by
  have hlength := List.length_filter_le (fun i => decide (i ≠ rootSlot) && (files i).inUse &&
    decide ((files i).parentDir = dir)) (List.finRange maxFiles)
  rw [List.length_finRange] at hlength
  exact hlength

/-- In an ascending list of numbers from `base` on, each is at least as far from `base` as its
place. -/
theorem add_le_of_getElem? {n base i : ℕ} {slots : List (Fin n)} {slot : Fin n}
    (hsorted : slots.Pairwise (· < ·)) (hbase : ∀ s ∈ slots, base ≤ s.val)
    (hslot : slots[i]? = some slot) : base + i ≤ slot.val := by
  induction slots generalizing base i with
  | nil => cases hslot
  | cons head rest ih =>
      rw [List.pairwise_cons] at hsorted
      cases i with
      | zero =>
          rw [List.getElem?_cons_zero, Option.some.injEq] at hslot
          rw [← hslot]
          exact hbase head (List.mem_cons_self)
      | succ i =>
          have hhead := hbase head List.mem_cons_self
          have habove : ∀ s ∈ rest, base + 1 ≤ s.val := fun s hs =>
            Nat.succ_le_of_lt (hhead.trans_lt (hsorted.1 s hs))
          have hrest := ih hsorted.2 habove hslot
          omega

theorem number_lt_slot {files : Table} {dir i : ℕ} {slot : Slot}
    (hslot : (children files dir)[i]? = some slot) : i < slot.val := by
  have hsorted : (children files dir).Pairwise (· < ·) :=
    (List.pairwise_lt_finRange maxFiles).filter _
  have hbase : ∀ s ∈ children files dir, 1 ≤ s.val := by
    intro s hs
    have hne : s ≠ rootSlot := by
      simp only [children, List.mem_filter, Bool.and_eq_true, decide_eq_true_eq] at hs
      exact hs.2.1.1
    exact Nat.one_le_iff_ne_zero.mpr fun hzero => hne (Fin.ext hzero)
  have hle := add_le_of_getElem? hsorted hbase hslot
  omega

end EigenOS.Posix

/-!
## Reading a directory

A task reads a directory through one descriptor, call after call, and the calls of others change
the tree in between.  The descriptor counts children, and a slot below a child that is freed or
filled changes the number of the child.
-/

namespace EigenOS.Enumeration

open EigenOS.Crossings
open EigenOS.Filesystem (Caller FsCall Slot Table cString maxFiles)
open EigenOS.Posix
open EigenOS.Tasking (FdSlot maxFds toFd toFd_eq_some)
open EigenOS.Transition

/-- A call that reads the directory, or a call that changes the tree. -/
inductive ListingEvent where
  | getdents64 (count : UInt32)
  | change (homeDir trashDir : ℤ) (caller : Caller) (call : FsCall)

section Model

variable (f : Fin maxFds)

/-- What an event leaves; `none` is a call that does not return. -/
def ListingEvent.next (sys : System) : ListingEvent → Option System
  | .getdents64 count => some { sys with io := (sysGetdents64 sys f true count).2.2 }
  | .change homeDir trashDir caller call =>
      (call.run ⟨sys.io.files, homeDir, trashDir⟩ caller).map fun reply =>
        { sys with io := { sys.io with files := reply.1 } }

def ListingStep (sys : System) (event : ListingEvent) (next : System) : Prop :=
  event.next f sys = some next

/-- The children of the directory that the descriptor is of. -/
def entries (sys : System) : List Slot := children sys.io.files ((sys.io.fds f).flags - 1)

/-- How many children the descriptor is past. -/
def cursor (sys : System) : ℕ := (sys.io.fds f).offset

/-- The records that a call stores. -/
def returned (sys : System) : ListingEvent → List (Slot × Dirent)
  | .getdents64 count =>
      records sys.io.files count.toNat (cursor f sys) ((entries f sys).drop (cursor f sys))
  | .change .. => []

/-- The children that a run returns, in their order. -/
def returnedSlots : System → List (ListingEvent × System) → List Slot
  | _, [] => []
  | sys, (event, next) :: rest => (returned f sys event).map Prod.fst ++ returnedSlots next rest

/-- A child of the directory, with a name. -/
def Present (slot : Slot) (sys : System) : Prop :=
  slot ∈ entries f sys ∧ cString (sys.io.files slot).name ≠ []

/-- The descriptor is past the child. -/
def Passed (slot : Slot) (sys : System) : Prop := (entries f sys).idxOf slot < cursor f sys

instance (slot : Slot) (sys : System) : Decidable (Present f slot sys) :=
  inferInstanceAs (Decidable (_ ∧ _))

instance (slot : Slot) : DecidablePred (Passed f slot) := fun _ =>
  inferInstanceAs (Decidable (_ < _))

/-! ## What a listing is for -/

/-- The records lie in the buffer, one after the other. -/
def Within (sys : System) (event : ListingEvent) (_ : System) : Prop :=
  ∀ count, event = .getdents64 count → ∀ before entry after,
    returned f sys event = before ++ entry :: after →
      (before.map fun stored => stored.2.reclen).sum + (19 + entry.2.name.length + 1) ≤ count.toNat

/-- Each record has the inode number of its file. -/
def SameInodes (sys : System) (event : ListingEvent) (_ : System) : Prop :=
  ∀ entry ∈ returned f sys event, entry.2.ino = (fillKstat sys.io.files entry.1.val).ino

/-- Each child that is there all the time is returned exactly once, in the buffer, and with its
inode number. -/
structure Enumerates (start : System) (run : List (ListingEvent × System)) : Prop where
  once : ∀ slot, Always (Present f slot) start run → (returnedSlots f start run).count slot = 1
  within : Along (Within f) start run
  inodes : Along (SameInodes f) start run

/-! ## The runs -/

/-- The next record fits the buffer. -/
def LargeEnough (sys : System) (event : ListingEvent) (_ : System) : Prop :=
  ∀ count, event = .getdents64 count → NextFits sys (sys.io.fds f) count

/-- The last call returns 0. -/
def Ended : System → List (ListingEvent × System) → Prop
  | _, [] => False
  | sys, [(.getdents64 count, _)] => (sysGetdents64 sys f true count).1 = 0
  | _, [(.change .., _)] => False
  | _, (_, next) :: rest => Ended next rest

/-- A task reads a directory from its start to its end. -/
structure Reading (start : System) (run : List (ListingEvent × System)) : Prop where
  current : start.kernel.current ≠ none
  opened : 0 < (start.io.fds f).flags
  rewound : cursor f start = 0
  steps : Along (ListingStep f) start run
  room : Along (LargeEnough f) start run
  ended : Ended f start run

/-! ## Where it goes wrong -/

/-- A call finds no child that is left. -/
def NothingLeft (sys : System) (event : ListingEvent) (_ : System) : Prop :=
  ∀ count, event = .getdents64 count → namedFrom sys (sys.io.fds f) = []

/-- A change of the tree takes the child from ahead of the descriptor to behind it. -/
def Skips (slot : Slot) (sys : System) (event : ListingEvent) (next : System) : Prop :=
  (∀ count, event ≠ .getdents64 count) ∧ Enters (Passed f slot) sys event next

/-- A change of the tree takes the child from behind the descriptor to ahead of it. -/
def Repeats (slot : Slot) (sys : System) (event : ListingEvent) (next : System) : Prop :=
  (∀ count, event ≠ .getdents64 count) ∧ Leaves (Passed f slot) sys event next

end Model

instance (event : ListingEvent) : Decidable (∀ count, event ≠ .getdents64 count) :=
  match event with
  | .getdents64 count => .isFalse fun h => h count rfl
  | .change .. => .isTrue fun _ => ListingEvent.noConfusion

instance (f : Fin maxFds) (slot : Slot) (sys : System) (event : ListingEvent) (next : System) :
    Decidable (Skips f slot sys event next) := inferInstanceAs (Decidable (_ ∧ _))

instance (f : Fin maxFds) (slot : Slot) (sys : System) (event : ListingEvent) (next : System) :
    Decidable (Repeats f slot sys event next) := inferInstanceAs (Decidable (_ ∧ _))

end EigenOS.Enumeration
