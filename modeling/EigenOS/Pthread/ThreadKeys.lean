import Mathlib.Data.Fin.Tuple.Basic
import EigenOS.Library.Transition

/-!
# Thread-specific data

A key is an index into a table of values that each thread has in its own TLS page.  Deleting a
key leaves the tables alone, and so does creating one, so that a key reads as null exactly where
no living thread holds a value from before.
-/

namespace EigenOS.Pthread

open EigenOS.Transition Function

/-- `TLS_MAX_KEYS`. -/
def tlsMaxKeys : ℕ := 64

abbrev Key := Fin tlsMaxKeys

def einval : ℤ := 22
def eagain : ℤ := 11

/-! ## The functions -/

/-- Where a thread is in the loops of `pthread_exit`: the round, the index, and `ran`. -/
structure ExitLoop where
  round : ℕ
  index : ℕ
  ran : Bool

/-- The loops after a slot, with whether a destructor was called; none when they are over. -/
def ExitLoop.next (exit : ExitLoop) (called : Bool) : Option ExitLoop :=
  if exit.index < tlsMaxKeys then some ⟨exit.round, exit.index + 1, exit.ran || called⟩
  else if exit.ran ∧ exit.round < 3 then some ⟨exit.round + 1, 0, false⟩
  else none

/-- The registry of the keys, whether there is a destructor for each, and the `key_values` of the
threads. -/
structure KeyTable (Thread : Type*) where
  keyUsed : Key → Bool
  keyDestructors : Key → Bool
  pages : Thread → Option (Key → UInt64)
  exits : Thread → Option ExitLoop

def keyIndex (key : ℤ) : Option Key :=
  if h : key < 0 ∨ tlsMaxKeys ≤ key then none else some ⟨key.toNat, by omega⟩

namespace KeyTable

def initial (Thread : Type*) : KeyTable Thread where
  keyUsed _ := false
  keyDestructors _ := false
  pages _ := none
  exits _ := none

section Functions

variable {Thread : Type*} [DecidableEq Thread] (table : KeyTable Thread)

def store (t : Thread) (key : Key) (value : UInt64) : KeyTable Thread :=
  { table with
    pages := update table.pages t
      ((table.pages t).map fun values => update values key value) }

/-- The kernel makes a thread, with a TLS page of zeros. -/
def start (t : Thread) : KeyTable Thread :=
  match table.pages t with
  | some _ => table
  | none => { table with pages := update table.pages t (some fun _ => 0) }

def unusedKey : Option Key := Fin.find? fun key => !table.keyUsed key

/-- `pthread_key_create`: the result and the key that is stored.  It runs under `key_lock`. -/
def pthreadKeyCreate (null destructor : Bool) : (ℤ × Option Key) × KeyTable Thread :=
  if null then ((einval, none), table)
  else
    match table.unusedKey with
    | none => ((eagain, none), table)
    | some key =>
        ((0, some key),
          { table with
            keyUsed := update table.keyUsed key true
            keyDestructors := update table.keyDestructors key destructor })

/-- `pthread_key_delete`, which runs under `key_lock`. -/
def pthreadKeyDelete (key : ℤ) : ℤ × KeyTable Thread :=
  match keyIndex key with
  | none => (einval, table)
  | some key =>
      (0,
        { table with
          keyUsed := update table.keyUsed key false
          keyDestructors := update table.keyDestructors key false })

/-- `pthread_getspecific` in a thread. -/
def pthreadGetspecific (t : Thread) (key : ℤ) : UInt64 :=
  match keyIndex key with
  | none => 0
  | some key => ((table.pages t).map fun values => values key).getD 0

/-- `pthread_setspecific` in a thread. -/
def pthreadSetspecific (t : Thread) (key : ℤ) (value : UInt64) : ℤ × KeyTable Thread :=
  match keyIndex key with
  | none => (einval, table)
  | some key => (0, table.store t key value)

/-- A living thread calls `pthread_exit`. -/
def pthreadExit (t : Thread) : KeyTable Thread :=
  if (table.pages t).isSome ∧ table.exits t = none then
    { table with exits := update table.exits t (some ⟨0, 0, false⟩) }
  else table

/-- The slot that the loop of a thread empties next, before it calls the destructor. -/
def emptied (t : Thread) : Option Key :=
  (table.exits t).bind fun exit =>
    if h : exit.index < tlsMaxKeys then
      if table.keyUsed ⟨exit.index, h⟩ ∧ table.keyDestructors ⟨exit.index, h⟩ ∧
          table.pthreadGetspecific t exit.index ≠ 0 then
        some ⟨exit.index, h⟩
      else none
    else none

/-- A step of the loops of `pthread_exit`.  After the last the kernel takes the thread and its
page away.  What the destructor does are steps of their own. -/
def exitStep (t : Thread) : KeyTable Thread :=
  match table.exits t with
  | none => table
  | some exit =>
      let after :=
        match table.emptied t with
        | none => table
        | some key => table.store t key 0
      match exit.next (table.emptied t).isSome with
      | some exit => { after with exits := update after.exits t (some exit) }
      | none =>
          { after with
            pages := update after.pages t none
            exits := update after.exits t none }

end Functions

end KeyTable

inductive KeyAction (Thread : Type*) where
  | start (t : Thread)
  | create (null destructor : Bool)
  | delete (key : ℤ)
  | set (t : Thread) (key : ℤ) (value : UInt64)
  | exit (t : Thread)
  | exitStep (t : Thread)

/-! ## What the threads have set -/

/-- The table, and what each thread has set last for each key since it was created. -/
structure KeyHistory (Thread : Type*) where
  table : KeyTable Thread
  lastSet : Thread → Key → UInt64

def KeyHistory.initial (Thread : Type*) : KeyHistory Thread := ⟨KeyTable.initial Thread, fun _ _ => 0⟩

section Values

variable {Thread : Type*} [DecidableEq Thread]

def KeyTable.next (table : KeyTable Thread) : KeyAction Thread → KeyTable Thread
  | .start t => table.start t
  | .create null destructor => (table.pthreadKeyCreate null destructor).2
  | .delete key => (table.pthreadKeyDelete key).2
  | .set t key value => (table.pthreadSetspecific t key value).2
  | .exit t => table.pthreadExit t
  | .exitStep t => table.exitStep t

/-- A new key has been set by no thread, and a new thread has set none.  Where `pthread_exit`
hands a value to a destructor, it counts as the thread setting null. -/
def KeyHistory.observe (h : KeyHistory Thread) : KeyAction Thread → Thread → Key → UInt64
  | .start t =>
      if h.table.pages t = none then update h.lastSet t fun _ => 0 else h.lastSet
  | .create null destructor =>
      match (h.table.pthreadKeyCreate null destructor).1.2 with
      | none => h.lastSet
      | some key => fun t => update (h.lastSet t) key 0
  | .set t key value =>
      match keyIndex key with
      | none => h.lastSet
      | some key => update h.lastSet t (update (h.lastSet t) key value)
  | .exitStep t =>
      match h.table.emptied t with
      | none => h.lastSet
      | some key => update h.lastSet t (update (h.lastSet t) key 0)
  | .delete _ | .exit _ => h.lastSet

def KeyHistory.next (h : KeyHistory Thread) (action : KeyAction Thread) : KeyHistory Thread :=
  ⟨h.table.next action, h.observe action⟩

def ReadsBack (h : KeyHistory Thread) : Prop :=
  ∀ t, (h.table.pages t).isSome = true → ∀ key : Key, h.table.keyUsed key = true →
    h.table.pthreadGetspecific t key.val = h.lastSet t key

/-- A key is created at an index where no living thread holds a value. -/
def CleanKey (h : KeyHistory Thread) : KeyAction Thread → KeyHistory Thread → Prop
  | .create null destructor, _ => ∀ key,
      (h.table.pthreadKeyCreate null destructor).1.2 = some key →
        ∀ t, (h.table.pages t).isSome = true → h.table.pthreadGetspecific t key.val = 0
  | _, _ => True

end Values

/-! ## One step -/

section Step

variable {Thread : Type*} [DecidableEq Thread] {table : KeyTable Thread} {h : KeyHistory Thread}
  {t u : Thread} {key : Key} {value : UInt64}

@[simp]
theorem keyIndex_val (key : Key) : keyIndex (key.val : ℤ) = some key := by
  have hlt := key.isLt
  have hvalid : ¬ ((key.val : ℤ) < 0 ∨ tlsMaxKeys ≤ (key.val : ℤ)) := by omega
  rw [keyIndex, dif_neg hvalid]
  exact congrArg some (Fin.ext (Int.toNat_natCast _))

omit [DecidableEq Thread] in
theorem getspecific_val (table : KeyTable Thread) (t : Thread) (key : Key) :
    table.pthreadGetspecific t key.val = ((table.pages t).map fun values => values key).getD 0 := by
  rw [KeyTable.pthreadGetspecific, keyIndex_val]

omit [DecidableEq Thread] in
theorem getspecific_congr {other : KeyTable Thread} (hpages : other.pages t = table.pages t)
    (key : Key) : other.pthreadGetspecific t key.val = table.pthreadGetspecific t key.val := by
  rw [getspecific_val, getspecific_val, hpages]

theorem pages_store_self :
    (table.store t key value).pages t =
      (table.pages t).map fun values => update values key value := update_self ..

theorem pages_store_of_ne (hne : u ≠ t) :
    (table.store t key value).pages u = table.pages u := update_of_ne hne ..

theorem isSome_store (u : Thread) :
    ((table.store t key value).pages u).isSome = (table.pages u).isSome := by
  by_cases hu : u = t
  · rw [hu, pages_store_self, Option.isSome_map]
  · rw [pages_store_of_ne hu]

theorem getspecific_store_self (hlive : (table.pages t).isSome = true) (other : Key) :
    (table.store t key value).pthreadGetspecific t other.val =
      if other = key then value else table.pthreadGetspecific t other.val := by
  obtain ⟨values, hvalues⟩ := Option.isSome_iff_exists.mp hlive
  rw [getspecific_val, getspecific_val, pages_store_self, hvalues]
  by_cases hkey : other = key
  · rw [if_pos hkey, hkey]
    exact update_self ..
  · rw [if_neg hkey]
    exact update_of_ne hkey ..

theorem readsBack_store (hreads : ReadsBack h) {next : KeyTable Thread}
    (hused : next.keyUsed = h.table.keyUsed)
    (hpages : ∀ u, (next.pages u).isSome = true →
      next.pages u = (h.table.store t key value).pages u) :
    ReadsBack ⟨next, update h.lastSet t (update (h.lastSet t) key value)⟩ := by
  intro u hlive other hother
  have hpage := hpages u hlive
  have hbefore : (h.table.pages u).isSome = true := by
    rw [← isSome_store u, ← hpage]
    exact hlive
  have hread := hreads u hbefore other (hused ▸ hother)
  change next.pthreadGetspecific u other.val =
    update h.lastSet t (update (h.lastSet t) key value) u other
  rw [getspecific_congr hpage]
  by_cases hu : u = t
  · subst hu
    rw [getspecific_store_self hbefore, update_self]
    by_cases hkey : other = key
    · rw [if_pos hkey, hkey, update_self]
    · rw [if_neg hkey, update_of_ne hkey, hread]
  · rw [getspecific_congr (pages_store_of_ne hu), update_of_ne hu, hread]

omit [DecidableEq Thread] in
theorem readsBack_mono (hreads : ReadsBack h) {next : KeyTable Thread}
    (hused : ∀ key, next.keyUsed key = true → h.table.keyUsed key = true)
    (hpages : ∀ u, (next.pages u).isSome = true → next.pages u = h.table.pages u) :
    ReadsBack ⟨next, h.lastSet⟩ := by
  intro u hlive other hother
  have hpage := hpages u hlive
  rw [getspecific_congr hpage]
  exact hreads u (hpage ▸ hlive) other (hused other hother)

omit [DecidableEq Thread] in
theorem keyCreate_cases (table : KeyTable Thread) (null destructor : Bool) :
    ((table.pthreadKeyCreate null destructor).1.2 = none ∧
      (table.pthreadKeyCreate null destructor).2 = table) ∨
    ∃ key, (table.pthreadKeyCreate null destructor).1.2 = some key ∧
      (table.pthreadKeyCreate null destructor).2.keyUsed =
        update table.keyUsed key true ∧
      (table.pthreadKeyCreate null destructor).2.pages = table.pages := by
  unfold KeyTable.pthreadKeyCreate
  cases null with
  | true => exact Or.inl ⟨rfl, rfl⟩
  | false =>
      cases table.unusedKey with
      | none => exact Or.inl ⟨rfl, rfl⟩
      | some key => exact Or.inr ⟨key, rfl, rfl, rfl⟩

theorem readsBack_create_iff (hreads : ReadsBack h) (null destructor : Bool) :
    ReadsBack (h.next (.create null destructor)) ↔
      CleanKey h (.create null destructor) (h.next (.create null destructor)) := by
  unfold KeyHistory.next CleanKey KeyHistory.observe KeyTable.next
  dsimp only
  rcases keyCreate_cases h.table null destructor with ⟨hnone, hsame⟩ | ⟨created, hkey, hused, hpages⟩
  · rw [hnone, hsame]
    exact iff_of_true hreads fun key hkey => nomatch hkey
  · rw [hkey]
    constructor
    · rintro hafter _ ⟨⟩ t hlive
      have hread := hafter t (hpages ▸ hlive) created (by
        rw [hused]
        exact update_self ..)
      rw [getspecific_congr (congrFun hpages t)] at hread
      exact hread.trans (update_self ..)
    · intro hclean t hlive key hkey
      have hbefore : (h.table.pages t).isSome = true := hpages ▸ hlive
      rw [getspecific_congr (congrFun hpages t)]
      change _ = update (h.lastSet t) created 0 key
      by_cases hcreated : key = created
      · rw [hcreated, update_self]
        exact hclean created rfl t hbefore
      · rw [update_of_ne hcreated]
        apply hreads t hbefore
        rw [← update_of_ne hcreated true h.table.keyUsed, ← hused]
        exact hkey

theorem readsBack_start (hreads : ReadsBack h) (t : Thread) : ReadsBack (h.next (.start t)) := by
  unfold KeyHistory.next KeyHistory.observe KeyTable.next KeyTable.start
  dsimp only
  cases hpage : h.table.pages t with
  | some values =>
      rw [if_neg nofun]
      exact hreads
  | none =>
      rw [if_pos rfl]
      intro u hlive key hkey
      change KeyTable.pthreadGetspecific _ u key.val = update h.lastSet t _ u key
      by_cases hu : u = t
      · rw [hu, update_self, getspecific_val]
        dsimp only
        rw [update_self]
        rfl
      · have hsame : update h.table.pages t (some fun _ => 0) u = h.table.pages u :=
          update_of_ne hu ..
        rw [update_of_ne hu, getspecific_congr hsame]
        exact hreads u (hsame ▸ hlive) key hkey

theorem readsBack_exitStep (hreads : ReadsBack h) (t : Thread) :
    ReadsBack (h.next (.exitStep t)) := by
  unfold KeyHistory.next KeyHistory.observe KeyTable.next KeyTable.exitStep
  dsimp only
  cases hexit : h.table.exits t with
  | none =>
      have hnone : h.table.emptied t = none := by
        rw [KeyTable.emptied, hexit]
        rfl
      rw [hnone]
      exact hreads
  | some exit =>
      have hgone : ∀ (table : KeyTable Thread) (u : Thread),
          (update table.pages t none u).isSome = true →
            update table.pages t none u = table.pages u := by
        intro table u hlive
        by_cases hu : u = t
        · rw [hu, update_self] at hlive
          cases hlive
        · exact update_of_ne hu ..
      cases hempty : h.table.emptied t with
      | none =>
          dsimp only [Option.isSome_none]
          cases exit.next false with
          | some next => exact readsBack_mono hreads (fun _ hkey => hkey) fun _ _ => rfl
          | none => exact readsBack_mono hreads (fun _ hkey => hkey) (hgone h.table)
      | some key =>
          dsimp only [Option.isSome_some]
          cases exit.next true with
          | some next => exact readsBack_store hreads rfl fun _ _ => rfl
          | none => exact readsBack_store hreads rfl (hgone (h.table.store t key 0))

theorem readsBack_next_iff (hreads : ReadsBack h) (action : KeyAction Thread) :
    ReadsBack (h.next action) ↔ CleanKey h action (h.next action) := by
  cases action with
  | create null destructor => exact readsBack_create_iff hreads null destructor
  | start t => exact iff_of_true (readsBack_start hreads t) trivial
  | exitStep t => exact iff_of_true (readsBack_exitStep hreads t) trivial
  | delete key =>
      refine iff_of_true ?_ trivial
      unfold KeyHistory.next KeyHistory.observe KeyTable.next KeyTable.pthreadKeyDelete
      dsimp only
      cases keyIndex key with
      | none => exact hreads
      | some deleted =>
          refine readsBack_mono hreads (fun key hkey => ?_) fun _ _ => rfl
          by_cases hdeleted : key = deleted
          · rw [hdeleted] at hkey
            exact nomatch (update_self ..).symm.trans hkey
          · exact (update_of_ne hdeleted ..).symm.trans hkey
  | set t key value =>
      refine iff_of_true ?_ trivial
      unfold KeyHistory.next KeyHistory.observe KeyTable.next KeyTable.pthreadSetspecific
      dsimp only
      cases keyIndex key with
      | none => exact hreads
      | some index => exact readsBack_store hreads rfl fun _ _ => rfl
  | exit t =>
      refine iff_of_true ?_ trivial
      unfold KeyHistory.next KeyHistory.observe KeyTable.next KeyTable.pthreadExit
      dsimp only
      split
      · exact readsBack_mono hreads (fun _ hkey => hkey) fun _ _ => rfl
      · exact hreads

omit [DecidableEq Thread] in
theorem readsBack_initial : ReadsBack (KeyHistory.initial Thread) := nofun

/-- Keys read back what their threads have set, exactly in the runs where each is created at an
index without values. -/
theorem keys_readBack_iff (actions : List (KeyAction Thread)) :
    Always ReadsBack (.initial Thread) (trace KeyHistory.next (.initial Thread) actions) ↔
      Along CleanKey (.initial Thread) (trace KeyHistory.next (.initial Thread) actions) :=
  always_trace_iff KeyHistory.next (P := ReadsBack)
    (fun _ action hreads => readsBack_next_iff hreads action) readsBack_initial actions

end Step

/-- A key is deleted while the thread holds a value for it, and created again. -/
def recreated : List (KeyAction Unit) :=
  [.start (), .create false false, .set () 0 5, .delete 0, .create false false]

/-- The thread has not set the new key, and reads 5. -/
theorem not_readsBack_recreated :
    ¬ Always ReadsBack (.initial Unit) (trace KeyHistory.next (.initial Unit) recreated) := by
  intro h
  have hread := h.final () rfl ⟨0, by decide⟩ (by decide)
  exact absurd hread (by decide)

end EigenOS.Pthread
