import Mathlib.Data.List.Nodup
import Mathlib.Data.List.TakeWhile
import EigenOS.Library.Transition
import EigenOS.Memory.UserHeap

/-!
# The environment of a program

`getenv`, `setenv`, `unsetenv` and `putenv`, which keep their strings in one array of pointers.
The array is compared with a finite map from names to values.  A string that `putenv` was given
stays the caller's.
-/

namespace EigenOS.Libc

open EigenOS.Memory EigenOS.Transition Function

/-- `ENV_MAX`. -/
def envMax : ℕ := 64

def envEinval : ℤ := 22
def envEnomem : ℤ := 12

/-- Who allocated a string. -/
inductive Owner where
  | environment
  | caller
  deriving DecidableEq

/-- A string of `g_env`. -/
structure EnvEntry where
  text : List UInt8
  owner : Owner
  deriving DecidableEq

/-- What a call returns; `faults` is a store to an address that is none. -/
inductive EnvReply where
  | found (value : Option (List UInt8))
  | returns
  | fails (errno : ℤ)
  | faults

/-- The entry is for a name: `strncmp` finds the name, and an equals sign stands behind it. -/
def EnvEntry.carries (entry : EnvEntry) (name : List UInt8) : Bool :=
  (name ++ [61]).isPrefixOf entry.text

/-- `g_env`, and the entries that were given to `eigen_free`. -/
structure Environ where
  gEnv : ℕ → Option EnvEntry
  freed : List EnvEntry

/-! ## The loops -/

def findFrom (gEnv : ℕ → Option EnvEntry) (name : List UInt8) : ℕ → ℕ → Option ℕ
  | 0, _ => none
  | fuel + 1, i =>
      match gEnv i with
      | none => none
      | some entry => if entry.carries name then some i else findFrom gEnv name fuel (i + 1)

/-- The first slot that is free, or the last of all. -/
def freeSlotFrom (gEnv : ℕ → Option EnvEntry) : ℕ → ℕ → ℕ
  | 0, slot => slot
  | fuel + 1, slot =>
      if slot < envMax - 1 ∧ (gEnv slot).isSome then freeSlotFrom gEnv fuel (slot + 1) else slot

/-- The entries behind one that is removed are moved up. -/
def shiftFrom : ℕ → (ℕ → Option EnvEntry) → ℕ → ℕ → Option EnvEntry
  | 0, gEnv, _ => gEnv
  | fuel + 1, gEnv, i =>
      if (gEnv i).isSome then shiftFrom fuel (update gEnv i (gEnv (i + 1))) (i + 1)
      else gEnv

namespace Environ

variable (s : Environ)

/-- Before the first call: `env_init` clears an array that is clear. -/
def initial : Environ where
  gEnv _ := none
  freed := []

def findName (name : List UInt8) : Option ℕ := findFrom s.gEnv name envMax 0

def freeSlot : ℕ := freeSlotFrom s.gEnv envMax 0

def setSlot (i : ℕ) (entry : Option EnvEntry) : Environ :=
  { s with gEnv := update s.gEnv i entry }

/-! ## The functions -/

def getenv (name : Option (List UInt8)) : EnvReply :=
  match name with
  | none => .found none
  | some name =>
      .found ((s.findName name).bind fun i =>
        (s.gEnv i).map fun entry => entry.text.drop (name.length + 1))

/-- `setenv`.  `answer` is the kernel's to the request for memory; an error is no null pointer. -/
def setenv (name value : Option (List UInt8)) (overwrite : Bool) (answer : AllocReply) :
    EnvReply × Environ :=
  match name with
  | none => (.fails envEinval, s)
  | some name =>
      if name = [] ∨ 61 ∈ name then (.fails envEinval, s)
      else
        let entry : EnvEntry := ⟨name ++ 61 :: value.getD [], .environment⟩
        match s.findName name with
        | some i =>
            if overwrite = false then (.returns, s)
            else
              match answer with
              | .null => (.fails envEnomem, s)
              | .block _ =>
                  (.returns, { s.setSlot i (some entry) with freed := (s.gEnv i).toList ++ s.freed })
              | .error | .fault => (.faults, s)
        | none =>
            if envMax - 1 ≤ s.freeSlot then (.fails envEnomem, s)
            else
              match answer with
              | .null => (.fails envEnomem, s.setSlot s.freeSlot none)
              | .block _ => (.returns, s.setSlot s.freeSlot (some entry))
              | .error | .fault => (.faults, s)

def unsetenv (name : Option (List UInt8)) : EnvReply × Environ :=
  match name with
  | none => (.fails envEinval, s)
  | some name =>
      if name = [] ∨ 61 ∈ name then (.fails envEinval, s)
      else
        match s.findName name with
        | some i =>
            (.returns, ⟨shiftFrom envMax s.gEnv i, (s.gEnv i).toList ++ s.freed⟩)
        | none => (.returns, s)

def putenv (string : Option (List UInt8)) : EnvReply × Environ :=
  match string with
  | none => (.fails envEinval, s)
  | some text =>
      if text = [] then (.fails envEinval, s)
      else if 61 ∉ text then s.unsetenv (some text)
      else
        let name := text.takeWhile (· ≠ 61)
        if name = [] then (.fails envEinval, s)
        else
          match s.findName name with
          | some i => (.returns, s.setSlot i (some ⟨text, .caller⟩))
          | none =>
              if envMax - 1 ≤ s.freeSlot then (.fails envEnomem, s)
              else (.returns, s.setSlot s.freeSlot (some ⟨text, .caller⟩))

end Environ

/-- A call, with the kernel's answer where it may ask for memory. -/
inductive EnvOp where
  | getenv (name : Option (List UInt8))
  | setenv (name value : Option (List UInt8)) (overwrite : Bool) (answer : AllocReply)
  | unsetenv (name : Option (List UInt8))
  | putenv (string : Option (List UInt8))

def EnvOp.apply (s : Environ) : EnvOp → EnvReply × Environ
  | .getenv name => (s.getenv name, s)
  | .setenv name value overwrite answer => s.setenv name value overwrite answer
  | .unsetenv name => s.unsetenv name
  | .putenv string => s.putenv string

/-! ## What the environment is for -/

/-- A map from names to values. -/
abbrev EnvMap := List UInt8 → Option (List UInt8)

/-- A name that an entry may have. -/
def ValidName (name : List UInt8) : Prop := name ≠ [] ∧ 61 ∉ name

/-- What an operation does to the map.  One fails for a name that is none, for a new name when
there is no room, or where the kernel has no memory; it leaves the map as it is then. -/
def EnvSpec (m : EnvMap) (full : Prop) (reply : EnvReply) (after : EnvMap) : EnvOp → Prop
  | .getenv name => reply = .found (name.bind m) ∧ after = m
  | .setenv name value overwrite answer =>
      (∃ n, name = some n ∧ ValidName n ∧ reply = .returns ∧
        after = if overwrite = true ∨ m n = none then update m n (some (value.getD []))
          else m) ∨
      ∃ errno, reply = .fails errno ∧ after = m ∧
        ((∀ n, name = some n → ¬ ValidName n) ∨ (∃ n, name = some n ∧ m n = none ∧ full) ∨
          ∀ base, answer ≠ .block base)
  | .unsetenv name =>
      (∃ n, name = some n ∧ ValidName n ∧ reply = .returns ∧ after = update m n none) ∨
      ∃ errno, reply = .fails errno ∧ after = m ∧ ∀ n, name = some n → ¬ ValidName n
  | .putenv string =>
      (∃ n, string = some n ∧ ValidName n ∧ reply = .returns ∧ after = update m n none) ∨
      (∃ n value, string = some (n ++ 61 :: value) ∧ ValidName n ∧ reply = .returns ∧
        after = update m n (some value)) ∨
      ∃ errno, reply = .fails errno ∧ after = m ∧
        (string = none ∨ string = some [] ∨ (∃ value, string = some (61 :: value)) ∨
          ∃ n value, string = some (n ++ 61 :: value) ∧ m n = none ∧ full)

/-- The name of an entry, before the first equals sign. -/
def EnvEntry.name (entry : EnvEntry) : List UInt8 := entry.text.takeWhile (· ≠ 61)

def EnvEntry.value (entry : EnvEntry) : List UInt8 := (entry.text.dropWhile (· ≠ 61)).tail

namespace Environ

variable (s : Environ)

/-- The entries of the array. -/
def entries : List EnvEntry := (List.range envMax).filterMap s.gEnv

def valueIn (entries : List EnvEntry) : EnvMap := fun name =>
  (entries.find? fun entry => entry.name == name).map EnvEntry.value

def toMap : EnvMap := valueIn s.entries

/-- A null pointer stands behind the entries, and no two are for one name. -/
structure Tidy : Prop where
  terminated : ∃ count < envMax, ∀ i, (s.gEnv i).isSome ↔ i < count
  distinct : (s.entries.map EnvEntry.name).Nodup

/-- No room is left beside the null pointer. -/
def Full : Prop := s.entries.length = envMax - 1

/-- An operation does what it does to a map, keeps the array tidy and frees only what the
environment allocated. -/
structure DoesRight (op : EnvOp) (next : Environ) : Prop where
  map : EnvSpec s.toMap s.Full (op.apply s).1 next.toMap op
  tidy : Tidy next
  frees : next.freed = s.freed ∨ ∃ entry, next.freed = entry :: s.freed ∧ entry.owner = .environment

/-- The entry for a name, if there is one, is the environment's own. -/
def Owns (name : List UInt8) : Prop :=
  ∀ entry ∈ s.entries, entry.name = name → entry.owner = .environment

/-- A `setenv` asks for memory. -/
def Asks (name : List UInt8) (overwrite : Bool) : Prop :=
  if (s.toMap name).isSome then overwrite = true else ¬ s.Full

/-- A call that does no harm: `getenv` is asked for a name, or for what no entry begins with; the
kernel has the memory that `setenv` asks for; and the entry that is freed is not the caller's. -/
def Harmless : EnvOp → Prop
  | .getenv name => ∀ n, name = some n → 61 ∈ n → ∀ entry ∈ s.entries, entry.carries n = false
  | .setenv name _ overwrite answer => ∀ n, name = some n → ValidName n →
      (s.Asks n overwrite → answer ≠ .error ∧ answer ≠ .fault) ∧
        ∀ base, overwrite = true → answer = .block base → s.Owns n
  | .unsetenv name => ∀ n, name = some n → ValidName n → s.Owns n
  | .putenv string => ∀ n, string = some n → ValidName n → s.Owns n

end Environ

/-! ## Entries and names -/

section Entry

variable {entry : EnvEntry} {name value : List UInt8}

theorem takeWhile_pair (h : 61 ∉ name) : (name ++ 61 :: value).takeWhile (· ≠ 61) = name := by
  rw [List.takeWhile_append_of_pos]
  · simp
  · intro c hc
    have hne : c ≠ 61 := fun heq => h (heq ▸ hc)
    simpa using hne

theorem dropWhile_pair (h : 61 ∉ name) :
    (name ++ 61 :: value).dropWhile (· ≠ 61) = 61 :: value := by
  rw [List.dropWhile_append_of_pos]
  · simp
  · intro c hc
    have hne : c ≠ 61 := fun heq => h (heq ▸ hc)
    simpa using hne

theorem exists_pair {text : List UInt8} (h : 61 ∈ text) :
    ∃ name value, text = name ++ 61 :: value ∧ 61 ∉ name := by
  exact List.eq_append_cons_of_mem h

theorem EnvEntry.name_pair (owner : Owner) (h : 61 ∉ name) :
    EnvEntry.name ⟨name ++ 61 :: value, owner⟩ = name := takeWhile_pair h

theorem EnvEntry.value_pair (owner : Owner) (h : 61 ∉ name) :
    EnvEntry.value ⟨name ++ 61 :: value, owner⟩ = value := by
  unfold EnvEntry.value
  rw [dropWhile_pair h]
  rfl

theorem EnvEntry.not_mem_name (entry : EnvEntry) : 61 ∉ entry.name := by
  intro h
  have hpos := List.mem_takeWhile_imp h
  simp at hpos

theorem EnvEntry.carries_iff_prefix : entry.carries name = true ↔ name ++ [61] <+: entry.text := by
  unfold EnvEntry.carries
  exact List.isPrefixOf_iff_prefix

/-- What `getenv` returns from an entry that carries a name without an equals sign. -/
theorem EnvEntry.carries_spec (hname : 61 ∉ name) (h : entry.carries name = true) :
    entry.name = name ∧ entry.text.drop (name.length + 1) = entry.value := by
  obtain ⟨value, hvalue⟩ := EnvEntry.carries_iff_prefix.mp h
  rw [List.append_assoc, List.singleton_append] at hvalue
  obtain ⟨text, owner⟩ := entry
  dsimp only at hvalue
  subst hvalue
  rw [EnvEntry.name_pair owner hname, EnvEntry.value_pair owner hname]
  refine ⟨rfl, ?_⟩
  rw [List.drop_append]
  simp

theorem EnvEntry.carries_iff (hentry : 61 ∈ entry.text) (hname : 61 ∉ name) :
    entry.carries name = true ↔ entry.name = name := by
  refine ⟨fun h => (EnvEntry.carries_spec hname h).1, ?_⟩
  rintro rfl
  obtain ⟨text, owner⟩ := entry
  obtain ⟨before, value, rfl, hbefore⟩ := exists_pair hentry
  rw [EnvEntry.carries_iff_prefix, EnvEntry.name_pair owner hbefore]
  exact ⟨value, by simp⟩

end Entry

theorem not_validName_iff {name : List UInt8} : ¬ ValidName name ↔ name = [] ∨ 61 ∈ name := by
  unfold ValidName
  rw [not_and_or, not_not, not_not]

/-! ## The array as a list -/

section Loops

variable {l : List EnvEntry} {name : List UInt8}

variable (name) in
theorem findFrom_cases (fuel : ℕ) : ∀ (before rest : List EnvEntry), rest.length ≤ fuel →
    (findFrom (fun i => (before ++ rest)[i]?) name fuel before.length = none ∧
        ∀ entry ∈ rest, entry.carries name = false) ∨
      ∃ first x last, rest = first ++ x :: last ∧ x.carries name = true ∧
        findFrom (fun i => (before ++ rest)[i]?) name fuel before.length =
          some (before.length + first.length) := by
  induction fuel with
  | zero =>
      intro before rest hfuel
      have hrest : rest = [] := List.eq_nil_of_length_eq_zero (Nat.le_zero.mp hfuel)
      subst hrest
      exact .inl ⟨rfl, List.forall_mem_nil _⟩
  | succ fuel ih =>
      intro before rest hfuel
      cases rest with
      | nil =>
          refine .inl ⟨?_, List.forall_mem_nil _⟩
          simp [findFrom]
      | cons x rest =>
          have hx : (before ++ x :: rest)[before.length]? = some x := by simp
          unfold findFrom
          rw [hx]
          dsimp only
          by_cases hcarries : x.carries name = true
          · rw [if_pos hcarries]
            exact .inr ⟨[], x, rest, rfl, hcarries, rfl⟩
          · rw [if_neg hcarries]
            have hnext := ih (before ++ [x]) rest (Nat.le_of_succ_le_succ hfuel)
            rw [List.append_assoc, List.singleton_append, List.length_append,
              List.length_singleton] at hnext
            rcases hnext with ⟨hnone, hrest⟩ | ⟨first, y, last, rfl, hy, hsome⟩
            · refine .inl ⟨hnone, List.forall_mem_cons.mpr ⟨?_, hrest⟩⟩
              exact Bool.eq_false_iff.mpr hcarries
            · refine .inr ⟨x :: first, y, last, rfl, hy, ?_⟩
              rw [hsome, List.length_cons]
              congr 1
              omega

theorem freeSlotFrom_eq (hl : l.length < envMax) (fuel : ℕ) : ∀ slot, slot ≤ l.length →
    l.length ≤ slot + fuel → freeSlotFrom (fun i => l[i]?) fuel slot = l.length := by
  induction fuel with
  | zero => exact fun slot hslot hfuel => Nat.le_antisymm hslot hfuel
  | succ fuel ih =>
      intro slot hslot hfuel
      unfold freeSlotFrom
      by_cases hlt : slot < l.length
      · have hsome : (l[slot]?).isSome := by simpa using hlt
        rw [if_pos ⟨by omega, hsome⟩]
        exact ih (slot + 1) hlt (by omega)
      · rw [if_neg]
        · omega
        · rintro ⟨_, hsome⟩
          exact hlt (by simpa using hsome)

theorem none_of_le {gEnv : ℕ → Option EnvEntry} {i : ℕ}
    (hend : ∀ j, i ≤ j → gEnv j = none → gEnv (j + 1) = none) (hi : gEnv i = none) {j : ℕ}
    (hj : i ≤ j) : gEnv j = none := by
  obtain ⟨count, rfl⟩ := Nat.exists_eq_add_of_le hj
  clear hj
  induction count with
  | zero => exact hi
  | succ count ih => exact hend (i + count) (Nat.le_add_right i count) ih

theorem shiftFrom_eq (fuel : ℕ) : ∀ (gEnv : ℕ → Option EnvEntry) (i : ℕ),
    (∀ j, i ≤ j → gEnv j = none → gEnv (j + 1) = none) → gEnv (i + fuel) = none →
      shiftFrom fuel gEnv i = fun j => if j < i then gEnv j else gEnv (j + 1) := by
  have hstop : ∀ (gEnv : ℕ → Option EnvEntry) (i : ℕ),
      (∀ j, i ≤ j → gEnv j = none → gEnv (j + 1) = none) → gEnv i = none →
        gEnv = fun j => if j < i then gEnv j else gEnv (j + 1) := by
    intro gEnv i hend hi
    funext j
    split
    · rfl
    · rw [none_of_le hend hi (by omega), none_of_le hend hi (by omega)]
  induction fuel with
  | zero => exact fun gEnv i hend hlast => hstop gEnv i hend hlast
  | succ fuel ih =>
      intro gEnv i hend hlast
      unfold shiftFrom
      split
      · have hother : ∀ j, i < j → update gEnv i (gEnv (i + 1)) j = gEnv j := fun j hj =>
          update_of_ne (Nat.ne_of_gt hj) _ _
        rw [ih _ (i + 1)]
        · funext j
          rcases Nat.lt_trichotomy j i with hlt | rfl | hgt
          · rw [if_pos (by omega), if_pos hlt, update_of_ne (Nat.ne_of_lt hlt)]
          · rw [if_pos (Nat.lt_succ_self j), update_self, if_neg (Nat.lt_irrefl j)]
          · rw [if_neg (by omega), if_neg (by omega), hother (j + 1) (by omega)]
        · intro j hj
          rw [hother j (by omega), hother (j + 1) (by omega)]
          exact hend j (by omega)
        · rw [hother _ (by omega)]
          rwa [Nat.add_right_comm, Nat.add_assoc]
      · rename_i hnone
        exact hstop gEnv i hend (Option.not_isSome_iff_eq_none.mp hnone)

end Loops

/-- The array holds a list of entries, each with a name of its own, and a null pointer behind. -/
structure Lists (gEnv : ℕ → Option EnvEntry) (l : List EnvEntry) : Prop where
  gEnv_eq : gEnv = fun i => l[i]?
  length_lt : l.length < envMax
  pair : ∀ entry ∈ l, 61 ∈ entry.text ∧ entry.name ≠ []
  distinct : (l.map EnvEntry.name).Nodup

theorem lists_initial : Lists Environ.initial.gEnv [] where
  gEnv_eq := by
    funext i
    rfl
  length_lt := by decide
  pair := List.forall_mem_nil _
  distinct := List.nodup_nil

namespace Lists

variable {gEnv : ℕ → Option EnvEntry} {l a b : List EnvEntry} {x entry : EnvEntry}

theorem filterMap_range (h : Lists gEnv l) : (List.range envMax).filterMap gEnv = l := by
  have htake : ∀ n, (List.range n).filterMap (fun i => l[i]?) = l.take n := by
    intro n
    induction n with
    | zero => rfl
    | succ n ih =>
        rw [List.range_succ, List.filterMap_append, ih, List.take_add_one]
        congr 1
  rw [h.gEnv_eq, htake, List.take_of_length_le h.length_lt.le]

theorem replace (h : Lists gEnv (a ++ x :: b)) (hname : entry.name = x.name)
    (hpair : 61 ∈ entry.text) :
    Lists (update gEnv a.length (some entry)) (a ++ entry :: b) where
  gEnv_eq := by
    funext i
    by_cases hi : i = a.length
    · subst hi
      rw [update_self]
      simp
    · rw [update_of_ne hi, h.gEnv_eq]
      dsimp only
      rcases Nat.lt_or_gt_of_ne hi with hlt | hgt
      · rw [List.getElem?_append_left hlt, List.getElem?_append_left hlt]
      · obtain ⟨k, rfl⟩ := Nat.exists_eq_add_of_lt hgt
        rw [List.getElem?_append_right (by omega), List.getElem?_append_right (by omega),
          show a.length + k + 1 - a.length = k + 1 by omega, List.getElem?_cons_succ,
          List.getElem?_cons_succ]
  length_lt := by
    have hlength := h.length_lt
    rwa [List.length_append, List.length_cons] at hlength ⊢
  pair := by
    intro other hother
    rcases List.mem_append.mp hother with hmem | hmem
    · exact h.pair other (List.mem_append_left _ hmem)
    · rcases List.mem_cons.mp hmem with rfl | hmem
      · rw [hname]
        exact ⟨hpair, (h.pair x (by simp)).2⟩
      · exact h.pair other (List.mem_append_right _ (List.mem_cons_of_mem _ hmem))
  distinct := by
    have hdistinct := h.distinct
    rw [List.map_append, List.map_cons] at hdistinct ⊢
    rwa [hname]

theorem append (h : Lists gEnv l) (hroom : l.length < envMax - 1)
    (hnew : ∀ other ∈ l, other.name ≠ entry.name) (hpair : 61 ∈ entry.text ∧ entry.name ≠ []) :
    Lists (update gEnv l.length (some entry)) (l ++ [entry]) where
  gEnv_eq := by
    funext i
    by_cases hi : i = l.length
    · subst hi
      rw [update_self]
      simp
    · rw [update_of_ne hi, h.gEnv_eq]
      dsimp only
      rcases Nat.lt_or_gt_of_ne hi with hlt | hgt
      · rw [List.getElem?_append_left hlt]
      · rw [List.getElem?_eq_none (by omega), List.getElem?_eq_none (by simp; omega)]
  length_lt := by
    rw [List.length_append, List.length_singleton]
    omega
  pair := by
    intro other hother
    rcases List.mem_append.mp hother with hmem | hmem
    · exact h.pair other hmem
    · rw [List.mem_singleton.mp hmem]
      exact hpair
  distinct := by
    rw [List.map_append, List.map_singleton, List.nodup_append_comm, List.singleton_append,
      List.nodup_cons]
    refine ⟨?_, h.distinct⟩
    intro hmem
    obtain ⟨other, hother, hsame⟩ := List.mem_map.mp hmem
    exact hnew other hother hsame

theorem erase (h : Lists gEnv (a ++ x :: b)) : Lists (shiftFrom envMax gEnv a.length) (a ++ b) where
  gEnv_eq := by
    have hlength := h.length_lt
    rw [shiftFrom_eq]
    · rw [h.gEnv_eq]
      funext i
      dsimp only
      split
      · rename_i hlt
        rw [List.getElem?_append_left hlt, List.getElem?_append_left hlt]
      · rename_i hge
        obtain ⟨k, rfl⟩ := Nat.exists_eq_add_of_le (Nat.le_of_not_lt hge)
        rw [List.getElem?_append_right (by omega), List.getElem?_append_right (by omega),
          show a.length + k + 1 - a.length = k + 1 by omega,
          show a.length + k - a.length = k by omega]
        rfl
    · rw [h.gEnv_eq]
      intro j _ hnone
      rw [List.getElem?_eq_none_iff] at hnone ⊢
      omega
    · rw [h.gEnv_eq]
      dsimp only
      rw [List.getElem?_eq_none_iff]
      omega
  length_lt := by
    have hlength := h.length_lt
    rw [List.length_append, List.length_cons] at hlength
    rw [List.length_append]
    omega
  pair := by
    intro other hother
    refine h.pair other ?_
    rcases List.mem_append.mp hother with hmem | hmem
    · exact List.mem_append_left _ hmem
    · exact List.mem_append_right _ (List.mem_cons_of_mem _ hmem)
  distinct := by
    refine h.distinct.sublist ?_
    exact (List.Sublist.append (List.Sublist.refl a) (List.sublist_cons_self x b)).map _

theorem name_ne (h : Lists gEnv (a ++ x :: b)) {other : EnvEntry} (hother : other ∈ a ++ b) :
    other.name ≠ x.name := by
  have hdistinct := h.distinct
  rw [List.map_append, List.map_cons, List.nodup_middle, List.nodup_cons] at hdistinct
  intro hsame
  apply hdistinct.1
  rw [← List.map_append, ← hsame]
  exact List.mem_map_of_mem hother

end Lists

/-! ## The map of a list -/

section ValueIn

variable {a b : List EnvEntry} {x : EnvEntry}

theorem valueIn_eq_none {l : List EnvEntry} {name : List UInt8}
    (h : ∀ other ∈ l, other.name ≠ name) : Environ.valueIn l name = none := by
  unfold Environ.valueIn
  rw [Option.map_eq_none_iff, List.find?_eq_none]
  simpa using h

theorem valueIn_append_cons (h : ∀ other ∈ a, other.name ≠ x.name) :
    Environ.valueIn (a ++ x :: b) =
      update (Environ.valueIn (a ++ b)) x.name (some x.value) := by
  funext name
  unfold Environ.valueIn
  by_cases hname : name = x.name
  · subst hname
    have hnone : a.find? (fun entry => entry.name == x.name) = none := by
      rw [List.find?_eq_none]
      simpa using h
    rw [update_self, List.find?_append, hnone, Option.none_or,
      List.find?_cons_of_pos (by simp)]
    rfl
  · rw [update_of_ne hname, List.find?_append, List.find?_append,
      List.find?_cons_of_neg (by simpa using Ne.symm hname)]

end ValueIn

/-! ## The calls -/

namespace Environ

variable {s : Environ} {l : List EnvEntry}

section Listed

variable (h : Lists s.gEnv l)
include h

theorem entries_eq : s.entries = l := h.filterMap_range

theorem toMap_eq : s.toMap = valueIn l := by
  unfold toMap
  rw [entries_eq h]

theorem full_iff : s.Full ↔ l.length = envMax - 1 := by
  unfold Full
  rw [entries_eq h]

theorem tidy : Tidy s where
  terminated := by
    refine ⟨l.length, h.length_lt, ?_⟩
    intro i
    rw [h.gEnv_eq]
    simp
  distinct := by
    rw [entries_eq h]
    exact h.distinct

theorem freeSlot_eq : s.freeSlot = l.length := by
  have hlength := h.length_lt
  unfold freeSlot
  rw [h.gEnv_eq]
  exact freeSlotFrom_eq h.length_lt envMax 0 (Nat.zero_le _) (by omega)

theorem findName_carries (name : List UInt8) :
    (s.findName name = none ∧ ∀ entry ∈ l, entry.carries name = false) ∨
      ∃ a x b, l = a ++ x :: b ∧ x.carries name = true ∧ s.findName name = some a.length ∧
        s.gEnv a.length = some x := by
  have hcases := findFrom_cases name envMax [] l h.length_lt.le
  rw [List.nil_append, List.length_nil, ← h.gEnv_eq] at hcases
  rcases hcases with hnone | ⟨a, x, b, hl, hx, hsome⟩
  · exact .inl hnone
  · rw [Nat.zero_add] at hsome
    refine .inr ⟨a, x, b, hl, hx, hsome, ?_⟩
    rw [h.gEnv_eq, hl]
    simp

theorem findName_cases {name : List UInt8} (hname : 61 ∉ name) :
    (s.findName name = none ∧ ∀ entry ∈ l, entry.name ≠ name) ∨
      ∃ a x b, l = a ++ x :: b ∧ x.name = name ∧ s.findName name = some a.length ∧
        s.gEnv a.length = some x := by
  have hiff : ∀ entry ∈ l, (entry.carries name = true ↔ entry.name = name) := fun entry hmem =>
    EnvEntry.carries_iff (h.pair entry hmem).1 hname
  rcases findName_carries h name with ⟨hnone, hcarries⟩ | ⟨a, x, b, hl, hx, hsome, hslot⟩
  · refine .inl ⟨hnone, ?_⟩
    intro entry hmem hsame
    exact Bool.eq_false_iff.mp (hcarries entry hmem) ((hiff entry hmem).mpr hsame)
  · exact .inr ⟨a, x, b, hl, (hiff x (by rw [hl]; simp)).mp hx, hsome, hslot⟩

theorem valueIn_of_split {a b : List EnvEntry} {x : EnvEntry} (hl : l = a ++ x :: b) :
    valueIn l = update (valueIn (a ++ b)) x.name (some x.value) ∧
      valueIn (a ++ b) x.name = none := by
  subst hl
  exact ⟨valueIn_append_cons fun other hmem => h.name_ne (List.mem_append_left _ hmem),
    valueIn_eq_none fun other hmem => h.name_ne hmem⟩

/-- The entry for a name is the environment's own, or the environment owns what it frees. -/
theorem owns_iff {a b : List EnvEntry} {x : EnvEntry} (hl : l = a ++ x :: b) :
    s.Owns x.name ↔ x.owner = .environment := by
  unfold Owns
  rw [entries_eq h]
  constructor
  · exact fun howns => howns x (by rw [hl]; simp) rfl
  · intro howner entry hmem hsame
    subst hl
    rcases List.mem_append.mp hmem with hleft | hright
    · exact absurd hsame (h.name_ne (List.mem_append_left _ hleft))
    · rcases List.mem_cons.mp hright with rfl | hright
      · exact howner
      · exact absurd hsame (h.name_ne (List.mem_append_right _ hright))

theorem owns_of_absent {name : List UInt8} (habsent : ∀ entry ∈ l, entry.name ≠ name) :
    s.Owns name := by
  unfold Owns
  rw [entries_eq h]
  exact fun entry hmem hsame => absurd hsame (habsent entry hmem)

end Listed

/-- What is freed is the environment's own. -/
def FreesOwn (s next : Environ) : Prop :=
  next.freed = s.freed ∨ ∃ entry, next.freed = entry :: s.freed ∧ entry.owner = .environment

theorem freesOwn_cons_iff {next : Environ} {x : EnvEntry} (h : next.freed = x :: s.freed) :
    s.FreesOwn next ↔ x.owner = .environment := by
  unfold FreesOwn
  rw [h]
  constructor
  · rintro (hsame | ⟨entry, hcons, howner⟩)
    · exact absurd hsame (List.cons_ne_self x s.freed)
    · rw [(List.cons.inj hcons).1]
      exact howner
  · exact fun howner => .inr ⟨x, rfl, howner⟩

theorem doesRight_iff_of_lists {next : Environ} {l' : List EnvEntry} (h : Lists s.gEnv l)
    (h' : Lists next.gEnv l') (op : EnvOp) :
    s.DoesRight op next ↔
      EnvSpec (valueIn l) (l.length = envMax - 1) (op.apply s).1 (valueIn l') op ∧
        s.FreesOwn next := by
  rw [← toMap_eq h, ← toMap_eq h', ← full_iff h]
  exact ⟨fun hright => ⟨hright.map, hright.frees⟩, fun hright => ⟨hright.1, tidy h', hright.2⟩⟩

theorem getenv_right_iff (h : Lists s.gEnv l) (name : Option (List UInt8)) :
    s.DoesRight (.getenv name) s ↔ s.Harmless (.getenv name) := by
  rw [doesRight_iff_of_lists h h]
  have hfrees : s.FreesOwn s := .inl rfl
  unfold EnvSpec Harmless EnvOp.apply getenv
  dsimp only
  cases name with
  | none => exact iff_of_true ⟨⟨rfl, rfl⟩, hfrees⟩ nofun
  | some n =>
      dsimp only [Option.bind_some]
      by_cases hn : 61 ∈ n
      · have hnone : valueIn l n = none := valueIn_eq_none fun entry _ hsame =>
          entry.not_mem_name (hsame ▸ hn)
        rw [hnone, entries_eq h]
        rcases findName_carries h n with ⟨hfind, hcarries⟩ | ⟨a, x, b, hl, hx, hfind, hslot⟩
        · rw [hfind]
          refine iff_of_true ⟨⟨rfl, rfl⟩, hfrees⟩ ?_
          rintro _ ⟨⟩ _
          exact hcarries
        · rw [hfind]
          refine iff_of_false ?_ ?_
          · rintro ⟨⟨hfound, _⟩, _⟩
            rw [Option.bind_some, hslot] at hfound
            cases hfound
          · intro hharmless
            have hnot := hharmless n rfl hn x (by rw [hl]; simp)
            rw [hx] at hnot
            cases hnot
      · refine iff_of_true ⟨⟨?_, rfl⟩, hfrees⟩ ?_
        · rcases findName_cases h hn with ⟨hfind, habsent⟩ | ⟨a, x, b, hl, rfl, hfind, hslot⟩
          · rw [hfind, valueIn_eq_none habsent]
            rfl
          · have hx : x ∈ l := by rw [hl]; simp
            have hcarries := (EnvEntry.carries_iff (h.pair x hx).1 hn).mpr rfl
            rw [hfind, Option.bind_some, hslot, Option.map_some,
              (EnvEntry.carries_spec hn hcarries).2, (valueIn_of_split h hl).1,
              update_self]
        · rintro _ ⟨⟩ hmem
          exact absurd hmem hn

theorem unsetenv_effect (h : Lists s.gEnv l) {n : List UInt8} (hn : ValidName n) :
    (s.unsetenv (some n)).1 = .returns ∧
      ∃ l', Lists (s.unsetenv (some n)).2.gEnv l' ∧
        valueIn l' = update (valueIn l) n none ∧
        (s.FreesOwn (s.unsetenv (some n)).2 ↔ s.Owns n) := by
  have hvalid : ¬ (n = [] ∨ 61 ∈ n) := fun hbad => hbad.elim hn.1 hn.2
  unfold unsetenv
  dsimp only
  rw [if_neg hvalid]
  rcases findName_cases h hn.2 with ⟨hfind, habsent⟩ | ⟨a, x, b, hl, rfl, hfind, hslot⟩
  · rw [hfind]
    refine ⟨rfl, l, h, ?_, iff_of_true (.inl rfl) (owns_of_absent h habsent)⟩
    rw [eq_comm, update_eq_self_iff, valueIn_eq_none habsent]
  · rw [hfind]
    obtain ⟨hvalue, hnone⟩ := valueIn_of_split h hl
    refine ⟨rfl, a ++ b, ?_, ?_, ?_⟩
    · subst hl
      exact h.erase
    · rw [hvalue, update_idem, eq_comm, update_eq_self_iff, hnone]
    · rw [owns_iff h hl, freesOwn_cons_iff]
      dsimp only
      rw [hslot]
      rfl

theorem unsetenv_right_iff (h : Lists s.gEnv l) (name : Option (List UInt8)) :
    (s.DoesRight (.unsetenv name) (s.unsetenv name).2 ↔ s.Harmless (.unsetenv name)) ∧
      ∃ l', Lists (s.unsetenv name).2.gEnv l' := by
  cases name with
  | none =>
      refine ⟨iff_of_true ?_ nofun, l, h⟩
      exact (doesRight_iff_of_lists h h _).mpr ⟨.inr ⟨_, rfl, rfl, nofun⟩, .inl rfl⟩
  | some n =>
      by_cases hn : ValidName n
      · obtain ⟨hreply, l', hl', hvalue, hfrees⟩ := unsetenv_effect h hn
        refine ⟨?_, l', hl'⟩
        rw [doesRight_iff_of_lists h hl', hfrees]
        constructor
        · rintro ⟨_, howns⟩ _ ⟨⟩ _
          exact howns
        · exact fun hharmless => ⟨.inl ⟨n, rfl, hn, hreply, hvalue⟩, hharmless n rfl hn⟩
      · have hsame : s.unsetenv (some n) = (.fails envEinval, s) :=
          if_pos (not_validName_iff.mp hn)
        have hinvalid : ∀ m, some n = some m → ¬ ValidName m := by
          rintro m ⟨⟩
          exact hn
        rw [hsame]
        refine ⟨iff_of_true ?_ fun m hm hvalid => absurd hvalid (hinvalid m hm), l, h⟩
        refine (doesRight_iff_of_lists h h _).mpr ⟨.inr ⟨envEinval, ?_, rfl, hinvalid⟩, .inl rfl⟩
        exact congrArg Prod.fst hsame

theorem put_present (h : Lists s.gEnv l) {a b : List EnvEntry} {x : EnvEntry}
    (hl : l = a ++ x :: b) (hx : 61 ∉ x.name) (value : List UInt8) (owner : Owner) :
    Lists (update s.gEnv a.length (some ⟨x.name ++ 61 :: value, owner⟩))
        (a ++ ⟨x.name ++ 61 :: value, owner⟩ :: b) ∧
      valueIn (a ++ ⟨x.name ++ 61 :: value, owner⟩ :: b) =
        update (valueIn l) x.name (some value) := by
  have hname : EnvEntry.name ⟨x.name ++ 61 :: value, owner⟩ = x.name :=
    EnvEntry.name_pair owner hx
  obtain ⟨hvalue, _⟩ := valueIn_of_split h hl
  subst hl
  refine ⟨h.replace hname (by simp), ?_⟩
  have hleft : ∀ other ∈ a, other.name ≠ EnvEntry.name ⟨x.name ++ 61 :: value, owner⟩ := by
    intro other hmem
    rw [hname]
    exact h.name_ne (List.mem_append_left _ hmem)
  rw [valueIn_append_cons hleft, hname, EnvEntry.value_pair owner hx, hvalue, update_idem]

theorem put_absent (h : Lists s.gEnv l) {n : List UInt8} (hn : ValidName n)
    (habsent : ∀ entry ∈ l, entry.name ≠ n) (hroom : l.length < envMax - 1) (value : List UInt8)
    (owner : Owner) :
    Lists (update s.gEnv l.length (some ⟨n ++ 61 :: value, owner⟩))
        (l ++ [⟨n ++ 61 :: value, owner⟩]) ∧
      valueIn (l ++ [⟨n ++ 61 :: value, owner⟩]) =
        update (valueIn l) n (some value) := by
  have hname : EnvEntry.name ⟨n ++ 61 :: value, owner⟩ = n := EnvEntry.name_pair owner hn.2
  have hnew : ∀ other ∈ l, other.name ≠ EnvEntry.name ⟨n ++ 61 :: value, owner⟩ := by
    rw [hname]
    exact habsent
  refine ⟨h.append hroom hnew ⟨by simp, ?_⟩, ?_⟩
  · rw [hname]
    exact hn.1
  · rw [valueIn_append_cons hnew, hname, EnvEntry.value_pair owner hn.2, List.append_nil]

theorem lists_setSlot_none (h : Lists s.gEnv l) : Lists (s.setSlot l.length none).gEnv l := by
  have hnone : s.gEnv l.length = none := by
    rw [h.gEnv_eq]
    simp
  have hsame : update s.gEnv l.length none = s.gEnv := by
    rw [update_eq_self_iff, hnone]
  unfold setSlot
  rwa [hsame]

/-! ### `setenv` of a name -/

section Setenv

variable {n : List UInt8} (value : Option (List UInt8)) (overwrite : Bool) (answer : AllocReply)

theorem setenv_full (h : Lists s.gEnv l) (hn : ValidName n) (hfind : s.findName n = none)
    (hfull : l.length = envMax - 1) :
    s.setenv (some n) value overwrite answer = (.fails envEnomem, s) := by
  unfold setenv
  dsimp only
  rw [if_neg fun hbad => hbad.elim hn.1 hn.2, hfind, freeSlot_eq h]
  dsimp only
  rw [if_pos hfull.ge]

theorem setenv_room (h : Lists s.gEnv l) (hn : ValidName n) (hfind : s.findName n = none)
    (hroom : l.length < envMax - 1) :
    s.setenv (some n) value overwrite answer =
      match answer with
      | .null => (.fails envEnomem, s.setSlot l.length none)
      | .block _ =>
          (.returns, s.setSlot l.length (some ⟨n ++ 61 :: value.getD [], .environment⟩))
      | .error | .fault => (.faults, s) := by
  unfold setenv
  dsimp only
  rw [if_neg fun hbad => hbad.elim hn.1 hn.2, hfind, freeSlot_eq h]
  dsimp only
  rw [if_neg (Nat.not_le.mpr hroom)]

theorem setenv_kept {i : ℕ} (hn : ValidName n) (hfind : s.findName n = some i) :
    s.setenv (some n) value false answer = (.returns, s) := by
  unfold setenv
  dsimp only
  rw [if_neg fun hbad => hbad.elim hn.1 hn.2, hfind]
  rfl

theorem setenv_replace {i : ℕ} {x : EnvEntry} (hn : ValidName n) (hfind : s.findName n = some i)
    (hslot : s.gEnv i = some x) :
    s.setenv (some n) value true answer =
      match answer with
      | .null => (.fails envEnomem, s)
      | .block _ => (.returns,
          { s.setSlot i (some ⟨n ++ 61 :: value.getD [], .environment⟩) with
            freed := x :: s.freed })
      | .error | .fault => (.faults, s) := by
  unfold setenv
  dsimp only
  rw [if_neg fun hbad => hbad.elim hn.1 hn.2, hfind]
  dsimp only
  rw [if_neg (by decide), hslot]
  rfl

variable {value overwrite answer}

theorem harmless_setenv_iff (hn : ValidName n) :
    s.Harmless (.setenv (some n) value overwrite answer) ↔
      (s.Asks n overwrite → answer ≠ .error ∧ answer ≠ .fault) ∧
        ∀ base, overwrite = true → answer = .block base → s.Owns n := by
  constructor
  · exact fun hall => hall n rfl hn
  · rintro hall _ ⟨⟩ _
    exact hall

theorem not_doesRight_of_faults {name : Option (List UInt8)} {next : Environ}
    (hfaults : (s.setenv name value overwrite answer).1 = .faults) :
    ¬ s.DoesRight (.setenv name value overwrite answer) next := by
  intro hright
  have hreply : ((EnvOp.setenv name value overwrite answer).apply s).1 = .faults := hfaults
  have hmap := hright.map
  rw [hreply] at hmap
  rcases hmap with ⟨_, _, _, hno, _⟩ | ⟨_, hno, _⟩
  · cases hno
  · cases hno

theorem doesRight_of_fails {name : Option (List UInt8)} {next : Environ} {errno : ℤ}
    (h : Lists s.gEnv l) (hnext : Lists next.gEnv l) (hfreed : next.freed = s.freed)
    (hfails : (s.setenv name value overwrite answer).1 = .fails errno)
    (hreason : (∀ n, name = some n → ¬ ValidName n) ∨
      (∃ n, name = some n ∧ valueIn l n = none ∧ l.length = envMax - 1) ∨
        ∀ base, answer ≠ .block base) :
    s.DoesRight (.setenv name value overwrite answer) next :=
  (doesRight_iff_of_lists h hnext _).mpr ⟨.inr ⟨errno, hfails, rfl, hreason⟩, .inl hfreed⟩

/-- A `setenv` of a new name: there is no room, no memory, or a string more. -/
theorem setenv_right_of_absent (h : Lists s.gEnv l) (hn : ValidName n)
    (hfind : s.findName n = none) (habsent : ∀ entry ∈ l, entry.name ≠ n) :
    (s.DoesRight (.setenv (some n) value overwrite answer)
        (s.setenv (some n) value overwrite answer).2 ↔
      s.Harmless (.setenv (some n) value overwrite answer)) ∧
      ∃ l', Lists (s.setenv (some n) value overwrite answer).2.gEnv l' := by
  have hnone : valueIn l n = none := valueIn_eq_none habsent
  have howns : s.Owns n := owns_of_absent h habsent
  have hasks : s.Asks n overwrite ↔ l.length ≠ envMax - 1 := by
    unfold Asks
    rw [toMap_eq h, hnone, full_iff h]
    rfl
  rw [harmless_setenv_iff hn, hasks]
  by_cases hfull : l.length = envMax - 1
  · have hcall := setenv_full value overwrite answer h hn hfind hfull
    rw [hcall]
    refine ⟨iff_of_true ?_ ⟨fun hroom => absurd hfull hroom, fun _ _ _ => howns⟩, l, h⟩
    exact doesRight_of_fails h h rfl (congrArg Prod.fst hcall)
      (.inr (.inl ⟨n, rfl, hnone, hfull⟩))
  · have hlength := h.length_lt
    have hroom : l.length < envMax - 1 := by omega
    have hcall := setenv_room value overwrite answer h hn hfind hroom
    cases answer with
    | null =>
        have hlists := lists_setSlot_none h
        rw [hcall]
        refine ⟨iff_of_true ?_ ⟨fun _ => ⟨nofun, nofun⟩, nofun⟩, l, hlists⟩
        exact doesRight_of_fails h hlists rfl (congrArg Prod.fst hcall) (.inr (.inr nofun))
    | block base =>
        obtain ⟨hlists, hvalue⟩ := put_absent h hn habsent hroom (value.getD []) .environment
        rw [hcall]
        refine ⟨iff_of_true ?_ ⟨fun _ => ⟨nofun, nofun⟩, fun _ _ _ => howns⟩, _, hlists⟩
        refine (doesRight_iff_of_lists h hlists _).mpr
          ⟨.inl ⟨n, rfl, hn, congrArg Prod.fst hcall, ?_⟩, .inl rfl⟩
        rw [if_pos (.inr hnone)]
        exact hvalue
    | error =>
        refine ⟨iff_of_false (not_doesRight_of_faults (congrArg Prod.fst hcall))
          fun hall => (hall.1 hfull).1 rfl, l, ?_⟩
        rwa [hcall]
    | fault =>
        refine ⟨iff_of_false (not_doesRight_of_faults (congrArg Prod.fst hcall))
          fun hall => (hall.1 hfull).2 rfl, l, ?_⟩
        rwa [hcall]

/-- A `setenv` of a name with an entry: nothing to do, no memory, or a string in its place. -/
theorem setenv_right_of_present (h : Lists s.gEnv l) {a b : List EnvEntry} {x : EnvEntry}
    (hl : l = a ++ x :: b) (hn : ValidName x.name) (hfind : s.findName x.name = some a.length)
    (hslot : s.gEnv a.length = some x) :
    (s.DoesRight (.setenv (some x.name) value overwrite answer)
        (s.setenv (some x.name) value overwrite answer).2 ↔
      s.Harmless (.setenv (some x.name) value overwrite answer)) ∧
      ∃ l', Lists (s.setenv (some x.name) value overwrite answer).2.gEnv l' := by
  have hsome : valueIn l x.name = some x.value := by
    rw [(valueIn_of_split h hl).1, update_self]
  have hasks : s.Asks x.name overwrite ↔ overwrite = true := by
    unfold Asks
    rw [toMap_eq h, hsome]
    rfl
  rw [harmless_setenv_iff hn, hasks]
  cases overwrite with
  | false =>
      have hcall := setenv_kept value answer hn hfind
      rw [hcall]
      refine ⟨iff_of_true ?_ ⟨nofun, nofun⟩, l, h⟩
      refine (doesRight_iff_of_lists h h _).mpr
        ⟨.inl ⟨_, rfl, hn, congrArg Prod.fst hcall, ?_⟩, .inl rfl⟩
      rw [hsome, if_neg]
      rintro (hno | hno) <;> cases hno
  | true =>
      have hcall := setenv_replace value answer hn hfind hslot
      cases answer with
      | null =>
          rw [hcall]
          refine ⟨iff_of_true ?_ ⟨fun _ => ⟨nofun, nofun⟩, nofun⟩, l, h⟩
          exact doesRight_of_fails h h rfl (congrArg Prod.fst hcall) (.inr (.inr nofun))
      | block base =>
          obtain ⟨hlists, hvalue⟩ := put_present h hl hn.2 (value.getD []) .environment
          rw [hcall]
          refine ⟨?_, _, hlists⟩
          rw [doesRight_iff_of_lists h hlists, freesOwn_cons_iff rfl, owns_iff h hl]
          constructor
          · exact fun hright => ⟨fun _ => ⟨nofun, nofun⟩, fun _ _ _ => hright.2⟩
          · intro hall
            refine ⟨.inl ⟨_, rfl, hn, congrArg Prod.fst hcall, ?_⟩, hall.2 base rfl rfl⟩
            rw [if_pos (.inl rfl)]
            exact hvalue
      | error =>
          refine ⟨iff_of_false (not_doesRight_of_faults (congrArg Prod.fst hcall))
            fun hall => (hall.1 rfl).1 rfl, l, ?_⟩
          rwa [hcall]
      | fault =>
          refine ⟨iff_of_false (not_doesRight_of_faults (congrArg Prod.fst hcall))
            fun hall => (hall.1 rfl).2 rfl, l, ?_⟩
          rwa [hcall]

theorem setenv_right_iff (h : Lists s.gEnv l) (name : Option (List UInt8)) :
    (s.DoesRight (.setenv name value overwrite answer)
        (s.setenv name value overwrite answer).2 ↔
      s.Harmless (.setenv name value overwrite answer)) ∧
      ∃ l', Lists (s.setenv name value overwrite answer).2.gEnv l' := by
  cases name with
  | none => exact ⟨iff_of_true (doesRight_of_fails h h rfl rfl (.inl nofun)) nofun, l, h⟩
  | some n =>
      by_cases hn : ValidName n
      · rcases findName_cases h hn.2 with ⟨hfind, habsent⟩ | ⟨a, x, b, hl, rfl, hfind, hslot⟩
        · exact setenv_right_of_absent h hn hfind habsent
        · exact setenv_right_of_present h hl hn hfind hslot
      · have hcall : s.setenv (some n) value overwrite answer = (.fails envEinval, s) :=
          if_pos (not_validName_iff.mp hn)
        have hinvalid : ∀ m, some n = some m → ¬ ValidName m := by
          rintro m ⟨⟩
          exact hn
        rw [hcall]
        refine ⟨iff_of_true ?_ fun m hm hvalid => absurd hvalid (hinvalid m hm), l, h⟩
        exact doesRight_of_fails h h rfl (congrArg Prod.fst hcall) (.inl hinvalid)

end Setenv

/-! ### `putenv` -/

theorem putenv_doesRight_of_fails {string : Option (List UInt8)} {errno : ℤ}
    (h : Lists s.gEnv l) (hcall : s.putenv string = (.fails errno, s))
    (hreason : string = none ∨ string = some [] ∨ (∃ value, string = some (61 :: value)) ∨
      ∃ n value, string = some (n ++ 61 :: value) ∧ valueIn l n = none ∧ l.length = envMax - 1) :
    s.DoesRight (.putenv string) (s.putenv string).2 := by
  have hreply : ((EnvOp.putenv string).apply s).1 = .fails errno := congrArg Prod.fst hcall
  rw [hcall]
  exact (doesRight_iff_of_lists h h _).mpr ⟨.inr (.inr ⟨errno, hreply, rfl, hreason⟩), .inl rfl⟩

theorem putenv_pair (h : Lists s.gEnv l) {n : List UInt8} (hn : ValidName n)
    (value : List UInt8) :
    s.DoesRight (.putenv (some (n ++ 61 :: value))) (s.putenv (some (n ++ 61 :: value))).2 ∧
      ∃ l', Lists (s.putenv (some (n ++ 61 :: value))).2.gEnv l' := by
  have hlength := h.length_lt
  have hcall : s.putenv (some (n ++ 61 :: value)) =
      match s.findName n with
      | some i => (.returns, s.setSlot i (some ⟨n ++ 61 :: value, .caller⟩))
      | none =>
          if envMax - 1 ≤ l.length then (.fails envEnomem, s)
          else (.returns, s.setSlot l.length (some ⟨n ++ 61 :: value, .caller⟩)) := by
    unfold putenv
    dsimp only
    rw [if_neg (by simp), if_neg (by simp), takeWhile_pair hn.2, if_neg hn.1, freeSlot_eq h]
  rcases findName_cases h hn.2 with ⟨hfind, habsent⟩ | ⟨a, x, b, hl, rfl, hfind, hslot⟩
  · rw [hfind] at hcall
    dsimp only at hcall
    by_cases hfull : l.length = envMax - 1
    · rw [if_pos hfull.ge] at hcall
      refine ⟨putenv_doesRight_of_fails h hcall ?_, l, ?_⟩
      · exact .inr (.inr (.inr ⟨n, value, rfl, valueIn_eq_none habsent, hfull⟩))
      · rwa [hcall]
    · have hroom : l.length < envMax - 1 := by omega
      rw [if_neg (Nat.not_le.mpr hroom)] at hcall
      obtain ⟨hlists, hvalue⟩ := put_absent h hn habsent hroom value .caller
      rw [hcall]
      refine ⟨(doesRight_iff_of_lists h hlists _).mpr ⟨?_, .inl rfl⟩, _, hlists⟩
      exact .inr (.inl ⟨n, value, rfl, hn, congrArg Prod.fst hcall, hvalue⟩)
  · rw [hfind] at hcall
    obtain ⟨hlists, hvalue⟩ := put_present h hl hn.2 value .caller
    rw [hcall]
    refine ⟨(doesRight_iff_of_lists h hlists _).mpr ⟨?_, .inl rfl⟩, _, hlists⟩
    exact .inr (.inl ⟨x.name, value, rfl, hn, congrArg Prod.fst hcall, hvalue⟩)

theorem putenv_right_iff (h : Lists s.gEnv l) (string : Option (List UInt8)) :
    (s.DoesRight (.putenv string) (s.putenv string).2 ↔ s.Harmless (.putenv string)) ∧
      ∃ l', Lists (s.putenv string).2.gEnv l' := by
  cases string with
  | none => exact ⟨iff_of_true (putenv_doesRight_of_fails h rfl (.inl rfl)) nofun, l, h⟩
  | some text =>
      by_cases hempty : text = []
      · subst hempty
        refine ⟨iff_of_true (putenv_doesRight_of_fails h rfl (.inr (.inl rfl))) ?_, l, h⟩
        rintro _ ⟨⟩ hvalid
        exact absurd rfl hvalid.1
      by_cases heq : 61 ∈ text
      · obtain ⟨n, value, rfl, hname⟩ := exists_pair heq
        have hharmless : s.Harmless (.putenv (some (n ++ 61 :: value))) := by
          rintro _ ⟨⟩ hvalid
          exact absurd heq hvalid.2
        by_cases hn : n = []
        · subst hn
          have hcall : s.putenv (some ([] ++ 61 :: value)) = (.fails envEinval, s) := by
            unfold putenv
            dsimp only
            rw [if_neg hempty, if_neg (not_not.mpr heq), takeWhile_pair hname, if_pos rfl]
          refine ⟨iff_of_true (putenv_doesRight_of_fails h hcall ?_) hharmless, l, ?_⟩
          · exact .inr (.inr (.inl ⟨value, rfl⟩))
          · rwa [hcall]
        · obtain ⟨hright, hlists⟩ := putenv_pair h ⟨hn, hname⟩ value
          exact ⟨iff_of_true hright hharmless, hlists⟩
      · have hvalid : ValidName text := ⟨hempty, heq⟩
        have hcall : s.putenv (some text) = s.unsetenv (some text) := by
          unfold putenv
          dsimp only
          rw [if_neg hempty, if_pos heq]
        obtain ⟨hreply, l', hl', hvalue, hfrees⟩ := unsetenv_effect h hvalid
        rw [hcall]
        refine ⟨?_, l', hl'⟩
        rw [doesRight_iff_of_lists h hl', hfrees]
        constructor
        · rintro ⟨_, howns⟩ _ ⟨⟩ _
          exact howns
        · intro hharmless
          have hput : ((EnvOp.putenv (some text)).apply s).1 = .returns :=
            (congrArg Prod.fst hcall).trans hreply
          exact ⟨.inl ⟨text, rfl, hvalid, hput, hvalue⟩, hharmless text rfl hvalid⟩

/-! ## The runs -/

/-- The state after a call. -/
def next (s : Environ) (op : EnvOp) : Environ := (op.apply s).2

theorem doesRight_iff (h : Lists s.gEnv l) (op : EnvOp) :
    (s.DoesRight op (s.next op) ↔ s.Harmless op) ∧ ∃ l', Lists (s.next op).gEnv l' := by
  cases op with
  | getenv name => exact ⟨getenv_right_iff h name, l, h⟩
  | setenv name value overwrite answer => exact setenv_right_iff h name
  | unsetenv name => exact unsetenv_right_iff h name
  | putenv string => exact putenv_right_iff h string

/-- The run of some calls from an empty environment. -/
def run (ops : List EnvOp) : List (EnvOp × Environ) := trace next initial ops

/-- In a run every call does what it does to a map, keeps the array in order and frees only what
the environment allocated, if and only if every call is harmless. -/
theorem doesRight_iff_harmless (ops : List EnvOp) :
    Along DoesRight initial (run ops) ↔ Along (fun s op _ => s.Harmless op) initial (run ops) :=
  along_trace_iff next
    (fun s op (hs : ∃ l, Lists s.gEnv l) => hs.elim fun _ h => doesRight_iff h op)
    ⟨[], lists_initial⟩ ops

/-- `putenv` of `A=1`, then `unsetenv` of `A`. -/
def putThenUnset : List EnvOp := [.putenv (some [65, 61, 49]), .unsetenv (some [65])]

/-- The caller's string is freed. -/
theorem not_doesRight_putThenUnset : ¬ Along DoesRight initial (run putThenUnset) := by
  rintro ⟨-, hunset, -⟩
  rcases hunset.frees with hsame | ⟨entry, hcons, howner⟩
  · exact absurd hsame (by decide)
  · have hfreed : (final initial (run putThenUnset)).freed = [⟨[65, 61, 49], .caller⟩] := by decide
    have hentry := hfreed.symm.trans hcons
    rw [← (List.cons.inj hentry).1] at howner
    cases howner

end Environ

end EigenOS.Libc
