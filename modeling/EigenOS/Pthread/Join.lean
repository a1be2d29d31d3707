import EigenOS.Tasking.ThreadGroups

/-!
# Joining a thread

A thread's value passes through the exit code of its task, which is an `int`.  The slot of a
thread that has ended stays dead, so that no later task takes it, and a join finds the code that
the thread left.  What each thread did is kept beside the kernel, under its id.
-/

namespace EigenOS.Pthread

open EigenOS.Tasking EigenOS.Transition Function

/-! ## The exit codes -/

/-- The slot that a request of the current task claims for a new task. -/
def claimed (k : Kernel) (cur : Fin maxTasks) : Request → Option (Fin maxTasks)
  | .spawn _ .noModule => none
  | .spawn _ _ => k.freeTask
  | .fork _ => if (k.tasks cur).ring = .ring3 then k.freeTask else none
  | .thread _ =>
      if (k.tasks cur).ring = .ring3 ∧ 0 < (k.tasks cur).group then k.freeTask else none
  | _ => none

def ended (cur : Fin maxTasks) : Request → Option (Fin maxTasks)
  | .exit | .threadExit | .fault => if 0 < cur.val then some cur else none
  | _ => none

/-- A slot given a new exit code. -/
def setCode (codes : Fin maxTasks → BitVec 32) (slot : Option (Fin maxTasks))
    (code : BitVec 32) : Fin maxTasks → BitVec 32 :=
  match slot with
  | some t => update codes t code
  | none => codes

/-- The `exit_code` of each slot after a request.  `word` is the value that the task exits with,
which `thread_exit_task` and `exit_task` take as an `int`. -/
def requestCodes (k : Kernel) (cur : Fin maxTasks) (codes : Fin maxTasks → BitVec 32)
    (word : BitVec 64) (request : Request) : Fin maxTasks → BitVec 32 :=
  setCode (setCode codes (claimed k cur request) 0) (ended cur request) (word.setWidth 32)

/-- The ready task that a signal ends when the scheduler picks it. -/
def endedBySignal (k : Kernel) (next : Option (Fin maxTasks)) (killed : Bool) :
    Option (Fin maxTasks) :=
  next.filter fun t => decide ((k.saveCurrent.tasks t).state = .ready) && killed &&
    decide ((k.saveCurrent.tasks t).ring = .ring3)

def requester (k : Kernel) : Option (Fin maxTasks) :=
  k.current.filter fun cur => decide ((k.tasks cur).state = .running)

/-- The exit codes after any event.  `create_task` and `create_user_process` leave them, and for a
signal `word` is its number. -/
def exitCodes (k : Kernel) (codes : Fin maxTasks → BitVec 32) (word : BitVec 64) :
    Event → Fin maxTasks → BitVec 32
  | .request r =>
      match requester k with
      | some cur => requestCodes k cur codes word r
      | none => codes
  | .dispatch next killed => setCode codes (endedBySignal k next killed) (128 + word.setWidth 32)
  | _ => codes

/-! ## The calls -/

/-- `EIGEN_ERR_NOPROC`. -/
def eigenErrNoproc : BitVec 64 := -5

/-- `get_task_by_id`. -/
@[irreducible]
def getTaskById (k : Kernel) (id : ℤ) : Option (Fin maxTasks) :=
  Fin.find? fun i => decide (((k.tasks i).id : ℤ) = id) && decide ((k.tasks i).state ≠ .free)

/-- One round of `EIGEN_THREAD_JOIN`: the result of the call, or none if the caller sleeps. -/
def threadJoin (k : Kernel) (codes : Fin maxTasks → BitVec 32) (id : ℤ) : Option (BitVec 64) :=
  match getTaskById k id with
  | none => some eigenErrNoproc
  | some t => if (k.tasks t).state = .dead then some ((codes t).setWidth 64) else none

/-- What `pthread_join` returns, and what it stores through `retval`. -/
structure Joined where
  result : ℤ
  retval : Option (BitVec 64)
  deriving DecidableEq

/-- `pthread_join` on the result of the system call. -/
def pthreadJoined (r : BitVec 64) : Joined :=
  if r.toInt < 0 then ⟨-r.toInt, none⟩ else ⟨0, some r⟩

/-- A look of `pthread_join` at the task table: none while it waits. -/
def pthreadJoin (k : Kernel) (codes : Fin maxTasks → BitVec 32) (thread : ℤ) : Option Joined :=
  (threadJoin k codes thread).map pthreadJoined

/-- The id that `create_user_thread` returns to `pthread_create`, if a thread is made. -/
def threadMade (k : Kernel) : Event → Option ℕ
  | .request (.thread true) =>
      (requester k).bind fun cur =>
        (claimed k cur (.thread true)).map fun _ => k.nextTaskId
  | _ => none

/-- The id of the task that passes a value to the kernel as it ends its thread. -/
def threadEnded (k : Kernel) : Event → Option ℕ
  | .request .threadExit => (requester k).map fun cur => (k.tasks cur).id
  | _ => none

/-! ## The threads -/

/-- What became of a thread: it runs, it ended with a value, or something else ended it. -/
inductive Fate where
  | running
  | returned (value : BitVec 64)
  | stranded
  deriving DecidableEq

/-- A kernel with its exit codes, and the fate of each thread by its id. -/
structure Threads where
  kernel : Kernel
  exitCode : Fin maxTasks → BitVec 32
  fate : ℕ → Option Fate

/-- An event with the value it brings. -/
abbrev Act := Event × BitVec 64

def HasLive (k : Kernel) (id : ℕ) : Prop := ∃ t, IsLive (k.tasks t) ∧ (k.tasks t).id = id

instance (k : Kernel) (id : ℕ) : Decidable (HasLive k id) :=
  inferInstanceAs (Decidable (∃ t, IsLive (k.tasks t) ∧ (k.tasks t).id = id))

namespace Threads

def initial : Threads where
  kernel := initTasking
  exitCode _ := 0
  fate _ := none

def nextFate (s : Threads) (act : Act) (id : ℕ) : Option Fate :=
  if threadMade s.kernel act.1 = some id then some .running
  else if s.fate id = some .running then
    if threadEnded s.kernel act.1 = some id then some (.returned act.2)
    else if HasLive (act.1.apply s.kernel) id then some .running
    else some .stranded
  else s.fate id

def next (s : Threads) (act : Act) : Threads where
  kernel := act.1.apply s.kernel
  exitCode := exitCodes s.kernel s.exitCode act.2 act.1
  fate := s.nextFate act

/-- A join of a running thread waits, and a join of one that has ended delivers its value. -/
def JoinsRight (s : Threads) : Prop :=
  ∀ id : ℕ,
    (s.fate id = some .running → pthreadJoin s.kernel s.exitCode id = none) ∧
    ∀ value, s.fate id = some (.returned value) →
      pthreadJoin s.kernel s.exitCode id = some ⟨0, some value⟩

/-- A thread that ends itself does so with a value that an unsigned `int` holds. -/
def EndsSmall (s : Threads) (act : Act) : Prop :=
  ∀ id, threadEnded s.kernel act.1 = some id → s.fate id = some .running →
    act.2.toNat < 2 ^ 32

end Threads

/-! ## Slots that are not in use -/

/-- Free and dead slots stay as they are. -/
def Settled (k next : Kernel) : Prop :=
  ∀ t, ¬ IsLive (k.tasks t) → (next.tasks t).state = (k.tasks t).state

variable {cur : Fin maxTasks}

namespace Settled

variable {k mid next : Kernel}

theorem refl (k : Kernel) : Settled k k := fun _ _ => rfl

theorem trans (hfirst : Settled k mid) (hrest : Settled mid next) : Settled k next := by
  intro t ht
  have hmid := hfirst t ht
  have hlive : ¬ IsLive (mid.tasks t) := by
    unfold IsLive at ht ⊢
    rwa [hmid]
  exact (hrest t hlive).trans hmid

theorem of_fdsOnly {t : Fin maxTasks} (hnext : FdsOnly t k next) : Settled k next :=
  fun u _ => hnext.state_eq u

theorem setState (k : Kernel) (t : Fin maxTasks) {state : TaskState}
    (ht : IsLive (k.tasks t) ∨ (k.tasks t).state = state) : Settled k (k.setState t state) := by
  intro u hu
  by_cases hut : u = t
  · subst hut
    rcases ht with hlive | hsame
    · exact absurd hlive hu
    · simp [Kernel.setState, Kernel.setTask, hsame]
  · simp [Kernel.setState, Kernel.setTask, hut]

theorem setDead (k : Kernel) (t : Fin maxTasks) (ht : (k.tasks t).state ≠ .free) :
    Settled k (k.setState t .dead) := by
  apply setState
  by_cases hdead : (k.tasks t).state = .dead
  · exact .inr hdead
  · exact .inl ⟨ht, hdead⟩

theorem killThreadGroup (k : Kernel) (group : ℕ) : Settled k (killThreadGroup k group) := by
  intro t ht
  by_contra hne
  exact ht (killThreadGroup_tasks fun hsame => hne (congrArg Task.state hsame)).2.1

theorem killThreadGroup_not_free {group : ℕ} {t : Fin maxTasks}
    (ht : (k.tasks t).state ≠ .free) :
    ((Tasking.killThreadGroup k group).tasks t).state ≠ .free := by
  unfold Tasking.killThreadGroup
  dsimp only
  split
  · exact nofun
  · exact ht

theorem exitTask (hcur : (k.tasks cur).state ≠ .free) : Settled k (exitTask k cur) := by
  unfold Tasking.exitTask
  split
  · have hfds := FdsOnly.exitFds cur (List.finRange maxFds) k
    refine (of_fdsOnly hfds).trans (setDead _ cur ?_)
    rwa [hfds.state_eq cur]
  · exact refl k

theorem sysExit (hcur : (k.tasks cur).state ≠ .free) : Settled k (sysExit k cur) := by
  unfold Tasking.sysExit
  dsimp only
  split
  · exact (killThreadGroup k _).trans (exitTask (killThreadGroup_not_free hcur))
  · exact exitTask hcur

theorem threadExit (hcur : (k.tasks cur).state ≠ .free) : Settled k (threadExit k cur) := by
  unfold Tasking.threadExit
  dsimp only
  split
  · exact refl k
  · split
    · exact (killThreadGroup k _).trans (exitTask (killThreadGroup_not_free hcur))
    · exact setDead k cur hcur

theorem sysWait4 (k : Kernel) (cur : Fin maxTasks) (pid : ℤ) :
    Settled k (sysWait4 k cur pid) := by
  unfold Tasking.sysWait4
  split
  · rename_i t hfind
    have hfound := Fin.eq_true_of_find?_eq_some hfind
    simp only [Bool.and_eq_true, decide_eq_true_eq] at hfound
    apply setState
    by_cases hfree : (k.tasks t).state = .free
    · exact .inr hfree
    · exact .inl ⟨hfree, hfound.1.1⟩
  · exact refl k

theorem saveCurrent (k : Kernel) : Settled k k.saveCurrent := by
  unfold Kernel.saveCurrent
  split
  · rename_i cur _
    split
    · rename_i hrunning
      exact setState k cur (.inl ⟨by simp [hrunning], by simp [hrunning]⟩)
    · exact refl k
  · exact refl k

theorem dispatch (k : Kernel) (next : Option (Fin maxTasks)) (killed : Bool) :
    Settled k (dispatch k next killed) := by
  have hsaved := saveCurrent k
  unfold Tasking.dispatch
  dsimp only
  split
  · exact hsaved
  · rename_i t
    split
    · exact refl k
    · rename_i hready
      have hstate := not_not.mp hready
      have hlive : IsLive (k.saveCurrent.tasks t) := ⟨by simp [hstate], by simp [hstate]⟩
      split
      · exact hsaved.trans (setState k.saveCurrent t (.inl hlive))
      · exact hsaved.trans (setState k.saveCurrent t (.inl hlive))

end Settled

/-! ## What an event does to the slots -/

def claimedBy (k : Kernel) : Event → Option (Fin maxTasks)
  | .create _ _ => k.freeTask
  | .request r => (requester k).bind fun cur => claimed k cur r
  | _ => none

theorem claimedBy_request {k : Kernel} (hcur : requester k = some cur) (request : Request) :
    claimedBy k (.request request) = claimed k cur request := by
  unfold claimedBy
  rw [hcur]
  rfl

/-- Ids stay, and so do slots that are not in use, except for the slot that is claimed; that one
gets the next id. -/
structure Moves (k next : Kernel) (new : Option (Fin maxTasks)) : Prop where
  id : ∀ t, new ≠ some t → (next.tasks t).id = (k.tasks t).id
  settled : ∀ t, new ≠ some t → ¬ IsLive (k.tasks t) →
    (next.tasks t).state = (k.tasks t).state
  isFree : ∀ t, new = some t → k.freeTask = some t
  isNext : ∀ t, new = some t → (next.tasks t).id = k.nextTaskId
  nextTaskId : next.nextTaskId = k.nextTaskId + new.toList.length

namespace Moves

variable {k next : Kernel}

theorem of_shrinks (hid : Shrinks k next) (hsettled : Settled k next) : Moves k next none where
  id t _ := hid.id t
  settled t _ := hsettled t
  isFree _ h := nomatch h
  isNext _ h := nomatch h
  nextTaskId := hid.nextTaskId

theorem refl (k : Kernel) : Moves k k none := of_shrinks (.refl k) (.refl k)

theorem of_creates {t : Fin maxTasks} {group : ℕ} (ht : k.freeTask = some t)
    (hnext : Creates k next t group) (hothers : ∀ u, u ≠ t → next.tasks u = k.tasks u) :
    Moves k next k.freeTask where
  id u hu := hnext.id u fun hut => hu (by rw [hut, ht])
  settled u hu _ := by rw [hothers u fun hut => hu (by rw [hut, ht])]
  isFree _ h := h
  isNext u hu := by
    have hut : t = u := Option.some_injective _ (ht.symm.trans hu)
    rw [← hut]
    exact hnext.id_new
  nextTaskId := by
    rw [hnext.nextTaskId, ht]
    rfl

end Moves

section Creations

variable {k : Kernel} {t u : Fin maxTasks}

theorem createTask_others (ht : k.freeTask = some t) (ring : Ring) (allocated : Bool)
    (hu : u ≠ t) : (createTask k ring allocated).tasks u = k.tasks u := by
  unfold createTask
  rw [ht]
  simp [Kernel.setState, Kernel.setTask, Kernel.mapFds, Kernel.claimTask, hu]

theorem createUserThread_others {leader : Fin maxTasks} (ht : k.freeTask = some t)
    (allocated : Bool) (hu : u ≠ t) :
    (createUserThread k leader allocated).tasks u = k.tasks u := by
  unfold createUserThread
  split
  · rw [ht]
    simp [Kernel.setState, Kernel.setTask, Kernel.mapFds, Kernel.claimTask, hu]
  · rfl

theorem setState_others (k : Kernel) (state : TaskState) (hu : u ≠ t) :
    (k.setState t state).tasks u = k.tasks u := by
  simp [Kernel.setState, Kernel.setTask, hu]

theorem sysFork_others (ht : k.freeTask = some t) (copied : Bool) (hu : u ≠ t) :
    (sysFork k cur copied).tasks u = k.tasks u := by
  unfold sysFork
  split
  · rw [ht]
    dsimp only
    split
    · rw [setState_others _ _ hu, (FdsOnly.dupFdTable cur t _).others u hu]
      simp [Kernel.setTask, hu]
    · simp [Kernel.setTask, hu]
  · rfl

theorem spawnRedir_others (ht : k.freeTask = some t) (redir : Fin maxFds → ℤ)
    (outcome : SpawnOutcome) (hu : u ≠ t) :
    (spawnRedir k redir outcome).tasks u = k.tasks u := by
  have hfirst : ∀ redirs, (installRedirs t redirs
      ((((k.claimTask t .ring3).setTask t
        { (k.claimTask t .ring3).tasks t with
          group := ((k.claimTask t .ring3).tasks t).id })).mapFds t FdSlot.resetPart)).tasks u =
      k.tasks u := by
    intro redirs
    rw [(FdsOnly.installRedirs t redirs _).others u hu]
    simp [Kernel.setTask, Kernel.mapFds, Kernel.claimTask, hu]
  unfold spawnRedir
  cases outcome with
  | noModule => rfl
  | noStack =>
      rw [ht]
      dsimp only
      rw [setState_others _ _ hu]
      exact hfirst _
  | notLoaded | loaded =>
      rw [ht]
      dsimp only
      rw [setState_others _ _ hu, (FdsOnly.installRedirs t _ _).others u hu]
      exact hfirst _

theorem spawnRedir_of_none (hnone : k.freeTask = none) (redir : Fin maxFds → ℤ)
    (outcome : SpawnOutcome) : spawnRedir k redir outcome = k := by
  unfold spawnRedir
  cases outcome <;> simp only [hnone]

end Creations

namespace Moves

variable {k next : Kernel}

theorem createTask (k : Kernel) (ring : Ring) (allocated : Bool) :
    Moves k (createTask k ring allocated) k.freeTask := by
  cases ht : k.freeTask with
  | none =>
      have hsame : Tasking.createTask k ring allocated = k := by
        unfold Tasking.createTask
        rw [ht]
      rw [hsame]
      exact refl k
  | some t =>
      rw [← ht]
      exact of_creates ht (creates_createTask ht ring allocated) fun u =>
        createTask_others ht ring allocated

theorem spawnRedir (k : Kernel) (redir : Fin maxFds → ℤ) (outcome : SpawnOutcome)
    (hmodule : outcome ≠ .noModule) : Moves k (spawnRedir k redir outcome) k.freeTask := by
  cases ht : k.freeTask with
  | none =>
      rw [spawnRedir_of_none ht]
      exact refl k
  | some t =>
      rw [← ht]
      exact of_creates ht (creates_spawnRedir ht redir hmodule) fun u =>
        spawnRedir_others ht redir outcome

theorem sysFork (k : Kernel) (hring : (k.tasks cur).ring = .ring3) (copied : Bool) :
    Moves k (sysFork k cur copied) k.freeTask := by
  cases ht : k.freeTask with
  | none =>
      have hsame : Tasking.sysFork k cur copied = k := by
        unfold Tasking.sysFork
        rw [if_pos hring, ht]
      rw [hsame]
      exact refl k
  | some t =>
      rw [← ht]
      exact of_creates ht (creates_sysFork ht hring copied) fun u => sysFork_others ht copied

theorem createUserThread (k : Kernel) {leader : Fin maxTasks}
    (hleader : (k.tasks leader).ring = .ring3 ∧ 0 < (k.tasks leader).group)
    (allocated : Bool) : Moves k (createUserThread k leader allocated) k.freeTask := by
  cases ht : k.freeTask with
  | none =>
      have hsame : Tasking.createUserThread k leader allocated = k := by
        unfold Tasking.createUserThread
        rw [if_pos hleader, ht]
      rw [hsame]
      exact refl k
  | some t =>
      rw [← ht]
      exact of_creates ht (creates_createUserThread ht hleader allocated) fun u =>
        createUserThread_others ht allocated

theorem request (hrunning : (k.tasks cur).state = .running) (request : Request) :
    Moves k (request.apply k cur) (claimed k cur request) := by
  have hlive : IsLive (k.tasks cur) := ⟨by simp [hrunning], by simp [hrunning]⟩
  have hfds : ∀ {next : Kernel}, FdsOnly cur k next → Moves k next none := fun hnext =>
    of_shrinks (.of_fdsOnly hnext) (.of_fdsOnly hnext)
  cases request with
  | call call => exact hfds (.call k cur call)
  | close fd => exact hfds (.sysClose k cur fd)
  | netClose fd => exact hfds (.netClose cur k fd)
  | fcntl fd arg => exact hfds (.fcntlSetFl k cur fd arg)
  | spawn redir outcome =>
      cases outcome with
      | noModule => exact refl k
      | noStack => exact spawnRedir k redir .noStack (by simp)
      | notLoaded => exact spawnRedir k redir .notLoaded (by simp)
      | loaded => exact spawnRedir k redir .loaded (by simp)
  | fork copied =>
      by_cases hring : (k.tasks cur).ring = .ring3
      · have hclaimed : claimed k cur (.fork copied) = k.freeTask := if_pos hring
        rw [hclaimed]
        exact sysFork k hring copied
      · have hclaimed : claimed k cur (.fork copied) = none := if_neg hring
        have hsame : Tasking.sysFork k cur copied = k := if_neg hring
        rw [hclaimed, Request.apply, hsame]
        exact refl k
  | thread allocated =>
      by_cases hleader : (k.tasks cur).ring = .ring3 ∧ 0 < (k.tasks cur).group
      · have hclaimed : claimed k cur (.thread allocated) = k.freeTask := if_pos hleader
        rw [hclaimed]
        exact createUserThread k hleader allocated
      · have hclaimed : claimed k cur (.thread allocated) = none := if_neg hleader
        have hsame : Tasking.createUserThread k cur allocated = k := if_neg hleader
        rw [hclaimed, Request.apply, hsame]
        exact refl k
  | exit => exact of_shrinks (.sysExit k cur) (.sysExit hlive.1)
  | threadExit => exact of_shrinks (.threadExit k cur) (.threadExit hlive.1)
  | fault => exact of_shrinks (.exitTask k cur) (.exitTask hlive.1)
  | wait4 pid => exact of_shrinks (.sysWait4 k cur pid) (.sysWait4 k cur pid)
  | sleep =>
      exact of_shrinks (Shrinks.setState k cur fun _ => hlive) (Settled.setState k cur (.inl hlive))

end Moves

theorem requester_eq_some {k : Kernel} (h : requester k = some cur) :
    k.current = some cur ∧ (k.tasks cur).state = .running := by
  simpa [requester] using h

theorem request_apply (k : Kernel) (request : Request) :
    (Event.request request).apply k =
      match requester k with
      | some cur => request.apply k cur
      | none => k := by
  unfold requester Event.apply
  cases k.current with
  | none => rfl
  | some cur =>
      by_cases hrunning : (k.tasks cur).state = .running
      · simp [Option.filter, hrunning]
      · simp [Option.filter, hrunning]

theorem moves_apply (k : Kernel) (event : Event) :
    Moves k (event.apply k) (claimedBy k event) := by
  cases event with
  | request request =>
      rw [request_apply]
      unfold claimedBy
      cases hcur : requester k with
      | none => exact .refl k
      | some cur => exact .request (requester_eq_some hcur).2 request
  | create ring allocated => exact .createTask k ring allocated
  | kill group => exact .of_shrinks (.killThreadGroup k group) (.killThreadGroup k group)
  | wake t =>
      simp only [Event.apply]
      split
      · rename_i hsleeping
        have hlive : IsLive (k.tasks t) := ⟨by simp [hsleeping], by simp [hsleeping]⟩
        exact .of_shrinks (Shrinks.setState k t fun _ => hlive)
          (Settled.setState k t (.inl hlive))
      · exact .refl k
  | dispatch next killed => exact .of_shrinks (.dispatch k next killed) (.dispatch k next killed)
  | neutralize t =>
      simp only [Event.apply]
      split
      · rename_i hready
        exact .of_shrinks (.setDead k t) (.setDead k t (by simp [hready]))
      · exact .refl k

/-! ## Ids -/

/-- No two slots in use have one id, and the next id is new. -/
structure IdsUnique (k : Kernel) : Prop where
  lt : ∀ t, (k.tasks t).id < k.nextTaskId
  inj : ∀ a b, (k.tasks a).state ≠ .free → (k.tasks b).state ≠ .free →
    (k.tasks a).id = (k.tasks b).id → a = b

theorem idsUnique_initTasking : IdsUnique initTasking := by
  have hid : ∀ t, (initTasking.tasks t).id = 0 := by
    intro t
    unfold initTasking
    dsimp only
    split <;> rfl
  have hmain : ∀ t, (initTasking.tasks t).state ≠ .free → t.val = 0 := by
    intro t ht
    by_contra hne
    refine ht ?_
    unfold initTasking
    dsimp only
    rw [if_neg hne]
    rfl
  refine ⟨fun t => (hid t).trans_lt Nat.one_pos, ?_⟩
  intro a b ha hb _
  exact Fin.ext ((hmain a ha).trans (hmain b hb).symm)

section Moves

variable {k next : Kernel} {new : Option (Fin maxTasks)} {t : Fin maxTasks}

theorem Moves.not_free (hnext : Moves k next new) (ht : (next.tasks t).state ≠ .free)
    (hnew : new ≠ some t) : (k.tasks t).state ≠ .free := by
  intro hfree
  refine ht ((hnext.settled t hnew fun hlive => hlive.1 hfree).trans hfree)

theorem Moves.idsUnique (hnext : Moves k next new) (hk : IdsUnique k) : IdsUnique next where
  lt t := by
    rw [hnext.nextTaskId]
    by_cases hnew : new = some t
    · rw [hnext.isNext t hnew, hnew]
      exact Nat.lt_succ_self _
    · rw [hnext.id t hnew]
      exact Nat.lt_add_right _ (hk.lt t)
  inj a b ha hb hab := by
    by_cases hnewa : new = some a
    · by_cases hnewb : new = some b
      · exact Option.some_injective _ (hnewa.symm.trans hnewb)
      · rw [hnext.isNext a hnewa, hnext.id b hnewb] at hab
        exact absurd hab (hk.lt b).ne'
    · by_cases hnewb : new = some b
      · rw [hnext.isNext b hnewb, hnext.id a hnewa] at hab
        exact absurd hab (hk.lt a).ne
      · rw [hnext.id a hnewa, hnext.id b hnewb] at hab
        exact hk.inj a b (hnext.not_free ha hnewa) (hnext.not_free hb hnewb) hab

theorem Moves.old (hnext : Moves k next new) (ht : (next.tasks t).state ≠ .free)
    (hold : (next.tasks t).id < k.nextTaskId) :
    (k.tasks t).state ≠ .free ∧ (next.tasks t).id = (k.tasks t).id := by
  have hnew : new ≠ some t := fun hnew => hold.ne (hnext.isNext t hnew)
  exact ⟨hnext.not_free ht hnew, hnext.id t hnew⟩

theorem Moves.dead (hnext : Moves k next new) (ht : (k.tasks t).state = .dead) :
    (next.tasks t).state = .dead ∧ (next.tasks t).id = (k.tasks t).id := by
  have hnew : new ≠ some t := by
    intro hnew
    have hfree := Kernel.freeTask_state (hnext.isFree t hnew)
    rw [ht] at hfree
    cases hfree
  exact ⟨(hnext.settled t hnew fun hlive => hlive.2 ht).trans ht, hnext.id t hnew⟩

end Moves

theorem getTaskById_eq_some {k : Kernel} (hk : IdsUnique k) {t : Fin maxTasks}
    (ht : (k.tasks t).state ≠ .free) : getTaskById k (k.tasks t).id = some t := by
  unfold getTaskById
  cases hfind : Fin.find? fun i => decide (((k.tasks i).id : ℤ) = (k.tasks t).id) &&
      decide ((k.tasks i).state ≠ .free) with
  | none =>
      rw [Fin.find?_eq_none_iff] at hfind
      have hmiss := hfind t
      simp [ht] at hmiss
  | some u =>
      have hfound := Fin.eq_true_of_find?_eq_some hfind
      simp only [Bool.and_eq_true, decide_eq_true_eq] at hfound
      rw [hk.inj u t hfound.2 ht (Int.ofNat_inj.mp hfound.1)]

theorem pthreadJoin_live {k : Kernel} (hk : IdsUnique k) (codes : Fin maxTasks → BitVec 32)
    {t : Fin maxTasks} (ht : IsLive (k.tasks t)) :
    pthreadJoin k codes (k.tasks t).id = none := by
  simp only [pthreadJoin, threadJoin, getTaskById_eq_some hk ht.1, if_neg ht.2, Option.map_none]

/-- An exit code without a sign is no error. -/
theorem pthreadJoined_code (code : BitVec 32) :
    pthreadJoined (code.setWidth 64) = ⟨0, some (code.setWidth 64)⟩ := by
  have hlt := code.isLt
  have hint : (code.setWidth 64).toInt = (code.setWidth 64).toNat := by
    apply BitVec.toInt_eq_toNat_of_lt
    rw [BitVec.toNat_setWidth]
    omega
  unfold pthreadJoined
  rw [hint, if_neg (by omega)]

theorem pthreadJoin_dead {k : Kernel} (hk : IdsUnique k) (codes : Fin maxTasks → BitVec 32)
    {t : Fin maxTasks} (ht : (k.tasks t).state = .dead) :
    pthreadJoin k codes (k.tasks t).id = some ⟨0, some ((codes t).setWidth 64)⟩ := by
  have hfree : (k.tasks t).state ≠ .free := by simp [ht]
  simp only [pthreadJoin, threadJoin, getTaskById_eq_some hk hfree, if_pos ht, Option.map_some,
    pthreadJoined_code]

/-! ## Exit codes -/

theorem setCode_of_ne {codes : Fin maxTasks → BitVec 32} {slot : Option (Fin maxTasks)}
    {code : BitVec 32} {t : Fin maxTasks} (ht : slot ≠ some t) :
    setCode codes slot code t = codes t := by
  cases slot with
  | none => rfl
  | some u => exact update_of_ne (fun h => ht (congrArg some h.symm)) _ _

theorem exitCodes_of_dead {k : Kernel} {t : Fin maxTasks} (ht : (k.tasks t).state = .dead)
    (codes : Fin maxTasks → BitVec 32) (word : BitVec 64) (event : Event) :
    exitCodes k codes word event t = codes t := by
  cases event with
  | request request =>
      unfold exitCodes
      dsimp only
      cases hcur : requester k with
      | none => rfl
      | some cur =>
          obtain ⟨_, hrunning⟩ := requester_eq_some hcur
          have hmoves := Moves.request hrunning request
          dsimp only [requestCodes]
          rw [setCode_of_ne, setCode_of_ne]
          · intro hclaimed
            have hfree := Kernel.freeTask_state (hmoves.isFree t hclaimed)
            rw [ht] at hfree
            cases hfree
          · intro hended
            have hself : cur = t := by
              unfold ended at hended
              split at hended <;> simp_all
            rw [hself, ht] at hrunning
            cases hrunning
  | dispatch next killed =>
      unfold exitCodes
      apply setCode_of_ne
      intro hsignalled
      simp only [endedBySignal, Option.filter_eq_some_iff, Bool.and_eq_true, decide_eq_true_eq]
        at hsignalled
      have hsaved := Settled.saveCurrent k t fun hlive => hlive.2 ht
      rw [ht, hsignalled.2.1.1] at hsaved
      cases hsaved
  | _ => rfl

/-- A task that ends its thread leaves the value as an `int`. -/
theorem exitCodes_threadExit {k : Kernel} (hcur : requester k = some cur) (hpos : 0 < cur.val)
    (codes : Fin maxTasks → BitVec 32) (word : BitVec 64) :
    exitCodes k codes word (.request .threadExit) cur = word.setWidth 32 := by
  have hended : ended cur .threadExit = some cur := if_pos hpos
  unfold exitCodes
  rw [hcur]
  dsimp only [requestCodes]
  rw [hended]
  exact update_self cur _ _

/-! ## Creating and ending a thread -/

theorem threadMade_eq_some {k : Kernel} {event : Event} {id : ℕ}
    (h : threadMade k event = some id) :
    event = .request (.thread true) ∧ id = k.nextTaskId ∧ ∃ cur t, requester k = some cur ∧
      claimed k cur (.thread true) = some t := by
  unfold threadMade at h
  split at h
  · simp only [Option.bind_eq_some_iff, Option.map_eq_some_iff] at h
    obtain ⟨cur, hcur, t, ht, hid⟩ := h
    exact ⟨rfl, hid.symm, cur, t, hcur, ht⟩
  · cases h

theorem threadEnded_eq_some {k : Kernel} {event : Event} {id : ℕ}
    (h : threadEnded k event = some id) :
    event = .request .threadExit ∧ ∃ cur, requester k = some cur ∧ (k.tasks cur).id = id := by
  unfold threadEnded at h
  split at h
  · simp only [Option.map_eq_some_iff] at h
    exact ⟨rfl, h⟩
  · cases h

theorem createUserThread_ready {k : Kernel} {leader t : Fin maxTasks}
    (ht : claimed k leader (.thread true) = some t) :
    ((createUserThread k leader true).tasks t).state = .ready := by
  unfold claimed at ht
  dsimp only at ht
  split at ht
  · rename_i hleader
    unfold createUserThread
    rw [if_pos hleader, ht]
    simp [Kernel.setState, Kernel.setTask]
  · cases ht

theorem exitTask_dead {k : Kernel} (hcur : 0 < cur.val) :
    ((exitTask k cur).tasks cur).state = .dead := by
  unfold exitTask
  rw [if_pos hcur]
  simp [Kernel.setState, Kernel.setTask]

theorem threadExit_dead {k : Kernel} (hcur : 0 < cur.val) :
    ((threadExit k cur).tasks cur).state = .dead := by
  unfold threadExit
  dsimp only
  rw [if_neg hcur.ne']
  split
  · exact exitTask_dead hcur
  · simp [Kernel.setState, Kernel.setTask]

/-! ## The runs -/

namespace Threads

/-- A running thread has a live slot, and one that has ended a dead slot with the low half of its
value. -/
structure Kept (s : Threads) : Prop where
  ids : IdsUnique s.kernel
  running : ∀ id, s.fate id = some .running →
    ∃ t : Fin maxTasks, 0 < t.val ∧ IsLive (s.kernel.tasks t) ∧ (s.kernel.tasks t).id = id
  returned : ∀ id value, s.fate id = some (.returned value) →
    ∃ t, (s.kernel.tasks t).state = .dead ∧ (s.kernel.tasks t).id = id ∧
      s.exitCode t = value.setWidth 32

theorem kept_initial : Kept initial where
  ids := idsUnique_initTasking
  running _ h := nomatch h
  returned _ _ h := nomatch h

variable {s : Threads} {act : Act} {id : ℕ}

theorem nextFate_running (h : s.nextFate act id = some .running) :
    threadMade s.kernel act.1 = some id ∨
      s.fate id = some .running ∧ HasLive (act.1.apply s.kernel) id := by
  unfold nextFate at h
  split at h
  · rename_i hmade
    exact .inl hmade
  · split at h
    · rename_i hrunning
      split at h
      · cases h
      · split at h
        · rename_i hlive
          exact .inr ⟨hrunning, hlive⟩
        · cases h
    · rename_i hrunning
      exact absurd h hrunning

theorem nextFate_returned {value : BitVec 64} (h : s.nextFate act id = some (.returned value)) :
    s.fate id = some .running ∧ threadEnded s.kernel act.1 = some id ∧ act.2 = value ∨
      s.fate id = some (.returned value) := by
  unfold nextFate at h
  split at h
  · cases h
  · split at h
    · rename_i hrunning
      split at h
      · rename_i hended
        cases h
        exact .inl ⟨hrunning, hended, rfl⟩
      · split at h <;> cases h
    · exact .inr h

theorem nextFate_ended (hrunning : s.fate id = some .running)
    (hended : threadEnded s.kernel act.1 = some id) :
    s.nextFate act id = some (.returned act.2) := by
  have hmade : threadMade s.kernel act.1 ≠ some id := by
    intro hmade
    rw [(threadEnded_eq_some hended).1] at hmade
    cases (threadMade_eq_some hmade).1
  unfold nextFate
  rw [if_neg hmade, if_pos hrunning, if_pos hended]

theorem made_live (hmade : threadMade s.kernel act.1 = some id) :
    ∃ t : Fin maxTasks, 0 < t.val ∧ IsLive ((act.1.apply s.kernel).tasks t) ∧
      ((act.1.apply s.kernel).tasks t).id = id := by
  obtain ⟨hevent, hid, cur, t, hcur, hclaimed⟩ := threadMade_eq_some hmade
  have hmoves := moves_apply s.kernel act.1
  have hnew : claimedBy s.kernel act.1 = some t := by
    rw [hevent, claimedBy_request hcur, hclaimed]
  refine ⟨t, freeTask_pos (hmoves.isFree t hnew), ?_, (hmoves.isNext t hnew).trans hid.symm⟩
  have hready : ((act.1.apply s.kernel).tasks t).state = .ready := by
    rw [hevent, request_apply, hcur]
    exact createUserThread_ready hclaimed
  exact ⟨by simp [hready], by simp [hready]⟩

theorem ended_dead (hs : Kept s) (hrunning : s.fate id = some .running)
    (hended : threadEnded s.kernel act.1 = some id) :
    ∃ t, ((act.1.apply s.kernel).tasks t).state = .dead ∧
      ((act.1.apply s.kernel).tasks t).id = id ∧
      exitCodes s.kernel s.exitCode act.2 act.1 t = act.2.setWidth 32 := by
  obtain ⟨hevent, cur, hcur, hid⟩ := threadEnded_eq_some hended
  obtain ⟨t, hpos, hlive, htid⟩ := hs.running id hrunning
  have hstate := (requester_eq_some hcur).2
  have hsame : cur = t :=
    hs.ids.inj cur t (by simp [hstate]) hlive.1 (hid.trans htid.symm)
  subst hsame
  have hmoves := moves_apply s.kernel act.1
  have hnew : claimedBy s.kernel act.1 ≠ some cur := by
    rw [hevent, claimedBy_request hcur]
    exact (Option.some_ne_none cur).symm
  refine ⟨cur, ?_, ?_, ?_⟩
  · rw [hevent, request_apply, hcur]
    exact threadExit_dead hpos
  · rw [hmoves.id cur hnew, hid]
  · rw [hevent]
    exact exitCodes_threadExit hcur hpos s.exitCode act.2

theorem Kept.next (hs : Kept s) (act : Act) : Kept (s.next act) where
  ids := (moves_apply s.kernel act.1).idsUnique hs.ids
  running id hid := by
    rcases nextFate_running hid with hmade | ⟨hrunning, t, hlive, htid⟩
    · exact made_live hmade
    · obtain ⟨u, hpos, hulive, huid⟩ := hs.running id hrunning
      have hmoves := moves_apply s.kernel act.1
      have hold : ((act.1.apply s.kernel).tasks t).id < s.kernel.nextTaskId := by
        rw [htid, ← huid]
        exact hs.ids.lt u
      obtain ⟨hfree, hsame⟩ := hmoves.old hlive.1 hold
      have hut : u = t :=
        hs.ids.inj u t hulive.1 hfree (huid.trans (htid.symm.trans hsame))
      subst hut
      exact ⟨u, hpos, hlive, htid⟩
  returned id value hid := by
    rcases nextFate_returned hid with ⟨hrunning, hended, hvalue⟩ | hreturned
    · rw [← hvalue]
      exact ended_dead hs hrunning hended
    · obtain ⟨t, hdead, htid, hcode⟩ := hs.returned id value hreturned
      obtain ⟨hstill, hsame⟩ := (moves_apply s.kernel act.1).dead hdead
      exact ⟨t, hstill, hsame.trans htid,
        (exitCodes_of_dead hdead s.exitCode act.2 act.1).trans hcode⟩

theorem Kept.pthreadJoin_returned (hs : Kept s) {value : BitVec 64}
    (hid : s.fate id = some (.returned value)) :
    pthreadJoin s.kernel s.exitCode id =
      some ⟨0, some ((value.setWidth 32).setWidth 64)⟩ := by
  obtain ⟨t, hdead, htid, hcode⟩ := hs.returned id value hid
  rw [← htid, pthreadJoin_dead hs.ids s.exitCode hdead, hcode]

/-- The low half of a value is the value where the high half is zero. -/
theorem setWidth_setWidth_eq_iff (value : BitVec 64) :
    (value.setWidth 32).setWidth 64 = value ↔ value.toNat < 2 ^ 32 := by
  rw [← BitVec.toNat_inj, BitVec.toNat_setWidth, BitVec.toNat_setWidth]
  have hlt := value.isLt
  omega

/-- No thread has ended with a value that is too wide. -/
def Small (s : Threads) : Prop :=
  ∀ id value, s.fate id = some (.returned value) → value.toNat < 2 ^ 32

theorem Kept.joinsRight_iff (hs : Kept s) : JoinsRight s ↔ Small s := by
  constructor
  · intro hright id value hid
    have hjoin := (hright id).2 value hid
    rw [hs.pthreadJoin_returned hid] at hjoin
    simp only [Option.some.injEq, Joined.mk.injEq, true_and] at hjoin
    exact (setWidth_setWidth_eq_iff value).mp hjoin
  · intro hsmall id
    constructor
    · intro hid
      obtain ⟨t, _, hlive, htid⟩ := hs.running id hid
      rw [← htid]
      exact pthreadJoin_live hs.ids s.exitCode hlive
    · intro value hid
      rw [hs.pthreadJoin_returned hid, (setWidth_setWidth_eq_iff value).mpr (hsmall id value hid)]

theorem small_next_iff (hsmall : Small s) : Small (s.next act) ↔ EndsSmall s act := by
  constructor
  · intro hnext id hended hrunning
    exact hnext id act.2 (nextFate_ended hrunning hended)
  · intro hends id value hid
    rcases nextFate_returned hid with ⟨hrunning, hended, hvalue⟩ | hreturned
    · rw [← hvalue]
      exact hends id hended hrunning
    · exact hsmall id value hreturned

/-- The run of some acts from the start of tasking. -/
def run (acts : List Act) : List (Act × Threads) := trace next initial acts

theorem kept_run (acts : List Act) : Always Kept initial (run acts) := by
  apply always_of_invariant Kept _ kept_initial (along_trace next initial acts)
  rintro s act _ hs rfl
  exact hs.next act

theorem small_run_iff (acts : List Act) :
    Always Small initial (run acts) ↔
      Along (fun s act _ => EndsSmall s act) initial (run acts) :=
  always_trace_iff next (fun _ _ => small_next_iff) nofun acts

/-- In a run every join waits for its thread and delivers the thread's value if and only if no
thread ends itself with a value of more than 32 bits. -/
theorem joinsRight_iff_endsSmall (acts : List Act) :
    Always JoinsRight initial (run acts) ↔
      Along (fun s act _ => EndsSmall s act) initial (run acts) := by
  rw [← small_run_iff]
  exact always_congr (fun _ hs => hs.joinsRight_iff) (kept_run acts)

theorem two_lt_maxTasks : 2 < maxTasks := by decide

theorem three_lt_maxTasks : 3 < maxTasks := by decide

/-- A process starts a thread, which ends with a pointer above the first 4 GiB. -/
def threadReturnsPointer : List Act :=
  [(.create .ring3 true, 0), (.dispatch (some firstProcess) false, 0),
    (.request (.spawn (fun _ => -1) .loaded), 0),
    (.dispatch (some ⟨2, two_lt_maxTasks⟩) false, 0),
    (.request (.thread true), 0), (.dispatch (some ⟨3, three_lt_maxTasks⟩) false, 0),
    (.request .threadExit, 0x100001000)]

theorem not_joinsRight_pointer : ¬ Always JoinsRight initial (run threadReturnsPointer) := by
  intro hright
  have hjoin := (hright.final 3).2 0x100001000 (by decide +kernel)
  exact absurd hjoin (by decide +kernel)

end Threads

end EigenOS.Pthread
