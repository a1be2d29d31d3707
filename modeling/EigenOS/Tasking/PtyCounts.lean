import EigenOS.Tasking.PtyEnds

/-!
# Reference counts of ptys

Spawning with a pty counts each inherited descriptor twice, ending a task gives none of its
references back, and a socket or a duplicate can be written over a pty descriptor.  In a run
without these steps the counts are those of the open descriptors.
-/

namespace EigenOS.Tasking

open Transition Tally

/-! ## The condition -/

/-- `kill_thread_group` ends no task that holds a pty. -/
def GroupHoldsNone (k : Kernel) (group : ℕ) : Prop :=
  ∀ t, 1 ≤ t.val → IsLive (k.tasks t) → ((k.tasks t).group = group ∨ (k.tasks t).id = group) →
    ¬ HoldsPty k t

/-- The task that `sys_wait4` frees. -/
def waitedTask (k : Kernel) (cur : Fin maxTasks) (pid : ℤ) : Option (Fin maxTasks) :=
  Fin.find? fun i => decide ((k.tasks i).state ≠ .dead) &&
    decide ((k.tasks i).ppid = (k.tasks cur).id) &&
    (decide (pid ≤ 0) || decide (((k.tasks i).id : ℤ) = pid))

def Request.SparesPtys (k : Kernel) (cur : Fin maxTasks) : Request → Prop
  | .exit => ¬ HoldsPty k cur ∧
      (0 < (k.tasks cur).group → GroupHoldsNone k (k.tasks cur).group)
  | .threadExit => ¬ HoldsPty k cur ∧
      ((k.tasks cur).id = (k.tasks cur).group ∨ (k.tasks cur).group = 0 →
        GroupHoldsNone k (k.tasks cur).group)
  | .fault => ¬ HoldsPty k cur
  | .wait4 pid => ∀ t, waitedTask k cur pid = some t → IsLive (k.tasks t) → ¬ HoldsPty k t
  | .spawn redir outcome =>
      match outcome with
      | .noModule => True
      | _ => ∀ fd pno extra, redirSnap (k.tasks cur) (redir fd) ≠ .pty pno extra
  | .call (.dup2 _ newfd) => ∀ new, toFd newfd = some new → 0 < (k.slot cur new).flags →
      (k.slot cur new).type ≠ .pty
  | .call .socket => ∀ sock fd, freeSocket k = some sock → toFd sock.val = some fd →
      (k.slot cur fd).type ≠ .pty
  | _ => True

/-- No task that ends holds a pty, no task is spawned with one, and no descriptor of one is
written over. -/
def SparesPtys (k : Kernel) : Event → Prop
  | .request request => ∀ cur, k.current = some cur → request.SparesPtys k cur
  | .kill group => GroupHoldsNone k group
  | .dispatch next killed => ∀ t, next = some t → killed = true →
      (k.tasks t).ring = .ring3 → ¬ HoldsPty k t
  | .neutralize t => ¬ HoldsPty k t
  | _ => True

/-! ## The invariant -/

/-- The counts are exact, and a free slot holds no pty. -/
structure PtyInv (k : Kernel) : Prop where
  exact : ExactOn (liveTasks k) k
  bare : ∀ t, (k.tasks t).state = .free → ¬ HoldsPty k t

theorem holdsPty_congr {k next : Kernel} {t : Fin maxTasks}
    (ht : next.tasks t = k.tasks t) : HoldsPty next t ↔ HoldsPty k t := by
  unfold HoldsPty Kernel.slot
  rw [ht]

theorem ptyInv_initTasking : PtyInv initTasking := by
  have hbare : ∀ t, ¬ HoldsPty initTasking t := by
    rintro t ⟨fd, hfd⟩
    unfold Kernel.slot initTasking at hfd
    dsimp only at hfd
    split at hfd <;> cases hfd
  refine ⟨⟨?_, ?_⟩, fun t _ => hbare t⟩
  · intro p master
    symm
    rw [tally_eq_zero]
    · cases master <;> rfl
    · rintro ⟨t, fd⟩ _ hend
      exact hbare t ⟨fd, hend.1⟩
  · intro p
    refine iff_of_true rfl fun master => ?_
    cases master <;> rfl

variable {cur : Fin maxTasks}

namespace PtyInv

variable {k next : Kernel}

theorem of_fdsOnly (hk : PtyInv k) (hnext : FdsOnly cur k next) (hlive : IsLive (k.tasks cur))
    (hexact : ExactOn (liveTasks k) next) : PtyInv next where
  exact := liveTasks_congr hnext ▸ hexact
  bare t ht := by
    have hne : t ≠ cur := by
      rintro rfl
      exact hlive.1 (hnext.state ▸ ht)
    rw [hnext.others t hne] at ht
    rw [holdsPty_congr (hnext.others t hne)]
    exact hk.bare t ht

theorem restate (hk : PtyInv k) (hptys : next.ptys = k.ptys) (hslot : next.slot = k.slot)
    (hlive : ∀ t, IsLive (next.tasks t) → IsLive (k.tasks t))
    (hgone : ∀ t, IsLive (k.tasks t) → ¬ IsLive (next.tasks t) → ¬ HoldsPty k t)
    (hfree : ∀ t, (next.tasks t).state = .free → IsLive (k.tasks t) ∨
      (k.tasks t).state = .free) : PtyInv next where
  exact := by
    have hsame : ExactOn (liveTasks next) k := by
      apply hk.exact.relive
      · intro t ht hnot
        rw [mem_liveTasks] at ht hnot
        exact hgone t ht hnot
      · intro t ht hnot
        rw [mem_liveTasks] at ht hnot
        exact absurd (hlive t ht) hnot
    exact hsame.congr_ptys hptys hslot
  bare t ht := by
    have hsame : HoldsPty next t ↔ HoldsPty k t := by
      unfold HoldsPty
      rw [hslot]
    rw [hsame]
    rcases hfree t ht with h | h
    · exact hgone t h fun hlive => hlive.1 ht
    · exact hk.bare t h

theorem create (hk : PtyInv k) {t : Fin maxTasks} (ht : (k.tasks t).state = .free)
    (hptys : next.ptys = k.ptys) (hothers : ∀ u, u ≠ t → next.tasks u = k.tasks u)
    (hnone : ¬ HoldsPty next t) : PtyInv next where
  exact := by
    have hsame : ExactOn (liveTasks k) next := by
      apply hk.exact.congr hptys
      intro u hu fd p master
      have hne : u ≠ t := by
        rintro rfl
        exact (mem_liveTasks.mp hu).1 ht
      unfold Kernel.slot
      rw [hothers u hne]
    apply hsame.relive
    · intro u hu hnot
      have hne : u ≠ t := by
        rintro rfl
        exact (mem_liveTasks.mp hu).1 ht
      rw [mem_liveTasks] at hu hnot
      rw [hothers u hne] at hnot
      exact absurd hu hnot
    · intro u hu hnot
      by_cases hne : u = t
      · rw [hne]
        exact hnone
      · rw [mem_liveTasks] at hu hnot
        rw [hothers u hne] at hu
        exact absurd hu hnot
  bare u hu := by
    by_cases hne : u = t
    · rw [hne]
      exact hnone
    · rw [holdsPty_congr (hothers u hne)]
      rw [hothers u hne] at hu
      exact hk.bare u hu

theorem createTask (hk : PtyInv k) (ring : Ring) (allocated : Bool) :
    PtyInv (createTask k ring allocated) := by
  unfold Tasking.createTask
  split
  · exact hk
  · rename_i t ht
    have hfree := Kernel.freeTask_state ht
    apply hk.create hfree
    · rfl
    · intro u hu
      simp [Kernel.setState, Kernel.mapFds, Kernel.claimTask, Kernel.setTask, hu]
    · rintro ⟨fd, hfd⟩
      refine hk.bare t hfree ⟨fd, ?_⟩
      simpa [Kernel.slot, Kernel.setState, Kernel.mapFds, Kernel.claimTask, Kernel.setTask,
        FdSlot.resetPart] using hfd

theorem createUserThread (hk : PtyInv k) (leader : Fin maxTasks) (allocated : Bool) :
    PtyInv (createUserThread k leader allocated) := by
  unfold Tasking.createUserThread
  split
  · split
    · exact hk
    · rename_i t ht
      apply hk.create (Kernel.freeTask_state ht)
      · rfl
      · intro u hu
        simp [Kernel.setState, Kernel.mapFds, Kernel.claimTask, Kernel.setTask, hu]
      · rintro ⟨fd, hfd⟩
        simp [Kernel.slot, Kernel.setState, Kernel.mapFds, Kernel.claimTask, Kernel.setTask,
          FdSlot.zero] at hfd
  · exact hk

theorem installRedir_spec {t : Fin maxTasks} {fd : Fin maxFds} {redir : Redir}
    (hredir : ∀ pno extra, redir ≠ .pty pno extra) (k : Kernel) :
    (installRedir t k fd redir).ptys = k.ptys ∧
      (HoldsPty (installRedir t k fd redir) t → HoldsPty k t) := by
  have hset : ∀ slot : FdSlot, (slot.type = .pty → (k.slot t fd).type = .pty) →
      HoldsPty (k.setFd t fd slot) t → HoldsPty k t := by
    rintro slot hslot ⟨fd', hfd'⟩
    rw [Kernel.slot_setFd] at hfd'
    split at hfd'
    · exact ⟨fd, hslot hfd'⟩
    · exact ⟨fd', hfd'⟩
  unfold installRedir
  dsimp only
  split
  · exact ⟨rfl, fun h => h⟩
  · exact ⟨rfl, hset _ nofun⟩
  · rename_i pno extra
    exact absurd rfl (hredir pno extra)
  · exact ⟨rfl, hset _ fun h => h⟩

theorem installRedirs_spec (t : Fin maxTasks) {redirs : Fin maxFds → Redir}
    (hredirs : ∀ fd pno extra, redirs fd ≠ .pty pno extra) (k : Kernel) :
    (installRedirs t redirs k).ptys = k.ptys ∧
      (HoldsPty (installRedirs t redirs k) t → HoldsPty k t) := by
  unfold installRedirs
  induction stdFds generalizing k with
  | nil => exact ⟨rfl, fun h => h⟩
  | cons fd rest ih =>
      rw [List.foldl_cons]
      obtain ⟨hptys, hholds⟩ := installRedir_spec (hredirs fd) k
      obtain ⟨hptys', hholds'⟩ := ih (installRedir t k fd (redirs fd))
      exact ⟨hptys'.trans hptys, fun h => hholds (hholds' h)⟩

theorem spawnRedir (hk : PtyInv k) {cur : Fin maxTasks} (hcur : k.current = some cur)
    {redir : Fin maxFds → ℤ} {outcome : SpawnOutcome}
    (hspares : (Request.spawn redir outcome).SparesPtys k cur) :
    PtyInv (spawnRedir k redir outcome) := by
  unfold Tasking.spawnRedir
  split
  · exact hk
  · rename_i hmodule
    have hredirs : ∀ fd pno extra,
        redirSnap (k.tasks cur) (redir fd) ≠ .pty pno extra := by
      unfold Request.SparesPtys at hspares
      dsimp only at hspares
      split at hspares
      · exact absurd rfl hmodule
      · exact hspares
    rw [hcur]
    dsimp only
    split
    · exact hk
    · rename_i t ht
      have hfree := Kernel.freeTask_state ht
      obtain ⟨claimed, hclaimed⟩ : ∃ claimed, claimed =
          ((k.claimTask t .ring3).setTask t { (k.claimTask t .ring3).tasks t with
            group := ((k.claimTask t .ring3).tasks t).id }).mapFds t FdSlot.resetPart :=
        ⟨_, rfl⟩
      have hothers : ∀ u, u ≠ t → claimed.tasks u = k.tasks u := by
        intro u hu
        simp [hclaimed, Kernel.mapFds, Kernel.claimTask, Kernel.setTask, hu]
      have hnone : ¬ HoldsPty claimed t := by
        rintro ⟨fd, hfd⟩
        refine hk.bare t hfree ⟨fd, ?_⟩
        simpa [hclaimed, Kernel.slot, Kernel.mapFds, Kernel.claimTask, Kernel.setTask,
          FdSlot.resetPart] using hfd
      have hptys : claimed.ptys = k.ptys := by rw [hclaimed]; rfl
      rw [← hclaimed]
      have hfirst := installRedirs_spec t hredirs claimed
      have hfds := FdsOnly.installRedirs t
        (fun fd => redirSnap (k.tasks cur) (redir fd)) claimed
      split
      · apply hk.create hfree
        · exact hfirst.1.trans hptys
        · intro u hu
          simpa [Kernel.setState, Kernel.setTask, hu] using
            (hfds.others u hu).trans (hothers u hu)
        · intro hholds
          refine hnone (hfirst.2 ?_)
          simpa [HoldsPty, Kernel.slot, Kernel.setState, Kernel.setTask] using hholds
      · have hsecond := installRedirs_spec t hredirs
          (installRedirs t (fun fd => redirSnap (k.tasks cur) (redir fd)) claimed)
        have hfds' := FdsOnly.installRedirs t
          (fun fd => redirSnap (k.tasks cur) (redir fd))
          (installRedirs t (fun fd => redirSnap (k.tasks cur) (redir fd)) claimed)
        apply hk.create hfree
        · exact (hsecond.1.trans hfirst.1).trans hptys
        · intro u hu
          simpa [Kernel.setState, Kernel.setTask, hu] using
            ((hfds'.others u hu).trans (hfds.others u hu)).trans (hothers u hu)
        · intro hholds
          refine hnone (hfirst.2 (hsecond.2 ?_))
          simpa [HoldsPty, Kernel.slot, Kernel.setState, Kernel.setTask] using hholds

theorem sysFork (hk : PtyInv k) (hlive : IsLive (k.tasks cur)) (copied : Bool) :
    PtyInv (sysFork k cur copied) := by
  unfold Tasking.sysFork
  split
  · split
    · exact hk
    · rename_i t ht
      have hfree := Kernel.freeTask_state ht
      have hne : cur ≠ t := by
        rintro rfl
        exact hlive.1 hfree
      obtain ⟨child, hchild⟩ : ∃ child : Kernel, child =
          { k.setTask t (forkChild k cur) with nextTaskId := k.nextTaskId + 1 } := ⟨_, rfl⟩
      have hbare : ∀ fd, (child.slot t fd).type ≠ .pty := by
        intro fd
        simp [hchild, Kernel.slot, Kernel.setTask, forkChild, Task.zero, FdSlot.zero]
      have hothers : ∀ u, u ≠ t → child.tasks u = k.tasks u := by
        intro u hu
        simp [hchild, Kernel.setTask, hu]
      have hstart : PtyInv child := by
        apply hk.create hfree _ hothers
        · rintro ⟨fd, hfd⟩
          exact hbare fd hfd
        · rw [hchild]
          rfl
      dsimp only
      rw [← hchild]
      split
      · have hmem : cur ∈ liveTasks child := by
          rw [mem_liveTasks, hothers cur hne]
          exact hlive
        have hwith : ExactOn (insert t (liveTasks child)) child := by
          apply hstart.exact.relive
          · intro u hu hnot
            exact absurd (Finset.mem_insert_of_mem hu) hnot
          · rintro u hu hnot ⟨fd, hfd⟩
            rcases Finset.mem_insert.mp hu with rfl | h
            · exact hbare fd hfd
            · exact hnot h
        have hdup : ExactOn (insert t (liveTasks child)) (dupFdTable cur t child) :=
          hwith.dupFds (Finset.mem_insert_of_mem hmem) (Finset.mem_insert_self _ _) _
            (List.nodup_finRange maxFds) fun fd _ => hbare fd
        have hfds := FdsOnly.dupFdTable cur t child
        have hstate : ∀ u, u ≠ t →
            ((dupFdTable cur t child).setState t .ready).tasks u = k.tasks u := by
          intro u hu
          simpa [Kernel.setState, Kernel.setTask, hu] using
            (hfds.others u hu).trans (hothers u hu)
        have hnew : (((dupFdTable cur t child).setState t .ready).tasks t).state = .ready := by
          simp [Kernel.setState, Kernel.setTask]
        refine ⟨?_, ?_⟩
        · have hlives : liveTasks ((dupFdTable cur t child).setState t .ready) =
              insert t (liveTasks child) := by
            apply Finset.ext
            intro u
            rw [Finset.mem_insert, mem_liveTasks, mem_liveTasks]
            by_cases hu : u = t
            · subst hu
              refine iff_of_true ?_ (Or.inl rfl)
              exact ⟨by simp [hnew], by simp [hnew]⟩
            · rw [hstate u hu, hothers u hu, or_iff_right hu]
          rw [hlives]
          exact hdup.congr_ptys rfl (Kernel.slot_setState _ t .ready)
        · intro u hu
          by_cases hut : u = t
          · subst hut
            rw [hnew] at hu
            cases hu
          · rw [holdsPty_congr (hstate u hut)]
            rw [hstate u hut] at hu
            exact hk.bare u hu
      · exact hstart
  · exact hk

theorem setState (hk : PtyInv k) (t : Fin maxTasks) (state : TaskState)
    (hlive : state ≠ .free ∧ state ≠ .dead → IsLive (k.tasks t))
    (hgone : IsLive (k.tasks t) → state = .free ∨ state = .dead → ¬ HoldsPty k t)
    (hfree : state = .free → IsLive (k.tasks t) ∨ (k.tasks t).state = .free) :
    PtyInv (k.setState t state) := by
  have hself : ((k.setState t state).tasks t).state = state := by
    simp [Kernel.setState, Kernel.setTask]
  have hothers : ∀ u, u ≠ t → (k.setState t state).tasks u = k.tasks u := by
    intro u hu
    simp [Kernel.setState, Kernel.setTask, hu]
  apply hk.restate _ (Kernel.slot_setState k t state)
  · intro u hu
    by_cases hut : u = t
    · subst hut
      unfold IsLive at hu
      rw [hself] at hu
      exact hlive hu
    · rwa [hothers u hut] at hu
  · intro u hu hnot
    by_cases hut : u = t
    · subst hut
      apply hgone hu
      unfold IsLive at hnot
      rw [hself] at hnot
      by_contra hneither
      exact hnot ⟨fun h => hneither (Or.inl h), fun h => hneither (Or.inr h)⟩
    · rw [hothers u hut] at hnot
      exact absurd hu hnot
  · intro u hu
    by_cases hut : u = t
    · subst hut
      rw [hself] at hu
      exact hfree hu
    · rw [hothers u hut] at hu
      exact Or.inr hu
  · rfl

theorem killThreadGroup (hk : PtyInv k) {group : ℕ} (hspares : GroupHoldsNone k group) :
    PtyInv (killThreadGroup k group) := by
  apply hk.restate _ (slot_killThreadGroup k group)
  · exact (Shrinks.killThreadGroup k group).live
  · intro t ht hnot
    have hchanged : (Tasking.killThreadGroup k group).tasks t ≠ k.tasks t := by
      intro hsame
      rw [hsame] at hnot
      exact hnot ht
    obtain ⟨hpos, hlive, hmember⟩ := killThreadGroup_tasks hchanged
    exact hspares t hpos hlive hmember
  · intro t ht
    unfold Tasking.killThreadGroup at ht
    dsimp only at ht
    split at ht
    · cases ht
    · exact Or.inr ht
  · rfl

theorem exitTask (hk : PtyInv k) (hnone : ¬ HoldsPty k cur) : PtyInv (exitTask k cur) := by
  unfold Tasking.exitTask
  split
  · have hless : ExactOn ((liveTasks k).erase cur) k := by
      apply hk.exact.relive
      · intro t ht hnot
        have hcur : t = cur := by
          by_contra hne
          exact hnot (Finset.mem_erase.mpr ⟨hne, ht⟩)
        rw [hcur]
        exact hnone
      · intro t ht hnot
        exact absurd (Finset.mem_of_mem_erase ht) hnot
    have hfds := hless.exitFds (Finset.notMem_erase cur _) (List.finRange maxFds)
    have honly := FdsOnly.exitFds cur (List.finRange maxFds) k
    obtain ⟨closed, hclosed⟩ : ∃ closed, closed =
        (List.finRange maxFds).foldl (exitFd cur) k := ⟨_, rfl⟩
    rw [← hclosed] at hfds honly ⊢
    have hothers : ∀ u, u ≠ cur → (closed.setState cur .dead).tasks u = k.tasks u := by
      intro u hu
      simpa [Kernel.setState, Kernel.setTask, hu] using honly.others u hu
    have hdead : ((closed.setState cur .dead).tasks cur).state = .dead := by
      simp [Kernel.setState, Kernel.setTask]
    refine ⟨?_, ?_⟩
    · have hlives : liveTasks (closed.setState cur .dead) = (liveTasks k).erase cur := by
        apply Finset.ext
        intro u
        rw [Finset.mem_erase, mem_liveTasks, mem_liveTasks]
        by_cases hu : u = cur
        · subst hu
          exact iff_of_false (fun h => h.2 hdead) (fun h => h.1 rfl)
        · rw [hothers u hu, and_iff_right hu]
      rw [hlives]
      exact hfds.congr_ptys rfl (Kernel.slot_setState closed cur .dead)
    · intro u hu
      by_cases huc : u = cur
      · subst huc
        rw [hdead] at hu
        cases hu
      · rw [holdsPty_congr (hothers u huc)]
        rw [hothers u huc] at hu
        exact hk.bare u hu
  · exact hk

theorem holdsPty_killThreadGroup (k : Kernel) (group : ℕ) (t : Fin maxTasks) :
    HoldsPty (Tasking.killThreadGroup k group) t ↔ HoldsPty k t := by
  unfold HoldsPty
  rw [slot_killThreadGroup]

theorem killAndExit (hk : PtyInv k) {group : ℕ} (hnone : ¬ HoldsPty k cur)
    (hspares : GroupHoldsNone k group) :
    PtyInv (Tasking.exitTask (Tasking.killThreadGroup k group) cur) :=
  (hk.killThreadGroup hspares).exitTask fun h =>
    hnone ((holdsPty_killThreadGroup k group cur).mp h)

theorem sysExit (hk : PtyInv k) (hspares : Request.exit.SparesPtys k cur) :
    PtyInv (sysExit k cur) := by
  unfold Tasking.sysExit
  dsimp only
  split
  · rename_i hgroup
    exact hk.killAndExit hspares.1 (hspares.2 hgroup)
  · exact hk.exitTask hspares.1

theorem threadExit (hk : PtyInv k) (hspares : Request.threadExit.SparesPtys k cur) :
    PtyInv (threadExit k cur) := by
  unfold Tasking.threadExit
  dsimp only
  split
  · exact hk
  · split
    · rename_i hleader
      exact hk.killAndExit hspares.1 (hspares.2 hleader)
    · exact hk.setState _ _ (fun h => absurd rfl h.2) (fun _ _ => hspares.1) nofun

theorem sysWait4 (hk : PtyInv k) {pid : ℤ} (hspares : (Request.wait4 pid).SparesPtys k cur) :
    PtyInv (sysWait4 k cur pid) := by
  unfold Tasking.sysWait4
  split
  · rename_i i hi
    apply hk.setState
    · exact fun h => absurd rfl h.1
    · exact fun hlive _ => hspares i hi hlive
    · intro _
      have hfound := Fin.eq_true_of_find?_eq_some hi
      simp only [Bool.and_eq_true, decide_eq_true_eq] at hfound
      by_cases hfree : (k.tasks i).state = .free
      · exact Or.inr hfree
      · exact Or.inl ⟨hfree, hfound.1.1⟩
  · exact hk

theorem saveCurrent (hk : PtyInv k) : PtyInv k.saveCurrent := by
  unfold Kernel.saveCurrent
  split
  · rename_i cur _
    split
    · rename_i hrunning
      apply hk.setState
      · exact fun _ => ⟨by simp [hrunning], by simp [hrunning]⟩
      · rintro - (h | h) <;> cases h
      · exact nofun
    · exact hk
  · exact hk

theorem setCurrent (hk : PtyInv k) (current : Option (Fin maxTasks)) :
    PtyInv { k with current := current } := ⟨hk.exact.congr_ptys rfl rfl, hk.bare⟩

theorem saveCurrent_spec (k : Kernel) (t : Fin maxTasks) :
    (k.saveCurrent.tasks t).ring = (k.tasks t).ring ∧
      (HoldsPty k.saveCurrent t ↔ HoldsPty k t) := by
  unfold Kernel.saveCurrent
  split
  · rename_i cur _
    split
    · by_cases ht : t = cur
      · subst ht
        simp [HoldsPty, Kernel.slot, Kernel.setState, Kernel.setTask]
      · simp [HoldsPty, Kernel.slot, Kernel.setState, Kernel.setTask, ht]
    · exact ⟨rfl, Iff.rfl⟩
  · exact ⟨rfl, Iff.rfl⟩

theorem dispatch (hk : PtyInv k) {next : Option (Fin maxTasks)} {killed : Bool}
    (hspares : SparesPtys k (.dispatch next killed)) : PtyInv (dispatch k next killed) := by
  unfold Tasking.dispatch
  dsimp only
  split
  · exact hk.saveCurrent.setCurrent none
  · rename_i t
    split
    · exact hk
    · rename_i hready
      have hready := not_not.mp hready
      have hlive : IsLive (k.saveCurrent.tasks t) := ⟨by simp [hready], by simp [hready]⟩
      obtain ⟨hring, hholds⟩ := saveCurrent_spec k t
      split
      · rename_i hkilled
        have hnone : ¬ HoldsPty k.saveCurrent t := fun h =>
          hspares t rfl hkilled.1 (hring ▸ hkilled.2) (hholds.mp h)
        have hdead := hk.saveCurrent.setState t .dead (fun h => absurd rfl h.2)
          (fun _ _ => hnone) nofun
        exact hdead.setCurrent none
      · have hrun := hk.saveCurrent.setState t .running (fun _ => hlive)
          (fun _ h => by rcases h with h | h <;> cases h) nofun
        exact hrun.setCurrent (some t)

/-! ## The run -/

theorem call (hk : PtyInv k) (hlive : IsLive (k.tasks cur)) {call : Call}
    (hspares : (Request.call call).SparesPtys k cur) : PtyInv (call.outcome k cur).kernel := by
  apply hk.of_fdsOnly (FdsOnly.call k cur call) hlive
  have hcur := mem_liveTasks.mpr hlive
  cases call with
  | «open» index node => exact hk.exact.sysOpen index node
  | pipe => exact hk.exact.sysPipe
  | openpty => exact hk.exact.sysOpenpty hcur
  | socket => exact hk.exact.netSocket hspares
  | dup2 oldfd newfd => exact hk.exact.sysDup2 hcur oldfd hspares

theorem request (hk : PtyInv k) (hcur : k.current = some cur)
    (hrunning : (k.tasks cur).state = .running) {request : Request}
    (hspares : request.SparesPtys k cur) : PtyInv (request.apply k cur) := by
  have hlive : IsLive (k.tasks cur) := ⟨by simp [hrunning], by simp [hrunning]⟩
  have hmem := mem_liveTasks.mpr hlive
  cases request with
  | call call => exact hk.call hlive hspares
  | close fd => exact hk.of_fdsOnly (.sysClose k cur fd) hlive (hk.exact.sysClose hmem fd)
  | netClose s => exact hk.of_fdsOnly (.netClose cur k s) hlive (hk.exact.netClose s)
  | fcntl fd arg =>
      exact hk.of_fdsOnly (.fcntlSetFl k cur fd arg) hlive (hk.exact.fcntlSetFl fd arg)
  | spawn redir outcome => exact hk.spawnRedir hcur hspares
  | fork copied => exact hk.sysFork hlive copied
  | thread allocated => exact hk.createUserThread cur allocated
  | exit => exact hk.sysExit hspares
  | threadExit => exact hk.threadExit hspares
  | fault => exact hk.exitTask hspares
  | wait4 pid => exact hk.sysWait4 hspares
  | sleep =>
      apply hk.setState
      · exact fun _ => hlive
      · rintro - (h | h) <;> cases h
      · exact nofun

theorem apply (hk : PtyInv k) {event : Event} (hspares : SparesPtys k event) :
    PtyInv (event.apply k) := by
  cases event with
  | request request =>
      simp only [Event.apply]
      split
      · rename_i cur hcur
        split
        · rename_i hrunning
          exact hk.request hcur hrunning (hspares cur hcur)
        · exact hk
      · exact hk
  | create ring allocated => exact hk.createTask ring allocated
  | kill group => exact hk.killThreadGroup hspares
  | wake t =>
      simp only [Event.apply]
      split
      · rename_i hsleeping
        apply hk.setState
        · exact fun _ => ⟨by simp [hsleeping], by simp [hsleeping]⟩
        · rintro - (h | h) <;> cases h
        · intro h
          cases h
      · exact hk
  | dispatch next killed => exact hk.dispatch hspares
  | neutralize t =>
      simp only [Event.apply]
      split
      · apply hk.setState _ _ (fun h => absurd rfl h.2) (fun _ _ => hspares)
        intro h
        cases h
      · exact hk

end PtyInv

/-- In every run from the start of tasking whose steps spare the ptys, the counts are exact
throughout. -/
theorem ptysExact_always {run : List (Event × Kernel)}
    (hrun : Along KernelStep initTasking run)
    (hspares : Along (fun k event _ => SparesPtys k event) initTasking run) :
    Always PtysExact initTasking run := by
  have hinv : Always PtyInv initTasking run := by
    refine always_of_guarded PtyInv ?_ ptyInv_initTasking hrun hspares
    rintro k event next hk hspare rfl
    exact hk.apply hspare
  exact hinv.mono fun k hk => ptysExact_iff.mpr hk.exact

/-- A process opens a pty, forks, and closes the master. -/
def openptyAndFork : List Event :=
  [.create .ring3 true, .dispatch (some firstProcess) false, .request (.call .openpty),
    .request (.fork true), .request (.close 3)]

theorem openptyAndFork_ptysExact :
    Always PtysExact initTasking (runOf initTasking openptyAndFork) := by
  refine ptysExact_always (along_runOf _ _)
    ⟨trivial, ?_, fun _ _ => trivial, fun _ _ => trivial, fun _ _ => trivial, trivial⟩
  exact fun t _ hkilled => (nomatch hkilled)

/-- A process opens a pty and exits. -/
def openptyAndExit : List Event :=
  [.create .ring3 true, .dispatch (some firstProcess) false, .request (.call .openpty),
    .request .exit]

set_option maxRecDepth 4000 in
theorem openptyAndExit_not_ptysExact :
    ∃ run, Along KernelStep initTasking run ∧ ¬ Always PtysExact initTasking run := by
  refine ⟨runOf initTasking openptyAndExit, along_runOf _ _, ?_⟩
  intro h
  have hrefs := (ptysExact_iff.mp h.final).refs ⟨0, by decide⟩ true
  rw [tally_eq_zero] at hrefs
  · exact absurd hrefs (by decide +kernel)
  · have hnone : ∀ t, IsLive ((final initTasking (runOf initTasking openptyAndExit)).tasks t) →
        ∀ fd, ((final initTasking (runOf initTasking openptyAndExit)).slot t fd).type ≠
          .pty := by
      decide +kernel
    rintro ⟨t, fd⟩ he hend
    exact hnone t (mem_liveTasks.mp (Finset.mem_product.mp he).1) fd hend.1

end EigenOS.Tasking
