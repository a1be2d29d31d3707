import Mathlib.Algebra.Group.Nat.Defs
import Mathlib.Data.List.Basic

/-!
# The user heap

One block list serves every process.  A block is a range of user addresses with the id of
the task that allocated it; the pages behind it are mapped in the address space of the
caller, from frames that `pmm_alloc` pops off its stack.
-/

namespace EigenOS.Memory

open Function

def pageSize : ℕ := 4096
def userHeapBase : ℕ := 0x20000000
def userHeapLimit : ℕ := userHeapBase + 256 * 1024 * 1024

/-- The first page number that is no canonical user address. -/
def canonicalPages : ℕ := 2 ^ 35

/-- `user_blk_t`.  The list links are the order of the list. -/
structure UserBlk where
  base : ℕ
  npages : ℕ
  free : Bool
  owner : ℕ
  deriving DecidableEq

/-- The address after a block. -/
def UserBlk.limit (b : UserBlk) : ℕ := b.base + b.npages * pageSize

/-! ## The block list -/

/-- `user_blk_new`: a block goes before the first one that does not start below it. -/
def userBlkNew (blocks : List UserBlk) (b : UserBlk) : List UserBlk :=
  match blocks with
  | [] => [b]
  | cur :: rest => if cur.base < b.base then cur :: userBlkNew rest b else b :: cur :: rest

/-- The list around a block: the blocks before it, last one first, and those after it. -/
structure Focus where
  before : List UserBlk
  blk : UserBlk
  after : List UserBlk

def Focus.blocks (focus : Focus) : List UserBlk :=
  focus.before.reverse ++ focus.blk :: focus.after

def coalescePrev (focus : Focus) : Focus :=
  match focus.before with
  | [] => focus
  | p :: before =>
      if p.free = true ∧ p.limit = focus.blk.base then
        { before, blk := { p with npages := p.npages + focus.blk.npages }
          after := focus.after }
      else focus

def coalesceNext (focus : Focus) : Focus :=
  match focus.after with
  | [] => focus
  | n :: after =>
      if n.free = true ∧ focus.blk.limit = n.base then
        { before := focus.before
          blk := { focus.blk with npages := focus.blk.npages + n.npages }, after }
      else focus

/-- `user_blk_coalesce`. -/
def userBlkCoalesce (focus : Focus) : Focus := coalesceNext (coalescePrev focus)

/-- The first block of a list with a property. -/
def findBlock (p : UserBlk → Bool) : List UserBlk → List UserBlk → Option Focus
  | _, [] => none
  | before, b :: after =>
      if p b then some { before, blk := b, after } else findBlock p (b :: before) after

theorem length_userBlkCoalesce (focus : Focus) :
    (userBlkCoalesce focus).after.length ≤ focus.after.length := by
  have hprev : (coalescePrev focus).after = focus.after := by
    unfold coalescePrev
    split
    · rfl
    · split <;> rfl
  unfold userBlkCoalesce coalesceNext
  rw [hprev]
  split
  · exact hprev.symm ▸ Nat.le_refl _
  · rename_i n after hafter
    split
    · rw [hafter]
      exact Nat.le_succ _
    · exact hprev.symm ▸ Nat.le_refl _

/-- `user_heap_release_owner`.  A block that is merged away keeps its link to the next one
until its descriptor is allocated again, so the loop goes on behind it. -/
def releaseFrom (owner : ℕ) (before : List UserBlk) : List UserBlk → List UserBlk
  | [] => before.reverse
  | b :: after =>
      if b.free = false ∧ b.owner = owner then
        let focus :=
          userBlkCoalesce { before, blk := { b with free := true, owner := 0 }, after }
        releaseFrom owner (focus.blk :: focus.before) focus.after
      else releaseFrom owner (b :: before) after
  termination_by after => after.length
  decreasing_by
  · have hlength := length_userBlkCoalesce
      { before, blk := { b with free := true, owner := 0 }, after }
    simp only [List.length_cons]
    exact Nat.lt_succ_of_le hlength
  · simp

/-! ## Pages and frames -/

/-- An address space: the frame behind each page, 0 for none. -/
abbrev AddressSpace := ℕ → ℕ

/-- `pmm_alloc`: 0 is a failure, also when it is the frame on top of the stack. -/
def pmmAlloc : List ℕ → ℕ × List ℕ
  | [] => (0, [])
  | frame :: rest => (frame, rest)

inductive MapOutcome where
  | mapped
  | outOfFrames
  | fault
  deriving DecidableEq

/-- How `vmm_map_range` fares with a page: the frames it takes for page tables, and whether
the page can be zeroed through its new mapping. -/
abbrev Walk := ℕ → ℕ × Bool

/-- `user_map_pages` for `npages` pages from `page` on.  Zeroing a page that could not be
mapped, or a page outside the canonical addresses, faults. -/
def userMapPages (walk : Walk) : ℕ → ℕ → AddressSpace → List ℕ →
    MapOutcome × AddressSpace × List ℕ
  | 0, _, space, free => (.mapped, space, free)
  | npages + 1, page, space, free =>
      if (pmmAlloc free).1 = 0 then (.outOfFrames, space, (pmmAlloc free).2)
      else if (walk page).2 = true ∧ page < canonicalPages then
        userMapPages walk npages (page + 1)
          (update space page (pmmAlloc free).1)
          ((pmmAlloc free).2.drop (walk page).1)
      else (.fault, space, (pmmAlloc free).2.drop (walk page).1)

/-- The loop of `k_sys_free_user` that gives the frames of `npages` pages back. -/
def unmapPages : ℕ → ℕ → AddressSpace → List ℕ → AddressSpace × List ℕ
  | 0, _, space, free => (space, free)
  | npages + 1, page, space, free =>
      unmapPages npages (page + 1) (update space page 0)
        (if space page = 0 then free else space page :: free)

/-! ## The machine -/

/-- A task: the process it is a thread of, and the address space it runs in. -/
structure Task where
  process : ℕ
  space : ℕ
  alive : Bool
  deriving DecidableEq

/-- Tasks are numbered from 1 in the order of their creation.  A process has the number of
its first task, and a fresh address space that of the task it is made for; address space 0
is the kernel's. -/
structure Machine where
  blocks : List UserBlk
  heapCur : ℕ
  spaces : ℕ → AddressSpace
  free : List ℕ
  tasks : ℕ → Option Task
  nextId : ℕ

/-- Before the first task, with the frames of the memory map on the stack. -/
def boot (free : List ℕ) : Machine where
  blocks := []
  heapCur := userHeapBase
  spaces := fun _ _ => 0
  free
  tasks := fun _ => none
  nextId := 1

inductive AllocReply where
  | null
  | error
  | block (base : ℕ)
  | fault
  deriving DecidableEq

/-- The pages a request is rounded up to, in 64-bit arithmetic. -/
def requestPages (size : ℕ) : ℕ := max 1 ((size + 4095) % 2 ^ 64 / pageSize)

/-- The list after the block in focus is cut to `npages` pages and taken by a task.  The
rest becomes a free block if its descriptor can be allocated. -/
def takeBlock (focus : Focus) (npages owner : ℕ) (kmalloc free : Bool) : List UserBlk :=
  let blocks :=
    { focus with blk := { focus.blk with npages := npages, free := free, owner := owner } }
  if npages < focus.blk.npages ∧ kmalloc = true then
    userBlkNew blocks.blocks
      { base := focus.blk.base + npages * pageSize, npages := focus.blk.npages - npages
        free := true, owner := 0 }
  else blocks.blocks

/-- `k_sys_alloc_user` for a task that runs in a given address space. -/
def allocUser (m : Machine) (task space size : ℕ) (kmalloc : Bool) (walk : Walk) :
    Machine × AllocReply :=
  if size = 0 then (m, .null)
  else
    let npages := requestPages size
    match findBlock (fun b => b.free && decide (npages ≤ b.npages)) [] m.blocks with
    | some focus =>
        match userMapPages walk npages (focus.blk.base / pageSize) (m.spaces space)
            m.free with
        | (.mapped, pages, free) =>
            ({ m with
                blocks := takeBlock focus npages task kmalloc false
                spaces := update m.spaces space pages, free },
              .block focus.blk.base)
        | (.outOfFrames, pages, free) =>
            ({ m with
                blocks := takeBlock focus npages task kmalloc true
                spaces := update m.spaces space pages, free }, .error)
        | (.fault, pages, free) =>
            ({ m with
                blocks := takeBlock focus npages task kmalloc false
                spaces := update m.spaces space pages, free }, .fault)
    | none =>
        if userHeapLimit < (m.heapCur + npages * pageSize) % 2 ^ 64 then (m, .error)
        else
          match userMapPages walk npages (m.heapCur / pageSize) (m.spaces space)
              m.free with
          | (.mapped, pages, free) =>
              ({ m with
                  blocks :=
                    if kmalloc then
                      userBlkNew m.blocks
                        { base := m.heapCur, npages, free := false, owner := task }
                    else m.blocks
                  heapCur := (m.heapCur + npages * pageSize) % 2 ^ 64
                  spaces := update m.spaces space pages, free },
                .block m.heapCur)
          | (.outOfFrames, pages, free) =>
              ({ m with spaces := update m.spaces space pages, free }, .error)
          | (.fault, pages, free) =>
              ({ m with spaces := update m.spaces space pages, free }, .fault)

/-- The reply once the pages of a block are mapped, or not. -/
def MapOutcome.reply (base : ℕ) : MapOutcome → AllocReply
  | .mapped => .block base
  | .outOfFrames => .error
  | .fault => .fault

/-- The machine with a new block at the mark, if its pages are mapped. -/
def Machine.grown (m : Machine) (npages owner : ℕ) (kmalloc : Bool) : MapOutcome → Machine
  | .mapped =>
      { m with
        blocks :=
          if kmalloc then userBlkNew m.blocks { base := m.heapCur, npages, free := false, owner }
          else m.blocks
        heapCur := (m.heapCur + npages * pageSize) % 2 ^ 64 }
  | .outOfFrames | .fault => m

/-- The ways a request can go. -/
inductive Allocated (m : Machine) (task space size : ℕ) (kmalloc : Bool) (walk : Walk) :
    Machine × AllocReply → Prop where
  | null (hsize : size = 0) : Allocated m task space size kmalloc walk (m, .null)
  | full (hsize : size ≠ 0)
      (hfind : findBlock (fun b => b.free && decide (requestPages size ≤ b.npages)) [] m.blocks =
        none)
      (hlimit : userHeapLimit < (m.heapCur + requestPages size * pageSize) % 2 ^ 64) :
      Allocated m task space size kmalloc walk (m, .error)
  | reuse (hsize : size ≠ 0) {focus : Focus}
      (hfind : findBlock (fun b => b.free && decide (requestPages size ≤ b.npages)) [] m.blocks =
        some focus)
      {outcome : MapOutcome} {pages : AddressSpace} {free : List ℕ}
      (hmap : userMapPages walk (requestPages size) (focus.blk.base / pageSize) (m.spaces space)
        m.free = (outcome, pages, free)) :
      Allocated m task space size kmalloc walk
        ({ m with
            blocks := takeBlock focus (requestPages size) task kmalloc (outcome = .outOfFrames)
            spaces := update m.spaces space pages, free },
          outcome.reply focus.blk.base)
  | grow (hsize : size ≠ 0)
      (hfind : findBlock (fun b => b.free && decide (requestPages size ≤ b.npages)) [] m.blocks =
        none)
      (hlimit : ¬ userHeapLimit < (m.heapCur + requestPages size * pageSize) % 2 ^ 64)
      {outcome : MapOutcome} {pages : AddressSpace} {free : List ℕ}
      (hmap : userMapPages walk (requestPages size) (m.heapCur / pageSize) (m.spaces space)
        m.free = (outcome, pages, free)) :
      Allocated m task space size kmalloc walk
        ({ m.grown (requestPages size) task kmalloc outcome with
            spaces := update m.spaces space pages, free },
          outcome.reply m.heapCur)

theorem allocUser_allocated (m : Machine) (task space size : ℕ) (kmalloc : Bool) (walk : Walk) :
    Allocated m task space size kmalloc walk (allocUser m task space size kmalloc walk) := by
  rw [allocUser]
  by_cases hsize : size = 0
  · rw [if_pos hsize]
    exact .null hsize
  rw [if_neg hsize]
  dsimp only
  cases hfind : findBlock (fun b => b.free && decide (requestPages size ≤ b.npages)) []
      m.blocks with
  | some focus =>
      dsimp only
      split <;> exact .reuse hsize hfind ‹_›
  | none =>
      dsimp only
      split
      · exact .full hsize hfind ‹_›
      · rename_i hlimit
        split <;> exact .grow hsize hfind hlimit ‹_›

/-- `k_sys_free_user` for a task that runs in a given address space. -/
def freeUser (m : Machine) (space ptr : ℕ) : Machine :=
  if ptr < userHeapBase ∨ userHeapLimit ≤ ptr then m
  else
    match findBlock (fun b => decide (b.base = ptr)) [] m.blocks with
    | none => m
    | some focus =>
        if focus.blk.free then m
        else
          let unmapped :=
            unmapPages focus.blk.npages (focus.blk.base / pageSize) (m.spaces space) m.free
          { m with
            blocks :=
              (userBlkCoalesce
                { focus with blk := { focus.blk with free := true } }).blocks
            spaces := update m.spaces space unmapped.1
            free := unmapped.2 }

/-- `user_heap_release_owner`. -/
def userHeapReleaseOwner (m : Machine) (owner : ℕ) : Machine :=
  if owner = 0 then m else { m with blocks := releaseFrom owner [] m.blocks }

/-- The tasks after some of them died. -/
def killTasks (m : Machine) (dies : ℕ → Task → Bool) : Machine :=
  { m with
    tasks := fun id =>
      (m.tasks id).map fun task => if dies id task then { task with alive := false } else task }

/-- `exit_task`: the blocks of the task itself are released, and the task is dead. -/
def exitTask (m : Machine) (id : ℕ) : Machine :=
  killTasks (userHeapReleaseOwner m id) fun other _ => decide (other = id)

/-- A new task under the next id. -/
def addTask (m : Machine) (task : Task) : Machine :=
  { m with tasks := update m.tasks m.nextId (some task), nextId := m.nextId + 1 }

/-- What a running task does to the heap. -/
inductive Action where
  | createUserThread (taken : ℕ)
  /-- The child gets copies of all pages of its parent, in frames off the stack. -/
  | fork (taken : ℕ) (copies : ℕ → ℕ)
  | alloc (size : ℕ) (kmalloc : Bool) (walk : Walk)
  | free (ptr : ℕ)
  /-- `k_sys_exit`, or `thread_exit_task` by the first thread. -/
  | exit
  /-- `thread_exit_task` by another thread, or a fatal signal.  The frames of its stack and of
  its TLS page, in which no block lies, stay off the stack here. -/
  | threadExit
  /-- A fault in user mode. -/
  | fault

def Action.run (m : Machine) (caller : ℕ) (task : Task) : Action → Machine
  | .createUserThread taken => addTask { m with free := m.free.drop taken } task
  | .fork taken copies =>
      addTask
        { m with
          spaces := update m.spaces m.nextId fun page =>
            if m.spaces task.space page = 0 then 0
            else (m.free.take taken).getD (copies page) 0
          free := m.free.drop taken }
        { process := m.nextId, space := m.nextId, alive := true }
  | .alloc size kmalloc walk =>
      match allocUser m caller task.space size kmalloc walk with
      | (m, .fault) => exitTask m caller
      | (m, _) => m
  | .free ptr => freeUser m task.space ptr
  | .exit =>
      killTasks (userHeapReleaseOwner m caller) fun _ other =>
        decide (other.process = task.process)
  | .threadExit => killTasks m fun other _ => decide (other = caller)
  | .fault => exitTask m caller

inductive HeapEvent where
  /-- A process with an empty address space of its own. -/
  | spawn (taken : ℕ)
  /-- A process in the kernel's address space. -/
  | createUserProcess
  | act (caller : ℕ) (action : Action)

def HeapEvent.run (m : Machine) : HeapEvent → Machine
  | .spawn taken =>
      addTask
        { m with
          spaces := update m.spaces m.nextId fun _ => 0, free := m.free.drop taken }
        { process := m.nextId, space := m.nextId, alive := true }
  | .createUserProcess => addTask m { process := m.nextId, space := 0, alive := true }
  | .act caller action =>
      match m.tasks caller with
      | some task => if task.alive then action.run m caller task else m
      | none => m

end EigenOS.Memory
