import Mathlib.Data.UInt
import EigenOS.Pthread.Mutex
import EigenOS.Pthread.RecursiveMutex

/-!
# The read-write lock of the pthread library

Two flags and a count behind an internal mutex, with a condition variable for readers and one for
writers.  The threads take turns at every read and write, and the internal mutex takes its own
steps.
-/

namespace EigenOS.Pthread

/-- What an unlock tells the threads that wait. -/
inductive Notice where
  | broadcastWrite
  | broadcastRead
  | signalWrite
  deriving DecidableEq

/-- `true` is `read_ok`, `false` is `write_ok`. -/
def Notice.cond : Notice → Bool
  | .broadcastRead => true
  | .broadcastWrite | .signalWrite => false

/-- How many threads are woken; a broadcast wakes `TLS_MAX_KEYS`. -/
def Notice.most : Notice → ℕ
  | .signalWrite => 1
  | .broadcastRead | .broadcastWrite => 64

/-- Where a thread is in an operation. -/
inductive RwPc where
  | outside
  /-- In `pthread_mutex_lock` of a rdlock, before the tests, before the sum. -/
  | rdLock
  | rdWriter
  | rdWaiting
  | rdLoad
  | rdStore (readers : ℤ)
  /-- In `pthread_mutex_lock` of a wrlock, before the tests, before the stores. -/
  | wrLock
  | wrSetWaiting
  | wrWriter
  | wrReaders
  | wrClearWaiting
  | wrSetWriter
  /-- In `pthread_cond_wait`, on `read_ok` or `write_ok`. -/
  | condLoad (cond : Bool)
  | condUnlock (cond : Bool) (seq : UInt32)
  | condWait (cond : Bool) (seq : UInt32)
  | condAsleep (cond : Bool) (seq : UInt32)
  | condLock (cond : Bool) (seq : UInt32)
  | condCheck (cond : Bool) (seq : UInt32)
  /-- In a tryrdlock or a trywrlock. -/
  | tryLock (write : Bool)
  | tryWriter (write : Bool)
  | tryOther (write : Bool)
  | tryLoad
  | tryStore (readers : ℤ)
  | trySetWriter
  /-- In `pthread_mutex_unlock` at the end of a try, with what is returned: 0 or not. -/
  | tryUnlock (ok : Bool)
  /-- In an unlock. -/
  | unLock
  | unWriter
  | unClear
  | unReaders
  | unLoad
  | unStore (readers : ℤ)
  | unTest
  | noticeAdd (notice : Notice)
  | noticeWake (notice : Notice)
  /-- In `pthread_mutex_unlock` at the end of a rdlock, a wrlock or an unlock. -/
  | leaving
  deriving DecidableEq

/-- The fields that the internal mutex guards, and the locks that the threads have: a thread is in
a list as often as it has taken the lock and not given it back. -/
structure RwData (Thread : Type*) where
  writer : Bool
  writerWaiting : Bool
  readers : ℤ
  reading : List Thread
  writing : List Thread

/-- `pthread_rwlock_t` with the threads that use it. -/
structure RwState (Thread : Type*) where
  mutex : MutexState Thread
  /-- The `seq` of `read_ok` and of `write_ok`. -/
  seq : Bool → UInt32
  data : RwData Thread
  pc : Thread → RwPc

/-- `pthread_rwlock_init`. -/
def RwState.initial (Thread : Type*) : RwState Thread where
  mutex := MutexState.initial Thread
  seq _ := 0
  data := ⟨false, false, 0, [], []⟩
  pc _ := .outside

inductive RwCall where
  | rdlock
  | tryrdlock
  | wrlock
  | trywrlock
  | unlock

section Steps

variable {Thread : Type*} [DecidableEq Thread]

def RwData.addReader (d : RwData Thread) (t : Thread) (readers : ℤ) : RwData Thread :=
  { d with readers := wrapInt (readers + 1), reading := t :: d.reading }

def RwData.removeReader (d : RwData Thread) (t : Thread) (readers : ℤ) : RwData Thread :=
  { d with readers := wrapInt (readers - 1), reading := d.reading.erase t }

def RwData.setWriter (d : RwData Thread) (t : Thread) : RwData Thread :=
  { d with writer := true, writing := t :: d.writing }

def RwData.clearWriter (d : RwData Thread) (t : Thread) : RwData Thread :=
  { d with writer := false, writing := d.writing.erase t }

def RwState.goTo (s : RwState Thread) (t : Thread) (pc : RwPc) : RwState Thread :=
  { s with pc := Function.update s.pc t pc }

def RwState.store (s : RwState Thread) (data : RwData Thread) : RwState Thread :=
  { s with data := data }

/-- The thread calls `pthread_mutex_lock`. -/
def RwState.lockMutex (s : RwState Thread) (t : Thread) (pc : RwPc) : RwState Thread :=
  { s with mutex := s.mutex.goTo t .lockExchange }.goTo t pc

/-- The thread calls `pthread_mutex_unlock`. -/
def RwState.unlockMutex (s : RwState Thread) (t : Thread) (pc : RwPc) : RwState Thread :=
  { s with mutex := s.mutex.goTo t .unlockStore }.goTo t pc

/-- The next step of a thread outside the functions of the mutex. -/
def RwState.step (s : RwState Thread) (t : Thread) : RwState Thread :=
  match s.pc t with
  | .rdLock => s.goTo t .rdWriter
  | .rdWriter => s.goTo t (if s.data.writer then .condLoad true else .rdWaiting)
  | .rdWaiting => s.goTo t (if s.data.writerWaiting then .condLoad true else .rdLoad)
  | .rdLoad => s.goTo t (.rdStore s.data.readers)
  | .rdStore readers => (s.store (s.data.addReader t readers)).unlockMutex t .leaving
  | .wrLock => s.goTo t .wrSetWaiting
  | .wrSetWaiting => (s.store { s.data with writerWaiting := true }).goTo t .wrWriter
  | .wrWriter => s.goTo t (if s.data.writer then .condLoad false else .wrReaders)
  | .wrReaders => s.goTo t (if 0 < s.data.readers then .condLoad false else .wrClearWaiting)
  | .wrClearWaiting => (s.store { s.data with writerWaiting := false }).goTo t .wrSetWriter
  | .wrSetWriter => (s.store (s.data.setWriter t)).unlockMutex t .leaving
  | .condLoad cond => s.unlockMutex t (.condUnlock cond (s.seq cond))
  | .condUnlock cond seq => s.goTo t (.condWait cond seq)
  | .condWait cond seq =>
      if s.seq cond = seq then s.goTo t (.condAsleep cond seq)
      else s.lockMutex t (.condLock cond seq)
  | .condLock cond seq => s.goTo t (.condCheck cond seq)
  | .condCheck cond seq =>
      s.goTo t (if s.seq cond = seq then .condLoad cond else if cond then .rdWriter else .wrWriter)
  | .tryLock write =>
      { s with mutex := s.mutex.trylockExchange t }.goTo t
        (if s.mutex.locked = 0 then .outside else .tryWriter write)
  | .tryWriter write =>
      if s.data.writer then s.unlockMutex t (.tryUnlock false) else s.goTo t (.tryOther write)
  | .tryOther write =>
      if (if write then decide (0 < s.data.readers) else s.data.writerWaiting) then
        s.unlockMutex t (.tryUnlock false)
      else s.goTo t (if write then .trySetWriter else .tryLoad)
  | .tryLoad => s.goTo t (.tryStore s.data.readers)
  | .tryStore readers => (s.store (s.data.addReader t readers)).unlockMutex t (.tryUnlock true)
  | .trySetWriter => (s.store (s.data.setWriter t)).unlockMutex t (.tryUnlock true)
  | .unLock => s.goTo t .unWriter
  | .unWriter => s.goTo t (if s.data.writer then .unClear else .unReaders)
  | .unClear => (s.store (s.data.clearWriter t)).goTo t (.noticeAdd .broadcastWrite)
  | .unReaders => if 0 < s.data.readers then s.goTo t .unLoad else s.unlockMutex t .leaving
  | .unLoad => s.goTo t (.unStore s.data.readers)
  | .unStore readers => (s.store (s.data.removeReader t readers)).goTo t .unTest
  | .unTest =>
      if s.data.readers = 0 then s.goTo t (.noticeAdd .signalWrite) else s.unlockMutex t .leaving
  | .noticeAdd notice =>
      { s with seq := Function.update s.seq notice.cond (s.seq notice.cond + 1) }.goTo t
        (.noticeWake notice)
  | .tryUnlock _ | .leaving => s.goTo t .outside
  | .outside | .condAsleep _ _ | .noticeWake _ => s

/-- A sleeper is woken and locks the mutex again. -/
def RwState.wake (s : RwState Thread) (u : Thread) : RwState Thread :=
  match s.pc u with
  | .condAsleep cond seq => s.lockMutex u (.condLock cond seq)
  | _ => s

/-- A broadcast to the writers is followed by one to the readers. -/
def RwState.noticed (s : RwState Thread) (t : Thread) : Notice → RwState Thread
  | .broadcastWrite => s.goTo t (.noticeAdd .broadcastRead)
  | .broadcastRead | .signalWrite => s.unlockMutex t .leaving

inductive RwAction (Thread : Type*) where
  | call (t : Thread) (call : RwCall)
  | step (t : Thread)
  /-- A step inside a function of the mutex. -/
  | mutexStep (t : Thread)
  /-- The wake of `pthread_mutex_unlock` and the thread it wakes. -/
  | mutexWake (t : Thread) (woken : Option Thread)
  /-- The wake of a condition variable and the threads it wakes. -/
  | condWake (t : Thread) (notice : Notice) (woken : List Thread)

def RwAction.run (s : RwState Thread) : RwAction Thread → RwState Thread
  | .call t .rdlock => s.lockMutex t .rdLock
  | .call t .wrlock => s.lockMutex t .wrLock
  | .call t .unlock => s.lockMutex t .unLock
  | .call t .tryrdlock => s.goTo t (.tryLock false)
  | .call t .trywrlock => s.goTo t (.tryLock true)
  | .step t => s.step t
  | .mutexStep t => { s with mutex := s.mutex.step t }
  | .mutexWake t woken => { s with mutex := (MutexAction.wake t woken).run s.mutex }
  | .condWake t notice woken => (woken.foldl RwState.wake s).noticed t notice

/-- The thread sleeps on a condition variable. -/
def RwPc.AsleepOn (cond : Bool) : RwPc → Prop
  | .condAsleep cond' _ => cond' = cond
  | _ => False

/-- When a thread can act.  Unlocks match: only a thread that has a lock calls unlock. -/
def RwAction.Enabled (s : RwState Thread) : RwAction Thread → Prop
  | .call t .unlock => s.pc t = .outside ∧ (t ∈ s.data.reading ∨ t ∈ s.data.writing)
  | .call t _ => s.pc t = .outside
  | .step t => s.mutex.pc t = .outside ∧ s.pc t ≠ .outside ∧
      (∀ cond seq, s.pc t ≠ .condAsleep cond seq) ∧ ∀ notice, s.pc t ≠ .noticeWake notice
  | .mutexStep t => (MutexAction.step t).Enabled s.mutex
  | .mutexWake t woken => (MutexAction.wake t woken).Enabled s.mutex
  | .condWake t notice woken => s.mutex.pc t = .outside ∧ s.pc t = .noticeWake notice ∧
      woken.Nodup ∧ (∀ u ∈ woken, (s.pc u).AsleepOn notice.cond) ∧ woken.length ≤ notice.most ∧
        (woken.length < notice.most → ∀ u, (s.pc u).AsleepOn notice.cond → u ∈ woken)

def RwStep (s : RwState Thread) (action : RwAction Thread) (next : RwState Thread) : Prop :=
  action.Enabled s ∧ next = action.run s

/-- A try comes to its end in the step, and returns 0 or not. -/
def RwState.tryReturns (s : RwState Thread) (t : Thread) : Option Bool :=
  match s.pc t with
  | .tryLock _ => if s.mutex.locked = 0 then some false else none
  | .tryUnlock ok => some ok
  | _ => none

/-- The thread is in a tryrdlock or a trywrlock. -/
def RwPc.Trying : RwPc → Prop
  | .tryLock _ | .tryWriter _ | .tryOther _ | .tryLoad | .tryStore _ | .trySetWriter
  | .tryUnlock _ => True
  | _ => False

/-- A try writes to the lock only on its way to return 0.  When it fails it does not leave the
internal mutex taken, and when it succeeds the thread has the lock. -/
structure TriesRightly (s : RwState Thread) (action : RwAction Thread) (next : RwState Thread) :
    Prop where
  writes : ∀ t, action = .step t → (s.pc t).Trying → next.data ≠ s.data →
    next.pc t = .tryUnlock true
  fails : ∀ t, action = .step t → s.tryReturns t = some false → next.mutex.holds t = false
  succeeds : ∀ t, action = .step t → s.tryReturns t = some true →
    t ∈ s.data.reading ∨ t ∈ s.data.writing

end Steps

variable {Thread : Type*}

/-- A writer is alone: there is no other, and no reader. -/
structure RwExclusive (s : RwState Thread) : Prop where
  writers : s.data.writing.length ≤ 1
  readers : s.data.writing ≠ [] → s.data.reading = []

/-- The internal mutex is free while no operation is in progress. -/
def MutexFree (s : RwState Thread) : Prop := (∀ t, s.pc t = .outside) → s.mutex.locked = 0

end EigenOS.Pthread
