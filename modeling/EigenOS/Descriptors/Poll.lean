import EigenOS.Descriptors.Readiness

/-!
# Waiting for descriptors

`k_sys_poll`, and the monitors of `k_sys_epoll`.  A wait looks at the descriptors again and
again: it ends at the first look that finds something ready, or when its time is up.
-/

namespace EigenOS.Descriptors

open EigenOS.Tasking (maxFds)

def eNoEnt : ℤ := 2
def eBadF : ℤ := 9
def eExist : ℤ := 17
def eInval : ℤ := 22
def eNFile : ℤ := 23
def eNoSpc : ℤ := 28

/-- The first look that is enough, and what it found; `none` still waits. -/
def waitLoop {Look Found : Type*} (scan : Look → Found) (enough : Look → Found → Bool) :
    List Look → Option (Look × Found)
  | [] => none
  | look :: rest =>
      if enough look (scan look) then some (look, scan look) else waitLoop scan enough rest

theorem scan_of_waitLoop {Look Found : Type*} {scan : Look → Found}
    {enough : Look → Found → Bool} {looks : List Look} {look : Look} {found : Found}
    (h : waitLoop scan enough looks = some (look, found)) : look ∈ looks ∧ found = scan look := by
  induction looks with
  | nil => cases h
  | cons head rest ih =>
      rw [waitLoop] at h
      by_cases henough : enough head (scan head) = true
      · rw [if_pos henough, Option.some.injEq, Prod.mk.injEq] at h
        rw [← h.1, h.2.symm]
        exact ⟨List.mem_cons_self, rfl⟩
      · rw [if_neg henough] at h
        exact ⟨List.mem_cons_of_mem head (ih h).1, (ih h).2⟩

/-! ## poll -/

def eigenPollMaxFd : ℕ := 256

/-- `struct eigen_pollfd`, as it is asked. -/
structure PollFd where
  fd : ℤ
  events : BitVec 16

/-- One pass over the descriptors, and whether the time is up after it. -/
structure PollLook where
  io : Io
  timeUp : Bool

/-- What is reported of a descriptor that is there. -/
def pollReported (io : Io) (p : PollFd) : Events :=
  (fdPollRevents io p.fd &&& p.events.signExtend 32) |||
    (fdPollRevents io p.fd &&& (pollErr ||| pollHup))

def pollRevents (io : Io) (p : PollFd) : BitVec 16 :=
  if p.fd < 0 then 0
  else if fdPollRevents io p.fd = pollNval then pollNval.setWidth 16
  else if pollReported io p ≠ 0 then (pollReported io p).setWidth 16
  else 0

/-- Whether a descriptor is counted. -/
def pollCounted (io : Io) (p : PollFd) : Bool :=
  decide (0 ≤ p.fd) && (fdPollRevents io p.fd = pollNval || pollReported io p ≠ 0)

/-- The result of `k_sys_poll`, and the `revents` that it stores; `none` still waits. -/
def kSysPoll (fdsU : ℕ) (fds : List PollFd) (looks : List PollLook) :
    Option (ℤ × List (BitVec 16)) :=
  if eigenPollMaxFd < fds.length then some (-eInval, [])
  else if fds ≠ [] ∧ fdsU = 0 then some (-eInval, [])
  else
    (waitLoop (fun look => fds.countP (pollCounted look.io))
      (fun look ready => ready ≠ 0 || look.timeUp) looks).map fun (look, ready) =>
        (ready, fds.map (pollRevents look.io))

/-! ## epoll -/

def eigenEpollMaxMon : ℕ := 32
def eigenEpollMaxEnt : ℕ := 64

/-- What is asked about a descriptor. -/
structure Request where
  events : Events
  data : BitVec 64

structure Entry where
  fd : ℤ
  request : Request

/-- `eigen_epoll_mon_t`. -/
structure Monitor where
  used : Bool
  ownerGroup : ℤ
  entries : List Entry

abbrev Monitors := Fin eigenEpollMaxMon → Monitor

/-- The current task. -/
structure Current where
  id : ℤ
  group : ℤ

def Current.own (cur : Current) : ℤ := if 0 < cur.group then cur.group else cur.id

/-- `epoll_find_entry`. -/
def epollFindEntry (monitor : Monitor) (fd : ℤ) : Option ℕ :=
  monitor.entries.findIdx? fun entry => entry.fd = fd

def epollCreate (monitors : Monitors) (cur : Option Current) : ℤ × Monitors :=
  match cur with
  | none => (-eInval, monitors)
  | some cur =>
      match (List.finRange eigenEpollMaxMon).find? fun i => (monitors i).used = false with
      | some i => (i.val + 1, Function.update monitors i ⟨true, cur.own, []⟩)
      | none => (-eNFile, monitors)

/-- The monitor that a number names, if it is used and belongs to the current task. -/
def epollMonitor (monitors : Monitors) (cur : Current) (epid : ℤ) :
    Option (Fin eigenEpollMaxMon) :=
  if h : 0 < epid ∧ epid ≤ eigenEpollMaxMon then
    let i : Fin eigenEpollMaxMon := ⟨(epid - 1).toNat, by omega⟩
    if (monitors i).used = true ∧ (monitors i).ownerGroup = cur.own then some i else none
  else none

/-- `EPOLL_CTL_ADD`. -/
def epollAdd (io : Io) (monitor : Monitor) (arg : Entry) : ℤ × Monitor :=
  match epollFindEntry monitor arg.fd with
  | some _ => (-eExist, monitor)
  | none =>
      if eigenEpollMaxEnt ≤ monitor.entries.length then (-eNoSpc, monitor)
      else if fdPollRevents io arg.fd = pollNval then (-eBadF, monitor)
      else (0, { monitor with entries := monitor.entries ++ [arg] })

/-- `EPOLL_CTL_MOD`. -/
def epollMod (monitor : Monitor) (arg : Entry) : ℤ × Monitor :=
  match epollFindEntry monitor arg.fd with
  | none => (-eNoEnt, monitor)
  | some i =>
      (0, { monitor with
        entries := monitor.entries.modify i fun entry => { entry with request := arg.request } })

/-- `EPOLL_CTL_DEL`. -/
def epollDel (monitor : Monitor) (fd : ℤ) : ℤ × Monitor :=
  match epollFindEntry monitor fd with
  | none => (-eNoEnt, monitor)
  | some i => (0, { monitor with entries := monitor.entries.eraseIdx i })

def epollChange (io : Io) (monitor : Monitor) (ctlOp : ℤ) (arg : Entry) : ℤ × Monitor :=
  if arg.fd < 0 ∨ maxFds ≤ arg.fd then (-eBadF, monitor)
  else if ctlOp = 1 then epollAdd io monitor arg
  else if ctlOp = 2 then epollMod monitor arg
  else if ctlOp = 3 then epollDel monitor arg.fd
  else (-eInval, monitor)

/-- `EPOLL_EPOLL_CTL`. -/
def epollCtl (monitors : Monitors) (cur : Current) (io : Io) (epid ctlOp : ℤ) (arg : Entry) :
    ℤ × Monitors :=
  match epollMonitor monitors cur epid with
  | none => (-eBadF, monitors)
  | some i =>
      let (ret, monitor) := epollChange io (monitors i) ctlOp arg
      (ret, Function.update monitors i monitor)

/-- What a wait finds for an entry. -/
def epollEvents (io : Io) (entry : Entry) : Events :=
  (if fdPollRevents io entry.fd = pollNval then pollErr else fdPollRevents io entry.fd) &&&
    entry.request.events

/-- An entry, with the events that are stored for it. -/
structure Report where
  entry : Entry
  events : Events

/-- One pass over the entries, for at most so many events. -/
def epollScan (io : Io) : List Entry → ℕ → List Report
  | [], _ => []
  | _, 0 => []
  | entry :: rest, room + 1 =>
      if epollEvents io entry ≠ 0 then
        ⟨entry, epollEvents io entry⟩ :: epollScan io rest room
      else epollScan io rest (room + 1)

structure EpollLook where
  monitors : Monitors
  io : Io
  timeUp : Bool

def EpollLook.scan (i : Fin eigenEpollMaxMon) (maxevents : ℤ) (look : EpollLook) :
    List Report :=
  epollScan look.io (look.monitors i).entries (min maxevents eigenEpollMaxEnt).toNat

/-- `EPOLL_EPOLL_WAIT`, with the look at which it ends.  The events stored are those of the
reports, each with the data of its entry; the result is their number. -/
def epollWait (start : Monitors) (cur : Current) (epid maxevents : ℤ) (looks : List EpollLook) :
    Except ℤ (Option (EpollLook × List Report)) :=
  match epollMonitor start cur epid with
  | none => .error (-eBadF)
  | some i => .ok (waitLoop (EpollLook.scan i maxevents)
      (fun look reports => reports ≠ [] || look.timeUp) looks)

end EigenOS.Descriptors
