import EigenOS.Descriptors.Poll
import EigenOS.Library.KeyedList

/-!
# poll and epoll

What a monitor holds is what was registered with it, and a wait goes through it in order.
What it reports of a descriptor is then compared with what `poll` reports.
-/

namespace EigenOS.Descriptors

open EigenOS.KeyedList Function
open EigenOS.Tasking (FdSlot FdType maxFds toFd)
open EigenOS.Transition

/-! ## Registered descriptors -/

/-- The monitors, and what the results of the calls say is registered with them. -/
structure EpollState where
  monitors : Monitors
  registered : ℤ → ℤ → Option Request

def bootEpoll : EpollState := ⟨fun _ => ⟨false, 0, []⟩, fun _ _ => none⟩

/-- The calls that change monitors, with the descriptors of the task that makes them. -/
inductive EpollCall where
  | create (cur : Option Current)
  | ctl (cur : Current) (io : Io) (epid ctlOp : ℤ) (arg : Entry)

def EpollState.next (state : EpollState) : EpollCall → EpollState
  | .create cur =>
      let (ret, monitors) := epollCreate state.monitors cur
      ⟨monitors, if 0 < ret then update state.registered ret fun _ => none
        else state.registered⟩
  | .ctl cur io epid ctlOp arg =>
      let (ret, monitors) := epollCtl state.monitors cur io epid ctlOp arg
      ⟨monitors, if ret = 0 then update state.registered epid
          (update (state.registered epid) arg.fd
            (if ctlOp = 3 then none else some arg.request))
        else state.registered⟩

def EpollStep (state : EpollState) (call : EpollCall) (after : EpollState) : Prop :=
  after = state.next call

structure Holds (monitor : Monitor) (registered : ℤ → Option Request) : Prop where
  represents : Represents Entry.fd Entry.request monitor.entries registered
  bounded : monitor.entries.length ≤ eigenEpollMaxEnt
  valid : ∀ entry ∈ monitor.entries, 0 ≤ entry.fd

def Tracked (state : EpollState) : Prop :=
  ∀ i : Fin eigenEpollMaxMon, Holds (state.monitors i) (state.registered (i.val + 1))

theorem holds_nil (used : Bool) (ownerGroup : ℤ) :
    Holds ⟨used, ownerGroup, []⟩ fun _ => none :=
  ⟨represents_nil, Nat.zero_le _, by simp⟩

/-- What a change with some result leaves. -/
structure Changed (monitor after : Monitor) (registered : ℤ → Option Request) (ret ctlOp : ℤ)
    (arg : Entry) : Prop where
  done : ret = 0 → Holds after (update registered arg.fd
    (if ctlOp = 3 then none else some arg.request))
  refused : ret ≠ 0 → after = monitor

section Change

variable {monitor : Monitor} {registered : ℤ → Option Request}

theorem changed_refused (errno ctlOp : ℤ) (herrno : 0 < errno) (arg : Entry) :
    Changed monitor monitor registered (-errno) ctlOp arg :=
  ⟨fun h => absurd (neg_eq_zero.mp h) herrno.ne', fun _ => rfl⟩

theorem changed_add (h : Holds monitor registered) (io : Io) (arg : Entry) (harg : 0 ≤ arg.fd) :
    Changed monitor (epollAdd io monitor arg).2 registered (epollAdd io monitor arg).1 1 arg := by
  unfold epollAdd
  cases hfind : epollFindEntry monitor arg.fd with
  | some i => exact changed_refused eExist 1 (by decide) arg
  | none =>
      dsimp only
      by_cases hfull : eigenEpollMaxEnt ≤ monitor.entries.length
      · rw [if_pos hfull]
        exact changed_refused eNoSpc 1 (by decide) arg
      · rw [if_neg hfull]
        by_cases hnval : fdPollRevents io arg.fd = pollNval
        · rw [if_pos hnval]
          exact changed_refused eBadF 1 (by decide) arg
        · rw [if_neg hnval]
          apply Changed.mk _ fun hret => absurd rfl hret
          intro _
          rw [if_neg (by decide)]
          constructor
          · exact h.represents.add arg (key_ne_of_findIdx hfind)
          · rw [List.length_append, List.length_singleton]
            omega
          · intro entry hentry
            rcases List.mem_append.mp hentry with hentry | hentry
            · exact h.valid entry hentry
            · rwa [List.mem_singleton.mp hentry]

theorem changed_mod (h : Holds monitor registered) (arg : Entry) :
    Changed monitor (epollMod monitor arg).2 registered (epollMod monitor arg).1 2 arg := by
  unfold epollMod
  cases hfind : epollFindEntry monitor arg.fd with
  | none => exact changed_refused eNoEnt 2 (by decide) arg
  | some i =>
      obtain ⟨before, old, after, hsplit, hindex, hfd⟩ := split_of_findIdx hfind
      have hmodify : monitor.entries.modify i (fun entry => { entry with request := arg.request }) =
          before ++ ⟨old.fd, arg.request⟩ :: after := by
        rw [hsplit, ← hindex, List.modify_eq_take_cons_drop (by simp)]
        simp
      dsimp only
      rw [hmodify]
      apply Changed.mk _ fun hret => absurd rfl hret
      intro _
      have hold := h.represents
      rw [hsplit] at hold
      rw [if_neg (by decide), ← hfd]
      constructor
      · exact hold.replace ⟨old.fd, arg.request⟩ rfl
      · have hlength := h.bounded
        rw [hsplit] at hlength
        simpa using hlength
      · have hvalid := h.valid
        rw [hsplit] at hvalid
        simpa [or_imp, forall_and] using hvalid

theorem changed_del (h : Holds monitor registered) (arg : Entry) :
    Changed monitor (epollDel monitor arg.fd).2 registered (epollDel monitor arg.fd).1 3 arg := by
  unfold epollDel
  cases hfind : epollFindEntry monitor arg.fd with
  | none => exact changed_refused eNoEnt 3 (by decide) arg
  | some i =>
      obtain ⟨before, old, after, hsplit, hindex, hfd⟩ := split_of_findIdx hfind
      have herase : monitor.entries.eraseIdx i = before ++ after := by
        rw [hsplit, ← hindex]
        simp [List.eraseIdx_append]
      dsimp only
      rw [herase]
      apply Changed.mk _ fun hret => absurd rfl hret
      intro _
      have hold := h.represents
      rw [hsplit] at hold
      rw [if_pos rfl, ← hfd]
      constructor
      · exact hold.remove
      · have hlength := h.bounded
        rw [hsplit, List.length_append, List.length_cons] at hlength
        rw [List.length_append]
        omega
      · intro entry hentry
        apply h.valid entry
        rw [hsplit]
        rcases List.mem_append.mp hentry with hentry | hentry
        · exact List.mem_append_left _ hentry
        · exact List.mem_append_right _ (List.mem_cons_of_mem old hentry)

theorem changed_change (h : Holds monitor registered) (io : Io) (ctlOp : ℤ) (arg : Entry) :
    Changed monitor (epollChange io monitor ctlOp arg).2 registered
      (epollChange io monitor ctlOp arg).1 ctlOp arg := by
  unfold epollChange
  by_cases hfd : arg.fd < 0 ∨ maxFds ≤ arg.fd
  · rw [if_pos hfd]
    exact changed_refused eBadF ctlOp (by decide) arg
  · rw [if_neg hfd]
    by_cases hadd : ctlOp = 1
    · rw [if_pos hadd, hadd]
      exact changed_add h io arg (by omega)
    · rw [if_neg hadd]
      by_cases hmod : ctlOp = 2
      · rw [if_pos hmod, hmod]
        exact changed_mod h arg
      · rw [if_neg hmod]
        by_cases hdel : ctlOp = 3
        · rw [if_pos hdel, hdel]
          exact changed_del h arg
        · rw [if_neg hdel]
          exact changed_refused eInval ctlOp (by decide) arg

end Change

theorem epollMonitor_val {monitors : Monitors} {cur : Current} {epid : ℤ}
    {i : Fin eigenEpollMaxMon} (h : epollMonitor monitors cur epid = some i) :
    (i.val : ℤ) + 1 = epid := by
  unfold epollMonitor at h
  by_cases hepid : 0 < epid ∧ epid ≤ eigenEpollMaxMon
  · rw [dif_pos hepid] at h
    dsimp only at h
    split at h
    · cases h
      dsimp only
      omega
    · cases h
  · rw [dif_neg hepid] at h
    cases h

theorem tracked_boot : Tracked bootEpoll := fun _ => holds_nil false 0

theorem tracked_create {state : EpollState} (h : Tracked state) (cur : Option Current) :
    Tracked (state.next (.create cur)) := by
  unfold EpollState.next epollCreate
  dsimp only
  cases cur with
  | none => exact h
  | some cur =>
      dsimp only
      cases (List.finRange eigenEpollMaxMon).find? fun i => (state.monitors i).used = false with
      | none => exact h
      | some slot =>
          intro i
          have hpos : (0 : ℤ) < slot.val + 1 := by omega
          dsimp only
          rw [if_pos hpos]
          by_cases hi : i = slot
          · subst hi
            rw [update_self, update_self]
            exact holds_nil true cur.own
          · have hval : (i.val : ℤ) + 1 ≠ slot.val + 1 := by
              have hne : i.val ≠ slot.val := fun heq => hi (Fin.ext heq)
              omega
            rw [update_of_ne hi, update_of_ne hval]
            exact h i

theorem tracked_ctl {state : EpollState} (h : Tracked state) (cur : Current) (io : Io)
    (epid ctlOp : ℤ) (arg : Entry) : Tracked (state.next (.ctl cur io epid ctlOp arg)) := by
  unfold EpollState.next epollCtl
  dsimp only
  cases hmonitor : epollMonitor state.monitors cur epid with
  | none => exact h
  | some slot =>
      have hepid := epollMonitor_val hmonitor
      have hchange := changed_change (h slot) io ctlOp arg
      subst hepid
      intro i
      dsimp only
      by_cases hret : (epollChange io (state.monitors slot) ctlOp arg).1 = 0
      · rw [if_pos hret]
        by_cases hi : i = slot
        · subst hi
          rw [update_self, update_self]
          exact hchange.done hret
        · have hval : (i.val : ℤ) + 1 ≠ slot.val + 1 := by
            have hne : i.val ≠ slot.val := fun heq => hi (Fin.ext heq)
            omega
          rw [update_of_ne hi, update_of_ne hval]
          exact h i
      · rw [if_neg hret, hchange.refused hret, update_eq_self]
        exact h i

theorem tracked_next {state : EpollState} (h : Tracked state) (call : EpollCall) :
    Tracked (state.next call) := by
  cases call with
  | create cur => exact tracked_create h cur
  | ctl cur io epid ctlOp arg => exact tracked_ctl h cur io epid ctlOp arg

theorem tracked_run {run : List (EpollCall × EpollState)}
    (hrun : Along EpollStep bootEpoll run) : Always Tracked bootEpoll run := by
  apply always_of_guarded Tracked _ tracked_boot hrun hrun
  intro state call after h _ hstep
  rw [hstep]
  exact tracked_next h call

/-! ## One pass -/

section Scan

variable (io : Io)

theorem entries_epollScan_sublist (entries : List Entry) (room : ℕ) :
    ((epollScan io entries room).map Report.entry).Sublist entries := by
  induction entries generalizing room with
  | nil => exact List.nil_sublist _
  | cons entry rest ih =>
      cases room with
      | zero => exact List.nil_sublist _
      | succ room =>
          rw [epollScan]
          by_cases hready : epollEvents io entry ≠ 0
          · rw [if_pos hready, List.map_cons]
            exact (ih room).cons_cons entry
          · rw [if_neg hready]
            exact (ih (room + 1)).cons entry

theorem events_of_mem_epollScan {entries : List Entry} {room : ℕ} {report : Report}
    (hreport : report ∈ epollScan io entries room) :
    report.events = epollEvents io report.entry ∧ epollEvents io report.entry ≠ 0 := by
  induction entries generalizing room with
  | nil => cases hreport
  | cons entry rest ih =>
      cases room with
      | zero => cases hreport
      | succ room =>
          rw [epollScan] at hreport
          by_cases hready : epollEvents io entry ≠ 0
          · rw [if_pos hready] at hreport
            rcases List.mem_cons.mp hreport with rfl | hrest
            · exact ⟨rfl, hready⟩
            · exact ih hrest
          · rw [if_neg hready] at hreport
            exact ih hreport

theorem mem_epollScan_of_room {entries : List Entry} {room : ℕ}
    (hroom : (epollScan io entries room).length < room) {entry : Entry}
    (hentry : entry ∈ entries) (hready : epollEvents io entry ≠ 0) :
    ⟨entry, epollEvents io entry⟩ ∈ epollScan io entries room := by
  induction entries generalizing room with
  | nil => cases hentry
  | cons head rest ih =>
      cases room with
      | zero => exact absurd hroom (Nat.not_lt_zero _)
      | succ room =>
          rw [epollScan] at hroom ⊢
          by_cases hhead : epollEvents io head ≠ 0
          · rw [if_pos hhead] at hroom ⊢
            rcases List.mem_cons.mp hentry with rfl | hrest
            · exact List.mem_cons_self
            · exact List.mem_cons_of_mem _ (ih (Nat.lt_of_succ_lt_succ hroom) hrest)
          · rw [if_neg hhead] at hroom ⊢
            rcases List.mem_cons.mp hentry with rfl | hrest
            · exact absurd hready hhead
            · exact ih hroom hrest

theorem mem_epollScan_of_length_le {entries : List Entry} {room : ℕ}
    (hroom : entries.length ≤ room) {entry : Entry} (hentry : entry ∈ entries)
    (hready : epollEvents io entry ≠ 0) :
    ∃ report ∈ epollScan io entries room, report.entry = entry := by
  have hsublist := entries_epollScan_sublist io entries room
  by_cases hfull : (epollScan io entries room).length < room
  · exact ⟨_, mem_epollScan_of_room io hfull hentry hready, rfl⟩
  · have hall : (epollScan io entries room).map Report.entry = entries := by
      apply hsublist.eq_of_length_le
      rw [List.length_map]
      omega
    rw [← hall] at hentry
    exact List.mem_map.mp hentry

end Scan

/-! ## Events of one descriptor -/

/-- The bits of a `short`. -/
def Narrow (events : Events) : Prop := (events.setWidth 16).setWidth 32 = events

theorem narrow_eventsIf (ready room hup : Bool) :
    Narrow (eventsIf ready (pollIn ||| pollRdNorm) ||| eventsIf room (pollOut ||| pollWrNorm) |||
      eventsIf hup pollHup) := by
  unfold Narrow
  revert ready room hup
  decide

theorem narrow_terminal (ready : Bool) : Narrow (eventsIf ready pollIn ||| pollOut) := by
  unfold Narrow
  revert ready
  decide

theorem narrow_ptyPoll (pty : Pty) (master : Bool) : Narrow (ptyPoll pty master) := by
  unfold ptyPoll
  by_cases hused : pty.used = false
  · rw [if_pos hused]
    rfl
  · rw [if_neg hused]
    split
    · exact narrow_terminal _
    · exact narrow_terminal _

theorem narrow_sysSocketPoll (io : Io) (s : ℕ) : Narrow ((sysSocketPoll io s).getD pollNval) := by
  unfold sysSocketPoll
  split
  · next h =>
      cases io.sockets ⟨s, h⟩ with
      | none => rfl
      | some so =>
          rw [Option.map_some, Option.getD_some, eventsIf_socket]
          exact narrow_eventsIf _ _ _
  · rfl

theorem narrow_fdPollRevents (io : Io) (fd : ℤ) : Narrow (fdPollRevents io fd) := by
  unfold fdPollRevents
  cases toFd fd with
  | none => rfl
  | some f =>
      dsimp only
      cases (io.fds f).type with
      | socket => exact narrow_sysSocketPoll io f.val
      | pipe => exact narrow_eventsIf _ _ _
      | pty => exact narrow_ptyPoll _ _
      | vfs =>
          dsimp only
          split
          · rfl
          · split
            · rfl
            · rfl

theorem Narrow.getLsbD {events : Events} (h : Narrow events) {i : ℕ} (hi : 16 ≤ i) :
    events.getLsbD i = false := by
  rw [← h, BitVec.getLsbD_setWidth, BitVec.getLsbD_setWidth]
  simp [Nat.not_lt.mpr hi]

theorem Narrow.and {events : Events} (h : Narrow events) (mask : Events) :
    Narrow (events &&& mask) := by
  apply BitVec.eq_of_getLsbD_eq
  intro i hi
  rw [BitVec.getLsbD_setWidth, BitVec.getLsbD_setWidth, BitVec.getLsbD_and]
  by_cases hlow : i < 16
  · simp [hlow, hi]
  · simp [h.getLsbD (Nat.not_lt.mp hlow)]

theorem Narrow.or {left right : Events} (hleft : Narrow left) (hright : Narrow right) :
    Narrow (left ||| right) := by
  unfold Narrow
  rw [BitVec.setWidth_or, BitVec.setWidth_or, hleft, hright]

theorem Narrow.and_signExtend {events : Events} (h : Narrow events) (asked : Events) :
    events &&& (asked.setWidth 16).signExtend 32 = events &&& asked := by
  apply BitVec.eq_of_getLsbD_eq
  intro i hi
  rw [BitVec.getLsbD_and, BitVec.getLsbD_and, BitVec.getLsbD_signExtend]
  by_cases hlow : i < 16
  · simp [hlow, hi]
  · simp [h.getLsbD (Nat.not_lt.mp hlow)]

theorem and_eq_and_or_and_iff (events asked always : Events) :
    events &&& asked = (events &&& asked) ||| (events &&& always) ↔
      events &&& always &&& ~~~asked = 0 := by
  have hbit : ∀ event ask keep : Bool,
      (event && ask) = (event && ask || event && keep) ↔ (event && keep && !ask) = false := by
    decide
  constructor
  · intro h
    apply BitVec.eq_of_getLsbD_eq
    intro i hi
    have hi' := congrArg (fun mask => mask.getLsbD i) h
    rw [BitVec.getLsbD_or, BitVec.getLsbD_and, BitVec.getLsbD_and] at hi'
    rw [BitVec.getLsbD_and, BitVec.getLsbD_and, BitVec.getLsbD_not, decide_eq_true hi,
      Bool.true_and, (hbit _ _ _).mp hi', BitVec.ofNat_eq_ofNat, BitVec.getLsbD_zero]
  · intro h
    apply BitVec.eq_of_getLsbD_eq
    intro i hi
    have hi' := congrArg (fun mask => mask.getLsbD i) h
    rw [BitVec.getLsbD_and, BitVec.getLsbD_and, BitVec.getLsbD_not, decide_eq_true hi,
      Bool.true_and, BitVec.ofNat_eq_ofNat, BitVec.getLsbD_zero] at hi'
    rw [BitVec.getLsbD_or, BitVec.getLsbD_and, BitVec.getLsbD_and]
    exact (hbit _ _ _).mpr hi'

/-- What `poll` is asked about an entry. -/
def Entry.pollFd (entry : Entry) : PollFd := ⟨entry.fd, entry.request.events.setWidth 16⟩

@[simp]
theorem Entry.pollFd_fd (entry : Entry) : entry.pollFd.fd = entry.fd := rfl

/-- A descriptor is there, and no error or hang-up waits that was not asked for. -/
def ReportedAsAsked (io : Io) (fd : ℤ) (asked : Events) : Prop :=
  fdPollRevents io fd ≠ pollNval ∧
    fdPollRevents io fd &&& (pollErr ||| pollHup) &&& ~~~asked = 0

theorem pollReported_entry (io : Io) (entry : Entry) :
    pollReported io entry.pollFd = (fdPollRevents io entry.fd &&& entry.request.events) |||
      (fdPollRevents io entry.fd &&& (pollErr ||| pollHup)) := by
  have h := narrow_fdPollRevents io entry.fd
  change (fdPollRevents io entry.fd &&& (entry.request.events.setWidth 16).signExtend 32) ||| _ = _
  rw [h.and_signExtend]
  rfl

theorem pollRevents_entry (io : Io) (entry : Entry) (hfd : 0 ≤ entry.fd)
    (hvalid : fdPollRevents io entry.fd ≠ pollNval) :
    (pollRevents io entry.pollFd).setWidth 32 = pollReported io entry.pollFd := by
  have h := narrow_fdPollRevents io entry.fd
  unfold pollRevents
  rw [Entry.pollFd_fd, if_neg (not_lt.mpr hfd), if_neg hvalid]
  by_cases hreported : pollReported io entry.pollFd ≠ 0
  · rw [if_pos hreported, pollReported_entry]
    exact (h.and _).or (h.and _)
  · rw [if_neg hreported, not_not.mp hreported]
    rfl

/-- A wait finds for an entry what `poll` reports, exactly where nothing is hidden. -/
theorem epollEvents_eq_pollRevents_iff (io : Io) (entry : Entry) (hfd : 0 ≤ entry.fd) :
    epollEvents io entry = (pollRevents io entry.pollFd).setWidth 32 ↔
      ReportedAsAsked io entry.fd entry.request.events := by
  unfold ReportedAsAsked
  by_cases hvalid : fdPollRevents io entry.fd = pollNval
  · have hpoll : (pollRevents io entry.pollFd).setWidth 32 = pollNval := by
      unfold pollRevents
      rw [Entry.pollFd_fd, if_neg (not_lt.mpr hfd), if_pos hvalid]
      rfl
    have hepoll : epollEvents io entry = pollErr &&& entry.request.events := by
      unfold epollEvents
      rw [if_pos hvalid]
    rw [hpoll, hepoll]
    apply iff_of_false
    · intro h
      have hbit := congrArg (fun mask => mask.getLsbD 5) h
      rw [BitVec.getLsbD_and, (by decide : pollErr.getLsbD 5 = false), Bool.false_and] at hbit
      exact absurd hbit (by decide)
    · exact fun h => h.1 hvalid
  · have hepoll : epollEvents io entry = fdPollRevents io entry.fd &&& entry.request.events := by
      unfold epollEvents
      rw [if_neg hvalid]
    rw [pollRevents_entry io entry hfd hvalid, pollReported_entry, hepoll,
      and_eq_and_or_and_iff]
    exact (and_iff_right hvalid).symm

/-! ## Agreement -/

/-- What a wait for so many events ended with, beside what is registered and what `poll`
reports. -/
structure WaitAgrees (state : EpollState) (epid : ℤ) (io : Io) (maxevents : ℤ)
    (reports : List Report) : Prop where
  once : (reports.map fun report => report.entry.fd).Nodup
  registered : ∀ report ∈ reports,
    state.registered epid report.entry.fd = some report.entry.request
  reported : ∀ report ∈ reports,
    report.events = (pollRevents io report.entry.pollFd).setWidth 32
  silent : (reports.length : ℤ) < maxevents → ∀ fd request,
    state.registered epid fd = some request → (∀ report ∈ reports, report.entry.fd ≠ fd) →
      pollRevents io (Entry.pollFd ⟨fd, request⟩) = 0

/-- Every wait that ends at a look at this state agrees. -/
def EpollAgrees (state : EpollState) (cur : Current) (epid : ℤ) (io : Io) : Prop :=
  ∀ (start : Monitors) (looks : List EpollLook) (maxevents : ℤ) (timeUp : Bool)
    (reports : List Report),
    epollWait start cur epid maxevents looks = .ok (some (⟨state.monitors, io, timeUp⟩, reports)) →
      WaitAgrees state epid io maxevents reports

theorem epollWait_reports {start monitors : Monitors} {cur : Current} {epid maxevents : ℤ}
    {looks : List EpollLook} {io : Io} {timeUp : Bool} {reports : List Report}
    (h : epollWait start cur epid maxevents looks = .ok (some (⟨monitors, io, timeUp⟩, reports))) :
    ∃ i : Fin eigenEpollMaxMon, (i.val : ℤ) + 1 = epid ∧
      reports = epollScan io (monitors i).entries (min maxevents eigenEpollMaxEnt).toNat := by
  unfold epollWait at h
  cases hmonitor : epollMonitor start cur epid with
  | none =>
      rw [hmonitor] at h
      cases h
  | some i =>
      rw [hmonitor] at h
      exact ⟨i, epollMonitor_val hmonitor, (scan_of_waitLoop (Except.ok.inj h)).2⟩

section Reached

variable {state : EpollState} {cur : Current} {epid : ℤ} {io : Io}

theorem epollAgrees_of (htracked : Tracked state)
    (hasked : ∀ fd request, state.registered epid fd = some request →
      ReportedAsAsked io fd request.events) :
    EpollAgrees state cur epid io := by
  intro start looks maxevents timeUp reports hwait
  obtain ⟨i, hepid, hreports⟩ := epollWait_reports hwait
  have hheld := htracked i
  rw [hepid] at hheld
  have hsublist : (reports.map Report.entry).Sublist (state.monitors i).entries := by
    rw [hreports]
    exact entries_epollScan_sublist io _ _
  have hregistered : ∀ entry ∈ (state.monitors i).entries,
      state.registered epid entry.fd = some entry.request := by
    intro entry hentry
    exact (hheld.represents.lookup _ _).mpr ⟨entry, hentry, rfl, rfl⟩
  have hagree : ∀ entry ∈ (state.monitors i).entries,
      epollEvents io entry = (pollRevents io entry.pollFd).setWidth 32 := by
    intro entry hentry
    apply (epollEvents_eq_pollRevents_iff io entry (hheld.valid entry hentry)).mpr
    exact hasked entry.fd entry.request (hregistered entry hentry)
  have hentries : ∀ report ∈ reports, report.entry ∈ (state.monitors i).entries := by
    intro report hreport
    exact hsublist.subset (List.mem_map_of_mem hreport)
  constructor
  · have hnodup := hheld.represents.nodup.sublist (hsublist.map Entry.fd)
    rwa [List.map_map] at hnodup
  · intro report hreport
    exact hregistered report.entry (hentries report hreport)
  · intro report hreport
    rw [← hagree report.entry (hentries report hreport)]
    rw [hreports] at hreport
    exact (events_of_mem_epollScan io hreport).1
  · intro hroom fd request hfd hsilent
    obtain ⟨entry, hentry, rfl, rfl⟩ := (hheld.represents.lookup _ _).mp hfd
    have hzero : epollEvents io entry = 0 := by
      by_contra hready
      have hmem : ∃ report ∈ reports, report.entry = entry := by
        rw [hreports] at hroom ⊢
        by_cases hmax : maxevents ≤ eigenEpollMaxEnt
        · rw [min_eq_left hmax] at hroom ⊢
          exact ⟨_, mem_epollScan_of_room io (by omega) hentry hready, rfl⟩
        · rw [min_eq_right (by omega)]
          exact mem_epollScan_of_length_le io (by simpa using hheld.bounded) hentry hready
      obtain ⟨report, hreport, hsame⟩ := hmem
      exact hsilent report hreport (congrArg Entry.fd hsame)
    have hpoll := hagree entry hentry
    rw [hzero] at hpoll
    have hback := congrArg (BitVec.setWidth 16) hpoll
    rw [BitVec.setWidth_setWidth_of_le _ (by decide), BitVec.setWidth_eq] at hback
    exact hback.symm

theorem epollWait_full {i : Fin eigenEpollMaxMon}
    (hown : epollMonitor state.monitors cur epid = some i) :
    epollWait state.monitors cur epid eigenEpollMaxEnt [⟨state.monitors, io, true⟩] =
      .ok (some (⟨state.monitors, io, true⟩,
        epollScan io (state.monitors i).entries eigenEpollMaxEnt)) := by
  unfold epollWait
  rw [hown]
  dsimp only
  rw [waitLoop, if_pos (Bool.or_true _)]
  rfl

theorem asked_of_epollAgrees (htracked : Tracked state) {i : Fin eigenEpollMaxMon}
    (hown : epollMonitor state.monitors cur epid = some i)
    (hagrees : EpollAgrees state cur epid io) (fd : ℤ) (request : Request)
    (hfd : state.registered epid fd = some request) : ReportedAsAsked io fd request.events := by
  have hheld := htracked i
  rw [epollMonitor_val hown] at hheld
  have hwait := hagrees _ _ _ _ _ (epollWait_full hown)
  obtain ⟨entry, hentry, rfl, rfl⟩ := (hheld.represents.lookup _ _).mp hfd
  apply (epollEvents_eq_pollRevents_iff io entry (hheld.valid entry hentry)).mp
  by_cases hready : epollEvents io entry = 0
  · have hsublist := entries_epollScan_sublist io (state.monitors i).entries eigenEpollMaxEnt
    have hsilent : ∀ report ∈ epollScan io (state.monitors i).entries eigenEpollMaxEnt,
        report.entry.fd ≠ entry.fd := by
      intro report hreport hsame
      have hmem := hsublist.subset (List.mem_map_of_mem hreport)
      have hentry' := List.inj_on_of_nodup_map hheld.represents.nodup hmem hentry hsame
      have hevents := (events_of_mem_epollScan io hreport).2
      rw [hentry'] at hevents
      exact hevents hready
    have hroom : (epollScan io (state.monitors i).entries eigenEpollMaxEnt).length <
        eigenEpollMaxEnt := by
      apply lt_of_lt_of_le _ hheld.bounded
      rw [← List.length_map Report.entry]
      apply lt_of_le_of_ne hsublist.length_le
      intro hlength
      have hall := hsublist.eq_of_length hlength
      rw [← hall] at hentry
      obtain ⟨report, hreport, hsame⟩ := List.mem_map.mp hentry
      exact hsilent report hreport (congrArg Entry.fd hsame)
    have hpoll := hwait.silent (by exact_mod_cast hroom) entry.fd entry.request hfd hsilent
    rw [hready]
    exact (congrArg (BitVec.setWidth 32) hpoll).symm
  · obtain ⟨report, hreport, rfl⟩ :=
      mem_epollScan_of_length_le io hheld.bounded hentry hready
    rw [← (events_of_mem_epollScan io hreport).1]
    exact hwait.reported report hreport

end Reached

/-- After any calls, `epoll_wait` agrees with `poll` exactly where every registered descriptor
is there and hides no error or hang-up. -/
theorem epollAgrees_iff {run : List (EpollCall × EpollState)}
    (hrun : Along EpollStep bootEpoll run) {cur : Current} {epid : ℤ} {i : Fin eigenEpollMaxMon}
    (hown : epollMonitor (final bootEpoll run).monitors cur epid = some i) (io : Io) :
    EpollAgrees (final bootEpoll run) cur epid io ↔
      ∀ fd request, (final bootEpoll run).registered epid fd = some request →
        ReportedAsAsked io fd request.events := by
  have htracked := (tracked_run hrun).final
  constructor
  · exact asked_of_epollAgrees htracked hown
  · exact epollAgrees_of htracked

/-! ## A pipe whose writer has gone -/

/-- A pipe is open for reading at descriptor 3. -/
def pipeIo (writers : ℕ) : Io :=
  { bootIo with
    fds := update bootIo.fds masterFd { FdSlot.zero with type := .pipe }
    pipes := fun _ => ⟨zeroRing pipeBufSize_pos, writers, 1⟩ }

def reader : Current := ⟨1, 0⟩

/-- What waits to be read is asked about. -/
def readEntry : Entry := ⟨3, ⟨pollIn, 7⟩⟩

/-- A monitor is made, and the pipe is registered with it. -/
def readCalls : List EpollCall :=
  [.create (some reader), .ctl reader (pipeIo 1) 1 1 readEntry]

def callRun : EpollState → List EpollCall → List (EpollCall × EpollState)
  | _, [] => []
  | state, call :: rest => (call, state.next call) :: callRun (state.next call) rest

theorem along_callRun (state : EpollState) (calls : List EpollCall) :
    Along EpollStep state (callRun state calls) := by
  induction calls generalizing state with
  | nil => trivial
  | cons call rest ih => exact ⟨rfl, ih _⟩

def madeState : EpollState := bootEpoll.next (.create (some reader))

def readState : EpollState := final bootEpoll (callRun bootEpoll readCalls)

def readMonitor : Fin eigenEpollMaxMon := ⟨0, by decide⟩

theorem readState_registered (fd : ℤ) :
    readState.registered 1 fd = if fd = 3 then some ⟨pollIn, 7⟩ else none := by
  have hcreate : (epollCreate bootEpoll.monitors (some reader)).1 = 1 := by decide +kernel
  have hctl : (epollCtl madeState.monitors reader (pipeIo 1) 1 1 readEntry).1 = 0 := by
    decide +kernel
  have hmade : madeState.registered 1 = fun _ => none := by
    unfold madeState EpollState.next
    dsimp only
    rw [hcreate, if_pos (by decide), update_self]
  change (madeState.next (.ctl reader (pipeIo 1) 1 1 readEntry)).registered 1 fd = _
  unfold EpollState.next
  dsimp only
  rw [if_pos hctl, update_self, hmade, if_neg (by decide)]
  exact update_apply _ _ _ _

/-- While the pipe has a writer, nothing is hidden. -/
theorem epollAgrees_written : EpollAgrees readState reader 1 (pipeIo 1) := by
  apply (epollAgrees_iff (along_callRun bootEpoll readCalls)
    (by decide +kernel : epollMonitor readState.monitors reader 1 = some readMonitor) (pipeIo 1)).mpr
  intro fd request hfd
  change readState.registered 1 fd = some request at hfd
  rw [readState_registered] at hfd
  by_cases hthree : fd = 3
  · rw [if_pos hthree] at hfd
    cases hfd
    rw [hthree]
    exact ⟨by decide +kernel, by decide +kernel⟩
  · rw [if_neg hthree] at hfd
    cases hfd

/-- The writer has gone: `poll` reports the hang-up to who asks for data, and `epoll_wait` does
not. -/
theorem not_epollAgrees_closed :
    kSysPoll 4096 [readEntry.pollFd] [⟨pipeIo 0, true⟩] = some (1, [pollHup.setWidth 16]) ∧
      epollWait readState.monitors reader 1 4 [⟨readState.monitors, pipeIo 0, true⟩] =
        .ok (some (⟨readState.monitors, pipeIo 0, true⟩, [])) ∧
      ¬ EpollAgrees readState reader 1 (pipeIo 0) := by
  have hwait : epollWait readState.monitors reader 1 4 [⟨readState.monitors, pipeIo 0, true⟩] =
      .ok (some (⟨readState.monitors, pipeIo 0, true⟩, [])) := by
    have hscan : epollScan (pipeIo 0) (readState.monitors readMonitor).entries 4 = [] := by
      apply List.isEmpty_iff.mp
      decide +kernel
    have hown : epollMonitor readState.monitors reader 1 = some readMonitor := by decide +kernel
    unfold epollWait
    rw [hown]
    dsimp only
    rw [waitLoop, if_pos (Bool.or_true _)]
    exact congrArg (fun reports => Except.ok (some (_, reports))) hscan
  refine ⟨by decide +kernel, hwait, ?_⟩
  intro hagrees
  have hsilent := (hagrees _ _ _ _ _ hwait).silent (by decide) 3 ⟨pollIn, 7⟩
    (by rw [readState_registered, if_pos rfl]) (by simp)
  exact absurd hsilent (by decide +kernel)

end EigenOS.Descriptors
