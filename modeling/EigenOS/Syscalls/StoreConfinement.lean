import EigenOS.Syscalls.UserStores

/-!
# Where results are stored

Which of the checks keep a call from storing outside the memory of its caller.
-/

namespace EigenOS.UserStores

open EigenOS.Descriptors (Current EpollLook Io Monitors PollFd PollLook Transfer Vfs
  eigenEpollMaxEnt)
open EigenOS.Filesystem (CString FileNode Slot Table)
open EigenOS.Posix (System eigenErrInval)

/-- A mounted file system, which stores no more than it is asked for. -/
structure Mounted where
  vfs : Vfs
  within : ∀ node count, (vfs.read node count).2.length ≤ count

/-- The calls that store a result through a pointer. -/
inductive Call where
  | read (mounted : Mounted) (io : Io) (fd : ℤ) (buf : UInt64) (count : ℕ)
  | readv (mounted : Mounted) (io : Io) (woken : List Io) (fd : ℤ)
      (iov : Option (List (UInt64 × UInt64)))
  | poll (fdsU : UInt64) (fds : List PollFd) (looks : List PollLook)
  | epollWait (start : Monitors) (cur : Current) (epid : ℤ) (out : UInt64) (maxevents : ℤ)
      (looks : List EpollLook)
  | pipe (pipefd : UInt64) (made : Bool)
  | openpty (fdsU : UInt64) (io : Io)
  | wait4 (status : UInt64) (child : Option ℤ)
  | getdents64 (sys : System) (fd : ℤ) (buf : UInt64) (count : UInt32)
  | stat (sys : System) (path : Option CString) (out : UInt64)
  | fstat (sys : System) (fd : ℤ) (out : UInt64)
  | getcwd (sys : System) (buf size : UInt64)
  | ioctl (sys : System) (fd : ℤ) (req : ℕ) (arg : UInt64) (word : UInt32)
  | uname (buf : UInt64)
  | rtSigaction (sys : System) (sig : ℤ) (act : Option UInt64) (oact : UInt64)
  | rtSigprocmask (oldset size : UInt64)
  | archPrctl (sys : System) (code : ℤ) (addr : UInt64)
  | gettimeofday (tv : UInt64)
  | clockGettime (tp : UInt64)
  | time (op : ℕ) (a : UInt64)
  | sysinfo (buf : UInt64)
  | gfxGetdims (a b : UInt64)
  | inputMouseDelta (a2 a3 a4 : UInt64)
  | winPoll (b c : UInt64) (queued : Option ℕ)
  | winGetsize (window : Bool) (b c : UInt64)
  | modload (name dest maxbytes : UInt64) (module : Option ℕ)
  | gettheme (a : UInt64) (b : ℤ)
  | fsList (a b : UInt64) (listing : ℕ)
  | fsSize (a b : UInt64) (node : Option FileNode)
  | fsStat (a b : UInt64) (node : Option FileNode)
  | fsPwd (a b : UInt64) (files : Table) (cwd : Slot)
  | settingsThemeGet (id : ℤ) (b : UInt64) (total : ℤ)
  | settingsWallGet (i : ℤ) (b : UInt64) (count : ℤ)
  | settingsWallThumb (a : UInt64) (arg : ThumbArg) (scaled : Option (ℤ × ℤ))
  | settingsWallThumbRaw (b : UInt64) (image : Option (ℕ × ℕ))
  | settingsWallPath (a : UInt64) (b : ℤ) (file : ℕ)
  | netRecv (b c : UInt64) (received : Option ℕ)
  | netResolve (a b : UInt64) (found : Bool)

/-- What a call asks for; `none` still sleeps. -/
def Call.request : Call → Option Request
  | .read mounted io fd buf count => kSysRead mounted.vfs io fd buf count
  | .readv mounted io woken fd iov => kSysReadv mounted.vfs io woken fd iov
  | .poll fdsU fds looks => kSysPoll fdsU fds looks
  | .epollWait start cur epid out maxevents looks =>
      kSysEpollWait start cur epid out maxevents looks
  | .pipe pipefd made => some (kSysPipe pipefd made)
  | .openpty fdsU io => some (kSysOpenpty fdsU io)
  | .wait4 status child => kSysWait4 status child
  | .getdents64 sys fd buf count => some (kSysGetdents64 sys fd buf count)
  | .stat sys path out => some (kSysStat sys path out)
  | .fstat sys fd out => some (kSysFstat sys fd out)
  | .getcwd sys buf size => some (kSysGetcwd sys buf size)
  | .ioctl sys fd req arg word => some (kSysIoctl sys fd req arg word)
  | .uname buf => some (kSysUname buf)
  | .rtSigaction sys sig act oact => some (kSysRtSigaction sys sig act oact)
  | .rtSigprocmask oldset size => some (kSysRtSigprocmask oldset size)
  | .archPrctl sys code addr => some (kSysArchPrctl sys code addr)
  | .gettimeofday tv => some (kSysGettimeofday tv)
  | .clockGettime tp => some (kSysClockGettime tp)
  | .time op a => some (kSysTime op a)
  | .sysinfo buf => some (kSysSysinfo buf)
  | .gfxGetdims a b => some (UserStores.gfxGetdims a b)
  | .inputMouseDelta a2 a3 a4 => some (UserStores.inputMouseDelta a2 a3 a4)
  | .winPoll b c queued => some (UserStores.winPoll b c queued)
  | .winGetsize window b c => some (UserStores.winGetsize window b c)
  | .modload name dest maxbytes module => some (kSysModload name dest maxbytes module)
  | .gettheme a b => some (kSysGettheme a b)
  | .fsList a b listing => some (UserStores.fsList a b listing)
  | .fsSize a b node => some (UserStores.fsSize a b node)
  | .fsStat a b node => some (UserStores.fsStat a b node)
  | .fsPwd a b files cwd => some (UserStores.fsPwd a b files cwd)
  | .settingsThemeGet id b total => some (UserStores.settingsThemeGet id b total)
  | .settingsWallGet i b count => some (UserStores.settingsWallGet i b count)
  | .settingsWallThumb a arg scaled => some (UserStores.settingsWallThumb a arg scaled)
  | .settingsWallThumbRaw b image => some (UserStores.settingsWallThumbRaw b image)
  | .settingsWallPath a b file => some (UserStores.settingsWallPath a b file)
  | .netRecv b c received => some (UserStores.netRecv b c received)
  | .netResolve a b found => some (UserStores.netResolve a b found)

/-- The memory that a call has filled. -/
def Call.filled (call : Call) : List Store :=
  (call.request.map fun request => request.reply.stores).getD []

/-- Memory that a call fills only if its pointers pass. -/
def checked (checks : List (PtrCheck × UInt64)) (areas : List Store) : List Store :=
  if checks.all fun (check, p) => check.passes p then areas else []

/-- The memory that the caller asks to have filled: from its pointers on, as long as it says or as
the result is.  A pointer that the call refuses asks for nothing. -/
def Call.asked : Call → List Store
  | .read _ _ _ buf count => [⟨buf, count⟩]
  | .readv _ _ _ _ iov => (iov.getD []).map fun (base, len) => ⟨base, len.toUInt32.toNat⟩
  | .poll fdsU fds _ => (List.range fds.length).map fun i => ⟨fdsU + UInt64.ofNat (8 * i + 6), 2⟩
  | .epollWait _ _ _ out maxevents _ => [⟨out, 12 * (min maxevents eigenEpollMaxEnt).toNat⟩]
  | .pipe pipefd _ => checked [(.userPtr, pipefd)] [⟨pipefd, 8⟩]
  | .openpty fdsU _ => [⟨fdsU, 8⟩]
  | .wait4 status _ => checked [(.nonNull, status)] [⟨status, 4⟩]
  | .getdents64 _ _ buf count => checked [(.nonNull, buf)] [⟨buf, count.toNat⟩]
  | .stat _ _ out => checked [(.nonNull, out)] [⟨out, kstatSize⟩]
  | .fstat _ _ out => checked [(.nonNull, out)] [⟨out, kstatSize⟩]
  -- `fs_pwd` stores a slash and a NUL in the smallest buffer
  | .getcwd _ buf size => checked [(.nonNull, buf)] [⟨buf, max size.toNat 2⟩]
  | .ioctl _ _ req arg _ =>
      checked [(.nonNull, arg)] [⟨arg, if req = Posix.tiocgwinsz then 8 else 4⟩]
  | .uname buf => checked [(.nonNull, buf)] (utsname.zipIdx.map fun (field, i) =>
      ⟨buf + UInt64.ofNat (65 * i), field.length + 1⟩)
  | .rtSigaction _ _ _ oact => checked [(.nonNull, oact)] [⟨oact, 8⟩]
  | .rtSigprocmask oldset size => checked [(.nonNull, oldset)] [⟨oldset, size.toNat⟩]
  | .archPrctl _ _ addr => checked [(.nonNull, addr)] [⟨addr, 8⟩]
  | .gettimeofday tv => checked [(.nonNull, tv)] [⟨tv, 16⟩]
  | .clockGettime tp => checked [(.nonNull, tp)] [⟨tp, 16⟩]
  | .time op a => if op = eigenTimeGet then checked [(.belowLimit, a)] [⟨a, 24⟩] else []
  | .sysinfo buf => checked [(.belowLimit, buf)] [⟨buf, 32⟩]
  | .gfxGetdims a b => checked [(.belowLimit, a), (.belowLimit, b)] [⟨a, 4⟩, ⟨b, 4⟩]
  | .inputMouseDelta a2 a3 a4 => [a2, a3, a4].flatMap fun p => checked [(.userPtr, p)] [⟨p, 4⟩]
  | .winPoll b c _ => checked [(.belowLimit, b)] [⟨b, min c.toNat 64 * 20⟩]
  | .winGetsize _ b c => checked [(.belowLimit, b), (.belowLimit, c)] [⟨b, 4⟩, ⟨c, 4⟩]
  | .modload name dest maxbytes _ =>
      if maxbytes = 0 ∨ modloadMax < maxbytes.toNat then []
      else checked [(.belowLimit, name), (.belowLimit, dest)] [⟨dest, maxbytes.toNat⟩]
  | .gettheme a b => checked [(.belowLimit, a)] [⟨a, 4 * themeEntries b⟩]
  | .fsList a b _ =>
      if b = 0 ∨ 8192 < b.toNat then [] else checked [(.userPtr, a)] [⟨a, b.toNat⟩]
  | .fsSize a b _ => checked [(.userPtr, a), (.userPtr, b)] [⟨b, 4⟩]
  | .fsStat a b _ => checked [(.userPtr, a), (.userPtr, b)]
      [⟨b, Filesystem.maxFilename⟩, ⟨b + UInt64.ofNat 32, 12⟩]
  | .fsPwd a b _ _ =>
      if b = 0 ∨ 1024 < b.toNat then [] else checked [(.userPtr, a)] [⟨a, b.toNat⟩]
  | .settingsThemeGet _ b _ => checked [(.userPtr, b)] [⟨b, 24 + 36 * 4 + 4 + 4⟩]
  | .settingsWallGet _ b _ => checked [(.userPtr, b)] [⟨b, 96 + 64 + 4 + 4⟩]
  -- the places of the scaled picture in the frame buffer that the argument describes
  | .settingsWallThumb a arg scaled =>
      checked [(.userPtr, a), (.userPtr, UInt64.ofInt arg.fb)]
        ((List.range (scaled.getD (0, 0)).2.toNat).flatMap fun yy =>
          (List.range (scaled.getD (0, 0)).1.toNat).filterMap fun xx =>
            thumbStore arg (scaled.getD (0, 0)).1 (scaled.getD (0, 0)).2 yy xx)
  | .settingsWallThumbRaw b image =>
      checked [(.userPtr, b)] [⟨b, (image.getD (0, 0)).1 * (image.getD (0, 0)).2 * 3⟩]
  | .settingsWallPath a b _ => checked [(.userPtr, a)] [⟨a, (b - 1).toNat + 1⟩]
  | .netRecv b c _ => checked [(.userPtr, b)] [⟨b, c.toUInt32.toNat⟩]
  | .netResolve a b _ => checked [(.userPtr, a), (.userPtr, b)] [⟨b, 4⟩]

/-- Every byte that is filled is in the user range; addresses come round at the end. -/
def Store.InUser (store : Store) : Prop :=
  ∀ i < store.length, userBase ≤ (store.address.toNat + i) % 2 ^ 64 ∧
    (store.address.toNat + i) % 2 ^ 64 < userLimit

/-- The call is rejected, or it stores in the user range only. -/
def Reply.Confined (reply : Reply) : Prop :=
  reply.ret < 0 ∧ reply.stores = [] ∨ ∀ store ∈ reply.stores, store.InUser

def Call.Confined (call : Call) : Prop :=
  ∀ request, call.request = some request → request.reply.Confined

/-- A range that is in the user range, or empty. -/
def Store.Fits (area : Store) : Prop :=
  area.length ≠ 0 →
    userBase ≤ area.address.toNat ∧ area.address.toNat + area.length ≤ userLimit

/-- The memory that the caller asks to have filled is in the user range. -/
def Call.Fits (call : Call) : Prop := ∀ area ∈ call.asked, area.Fits

/-! ## Ranges -/

/-- A range that leaves the user range has a byte at its end. -/
theorem Store.inUser_iff (store : Store) : store.InUser ↔ store.Fits := by
  have haddress := store.address.toNat_lt
  have hlimit : userLimit < 2 ^ 64 := by decide
  constructor
  · intro h hlength
    have hfirst := h 0 (Nat.pos_of_ne_zero hlength)
    rw [Nat.add_zero, Nat.mod_eq_of_lt haddress] at hfirst
    refine ⟨hfirst.1, ?_⟩
    by_contra hend
    have hlast := (h (userLimit - store.address.toNat) (by omega)).2
    have hsum : store.address.toNat + (userLimit - store.address.toNat) = userLimit := by omega
    rw [hsum, Nat.mod_eq_of_lt hlimit] at hlast
    exact lt_irrefl userLimit hlast
  · intro h i hi
    obtain ⟨hstart, hend⟩ := h (by omega)
    rw [Nat.mod_eq_of_lt (by omega)]
    omega

theorem Reply.confined_iff (reply : Reply) :
    reply.Confined ↔ ∀ store ∈ reply.stores, store.InUser := by
  constructor
  · rintro (⟨_, hnone⟩ | hall)
    · rw [hnone]
      simp
    · exact hall
  · exact Or.inr

theorem Call.confined_iff (call : Call) :
    call.Confined ↔ ∀ store ∈ call.filled, store.Fits := by
  simp only [← Store.inUser_iff]
  unfold Call.Confined Call.filled
  cases call.request with
  | none => simp
  | some request =>
      constructor
      · exact fun h => (Reply.confined_iff _).mp (h request rfl)
      · intro h other heq
        rw [← Option.some.inj heq]
        exact (Reply.confined_iff _).mpr h

/-! ## Inside what is asked for -/

/-- A part of a range. -/
def Store.Within (store area : Store) : Prop :=
  ∃ offset, store.address = area.address + UInt64.ofNat offset ∧
    offset + store.length ≤ area.length

theorem Store.Within.fits {store area : Store} (h : store.Within area) (hfits : area.Fits) :
    store.Fits := by
  obtain ⟨offset, haddress, hlength⟩ := h
  intro hne
  obtain ⟨hlow, hhigh⟩ := hfits (by omega)
  have hlimit : userLimit < 2 ^ 64 := by decide
  have hsmall : (UInt64.ofNat offset).toNat = offset := by
    rw [UInt64.toNat_ofNat']
    exact Nat.mod_eq_of_lt (by omega)
  rw [haddress, UInt64.toNat_add, hsmall, Nat.mod_eq_of_lt (by omega)]
  omega

/-- Each of the stores is in one of the areas. -/
def Covers (areas stores : List Store) : Prop :=
  ∀ store ∈ stores, store.length ≠ 0 → ∃ area ∈ areas, store.Within area

theorem covers_nil (areas : List Store) : Covers areas [] := nofun

theorem covers_empty (areas : List Store) (address : UInt64) : Covers areas [⟨address, 0⟩] := by
  intro store hstore hlength
  rw [List.mem_singleton.mp hstore] at hlength
  exact absurd rfl hlength

theorem Store.within_start {address : UInt64} {short length : ℕ} (h : short ≤ length) :
    Store.Within ⟨address, short⟩ ⟨address, length⟩ :=
  ⟨0, (UInt64.add_zero address).symm, by rwa [Nat.zero_add]⟩

theorem covers_of_subset {areas stores : List Store} (h : stores ⊆ areas) :
    Covers areas stores :=
  fun store hstore _ => ⟨store, h hstore, Store.within_start le_rfl⟩

theorem covers_refl (areas : List Store) : Covers areas areas :=
  covers_of_subset (List.Subset.refl _)

theorem covers_single {address : UInt64} {short length : ℕ} (h : short ≤ length) :
    Covers [⟨address, length⟩] [⟨address, short⟩] := by
  intro store hstore _
  rw [List.mem_singleton.mp hstore]
  exact ⟨_, List.mem_singleton_self _, Store.within_start h⟩

theorem covers_ite {areas stores : List Store} (c : Prop) [Decidable c]
    (h : Covers areas stores) : Covers areas (if c then stores else []) := by
  split
  · exact h
  · exact covers_nil _

theorem covers_reply {checks : List (PtrCheck × UInt64)} {refusal ret : ℤ}
    {areas stores : List Store} (h : Covers areas stores) :
    Covers (checked checks areas) (Request.reply ⟨checks, refusal, ret, stores⟩).stores := by
  unfold checked Request.reply Request.accepted
  dsimp only
  split
  · exact h
  · exact covers_nil _

theorem covers_same (areas : List Store) (checks : List (PtrCheck × UInt64)) (refusal ret : ℤ) :
    Covers (checked checks areas) (Request.reply ⟨checks, refusal, ret, areas⟩).stores :=
  covers_reply (covers_refl areas)

theorem covers_reply_nil (areas : List Store) (checks : List (PtrCheck × UInt64))
    (refusal ret : ℤ) : Covers areas (Request.reply ⟨checks, refusal, ret, []⟩).stores := by
  unfold Request.reply
  split
  · exact covers_nil _
  · exact covers_nil _

theorem covers_nonNull {p : UInt64} {areas stores : List Store} (h : Covers areas stores)
    (hnull : p = 0 → stores = []) : Covers (checked [(.nonNull, p)] areas) stores := by
  by_cases hp : p = 0
  · rw [hnull hp]
    exact covers_nil _
  · have hpass : checked [(.nonNull, p)] areas = areas :=
      if_pos (by simp [PtrCheck.passes, hp])
    rw [hpass]
    exact h

section Descriptors

variable (mounted : Mounted) {io : Io} {fd : ℤ} {count : ℕ}

theorem length_fsReadAt (files : Table) (node : ℕ) (count offset : ℤ) :
    (Descriptors.fsReadAt files node count offset).2.length ≤ count.toNat := by
  unfold Descriptors.fsReadAt
  dsimp only
  split_ifs
  · exact Nat.zero_le _
  · exact Nat.zero_le _
  · exact Nat.zero_le _
  · refine (List.length_take_le _ _).trans ?_
    omega

theorem toNat_toInt_le (n : ℕ) : (Descriptors.toInt n).toNat ≤ n := by
  unfold Descriptors.toInt Int.bmod
  dsimp only
  split
  · omega
  · omega

theorem length_fileRead (f : Fin Tasking.maxFds) :
    (Descriptors.fileRead mounted.vfs io f count).bytes.length ≤ count := by
  unfold Descriptors.fileRead
  dsimp only
  split
  · have hread := length_fsReadAt io.files ((io.fds f).flags - 1) (Descriptors.toInt count)
      (Descriptors.toInt (io.fds f).offset)
    split
    · exact hread.trans (toNat_toInt_le count)
    · exact hread.trans (toNat_toInt_le count)
  · split
    · exact Nat.zero_le _
    · exact mounted.within _ _

theorem length_sysRead {transfer : Transfer}
    (h : Descriptors.sysRead mounted.vfs io fd count = some transfer) :
    transfer.bytes.length ≤ count := by
  unfold Descriptors.sysRead Descriptors.pipeRead Descriptors.ptyRead at h
  dsimp only at h
  split at h
  · cases h
    exact Nat.zero_le _
  · rename_i f _
    split at h
    · split_ifs at h
      all_goals cases h
      all_goals simp [RingBuffer.Ring.peek, Io.fail]
    · split_ifs at h
      all_goals cases h
      all_goals simp [RingBuffer.Ring.peek]
    · cases h
      exact length_fileRead mounted f
    · cases h
      exact length_fileRead mounted f

theorem length_readAwake {woken rest : List Io} {transfer : Transfer}
    (h : Posix.readAwake mounted.vfs fd count io woken = some (transfer, rest)) :
    transfer.bytes.length ≤ count := by
  fun_induction Posix.readAwake mounted.vfs fd count io woken with
  | case1 io transfer woken hread =>
      cases h
      exact length_sysRead mounted hread
  | case2 => cases h
  | case3 io next woken hread ih => exact ih h

theorem covers_readvStores {woken : List Io} {total ret : ℤ} {vectors : List (UInt64 × UInt64)}
    {stores : List Store}
    (h : readvStores mounted.vfs fd io woken total vectors = some (ret, stores)) :
    Covers (vectors.map fun (base, len) => ⟨base, len.toUInt32.toNat⟩) stores := by
  induction vectors generalizing io woken total ret stores with
  | nil =>
      cases h
      exact covers_nil _
  | cons first rest ih =>
      obtain ⟨base, len⟩ := first
      unfold readvStores at h
      split at h
      · cases h
      · rename_i transfer woken hread
        have hfirst : Store.Within ⟨base, transfer.bytes.length⟩ ⟨base, len.toUInt32.toNat⟩ :=
          Store.within_start (length_readAwake mounted hread)
        split_ifs at h
        · cases h
          exact covers_nil _
        · cases h
          exact covers_nil _
        · cases h
          intro store hstore _
          rw [List.mem_singleton.mp hstore]
          exact ⟨_, List.mem_cons_self, hfirst⟩
        · obtain ⟨⟨ret, others⟩, hrest, heq⟩ := Option.map_eq_some_iff.mp h
          cases heq
          intro store hstore hlength
          rcases List.mem_cons.mp hstore with rfl | hother
          · exact ⟨_, List.mem_cons_self, hfirst⟩
          · obtain ⟨area, harea, hwithin⟩ := ih hrest store hother hlength
            exact ⟨area, List.mem_cons_of_mem _ harea, hwithin⟩

theorem length_epollScan_le (io : Io) (entries : List Descriptors.Entry) (room : ℕ) :
    (Descriptors.epollScan io entries room).length ≤ room := by
  fun_induction Descriptors.epollScan io entries room with
  | case1 => exact Nat.zero_le _
  | case2 => exact Nat.zero_le _
  | case3 entry rest room _ ih => exact Nat.succ_le_succ ih
  | case4 entry rest room _ ih => exact ih

end Descriptors

section Files

variable (buf : UInt64)

theorem covers_direntStores (files : Table) (room nth emitted : ℕ) (nodes : List Slot) :
    Covers [⟨buf, emitted + room⟩]
      (direntStores buf emitted (Posix.emitDirents files room nth nodes).1) := by
  induction nodes generalizing room nth emitted with
  | nil => exact covers_nil _
  | cons child rest ih =>
      rw [Posix.emitDirents]
      dsimp only
      split_ifs with hname hroom
      · exact ih room (nth + 1) emitted
      · exact covers_nil _
      · have hstored := (Posix.direntOf (files child) nth).stored_le_reclen
        have hrest := ih (room - (Posix.direntOf (files child) nth).reclen) (nth + 1)
          (emitted + (Posix.direntOf (files child) nth).reclen)
        intro store hstore hlength
        rcases List.mem_cons.mp hstore with rfl | hother
        · exact ⟨_, List.mem_singleton_self _, emitted, rfl, by dsimp only; omega⟩
        · obtain ⟨area, harea, hwithin⟩ := hrest store hother hlength
          rw [List.mem_singleton.mp harea, Nat.add_assoc,
            Nat.add_sub_cancel' (Nat.le_of_not_lt hroom)] at hwithin
          exact ⟨_, List.mem_singleton_self _, hwithin⟩

theorem covers_kSysGetdents64 (sys : System) (fd : ℤ) (count : UInt32) :
    Covers (checked [(.nonNull, buf)] [⟨buf, count.toNat⟩])
      (kSysGetdents64 sys fd buf count).stores := by
  unfold kSysGetdents64 Posix.sysGetdents64
  dsimp only
  split
  · split_ifs with hnull
    · exact covers_nil _
    · exact covers_nil _
    · refine covers_nonNull ?_ fun hp => absurd (by simp [hp]) hnull
      have hall := covers_direntStores buf sys.io.files count.toNat
      simpa using hall _ 0 _
  · exact covers_nil _

/-- `fs_pwd` fills no more than the buffer, but for a slash and a NUL. -/
theorem length_fsPwd (files : Table) (dir : Slot) (maxLen : ℤ) :
    ((Posix.fsPwd files dir maxLen).2.getD []).length ≤ max maxLen.toNat 2 := by
  unfold Posix.fsPwd
  split_ifs
  · simp
  · simp
  · simp only [Option.getD_some, List.length_append, List.length_cons, List.length_nil]
    have htaken := List.length_take_le (maxLen - 2).toNat
      (Posix.pwdUp files Posix.pwdMax dir.val []).reverse
    omega

theorem covers_kSysGetcwd (sys : System) (size : UInt64) :
    Covers (checked [(.nonNull, buf)] [⟨buf, max size.toNat 2⟩])
      (kSysGetcwd sys buf size).stores := by
  have hpwd := length_fsPwd sys.io.files sys.cwd (Descriptors.toInt size.toNat)
  have hsize := toNat_toInt_le size.toNat
  unfold kSysGetcwd Posix.sysGetcwd
  split_ifs with hnull
  · exact covers_empty _ _
  · exact covers_nonNull (covers_single (hpwd.trans (by omega))) fun hp => absurd (Or.inl hp) hnull

theorem covers_fsPwd (a b : UInt64) (files : Table) (cwd : Slot) :
    Covers (Call.asked (.fsPwd a b files cwd)) (fsPwd a b files cwd).reply.stores := by
  unfold fsPwd
  dsimp only [Call.asked]
  by_cases hsize : b = 0 ∨ 1024 < b.toNat
  · rw [if_pos hsize, if_pos hsize]
    exact covers_nil _
  · rw [if_neg hsize, if_neg hsize]
    have hb : b.toNat ≠ 0 := fun h => hsize (Or.inl (UInt64.toNat_inj.mp h))
    apply covers_reply
    intro store hstore _
    refine ⟨_, List.mem_singleton_self _, ?_⟩
    rcases List.mem_cons.mp hstore with rfl | hend
    · exact Store.within_start (Nat.min_le_right _ _)
    · rw [List.mem_singleton.mp hend]
      refine ⟨_, rfl, ?_⟩
      dsimp only
      split
      · omega
      · omega

/-- What `sys_ioctl` stores, it stores at an argument that is not null. -/
def StoresFor (req : ℕ) (arg : Option UInt32) : Posix.IoctlStore → Prop
  | .none => True
  | .winsize _ _ => req = Posix.tiocgwinsz ∧ arg ≠ none
  | .group _ => req ≠ Posix.tiocgwinsz ∧ arg ≠ none

theorem storesFor_sysIoctl (sys : System) (fd : ℤ) (req : ℕ) (arg : Option UInt32) :
    StoresFor req arg (Posix.sysIoctl sys fd req arg).2.1 := by
  unfold Posix.sysIoctl
  split
  · dsimp only
    split_ifs with htype hsize hnull hgroup hnull
    · trivial
    · trivial
    · exact ⟨hsize, hnull⟩
    · trivial
    · exact ⟨hsize, hnull⟩
    · trivial
    · trivial
  · trivial

theorem covers_kSysIoctl (sys : System) (fd : ℤ) (req : ℕ) (arg : UInt64) (word : UInt32) :
    Covers (Call.asked (.ioctl sys fd req arg word)) (kSysIoctl sys fd req arg word).stores := by
  have hstores := storesFor_sysIoctl sys fd req (if arg = 0 then none else some word)
  unfold kSysIoctl
  dsimp only [Call.asked]
  generalize (Posix.sysIoctl sys fd req (if arg = 0 then none else some word)).2.1 = stored
    at hstores ⊢
  cases stored with
  | none => exact covers_nil _
  | winsize rows cols =>
      rw [if_pos hstores.1]
      exact covers_nonNull (covers_single le_rfl) fun hp => absurd (if_pos hp) hstores.2
  | group pid =>
      rw [if_neg hstores.1]
      exact covers_nonNull (covers_single le_rfl) fun hp => absurd (if_pos hp) hstores.2

end Files

theorem Call.asked_covers (call : Call) {request : Request}
    (h : call.request = some request) : Covers call.asked request.reply.stores := by
  cases call with
  | read mounted io fd buf count =>
      obtain ⟨transfer, hread, rfl⟩ := Option.map_eq_some_iff.mp h
      exact covers_single (length_sysRead mounted hread)
  | readv mounted io woken fd iov =>
      rcases iov with _ | _ | ⟨first, rest⟩
      · cases h
        exact covers_nil _
      · cases h
        exact covers_nil _
      · obtain ⟨outcome, hread, rfl⟩ := Option.map_eq_some_iff.mp h
        exact covers_readvStores mounted hread
  | poll fdsU fds looks =>
      obtain ⟨⟨ret, revents⟩, hpoll, rfl⟩ := Option.map_eq_some_iff.mp h
      have hlength : revents.length ≤ fds.length := by
        unfold Descriptors.kSysPoll at hpoll
        split_ifs at hpoll
        · cases hpoll
          exact Nat.zero_le _
        · cases hpoll
          exact Nat.zero_le _
        · obtain ⟨⟨look, ready⟩, _, heq⟩ := Option.map_eq_some_iff.mp hpoll
          cases heq
          exact (List.length_map _).le
      apply covers_of_subset
      exact List.map_subset _ (List.range_subset.mpr hlength)
  | epollWait start cur epid out maxevents looks =>
      simp only [Call.request, kSysEpollWait, Descriptors.epollWait] at h
      split at h
      · cases h
        exact covers_nil _
      · cases h
      · rename_i look reports hwait
        cases h
        split at hwait
        · cases hwait
        · rename_i i _
          have hscan := (Descriptors.scan_of_waitLoop (Except.ok.inj hwait)).2
          have hlength := length_epollScan_le look.io (look.monitors i).entries
            (min maxevents eigenEpollMaxEnt).toNat
          intro store hstore _
          obtain ⟨n, hn, rfl⟩ := List.mem_map.mp hstore
          rw [hscan, List.mem_range] at hn
          refine ⟨_, List.mem_singleton_self _, 12 * n, rfl, ?_⟩
          dsimp only [Descriptors.EpollLook.scan] at hn ⊢
          omega
  | pipe _ made | winGetsize made | netResolve _ _ made =>
      cases h
      cases made with
      | false => exact covers_nil _
      | true => exact covers_same _ _ _ _
  | openpty fdsU io =>
      cases h
      unfold kSysOpenpty
      split
      · exact covers_nil _
      · exact covers_refl _
  | wait4 status child =>
      obtain ⟨id, _, rfl⟩ := Option.map_eq_some_iff.mp h
      refine covers_nonNull ?_ fun hnull => if_pos hnull
      by_cases hnull : status = 0
      · rw [hnull]
        exact covers_nil _
      · simp only [Request.reply, Request.accepted, List.all_nil, if_pos, if_neg hnull]
        exact covers_refl _
  | getdents64 sys fd buf count =>
      cases h
      exact covers_kSysGetdents64 buf sys fd count
  | stat sys path out =>
      cases h
      refine covers_nonNull (covers_ite _ (covers_refl _)) fun hnull => ?_
      cases path with
      | none => rfl
      | some path =>
          subst hnull
          rfl
  | fstat sys fd out | rtSigaction sys sig act oact =>
      cases h
      refine covers_nonNull (covers_ite _ (covers_refl _)) fun hnull => ?_
      refine if_neg ?_
      split
      · simp [hnull]
      · simp
  | getcwd sys buf size =>
      cases h
      exact covers_kSysGetcwd buf sys size
  | ioctl sys fd req arg word =>
      cases h
      exact covers_kSysIoctl sys fd req arg word
  | rtSigprocmask oldset size =>
      cases h
      refine covers_nonNull (covers_ite _ (covers_refl _)) fun hnull => ?_
      exact if_neg fun hboth => hboth.1 hnull
  | archPrctl sys code addr =>
      cases h
      refine covers_nonNull (covers_ite _ (covers_refl _)) fun hnull => ?_
      refine if_neg ?_
      split
      · simp
      · split_ifs
        all_goals simp
  | time op a =>
      cases h
      dsimp only [Call.asked]
      unfold kSysTime
      by_cases hop : op = eigenTimeGet
      · rw [if_pos hop, if_neg (not_not.mpr hop)]
        exact covers_same _ _ _ _
      · rw [if_pos hop]
        exact covers_nil _
  | uname | gettimeofday | clockGettime | sysinfo | gfxGetdims | gettheme =>
      cases h
      exact covers_same _ _ _ _
  | inputMouseDelta a2 a3 a4 =>
      cases h
      intro store hstore _
      obtain ⟨p, hp, rfl⟩ := List.mem_map.mp hstore
      obtain ⟨hmem, hpass⟩ := List.mem_filter.mp hp
      refine ⟨_, List.mem_flatMap.mpr ⟨p, hmem, ?_⟩, Store.within_start le_rfl⟩
      simp [checked, PtrCheck.passes, hpass]
  | winPoll b c queued =>
      cases h
      unfold UserStores.winPoll
      split
      · exact covers_reply_nil _ _ _ _
      · split
        · exact covers_reply_nil _ _ _ _
        · exact covers_reply (covers_single (Nat.mul_le_mul_right _ (Nat.min_le_right _ _)))
  | modload name dest maxbytes module =>
      cases h
      dsimp only [Call.asked]
      unfold kSysModload
      dsimp only
      split_ifs
      · exact covers_reply_nil _ _ _ _
      · split
        · exact covers_reply_nil _ _ _ _
        · exact covers_reply (covers_single (Nat.min_le_right _ _))
  | fsList a b listing =>
      cases h
      dsimp only [Call.asked]
      unfold UserStores.fsList
      split
      · exact covers_nil _
      · exact covers_reply (covers_single (Nat.min_le_right _ _))
  | fsSize _ _ found | settingsWallThumbRaw _ found =>
      cases h
      cases found with
      | none => exact covers_reply_nil _ _ _ _
      | some value => exact covers_same _ _ _ _
  | fsStat a b node =>
      cases h
      cases node with
      | none => exact covers_reply_nil _ _ _ _
      | some file =>
          apply covers_reply
          apply covers_of_subset
          split
          · exact List.Subset.refl _
          · exact List.subset_cons_self _ _
  | fsPwd a b files cwd =>
      cases h
      exact covers_fsPwd a b files cwd
  | settingsThemeGet id b total =>
      cases h
      unfold UserStores.settingsThemeGet
      split
      · exact covers_nil _
      · exact covers_same _ _ _ _
  | settingsWallGet i b count =>
      cases h
      unfold UserStores.settingsWallGet
      split
      · exact covers_reply_nil _ _ _ _
      · exact covers_same _ _ _ _
  | settingsWallThumb a arg scaled =>
      cases h
      unfold UserStores.settingsWallThumb
      dsimp only
      split
      · exact covers_reply_nil _ _ _ _
      · cases scaled with
        | none => exact covers_reply_nil _ _ _ _
        | some size => exact covers_same _ _ _ _
  | settingsWallPath a b file =>
      cases h
      exact covers_reply (covers_single (Nat.succ_le_succ (Nat.min_le_right _ _)))
  | netRecv b c received =>
      cases h
      cases received with
      | none => exact covers_nil _
      | some received => exact covers_reply (covers_single (Nat.min_le_left _ _))

def kernelAddress : UInt64 := 0xffffffff80100000

end EigenOS.UserStores
