import EigenOS.Descriptors.DataPath

/-!
# Output of a pseudo-terminal

What the slave writes goes to the ring that the master reads.  In cooked mode a byte that
finds no room is dropped, and is counted all the same.
-/

namespace EigenOS.Descriptors

open EigenOS.RingBuffer

/-- The master's stream, as far as it has not been read. -/
def Pty.stream (pty : Pty) : List UInt8 := pty.output.contents

/-- What the master is to see of the slave's bytes. -/
def Pty.expand (pty : Pty) (bytes : List UInt8) : List UInt8 :=
  if pty.raw then bytes else bytes.flatMap onlcr

/-- The result of a write by the slave says what was appended to the stream: the first bytes
of that number, and nothing if it is negative. -/
def AccountsFor (pty : Pty) (buf : List UInt8) : Prop :=
  (ptyWrite pty false buf).2.stream =
    pty.stream ++ pty.expand (buf.take (ptyWrite pty false buf).1.toNat)

section Write

variable {pty : Pty} {buf : List UInt8}

theorem accountsFor_of_unused (hused : pty.used = false) : AccountsFor pty buf := by
  have hexpand : pty.expand [] = [] := by
    unfold Pty.expand
    split <;> rfl
  unfold AccountsFor ptyWrite
  rw [if_pos hused]
  change pty.stream = pty.stream ++ pty.expand (buf.take 0)
  rw [List.take_zero, hexpand, List.append_nil]

theorem accountsFor_of_raw (hraw : pty.raw = true) : AccountsFor pty buf := by
  by_cases hused : pty.used = false
  · exact accountsFor_of_unused hused
  · have hexpand : ∀ bytes, pty.expand bytes = bytes := by
      intro bytes
      rw [Pty.expand, if_pos hraw]
    have hmode : ¬ pty.raw = false := by
      rw [hraw]
      decide
    unfold AccountsFor ptyWrite
    rw [if_neg hused, if_neg (by decide), if_neg hmode, hexpand]
    let wrote := min pty.output.room buf.length
    have hcount : (if wrote = 0 then -1 else (wrote : ℤ)).toNat = wrote := by
      by_cases hzero : wrote = 0
      · rw [if_pos hzero, hzero]
        rfl
      · rw [if_neg hzero, Int.toNat_natCast]
    have hroom : (buf.take wrote).length ≤ pty.output.room := by
      rw [List.length_take]
      exact (Nat.min_le_left _ _).trans (Nat.min_le_left _ _)
    change (pty.output.putAll (buf.take wrote)).contents = pty.output.contents ++ _
    rw [Ring.contents_putAll _ hroom]
    change _ = _ ++ buf.take (if wrote = 0 then -1 else (wrote : ℤ)).toNat
    rw [hcount]

variable (pty buf) in
theorem stream_ptyWrite_cooked (hused : pty.used = true) (hraw : pty.raw = false) :
    (ptyWrite pty false buf).1 = toInt buf.length ∧
      (ptyWrite pty false buf).2.stream =
        pty.stream ++ (pty.expand buf).take pty.output.room := by
  have hexpand : pty.expand buf = buf.flatMap onlcr := by
    rw [Pty.expand, hraw]
    rfl
  have hwrite : ptyWrite pty false buf =
      (toInt buf.length, { pty with output := pty.output.putAll (buf.flatMap onlcr) }) := by
    unfold ptyWrite
    rw [if_neg (by rw [hused]; decide), if_neg (by decide), if_pos hraw]
  rw [hwrite, hexpand]
  dsimp only
  exact ⟨Eq.refl _, Ring.contents_putAll_take pty.output _⟩

variable (pty buf) in
theorem length_le_expand : buf.length ≤ (pty.expand buf).length := by
  unfold Pty.expand
  split
  · exact le_rfl
  · induction buf with
    | nil => exact Nat.zero_le _
    | cons c rest ih =>
        have hpos : 1 ≤ (onlcr c).length := by
          unfold onlcr
          split <;> simp
        rw [List.flatMap_cons, List.length_append, List.length_cons]
        omega

/-- A write in cooked mode is counted rightly if and only if it fits, or the result is
negative and nothing at all was appended. -/
theorem accountsFor_cooked_iff (hlength : buf.length < 2 ^ 32) (hused : pty.used = true)
    (hraw : pty.raw = false) :
    AccountsFor pty buf ↔ (pty.expand buf).length ≤ pty.output.room ∨
      (2 ^ 31 ≤ buf.length ∧ pty.output.room = 0) := by
  obtain ⟨hret, hstream⟩ := stream_ptyWrite_cooked pty buf hused hraw
  unfold AccountsFor
  rw [hstream, hret, List.append_cancel_left_eq]
  by_cases hlarge : buf.length < 2 ^ 31
  · rw [toInt_eq hlarge, Int.toNat_natCast, List.take_length, List.take_eq_self_iff]
    constructor
    · exact Or.inl
    · intro hor
      exact hor.resolve_right fun h => absurd h.1 (not_le.mpr hlarge)
  · have hneg := toInt_neg (not_lt.mp hlarge) hlength
    have hempty : pty.expand (buf.take (toInt buf.length).toNat) = [] := by
      rw [Int.toNat_of_nonpos hneg.le, List.take_zero, Pty.expand, hraw]
      rfl
    have hsize : ptyBufSize = 8192 := rfl
    have hroom : pty.output.room < 8192 := by
      unfold Ring.room
      omega
    have hexpand := length_le_expand pty buf
    rw [hempty, List.take_eq_nil_iff]
    constructor
    · rintro (hfull | hnil)
      · exact Or.inr ⟨not_lt.mp hlarge, hfull⟩
      · rw [hnil, List.length_nil] at hexpand
        omega
    · rintro (hfits | ⟨_, hfull⟩)
      · omega
      · exact Or.inl hfull

/-- A write by the slave is counted rightly if and only if it cannot lose bytes: in raw mode
always, in cooked mode if everything fits. -/
theorem accountsFor_iff (hlength : buf.length < 2 ^ 32) :
    AccountsFor pty buf ↔ pty.used = false ∨ pty.raw = true ∨
      (pty.expand buf).length ≤ pty.output.room ∨
      (2 ^ 31 ≤ buf.length ∧ pty.output.room = 0) := by
  cases hused : pty.used with
  | false => exact ⟨fun _ => Or.inl rfl, fun _ => accountsFor_of_unused hused⟩
  | true =>
      cases hraw : pty.raw with
      | true => exact ⟨fun _ => Or.inr (Or.inl rfl), fun _ => accountsFor_of_raw hraw⟩
      | false =>
          rw [accountsFor_cooked_iff hlength hused hraw]
          simp

end Write

/-- A pseudo-terminal as `sys_openpty` leaves it. -/
def Pty.opened : Pty :=
  { Pty.zero with
    used := true, echo := true, cols := 80, rows := 24, masterRefs := 1, slaveRefs := 1 }

theorem room_opened : Pty.opened.output.room = 8191 := rfl

/-- So many newlines make two bytes each. -/
def newlines (count : ℕ) : List UInt8 := List.replicate count 10

theorem length_expand_newlines (count : ℕ) :
    (Pty.opened.expand (newlines count)).length = 2 * count := by
  change ((newlines count).flatMap onlcr).length = _
  induction count with
  | zero => rfl
  | succ count ih =>
      have honlcr : (onlcr 10).length = 2 := rfl
      rw [newlines, List.replicate_succ, List.flatMap_cons, List.length_append, honlcr]
      change 2 + ((newlines count).flatMap onlcr).length = _
      omega

/-- A line fits. -/
theorem accountsFor_iff_line :
    AccountsFor .opened (newlines 1) ∧ (Pty.opened.expand (newlines 1)).length ≤ 8191 := by
  have hfits : (Pty.opened.expand (newlines 1)).length ≤ Pty.opened.output.room := by
    rw [length_expand_newlines, room_opened]
    decide
  exact ⟨(accountsFor_iff (by decide)).mpr (Or.inr (Or.inr (Or.inl hfits))), hfits⟩

/-- Into an empty ring 4096 newlines are counted in full, but the last byte is lost. -/
theorem not_accountsFor_newlines : ¬ AccountsFor .opened (newlines 4096) := by
  have hlength : (newlines 4096).length = 4096 := List.length_replicate
  intro haccounts
  obtain hfits | ⟨_, hfull⟩ :=
    (accountsFor_cooked_iff (by omega) rfl rfl).mp haccounts
  · rw [length_expand_newlines, room_opened] at hfits
    omega
  · rw [room_opened] at hfull
    omega

end EigenOS.Descriptors
