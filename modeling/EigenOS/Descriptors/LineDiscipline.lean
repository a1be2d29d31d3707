import EigenOS.Descriptors.DataPath

/-!
# The line discipline

In cooked mode what is typed at the master is edited a line at a time, and the slave reads
complete lines.  Beside the pseudo-terminal stands an editor that says what the lines are:
it has no ring that can be full.
-/

namespace EigenOS.Terminal

open EigenOS.Descriptors
open EigenOS.RingBuffer
open EigenOS.Transition

/-! ## Lines as they are edited -/

/-- Carriage return, newline and end-of-file complete a line. -/
def Completes (c : UInt8) : Prop := c = 13 ∨ c = 10 ∨ c = 4

/-- Backspace and delete. -/
def Erases (c : UInt8) : Prop := c = 8 ∨ c = 127

/-- ^C. -/
def Kills (c : UInt8) : Prop := c = 3

def Prints (c : UInt8) : Prop := 32 ≤ c ∧ c < 127

instance (c : UInt8) : Decidable (Completes c) :=
  inferInstanceAs (Decidable (c = 13 ∨ c = 10 ∨ c = 4))

instance (c : UInt8) : Decidable (Erases c) := inferInstanceAs (Decidable (c = 8 ∨ c = 127))

instance (c : UInt8) : Decidable (Kills c) := inferInstanceAs (Decidable (c = 3))

instance (c : UInt8) : Decidable (Prints c) := inferInstanceAs (Decidable (32 ≤ c ∧ c < 127))

/-- The line that is edited, and those that are complete, each without its newline. -/
structure Editor where
  line : List UInt8
  completed : List (List UInt8)

/-- A byte is typed, where a line takes up to `limit` characters. -/
def Editor.key (limit : ℕ) (editor : Editor) (c : UInt8) : Editor :=
  if Completes c then ⟨[], editor.completed ++ [editor.line]⟩
  else if Erases c then { editor with line := editor.line.dropLast }
  else if Kills c then { editor with line := [] }
  else if Prints c ∧ editor.line.length < limit then { editor with line := editor.line ++ [c] }
  else editor

/-- Lines as the slave reads them. -/
def text (lines : List (List UInt8)) : List UInt8 := lines.flatMap fun line => line ++ [10]

/-! ## A terminal session -/

/-- `pty_set_raw`, of a pseudo-terminal that is in use. -/
def ptySetRaw (pty : Pty) (raw : Bool) : Pty :=
  if pty.used = false then pty
  else { pty with raw := raw, line := if raw then pty.line else [] }

/-- The edit buffer no longer holds the line as edited: a line that does not fit in the ring
is left in it, or it does not take a character. -/
def Spoils (limit : ℕ) (pty : Pty) (c : UInt8) : Prop :=
  (Completes c ∧ pty.line ≠ [] ∧ pty.input.room < pty.line.length + 1) ∨
    (Prints c ∧ ¬ (pty.line.length < ptyLineMax - 1 ↔ pty.line.length < limit))

instance (limit : ℕ) (pty : Pty) (c : UInt8) : Decidable (Spoils limit pty c) :=
  inferInstanceAs (Decidable (_ ∨ _))

/-- A pseudo-terminal in cooked mode, what was typed at it and what its slave has read.  The
edit buffer is `spoiled` until a ^C. -/
structure Session where
  pty : Pty
  editor : Editor
  delivered : List UInt8
  spoiled : Bool

inductive Action where
  | key (c : UInt8)
  | slaveRead (count : ℕ) (nonblock : Bool)
  | masterRead (count : ℕ) (nonblock : Bool)
  | slaveWrite (buf : List UInt8)
  | setCooked

namespace Session

def key (limit : ℕ) (session : Session) (c : UInt8) : Session where
  pty := ptyInputByte session.pty c
  editor := session.editor.key limit c
  delivered := session.delivered
  spoiled := !decide (Kills c) && (session.spoiled || decide (Spoils limit session.pty c))

def slaveRead (session : Session) (count : ℕ) (nonblock : Bool) : Session :=
  match ptyRead session.pty false count nonblock with
  | none => session
  | some (_, bytes, pty) => { session with pty := pty, delivered := session.delivered ++ bytes }

def masterRead (session : Session) (count : ℕ) (nonblock : Bool) : Session :=
  match ptyRead session.pty true count nonblock with
  | none => session
  | some (_, _, pty) => { session with pty := pty }

/-- The mode is set to cooked again, which gives up the line that is edited. -/
def setCooked (session : Session) : Session where
  pty := ptySetRaw session.pty false
  editor := { session.editor with line := [] }
  delivered := session.delivered
  spoiled := false

def act (limit : ℕ) (session : Session) : Action → Session
  | .key c => session.key limit c
  | .slaveRead count nonblock => session.slaveRead count nonblock
  | .masterRead count nonblock => session.masterRead count nonblock
  | .slaveWrite buf => { session with pty := (ptyWrite session.pty false buf).2 }
  | .setCooked => session.setCooked

/-- A pseudo-terminal as `sys_openpty` leaves it. -/
def opened : Session where
  pty := { Pty.zero with
    used := true, echo := true, cols := 80, rows := 24, masterRefs := 1, slaveRefs := 1 }
  editor := ⟨[], []⟩
  delivered := []
  spoiled := false

/-- What the slave has read, and then what waits for it, is the text of some of the complete
lines in their order. -/
def Whole (session : Session) : Prop :=
  ∃ lines : List (List UInt8), lines.Sublist session.editor.completed ∧
    session.delivered ++ session.pty.input.contents = text lines

/-- No line is completed in an edit buffer that is spoiled. -/
def Kept (session : Session) (action : Action) (_ : Session) : Prop :=
  match action with
  | .key c => Completes c → session.spoiled = false
  | _ => True

instance (session : Session) (action : Action) (next : Session) :
    Decidable (session.Kept action next) :=
  match action with
  | .key c => inferInstanceAs (Decidable (Completes c → session.spoiled = false))
  | .slaveRead _ _ => .isTrue trivial
  | .masterRead _ _ => .isTrue trivial
  | .slaveWrite _ => .isTrue trivial
  | .setCooked => .isTrue trivial

end Session

/-! ## The edit buffer and the ring -/

section Fields

variable (pty : Pty) (bytes : List UInt8)

@[simp]
theorem ptyEcho_input : (ptyEcho pty bytes).input = pty.input := by
  unfold ptyEcho
  split <;> rfl

@[simp]
theorem ptyEcho_line : (ptyEcho pty bytes).line = pty.line := by
  unfold ptyEcho
  split <;> rfl

@[simp]
theorem ptyEcho_used : (ptyEcho pty bytes).used = pty.used := by
  unfold ptyEcho
  split <;> rfl

@[simp]
theorem ptyEcho_raw : (ptyEcho pty bytes).raw = pty.raw := by
  unfold ptyEcho
  split <;> rfl

/-- A byte that is typed changes neither the mode nor whether the pseudo-terminal is in use. -/
theorem ptyInputByte_mode (c : UInt8) :
    (ptyInputByte pty c).used = pty.used ∧ (ptyInputByte pty c).raw = pty.raw := by
  unfold ptyInputByte ptyCommitLine ptyEraseChar
  split_ifs <;> simp

/-- A line is taken into the ring, or it does not fit and everything stays as it is. -/
theorem ptyCommitLine_cases :
    ((ptyCommitLine pty).input.contents = pty.input.contents ++ (pty.line ++ [10]) ∧
        (ptyCommitLine pty).line = []) ∨
      ((ptyCommitLine pty).input.contents = pty.input.contents ∧
        (ptyCommitLine pty).line = pty.line ∧ pty.input.room < pty.line.length + 1) := by
  unfold ptyCommitLine
  by_cases hroom : pty.input.room < pty.line.length + 1
  · rw [if_pos hroom]
    exact Or.inr ⟨rfl, rfl, hroom⟩
  · rw [if_neg hroom]
    refine Or.inl ⟨?_, rfl⟩
    apply Ring.contents_putAll
    rw [List.length_append, List.length_singleton]
    exact not_lt.mp hroom

theorem ptyInputByte_completes {c : UInt8} (hc : Completes c) :
    ((ptyInputByte pty c).input.contents = pty.input.contents ++ (pty.line ++ [10]) ∧
        (ptyInputByte pty c).line = []) ∨
      ((ptyInputByte pty c).input.contents = pty.input.contents ∧
        (ptyInputByte pty c).line = pty.line ∧ pty.input.room < pty.line.length + 1) := by
  have hreturn : ((ptyCommitLine (ptyEcho pty [13, 10])).input.contents =
        pty.input.contents ++ (pty.line ++ [10]) ∧
        (ptyCommitLine (ptyEcho pty [13, 10])).line = []) ∨
      ((ptyCommitLine (ptyEcho pty [13, 10])).input.contents = pty.input.contents ∧
        (ptyCommitLine (ptyEcho pty [13, 10])).line = pty.line ∧
        pty.input.room < pty.line.length + 1) := by
    simpa using ptyCommitLine_cases (ptyEcho pty [13, 10])
  rcases hc with rfl | rfl | rfl
  · exact hreturn
  · exact hreturn
  · by_cases hline : pty.line = []
    · by_cases hroom : pty.input.room = 0
      · right
        simp [ptyInputByte, hline, hroom, Ring.put]
      · left
        simp [ptyInputByte, hline, Ring.contents_put _ hroom]
    · have hcommit : ptyInputByte pty 4 = ptyCommitLine pty := if_neg hline
      rw [hcommit]
      exact ptyCommitLine_cases pty

theorem ptyInputByte_edits {c : UInt8} (hc : ¬ Completes c) :
    (ptyInputByte pty c).input = pty.input ∧
      (ptyInputByte pty c).line =
        if Erases c then pty.line.dropLast
        else if Kills c then []
        else if Prints c ∧ pty.line.length < ptyLineMax - 1 then pty.line ++ [c]
        else pty.line := by
  have hreturn : ¬ (c = 13 ∨ c = 10) := fun h => hc (by
    rcases h with h | h
    · exact Or.inl h
    · exact Or.inr (Or.inl h))
  have hend : c ≠ 4 := fun h => hc (Or.inr (Or.inr h))
  unfold ptyInputByte
  rw [if_neg hreturn]
  by_cases herase : c = 8 ∨ c = 127
  · rw [if_pos herase, if_pos (show Erases c from herase), ptyEraseChar]
    by_cases hline : pty.line = []
    · rw [if_pos hline, hline]
      exact ⟨rfl, rfl⟩
    · rw [if_neg hline]
      simp
  · rw [if_neg herase, if_neg (show ¬ Erases c from herase)]
    by_cases hkill : c = 3
    · rw [if_pos hkill, if_pos (show Kills c from hkill)]
      simp
    · rw [if_neg hkill, if_neg (show ¬ Kills c from hkill), if_neg hend]
      by_cases hprint : 32 ≤ c ∧ c < 127
      · rw [if_pos hprint]
        by_cases hlength : pty.line.length < ptyLineMax - 1
        · rw [if_pos hlength, if_pos ⟨hprint, hlength⟩]
          simp
        · rw [if_neg hlength, if_neg fun h => hlength h.2]
          simp
      · rw [if_neg hprint, if_neg fun h => hprint h.1]
        exact ⟨rfl, rfl⟩

end Fields

/-! ## Sessions -/

namespace Session

variable (limit : ℕ) {session : Session}

/-- The edit buffer holds the line as edited unless it is spoiled. -/
structure Sound (session : Session) : Prop where
  used : session.pty.used = true
  cooked : session.pty.raw = false
  agrees : session.spoiled = false → session.pty.line = session.editor.line
  whole : session.Whole

/-- What is typed a byte at a time is what the master writes at once. -/
theorem pty_typed (hsound : session.Sound) (buf : List UInt8) (hlength : buf.length < 2 ^ 31) :
    (buf.foldl (Session.key limit) session).pty = (ptyWrite session.pty true buf).2 := by
  have hint : 0 ≤ toInt buf.length := by
    rw [toInt_eq hlength]
    exact Int.natCast_nonneg _
  rw [ptyWrite, if_neg (by rw [hsound.used]; decide), if_pos rfl, if_pos hint, ptyInput,
    hsound.cooked, if_neg Bool.false_ne_true]
  exact (List.foldl_hom Session.pty fun _ _ => rfl).symm

theorem text_append (lines : List (List UInt8)) (line : List UInt8) :
    text (lines ++ [line]) = text lines ++ (line ++ [10]) := by
  rw [text, List.flatMap_append, List.flatMap_singleton, text]

theorem Sound.completes (hsound : session.Sound) {c : UInt8} (hc : Completes c)
    (hkept : session.spoiled = false) : (session.key limit c).Sound := by
  have hkill : ¬ Kills c := by
    rintro rfl
    exact absurd hc (by decide)
  have heditor : session.editor.key limit c = ⟨[], session.editor.completed ++ [session.editor.line]⟩ :=
    if_pos hc
  have hmode := ptyInputByte_mode session.pty c
  have hline := hsound.agrees hkept
  obtain ⟨lines, hsub, htext⟩ := hsound.whole
  rcases ptyInputByte_completes session.pty hc with ⟨hcontents, hempty⟩ | ⟨hcontents, hsame, hroom⟩
  · constructor
    · exact hmode.1.trans hsound.used
    · exact hmode.2.trans hsound.cooked
    · intro _
      change (ptyInputByte session.pty c).line = (session.editor.key limit c).line
      rw [hempty, heditor]
    · refine ⟨lines ++ [session.editor.line], ?_, ?_⟩
      · change (lines ++ [session.editor.line]).Sublist (session.editor.key limit c).completed
        rw [heditor]
        exact hsub.append (List.Sublist.refl _)
      · change session.delivered ++ (ptyInputByte session.pty c).input.contents = _
        rw [hcontents, ← List.append_assoc, htext, text_append, hline]
  · constructor
    · exact hmode.1.trans hsound.used
    · exact hmode.2.trans hsound.cooked
    · intro hclean
      change (ptyInputByte session.pty c).line = (session.editor.key limit c).line
      rw [hsame, heditor]
      by_contra hleft
      have hspoils : Spoils limit session.pty c := Or.inl ⟨hc, hleft, hroom⟩
      change (!decide (Kills c) && (session.spoiled || decide (Spoils limit session.pty c))) = false
        at hclean
      rw [decide_eq_false hkill, decide_eq_true hspoils, Bool.or_true] at hclean
      exact absurd hclean (by decide)
    · refine ⟨lines, ?_, ?_⟩
      · change lines.Sublist (session.editor.key limit c).completed
        rw [heditor]
        exact hsub.trans (List.sublist_append_left _ _)
      · change session.delivered ++ (ptyInputByte session.pty c).input.contents = _
        rw [hcontents, htext]

/-- What is typed is edited in the edit buffer as in the line, where it is not spoiled. -/
theorem Sound.edits (hsound : session.Sound) {c : UInt8} (hc : ¬ Completes c) :
    (session.key limit c).Sound := by
  have hmode := ptyInputByte_mode session.pty c
  obtain ⟨hinput, hline⟩ := ptyInputByte_edits session.pty hc
  have hcompleted : (session.editor.key limit c).completed = session.editor.completed := by
    unfold Editor.key
    rw [if_neg hc]
    split_ifs <;> rfl
  constructor
  · exact hmode.1.trans hsound.used
  · exact hmode.2.trans hsound.cooked
  · intro hclean
    change (!decide (Kills c) && (session.spoiled || decide (Spoils limit session.pty c))) = false
      at hclean
    change (ptyInputByte session.pty c).line = (session.editor.key limit c).line
    rw [hline]
    unfold Editor.key
    rw [if_neg hc]
    by_cases hkill : Kills c
    · have herase : ¬ Erases c := by
        rw [hkill]
        decide
      rw [if_neg herase, if_neg herase, if_pos hkill, if_pos hkill]
    · rw [decide_eq_false hkill, Bool.not_false, Bool.true_and, Bool.or_eq_false_iff] at hclean
      have hsame := hsound.agrees hclean.1
      have hspoils := of_decide_eq_false hclean.2
      rw [hsame, if_neg hkill, if_neg hkill]
      by_cases herase : Erases c
      · rw [if_pos herase, if_pos herase]
      · rw [if_neg herase, if_neg herase]
        by_cases hprint : Prints c
        · have hlimits : session.pty.line.length < ptyLineMax - 1 ↔
              session.pty.line.length < limit := by
            by_contra hdiffer
            exact hspoils (Or.inr ⟨hprint, hdiffer⟩)
          rw [hsame] at hlimits
          by_cases hlength : session.editor.line.length < limit
          · rw [if_pos ⟨hprint, hlimits.mpr hlength⟩, if_pos ⟨hprint, hlength⟩]
          · rw [if_neg fun h => hlength (hlimits.mp h.2), if_neg fun h => hlength h.2]
        · rw [if_neg fun h => hprint h.1, if_neg fun h => hprint h.1]
  · obtain ⟨lines, hsub, htext⟩ := hsound.whole
    refine ⟨lines, ?_, ?_⟩
    · change lines.Sublist (session.editor.key limit c).completed
      rw [hcompleted]
      exact hsub
    · change session.delivered ++ (ptyInputByte session.pty c).input.contents = _
      rw [hinput, htext]

theorem slaveRead_eq (hused : session.pty.used = true) (count : ℕ) (nonblock : Bool) :
    let n := min session.pty.input.avail (min count 4096)
    session.slaveRead count nonblock = { session with
      pty := { session.pty with input := session.pty.input.drop n }
      delivered := session.delivered ++ session.pty.input.peek n } := by
  have hsource : session.pty.source false = session.pty.input := rfl
  unfold Session.slaveRead ptyRead
  rw [if_neg (by rw [hused]; decide), hsource]
  dsimp only
  by_cases hsome : 0 < min session.pty.input.avail (min count 4096)
  · rw [if_pos hsome]
    rfl
  · have hzero := Nat.eq_zero_of_not_pos hsome
    have hnothing : session.delivered ++ session.pty.input.peek 0 = session.delivered :=
      List.append_nil _
    rw [if_neg hsome, hzero, Ring.drop_zero, hnothing]
    cases nonblock with
    | true =>
        rw [if_pos rfl]
        exact congrArg (fun bytes => { session with delivered := bytes }) (List.append_nil _)
    | false =>
        rw [if_neg (by decide)]
        by_cases hpeer : session.pty.peerRefs false = 0
        · rw [if_pos hpeer]
          exact congrArg (fun bytes => { session with delivered := bytes }) (List.append_nil _)
        · rw [if_neg hpeer]

theorem Sound.slaveRead (hsound : session.Sound) (count : ℕ) (nonblock : Bool) :
    (session.slaveRead count nonblock).Sound := by
  rw [slaveRead_eq hsound.used]
  constructor
  · exact hsound.used
  · exact hsound.cooked
  · exact hsound.agrees
  · obtain ⟨lines, hsub, htext⟩ := hsound.whole
    refine ⟨lines, hsub, ?_⟩
    dsimp only
    rw [List.append_assoc, Ring.peek_append_contents_drop _ (min_le_left _ _)]
    exact htext

theorem Sound.frame (hsound : session.Sound) {pty : Pty} (hused : pty.used = session.pty.used)
    (hraw : pty.raw = session.pty.raw) (hline : pty.line = session.pty.line)
    (hinput : pty.input = session.pty.input) : ({ session with pty := pty } : Session).Sound := by
  constructor
  · exact hused.trans hsound.used
  · exact hraw.trans hsound.cooked
  · intro hclean
    exact hline.trans (hsound.agrees hclean)
  · obtain ⟨lines, hsub, htext⟩ := hsound.whole
    refine ⟨lines, hsub, ?_⟩
    change session.delivered ++ pty.input.contents = _
    rw [hinput, htext]

theorem Sound.masterRead (hsound : session.Sound) (count : ℕ) (nonblock : Bool) :
    (session.masterRead count nonblock).Sound := by
  unfold Session.masterRead ptyRead
  rw [if_neg (by rw [hsound.used]; decide)]
  dsimp only
  split_ifs
  · exact hsound.frame rfl rfl rfl rfl
  · exact hsound
  · exact hsound
  · exact hsound

theorem Sound.slaveWrite (hsound : session.Sound) (buf : List UInt8) :
    ({ session with pty := (ptyWrite session.pty false buf).2 } : Session).Sound := by
  unfold ptyWrite
  rw [if_neg (by rw [hsound.used]; decide), if_neg (by decide), if_pos hsound.cooked]
  exact hsound.frame rfl rfl rfl rfl

theorem Sound.setCooked (hsound : session.Sound) : session.setCooked.Sound := by
  have hpty : ptySetRaw session.pty false = { session.pty with raw := false, line := [] } :=
    if_neg (by rw [hsound.used]; decide)
  unfold Session.setCooked
  rw [hpty]
  exact ⟨hsound.used, rfl, fun _ => rfl, hsound.whole⟩

theorem Sound.act (hsound : session.Sound) (action : Action)
    (hkept : session.Kept action (session.act limit action)) :
    (session.act limit action).Sound := by
  cases action with
  | key c =>
      by_cases hc : Completes c
      · exact hsound.completes limit hc (hkept hc)
      · exact hsound.edits limit hc
  | slaveRead count nonblock => exact hsound.slaveRead count nonblock
  | masterRead count nonblock => exact hsound.masterRead count nonblock
  | slaveWrite buf => exact hsound.slaveWrite buf
  | setCooked => exact hsound.setCooked

theorem sound_opened : opened.Sound := ⟨rfl, rfl, fun _ => rfl, [], List.Sublist.refl _, rfl⟩

/-- The slave reads whole lines only, as long as no line is completed in an edit buffer that
is spoiled. -/
theorem always_whole (actions : List Action)
    (hkept : Along Kept opened (trace (act limit) opened actions)) :
    Always Whole opened (trace (act limit) opened actions) := by
  have hsound : Always Sound opened (trace (act limit) opened actions) := by
    apply always_of_guarded Sound _ sound_opened (along_trace _ opened actions) hkept
    intro before action after hbefore hguard hafter
    rw [hafter] at hguard ⊢
    exact hbefore.act limit action hguard
  exact hsound.mono fun _ h => h.whole

/-- A line is typed and read. -/
theorem always_whole_typed :
    Always Whole opened (trace (act 511) opened [.key 97, .key 13, .slaveRead 80 true]) ∧
      (final opened (trace (act 511) opened [.key 97, .key 13, .slaveRead 80 true])).delivered =
        [97, 10] :=
  ⟨always_whole 511 _ (by decide), by decide⟩

/-! ## Two lines that are merged -/

theorem text_cons (line : List UInt8) (rest : List (List UInt8)) :
    text (line :: rest) = line ++ 10 :: text rest := by
  rw [text, List.flatMap_cons, List.append_assoc, text, List.singleton_append]

theorem takeWhile_text_cons {line : List UInt8} (hline : (10 : UInt8) ∉ line)
    (rest : List (List UInt8)) : (text (line :: rest)).takeWhile (· ≠ 10) = line := by
  have hall : ∀ c ∈ line, decide (c ≠ 10) = true := by
    intro c hc
    apply decide_eq_true
    rintro rfl
    exact hline hc
  rw [text_cons, List.takeWhile_append_of_pos hall, List.takeWhile_cons_of_neg (by decide),
    List.append_nil]

theorem text_injective {left right : List (List UInt8)} (hleft : ∀ line ∈ left, (10 : UInt8) ∉ line)
    (hright : ∀ line ∈ right, (10 : UInt8) ∉ line) (heq : text left = text right) :
    left = right := by
  induction left generalizing right with
  | nil =>
      cases right with
      | nil => rfl
      | cons line rest => simp [text] at heq
  | cons line rest ih =>
      cases right with
      | nil => simp [text] at heq
      | cons line' rest' =>
          have hline : line = line' :=
            calc
              line = (text (line :: rest)).takeWhile (· ≠ 10) :=
                (takeWhile_text_cons (hleft line (List.mem_cons_self ..)) rest).symm
              _ = (text (line' :: rest')).takeWhile (· ≠ 10) := by rw [heq]
              _ = line' := takeWhile_text_cons (hright line' (List.mem_cons_self ..)) rest'
          subst hline
          rw [text_cons, text_cons] at heq
          have hrest : text rest = text rest' := List.tail_eq_of_cons_eq (List.append_cancel_left heq)
          rw [ih (fun l hl => hleft l (List.mem_cons_of_mem _ hl))
            (fun l hl => hright l (List.mem_cons_of_mem _ hl)) hrest]

/-- Empty lines only have been typed, and none was read. -/
structure Blank (lines : ℕ) (session : Session) : Prop where
  used : session.pty.used = true
  delivered : session.delivered = []
  line : session.pty.line = []
  contents : session.pty.input.contents = List.replicate lines 10
  editor : session.editor = ⟨[], List.replicate lines []⟩

theorem Blank.key {lines : ℕ} (hblank : session.Blank lines) (hroom : lines < ptyBufSize - 1) :
    (session.key limit 13).Blank (lines + 1) := by
  have havail : session.pty.input.avail = lines := by
    rw [← Ring.length_contents, hblank.contents, List.length_replicate]
  rcases ptyInputByte_completes session.pty (c := 13) (by decide) with
    ⟨hcontents, hline⟩ | ⟨_, _, hfull⟩
  · constructor
    · exact (ptyInputByte_mode session.pty 13).1.trans hblank.used
    · exact hblank.delivered
    · exact hline
    · change (ptyInputByte session.pty 13).input.contents = _
      rw [hcontents, hblank.contents, hblank.line, List.replicate_succ']
      rfl
    · change session.editor.key limit 13 = _
      rw [hblank.editor, List.replicate_succ']
      rfl
  · rw [hblank.line, List.length_nil, Ring.room, havail] at hfull
    omega

theorem Blank.final {lines : ℕ} (hblank : session.Blank lines) (count : ℕ)
    (hroom : lines + count ≤ ptyBufSize - 1) :
    (final session (trace (act limit) session (List.replicate count (.key 13)))).Blank
      (lines + count) := by
  induction count generalizing session lines with
  | zero => exact hblank
  | succ count ih =>
      rw [Nat.add_comm count 1, ← Nat.add_assoc] at hroom ⊢
      rw [Nat.add_comm 1 count]
      exact ih (hblank.key limit (by omega)) hroom

/-- Empty lines are typed, then `a`, some is read, and `b` is typed. -/
def mergedLines (blanks : ℕ) : List Action :=
  List.replicate blanks (.key 13) ++ [.key 97, .key 13, .slaveRead 4096 true, .key 98, .key 13]

/-- The line `a` does not fit and is left in the edit buffer. -/
theorem Blank.left {blanks : ℕ} (hblank : session.Blank blanks) (hblanks : blanks = 8190) :
    let left := (session.key 511 97).key 511 13
    left.pty.used = true ∧ left.delivered = [] ∧ left.pty.line = [97] ∧
      left.pty.input.contents = List.replicate blanks 10 ∧
      left.editor = ⟨[], List.replicate blanks [] ++ [[97]]⟩ := by
  obtain ⟨hinput, hline⟩ := ptyInputByte_edits session.pty (c := 97) (by decide)
  have hline' : (session.key 511 97).pty.line = [97] := by
    change (ptyInputByte session.pty 97).line = _
    rw [hline, hblank.line]
    decide
  have hcontents : (session.key 511 97).pty.input.contents = List.replicate blanks 10 := by
    change (ptyInputByte session.pty 97).input.contents = _
    rw [hinput, hblank.contents]
  have heditor : (session.key 511 97).editor = ⟨[97], List.replicate blanks []⟩ := by
    change session.editor.key 511 97 = _
    rw [hblank.editor]
    rfl
  rcases ptyInputByte_completes (session.key 511 97).pty (c := 13) (by decide) with
    ⟨hput, _⟩ | ⟨hput, hsame, _⟩
  · -- the ring cannot hold as much
    have hlength := Ring.avail_lt (ptyInputByte (session.key 511 97).pty 13).input
    rw [← Ring.length_contents, hput, hcontents, hline', List.length_append,
      List.length_replicate, hblanks] at hlength
    exact absurd hlength (by decide)
  · refine ⟨?_, hblank.delivered, hsame.trans hline', hput.trans hcontents, ?_⟩
    · exact ((ptyInputByte_mode _ 13).1.trans (ptyInputByte_mode _ 97).1).trans hblank.used
    · change (session.key 511 97).editor.key 511 13 = _
      rw [heditor]
      rfl

theorem completes_merged {lines : List (List UInt8)} {waiting : List UInt8}
    (hroom : session.pty.input.avail < 8000) (hline : session.pty.line = [97])
    (heditor : session.editor = ⟨[], lines⟩)
    (hwaiting : session.delivered ++ session.pty.input.contents = waiting) :
    let after := (session.key 511 98).key 511 13
    after.delivered ++ after.pty.input.contents = waiting ++ [97, 98, 10] ∧
      after.editor.completed = lines ++ [[98]] := by
  obtain ⟨hinput, hedited⟩ := ptyInputByte_edits session.pty (c := 98) (by decide)
  have hline' : (session.key 511 98).pty.line = [97, 98] := by
    change (ptyInputByte session.pty 98).line = _
    rw [hedited, hline]
    decide
  have hinput' : (session.key 511 98).pty.input = session.pty.input := hinput
  rcases ptyInputByte_completes (session.key 511 98).pty (c := 13) (by decide) with
    ⟨hput, _⟩ | ⟨_, _, hfull⟩
  · constructor
    · change session.delivered ++ (ptyInputByte (session.key 511 98).pty 13).input.contents = _
      rw [hput, hinput', hline', ← List.append_assoc, hwaiting]
      rfl
    · change ((session.editor.key 511 98).key 511 13).completed = _
      rw [heditor]
      rfl
  · rw [hinput', hline', Ring.room] at hfull
    change ptyBufSize - 1 - session.pty.input.avail < 3 at hfull
    have hsize : ptyBufSize = 8192 := rfl
    omega

theorem text_blankLines (blanks : ℕ) :
    text (List.replicate blanks []) = List.replicate blanks 10 := by
  rw [text, List.flatMap_replicate, List.nil_append, List.flatten_replicate_singleton]

/-- A line `ab` is no text of empty lines, `a` and `b`. -/
theorem text_ne_merged {blanks : ℕ} {lines : List (List UInt8)}
    (hsub : lines.Sublist (List.replicate blanks [] ++ [[97]] ++ [[98]])) :
    text lines ≠ List.replicate blanks 10 ++ [97, 98, 10] := by
  intro htext
  have hshort : ∀ line ∈ lines, line = [] ∨ line = [97] ∨ line = [98] := by
    intro line hl
    have hmem := hsub.subset hl
    rw [List.mem_append, List.mem_append, List.mem_singleton, List.mem_singleton] at hmem
    rcases hmem with (hempty | ha) | hb
    · exact Or.inl (List.eq_of_mem_replicate hempty)
    · exact Or.inr (Or.inl ha)
    · exact Or.inr (Or.inr hb)
  have hparsed : text lines = text (List.replicate blanks [] ++ [[97, 98]]) := by
    rw [htext, text_append, text_blankLines, List.cons_append, List.cons_append, List.nil_append]
  have hleft : ∀ line ∈ lines, (10 : UInt8) ∉ line := by
    intro line hl
    rcases hshort line hl with rfl | rfl | rfl
    all_goals decide
  have hright : ∀ line ∈ List.replicate blanks [] ++ [[97, 98]], (10 : UInt8) ∉ line := by
    intro line hl
    rcases List.mem_append.mp hl with hempty | hlast
    · rw [List.eq_of_mem_replicate hempty]
      decide
    · rw [List.mem_singleton.mp hlast]
      decide
  have hmem : [97, 98] ∈ lines := by
    rw [text_injective hleft hright hparsed]
    exact List.mem_append_right _ (List.mem_singleton_self _)
  rcases hshort _ hmem with h | h | h
  all_goals exact absurd h (by decide)

theorem not_whole_of_left {blanks : ℕ} (hblanks : blanks = 8190) :
    ¬ (final opened (trace (act 511) opened (mergedLines blanks))).Whole := by
  have hblank : (final opened (trace (act 511) opened (List.replicate blanks (.key 13)))).Blank
      blanks := by
    have hstart : opened.Blank 0 := ⟨rfl, rfl, rfl, rfl, rfl⟩
    have hfinal := hstart.final 511 blanks (by rw [hblanks]; decide)
    rwa [Nat.zero_add] at hfinal
  rw [mergedLines, final_trace_append]
  generalize final opened (trace (act 511) opened (List.replicate blanks (.key 13))) = session at hblank
  obtain ⟨hused, hdelivered, hline, hcontents, heditor⟩ := hblank.left hblanks
  change ¬ (((((session.key 511 97).key 511 13).slaveRead 4096 true).key 511 98).key 511 13).Whole
  generalize (session.key 511 97).key 511 13 = left at hused hdelivered hline hcontents heditor
  have havail : left.pty.input.avail = 8190 := by
    rw [← Ring.length_contents, hcontents, List.length_replicate, hblanks]
  have hwaiting : (left.slaveRead 4096 true).delivered ++
      (left.slaveRead 4096 true).pty.input.contents = List.replicate blanks 10 := by
    rw [slaveRead_eq hused]
    dsimp only
    rw [List.append_assoc, Ring.peek_append_contents_drop _ (min_le_left _ _), hdelivered,
      List.nil_append, hcontents]
  have hroom : (left.slaveRead 4096 true).pty.input.avail < 8000 := by
    rw [slaveRead_eq hused]
    dsimp only
    rw [Ring.avail_drop _ (min_le_left _ _), havail]
    decide
  have hline' : (left.slaveRead 4096 true).pty.line = [97] := by
    rw [slaveRead_eq hused]
    exact hline
  have heditor' : (left.slaveRead 4096 true).editor = left.editor := by
    rw [slaveRead_eq hused]
  obtain ⟨htext, hcompleted⟩ :=
    completes_merged hroom hline' (heditor'.trans heditor) hwaiting
  rintro ⟨lines, hsub, hwhole⟩
  rw [hcompleted] at hsub
  exact text_ne_merged hsub (hwhole.symm.trans htext)

/-- The slave is given a line `ab` that nobody typed. -/
theorem not_whole_mergedLines :
    ¬ (final opened (trace (act 511) opened (mergedLines 8190))).Whole := not_whole_of_left rfl

end Session

end EigenOS.Terminal
