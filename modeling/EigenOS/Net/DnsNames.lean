import EigenOS.Net.Dns

/-!
# Decoding names

`parse_dns_name` again, with every access to the message and to its buffer checked, for any
starting offset.  The labels at an offset end there in one of four ways, and only a pointer leads
on: the call ends where the pointers do.
-/

namespace EigenOS.Net

/-! ## The checked function -/

/-- What a call comes to: it goes deeper than it may here, it leaves the message or its buffer, it
fails, or it returns an offset with a name in the buffer. -/
inductive CheckedParse where
  | deep
  | outside
  | bad
  | ok (off : ℤ) (name : List UInt8)

def msgByte (msg : List UInt8) (off : ℤ) : Option UInt8 :=
  if 0 ≤ off then msg[off.toNat]? else none

def msgBytes (msg : List UInt8) (off : ℤ) (count : ℕ) : Option (List UInt8) :=
  if 0 ≤ off ∧ off + count ≤ msg.length then some ((msg.drop off.toNat).take count) else none

/-- A zero is written behind the name. -/
def terminated (off : ℤ) (out : List UInt8) : CheckedParse :=
  if out.length < 256 then .ok off out else .outside

/-- The loop of `parse_dns_name`.  The characters of `out` are in the buffer, which has room for
256, as the callers' buffers and `tmp` have. -/
def parseLabelsChecked (msg : List UInt8) (recur : ℤ → CheckedParse) :
    ℕ → ℤ → List UInt8 → CheckedParse
  | left, off, out =>
      if off < msg.length then
        match msgByte msg off with
        | none => .outside
        | some byte =>
            let b := byte.toNat
            if b = 0 then terminated (off + 1) out
            else if b &&& 0xC0 = 0xC0 then
              if (msg.length : ℤ) ≤ off + 1 then .bad
              else
                match msgByte msg (off + 1) with
                | none => .outside
                | some low =>
                    match recur ↑((b &&& 0x3F) * 256 + low.toNat) with
                    | .deep => .deep
                    | .outside => .outside
                    | .bad => .bad
                    | .ok _ tmp =>
                        let tmp := tmp.takeWhile (· ≠ 0)
                        if 256 ≤ out.length + tmp.length + 1 then .bad
                        else terminated (off + 2) (out ++ tmp)
            else if b &&& 0xC0 ≠ 0 then .bad
            else if msg.length < off + 1 + b then .bad
            else if 256 ≤ out.length + b + 1 then .bad
            else
              match msgBytes msg (off + 1) b with
              | none => .outside
              | some label =>
                  -- The label and its dot are copied before the labels are counted.
                  let out := out ++ label ++ [46]
                  if 256 < out.length then .outside
                  else
                    match left with
                    | 0 => .bad
                    | left + 1 => parseLabelsChecked msg recur left (off + 1 + b) out
      else if out.length - 1 < 256 then .ok off out.dropLast
      else .outside

/-- `parse_dns_name`, for `depth` calls at most one inside the other. -/
def parseDnsNameChecked (msg : List UInt8) : ℕ → ℤ → CheckedParse
  | 0, _ => .deep
  | depth + 1, off => parseLabelsChecked msg (parseDnsNameChecked msg depth) 16 off []

/-! ## Names as they are stored -/

/-- The labels at an offset of a message, up to a zero byte or a pointer, and the offset after
that. -/
inductive StoredName (msg : List UInt8) : ℕ → ℕ → Prop where
  | root {off : ℕ} : msg[off]? = some 0 → StoredName msg off (off + 1)
  | pointer {off : ℕ} {high : UInt8} :
      msg[off]? = some high → 192 ≤ high.toNat → off + 1 < msg.length →
      StoredName msg off (off + 2)
  | label {off stop : ℕ} {b : UInt8} :
      msg[off]? = some b → b ≠ 0 → b.toNat < 64 → off + 1 + b.toNat ≤ msg.length →
      StoredName msg (off + 1 + b.toNat) stop → StoredName msg off stop

/-- How the labels at an offset end. -/
inductive NameScan where
  | refused
  | ends (next : ℕ)
  | pointer (target next : ℕ)
  | runsOff (next : ℕ)
  deriving DecidableEq

/-- The labels are passed over as the loop takes them: 16 at most, and 255 characters. -/
def scanLabels (msg : List UInt8) : ℕ → ℕ → ℕ → NameScan
  | left, off, used =>
      if off < msg.length then
        let b := (msg.getD off 0).toNat
        if b = 0 then .ends (off + 1)
        else if b &&& 0xC0 = 0xC0 then
          if msg.length ≤ off + 1 then .refused
          else .pointer ((b &&& 0x3F) * 256 + (msg.getD (off + 1) 0).toNat) (off + 2)
        else if b &&& 0xC0 ≠ 0 then .refused
        else if msg.length < off + 1 + b then .refused
        else if 256 ≤ used + b + 1 then .refused
        else
          match left with
          | 0 => .refused
          | left + 1 => scanLabels msg left (off + 1 + b) (used + b + 1)
      else .runsOff off

def nameScan (msg : List UInt8) (off : ℕ) : NameScan := scanLabels msg 16 off 0

/-- Where a pointer after the labels at an offset leads. -/
def follow (msg : List UInt8) (off : ℕ) : Option ℕ :=
  match nameScan msg off with
  | .pointer target _ => some target
  | _ => none

/-- Where so many pointers lead, if there are that many. -/
def followed (msg : List UInt8) : ℕ → ℕ → Option ℕ
  | 0, off => some off
  | count + 1, off => (follow msg off).bind (followed msg count)

/-- The pointers from an offset come to an end. -/
def PointersEnd (msg : List UInt8) (off : ℕ) : Prop := ∃ count, followed msg count off = none

/-- The labels at an offset go on to the end of the message. -/
def RunsOff (msg : List UInt8) (off : ℕ) : Prop := ∃ next, nameScan msg off = .runsOff next

/-- A call ends, stays inside the message and its buffer, and fails or returns the offset after the
name that is stored where it starts. -/
def ParsesRight (msg : List UInt8) (off : ℤ) : Prop :=
  ∃ depth,
    match parseDnsNameChecked msg depth off with
    | .deep => False
    | .outside => False
    | .bad => True
    | .ok stop _ => ∃ start next : ℕ, off = start ∧ stop = next ∧ StoredName msg start next

/-! ## No access goes astray -/

section Checks

variable {msg : List UInt8}

theorem msgByte_of_lt {off : ℕ} (h : off < msg.length) :
    msgByte msg off = some (msg.getD off 0) := by
  unfold msgByte
  rw [if_pos (Int.natCast_nonneg off), Int.toNat_natCast, List.getD_eq_getElem?_getD,
    List.getElem?_eq_getElem h]
  rfl

theorem msgBytes_of_le {off count : ℕ} (h : off + count ≤ msg.length) :
    msgBytes msg off count = some ((msg.drop off).take count) := by
  unfold msgBytes
  rw [if_pos ⟨Int.natCast_nonneg off, by exact_mod_cast h⟩, Int.toNat_natCast]

/-- An outcome of the plain function. -/
def NameParse.checked : NameParse → CheckedParse
  | .bad => .bad
  | .overflow => .deep
  | .ok off name => .ok off name

variable {recur : ℕ → NameParse} {checkedRecur : ℤ → CheckedParse}

theorem length_withLabel {off b : ℕ} (out : List UInt8) (hends : ¬ msg.length < off + 1 + b) :
    (out ++ (msg.drop (off + 1)).take b ++ [46]).length = out.length + b + 1 := by
  simp only [List.length_append, List.length_take, List.length_drop, List.length_singleton]
  omega

theorem parseLabelsChecked_eq (hrecur : ∀ target : ℕ, checkedRecur target = (recur target).checked)
    (left off : ℕ) (out : List UInt8) (hout : out.length < 256) :
    parseLabelsChecked msg checkedRecur left off out =
      (parseLabels msg recur left off out).checked := by
  have hbyte : ∀ {off : ℕ}, ¬ msg.length ≤ off → msgByte msg off = some (msg.getD off 0) :=
    fun h => msgByte_of_lt (Nat.lt_of_not_le h)
  have hbytes : ∀ {off count : ℕ}, ¬ msg.length < off + count →
      msgBytes msg off count = some ((msg.drop off).take count) :=
    fun h => msgBytes_of_le (Nat.le_of_not_lt h)
  fun_induction parseLabels msg recur left off out
  case case12 off out hoff =>
    rw [parseLabelsChecked, if_neg (by exact_mod_cast hoff), if_pos (by omega)]
    rfl
  all_goals
    unfold parseLabelsChecked
    simp +zetaDelta only [*, ← Nat.cast_add_one, ← Nat.cast_add, Nat.cast_lt, Nat.cast_le,
      msgByte_of_lt, if_true, if_false, not_false_eq_true, ne_eq, terminated, NameParse.checked]
  case case6 tmp hshort =>
    rw [List.length_append, if_pos (Nat.lt_of_succ_lt (Nat.lt_of_not_le hshort))]
    rfl
  case case10 hends hshort =>
    rw [length_withLabel _ hends, if_neg (by omega)]
  case case11 hends hshort left ih =>
    rw [length_withLabel _ hends, if_neg (by omega)]
    exact ih (by rw [length_withLabel _ hends]; omega)

/-- From an offset of a message, the function leaves neither the message nor its buffer. -/
theorem parseDnsNameChecked_eq (msg : List UInt8) (depth off : ℕ) :
    parseDnsNameChecked msg depth off = (parseDnsName msg depth off).checked := by
  induction depth generalizing off with
  | zero => rfl
  | succ depth ih => exact parseLabelsChecked_eq ih 16 off [] (by decide)

theorem parseDnsNameChecked_of_neg (msg : List UInt8) (depth : ℕ) {off : ℤ} (h : off < 0) :
    parseDnsNameChecked msg (depth + 1) off = .outside := by
  have hread : msgByte msg off = none := by
    unfold msgByte
    rw [if_neg (by omega)]
  unfold parseDnsNameChecked parseLabelsChecked
  rw [if_pos (by omega), hread]

end Checks

/-! ## Where a call ends -/

section Scan

variable {msg : List UInt8} {recur : ℕ → NameParse}

/-- What the loop makes of the labels, by how they end. -/
def NameScan.Explains (recur : ℕ → NameParse) (result : NameParse) : NameScan → Prop
  | .refused => result = .bad
  | .ends next | .runsOff next => ∃ name, result = .ok next name
  | .pointer target next =>
      (recur target = .overflow ∧ result = .overflow) ∨
        (recur target ≠ .overflow ∧ (result = .bad ∨ ∃ name, result = .ok next name))

theorem scanLabels_explains (left off : ℕ) (out : List UInt8) :
    (scanLabels msg left off out.length).Explains recur (parseLabels msg recur left off out) := by
  fun_induction parseLabels msg recur left off out
  case case11 off out hoff b hzero hpointer hkind hends hlong left ih =>
    rw [length_withLabel _ hends] at ih
    rw [scanLabels, if_pos hoff]
    dsimp only
    rwa [if_neg hzero, if_neg hpointer, if_neg hkind, if_neg hends, if_neg hlong]
  all_goals
    unfold scanLabels
    simp +zetaDelta only [*, if_true, if_false, not_false_eq_true, ne_eq]
  case case1 => exact ⟨_, rfl⟩
  case case3 hrecur => exact .inr ⟨hrecur.trans_ne nofun, .inl rfl⟩
  case case4 hrecur => exact .inl ⟨hrecur, rfl⟩
  case case5 hrecur _ _ => exact .inr ⟨hrecur.trans_ne nofun, .inl rfl⟩
  case case6 hrecur _ _ => exact .inr ⟨hrecur.trans_ne nofun, .inr ⟨_, rfl⟩⟩
  case case12 => exact ⟨_, rfl⟩
  all_goals rfl

variable (msg) in
theorem nameScan_explains (depth off : ℕ) :
    (nameScan msg off).Explains (parseDnsName msg depth) (parseDnsName msg (depth + 1) off) :=
  scanLabels_explains 16 off []

/-- A call goes too deep exactly where there are as many pointers to follow. -/
theorem parseDnsName_overflow_iff (msg : List UInt8) (depth off : ℕ) :
    parseDnsName msg depth off = .overflow ↔ followed msg depth off ≠ none := by
  induction depth generalizing off with
  | zero => exact iff_of_true rfl (Option.some_ne_none off)
  | succ depth ih =>
      have hexplains := nameScan_explains msg depth off
      unfold followed follow
      cases hscan : nameScan msg off with
      | refused =>
          rw [hscan] at hexplains
          rw [show parseDnsName msg (depth + 1) off = .bad from hexplains]
          exact iff_of_false nofun (fun h => h rfl)
      | ends next | runsOff next =>
          rw [hscan] at hexplains
          obtain ⟨name, hname⟩ := hexplains
          rw [hname]
          exact iff_of_false nofun (fun h => h rfl)
      | pointer target next =>
          rw [hscan] at hexplains
          dsimp only
          rw [Option.bind_some, ← ih target]
          rcases hexplains with ⟨hdeep, hresult⟩ | ⟨hdeep, hbad | ⟨name, hname⟩⟩
          · exact iff_of_true hresult hdeep
          · rw [hbad]
            exact iff_of_false nofun hdeep
          · rw [hname]
            exact iff_of_false nofun hdeep

end Scan

/-! ## Where a name ends -/

section Stored

variable {msg : List UInt8}

theorem and_C0_of_lt {b : ℕ} (hb : b < 256) :
    (b &&& 0xC0 = 0xC0 ↔ 192 ≤ b) ∧ (b &&& 0xC0 = 0 ↔ b < 64) := by
  have hall : ∀ b : Fin 256, (b.val &&& 0xC0 = 0xC0 ↔ 192 ≤ b.val) ∧
      (b.val &&& 0xC0 = 0 ↔ b.val < 64) := by decide +kernel
  exact hall ⟨b, hb⟩

theorem getElem?_of_lt {off : ℕ} (h : off < msg.length) : msg[off]? = some (msg.getD off 0) := by
  have hread := msgByte_of_lt h
  rwa [msgByte, if_pos (Int.natCast_nonneg off), Int.toNat_natCast] at hread

def NameScan.Stores (msg : List UInt8) (off : ℕ) : NameScan → Prop
  | .refused => True
  | .ends next | .pointer _ next => StoredName msg off next
  | .runsOff _ => ∀ stop, ¬ StoredName msg off stop

theorem stores_label {off : ℕ} {b : UInt8} (hb : msg[off]? = some b) (hzero : b ≠ 0)
    (hsmall : b.toNat < 64) (hends : off + 1 + b.toNat ≤ msg.length) {scan : NameScan}
    (h : scan.Stores msg (off + 1 + b.toNat)) : scan.Stores msg off := by
  cases scan with
  | refused => trivial
  | ends next => exact .label hb hzero hsmall hends h
  | pointer target next => exact .label hb hzero hsmall hends h
  | runsOff next =>
      intro stop hstored
      cases hstored with
      | root hroot =>
          cases hb.symm.trans hroot
          exact hzero rfl
      | pointer hhigh hlarge _ =>
          cases hb.symm.trans hhigh
          omega
      | label hother _ _ _ hrest =>
          cases hb.symm.trans hother
          exact h stop hrest

variable (msg) in
theorem scanLabels_stores (left off used : ℕ) : (scanLabels msg left off used).Stores msg off := by
  fun_induction scanLabels msg left off used
  case case1 off used hoff b hzero =>
    have hroot : msg.getD off 0 = 0 := UInt8.toNat_inj.mp hzero
    exact .root (hroot ▸ getElem?_of_lt hoff)
  case case3 off used hoff b hzero hpointer hlast =>
    have hlarge := (and_C0_of_lt (msg.getD off 0).toNat_lt).1.mp hpointer
    exact .pointer (getElem?_of_lt hoff) hlarge (Nat.lt_of_not_le hlast)
  case case8 off used hoff b hzero hpointer hkind hends hlong left ih =>
    have hsmall := (and_C0_of_lt (msg.getD off 0).toNat_lt).2.mp (not_not.mp hkind)
    refine stores_label (getElem?_of_lt hoff) ?_ hsmall (Nat.le_of_not_lt hends) ih
    exact fun h => hzero (congrArg UInt8.toNat h)
  case case9 off used hoff =>
    intro stop hstored
    have hnone : msg[off]? = none := List.getElem?_eq_none (Nat.le_of_not_lt hoff)
    cases hstored with
    | root h => cases hnone.symm.trans h
    | pointer h _ _ => cases hnone.symm.trans h
    | label h _ _ _ _ => cases hnone.symm.trans h
  all_goals trivial

end Stored

/-! ## The whole call -/

/-- A call from an offset of the message that does not go too deep fails or returns the offset
after its stored name, unless its labels run off. -/
theorem parsesRight_natCast_iff (msg : List UInt8) (off : ℕ) :
    ParsesRight msg off ↔ PointersEnd msg off ∧ ¬ RunsOff msg off := by
  constructor
  · rintro ⟨depth, h⟩
    cases depth with
    | zero => exact h.elim
    | succ depth =>
        have hend : followed msg (depth + 1) off = none := by
          by_contra hne
          have hover := (parseDnsName_overflow_iff msg (depth + 1) off).mpr hne
          rw [parseDnsNameChecked_eq, hover] at h
          exact h
        refine ⟨⟨depth + 1, hend⟩, ?_⟩
        rintro ⟨next, hscan⟩
        have hexplains := nameScan_explains msg depth off
        have hstores := scanLabels_stores msg 16 off 0
        rw [hscan] at hexplains
        rw [show scanLabels msg 16 off 0 = .runsOff next from hscan] at hstores
        obtain ⟨name, hname⟩ := hexplains
        rw [parseDnsNameChecked_eq, hname] at h
        obtain ⟨start, stop, hstart, _, hstored⟩ := h
        cases Int.ofNat_inj.mp hstart
        exact hstores stop hstored
  · rintro ⟨⟨depth, hend⟩, hruns⟩
    refine ⟨depth, ?_⟩
    have hover : parseDnsName msg depth off ≠ .overflow := fun h =>
      (parseDnsName_overflow_iff msg depth off).mp h hend
    rw [parseDnsNameChecked_eq]
    cases hparse : parseDnsName msg depth off with
    | bad => trivial
    | overflow => exact absurd hparse hover
    | ok stop name =>
        refine ⟨off, stop, rfl, rfl, ?_⟩
        cases depth with
        | zero => cases hparse
        | succ depth =>
            have hexplains := nameScan_explains msg depth off
            have hstores := scanLabels_stores msg 16 off 0
            rw [hparse] at hexplains
            cases hscan : nameScan msg off with
            | refused =>
                rw [hscan] at hexplains
                cases hexplains
            | ends next =>
                rw [hscan] at hexplains
                obtain ⟨_, hname⟩ := hexplains
                cases hname
                rwa [show scanLabels msg 16 off 0 = .ends stop from hscan] at hstores
            | pointer target next =>
                rw [hscan] at hexplains
                rw [show scanLabels msg 16 off 0 = .pointer target next from hscan] at hstores
                rcases hexplains with ⟨_, hname⟩ | ⟨_, hname | ⟨_, hname⟩⟩
                · cases hname
                · cases hname
                · cases hname
                  exact hstores
            | runsOff next => exact absurd ⟨next, hscan⟩ hruns

/-- For every message and every starting offset, a call ends, stays inside the message and its
buffer, and fails or returns the offset after the stored name, exactly where the offset is not
negative, the pointers from it come to an end, and its labels do not run off the message. -/
theorem parsesRight_iff (msg : List UInt8) (off : ℤ) :
    ParsesRight msg off ↔
      0 ≤ off ∧ PointersEnd msg off.toNat ∧ ¬ RunsOff msg off.toNat := by
  rcases lt_or_ge off 0 with hneg | hnonneg
  · refine iff_of_false ?_ (fun h => absurd h.1 (not_le.mpr hneg))
    rintro ⟨depth, h⟩
    cases depth with
    | zero => exact h
    | succ depth =>
        rw [parseDnsNameChecked_of_neg msg depth hneg] at h
        exact h
  · obtain ⟨start, rfl⟩ := Int.eq_ofNat_of_zero_le hnonneg
    rw [parsesRight_natCast_iff, Int.toNat_natCast]
    exact ⟨fun h => ⟨hnonneg, h⟩, And.right⟩

/-- A pointer to itself. -/
def selfPointer : List UInt8 := [0xC0, 0x00]

theorem followed_selfPointer (count : ℕ) : followed selfPointer count 0 = some 0 := by
  have hself : follow selfPointer 0 = some 0 := by decide
  induction count with
  | zero => rfl
  | succ count ih =>
      unfold followed
      rw [hself]
      exact ih

/-- The function does not return. -/
theorem not_parsesRight_selfPointer : ¬ ParsesRight selfPointer 0 := by
  rintro ⟨depth, h⟩
  have hover := (parseDnsName_overflow_iff selfPointer depth 0).mpr
    (by rw [followed_selfPointer]; exact Option.some_ne_none 0)
  have hchecked : parseDnsNameChecked selfPointer depth 0 = .deep := by
    have heq := parseDnsNameChecked_eq selfPointer depth 0
    rw [hover] at heq
    exact_mod_cast heq
  rw [hchecked] at h
  exact h

end EigenOS.Net
