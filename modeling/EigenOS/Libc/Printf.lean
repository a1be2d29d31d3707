import EigenOS.Library.MachineInt
import Mathlib.Data.Nat.Digits.Lemmas

/-!
# Formatted output

`vsnprintf`, but for the conversions of floating-point numbers.  Each item is converted in an array
of 96 characters, and a number before that in one of 32, without a test of either bound; and the
text gets its terminator only if all of it has room.
-/

namespace EigenOS.Libc

open EigenOS.MachineInt Function

/-! ## Reading a format -/

def ch (c : Char) : UInt8 := UInt8.ofNat c.toNat

/-- What stands between a percent sign and the end of its directive.  A negative precision is
none. -/
structure Directive where
  left : Bool
  zero : Bool
  plus : Bool
  sp : Bool
  alt : Bool
  width : ℤ
  prec : ℤ
  llen : ℤ
  conv : UInt8
  deriving DecidableEq

def Directive.start : Directive := ⟨false, false, false, false, false, 0, -1, 0, 0⟩

/-- The loops of the source that read a directive. -/
inductive Phase where
  | flags
  | width
  | prec
  | length
  deriving DecidableEq

/-- A character of a directive is read by a loop that goes on, or is the conversion. -/
inductive Reading where
  | more (d : Directive) (phase : Phase)
  | done (d : Directive)

def isDigit (c : UInt8) : Prop := ch '0' ≤ c ∧ c ≤ ch '9'

instance (c : UInt8) : Decidable (isDigit c) := inferInstanceAs (Decidable (_ ∧ _))

def addDigit (n : ℤ) (c : UInt8) : ℤ := asInt (n * 10 + (c.toNat - 48 : ℤ))

def Directive.readLength (d : Directive) (c : UInt8) : Reading :=
  if c = ch 'l' ∨ c = ch 'j' ∨ c = ch 'q' then .more { d with llen := asInt (d.llen + 1) } .length
  else if c = ch 'z' ∨ c = ch 'h' ∨ c = ch 't' then .more d .length
  else .done { d with conv := c }

def Directive.readPrec (d : Directive) (c : UInt8) : Reading :=
  if isDigit c then .more { d with prec := addDigit d.prec c } .prec else d.readLength c

def Directive.readWidth (d : Directive) (c : UInt8) : Reading :=
  if isDigit c then .more { d with width := addDigit d.width c } .width
  else if c = ch '.' then .more { d with prec := 0 } .prec
  else d.readLength c

def Directive.readFlag (d : Directive) (c : UInt8) : Reading :=
  if c = ch '-' then .more { d with left := true } .flags
  else if c = ch '0' then .more { d with zero := true } .flags
  else if c = ch '+' then .more { d with plus := true } .flags
  else if c = ch ' ' then .more { d with sp := true } .flags
  else if c = ch '#' then .more { d with alt := true } .flags
  else d.readWidth c

def Directive.read (d : Directive) : Phase → UInt8 → Reading
  | .flags => d.readFlag
  | .width => d.readWidth
  | .prec => d.readPrec
  | .length => d.readLength

inductive Piece where
  | char (c : UInt8)
  | directive (d : Directive)
  deriving DecidableEq

/-- The pieces of a format.  A directive that the format ends in is dropped. -/
def scan : Option (Directive × Phase) → List UInt8 → List Piece
  | _, [] => []
  | none, c :: rest =>
      if c ≠ ch '%' then .char c :: scan none rest else scan (some (.start, .flags)) rest
  | some (d, phase), c :: rest =>
      match d.read phase c with
      | .more d phase => scan (some (d, phase)) rest
      | .done d => .directive d :: scan none rest

def pieces (fmt : List UInt8) : List Piece := scan none (fmt.takeWhile (· ≠ 0))

/-! ## Converting an argument -/

/-- An argument: a number in its register, or the characters from where a pointer leads. -/
inductive PrintArg where
  | word (value : ℤ)
  | str (text : List UInt8)

/-- A converted item: what is written to `t`, and how many entries of `dt` are. -/
structure Item where
  text : List UInt8
  digits : ℕ

/-- The argument as `int` or `long`. -/
def vaSigned (llen value : ℤ) : ℤ := if 2 ≤ llen ∨ llen = 1 then asLong value else asInt value

/-- The argument as `unsigned int` or `unsigned long`. -/
def vaUnsigned (llen value : ℤ) : ℕ :=
  (if 2 ≤ llen ∨ llen = 1 then asUInt64 value else asUnsigned value).toNat

def digitChar (upper : Bool) (digit : ℕ) : UInt8 :=
  if digit < 10 then UInt8.ofNat (48 + digit)
  else if upper then UInt8.ofNat (55 + digit)
  else UInt8.ofNat (87 + digit)

/-- The array `dt`: the digits of a number from the last one on, and zeros up to the precision. -/
def digitsOf (upper : Bool) (base u : ℕ) (prec : ℤ) : List UInt8 :=
  let digits :=
    if u = 0 then (if prec ≠ 0 then [ch '0'] else [])
    else (Nat.digits base u).map (digitChar upper)
  digits ++ List.replicate (prec - digits.length).toNat (ch '0')

/-- The characters that are missing to the width. -/
def padding (width : ℤ) (total : ℕ) : ℕ := (width - total).toNat

/-- The characters of a string that the first loop of `%s` counts. -/
def Directive.shown (d : Directive) (text : List UInt8) : List UInt8 :=
  if d.prec < 0 then text.takeWhile (· ≠ 0) else (text.takeWhile (· ≠ 0)).take d.prec.toNat

/-- `%s` -/
def Directive.convertString (d : Directive) (text : List UInt8) : Item :=
  let pad := padding d.width (d.shown text).length
  { text := (if d.left then [] else List.replicate pad (ch ' ')) ++ d.shown text ++
      if d.left then List.replicate pad (ch ' ') else []
    digits := 0 }

/-- A number with its padding, which goes before or behind it, or as zeros behind the sign. -/
def Directive.layout (d : Directive) (pad : ℕ) (sign digits : List UInt8) : List UInt8 :=
  (if d.left ∨ d.zero then [] else List.replicate pad (ch ' ')) ++ sign ++
    (if ¬ d.left ∧ d.zero then List.replicate pad (ch '0') else []) ++ digits ++
    if d.left then List.replicate pad (ch ' ') else []

def Directive.sign (d : Directive) (v : ℤ) (pad : ℕ) : List UInt8 :=
  if v < 0 then [ch '-'] else if d.plus then [ch '+'] else if d.sp ∧ pad = 0 then [ch ' '] else []

/-- `%d` and `%i` -/
def Directive.convertSigned (d : Directive) (v : ℤ) : Item :=
  let dt := digitsOf false 10 v.natAbs d.prec
  let total := dt.length + (if v < 0 then 1 else 0) + if d.plus ∧ ¬ v < 0 then 1 else 0
  let pad := padding d.width total
  { text := d.layout pad (d.sign v pad) dt.reverse, digits := dt.length }

/-- What is not octal is hexadecimal. -/
def Directive.base (d : Directive) : ℕ := if d.conv = ch 'o' then 8 else 16

/-- What the flag `#` puts before the digits, unless the first of them is a zero. -/
def Directive.hexPrefix (d : Directive) (dt : List UInt8) : List UInt8 :=
  if d.alt ∧ (d.conv = ch 'x' ∨ d.conv = ch 'X') ∧ dt.getLast?.getD (ch '0') ≠ ch '0' then
    [ch '0', if d.conv = ch 'X' then ch 'X' else ch 'x']
  else []

/-- `%u`, `%x`, `%X` and `%o` -/
def Directive.convertUnsigned (d : Directive) (u : ℕ) : Item :=
  let dt := digitsOf (d.conv = ch 'X') d.base u d.prec
  { text := d.layout (padding d.width dt.length) (d.hexPrefix dt) dt.reverse, digits := dt.length }

/-- `%p` -/
def convertPointer (v : ℕ) : Item :=
  let dt := digitsOf false 16 v (-1)
  { text := [ch '0', ch 'x'] ++ dt.reverse, digits := dt.length }

/-- The conversion of a directive, and the arguments that are left.  There is none where the
arguments do not match the directive, as they never do one that takes a floating-point number. -/
def Directive.convert (d : Directive) (args : List PrintArg) : Option (Item × List PrintArg) :=
  if d.conv = ch '%' then some (⟨[ch '%'], 0⟩, args)
  else if d.conv = ch 'c' then
    match args with
    | .word value :: rest => some (⟨[UInt8.ofNat (value % 256).toNat], 0⟩, rest)
    | _ => none
  else if d.conv = ch 's' then
    match args with
    | .str text :: rest => some (d.convertString text, rest)
    | _ => none
  else if d.conv = ch 'd' ∨ d.conv = ch 'i' then
    match args with
    | .word value :: rest => some (d.convertSigned (vaSigned d.llen value), rest)
    | _ => none
  else if d.conv = ch 'u' ∨ d.conv = ch 'x' ∨ d.conv = ch 'X' ∨ d.conv = ch 'o' then
    match args with
    | .word value :: rest => some (d.convertUnsigned (vaUnsigned d.llen value), rest)
    | _ => none
  else if d.conv = ch 'p' then
    match args with
    | .word value :: rest => some (convertPointer (asUInt64 value).toNat, rest)
    | _ => none
  else if d.conv = ch 'f' ∨ d.conv = ch 'F' ∨ d.conv = ch 'e' ∨ d.conv = ch 'E' ∨
      d.conv = ch 'g' ∨ d.conv = ch 'G' then none
  else some (⟨[ch '?'], 0⟩, args)

/-! ## The output -/

/-- The locals of the loop with the buffer, the indexes stored to, last one first, and the items
that have been converted.  `len` never wraps: no program has room for such a format. -/
structure Printer where
  len : ℕ
  buf : Option (ℕ → UInt8)
  stores : List ℕ
  items : List Item

/-- `if (buf && len + 1 < size) buf[len] = c; len++;` -/
def Printer.put (size : ℕ) (s : Printer) (c : UInt8) : Printer :=
  match s.buf with
  | none => { s with len := s.len + 1 }
  | some buf =>
      if s.len + 1 < size then
        { s with len := s.len + 1, buf := some (update buf s.len c)
                 stores := s.len :: s.stores }
      else { s with len := s.len + 1 }

def Printer.write (size : ℕ) (s : Printer) (text : List UInt8) : Printer :=
  text.foldl (Printer.put size) s

/-- The loop over the format. -/
def printLoop (size : ℕ) : List Piece → List PrintArg → Printer → Option Printer
  | [], _, s => some s
  | .char c :: rest, args, s => printLoop size rest args (s.put size c)
  | .directive d :: rest, args, s =>
      match d.convert args with
      | none => none
      | some (item, args) =>
          printLoop size rest args ({ s with items := s.items ++ [item] }.write size item.text)

/-- `if (buf && len < size) buf[len] = 0;` -/
def Printer.terminate (size : ℕ) (s : Printer) : Printer :=
  match s.buf with
  | none => s
  | some buf =>
      if s.len < size then
        { s with buf := some (update buf s.len 0), stores := s.len :: s.stores }
      else s

/-- What a call returns, and what it leaves. -/
structure Printed where
  ret : ℤ
  buf : Option (ℕ → UInt8)
  stores : List ℕ
  items : List Item

def vsnprintf (buf : Option (ℕ → UInt8)) (size : ℕ) (fmt : List UInt8) (args : List PrintArg) :
    Option Printed :=
  (printLoop size (pieces fmt) args ⟨0, buf, [], []⟩).map fun s =>
    let last := s.terminate size
    ⟨asInt s.len, last.buf, last.stores, last.items⟩

/-! ## What it promises -/

/-- All the characters that the items and the rest of the format make up, where the arguments match
the format. -/
def fullOutput : List Piece → List PrintArg → Option (List UInt8)
  | [], _ => some []
  | .char c :: rest, args => (fullOutput rest args).map (c :: ·)
  | .directive d :: rest, args =>
      (d.convert args).bind fun converted =>
        (fullOutput rest converted.2).map (converted.1.text ++ ·)

/-- The buffer holds what there is room for of the output, with a terminator, and the call returns
the length of all of it; nothing was stored outside the buffer and the two arrays. -/
structure Prints (size : ℕ) (before : ℕ → UInt8) (full : List UInt8) (p : Printed)
    (after : ℕ → UInt8) : Prop where
  result : p.buf = some after
  stores : ∀ i ∈ p.stores, i < size
  frame : ∀ i, size ≤ i → after i = before i
  temporaries : ∀ item ∈ p.items, item.text.length ≤ 96 ∧ item.digits ≤ 32
  shows : ∀ i < min full.length (size - 1), after i = full.getD i 0
  terminated : after (min full.length (size - 1)) = 0
  returns : p.ret = full.length

/-! ## The condition -/

/-- The characters of a string that are shown. -/
def shownLength (prec : ℤ) (text : List UInt8) : ℕ :=
  if prec < 0 then (text.takeWhile (· ≠ 0)).length
  else min (text.takeWhile (· ≠ 0)).length prec.toNat

/-- The digits of a number. -/
def numberLength (base u : ℕ) (prec : ℤ) : ℕ :=
  max (if u ≠ 0 then Nat.log base u + 1 else if prec ≠ 0 then 1 else 0) prec.toNat

def signLength (d : Directive) (v : ℤ) : ℕ := if v < 0 ∨ d.plus then 1 else 0

/-- `0x` stands before the digits, unless they begin with a zero. -/
def Directive.prefixLength (d : Directive) (u : ℕ) : ℕ :=
  if d.alt ∧ (d.conv = ch 'x' ∨ d.conv = ch 'X') ∧ u ≠ 0 ∧ d.prec ≤ Nat.log 16 u + 1 then 2 else 0

def Directive.isSigned (d : Directive) : Prop := d.conv = ch 'd' ∨ d.conv = ch 'i'

def Directive.isUnsigned (d : Directive) : Prop :=
  d.conv = ch 'u' ∨ d.conv = ch 'x' ∨ d.conv = ch 'X' ∨ d.conv = ch 'o'

instance (d : Directive) : Decidable d.isSigned := inferInstanceAs (Decidable (_ ∨ _))
instance (d : Directive) : Decidable d.isUnsigned := inferInstanceAs (Decidable (_ ∨ _))

def Directive.signedLength (d : Directive) (v : ℤ) : ℕ :=
  let total := numberLength 10 v.natAbs d.prec + signLength d v
  max total d.width.toNat + if d.sp ∧ ¬ d.plus ∧ 0 ≤ v ∧ d.width ≤ total then 1 else 0

def Directive.unsignedLength (d : Directive) (u : ℕ) : ℕ :=
  max (numberLength d.base u d.prec) d.width.toNat + d.prefixLength u

def Directive.length (d : Directive) : List PrintArg → ℕ
  | .str text :: _ => if d.conv = ch 's' then max (shownLength d.prec text) d.width.toNat else 1
  | .word value :: _ =>
      if d.isSigned then d.signedLength (vaSigned d.llen value)
      else if d.isUnsigned then d.unsignedLength (vaUnsigned d.llen value)
      else if d.conv = ch 'p' then numberLength 16 (asUInt64 value).toNat (-1) + 2
      else 1
  | [] => 1

/-- A width or a string is no longer than the one array, and a precision no longer than the
other. -/
def Directive.Fits (d : Directive) : List PrintArg → Prop
  | .str text :: _ => d.conv = ch 's' → shownLength d.prec text ≤ 96 ∧ d.width ≤ 96
  | .word value :: _ =>
      (d.isSigned → d.prec ≤ 32 ∧ d.width ≤ 96) ∧
        (d.isUnsigned →
          d.prec ≤ 32 ∧ d.width + d.prefixLength (vaUnsigned d.llen value) ≤ 96)
  | [] => True

/-- The arguments behind the one of a directive. -/
def Directive.after (d : Directive) (args : List PrintArg) : List PrintArg :=
  if d.conv = ch 'c' ∨ d.conv = ch 's' ∨ d.isSigned ∨ d.isUnsigned ∨ d.conv = ch 'p' then args.tail
  else args

def outputLength : List Piece → List PrintArg → ℕ
  | [], _ => 0
  | .char _ :: rest, args => outputLength rest args + 1
  | .directive d :: rest, args => d.length args + outputLength rest (d.after args)

def AllFit : List Piece → List PrintArg → Prop
  | [], _ => True
  | .char _ :: rest, args => AllFit rest args
  | .directive d :: rest, args => d.Fits args ∧ AllFit rest (d.after args)

instance (d : Directive) : ∀ args, Decidable (d.Fits args)
  | .str _ :: _ => inferInstanceAs (Decidable (_ → _ ∧ _))
  | .word _ :: _ => inferInstanceAs (Decidable ((_ → _ ∧ _) ∧ (_ → _ ∧ _)))
  | [] => isTrue trivial

instance decidableAllFit : ∀ ps args, Decidable (AllFit ps args)
  | [], _ => isTrue trivial
  | .char _ :: rest, args => decidableAllFit rest args
  | .directive d :: rest, args =>
      have := decidableAllFit rest (d.after args)
      inferInstanceAs (Decidable (_ ∧ _))

/-! ## The length of an item -/

theorem length_digitsOf (upper : Bool) {base : ℕ} (hbase : 1 < base) (u : ℕ) (prec : ℤ) :
    (digitsOf upper base u prec).length = numberLength base u prec := by
  have hpad : ∀ n : ℕ, n + (prec - n).toNat = max n prec.toNat := fun n => by omega
  unfold digitsOf numberLength
  dsimp only
  rw [List.length_append, List.length_replicate, hpad]
  congr 1
  by_cases hu : u = 0
  · rw [if_pos hu, if_neg (not_not.mpr hu)]
    split <;> rfl
  · rw [if_neg hu, if_pos hu, List.length_map, Nat.length_digits base u hbase hu]

/-- A machine word has far fewer digits than the array has room for. -/
theorem numberLength_le_iff {base u : ℕ} (hbase : 8 ≤ base) (hu : u < 2 ^ 64) (prec : ℤ) :
    numberLength base u prec ≤ 32 ↔ prec ≤ 32 := by
  have hlog : Nat.log base u < 22 := by
    refine Nat.log_lt_of_lt_pow' (by decide) (hu.trans_le ?_)
    exact (by decide : 2 ^ 64 ≤ 8 ^ 22).trans (Nat.pow_le_pow_left hbase 22)
  unfold numberLength
  split
  · omega
  · split <;> omega

theorem length_layout (d : Directive) (pad : ℕ) (sign digits : List UInt8) :
    (d.layout pad sign digits).length = pad + sign.length + digits.length := by
  unfold Directive.layout
  simp only [List.length_append]
  cases d.left <;> cases d.zero <;> simp <;> omega

theorem padding_add (width : ℤ) (total : ℕ) : padding width total + total = max total width.toNat := by
  unfold padding
  omega

theorem length_shown (d : Directive) (text : List UInt8) :
    (d.shown text).length = shownLength d.prec text := by
  unfold Directive.shown shownLength
  split
  · rfl
  · rw [List.length_take, Nat.min_comm]

theorem length_convertString (d : Directive) (text : List UInt8) :
    (d.convertString text).text.length = max (shownLength d.prec text) d.width.toNat := by
  unfold Directive.convertString
  dsimp only
  rw [List.length_append, List.length_append, length_shown, ← padding_add]
  cases d.left
  · simp
  · simp [Nat.add_comm]

theorem length_sign (d : Directive) (v : ℤ) (pad : ℕ) :
    (d.sign v pad).length =
      signLength d v + if d.sp ∧ ¬ d.plus ∧ 0 ≤ v ∧ pad = 0 then 1 else 0 := by
  unfold Directive.sign signLength
  by_cases hv : v < 0
  · simp [hv]
  · cases d.plus <;> simp [hv, not_lt.mp hv]
    split <;> simp_all

theorem length_convertSigned (d : Directive) (v : ℤ) :
    (d.convertSigned v).text.length = d.signedLength v := by
  have hsign : (if v < 0 then 1 else 0) + (if d.plus ∧ ¬ v < 0 then 1 else 0) = signLength d v := by
    unfold signLength
    by_cases hv : v < 0
    · simp [hv]
    · simp [hv]
  have hpad : ∀ total : ℕ, padding d.width total = 0 ↔ d.width ≤ total := fun total => by
    unfold padding
    omega
  unfold Directive.convertSigned Directive.signedLength
  dsimp only
  rw [length_layout, List.length_reverse, length_digitsOf false (by decide), Nat.add_assoc _ (ite _ _ _),
    hsign, length_sign, ← padding_add]
  simp only [hpad]
  omega

theorem digitChar_ne_zero (upper : Bool) {digit : ℕ} (hne : digit ≠ 0) (hlt : digit < 16) :
    digitChar upper digit ≠ ch '0' := by
  have hall : ∀ upper : Bool, ∀ digit < 16, digit ≠ 0 → digitChar upper digit ≠ ch '0' := by decide
  exact hall upper digit hlt hne

/-- The last entry of `dt`, which is the first digit. -/
theorem first_digitsOf (upper : Bool) {base : ℕ} (hbase : 1 < base) (hle : base ≤ 16) (u : ℕ)
    (prec : ℤ) :
    (digitsOf upper base u prec).getLast?.getD (ch '0') ≠ ch '0' ↔
      u ≠ 0 ∧ prec ≤ Nat.log base u + 1 := by
  unfold digitsOf
  dsimp only
  rw [List.getLast?_append, List.getLast?_replicate]
  by_cases hu : u = 0
  · rw [if_pos hu]
    refine iff_of_false (not_not.mpr ?_) fun hboth => hboth.1 hu
    split <;> split <;> rfl
  · rw [if_neg hu, List.length_map, Nat.length_digits base u hbase hu, and_iff_right hu]
    by_cases hpad : (prec - (Nat.log base u + 1 : ℕ)).toNat = 0
    · have hdigits : Nat.digits base u ≠ [] := Nat.digits_ne_nil_iff_ne_zero.mpr hu
      have hfirst := Nat.getLast_digit_ne_zero base hu
      have hlast := Nat.digits_lt_base hbase (List.getLast_mem hdigits)
      rw [if_pos hpad, Option.none_or, List.getLast?_map, List.getLast?_eq_some_getLast hdigits]
      refine iff_of_true (digitChar_ne_zero upper hfirst (hlast.trans_le hle)) ?_
      omega
    · rw [if_neg hpad]
      refine iff_of_false (not_not.mpr rfl) ?_
      omega

theorem length_hexPrefix (d : Directive) (u : ℕ) :
    (d.hexPrefix (digitsOf (d.conv = ch 'X') d.base u d.prec)).length = d.prefixLength u := by
  unfold Directive.hexPrefix Directive.prefixLength
  by_cases hconv : d.conv = ch 'x' ∨ d.conv = ch 'X'
  · have hbase : d.base = 16 := by
      refine if_neg fun hoctal => ?_
      rcases hconv with hconv | hconv
      · exact absurd (hoctal.symm.trans hconv) (by decide)
      · exact absurd (hoctal.symm.trans hconv) (by decide)
    rw [hbase]
    simp only [first_digitsOf _ (by decide : 1 < 16) le_rfl, hconv, true_and]
    split <;> rfl
  · rw [if_neg fun hall => hconv hall.2.1, if_neg fun hall => hconv hall.2.1]
    rfl

theorem Directive.one_lt_base (d : Directive) : 8 ≤ d.base ∧ d.base ≤ 16 := by
  unfold Directive.base
  split <;> decide

theorem length_convertUnsigned (d : Directive) (u : ℕ) :
    (d.convertUnsigned u).text.length = d.unsignedLength u := by
  have hbase : 1 < d.base := (by decide : 1 < 8).trans_le d.one_lt_base.1
  unfold Directive.convertUnsigned Directive.unsignedLength
  dsimp only
  rw [length_layout, length_hexPrefix, List.length_reverse, length_digitsOf _ hbase, ← padding_add]
  omega

theorem length_convertPointer (v : ℕ) :
    (convertPointer v).text.length = numberLength 16 v (-1) + 2 := by
  unfold convertPointer
  dsimp only
  rw [List.length_append, List.length_reverse, length_digitsOf false (by decide), Nat.add_comm]
  rfl

/-! ## What fits -/

theorem natAbs_vaSigned (llen value : ℤ) : (vaSigned llen value).natAbs < 2 ^ 64 := by
  have hlong := asLong_bounds value
  have hint := asInt_bounds value
  unfold vaSigned
  split <;> omega

theorem vaUnsigned_lt (llen value : ℤ) : vaUnsigned llen value < 2 ^ 64 := by
  unfold vaUnsigned asUInt64 asUnsigned
  split <;> omega

theorem convertSigned_fits (d : Directive) {v : ℤ} (hv : v.natAbs < 2 ^ 64) :
    (d.convertSigned v).text.length ≤ 96 ∧ (d.convertSigned v).digits ≤ 32 ↔
      d.prec ≤ 32 ∧ d.width ≤ 96 := by
  have hdigits : (d.convertSigned v).digits = numberLength 10 v.natAbs d.prec :=
    length_digitsOf false (by decide) _ _
  rw [length_convertSigned, hdigits, numberLength_le_iff (by decide) hv, and_comm]
  refine and_congr_right fun hprec => ?_
  have hnumber := (numberLength_le_iff (by decide : 8 ≤ 10) hv d.prec).mpr hprec
  have hsign : signLength d v ≤ 1 := by
    unfold signLength
    split <;> decide
  unfold Directive.signedLength
  dsimp only
  split <;> omega

theorem convertUnsigned_fits (d : Directive) {u : ℕ} (hu : u < 2 ^ 64) :
    (d.convertUnsigned u).text.length ≤ 96 ∧ (d.convertUnsigned u).digits ≤ 32 ↔
      d.prec ≤ 32 ∧ d.width + d.prefixLength u ≤ 96 := by
  have hbase := d.one_lt_base.1
  have hdigits : (d.convertUnsigned u).digits = numberLength d.base u d.prec :=
    length_digitsOf _ ((by decide : 1 < 8).trans_le hbase) _ _
  rw [length_convertUnsigned, hdigits, numberLength_le_iff hbase hu, and_comm]
  refine and_congr_right fun hprec => ?_
  have hnumber := (numberLength_le_iff hbase hu d.prec).mpr hprec
  have hprefix : d.prefixLength u ≤ 2 := by
    unfold Directive.prefixLength
    split <;> decide
  unfold Directive.unsignedLength
  omega

theorem convertString_fits (d : Directive) (text : List UInt8) :
    (d.convertString text).text.length ≤ 96 ∧ (d.convertString text).digits ≤ 32 ↔
      shownLength d.prec text ≤ 96 ∧ d.width ≤ 96 := by
  have hdigits : (d.convertString text).digits = 0 := rfl
  rw [length_convertString, hdigits]
  omega

theorem convertPointer_fits {v : ℕ} (hv : v < 2 ^ 64) :
    (convertPointer v).text.length ≤ 96 ∧ (convertPointer v).digits ≤ 32 := by
  have hnumber := (numberLength_le_iff (by decide : 8 ≤ 16) hv (-1)).mpr (by decide)
  have hdigits : (convertPointer v).digits = numberLength 16 v (-1) :=
    length_digitsOf false (by decide) _ _
  rw [length_convertPointer, hdigits]
  omega

/-- What a conversion has to do with the directive and its argument. -/
structure Converts (d : Directive) (args : List PrintArg) (item : Item) (rest : List PrintArg) :
    Prop where
  rest : rest = d.after args
  length : item.text.length = d.length args
  fits : item.text.length ≤ 96 ∧ item.digits ≤ 32 ↔ d.Fits args

theorem converts_one {d : Directive} {args : List PrintArg} {c : UInt8} (hchar : d.conv ≠ ch 'c')
    (hstring : d.conv ≠ ch 's') (hsigned : ¬ d.isSigned) (hunsigned : ¬ d.isUnsigned)
    (hpointer : d.conv ≠ ch 'p') : Converts d args ⟨[c], 0⟩ args where
  rest := by
    unfold Directive.after
    simp [hchar, hstring, hsigned, hunsigned, hpointer]
  length := by
    unfold Directive.length
    split <;> simp [hstring, hsigned, hunsigned, hpointer]
  fits := by
    refine iff_of_true ⟨by simp, by simp⟩ ?_
    unfold Directive.Fits
    split <;> simp [hstring, hsigned, hunsigned]

theorem converts_word {d : Directive} {value : ℤ} {args : List PrintArg} {item : Item}
    (htakes : d.conv = ch 'c' ∨ d.isSigned ∨ d.isUnsigned ∨ d.conv = ch 'p')
    (hlength : item.text.length = d.length (.word value :: args))
    (hfits : item.text.length ≤ 96 ∧ item.digits ≤ 32 ↔ d.Fits (.word value :: args)) :
    Converts d (.word value :: args) item args where
  rest := by
    unfold Directive.after
    rw [if_pos (by tauto)]
    rfl
  length := hlength
  fits := hfits

theorem convert_spec {d : Directive} {args rest : List PrintArg} {item : Item}
    (h : d.convert args = some (item, rest)) : Converts d args item rest := by
  unfold Directive.convert at h
  split at h
  · next hconv =>
      obtain ⟨rfl, rfl⟩ := Prod.mk.inj (Option.some.inj h)
      apply converts_one <;> simp [Directive.isSigned, Directive.isUnsigned, hconv, ch]
  split at h
  · next hconv =>
      split at h
      · next value _ =>
          obtain ⟨rfl, rfl⟩ := Prod.mk.inj (Option.some.inj h)
          have hsigned : ¬ d.isSigned := by simp [Directive.isSigned, hconv, ch]
          have hunsigned : ¬ d.isUnsigned := by simp [Directive.isUnsigned, hconv, ch]
          have hpointer : d.conv ≠ ch 'p' := by simp [hconv, ch]
          refine converts_word (Or.inl hconv) ?_ ?_
          · simp [Directive.length, hsigned, hunsigned, hpointer]
          · simp [Directive.Fits, hsigned, hunsigned]
      · exact nomatch h
  split at h
  · next hconv =>
      split at h
      · next text _ =>
          obtain ⟨rfl, rfl⟩ := Prod.mk.inj (Option.some.inj h)
          refine ⟨?_, ?_, ?_⟩
          · simp [Directive.after, hconv]
          · rw [length_convertString, Directive.length, if_pos hconv]
          · rw [convertString_fits]
            exact ⟨fun hfits _ => hfits, fun hfits => hfits hconv⟩
      · exact nomatch h
  split at h
  · next hsigned =>
      change d.isSigned at hsigned
      have hunsigned : ¬ d.isUnsigned := by
        rcases hsigned with hconv | hconv <;> simp [Directive.isUnsigned, hconv, ch]
      split at h
      · next value _ =>
          obtain ⟨rfl, rfl⟩ := Prod.mk.inj (Option.some.inj h)
          refine converts_word (Or.inr (Or.inl hsigned)) ?_ ?_
          · rw [length_convertSigned, Directive.length, if_pos hsigned]
          · rw [convertSigned_fits d (natAbs_vaSigned d.llen value), Directive.Fits]
            exact ⟨fun hfits => ⟨fun _ => hfits, fun hnot => absurd hnot hunsigned⟩,
              fun hfits => hfits.1 hsigned⟩
      · exact nomatch h
  next hsigned =>
  change ¬ d.isSigned at hsigned
  split at h
  · next hunsigned =>
      change d.isUnsigned at hunsigned
      split at h
      · next value _ =>
          obtain ⟨rfl, rfl⟩ := Prod.mk.inj (Option.some.inj h)
          refine converts_word (Or.inr (Or.inr (Or.inl hunsigned))) ?_ ?_
          · rw [length_convertUnsigned, Directive.length, if_neg hsigned, if_pos hunsigned]
          · rw [convertUnsigned_fits d (vaUnsigned_lt d.llen value), Directive.Fits]
            exact ⟨fun hfits => ⟨fun hnot => absurd hnot hsigned, fun _ => hfits⟩,
              fun hfits => hfits.2 hunsigned⟩
      · exact nomatch h
  next hunsigned =>
  change ¬ d.isUnsigned at hunsigned
  split at h
  · next hconv =>
      split at h
      · next value _ =>
          obtain ⟨rfl, rfl⟩ := Prod.mk.inj (Option.some.inj h)
          have hlt : (asUInt64 value).toNat < 2 ^ 64 := by
            unfold asUInt64
            omega
          refine converts_word (Or.inr (Or.inr (Or.inr hconv))) ?_ ?_
          · rw [length_convertPointer, Directive.length, if_neg hsigned, if_neg hunsigned,
              if_pos hconv]
          · refine iff_of_true (convertPointer_fits hlt) ?_
            exact ⟨fun hnot => absurd hnot hsigned, fun hnot => absurd hnot hunsigned⟩
      · exact nomatch h
  next hpointer =>
  split at h
  · exact nomatch h
  · obtain ⟨rfl, rfl⟩ := Prod.mk.inj (Option.some.inj h)
    exact converts_one ‹_› ‹_› hsigned hunsigned hpointer

/-! ## The loop -/

/-- The buffer when so much has been printed. -/
def visible (size : ℕ) (before : ℕ → UInt8) (full : List UInt8) (i : ℕ) : UInt8 :=
  if i < full.length ∧ i + 1 < size then full.getD i 0 else before i

/-- The state of the loop when so much has been printed. -/
structure Printing (size : ℕ) (before : ℕ → UInt8) (full : List UInt8) (s : Printer) : Prop where
  len : s.len = full.length
  buf : s.buf = some (visible size before full)
  stores : ∀ i ∈ s.stores, i < size

section Loop

variable {size : ℕ} {before : ℕ → UInt8} {full : List UInt8} {s : Printer}

theorem visible_snoc (c : UInt8) :
    visible size before (full ++ [c]) =
      if full.length + 1 < size then update (visible size before full) full.length c
      else visible size before full := by
  funext i
  have hlength : (full ++ [c]).length = full.length + 1 := by simp
  have hold : i < full.length → (full ++ [c]).getD i 0 = full.getD i 0 := fun hi => by
    rw [List.getD_eq_getElem?_getD, List.getElem?_append_left hi, ← List.getD_eq_getElem?_getD]
  split
  · next hroom =>
      by_cases hi : i = full.length
      · have hlast : (full ++ [c]).getD full.length 0 = c := by simp
        rw [hi, update_self, visible, hlength, if_pos ⟨Nat.lt_succ_self _, hroom⟩, hlast]
      · rw [update_of_ne hi, visible, visible, hlength]
        by_cases hin : i < full.length ∧ i + 1 < size
        · rw [if_pos hin, if_pos ⟨by omega, hin.2⟩, hold hin.1]
        · rw [if_neg hin, if_neg (by omega)]
  · rw [visible, visible, hlength]
    by_cases hin : i < full.length ∧ i + 1 < size
    · rw [if_pos hin, if_pos ⟨by omega, hin.2⟩, hold hin.1]
    · rw [if_neg hin, if_neg (by omega)]

theorem Printing.put (h : Printing size before full s) (c : UInt8) :
    Printing size before (full ++ [c]) (s.put size c) := by
  have hput : s.put size c =
      if s.len + 1 < size then
        { s with len := s.len + 1, buf := some (update (visible size before full) s.len c)
                 stores := s.len :: s.stores }
      else { s with len := s.len + 1 } := by
    rw [Printer.put, h.buf]
  have hlen : s.len + 1 = (full ++ [c]).length := by
    rw [h.len]
    simp
  rw [hput]
  split
  · next hroom =>
      refine ⟨hlen, ?_, ?_⟩
      · rw [visible_snoc, ← h.len, if_pos hroom]
      · intro i hi
        rcases List.mem_cons.mp hi with rfl | hold
        · omega
        · exact h.stores i hold
  · next hroom =>
      refine ⟨hlen, ?_, h.stores⟩
      rw [visible_snoc, ← h.len, if_neg hroom]
      exact h.buf

theorem Printing.write (h : Printing size before full s) (text : List UInt8) :
    Printing size before (full ++ text) (s.write size text) := by
  induction text generalizing full s with
  | nil =>
      rw [List.append_nil]
      exact h
  | cons c text ih =>
      have hrest := ih (h.put c)
      rw [List.append_assoc] at hrest
      exact hrest

theorem items_put (size : ℕ) (s : Printer) (c : UInt8) : (s.put size c).items = s.items := by
  unfold Printer.put
  split
  · rfl
  · split <;> rfl

theorem items_write (size : ℕ) (s : Printer) (text : List UInt8) :
    (s.write size text).items = s.items := by
  induction text generalizing s with
  | nil => rfl
  | cons c text ih => exact (ih _).trans (items_put size s c)

/-- The item is in the arrays. -/
def Item.Fits (item : Item) : Prop := item.text.length ≤ 96 ∧ item.digits ≤ 32

/-- The loop prints all the output, and converts items that fit where the directives say so. -/
theorem printLoop_spec {ps : List Piece} {args : List PrintArg} {out : List UInt8}
    (h : Printing size before full s) (hout : fullOutput ps args = some out) :
    ∃ last, printLoop size ps args s = some last ∧ Printing size before (full ++ out) last ∧
      out.length = outputLength ps args ∧
      ((∀ item ∈ last.items, item.Fits) ↔ (∀ item ∈ s.items, item.Fits) ∧ AllFit ps args) := by
  induction ps generalizing args out full s with
  | nil =>
      obtain rfl := Option.some.inj hout
      rw [List.append_nil]
      exact ⟨s, rfl, h, rfl, (and_iff_left trivial).symm⟩
  | cons piece rest ih =>
      cases piece with
      | char c =>
          obtain ⟨tail, htail, rfl⟩ := Option.map_eq_some_iff.mp hout
          obtain ⟨last, hlast, hprinting, hlength, hitems⟩ := ih (h.put c) htail
          rw [List.append_assoc] at hprinting
          rw [items_put] at hitems
          exact ⟨last, hlast, hprinting, congrArg (· + 1) hlength, hitems⟩
      | directive d =>
          obtain ⟨⟨item, args'⟩, hconvert, hrest⟩ := Option.bind_eq_some_iff.mp hout
          obtain ⟨tail, htail, rfl⟩ := Option.map_eq_some_iff.mp hrest
          have hspec := convert_spec hconvert
          have hadded : Printing size before full { s with items := s.items ++ [item] } :=
            ⟨h.len, h.buf, h.stores⟩
          obtain ⟨last, hlast, hprinting, hlength, hitems⟩ := ih (hadded.write item.text) htail
          rw [List.append_assoc] at hprinting
          refine ⟨last, ?_, hprinting, ?_, ?_⟩
          · rw [printLoop, hconvert]
            exact hlast
          · rw [List.length_append, outputLength, hlength, hspec.length]
            dsimp only
            rw [hspec.rest]
          · rw [hitems, items_write]
            dsimp only
            rw [List.forall_mem_append, List.forall_mem_singleton, and_assoc, AllFit, ← hspec.rest]
            exact and_congr_right fun _ => and_congr_left fun _ => hspec.fits

theorem Printing.terminate (h : Printing size before full s) :
    (s.terminate size).buf =
        some (if full.length < size then update (visible size before full) full.length 0
          else visible size before full) ∧
      (∀ i ∈ (s.terminate size).stores, i < size) ∧ (s.terminate size).items = s.items := by
  have hterminate : s.terminate size =
      if s.len < size then
        { s with buf := some (update (visible size before full) s.len 0)
                 stores := s.len :: s.stores }
      else s := by
    rw [Printer.terminate, h.buf]
  rw [hterminate, h.len]
  split
  · next hroom =>
      refine ⟨rfl, fun i hi => ?_, rfl⟩
      rcases List.mem_cons.mp hi with rfl | hold
      · exact hroom
      · exact h.stores i hold
  · exact ⟨h.buf, h.stores, rfl⟩

end Loop

theorem asInt_natCast_iff {n : ℕ} : asInt n = n ↔ n < 2 ^ 31 := by
  constructor
  · intro heq
    have hbounds := asInt_bounds n
    omega
  · intro hlt
    exact asInt_eq (by omega) (by omega)

section Call

variable {size : ℕ} {before : ℕ → UInt8} {fmt : List UInt8} {args : List PrintArg}
  {full : List UInt8}

variable (size before full) in
/-- The text that has room is in the buffer, and its end where a terminator was stored or stood. -/
theorem visible_spec (hsize : 0 < size) :
    ∀ after, after = (if full.length < size then
        update (visible size before full) full.length 0 else visible size before full) →
      (∀ i, size ≤ i → after i = before i) ∧
        (∀ i < min full.length (size - 1), after i = full.getD i 0) ∧
          (after (min full.length (size - 1)) = 0 ↔
            full.length < size ∨ before (size - 1) = 0) := by
  rintro after rfl
  have houtside : ∀ i, size ≤ i → visible size before full i = before i := fun i hi =>
    if_neg (by omega)
  have hinside : ∀ i < min full.length (size - 1), visible size before full i = full.getD i 0 :=
    fun i hi => if_pos (by omega)
  by_cases hroom : full.length < size
  · rw [if_pos hroom]
    refine ⟨fun i hi => ?_, fun i hi => ?_, iff_of_true ?_ (Or.inl hroom)⟩
    · rw [update_of_ne (by omega), houtside i hi]
    · rw [update_of_ne (by omega), hinside i hi]
    · rw [Nat.min_eq_left (by omega), update_self]
  · rw [if_neg hroom, or_iff_right hroom, Nat.min_eq_right (by omega)]
    refine ⟨houtside, fun i hi => hinside i (by omega), ?_⟩
    rw [visible, if_neg (by omega)]

/-- What a call leaves. -/
structure Leaves (size : ℕ) (before : ℕ → UInt8) (full : List UInt8) (ps : List Piece)
    (args : List PrintArg) (p : Printed) (after : ℕ → UInt8) : Prop where
  result : p.buf = some after
  returns : p.ret = asInt full.length
  length : full.length = outputLength ps args
  stores : ∀ i ∈ p.stores, i < size
  frame : ∀ i, size ≤ i → after i = before i
  fits : (∀ item ∈ p.items, item.Fits) ↔ AllFit ps args
  shows : ∀ i < min full.length (size - 1), after i = full.getD i 0
  terminated : after (min full.length (size - 1)) = 0 ↔ full.length < size ∨ before (size - 1) = 0

variable (size before fmt args full) in
theorem vsnprintf_spec (hsize : 0 < size) (hmatch : fullOutput (pieces fmt) args = some full) :
    ∃ p after, vsnprintf (some before) size fmt args = some p ∧
      Leaves size before full (pieces fmt) args p after := by
  have hstart : Printing size before [] ⟨0, some before, [], []⟩ := ⟨rfl, rfl, nofun⟩
  obtain ⟨last, hlast, hprinting, hlength, hitems⟩ := printLoop_spec hstart hmatch
  rw [List.nil_append] at hprinting
  obtain ⟨hbuf, hstores, hkept⟩ := hprinting.terminate
  obtain ⟨hframe, hshows, hterminated⟩ := visible_spec size before full hsize _ rfl
  refine ⟨_, _, Option.map_eq_some_iff.mpr ⟨last, hlast, rfl⟩, hbuf, ?_, hlength, hstores, hframe,
    ?_, hshows, hterminated⟩
  · rw [← hprinting.len]
  · dsimp only
    rw [hkept, hitems]
    exact and_iff_right nofun

/-- For every format, every list of arguments that matches it and every buffer. -/
theorem prints_iff (hsize : 0 < size) (hmatch : fullOutput (pieces fmt) args = some full) :
    (∃ p after, vsnprintf (some before) size fmt args = some p ∧
        Prints size before full p after) ↔
      AllFit (pieces fmt) args ∧ outputLength (pieces fmt) args < 2 ^ 31 ∧
        (outputLength (pieces fmt) args < size ∨ before (size - 1) = 0) := by
  obtain ⟨p, after, hcall, hleaves⟩ := vsnprintf_spec size before fmt args full hsize hmatch
  rw [hcall, ← hleaves.length]
  constructor
  · rintro ⟨_, other, heq, hprints⟩
    obtain rfl := Option.some.inj heq
    obtain rfl := Option.some.inj (hleaves.result.symm.trans hprints.result)
    have hreturns := hleaves.returns.symm.trans hprints.returns
    exact ⟨hleaves.fits.mp hprints.temporaries, asInt_natCast_iff.mp hreturns,
      hleaves.terminated.mp hprints.terminated⟩
  · rintro ⟨hfit, hint, hroom⟩
    exact ⟨p, after, rfl, hleaves.result, hleaves.stores, hleaves.frame, hleaves.fits.mpr hfit,
      hleaves.shows, hleaves.terminated.mpr hroom, hleaves.returns.trans (asInt_natCast_iff.mpr hint)⟩

end Call

def chars (text : String) : List UInt8 := text.toList.map ch

/-- A greeting in a buffer of 16 bytes. -/
theorem prints_iff_greeting :
    ∃ p after, vsnprintf (some fun _ => 1) 16 (chars "Hello, %s!") [.str (chars "world")] = some p ∧
      Prints 16 (fun _ => 1) (chars "Hello, world!") p after := by
  refine (prints_iff (by decide) (by decide +kernel)).mpr ⟨?_, by decide +kernel, ?_⟩
  · decide +kernel
  · exact Or.inl (by decide +kernel)

/-- Five characters for a buffer of four, a field of 97 and a number of 33 digits. -/
theorem not_prints_overlong :
    (¬ ∃ p after, vsnprintf (some fun _ => 1) 4 (chars "Hello") [] = some p ∧
        Prints 4 (fun _ => 1) (chars "Hello") p after) ∧
      (¬ ∃ p after full, vsnprintf (some fun _ => 1) 200 (chars "%97d") [.word 5] = some p ∧
        Prints 200 (fun _ => 1) full p after) ∧
        ¬ ∃ p after full, vsnprintf (some fun _ => 1) 200 (chars "%.33d") [.word 5] = some p ∧
          Prints 200 (fun _ => 1) full p after := by
  refine ⟨?_, ?_, ?_⟩
  · rintro ⟨p, after, hp, hprints⟩
    have hlast : (vsnprintf (some fun _ => 1) 4 (chars "Hello") []).map
        (fun p => p.buf.map (· 3)) = some (some 1) := by decide +kernel
    rw [hp, Option.map_some, hprints.result] at hlast
    have hone : after 3 = 1 := Option.some.inj (Option.some.inj hlast)
    exact absurd (hone.symm.trans hprints.terminated) (by decide)
  · rintro ⟨p, after, full, hp, hprints⟩
    have hitems : (vsnprintf (some fun _ => 1) 200 (chars "%97d") [.word 5]).map
        (fun p => p.items.all fun item => decide (item.text.length ≤ 96)) = some false := by
      decide +kernel
    rw [hp, Option.map_some] at hitems
    refine absurd (Option.some.inj hitems) (Bool.not_eq_false _ ▸ ?_)
    exact List.all_eq_true.mpr fun item hitem => decide_eq_true (hprints.temporaries item hitem).1
  · rintro ⟨p, after, full, hp, hprints⟩
    have hitems : (vsnprintf (some fun _ => 1) 200 (chars "%.33d") [.word 5]).map
        (fun p => p.items.all fun item => decide (item.digits ≤ 32)) = some false := by
      decide +kernel
    rw [hp, Option.map_some] at hitems
    refine absurd (Option.some.inj hitems) (Bool.not_eq_false _ ▸ ?_)
    exact List.all_eq_true.mpr fun item hitem => decide_eq_true (hprints.temporaries item hitem).2

end EigenOS.Libc
