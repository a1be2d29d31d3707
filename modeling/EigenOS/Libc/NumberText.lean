import EigenOS.Libc.Printf
import Mathlib.Data.List.TakeWhile

/-!
# Numbers as text

What `vsnprintf` prints of an integer and what `strtol` reads of a text.  They agree but for `%u`,
which prints hexadecimal digits, and for the modifiers `z` and `t`, which print 32 bits; and
`strtol` skips `0x` also where no digit follows.
-/

namespace EigenOS.Libc

open EigenOS.MachineInt

/-! ## Reading a number -/

def isBlank (c : UInt8) : Bool := c = ch ' ' ∨ c = ch '\t'

/-- The value of a character as a digit of the largest base. -/
def digitValue (c : UInt8) : Option ℕ :=
  if ch '0' ≤ c ∧ c ≤ ch '9' then some (c.toNat - 48)
  else if ch 'a' ≤ c ∧ c ≤ ch 'z' then some (c.toNat - 97 + 10)
  else if ch 'A' ≤ c ∧ c ≤ ch 'Z' then some (c.toNat - 65 + 10)
  else none

/-- The loop over the digits: the value, and how many there are. -/
def digitLoop (base : ℤ) : ℤ → List UInt8 → ℤ × ℕ
  | v, [] => (v, 0)
  | v, c :: rest =>
      match digitValue c with
      | none => (v, 0)
      | some d =>
          if base ≤ d then (v, 0)
          else
            let read := digitLoop base (asLong (v * base + d)) rest
            (read.1, read.2 + 1)

def firstChar (text : List UInt8) : Option UInt8 := (text.dropWhile isBlank).head?

/-- The characters that are skipped, blanks and a sign. -/
def numberStart (text : List UInt8) : ℕ :=
  (text.takeWhile isBlank).length +
    if firstChar text = some (ch '+') ∨ firstChar text = some (ch '-') then 1 else 0

def zeroX (s : List UInt8) : Prop :=
  s[0]? = some (ch '0') ∧ (s[1]? = some (ch 'x') ∨ s[1]? = some (ch 'X'))

instance (s : List UInt8) : Decidable (zeroX s) := inferInstanceAs (Decidable (_ ∧ _))

/-- The base to read in, and the length of its prefix. -/
def chooseBase (hex : Prop) [Decidable hex] (base : ℤ) (s : List UInt8) : ℤ × ℕ :=
  if base = 0 then
    if hex then (16, 2) else if s[0]? = some (ch '0') then (8, 0) else (10, 0)
  else if base = 16 ∧ hex then (16, 2)
  else (base, 0)

/-- What `strtol` returns, and how far from the start its end pointer is. -/
structure Parsed where
  value : ℤ
  stop : ℕ
  deriving DecidableEq

def strtol (text : List UInt8) (base : ℤ) : Parsed :=
  let s := text.drop (numberStart text)
  let chosen := chooseBase (zeroX s) base s
  let read := digitLoop chosen.1 0 (s.drop chosen.2)
  { value := if firstChar text = some (ch '-') then asLong (-read.1) else read.1
    stop := if read.2 = 0 then 0 else numberStart text + chosen.2 + read.2 }

/-! ## What it promises -/

def isDigitOf (base : ℤ) (c : UInt8) : Bool := (digitValue c).any fun d => decide ((d : ℤ) < base)

/-- A prefix with a digit behind it. -/
def hexNumber (s : List UInt8) : Prop := zeroX s ∧ s[2]?.any (isDigitOf 16) = true

instance (s : List UInt8) : Decidable (hexNumber s) := inferInstanceAs (Decidable (_ ∧ _))

/-- The first character that is no digit, or the start where there is no digit. -/
def stopOf (text : List UInt8) (base : ℤ) : ℕ :=
  let s := text.drop (numberStart text)
  let chosen := chooseBase (hexNumber s) base s
  let digits := (s.drop chosen.2).takeWhile (isDigitOf chosen.1)
  if digits = [] then 0 else numberStart text + chosen.2 + digits.length

/-- A prefix in a base that takes it, with no digit behind it. -/
def BarePrefix (text : List UInt8) (base : ℤ) : Prop :=
  (base = 0 ∨ base = 16) ∧ zeroX (text.drop (numberStart text)) ∧
    ¬ hexNumber (text.drop (numberStart text))

inductive Conversion where
  | d
  | u
  | x
  | o
  deriving DecidableEq

def Conversion.char : Conversion → UInt8
  | .d => ch 'd'
  | .u => ch 'u'
  | .x => ch 'x'
  | .o => ch 'o'

/-- The base of the numeral that the conversion stands for. -/
def Conversion.parseBase : Conversion → ℕ
  | .d => 10
  | .u => 10
  | .x => 16
  | .o => 8

/-- The length modifiers, with none for `int`. -/
inductive IntLength where
  | int
  | hh
  | h
  | l
  | ll
  | z
  | j
  | t
  | q
  deriving DecidableEq

def IntLength.modifier : IntLength → List UInt8
  | .int => []
  | .hh => chars "hh"
  | .h => chars "h"
  | .l => chars "l"
  | .ll => chars "ll"
  | .z => chars "z"
  | .j => chars "j"
  | .t => chars "t"
  | .q => chars "q"

/-- The bits of the type that the modifier stands for. -/
def IntLength.bits : IntLength → ℕ
  | .int => 32
  | .hh => 8
  | .h => 16
  | _ => 64

def format (c : Conversion) (w : IntLength) : List UInt8 := ch '%' :: (w.modifier ++ [c.char])

/-- A value of the type, and of a `long`. -/
def InRange (c : Conversion) (w : IntLength) (v : ℤ) : Prop :=
  if c = .d then -2 ^ (w.bits - 1) ≤ v ∧ v < 2 ^ (w.bits - 1) else 0 ≤ v ∧ v < 2 ^ w.bits ∧ v < 2 ^ 63

instance (c : Conversion) (w : IntLength) (v : ℤ) : Decidable (InRange c w v) :=
  inferInstanceAs (Decidable (ite _ _ _))

/-- The string in a buffer. -/
def cString (size : ℕ) (buf : ℕ → UInt8) : List UInt8 := ((List.range size).map buf).takeWhile (· ≠ 0)

/-- From every buffer with room for the text, `strtol` reads the value up to the terminator. -/
def RoundTrips (c : Conversion) (w : IntLength) (v : ℤ) : Prop :=
  ∀ size before, outputLength (pieces (format c w)) [.word v] < size →
    ∃ p after, vsnprintf (some before) size (format c w) [.word v] = some p ∧ p.buf = some after ∧
      strtol (cString size after) c.parseBase = ⟨v, (cString size after).length⟩

/-- What is printed is a numeral of the value in the base it is read in. -/
def Printable (c : Conversion) (w : IntLength) (v : ℤ) : Prop :=
  (c = .u → v < 10) ∧
    (w = .z ∨ w = .t → if c = .d then -2 ^ 31 ≤ v ∧ v < 2 ^ 31 else v < 2 ^ 32)

/-! ## Where it stops -/

section Stop

variable {base : ℤ}

theorem digitLoop_count (v : ℤ) (s : List UInt8) :
    (digitLoop base v s).2 = (s.takeWhile (isDigitOf base)).length := by
  induction s generalizing v with
  | nil => rfl
  | cons c rest ih =>
      rw [digitLoop]
      cases hdigit : digitValue c with
      | none =>
          have hnot : isDigitOf base c = false := by
            rw [isDigitOf, hdigit]
            rfl
          rw [List.takeWhile_cons_of_neg (by simp [hnot])]
          rfl
      | some d =>
          have hvalue : isDigitOf base c = decide ((d : ℤ) < base) := by
            rw [isDigitOf, hdigit]
            rfl
          dsimp only
          by_cases hlarge : base ≤ d
          · rw [if_pos hlarge, List.takeWhile_cons_of_neg]
            · rfl
            · simp [hvalue, hlarge]
          · rw [if_neg hlarge, List.takeWhile_cons_of_pos, List.length_cons, ih]
            simp [hvalue, not_le.mp hlarge]

theorem strtol_stop (text : List UInt8) (base : ℤ) :
    (strtol text base).stop =
      let s := text.drop (numberStart text)
      let chosen := chooseBase (zeroX s) base s
      let digits := (s.drop chosen.2).takeWhile (isDigitOf chosen.1)
      if digits = [] then 0 else numberStart text + chosen.2 + digits.length := by
  unfold strtol
  dsimp only
  rw [digitLoop_count]
  simp only [List.length_eq_zero_iff]

theorem chooseBase_congr {hex hex' : Prop} [Decidable hex] [Decidable hex'] {s : List UInt8}
    (h : base = 0 ∨ base = 16 → (hex ↔ hex')) : chooseBase hex base s = chooseBase hex' base s := by
  unfold chooseBase
  by_cases hzero : base = 0
  · simp only [if_pos hzero, h (Or.inl hzero)]
  · rw [if_neg hzero, if_neg hzero]
    by_cases hsixteen : base = 16
    · simp only [h (Or.inr hsixteen)]
    · rw [if_neg fun hboth => hsixteen hboth.1, if_neg fun hboth => hsixteen hboth.1]

/-- Where only the prefix is taken there is no digit, but the zero of the prefix is one. -/
theorem stop_bare {text : List UInt8} (h : BarePrefix text base) :
    (strtol text base).stop = 0 ∧ stopOf text base ≠ 0 := by
  obtain ⟨hbase, hx, hnumber⟩ := h
  have hthird : ((text.drop (numberStart text))[2]?.any (isDigitOf 16)) = false :=
    Bool.not_eq_true _ ▸ fun hdigit => hnumber ⟨hx, hdigit⟩
  constructor
  · have hchosen : chooseBase (zeroX (text.drop (numberStart text))) base
        (text.drop (numberStart text)) = (16, 2) := by
      unfold chooseBase
      rcases hbase with rfl | rfl
      · rw [if_pos rfl, if_pos hx]
      · rw [if_neg (by decide), if_pos ⟨rfl, hx⟩]
    rw [strtol_stop]
    dsimp only
    rw [hchosen]
    refine if_pos ?_
    rw [← List.head?_drop] at hthird
    cases hrest : (text.drop (numberStart text)).drop 2 with
    | nil => rfl
    | cons c rest =>
        rw [hrest] at hthird
        exact List.takeWhile_cons_of_neg (by simpa using hthird)
  · have hchosen : ∃ b : ℤ, 0 < b ∧ chooseBase (hexNumber (text.drop (numberStart text))) base
        (text.drop (numberStart text)) = (b, 0) := by
      unfold chooseBase
      rcases hbase with rfl | rfl
      · exact ⟨8, by decide, by rw [if_pos rfl, if_neg hnumber, if_pos hx.1]⟩
      · exact ⟨16, by decide, by rw [if_neg (by decide), if_neg fun hboth => hnumber hboth.2]⟩
    obtain ⟨b, hpos, hchosen⟩ := hchosen
    unfold stopOf
    dsimp only
    rw [hchosen]
    have hfirst := hx.1
    cases hrest : text.drop (numberStart text) with
    | nil =>
        rw [hrest] at hfirst
        exact nomatch hfirst
    | cons c rest =>
        rw [hrest] at hfirst
        obtain rfl : c = ch '0' := Option.some.inj hfirst
        have hzero : isDigitOf b (ch '0') = true := decide_eq_true (by exact_mod_cast hpos)
        rw [List.drop_zero, List.takeWhile_cons_of_pos hzero, if_neg nofun, List.length_cons]
        omega

theorem stop_iff (text : List UInt8) (base : ℤ) :
    (strtol text base).stop = stopOf text base ↔ ¬ BarePrefix text base := by
  constructor
  · intro heq hbare
    obtain ⟨hzero, hne⟩ := stop_bare hbare
    exact hne (heq.symm.trans hzero)
  · intro hbare
    have hchosen : chooseBase (zeroX (text.drop (numberStart text))) base
        (text.drop (numberStart text)) =
        chooseBase (hexNumber (text.drop (numberStart text))) base (text.drop (numberStart text)) := by
      refine chooseBase_congr fun hbase => ⟨fun hx => ?_, And.left⟩
      by_contra hnumber
      exact hbare ⟨hbase, hx, hnumber⟩
    rw [strtol_stop, stopOf]
    dsimp only
    rw [hchosen]

end Stop

/-! ## Numerals -/

/-- The digits of a number from the last one on, a zero where there are none. -/
def numeralDigits (base u : ℕ) : List ℕ := if u = 0 then [0] else Nat.digits base u

/-- The text of a number. -/
def numeral (base u : ℕ) : List UInt8 := (numeralDigits base u).reverse.map (digitChar false)

section Numeral

variable {base u : ℕ}

theorem digitsOf_plain (base u : ℕ) : (digitsOf false base u (-1)).reverse = numeral base u := by
  have hpad : ∀ n : ℕ, (-1 - n : ℤ).toNat = 0 := fun n => by omega
  unfold digitsOf numeral numeralDigits
  dsimp only
  rw [hpad, List.replicate_zero, List.append_nil, List.map_reverse]
  split <;> rfl

theorem numeralDigits_ne_nil (base u : ℕ) : numeralDigits base u ≠ [] := by
  unfold numeralDigits
  split
  · exact List.cons_ne_nil 0 []
  · next hu => exact Nat.digits_ne_nil_iff_ne_zero.mpr hu

theorem numeralDigits_lt (hbase : 1 < base) : ∀ d ∈ numeralDigits base u, d < base := by
  intro d hd
  unfold numeralDigits at hd
  split at hd
  · rw [List.mem_singleton.mp hd]
    omega
  · exact Nat.digits_lt_base hbase hd

theorem ofDigits_numeralDigits (base u : ℕ) : Nat.ofDigits base (numeralDigits base u) = u := by
  unfold numeralDigits
  split
  · next hu =>
      rw [hu]
      rfl
  · exact Nat.ofDigits_digits base u

theorem digitChar_spec {d : ℕ} (hd : d < 16) :
    digitValue (digitChar false d) = some d ∧ digitChar false d ≠ ch 'x' ∧
      digitChar false d ≠ ch 'X' ∧ digitChar false d ≠ ch '+' ∧ digitChar false d ≠ ch '-' ∧
      isBlank (digitChar false d) = false ∧ digitChar false d ≠ 0 := by
  have hall : ∀ d < 16, digitValue (digitChar false d) = some d ∧ digitChar false d ≠ ch 'x' ∧
      digitChar false d ≠ ch 'X' ∧ digitChar false d ≠ ch '+' ∧ digitChar false d ≠ ch '-' ∧
      isBlank (digitChar false d) = false ∧ digitChar false d ≠ 0 := by decide +kernel
  exact hall d hd

theorem mem_numeral (hbase : 1 < base) (hle : base ≤ 16) {c : UInt8} (hc : c ∈ numeral base u) :
    ∃ d < 16, c = digitChar false d := by
  obtain ⟨d, hd, rfl⟩ := List.mem_map.mp hc
  exact ⟨d, (numeralDigits_lt hbase d (List.mem_reverse.mp hd)).trans_le hle, rfl⟩

theorem asLong_step (a b d : ℤ) : asLong (asLong a * b + d) = asLong (a * b + d) := by
  unfold asLong
  rw [← Int.bmod_add_bmod, Int.bmod_mul_bmod, Int.bmod_add_bmod]

theorem digitLoop_digits {parse : ℕ} {l : List ℕ} (hsmall : ∀ d ∈ l, d < 16)
    (hlt : ∀ d ∈ l, d < parse) (tail : List UInt8) :
    digitLoop parse 0 (l.reverse.map (digitChar false) ++ tail) =
      ((digitLoop parse (asLong (Nat.ofDigits parse l : ℕ)) tail).1,
        (digitLoop parse (asLong (Nat.ofDigits parse l : ℕ)) tail).2 + l.length) := by
  induction l generalizing tail with
  | nil =>
      have hzero : asLong (Nat.ofDigits parse [] : ℕ) = 0 := by
        rw [Nat.ofDigits_nil, Nat.cast_zero]
        exact asLong_eq (by decide) (by decide)
      rw [hzero]
      rfl
  | cons d l ih =>
      have hd := hsmall d List.mem_cons_self
      have hnot : ¬ (parse : ℤ) ≤ d := by
        have hdigit := hlt d List.mem_cons_self
        omega
      have hvalue : asLong (asLong (Nat.ofDigits parse l : ℕ) * parse + d) =
          asLong (Nat.ofDigits parse (d :: l) : ℕ) := by
        rw [asLong_step, Nat.ofDigits_cons]
        congr 1
        push_cast
        ring
      have hrest := ih (fun d hd => hsmall d (List.mem_cons_of_mem _ hd))
        (fun d hd => hlt d (List.mem_cons_of_mem _ hd)) (digitChar false d :: tail)
      rw [List.reverse_cons, List.map_append, List.append_assoc, List.map_cons, List.map_nil,
        List.singleton_append, hrest, digitLoop, (digitChar_spec hd).1]
      dsimp only
      rw [if_neg hnot, hvalue, List.length_cons]
      ext <;> dsimp only
      omega

theorem digitLoop_numeral (hbase : 1 < base) (hle : base ≤ 16) (u : ℕ) :
    digitLoop base 0 (numeral base u) = (asLong u, (numeral base u).length) := by
  have hdigits := numeralDigits_lt (u := u) hbase
  have hloop := digitLoop_digits (fun d hd => (hdigits d hd).trans_le hle) hdigits []
  rw [ofDigits_numeralDigits, List.append_nil] at hloop
  unfold numeral
  rw [hloop, List.length_map, List.length_reverse, digitLoop, Nat.zero_add]

theorem decimal_lt (hu : 10 ≤ u) (hdigits : ∀ d ∈ numeralDigits 16 u, d < 10) :
    Nat.ofDigits 10 (numeralDigits 16 u) < u := by
  have hne : u ≠ 0 := by omega
  have hplain : numeralDigits 16 u = u % 16 :: Nat.digits 16 (u / 16) := by
    rw [numeralDigits, if_neg hne]
    exact Nat.digits_eq_cons_digits_div (by decide) hne
  have hfirst : u % 16 < 10 := hdigits (u % 16) (hplain ▸ List.mem_cons_self)
  have hrest : Nat.ofDigits 10 (Nat.digits 16 (u / 16)) ≤ u / 16 :=
    (Nat.ofDigits_monotone _ (by decide)).trans_eq (Nat.ofDigits_digits 16 (u / 16))
  rw [hplain, Nat.ofDigits_cons]
  omega

theorem digitLoop_hexadecimal (hu : 10 ≤ u) (hlt : u < 2 ^ 63) {v : ℤ} (hv : (u : ℤ) ≤ v) :
    digitLoop 10 0 (numeral 16 u) ≠ (v, (numeral 16 u).length) := by
  intro heq
  have hcount := congrArg Prod.snd heq
  rw [digitLoop_count] at hcount
  have hall : (numeral 16 u).takeWhile (isDigitOf 10) = numeral 16 u :=
    (List.takeWhile_prefix _).eq_of_length hcount
  have hdigits : ∀ d ∈ numeralDigits 16 u, d < 10 := by
    intro d hd
    have hsmall := numeralDigits_lt (by decide : 1 < 16) d hd
    have hchar : digitChar false d ∈ numeral 16 u :=
      List.mem_map.mpr ⟨d, List.mem_reverse.mpr hd, rfl⟩
    have hdigit := List.takeWhile_eq_self_iff.mp hall _ hchar
    rw [isDigitOf, (digitChar_spec hsmall).1] at hdigit
    exact_mod_cast of_decide_eq_true hdigit
  have hloop := digitLoop_digits
    (fun d hd => (numeralDigits_lt (by decide : 1 < 16) d hd)) hdigits []
  rw [List.append_nil] at hloop
  have hvalue := congrArg Prod.fst (hloop.symm.trans heq)
  have hless := decimal_lt hu hdigits
  dsimp only [digitLoop] at hvalue
  rw [asLong_eq (by omega) (by omega)] at hvalue
  omega

end Numeral

/-! ## The text of a conversion -/

def Conversion.printBase : Conversion → ℕ
  | .d => 10
  | .o => 8
  | _ => 16

def IntLength.llen : IntLength → ℤ
  | .l => 1
  | .ll => 2
  | .j => 1
  | .q => 1
  | _ => 0

/-- The number that is read from the argument, and its text. -/
def signedText (v : ℤ) : List UInt8 :=
  (if v < 0 then [ch '-'] else []) ++ numeral 10 v.natAbs

def printedText (c : Conversion) (w : IntLength) (v : ℤ) : List UInt8 :=
  if c = .d then signedText (vaSigned w.llen v) else numeral c.printBase (vaUnsigned w.llen v)

section Text

variable {c : Conversion} {w : IntLength} {v : ℤ}

theorem Conversion.printBase_bounds (c : Conversion) : 1 < c.printBase ∧ c.printBase ≤ 16 := by
  cases c <;> decide

theorem pieces_format (c : Conversion) (w : IntLength) :
    pieces (format c w) = [.directive { Directive.start with llen := w.llen, conv := c.char }] := by
  cases c <;> cases w <;> decide +kernel

theorem layout_plain (llen : ℤ) (conv : UInt8) (total : ℕ) (sign digits : List UInt8) :
    ({ Directive.start with llen := llen, conv := conv } : Directive).layout
      (padding 0 total) sign digits = sign ++ digits := by
  have hpad : padding 0 total = 0 := by
    unfold padding
    omega
  rw [hpad]
  simp [Directive.layout, Directive.start]

theorem convertSigned_plain (llen v : ℤ) (conv : UInt8) :
    (({ Directive.start with llen := llen, conv := conv } : Directive).convertSigned v).text =
      signedText v := by
  have hsign : ∀ pad, ({ Directive.start with llen := llen, conv := conv } : Directive).sign v pad =
      if v < 0 then [ch '-'] else [] := fun pad => by
    simp [Directive.sign, Directive.start]
  unfold Directive.convertSigned
  dsimp only
  rw [hsign]
  refine (layout_plain llen conv _ _ _).trans ?_
  rw [signedText, ← digitsOf_plain]
  rfl

theorem convertUnsigned_plain (llen : ℤ) {conv : UInt8} (hconv : conv ≠ ch 'X') (u : ℕ) :
    (({ Directive.start with llen := llen, conv := conv } : Directive).convertUnsigned u).text =
      numeral (if conv = ch 'o' then 8 else 16) u := by
  have hnone : ∀ dt,
      ({ Directive.start with llen := llen, conv := conv } : Directive).hexPrefix dt = [] :=
    fun dt => if_neg fun hall => Bool.false_ne_true hall.1
  unfold Directive.convertUnsigned
  dsimp only
  rw [hnone]
  refine (layout_plain llen conv _ _ _).trans ?_
  rw [List.nil_append, decide_eq_false hconv, ← digitsOf_plain]
  rfl

theorem fullOutput_format (c : Conversion) (w : IntLength) (v : ℤ) :
    fullOutput (pieces (format c w)) [.word v] = some (printedText c w v) := by
  have hone : ∀ {d : Directive} {item : Item}, d.convert [.word v] = some (item, []) →
      fullOutput [.directive d] [.word v] = some item.text := by
    intro d item hconvert
    rw [fullOutput, hconvert]
    simp [fullOutput]
  rw [pieces_format]
  cases c with
  | d => exact (hone rfl).trans (congrArg some (convertSigned_plain _ _ _))
  | u | x | o => exact (hone rfl).trans (congrArg some (convertUnsigned_plain _ (by decide) _))

theorem numeral_ne_zero {base u : ℕ} (hbase : 1 < base) (hle : base ≤ 16) :
    ∀ c ∈ numeral base u, c ≠ 0 := by
  intro c hc
  obtain ⟨d, hd, rfl⟩ := mem_numeral hbase hle hc
  exact (digitChar_spec hd).2.2.2.2.2.2

theorem printedText_ne_zero : ∀ char ∈ printedText c w v, char ≠ 0 := by
  have hbounds := c.printBase_bounds
  unfold printedText
  split
  · unfold signedText
    intro char hchar
    rcases List.mem_append.mp hchar with hsign | hdigit
    · split at hsign
      · rw [List.mem_singleton.mp hsign]
        decide
      · exact nomatch hsign
    · exact numeral_ne_zero (by decide) (by decide) char hdigit
  · exact numeral_ne_zero hbounds.1 hbounds.2

theorem cString_eq {size : ℕ} {after : ℕ → UInt8} {full : List UInt8} (hsize : full.length < size)
    (hshows : ∀ i < full.length, after i = full.getD i 0) (hend : after full.length = 0)
    (hfull : ∀ c ∈ full, c ≠ 0) : cString size after = full := by
  obtain ⟨k, rfl⟩ := Nat.exists_eq_add_of_lt hsize
  have hfirst : (List.range full.length).map after = full := by
    refine List.ext_getElem (by simp) fun i hi hi' => ?_
    rw [List.getElem_map, List.getElem_range, hshows i hi', List.getElem_eq_getD 0]
  unfold cString
  rw [Nat.add_assoc, List.range_add, List.map_append, hfirst,
    List.takeWhile_append_of_pos fun c hc => by simpa using hfull c hc, List.range_succ_eq_map,
    List.map_cons, List.map_cons, Nat.add_zero, hend, List.takeWhile_cons_of_neg (by simp),
    List.append_nil]

theorem roundTrips_iff_text :
    RoundTrips c w v ↔ strtol (printedText c w v) c.parseBase = ⟨v, (printedText c w v).length⟩ := by
  have hprints : ∀ size before, outputLength (pieces (format c w)) [.word v] < size →
      ∃ p after, vsnprintf (some before) size (format c w) [.word v] = some p ∧
        p.buf = some after ∧ cString size after = printedText c w v := by
    intro size before hsize
    obtain ⟨p, after, hcall, hleaves⟩ := vsnprintf_spec size before (format c w) [.word v] _
      (by omega) (fullOutput_format c w v)
    rw [← hleaves.length] at hsize
    have hmin : min (printedText c w v).length (size - 1) = (printedText c w v).length :=
      Nat.min_eq_left (by omega)
    have hshows := hleaves.shows
    have hend := hleaves.terminated.mpr (Or.inl hsize)
    rw [hmin] at hshows hend
    exact ⟨p, after, hcall, hleaves.result, cString_eq hsize hshows hend printedText_ne_zero⟩
  constructor
  · intro h
    obtain ⟨p, after, hcall, hbuf, hparse⟩ := h _ (fun _ => 0) (Nat.lt_succ_self _)
    obtain ⟨p', after', hcall', hbuf', hstring⟩ := hprints _ (fun _ => 0) (Nat.lt_succ_self _)
    obtain rfl := Option.some.inj (hcall.symm.trans hcall')
    obtain rfl := Option.some.inj (hbuf.symm.trans hbuf')
    rwa [hstring] at hparse
  · intro hparse size before hsize
    obtain ⟨p, after, hcall, hbuf, hstring⟩ := hprints size before hsize
    refine ⟨p, after, hcall, hbuf, ?_⟩
    rw [hstring]
    exact hparse

end Text

/-! ## Printing and parsing -/

section Parse

variable {base parse u : ℕ}

variable (base parse u) in
theorem strtol_numeral (hbase : 1 < base) (hle : base ≤ 16) (hparse : parse ≠ 0) (negative : Bool) :
    strtol ((if negative then [ch '-'] else []) ++ numeral base u) parse =
      { value := if negative then asLong (-(digitLoop parse 0 (numeral base u)).1)
          else (digitLoop parse 0 (numeral base u)).1
        stop := if (digitLoop parse 0 (numeral base u)).2 = 0 then 0
          else (if negative then 1 else 0) + (digitLoop parse 0 (numeral base u)).2 } := by
  have hchars : ∀ c ∈ numeral base u, ∃ d < 16, c = digitChar false d :=
    fun c hc => mem_numeral hbase hle hc
  have hplain : ¬ zeroX (numeral base u) := by
    rintro ⟨_, hsecond⟩
    have hx : ch 'x' ∈ numeral base u ∨ ch 'X' ∈ numeral base u :=
      hsecond.imp List.mem_of_getElem? List.mem_of_getElem?
    rcases hx with hx | hx
    · obtain ⟨d, hd, heq⟩ := hchars _ hx
      exact (digitChar_spec hd).2.1 heq.symm
    · obtain ⟨d, hd, heq⟩ := hchars _ hx
      exact (digitChar_spec hd).2.2.1 heq.symm
  have hchosen : chooseBase (zeroX (numeral base u)) parse (numeral base u) = ((parse : ℤ), 0) := by
    unfold chooseBase
    rw [if_neg (by exact_mod_cast hparse), if_neg fun hboth => hplain hboth.2]
  obtain ⟨c, rest, hnumeral⟩ : ∃ c rest, numeral base u = c :: rest := by
    refine List.exists_cons_of_ne_nil fun hnil => ?_
    have hdigits := congrArg List.length hnil
    rw [numeral, List.length_map, List.length_reverse] at hdigits
    exact numeralDigits_ne_nil base u (List.length_eq_zero_iff.mp hdigits)
  obtain ⟨d, hd, hc⟩ := hchars c (hnumeral ▸ List.mem_cons_self)
  obtain ⟨_, _, _, hplus, hminus, hblank, _⟩ := digitChar_spec hd
  rw [← hc] at hplus hminus hblank
  cases negative with
  | false =>
      have hfirst : firstChar (numeral base u) = some c := by
        rw [firstChar, hnumeral, List.dropWhile_cons_of_neg (by simp [hblank])]
        rfl
      have hstart : numberStart (numeral base u) = 0 := by
        rw [numberStart, hfirst, if_neg (by simp [hplus, hminus]), hnumeral,
          List.takeWhile_cons_of_neg (by simp [hblank])]
        rfl
      change strtol (numeral base u) parse = _
      unfold strtol
      dsimp only
      rw [hstart, hfirst, List.drop_zero, hchosen]
      simp [hminus]
  | true =>
      have hfirst : firstChar (ch '-' :: numeral base u) = some (ch '-') := rfl
      have hstart : numberStart (ch '-' :: numeral base u) = 1 := by
        rw [numberStart, hfirst, if_pos (Or.inr rfl)]
        rfl
      change strtol (ch '-' :: numeral base u) parse = _
      unfold strtol
      dsimp only
      rw [hstart, hfirst, List.drop_succ_cons, List.drop_zero, hchosen]
      simp

theorem numeral_length_pos (base u : ℕ) : (numeral base u).length ≠ 0 := by
  rw [numeral, List.length_map, List.length_reverse]
  exact fun hnil => numeralDigits_ne_nil base u (List.length_eq_zero_iff.mp hnil)

variable (base u) in
theorem strtol_own (hbase : 1 < base) (hle : base ≤ 16) (negative : Bool) :
    strtol ((if negative then [ch '-'] else []) ++ numeral base u) base =
      ⟨asLong (if negative then -u else u),
        ((if negative then [ch '-'] else []) ++ numeral base u).length⟩ := by
  rw [strtol_numeral _ _ _ hbase hle (by omega), digitLoop_numeral hbase hle]
  dsimp only
  rw [if_neg (numeral_length_pos base u), List.length_append]
  cases negative with
  | false => simp
  | true =>
      have hneg : asLong (-asLong u) = asLong (-u) := by
        unfold asLong
        exact Int.bmod_neg_bmod
      simp [hneg]

/-- `-v` wraps for the least value, and so does the parser. -/
theorem strtol_signedText {v : ℤ} (hlow : -2 ^ 63 ≤ v) (hhigh : v < 2 ^ 63) :
    strtol (signedText v) (10 : ℕ) = ⟨v, (signedText v).length⟩ := by
  have hown := strtol_own 10 v.natAbs (by decide) (by decide) (decide (v < 0))
  have hvalue : (if decide (v < 0) = true then -(v.natAbs : ℤ) else v.natAbs) = v := by
    by_cases hv : v < 0
    · rw [if_pos (decide_eq_true hv)]
      omega
    · rw [if_neg (by simpa using hv)]
      omega
  rw [hvalue, asLong_eq hlow hhigh] at hown
  simpa only [decide_eq_true_eq, signedText] using hown

theorem strtol_unsigned (hbase : 1 < base) (hle : base ≤ 16) (hu : u < 2 ^ 63) :
    strtol (numeral base u) base = ⟨u, (numeral base u).length⟩ := by
  have hown := strtol_own base u hbase hle false
  have hvalue : asLong (if false = true then -(u : ℤ) else u) = u :=
    asLong_eq (by simp) (by simp; omega)
  rw [hvalue] at hown
  exact hown

end Parse

section Values

variable {c : Conversion} {w : IntLength} {v : ℤ}

/-- A modifier is for a `long`, for a type that `int` takes in, or for neither. -/
theorem IntLength.kinds (w : IntLength) :
    ((2 ≤ w.llen ∨ w.llen = 1) ∧ w.bits = 64 ∧ ¬ (w = .z ∨ w = .t)) ∨
      (¬ (2 ≤ w.llen ∨ w.llen = 1) ∧ w.bits ≤ 32 ∧ ¬ (w = .z ∨ w = .t)) ∨
        (¬ (2 ≤ w.llen ∨ w.llen = 1) ∧ w.bits = 64 ∧ (w = .z ∨ w = .t)) := by
  cases w <;> decide

theorem vaSigned_eq_iff (hrange : InRange .d w v) :
    vaSigned w.llen v = v ↔ (w = .z ∨ w = .t → -2 ^ 31 ≤ v ∧ v < 2 ^ 31) := by
  have hint : asInt v = v ↔ -2 ^ 31 ≤ v ∧ v < 2 ^ 31 :=
    ⟨fun heq => heq ▸ asInt_bounds v, fun hboth => asInt_eq hboth.1 hboth.2⟩
  rw [InRange, if_pos rfl] at hrange
  unfold vaSigned
  rcases w.kinds with ⟨hllen, hbits, hnot⟩ | ⟨hllen, hbits, hnot⟩ | ⟨hllen, hbits, hsize⟩
  · rw [hbits] at hrange
    rw [if_pos hllen]
    exact iff_of_true (asLong_eq hrange.1 hrange.2) fun hsize => absurd hsize hnot
  · have hpow : (2 : ℤ) ^ (w.bits - 1) ≤ 2 ^ 31 := pow_le_pow_right₀ (by decide) (by omega)
    rw [if_neg hllen]
    exact iff_of_true (hint.mpr ⟨by omega, by omega⟩) fun hsize => absurd hsize hnot
  · rw [if_neg hllen, hint]
    exact ⟨fun hboth _ => hboth, fun himp => himp hsize⟩

theorem vaSigned_bounds (llen v : ℤ) : -2 ^ 63 ≤ vaSigned llen v ∧ vaSigned llen v < 2 ^ 63 := by
  have hlong := asLong_bounds v
  have hint := asInt_bounds v
  unfold vaSigned
  split
  · exact hlong
  · omega

theorem vaUnsigned_le (llen : ℤ) (hv : 0 ≤ v) : (vaUnsigned llen v : ℤ) ≤ v := by
  unfold vaUnsigned asUInt64 asUnsigned
  split <;> omega

theorem vaUnsigned_eq_iff (hc : c ≠ .d) (hrange : InRange c w v) :
    (vaUnsigned w.llen v : ℤ) = v ↔ (w = .z ∨ w = .t → v < 2 ^ 32) := by
  rw [InRange, if_neg hc] at hrange
  obtain ⟨hlow, hhigh, hlong⟩ := hrange
  have hint : ((asUnsigned v).toNat : ℤ) = v ↔ v < 2 ^ 32 := by
    unfold asUnsigned
    omega
  unfold vaUnsigned
  rcases w.kinds with ⟨hllen, hbits, hnot⟩ | ⟨hllen, hbits, hnot⟩ | ⟨hllen, hbits, hsize⟩
  · rw [if_pos hllen, asUInt64_eq hlow (by omega)]
    exact iff_of_true (Int.toNat_of_nonneg hlow) fun hsize => absurd hsize hnot
  · have hpow : (2 : ℤ) ^ w.bits ≤ 2 ^ 32 := pow_le_pow_right₀ (by decide) hbits
    rw [if_neg hllen]
    exact iff_of_true (hint.mpr (by omega)) fun hsize => absurd hsize hnot
  · rw [if_neg hllen, hint]
    exact ⟨fun hlt _ => hlt, fun himp => himp hsize⟩

theorem InRange.unsigned (hc : c ≠ .d) (hrange : InRange c w v) : 0 ≤ v ∧ v < 2 ^ 63 := by
  rw [InRange, if_neg hc] at hrange
  exact ⟨hrange.1, hrange.2.2⟩

theorem roundTrips_signed (hrange : InRange .d w v) :
    RoundTrips .d w v ↔ Printable .d w v := by
  have hbounds := vaSigned_bounds w.llen v
  have htext : printedText .d w v = signedText (vaSigned w.llen v) := if_pos rfl
  rw [roundTrips_iff_text, htext, Conversion.parseBase, strtol_signedText hbounds.1 hbounds.2,
    Printable, if_pos rfl, ← vaSigned_eq_iff hrange, and_iff_right nofun]
  exact ⟨fun heq => congrArg Parsed.value heq, fun heq => by rw [heq]⟩

theorem roundTrips_own (hc : c ≠ .d) (hu : c ≠ .u) (hrange : InRange c w v) :
    RoundTrips c w v ↔ Printable c w v := by
  have hbase : c.parseBase = c.printBase := by
    cases c with
    | d => exact absurd rfl hc
    | u => exact absurd rfl hu
    | x => rfl
    | o => rfl
  have hbounds := c.printBase_bounds
  obtain ⟨hnonneg, hlt⟩ := hrange.unsigned hc
  have hle := vaUnsigned_le w.llen hnonneg
  have htext : printedText c w v = numeral c.printBase (vaUnsigned w.llen v) := if_neg hc
  rw [roundTrips_iff_text, htext, hbase, strtol_unsigned hbounds.1 hbounds.2 (by omega), Printable,
    if_neg hc, ← vaUnsigned_eq_iff hc hrange, and_iff_right fun hconv => absurd hconv hu]
  exact ⟨fun heq => congrArg Parsed.value heq, fun heq => by rw [heq]⟩

theorem numeral_small {u : ℕ} (hu : u < 10) : numeral 16 u = numeral 10 u := by
  have hall : ∀ u < 10, numeral 16 u = numeral 10 u := by decide +kernel
  exact hall u hu

/-- `%u` prints in base 16. -/
theorem roundTrips_decimal (hrange : InRange .u w v) : RoundTrips .u w v ↔ Printable .u w v := by
  have hc : Conversion.u ≠ .d := nofun
  obtain ⟨hnonneg, hlt⟩ := hrange.unsigned hc
  have hle := vaUnsigned_le w.llen hnonneg
  have hread := vaUnsigned_eq_iff hc hrange
  have htext : printedText .u w v = numeral 16 (vaUnsigned w.llen v) := if_neg hc
  rw [roundTrips_iff_text, htext, Printable, if_neg hc, ← hread, Conversion.parseBase]
  by_cases hsmall : vaUnsigned w.llen v < 10
  · rw [numeral_small hsmall, strtol_unsigned (by decide) (by decide) (by omega)]
    constructor
    · intro heq
      have hvalue : (vaUnsigned w.llen v : ℤ) = v := congrArg Parsed.value heq
      exact ⟨fun _ => by omega, hvalue⟩
    · rintro ⟨_, hvalue⟩
      rw [hvalue]
  · refine iff_of_false (fun heq => ?_) fun hboth => ?_
    · have hparsed := strtol_numeral 16 10 (vaUnsigned w.llen v) (by decide) (by decide) (by decide)
        false
      have hsame := hparsed.symm.trans heq
      have hvalue := congrArg Parsed.value hsame
      have hstop := congrArg Parsed.stop hsame
      dsimp only at hvalue hstop
      refine digitLoop_hexadecimal (Nat.not_lt.mp hsmall) (by omega) hle (Prod.ext hvalue ?_)
      split at hstop
      · exact absurd hstop.symm (numeral_length_pos 16 (vaUnsigned w.llen v))
      · exact (Nat.zero_add _).symm.trans hstop
    · have hten := hboth.1 rfl
      omega

/-- Every value of every type, and every text in every base. -/
theorem numberText_iff (c : Conversion) (w : IntLength) (v : ℤ) (text : List UInt8) (base : ℤ) :
    (InRange c w v → (RoundTrips c w v ↔ Printable c w v)) ∧
      ((strtol text base).stop = stopOf text base ↔ ¬ BarePrefix text base) := by
  refine ⟨fun hrange => ?_, stop_iff text base⟩
  cases c with
  | d => exact roundTrips_signed hrange
  | u => exact roundTrips_decimal hrange
  | x => exact roundTrips_own nofun nofun hrange
  | o => exact roundTrips_own nofun nofun hrange

/-- The least `long`. -/
theorem numberText_iff_least : RoundTrips .d .l (-2 ^ 63) :=
  ((numberText_iff .d .l (-2 ^ 63) [] 10).1 (by decide)).mpr ⟨nofun, nofun⟩

end Values

/-- `%u` of sixteen is read as ten, `%zx` of 2^32 as zero, and of the text `0xg` nothing is. -/
theorem not_numberText_sixteen :
    ¬ RoundTrips .u .int 16 ∧ ¬ RoundTrips .x .z (2 ^ 32) ∧
      (strtol (chars "0xg") 16).stop ≠ stopOf (chars "0xg") 16 := by
  refine ⟨fun h => ?_, fun h => ?_, by decide +kernel⟩
  · exact absurd (roundTrips_iff_text.mp h) (by decide +kernel)
  · exact absurd (roundTrips_iff_text.mp h) (by decide +kernel)

end EigenOS.Libc
