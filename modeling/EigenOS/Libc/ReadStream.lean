import EigenOS.Libc.Stdio
import EigenOS.Library.Pushback
import EigenOS.Library.Transition

/-!
# Read streams and the ideal stream

What the calls on a read stream return is compared with a stream that delivers the byte pushed
back first, whichever call reads next, and drops it at a seek.  Two readings of its position are
allowed: the byte pushed back may count as one still to come, or not.
-/

namespace EigenOS.Libc

open EigenOS.MachineInt EigenOS.Pushback EigenOS.Transition

/-! ## The ideal stream -/

section Ideal

variable (counted : Bool) (s : Stream UInt8)

/-- Where a seek leads. -/
def target (off : Int64) : Whence → ℤ
  | .set => off.toInt
  | .cur => s.position counted + off.toInt
  | .end => s.content.length + off.toInt

/-- A position that a `long` can tell. -/
def Tellable (target : ℤ) : Prop := 0 ≤ target ∧ target < 2 ^ 63

instance (target : ℤ) : Decidable (Tellable target) := inferInstanceAs (Decidable (_ ∧ _))

/-- How many bytes a call of `fread` asks for. -/
def requested (ptr : Bool) (size nmemb : UInt64) : ℕ :=
  if ptr then size.toNat * nmemb.toNat else 0

def idealNext : Call → Stream UInt8
  | .fgetc => s.after 1
  | .ungetc c => if c = eof then s else s.push (UInt8.ofInt c)
  | .fread ptr size nmemb => s.after (requested ptr size nmemb)
  | .fseek off whence =>
      if Tellable (target counted s off whence) then s.seek (target counted s off whence).toNat
      else s
  | .ftell | .feof => s

/-- What the calls that return bytes or positions are to return. -/
def idealAnswer : Call → Option Answer
  | .fgetc => some (.char (s.upcoming.head?.elim eof fun b => b.toNat))
  | .ungetc c => some (.result c)
  | .fread ptr size nmemb =>
      let stored := s.upcoming.take (requested ptr size nmemb)
      some (.items stored (stored.length / size.toNat : ℕ))
  | .fseek off whence =>
      some (.result (if Tellable (target counted s off whence) then 0 else -1))
  | .ftell => some (.position (s.position counted))
  | .feof => none

end Ideal

/-- The stream that a `FILE` stands for. -/
def FILE.stream (f : FILE) : Stream UInt8 where
  content := f.data
  pos := f.pos.toNat
  pushed := if f.unget = eof then none else some (UInt8.ofInt f.unget)

/-! ## Calls that follow the ideal stream -/

/-- The number that `fread` returns is right if the item and the request, as values of type
`long`, are larger than how far the position lies past the end. -/
def ItemsCounted (f : FILE) (size nmemb : UInt64) : Prop :=
  let item := asLong size.toNat
  let asked := asLong (size.toNat * nmemb.toNat)
  let left := f.size - f.pos
  let range : ℤ := item.natAbs
  0 < range + asked ∧ 0 < range + left ∧ (0 < item ∨ asked < range ∨ left < range)

/-- A request that does not fit a `long` still asks for all that is left. -/
def AsksForAll (f : FILE) (size nmemb : UInt64) : Prop :=
  let asked := asLong (size.toNat * nmemb.toNat)
  let left := f.size - f.pos
  left ≤ 0 ∨ left ≤ asked ∨ asked = size.toNat * nmemb.toNat

/-- The calls after which nothing has gone wrong with the byte that was pushed back. -/
def Clean (counted : Bool) (f : FILE) : Call → Prop
  | .fgetc | .ungetc _ | .feof => True
  | .ftell => counted = false ∨ f.unget = eof
  | .fseek off whence =>
      f.unget = eof ∨
        ¬ Tellable (f.base whence + off.toInt) ∧
          ¬ Tellable (target counted f.stream off whence)
  | .fread ptr size nmemb =>
      ptr = false ∨ size = 0 ∨
        (f.unget = eof ∨ nmemb = 0) ∧ AsksForAll f size nmemb ∧ ItemsCounted f size nmemb

/-! ## The calls one by one -/

section Calls

variable {f : FILE} {counted : Bool}

theorem stream_pushed_eq_none : f.stream.pushed = none ↔ f.unget = eof := by
  by_cases hunget : f.unget = eof
  · exact iff_of_true (if_pos hunget) hunget
  · refine iff_of_false ?_ hunget
    rw [FILE.stream]
    dsimp only
    rw [if_neg hunget]
    exact nofun

theorem stream_pushed {b : UInt8} (hunget : f.unget = b.toNat) : f.stream.pushed = some b := by
  have hne : f.unget ≠ eof := by
    rw [hunget, eof]
    omega
  rw [FILE.stream]
  dsimp only
  have hlt : (b.toNat : ℤ) < 2 ^ 8 := Int.ofNat_lt.mpr b.toNat_lt
  rw [if_neg hne, hunget, UInt8.ofInt, Int.emod_eq_of_lt (Int.natCast_nonneg _) hlt,
    Int.toNat_natCast, UInt8.ofNat_toNat]

theorem stream_pos (h : f.Valid) : (f.stream.pos : ℤ) = f.pos := Int.toNat_of_nonneg h.pos_nonneg

theorem pushed_of_unget (h : f.Valid) (hunget : f.unget ≠ eof) :
    ∃ b : UInt8, f.unget = b.toNat ∧ f.stream.pushed = some b := by
  obtain ⟨b, hb⟩ := h.unget.resolve_left hunget
  exact ⟨b, hb, stream_pushed hb⟩

theorem fgetc_follows (h : f.Valid) :
    some (f.call .fgetc).1 = idealAnswer counted f.stream .fgetc ∧
      (f.call .fgetc).2.stream = idealNext counted f.stream .fgetc := by
  have hsize := h.size
  have hpos := stream_pos h
  by_cases hunget : f.unget = eof
  · have hnone := stream_pushed_eq_none.mpr hunget
    dsimp only [FILE.call, idealAnswer, idealNext]
    rw [FILE.fgetc, if_neg (not_not.mpr hunget), if_pos h.read, Stream.upcoming_of_none hnone,
      Stream.after_of_none hnone]
    by_cases hend : f.size ≤ f.pos
    · have hle : f.stream.content.length ≤ f.stream.pos := by
        change f.data.length ≤ _
        omega
      rw [if_pos hend, List.drop_of_length_le hle]
      refine ⟨rfl, ?_⟩
      rw [Nat.sub_eq_zero_of_le hle]
      rfl
    · have hlt : f.pos.toNat < f.data.length := by
        have := h.pos_nonneg
        omega
      rw [if_neg hend]
      constructor
      · rw [List.head?_drop, List.getD_eq_getElem?_getD]
        change _ = some (Answer.char ((f.data[f.pos.toNat]?).elim _ _))
        rw [List.getElem?_eq_getElem hlt]
        rfl
      · have hone : min 1 (f.stream.content.length - f.stream.pos) = 1 := by
          change min 1 (f.data.length - f.pos.toNat) = 1
          omega
        rw [hone, FILE.stream, FILE.stream]
        dsimp only
        congr 1
        omega
  · obtain ⟨b, hb, hpushed⟩ := pushed_of_unget h hunget
    dsimp only [FILE.call, idealAnswer, idealNext]
    rw [FILE.fgetc, if_pos hunget, Stream.upcoming, hpushed, Stream.after, if_neg (by decide),
      hpushed, hb]
    refine ⟨rfl, ?_⟩
    dsimp only [Option.toList, List.length]
    rw [Nat.sub_self, Nat.zero_min]
    rfl

theorem ungetc_follows (f : FILE) (c : ℤ) :
    some (f.call (.ungetc c)).1 = idealAnswer counted f.stream (.ungetc c) ∧
      (f.call (.ungetc c)).2.stream = idealNext counted f.stream (.ungetc c) := by
  dsimp only [FILE.call, idealAnswer, idealNext]
  rw [FILE.ungetc]
  by_cases hc : c = eof
  · rw [if_pos hc, if_pos hc]
    exact ⟨by rw [hc], rfl⟩
  · rw [if_neg hc, if_neg hc]
    refine ⟨rfl, ?_⟩
    have hpushed : ({ f with unget := (UInt8.ofInt c).toNat, ended := false } : FILE).stream.pushed =
        some (UInt8.ofInt c) := stream_pushed rfl
    rw [Stream.push, ← hpushed]
    rfl

variable (counted) in
theorem feof_follows (f : FILE) :
    idealAnswer counted f.stream .feof = none ∧
      (f.call .feof).2.stream = idealNext counted f.stream .feof := ⟨rfl, rfl⟩

theorem ftell_follows_iff (h : f.Valid) :
    some (f.call .ftell).1 = idealAnswer counted f.stream .ftell ∧
        (f.call .ftell).2.stream = idealNext counted f.stream .ftell ↔
      Clean counted f .ftell := by
  have hpos := stream_pos h
  dsimp only [FILE.call, FILE.ftell, idealAnswer, idealNext, Clean]
  rw [and_iff_left rfl, Option.some_inj, Answer.position.injEq, Stream.position, hpos]
  by_cases hboth : counted = true ∧ f.stream.pushed.isSome = true
  · rw [if_pos hboth]
    refine iff_of_false (by omega) ?_
    rintro (hcounted | hunget)
    · exact absurd (hcounted.symm.trans hboth.1) (by decide)
    · rw [stream_pushed_eq_none.mpr hunget] at hboth
      exact absurd hboth.2 Bool.false_ne_true
  · rw [if_neg hboth]
    refine iff_of_true rfl ?_
    by_cases hcounted : counted = true
    · refine .inr (stream_pushed_eq_none.mp (Option.not_isSome_iff_eq_none.mp ?_))
      exact fun hsome => hboth ⟨hcounted, hsome⟩
    · exact .inl (Bool.eq_false_iff.mpr hcounted)

/-! ### Seeking -/

theorem off_bounds (off : Int64) : -2 ^ 63 ≤ off.toInt ∧ off.toInt < 2 ^ 63 :=
  ⟨off.le_toInt, off.toInt_lt⟩

theorem base_bounds (h : f.Valid) (whence : Whence) :
    0 ≤ f.base whence ∧ f.base whence < 2 ^ 63 := by
  have hfits := h.fits
  have hsize := h.size
  cases whence with
  | set => exact ⟨le_rfl, (by decide : (0 : ℤ) < 2 ^ 63)⟩
  | cur => exact ⟨h.pos_nonneg, h.pos_lt⟩
  | «end» =>
    dsimp only [FILE.base]
    omega

theorem fseek_eq (h : f.Valid) (off : Int64) (whence : Whence) :
    f.fseek off whence =
      if Tellable (f.base whence + off.toInt) then
        (0, { f with pos := f.base whence + off.toInt, ended := false })
      else (-1, f) := by
  obtain ⟨hlow, hhigh⟩ := off_bounds off
  obtain ⟨hbase, hlt⟩ := base_bounds h whence
  rw [FILE.fseek, if_neg (by rw [h.read]; decide)]
  dsimp only
  by_cases hfit : f.base whence + off.toInt < 2 ^ 63
  · rw [asLong_eq (by omega) hfit]
    by_cases hneg : f.base whence + off.toInt < 0
    · rw [if_pos hneg, if_neg (fun htell => absurd htell.1 (by omega))]
    · rw [if_neg hneg, if_pos ⟨by omega, hfit⟩]
  · rw [asLong_of_le (by omega) (by omega), if_pos (by omega),
      if_neg (fun htell => hfit htell.2)]

/-- Without a byte pushed back the stream counts from where `fseek` does. -/
theorem target_eq (h : f.Valid) (hunget : f.unget = eof) (off : Int64) (whence : Whence) :
    target counted f.stream off whence = f.base whence + off.toInt := by
  cases whence with
  | set => exact (Int.zero_add _).symm
  | cur =>
    rw [target, Stream.position_of_none (stream_pushed_eq_none.mpr hunget), stream_pos h]
    rfl
  | «end» =>
    dsimp only [target, FILE.base]
    rw [h.size]
    rfl

theorem fseek_follows_iff (h : f.Valid) (off : Int64) (whence : Whence) :
    some (f.call (.fseek off whence)).1 = idealAnswer counted f.stream (.fseek off whence) ∧
        (f.call (.fseek off whence)).2.stream = idealNext counted f.stream (.fseek off whence) ↔
      Clean counted f (.fseek off whence) := by
  dsimp only [FILE.call, idealAnswer, idealNext, Clean]
  rw [fseek_eq h]
  by_cases hunget : f.unget = eof
  · have hpushed := stream_pushed_eq_none.mpr hunget
    rw [target_eq h hunget]
    refine iff_of_true ?_ (.inl hunget)
    by_cases htell : Tellable (f.base whence + off.toInt)
    · rw [if_pos htell, if_pos htell, if_pos htell]
      refine ⟨rfl, ?_⟩
      rw [FILE.stream, FILE.stream, Stream.seek]
      dsimp only
      rw [if_pos hunget]
    · rw [if_neg htell, if_neg htell, if_neg htell]
      exact ⟨rfl, rfl⟩
  · obtain ⟨b, hb, hpushed⟩ := pushed_of_unget h hunget
    rw [or_iff_right hunget]
    by_cases htell : Tellable (f.base whence + off.toInt)
    · rw [if_pos htell]
      refine iff_of_false ?_ (fun hclean => hclean.1 htell)
      rintro ⟨hanswer, hstream⟩
      -- The byte is still there, and the ideal stream that has moved keeps none.
      have hkept : ({ f with pos := f.base whence + off.toInt, ended := false } : FILE).stream.pushed =
          some b := stream_pushed hb
      by_cases hideal : Tellable (target counted f.stream off whence)
      · rw [if_pos hideal] at hstream
        rw [hstream] at hkept
        exact nomatch hkept
      · rw [if_neg hideal] at hanswer
        have hzero : (0 : ℤ) = -1 := Answer.result.inj (Option.some.inj hanswer)
        exact absurd hzero (by decide)
    · rw [if_neg htell, and_iff_right htell]
      by_cases hideal : Tellable (target counted f.stream off whence)
      · rw [if_pos hideal]
        refine iff_of_false (fun hboth => ?_) (not_not.mpr hideal)
        have hzero : (-1 : ℤ) = 0 := Answer.result.inj (Option.some.inj hboth.1)
        exact absurd hzero (by decide)
      · rw [if_neg hideal, if_neg hideal]
        exact iff_of_true ⟨rfl, rfl⟩ hideal

/-! ### Reading items -/

theorem size_toNat {size : UInt64} (hsize : size ≠ 0) :
    0 < size.toNat ∧ size.toNat < 2 ^ 64 := by
  refine ⟨Nat.pos_of_ne_zero fun hzero => hsize ?_, size.toNat_lt⟩
  exact UInt64.toNat_inj.mp hzero

theorem quotient_iff {w : ℤ} {size : ℕ} (hsize : 0 < size ∧ size < 2 ^ 64)
    (hlow : -2 ^ 63 ≤ w) (hhigh : w < 2 ^ 31) :
    asUInt64 (w.tdiv (asLong size)) = (w.toNat / size : ℕ) ↔
      (0 ≤ w ∧ 0 < asLong size) ∨ w.natAbs < (asLong size).natAbs := by
  have hitem : asLong size = if size < 2 ^ 63 then (size : ℤ) else size - 2 ^ 64 := by
    split_ifs with hfit
    · exact asLong_eq (by omega) (by omega)
    · exact asLong_of_le (by omega) (by omega)
  by_cases hpos : 0 ≤ w ∧ 0 < asLong size
  · refine iff_of_true ?_ (.inl hpos)
    obtain ⟨n, rfl⟩ := Int.eq_ofNat_of_zero_le hpos.1
    have hfit : size < 2 ^ 63 := by
      by_contra hlarge
      rw [if_neg hlarge] at hitem
      omega
    rw [if_pos hfit] at hitem
    have hle : n / size ≤ n := Nat.div_le_self n size
    rw [hitem, ← Int.ofNat_tdiv, Int.toNat_natCast]
    exact asUInt64_eq (Int.natCast_nonneg _) (by omega)
  · rw [or_iff_right hpos]
    have hzero : w.toNat / size = 0 := by
      apply Nat.div_eq_of_lt
      split_ifs at hitem <;> omega
    have hnatAbs : (w.tdiv (asLong size)).natAbs = w.natAbs / (asLong size).natAbs :=
      Int.natAbs_tdiv w (asLong size)
    have hle : w.natAbs / (asLong size).natAbs ≤ w.natAbs := Nat.div_le_self _ _
    have hne : 0 < (asLong size).natAbs := by
      split_ifs at hitem <;> omega
    rw [hzero, ← Nat.div_eq_zero_iff_lt hne, asUInt64]
    omega

theorem asked_le (size nmemb : UInt64) :
    asLong (size.toNat * nmemb.toNat) ≤ size.toNat * nmemb.toNat := by
  rw [← Int.natCast_mul]
  generalize size.toNat * nmemb.toNat = request
  unfold asLong
  rw [Int.bmod_def]
  split <;> omega

theorem asked_eq_or (size nmemb : UInt64) :
    asLong (size.toNat * nmemb.toNat) = size.toNat * nmemb.toNat ∨
      2 ^ 63 ≤ size.toNat * nmemb.toNat := by
  by_cases hfit : size.toNat * nmemb.toNat < 2 ^ 63
  · left
    rw [← Int.natCast_mul]
    exact asLong_eq (by omega) (by omega)
  · exact .inr (not_lt.mp hfit)

theorem want_bounds (h : f.Valid) (size nmemb : UInt64) :
    -2 ^ 63 ≤ f.want size nmemb ∧ f.want size nmemb < 2 ^ 31 := by
  obtain ⟨hlow, _⟩ := asLong_bounds (size.toNat * nmemb.toNat)
  have hsize := h.size
  have hfits := h.fits
  have hnonneg := h.pos_nonneg
  have hlt := h.pos_lt
  unfold FILE.want
  omega

theorem count_iff (h : f.Valid) {size : UInt64} (hsize : size ≠ 0) (nmemb : UInt64) :
    asUInt64 ((f.want size nmemb).tdiv (asLong size.toNat)) =
        ((f.want size nmemb).toNat / size.toNat : ℕ) ↔
      ItemsCounted f size nmemb := by
  obtain ⟨hlow, hhigh⟩ := want_bounds h size nmemb
  rw [quotient_iff (size_toNat hsize) hlow hhigh]
  unfold FILE.want ItemsCounted
  dsimp only
  omega

theorem advance_iff (h : f.Valid) (size nmemb : UInt64) :
    (f.want size nmemb).toNat = min (size.toNat * nmemb.toNat) (f.data.length - f.pos.toNat) ↔
      AsksForAll f size nmemb := by
  have hle := asked_le size nmemb
  have hor := asked_eq_or size nmemb
  have hsize := h.size
  have hfits := h.fits
  have hnonneg := h.pos_nonneg
  rw [← Int.natCast_mul] at hle hor
  unfold FILE.want AsksForAll
  dsimp only
  rw [← Int.natCast_mul]
  generalize size.toNat * nmemb.toNat = request at *
  generalize asLong request = asked at *
  omega

theorem fread_eq (h : f.Valid) {ptr : Bool} {size : UInt64} (hptr : ptr = true) (hsize : size ≠ 0)
    (nmemb : UInt64) :
    (f.fread ptr size nmemb).1 =
        ((f.data.drop f.pos.toNat).take (f.want size nmemb).toNat,
          asUInt64 ((f.want size nmemb).tdiv (asLong size.toNat))) ∧
      (f.fread ptr size nmemb).2.stream =
        { f.stream with pos := f.stream.pos + (f.want size nmemb).toNat } := by
  have hread : ¬ (ptr = false ∨ f.read = false ∨ size = 0) := by
    rw [hptr, h.read]
    exact not_or.mpr ⟨Bool.noConfusion, not_or.mpr ⟨Bool.noConfusion, hsize⟩⟩
  have hnonneg := h.pos_nonneg
  rw [FILE.fread, if_neg hread]
  dsimp only
  by_cases hwant : 0 < f.want size nmemb
  · rw [if_pos hwant, if_pos hwant]
    refine ⟨rfl, ?_⟩
    rw [FILE.stream, FILE.stream]
    dsimp only
    congr 1
    omega
  · rw [if_neg hwant, if_neg hwant, Int.toNat_of_nonpos (not_lt.mp hwant)]
    exact ⟨rfl, rfl⟩

theorem fread_none {ptr : Bool} {size : UInt64} (hnone : ptr = false ∨ size = 0)
    (nmemb : UInt64) :
    some (f.call (.fread ptr size nmemb)).1 = idealAnswer counted f.stream (.fread ptr size nmemb) ∧
      (f.call (.fread ptr size nmemb)).2.stream =
        idealNext counted f.stream (.fread ptr size nmemb) := by
  have hcall : f.fread ptr size nmemb = (([], 0), f) := by
    rw [FILE.fread, if_pos (hnone.imp_right .inr)]
  have hrequest : requested ptr size nmemb = 0 := by
    rw [requested]
    rcases hnone with rfl | rfl
    · rfl
    · cases ptr with
      | false => rfl
      | true => exact Nat.zero_mul _
  dsimp only [FILE.call, idealAnswer, idealNext]
  rw [hcall, hrequest, List.take_zero, Stream.after_zero, List.length_nil, Nat.zero_div]
  exact ⟨rfl, rfl⟩

theorem stored_iff (h : f.Valid) (size nmemb : UInt64) :
    (f.data.drop f.pos.toNat).take (f.want size nmemb).toNat =
        (f.data.drop f.pos.toNat).take (size.toNat * nmemb.toNat) ↔
      AsksForAll f size nmemb := by
  obtain ⟨hnonneg, hinside⟩ := f.want_inside h size nmemb
  rw [← advance_iff h, List.take_eq_take_iff, List.length_drop]
  omega

/-- With nothing pushed back, `fread` follows the stream if it advances as far and counts the
items as it should. -/
theorem fread_follows_iff_of_none (h : f.Valid) {size : UInt64} (hsize : size ≠ 0)
    (nmemb : UInt64) (hunget : f.unget = eof) :
    some (f.call (.fread true size nmemb)).1 =
          idealAnswer counted f.stream (.fread true size nmemb) ∧
        (f.call (.fread true size nmemb)).2.stream =
          idealNext counted f.stream (.fread true size nmemb) ↔
      AsksForAll f size nmemb ∧ ItemsCounted f size nmemb := by
  obtain ⟨hanswer, hnext⟩ := fread_eq h rfl hsize nmemb
  have hnone := stream_pushed_eq_none.mpr hunget
  have hadvance := advance_iff h size nmemb
  have hstored := stored_iff h size nmemb
  have hcount := count_iff h hsize nmemb
  dsimp only [FILE.call, idealAnswer, idealNext]
  rw [hanswer, hnext, requested, if_pos rfl, Stream.upcoming_of_none hnone,
    Stream.after_of_none hnone]
  change some (Answer.items _ _) = some (Answer.items ((f.data.drop f.pos.toNat).take _)
    ((((f.data.drop f.pos.toNat).take _).length / _ : ℕ) : ℤ)) ∧ _ ↔ _
  rw [Option.some_inj, Answer.items.injEq, hstored, Stream.mk.injEq]
  have hlength : ((f.data.drop f.pos.toNat).take (size.toNat * nmemb.toNat)).length =
      min (size.toNat * nmemb.toNat) (f.data.length - f.pos.toNat) := by
    rw [List.length_take, List.length_drop]
  constructor
  · rintro ⟨⟨hall, hnumber⟩, _⟩
    rw [hlength, ← hadvance.mpr hall, hcount] at hnumber
    exact ⟨hall, hnumber⟩
  · rintro ⟨hall, hitems⟩
    rw [hlength, ← hadvance.mpr hall]
    refine ⟨⟨hall, hcount.mpr hitems⟩, rfl, ?_, rfl⟩
    rw [hadvance.mpr hall]
    rfl

/-- A byte that is pushed back is passed over, unless nothing is asked for. -/
theorem fread_follows_iff_of_pushed (h : f.Valid) {size : UInt64} (hsize : size ≠ 0)
    (nmemb : UInt64) (hunget : f.unget ≠ eof) :
    some (f.call (.fread true size nmemb)).1 =
          idealAnswer counted f.stream (.fread true size nmemb) ∧
        (f.call (.fread true size nmemb)).2.stream =
          idealNext counted f.stream (.fread true size nmemb) ↔
      nmemb = 0 ∧ AsksForAll f size nmemb ∧ ItemsCounted f size nmemb := by
  obtain ⟨hanswer, hnext⟩ := fread_eq h rfl hsize nmemb
  obtain ⟨b, hb, hpushed⟩ := pushed_of_unget h hunget
  dsimp only [FILE.call, idealAnswer, idealNext]
  rw [hanswer, hnext, requested, if_pos rfl]
  by_cases hnmemb : nmemb = 0
  · have hrequest : size.toNat * nmemb.toNat = 0 := by
      rw [hnmemb]
      exact Nat.mul_zero _
    have hadvance := advance_iff h size nmemb
    rw [hrequest, Nat.zero_min] at hadvance
    have hall : AsksForAll f size nmemb := by
      refine .inr (.inr ?_)
      rw [hnmemb]
      change asLong (_ * 0) = _ * 0
      rw [Int.mul_zero]
      rfl
    have hcount := count_iff h hsize nmemb
    rw [hadvance.mpr hall, Nat.zero_div] at hcount
    rw [hrequest, hadvance.mpr hall, Stream.after_zero, List.take_zero, List.take_zero,
      List.length_nil, Nat.zero_div, Option.some_inj, Answer.items.injEq, and_iff_right rfl, hcount]
    exact ⟨fun hboth => ⟨hnmemb, hall, hboth.1⟩, fun hclean => ⟨hclean.2.2, rfl⟩⟩
  · refine iff_of_false ?_ (fun hclean => hnmemb hclean.1)
    rintro ⟨_, hstream⟩
    have hrequest : size.toNat * nmemb.toNat ≠ 0 :=
      Nat.mul_ne_zero (size_toNat hsize).1.ne' (size_toNat hnmemb).1.ne'
    have hkept := congrArg Stream.pushed hstream
    rw [Stream.after_pushed hrequest] at hkept
    exact nomatch hpushed.symm.trans hkept

theorem fread_follows_iff (h : f.Valid) (ptr : Bool) (size nmemb : UInt64) :
    some (f.call (.fread ptr size nmemb)).1 =
          idealAnswer counted f.stream (.fread ptr size nmemb) ∧
        (f.call (.fread ptr size nmemb)).2.stream =
          idealNext counted f.stream (.fread ptr size nmemb) ↔
      Clean counted f (.fread ptr size nmemb) := by
  by_cases hnone : ptr = false ∨ size = 0
  · refine iff_of_true (fread_none hnone nmemb) ?_
    rcases hnone with hptr | hsize
    · exact .inl hptr
    · exact .inr (.inl hsize)
  obtain ⟨hptr, hsize⟩ := not_or.mp hnone
  cases (Bool.eq_true_of_not_eq_false hptr)
  rw [Clean, or_iff_right hptr, or_iff_right hsize]
  by_cases hunget : f.unget = eof
  · rw [fread_follows_iff_of_none h hsize nmemb hunget]
    exact (and_iff_right (.inl hunget)).symm
  · rw [fread_follows_iff_of_pushed h hsize nmemb hunget, or_iff_right hunget]

variable (f counted) in
theorem call_follows_iff (h : f.Valid) (c : Call) :
    ((∀ a, idealAnswer counted f.stream c = some a → (f.call c).1 = a) ∧
        (f.call c).2.stream = idealNext counted f.stream c) ↔ Clean counted f c := by
  have hanswer : ∀ {a : Answer} {ideal : Option Answer}, ideal ≠ none →
      ((∀ b, ideal = some b → a = b) ↔ some a = ideal) := by
    intro a ideal hsome
    obtain ⟨b, rfl⟩ := Option.ne_none_iff_exists'.mp hsome
    exact ⟨fun hall => congrArg some (hall b rfl), fun heq c hc => Option.some.inj (heq.trans hc)⟩
  cases c with
  | fgetc =>
    rw [hanswer (by exact nofun)]
    exact iff_of_true (fgetc_follows h) trivial
  | ungetc c =>
    rw [hanswer (by exact nofun)]
    exact iff_of_true (ungetc_follows f c) trivial
  | fread ptr size nmemb =>
    rw [hanswer (by exact nofun)]
    exact fread_follows_iff h ptr size nmemb
  | fseek off whence =>
    rw [hanswer (by exact nofun)]
    exact fseek_follows_iff h off whence
  | ftell =>
    rw [hanswer (by exact nofun)]
    exact ftell_follows_iff h
  | feof =>
    obtain ⟨hnone, hnext⟩ := feof_follows counted f
    refine iff_of_true ⟨?_, hnext⟩ trivial
    rw [hnone]
    exact nofun

theorem fread_count_le (h : f.Valid) {ptr : Bool} {size nmemb : UInt64}
    (hclean : Clean counted f (.fread ptr size nmemb)) :
    (f.fread ptr size nmemb).1.2 ≤ nmemb.toNat := by
  obtain ⟨hanswer, _⟩ := (call_follows_iff _ _ h _).mpr hclean
  have hitems := Answer.items.inj (hanswer _ rfl)
  rw [hitems.2]
  have hlength := List.length_take_le (requested ptr size nmemb) f.stream.upcoming
  have hrequest : requested ptr size nmemb ≤ size.toNat * nmemb.toNat := by
    rw [requested]
    split_ifs
    · exact le_rfl
    · exact Nat.zero_le _
  exact Int.ofNat_le.mpr (Nat.div_le_of_le_mul (hlength.trans hrequest))

end Calls

/-! ## Runs of calls -/

section Runs

variable (counted : Bool)

/-- A `FILE` beside the stream it is to follow. -/
def act (s : FILE × Stream UInt8) (c : Call) : FILE × Stream UInt8 :=
  ((s.1.call c).2, idealNext counted s.2 c)

def start (content : Content) : FILE × Stream UInt8 := (opened content, ⟨content.bytes, 0, none⟩)

/-- What a call is to deliver: the bytes and positions of the ideal stream, no more items than
asked for, and nothing from outside the buffer. -/
structure Delivered (before : FILE × Stream UInt8) (c : Call) : Prop where
  answer : ∀ a, idealAnswer counted before.2 c = some a → (before.1.call c).1 = a
  bounded : ∀ ptr size nmemb, c = .fread ptr size nmemb →
    (before.1.fread ptr size nmemb).1.2 ≤ nmemb.toNat
  inside : ∀ ptr size nmemb, c = .fread ptr size nmemb → 0 < before.1.want size nmemb →
    0 ≤ before.1.pos ∧ before.1.pos + before.1.want size nmemb ≤ before.1.data.length

/-- The `FILE` stands for the ideal stream. -/
structure Follows (s : FILE × Stream UInt8) : Prop where
  valid : s.1.Valid
  stream : s.1.stream = s.2

variable {counted}

theorem follows_start (content : Content) : Follows (start content) := ⟨valid_opened content, rfl⟩

theorem clean_iff {s : FILE × Stream UInt8} (h : Follows s) (c : Call) :
    Clean counted s.1 c ↔ Delivered counted s c ∧ Follows (act counted s c) := by
  obtain ⟨f, stream⟩ := s
  obtain ⟨hvalid, hstream⟩ := h
  dsimp only at hvalid hstream
  subst hstream
  have hiff := call_follows_iff f counted hvalid c
  constructor
  · intro hclean
    obtain ⟨hanswer, hstream⟩ := hiff.mpr hclean
    refine ⟨⟨hanswer, ?_, fun _ size nmemb _ _ => f.want_inside hvalid size nmemb⟩,
      ⟨f.call_valid hvalid c, hstream⟩⟩
    rintro ptr size nmemb rfl
    exact fread_count_le hvalid hclean
  · rintro ⟨hdelivered, hfollows⟩
    exact hiff.mp ⟨hdelivered.answer, hfollows.stream⟩

/-- A read stream delivers what the ideal stream does, and stays with it, in exactly the runs in
which no call is made that loses the byte pushed back or reads from too far past the end. -/
theorem delivered_iff (counted : Bool) (content : Content) (calls : List Call) :
    (Along (fun before c _ => Delivered counted before c) (start content)
          (trace (act counted) (start content) calls) ∧
        Always Follows (start content) (trace (act counted) (start content) calls)) ↔
      Along (fun before c _ => Clean counted before.1 c) (start content)
        (trace (act counted) (start content) calls) := by
  apply along_and_always_iff (act counted) _ (follows_start content) calls
  exact fun _ c h => clean_iff h c

/-- A byte pushed back is passed over by `fread`, on either reading of the position. -/
theorem not_delivered_pushedBack :
    ¬ ∃ counted, Along (fun before c _ => Delivered counted before c)
      (start ⟨[97, 98], by decide⟩)
      (trace (act counted) (start ⟨[97, 98], by decide⟩) [.ungetc 65, .fread true 1 1]) := by
  rintro ⟨counted, _, hfread, _⟩
  have hanswer := hfread.answer (.items [65] 1) (by cases counted <;> rfl)
  exact absurd hanswer (by cases counted <;> decide)

end Runs

end EigenOS.Libc
