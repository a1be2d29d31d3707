import EigenOS.Library.MachineInt

/-!
# Read streams of the C library

The calls on a `FILE` that is open for reading.  A read stream holds the whole file in
memory, so that reading copies from its buffer and seeking sets a position.
-/

namespace EigenOS.Libc

open EigenOS.MachineInt

/-- `EOF`, also the value of `unget` when no byte is pushed back. -/
def eof : ℤ := -1

structure FILE where
  /-- `F_READ` -/
  read : Bool
  /-- `F_EOF` -/
  ended : Bool
  /-- `F_ERR` -/
  err : Bool
  data : List UInt8
  size : ℤ
  pos : ℤ
  unget : ℤ
  deriving DecidableEq

/-- The bytes that a call read from a file, no more than an `int` can count. -/
structure Content where
  bytes : List UInt8
  fits : bytes.length < 2 ^ 31

/-- The stream that `fopen` returns for these bytes. -/
def opened (content : Content) : FILE where
  read := true
  ended := false
  err := false
  data := content.bytes
  size := content.bytes.length
  pos := 0
  unget := eof

inductive Whence where
  | set
  | cur
  | «end»
  deriving DecidableEq

namespace FILE

def feof (f : FILE) : Bool := f.ended

def fgetc (f : FILE) : ℤ × FILE :=
  if f.unget ≠ eof then (f.unget, { f with unget := eof })
  else if f.read then
    if f.size ≤ f.pos then (eof, { f with ended := true })
    else ((f.data.getD f.pos.toNat 0).toNat, { f with pos := f.pos + 1 })
  else (eof, { f with err := true })

def ungetc (f : FILE) (c : ℤ) : ℤ × FILE :=
  if c = eof then (eof, f)
  else (c, { f with unget := (UInt8.ofInt c).toNat, ended := false })

/-- How many bytes `fread` copies, when the number is positive. -/
def want (f : FILE) (size nmemb : UInt64) : ℤ :=
  min (asLong (size.toNat * nmemb.toNat)) (f.size - f.pos)

/-- The call returns the bytes it stores and the number it returns.  The pointer counts only as
null or not. -/
def fread (f : FILE) (ptr : Bool) (size nmemb : UInt64) : (List UInt8 × ℤ) × FILE :=
  if ptr = false ∨ f.read = false ∨ size = 0 then (([], 0), f)
  else
    let want := f.want size nmemb
    let stored := if 0 < want then (f.data.drop f.pos.toNat).take want.toNat else []
    let pos := if 0 < want then f.pos + want else f.pos
    ((stored, asUInt64 (want.tdiv (asLong size.toNat))),
      { f with pos, ended := f.ended || decide (f.size ≤ pos) })

/-- Where `fseek` counts from. -/
def base (f : FILE) : Whence → ℤ
  | .set => 0
  | .cur => f.pos
  | .end => f.size

def fseek (f : FILE) (off : Int64) (whence : Whence) : ℤ × FILE :=
  if f.read = false then (-1, f)
  else
    let np := asLong (f.base whence + off.toInt)
    if np < 0 then (-1, f)
    else (0, { f with pos := np, ended := false })

def ftell (f : FILE) : ℤ := f.pos

end FILE

/-! ## Calls in any order -/

/-- A call on a stream. -/
inductive Call where
  | fgetc
  | ungetc (c : ℤ)
  | fread (ptr : Bool) (size nmemb : UInt64)
  | fseek (off : Int64) (whence : Whence)
  | ftell
  | feof
  deriving DecidableEq

/-- What a call returns. -/
inductive Answer where
  | char (c : ℤ)
  | items (stored : List UInt8) (count : ℤ)
  | result (r : ℤ)
  | position (pos : ℤ)
  | flag (set : Bool)
  deriving DecidableEq

def FILE.call (f : FILE) : Call → Answer × FILE
  | .fgetc => (.char f.fgetc.1, f.fgetc.2)
  | .ungetc c => (.result (f.ungetc c).1, (f.ungetc c).2)
  | .fread ptr size nmemb =>
      (.items (f.fread ptr size nmemb).1.1 (f.fread ptr size nmemb).1.2,
        (f.fread ptr size nmemb).2)
  | .fseek off whence => (.result (f.fseek off whence).1, (f.fseek off whence).2)
  | .ftell => (.position f.ftell, f)
  | .feof => (.flag f.feof, f)

/-! ## What the calls keep -/

/-- A stream as `fopen` and the calls on it leave it. -/
structure FILE.Valid (f : FILE) : Prop where
  read : f.read = true
  size : f.size = f.data.length
  fits : f.data.length < 2 ^ 31
  pos_nonneg : 0 ≤ f.pos
  pos_lt : f.pos < 2 ^ 63
  unget : f.unget = eof ∨ ∃ b : UInt8, f.unget = b.toNat
  /-- The end is not noted before it is reached. -/
  ended : f.ended = true → f.size ≤ f.pos

theorem valid_opened (content : Content) : (opened content).Valid where
  read := rfl
  size := rfl
  fits := content.fits
  pos_nonneg := le_rfl
  pos_lt := show (0 : ℤ) < 2 ^ 63 by decide
  unget := .inl rfl
  ended := nofun

namespace FILE

variable {f : FILE}

theorem want_inside (h : f.Valid) (size nmemb : UInt64) :
    0 ≤ f.pos ∧ f.pos + f.want size nmemb ≤ f.data.length := by
  have hle : f.want size nmemb ≤ f.size - f.pos := min_le_right _ _
  have hsize := h.size
  exact ⟨h.pos_nonneg, by omega⟩

theorem fgetc_valid (h : f.Valid) : f.fgetc.2.Valid := by
  rw [fgetc]
  split_ifs with hunget hread hpos
  · exact { h with unget := .inl rfl }
  · exact { h with ended := fun _ => hpos }
  · have hsize := h.size
    have hfits := h.fits
    have hnonneg := h.pos_nonneg
    exact { h with
      pos_nonneg := by dsimp only; omega
      pos_lt := by dsimp only; omega
      ended := fun hended => absurd (h.ended hended) hpos }
  · exact absurd h.read hread

theorem ungetc_valid (h : f.Valid) (c : ℤ) : (f.ungetc c).2.Valid := by
  rw [ungetc]
  split_ifs with hc
  · exact h
  · exact { h with
      unget := .inr ⟨_, rfl⟩
      ended := nofun }

theorem fread_valid (h : f.Valid) (ptr : Bool) (size nmemb : UInt64) :
    (f.fread ptr size nmemb).2.Valid := by
  rw [fread]
  split_ifs with hnone
  · exact h
  · have hsize := h.size
    have hfits := h.fits
    have hnonneg := h.pos_nonneg
    have hlt := h.pos_lt
    by_cases hwant : 0 < f.want size nmemb
    · obtain ⟨_, hinside⟩ := want_inside h size nmemb
      dsimp only
      rw [if_pos hwant]
      refine { h with pos_nonneg := ?_, pos_lt := ?_, ended := ?_ }
      · dsimp only
        omega
      · dsimp only
        omega
      · intro hended
        rcases Bool.or_eq_true_iff.mp hended with hold | hnew
        · have hpast := h.ended hold
          dsimp only
          omega
        · exact of_decide_eq_true hnew
    · dsimp only
      rw [if_neg hwant]
      refine { h with ended := fun hended => ?_ }
      rcases Bool.or_eq_true_iff.mp hended with hold | hnew
      · exact h.ended hold
      · exact of_decide_eq_true hnew

theorem fseek_valid (h : f.Valid) (off : Int64) (whence : Whence) :
    (f.fseek off whence).2.Valid := by
  rw [fseek]
  dsimp only
  split_ifs with hread hnp
  · exact h
  · exact h
  · exact { h with
      pos_nonneg := not_lt.mp hnp
      pos_lt := (asLong_bounds _).2
      ended := nofun }

theorem call_valid (h : f.Valid) (c : Call) : (f.call c).2.Valid := by
  cases c with
  | fgetc => exact fgetc_valid h
  | ungetc c => exact ungetc_valid h c
  | fread ptr size nmemb => exact fread_valid h ptr size nmemb
  | fseek off whence => exact fseek_valid h off whence
  | ftell | feof => exact h

end FILE

end EigenOS.Libc
