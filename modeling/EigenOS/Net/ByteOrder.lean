import Mathlib.Data.UInt
import Mathlib.Tactic.IntervalCases

/-!
# Network byte order

`htons` and `htonl`, which are also `ntohs` and `ntohl`.
-/

namespace EigenOS.Net

/-- `htons`. -/
def htons (n : UInt16) : UInt16 := ((n &&& 0xFF00) >>> 8) ||| ((n &&& 0x00FF) <<< 8)

/-- `htons` of a counter that is advanced in its argument.  The macro takes its argument twice,
so that the upper byte is that of one number and the lower byte that of the next. -/
def htonsNext (n : UInt16) : UInt16 :=
  ((n &&& 0xFF00) >>> 8) ||| (((n + 1) &&& 0x00FF) <<< 8)

/-- `htonl`. -/
def htonl (n : UInt32) : UInt32 :=
  ((n &&& 0xFF000000) >>> 24) ||| ((n &&& 0x00FF0000) >>> 8) |||
    ((n &&& 0x0000FF00) <<< 8) ||| ((n &&& 0x000000FF) <<< 24)

@[simp]
theorem htonl_htonl (n : UInt32) : htonl (htonl n) = n := by
  apply UInt32.toBitVec_inj.mp
  simp only [htonl, UInt32.toBitVec_or, UInt32.toBitVec_and, UInt32.toBitVec_shiftLeft,
    UInt32.toBitVec_shiftRight]
  apply BitVec.eq_of_getLsbD_eq
  intro i hi
  simp
  interval_cases i <;> simp

end EigenOS.Net
