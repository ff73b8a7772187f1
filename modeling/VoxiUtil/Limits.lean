import Mathlib.Data.Nat.Notation
import Mathlib.Data.Int.Notation

/-!
The limits of the C types on a machine whose `int` has 32 bits and whose `size_t` and
pointers have 64.
-/
namespace VoxiUtil.Limits

/-- `INT_MAX`, for what is never negative. -/
def intMax : Nat := 2147483647

/-- `SIZE_MAX`. -/
def sizeMax : Nat := 18446744073709551615

/-- `sizeof( void * )`. -/
def pointerSize : Nat := 8

namespace Signed

/-- `INT_MAX`, for what may be negative. -/
def intMax : Int := 2147483647

end Signed

end VoxiUtil.Limits
