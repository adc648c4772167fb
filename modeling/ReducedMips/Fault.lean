import ReducedMips.Word
/-!
# Faults

A fault is a broken precondition: an index or a bit range that the caller should have checked, or
a step counted past the last value of the counter. It is no event of the machine, which stops by
HALT or by a trap instead.
-/
namespace ReducedMips

inductive Fault where
  | bitRange (high low : Word)
  | registerIndex (index : Nat)
  | memoryIndex (index capacity : Nat)
  | stepCounter
  deriving DecidableEq, Repr

namespace Fault

def message : Fault → String
  | .bitRange high low =>
      "invalid bit range [" ++ toString high.toNat ++ ":" ++ toString low.toNat ++ "]"
  | .registerIndex index => "register index " ++ toString index ++ " out of range (0-31)"
  | .memoryIndex index capacity =>
      "Memory address " ++ toString index ++ " out of range (0-" ++ toString (capacity - 1) ++ ")"
  | .stepCounter => "step counter overflow"

end Fault

/-- The bits of a word from `high` down to `low`, both included. -/
def Word.bitRange (w high low : Word) : Except Fault Word :=
  if high ≤ 31 ∧ low ≤ high then .ok (w.field low.toNat (high.toNat - low.toNat + 1))
  else .error (.bitRange high low)

end ReducedMips
