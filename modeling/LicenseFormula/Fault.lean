import LicenseFormula.Bracket

/-!
# Faults

A text is no formula in two cases only: a bracket closes nothing, or groups are left open.  Both
are reported with the same message; the details are for whoever follows the reading.

* `Fault.message f` the message;
* `Fault.detail f`  what went wrong, and where.
-/

namespace LicenseFormula

/-- why a text is no formula -/
inductive Fault where
  /-- a closing bracket that does not match, with the offset behind it -/
  | unmatched (bracket : Bracket) (offset : Nat)
  /-- so many groups are open at the end of the text -/
  | leftOpen (depth : Nat)
deriving DecidableEq, Repr

namespace Fault

/-- the message for every fault -/
def message (_ : Fault) : String := "invalid expression error"

/-- what went wrong, and where -/
def detail : Fault → String
  | unmatched b offset => s!"unmatched {b.name} close at offset {offset}"
  | leftOpen depth => s!"{depth} group(s) left open at end of input"

end Fault

end LicenseFormula
