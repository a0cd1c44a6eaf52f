import LicenseFormula.Fault
import LicenseFormula.Lexeme
import LicenseFormula.Text.Quoted

/-!
# Events

What happens while a text is read, in the order in which it happens.  Events come at two levels
of detail, and whoever follows the reading chooses how much to see.

* `Event`               what may happen;
* `Event.level e`       its level: each token is a trace, all else is for debugging;
* `Event.message e`     how it is told;
* `Event.report v es`   the messages among `es` that a verbosity `v` shows.
-/

namespace LicenseFormula

/-- how much detail an event is -/
inductive Level where
  | debug
  | trace
deriving DecidableEq, Repr

def Level.name : Level → String
  | debug => "DEBUG"
  | trace => "TRACE"

/-- how much is shown -/
inductive Verbosity where
  | off
  | debug
  | trace
deriving DecidableEq, Repr

/-- whether events of the level are shown -/
def Verbosity.shows : Verbosity → Level → Bool
  | off, _ => false
  | debug, level => level = .debug
  | trace, _ => true

/-- what happens while a text is read -/
inductive Event where
  /-- a byte that has no place in a formula, with its offset -/
  | stray (byte : UInt8) (offset : Nat)
  | token (token : Token)
  /-- a group was opened inside so many others; the offset is behind the bracket -/
  | opened (bracket : Bracket) (depth offset : Nat)
  /-- a group was closed, so many are still open -/
  | closed (bracket : Bracket) (depth : Nat)
  | failed (fault : Fault)
deriving DecidableEq, Repr

namespace Event

def level : Event → Level
  | token _ => .trace
  | _ => .debug

def message : Event → String
  | stray byte offset => s!"illegal byte 0x{Text.hexByte byte} at offset {offset}"
  | token t => s!"token {t.kind.label} {Text.quoted t.literal}"
  | opened b depth offset => s!"open {b.name} group at depth {depth} (offset {offset})"
  | closed b depth => s!"closed {b.name} group, depth now {depth}"
  | failed fault => fault.detail

/-- the messages that are shown, with their levels -/
def report (v : Verbosity) (es : List Event) : List (Level × String) :=
  (es.filter fun e => v.shows e.level).map fun e => (e.level, e.message)

end Event

end LicenseFormula
