import LicenseFormula.Formula.Basic
import LicenseFormula.Symbol

/-!
# Assembling a formula

A formula is put together from symbols in one pass.  The row being read has an operand that
still grows; each bracket that opens puts the row aside and starts an empty one, and the bracket
that closes it makes a group of the inner row, which becomes the growing operand of the outer.
What the growing operand held before is dropped: a group replaces words and groups before it, and
words replace a group before them.

* `Row`, `Row.formula r`       a row being read, and the formula it stands for;
* `Assembly`                   the innermost row with the rows around it;
* `Assembly.step s x`          what the symbol `x` does, or the bracket that closes nothing;
* `Assembly.run s xs`          the same for symbols one after the other;
* `Assembly.finish? s`         the formula, once no group is open;
* `Formula.ofSymbols? xs`      the formula of a whole list of symbols.
-/

namespace LicenseFormula

/-- the operand with one more word -/
def Operand.addWord (word : String) : Operand → Operand
  | .name text => .name (if text = "" then word else text ++ " " ++ word)
  | .group _ => .name word

/-- a row being read -/
structure Row where
  /-- the operands before the growing one, each with the connective behind it, the latest first -/
  before : List (Operand × Connective)
  current : Operand
deriving DecidableEq, Repr

namespace Row

def start : Row := ⟨[], .empty⟩

def formula (r : Row) : Formula :=
  r.before.foldl (fun next (a, c) => .join a c next) (.last r.current)

def addWord (word : String) (r : Row) : Row := { r with current := r.current.addWord word }

/-- a connective behind the growing operand, and an empty operand after it -/
def addConnective (c : Connective) (r : Row) : Row := ⟨(r.current, c) :: r.before, .empty⟩

/-- a group in place of the growing operand -/
def setGroup (inner : Formula) (r : Row) : Row := { r with current := .group inner }

end Row

/-- a formula of which some symbols have been read -/
structure Assembly where
  /-- the innermost row -/
  row : Row
  /-- the rows around it, the nearest first, with the bracket that opened the group in each -/
  around : List (Row × Bracket)
deriving DecidableEq, Repr

namespace Assembly

def start : Assembly := ⟨.start, []⟩

def depth (s : Assembly) : Nat := s.around.length

/-- what one symbol does; a bracket that does not close the innermost group is an error -/
def step (s : Assembly) : Symbol → Except Bracket Assembly
  | .word text => .ok { s with row := s.row.addWord text }
  | .connective c => .ok { s with row := s.row.addConnective c }
  | .opening b => .ok ⟨.start, (s.row, b) :: s.around⟩
  | .closing b =>
    match s.around with
    | [] => .error b
    | (outer, k) :: around => if k = b then .ok ⟨outer.setGroup s.row.formula, around⟩ else .error b

def run (s : Assembly) (xs : List Symbol) : Except Bracket Assembly := xs.foldlM step s

/-- the formula, once no group is open -/
def finish? (s : Assembly) : Option Formula :=
  match s.around with
  | [] => some s.row.formula
  | _ :: _ => none

theorem run_cons (s : Assembly) (x : Symbol) (xs : List Symbol) :
    s.run (x :: xs) = (s.step x).bind (·.run xs) := rfl

theorem run_append (s : Assembly) (xs ys : List Symbol) :
    s.run (xs ++ ys) = (s.run xs).bind (·.run ys) := by
  simp only [run, List.foldlM_append]
  rfl

end Assembly

/-- the formula of a list of symbols; there is none when brackets do not match -/
def Formula.ofSymbols? (xs : List Symbol) : Option Formula :=
  (Assembly.start.run xs).toOption.bind Assembly.finish?

end LicenseFormula
