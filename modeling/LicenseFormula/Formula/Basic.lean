import LicenseFormula.Connective

/-!
# Formulas

A formula is a row of operands, one or more, each joined to the next by a connective.  An operand
is a name, possibly of several words and possibly empty, or a group, which is a formula in
brackets.  Rows have no precedence: `a AND b OR c` is the row of three operands.

* `Formula.last a`, `Formula.join a c f`  the row of one operand, and the row of `a` joined to `f`;
* `Formula.first`, `Formula.link?`        its first operand, and the connective with what follows;
* `Formula.nodes`                         its operands, each with the connective behind it;
* `Formula.names`, `Formula.licenses`     all names in the order of writing, and those not empty;
* `Formula.append f c g`                  `f` joined to `g` behind the last operand of `f`;
* `names_append`, `append_assoc`          the names of a join, and joins of joins.
-/

namespace LicenseFormula

mutual

/-- a row of operands -/
inductive Formula where
  | last (operand : Operand)
  | join (operand : Operand) (connective : Connective) (next : Formula)
deriving DecidableEq, Repr

/-- a term of a formula -/
inductive Operand where
  | name (text : String)
  | group (inner : Formula)
deriving DecidableEq, Repr

end

namespace Operand

/-- the operand that nothing has been read into -/
def empty : Operand := name ""

def name? : Operand → Option String
  | name text => some text
  | group _ => none

def inner? : Operand → Option Formula
  | name _ => none
  | group inner => some inner

/-- whether the operand is the name without text -/
def isEmpty (a : Operand) : Bool := a = empty

instance : Inhabited Operand := ⟨empty⟩

end Operand

namespace Formula

instance : Inhabited Formula := ⟨last Operand.empty⟩

def ofName (text : String) : Formula := last (.name text)

def ofGroup (inner : Formula) : Formula := last (.group inner)

def first : Formula → Operand
  | last a => a
  | join a _ _ => a

/-- the first connective with the row behind it -/
def link? : Formula → Option (Connective × Formula)
  | last _ => none
  | join _ c next => some (c, next)

/-- the row behind the first connective -/
def next? (f : Formula) : Option Formula := f.link?.map (·.2)

/-- the row with another first operand -/
def withFirst (a : Operand) : Formula → Formula
  | last _ => last a
  | join _ c next => join a c next

/-- the row with another first connective; there is none in a row of one operand -/
def withLink? (c : Connective) : Formula → Option Formula
  | last _ => none
  | join a _ next => some (join a c next)

/-- the operands of the row, each with the connective behind it -/
def nodes : Formula → List (Operand × Option Connective)
  | last a => [(a, none)]
  | join a c next => (a, some c) :: next.nodes

def length (f : Formula) : Nat := f.nodes.length

/-- `f` joined to `g` behind the last operand of `f` -/
def append : Formula → Connective → Formula → Formula
  | last a, c, g => join a c g
  | join a d next, c, g => join a d (next.append c g)

end Formula

mutual

/-- the names of a formula in the order of writing, empty ones included -/
def Formula.names : Formula → List String
  | .last a => a.names
  | .join a _ next => a.names ++ next.names

/-- the names of an operand in the order of writing, empty ones included -/
def Operand.names : Operand → List String
  | .name text => [text]
  | .group inner => inner.names

end

mutual

/-- the names of a formula that say something, in the order of writing -/
def Formula.licenses : Formula → List String
  | .last a => a.licenses
  | .join a _ next => a.licenses ++ next.licenses

/-- the names of an operand that say something, in the order of writing -/
def Operand.licenses : Operand → List String
  | .name text => if text = "" then [] else [text]
  | .group inner => inner.licenses

end

namespace Formula

theorem nodes_ne_nil (f : Formula) : f.nodes ≠ [] := by
  cases f <;> simp [nodes]

theorem names_append (f : Formula) (c : Connective) (g : Formula) :
    (f.append c g).names = f.names ++ g.names := by
  match f with
  | last a => simp [append, names]
  | join a d next => simp [append, names, names_append next c g]

theorem append_assoc (f : Formula) (c : Connective) (g : Formula) (d : Connective) (h : Formula) :
    (f.append c g).append d h = f.append c (g.append d h) := by
  match f with
  | last a => rfl
  | join a e next => simp [append, append_assoc next c g d h]

end Formula

end LicenseFormula
