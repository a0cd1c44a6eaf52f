import LicenseFormula.Formula.Basic

/-!
# Formulas as text

A formula is written on one line, its pieces joined by single spaces.  A piece is a name, a
connective in capitals, or one of the parentheses around a group.  Names are renamed on the way;
one whose new text is empty leaves no piece, so that its neighbours stand side by side.

* `Formula.piecesM rename f` the pieces of `f`, names renamed in an arbitrary monad;
* `Formula.writeM rename f`  the line of these pieces;
* `Formula.pieces rename f`, `Formula.write rename f` the same for a renaming without effects;
* `Formula.text f`           the line that keeps all names.
-/

namespace LicenseFormula

mutual

/-- the pieces of the line of a formula, the effects of renaming in the order of writing -/
def Formula.piecesM {m : Type → Type} [Monad m] (rename : String → m String) :
    Formula → m (List String)
  | .last a => a.piecesM rename
  | .join a c next => do
    let here ← a.piecesM rename
    let behind ← next.piecesM rename
    return here ++ c.text :: behind

/-- the pieces of the line of an operand, the effects of renaming in the order of writing -/
def Operand.piecesM {m : Type → Type} [Monad m] (rename : String → m String) :
    Operand → m (List String)
  | .name text => do
    let new ← rename text
    return if new = "" then [] else [new]
  | .group inner => do
    let inside ← inner.piecesM rename
    return "(" :: inside ++ [")"]

end

def lineOf (pieces : List String) : String := " ".intercalate pieces

theorem lineOf_nil : lineOf [] = "" := String.intercalate_nil

theorem lineOf_singleton (p : String) : lineOf [p] = p := String.intercalate_singleton

theorem lineOf_cons_cons (p q : String) (ps : List String) :
    lineOf (p :: q :: ps) = p ++ " " ++ lineOf (q :: ps) :=
  String.intercalate_cons_cons

theorem lineOf_append {ps qs : List String} (hp : ps ≠ []) (hq : qs ≠ []) :
    lineOf (ps ++ qs) = lineOf ps ++ " " ++ lineOf qs :=
  String.intercalate_append_of_ne_nil hp hq

theorem lineOf_cons_ne_empty {p : String} (hp : p ≠ "") (ps : List String) :
    lineOf (p :: ps) ≠ "" := by
  cases ps with
  | nil => rwa [lineOf_singleton]
  | cons q ps =>
    intro h
    rw [lineOf_cons_cons, String.append_assoc, String.append_eq_empty_iff] at h
    exact hp h.1

section

variable {m : Type → Type} [Monad m]

/-- the line of a formula, names renamed on the way -/
def Formula.writeM (rename : String → m String) (f : Formula) : m String := do
  return lineOf (← f.piecesM rename)

end

namespace Formula

/-- the pieces of the line of a formula under a renaming without effects -/
def pieces (rename : String → String) (f : Formula) : List String :=
  (f.piecesM (m := Id) fun text => pure (rename text)).run

/-- the line of a formula under a renaming without effects -/
def write (rename : String → String) (f : Formula) : String := lineOf (f.pieces rename)

def text (f : Formula) : String := f.write id

instance : ToString Formula := ⟨text⟩

end Formula

namespace Operand

/-- the pieces of the line of an operand under a renaming without effects -/
def pieces (rename : String → String) (a : Operand) : List String :=
  (a.piecesM (m := Id) fun text => pure (rename text)).run

/-- the line of an operand under a renaming without effects -/
def write (rename : String → String) (a : Operand) : String := lineOf (a.pieces rename)

def text (a : Operand) : String := a.write id

instance : ToString Operand := ⟨text⟩

theorem pieces_name (rename : String → String) (text : String) :
    (name text).pieces rename = if rename text = "" then [] else [rename text] := rfl

theorem pieces_group (rename : String → String) (f : Formula) :
    (group f).pieces rename = "(" :: f.pieces rename ++ [")"] := rfl

end Operand

namespace Formula

theorem pieces_join (rename : String → String) (a : Operand) (c : Connective) (next : Formula) :
    (join a c next).pieces rename = a.pieces rename ++ c.text :: next.pieces rename := rfl

end Formula

end LicenseFormula
