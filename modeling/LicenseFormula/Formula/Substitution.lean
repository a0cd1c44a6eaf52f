import LicenseFormula.Formula.Basic

/-!
# Substitution in formulas

A row may be put in place of every name.  Its operands take the place of the name in the row
where the name stood, so that the last of them is joined to what followed the name; groups are
kept around their new insides.

* `Formula.substitute g f`  `f` with the row `g text` in place of every name `text`;
* `Formula.withNames f ns`  `f` with the texts `ns` in place of its names, in the order of writing;
* `Formula.names_withNames`  these texts are the names of the result.
-/

namespace LicenseFormula

mutual

/-- the formula with a row in place of every name -/
def Formula.substitute (g : String → Formula) : Formula → Formula
  | .last a => a.substitute g
  | .join a c next => (a.substitute g).append c (next.substitute g)

/-- the row that an operand becomes -/
def Operand.substitute (g : String → Formula) : Operand → Formula
  | .name text => g text
  | .group inner => .ofGroup (inner.substitute g)

end

mutual

/-- the formula with new texts for its names, and the texts left over -/
def Formula.withNames : Formula → List String → Formula × List String
  | .last a, ns => (.last (a.withNames ns).1, (a.withNames ns).2)
  | .join a c next, ns =>
    (.join (a.withNames ns).1 c (next.withNames (a.withNames ns).2).1,
      (next.withNames (a.withNames ns).2).2)

/-- the operand with new texts for its names, and the texts left over -/
def Operand.withNames : Operand → List String → Operand × List String
  | .name text, ns => (.name (ns.headD text), ns.tail)
  | .group inner, ns => (.group (inner.withNames ns).1, (inner.withNames ns).2)

end

mutual

theorem Formula.names_withNames (f : Formula) (ns ms : List String)
    (h : ns.length = f.names.length) :
    (f.withNames (ns ++ ms)).1.names = ns ∧ (f.withNames (ns ++ ms)).2 = ms := by
  match f with
  | .last a =>
    rw [Formula.names] at h
    rw [Formula.withNames, Formula.names]
    exact Operand.names_withNames a ns ms h
  | .join a c next =>
    rw [Formula.names, List.length_append] at h
    have hn : ns = ns.take a.names.length ++ ns.drop a.names.length :=
      (List.take_append_drop _ _).symm
    have ha := Operand.names_withNames a (ns.take a.names.length)
      (ns.drop a.names.length ++ ms) (by rw [List.length_take]; omega)
    rw [← List.append_assoc, ← hn] at ha
    have hnext := Formula.names_withNames next (ns.drop a.names.length) ms
      (by rw [List.length_drop]; omega)
    rw [Formula.withNames, Formula.names, ha.1, ha.2, hnext.1]
    exact ⟨hn.symm, hnext.2⟩

theorem Operand.names_withNames (a : Operand) (ns ms : List String)
    (h : ns.length = a.names.length) :
    (a.withNames (ns ++ ms)).1.names = ns ∧ (a.withNames (ns ++ ms)).2 = ms := by
  match a with
  | .name text =>
    match ns, h with
    | [n], _ => exact ⟨rfl, rfl⟩
  | .group inner =>
    rw [Operand.names] at h
    rw [Operand.withNames, Operand.names]
    exact Formula.names_withNames inner ns ms h

end

end LicenseFormula
