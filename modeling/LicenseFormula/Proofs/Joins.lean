import LicenseFormula.Assembly
import LicenseFormula.Proofs.JsonTexts
import LicenseFormula.Proofs.Renaming

/-!
# Formulas joined in a row

To join a formula to another changes its last node only, which had no connective behind it and now
has one; all other nodes of both are as before.  So whatever is told of a formula node by node is
told of a join as of its two parts: the number of nodes, the licenses, the list of nodes in the JSON
text.  It does not matter either in which order several formulas are joined, and a row that is
closed from its end gives the formula that grows from its beginning.

* `jsonNode`, `Formula.jsonNodes f` the JSON text of a node, and those of all nodes;
* `Formula.json_eq`             the JSON text of a formula lists these;
* `Formula.exists_nodes_append` what a join does to the nodes;
* `Formula.grow f c nodes a`    operands joined to `f` one after the other, the last one is `a`;
* `Formula.grow_eq`             it is the same to join them among themselves first;
* `Row.formula_eq_grown`        so is the formula of a half-read row;
* `Formula.append_laws`         all of this for joins.
-/

namespace LicenseFormula

/-! ### nodes in JSON -/

/-- how the connective behind a node is written, or that there is none -/
def jsonConnective : Option Connective → String
  | none => "null"
  | some c => "\"" ++ c.text ++ "\""

/-- the JSON text of an operand -/
def Operand.json (a : Operand) : String := String.join (a.jsonOnto [])

/-- the JSON text of an operand with the connective behind it -/
def jsonNode (node : Operand × Option Connective) : String :=
  "\x7b\"term\":" ++ node.1.json ++ ",\"operator\":" ++ jsonConnective node.2 ++ "\x7d"

/-- the JSON texts of the nodes of a formula -/
def Formula.jsonNodes (f : Formula) : List String := f.nodes.map jsonNode

theorem Operand.join_jsonOnto (a : Operand) (behind : List String) :
    String.join (a.jsonOnto behind) = a.json ++ String.join behind := by
  have hsplit : a.jsonOnto behind = a.jsonOnto [] ++ behind := a.jsonOnto_append [] behind
  rw [hsplit, String.join_append]
  rfl

theorem Formula.jsonNodes_ne_nil (f : Formula) : f.jsonNodes ≠ [] :=
  mt List.map_eq_nil_iff.mp f.nodes_ne_nil

theorem Formula.join_jsonNodesOnto (f : Formula) (behind : List String) :
    String.join (f.jsonNodesOnto behind) = ",".intercalate f.jsonNodes ++ String.join behind := by
  cases f with
  | last a =>
    have hnodes : (last a).jsonNodes = [jsonNode (a, none)] := rfl
    rw [hnodes, String.intercalate_singleton, jsonNodesOnto]
    simp only [String.join_cons, a.join_jsonOnto, jsonNode, jsonConnective, String.append_assoc]
    rfl
  | join a c next =>
    have hnodes : (join a c next).jsonNodes = jsonNode (a, some c) :: next.jsonNodes := rfl
    rw [hnodes, String.intercalate_cons_of_ne_nil next.jsonNodes_ne_nil, jsonNodesOnto]
    simp only [String.join_cons, a.join_jsonOnto, next.join_jsonNodesOnto behind, jsonNode,
      jsonConnective, String.append_assoc]
    rfl

/-- the JSON text of a formula is the list of those of its nodes -/
theorem Formula.json_eq (f : Formula) :
    f.json = "\x7b\"nodes\":[" ++ ",".intercalate f.jsonNodes ++ "]\x7d" := by
  rw [json, jsonPieces, jsonOnto, String.join_cons, f.join_jsonNodesOnto, String.append_assoc]
  rfl

/-! ### nodes of a join -/

namespace Formula

theorem exists_nodes_append (f : Formula) : ∃ before last, f.nodes = before ++ [(last, none)]
    ∧ ∀ c g, (f.append c g).nodes = before ++ (last, some c) :: g.nodes := by
  cases f with
  | last a => exact ⟨[], a, rfl, fun _ _ => rfl⟩
  | join a d next =>
    obtain ⟨before, last, hnodes, happend⟩ := next.exists_nodes_append
    refine ⟨(a, some d) :: before, last, ?_, fun c g => ?_⟩
    · rw [nodes, hnodes, List.cons_append]
    · rw [append, nodes, happend, List.cons_append]

theorem length_append (f : Formula) (c : Connective) (g : Formula) :
    (f.append c g).length = f.length + g.length := by
  obtain ⟨before, last, hnodes, happend⟩ := f.exists_nodes_append
  rw [length, length, length, hnodes, happend, List.length_append, List.length_append,
    List.length_cons, List.length_singleton]
  omega

theorem licenses_append (f : Formula) (c : Connective) (g : Formula) :
    (f.append c g).licenses = f.licenses ++ g.licenses := by
  rw [← filter_names, names_append, List.filter_append, filter_names, filter_names]

theorem exists_jsonNodes_append (f : Formula) : ∃ before text,
    f.jsonNodes = before ++ [text ++ "null\x7d"]
      ∧ ∀ c g, (f.append c g).jsonNodes
        = before ++ (text ++ "\"" ++ c.text ++ "\"\x7d") :: g.jsonNodes := by
  obtain ⟨before, last, hnodes, happend⟩ := f.exists_nodes_append
  refine ⟨before.map jsonNode, "\x7b\"term\":" ++ last.json ++ ",\"operator\":", ?_, fun c g => ?_⟩
  · rw [jsonNodes, hnodes, List.map_append, List.map_singleton, jsonNode, jsonConnective]
    simp only [String.append_assoc]
    rfl
  · rw [jsonNodes, happend, List.map_append, List.map_cons, jsonNode, jsonConnective]
    simp only [String.append_assoc]
    rfl

/-! ### rows that grow -/

/-- operands joined to a formula one after the other, each behind all that is there already: `c`
joins the first of them, and each of `nodes` has the connective that joins what comes next -/
def grow (f : Formula) (c : Connective) : List (Operand × Connective) → Operand → Formula
  | [], current => f.append c (last current)
  | (a, d) :: nodes, current => (f.append c (last a)).grow d nodes current

/-- the operands of a row joined one after the other, from the first one on -/
def grown : List (Operand × Connective) → Operand → Formula
  | [], current => last current
  | (a, c) :: nodes, current => (last a).grow c nodes current

theorem grow_eq (f : Formula) (c : Connective) (nodes : List (Operand × Connective))
    (current : Operand) :
    f.grow c nodes current
      = f.append c (nodes.foldr (fun node next => join node.1 node.2 next) (last current)) := by
  induction nodes generalizing f c with
  | nil => rfl
  | cons node nodes ih =>
    rw [grow, ih, append_assoc, List.foldr_cons]
    rfl

theorem grown_eq (nodes : List (Operand × Connective)) (current : Operand) :
    grown nodes current
      = nodes.foldr (fun node next => join node.1 node.2 next) (last current) := by
  cases nodes with
  | nil => rfl
  | cons node nodes => exact (last node.1).grow_eq node.2 nodes current

end Formula

namespace Row

/-- a row that is put together from its end is the one that grows from its beginning -/
theorem formula_eq_grown (r : Row) : r.formula = .grown r.before.reverse r.current := by
  rw [Formula.grown_eq, formula, List.foldl_eq_foldr_reverse]

theorem nodes_formula (r : Row) : r.formula.nodes
    = r.before.reverse.map (fun node => (node.1, some node.2)) ++ [(r.current, none)] := by
  rw [formula, List.foldl_eq_foldr_reverse]
  induction r.before.reverse with
  | nil => rfl
  | cons node nodes ih => rw [List.foldr_cons, Formula.nodes, ih, List.map_cons, List.cons_append]

end Row

namespace Formula

/-- Joins may be put together in any order.  What a formula is joined to does not change its nodes
but for the connective that its last one lacked, nor its own nodes; so the number of nodes, the
licenses and the nodes in the JSON text are those of both parts, one behind the other.  The formula
of a half-read row, which is put together from its end, is that of its operands joined in order. -/
theorem append_laws (f g : Formula) (c : Connective) :
    (∀ d h, (f.append c g).append d h = f.append c (g.append d h))
    ∧ (∃ before last, f.nodes = before ++ [(last, none)]
      ∧ (f.append c g).nodes = before ++ (last, some c) :: g.nodes)
    ∧ (f.append c g).length = f.length + g.length
    ∧ (f.append c g).licenses = f.licenses ++ g.licenses
    ∧ (∃ before text, f.jsonNodes = before ++ [text ++ "null\x7d"]
      ∧ (f.append c g).jsonNodes = before ++ (text ++ "\"" ++ c.text ++ "\"\x7d") :: g.jsonNodes)
    ∧ (∀ h : Formula, h.json = "\x7b\"nodes\":[" ++ ",".intercalate h.jsonNodes ++ "]\x7d")
    ∧ ∀ r : Row, r.formula = grown r.before.reverse r.current
      ∧ r.formula.nodes
        = r.before.reverse.map (fun node => (node.1, some node.2)) ++ [(r.current, none)] := by
  obtain ⟨before, last, hnodes, happend⟩ := f.exists_nodes_append
  obtain ⟨texts, text, hjson, hjsonAppend⟩ := f.exists_jsonNodes_append
  exact ⟨f.append_assoc c g, ⟨before, last, hnodes, happend c g⟩, f.length_append c g,
    f.licenses_append c g, ⟨texts, text, hjson, hjsonAppend c g⟩, json_eq,
    fun r => ⟨r.formula_eq_grown, r.nodes_formula⟩⟩

example : (Row.mk [(.name "b", .or), (.name "a", .and)] (.group (ofName "c"))).formula
    = ((ofName "a").append .and (ofName "b")).append .or (ofGroup (ofName "c")) := by
  rfl

end Formula

end LicenseFormula
