import LicenseFormula.Formula.Canonical
import LicenseFormula.Formula.Substitution
import LicenseFormula.Proofs.Assembling

/-!
# Reading what was written

The line of a formula has the symbols of its pieces, whatever these are: no piece runs into its
neighbour.  So when each name is renamed to a text that is a formula, the line is a formula again,
with these in place of the names.  A formula of which every name is a line of plain words is read
back as it was; and reading yields no others.

* `Formula.symbols_pieces`      the symbols of a written formula, and what they mean;
* `Formula.parse_write`         reading a formula renamed while written is a substitution;
* `IsRow.isCanonical_meaning`   rows of plain words mean canonical formulas;
* `Formula.parse_text_eq_ok_iff_isCanonical` what is read back, and what can be read at all.
-/

namespace LicenseFormula

/-! ### substitution -/

section

variable {rename : String → String} {g : String → Formula}

theorem symbolsOf_renamed (rename : String → String) (text : String) :
    ((Operand.name text).pieces rename).flatMap symbolsOf = symbolsOf (rename text) :=
  Operand.flatMap_pieces_name symbolsOf_empty rename text

theorem symbolsOf_pieces_join (rename : String → String) (a : Operand) (c : Connective)
    (next : Formula) :
    ((Formula.join a c next).pieces rename).flatMap symbolsOf
      = (a.pieces rename).flatMap symbolsOf
        ++ .connective c :: (next.pieces rename).flatMap symbolsOf := by
  rw [Formula.pieces_join, List.flatMap_append, List.flatMap_cons, symbolsOf_text]
  rfl

theorem symbolsOf_pieces_group (rename : String → String) (f : Formula) :
    ((Operand.group f).pieces rename).flatMap symbolsOf
      = .opening .paren :: ((f.pieces rename).flatMap symbolsOf ++ [.closing .paren]) := by
  rw [Operand.pieces_group, List.cons_append, List.flatMap_cons, List.flatMap_append,
    List.flatMap_singleton, symbolsOf_opener, symbolsOf_closer]
  rfl

mutual

theorem Formula.symbols_pieces (f : Formula)
    (h : ∀ text ∈ f.names, Formula.parse (rename text) = .ok (g text)) :
    IsRow ((f.pieces rename).flatMap symbolsOf)
      ∧ meaning ((f.pieces rename).flatMap symbolsOf) = f.substitute g := by
  match f with
  | .last a => exact Operand.symbols_pieces a h
  | .join a c next =>
    rw [Formula.names, List.forall_mem_append] at h
    obtain ⟨ha, hma⟩ := Operand.symbols_pieces a h.1
    obtain ⟨hn, hmn⟩ := Formula.symbols_pieces next h.2
    rw [symbolsOf_pieces_join, Formula.substitute, ← hma, ← hmn]
    exact ha.append c hn

theorem Operand.symbols_pieces (a : Operand)
    (h : ∀ text ∈ a.names, Formula.parse (rename text) = .ok (g text)) :
    IsRow ((a.pieces rename).flatMap symbolsOf)
      ∧ meaning ((a.pieces rename).flatMap symbolsOf) = a.substitute g := by
  match a with
  | .name text =>
    rw [symbolsOf_renamed]
    obtain ⟨hrow, hmeaning⟩ := Formula.parse_eq_ok_iff.mp (h text (List.mem_singleton_self text))
    exact ⟨hrow, hmeaning.symm⟩
  | .group inner =>
    obtain ⟨hi, hmi⟩ := Formula.symbols_pieces inner h
    obtain ⟨hrow, hmeaning⟩ := isRow_nil.1.addGroup .paren hi
    rw [symbolsOf_pieces_group, Operand.substitute, ← hmi]
    rw [isRow_nil.2] at hmeaning
    exact ⟨hrow, hmeaning⟩

end

end

namespace Formula

/-- Names may be renamed to any texts that are formulas: in the line that is written these stay
apart from all that is around them, and each is read as it is read alone. -/
theorem parse_write (f : Formula) (rename : String → String) (g : String → Formula)
    (h : ∀ text ∈ f.names, parse (rename text) = .ok (g text)) :
    parse (f.write rename) = .ok (f.substitute g) := by
  obtain ⟨hrow, hmeaning⟩ := f.symbols_pieces h
  rw [parse_eq_ok_iff, write, symbolsOf_lineOf]
  exact ⟨hrow, hmeaning.symm⟩

theorem parse_write_connective_in_name :
    (∀ text ∈ ["x", "y"],
      parse (text ++ " or {b},") = .ok (join (.name text) .or (ofGroup (ofName "b"))))
      ∧ parse ((join (.name "x") .and (ofGroup (ofName "y"))).write (· ++ " or {b},"))
        = .ok (join (.name "x") .or (join (.group (ofName "b")) .and
          (ofGroup (join (.name "y") .or (ofGroup (ofName "b")))))) := by
  have h : ∀ text ∈ ["x", "y"],
      parse (text ++ " or {b},") = .ok (join (.name text) .or (ofGroup (ofName "b"))) := by
    intro text ht
    rcases List.mem_cons.mp ht with rfl | ht
    · cbv
    · obtain rfl := List.mem_singleton.mp ht
      cbv
  exact ⟨h, parse_write (join (.name "x") .and (ofGroup (ofName "y"))) (· ++ " or {b},")
    (fun text => join (.name text) .or (ofGroup (ofName "b"))) h⟩

end Formula

/-! ### canonical formulas -/

mutual

theorem IsRow.isCanonical_meaning {xs : List Symbol} (h : IsRow xs)
    (hxs : ∀ w, .word w ∈ xs → IsPlainWord w) : (meaning xs).IsCanonical := by
  match h with
  | .last hs =>
    rw [meaning_last hs]
    exact hs.isCanonicalName hxs
  | .join c hs hnext =>
    rw [meaning_join hs, Formula.IsCanonical, Formula.names, List.forall_mem_append]
    have hhere := hs.isCanonicalName fun w hw => hxs w (List.mem_append_left _ hw)
    have hbehind := hnext.isCanonical_meaning fun w hw =>
      hxs w (List.mem_append_right _ (List.mem_cons_of_mem _ hw))
    exact ⟨hhere, hbehind⟩

theorem IsStretch.isCanonicalName {xs : List Symbol} (h : IsStretch xs)
    (hxs : ∀ w, .word w ∈ xs → IsPlainWord w) :
    ∀ text ∈ (meaningOfStretch xs).names, IsCanonicalName text := by
  match h with
  | @IsStretch.words ws _ =>
    rw [meaningOfStretch_words]
    intro text ht
    exact ⟨ws, fun w hw => hxs w (List.mem_map_of_mem hw), List.mem_singleton.mp ht⟩
  | @IsStretch.group b before inside ws hbefore hinside _ =>
    rw [meaningOfStretch_group b hbefore hinside]
    split
    · exact hinside.isCanonical_meaning fun w hw => hxs w (by simp [hw])
    · intro text ht
      exact ⟨ws, fun w hw => hxs w (by simp [hw]), List.mem_singleton.mp ht⟩

end

theorem symbolsOf_lineOf_words {ws : List String} (h : ∀ w ∈ ws, IsPlainWord w) :
    symbolsOf (lineOf ws) = ws.map .word := by
  rw [symbolsOf_lineOf]
  induction ws with
  | nil => rfl
  | cons w ws ih =>
    rw [List.flatMap_cons, symbolsOf_of_isPlainWord (h w List.mem_cons_self),
      ih fun v hv => h v (List.mem_cons_of_mem _ hv)]
    rfl

theorem IsCanonicalName.parse_eq_ok {text : String} (h : IsCanonicalName text) :
    Formula.parse text = .ok (.ofName text) := by
  obtain ⟨ws, hws, rfl⟩ := h
  obtain ⟨hrow, hmeaning⟩ := isRow_words fun w hw => (hws w hw).ne_empty
  rw [Formula.parse_eq_ok_iff, symbolsOf_lineOf_words hws]
  exact ⟨hrow, hmeaning.symm⟩

mutual

theorem Formula.substitute_ofName (f : Formula) : f.substitute .ofName = f := by
  match f with
  | .last a => exact Operand.substitute_ofName a
  | .join a c next =>
    rw [Formula.substitute, Operand.substitute_ofName a, Formula.substitute_ofName next]
    rfl

theorem Operand.substitute_ofName (a : Operand) : a.substitute .ofName = .last a := by
  match a with
  | .name text => rfl
  | .group inner =>
    rw [Operand.substitute, Formula.substitute_ofName inner]
    rfl

end

namespace Formula

theorem IsCanonical.parse_text {f : Formula} (h : f.IsCanonical) : parse f.text = .ok f := by
  have hnames : ∀ text ∈ f.names, parse (id text) = .ok (ofName text) :=
    fun text ht => (h text ht).parse_eq_ok
  obtain ⟨hrow, hmeaning⟩ := f.symbols_pieces hnames
  rw [parse_eq_ok_iff, text, write, symbolsOf_lineOf, hmeaning, f.substitute_ofName]
  exact ⟨hrow, rfl⟩

theorem isCanonical_of_parse_eq_ok {s : String} {f : Formula} (h : parse s = .ok f) :
    f.IsCanonical := by
  obtain ⟨hrow, rfl⟩ := parse_eq_ok_iff.mp h
  exact hrow.isCanonical_meaning fun w hw => isPlainWord_of_mem_symbolsOf hw

/-- The formulas that are read back from their own lines are the canonical ones, and so are the
formulas that can be read from any text; so reading a line that was written after reading changes
nothing any more. -/
theorem parse_text_eq_ok_iff_isCanonical :
    (∀ f : Formula, parse f.text = .ok f ↔ f.IsCanonical)
      ∧ (∀ f : Formula, (∃ s, parse s = .ok f) ↔ f.IsCanonical)
      ∧ ∀ s, ((parse s).bind fun f => parse f.text) = parse s := by
  refine ⟨fun f => ⟨isCanonical_of_parse_eq_ok, IsCanonical.parse_text⟩, fun f => ?_, fun s => ?_⟩
  · constructor
    · rintro ⟨s, hs⟩
      exact isCanonical_of_parse_eq_ok hs
    · intro h
      exact ⟨f.text, h.parse_text⟩
  · cases hs : parse s with
    | error fault => rfl
    | ok f => exact (isCanonical_of_parse_eq_ok hs).parse_text

end Formula

end LicenseFormula
