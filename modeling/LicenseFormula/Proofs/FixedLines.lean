import LicenseFormula.Proofs.Dropping

/-!
# Lines that stay as they are

A text is written again as it was read when it is the line of a tidy row: plain words, connectives
in capitals and parentheses, with one space between each two.  The words of a name are then pieces
of the line each by itself, so the line is that of the symbols as well as that of the formula.

* `Symbol.IsItem x`            `x` can stand in such a line as it is;
* `SameLine ps qs`             the pieces `ps` and `qs` make the same line, alone and with others;
* `Formula.sameLine_symbols`   the pieces of a canonical formula and those of its symbols do so;
* `Formula.parse_text_eq_self_iff` the texts that are written again as they were.
-/

namespace LicenseFormula

/-! ### items of a line -/

/-- the symbol is written as it was read: a plain word, a connective or a parenthesis -/
def Symbol.IsItem : Symbol → Prop
  | word w => IsPlainWord w
  | connective _ => True
  | opening b => b = .paren
  | closing b => b = .paren

theorem Symbol.IsItem.symbolsOf_text {x : Symbol} (h : x.IsItem) : symbolsOf x.text = [x] := by
  cases x with
  | word w => exact symbolsOf_of_isPlainWord h
  | connective c => exact LicenseFormula.symbolsOf_text c
  | opening b => obtain rfl : b = .paren := h; exact symbolsOf_opener
  | closing b => obtain rfl : b = .paren := h; exact symbolsOf_closer

theorem Symbol.isItem_of_uniform_eq {x : Symbol} (hx : x.uniform = x)
    (hw : ∀ w, x = .word w → IsPlainWord w) : x.IsItem := by
  cases x with
  | word w => exact hw w rfl
  | connective c => trivial
  | opening b => exact (Symbol.opening.inj hx).symm
  | closing b => exact (Symbol.closing.inj hx).symm

theorem symbolsOf_lineOf_items {xs : List Symbol} (h : ∀ x ∈ xs, x.IsItem) :
    symbolsOf (lineOf (xs.map Symbol.text)) = xs := by
  rw [symbolsOf_lineOf]
  induction xs with
  | nil => rfl
  | cons x xs ih =>
    rw [List.map_cons, List.flatMap_cons, (h x List.mem_cons_self).symbolsOf_text,
      ih fun y hy => h y (List.mem_cons_of_mem _ hy)]
    rfl

/-! ### pieces that make the same line -/

/-- the pieces make the same line, and go on making it when others are put beside both -/
structure SameLine (ps qs : List String) : Prop where
  eq_nil_iff : ps = [] ↔ qs = []
  lineOf_eq : lineOf ps = lineOf qs

namespace SameLine

theorem refl (ps : List String) : SameLine ps ps := ⟨Iff.rfl, rfl⟩

theorem append {ps qs us vs : List String} (h : SameLine ps qs) (h' : SameLine us vs) :
    SameLine (ps ++ us) (qs ++ vs) := by
  refine ⟨by rw [List.append_eq_nil_iff, List.append_eq_nil_iff, h.eq_nil_iff, h'.eq_nil_iff], ?_⟩
  by_cases hp : ps = []
  · rw [hp, h.eq_nil_iff.mp hp]
    exact h'.lineOf_eq
  · by_cases hu : us = []
    · rw [hu, h'.eq_nil_iff.mp hu, List.append_nil, List.append_nil]
      exact h.lineOf_eq
    · rw [lineOf_append hp hu, h.lineOf_eq, h'.lineOf_eq,
        lineOf_append (mt h.eq_nil_iff.mpr hp) (mt h'.eq_nil_iff.mpr hu)]

/-- a name and its words -/
theorem name {ws : List String} (h : ∀ w ∈ ws, w ≠ "") :
    SameLine ((Operand.name (lineOf ws)).pieces id) ws := by
  rw [Operand.pieces_name, id_eq]
  cases ws with
  | nil => rw [lineOf_nil, if_pos rfl]; exact refl []
  | cons w ws =>
    rw [if_neg (lineOf_cons_ne_empty (h w List.mem_cons_self) ws)]
    exact ⟨iff_of_false (List.cons_ne_nil _ _) (List.cons_ne_nil _ _), lineOf_singleton _⟩

end SameLine

mutual

theorem Formula.sameLine_symbols (f : Formula) (h : ∀ text ∈ f.names, IsCanonicalName text) :
    SameLine (f.pieces id) ((symbolsOf f.text).map Symbol.text) := by
  match f with
  | .last a => exact Operand.sameLine_symbols a h
  | .join a c next =>
    rw [Formula.names, List.forall_mem_append] at h
    have ha := Operand.sameLine_symbols a h.1
    have hnext := Formula.sameLine_symbols next h.2
    rw [Formula.pieces_join, Formula.symbolsOf_text_join, List.map_append]
    exact ha.append ((SameLine.refl [c.text]).append hnext)

theorem Operand.sameLine_symbols (a : Operand) (h : ∀ text ∈ a.names, IsCanonicalName text) :
    SameLine (a.pieces id) ((symbolsOf a.text).map Symbol.text) := by
  match a with
  | .name text =>
    obtain ⟨ws, hws, rfl⟩ := h text (List.mem_singleton_self text)
    have htext : (ws.map Symbol.word).map Symbol.text = ws := by
      rw [List.map_map]
      exact List.map_id ws
    rw [symbolsOf_text_words hws, htext]
    exact .name fun w hw => (hws w hw).ne_empty
  | .group inner =>
    have hi := Formula.sameLine_symbols inner h
    rw [Operand.pieces_group, Operand.symbolsOf_text_group, List.map_cons, List.map_append]
    exact (SameLine.refl ["("]).append (hi.append (SameLine.refl [")"]))

end

/-! ### texts -/

namespace Formula

theorem text_eq_lineOf_symbols {f : Formula} (h : f.IsCanonical) :
    f.text = lineOf ((symbolsOf f.text).map Symbol.text) :=
  (f.sameLine_symbols h).lineOf_eq

theorem lineOf_of_text_eq_self {s : String} {f : Formula} (h : parse s = .ok f)
    (hs : f.text = s) :
    s = lineOf ((symbolsOf s).map Symbol.text) ∧ (∀ x ∈ symbolsOf s, x.IsItem)
      ∧ Tidy (symbolsOf s) := by
  have hline := text_eq_lineOf_symbols (isCanonical_of_parse_eq_ok h)
  obtain ⟨hrow, rfl⟩ := parse_eq_ok_iff.mp h
  have hplain : ∀ w, .word w ∈ symbolsOf s → IsPlainWord w :=
    fun w hw => isPlainWord_of_mem_symbolsOf hw
  have htidy : Tidy (symbolsOf s) := hrow.tidy_of_length_eq hplain (by rw [hs])
  have huniform := htidy.symbolsOf_text_meaning hplain
  rw [hs] at hline huniform
  refine ⟨hline, fun x hx => ?_, htidy⟩
  refine Symbol.isItem_of_uniform_eq ?_ fun w hw => hplain w (hw ▸ hx)
  exact List.map_inj_left.mp (huniform.symm.trans (List.map_id _).symm) x hx

theorem parse_lineOf_of_tidy {xs : List Symbol} (hitems : ∀ x ∈ xs, x.IsItem) (h : Tidy xs) :
    parse (lineOf (xs.map Symbol.text)) = .ok (meaning xs)
      ∧ (meaning xs).text = lineOf (xs.map Symbol.text) := by
  have hplain : ∀ w, .word w ∈ xs → IsPlainWord w := fun w hw => hitems _ hw
  have hparse : parse (lineOf (xs.map Symbol.text)) = .ok (meaning xs) := by
    rw [parse_eq_ok_iff, symbolsOf_lineOf_items hitems]
    exact ⟨h.isRow fun w hw => (hplain w hw).ne_empty, rfl⟩
  refine ⟨hparse, ?_⟩
  rw [text_eq_lineOf_symbols (isCanonical_of_parse_eq_ok hparse), h.symbolsOf_text_meaning hplain,
    List.map_map]
  exact congrArg lineOf (List.map_congr_left fun x _ => x.text_uniform)

/-- A text is written again as it was read exactly when it is a line of items, one space between
each two, whose parentheses are balanced and whose operands are runs of words or one group
alone. -/
theorem parse_text_eq_self_iff (s : String) :
    (∃ f, parse s = .ok f ∧ f.text = s) ↔
      ∃ xs : List Symbol, s = lineOf (xs.map Symbol.text) ∧ (∀ x ∈ xs, x.IsItem)
        ∧ Balanced (xs.filterMap Symbol.edge?) ∧ Tidy xs := by
  constructor
  · rintro ⟨f, h, hs⟩
    obtain ⟨hline, hitems, htidy⟩ := lineOf_of_text_eq_self h hs
    exact ⟨symbolsOf s, hline, hitems, (parse_eq_ok_iff.mp h).1.balanced, htidy⟩
  · rintro ⟨xs, rfl, hitems, _, htidy⟩
    exact ⟨meaning xs, parse_lineOf_of_tidy hitems htidy⟩

end Formula

end LicenseFormula
