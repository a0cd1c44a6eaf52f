import LicenseFormula.Proofs.Reparsing
import LicenseFormula.Tidy

/-!
# What is dropped

When a formula is assembled, what stands in a stretch before its last group is dropped, and so is
a group with words behind it.  All that is left is written back in its order, with parentheses for
all brackets, so the symbols of the line that is written are among those that were read.  They are
as many only when there was nothing to drop, and that is when the row is tidy.

* `Tidy.isRow`                    tidy rows are rows;
* `IsRow.sublist_symbolsOf_text`  nothing is added, doubled or moved;
* `IsRow.tidy_of_length_eq`       where nothing is missing, the row is tidy;
* `Tidy.symbolsOf_text_meaning`   of a tidy row nothing is missing;
* `Token.uniform t`               what is compared of a token;
* `map_uniform_significantOf`     to compare tokens is to compare symbols;
* `Formula.symbolsOf_text_sublist` all of this for texts.
-/

namespace LicenseFormula

/-! ### symbols of a line that is written -/

namespace Formula

theorem symbolsOf_text_eq (f : Formula) : symbolsOf f.text = (f.pieces id).flatMap symbolsOf :=
  symbolsOf_lineOf _

theorem symbolsOf_text_last (a : Operand) : symbolsOf (last a).text = symbolsOf a.text := rfl

end Formula

namespace Operand

theorem symbolsOf_text_eq (a : Operand) : symbolsOf a.text = (a.pieces id).flatMap symbolsOf :=
  symbolsOf_lineOf _

theorem symbolsOf_text_name (text : String) : symbolsOf (name text).text = symbolsOf text := by
  rw [symbolsOf_text_eq, symbolsOf_renamed]
  rfl

theorem symbolsOf_text_group (f : Formula) :
    symbolsOf (group f).text = .opening .paren :: (symbolsOf f.text ++ [.closing .paren]) := by
  rw [symbolsOf_text_eq, symbolsOf_pieces_group, ← f.symbolsOf_text_eq]

end Operand

theorem Formula.symbolsOf_text_join (a : Operand) (c : Connective) (next : Formula) :
    symbolsOf (join a c next).text = symbolsOf a.text ++ .connective c :: symbolsOf next.text := by
  rw [symbolsOf_text_eq, symbolsOf_pieces_join, ← a.symbolsOf_text_eq, ← next.symbolsOf_text_eq]

theorem symbolsOf_text_words {ws : List String} (h : ∀ w ∈ ws, IsPlainWord w) :
    symbolsOf (Operand.name (lineOf ws)).text = ws.map .word := by
  rw [Operand.symbolsOf_text_name, symbolsOf_lineOf_words h]

/-! ### rows of which something is dropped -/

theorem map_uniform_words (ws : List String) :
    (ws.map Symbol.word).map Symbol.uniform = ws.map .word := by
  rw [List.map_map]
  rfl

theorem symbolsOf_text_meaning_words {ws : List String} (h : ∀ w ∈ ws, IsPlainWord w) :
    symbolsOf (meaningOfStretch (ws.map .word)).text = (ws.map Symbol.word).map Symbol.uniform := by
  rw [meaningOfStretch_words, symbolsOf_text_words h, map_uniform_words]

mutual

theorem IsRow.sublist_symbolsOf_text {xs : List Symbol} (h : IsRow xs)
    (hxs : ∀ w, .word w ∈ xs → IsPlainWord w) :
    (symbolsOf (meaning xs).text).Sublist (xs.map Symbol.uniform) := by
  match h with
  | .last hs =>
    rw [meaning_last hs, Formula.symbolsOf_text_last]
    exact hs.sublist_symbolsOf_text hxs
  | .join c hs hnext =>
    have hhere := hs.sublist_symbolsOf_text fun w hw => hxs w (by simp [hw])
    have hbehind := hnext.sublist_symbolsOf_text fun w hw => hxs w (by simp [hw])
    rw [meaning_join hs, Formula.symbolsOf_text_join, List.map_append, List.map_cons]
    exact hhere.append (hbehind.cons_cons _)

theorem IsStretch.sublist_symbolsOf_text {xs : List Symbol} (h : IsStretch xs)
    (hxs : ∀ w, .word w ∈ xs → IsPlainWord w) :
    (symbolsOf (meaningOfStretch xs).text).Sublist (xs.map Symbol.uniform) := by
  match h with
  | .words _ =>
    have hsame := symbolsOf_text_meaning_words fun w hw => hxs w (List.mem_map_of_mem hw)
    exact hsame ▸ List.Sublist.refl _
  | @IsStretch.group b before inside ws hbefore hinside _ =>
    have hi := hinside.sublist_symbolsOf_text fun w hw => hxs w (by simp [hw])
    rw [meaningOfStretch_group b hbefore hinside, List.map_append, List.map_cons, List.map_append,
      List.map_cons, map_uniform_words]
    refine List.Sublist.trans ?_ (List.sublist_append_right _ _)
    split
    · next hws =>
      rw [Operand.symbolsOf_text_group, hws]
      exact (hi.append (List.Sublist.refl _)).cons_cons _
    · rw [symbolsOf_text_words fun w hw => hxs w (by simp [hw])]
      exact ((List.sublist_cons_self _ _).trans (List.sublist_append_right _ _)).cons _

end

mutual

theorem IsRow.tidy_of_length_eq {xs : List Symbol} (h : IsRow xs)
    (hxs : ∀ w, .word w ∈ xs → IsPlainWord w)
    (hlen : (symbolsOf (meaning xs).text).length = xs.length) : Tidy xs := by
  match h with
  | .last hs =>
    rw [meaning_last hs, Formula.symbolsOf_text_last] at hlen
    exact .last (hs.tidy_of_length_eq hxs hlen)
  | .join c hs hnext =>
    have hplain := fun w hw => hxs w (List.mem_append_left _ hw)
    have hplain' := fun w hw => hxs w (List.mem_append_right _ (List.mem_cons_of_mem _ hw))
    -- neither part can make up for what is missing in the other
    have hle := (hs.sublist_symbolsOf_text hplain).length_le
    have hle' := (hnext.sublist_symbolsOf_text hplain').length_le
    rw [List.length_map] at hle hle'
    rw [meaning_join hs, Formula.symbolsOf_text_join, List.length_append, List.length_append,
      List.length_cons, List.length_cons] at hlen
    exact .join c (hs.tidy_of_length_eq hplain (by omega))
      (hnext.tidy_of_length_eq hplain' (by omega))

theorem IsStretch.tidy_of_length_eq {xs : List Symbol} (h : IsStretch xs)
    (hxs : ∀ w, .word w ∈ xs → IsPlainWord w)
    (hlen : (symbolsOf (meaningOfStretch xs).text).length = xs.length) : TidyOperand xs := by
  match h with
  | .words _ => exact .words _
  | @IsStretch.group b before inside ws hbefore hinside _ =>
    have hplain : ∀ w, .word w ∈ inside → IsPlainWord w := fun w hw => hxs w (by simp [hw])
    have hle := (hinside.sublist_symbolsOf_text hplain).length_le
    rw [List.length_map] at hle
    rw [meaningOfStretch_group b hbefore hinside] at hlen
    split at hlen
    · next hws =>
      obtain rfl := hws
      rw [Operand.symbolsOf_text_group] at hlen
      simp only [List.length_cons, List.length_append, List.length_nil, List.length_map] at hlen
      obtain rfl : before = [] := List.length_eq_zero_iff.mp (by omega)
      rw [List.length_nil] at hlen
      exact .group b (hinside.tidy_of_length_eq hplain (by omega))
    · -- the brackets of the group are missing
      rw [symbolsOf_text_words fun w hw => hxs w (by simp [hw])] at hlen
      simp only [List.length_cons, List.length_append, List.length_map] at hlen
      omega

end

/-! ### tidy rows -/

theorem isStretch_nil : IsStretch [] :=
  @IsStretch.words [] fun _ hw => nomatch hw

mutual

theorem Tidy.isRow {xs : List Symbol} (h : Tidy xs) (hxs : ∀ w, .word w ∈ xs → w ≠ "") :
    IsRow xs := by
  match h with
  | .last ha => exact .last (ha.isStretch hxs)
  | .join c ha hnext =>
    exact .join c (ha.isStretch fun w hw => hxs w (by simp [hw]))
      (hnext.isRow fun w hw => hxs w (by simp [hw]))

theorem TidyOperand.isStretch {xs : List Symbol} (h : TidyOperand xs)
    (hxs : ∀ w, .word w ∈ xs → w ≠ "") : IsStretch xs := by
  match h with
  | .words ws => exact .words fun w hw => hxs w (List.mem_map_of_mem hw)
  | .group b hinside =>
    have hrow := hinside.isRow fun w hw => hxs w (by simp [hw])
    exact (isStretch_nil.addGroup b hrow).1

end

mutual

theorem Tidy.symbolsOf_text_meaning {xs : List Symbol} (h : Tidy xs)
    (hxs : ∀ w, .word w ∈ xs → IsPlainWord w) :
    symbolsOf (meaning xs).text = xs.map Symbol.uniform := by
  match h with
  | .last ha =>
    have hs := ha.isStretch fun w hw => (hxs w hw).ne_empty
    rw [meaning_last hs, Formula.symbolsOf_text_last]
    exact ha.symbolsOf_text_meaning hxs
  | .join c ha hnext =>
    have hplain := fun w hw => hxs w (List.mem_append_left _ hw)
    have hplain' := fun w hw => hxs w (List.mem_append_right _ (List.mem_cons_of_mem _ hw))
    have hs := ha.isStretch fun w hw => (hplain w hw).ne_empty
    rw [meaning_join hs, Formula.symbolsOf_text_join, ha.symbolsOf_text_meaning hplain,
      hnext.symbolsOf_text_meaning hplain', List.map_append, List.map_cons]
    rfl

theorem TidyOperand.symbolsOf_text_meaning {xs : List Symbol} (h : TidyOperand xs)
    (hxs : ∀ w, .word w ∈ xs → IsPlainWord w) :
    symbolsOf (meaningOfStretch xs).text = xs.map Symbol.uniform := by
  match h with
  | .words ws => exact symbolsOf_text_meaning_words fun w hw => hxs w (List.mem_map_of_mem hw)
  | @TidyOperand.group b inside hinside =>
    have hplain : ∀ w, .word w ∈ inside → IsPlainWord w := fun w hw => hxs w (by simp [hw])
    have hrow := hinside.isRow fun w hw => (hplain w hw).ne_empty
    have hmeaning := (isStretch_nil.addGroup b hrow).2
    rw [List.nil_append] at hmeaning
    rw [List.cons_append, hmeaning, Operand.symbolsOf_text_group,
      hinside.symbolsOf_text_meaning hplain, List.map_cons, List.map_append]
    rfl

end

/-! ### tokens that are compared -/

/-- the token with parentheses for any bracket, and with its literal only if it is a word -/
def Token.uniform (t : Token) : Token := ⟨t.kind.uniform, if t.kind = .word then t.literal else ""⟩

/-- a token for the symbol, with a literal only if it is a word -/
def Symbol.token : Symbol → Token
  | word text => ⟨.word, text⟩
  | connective c => ⟨.connective c, ""⟩
  | opening b => ⟨.opening b, ""⟩
  | closing b => ⟨.closing b, ""⟩

theorem Symbol.symbol?_token (x : Symbol) : x.token.symbol? = some x := by
  cases x <;> rfl

theorem Symbol.token_injective : Function.Injective token := by
  intro x y h
  have hsymbol := congrArg Token.symbol? h
  rw [x.symbol?_token, y.symbol?_token] at hsymbol
  exact Option.some.inj hsymbol

theorem Token.StandsFor.uniform_eq {t : Token} {x : Symbol} (h : t.StandsFor x) :
    t.uniform = x.uniform.token := by
  cases h with
  | word text => rfl
  | connective c literal => rfl
  | opening b literal => rfl
  | closing b literal => rfl

theorem map_uniform_of_standsFor {ts : List Token} {xs : List Symbol}
    (h : List.Forall₂ Token.StandsFor ts xs) :
    ts.map Token.uniform = (xs.map Symbol.uniform).map Symbol.token := by
  induction h with
  | nil => rfl
  | cons hstands _ ih => rw [List.map_cons, hstands.uniform_eq, ih]; rfl

theorem map_uniform_significantOf (s : String) :
    (significantOf s).map Token.uniform = ((symbolsOf s).map Symbol.uniform).map Symbol.token :=
  map_uniform_of_standsFor (forall₂_standsFor s)

/-! ### texts -/

theorem map_uniform_uniform (xs : List Symbol) :
    (xs.map Symbol.uniform).map Symbol.uniform = xs.map Symbol.uniform := by
  rw [List.map_map]
  exact List.map_congr_left fun x _ => x.uniform_uniform

namespace Formula

theorem sublist_of_parse_eq_ok {s : String} {f : Formula} (h : parse s = .ok f) :
    ((symbolsOf f.text).map Symbol.uniform).Sublist ((symbolsOf s).map Symbol.uniform) := by
  obtain ⟨hrow, rfl⟩ := parse_eq_ok_iff.mp h
  have hsub := hrow.sublist_symbolsOf_text fun w hw => isPlainWord_of_mem_symbolsOf hw
  have huniform := hsub.map Symbol.uniform
  rwa [map_uniform_uniform] at huniform

theorem eq_iff_tidy_of_parse_eq_ok {s : String} {f : Formula} (h : parse s = .ok f) :
    (symbolsOf f.text).map Symbol.uniform = (symbolsOf s).map Symbol.uniform
      ↔ Tidy (symbolsOf s) := by
  obtain ⟨hrow, rfl⟩ := parse_eq_ok_iff.mp h
  have hplain : ∀ w, .word w ∈ symbolsOf s → IsPlainWord w :=
    fun w hw => isPlainWord_of_mem_symbolsOf hw
  constructor
  · intro heq
    have hlen := congrArg List.length heq
    rw [List.length_map, List.length_map] at hlen
    exact hrow.tidy_of_length_eq hplain hlen
  · intro htidy
    rw [htidy.symbolsOf_text_meaning hplain, map_uniform_uniform]

/-- What is read and written again has its symbols from the text, in their order, with parentheses
for all brackets.  None is missing exactly when each operand in the text is a run of words or one
group alone.  The same holds of the tokens, when stray bytes are left out, connectives compared by
their kind only and brackets whatever their style. -/
theorem symbolsOf_text_sublist {s : String} {f : Formula} (h : parse s = .ok f) :
    List.Forall₂ Token.StandsFor (significantOf s) (symbolsOf s)
      ∧ ((symbolsOf f.text).map Symbol.uniform).Sublist ((symbolsOf s).map Symbol.uniform)
      ∧ ((symbolsOf f.text).map Symbol.uniform = (symbolsOf s).map Symbol.uniform
        ↔ Tidy (symbolsOf s))
      ∧ ((significantOf f.text).map Token.uniform).Sublist ((significantOf s).map Token.uniform)
      ∧ ((significantOf f.text).map Token.uniform = (significantOf s).map Token.uniform
        ↔ Tidy (symbolsOf s)) := by
  have hsub := sublist_of_parse_eq_ok h
  have hiff := eq_iff_tidy_of_parse_eq_ok h
  refine ⟨forall₂_standsFor s, hsub, hiff, ?_, ?_⟩
  · rw [map_uniform_significantOf, map_uniform_significantOf]
    exact hsub.map Symbol.token
  · rw [map_uniform_significantOf, map_uniform_significantOf,
      (List.map_injective_iff.mpr Symbol.token_injective).eq_iff]
    exact hiff

theorem symbolsOf_text_sublist_of_dropped_group :
    ∃ f, f = .join (.name "c") .or (.last (.group (.join (.name "d e") .and (.last .empty))))
      ∧ parse "a {b} c or {d,e and}" = .ok f
      ∧ List.Forall₂ Token.StandsFor (significantOf "a {b} c or {d,e and}")
          (symbolsOf "a {b} c or {d,e and}")
      ∧ ((symbolsOf f.text).map Symbol.uniform).Sublist
          ((symbolsOf "a {b} c or {d,e and}").map Symbol.uniform)
      ∧ ((symbolsOf f.text).map Symbol.uniform
          = (symbolsOf "a {b} c or {d,e and}").map Symbol.uniform
        ↔ Tidy (symbolsOf "a {b} c or {d,e and}"))
      ∧ ((significantOf f.text).map Token.uniform).Sublist
          ((significantOf "a {b} c or {d,e and}").map Token.uniform)
      ∧ ((significantOf f.text).map Token.uniform
          = (significantOf "a {b} c or {d,e and}").map Token.uniform
        ↔ Tidy (symbolsOf "a {b} c or {d,e and}")) := by
  have h : parse "a {b} c or {d,e and}" = .ok (.join (.name "c") .or
      (.last (.group (.join (.name "d e") .and (.last .empty))))) := by
    cbv
  exact ⟨_, rfl, h, symbolsOf_text_sublist h⟩

end Formula

end LicenseFormula
