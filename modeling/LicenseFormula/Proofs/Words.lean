import Mathlib
import LicenseFormula.Formula.Canonical
import LicenseFormula.Proofs.Lexing

/-!
# Words and connectives among the symbols of a text

A text that is one run of word bytes is one symbol: the connective that it spells, or itself as a
word.  The other way round every word among the symbols of a text is a plain word.

* `isPlainWord_iff`              plain words in terms of their characters;
* `symbolsOf_of_isPlainWord`     a plain word is read as itself;
* `symbolsOf_text`, `symbolsOf_opener`, `symbolsOf_closer` what is written around words;
* `isPlainWord_of_mem_symbolsOf` all words that are read are plain;
* `significantOf s`              the tokens of a text without those of stray bytes;
* `Token.StandsFor t x`          what tokens stand for, kind by kind;
* `forall₂_standsFor`            the symbols of a text are what these tokens stand for, one by one.
-/

namespace LicenseFormula

/-! ### characters of words -/

/-- whether words are made of the character -/
def isWordChar (c : Char) : Bool := c.isAlphanum || c ∈ ['.', '_', '+', '-']

theorem isWordByte_toUInt8 {c : Char} (h : c.toNat < 0x80) :
    isWordByte c.toUInt8 = isWordChar c :=
  forall_char_lt (p := fun c => isWordByte c.toUInt8 = isWordChar c) (by decide +kernel) c h

theorem toNat_lt_of_isWordChar {c : Char} (h : isWordChar c = true) : c.toNat < 0x80 := by
  simp only [isWordChar, Bool.or_eq_true, decide_eq_true_eq, List.mem_cons, List.not_mem_nil,
    or_false, Char.isAlphanum, Char.isAlpha, Char.isUpper, Char.isLower, Char.isDigit,
    Bool.and_eq_true, UInt32.le_iff_toNat_le, ge_iff_le] at h
  have hv : c.toNat = c.val.toNat := rfl
  have hZ : 'Z'.val.toNat = 90 := rfl
  have hz : 'z'.val.toNat = 122 := rfl
  have h9 : '9'.val.toNat = 57 := rfl
  rcases h with h | rfl | rfl | rfl | rfl
  · omega
  · decide
  · decide
  · decide
  · decide

theorem wordBytes_iff (w : String) :
    (∀ b ∈ Text.bytes w, isWordByte b = true) ↔ ∀ c ∈ w.toList, isWordChar c = true := by
  constructor
  · intro h c hc
    by_cases hlt : c.toNat < 0x80
    · rw [← isWordByte_toUInt8 hlt]
      refine h _ (List.mem_flatMap.mpr ⟨c, hc, ?_⟩)
      rw [Text.utf8EncodeChar_ascii hlt]
      exact List.mem_singleton_self _
    · obtain ⟨b, hb⟩ := List.exists_mem_of_ne_nil _ (String.utf8EncodeChar_ne_nil (c := c))
      have hbyte := toNat_lt_of_isWordByte (h b (List.mem_flatMap.mpr ⟨c, hc, hb⟩))
      have hhigh := Text.le_of_mem_utf8EncodeChar (Nat.not_lt.mp hlt) hb
      omega
  · intro h b hb
    obtain ⟨c, hc, hb⟩ := List.mem_flatMap.mp hb
    have hlt := toNat_lt_of_isWordChar (h c hc)
    rw [Text.utf8EncodeChar_ascii hlt, List.mem_singleton] at hb
    rw [hb, isWordByte_toUInt8 hlt]
    exact h c hc

theorem Connective.ofText?_eq_none_iff (s : String) :
    ofText? s = none
      ↔ s.toList.map Char.toUpper ≠ ['A', 'N', 'D'] ∧ s.toList.map Char.toUpper ≠ ['O', 'R'] := by
  rw [Option.eq_none_iff_forall_ne_some]
  constructor
  · intro h
    exact ⟨fun hs => h .and (ofText?_eq_some_iff.mpr hs),
      fun hs => h .or (ofText?_eq_some_iff.mpr hs)⟩
  · rintro ⟨hand, hor⟩ c hc
    have hs := ofText?_eq_some_iff.mp hc
    cases c with
    | and => exact hand hs
    | or => exact hor hs

theorem isPlainWord_iff (w : String) :
    IsPlainWord w ↔ w ≠ "" ∧ (∀ c ∈ w.toList, isWordChar c = true)
      ∧ w.toList.map Char.toUpper ≠ ['A', 'N', 'D'] ∧ w.toList.map Char.toUpper ≠ ['O', 'R'] := by
  rw [← wordBytes_iff, ← Connective.ofText?_eq_none_iff]
  exact ⟨fun h => ⟨h.ne_empty, h.wordBytes, h.noConnective⟩, fun h => ⟨h.1, h.2.1, h.2.2⟩⟩

/-! ### one run -/

theorem Lexeme.bytes_text_run {ws : List UInt8} (h : ∀ b ∈ ws, isWordByte b = true) :
    Text.bytes (run ws).text = ws :=
  Text.bytes_ofList_ofUInt8 fun b hb => toNat_lt_of_isWordByte (h b hb)

theorem Text.bytes_ne_nil {s : String} (h : s ≠ "") : bytes s ≠ [] := by
  intro hs
  exact h (bytes_injective hs)

theorem symbolsOf_of_lexemesOf {s : String} {l : Lexeme} (h : lexemesOf s = [l]) :
    symbolsOf s = l.token.symbol?.toList := by
  rw [symbolsOf_eq, h, filterMap_cons_toList]
  exact List.append_nil _

theorem symbolsOf_run {s : String} (hne : s ≠ "") (hs : ∀ b ∈ Text.bytes s, isWordByte b = true) :
    symbolsOf s = (Token.symbol? ⟨Token.Kind.ofWord s, s⟩).toList := by
  have htext : (Lexeme.run (Text.bytes s)).text = s :=
    Text.bytes_injective (Lexeme.bytes_text_run hs)
  have hlex : lexemesOf s = [.run (Text.bytes s)] := by
    have hend : ∀ b ∈ ([] : List UInt8).head?, isWordByte b = false := fun _ hb => nomatch hb
    have h := Cursor.lexemes_run 0 (Text.bytes_ne_nil hne) hs hend
    rw [List.append_nil, Cursor.lexemes_nil] at h
    show (⟨0, Text.bytes s⟩ : Cursor).lexemes.map Placed.lexeme = _
    rw [h]
    rfl
  have htoken : (Lexeme.run (Text.bytes s)).token = ⟨Token.Kind.ofWord s, s⟩ := by
    show Token.mk (Token.Kind.ofWord (Lexeme.run (Text.bytes s)).text) _ = _
    rw [htext]
  rw [symbolsOf_of_lexemesOf hlex, htoken]

theorem symbolsOf_of_isPlainWord {w : String} (h : IsPlainWord w) : symbolsOf w = [.word w] := by
  rw [symbolsOf_run h.ne_empty h.wordBytes, Token.Kind.ofWord, h.noConnective]
  rfl

theorem symbolsOf_text (c : Connective) : symbolsOf c.text = [.connective c] := by
  have hs : ∀ b ∈ Text.bytes c.text, isWordByte b = true := by
    cases c <;> decide +kernel
  rw [symbolsOf_run c.text_ne_empty hs, Token.Kind.ofWord_text]
  rfl

theorem symbolsOf_empty : symbolsOf "" = [] := by
  rw [symbolsOf_eq, lexemesOf_empty]
  rfl

/-- a text of one byte that is a lexeme by itself, as brackets are -/
theorem symbolsOf_of_ofByte? {s : String} {b : UInt8} {l : Lexeme} (hs : Text.bytes s = [b])
    (hl : Lexeme.ofByte? b = some l) : symbolsOf s = l.token.symbol?.toList := by
  refine symbolsOf_of_lexemesOf ?_
  show (⟨0, Text.bytes s⟩ : Cursor).lexemes.map Placed.lexeme = [l]
  rw [hs, Cursor.lexemes_single 0 [] hl, Cursor.lexemes_nil]
  rfl

theorem symbolsOf_opener : symbolsOf "(" = [.opening .paren] :=
  symbolsOf_of_ofByte? (b := 0x28) (l := .opening .paren) rfl rfl

theorem symbolsOf_closer : symbolsOf ")" = [.closing .paren] :=
  symbolsOf_of_ofByte? (b := 0x29) (l := .closing .paren) rfl rfl

/-! ### words that are read -/

theorem isPlainWord_of_symbol? {l : Lexeme} {w : String} (hl : l.Proper)
    (hw : l.token.symbol? = some (.word w)) : IsPlainWord w := by
  cases l with
  | opening b => cases hw
  | closing b => cases hw
  | stray b => cases hw
  | run ws =>
    obtain ⟨hne, hws⟩ := hl
    have hbytes := Lexeme.bytes_text_run hws
    have hsym : Token.symbol? ⟨Token.Kind.ofWord (Lexeme.run ws).text, (Lexeme.run ws).text⟩
      = some (.word w) := hw
    unfold Token.Kind.ofWord at hsym
    split at hsym
    · cases hsym
    · next hnone =>
      obtain rfl : (Lexeme.run ws).text = w := Symbol.word.inj (Option.some.inj hsym)
      refine ⟨fun hempty => hne ?_, ?_, hnone⟩
      · rw [← hbytes, hempty]
        rfl
      · rwa [hbytes]

theorem isPlainWord_of_mem_symbolsOf {s w : String} (h : .word w ∈ symbolsOf s) :
    IsPlainWord w := by
  obtain ⟨p, hp, hw⟩ := List.mem_filterMap.mp h
  exact isPlainWord_of_symbol? (Cursor.proper_of_mem_lexemes hp) hw

/-! ### tokens that have a place in a formula -/

/-- the tokens of a text without those of stray bytes -/
def significantOf (s : String) : List Token :=
  ((lexemesOf s).map Lexeme.token).filter (·.kind ≠ .stray)

theorem symbolsOf_eq_significantOf (s : String) :
    symbolsOf s = (significantOf s).filterMap Token.symbol? := by
  rw [symbolsOf_eq, significantOf, List.filterMap_filter, List.filterMap_map]
  refine List.filterMap_congr fun l _ => ?_
  show l.token.symbol? = if decide (l.token.kind ≠ .stray) = true then l.token.symbol? else none
  split
  · rfl
  · next hstray =>
    rw [decide_eq_true_eq, not_not] at hstray
    rw [Token.symbol?, hstray]

theorem kind_of_mem_significantOf {s : String} {t : Token} (h : t ∈ significantOf s) :
    t.kind ≠ .stray ∧ t.kind ≠ .finish := by
  obtain ⟨hmem, hstray⟩ := List.mem_filter.mp h
  obtain ⟨l, -, rfl⟩ := List.mem_map.mp hmem
  exact ⟨of_decide_eq_true hstray, l.kind_ne_finish⟩

namespace Token

/-- what a token stands for: only of a word the literal matters, and only of brackets the style;
stray bytes and the end of a text stand for nothing -/
inductive StandsFor : Token → Symbol → Prop where
  | word (text : String) : StandsFor ⟨.word, text⟩ (.word text)
  | connective (c : Connective) (literal : String) :
    StandsFor ⟨.connective c, literal⟩ (.connective c)
  | opening (b : Bracket) (literal : String) : StandsFor ⟨.opening b, literal⟩ (.opening b)
  | closing (b : Bracket) (literal : String) : StandsFor ⟨.closing b, literal⟩ (.closing b)

theorem exists_standsFor {t : Token} (hstray : t.kind ≠ .stray) (hfinish : t.kind ≠ .finish) :
    ∃ x, t.symbol? = some x ∧ t.StandsFor x := by
  obtain ⟨kind, literal⟩ := t
  cases kind with
  | word => exact ⟨_, rfl, .word literal⟩
  | connective c => exact ⟨_, rfl, .connective c literal⟩
  | opening b => exact ⟨_, rfl, .opening b literal⟩
  | closing b => exact ⟨_, rfl, .closing b literal⟩
  | stray => exact absurd rfl hstray
  | finish => exact absurd rfl hfinish

theorem forall₂_standsFor_symbols {ts : List Token}
    (h : ∀ t ∈ ts, t.kind ≠ .stray ∧ t.kind ≠ .finish) :
    List.Forall₂ StandsFor ts (ts.filterMap symbol?) := by
  induction ts with
  | nil => exact .nil
  | cons t ts ih =>
    obtain ⟨⟨hstray, hfinish⟩, hts⟩ := List.forall_mem_cons.mp h
    obtain ⟨x, hx, hstands⟩ := exists_standsFor hstray hfinish
    rw [List.filterMap_cons_some hx]
    exact .cons hstands (ih hts)

end Token

/-- the symbols of a text are what its tokens stand for, one by one, stray bytes left out -/
theorem forall₂_standsFor (s : String) :
    List.Forall₂ Token.StandsFor (significantOf s) (symbolsOf s) := by
  rw [symbolsOf_eq_significantOf]
  exact Token.forall₂_standsFor_symbols fun t ht => kind_of_mem_significantOf ht

end LicenseFormula
