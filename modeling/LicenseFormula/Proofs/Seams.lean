import LicenseFormula.Proofs.Covers
import LicenseFormula.Proofs.Renaming

/-!
# Tokens of texts that are put together

Where two texts meet, either no word goes on from the first into the second, and then the tokens
are those of both, or one does.  Then the last token of the first text and the first of the second
become one: its literal is theirs in a row, and what it stands for is found anew, so that two words
may make a connective, and a connective may become part of a word.  All other tokens are as before.

In the line of a formula there is a space between any two pieces, so that they never run into each
other.  The tokens of the line are those of the names, each read by itself, with the connectives
and the parentheses between them.

* `tokensOf s`            the tokens of a text, each with the place behind it;
* `moved k ts`            the same tokens with places that are `k` further on;
* `pulled_lexemes_run`    a run divides the tokens into those before it and those behind it;
* `exists_isRun_of_not_seam` the run that goes on where there is no seam;
* `tokensOf_append`       the tokens of two texts in a row;
* `bareTokensOf s`        the tokens of a text, without their places;
* `Formula.tokens rename f` the tokens that the line of a formula should have;
* `Formula.flatMap_bareTokensOf_pieces` its pieces have them;
* `Formula.bareTokensOf_write_eq` and so has the line, whatever the names are renamed to.
-/

namespace LicenseFormula

/-- the tokens of a text, each with the place behind it -/
def tokensOf (s : String) : List (Token × Nat) := pulled (Cursor.ofString s).lexemes

/-- the tokens, with places that are further on -/
def moved (k : Nat) (ts : List (Token × Nat)) : List (Token × Nat) :=
  ts.map fun t => (t.1, k + t.2)

/-- pulling yields the tokens of the text one by one, and then the end -/
theorem pulls_ofString (s : String) (n : Nat) : (Cursor.ofString s).pulls n
    = (tokensOf s)[n]?.getD (Token.finish, (Text.bytes s).length) :=
  Cursor.pulls_of_isIn (.ofString s) n

/-! ### tokens of bytes -/

theorem pulled_append (ps qs : List Placed) : pulled (ps ++ qs) = pulled ps ++ pulled qs :=
  List.map_append

theorem pulled_extend (bs : List UInt8) (ps : List Placed) :
    pulled (ps.map (Placed.extend bs)) = pulled ps := by
  rw [pulled, List.map_map]
  rfl

theorem pulled_lexemes_append {as bs : List UInt8} (h : Seam as bs) (k : Nat) :
    pulled (⟨k, as ++ bs⟩ : Cursor).lexemes
      = pulled (⟨k, as⟩ : Cursor).lexemes ++ pulled (⟨k + as.length, bs⟩ : Cursor).lexemes := by
  rw [Cursor.lexemes_append h, pulled_append, pulled_extend]

theorem pulled_lexemes_add (k n : Nat) (bs : List UInt8) :
    pulled (⟨k + n, bs⟩ : Cursor).lexemes = moved k (pulled (⟨n, bs⟩ : Cursor).lexemes) := by
  have hshift : (⟨k + n, bs⟩ : Cursor).lexemes = (⟨n, bs⟩ : Cursor).lexemes.map (Placed.shift k) :=
    Cursor.lexemes_shift k ⟨n, bs⟩
  rw [hshift, pulled, moved, pulled, List.map_map, List.map_map]
  rfl

/-- a run divides the tokens into those before it and those behind it -/
theorem pulled_lexemes_run {left ws right : List UInt8} (h : IsRun left right ws) (k : Nat) :
    pulled (⟨k, left ++ (ws ++ right)⟩ : Cursor).lexemes
      = pulled (⟨k, left⟩ : Cursor).lexemes
        ++ ((Lexeme.run ws).token, k + left.length + ws.length)
          :: pulled (⟨k + left.length + ws.length, right⟩ : Cursor).lexemes := by
  rw [pulled_lexemes_append (Seam.of_getLast h.left_stops),
    Cursor.lexemes_run _ h.ne_nil h.wordBytes h.right_stops]
  rfl

/-! ### runs at the ends of bytes -/

theorem exists_isRun_of_getLast {as : List UInt8} {a : UInt8} (ha : a ∈ as.getLast?)
    (hword : isWordByte a = true) : ∃ left ws, as = left ++ ws ∧ IsRun left [] ws := by
  have hsplit : as = as.rdropWhile isWordByte ++ as.rtakeWhile isWordByte :=
    List.rdropWhile_append_rtakeWhile.symm
  have hleft : ∀ b ∈ (as.rdropWhile isWordByte).getLast?, isWordByte b = false := by
    intro b hb
    obtain ⟨hne, rfl⟩ := List.mem_getLast?_eq_getLast hb
    exact Bool.eq_false_iff.mpr (List.rdropWhile_last_not isWordByte as hne)
  refine ⟨_, _, hsplit, ?_, fun b hb => List.mem_rtakeWhile_imp hb, hleft, by simp⟩
  intro hnil
  rw [hnil, List.append_nil] at hsplit
  rw [hsplit] at ha
  rw [hleft a ha] at hword
  cases hword

theorem exists_isRun_of_head {bs : List UInt8} {b : UInt8} (hb : b ∈ bs.head?)
    (hword : isWordByte b = true) : ∃ ws right, bs = ws ++ right ∧ IsRun [] right ws := by
  have hsplit : bs = bs.takeWhile isWordByte ++ bs.dropWhile isWordByte :=
    List.takeWhile_append_dropWhile.symm
  have hright := Cursor.head?_dropWhile_isWordByte bs
  refine ⟨_, _, hsplit, ?_, fun c hc => List.all_eq_true.mp List.all_takeWhile c hc, by simp,
    hright⟩
  intro hnil
  rw [hnil, List.nil_append] at hsplit
  rw [hsplit] at hb
  rw [hright b hb] at hword
  cases hword

/-- where there is no seam, a run at the end of the first bytes goes on into the second -/
theorem exists_isRun_of_not_seam {as bs : List UInt8} (h : ¬ Seam as bs) :
    ∃ left ws vs right, as = left ++ ws ∧ IsRun left [] ws ∧ bs = vs ++ right
      ∧ IsRun [] right vs := by
  obtain ⟨a, ha, b, hb, haw, hbw⟩ : ∃ a ∈ as.getLast?, ∃ b ∈ bs.head?,
      isWordByte a = true ∧ isWordByte b = true := by
    simpa [Seam] using h
  obtain ⟨left, ws, has, hws⟩ := exists_isRun_of_getLast ha haw
  obtain ⟨vs, right, hbs, hvs⟩ := exists_isRun_of_head hb hbw
  exact ⟨left, ws, vs, right, has, hws, hbs, hvs⟩

theorem IsRun.append {left right ws vs : List UInt8} (hw : IsRun left [] ws)
    (hv : IsRun [] right vs) : IsRun left right (ws ++ vs) where
  ne_nil := List.append_ne_nil_of_left_ne_nil hw.ne_nil vs
  wordBytes := List.forall_mem_append.mpr ⟨hw.wordBytes, hv.wordBytes⟩
  left_stops := hw.left_stops
  right_stops := hv.right_stops

theorem Lexeme.token_run_append (ws vs : List UInt8) : (run (ws ++ vs)).token
    = ⟨.ofWord ((run ws).text ++ (run vs).text), (run ws).text ++ (run vs).text⟩ := by
  have htext : (run (ws ++ vs)).text = (run ws).text ++ (run vs).text := by
    show String.ofList ((ws ++ vs).map Char.ofUInt8) = _
    rw [List.map_append, String.ofList_append]
    rfl
  rw [← htext]
  rfl

/-! ### texts -/

/-- Two texts in a row have the tokens of both, unless a word goes on from the first into the
second: then the last token of the first and the first of the second are one token, of both
literals in a row. -/
theorem tokensOf_append (a b : String) :
    (Seam (Text.bytes a) (Text.bytes b) →
      tokensOf (a ++ b) = tokensOf a ++ moved (Text.bytes a).length (tokensOf b))
    ∧ (¬ Seam (Text.bytes a) (Text.bytes b) →
      ∃ ts t u us, tokensOf a = ts ++ [t] ∧ tokensOf b = u :: us
        ∧ tokensOf (a ++ b) = ts
          ++ (⟨.ofWord (t.1.literal ++ u.1.literal), t.1.literal ++ u.1.literal⟩,
              (Text.bytes a).length + u.2)
            :: moved (Text.bytes a).length us) := by
  have htokens : ∀ s, tokensOf s = pulled (⟨0, Text.bytes s⟩ : Cursor).lexemes := fun _ => rfl
  rw [htokens, htokens, htokens, Text.bytes_append]
  constructor
  · intro h
    rw [pulled_lexemes_append h, Nat.zero_add, ← pulled_lexemes_add, Nat.add_zero]
  · intro h
    obtain ⟨left, ws, vs, right, ha, hws, hb, hvs⟩ := exists_isRun_of_not_seam h
    have hfirst := pulled_lexemes_run hws 0
    rw [List.append_nil, Cursor.lexemes_nil] at hfirst
    have hsecond : pulled (⟨0, vs ++ right⟩ : Cursor).lexemes = ((Lexeme.run vs).token, vs.length)
        :: pulled (⟨vs.length, right⟩ : Cursor).lexemes := by
      rw [Cursor.lexemes_run 0 hvs.ne_nil hvs.wordBytes hvs.right_stops, Nat.zero_add]
      rfl
    have hboth := pulled_lexemes_run (hws.append hvs) 0
    have hsize : 0 + left.length + (ws ++ vs).length = (left ++ ws).length + vs.length := by
      rw [List.length_append, List.length_append]
      omega
    rw [hsize, pulled_lexemes_add, Lexeme.token_run_append] at hboth
    rw [ha, hb]
    refine ⟨_, _, _, _, hfirst, hsecond, ?_⟩
    rw [List.append_assoc, ← List.append_assoc ws, hboth]
    rfl

theorem tokensOf_append_at_words :
    (Seam (Text.bytes "x or,") (Text.bytes "y")
      ∧ tokensOf ("x or," ++ "y") = tokensOf "x or," ++ moved 5 (tokensOf "y"))
    ∧ (¬ Seam (Text.bytes "(an") (Text.bytes "d b")
      ∧ tokensOf ("(an" ++ "d b")
        = [(⟨.opening .paren, "("⟩, 1), (⟨.connective .and, "and"⟩, 4), (⟨.word, "b"⟩, 6)]) := by
  have hseam : Seam (Text.bytes "x or,") (Text.bytes "y") := by
    intro x hx y _ hw
    obtain rfl := Option.some.inj hx
    cases hw
  have hjoined : ¬ Seam (Text.bytes "(an") (Text.bytes "d b") := by
    intro h
    cases h 0x6e rfl 0x64 rfl (by decide)
  refine ⟨⟨hseam, (tokensOf_append _ _).1 hseam⟩, hjoined, ?_⟩
  obtain ⟨ts, t, u, us, hts, hus, hboth⟩ := (tokensOf_append _ _).2 hjoined
  have hfirst : tokensOf "(an" = [(⟨.opening .paren, "("⟩, 1)] ++ [(⟨.word, "an"⟩, 3)] := by cbv
  have hsecond : tokensOf "d b" = [(⟨.word, "d"⟩, 1), (⟨.word, "b"⟩, 3)] := by cbv
  obtain ⟨rfl, ht⟩ := List.append_inj' (hts.symm.trans hfirst) rfl
  obtain ⟨rfl, rfl⟩ := List.cons.inj (hus.symm.trans hsecond)
  obtain rfl := List.singleton_inj.mp ht
  rw [hboth]
  cbv

example : tokensOf ("or" ++ "acle") = [(⟨.word, "oracle"⟩, 6)] := by
  cbv

/-! ### lines of formulas -/

/-- the tokens of a text, without their places -/
def bareTokensOf (s : String) : List Token := (tokensOf s).map Prod.fst

mutual

/-- the tokens of a formula: those of each name by itself, and what is written around them -/
def Formula.tokens (rename : String → String) : Formula → List Token
  | .last a => a.tokens rename
  | .join a c next => a.tokens rename ++ ⟨.connective c, c.text⟩ :: next.tokens rename

/-- the tokens of an operand: those of each name by itself, and what is written around them -/
def Operand.tokens (rename : String → String) : Operand → List Token
  | .name text => bareTokensOf (rename text)
  | .group inner =>
    ⟨.opening .paren, "("⟩ :: inner.tokens rename ++ [⟨.closing .paren, ")"⟩]

end

theorem bareTokensOf_eq (s : String) : bareTokensOf s = (lexemesOf s).map Lexeme.token := by
  rw [bareTokensOf, tokensOf, pulled, lexemesOf, List.map_map, List.map_map]
  rfl

theorem bareTokensOf_lineOf (ps : List String) :
    bareTokensOf (lineOf ps) = ps.flatMap bareTokensOf := by
  rw [bareTokensOf_eq, lexemesOf_lineOf, List.map_flatMap, funext bareTokensOf_eq]

theorem bareTokensOf_empty : bareTokensOf "" = [] := by
  rw [bareTokensOf_eq, lexemesOf_empty]
  rfl

theorem bareTokensOf_text (c : Connective) : bareTokensOf c.text = [⟨.connective c, c.text⟩] := by
  cases c <;> cbv

theorem bareTokensOf_opener : bareTokensOf "(" = [⟨.opening .paren, "("⟩] := by
  cbv

theorem bareTokensOf_closer : bareTokensOf ")" = [⟨.closing .paren, ")"⟩] := by
  cbv

section

variable (rename : String → String)

mutual

theorem Formula.flatMap_bareTokensOf_pieces (f : Formula) :
    (f.pieces rename).flatMap bareTokensOf = f.tokens rename := by
  match f with
  | .last a => exact a.flatMap_bareTokensOf_pieces
  | .join a c next =>
    rw [Formula.pieces_join, List.flatMap_append, List.flatMap_cons, bareTokensOf_text,
      a.flatMap_bareTokensOf_pieces, next.flatMap_bareTokensOf_pieces]
    rfl

theorem Operand.flatMap_bareTokensOf_pieces (a : Operand) :
    (a.pieces rename).flatMap bareTokensOf = a.tokens rename := by
  match a with
  | .name text => exact Operand.flatMap_pieces_name bareTokensOf_empty rename text
  | .group inner =>
    rw [Operand.pieces_group, List.flatMap_append, List.flatMap_cons, List.flatMap_singleton,
      bareTokensOf_opener, bareTokensOf_closer, inner.flatMap_bareTokensOf_pieces]
    rfl

end

theorem Formula.bareTokensOf_write (f : Formula) :
    bareTokensOf (f.write rename) = f.tokens rename := by
  rw [Formula.write, bareTokensOf_lineOf, f.flatMap_bareTokensOf_pieces]

end

/-- The tokens of the line of a formula are those of its names, each renamed and read by itself,
with the connectives and the parentheses of the formula between them.  The new names may be any
texts, and the renaming may keep a state; without a renaming the names are what they are. -/
theorem Formula.bareTokensOf_write_eq (f : Formula) :
    (∀ rename : String → String, bareTokensOf (f.write rename) = f.tokens rename)
    ∧ (∀ {σ : Type} (rename : String → StateM σ String) (state : σ),
      bareTokensOf ((f.writeM rename).run state).1 = (f.renamed rename state).tokens id)
    ∧ bareTokensOf f.text = f.tokens id := by
  refine ⟨fun rename => f.bareTokensOf_write rename, fun rename state => ?_,
    f.bareTokensOf_write id⟩
  rw [f.run_writeM]
  exact (f.renamed rename state).bareTokensOf_write id

example : bareTokensOf ((Formula.join (.name "o") .or (.ofGroup (.ofName ""))).write (· ++ "r\x7d"))
    = [⟨.connective .or, "or"⟩, ⟨.closing .brace, "\x7d"⟩, ⟨.connective .or, "OR"⟩,
      ⟨.opening .paren, "("⟩, ⟨.word, "r"⟩, ⟨.closing .brace, "\x7d"⟩,
      ⟨.closing .paren, ")"⟩] := by
  cbv

end LicenseFormula
