import LicenseFormula.Proofs.Sessions
import LicenseFormula.Proofs.Words

/-!
# Tokens that cover a text

The tokens of a text cover its bytes: each is made of the bytes from its first one up to the place
behind it, they come one behind the other in order, and all that is between them is blank.  What a
token is made of says which one it is, and a run of word bytes is taken whole.  There is only one
way to cover bytes like this, and pulling one token after the other finds it.

* `IsRun left right ws`         the bytes `ws` are a run that goes on neither to the left nor right;
* `Makes left right bs t`       the bytes `bs` make the token `t` where they stand;
* `Cover before bs ts`          the tokens `ts`, each with the place behind it, cover `bs`;
* `cover_lexemes`               the lexemes of bytes cover them;
* `Cover.eq_lexemes`            nothing else does;
* `Cursor.pulls c n`            the token that is pulled behind `n` others;
* `Cursor.pulls_of_isIn`        what is pulled are the lexemes, one by one, and then the end;
* `Cursor.pulled_cover`         all of this for texts.
-/

namespace LicenseFormula

/-! ### what covers bytes -/

/-- space, tab, line feed or carriage return -/
def IsBlank (b : UInt8) : Prop := b ∈ [0x20, 0x09, 0x0a, 0x0d]

/-- the texts are the same but for the casing of their ASCII letters -/
def SameLetters (s t : String) : Prop := s.toList.map Char.toUpper = t.toList.map Char.toUpper

/-- a run of word bytes, which goes on neither into the bytes before nor into those behind it -/
structure IsRun (left right ws : List UInt8) : Prop where
  ne_nil : ws ≠ []
  wordBytes : ∀ b ∈ ws, isWordByte b = true
  left_stops : ∀ b ∈ left.getLast?, isWordByte b = false
  right_stops : ∀ b ∈ right.head?, isWordByte b = false

/-- the token that bytes make between those before and those behind them -/
inductive Makes (left right : List UInt8) : List UInt8 → Token → Prop where
  | opening (k : Bracket) : Makes left right [k.opener.toUInt8] ⟨.opening k, k.opener.toString⟩
  | closing (k : Bracket) : Makes left right [k.closer.toUInt8] ⟨.closing k, k.closer.toString⟩
  | word {literal : String} : IsRun left right (Text.bytes literal) →
    (∀ c : Connective, ¬ SameLetters literal c.text) →
      Makes left right (Text.bytes literal) ⟨.word, literal⟩
  | connective {literal : String} {c : Connective} : IsRun left right (Text.bytes literal) →
    SameLetters literal c.text → Makes left right (Text.bytes literal) ⟨.connective c, literal⟩
  | stray {b : UInt8} : ¬ IsBlank b → isWordByte b = false →
    (∀ k : Bracket, b ≠ k.opener.toUInt8 ∧ b ≠ k.closer.toUInt8) →
      Makes left right [b] ⟨.stray, (Char.ofUInt8 b).toString⟩

/-- the tokens, each with the place behind it, cover the bytes that stand behind those before -/
inductive Cover : List UInt8 → List UInt8 → List (Token × Nat) → Prop where
  | finish {before bs : List UInt8} : (∀ b ∈ bs, IsBlank b) → Cover before bs []
  | token {before gap bs rest : List UInt8} {t : Token} {ts : List (Token × Nat)} :
    (∀ b ∈ gap, IsBlank b) → Makes (before ++ gap) rest bs t →
      Cover (before ++ gap ++ bs) rest ts →
        Cover before (gap ++ (bs ++ rest)) ((t, (before ++ gap ++ bs).length) :: ts)

/-! ### classes of bytes and kinds of words -/

theorem ByteClass.of_eq_blank_iff (b : UInt8) : ByteClass.of b = .blank ↔ IsBlank b :=
  forall_byte_lt (n := 256)
    (p := fun b => ByteClass.of b = .blank ↔ b ∈ [(0x20 : UInt8), 0x09, 0x0a, 0x0d])
    (by decide +kernel) b b.toNat_lt

theorem ByteClass.of_opener (k : Bracket) : ByteClass.of k.opener.toUInt8 = .opening k := by
  cases k <;> rfl

theorem ByteClass.of_closer (k : Bracket) : ByteClass.of k.closer.toUInt8 = .closing k := by
  cases k <;> rfl

theorem ByteClass.of_eq_stray_iff (b : UInt8) : ByteClass.of b = .stray ↔
    ¬ IsBlank b ∧ isWordByte b = false
      ∧ ∀ k : Bracket, b ≠ k.opener.toUInt8 ∧ b ≠ k.closer.toUInt8 := by
  rw [← of_eq_blank_iff]
  constructor
  · intro h
    refine ⟨fun hb => ?_, ?_, fun k => ⟨?_, ?_⟩⟩
    · cases hb.symm.trans h
    · rw [isWordByte, h]
      rfl
    · rintro rfl
      cases (of_opener k).symm.trans h
    · rintro rfl
      cases (of_closer k).symm.trans h
  · rintro ⟨hblank, hword, hbracket⟩
    cases hb : ByteClass.of b with
    | blank => exact absurd hb hblank
    | word => rw [isWordByte_iff.mpr hb] at hword; cases hword
    | opening k => exact absurd (eq_opener hb) (hbracket k).1
    | closing k => exact absurd (eq_closer hb) (hbracket k).2
    | stray => rfl

theorem sameLetters_text_iff (s : String) (c : Connective) :
    SameLetters s c.text ↔ Connective.ofText? s = some c := by
  have hupper : c.text.toList.map Char.toUpper = c.text.toList := by
    cases c <;> decide
  rw [SameLetters, hupper, Connective.ofText?_eq_some_iff]

/-! ### lexemes cover bytes -/

theorem makes_of_ofByte? {b : UInt8} {l : Lexeme} (h : Lexeme.ofByte? b = some l)
    (left right : List UInt8) : Makes left right [b] l.token := by
  unfold Lexeme.ofByte? at h
  split at h
  · next k hb =>
    obtain rfl := Option.some.inj h
    rw [ByteClass.eq_opener hb, Lexeme.token, Lexeme.text_opening]
    exact .opening k
  · next k hb =>
    obtain rfl := Option.some.inj h
    rw [ByteClass.eq_closer hb, Lexeme.token, Lexeme.text_closing]
    exact .closing k
  · next hb =>
    obtain rfl := Option.some.inj h
    obtain ⟨hblank, hword, hbracket⟩ := (ByteClass.of_eq_stray_iff b).mp hb
    exact .stray hblank hword hbracket
  · cases h

theorem makes_of_isRun {left right ws : List UInt8} (h : IsRun left right ws) :
    Makes left right ws (Lexeme.run ws).token := by
  have hbytes := Lexeme.bytes_text_run h.wordBytes
  have hkind : (Lexeme.run ws).token
      = ⟨Token.Kind.ofWord (Lexeme.run ws).text, (Lexeme.run ws).text⟩ := rfl
  rw [← hbytes] at h
  have hmakes : Makes left right (Text.bytes (Lexeme.run ws).text)
      ⟨Token.Kind.ofWord (Lexeme.run ws).text, (Lexeme.run ws).text⟩ := by
    unfold Token.Kind.ofWord
    split
    · next c hc => exact .connective h ((sameLetters_text_iff _ c).mpr hc)
    · next hnone =>
      refine .word h fun c hc => ?_
      rw [sameLetters_text_iff, hnone] at hc
      cases hc
  rwa [hbytes, ← hkind] at hmakes

theorem Cover.blank {before bs : List UInt8} {b : UInt8} {ts : List (Token × Nat)}
    (hb : IsBlank b) (h : Cover (before ++ [b]) bs ts) : Cover before (b :: bs) ts := by
  cases h with
  | finish hbs => exact .finish (List.forall_mem_cons.mpr ⟨hb, hbs⟩)
  | @token _ gap bs rest t ts hgap hmakes hrest =>
    have hleft : before ++ [b] ++ gap = before ++ b :: gap := by
      rw [List.append_assoc, List.singleton_append]
    rw [hleft] at hmakes hrest ⊢
    exact .token (List.forall_mem_cons.mpr ⟨hb, hgap⟩) hmakes hrest

/-- a token without blanks before it -/
theorem Cover.token_here {before bs rest : List UInt8} {t : Token} {ts : List (Token × Nat)}
    (hmakes : Makes before rest bs t) (h : Cover (before ++ bs) rest ts) :
    Cover before (bs ++ rest) ((t, before.length + bs.length) :: ts) := by
  have hnone : ∀ b ∈ ([] : List UInt8), IsBlank b := fun _ hb => nomatch hb
  rw [← List.append_nil before] at hmakes
  have hcover := @Cover.token before [] bs rest t ts hnone hmakes (by rwa [List.append_nil])
  rwa [List.nil_append, List.append_nil, List.length_append] at hcover

theorem Lexeme.isWordByte_of_ofByte? {b : UInt8} {l : Lexeme} (h : ofByte? b = some l) :
    isWordByte b = false := by
  unfold ofByte? at h
  rw [isWordByte]
  split at h
  · next hb => rw [hb]; rfl
  · next hb => rw [hb]; rfl
  · next hb => rw [hb]; rfl
  · cases h

theorem Seam.concat {b : UInt8} (hb : isWordByte b = false) (before bs : List UInt8) :
    Seam (before ++ [b]) bs := by
  refine Seam.of_getLast fun a ha => ?_
  rw [List.getLast?_concat] at ha
  obtain rfl := Option.some.inj ha
  exact hb

/-- where a run begins at a seam, it is not the rest of a longer one -/
theorem Seam.left_stops {before ws bs : List UInt8} (h : Seam before (ws ++ bs)) (hne : ws ≠ [])
    (hws : ∀ b ∈ ws, isWordByte b = true) : ∀ a ∈ before.getLast?, isWordByte a = false := by
  intro a ha
  cases ws with
  | nil => exact absurd rfl hne
  | cons w ws =>
    cases ha' : isWordByte a with
    | false => rfl
    | true => exact (hws w List.mem_cons_self).symm.trans (h a ha w rfl ha')

/-- the tokens of lexemes, each with the place behind it -/
def pulled (ps : List Placed) : List (Token × Nat) :=
  ps.map fun p => (p.lexeme.token, p.after.offset)

theorem cover_lexemes {before bs : List UInt8} (h : Seam before bs) :
    Cover before bs (pulled (⟨before.length, bs⟩ : Cursor).lexemes) := by
  induction bs using Cursor.lexing_induction generalizing before with
  | nil =>
    rw [Cursor.lexemes_nil]
    exact .finish fun _ hb => nomatch hb
  | blank b bs hb ih =>
    have hword : isWordByte b = false := by
      rw [isWordByte, hb]
      rfl
    have hcover := ih (Seam.concat hword before bs)
    rw [List.length_append, List.length_singleton] at hcover
    rw [Cursor.lexemes_blank _ bs hb]
    exact hcover.blank ((ByteClass.of_eq_blank_iff b).mp hb)
  | single b l bs hl ih =>
    have hcover := ih (Seam.concat (Lexeme.isWordByte_of_ofByte? hl) before bs)
    rw [List.length_append, List.length_singleton] at hcover
    rw [Cursor.lexemes_single _ bs hl]
    exact .token_here (makes_of_ofByte? hl before bs) hcover
  | run ws bs hne hws hbs ih =>
    have hrun : IsRun before bs ws := ⟨hne, hws, h.left_stops hne hws, hbs⟩
    have hseam : Seam (before ++ ws) bs := Seam.of_head hbs
    have hcover := ih hseam
    rw [List.length_append] at hcover
    rw [Cursor.lexemes_run _ hne hws hbs]
    exact .token_here (makes_of_isRun hrun) hcover

/-! ### nothing else covers them -/

namespace Cursor

theorem lexemes_gap (k : Nat) {gap : List UInt8} (hgap : ∀ b ∈ gap, IsBlank b)
    (bs : List UInt8) :
    (⟨k, gap ++ bs⟩ : Cursor).lexemes = (⟨k + gap.length, bs⟩ : Cursor).lexemes := by
  induction gap generalizing k with
  | nil => rfl
  | cons b gap ih =>
    obtain ⟨hb, hgap⟩ := List.forall_mem_cons.mp hgap
    rw [List.cons_append, lexemes_blank k _ ((ByteClass.of_eq_blank_iff b).mpr hb), ih _ hgap,
      List.length_cons, Nat.add_right_comm, Nat.add_assoc]

theorem lexemes_of_makes {left right bs : List UInt8} {t : Token} (h : Makes left right bs t)
    (k : Nat) : ∃ l : Lexeme, l.token = t ∧ (⟨k, bs ++ right⟩ : Cursor).lexemes
      = ⟨k, l, ⟨k + bs.length, right⟩⟩ :: (⟨k + bs.length, right⟩ : Cursor).lexemes := by
  have hword : ∀ {literal : String}, IsRun left right (Text.bytes literal) →
      (Lexeme.run (Text.bytes literal)).text = literal := fun h =>
    Text.bytes_injective (Lexeme.bytes_text_run h.wordBytes)
  cases h with
  | opening b =>
    refine ⟨.opening b, by rw [Lexeme.token, Lexeme.text_opening]; rfl, lexemes_single k right ?_⟩
    rw [Lexeme.ofByte?, ByteClass.of_opener]
  | closing b =>
    refine ⟨.closing b, by rw [Lexeme.token, Lexeme.text_closing]; rfl, lexemes_single k right ?_⟩
    rw [Lexeme.ofByte?, ByteClass.of_closer]
  | @word literal hrun hletters =>
    refine ⟨.run (Text.bytes literal), ?_,
      lexemes_run k hrun.ne_nil hrun.wordBytes hrun.right_stops⟩
    have hnone : Connective.ofText? literal = none := by
      cases hc : Connective.ofText? literal with
      | none => rfl
      | some c => exact absurd ((sameLetters_text_iff literal c).mpr hc) (hletters c)
    rw [Lexeme.token, Lexeme.kind, hword hrun, Token.Kind.ofWord, hnone]
  | @connective literal c hrun hletters =>
    refine ⟨.run (Text.bytes literal), ?_,
      lexemes_run k hrun.ne_nil hrun.wordBytes hrun.right_stops⟩
    rw [Lexeme.token, Lexeme.kind, hword hrun, Token.Kind.ofWord,
      (sameLetters_text_iff literal c).mp hletters]
  | @stray b hblank hbyte hbracket =>
    refine ⟨.stray b, by rw [Char.toString_eq_singleton]; rfl, lexemes_single k right ?_⟩
    rw [Lexeme.ofByte?, (ByteClass.of_eq_stray_iff b).mpr ⟨hblank, hbyte, hbracket⟩]

end Cursor

theorem Cover.eq_lexemes {before bs : List UInt8} {ts : List (Token × Nat)}
    (h : Cover before bs ts) : ts = pulled (⟨before.length, bs⟩ : Cursor).lexemes := by
  induction h with
  | @finish before bs hbs =>
    have hgap := Cursor.lexemes_gap before.length hbs []
    rw [List.append_nil] at hgap
    rw [hgap, Cursor.lexemes_nil]
    rfl
  | @token before gap bs rest t ts hgap hmakes _ ih =>
    obtain ⟨l, rfl, hl⟩ := Cursor.lexemes_of_makes hmakes (before.length + gap.length)
    rw [Cursor.lexemes_gap before.length hgap, hl, ih, List.length_append, List.length_append]
    rfl

/-! ### tokens that are pulled -/

namespace Cursor

theorem length_lexemes_le (c : Cursor) : c.lexemes.length ≤ c.rest.length := by
  obtain ⟨k, bs⟩ := c
  show (⟨k, bs⟩ : Cursor).lexemes.length ≤ bs.length
  induction bs using lexing_induction generalizing k with
  | nil => rw [lexemes_nil]; exact Nat.le_refl _
  | blank b bs hb ih =>
    rw [lexemes_blank k bs hb]
    exact Nat.le_succ_of_le (ih (k + 1))
  | single b l bs hl ih =>
    rw [lexemes_single k bs hl]
    exact Nat.succ_le_succ (ih (k + 1))
  | run ws bs hne hws hbs ih =>
    have hpos := List.length_pos_iff.mpr hne
    have hrest := ih (k + ws.length)
    rw [lexemes_run k hne hws hbs, List.length_cons, List.length_append]
    omega

theorem pull_of_lexemes_eq_cons {c : Cursor} {p : Placed} {ps : List Placed}
    (h : c.lexemes = p :: ps) : c.pull = (p.lexeme.token, p.after) ∧ p.after.lexemes = ps := by
  rw [pull]
  cases hp : c.next? with
  | none =>
    rw [lexemes_of_next?_eq_none hp] at h
    cases h
  | some q =>
    rw [lexemes_of_next?_eq_some hp] at h
    obtain ⟨rfl, rfl⟩ := List.cons.inj h
    exact ⟨rfl, rfl⟩

theorem pull_of_lexemes_eq_nil {c : Cursor} (h : c.lexemes = []) :
    c.pull = (Token.finish, c.toEnd) := by
  rw [pull]
  cases hp : c.next? with
  | none => rfl
  | some q =>
    rw [lexemes_of_next?_eq_some hp] at h
    cases h

theorem lexemes_skip (c : Cursor) (n : Nat) : (c.skip n).lexemes = c.lexemes.drop n := by
  induction n generalizing c with
  | zero => rfl
  | succ n ih =>
    rw [skip, ih]
    cases hc : c.lexemes with
    | nil =>
      rw [pull_of_lexemes_eq_nil hc, toEnd, lexemes_nil, List.drop_nil, List.drop_nil]
    | cons p ps =>
      obtain ⟨hpull, hafter⟩ := pull_of_lexemes_eq_cons hc
      rw [hpull, hafter, List.drop_succ_cons]

/-- the token that is pulled from the cursor behind `n` others, with the place behind it -/
def pulls (c : Cursor) (n : Nat) : Token × Nat := ((c.skip n).pull.1, (c.skip n).pull.2.offset)

theorem pulls_of_isIn {c : Cursor} {bs : List UInt8} (h : c.IsIn bs) (n : Nat) :
    c.pulls n = (pulled c.lexemes)[n]?.getD (Token.finish, bs.length) := by
  have hskip := c.lexemes_skip n
  rw [pulls, pulled, List.getElem?_map]
  cases hn : c.lexemes[n]? with
  | none =>
    rw [List.drop_eq_nil_of_le (List.getElem?_eq_none_iff.mp hn)] at hskip
    rw [pull_of_lexemes_eq_nil hskip, (h.skip n).offset_toEnd]
    rfl
  | some p =>
    obtain ⟨hlt, hp⟩ := List.getElem?_eq_some_iff.mp hn
    rw [List.drop_eq_getElem_cons hlt, hp] at hskip
    rw [(pull_of_lexemes_eq_cons hskip).1]
    rfl

theorem isFinish_of_mem_pulled {ps : List Placed} {t : Token × Nat} (h : t ∈ pulled ps) :
    t.1.isFinish = false := by
  obtain ⟨p, _, rfl⟩ := List.mem_map.mp h
  exact decide_eq_false p.lexeme.kind_ne_finish

/-- Some tokens cover the bytes of a text, no others do, and they are not more than the bytes.  None
of them is the one that ends a text.  Pulling gives them one behind the other, each with the place
behind its bytes, and from then on nothing but the end. -/
theorem pulled_cover (s : String) : ∃ ts : List (Token × Nat),
    (∀ us, Cover [] (Text.bytes s) us ↔ us = ts) ∧ ts.length ≤ (Text.bytes s).length
      ∧ (∀ t ∈ ts, t.1.isFinish = false)
      ∧ ∀ n, (ofString s).pulls n = ts[n]?.getD (Token.finish, (Text.bytes s).length) := by
  have hseam : Seam [] (Text.bytes s) := fun _ ha => nomatch ha
  refine ⟨pulled (ofString s).lexemes, fun us => ⟨Cover.eq_lexemes, ?_⟩, ?_,
    fun t => isFinish_of_mem_pulled, pulls_of_isIn (.ofString s)⟩
  · rintro rfl
    exact cover_lexemes hseam
  · rw [pulled, List.length_map]
    exact (ofString s).length_lexemes_le

example : (List.range 5).map (ofString "Or\t(é").pulls = [(⟨.connective .or, "Or"⟩, 2),
    (⟨.opening .paren, "("⟩, 4), (⟨.stray, "Ã"⟩, 5), (⟨.stray, "©"⟩, 6), (Token.finish, 6)] := by
  cbv

end Cursor

end LicenseFormula
