import LicenseFormula.Formula.Text
import LicenseFormula.Proofs.Ascii
import LicenseFormula.Symbol

/-!
# Lexemes of bytes in a row

The bytes of a text are taken apart from the left: a blank is passed over, a bracket or a stray
byte is a lexeme, and a run of word bytes is one up to its end.  What stands before a cursor does
not matter, and what stands behind it matters only when it makes a run longer.

* `Cursor.lexing_induction`      a property of bytes is proved along their lexemes;
* `Seam as bs`                   no run goes on from `as` into `bs`;
* `Cursor.lexemes_append`        the lexemes of bytes in a row, where they meet at a seam;
* `lexemesOf_lineOf`             the lexemes of a line are those of its pieces;
* `Cursor.proper_of_mem_lexemes` a run holds word bytes only, and at least one;
* `Cursor.exists_gap_of_nextFrom` blanks before a lexeme, its bytes and what follows are the bytes;
* `Cursor.exists_split_of_mem_lexemes` so each lexeme is where it is said to be;
* `filterMap_edge?_symbolsOf`    the brackets among the symbols of a text are those of the text.
-/

namespace LicenseFormula

/-- the lexeme that a byte is by itself -/
def Lexeme.ofByte? (b : UInt8) : Option Lexeme :=
  match ByteClass.of b with
  | .opening k => some (.opening k)
  | .closing k => some (.closing k)
  | .stray => some (.stray b)
  | _ => none

namespace Cursor

/-! ### equations, one for each way to begin -/

theorem lexemes_nil (k : Nat) : (⟨k, []⟩ : Cursor).lexemes = [] :=
  lexemes_of_next?_eq_none rfl

theorem lexemes_blank (k : Nat) {b : UInt8} (bs : List UInt8) (hb : ByteClass.of b = .blank) :
    (⟨k, b :: bs⟩ : Cursor).lexemes = (⟨k + 1, bs⟩ : Cursor).lexemes := by
  have hn : (⟨k, b :: bs⟩ : Cursor).next? = (⟨k + 1, bs⟩ : Cursor).next? := by
    show nextFrom k (b :: bs) = nextFrom (k + 1) bs
    rw [nextFrom, hb]
  cases h : (⟨k + 1, bs⟩ : Cursor).next? with
  | none => rw [lexemes_of_next?_eq_none h, lexemes_of_next?_eq_none (hn.trans h)]
  | some p => rw [lexemes_of_next?_eq_some h, lexemes_of_next?_eq_some (hn.trans h)]

theorem lexemes_single (k : Nat) {b : UInt8} {l : Lexeme} (bs : List UInt8)
    (hl : Lexeme.ofByte? b = some l) :
    (⟨k, b :: bs⟩ : Cursor).lexemes = ⟨k, l, ⟨k + 1, bs⟩⟩ :: (⟨k + 1, bs⟩ : Cursor).lexemes := by
  refine lexemes_of_next?_eq_some ?_
  show nextFrom k (b :: bs) = _
  unfold Lexeme.ofByte? at hl
  rw [nextFrom]
  split at hl
  · next h => rw [h, ← Option.some.inj hl]
  · next h => rw [h, ← Option.some.inj hl]
  · next h => rw [h, ← Option.some.inj hl]
  · cases hl

theorem lexemes_run (k : Nat) {ws bs : List UInt8} (hne : ws ≠ [])
    (hws : ∀ b ∈ ws, isWordByte b = true) (hbs : ∀ b ∈ bs.head?, isWordByte b = false) :
    (⟨k, ws ++ bs⟩ : Cursor).lexemes
      = ⟨k, .run ws, ⟨k + ws.length, bs⟩⟩ :: (⟨k + ws.length, bs⟩ : Cursor).lexemes := by
  cases ws with
  | nil => exact absurd rfl hne
  | cons b ws =>
    have hb : ByteClass.of b = .word := isWordByte_iff.mp (hws b List.mem_cons_self)
    have htail : ∀ c ∈ ws, isWordByte c = true := fun c hc => hws c (List.mem_cons_of_mem _ hc)
    have hstop : bs.takeWhile isWordByte = [] ∧ bs.dropWhile isWordByte = bs := by
      cases bs with
      | nil => exact ⟨rfl, rfl⟩
      | cons c bs =>
        have hc : ¬ isWordByte c = true := by rw [hbs c rfl]; exact Bool.false_ne_true
        exact ⟨List.takeWhile_cons_of_neg hc, List.dropWhile_cons_of_neg hc⟩
    refine lexemes_of_next?_eq_some ?_
    show nextFrom k (b :: (ws ++ bs)) = _
    rw [nextFrom, hb]
    simp only [List.takeWhile_append_of_pos htail, List.dropWhile_append_of_pos htail, hstop.1,
      hstop.2, List.append_nil]

theorem head?_dropWhile_isWordByte (bs : List UInt8) :
    ∀ b ∈ (bs.dropWhile isWordByte).head?, isWordByte b = false := by
  intro b hb
  have hnot := List.head?_dropWhile_not isWordByte bs
  rw [hb] at hnot
  exact hnot

/-- a property of bytes is proved along their lexemes -/
@[elab_as_elim]
theorem lexing_induction {P : List UInt8 → Prop} (bs : List UInt8) (nil : P [])
    (blank : ∀ b bs, ByteClass.of b = .blank → P bs → P (b :: bs))
    (single : ∀ b l bs, Lexeme.ofByte? b = some l → P bs → P (b :: bs))
    (run : ∀ ws bs, ws ≠ [] → (∀ b ∈ ws, isWordByte b = true) →
      (∀ b ∈ bs.head?, isWordByte b = false) → P bs → P (ws ++ bs)) : P bs := by
  match bs with
  | [] => exact nil
  | b :: bs =>
    have ih : P bs := lexing_induction bs nil blank single run
    match hb : ByteClass.of b with
    | .blank => exact blank b bs hb ih
    | .opening k => exact single b (.opening k) bs (by rw [Lexeme.ofByte?, hb]) ih
    | .closing k => exact single b (.closing k) bs (by rw [Lexeme.ofByte?, hb]) ih
    | .stray => exact single b (.stray b) bs (by rw [Lexeme.ofByte?, hb]) ih
    | .word =>
      have hrest : P (bs.dropWhile isWordByte) := lexing_induction _ nil blank single run
      have hws : ∀ c ∈ b :: bs.takeWhile isWordByte, isWordByte c = true := by
        intro c hc
        rcases List.mem_cons.mp hc with rfl | hc
        · exact isWordByte_iff.mpr hb
        · exact List.all_eq_true.mp List.all_takeWhile c hc
      have hstop := head?_dropWhile_isWordByte bs
      have hbs := run _ _ (List.cons_ne_nil _ _) hws hstop hrest
      rwa [List.cons_append, List.takeWhile_append_dropWhile] at hbs
termination_by bs.length
decreasing_by
  · exact Nat.lt_succ_self _
  · exact Nat.lt_succ_of_le (List.dropWhile_suffix _).length_le

/-! ### what stands before and behind -/

theorem lexeme_lexemes (k : Nat) (bs : List UInt8) :
    (⟨k, bs⟩ : Cursor).lexemes.map Placed.lexeme
      = (⟨0, bs⟩ : Cursor).lexemes.map Placed.lexeme := by
  suffices h : ∀ k n, (⟨k, bs⟩ : Cursor).lexemes.map Placed.lexeme
      = (⟨n, bs⟩ : Cursor).lexemes.map Placed.lexeme from h k 0
  induction bs using lexing_induction with
  | nil => intro k n; rw [lexemes_nil, lexemes_nil]
  | blank b bs hb ih => intro k n; rw [lexemes_blank k bs hb, lexemes_blank n bs hb, ih]
  | single b l bs hl ih =>
    intro k n
    rw [lexemes_single k bs hl, lexemes_single n bs hl, List.map_cons, List.map_cons,
      ih (k + 1) (n + 1)]
  | run ws bs hne hws hbs ih =>
    intro k n
    rw [lexemes_run k hne hws hbs, lexemes_run n hne hws hbs, List.map_cons, List.map_cons,
      ih (k + ws.length) (n + ws.length)]

end Cursor

/-- no run goes on from the first bytes into the second -/
def Seam (as bs : List UInt8) : Prop :=
  ∀ a ∈ as.getLast?, ∀ b ∈ bs.head?, isWordByte a = true → isWordByte b = false

namespace Seam

theorem of_append {as cs bs : List UInt8} (h : Seam (as ++ cs) bs) : Seam cs bs := by
  intro c hc
  refine h c ?_
  rw [Option.mem_def] at hc ⊢
  rw [List.getLast?_append, hc, Option.some_or]

theorem of_cons {a : UInt8} {as bs : List UInt8} (h : Seam (a :: as) bs) : Seam as bs := by
  rw [← List.singleton_append] at h
  exact h.of_append

theorem of_head {as bs : List UInt8} (h : ∀ b ∈ bs.head?, isWordByte b = false) : Seam as bs :=
  fun _ _ b hb _ => h b hb

theorem of_getLast {as bs : List UInt8} (h : ∀ a ∈ as.getLast?, isWordByte a = false) :
    Seam as bs := by
  intro a ha b _ hw
  rw [h a ha] at hw
  cases hw

end Seam

/-- the lexeme with more bytes behind the text -/
def Placed.extend (bs : List UInt8) (p : Placed) : Placed :=
  { p with after := ⟨p.after.offset, p.after.rest ++ bs⟩ }

theorem Cursor.lexemes_append {as bs : List UInt8} (h : Seam as bs) (k : Nat) :
    (⟨k, as ++ bs⟩ : Cursor).lexemes
      = (⟨k, as⟩ : Cursor).lexemes.map (Placed.extend bs)
        ++ (⟨k + as.length, bs⟩ : Cursor).lexemes := by
  induction as using lexing_induction generalizing k with
  | nil => rw [lexemes_nil]; rfl
  | blank a as ha ih =>
    have hk : k + (a :: as).length = k + 1 + as.length := by rw [List.length_cons]; omega
    rw [List.cons_append, lexemes_blank k _ ha, lexemes_blank k _ ha, ih h.of_cons, hk]
  | single a l as hl ih =>
    have hk : k + (a :: as).length = k + 1 + as.length := by rw [List.length_cons]; omega
    rw [List.cons_append, lexemes_single k _ hl, lexemes_single k _ hl, ih h.of_cons, hk]
    rfl
  | run ws as hne hws has ih =>
    -- the seam is needed only for a run at the end: elsewhere the run stops inside the first bytes
    have hstop : ∀ b ∈ (as ++ bs).head?, isWordByte b = false := by
      cases as with
      | cons a as => exact has
      | nil =>
        intro b hb
        rw [List.append_nil] at h
        exact h _ (List.getLast?_eq_some_getLast hne) b hb (hws _ (List.getLast_mem hne))
    have hk : k + (ws ++ as).length = k + ws.length + as.length := by
      rw [List.length_append, Nat.add_assoc]
    rw [List.append_assoc, lexemes_run k hne hws hstop, lexemes_run k hne hws has,
      ih h.of_append, hk]
    rfl

/-! ### lexemes of a text -/

/-- the lexemes of a text, without their places -/
def lexemesOf (s : String) : List Lexeme := (Cursor.ofString s).lexemes.map Placed.lexeme

theorem symbolsOf_eq (s : String) :
    symbolsOf s = (lexemesOf s).filterMap fun l => l.token.symbol? := by
  rw [lexemesOf, List.filterMap_map]
  rfl

theorem lexemesOf_append {s t : String} (h : Seam (Text.bytes s) (Text.bytes t)) :
    lexemesOf (s ++ t) = lexemesOf s ++ lexemesOf t := by
  show (⟨0, Text.bytes (s ++ t)⟩ : Cursor).lexemes.map Placed.lexeme = _
  rw [Text.bytes_append, Cursor.lexemes_append h, List.map_append, List.map_map,
    Cursor.lexeme_lexemes (0 + _)]
  rfl

theorem lexemesOf_append_space (s t : String) :
    lexemesOf (s ++ " " ++ t) = lexemesOf s ++ lexemesOf t := by
  have hspace : Text.bytes " " = [0x20] := rfl
  have hseam : Seam (Text.bytes s) (Text.bytes " ") := by
    refine Seam.of_head fun b hb => ?_
    rw [hspace] at hb
    obtain rfl := Option.some.inj hb
    rfl
  have hseam' : Seam (Text.bytes (s ++ " ")) (Text.bytes t) := by
    refine Seam.of_getLast fun b hb => ?_
    rw [Text.bytes_append, hspace, List.getLast?_append] at hb
    obtain rfl := Option.some.inj hb
    rfl
  have hnone : lexemesOf " " = [] := by
    show (⟨0, [0x20]⟩ : Cursor).lexemes.map Placed.lexeme = []
    rw [Cursor.lexemes_blank 0 [] rfl, Cursor.lexemes_nil]
    rfl
  rw [lexemesOf_append hseam', lexemesOf_append hseam, hnone, List.append_nil]

theorem lexemesOf_empty : lexemesOf "" = [] := by
  show (⟨0, []⟩ : Cursor).lexemes.map Placed.lexeme = []
  rw [Cursor.lexemes_nil]
  rfl

theorem lexemesOf_lineOf (ps : List String) : lexemesOf (lineOf ps) = ps.flatMap lexemesOf := by
  match ps with
  | [] => exact lexemesOf_empty
  | [p] => rw [lineOf_singleton, List.flatMap_singleton]
  | p :: q :: ps =>
    rw [lineOf_cons_cons, lexemesOf_append_space, lexemesOf_lineOf (q :: ps)]
    rfl

/-- a name that is renamed to nothing leaves no piece, which is as good as an empty one -/
theorem Operand.flatMap_pieces_name {α : Type} {g : String → List α} (hg : g "" = [])
    (rename : String → String) (text : String) :
    ((name text).pieces rename).flatMap g = g (rename text) := by
  rw [pieces_name]
  split
  · next h => rw [h, hg]; rfl
  · exact List.flatMap_singleton _ _

theorem symbolsOf_lineOf (ps : List String) : symbolsOf (lineOf ps) = ps.flatMap symbolsOf := by
  have h : symbolsOf = fun s => (lexemesOf s).filterMap fun l => l.token.symbol? :=
    funext symbolsOf_eq
  rw [symbolsOf_eq, lexemesOf_lineOf, List.filterMap_flatMap, h]

/-! ### what lexemes are made of -/

namespace Lexeme

/-- the lexeme is one that bytes can hold: a run has word bytes only, and at least one -/
def Proper : Lexeme → Prop
  | run bs => bs ≠ [] ∧ ∀ b ∈ bs, isWordByte b = true
  | stray b => ByteClass.of b = .stray
  | _ => True

theorem proper_of_ofByte? {b : UInt8} {l : Lexeme} (h : ofByte? b = some l) : l.Proper := by
  unfold ofByte? at h
  split at h
  · obtain rfl := Option.some.inj h; trivial
  · obtain rfl := Option.some.inj h; trivial
  · next hb => obtain rfl := Option.some.inj h; exact hb
  · cases h

end Lexeme

theorem Cursor.proper_of_mem_lexemes {c : Cursor} {p : Placed} (h : p ∈ c.lexemes) :
    p.lexeme.Proper := by
  obtain ⟨k, bs⟩ := c
  induction bs using lexing_induction generalizing k with
  | nil => rw [lexemes_nil] at h; cases h
  | blank b bs hb ih => rw [lexemes_blank k bs hb] at h; exact ih _ h
  | single b l bs hl ih =>
    rw [lexemes_single k bs hl] at h
    rcases List.mem_cons.mp h with rfl | h
    · exact Lexeme.proper_of_ofByte? hl
    · exact ih _ h
  | run ws bs hne hws hbs ih =>
    rw [lexemes_run k hne hws hbs] at h
    rcases List.mem_cons.mp h with rfl | h
    · exact ⟨hne, hws⟩
    · exact ih _ h

theorem Cursor.exists_gap_of_nextFrom {k : Nat} {bs : List UInt8} {p : Placed}
    (h : nextFrom k bs = some p) :
    ∃ gap, (∀ b ∈ gap, ByteClass.of b = .blank) ∧ bs = gap ++ (p.lexeme.bytes ++ p.after.rest)
      ∧ p.start = k + gap.length ∧ p.after.offset = p.start + p.lexeme.bytes.length := by
  induction bs generalizing k with
  | nil => cases h
  | cons b bs ih =>
    have hnone : ∀ c ∈ ([] : List UInt8), ByteClass.of c = .blank := fun _ hc => nomatch hc
    rw [nextFrom] at h
    split at h
    · next hb =>
      obtain ⟨gap, hgap, hbs, hstart, hafter⟩ := ih h
      refine ⟨b :: gap, List.forall_mem_cons.mpr ⟨hb, hgap⟩, ?_, ?_, hafter⟩
      · rw [hbs, List.cons_append]
      · rw [hstart, List.length_cons, Nat.add_right_comm, Nat.add_assoc]
    · obtain rfl := Option.some.inj h
      refine ⟨[], hnone, ?_, rfl, rfl⟩
      show b :: bs = b :: bs.takeWhile isWordByte ++ bs.dropWhile isWordByte
      rw [List.cons_append, List.takeWhile_append_dropWhile]
    · next hb =>
      obtain rfl := Option.some.inj h
      exact ⟨[], hnone, by rw [ByteClass.eq_opener hb]; rfl, rfl, rfl⟩
    · next hb =>
      obtain rfl := Option.some.inj h
      exact ⟨[], hnone, by rw [ByteClass.eq_closer hb]; rfl, rfl, rfl⟩
    · obtain rfl := Option.some.inj h
      exact ⟨[], hnone, rfl, rfl, rfl⟩

theorem Lexeme.bytes_of_ofByte? {b : UInt8} {l : Lexeme} (h : ofByte? b = some l) :
    l.bytes = [b] := by
  unfold ofByte? at h
  split at h
  · next hb => obtain rfl := Option.some.inj h; rw [ByteClass.eq_opener hb]; rfl
  · next hb => obtain rfl := Option.some.inj h; rw [ByteClass.eq_closer hb]; rfl
  · obtain rfl := Option.some.inj h; rfl
  · cases h

/-- a lexeme is where it is said to be in the bytes -/
theorem Cursor.exists_split_of_mem_lexemes (before bs : List UInt8) {p : Placed}
    (h : p ∈ (⟨before.length, bs⟩ : Cursor).lexemes) :
    ∃ as, before ++ bs = as ++ (p.lexeme.bytes ++ p.after.rest) ∧ p.start = as.length
      ∧ p.after.offset = as.length + p.lexeme.bytes.length := by
  induction bs using lexing_induction generalizing before with
  | nil => rw [lexemes_nil] at h; cases h
  | blank b bs hb ih =>
    rw [lexemes_blank _ bs hb, ← List.length_singleton (a := b), ← List.length_append] at h
    rw [List.append_cons]
    exact ih (before ++ [b]) h
  | single b l bs hl ih =>
    rw [lexemes_single _ bs hl, ← List.length_singleton (a := b), ← List.length_append] at h
    rcases List.mem_cons.mp h with rfl | h
    · refine ⟨before, ?_, rfl, ?_⟩
      · rw [Lexeme.bytes_of_ofByte? hl]; rfl
      · rw [Lexeme.bytes_of_ofByte? hl, List.length_append]
    · rw [List.append_cons]
      exact ih (before ++ [b]) h
  | run ws bs hne hws hbs ih =>
    rw [lexemes_run _ hne hws hbs, ← List.length_append] at h
    rcases List.mem_cons.mp h with rfl | h
    · exact ⟨before, rfl, rfl, List.length_append⟩
    · rw [← List.append_assoc]
      exact ih (before ++ ws) h

/-! ### brackets of a text -/

def Symbol.edge? : Symbol → Option Edge
  | opening b => some (.opening b)
  | closing b => some (.closing b)
  | _ => none

namespace Lexeme

theorem edge?_run (ws : List UInt8) : (run ws).token.symbol?.bind Symbol.edge? = none := by
  show (Token.mk (Token.Kind.ofWord _) _).symbol?.bind Symbol.edge? = none
  unfold Token.Kind.ofWord
  split <;> rfl

theorem edge?_of_ofByte? {b : UInt8} {l : Lexeme} (h : ofByte? b = some l) :
    l.token.symbol?.bind Symbol.edge? = Edge.ofByte? b := by
  unfold ofByte? at h
  rw [Edge.ofByte?]
  split at h
  · next hb => obtain rfl := Option.some.inj h; rw [hb]; rfl
  · next hb => obtain rfl := Option.some.inj h; rw [hb]; rfl
  · next hb => obtain rfl := Option.some.inj h; rw [hb]; rfl
  · cases h

end Lexeme

theorem Cursor.filterMap_edge?_symbols (c : Cursor) :
    c.symbols.filterMap Symbol.edge? = c.rest.filterMap Edge.ofByte? := by
  obtain ⟨k, bs⟩ := c
  rw [symbols, List.filterMap_filterMap]
  show _ = bs.filterMap Edge.ofByte?
  induction bs using lexing_induction generalizing k with
  | nil => rw [lexemes_nil]; rfl
  | blank b bs hb ih =>
    have hnone : Edge.ofByte? b = none := by rw [Edge.ofByte?, hb]
    rw [lexemes_blank k bs hb, ih, List.filterMap_cons_none hnone]
  | single b l bs hl ih =>
    have hl' : (Placed.mk k l ⟨k + 1, bs⟩).symbol?.bind Symbol.edge? = Edge.ofByte? b :=
      Lexeme.edge?_of_ofByte? hl
    rw [lexemes_single k bs hl, List.filterMap_cons, List.filterMap_cons, hl', ih]
  | run ws bs hne hws hbs ih =>
    have hrun : (Placed.mk k (.run ws) ⟨k + ws.length, bs⟩).symbol?.bind Symbol.edge? = none :=
      Lexeme.edge?_run ws
    have hnone : ws.filterMap Edge.ofByte? = [] :=
      List.filterMap_eq_nil_iff.mpr fun b hb => Edge.ofByte?_of_isWordByte (hws b hb)
    rw [lexemes_run k hne hws hbs, List.filterMap_cons, hrun, ih, List.filterMap_append, hnone,
      List.nil_append]

theorem filterMap_edge?_symbolsOf (s : String) :
    (symbolsOf s).filterMap Symbol.edge? = edgesOf s :=
  (Cursor.filterMap_edge?_symbols _).trans (Text.filterMap_ofByte?_bytes s)

end LicenseFormula
