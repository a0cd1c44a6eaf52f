import LicenseFormula.Proofs.Acceptance
import LicenseFormula.Proofs.Rows
import LicenseFormula.Proofs.Words

/-!
# Texts that are alike

Two texts are compared token by token, stray bytes left out.  Where the kinds are the same and the
words are related, the formulas have one shape and their words are related in turn, so that nothing
else about the texts can be seen in the formulas.  The two readings go side by side: rows, and the
rows around them, stay alike, whichever brackets have opened the groups.

* `Token.Alike view R`, `Symbol.Alike R`  the kinds agree as `view` sees them, words are related;
* `Formula.Alike R`, `Operand.Alike R`    the same shape, with names related word by word;
* `Row.Alike`, `Assembly.Alike`           the same for what has been read;
* `Assembly.Alike.step`, `.run`           reading what is alike keeps it so;
* `Formula.Alike.eq`                      formulas with the same words are the same;
* `Formula.parse_alike`                   what holds for texts.
-/

namespace LicenseFormula

/-! ### what is alike -/

/-- the kinds of two tokens agree as `view` sees them, and words among them are related -/
structure Token.Alike (view : Token.Kind → Token.Kind) (R : String → String → Prop)
    (t u : Token) : Prop where
  kind_eq : view t.kind = view u.kind
  word : t.kind = .word → R t.literal u.literal

/-- the symbols are both plain words, which are related, or the same up to the style of brackets -/
inductive Symbol.Alike (R : String → String → Prop) : Symbol → Symbol → Prop where
  | word {w v : String} : IsPlainWord w → IsPlainWord v → R w v → Alike R (word w) (word v)
  | connective (c : Connective) : Alike R (connective c) (connective c)
  | opening (b k : Bracket) : Alike R (opening b) (opening k)
  | closing (b k : Bracket) : Alike R (closing b) (closing k)

mutual

/-- the rows have as many operands, alike one by one, and the same connectives between them -/
inductive Formula.Alike (R : String → String → Prop) : Formula → Formula → Prop where
  | last {a b : Operand} : Operand.Alike R a b → Formula.Alike R (.last a) (.last b)
  | join {a b : Operand} {f g : Formula} (c : Connective) :
    Operand.Alike R a b → Formula.Alike R f g → Formula.Alike R (.join a c f) (.join b c g)

/-- the operands are names of as many plain words, related one by one, or groups that are alike -/
inductive Operand.Alike (R : String → String → Prop) : Operand → Operand → Prop where
  | name {ws vs : List String} : (∀ w ∈ ws, IsPlainWord w) → (∀ v ∈ vs, IsPlainWord v) →
    List.Forall₂ R ws vs → Operand.Alike R (.name (lineOf ws)) (.name (lineOf vs))
  | group {f g : Formula} : Formula.Alike R f g → Operand.Alike R (.group f) (.group g)

end

variable {R : String → String → Prop}

/-! ### rows being read -/

structure Row.Alike (R : String → String → Prop) (r q : Row) : Prop where
  before : List.Forall₂ (fun x y => x.1.Alike R y.1 ∧ x.2 = y.2) r.before q.before
  current : r.current.Alike R q.current

theorem Operand.Alike.empty : Operand.empty.Alike R .empty := by
  have hnone : ∀ w ∈ ([] : List String), IsPlainWord w := fun _ hw => nomatch hw
  have hname := Operand.Alike.name hnone hnone (.nil (R := R))
  rwa [lineOf_nil] at hname

theorem Operand.Alike.addWord {a b : Operand} (h : a.Alike R b) {w v : String} (hw : IsPlainWord w)
    (hv : IsPlainWord v) (hR : R w v) : (a.addWord w).Alike R (b.addWord v) := by
  cases h with
  | @name ws vs hws hvs hwords =>
    rw [addWord_lineOf fun x hx => (hws x hx).ne_empty,
      addWord_lineOf fun x hx => (hvs x hx).ne_empty]
    refine .name ?_ ?_ (List.rel_append hwords (.cons hR .nil))
    · exact List.forall_mem_append.mpr ⟨hws, List.forall_mem_singleton.mpr hw⟩
    · exact List.forall_mem_append.mpr ⟨hvs, List.forall_mem_singleton.mpr hv⟩
  | group _ =>
    have hname := Operand.Alike.name (List.forall_mem_singleton.mpr hw)
      (List.forall_mem_singleton.mpr hv) (.cons hR .nil)
    rwa [lineOf_singleton, lineOf_singleton] at hname

namespace Row.Alike

variable {r q : Row}

theorem start : Row.start.Alike R .start :=
  ⟨.nil, .empty⟩

theorem addWord (h : r.Alike R q) {w v : String} (hw : IsPlainWord w) (hv : IsPlainWord v)
    (hR : R w v) : (r.addWord w).Alike R (q.addWord v) :=
  ⟨h.before, h.current.addWord hw hv hR⟩

theorem addConnective (h : r.Alike R q) (c : Connective) :
    (r.addConnective c).Alike R (q.addConnective c) :=
  ⟨.cons ⟨h.current, rfl⟩ h.before, .empty⟩

theorem setGroup (h : r.Alike R q) {f g : Formula} (hf : f.Alike R g) :
    (r.setGroup f).Alike R (q.setGroup g) :=
  ⟨h.before, .group hf⟩

theorem formula (h : r.Alike R q) : r.formula.Alike R q.formula := by
  refine List.rel_foldl (P := Formula.Alike R) ?_ (.last h.current) h.before
  rintro f g hfg ⟨a, c⟩ ⟨b, d⟩ ⟨hab, rfl⟩
  exact .join c hab hfg

end Row.Alike

/-! ### two readings side by side -/

/-- the rows and those around them are alike; the brackets that opened the groups need not be -/
structure Assembly.Alike (R : String → String → Prop) (s t : Assembly) : Prop where
  row : s.row.Alike R t.row
  around : List.Forall₂ (fun x y => x.1.Alike R y.1) s.around t.around

namespace Assembly.Alike

variable {s t s' t' : Assembly}

theorem start : Assembly.start.Alike R .start :=
  ⟨.start, .nil⟩

theorem step (h : s.Alike R t) {x y : Symbol} (hxy : x.Alike R y) (hs : s.step x = .ok s')
    (ht : t.step y = .ok t') : s'.Alike R t' := by
  cases hxy with
  | word hw hv hR =>
    obtain rfl := Except.ok.inj hs
    obtain rfl := Except.ok.inj ht
    exact ⟨h.row.addWord hw hv hR, h.around⟩
  | connective c =>
    obtain rfl := Except.ok.inj hs
    obtain rfl := Except.ok.inj ht
    exact ⟨h.row.addConnective c, h.around⟩
  | opening b k =>
    obtain rfl := Except.ok.inj hs
    obtain rfl := Except.ok.inj ht
    exact ⟨.start, .cons h.row h.around⟩
  | closing b k =>
    obtain ⟨outer, around, hsa, rfl⟩ := step_closing_eq_ok_iff.mp hs
    obtain ⟨outer', around', hta, rfl⟩ := step_closing_eq_ok_iff.mp ht
    have hframes := h.around
    rw [hsa, hta] at hframes
    obtain ⟨houter, haround⟩ := List.forall₂_cons.mp hframes
    exact ⟨houter.setGroup h.row.formula, haround⟩

theorem run (h : s.Alike R t) {xs ys : List Symbol} (hxs : List.Forall₂ (Symbol.Alike R) xs ys)
    (hs : s.run xs = .ok s') (ht : t.run ys = .ok t') : s'.Alike R t' := by
  induction hxs generalizing s t with
  | nil =>
    obtain rfl := Except.ok.inj hs
    obtain rfl := Except.ok.inj ht
    exact h
  | @cons x y xs ys hxy _ ih =>
    rw [run_cons] at hs ht
    cases hx : s.step x with
    | error b => rw [hx] at hs; cases hs
    | ok u =>
      cases hy : t.step y with
      | error b => rw [hy] at ht; cases ht
      | ok v =>
        rw [hx] at hs
        rw [hy] at ht
        exact ih (h.step hxy hx hy) hs ht

theorem finish (h : s.Alike R t) {f g : Formula} (hf : s.finish? = some f)
    (hg : t.finish? = some g) : f.Alike R g := by
  obtain ⟨row, around⟩ := s
  obtain ⟨row', around'⟩ := t
  cases around with
  | cons frame around => cases hf
  | nil =>
    cases around' with
    | cons frame around' => cases hg
    | nil =>
      obtain rfl := Option.some.inj hf
      obtain rfl := Option.some.inj hg
      exact h.row.formula

end Assembly.Alike

theorem Formula.alike_of_ofSymbols? {xs ys : List Symbol} (h : List.Forall₂ (Symbol.Alike R) xs ys)
    {f g : Formula} (hf : ofSymbols? xs = some f) (hg : ofSymbols? ys = some g) : f.Alike R g := by
  unfold ofSymbols? at hf hg
  cases hs : Assembly.start.run xs with
  | error b => rw [hs] at hf; cases hf
  | ok s =>
    cases ht : Assembly.start.run ys with
    | error b => rw [ht] at hg; cases hg
    | ok t =>
      rw [hs] at hf
      rw [ht] at hg
      exact (Assembly.Alike.start.run h hs ht).finish hf hg

/-! ### the same words -/

mutual

theorem Formula.Alike.eq {f g : Formula} (h : f.Alike Eq g) : f = g := by
  match h with
  | .last ha => rw [ha.eq]
  | .join c ha hf => rw [ha.eq, hf.eq]

theorem Operand.Alike.eq {a b : Operand} (h : a.Alike Eq b) : a = b := by
  match h with
  | .name _ _ hwords =>
    rw [List.forall₂_eq_eq_eq] at hwords
    rw [hwords]
  | .group hf => rw [hf.eq]

end

/-! ### tokens and symbols -/

theorem isPlainWord_of_mem_significantOf {s : String} {t : Token} (h : t ∈ significantOf s)
    (hkind : t.kind = .word) : IsPlainWord t.literal := by
  have hsymbol : t.symbol? = some (.word t.literal) := by rw [Token.symbol?, hkind]
  refine isPlainWord_of_mem_symbolsOf (s := s) ?_
  rw [symbolsOf_eq_significantOf]
  exact List.mem_filterMap.mpr ⟨t, h, hsymbol⟩

namespace Token.Alike

variable {t u : Token}

theorem uniform (h : t.Alike id R u) : t.Alike Token.Kind.uniform R u :=
  ⟨congrArg Token.Kind.uniform h.kind_eq, h.word⟩

theorem edge?_eq (h : t.Alike id R u) :
    t.symbol?.bind Symbol.edge? = u.symbol?.bind Symbol.edge? := by
  obtain ⟨kind, literal⟩ := t
  obtain ⟨kind', literal'⟩ := u
  obtain rfl : kind = kind' := h.kind_eq
  cases kind <;> rfl

theorem symbol? (h : t.Alike Token.Kind.uniform R u) (ht : t.kind = .word → IsPlainWord t.literal)
    (hu : u.kind = .word → IsPlainWord u.literal) :
    Option.Rel (Symbol.Alike R) t.symbol? u.symbol? := by
  obtain ⟨kind, literal⟩ := t
  obtain ⟨kind', literal'⟩ := u
  have hkind : kind.uniform = kind'.uniform := h.kind_eq
  cases kind with
  | word =>
    cases kind' with
    | word => exact .some (.word (ht rfl) (hu rfl) (h.word rfl))
    | _ => cases hkind
  | connective c =>
    cases kind' with
    | connective d =>
      obtain rfl := Token.Kind.connective.inj hkind
      exact .some (.connective c)
    | _ => cases hkind
  | opening b =>
    cases kind' with
    | opening k => exact .some (.opening b k)
    | _ => cases hkind
  | closing b =>
    cases kind' with
    | closing k => exact .some (.closing b k)
    | _ => cases hkind
  | stray =>
    cases kind' with
    | stray => exact .none
    | _ => cases hkind
  | finish =>
    cases kind' with
    | finish => exact .none
    | _ => cases hkind

theorem symbols {ts us : List Token} (h : List.Forall₂ (Token.Alike Token.Kind.uniform R) ts us)
    (hts : ∀ t ∈ ts, t.kind = .word → IsPlainWord t.literal)
    (hus : ∀ u ∈ us, u.kind = .word → IsPlainWord u.literal) :
    List.Forall₂ (Symbol.Alike R) (ts.filterMap Token.symbol?) (us.filterMap Token.symbol?) := by
  induction h with
  | nil => exact .nil
  | @cons t u ts us htu _ ih =>
    obtain ⟨ht, hts⟩ := List.forall_mem_cons.mp hts
    obtain ⟨hu, hus⟩ := List.forall_mem_cons.mp hus
    have hrest := ih hts hus
    rw [List.filterMap_cons, List.filterMap_cons]
    match t.symbol?, u.symbol?, htu.symbol? ht hu with
    | none, none, .none => exact hrest
    | some x, some y, .some hxy => exact .cons hxy hrest

theorem edges {ts us : List Token} (h : List.Forall₂ (Token.Alike id R) ts us) :
    (ts.filterMap Token.symbol?).filterMap Symbol.edge?
      = (us.filterMap Token.symbol?).filterMap Symbol.edge? := by
  rw [List.filterMap_filterMap, List.filterMap_filterMap]
  induction h with
  | nil => rfl
  | cons htu _ ih => rw [List.filterMap_cons, List.filterMap_cons, htu.edge?_eq, ih]

end Token.Alike

/-! ### formulas of texts -/

namespace Formula

theorem alike_of_parse {s t : String} {f g : Formula} (hf : parse s = .ok f) (hg : parse t = .ok g)
    (h : List.Forall₂ (Token.Alike Token.Kind.uniform R) (significantOf s) (significantOf t)) :
    f.Alike R g := by
  have hsymbols := Token.Alike.symbols h (fun _ hx => isPlainWord_of_mem_significantOf hx)
    (fun _ hx => isPlainWord_of_mem_significantOf hx)
  rw [← symbolsOf_eq_significantOf, ← symbolsOf_eq_significantOf] at hsymbols
  refine alike_of_ofSymbols? hsymbols ?_ ?_
  · rw [← toOption_parse, hf]
    rfl
  · rw [← toOption_parse, hg]
    rfl

theorem isSome_parse_eq {s t : String}
    (h : List.Forall₂ (Token.Alike id R) (significantOf s) (significantOf t)) :
    (parse s).toOption.isSome = (parse t).toOption.isSome := by
  have hedges := Token.Alike.edges h
  rw [← symbolsOf_eq_significantOf, ← symbolsOf_eq_significantOf] at hedges
  rw [toOption_parse, toOption_parse, Bool.eq_iff_iff, isSome_ofSymbols?_iff,
    isSome_ofSymbols?_iff, hedges]

theorem optionRel_parse {s t : String}
    (h : List.Forall₂ (Token.Alike id R) (significantOf s) (significantOf t)) :
    Option.Rel (Formula.Alike R) (parse s).toOption (parse t).toOption := by
  have hsome := isSome_parse_eq h
  cases hf : parse s with
  | error _ =>
    cases hg : parse t with
    | error _ => exact .none
    | ok g => rw [hf, hg] at hsome; cases hsome
  | ok f =>
    cases hg : parse t with
    | error _ => rw [hf, hg] at hsome; cases hsome
    | ok g => exact .some (alike_of_parse hf hg (h.imp fun _ _ htu => htu.uniform))

/-- Where the kinds of the tokens are the same and their words related, both texts have formulas
that are alike, or neither has one; where the kinds are the same but for the style of brackets, the
formulas are alike if there are both.  With the same words the formulas are the same. -/
theorem parse_alike (R : String → String → Prop) (s t : String) :
    (List.Forall₂ (Token.Alike id R) (significantOf s) (significantOf t) →
      Option.Rel (Formula.Alike R) (parse s).toOption (parse t).toOption)
    ∧ (∀ f g, parse s = .ok f → parse t = .ok g →
      List.Forall₂ (Token.Alike Token.Kind.uniform R) (significantOf s) (significantOf t) →
        f.Alike R g)
    ∧ (List.Forall₂ (Token.Alike id Eq) (significantOf s) (significantOf t) →
      (parse s).toOption = (parse t).toOption)
    ∧ ∀ f g, parse s = .ok f → parse t = .ok g →
      List.Forall₂ (Token.Alike Token.Kind.uniform Eq) (significantOf s) (significantOf t) →
        f = g := by
  refine ⟨optionRel_parse, fun f g => alike_of_parse, fun h => ?_,
    fun f g hf hg h => (alike_of_parse hf hg h).eq⟩
  match (parse s).toOption, (parse t).toOption, optionRel_parse h with
  | none, none, .none => rfl
  | some f, some g, .some hfg => rw [hfg.eq]

theorem parse_alike_of_spelling :
    Option.Rel (Formula.Alike (· ≠ ·)) (parse "a Or (b\tc)é").toOption
        (parse "x\nor,( y z)").toOption
      ∧ ∃ f g, parse "a Or (b\tc)é" = .ok f ∧ parse "a\nor,\x7b b c\x7d" = .ok g ∧ f = g := by
  have hleft : significantOf "a Or (b\tc)é" = [⟨.word, "a"⟩, ⟨.connective .or, "Or"⟩,
      ⟨.opening .paren, "("⟩, ⟨.word, "b"⟩, ⟨.word, "c"⟩, ⟨.closing .paren, ")"⟩] := by
    cbv
  have hright : significantOf "x\nor,( y z)" = [⟨.word, "x"⟩, ⟨.connective .or, "or"⟩,
      ⟨.opening .paren, "("⟩, ⟨.word, "y"⟩, ⟨.word, "z"⟩, ⟨.closing .paren, ")"⟩] := by
    cbv
  have hbraces : significantOf "a\nor,\x7b b c\x7d" = [⟨.word, "a"⟩, ⟨.connective .or, "or"⟩,
      ⟨.opening .brace, "\x7b"⟩, ⟨.word, "b"⟩, ⟨.word, "c"⟩, ⟨.closing .brace, "\x7d"⟩] := by
    cbv
  have hf : parse "a Or (b\tc)é" = .ok (.join (.name "a") .or
      (.last (.group (.last (.name "b c"))))) := by
    cbv
  have hg : parse "a\nor,\x7b b c\x7d" = .ok (.join (.name "a") .or
      (.last (.group (.last (.name "b c"))))) := by
    cbv
  have hno : ∀ {P : Prop} {kind : Token.Kind}, kind ≠ .word → kind = .word → P :=
    fun hne h => absurd h hne
  refine ⟨(parse_alike _ _ _).1 ?_, _, _, hf, hg, (parse_alike Eq _ _).2.2.2 _ _ hf hg ?_⟩
  · rw [hleft, hright]
    exact .cons ⟨rfl, fun _ => by decide⟩ (.cons ⟨rfl, hno (by decide)⟩
      (.cons ⟨rfl, hno (by decide)⟩ (.cons ⟨rfl, fun _ => by decide⟩
        (.cons ⟨rfl, fun _ => by decide⟩ (.cons ⟨rfl, hno (by decide)⟩ .nil)))))
  · rw [hleft, hbraces]
    exact .cons ⟨rfl, fun _ => rfl⟩ (.cons ⟨rfl, hno (by decide)⟩
      (.cons ⟨rfl, hno (by decide)⟩ (.cons ⟨rfl, fun _ => rfl⟩
        (.cons ⟨rfl, fun _ => rfl⟩ (.cons ⟨rfl, hno (by decide)⟩ .nil)))))

end Formula

end LicenseFormula
