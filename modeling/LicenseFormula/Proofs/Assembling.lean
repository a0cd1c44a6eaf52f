import LicenseFormula.Proofs.Acceptance
import LicenseFormula.Proofs.Rows
import LicenseFormula.Proofs.Words

/-!
# What an assembly has read

At every moment the symbols that an assembly has taken in are cut by the brackets still open into
one row for each of its levels, and the half-read row at a level stands for the meaning of the
symbols there.  One symbol keeps this, whatever it is, so a run does; and when no bracket is open
any more, the formula that is handed out is the meaning of all symbols.

* `Row.Holds r xs`                    the half-read row `r` stands for the row of symbols `xs`;
* `Assembly.HasRead s xs`             the assembly `s` has taken in the symbols `xs`;
* `Assembly.HasRead.step`, `Assembly.HasRead.run` symbols are taken in one by one;
* `Formula.ofSymbols?_eq_some_iff`    only rows are formulas, and with their meaning;
* `Formula.parse_eq_ok_iff`           the same for texts;
* `Formula.eq_meaning_of_parse_eq_ok` reading in one pass agrees with the meaning by recursion.
-/

namespace LicenseFormula

/-! ### the formula of a half-read row -/

namespace Formula

theorem mapLast_foldl (f : Operand → Operand) (before : List (Operand × Connective))
    (g : Formula) :
    (before.foldl (fun next (a, c) => join a c next) g).mapLast f
      = before.foldl (fun next (a, c) => join a c next) (g.mapLast f) := by
  induction before generalizing g with
  | nil => rfl
  | cons p before ih => exact ih (join p.1 p.2 g)

theorem append_foldl (before : List (Operand × Connective)) (f : Formula) (c : Connective)
    (g : Formula) :
    (before.foldl (fun next (a, d) => join a d next) f).append c g
      = before.foldl (fun next (a, d) => join a d next) (f.append c g) := by
  induction before generalizing f with
  | nil => rfl
  | cons p before ih => exact ih (join p.1 p.2 f)

end Formula

namespace Row

theorem formula_addWord (r : Row) (w : String) :
    (r.addWord w).formula = r.formula.mapLast (·.addWord w) :=
  (Formula.mapLast_foldl (·.addWord w) r.before (.last r.current)).symm

theorem formula_setGroup (r : Row) (f : Formula) :
    (r.setGroup f).formula = r.formula.mapLast fun _ => .group f :=
  (Formula.mapLast_foldl (fun _ => .group f) r.before (.last r.current)).symm

theorem formula_addConnective (r : Row) (c : Connective) :
    (r.addConnective c).formula = r.formula.append c (.last .empty) :=
  (Formula.append_foldl r.before (.last r.current) c (.last .empty)).symm

/-- the half-read row stands for the row of symbols -/
structure Holds (r : Row) (xs : List Symbol) : Prop where
  isRow : IsRow xs
  formula_eq : r.formula = meaning xs

theorem holds_start : start.Holds [] :=
  ⟨isRow_nil.1, isRow_nil.2.symm⟩

namespace Holds

variable {r : Row} {xs : List Symbol}

theorem addWord (h : r.Holds xs) {w : String} (hw : w ≠ "") :
    (r.addWord w).Holds (xs ++ [.word w]) := by
  obtain ⟨hrow, hmeaning⟩ := h.isRow.addWord hw
  exact ⟨hrow, by rw [formula_addWord, hmeaning, h.formula_eq]⟩

theorem addConnective (h : r.Holds xs) (c : Connective) :
    (r.addConnective c).Holds (xs ++ [.connective c]) := by
  obtain ⟨hrow, hmeaning⟩ := h.isRow.append c isRow_nil.1
  exact ⟨hrow, by rw [formula_addConnective, hmeaning, h.formula_eq, isRow_nil.2]⟩

theorem setGroup (h : r.Holds xs) (b : Bracket) {inner : Row} {ys : List Symbol}
    (hi : inner.Holds ys) :
    (r.setGroup inner.formula).Holds (xs ++ .opening b :: (ys ++ [.closing b])) := by
  obtain ⟨hrow, hmeaning⟩ := h.isRow.addGroup b hi.isRow
  exact ⟨hrow, by rw [formula_setGroup, hmeaning, h.formula_eq, hi.formula_eq]⟩

end Holds

end Row

/-! ### one symbol, and symbols one after the other -/

namespace Assembly

/-- the assembly has taken in the symbols: each level holds those behind its opening bracket -/
inductive HasRead : Assembly → List Symbol → Prop where
  | outermost {row : Row} {xs : List Symbol} : row.Holds xs → HasRead ⟨row, []⟩ xs
  | within (b : Bracket) {outer row : Row} {around : List (Row × Bracket)}
    {ys xs : List Symbol} :
    HasRead ⟨outer, around⟩ ys → row.Holds xs →
      HasRead ⟨row, (outer, b) :: around⟩ (ys ++ .opening b :: xs)

namespace HasRead

theorem start : HasRead .start [] :=
  .outermost Row.holds_start

/-- what the innermost level takes in, the assembly does -/
theorem mapRow {row new : Row} {around : List (Row × Bracket)} {xs ys : List Symbol}
    (h : HasRead ⟨row, around⟩ xs) (hnew : ∀ zs, row.Holds zs → new.Holds (zs ++ ys)) :
    HasRead ⟨new, around⟩ (xs ++ ys) := by
  cases h with
  | outermost hrow => exact .outermost (hnew _ hrow)
  | within b houter hrow =>
    rw [List.append_assoc, List.cons_append]
    exact .within b houter (hnew _ hrow)

theorem step {s t : Assembly} {xs : List Symbol} {x : Symbol} (h : s.HasRead xs)
    (hx : ∀ w, x = .word w → w ≠ "") (hstep : s.step x = .ok t) : t.HasRead (xs ++ [x]) := by
  cases x with
  | word w =>
    obtain rfl := Except.ok.inj hstep
    exact h.mapRow fun zs hz => hz.addWord (hx w rfl)
  | connective c =>
    obtain rfl := Except.ok.inj hstep
    exact h.mapRow fun zs hz => hz.addConnective c
  | opening b =>
    obtain rfl := Except.ok.inj hstep
    exact .within b h Row.holds_start
  | closing b =>
    obtain ⟨outer, around, haround, rfl⟩ := step_closing_eq_ok_iff.mp hstep
    cases h with
    | outermost hrow => cases haround
    | within k houter hrow =>
      obtain ⟨hframe, rfl⟩ := List.cons.inj haround
      obtain ⟨rfl, rfl⟩ := Prod.mk.inj hframe
      rw [List.append_assoc, List.cons_append]
      exact houter.mapRow fun us hu => hu.setGroup k hrow

theorem run {s t : Assembly} {xs ys : List Symbol} (h : s.HasRead xs)
    (hys : ∀ w, .word w ∈ ys → w ≠ "") (hrun : s.run ys = .ok t) : t.HasRead (xs ++ ys) := by
  induction ys generalizing s xs with
  | nil =>
    obtain rfl := Except.ok.inj hrun
    rwa [List.append_nil]
  | cons y ys ih =>
    rw [run_cons] at hrun
    cases hy : s.step y with
    | error b => rw [hy] at hrun; cases hrun
    | ok u =>
      rw [hy] at hrun
      have hword : ∀ w, y = .word w → w ≠ "" := fun w hw => hys w (hw ▸ List.mem_cons_self)
      have hu := h.step hword hy
      have ht := ih hu (fun w hw => hys w (List.mem_cons_of_mem _ hw)) hrun
      rwa [List.append_assoc, List.singleton_append] at ht

theorem finish {s : Assembly} {xs : List Symbol} {f : Formula} (h : s.HasRead xs)
    (hf : s.finish? = some f) : IsRow xs ∧ f = meaning xs := by
  cases h with
  | outermost hrow =>
    obtain rfl := Option.some.inj hf
    exact ⟨hrow.isRow, hrow.formula_eq⟩
  | within b houter hrow => cases hf

end HasRead

end Assembly

/-! ### formulas of symbols and texts -/

namespace Formula

theorem isRow_of_ofSymbols?_eq_some {xs : List Symbol} {f : Formula}
    (hxs : ∀ w, .word w ∈ xs → w ≠ "") (h : ofSymbols? xs = some f) :
    IsRow xs ∧ f = meaning xs := by
  unfold ofSymbols? at h
  cases hrun : Assembly.start.run xs with
  | error b => rw [hrun] at h; cases h
  | ok s =>
    rw [hrun] at h
    exact (Assembly.HasRead.start.run hxs hrun).finish h

theorem ofSymbols?_eq_some_iff {xs : List Symbol} {f : Formula}
    (hxs : ∀ w, .word w ∈ xs → w ≠ "") :
    ofSymbols? xs = some f ↔ IsRow xs ∧ f = meaning xs := by
  constructor
  · exact isRow_of_ofSymbols?_eq_some hxs
  · rintro ⟨hrow, rfl⟩
    -- a row is accepted for its brackets, and then its meaning is what comes out
    obtain ⟨g, hg⟩ := Option.isSome_iff_exists.mp ((isSome_ofSymbols?_iff xs).mpr hrow.balanced)
    rw [hg, (isRow_of_ofSymbols?_eq_some hxs hg).2]

theorem parse_eq_ok_iff {s : String} {f : Formula} :
    parse s = .ok f ↔ IsRow (symbolsOf s) ∧ f = meaning (symbolsOf s) := by
  have hwords : ∀ w, .word w ∈ symbolsOf s → w ≠ "" :=
    fun w hw => (isPlainWord_of_mem_symbolsOf hw).ne_empty
  rw [← ofSymbols?_eq_some_iff hwords, ← toOption_parse]
  cases parse s with
  | ok g => simp [Except.toOption]
  | error fault => simp [Except.toOption]

/-- Reading in one pass agrees with the meaning by recursion of what the tokens stand for, stray
bytes left out; the row has one operand more than the text has connectives outside all groups, and
these join its operands in order. -/
theorem eq_meaning_of_parse_eq_ok {s : String} {f : Formula} (h : parse s = .ok f) :
    List.Forall₂ Token.StandsFor (significantOf s) (symbolsOf s)
      ∧ f = meaning (symbolsOf s)
      ∧ f.nodes.filterMap (·.2) = outerConnectives 0 (symbolsOf s)
      ∧ f.length = (outerConnectives 0 (symbolsOf s)).length + 1 := by
  obtain ⟨hrow, hf⟩ := parse_eq_ok_iff.mp h
  have hcon : f.nodes.filterMap (·.2) = outerConnectives 0 (symbolsOf s) := by
    rw [hf, hrow.connectives_meaning]
  have hlen : f.length = (outerConnectives 0 (symbolsOf s)).length + 1 := by
    rw [← hcon, f.length_eq_connectives]
  exact ⟨forall₂_standsFor s, hf, hcon, hlen⟩

theorem meaning_of_mixed_stretches :
    ∃ f, f = .join (.name "c d") .or (.join (.group (.last (.name "f g"))) .and (.last (.name "h")))
      ∧ parse "a (b) c d or {e and} {f,g} And h" = .ok f
      ∧ List.Forall₂ Token.StandsFor (significantOf "a (b) c d or {e and} {f,g} And h")
          (symbolsOf "a (b) c d or {e and} {f,g} And h")
      ∧ f = meaning (symbolsOf "a (b) c d or {e and} {f,g} And h")
      ∧ f.nodes.filterMap (·.2) = outerConnectives 0 (symbolsOf "a (b) c d or {e and} {f,g} And h")
      ∧ f.length
        = (outerConnectives 0 (symbolsOf "a (b) c d or {e and} {f,g} And h")).length + 1 := by
  have h : parse "a (b) c d or {e and} {f,g} And h" = .ok (.join (.name "c d") .or
      (.join (.group (.last (.name "f g"))) .and (.last (.name "h")))) := by
    cbv
  exact ⟨_, rfl, h, eq_meaning_of_parse_eq_ok h⟩

end Formula

end LicenseFormula
