import LicenseFormula.Proofs.Lexing
import LicenseFormula.Reading

/-!
# Which texts are formulas

Whether symbols can be assembled depends on their brackets alone.  The groups that are open after
some symbols are the brackets that the assembly has put aside; a text is a formula when all of its
brackets can be taken in and none is open at the end, and these are the balanced ones.

* `openAfter bs es`                   the groups open after `es`, when `bs` are open before;
* `Closes bs es`                      `es` closes the groups `bs` and is balanced otherwise;
* `Assembly.map_brackets_run`         the groups that an assembly has open after a run;
* `Formula.isSome_ofSymbols?_iff`     symbols are a formula when their brackets are balanced;
* `Formula.exists_parse_eq_ok_iff_balanced` so are texts, and the others all fail alike.
-/

namespace LicenseFormula

/-! ### groups that are open -/

/-- the groups open after some brackets, the innermost first, when there are groups open before
them; none when a bracket closes nothing -/
def openAfter : List Bracket → List Edge → Option (List Bracket)
  | bs, [] => some bs
  | bs, .opening b :: es => openAfter (b :: bs) es
  | [], .closing _ :: _ => none
  | k :: bs, .closing b :: es => if k = b then openAfter bs es else none

theorem openAfter_closing_self (b : Bracket) (bs : List Bracket) (es : List Edge) :
    openAfter (b :: bs) (.closing b :: es) = openAfter bs es := by
  rw [openAfter, if_pos rfl]

theorem openAfter_append (bs : List Bracket) (xs ys : List Edge) :
    openAfter bs (xs ++ ys) = (openAfter bs xs).bind (openAfter · ys) := by
  fun_induction openAfter bs xs with
  | case1 bs => rfl
  | case2 bs b es ih => exact ih
  | case3 b es => rfl
  | case4 bs b es ih => rw [List.cons_append, openAfter_closing_self, ih]
  | case5 k bs b es hk => rw [List.cons_append, openAfter, if_neg hk]; rfl

theorem Balanced.openAfter {es : List Edge} (h : Balanced es) (bs : List Bracket) :
    openAfter bs es = some bs := by
  induction h generalizing bs with
  | nil => rfl
  | @group b inside behind _ _ ihi ihb =>
    show LicenseFormula.openAfter (b :: bs) (inside ++ .closing b :: behind) = some bs
    rw [openAfter_append, ihi, Option.bind_some, openAfter_closing_self, ihb]

/-- the brackets close the groups `bs`, the innermost first, and are balanced before, between and
behind these -/
inductive Closes : List Bracket → List Edge → Prop where
  | nil {es : List Edge} : Balanced es → Closes [] es
  | cons (b : Bracket) {bs : List Bracket} {es rest : List Edge} :
    Balanced es → Closes bs rest → Closes (b :: bs) (es ++ .closing b :: rest)

theorem Closes.group (b : Bracket) {bs : List Bracket} {inside rest : List Edge}
    (hi : Balanced inside) (hr : Closes bs rest) :
    Closes bs (.opening b :: inside ++ .closing b :: rest) := by
  cases hr with
  | nil hb => exact .nil (.group b hi hb)
  | @cons k bs es rest hb hr =>
    have h := Closes.cons k (.group b hi hb) hr
    simpa using h

theorem closes_of_openAfter {bs : List Bracket} {es : List Edge}
    (h : openAfter bs es = some []) : Closes bs es := by
  fun_induction openAfter bs es with
  | case1 bs =>
    obtain rfl := Option.some.inj h
    exact .nil .nil
  | case2 bs b es ih =>
    cases ih h with
    | cons _ hi hr => exact Closes.group b hi hr
  | case3 b es => cases h
  | case4 bs b es ih => exact .cons b .nil (ih h)
  | case5 k bs b es hk => cases h

theorem balanced_iff_openAfter {es : List Edge} : Balanced es ↔ openAfter [] es = some [] := by
  constructor
  · intro h
    exact h.openAfter []
  · intro h
    cases closes_of_openAfter h with
    | nil hb => exact hb

/-! ### brackets of an assembly -/

namespace Assembly

/-- the groups that are open, the innermost first -/
def brackets (s : Assembly) : List Bracket := s.around.map (·.2)

theorem step_closing_eq_ok_iff {s t : Assembly} {b : Bracket} : s.step (.closing b) = .ok t ↔
    ∃ outer around, s.around = (outer, b) :: around
      ∧ t = ⟨outer.setGroup s.row.formula, around⟩ := by
  obtain ⟨row, around⟩ := s
  constructor
  · intro h
    cases around with
    | nil => cases h
    | cons frame around =>
      obtain ⟨outer, k⟩ := frame
      by_cases hk : k = b
      · subst hk
        exact ⟨outer, around, rfl, (Except.ok.inj ((if_pos rfl).symm.trans h)).symm⟩
      · cases (if_neg hk).symm.trans h
  · rintro ⟨outer, around, rfl, rfl⟩
    exact if_pos rfl

theorem map_brackets_step (s : Assembly) (x : Symbol) :
    (s.step x).toOption.map brackets = openAfter s.brackets x.edge?.toList := by
  cases x with
  | word text => rfl
  | connective c => rfl
  | opening b => rfl
  | closing b =>
    obtain ⟨row, around⟩ := s
    cases around with
    | nil => rfl
    | cons frame around =>
      obtain ⟨outer, k⟩ := frame
      show Option.map _ (Except.toOption (if k = b then _ else _))
        = if k = b then some (around.map (·.2)) else none
      split <;> rfl

theorem map_brackets_run (s : Assembly) (xs : List Symbol) :
    (s.run xs).toOption.map brackets = openAfter s.brackets (xs.filterMap Symbol.edge?) := by
  induction xs generalizing s with
  | nil => rfl
  | cons x xs ih =>
    rw [run_cons, filterMap_cons_toList, openAfter_append, ← map_brackets_step]
    cases s.step x with
    | error b => rfl
    | ok t => exact ih t

theorem isSome_finish?_iff (s : Assembly) : s.finish?.isSome = true ↔ s.brackets = [] := by
  obtain ⟨row, around⟩ := s
  cases around <;> simp [finish?, brackets]

end Assembly

namespace Formula

theorem isSome_ofSymbols?_iff (xs : List Symbol) :
    (ofSymbols? xs).isSome = true ↔ Balanced (xs.filterMap Symbol.edge?) := by
  have hrun := Assembly.map_brackets_run .start xs
  have hstart : Assembly.start.brackets = [] := rfl
  rw [balanced_iff_openAfter, ← hstart, ← hrun, hstart, ofSymbols?]
  cases (Assembly.start.run xs).toOption with
  | none => simp
  | some s =>
    rw [Option.bind_some, Option.map_some, Option.some.injEq]
    exact s.isSome_finish?_iff

/-- A text is a formula exactly when its brackets are balanced, whatever else it holds; every
other text fails with the one message there is. -/
theorem exists_parse_eq_ok_iff_balanced (s : String) :
    ((∃ f, parse s = .ok f) ↔ Balanced (edgesOf s)) ∧
    ((∃ fault, parse s = .error fault ∧ fault.message = "invalid expression error")
      ↔ ¬ Balanced (edgesOf s)) := by
  have hsome : (parse s).toOption.isSome = true ↔ Balanced (edgesOf s) := by
    rw [toOption_parse, isSome_ofSymbols?_iff, filterMap_edge?_symbolsOf]
  rw [← hsome]
  cases parse s with
  | ok f => simp [Except.toOption]
  | error fault => simp [Except.toOption, Fault.message]

end Formula

end LicenseFormula
