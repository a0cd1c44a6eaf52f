import LicenseFormula.Proofs.Acceptance

/-!
# Groups and the rows around them

What is read inside a group is read as if nothing were around it.  A symbol looks at the rows put
aside only when it closes a group, and then at the nearest of them; so as long as each group that
closes was opened inside, the rows further out stay as they are.  When the group itself closes, its
formula becomes the growing operand of the row it stands in, and that is all that changes there.

* `Assembly.inside s outer`     the assembly `s` with the rows `outer` around its own;
* `Assembly.step_inside`        a symbol does inside other rows what it does alone;
* `Assembly.run_inside`         and so do symbols one after the other;
* `Assembly.exists_run_of_prefix` symbols that are taken in are taken in one by one;
* `Assembly.run_group`          a group changes the operand that grows and nothing else.
-/

namespace LicenseFormula

namespace Assembly

/-- the assembly with more rows around all of its own -/
def inside (s : Assembly) (outer : List (Row × Bracket)) : Assembly := ⟨s.row, s.around ++ outer⟩

theorem step_inside {s t : Assembly} {x : Symbol} (h : s.step x = .ok t)
    (outer : List (Row × Bracket)) : (s.inside outer).step x = .ok (t.inside outer) := by
  cases x with
  | word text =>
    obtain rfl := Except.ok.inj h
    rfl
  | connective c =>
    obtain rfl := Except.ok.inj h
    rfl
  | opening b =>
    obtain rfl := Except.ok.inj h
    rfl
  | closing b =>
    -- the row that the group goes into is one of the assembly's own
    obtain ⟨row, around, haround, rfl⟩ := step_closing_eq_ok_iff.mp h
    refine step_closing_eq_ok_iff.mpr ⟨row, around ++ outer, ?_, rfl⟩
    rw [inside, haround, List.cons_append]

theorem run_inside {s t : Assembly} {xs : List Symbol} (h : s.run xs = .ok t)
    (outer : List (Row × Bracket)) : (s.inside outer).run xs = .ok (t.inside outer) := by
  induction xs generalizing s with
  | nil =>
    obtain rfl := Except.ok.inj h
    rfl
  | cons x xs ih =>
    rw [run_cons] at h
    cases hx : s.step x with
    | error b => rw [hx] at h; cases h
    | ok u =>
      rw [hx] at h
      rw [run_cons, step_inside hx]
      exact ih h

theorem exists_run_of_prefix {s t : Assembly} {xs ys : List Symbol} (h : s.run xs = .ok t)
    (hys : ys <+: xs) : ∃ u, s.run ys = .ok u := by
  obtain ⟨zs, rfl⟩ := hys
  rw [run_append] at h
  cases hu : s.run ys with
  | error b => rw [hu] at h; cases h
  | ok u => exact ⟨u, rfl⟩

/-- behind an opening bracket symbols do what they do from the start, inside the row put aside -/
theorem run_opening {t : Assembly} {xs : List Symbol} (h : start.run xs = .ok t) (s : Assembly)
    (b : Bracket) : s.run (.opening b :: xs) = .ok (t.inside ((s.row, b) :: s.around)) := by
  have hopen : s.step (.opening b) = .ok (start.inside ((s.row, b) :: s.around)) := rfl
  rw [run_cons, hopen]
  exact run_inside h _

/-- Symbols that are a formula by themselves make a group of it wherever they stand between
brackets of one style: the operand that grows becomes the group, and the operands before it and all
rows around stay as they are.  Nor are any of these touched on the way. -/
theorem run_group {xs : List Symbol} {t : Assembly} {f : Formula} (hrun : start.run xs = .ok t)
    (hf : t.finish? = some f) (s : Assembly) (b : Bracket) :
    s.run (.opening b :: xs ++ [.closing b]) = .ok ⟨⟨s.row.before, .group f⟩, s.around⟩
      ∧ ∀ ys, ys <+: xs → ∃ u, s.run (.opening b :: ys) = .ok u
        ∧ (s.row, b) :: s.around <:+ u.around := by
  constructor
  · obtain ⟨row, around⟩ := t
    cases around with
    | cons frame around => cases hf
    | nil =>
      obtain rfl := Option.some.inj hf
      have hclose : (inside ⟨row, []⟩ ((s.row, b) :: s.around)).step (.closing b)
          = .ok ⟨s.row.setGroup row.formula, s.around⟩ :=
        step_closing_eq_ok_iff.mpr ⟨s.row, s.around, rfl, rfl⟩
      rw [run_append, run_opening hrun]
      exact congrArg (Except.bind · (·.run [])) hclose
  · intro ys hys
    obtain ⟨u, hu⟩ := exists_run_of_prefix hrun hys
    exact ⟨u.inside ((s.row, b) :: s.around), run_opening hu s b, List.suffix_append _ _⟩

theorem run_group_in_row_of_group :
    ∃ s : Assembly, s = ⟨⟨[(.name "a", .and)], .name "b"⟩, [(⟨[], .group (.ofName "")⟩, .paren)]⟩
      ∧ s.run [.opening .brace, .word "c", .opening .paren, .closing .paren, .connective .or,
          .closing .brace]
        = .ok ⟨⟨[(.name "a", .and)], .group (.join (.group (.ofName "")) .or (.ofName ""))⟩,
            s.around⟩
      ∧ ∃ u, s.run [.opening .brace, .word "c", .opening .paren] = .ok u
        ∧ (s.row, .brace) :: s.around <:+ u.around := by
  have hrun : start.run [.word "c", .opening .paren, .closing .paren, .connective .or]
      = .ok ⟨⟨[(.group (.ofName ""), .or)], .empty⟩, []⟩ := rfl
  obtain ⟨hgroup, hprefix⟩ := run_group hrun rfl
    ⟨⟨[(.name "a", .and)], .name "b"⟩, [(⟨[], .group (.ofName "")⟩, .paren)]⟩ .brace
  exact ⟨_, rfl, hgroup, hprefix [.word "c", .opening .paren] ⟨_, rfl⟩⟩

end Assembly

end LicenseFormula
