import LicenseFormula.Proofs.Acceptance

/-!
# Where a reading stops

A reading stops behind the first closing bracket that closes nothing, and at the end of the bytes
when there is none.  What it has assembled does not matter for that, only the groups that are open,
so how a reading ends can be told from the brackets among the bytes alone.

* `exists_unmatched`         where brackets do not match, one of them is the first to close nothing;
* `Reading.ofLexemes_append` a reading goes on from the state that the first lexemes lead to;
* `Reading.Ends c r`         the three ways for a reading from the cursor `c` to end;
* `Reading.ends`             every reading ends in one of these ways;
* `Reading.exists_of_outcome_eq_unmatched` what is known of a reading that fails at a bracket.
-/

namespace LicenseFormula

/-! ### the first bracket that closes nothing -/

def Edge.isClosing : Edge → Bool
  | opening _ => false
  | closing _ => true

theorem openAfter_closing_eq_none {b : Bracket} {ks : List Bracket} (h : ks.head? ≠ some b)
    (es : List Edge) : openAfter ks (.closing b :: es) = none := by
  cases ks with
  | nil => rfl
  | cons k ks => exact if_neg fun hk => h (congrArg some hk)

theorem head?_ne_of_openAfter_eq_none {e : Edge} {ks : List Bracket}
    (h : openAfter ks [e] = none) : ∃ b, e = .closing b ∧ ks.head? ≠ some b := by
  cases e with
  | opening b => cases h
  | closing b =>
    refine ⟨b, rfl, fun hb => ?_⟩
    obtain ⟨js, rfl⟩ := List.head?_eq_some_iff.mp hb
    rw [openAfter_closing_self] at h
    cases h

theorem exists_unmatched {α : Type} {edge? : α → Option Edge} {ks : List Bracket} {xs : List α}
    (h : openAfter ks (xs.filterMap edge?) = none) :
    ∃ ys x zs b js, xs = ys ++ x :: zs ∧ edge? x = some (.closing b) ∧
      openAfter ks (ys.filterMap edge?) = some js ∧ js.head? ≠ some b := by
  induction xs generalizing ks with
  | nil => cases h
  | cons x xs ih =>
    rw [filterMap_cons_toList, openAfter_append] at h
    cases hx : openAfter ks (edge? x).toList with
    | none =>
      cases he : edge? x with
      | none => rw [he] at hx; cases hx
      | some e =>
        rw [he] at hx
        obtain ⟨b, rfl, hb⟩ := head?_ne_of_openAfter_eq_none hx
        exact ⟨[], x, xs, b, ks, rfl, he, rfl, hb⟩
    | some js =>
      rw [hx] at h
      obtain ⟨ys, y, zs, b, ls, rfl, hy, hys, hb⟩ := ih h
      refine ⟨x :: ys, y, zs, b, ls, rfl, hy, ?_, hb⟩
      rw [filterMap_cons_toList, openAfter_append, hx]
      exact hys

/-! ### lexemes around a closing bracket -/

/-- the bytes behind lexemes do not change what these mean -/
theorem Cursor.filterMap_symbol?_extend (c : Cursor) (bs : List UInt8) :
    (c.lexemes.map (Placed.extend bs)).filterMap Placed.symbol? = c.symbols := by
  rw [List.filterMap_map]
  rfl

theorem Cursor.lexemes_append_closer (k : Nat) (as bs : List UInt8) (b : Bracket) :
    (⟨k, as ++ b.closer.toUInt8 :: bs⟩ : Cursor).lexemes
      = (⟨k, as⟩ : Cursor).lexemes.map (Placed.extend (b.closer.toUInt8 :: bs))
        ++ ⟨k + as.length, .closing b, ⟨k + as.length + 1, bs⟩⟩
          :: (⟨k + as.length + 1, bs⟩ : Cursor).lexemes := by
  have hseam : Seam as (b.closer.toUInt8 :: bs) := by
    refine Seam.of_head fun x hx => ?_
    obtain rfl := Option.some.inj hx
    cases b <;> rfl
  have hsingle : Lexeme.ofByte? b.closer.toUInt8 = some (.closing b) := by
    cases b <;> rfl
  rw [Cursor.lexemes_append hseam k, Cursor.lexemes_single _ bs hsingle]

/-! ### states that lexemes lead to -/

theorem Assembly.exists_run_symbols_eq_ok {s : Assembly} {c : Cursor} {ks : List Bracket}
    (h : openAfter s.brackets (c.rest.filterMap Edge.ofByte?) = some ks) :
    ∃ t, s.run c.symbols = .ok t ∧ t.brackets = ks := by
  have hrun := s.map_brackets_run c.symbols
  rw [c.filterMap_edge?_symbols, h] at hrun
  cases ht : s.run c.symbols with
  | error b => rw [ht] at hrun; cases hrun
  | ok t =>
    rw [ht] at hrun
    exact ⟨t, rfl, Option.some.inj hrun⟩

theorem Assembly.step_closing_eq_error {s : Assembly} {b : Bracket}
    (h : s.brackets.head? ≠ some b) : s.step (.closing b) = .error b := by
  obtain ⟨row, around⟩ := s
  cases around with
  | nil => rfl
  | cons frame around => exact if_neg fun hk => h (congrArg some hk)

theorem Assembly.length_brackets (s : Assembly) : s.brackets.length = s.depth :=
  List.length_map _

namespace Reading

theorem behind_behind (es fs : List Event) (r : Reading) :
    (r.behind fs).behind es = r.behind (es ++ fs) := by
  simp only [behind, List.append_assoc]

theorem ofLexemes_append (finish : Cursor) {s t : Assembly} {ps : List Placed}
    (qs : List Placed) (h : s.run (ps.filterMap Placed.symbol?) = .ok t) :
    ∃ es, ofLexemes finish s (ps ++ qs) = (ofLexemes finish t qs).behind es := by
  induction ps generalizing s with
  | nil =>
    obtain rfl := Except.ok.inj h
    exact ⟨[], rfl⟩
  | cons p ps ih =>
    cases hx : p.symbol? with
    | none =>
      rw [List.filterMap_cons_none hx] at h
      obtain ⟨es, hes⟩ := ih h
      refine ⟨p.events ++ es, ?_⟩
      rw [List.cons_append, ofLexemes, hx, ← behind_behind, ← hes]
    | some x =>
      rw [List.filterMap_cons_some hx, Assembly.run_cons] at h
      cases hu : s.step x with
      | error b => rw [hu] at h; cases h
      | ok u =>
        rw [hu] at h
        obtain ⟨es, hes⟩ := ih h
        refine ⟨p.events ++ x.events s u p.after.offset ++ es, ?_⟩
        rw [List.cons_append, ofLexemes, hx, ← behind_behind, ← hes]
        simp only [hu]

/-! ### the end of a reading -/

/-- how a reading from a cursor ends -/
inductive Ends (c : Cursor) : Reading → Prop where
  | formula {r : Reading} {f : Formula} :
    openAfter [] (c.rest.filterMap Edge.ofByte?) = some [] →
      r.outcome = .ok f → r.stop = c.toEnd → Ends c r
  | leftOpen {r : Reading} {ks : List Bracket} : ks ≠ [] →
    openAfter [] (c.rest.filterMap Edge.ofByte?) = some ks →
      r.outcome = .error (.leftOpen ks.length) → r.stop = c.toEnd → Ends c r
  | unmatched {r : Reading} {b : Bracket} {as bs : List UInt8} {ks : List Bracket} :
    c.rest = as ++ b.closer.toUInt8 :: bs →
      openAfter [] (as.filterMap Edge.ofByte?) = some ks → ks.head? ≠ some b →
      r.outcome = .error (.unmatched b (c.offset + as.length + 1)) →
      r.stop = ⟨c.offset + as.length + 1, bs⟩ → Ends c r

theorem ends_of_openAfter {c : Cursor} {ks : List Bracket}
    (h : openAfter [] (c.rest.filterMap Edge.ofByte?) = some ks) : Ends c (ofCursor c) := by
  obtain ⟨t, hrun, rfl⟩ := Assembly.exists_run_symbols_eq_ok (s := .start) h
  obtain ⟨es, hes⟩ := ofLexemes_append c.toEnd [] hrun
  rw [List.append_nil] at hes
  change ofCursor c = _ at hes
  rw [hes]
  obtain ⟨row, around⟩ := t
  cases around with
  | nil => exact .formula h rfl rfl
  | cons frame around =>
    have hne : Assembly.brackets ⟨row, frame :: around⟩ ≠ [] := List.cons_ne_nil _ _
    refine .leftOpen hne h ?_ rfl
    rw [Assembly.length_brackets]
    rfl

theorem ofCursor_unmatched {as : List UInt8} {b : Bracket} {ks : List Bracket} (k : Nat)
    (bs : List UInt8) (has : openAfter [] (as.filterMap Edge.ofByte?) = some ks)
    (hb : ks.head? ≠ some b) :
    (ofCursor ⟨k, as ++ b.closer.toUInt8 :: bs⟩).outcome
        = .error (.unmatched b (k + as.length + 1))
      ∧ (ofCursor ⟨k, as ++ b.closer.toUInt8 :: bs⟩).stop = ⟨k + as.length + 1, bs⟩ := by
  obtain ⟨t, hrun, rfl⟩ := Assembly.exists_run_symbols_eq_ok (s := .start) (c := ⟨k, as⟩) has
  rw [← Cursor.filterMap_symbol?_extend _ (b.closer.toUInt8 :: bs)] at hrun
  obtain ⟨es, hes⟩ := ofLexemes_append
    (⟨k, as ++ b.closer.toUInt8 :: bs⟩ : Cursor).toEnd _ hrun
  rw [ofCursor, Cursor.lexemes_append_closer, hes, ofLexemes]
  have hx : (Placed.mk (k + as.length) (.closing b) ⟨k + as.length + 1, bs⟩).symbol?
      = some (.closing b) := rfl
  simp only [hx, Assembly.step_closing_eq_error hb]
  exact ⟨rfl, rfl⟩

theorem ends (c : Cursor) : Ends c (ofCursor c) := by
  cases h : openAfter [] (c.rest.filterMap Edge.ofByte?) with
  | some ks => exact ends_of_openAfter h
  | none =>
    obtain ⟨as, x, bs, b, ks, hrest, hx, has, hb⟩ := exists_unmatched h
    obtain rfl := Edge.ofByte?_eq_closing hx
    obtain ⟨k, rest⟩ := c
    obtain rfl : rest = as ++ b.closer.toUInt8 :: bs := hrest
    obtain ⟨houtcome, hstop⟩ := ofCursor_unmatched k bs has hb
    exact .unmatched rfl has hb houtcome hstop

theorem exists_of_outcome_eq_unmatched {c : Cursor} {b : Bracket} {n : Nat}
    (h : (ofCursor c).outcome = .error (.unmatched b n)) :
    ∃ as bs ks, c.rest = as ++ b.closer.toUInt8 :: bs
      ∧ openAfter [] (as.filterMap Edge.ofByte?) = some ks ∧ ks.head? ≠ some b
      ∧ n = c.offset + as.length + 1 ∧ (ofCursor c).stop = ⟨n, bs⟩ := by
  cases ends c with
  | formula _ hr _ => cases hr.symm.trans h
  | leftOpen _ _ hr _ => cases hr.symm.trans h
  | @unmatched k as bs ks hrest has hk hr hstop =>
    obtain ⟨rfl, rfl⟩ := Fault.unmatched.inj (Except.error.inj (hr.symm.trans h))
    exact ⟨as, bs, ks, hrest, has, hk, rfl, hstop⟩

end Reading

end LicenseFormula
