import Mathlib
import LicenseFormula.Proofs.Stopping

/-!
# Faults of a text

A text fails at a closing bracket as soon as no text that begins so far is a formula, and not
before.  It fails at its end when it can still be completed, by closing the groups that are open;
and nothing shorter completes it.

* `EndsUnmatched b p`              the text `p` ends in the first bracket that closes nothing;
* `EndsUnmatched.parse_append`     then every text that begins with `p` fails, just behind `p`;
* `EndsUnmatched.exists_openAfter` what is shorter than `p` has matched so far;
* `length_of_openAfter`            brackets change the number of open groups by one each;
* `Formula.parse_fails_early`      the offset and the depth that are reported are exact.
-/

namespace LicenseFormula

/-! ### groups that are closed -/

theorem exists_openAfter_of_append {ks : List Bracket} {xs ys : List Edge}
    (h : openAfter ks (xs ++ ys) ≠ none) : ∃ js, openAfter ks xs = some js := by
  rw [openAfter_append] at h
  cases hx : openAfter ks xs with
  | none => rw [hx] at h; exact absurd rfl h
  | some js => exact ⟨js, rfl⟩

theorem length_of_openAfter {ks js : List Bracket} {es : List Edge}
    (h : openAfter ks es = some js) :
    js.length + es.countP Edge.isClosing = ks.length + es.countP (fun e => !e.isClosing) := by
  fun_induction openAfter ks es with
  | case1 ks =>
    obtain rfl := Option.some.inj h
    rfl
  | case2 ks b es ih =>
    have hlen := ih h
    rw [List.length_cons] at hlen
    rw [List.countP_cons_of_neg Bool.false_ne_true, List.countP_cons_of_pos (by rfl)]
    omega
  | case3 b es => cases h
  | case4 ks b es ih =>
    have hlen := ih h
    rw [List.length_cons, List.countP_cons_of_pos (by rfl),
      List.countP_cons_of_neg Bool.false_ne_true]
    omega
  | case5 k ks b es hk => cases h

theorem length_le_countP_isClosing {ks js : List Bracket} {es : List Edge}
    (h : openAfter ks es = some js) : ks.length ≤ js.length + es.countP Edge.isClosing := by
  have hlen := length_of_openAfter h
  omega

theorem openAfter_map_closing (ks : List Bracket) : openAfter ks (ks.map .closing) = some [] := by
  induction ks with
  | nil => rfl
  | cons k ks ih => rw [List.map_cons, openAfter_closing_self, ih]

/-- the text that closes the groups in turn -/
def closersOf (ks : List Bracket) : String := String.ofList (ks.map Bracket.closer)

theorem edgesOf_closersOf (ks : List Bracket) : edgesOf (closersOf ks) = ks.map .closing := by
  rw [edgesOf, closersOf, String.toList_ofList, List.filterMap_map]
  induction ks with
  | nil => rfl
  | cons k ks ih =>
    have hk : (Edge.ofChar? ∘ Bracket.closer) k = some (.closing k) := Edge.ofChar?_closer k
    rw [List.filterMap_cons_some hk, ih, List.map_cons]

theorem Edge.ofChar?_eq_closing {c : Char} {b : Bracket} (h : ofChar? c = some (.closing b)) :
    c = b.closer := by
  unfold ofChar? at h
  split at h
  · cases h
  · cases h; rfl
  · cases h
  · cases h; rfl
  · cases h

/-! ### how a text ends -/

namespace Formula

variable {s : String}

theorem exists_parse_eq_ok_iff_openAfter :
    (∃ f, parse s = .ok f) ↔ openAfter [] (edgesOf s) = some [] := by
  rw [← balanced_iff_openAfter, ← filterMap_edge?_symbolsOf, ← isSome_ofSymbols?_iff,
    ← toOption_parse]
  cases parse s <;> simp [Except.toOption]

theorem exists_of_parse_eq_leftOpen {d : Nat} (h : parse s = .error (.leftOpen d)) :
    ∃ ks, ks ≠ [] ∧ openAfter [] (edgesOf s) = some ks ∧ ks.length = d := by
  cases Reading.ends (.ofString s) with
  | formula _ hr _ => cases hr.symm.trans h
  | unmatched _ _ _ hr _ => cases hr.symm.trans h
  | leftOpen hne hks hr _ =>
    rw [Cursor.ofString, Text.filterMap_ofByte?_bytes] at hks
    exact ⟨_, hne, hks, Fault.leftOpen.inj (Except.error.inj (hr.symm.trans h))⟩

theorem openAfter_of_parse_eq_unmatched {b : Bracket} {n : Nat}
    (h : parse s = .error (.unmatched b n)) : openAfter [] (edgesOf s) = none := by
  obtain ⟨as, bs, ks, hrest, has, hk, _, _⟩ := Reading.exists_of_outcome_eq_unmatched h
  have hbytes : Text.bytes s = as ++ b.closer.toUInt8 :: bs := hrest
  rw [← Text.filterMap_ofByte?_bytes, hbytes, List.filterMap_append, openAfter_append, has,
    List.filterMap_cons_some (Edge.ofByte?_closer b)]
  exact openAfter_closing_eq_none hk _

theorem exists_parse_append_closersOf {ks : List Bracket}
    (h : openAfter [] (edgesOf s) = some ks) : ∃ f, parse (s ++ closersOf ks) = .ok f := by
  rw [exists_parse_eq_ok_iff_openAfter, edgesOf_append, openAfter_append, h, edgesOf_closersOf]
  exact openAfter_map_closing ks

end Formula

/-! ### the first bracket of a text that closes nothing -/

/-- the text ends in a closing bracket, the first of its brackets that closes nothing -/
def EndsUnmatched (b : Bracket) (s : String) : Prop :=
  ∃ p ks, s = p ++ b.closer.toString ∧ openAfter [] (edgesOf p) = some ks ∧ ks.head? ≠ some b

theorem exists_endsUnmatched {s : String} (h : openAfter [] (edgesOf s) = none) :
    ∃ b p q, s = p ++ q ∧ EndsUnmatched b p := by
  obtain ⟨ys, x, zs, b, ks, hs, hx, hks, hb⟩ := exists_unmatched h
  obtain rfl := Edge.ofChar?_eq_closing hx
  refine ⟨b, String.ofList ys ++ b.closer.toString, String.ofList zs, ?_, String.ofList ys, ks,
    rfl, ?_, hb⟩
  · apply String.toList_injective
    rw [hs]
    simp
  · rw [edgesOf, String.toList_ofList]
    exact hks

theorem Text.bytes_closer (b : Bracket) : bytes b.closer.toString = [b.closer.toUInt8] := by
  cases b <;> rfl

namespace EndsUnmatched

variable {b : Bracket} {p : String}

theorem parse_append (h : EndsUnmatched b p) (u : String) :
    Formula.parse (p ++ u) = .error (.unmatched b p.utf8ByteSize)
      ∧ (Reading.ofCursor (.ofString (p ++ u))).stop.offset = p.utf8ByteSize := by
  obtain ⟨p, ks, rfl, hks, hb⟩ := h
  rw [← Text.filterMap_ofByte?_bytes] at hks
  have hcursor : Cursor.ofString (p ++ b.closer.toString ++ u)
      = ⟨0, Text.bytes p ++ b.closer.toUInt8 :: Text.bytes u⟩ := by
    rw [Cursor.ofString, Text.bytes_append, Text.bytes_append, Text.bytes_closer,
      List.append_assoc, List.singleton_append]
  have hsize : 0 + (Text.bytes p).length + 1 = (p ++ b.closer.toString).utf8ByteSize := by
    rw [← Text.length_bytes, Text.bytes_append, Text.bytes_closer, List.length_append,
      List.length_singleton, Nat.zero_add]
  obtain ⟨houtcome, hstop⟩ := Reading.ofCursor_unmatched 0 (Text.bytes u) hks hb
  rw [hsize] at houtcome hstop
  rw [Formula.parse, hcursor, hstop]
  exact ⟨houtcome, rfl⟩

theorem exists_openAfter (h : EndsUnmatched b p) {q p' q' : String} (hs : p ++ q = p' ++ q')
    (hlt : p'.utf8ByteSize < p.utf8ByteSize) : ∃ ks, openAfter [] (edgesOf p') = some ks := by
  obtain ⟨p, ks, rfl, hks, _⟩ := h
  rw [← Text.length_bytes, ← Text.length_bytes, Text.bytes_append, Text.bytes_closer,
    List.length_append, List.length_singleton] at hlt
  have hpre : Text.bytes p' <+: Text.bytes p := by
    have hp' : Text.bytes p' <+: Text.bytes (p' ++ q') := by
      rw [Text.bytes_append]
      exact List.prefix_append _ _
    have hp : Text.bytes p <+: Text.bytes (p' ++ q') := by
      rw [← hs, Text.bytes_append, Text.bytes_append, List.append_assoc]
      exact List.prefix_append _ _
    exact List.prefix_of_prefix_length_le hp' hp (Nat.le_of_lt_succ hlt)
  obtain ⟨bs, hbs⟩ := hpre
  rw [← Text.filterMap_ofByte?_bytes, ← hbs, List.filterMap_append] at hks
  rw [← Text.filterMap_ofByte?_bytes]
  exact exists_openAfter_of_append (by rw [hks]; exact Option.some_ne_none _)

end EndsUnmatched

namespace Formula

/-- A text fails at a closing bracket when what it begins with is the beginning of no formula,
and all that is shorter is the beginning of one.  It fails at its end when groups are open, and
then closing these is the least that makes it a formula. -/
theorem parse_fails_early (s : String) :
    (∀ b n, parse s = .error (.unmatched b n) →
      ∃ p q, s = p ++ q ∧ p.utf8ByteSize = n
        ∧ (∀ u, parse (p ++ u) = .error (.unmatched b n)
          ∧ (Reading.ofCursor (.ofString (p ++ u))).stop.offset = n)
        ∧ ∀ p' q', s = p' ++ q' → p'.utf8ByteSize < n → ∃ u f, parse (p' ++ u) = .ok f)
    ∧ ∀ d, parse s = .error (.leftOpen d) →
      1 ≤ d
        ∧ (∃ ks, openAfter [] (edgesOf s) = some ks ∧ ks.length = d
          ∧ ∃ f, parse (s ++ closersOf ks) = .ok f)
        ∧ ∀ u f, parse (s ++ u) = .ok f → d ≤ (edgesOf u).countP Edge.isClosing := by
  constructor
  · intro b n h
    obtain ⟨k, p, q, rfl, hp⟩ := exists_endsUnmatched (openAfter_of_parse_eq_unmatched h)
    obtain ⟨rfl, rfl⟩ := Fault.unmatched.inj (Except.error.inj ((hp.parse_append q).1.symm.trans h))
    refine ⟨p, q, rfl, rfl, hp.parse_append, fun p' q' hs hlt => ?_⟩
    obtain ⟨ks, hks⟩ := hp.exists_openAfter hs hlt
    exact ⟨closersOf ks, exists_parse_append_closersOf hks⟩
  · intro d h
    obtain ⟨ks, hne, hks, rfl⟩ := exists_of_parse_eq_leftOpen h
    refine ⟨List.length_pos_iff.mpr hne, ⟨ks, hks, rfl, exists_parse_append_closersOf hks⟩, ?_⟩
    intro u f hu
    have hclosed := exists_parse_eq_ok_iff_openAfter.mp ⟨f, hu⟩
    rw [edgesOf_append, openAfter_append, hks] at hclosed
    have hle := length_le_countP_isClosing hclosed
    rwa [List.length_nil, Nat.zero_add] at hle

theorem parse_fails_early_in_group :
    parse "é\x7ban or b) c" = .error (.unmatched .paren 11)
      ∧ (∃ u f, parse ("é\x7ba" ++ u) = .ok f)
      ∧ parse "a (\x7bb" = .error (.leftOpen 2)
      ∧ ∀ u f, parse ("a (\x7bb" ++ u) = .ok f → 2 ≤ (edgesOf u).countP Edge.isClosing := by
  have h : parse "é\x7ban or b) c" = .error (.unmatched .paren 11) := by cbv
  have h' : parse "a (\x7bb" = .error (.leftOpen 2) := by cbv
  obtain ⟨p, q, hs, hp, hfail, hgo⟩ := (parse_fails_early "é\x7ban or b) c").1 .paren 11 h
  exact ⟨h, hgo "é\x7ba" "n or b) c" rfl (by decide), h',
    ((parse_fails_early "a (\x7bb").2 2 h').2.2⟩

end Formula

end LicenseFormula
