import LicenseFormula.Formula.Json
import LicenseFormula.Proofs.Ascii

/-!
# JSON texts that stand apart

The JSON text of a formula shows by itself where it ends, whatever follows it and whatever the
names hold.  An escaped character can be read back from the characters it begins with, and none
begins with a quote, so the quote behind a name is the first one that is not part of an escape.
Around the names the text of each part begins differently from that of any other part that may
stand in its place.

* `Text.unescape? cs`              the first character of the inside of a JSON string, and the rest;
* `Text.eq_of_escaped_append`      a name and what is behind its closing quote are told apart;
* `Formula.eq_of_charsOf_jsonNodesOnto`, `Operand.eq_of_charsOf_jsonOnto`
                                   so are formulas and operands from what is behind them;
* `Formula.isPrintable_json`       the text holds no control character;
* `Formula.json_append_eq_iff`     the text of a formula is read in one way only.
-/

namespace LicenseFormula

namespace Text

/-! ### escaped characters -/

def hexValue (c : Char) : Nat := if c.isDigit then c.toNat - 0x30 else c.toNat - 0x57

/-- the first character of the inside of a JSON string, and what is behind it; there is none at
the closing quote -/
def unescape? : List Char → Option (Char × List Char)
  | [] => none
  | '\"' :: _ => none
  | '\\' :: 'u' :: '0' :: '0' :: h :: l :: cs =>
    some (Char.ofNat (16 * hexValue h + hexValue l), cs)
  | '\\' :: '\"' :: cs => some ('\"', cs)
  | '\\' :: '\\' :: cs => some ('\\', cs)
  | '\\' :: 'b' :: cs => some ('\x08', cs)
  | '\\' :: 'f' :: cs => some ('\x0c', cs)
  | '\\' :: 'n' :: cs => some ('\n', cs)
  | '\\' :: 'r' :: cs => some ('\r', cs)
  | '\\' :: 't' :: cs => some ('\t', cs)
  | '\\' :: _ => none
  | c :: cs => some (c, cs)

theorem hexValue_hexByte {c : Char} (h : c.toNat < 0x20) :
    Char.ofNat (16 * hexValue (Nat.digitChar (c.toUInt8.toNat / 16))
      + hexValue (Nat.digitChar (c.toUInt8.toNat % 16))) = c :=
  forall_char_lt (p := fun c => Char.ofNat (16 * hexValue (Nat.digitChar (c.toUInt8.toNat / 16))
    + hexValue (Nat.digitChar (c.toUInt8.toNat % 16))) = c) (by decide +kernel) c h

theorem toList_hexByte (b : UInt8) :
    (hexByte b).toList = [Nat.digitChar (b.toNat / 16), Nat.digitChar (b.toNat % 16)] :=
  String.toList_ofList

theorem unescape?_jsonChar_append (c : Char) (cs : List Char) :
    unescape? ((jsonChar c).toList ++ cs) = some (c, cs) := by
  unfold jsonChar
  split
  any_goals rfl
  · split
    · next hlt =>
      rw [String.toList_append, toList_hexByte, List.append_assoc]
      show some (Char.ofNat _, cs) = some (c, cs)
      rw [hexValue_hexByte hlt]
    · rw [Char.toString_eq_singleton, String.toList_singleton, List.singleton_append]
      unfold unescape?
      split <;> simp_all

/-! ### pieces one after the other -/

/-- the characters of pieces one after the other -/
def charsOf (pieces : List String) : List Char := (String.join pieces).toList

theorem charsOf_cons (p : String) (ps : List String) :
    charsOf (p :: ps) = p.toList ++ charsOf ps := by
  rw [charsOf, String.join_cons, String.toList_append]
  rfl

/-- the inside of the JSON string of a text -/
def escaped (cs : List Char) : List Char := cs.flatMap fun c => (jsonChar c).toList

theorem charsOf_jsonString_append (s : String) (behind : List String) :
    charsOf (jsonString s ++ behind) = '\"' :: (escaped s.toList ++ '\"' :: charsOf behind) := by
  have hinside : ∀ cs : List Char, charsOf (cs.map jsonChar ++ "\"" :: behind)
      = escaped cs ++ '\"' :: charsOf behind := by
    intro cs
    induction cs with
    | nil => exact charsOf_cons _ _
    | cons c cs ih =>
      rw [List.map_cons, List.cons_append, charsOf_cons, ih, ← List.append_assoc]
      rfl
  rw [jsonString, List.cons_append, List.cons_append, charsOf_cons, List.append_assoc,
    List.singleton_append, hinside]
  rfl

theorem eq_of_escaped_append {cs ds x y : List Char}
    (h : escaped cs ++ '\"' :: x = escaped ds ++ '\"' :: y) : cs = ds ∧ x = y := by
  have hnil : ∀ z : List Char, unescape? (escaped [] ++ '\"' :: z) = none := fun _ => rfl
  have hcons : ∀ (c : Char) (cs z : List Char), unescape? (escaped (c :: cs) ++ '\"' :: z)
      = some (c, escaped cs ++ '\"' :: z) := by
    intro c cs z
    rw [escaped, List.flatMap_cons, List.append_assoc, unescape?_jsonChar_append]
    rfl
  induction cs generalizing ds with
  | nil =>
    cases ds with
    | nil => exact ⟨rfl, (List.cons.inj h).2⟩
    | cons d ds =>
      have hread := congrArg unescape? h
      rw [hnil, hcons] at hread
      cases hread
  | cons c cs ih =>
    have hread := congrArg unescape? h
    cases ds with
    | nil =>
      rw [hnil, hcons] at hread
      cases hread
    | cons d ds =>
      rw [hcons, hcons] at hread
      obtain ⟨rfl, hrest⟩ := Prod.mk.inj (Option.some.inj hread)
      obtain ⟨rfl, hxy⟩ := ih hrest
      exact ⟨rfl, hxy⟩

end Text

open Text

/-! ### formulas and what is behind them -/

theorem charsOf_jsonOnto_name (text : String) (x : List String) :
    charsOf ((Operand.name text).jsonOnto x)
      = charsOf ["\x7b\"leaf\":", "\""]
        ++ (escaped text.toList ++ '\"' :: charsOf ("\x7d" :: x)) := by
  have hstring := charsOf_jsonString_append text ("\x7d" :: x)
  rw [Operand.jsonOnto, List.cons_append, charsOf_cons, hstring]
  rfl

theorem eq_of_charsOf_cons {p : String} {x y : List String}
    (h : charsOf (p :: x) = charsOf (p :: y)) : charsOf x = charsOf y := by
  rw [charsOf_cons, charsOf_cons] at h
  exact List.append_cancel_left h

/-- what begins with texts of which neither begins with the other is not the same -/
theorem charsOf_cons_ne {p q : String} (hpq : ¬ p.toList <+: q.toList)
    (hqp : ¬ q.toList <+: p.toList) (x y : List String) : charsOf (p :: x) ≠ charsOf (q :: y) := by
  intro h
  have hp : p.toList <+: charsOf (p :: x) := by
    rw [charsOf_cons]
    exact List.prefix_append _ _
  have hq : q.toList <+: charsOf (p :: x) := by
    rw [h, charsOf_cons]
    exact List.prefix_append _ _
  rcases List.prefix_or_prefix_of_prefix hp hq with hpre | hpre
  · exact hpq hpre
  · exact hqp hpre

theorem eq_of_charsOf_text {c d : Connective} {x y : List String}
    (h : charsOf (c.text :: x) = charsOf (d.text :: y)) : c = d ∧ charsOf x = charsOf y := by
  match c, d with
  | .and, .and => exact ⟨rfl, eq_of_charsOf_cons h⟩
  | .or, .or => exact ⟨rfl, eq_of_charsOf_cons h⟩
  | .and, .or => exact absurd h (charsOf_cons_ne (by decide) (by decide) x y)
  | .or, .and => exact absurd h (charsOf_cons_ne (by decide) (by decide) x y)

/-- the text behind the last operand is not that behind any other -/
theorem charsOf_null_ne (x y : List String) :
    charsOf (",\"operator\":null\x7d" :: x) ≠ charsOf (",\"operator\":\"" :: y) :=
  charsOf_cons_ne (by decide) (by decide) x y

/-- the text of a name begins otherwise than that of a group -/
theorem charsOf_leaf_ne (x y : List String) :
    charsOf ("\x7b\"leaf\":" :: x) ≠ charsOf ("\x7b\"group\":\x7b\"nodes\":[" :: y) :=
  charsOf_cons_ne (by decide) (by decide) x y

mutual

theorem Formula.eq_of_charsOf_jsonNodesOnto (f g : Formula) {x y : List String}
    (h : charsOf (f.jsonNodesOnto x) = charsOf (g.jsonNodesOnto y)) :
    f = g ∧ charsOf x = charsOf y := by
  match f, g with
  | .last a, .last b =>
    obtain ⟨rfl, hbehind⟩ := a.eq_of_charsOf_jsonOnto b (eq_of_charsOf_cons h)
    exact ⟨rfl, eq_of_charsOf_cons hbehind⟩
  | .last a, .join b d next =>
    obtain ⟨rfl, hbehind⟩ := a.eq_of_charsOf_jsonOnto b (eq_of_charsOf_cons h)
    exact absurd hbehind (charsOf_null_ne _ _)
  | .join a c next, .last b =>
    obtain ⟨rfl, hbehind⟩ := a.eq_of_charsOf_jsonOnto b (eq_of_charsOf_cons h)
    exact absurd hbehind.symm (charsOf_null_ne _ _)
  | .join a c next, .join b d next' =>
    obtain ⟨rfl, hbehind⟩ := a.eq_of_charsOf_jsonOnto b (eq_of_charsOf_cons h)
    obtain ⟨rfl, hnext⟩ := eq_of_charsOf_text (eq_of_charsOf_cons hbehind)
    obtain ⟨rfl, hxy⟩ := next.eq_of_charsOf_jsonNodesOnto next' (eq_of_charsOf_cons hnext)
    exact ⟨rfl, hxy⟩

theorem Operand.eq_of_charsOf_jsonOnto (a b : Operand) {x y : List String}
    (h : charsOf (a.jsonOnto x) = charsOf (b.jsonOnto y)) : a = b ∧ charsOf x = charsOf y := by
  match a, b with
  | .name text, .name text' =>
    rw [charsOf_jsonOnto_name, charsOf_jsonOnto_name] at h
    obtain ⟨htext, hbehind⟩ := eq_of_escaped_append (List.append_cancel_left h)
    exact ⟨congrArg Operand.name (String.toList_injective htext), eq_of_charsOf_cons hbehind⟩
  | .name text, .group inner => exact absurd h (charsOf_leaf_ne _ _)
  | .group inner, .name text => exact absurd h.symm (charsOf_leaf_ne _ _)
  | .group inner, .group inner' =>
    obtain ⟨rfl, hbehind⟩ := inner.eq_of_charsOf_jsonNodesOnto inner' (eq_of_charsOf_cons h)
    exact ⟨rfl, eq_of_charsOf_cons hbehind⟩

end

/-! ### control characters -/

/-- no character before the space -/
def Text.IsPrintable (cs : List Char) : Prop := ∀ c ∈ cs, 0x20 ≤ c.toNat

namespace Text.IsPrintable

-- the instance is named: another one would go through all characters there are
instance (cs : List Char) : Decidable (IsPrintable cs) :=
  List.decidableBAll _ cs

theorem append {cs ds : List Char} (hc : IsPrintable cs) (hd : IsPrintable ds) :
    IsPrintable (cs ++ ds) :=
  List.forall_mem_append.mpr ⟨hc, hd⟩

theorem cons {p : String} {x : List String} (hp : IsPrintable p.toList)
    (hx : IsPrintable (charsOf x)) : IsPrintable (charsOf (p :: x)) := by
  rw [charsOf_cons]
  exact hp.append hx

theorem jsonChar (c : Char) : IsPrintable (Text.jsonChar c).toList := by
  by_cases hc : c.toNat < 0x80
  · exact forall_char_lt (p := fun c => IsPrintable (Text.jsonChar c).toList)
      (by decide +kernel) c hc
  · have hself : Text.jsonChar c = c.toString := by
      unfold Text.jsonChar
      split
      case h_8 => exact if_neg (by omega)
      all_goals exact absurd (by decide) hc
    rw [hself, Char.toString_eq_singleton, String.toList_singleton]
    exact List.forall_mem_singleton.mpr (by omega)

theorem escaped (cs : List Char) : IsPrintable (Text.escaped cs) := by
  intro d hd
  obtain ⟨c, _, hc⟩ := List.mem_flatMap.mp hd
  exact jsonChar c d hc

end Text.IsPrintable

mutual

theorem Formula.isPrintable_jsonNodesOnto (f : Formula) {x : List String}
    (hx : IsPrintable (charsOf x)) : IsPrintable (charsOf (f.jsonNodesOnto x)) := by
  match f with
  | .last a => exact .cons (by decide) (a.isPrintable_jsonOnto (.cons (by decide) hx))
  | .join a c next =>
    have hc : IsPrintable c.text.toList := by cases c <;> decide
    have hnext := next.isPrintable_jsonNodesOnto hx
    exact .cons (by decide) (a.isPrintable_jsonOnto
      (.cons (by decide) (.cons hc (.cons (by decide) hnext))))

theorem Operand.isPrintable_jsonOnto (a : Operand) {x : List String}
    (hx : IsPrintable (charsOf x)) : IsPrintable (charsOf (a.jsonOnto x)) := by
  match a with
  | .name text =>
    have hbehind : IsPrintable (charsOf ("\"" :: "\x7d" :: x)) :=
      .cons (by decide) (.cons (by decide) hx)
    rw [charsOf_cons] at hbehind
    rw [charsOf_jsonOnto_name]
    exact .append (.cons (by decide) (by decide)) (.append (.escaped text.toList) hbehind)
  | .group inner =>
    exact .cons (by decide) (inner.isPrintable_jsonNodesOnto (.cons (by decide) hx))

end

/-! ### whole texts -/

mutual

theorem Formula.jsonNodesOnto_append (f : Formula) (x y : List String) :
    f.jsonNodesOnto (x ++ y) = f.jsonNodesOnto x ++ y := by
  match f with
  | .last a =>
    rw [Formula.jsonNodesOnto, Formula.jsonNodesOnto, List.cons_append, ← a.jsonOnto_append]
    rfl
  | .join a c next =>
    rw [Formula.jsonNodesOnto, Formula.jsonNodesOnto, List.cons_append, ← a.jsonOnto_append,
      next.jsonNodesOnto_append]
    rfl

theorem Operand.jsonOnto_append (a : Operand) (x y : List String) :
    a.jsonOnto (x ++ y) = a.jsonOnto x ++ y := by
  match a with
  | .name text =>
    rw [Operand.jsonOnto, Operand.jsonOnto, List.append_assoc]
    rfl
  | .group inner =>
    rw [Operand.jsonOnto, Operand.jsonOnto, List.cons_append, ← inner.jsonNodesOnto_append]
    rfl

end

namespace Formula

theorem toList_json_append (f : Formula) (u : String) :
    (f.json ++ u).toList = charsOf ("\x7b\"nodes\":[" :: f.jsonNodesOnto ["]\x7d", u]) := by
  have hpieces : f.jsonNodesOnto ["]\x7d", u] = f.jsonNodesOnto ["]\x7d"] ++ [u] :=
    f.jsonNodesOnto_append ["]\x7d"] [u]
  have hlast : String.join [u] = u := by
    rw [String.join_cons, String.join_nil, String.append_empty]
  rw [hpieces, charsOf, ← List.cons_append, String.join_append, hlast]
  rfl

theorem eq_of_json_append_eq {f g : Formula} {u v : String} (h : f.json ++ u = g.json ++ v) :
    f = g ∧ u = v := by
  have hchars := congrArg String.toList h
  rw [toList_json_append, toList_json_append] at hchars
  obtain ⟨hfg, hbehind⟩ := f.eq_of_charsOf_jsonNodesOnto g (eq_of_charsOf_cons hchars)
  have huv := eq_of_charsOf_cons hbehind
  rw [charsOf_cons, charsOf_cons] at huv
  exact ⟨hfg, String.toList_injective (List.append_cancel_right huv)⟩

theorem isPrintable_json (f : Formula) : IsPrintable f.json.toList :=
  .cons (by decide) (f.isPrintable_jsonNodesOnto (by decide))

/-- A JSON text with anything behind it is that of one formula only, and shows where it ends; so
formulas with the same text are the same, and no text begins with that of another formula.  None
holds a control character as it is. -/
theorem json_append_eq_iff (f g : Formula) (u v : String) :
    (f.json ++ u = g.json ++ v ↔ f = g ∧ u = v)
      ∧ (f.json = g.json ↔ f = g)
      ∧ (f.json.toList <+: g.json.toList ↔ f = g)
      ∧ ¬ ∃ c ∈ f.json.toList, c.toNat < 0x20 := by
  refine ⟨⟨eq_of_json_append_eq, ?_⟩, ⟨fun h => ?_, congrArg json⟩, ⟨?_, ?_⟩, ?_⟩
  · rintro ⟨rfl, rfl⟩
    rfl
  · exact (eq_of_json_append_eq (congrArg (· ++ "") h)).1
  · rintro ⟨cs, hcs⟩
    refine (eq_of_json_append_eq (u := String.ofList cs) (v := "") (String.toList_injective ?_)).1
    rw [String.toList_append, String.toList_ofList, hcs, String.append_empty]
  · rintro rfl
    exact List.prefix_rfl
  · rintro ⟨c, hc, hlt⟩
    exact Nat.not_le.mpr hlt (f.isPrintable_json c hc)

end Formula

end LicenseFormula
