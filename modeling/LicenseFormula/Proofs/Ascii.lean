import LicenseFormula.Balance
import LicenseFormula.ByteClass
import LicenseFormula.Text.Utf8

/-!
# ASCII and other bytes

An ASCII character is one byte, its code point; all bytes of any other character are at least
`0x80`, and such a byte is stray wherever it stands.  So the class of a byte can be read off the
characters of a text, and a list of ASCII bytes is the UTF-8 form of the text that shows them.

* `Edge.ofByte? b`               the bracket that a byte is, if any;
* `Text.exists_bytes_eq_of_ascii` what stands before an ASCII byte of a text is a text;
* `Text.bytes_ofList_ofUInt8`    ASCII bytes, taken for characters, have themselves as UTF-8 form;
* `Text.filterMap_ofByte?_bytes` the brackets among the bytes of a text are those of the text.
-/

namespace LicenseFormula

theorem forall_byte_lt {n : Nat} {p : UInt8 → Prop} (h : ∀ k < n, p (UInt8.ofNat k)) (b : UInt8)
    (hb : b.toNat < n) : p b := by
  have hp := h b.toNat hb
  rwa [UInt8.ofNat_toNat] at hp

theorem forall_char_lt {n : Nat} {p : Char → Prop} (h : ∀ k < n, p (Char.ofNat k)) (c : Char)
    (hc : c.toNat < n) : p c := by
  have hp := h c.toNat hc
  rwa [Char.ofNat_toNat] at hp

theorem filterMap_cons_toList {α β : Type} (f : α → Option β) (x : α) (xs : List α) :
    (x :: xs).filterMap f = (f x).toList ++ xs.filterMap f := by
  rw [List.filterMap_cons]
  cases f x <;> rfl

/-! ### classes of bytes -/

theorem ByteClass.of_eq_stray {b : UInt8} (h : 0x80 ≤ b.toNat) : ByteClass.of b = .stray :=
  forall_byte_lt (n := 256) (p := fun b => 0x80 ≤ b.toNat → ByteClass.of b = .stray)
    (by decide +kernel) b b.toNat_lt h

/-- the byte of a class that has only one, that of a bracket -/
def ByteClass.bracketByte? : ByteClass → Option UInt8
  | opening k => some k.opener.toUInt8
  | closing k => some k.closer.toUInt8
  | _ => none

theorem ByteClass.eq_of_bracketByte? {b c : UInt8} (h : (ByteClass.of b).bracketByte? = some c) :
    b = c :=
  forall_byte_lt (n := 256) (p := fun b => ∀ c ∈ (ByteClass.of b).bracketByte?, b = c)
    (by decide +kernel) b b.toNat_lt c h

theorem ByteClass.eq_opener {b : UInt8} {k : Bracket} (h : ByteClass.of b = .opening k) :
    b = k.opener.toUInt8 :=
  eq_of_bracketByte? (by rw [h]; rfl)

theorem ByteClass.eq_closer {b : UInt8} {k : Bracket} (h : ByteClass.of b = .closing k) :
    b = k.closer.toUInt8 :=
  eq_of_bracketByte? (by rw [h]; rfl)

theorem toNat_lt_of_isWordByte {b : UInt8} (h : isWordByte b = true) : b.toNat < 0x80 := by
  refine Nat.lt_of_not_le fun hb => ?_
  rw [isWordByte_iff, ByteClass.of_eq_stray hb] at h
  cases h

namespace Edge

def ofByte? (b : UInt8) : Option Edge :=
  match ByteClass.of b with
  | .opening k => some (.opening k)
  | .closing k => some (.closing k)
  | _ => none

theorem ofByte?_of_isWordByte {b : UInt8} (h : isWordByte b = true) : ofByte? b = none := by
  rw [ofByte?, isWordByte_iff.mp h]

theorem ofByte?_eq_none {b : UInt8} (h : 0x80 ≤ b.toNat) : ofByte? b = none := by
  rw [ofByte?, ByteClass.of_eq_stray h]

theorem ofByte?_eq_closing {b : UInt8} {k : Bracket} (h : ofByte? b = some (.closing k)) :
    b = k.closer.toUInt8 := by
  unfold ofByte? at h
  split at h
  · cases h
  · next hb =>
    obtain rfl := Edge.closing.inj (Option.some.inj h)
    exact ByteClass.eq_closer hb
  · cases h

theorem ofByte?_closer (k : Bracket) : ofByte? k.closer.toUInt8 = some (.closing k) := by
  cases k <;> rfl

theorem ofByte?_toUInt8 {c : Char} (h : c.toNat < 0x80) : ofByte? c.toUInt8 = ofChar? c :=
  forall_char_lt (p := fun c => ofByte? c.toUInt8 = ofChar? c) (by decide +kernel) c h

theorem ofChar?_eq_none {c : Char} (h : 0x80 ≤ c.toNat) : ofChar? c = none := by
  unfold ofChar?
  split
  · exact absurd h (by decide)
  · exact absurd h (by decide)
  · exact absurd h (by decide)
  · exact absurd h (by decide)
  · rfl

end Edge

/-! ### bytes of characters -/

namespace Text

theorem utf8EncodeChar_ascii {c : Char} (h : c.toNat < 0x80) :
    String.utf8EncodeChar c = [c.toUInt8] := by
  have hv : c.val.toNat ≤ 0x7f := Nat.le_of_lt_succ h
  unfold String.utf8EncodeChar
  rw [if_pos hv]
  rfl

theorem le_of_mem_utf8EncodeChar {c : Char} {b : UInt8} (h : 0x80 ≤ c.toNat)
    (hb : b ∈ String.utf8EncodeChar c) : 0x80 ≤ b.toNat := by
  have hv : ¬ c.val.toNat ≤ 0x7f := Nat.not_le.mpr h
  unfold String.utf8EncodeChar at hb
  rw [if_neg hv] at hb
  -- two, three or four bytes; the code point shares each with a fixed high bit
  split at hb
  · simp only [List.mem_cons, List.not_mem_nil, or_false] at hb
    rcases hb with rfl | rfl <;> simp only [UInt8.toNat_ofNat'] <;> omega
  · split at hb
    · simp only [List.mem_cons, List.not_mem_nil, or_false] at hb
      rcases hb with rfl | rfl | rfl <;> simp only [UInt8.toNat_ofNat'] <;> omega
    · simp only [List.mem_cons, List.not_mem_nil, or_false] at hb
      rcases hb with rfl | rfl | rfl | rfl <;> simp only [UInt8.toNat_ofNat'] <;> omega

/-- where an ASCII byte stands, a character begins -/
theorem exists_flatMap_eq_of_ascii {cs : List Char} {as bs : List UInt8} {b : UInt8}
    (hb : b.toNat < 0x80) (h : cs.flatMap String.utf8EncodeChar = as ++ b :: bs) :
    ∃ ds : List Char, ds.flatMap String.utf8EncodeChar = as := by
  induction cs generalizing as with
  | nil => cases as <;> cases h
  | cons c cs ih =>
    rw [List.flatMap_cons] at h
    rcases List.append_eq_append_iff.mp h with ⟨as', rfl, hrest⟩ | ⟨cs', hc, hrest⟩
    · obtain ⟨ds, rfl⟩ := ih hrest
      exact ⟨c :: ds, List.flatMap_cons⟩
    · cases cs' with
      | nil => exact ⟨[c], by rw [List.flatMap_singleton, hc, List.append_nil]⟩
      | cons b' cs' =>
        -- the byte is one of the character, which is ASCII then and has no byte before it
        obtain ⟨rfl, -⟩ := List.cons.inj hrest
        have hmem : b ∈ String.utf8EncodeChar c := by rw [hc]; simp
        have hascii : c.toNat < 0x80 :=
          Nat.lt_of_not_le fun hlarge => Nat.not_le.mpr hb (le_of_mem_utf8EncodeChar hlarge hmem)
        rw [utf8EncodeChar_ascii hascii] at hc
        cases as with
        | nil => exact ⟨[], rfl⟩
        | cons a as => simp at hc

theorem exists_bytes_eq_of_ascii {s : String} {as bs : List UInt8} {b : UInt8}
    (hb : b.toNat < 0x80) (h : bytes s = as ++ b :: bs) : ∃ t, bytes t = as := by
  obtain ⟨ds, hds⟩ := exists_flatMap_eq_of_ascii hb h
  exact ⟨String.ofList ds, by rw [bytes, String.toList_ofList, hds]⟩

theorem toUInt8_ofUInt8 (b : UInt8) : (Char.ofUInt8 b).toUInt8 = b :=
  forall_byte_lt (n := 256) (p := fun b => (Char.ofUInt8 b).toUInt8 = b)
    (by decide +kernel) b b.toNat_lt

theorem bytes_ofList_ofUInt8 {bs : List UInt8} (h : ∀ b ∈ bs, b.toNat < 0x80) :
    bytes (String.ofList (bs.map Char.ofUInt8)) = bs := by
  rw [bytes, String.toList_ofList]
  induction bs with
  | nil => rfl
  | cons b bs ih =>
    have hb : (Char.ofUInt8 b).toNat < 0x80 := h b List.mem_cons_self
    rw [List.map_cons, List.flatMap_cons, utf8EncodeChar_ascii hb, toUInt8_ofUInt8,
      ih fun c hc => h c (List.mem_cons_of_mem _ hc)]
    rfl

theorem filterMap_ofByte?_utf8EncodeChar (c : Char) :
    (String.utf8EncodeChar c).filterMap Edge.ofByte? = (Edge.ofChar? c).toList := by
  by_cases h : c.toNat < 0x80
  · rw [utf8EncodeChar_ascii h, ← Edge.ofByte?_toUInt8 h, filterMap_cons_toList, List.filterMap_nil,
      List.append_nil]
  · have hc : 0x80 ≤ c.toNat := Nat.not_lt.mp h
    rw [Edge.ofChar?_eq_none hc, Option.toList_none, List.filterMap_eq_nil_iff]
    intro b hb
    exact Edge.ofByte?_eq_none (le_of_mem_utf8EncodeChar hc hb)

theorem filterMap_ofByte?_bytes (s : String) :
    (bytes s).filterMap Edge.ofByte? = edgesOf s := by
  rw [bytes, edgesOf]
  induction s.toList with
  | nil => rfl
  | cons c cs ih =>
    rw [List.flatMap_cons, List.filterMap_append, filterMap_ofByte?_utf8EncodeChar, ih,
      filterMap_cons_toList]

end Text

end LicenseFormula
