import Mathlib
import LicenseFormula.Proofs.Sessions
import LicenseFormula.Proofs.Words

/-!
# Words as slices of their text

A cursor may stop between the bytes of a character, for each of them is a stray lexeme of its own.
A run of word bytes is different: an ASCII byte is a whole character, so a character begins where a
run begins and where it ends, wherever the cursor was before.  The part of the text between these
two places is there to be cut out, it is not empty, and it is the literal of the token.

* `Text.slice? s start stop`     the part of the text between two offsets, if these are boundaries;
* `Text.isValid_iff`             an offset is a boundary when a text ends there;
* `Text.slice?_eq_some_iff`      the slice is what stands between the two offsets;
* `Cursor.IsIn.exists_split`     the next lexeme behind a place is where it is said to be;
* `Text.slice?_run`              a run of word bytes can be cut out;
* `Cursor.slice?_of_run`         so can every run that is found behind tokens of a text.
-/

namespace LicenseFormula

/-! ### slices -/

namespace Text

/-- the part of a text between two offsets; there is none unless the first is not behind the second
and each is where a character begins or the text ends -/
def slice? (s : String) (start stop : Nat) : Option String :=
  if h : start ≤ stop ∧ String.Pos.Raw.IsValid s ⟨start⟩ ∧ String.Pos.Raw.IsValid s ⟨stop⟩ then
    some (String.extract (s.pos ⟨start⟩ h.2.1) (s.pos ⟨stop⟩ h.2.2))
  else none

theorem isValid_iff {s : String} {k : Nat} :
    String.Pos.Raw.IsValid s ⟨k⟩ ↔ ∃ p q, s = p ++ q ∧ p.utf8ByteSize = k := by
  rw [String.Pos.Raw.isValid_iff_exists_append]
  constructor
  · rintro ⟨p, q, hs, hk⟩
    exact ⟨p, q, hs, (congrArg String.Pos.Raw.byteIdx hk).symm⟩
  · rintro ⟨p, q, hs, rfl⟩
    exact ⟨p, q, hs, rfl⟩

theorem slice?_append (p t q : String) :
    slice? (p ++ (t ++ q)) p.utf8ByteSize (p.utf8ByteSize + t.utf8ByteSize) = some t := by
  have hstart : String.Pos.Raw.IsValid (p ++ (t ++ q)) ⟨p.utf8ByteSize⟩ :=
    isValid_iff.mpr ⟨p, t ++ q, rfl, rfl⟩
  have hstop : String.Pos.Raw.IsValid (p ++ (t ++ q)) ⟨p.utf8ByteSize + t.utf8ByteSize⟩ :=
    isValid_iff.mpr ⟨p ++ t, q, String.append_assoc.symm, String.utf8ByteSize_append⟩
  rw [slice?, dif_pos ⟨Nat.le_add_right _ _, hstart, hstop⟩]
  refine congrArg some (String.toByteArray_inj.mp ?_)
  rw [String.toByteArray_extract, String.offset_pos, String.offset_pos, String.toByteArray_append,
    String.toByteArray_append]
  exact (ByteArray.extract_append_size_add (i := 0)).trans (ByteArray.extract_append_eq_left rfl)

theorem slice?_eq_some_iff {s t : String} {start stop : Nat} : slice? s start stop = some t ↔
    ∃ p q, s = p ++ (t ++ q) ∧ p.utf8ByteSize = start ∧ start + t.utf8ByteSize = stop := by
  constructor
  · intro h
    rw [slice?] at h
    split at h
    · next hvalid =>
      obtain ⟨hle, hstart, hstop⟩ := hvalid
      obtain ⟨p, x, hx, rfl⟩ := isValid_iff.mp hstart
      obtain ⟨y, q, rfl, rfl⟩ := isValid_iff.mp hstop
      -- what stands before the first offset begins what stands before the second
      have hpre : bytes p <+: bytes y := by
        have hp : bytes p <+: bytes (y ++ q) := by
          rw [hx, bytes_append]
          exact List.prefix_append _ _
        have hy : bytes y <+: bytes (y ++ q) := by
          rw [bytes_append]
          exact List.prefix_append _ _
        exact List.prefix_of_prefix_length_le hp hy (by rwa [length_bytes, length_bytes])
      obtain ⟨u, rfl⟩ := exists_append_of_bytes_prefix hpre
      have hslice := slice?_append p u q
      rw [← String.append_assoc, ← String.utf8ByteSize_append, slice?,
        dif_pos ⟨hle, hstart, hstop⟩, h] at hslice
      obtain rfl := Option.some.inj hslice
      exact ⟨p, q, String.append_assoc, rfl, String.utf8ByteSize_append.symm⟩
    · cases h
  · rintro ⟨p, q, rfl, rfl, rfl⟩
    exact slice?_append p t q

theorem isValid_of_slice? {s t : String} {start stop : Nat} (h : slice? s start stop = some t) :
    String.Pos.Raw.IsValid s ⟨start⟩ ∧ String.Pos.Raw.IsValid s ⟨stop⟩ := by
  obtain ⟨p, q, rfl, rfl, rfl⟩ := slice?_eq_some_iff.mp h
  refine ⟨isValid_iff.mpr ⟨p, t ++ q, rfl, rfl⟩, isValid_iff.mpr ⟨p ++ t, q, ?_, ?_⟩⟩
  · rw [String.append_assoc]
  · rw [String.utf8ByteSize_append]

/-- word bytes make up whole characters wherever they stand -/
theorem slice?_run {s : String} {as ws bs : List UInt8} (hs : bytes s = as ++ (ws ++ bs))
    (hne : ws ≠ []) (hws : ∀ b ∈ ws, isWordByte b = true) :
    slice? s as.length (as.length + ws.length) = some (Lexeme.run ws).text := by
  have hrun := Lexeme.bytes_text_run hws
  obtain ⟨p, rfl⟩ : ∃ p, bytes p = as := by
    cases ws with
    | nil => exact absurd rfl hne
    | cons w ws =>
      exact exists_bytes_eq_of_ascii (toNat_lt_of_isWordByte (hws w List.mem_cons_self)) hs
  have hpre : bytes (p ++ (Lexeme.run ws).text) <+: bytes s := by
    rw [bytes_append, hrun, hs, ← List.append_assoc]
    exact List.prefix_append _ _
  obtain ⟨q, rfl⟩ := exists_append_of_bytes_prefix hpre
  have hsize : (Lexeme.run ws).text.utf8ByteSize = ws.length := by rw [← length_bytes, hrun]
  rw [String.append_assoc, length_bytes, ← hsize]
  exact slice?_append _ _ _

end Text

/-! ### runs behind tokens -/

theorem Cursor.IsIn.exists_split {bs : List UInt8} {c : Cursor} {p : Placed} (h : c.IsIn bs)
    (hp : c.next? = some p) : ∃ as, bs = as ++ (p.lexeme.bytes ++ p.after.rest)
      ∧ p.start = as.length ∧ p.after.offset = as.length + p.lexeme.bytes.length := by
  obtain ⟨gap, -, hrest, hstart, hafter⟩ := Cursor.exists_gap_of_nextFrom hp
  have hlen : (bs.take c.offset ++ gap).length = p.start := by
    rw [List.length_append, List.length_take_of_le h.offset_le, hstart]
  refine ⟨bs.take c.offset ++ gap, ?_, hlen.symm, hlen ▸ hafter⟩
  rw [List.append_assoc, ← hrest, h.rest_eq, List.take_append_drop]

namespace Lexeme

theorem text_run_ne_empty {ws : List UInt8} (h : (run ws).Proper) : (run ws).text ≠ "" := by
  intro hempty
  have hbytes := bytes_text_run h.2
  rw [hempty] at hbytes
  exact h.1 hbytes.symm

/-- only runs are words or connectives -/
theorem exists_run_of_kind {l : Lexeme} (h : l.kind = .word ∨ ∃ c, l.kind = .connective c) :
    ∃ ws, l = run ws := by
  cases l with
  | run ws => exact ⟨ws, rfl⟩
  | opening b => rcases h with h | ⟨c, h⟩ <;> cases h
  | closing b => rcases h with h | ⟨c, h⟩ <;> cases h
  | stray b => rcases h with h | ⟨c, h⟩ <;> cases h

end Lexeme

namespace Cursor

theorem proper_of_next?_eq_some {c : Cursor} {p : Placed} (h : c.next? = some p) :
    p.lexeme.Proper := by
  refine proper_of_mem_lexemes (c := c) ?_
  rw [lexemes_of_next?_eq_some h]
  exact List.mem_cons_self

theorem literal_pull_ne_empty {c : Cursor}
    (h : c.pull.1.kind = .word ∨ ∃ k, c.pull.1.kind = .connective k) : c.pull.1.literal ≠ "" := by
  rw [pull] at h ⊢
  cases hp : c.next? with
  | none =>
    rw [hp] at h
    rcases h with h | ⟨k, h⟩ <;> cases h
  | some p =>
    rw [hp] at h
    obtain ⟨ws, hws⟩ := Lexeme.exists_run_of_kind h
    have hproper := proper_of_next?_eq_some hp
    rw [hws] at hproper
    show p.lexeme.text ≠ ""
    rw [hws]
    exact Lexeme.text_run_ne_empty hproper

theorem ne_empty_of_mem_symbols {c : Cursor} {w : String} (h : .word w ∈ c.symbols) : w ≠ "" := by
  obtain ⟨p, hp, hw⟩ := List.mem_filterMap.mp h
  exact (isPlainWord_of_symbol? (proper_of_mem_lexemes hp) hw).ne_empty

/-- Wherever tokens have led in a text, be it into a character, a run that is found next lies
between boundaries of characters, and its literal is the part of the text between them, which is
not empty.  So no word and no connective has an empty literal, and no empty word is read into a
formula. -/
theorem slice?_of_run (s : String) (n : Nat) :
    ((ofString s).skip n).offset ≤ s.utf8ByteSize
    ∧ (∀ p ws, ((ofString s).skip n).next? = some p → p.lexeme = .run ws →
      String.Pos.Raw.IsValid s ⟨p.start⟩ ∧ String.Pos.Raw.IsValid s ⟨p.after.offset⟩
        ∧ p.start < p.after.offset
        ∧ Text.slice? s p.start p.after.offset = some p.lexeme.token.literal
        ∧ p.lexeme.token.literal ≠ "")
    ∧ ((((ofString s).skip n).pull.1.kind = .word
        ∨ ∃ c, ((ofString s).skip n).pull.1.kind = .connective c) →
      ((ofString s).skip n).pull.1.literal ≠ "")
    ∧ ∀ w, .word w ∈ ((ofString s).skip n).symbols → w ≠ "" := by
  have hin : ((ofString s).skip n).IsIn (Text.bytes s) := (IsIn.ofString s).skip n
  have hoffset : ((ofString s).skip n).offset ≤ s.utf8ByteSize := by
    rw [← Text.length_bytes]
    exact hin.offset_le
  refine ⟨hoffset, ?_, literal_pull_ne_empty, ?_⟩
  · intro p ws hp hws
    obtain ⟨as, hs, hstart, hafter⟩ := hin.exists_split hp
    have hproper := proper_of_next?_eq_some hp
    rw [hws] at hproper hs hafter
    have hslice : Text.slice? s p.start p.after.offset = some p.lexeme.token.literal := by
      rw [hstart, hafter, hws]
      exact Text.slice?_run hs hproper.1 hproper.2
    obtain ⟨hvalid, hvalid'⟩ := Text.isValid_of_slice? hslice
    have hlt : p.start < p.after.offset := by
      rw [hstart, hafter]
      exact Nat.lt_add_of_pos_right (List.length_pos_iff.mpr hproper.1)
    have hne : p.lexeme.text ≠ "" := by
      rw [hws]
      exact Lexeme.text_run_ne_empty hproper
    exact ⟨hvalid, hvalid', hlt, hslice, hne⟩
  · intro w hw
    exact ne_empty_of_mem_symbols hw

theorem slice?_of_run_behind_character :
    ((ofString "é or b").skip 1).offset = 1 ∧ ¬ String.Pos.Raw.IsValid "é or b" ⟨1⟩
      ∧ ((ofString "é or b").skip 2).next? = some ⟨3, .run [0x6f, 0x72], ⟨5, [0x20, 0x62]⟩⟩
      ∧ Text.slice? "é or b" 3 5 = some "or"
      ∧ ((ofString "é or b").skip 2).pull.1.kind = .connective .or
      ∧ ((ofString "é or b").skip 2).pull.1.literal ≠ ""
      ∧ ((ofString "é or b").skip 2).symbols = [.connective .or, .word "b"]
      ∧ "b" ≠ "" := by
  have hnext : ((ofString "é or b").skip 2).next?
      = some ⟨3, .run [0x6f, 0x72], ⟨5, [0x20, 0x62]⟩⟩ := by cbv
  have hkind : ((ofString "é or b").skip 2).pull.1.kind = .connective .or := by cbv
  have hsymbols : ((ofString "é or b").skip 2).symbols = [.connective .or, .word "b"] := by cbv
  obtain ⟨-, hrun, hpull, hword⟩ := slice?_of_run "é or b" 2
  obtain ⟨-, -, -, hslice, -⟩ := hrun _ _ hnext rfl
  exact ⟨by cbv, by decide +kernel, hnext, hslice, hkind, hpull (.inr ⟨.or, hkind⟩), hsymbols,
    hword "b" (by rw [hsymbols]; decide)⟩

end Cursor

end LicenseFormula
