import Mathlib
import LicenseFormula.Formula.Json

/-!
# Texts cut where the room ends

A text that is written to a place with limited room is cut at the byte where the room ends, whatever
the pieces in which it comes.  The cut may fall into a character.  The longest text among the bytes
that are held is then made of the characters before it, and as no character has more than four
bytes, three bytes are held in vain at the most.

* `Text.fill_eq`              what a place holds depends on the whole text only;
* `Text.fromUTF8?_eq_some_iff` bytes are read as the text whose bytes they are;
* `Text.IsLongest bs s`       `s` is the longest text that the bytes `bs` begin with;
* `Text.isLongest_longestText` there is one, and it is found;
* `Text.exists_cut`           for the first bytes of a text it is some of its characters;
* `Formula.writeJson_cut`     all of this for the JSON text of a formula.
-/

namespace LicenseFormula

namespace Text

/-! ### pieces that are written -/

theorem fill_eq (room : Nat) (pieces : List String) :
    fill room pieces = if (bytes (String.join pieces)).length ≤ room
      then .ok (bytes (String.join pieces))
      else .error ⟨(bytes (String.join pieces)).take room⟩ := by
  induction pieces generalizing room with
  | nil => exact (if_pos (Nat.zero_le room)).symm
  | cons piece pieces ih =>
    rw [String.join_cons, bytes_append, List.length_append]
    by_cases hpiece : (bytes piece).length ≤ room
    · simp only [fill, if_pos hpiece, ih]
      by_cases hrest : (bytes (String.join pieces)).length ≤ room - (bytes piece).length
      · simp only [if_pos hrest]
        rw [if_pos (by omega)]
      · simp only [if_neg hrest]
        rw [if_neg (by omega), List.take_append, List.take_of_length_le hpiece]
    · have htake : (bytes piece ++ bytes (String.join pieces)).take room
          = (bytes piece).take room := List.take_append_of_le_length (Nat.le_of_not_le hpiece)
      simp only [fill, if_neg hpiece]
      rw [if_neg (by omega), htake]

/-! ### the longest text -/

theorem fromUTF8?_eq_some_iff {bs : List UInt8} {s : String} :
    String.fromUTF8? bs.toByteArray = some s ↔ bytes s = bs := by
  have hdata : bs.toByteArray.data.toList = bs := List.toList_data_toByteArray
  have hbytes : bytes s = bs ↔ s.toByteArray = bs.toByteArray := by
    rw [← toList_data_toByteArray]
    constructor
    · intro h
      exact ByteArray.ext (Array.toList_inj.mp (h.trans hdata.symm))
    · intro h
      rw [h, hdata]
  rw [hbytes, String.fromUTF8?]
  split
  · rw [Option.some.injEq, ← String.toByteArray_inj, eq_comm]
    rfl
  · next hvalid =>
    refine iff_of_false (Option.some_ne_none s).symm fun h => hvalid ?_
    rw [← h]
    exact s.isValidUTF8

/-- the text is the longest that the bytes begin with -/
structure IsLongest (bs : List UInt8) (s : String) : Prop where
  isPrefix : bytes s <+: bs
  length_le : ∀ t, bytes t <+: bs → (bytes t).length ≤ (bytes s).length

theorem bytes_longestText_isPrefix (bs : List UInt8) (n : Nat) :
    bytes (longestText bs n) <+: bs := by
  induction n with
  | zero => exact List.nil_prefix
  | succ n ih =>
    rw [longestText]
    split
    · next s hs =>
      rw [fromUTF8?_eq_some_iff.mp hs]
      exact List.take_prefix _ _
    · exact ih

theorem length_le_longestText {bs : List UInt8} {t : String} (ht : bytes t <+: bs) {n : Nat}
    (hn : (bytes t).length ≤ n) : (bytes t).length ≤ (bytes (longestText bs n)).length := by
  induction n with
  | zero => exact Nat.le_trans hn (Nat.zero_le _)
  | succ n ih =>
    rw [longestText]
    split
    · next s hs =>
      rw [fromUTF8?_eq_some_iff.mp hs, List.length_take]
      exact Nat.le_min.mpr ⟨hn, ht.length_le⟩
    · next hnone =>
      -- a text of just so many bytes would have been found
      refine ih (Nat.le_of_lt_succ (Nat.lt_of_le_of_ne hn fun hlen => ?_))
      have htake := List.prefix_iff_eq_take.mp ht
      rw [hlen] at htake
      rw [fromUTF8?_eq_some_iff.mpr htake] at hnone
      cases hnone

theorem isLongest_longestText (bs : List UInt8) : IsLongest bs (longestText bs bs.length) :=
  ⟨bytes_longestText_isPrefix bs _, fun _ ht => length_le_longestText ht ht.length_le⟩

/-! ### characters before the cut -/

theorem bytes_isPrefix {cs ds : List Char} (h : cs <+: ds) :
    bytes (String.ofList cs) <+: bytes (String.ofList ds) := by
  obtain ⟨es, rfl⟩ := h
  rw [String.ofList_append, bytes_append]
  exact List.prefix_append _ _

theorem length_bytes_toString (c : Char) : (bytes c.toString).length = c.utf8Size := by
  rw [Char.toString_eq_singleton, bytes, String.toList_singleton, List.flatMap_singleton,
    String.length_utf8EncodeChar]

/-- the character that is cut has no room -/
theorem IsLongest.lt_add_utf8Size {bs : List UInt8} {room : Nat} {t : String} {c : Char}
    (h : IsLongest (bs.take room) t) (hc : bytes (t ++ c.toString) <+: bs) :
    room < (bytes t).length + c.utf8Size := by
  refine Nat.lt_of_not_le fun hle => ?_
  have hlen : (bytes (t ++ c.toString)).length = (bytes t).length + c.utf8Size := by
    rw [bytes_append, List.length_append, length_bytes_toString]
  have hlongest := h.length_le _ (List.prefix_take_iff.mpr ⟨hc, hlen ▸ hle⟩)
  have hpos := c.utf8Size_pos
  omega

theorem exists_cut {s t : String} {room : Nat} (hroom : room < (bytes s).length)
    (h : IsLongest ((bytes s).take room) t) :
    ∃ k, t = String.ofList (s.toList.take k)
      ∧ (∀ j, (bytes (String.ofList (s.toList.take j))).length ≤ room ↔ j ≤ k)
      ∧ room ≤ (bytes t).length + 3 := by
  obtain ⟨hbytes, hfits⟩ := List.prefix_take_iff.mp h.isPrefix
  obtain ⟨u, rfl⟩ := exists_append_of_bytes_prefix hbytes
  match hu : u.toList with
  | [] =>
    obtain rfl : u = "" := String.toList_injective hu
    rw [String.append_empty] at hroom
    omega
  | c :: cs =>
    have hlist : (t ++ u).toList = t.toList ++ c :: cs := by rw [String.toList_append, hu]
    have htake : String.ofList ((t ++ u).toList.take t.toList.length) = t := by
      rw [hlist, List.take_left, String.ofList_toList]
    have hnext : String.ofList ((t ++ u).toList.take (t.toList.length + 1)) = t ++ c.toString := by
      rw [hlist, List.take_length_add_append, List.take_succ_cons, List.take_zero,
        String.ofList_append, String.ofList_toList]
      rfl
    have hcut : room < (bytes t).length + c.utf8Size := by
      refine h.lt_add_utf8Size ?_
      have hpre := bytes_isPrefix (List.take_prefix (t.toList.length + 1) (t ++ u).toList)
      rwa [hnext, String.ofList_toList] at hpre
    refine ⟨t.toList.length, htake.symm, fun j => ⟨fun hj => ?_, fun hj => ?_⟩, ?_⟩
    · refine Nat.le_of_not_lt fun hlt => ?_
      have hle := (bytes_isPrefix (List.take_prefix_take_left (l := (t ++ u).toList) hlt)).length_le
      rw [Nat.succ_eq_add_one, hnext, bytes_append, List.length_append,
        length_bytes_toString] at hle
      omega
    · have hle := (bytes_isPrefix (List.take_prefix_take_left (l := (t ++ u).toList) hj)).length_le
      rw [htake] at hle
      omega
    · have hfour := c.utf8Size_le_four
      omega

end Text

open Text

namespace Formula

/-- A formula is written to a place exactly when its JSON text has room there, and then the place
holds this text; else it is filled with the first bytes of it.  The longest text among these is
made of those characters that have room as a whole, and is at most three bytes shorter than the
place.  In which pieces the text is written does not matter. -/
theorem writeJson_cut (f : Formula) (room : Nat) :
    ((∃ held, f.writeJson room = .ok held) ↔ (bytes f.json).length ≤ room)
    ∧ (∀ held, f.writeJson room = .ok held → held = bytes f.json)
    ∧ (∀ e, f.writeJson room = .error e →
      e.held = (bytes f.json).take room ∧ e.held.length = room
        ∧ IsLongest e.held (longestText e.held e.held.length)
        ∧ ∃ k, longestText e.held e.held.length = String.ofList (f.json.toList.take k)
          ∧ (∀ j, (bytes (String.ofList (f.json.toList.take j))).length ≤ room ↔ j ≤ k)
          ∧ room ≤ (bytes (longestText e.held e.held.length)).length + 3)
    ∧ ∀ pieces, String.join pieces = f.json → fill room pieces = f.writeJson room := by
  have hwrite : f.writeJson room = if (bytes f.json).length ≤ room then .ok (bytes f.json)
      else .error ⟨(bytes f.json).take room⟩ := fill_eq room f.jsonPieces
  refine ⟨?_, ?_, ?_, ?_⟩
  · rw [hwrite]
    split
    · next hroom => exact iff_of_true ⟨_, rfl⟩ hroom
    · next hroom =>
      refine iff_of_false ?_ hroom
      rintro ⟨held, hheld⟩
      cases hheld
  · intro held hheld
    rw [hwrite] at hheld
    split at hheld
    · exact (Except.ok.inj hheld).symm
    · cases hheld
  · intro e he
    rw [hwrite] at he
    split at he
    · cases he
    · next hroom =>
      obtain rfl := Except.error.inj he
      have hlongest := isLongest_longestText ((bytes f.json).take room)
      refine ⟨rfl, List.length_take_of_le (Nat.le_of_not_le hroom), hlongest, ?_⟩
      exact exists_cut (Nat.lt_of_not_le hroom) hlongest
  · intro pieces hpieces
    rw [fill_eq, hpieces, hwrite]

theorem writeJson_cut_in_character :
    ∃ e, (ofName "é").writeJson 28 = .error e
      ∧ e.held = (bytes (ofName "é").json).take 28 ∧ e.held.length = 28
      ∧ longestText e.held e.held.length = "\x7b\"nodes\":[\x7b\"term\":\x7b\"leaf\":\""
      ∧ 28 ≤ (bytes (longestText e.held e.held.length)).length + 3
      ∧ fill 28 ["\x7b\"nodes\":[\x7b\"term\":",
          "\x7b\"leaf\":\"é\"\x7d,\"operator\":null\x7d]\x7d"]
        = (ofName "é").writeJson 28 := by
  have h : (ofName "é").writeJson 28 = .error ⟨(bytes (ofName "é").json).take 28⟩ := by cbv
  obtain ⟨_, _, herror, hpieces⟩ := writeJson_cut (ofName "é") 28
  obtain ⟨hheld, hlen, _, k, _, _, hshort⟩ := herror _ h
  exact ⟨_, h, hheld, hlen, by cbv, hshort, hpieces _ (by cbv)⟩

end Formula

end LicenseFormula
