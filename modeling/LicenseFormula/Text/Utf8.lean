/-!
# The bytes of a text

Offsets into a text count the bytes of its UTF-8 form.

* `Text.bytes s`          the UTF-8 form of `s`;
* `Text.bytes_append`     the bytes of two texts in a row are those of each in a row;
* `Text.length_bytes`     there are as many as `String.utf8ByteSize` says;
* `Text.exists_append_of_bytes_prefix` no character begins with the bytes of another;
* `Text.longestText bs n` the longest text whose bytes begin `bs` and are at most `n`.
-/

namespace LicenseFormula.Text

/-- the UTF-8 form of a text -/
def bytes (s : String) : List UInt8 := s.toList.flatMap String.utf8EncodeChar

theorem bytes_append (s t : String) : bytes (s ++ t) = bytes s ++ bytes t := by
  simp [bytes]

theorem toList_data_toByteArray (s : String) : s.toByteArray.data.toList = bytes s := by
  rw [← String.utf8Encode_toList, List.utf8Encode, bytes, List.toList_data_toByteArray]

theorem length_bytes (s : String) : (bytes s).length = s.utf8ByteSize := by
  rw [← toList_data_toByteArray, Array.length_toList]
  rfl

theorem bytes_injective {s t : String} (h : bytes s = bytes t) : s = t := by
  rw [← toList_data_toByteArray, ← toList_data_toByteArray] at h
  exact String.toByteArray_inj.mp (ByteArray.ext (Array.toList_inj.mp h))

/-- what begins with the bytes of a text begins with the text -/
theorem exists_append_of_bytes_prefix {s t : String} (h : bytes s <+: bytes t) :
    ∃ u, t = s ++ u := by
  obtain ⟨bs, hbs⟩ := h
  have hencode : s.toList.utf8Encode ++ bs.toByteArray = t.toList.utf8Encode := by
    rw [List.utf8Encode, List.utf8Encode, ← List.toByteArray_append]
    exact congrArg List.toByteArray hbs
  obtain ⟨cs, hcs⟩ := List.isPrefix_of_utf8Encode_append_eq_utf8Encode _ hencode
  refine ⟨String.ofList cs, String.toList_injective ?_⟩
  rw [String.toList_append, String.toList_ofList, hcs]

/-- the longest text of at most `n` bytes that `bs` begins with -/
def longestText (bs : List UInt8) : Nat → String
  | 0 => ""
  | n + 1 =>
    match String.fromUTF8? (bs.take (n + 1)).toByteArray with
    | some s => s
    | none => longestText bs n

end LicenseFormula.Text
