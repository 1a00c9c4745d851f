import FormulaSheet.Text.Encoded

/-!
# Texts as bytes

The bytes of a text are decoded to its characters: each character is found where those before it
end, and no byte is left without one.

* `utf8DecodeChar?_append`: the character behind other bytes.
* `decode_toUTF8`: decoding undoes encoding.
-/

namespace FormulaSheet
namespace Text

theorem utf8DecodeChar?_append (front : ByteArray) (c : Char) (cs : List Char) :
    (front ++ (c :: cs).utf8Encode).utf8DecodeChar? front.size = some c := by
  rw [ByteArray.utf8DecodeChar?_eq_utf8DecodeChar?_extract,
    ByteArray.extract_append_eq_right rfl ByteArray.size_append,
    List.utf8DecodeChar?_utf8Encode_cons]

/-- Decoding from a position on sees only the characters that begin there. -/
theorem decodeFrom_append (cs : List Char) (front : ByteArray) (before : List (Option Char)) :
    decodeFrom (front ++ cs.utf8Encode) front.size before = before.reverse ++ cs.map some := by
  induction cs generalizing front before with
  | nil =>
      rw [decodeFrom, if_neg (by simp)]
      simp
  | cons c cs ih =>
      have hsize : (front ++ [c].utf8Encode).size = front.size + c.utf8Size := by
        simp [List.utf8Encode_singleton]
      have hlt : front.size < (front ++ (c :: cs).utf8Encode).size := by
        have := c.utf8Size_pos
        rw [List.utf8Encode_cons, ← ByteArray.append_assoc, ByteArray.size_append, hsize]
        omega
      rw [decodeFrom, if_pos hlt, utf8DecodeChar?_append]
      dsimp only
      rw [← hsize, List.utf8Encode_cons, ← ByteArray.append_assoc, ih]
      simp

theorem decode_toUTF8 (s : String) : decode s.toUTF8 = s.toList.map some := by
  have h := decodeFrom_append s.toList ByteArray.empty []
  rw [ByteArray.empty_append, String.utf8Encode_toList] at h
  exact h

end Text
end FormulaSheet
