/-!
# Encoded text

Bytes as characters. Bytes that belong to no character in UTF-8 stay in the text as places
without a character, one for each, so that a reader can tell where they stand.
-/

namespace FormulaSheet
namespace Text

/-- The characters of the bytes from a position on, behind those given last first. -/
def decodeFrom (data : ByteArray) (position : Nat) (before : List (Option Char)) :
    List (Option Char) :=
  if position < data.size then
    match data.utf8DecodeChar? position with
    | some c => decodeFrom data (position + c.utf8Size) (some c :: before)
    | none => decodeFrom data (position + 1) (none :: before)
  else
    before.reverse
termination_by data.size - position
decreasing_by
  · have := c.utf8Size_pos
    omega
  · omega

/-- The characters of bytes, with a place for each byte that belongs to none. -/
def decode (data : ByteArray) : List (Option Char) :=
  decodeFrom data 0 []

end Text
end FormulaSheet
