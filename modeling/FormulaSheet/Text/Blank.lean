/-!
# White space

The characters with the Unicode property White_Space, and the texts that are left when such
characters are removed from the ends of a text.

* `isBlank`: membership in the property's table.
* `trim`, `trimmed`: a text without the white space at its ends, as characters and as a string.
-/

namespace FormulaSheet
namespace Text

/-- The code points of the Unicode property White_Space, as closed ranges. -/
def blankRanges : List (Nat × Nat) :=
  [(0x09, 0x0D), (0x20, 0x20), (0x85, 0x85), (0xA0, 0xA0), (0x1680, 0x1680),
    (0x2000, 0x200A), (0x2028, 0x2029), (0x202F, 0x202F), (0x205F, 0x205F), (0x3000, 0x3000)]

def isBlank (c : Char) : Bool :=
  blankRanges.any fun range => range.1 ≤ c.toNat && c.toNat ≤ range.2

def trimStart (cs : List Char) : List Char :=
  cs.dropWhile isBlank

def trimEnd (cs : List Char) : List Char :=
  (cs.reverse.dropWhile isBlank).reverse

def trim (cs : List Char) : List Char :=
  trimEnd (trimStart cs)

def hasBlankEnd (s : String) : Bool :=
  !s.isEmpty && (isBlank s.front || isBlank s.back)

/-- A string without the white space at either end; a string that has none there is kept as it
is, without being taken apart. -/
def trimmed (s : String) : String :=
  if hasBlankEnd s then String.ofList (trim s.toList) else s

end Text
end FormulaSheet
