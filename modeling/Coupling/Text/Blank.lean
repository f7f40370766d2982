/-!
# White space

`isBlank` is the Unicode property `White_Space`: the ASCII blanks and controls that separate words,
and the wider spaces and separators beyond ASCII.
-/

namespace Coupling.Text

def isBlank (c : Char) : Bool :=
  let n := c.toNat
  (0x09 ≤ n && n ≤ 0x0d) || n = 0x20 || n = 0x85 || n = 0xa0 || n = 0x1680
    || (0x2000 ≤ n && n ≤ 0x200a) || n = 0x2028 || n = 0x2029 || n = 0x202f || n = 0x205f
    || n = 0x3000

def isBlankText (s : String) : Bool := s.toList.all isBlank

/-- Removes white space at both ends. -/
def trim (cs : List Char) : List Char :=
  ((cs.dropWhile isBlank).reverse.dropWhile isBlank).reverse

end Coupling.Text
