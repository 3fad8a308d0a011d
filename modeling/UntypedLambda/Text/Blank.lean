/-!
# Blank characters

A source line may hold blanks anywhere between its tokens, and the shell strips
them from both ends of what is typed.  Both use the same set of twenty-nine
characters: the twenty-five that Unicode treats as white space, and the four
ASCII separators `U+001C` to `U+001F`.

* `isBlank` — membership in the set.
* `strip` — a text without the blanks at its two ends.
-/

namespace UntypedLambda

/-- The code points of the blanks, as closed intervals in increasing order. -/
def blankRanges : List (Nat × Nat) :=
  [(0x09, 0x0D), (0x1C, 0x20), (0x85, 0x85), (0xA0, 0xA0), (0x1680, 0x1680), (0x2000, 0x200A),
    (0x2028, 0x2029), (0x202F, 0x202F), (0x205F, 0x205F), (0x3000, 0x3000)]

/-- Is the character a blank? -/
def isBlank (c : Char) : Bool :=
  blankRanges.any fun r => decide (r.1 ≤ c.toNat) && decide (c.toNat ≤ r.2)

/-- The characters of a list without the blanks at its two ends. -/
def stripChars (cs : List Char) : List Char :=
  ((cs.dropWhile isBlank).reverse.dropWhile isBlank).reverse

/-- A text without the blanks at its two ends. -/
def strip (text : String) : String :=
  String.ofList (stripChars text.toList)

end UntypedLambda
