import UntypedLambda.Text.Blank

/-!
# Whole numbers in decimal

A number on the command line is a sign, if any, and digits of any script, among
which single underscores may stand; blanks around it are ignored.

* `decimalDigit?` — the value of a digit.
* `readInt?` — the number that a text stands for.
* `looksNegative` — does a text look like a negative number, whole or with a
  decimal point?
-/

namespace UntypedLambda

/-- The code points of the zeros of all scripts with decimal digits; the digits
one to nine follow each of them. -/
def decimalZeros : List Nat :=
  [0x30, 0x660, 0x6F0, 0x7C0, 0x966, 0x9E6, 0xA66, 0xAE6, 0xB66, 0xBE6, 0xC66, 0xCE6, 0xD66, 0xDE6,
    0xE50, 0xED0, 0xF20, 0x1040, 0x1090, 0x17E0, 0x1810, 0x1946, 0x19D0, 0x1A80, 0x1A90, 0x1B50,
    0x1BB0, 0x1C40, 0x1C50, 0xA620, 0xA8D0, 0xA900, 0xA9D0, 0xA9F0, 0xAA50, 0xABF0, 0xFF10, 0x104A0,
    0x10D30, 0x11066, 0x110F0, 0x11136, 0x111D0, 0x112F0, 0x11450, 0x114D0, 0x11650, 0x116C0,
    0x11730, 0x118E0, 0x11950, 0x11C50, 0x11D50, 0x11DA0, 0x16A60, 0x16AC0, 0x16B50, 0x1D7CE,
    0x1D7D8, 0x1D7E2, 0x1D7EC, 0x1D7F6, 0x1E140, 0x1E2F0, 0x1E950, 0x1FBF0]

/-- The value of a decimal digit of any script. -/
def decimalDigit? (c : Char) : Option Nat :=
  (decimalZeros.find? fun z => decide (z ≤ c.toNat) && decide (c.toNat < z + 10)).map
    (c.toNat - ·)

/-- The longest digit sequence that is read as a number. -/
def maxDigits : Nat := 4300

/-- The digits of a sequence in which single underscores stand between digits
only. -/
def digits? : List Char → Option (List Nat)
  | [] => none
  | [c] => (decimalDigit? c).map ([·])
  | c :: '_' :: rest => do
      let d ← decimalDigit? c
      let ds ← digits? rest
      pure (d :: ds)
  | c :: rest => do
      let d ← decimalDigit? c
      let ds ← digits? rest
      pure (d :: ds)

/-- The number that a digit sequence stands for. -/
def natural? (cs : List Char) : Option Nat := do
  let ds ← digits? cs
  if ds.length ≤ maxDigits then pure (ds.foldl (fun n d => 10 * n + d) 0) else none

/-- Is the character ignored around a number?  The four ASCII separators are
not. -/
def isNumeralBlank (c : Char) : Bool :=
  isBlank c && !(decide (0x1C ≤ c.toNat) && decide (c.toNat ≤ 0x1F))

/-- The number that a text stands for. -/
def readInt? (text : String) : Option Int :=
  match ((text.toList.dropWhile isNumeralBlank).reverse.dropWhile isNumeralBlank).reverse with
  | '-' :: cs => (natural? cs).map fun n => -(n : Int)
  | '+' :: cs => (natural? cs).map fun n => (n : Int)
  | cs => (natural? cs).map fun n => (n : Int)

/-- Is the character a decimal digit of any script? -/
def isDecimalDigit (c : Char) : Bool := (decimalDigit? c).isSome

/-- A minus sign in front of digits, or of a decimal fraction, at the end of
which a line break may stand. -/
def looksNegative (text : String) : Bool :=
  match text.toList with
  | '-' :: cs =>
      let body := if cs.getLast? = some '\n' then cs.dropLast else cs
      match body.dropWhile isDecimalDigit with
      | [] => !body.isEmpty
      | '.' :: fraction => !fraction.isEmpty && fraction.all isDecimalDigit
      | _ => false
  | _ => false

end UntypedLambda
