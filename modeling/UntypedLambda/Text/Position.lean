/-!
# Line and column of an offset

An offset into a text of several lines is shown as a line number and a column,
both counted from one.  Only the line break `U+000A` separates lines.  The
position of a line break is the column behind the last character of its line,
and an offset past the end has the position of the end.
-/

namespace UntypedLambda

/-- The lines of a text, of which there is at least one. -/
def splitLines : List Char → List (List Char)
  | [] => [[]]
  | c :: rest =>
      if c = '\n' then [] :: splitLines rest
      else
        match splitLines rest with
        | [] => [[c]]
        | line :: lines => (c :: line) :: lines

/-- The line number and the column of an offset into the lines given, the first
of which has number `number`. -/
def locate (number : Nat) (offset : Int) : List (List Char) → Nat × Int
  | [] => (number, 1)
  | [line] => if offset ≤ line.length then (number, offset + 1) else (number, line.length + 1)
  | line :: lines =>
      if offset ≤ line.length then (number, offset + 1)
      else locate (number + 1) (offset - (line.length + 1)) lines

/-- The line number and the column of an offset into a text. -/
def lineCol (text : String) (offset : Int) : Nat × Int :=
  locate 1 offset (splitLines text.toList)

end UntypedLambda
