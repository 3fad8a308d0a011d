/-!
# Colours on a terminal

Messages are highlighted with the control sequences of ANSI terminals, or not at
all.  Everything that is highlighted is bold; it may have a colour as well.
-/

namespace UntypedLambda

/-- The colour of a highlighted text. -/
inductive Colour where
  /-- For errors. -/
  | red
  /-- For warnings. -/
  | magenta
  deriving DecidableEq, Repr, Inhabited

/-- How texts are highlighted. -/
inductive Style where
  /-- Not at all. -/
  | plain
  /-- With control sequences. -/
  | ansi
  deriving DecidableEq, Repr, Inhabited

namespace Colour

/-- The control sequence that switches to a colour. -/
def code : Colour → String
  | .red => "\x1b[31m"
  | .magenta => "\x1b[35m"

end Colour

namespace Style

/-- A text in bold, in the colour given if there is one. -/
def bold (style : Style) (colour : Option Colour) (text : String) : String :=
  match style with
  | .plain => text
  | .ansi => "\x1b[1m" ++ (colour.map Colour.code).getD "" ++ text ++ "\x1b[0m"

@[simp] theorem bold_plain (colour : Option Colour) (text : String) :
    Style.plain.bold colour text = text := rfl

end Style

end UntypedLambda
