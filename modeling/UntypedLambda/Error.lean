import UntypedLambda.Token

/-!
# What can be wrong with a line

An `Error` is the cause for which a line is refused: no token was left where
one was required, the grammar was violated, a name has no definition, the bound
on the number of contractions was passed, or a term is nested too deeply.
The wording of each cause is fixed in one place, `Error.message`.

An error may know the span of the source it is about (`Error.span?`), whether
that part of the line is worth showing (`Error.diagnosis`), and whether it is a
fault of the interpreter rather than of the line (`Error.internal`).
-/

namespace UntypedLambda

/-- What the grammar allows at the place of an error. -/
inductive Expected where
  /-- The first operand of an expression. -/
  | expression
  /-- A further operand, or the parenthesis that closes the group. -/
  | operandOrClose
  /-- The first parameter of a function. -/
  | parameter
  /-- A further parameter, or the dot in front of the body. -/
  | parameterOrDot
  /-- Nothing more. -/
  | endOfInput
  /-- Anything else, in the words given. -/
  | phrase (text : String)
  deriving DecidableEq, Repr, Inhabited

/-- How an expectation is worded. -/
def Expected.text : Expected → String
  | .expression => "expression"
  | .operandOrClose => "`)` or expression"
  | .parameter => "variable binding"
  | .parameterOrDot => "`.` or variable binding"
  | .endOfInput => "end of input"
  | .phrase text => text

/-- What stands at the place of an error. -/
inductive Found where
  /-- A token of the line. -/
  | token (t : Token)
  /-- Something that is not a token, in the words given. -/
  | word (text : String)
  /-- Nothing: the line ended too early. -/
  | endOfInput
  deriving DecidableEq, Repr, Inhabited

namespace Found

/-- How the end of a line is worded. -/
def endText : String := "End of String"

/-- How a finding is worded. -/
def text : Found → String
  | .token t => t.text
  | .word text => text
  | .endOfInput => endText

/-- The finding that a plain text describes. -/
def ofText (text : String) : Found :=
  if text = endText then .endOfInput else .word text

end Found

/-- The cause for which a line is refused. -/
inductive Error where
  /-- The input ended where a token was required. -/
  | noToken (span : Option Span)
  /-- The grammar allows `expected` at the place where `found` stands. -/
  | unexpected (expected : Expected) (found : Found) (span : Option Span)
  /-- A free name has no definition. -/
  | undefined (name : String)
  /-- No normal form was reached within the allowed number of contractions. -/
  | stepLimit (limit : Int)
  /-- A term is nested more deeply than can be handled. -/
  | tooDeep
  /-- Any other cause, in the words given. -/
  | other (text : String) (span : Option Span) (diagnosis internal : Bool)
  deriving DecidableEq, Repr, Inhabited

namespace Error

/-- The wording of an error. -/
def message : Error → String
  | .noToken _ => "expected token, found `" ++ Found.endText ++ "`"
  | .unexpected expected found _ => "expected " ++ expected.text ++ ", found `" ++ found.text ++ "`"
  | .undefined name => "'" ++ name ++ "' is not defined"
  | .stepLimit limit =>
      "no normal form found within " ++ toString limit ++ " beta reductions"
  | .tooDeep => "normal form might exist, but maximum recursion depth exceeded"
  | .other text _ _ _ => text

/-- The part of the source that an error is about, if there is one. -/
def span? : Error → Option Span
  | .noToken span => span
  | .unexpected _ _ span => span
  | .other _ span _ _ => span
  | _ => none

/-- Is the part of the source that the error is about worth showing? -/
def diagnosis : Error → Bool
  | .noToken _ => true
  | .unexpected _ _ _ => true
  | .other _ _ diagnosis _ => diagnosis
  | _ => false

/-- Is the error a fault of the interpreter? -/
def internal : Error → Bool
  | .other _ _ _ internal => internal
  | _ => false

/-- Could more input complete the line? -/
def atEndOfInput : Error → Bool
  | .unexpected _ .endOfInput _ => true
  | _ => false

end Error

end UntypedLambda
