import UntypedLambda.Expr
import UntypedLambda.Token.Cursor

/-!
# Reading expressions

The grammar of expressions is

    expression ::= atom (atom | function)*  |  function
    function   ::= "λ" name+ "." expression
    atom       ::= name | "(" expression ")"

Application associates to the left, `λxy.M` stands for `λx.λy.M`, and the body
of a function reaches as far to the right as it can.

The reader is a pushdown machine that takes one token at a time.  Its place in
the line is a `Place`; what is still open around that place is a stack of
`Frame`s.  Since every transition takes a token, reading ends with the tokens.

* `Expr.move` — what the machine does with one token.
* `Expr.read` — runs the machine from any place.
* `Cursor.expression`, `Cursor.operands`, `Cursor.function` — the three places
  where reading may start.
* `Expr.parse` — a whole source as a single expression.
-/

namespace UntypedLambda

namespace Expr

/-- Something that was opened to the left of the current place.  `before` is
the expression that the opened part is going to be applied to, if any. -/
inductive Frame where
  /-- An opening parenthesis. -/
  | group (before : Option Expr)
  /-- The parameters of a function whose body is being read, innermost first. -/
  | body (before : Option Expr) (params : List String)
  deriving DecidableEq, Repr, Inhabited

/-- What has been read of the innermost open part. -/
inductive Place where
  /-- Nothing yet: an operand has to follow. -/
  | start
  /-- The operands read so far, applied to each other. -/
  | operands (head : Expr)
  /-- A `λ` and the parameters behind it, innermost first. -/
  | params (before : Option Expr) (names : List String)
  deriving DecidableEq, Repr, Inhabited

/-- What is left after the bodies of the open functions have ended. -/
inductive Unwound where
  /-- No parenthesis is open: the whole expression has been read. -/
  | whole (e : Expr)
  /-- The innermost open parenthesis holds `e`. -/
  | group (e : Expr) (before : Option Expr) (frames : List Frame)
  deriving DecidableEq, Repr, Inhabited

/-- Ends the bodies of all functions up to the innermost open parenthesis. -/
def unwind (e : Expr) : List Frame → Unwound
  | [] => .whole e
  | .body before params :: frames => unwind ((abstract params e).applyTo before) frames
  | .group before :: frames => .group e before frames

/-- Where the machine starts and where it has to stop. -/
structure Reading where
  /-- Does the expression end with a closing parenthesis of its own? -/
  closed : Bool
  /-- The place at which an error at the end of the line is reported. -/
  endSpan : Span

/-- What the machine does with a token. -/
inductive Move where
  /-- It takes the token and is at another place. -/
  | go (place : Place) (frames : List Frame)
  /-- It stops with a result, and has taken the token or left it where it is. -/
  | stop (result : Except Error Expr) (taken : Bool)

/-- What the machine does with the next token.  A closing parenthesis that belongs to
no opened one ends the expression, and is taken only if `r.closed`.  A token that
cannot start an operand or a list of parameters is taken before it is refused; one that
cannot continue them is left in place. -/
def move (r : Reading) (t : Token) : Place → List Frame → Move
  | .start, frames =>
      match t.symbol with
      | .variable c => .go (.operands (.var (String.singleton c))) frames
      | .lambda => .go (.params none []) frames
      | .openParen => .go .start (.group none :: frames)
      | _ => .stop (.error (Cursor.complain r.endSpan .expression [t])) true
  | .params before [], frames =>
      match t.symbol with
      | .variable c => .go (.params before [String.singleton c]) frames
      | _ => .stop (.error (Cursor.complain r.endSpan .parameter [t])) true
  | .params before (p :: ps), frames =>
      match t.symbol with
      | .variable c => .go (.params before (String.singleton c :: p :: ps)) frames
      | .dot => .go .start (.body before (p :: ps) :: frames)
      | _ => .stop (.error (Cursor.complain r.endSpan .parameterOrDot [t])) false
  | .operands head, frames =>
      match t.symbol with
      | .variable c => .go (.operands (.app head (.var (String.singleton c)))) frames
      | .lambda => .go (.params (some head) []) frames
      | .openParen => .go .start (.group (some head) :: frames)
      | .closeParen =>
          match unwind head frames with
          | .whole e => .stop (.ok e) r.closed
          | .group e before outer => .go (.operands (e.applyTo before)) outer
      | _ => .stop (.error (Cursor.complain r.endSpan .operandOrClose [t])) false

/-- What the machine has read when the line ends. -/
def atEnd (r : Reading) : Place → List Frame → Except Error Expr
  | .start, _ => .error (Cursor.complain r.endSpan .expression [])
  | .params _ [], _ => .error (Cursor.complain r.endSpan .parameter [])
  | .params _ (_ :: _), _ => .error (Cursor.complain r.endSpan .parameterOrDot [])
  | .operands head, frames =>
      match unwind head frames, r.closed with
      | .whole e, false => .ok e
      | _, _ => .error (Cursor.complain r.endSpan .operandOrClose [])

/-- Reads an expression, and answers with the tokens left behind it. -/
def read (r : Reading) : List Token → Place → List Frame → Except Error Expr × List Token
  | [], place, frames => (atEnd r place frames, [])
  | t :: rest, place, frames =>
      match move r t place frames with
      | .go place' frames' => read r rest place' frames'
      | .stop result taken => (result, if taken then rest else t :: rest)

end Expr

namespace Cursor

/-- Reads an expression from a given place. -/
def readFrom (c : Cursor) (place : Expr.Place) (closed : Bool) : Except Error Expr × Cursor :=
  let r := Expr.read ⟨closed, c.endSpan⟩ c.rest place []
  (r.1, ⟨r.2, c.length⟩)

/-- Reads an expression.  If `closed`, it has to end with a closing parenthesis,
which is taken as well. -/
def expression (c : Cursor) (closed : Bool) : Except Error Expr × Cursor :=
  c.readFrom .start closed

/-- Reads the operands that follow `head`, and applies it to them from left to
right. -/
def operands (c : Cursor) (head : Expr) (closed : Bool) : Except Error Expr × Cursor :=
  c.readFrom (.operands head) closed

/-- Reads the rest of a function behind its `λ`. -/
def function (c : Cursor) : Except Error Expr × Cursor :=
  c.readFrom (.params none []) false

/-- Demands that nothing is left behind what was read. -/
def finished {α : Type} (r : Except Error α × Cursor) : Except Error α :=
  match r.1 with
  | .error e => .error e
  | .ok a => r.2.finish.1.map fun _ => a

end Cursor

/-- Reads a whole source as a single expression. -/
def Expr.parse (source : String) : Except Error Expr :=
  Cursor.finished ((Cursor.ofSource source).expression false)

end UntypedLambda
