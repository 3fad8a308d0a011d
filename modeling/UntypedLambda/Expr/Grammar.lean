import UntypedLambda.Expr
import UntypedLambda.Token

/-!
# The grammar of expressions

    expression ::= atom+ | atom* function
    function   ::= "λ" name+ "." expression
    atom       ::= name | "(" expression ")"

`Derives` says which symbols stand for which expression.  It does not say how
they are read: application is the left-associative juxtaposition of atoms, and a
function can only be the last operand, so its body reaches as far as it can.
`Tree` holds the derivations of this grammar as data.

`Permits` is a shorter grammar, which says what may be written but not what it
stands for:

    expression ::= atom (atom | function)*
    function   ::= "λ" name+ "." expression
    atom       ::= name | "(" expression ")" | function
-/

namespace UntypedLambda

namespace Expr

/-- The parts that an expression is made of. -/
inductive Part where
  /-- A whole expression. -/
  | expression
  /-- Atoms in a row, at least one. -/
  | atoms
  /-- A name or a group. -/
  | atom
  /-- A function. -/
  | function
  /-- The parameters of a function, at least one, and its body. -/
  | parameters
  deriving DecidableEq, Repr, Inhabited

/-- The symbols that are written for a part of an expression. -/
inductive Derives : Part → List Symbol → Expr → Prop
  /-- A name is an atom. -/
  | name (c : Char) : Derives .atom [.variable c] (.var (String.singleton c))
  /-- An expression in parentheses is an atom. -/
  | group {ts : List Symbol} {e : Expr} :
      Derives .expression ts e → Derives .atom (.openParen :: (ts ++ [.closeParen])) e
  /-- A single atom. -/
  | single {ts : List Symbol} {e : Expr} : Derives .atom ts e → Derives .atoms ts e
  /-- A further atom is an argument of those before it. -/
  | further {ts us : List Symbol} {f a : Expr} :
      Derives .atoms ts f → Derives .atom us a → Derives .atoms (ts ++ us) (.app f a)
  /-- Atoms in a row are an expression. -/
  | atoms {ts : List Symbol} {e : Expr} : Derives .atoms ts e → Derives .expression ts e
  /-- A function is an expression. -/
  | function {ts : List Symbol} {e : Expr} : Derives .function ts e → Derives .expression ts e
  /-- A function may be the last argument of atoms in a row. -/
  | operand {ts us : List Symbol} {f a : Expr} :
      Derives .atoms ts f → Derives .function us a → Derives .expression (ts ++ us) (.app f a)
  /-- A function starts with `λ`. -/
  | lambda {ts : List Symbol} {e : Expr} :
      Derives .parameters ts e → Derives .function (.lambda :: ts) e
  /-- The last parameter is followed by a dot and the body. -/
  | last (c : Char) {ts : List Symbol} {b : Expr} : Derives .expression ts b →
      Derives .parameters (.variable c :: .dot :: ts) (.lam (String.singleton c) b)
  /-- A parameter is followed by further ones. -/
  | next (c : Char) {ts : List Symbol} {b : Expr} : Derives .parameters ts b →
      Derives .parameters (.variable c :: ts) (.lam (String.singleton c) b)

/-- No part of an expression is empty. -/
theorem Derives.ne_nil {p : Part} {ts : List Symbol} {e : Expr} (h : Derives p ts e) : ts ≠ [] := by
  induction h with
  | name => simp
  | group => simp
  | single _ ih => exact ih
  | further _ _ ih _ => simp [ih]
  | atoms _ ih => exact ih
  | function _ ih => exact ih
  | operand _ _ ih _ => simp [ih]
  | lambda => simp
  | last => simp
  | next => simp

/-! ## Derivations as data -/

/-- The derivation trees of the grammar, one constructor for each of its rules. -/
inductive Tree : Part → Type
  /-- A name as an atom. -/
  | name (c : Char) : Tree .atom
  /-- An expression in parentheses as an atom. -/
  | group (e : Tree .expression) : Tree .atom
  /-- A single atom. -/
  | single (a : Tree .atom) : Tree .atoms
  /-- Atoms in a row and a further one. -/
  | further (f : Tree .atoms) (a : Tree .atom) : Tree .atoms
  /-- Atoms in a row as an expression. -/
  | atoms (f : Tree .atoms) : Tree .expression
  /-- A function as an expression. -/
  | function (f : Tree .function) : Tree .expression
  /-- Atoms in a row and a function as the last operand. -/
  | operand (f : Tree .atoms) (a : Tree .function) : Tree .expression
  /-- A function. -/
  | lambda (ps : Tree .parameters) : Tree .function
  /-- The last parameter and the body. -/
  | last (c : Char) (body : Tree .expression) : Tree .parameters
  /-- A parameter and further ones. -/
  | next (c : Char) (ps : Tree .parameters) : Tree .parameters
  deriving Repr

namespace Tree

/-- The symbols at the leaves of a derivation, from left to right. -/
def symbols {p : Part} : Tree p → List Symbol
  | .name c => [.variable c]
  | .group e => .openParen :: (e.symbols ++ [.closeParen])
  | .single a => a.symbols
  | .further f a => f.symbols ++ a.symbols
  | .atoms f => f.symbols
  | .function f => f.symbols
  | .operand f a => f.symbols ++ a.symbols
  | .lambda ps => .lambda :: ps.symbols
  | .last c body => .variable c :: .dot :: body.symbols
  | .next c ps => .variable c :: ps.symbols

/-- The expression that a derivation stands for. -/
def expr {p : Part} : Tree p → Expr
  | .name c => .var (String.singleton c)
  | .group e => e.expr
  | .single a => a.expr
  | .further f a => .app f.expr a.expr
  | .atoms f => f.expr
  | .function f => f.expr
  | .operand f a => .app f.expr a.expr
  | .lambda ps => ps.expr
  | .last c body => .lam (String.singleton c) body.expr
  | .next c ps => .lam (String.singleton c) ps.expr

end Tree

/-! ## The short grammar -/

/-- The symbols that may be written for a part of an expression.  A function may
stand wherever an atom may, and nothing is said about where its body ends. -/
inductive Permits : Part → List Symbol → Prop
  /-- A name is an atom. -/
  | name (c : Char) : Permits .atom [.variable c]
  /-- An expression in parentheses is an atom. -/
  | group {ts : List Symbol} :
      Permits .expression ts → Permits .atom (.openParen :: (ts ++ [.closeParen]))
  /-- A function is an atom. -/
  | function {ts : List Symbol} : Permits .function ts → Permits .atom ts
  /-- An expression starts with an atom. -/
  | first {ts : List Symbol} : Permits .atom ts → Permits .expression ts
  /-- An expression goes on with an atom. -/
  | thenAtom {ts us : List Symbol} :
      Permits .expression ts → Permits .atom us → Permits .expression (ts ++ us)
  /-- An expression goes on with a function. -/
  | thenFunction {ts us : List Symbol} :
      Permits .expression ts → Permits .function us → Permits .expression (ts ++ us)
  /-- A function starts with `λ`. -/
  | lambda {ts : List Symbol} : Permits .parameters ts → Permits .function (.lambda :: ts)
  /-- The last parameter is followed by a dot and the body. -/
  | last (c : Char) {ts : List Symbol} :
      Permits .expression ts → Permits .parameters (.variable c :: .dot :: ts)
  /-- A parameter is followed by further ones. -/
  | next (c : Char) {ts : List Symbol} :
      Permits .parameters ts → Permits .parameters (.variable c :: ts)

end Expr

end UntypedLambda
