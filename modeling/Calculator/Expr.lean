import Calculator.Token

/-!
# Expressions

The tree of an expression keeps its parentheses and the tokens of its operators. A tree built by hand may
have any tokens as operators, and leaves that are no expressions.
-/
namespace Calculator

inductive Expr where
  | number (value : Float)
  | paren (inner : Expr)
  | unary (operator : Token) (operand : Expr)
  | binary (left : Expr) (operator : Token) (right : Expr)
  /-- A leaf that is no expression, known by how it reads. -/
  | stray (leaf : String)
  deriving DecidableEq, Repr

namespace Expr

/-- Number of levels of the tree. -/
def height : Expr → Nat
  | number _ | stray _ => 1
  | paren inner => inner.height + 1
  | unary _ operand => operand.height + 1
  | binary left _ right => max left.height right.height + 1

end Expr
end Calculator
