import Calculator.Budget
import Calculator.Expr

/-!
# The value of an expression

Operands are worked out first, the left one before the right one, and only then is the operator looked
at; so the fault of an operand wins over that of its operator. Each level of the tree costs one unit of
the budget.

**Results.**
* `value_paren`: parentheses do not change a value.
-/
namespace Calculator.Expr

/-- A sign applied to its operand. -/
def applySign (operator : Token) (x : Float) : Except Fault Float :=
  match operator.kind with
  | .plus => .ok x
  | .minus => .ok (-x)
  | _ => .error (.unknownSign operator)

/-- An operator applied to its operands. -/
def applyOperator (operator : Token) (x y : Float) : Except Fault Float :=
  match operator.kind with
  | .plus => .ok (x + y)
  | .minus => .ok (x - y)
  | .star => .ok (x * y)
  | .slash => (Double.divide x y).mapError .arithmetic
  | .caret => (Double.power x y).mapError .arithmetic
  | _ => .error (.unknownOperator operator)

/-- The value of an expression. -/
def value (budget : Budget) : Expr → Except Fault Float
  | number value => do
    let _ ← budget.spend Budget.levelCost
    return value
  | paren inner => do
    let budget ← budget.spend Budget.levelCost
    inner.value budget
  | unary operator operand => do
    let budget ← budget.spend Budget.levelCost
    let x ← operand.value budget
    applySign operator x
  | binary left operator right => do
    let budget ← budget.spend Budget.levelCost
    let x ← left.value budget
    let y ← right.value budget
    applyOperator operator x y
  | stray leaf => do
    let _ ← budget.spend Budget.levelCost
    throw (.notExpression leaf)

theorem value_paren (inner : Expr) : (paren inner).value .unlimited = inner.value .unlimited := rfl

end Calculator.Expr
