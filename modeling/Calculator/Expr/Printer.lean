import Calculator.Budget
import Calculator.Double.Layout
import Calculator.Expr
import Calculator.Text.Quoted

/-!
# Printing expressions

`render` writes an expression with every operation in parentheses, so that its own parentheses are not
needed. `describe` writes the tree node by node for the log, parentheses included. It goes deeper for a level
than rendering does, so that there are trees that can be rendered and not described.

**Results.**
* `tooDeep_of_describe`: nothing but its depth keeps a tree from being described.
-/
namespace Calculator.Expr

/-- The expression as text, every operation in parentheses. Operators print as their lexemes, whatever
their kind. -/
def render (budget : Budget) : Expr → Except Fault String
  | number value => do
    let _ ← budget.spend Budget.levelCost
    return Double.Layout.literal.text value
  | paren inner => do
    let budget ← budget.spend Budget.levelCost
    inner.render budget
  | unary operator operand => do
    let budget ← budget.spend Budget.levelCost
    let operand ← operand.render budget
    return "(" ++ operator.lexeme ++ operand ++ ")"
  | binary left operator right => do
    let budget ← budget.spend Budget.levelCost
    let left ← left.render budget
    let right ← right.render budget
    return "(" ++ left ++ " " ++ operator.lexeme ++ " " ++ right ++ ")"
  | stray leaf => do
    let _ ← budget.spend Budget.levelCost
    throw (.notExpression leaf)

/-- The token of an operator, field by field. -/
def describeOperator (operator : Token) : String :=
  let value := match operator.value with
    | none => "None"
    | some value => Double.Layout.literal.text value
  "Token(type=" ++ operator.kind.name ++ ", lexeme=" ++ Text.quoted operator.lexeme
    ++ ", value=" ++ value ++ ")"

/-- The tree, node by node. -/
def describe (budget : Budget) : Expr → Except Fault String
  | number value => do
    let _ ← budget.spend Budget.descriptionCost
    return "Number(value=" ++ Double.Layout.literal.text value ++ ")"
  | paren inner => do
    let budget ← budget.spend Budget.descriptionCost
    return "Parenthesized(inner=" ++ (← inner.describe budget) ++ ")"
  | unary operator operand => do
    let budget ← budget.spend Budget.descriptionCost
    return "Unary(operator=" ++ describeOperator operator ++ ", operand="
      ++ (← operand.describe budget) ++ ")"
  | binary left operator right => do
    let budget ← budget.spend Budget.descriptionCost
    let left ← left.describe budget
    let right ← right.describe budget
    return "Binary(left=" ++ left ++ ", operator=" ++ describeOperator operator ++ ", right="
      ++ right ++ ")"
  | stray leaf => do
    let _ ← budget.spend Budget.descriptionCost
    return leaf

/-- Nothing but its depth keeps a tree from being described. -/
theorem tooDeep_of_describe {e : Expr} {b : Budget} {fault : Fault} (h : e.describe b = .error fault) :
    fault = .tooDeep ∧ b ≠ .unlimited := by
  induction e generalizing b with
  | number value => exact Budget.tooDeep_of_spend h fun _ h => nomatch h
  | paren inner ih => exact Budget.tooDeep_of_spend h fun _ h => ih (Fault.of_bind_ok h)
  | unary operator operand ih => exact Budget.tooDeep_of_spend h fun _ h => ih (Fault.of_bind_ok h)
  | binary left operator right ihl ihr =>
    refine Budget.tooDeep_of_spend h fun b' h => ?_
    rcases Fault.of_bind h with hleft | ⟨l, -, h⟩
    · exact ihl hleft
    · exact ihr (Fault.of_bind_ok h)
  | stray leaf => exact Budget.tooDeep_of_spend h fun _ h => nomatch h

end Calculator.Expr
