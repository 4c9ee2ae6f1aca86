import Calculator.Budget
import Calculator.Expr

/-!
# When two trees are the same

Trees are compared node by node, from the left, up to the first difference; numbers compare as numbers and
operators as tokens. Each level on which the trees agree in kind costs one unit of the budget.

**Results.**
* `same_paren`: parentheses are compared by what is in them.
-/
namespace Calculator.Expr

/-- Whether two trees are the same. -/
def same (budget : Budget) : Expr → Expr → Except Fault Bool
  | number x, number y => do
    let _ ← budget.spend Budget.levelCost
    return x == y
  | paren a, paren b => do
    let budget ← budget.spend Budget.levelCost
    a.same budget b
  | unary o a, unary p b => do
    let budget ← budget.spend Budget.levelCost
    if o.same p then a.same budget b else return false
  | binary a o b, binary c p d => do
    let budget ← budget.spend Budget.levelCost
    let left ← a.same budget c
    if left && o.same p then b.same budget d else return false
  | stray s, stray t => do
    let _ ← budget.spend Budget.levelCost
    return s == t
  | _, _ => return false

theorem same_paren (a b : Expr) : (paren a).same .unlimited (paren b) = a.same .unlimited b := rfl

end Calculator.Expr
