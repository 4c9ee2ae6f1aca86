import Calculator.Double.Nearest

/-!
# The shortest decimal that reads back

Every finite double is a whole number of 10^-1074, so its exact decimal is a natural number. Keeping
only the first `n` digits of it leaves two neighbours on a coarser grid; the shortest decimal is the
first of these, for `n` = 1, 2, …, that is read back as the same double. Of two on one grid the nearer
is taken, and of two equally near the even one.

**Results.**
* `readsBack_of_onGrid?`: a decimal that a grid offers reads back.
-/
namespace Calculator.Double

/-- A positive decimal: `digits * 10 ^ exponent`. -/
structure Decimal where
  digits : Nat
  exponent : Int
  deriving DecidableEq, Repr

/-- Places after the point in the exact decimal of a double. -/
def places : Nat := 1074

/-- The size of the double of rank `k`, in units of 10^-1074. -/
def exactDigits (k : Nat) : Nat := units k * Nat.pow 5 places

/-- Whether `digits` units of 10^-1074 are read back as the double of rank `k`. -/
def readsBack (k digits : Nat) : Bool := nearestRank digits (Nat.pow 10 places) == k

/-- The neighbour, nearer first, of `a` on the grid of multiples of `step` that reads back as rank `k`,
counted in steps. -/
def onGrid? (k a step : Nat) : Option Nat :=
  let near := divRound a step
  let far := if near * step ≤ a then near + 1 else near - 1
  [near, far].find? fun c => readsBack k (c * step)

/-- The decimal of fewest digits that is read back as the double of rank `k`. -/
def shortest (k : Nat) : Decimal :=
  let exact := exactDigits k
  let length := (Nat.toDigits 10 exact).length
  let found := (List.range length).findSome? fun n =>
    let dropped := length - (n + 1)
    (onGrid? k exact (Nat.pow 10 dropped)).map fun c => ⟨c, (dropped : Int) - places⟩
  found.getD ⟨exact, -places⟩

/-! ## Reading back -/

theorem readsBack_of_onGrid? {k a step c : Nat} (h : onGrid? k a step = some c) :
    readsBack k (c * step) = true := by
  have hc := List.find?_some h
  exact hc

end Calculator.Double
