import Calculator.Double.Nearest

/-!
# Quotients and powers

The platform refuses some operations: a quotient over zero, and a power that is too large, infinite or no
real number. What is made of them here gives every pair of doubles a result. A quotient over zero is an
infinity with the sign of both operands, or no number. A power with infinite or no-number operands follows
the platform but for two cases, an exponent that is no number and an infinite exponent on a base of size
one, which give no number; a refused power is the infinity it would have been, or no number.

**Results.**
* `exists_divide_eq`, `exists_power_eq`: no refusal is left.
* `power_of_isZero`: the power with exponent zero of either sign is one, of every base.
-/
namespace Calculator.Double

/-- Why the platform gives no result. -/
inductive Refusal where
  /-- A quotient over zero. -/
  | zeroDivision
  /-- A power that is too large. -/
  | overflow
  /-- A power of zero that is infinite, or of a negative base that is no real number. -/
  | domain
  deriving DecidableEq, Repr

/-- The wording of a refusal. -/
def Refusal.message : Refusal → String
  | zeroDivision => "float division by zero"
  | overflow => "math range error"
  | domain => "math domain error"

def one : Float := ofRank false oneRank

def infinity : Float := ofRank false infinityRank

/-- The double with the size of `a` and the sign of `b`. -/
def copySign (a b : Float) : Float := ofRank (isNegative b) (rank a)

/-- Whether the double is less than zero. -/
def isBelowZero (x : Float) : Bool :=
  isNegative x && decide (rank x ≠ 0) && decide (rank x ≤ infinityRank)

/-- The units in a finite double, with their sign. -/
def signedUnits (x : Float) : Int := if isNegative x then -(units (rank x) : Int) else units (rank x)

/-- Whether a double is finite, whole, and leaves one over when it is divided by two. -/
def isOddInteger (x : Float) : Bool :=
  decide (rank x < infinityRank) && isWhole (rank x)
    && signedUnits x % (2 * unitsInOne) == (unitsInOne : Int)

/-! ## The platform -/

/-- The platform's quotient. -/
def platformQuotient (a b : Float) : Except Refusal Float :=
  if rank b = 0 then .error .zeroDivision else .ok (a / b)

/-- The platform's power with operands of which one at least is not finite. -/
def platformLimit (a b : Float) : Float :=
  if infinityRank < rank a then if rank b = 0 then one else a
  else if infinityRank < rank b then if a = one then one else b
  else if rank a = infinityRank then
    if rank b = 0 then one
    else ofRank (isNegative a && isOddInteger b) (if isNegative b then 0 else infinityRank)
  else if rank a = oneRank then one
  else if decide (oneRank < rank a) = isNegative b then ofRank false 0
  else infinity

/-- The platform's power of finite operands, as far as it is known without working it out: that of an
exponent zero and of a base one is one, that of a base zero is a zero or infinite, and a negative base has
none with a broken exponent. -/
def platformCorner? (a b : Float) : Option (Except Refusal Float) :=
  if rank b = 0 ∨ a = one then some (.ok one)
  else if rank a = 0 then
    some (if isNegative b then .error .domain else .ok (ofRank (isNegative a && isOddInteger b) 0))
  else if isNegative a && !isWhole (rank b) then some (.error .domain)
  else none

/-- The platform's power. -/
def platformPower (a b : Float) : Except Refusal Float :=
  if infinityRank ≤ rank a ∨ infinityRank ≤ rank b then .ok (platformLimit a b)
  else
    (platformCorner? a b).getD <|
      let value := Float.pow a b
      if infinityRank < rank value then .error .domain
      else if rank value = infinityRank then .error .overflow
      else .ok value

/-! ## Results for every pair -/

/-- The quotient: over zero it is an infinity with the sign of both operands, and zero or no number over
zero is no number. -/
def divide (a b : Float) : Except Refusal Float :=
  if rank b ≠ 0 then platformQuotient a b
  else if rank a = 0 ∨ infinityRank < rank a then .ok notANumber
  else .ok (copySign infinity a * copySign one b)

/-- The power. It is a negative infinity if the base is below zero, or is the negative zero, and the
exponent is an odd whole number. -/
def power (a b : Float) : Except Refusal Float :=
  if infinityRank < rank b ∨ (rank a = oneRank ∧ rank b = infinityRank) then .ok notANumber
  else
    match platformPower a b with
    | .error .overflow => .ok (ofRank (isBelowZero a && isOddInteger b) infinityRank)
    | .error .domain =>
      if rank a = 0 then .ok (ofRank (isNegative a && isOddInteger b) infinityRank)
      else .ok notANumber
    | outcome => outcome

/-! ## Laws -/

/-- The platform's power is refused for its size or its operands only. -/
theorem platformPower_ne_zeroDivision (a b : Float) : platformPower a b ≠ .error .zeroDivision := by
  unfold platformPower
  split
  · simp
  · unfold platformCorner?
    grind

/-- Every pair has a quotient. -/
theorem exists_divide_eq (a b : Float) : ∃ x, divide a b = .ok x := by
  unfold divide
  split
  · next hb => exact ⟨a / b, if_neg hb⟩
  · split <;> exact ⟨_, rfl⟩

/-- Every pair has a power. -/
theorem exists_power_eq (a b : Float) : ∃ x, power a b = .ok x := by
  unfold power
  split
  · exact ⟨_, rfl⟩
  · cases h : platformPower a b with
    | ok x => exact ⟨x, rfl⟩
    | error why =>
      cases why with
      | zeroDivision => exact absurd h (platformPower_ne_zeroDivision a b)
      | overflow => exact ⟨_, rfl⟩
      | domain =>
        simp only
        split <;> exact ⟨_, rfl⟩

theorem power_of_isZero (a : Float) {b : Float} (h : rank b = 0) : power a b = .ok one := by
  have hinf : 0 < infinityRank := by decide
  have hb : platformPower a b = .ok one := by
    simp only [platformPower, platformLimit, platformCorner?, h, true_or, if_true, Option.getD_some]
    grind
  simp only [power, h, hb]
  rw [if_neg (by omega)]

end Calculator.Double
