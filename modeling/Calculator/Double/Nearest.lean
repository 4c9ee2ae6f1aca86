import Calculator.Double

/-!
# The double nearest to a fraction

`nearestRank num den` is the rank of the double nearest to `num / den`, a half going to the even
significand and all that is too large to infinity. The fraction is first brought to units; a size of
more than 53 bits is rounded at the power of two that leaves 53.

**Results.**
* `divRound_mul`: rounding a quotient is exact on multiples.
* `two_mul_divRound_le`, `le_two_mul_divRound`: a rounded quotient is within half a unit.
* `nearestRank_le`: no fraction reads as more than infinity.
-/
namespace Calculator.Double

/-- `a / b` rounded to the nearest natural number, a half to the even one. -/
def divRound (a b : Nat) : Nat :=
  let q := a / b
  let r := a % b
  if 2 * r < b then q else if b < 2 * r then q + 1 else q + q % 2

/-- The rank of the double nearest to `num / den`. -/
def nearestRank (num den : Nat) : Nat :=
  let size := num * unitsInOne
  let e := (size / den).log2 - 52
  min (e * binade + divRound size (den <<< e)) infinityRank

/-- The value of a numeral: ASCII digits, with a point among or behind them or with none. -/
def ofNumeral (numeral : List Char) : Float :=
  let whole := numeral.takeWhile Char.isDigit
  let fraction := (numeral.dropWhile Char.isDigit).drop 1
  ofRank false (nearestRank (Nat.ofDigitChars 10 (whole ++ fraction) 0) (Nat.pow 10 fraction.length))

/-! ## Rounded quotients -/

theorem divRound_mul (q : Nat) {b : Nat} (hb : 0 < b) : divRound (q * b) b = q := by
  simp [divRound, Nat.mul_div_cancel q hb, hb]

/-- A rounded quotient is at most half a unit too large. -/
theorem two_mul_divRound_le (a : Nat) {b : Nat} (hb : 0 < b) :
    2 * (divRound a b * b) ≤ 2 * a + b := by
  have hr := Nat.mod_lt a hb
  have ha := Nat.div_add_mod a b
  have hc := Nat.mul_comm b (a / b)
  unfold divRound
  simp only
  split
  · omega
  · split
    · rw [Nat.add_one_mul (a / b) b]; omega
    · rcases Nat.mod_two_eq_zero_or_one (a / b) with h | h <;> rw [h]
      · rw [Nat.add_zero]; omega
      · rw [Nat.add_one_mul (a / b) b]; omega

/-- A rounded quotient is at most half a unit too small. -/
theorem le_two_mul_divRound (a : Nat) {b : Nat} (hb : 0 < b) :
    2 * a ≤ 2 * (divRound a b * b) + b := by
  have hr := Nat.mod_lt a hb
  have ha := Nat.div_add_mod a b
  have hc := Nat.mul_comm b (a / b)
  unfold divRound
  simp only
  split
  · omega
  · split
    · rw [Nat.add_one_mul (a / b) b]; omega
    · rcases Nat.mod_two_eq_zero_or_one (a / b) with h | h <;> rw [h]
      · rw [Nat.add_zero]; omega
      · rw [Nat.add_one_mul (a / b) b]; omega

theorem nearestRank_le (num den : Nat) : nearestRank num den ≤ infinityRank :=
  Nat.min_le_right _ _

end Calculator.Double
