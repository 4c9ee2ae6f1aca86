import Calculator.Double.Order
import Calculator.Double.Power

/-!
# The numbers that doubles are

A finite double is a fraction over a power of two, with the sign, exponent and significand of its pattern.
In units of the smallest positive double it is a whole number, so whether it is an integer, and whether that
is odd, is a matter of remainders.

**Results.**
* `number?_eq`: a finite double is its units over those of one.
* `isInteger_iff`, `isOddInteger_iff`: the doubles that are integers, and odd ones.
-/
namespace Calculator.Double

open Float.Model.UnpackedFloat

/-- The number that is stood for, if it is one. -/
def fraction? : Float.Model.UnpackedFloat → Option ℚ
  | .zero _ => some 0
  | .finite sign significand exponent _ => some (sign.apply significand * 2 ^ exponent)
  | .infinity _ | .notANumber => none

/-- The number that a double is, if it is finite. -/
def number? (x : Float) : Option ℚ := fraction? x.toModel.unpack

/-- Whether a double is finite and whole. -/
def isInteger (x : Float) : Bool := x.isFinite && isWhole (rank x)

variable {x : Float} {k : Nat}

/-! ## Units -/

theorem unitsInOne_pos : 0 < unitsInOne := by decide

/-- The units of a finite double are its significand, shifted. -/
theorem units_eq (k : Nat) : units k = significand k * 2 ^ exponent k := by
  unfold units
  split
  · next h =>
    obtain ⟨hsignificand, hexponent⟩ := significand_of_lt h
    rw [hsignificand, hexponent, Nat.pow_zero, Nat.mul_one]
  · next h =>
    obtain ⟨hsignificand, -⟩ := significand_of_le (Nat.le_of_not_lt h)
    rw [hsignificand, Nat.shiftLeft_eq]
    rfl

theorem fraction?_neg (u : Float.Model.UnpackedFloat) : fraction? u.neg = (fraction? u).map (- ·) := by
  cases u with
  | infinity | notANumber => rfl
  | zero => simp [neg, fraction?]
  | finite sign => cases sign <;> simp [neg, fraction?, Sign.apply]

/-- A rank below that of infinity stands for its units over those of one. -/
theorem fraction?_magnitude (h : k < infinityRank) :
    fraction? (magnitude k) = some ((units k : ℚ) / unitsInOne) := by
  rcases magnitude_cases h.le with ⟨hk, hu⟩ | ⟨_, -, hu⟩ | ⟨hk, -⟩
  · rw [hu, hk]
    simp [fraction?, units, binade]
  · rw [hu, fraction?, Sign.apply, units_eq, unitsInOne, Nat.one_shiftLeft]
    simp only [Int.cast_natCast, Nat.cast_mul, Nat.cast_pow, Nat.cast_ofNat]
    rw [zpow_sub₀ two_ne_zero, zpow_natCast, mul_div_assoc]
    rfl
  · exact absurd hk h.ne

/-- A finite double is its units over those of one. -/
theorem number?_eq (h : rank x < infinityRank) : number? x = some ((signedUnits x : ℚ) / unitsInOne) := by
  unfold number? signedUnits
  rw [unpack_eq h.le]
  cases isNegative x with
  | false => simpa using fraction?_magnitude h
  | true =>
    rw [if_pos rfl, if_pos rfl, fraction?_neg, fraction?_magnitude h]
    simp [neg_div]

theorem number?_eq_none (h : infinityRank ≤ rank x) : number? x = none := by
  unfold number?
  rcases h.eq_or_lt with hinfinity | hnan
  · rw [unpack_eq hinfinity.ge, ← hinfinity, magnitude_infinityRank]
    cases isNegative x <;> rfl
  · rw [eq_notANumber_of_lt_rank hnan]
    rfl

/-! ## Integers -/

/-- A finite double is an integer if its units are so many times those of one. -/
theorem number?_eq_some_iff (h : rank x < infinityRank) (n : ℤ) :
    number? x = some (n : ℚ) ↔ signedUnits x = n * unitsInOne := by
  have hpos : (unitsInOne : ℚ) ≠ 0 := Nat.cast_ne_zero.mpr unitsInOne_pos.ne'
  rw [number?_eq h, Option.some_inj, div_eq_iff hpos]
  exact_mod_cast Iff.rfl

theorem isWhole_iff (x : Float) : isWhole (rank x) = true ↔ (unitsInOne : ℤ) ∣ signedUnits x := by
  have hunits : (unitsInOne : ℤ) ∣ signedUnits x ↔ (unitsInOne : ℤ) ∣ units (rank x) := by
    unfold signedUnits
    split
    · exact Int.dvd_neg
    · exact Iff.rfl
  rw [hunits, Int.natCast_dvd_natCast, isWhole, beq_iff_eq, Nat.dvd_iff_mod_eq_zero]

/-- The doubles that are integers are those that are finite and whole. -/
theorem isInteger_iff (x : Float) : isInteger x = true ↔ ∃ n : ℤ, number? x = some (n : ℚ) := by
  unfold isInteger
  rw [Bool.and_eq_true, isFinite_iff, isWhole_iff]
  by_cases h : rank x < infinityRank
  · simp only [number?_eq_some_iff h]
    rw [and_iff_right h, dvd_iff_exists_eq_mul_left]
  · rw [number?_eq_none (Nat.le_of_not_lt h)]
    exact ⟨fun h' => absurd h'.1 h, nofun⟩

/-- A remainder of one half of the divisor is left by the odd multiples of that half. -/
theorem emod_two_mul_eq_iff {s m : ℤ} (hm : 0 < m) : s % (2 * m) = m ↔ ∃ n, s = (2 * n + 1) * m := by
  constructor
  · intro h
    have hdiv := Int.mul_ediv_add_emod s (2 * m)
    rw [h] at hdiv
    exact ⟨s / (2 * m), by linarith⟩
  · rintro ⟨n, rfl⟩
    have hsplit : (2 * n + 1) * m = m + 2 * m * n := by ring
    rw [hsplit, Int.add_mul_emod_self_left, Int.emod_eq_of_lt hm.le (by omega)]

/-- The doubles that are odd integers are told by the remainder, of either sign and of any size. -/
theorem isOddInteger_iff (x : Float) :
    isOddInteger x = true ↔ ∃ n : ℤ, number? x = some ((2 * n + 1 : ℤ) : ℚ) := by
  unfold isOddInteger
  rw [Bool.and_eq_true, Bool.and_eq_true, decide_eq_true_iff, isWhole_iff, beq_iff_eq,
    emod_two_mul_eq_iff (Int.natCast_pos.mpr unitsInOne_pos)]
  by_cases h : rank x < infinityRank
  · simp only [number?_eq_some_iff h]
    refine ⟨And.right, ?_⟩
    rintro ⟨n, hn⟩
    exact ⟨⟨h, hn ▸ Dvd.intro_left _ rfl⟩, n, hn⟩
  · rw [number?_eq_none (Nat.le_of_not_lt h)]
    exact ⟨fun h' => absurd h'.1.1 h, nofun⟩

end Calculator.Double
