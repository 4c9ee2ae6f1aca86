import Calculator.Double.Exact

/-!
# The table of powers

Which power two doubles have is told by a table, in which the first case that applies decides. It asks whether
they are zero, infinite or no number, how they compare to zero and one, and what integers they are; it does
not ask what the platform refuses. The platform works out a power only of finite doubles that are not zero,
and of a negative one only if the exponent is an integer. What it refuses is infinite, or no number.

**Results.**
* `power_of_finite`: a power that is worked out, or is too large.
* `power_eq_notANumber`, `power_eq_of_isInf`, `power_eq_of_isFinite`: the parts of the table.
* `power_eq_table`: the power of every two doubles is that of the table.
-/
namespace Calculator.Double

/-- The library's power of finite doubles that are not zero. Of base one it is one; nothing else is known of
it here. -/
def libraryPower (a b : Float) : Float := if a = one then one else Float.pow a b

/-- The double, or its negative. -/
def signed (negative : Bool) (x : Float) : Float := if negative then -x else x

/-- The power of two doubles, by cases of which the first that applies decides. -/
def powerTable (a b : Float) : Float :=
  let negative := isNegative a && isOddInteger b
  if b == 0 then 1
  else if b.isNaN ∨ a.isNaN ∨ (a.abs == 1 ∧ b.isInf) ∨
      (a.isFinite ∧ a < 0 ∧ b.isFinite ∧ ¬isInteger b) then notANumber
  else if b.isInf then if 1 < a.abs ↔ 0 < b then infinity else 0
  else if a == 0 then signed negative (if b < 0 then infinity else 0)
  else if a.isInf then signed negative (if b < 0 then 0 else infinity)
  else if (libraryPower a b).isInf then signed negative infinity
  else libraryPower a b

variable {a b : Float}

/-! ## One -/

theorem oneRank_lt : oneRank < infinityRank := by decide

theorem one_eq : (1 : Float) = one := rfl

theorem rank_one : rank one = oneRank := rank_ofRank false oneRank_lt.le

theorem position_one : position one = oneRank := position_ofRank false oneRank_lt.le

theorem isNegative_one : isNegative one = false := isNegative_ofRank false oneRank_lt.le

theorem abs_beq_one_iff (a : Float) : (a.abs == one) = true ↔ rank a = oneRank := by
  have hlt := oneRank_lt
  rw [beq_iff, rank_abs, rank_one, position_one]
  constructor
  · rintro ⟨hnumber, -, heq⟩
    rw [position_abs hnumber] at heq
    exact Int.ofNat_inj.mp heq
  · intro hrank
    have hnumber : rank a ≤ infinityRank := by omega
    exact ⟨hnumber, hlt.le, by rw [position_abs hnumber, hrank]⟩

theorem one_lt_abs_iff (h : rank a ≤ infinityRank) : one < a.abs ↔ oneRank < rank a := by
  rw [lt_iff, rank_abs, rank_one, position_one, position_abs h, and_iff_right oneRank_lt.le, and_iff_right h]
  exact Int.ofNat_lt

theorem signed_ofRank (negative : Bool) {k : Nat} (h : k ≤ infinityRank) :
    signed negative (ofRank false k) = ofRank negative k := by
  cases negative with
  | false => rfl
  | true => exact neg_ofRank false h

theorem signed_infinity (negative : Bool) : signed negative infinity = ofRank negative infinityRank :=
  signed_ofRank negative (k := infinityRank) (Nat.le_refl _)

theorem signed_zero (negative : Bool) : signed negative 0 = ofRank negative 0 :=
  signed_ofRank negative (k := 0) (Nat.zero_le _)

/-! ## The cases -/

/-- A power that is no number: an operand is none, or one is raised to an infinite power. -/
theorem power_of_isNaN (hb : rank b ≠ 0)
    (h : infinityRank < rank b ∨ infinityRank < rank a ∨ rank a = oneRank ∧ rank b = infinityRank) :
    power a b = .ok notANumber := by
  by_cases hguard : infinityRank < rank b ∨ (rank a = oneRank ∧ rank b = infinityRank)
  · exact if_pos hguard
  · have hnan : infinityRank < rank a := by tauto
    have hlimit : platformPower a b = .ok a := by
      rw [platformPower, if_pos (.inl hnan.le), platformLimit, if_pos hnan, if_neg hb]
    unfold power
    rw [if_neg hguard, hlimit, eq_notANumber_of_lt_rank hnan]

/-- An infinite power of a number that is not one. -/
theorem power_of_isInf_exponent (ha : rank a ≤ infinityRank) (hone : rank a ≠ oneRank)
    (hb : rank b = infinityRank) :
    power a b = .ok (if decide (oneRank < rank a) = isNegative b then ofRank false 0 else infinity) := by
  have hzero : rank b ≠ 0 := by rw [hb]; decide
  have hodd : isOddInteger b = false := by simp [isOddInteger, hb]
  have hlimit : platformLimit a b =
      if decide (oneRank < rank a) = isNegative b then ofRank false 0 else infinity := by
    rw [platformLimit, if_neg (Nat.not_lt.mpr ha), if_neg hb.not_gt]
    by_cases hinfinity : rank a = infinityRank
    · rw [if_pos hinfinity, if_neg hzero, hodd, Bool.and_false, hinfinity, decide_eq_true oneRank_lt]
      cases isNegative b <;> rfl
    · rw [if_neg hinfinity, if_neg hone]
  unfold power
  rw [if_neg (by omega), platformPower, if_pos (.inr hb.ge), hlimit]

section Finite

variable (hb : rank b < infinityRank) (hzero : rank b ≠ 0)
include hb hzero

/-- A power of an infinite double. -/
theorem power_of_isInf_base (ha : rank a = infinityRank) :
    power a b = .ok (ofRank (isNegative a && isOddInteger b) (if isNegative b then 0 else infinityRank)) := by
  have hlimit : platformLimit a b =
      ofRank (isNegative a && isOddInteger b) (if isNegative b then 0 else infinityRank) := by
    rw [platformLimit, if_neg ha.not_gt, if_neg hb.not_gt, if_pos ha, if_neg hzero]
  unfold power
  rw [if_neg (by omega), platformPower, if_pos (.inl ha.ge), hlimit]

/-- A power of zero. -/
theorem power_of_isZero_base (ha : rank a = 0) :
    power a b = .ok (ofRank (isNegative a && isOddInteger b) (if isNegative b then infinityRank else 0)) := by
  have hone : a ≠ one := by
    rintro rfl
    rw [rank_one] at ha
    exact absurd ha (by decide)
  have hcorner : platformPower a b = if isNegative b then .error .domain else
      .ok (ofRank (isNegative a && isOddInteger b) 0) := by
    rw [platformPower, if_neg (by omega), platformCorner?, if_neg (by tauto), if_pos ha, Option.getD_some]
  unfold power
  rw [if_neg (by omega), hcorner]
  cases isNegative b with
  | false => rfl
  | true => exact if_pos ha

/-- A power of a finite negative base with a broken exponent. -/
theorem power_of_not_isWhole (ha : rank a < infinityRank) (hpos : rank a ≠ 0) (hneg : isNegative a = true)
    (hwhole : isWhole (rank b) = false) : power a b = .ok notANumber := by
  have hone : a ≠ one := by
    rintro rfl
    rw [isNegative_one] at hneg
    cases hneg
  have hcorner : platformPower a b = .error .domain := by
    rw [platformPower, if_neg (by omega), platformCorner?, if_neg (by tauto), if_neg hpos, hneg, hwhole]
    rfl
  unfold power
  rw [if_neg (by omega), hcorner]
  exact if_neg hpos

/-- A power of a finite base that is not zero, and not negative unless the exponent is whole. -/
theorem power_of_finite (ha : rank a < infinityRank) (hpos : rank a ≠ 0)
    (hwhole : isNegative a = true → isWhole (rank b) = true) :
    power a b = .ok (if (libraryPower a b).isInf then
      ofRank (isNegative a && isOddInteger b) infinityRank else libraryPower a b) := by
  unfold power
  rw [if_neg (by omega), platformPower, if_neg (by omega), platformCorner?]
  by_cases hone : a = one
  · have hinf : ¬one.isInf = true := by
      rw [isInf_iff, rank_one]
      exact oneRank_lt.ne
    rw [libraryPower, if_pos hone, if_pos (.inr hone), if_neg hinf]
    rfl
  · have hbelow : isBelowZero a = isNegative a := by simp [isBelowZero, hpos, ha.le]
    have hreal : ¬(isNegative a && !isWhole (rank b)) = true := by
      cases hneg : isNegative a <;> simp_all
    rw [libraryPower, if_neg hone, if_neg (by tauto), if_neg hpos, if_neg hreal, Option.getD_none, hbelow]
    simp only [isInf_iff]
    rcases Nat.lt_trichotomy infinityRank (rank (Float.pow a b)) with hnan | hinf | hnumber
    · rw [if_pos hnan, if_neg hnan.ne', eq_notANumber_of_lt_rank hnan]
      exact if_neg hpos
    · rw [if_neg hinf.not_lt, if_pos hinf.symm, if_pos hinf.symm]
    · rw [if_neg hnumber.not_gt, if_neg hnumber.ne, if_neg hnumber.ne]

end Finite

/-! ## The table -/

/-- Where the table says so, the power is no number. -/
theorem power_eq_notANumber (hb : rank b ≠ 0)
    (h : b.isNaN ∨ a.isNaN ∨ (a.abs == 1 ∧ b.isInf) ∨
      (a.isFinite ∧ a < 0 ∧ b.isFinite ∧ ¬isInteger b)) : power a b = .ok notANumber := by
  rw [isNaN_iff, isNaN_iff, one_eq, abs_beq_one_iff, isInf_iff, isFinite_iff, lt_zero_iff, isFinite_iff] at h
  rcases h with h | h | h | ⟨ha, ⟨hneg, hpos, -⟩, hfinite, hbroken⟩
  · exact power_of_isNaN hb (.inl h)
  · exact power_of_isNaN hb (.inr (.inl h))
  · exact power_of_isNaN hb (.inr (.inr h))
  · have hwhole : isWhole (rank b) = false := by
      simpa [isInteger, (isFinite_iff b).mpr hfinite] using hbroken
    exact power_of_not_isWhole hfinite hb ha hpos.ne' hneg hwhole

/-- An infinite power is infinite if the base is large and the exponent is positive, or if neither is. -/
theorem power_eq_of_isInf (ha : rank a ≤ infinityRank) (hsize : rank a ≠ oneRank)
    (hb : rank b = infinityRank) :
    power a b = .ok (if 1 < a.abs ↔ 0 < b then infinity else 0) := by
  have hpositive : 0 < b ↔ isNegative b = false := by
    rw [zero_lt_iff, hb]
    exact and_iff_left ⟨by decide, Nat.le_refl _⟩
  have hagree : (1 < a.abs ↔ 0 < b) ↔ ¬decide (oneRank < rank a) = isNegative b := by
    rw [one_eq, one_lt_abs_iff ha, hpositive]
    cases isNegative b <;> simp
  rw [power_of_isInf_exponent ha hsize hb]
  simp only [hagree, ite_not]
  rfl

/-- The rest of the table, where the exponent is finite and not zero. -/
theorem power_eq_of_isFinite (hb : rank b < infinityRank) (hzero : rank b ≠ 0) (ha : rank a ≤ infinityRank)
    (hwhole : rank a < infinityRank → a < 0 → isInteger b = true) :
    power a b = .ok (
      let negative := isNegative a && isOddInteger b
      if a == 0 then signed negative (if b < 0 then infinity else 0)
      else if a.isInf then signed negative (if b < 0 then 0 else infinity)
      else if (libraryPower a b).isInf then signed negative infinity
      else libraryPower a b) := by
  have hnegative : b < 0 ↔ isNegative b = true := by
    rw [lt_zero_iff]
    exact and_iff_left ⟨Nat.pos_of_ne_zero hzero, hb.le⟩
  simp only [hnegative, beq_zero_iff, isInf_iff a]
  by_cases hbase : rank a = 0
  · rw [power_of_isZero_base hb hzero hbase, if_pos hbase]
    cases isNegative b <;> simp [signed_infinity, signed_zero]
  rw [if_neg hbase]
  by_cases hinf : rank a = infinityRank
  · rw [power_of_isInf_base hb hzero hinf, if_pos hinf]
    cases isNegative b <;> simp [signed_infinity, signed_zero]
  rw [if_neg hinf]
  have hfinite : rank a < infinityRank := Nat.lt_of_le_of_ne ha hinf
  rw [power_of_finite hb hzero hfinite hbase, signed_infinity]
  intro hneg
  have hbelow : a < 0 := (lt_zero_iff a).mpr ⟨hneg, Nat.pos_of_ne_zero hbase, ha⟩
  exact (Bool.and_eq_true_iff.mp (hwhole hfinite hbelow)).2

/-- The power of every two doubles is that of the table, in which the odd integers and the integers are what
they are called, of either sign and of any size. -/
theorem power_eq_table (a b : Float) :
    power a b = .ok (powerTable a b) ∧
      (isOddInteger b = true ↔ ∃ n : ℤ, number? b = some ((2 * n + 1 : ℤ) : ℚ)) ∧
      (isInteger b = true ↔ ∃ n : ℤ, number? b = some (n : ℚ)) := by
  refine ⟨?_, isOddInteger_iff b, isInteger_iff b⟩
  unfold powerTable
  simp only
  split
  · next hb => exact power_of_isZero a ((beq_zero_iff b).mp hb)
  · next hb =>
    have hb : rank b ≠ 0 := fun h => hb ((beq_zero_iff b).mpr h)
    split
    · next hnan => exact power_eq_notANumber hb hnan
    · next hnumber =>
      rw [isNaN_iff, isNaN_iff, one_eq, abs_beq_one_iff, isInf_iff, isFinite_iff, isFinite_iff] at hnumber
      push Not at hnumber
      obtain ⟨hb', ha', hlimit, hreal⟩ := hnumber
      split
      · next hinf =>
        have hinf : rank b = infinityRank := (isInf_iff b).mp hinf
        exact power_eq_of_isInf ha' (fun h => hlimit h hinf) hinf
      · next hinf =>
        have hinf : rank b ≠ infinityRank := fun h => hinf ((isInf_iff b).mpr h)
        have hfinite : rank b < infinityRank := Nat.lt_of_le_of_ne hb' hinf
        exact power_eq_of_isFinite hfinite hb ha' fun ha hbelow => hreal ha hbelow hfinite

/-- The negative zero to an odd negative power is below all numbers. -/
example : powerTable (-0.0) (-3) = -infinity := by decide +kernel

end Calculator.Double
