import Calculator.Double.Decimal
import Mathlib.Data.Nat.Log
import Mathlib.Tactic.Ring

/-!
# Laws of the nearest double

Which double is nearest is a matter of the fraction, however it is written; a greater fraction has no
smaller nearest double; and the double nearest to a double is that double. So a text that stands for the
exact value of a double is read as that double, and so is its shortest decimal.

**Results.**
* `nearestRank_eq_of_mul_eq`: equal fractions have one nearest double.
* `nearestRank_mono`: a greater fraction has no smaller nearest double.
* `nearestRank_exactDigits`: the double nearest to a double is that double.
* `exists_shortest_eq`: the shortest decimal of a double reads back.
-/
namespace Calculator.Double

/-! ## Rounded quotients -/

theorem divRound_mul_mul (a b : Nat) {s : Nat} (hs : 0 < s) :
    divRound (a * s) (b * s) = divRound a b := by
  have hless : 2 * (a % b * s) < b * s ↔ 2 * (a % b) < b := by
    rw [← Nat.mul_assoc]
    exact Nat.mul_lt_mul_right hs
  have hmore : b * s < 2 * (a % b * s) ↔ b < 2 * (a % b) := by
    rw [← Nat.mul_assoc]
    exact Nat.mul_lt_mul_right hs
  unfold divRound
  simp only [Nat.mul_div_mul_right a b hs, Nat.mul_mod_mul_right, hless, hmore]

theorem div_le_divRound (a b : Nat) : a / b ≤ divRound a b := by
  unfold divRound
  simp only
  split
  · rfl
  · split <;> omega

theorem divRound_le_div (a b : Nat) : divRound a b ≤ a / b + 1 := by
  have hmod := Nat.mod_lt (a / b) Nat.two_pos
  unfold divRound
  simp only
  split
  · omega
  · split <;> omega

/-- A greater number has no smaller rounded quotient. -/
theorem divRound_mono {a a' : Nat} (h : a ≤ a') (b : Nat) : divRound a b ≤ divRound a' b := by
  rcases (Nat.div_le_div_right (c := b) h).lt_or_eq with hlt | heq
  · exact (divRound_le_div a b).trans ((Nat.succ_le_of_lt hlt).trans (div_le_divRound a' b))
  · have hr : a % b ≤ a' % b := by
      have ha := Nat.div_add_mod a b
      have ha' := Nat.div_add_mod a' b
      rw [heq] at ha
      omega
    have hmod := Nat.mod_lt (a' / b) Nat.two_pos
    unfold divRound
    simp only [heq]
    split_ifs <;> omega

/-! ## The nearest double -/

/-- The power of two at which a quotient is rounded, so that 53 bits of it are left. -/
def cut (size den : Nat) : Nat := (size / den).log2 - 52

/-- The rank of a quotient of units, as if there were no infinity. -/
def roundedRank (size den : Nat) : Nat := cut size den * binade + divRound size (den <<< cut size den)

theorem nearestRank_eq (num den : Nat) :
    nearestRank num den = min (roundedRank (num * unitsInOne) den) infinityRank := rfl

theorem roundedRank_mul_mul (size den : Nat) {s : Nat} (hs : 0 < s) :
    roundedRank (size * s) (den * s) = roundedRank size den := by
  have hcut : cut (size * s) (den * s) = cut size den := by
    unfold cut
    rw [Nat.mul_div_mul_right _ _ hs]
  have hden : (den * s) <<< cut size den = (den <<< cut size den) * s := by
    rw [Nat.shiftLeft_eq, Nat.shiftLeft_eq, Nat.mul_right_comm]
  unfold roundedRank
  rw [hcut, hden, divRound_mul_mul _ _ hs]

/-- Equal fractions have one nearest double. -/
theorem nearestRank_eq_of_mul_eq {a b c d : Nat} (hb : 0 < b) (hd : 0 < d) (h : a * d = c * b) :
    nearestRank a b = nearestRank c d := by
  have hsize : a * unitsInOne * d = c * unitsInOne * b := by
    rw [Nat.mul_right_comm, h, Nat.mul_right_comm]
  rw [nearestRank_eq, nearestRank_eq, ← roundedRank_mul_mul _ b hd, ← roundedRank_mul_mul _ d hb,
    hsize, Nat.mul_comm b d]

/-- The quotient in front of the cut. -/
theorem div_cut (size den : Nat) :
    size / (den <<< cut size den) = size / den / 2 ^ cut size den := by
  rw [Nat.shiftLeft_eq, Nat.div_div_eq_div_mul]

/-- No more than 53 bits are in front of the cut. -/
theorem divRound_cut_le (size den : Nat) : divRound size (den <<< cut size den) ≤ 2 * binade := by
  have hlog : (size / den).log2 + 1 ≤ 53 + cut size den := by unfold cut; omega
  have hq : size / den < 2 ^ 53 * 2 ^ cut size den := by
    rw [← Nat.pow_add]
    exact Nat.lt_of_lt_of_le Nat.lt_log2_self (Nat.pow_le_pow_right Nat.two_pos hlog)
  have hlt : size / (den <<< cut size den) < 2 * binade := by
    rw [div_cut]
    exact (Nat.div_lt_iff_lt_mul (Nat.two_pow_pos _)).mpr hq
  exact (divRound_le_div _ _).trans hlt

/-- No fewer than 53 bits are in front of it if there is anything behind it. -/
theorem le_divRound_cut {size den : Nat} (hcut : 0 < cut size den) :
    binade ≤ divRound size (den <<< cut size den) := by
  have hlog : 52 + cut size den = (size / den).log2 := by unfold cut at *; omega
  have hne : size / den ≠ 0 := by
    intro hzero
    rw [hzero, Nat.log2_zero] at hlog
    omega
  have hq : 2 ^ 52 * 2 ^ cut size den ≤ size / den := by
    rw [← Nat.pow_add, hlog]
    exact Nat.log2_self_le hne
  have hle : binade ≤ size / (den <<< cut size den) := by
    rw [div_cut]
    exact (Nat.le_div_iff_mul_le (Nat.two_pow_pos _)).mpr hq
  exact hle.trans (div_le_divRound _ _)

theorem roundedRank_mono {size size' : Nat} (h : size ≤ size') (den : Nat) :
    roundedRank size den ≤ roundedRank size' den := by
  have hle : cut size den ≤ cut size' den := by
    have hlog : (size / den).log2 ≤ (size' / den).log2 := by
      rw [Nat.log2_eq_log_two, Nat.log2_eq_log_two]
      exact Nat.log_mono_right (Nat.div_le_div_right h)
    exact Nat.sub_le_sub_right hlog 52
  rcases hle.eq_or_lt with heq | hlt
  · unfold roundedRank
    rw [heq]
    exact Nat.add_le_add_left (divRound_mono h _) _
  · -- the smaller one is no further than where the next binade begins, and the greater one has begun it
    have hupper := divRound_cut_le size den
    have hlower := le_divRound_cut (Nat.zero_lt_of_lt hlt)
    have hstep : (cut size den + 1) * binade ≤ cut size' den * binade := Nat.mul_le_mul_right _ hlt
    unfold roundedRank
    rw [Nat.add_one_mul] at hstep
    omega

/-- A greater fraction has no smaller nearest double. -/
theorem nearestRank_mono {num num' : Nat} (h : num ≤ num') (den : Nat) :
    nearestRank num den ≤ nearestRank num' den := by
  rw [nearestRank_eq, nearestRank_eq]
  exact min_le_min_right _ (roundedRank_mono (Nat.mul_le_mul_right _ h) den)

theorem nearestRank_zero (den : Nat) : nearestRank 0 den = 0 := by
  simp [nearestRank, divRound, Nat.log2_zero]

/-! ## Reading back -/

/-- Every rank from the second binade on is a significand of 53 bits above a number of binades. -/
theorem exists_significand {k : Nat} (hk : 2 * binade ≤ k) :
    ∃ e m, k = e * binade + m ∧ binade ≤ m ∧ m < 2 * binade := by
  unfold binade at *
  exact ⟨k / 0x10000000000000 - 1, k - (k / 0x10000000000000 - 1) * 0x10000000000000, by omega, by omega,
    by omega⟩

theorem log2_significand {m : Nat} (lo : binade ≤ m) (hi : m < 2 * binade) (e : Nat) :
    (m <<< e).log2 = 52 + e := by
  have hne : m <<< e ≠ 0 := by
    rw [Nat.shiftLeft_eq]
    exact Nat.mul_ne_zero (Nat.ne_of_gt (Nat.lt_of_lt_of_le (by decide) lo)) (Nat.two_pow_pos e).ne'
  rw [Nat.log2_eq_iff hne, Nat.shiftLeft_eq]
  constructor
  · rw [Nat.pow_add]
    exact Nat.mul_le_mul_right _ lo
  · rw [Nat.add_right_comm, Nat.pow_add]
    exact Nat.mul_lt_mul_of_pos_right hi (Nat.two_pow_pos e)

/-- The size of a double, in whole units, is the size of that double alone. -/
theorem roundedRank_units (k : Nat) : roundedRank (units k) 1 = k := by
  unfold roundedRank cut
  rw [Nat.div_one]
  by_cases hk : k < 2 * binade
  · rw [units_of_lt hk]
    have hcut : k.log2 - 52 = 0 := by
      have hlt : k.log2 < 53 := by
        by_cases hzero : k = 0
        · rw [hzero, Nat.log2_zero]
          decide
        · exact (Nat.log2_lt hzero).mpr hk
      omega
    rw [hcut, Nat.zero_mul, Nat.zero_add]
    exact (congrArg (divRound · 1) (Nat.mul_one k).symm).trans (divRound_mul k Nat.one_pos)
  · obtain ⟨e, m, rfl, lo, hi⟩ := exists_significand (Nat.le_of_not_lt hk)
    rw [units_add lo hi, log2_significand lo hi, Nat.add_sub_cancel_left, Nat.shiftLeft_eq,
      Nat.shiftLeft_eq, Nat.one_mul, divRound_mul m (Nat.two_pow_pos e)]

theorem pow_ten_eq (n : Nat) : 10 ^ n = Nat.pow 5 n * (1 <<< n) := by
  rw [Nat.one_shiftLeft]
  exact Nat.mul_pow 5 2 n

/-- The exact decimal of a double and its units are one number. -/
theorem exactDigits_mul_unitsInOne (k : Nat) : exactDigits k * unitsInOne = units k * 10 ^ places := by
  have hunits : unitsInOne = 1 <<< places := rfl
  rw [exactDigits, hunits, pow_ten_eq, Nat.mul_assoc]

/-- The double nearest to a double is that double. -/
theorem nearestRank_exactDigits {k : Nat} (hk : k ≤ infinityRank) :
    nearestRank (exactDigits k) (10 ^ places) = k := by
  have hrank := roundedRank_mul_mul (units k) 1 (Nat.pow_pos (n := places) (show 0 < 10 by decide))
  rw [Nat.one_mul, roundedRank_units] at hrank
  rw [nearestRank_eq, exactDigits_mul_unitsInOne, hrank]
  exact Nat.min_eq_left hk

theorem readsBack_iff {k digits : Nat} :
    readsBack k digits = true ↔ nearestRank digits (10 ^ places) = k := by
  unfold readsBack
  simp only [Nat.pow_eq, beq_iff_eq]

/-- The shortest decimal of a double is a number of steps of the exact one, and it reads back. -/
theorem exists_shortest_eq {k : Nat} (hk : k ≤ infinityRank) :
    ∃ c dropped : Nat, shortest k = ⟨c, (dropped : Int) - places⟩ ∧
      nearestRank (c * 10 ^ dropped) (10 ^ places) = k := by
  unfold shortest
  simp only
  cases hfound : List.findSome? _ _ with
  | none =>
    have hone : exactDigits k * 10 ^ 0 = exactDigits k := Nat.mul_one _
    refine ⟨exactDigits k, 0, by simp, ?_⟩
    rw [hone, nearestRank_exactDigits hk]
  | some d =>
    obtain ⟨n, -, hn⟩ := List.exists_of_findSome?_eq_some hfound
    obtain ⟨c, hc, rfl⟩ := Option.map_eq_some_iff.mp hn
    exact ⟨c, _, rfl, readsBack_iff.mp (readsBack_of_onGrid? hc)⟩

end Calculator.Double
