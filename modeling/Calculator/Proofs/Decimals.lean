import Calculator.Double.Layout
import Calculator.Double.Order
import Calculator.Double.Rounding

/-!
# Decimals and their digits

A decimal is a number. How many zeros are at the end of its digits changes nothing about that, nor does it
where the point stands among the digits and the zeros around them. The exponent of the first digit says
between which powers of ten the number is. To the shortest decimal of a double that double is the nearest one.

**Results.**
* `nearest_shortest`: the double nearest to the shortest decimal of a double is that double.
* `digits_eq_of_value_eq`: decimals that are one number have the same digits, but for zeros at their ends.
* `value_bounds`: the exponent of its first digit tells between which powers of ten a decimal is.
* `leading_shortest_iff`: which doubles a layout writes positionally.
* `exists_positional_eq`: a positional text shows its digits, in front of its point and behind it.
-/
namespace Calculator.Double

/-! ## Decimals as numbers -/

/-- The number that a decimal is. -/
def Decimal.value (d : Decimal) : ℚ := d.digits * 10 ^ d.exponent

/-- The exponent of the first digit of a decimal. -/
def Decimal.leading (d : Decimal) : Int := (Nat.toDigits 10 d.digits).length - 1 + d.exponent

/-- The number that digits are if the first of them has the exponent. -/
def placed (digits : List Char) (exponent : Int) : ℚ :=
  Nat.ofDigitChars 10 digits 0 * 10 ^ (exponent + 1 - digits.length)

/-- The rank of the double nearest to a number that is not negative. -/
def nearest (q : ℚ) : Nat := nearestRank q.num.natAbs q.den

theorem nearest_div (a : Nat) {b : Nat} (hb : 0 < b) : nearest (a / b) = nearestRank a b := by
  have hpos : (b : ℚ) ≠ 0 := Nat.cast_ne_zero.mpr hb.ne'
  have hden : (((a : ℚ) / b).den : ℚ) ≠ 0 := Nat.cast_ne_zero.mpr ((a : ℚ) / b).den_pos.ne'
  have hcross : (((a : ℚ) / b).num : ℚ) * b = a * ((a : ℚ) / b).den := by
    rw [← div_eq_div_iff hden hpos, Rat.num_div_den]
  have hnum : ((((a : ℚ) / b).num.natAbs : Nat) : ℤ) = ((a : ℚ) / b).num :=
    Int.natAbs_of_nonneg (Rat.num_nonneg.mpr (by positivity))
  refine nearestRank_eq_of_mul_eq ((a : ℚ) / b).den_pos hb ?_
  rw [← Int.natCast_inj, Nat.cast_mul, Nat.cast_mul, hnum]
  exact_mod_cast hcross

/-- A greater number has no smaller nearest double. -/
theorem nearest_mono {q q' : ℚ} (hq : 0 ≤ q) (h : q ≤ q') : nearest q ≤ nearest q' := by
  have hnum : q.num.natAbs * q'.den ≤ q'.num.natAbs * q.den := by
    have hcross := (Rat.le_iff q q').mp h
    have hpos := Rat.num_nonneg.mpr hq
    have hpos' := Rat.num_nonneg.mpr (hq.trans h)
    rw [← Int.ofNat_le, Nat.cast_mul, Nat.cast_mul, Int.natAbs_of_nonneg hpos, Int.natAbs_of_nonneg hpos']
    exact hcross
  have hden : 0 < q.den * q'.den := Nat.mul_pos q.den_pos q'.den_pos
  have hleft : nearest q = nearestRank (q.num.natAbs * q'.den) (q.den * q'.den) :=
    nearestRank_eq_of_mul_eq q.den_pos hden (by ring)
  have hright : nearest q' = nearestRank (q'.num.natAbs * q.den) (q.den * q'.den) :=
    nearestRank_eq_of_mul_eq q'.den_pos hden (by ring)
  rw [hleft, hright]
  exact nearestRank_mono hnum _

theorem ten_zpow_ne_zero (n : Int) : (10 : ℚ) ^ n ≠ 0 := zpow_ne_zero n (by norm_num)

/-- A number of steps is a number of 10^-1074. -/
theorem value_steps (c n : Nat) :
    (Decimal.mk c (n - places)).value = ((c * 10 ^ n : Nat) : ℚ) / (10 ^ places : Nat) := by
  rw [Decimal.value, zpow_sub₀ (by norm_num), zpow_natCast, zpow_natCast]
  push_cast
  ring

theorem nearest_steps (c n : Nat) :
    nearest (Decimal.mk c (n - places)).value = nearestRank (c * 10 ^ n) (10 ^ places) := by
  rw [value_steps, nearest_div _ (Nat.pow_pos (by decide))]

/-- The double nearest to the shortest decimal of a double is that double. -/
theorem nearest_shortest {k : Nat} (hk : k ≤ infinityRank) : nearest (shortest k).value = k := by
  obtain ⟨c, n, hs, hread⟩ := exists_shortest_eq hk
  rw [hs, nearest_steps, hread]

theorem digits_shortest_pos {k : Nat} (hpos : 0 < k) (hk : k ≤ infinityRank) : 0 < (shortest k).digits := by
  obtain ⟨c, n, hs, hread⟩ := exists_shortest_eq hk
  rw [hs]
  refine Nat.pos_of_ne_zero fun hzero => ?_
  simp only at hzero
  rw [hzero, Nat.zero_mul, nearestRank_zero] at hread
  omega

/-! ## Digits -/

/-- Digits are followed by the zeros that were cut off. -/
theorem exists_trimmed_append (digits : List Char) : ∃ n, digits = trimmed digits ++ zeros n := by
  have hzero : ∀ c ∈ digits.reverse.takeWhile (· == '0'), c = '0' := fun c hc =>
    beq_iff_eq.mp (List.all_eq_true.mp List.all_takeWhile c hc)
  have hsplit := congrArg List.reverse
    (List.takeWhile_append_dropWhile (p := fun c => c == '0') (l := digits.reverse))
  rw [List.reverse_append, List.reverse_reverse, List.eq_replicate_of_mem hzero,
    List.reverse_replicate] at hsplit
  exact ⟨_, hsplit.symm⟩

theorem toDigits_mul_pow {c : Nat} (hc : 0 < c) (n : Nat) :
    Nat.toDigits 10 (c * 10 ^ n) = Nat.toDigits 10 c ++ zeros n := by
  induction n with
  | zero => simp [zeros]
  | succ n ih =>
    have hlast := Nat.toDigits_append_toDigits (b := 10) (n := c * 10 ^ n) (d := 0) (by decide)
      (by positivity) (by decide)
    have hnumber : 10 * (c * 10 ^ n) + 0 = c * 10 ^ (n + 1) := by ring
    rw [hnumber, ih, Nat.toDigits_zero] at hlast
    rw [← hlast, List.append_assoc]
    simp [zeros, List.replicate_succ']

theorem trimmed_append_zeros (digits : List Char) (n : Nat) : trimmed (digits ++ zeros n) = trimmed digits := by
  unfold trimmed
  rw [List.reverse_append, List.dropWhile_append_of_pos]
  intro c hc
  simp [zeros] at hc
  simp [hc.2]

theorem ne_of_isDigit {c d : Char} (hc : c.isDigit = true) (hd : d.isDigit = false) : c ≠ d := by
  intro heq
  simp [heq, hd] at hc

theorem isDigit_of_mem_trimmed {c : Nat} : ∀ d ∈ trimmed (Nat.toDigits 10 c), d.isDigit = true := by
  intro d hd
  obtain ⟨n, hn⟩ := exists_trimmed_append (Nat.toDigits 10 c)
  have hmem : d ∈ Nat.toDigits 10 c := hn ▸ List.mem_append_left _ hd
  exact Nat.isDigit_of_mem_toDigits (by decide) (by decide) hmem

theorem trimmed_ne_nil {c : Nat} (hc : 0 < c) : trimmed (Nat.toDigits 10 c) ≠ [] := by
  intro hnil
  obtain ⟨n, hn⟩ := exists_trimmed_append (Nat.toDigits 10 c)
  have hvalue := Nat.ofDigitChars_ten_toDigits (n := c)
  rw [hn, hnil, List.nil_append, zeros, Nat.ofDigitChars_replicate_zero] at hvalue
  omega

/-- The digits of a decimal without the zeros at their end are the same number. -/
theorem placed_trimmed (d : Decimal) : placed (trimmed (Nat.toDigits 10 d.digits)) d.leading = d.value := by
  obtain ⟨n, hn⟩ := exists_trimmed_append (Nat.toDigits 10 d.digits)
  have hlength := congrArg List.length hn
  have hvalue := Nat.ofDigitChars_toDigits (b := 10) (n := d.digits) (by decide) (by decide)
  rw [hn, Nat.ofDigitChars_append, zeros, Nat.ofDigitChars_replicate_zero] at hvalue
  rw [List.length_append, zeros, List.length_replicate] at hlength
  have hexponent : d.leading + 1 - (trimmed (Nat.toDigits 10 d.digits)).length = n + d.exponent := by
    unfold Decimal.leading
    omega
  unfold placed Decimal.value
  rw [hexponent, zpow_add₀ (by norm_num), zpow_natCast, ← mul_assoc]
  congr 1
  rw [mul_comm]
  exact_mod_cast hvalue

/-- Decimals that are one number have the same digits, but for zeros at their ends, the first of them with one
exponent. -/
theorem digits_eq_of_value_eq {d d' : Decimal} (hd : 0 < d.digits) (h : d.value = d'.value) :
    trimmed (Nat.toDigits 10 d.digits) = trimmed (Nat.toDigits 10 d'.digits) ∧ d.leading = d'.leading := by
  have hpos : 0 < d'.digits := by
    refine Nat.pos_of_ne_zero fun hzero => ?_
    unfold Decimal.value at h
    rw [hzero, Nat.cast_zero, zero_mul] at h
    simp [hd.ne', ten_zpow_ne_zero] at h
  wlog hle : d.exponent ≤ d'.exponent generalizing d d'
  · obtain ⟨hdigits, hleading⟩ := this hpos h.symm hd (Int.le_of_not_le hle)
    exact ⟨hdigits.symm, hleading.symm⟩
  obtain ⟨n, hn⟩ := Int.le.dest hle
  have hdigits : d.digits = d'.digits * 10 ^ n := by
    unfold Decimal.value at h
    rw [← hn, zpow_add₀ (by norm_num), zpow_natCast, mul_comm ((10 : ℚ) ^ d.exponent), ← mul_assoc] at h
    exact_mod_cast mul_right_cancel₀ (ten_zpow_ne_zero d.exponent) h
  have htext := toDigits_mul_pow hpos n
  unfold Decimal.leading
  rw [hdigits, htext]
  refine ⟨trimmed_append_zeros _ n, ?_⟩
  simp [zeros]
  omega

/-! ## The exponent of the first digit -/

theorem length_toDigits_add_le_iff {c : Nat} (hc : 0 < c) (n limit : Nat) :
    (Nat.toDigits 10 c).length + n ≤ limit ↔ c * 10 ^ n < 10 ^ limit := by
  rcases Nat.lt_or_ge n limit with hn | hn
  · obtain ⟨k, rfl⟩ := Nat.exists_eq_add_of_lt hn
    have hsplit : n + k + 1 = k + 1 + n := by omega
    rw [hsplit, Nat.add_le_add_iff_right, Nat.length_toDigits_le_iff (by decide) k.succ_pos,
      Nat.pow_add 10 (k + 1) n, Nat.mul_lt_mul_right (Nat.pow_pos (by decide))]
  · have hlength := Nat.length_toDigits_pos (b := 10) (n := c)
    have hpow : 10 ^ limit ≤ c * 10 ^ n :=
      (Nat.pow_le_pow_right (by decide) hn).trans (Nat.le_mul_of_pos_left _ hc)
    omega

/-- The exponent of its first digit tells between which powers of ten a decimal is. -/
theorem value_bounds {d : Decimal} (hd : 0 < d.digits) :
    10 ^ d.leading ≤ d.value ∧ d.value < 10 ^ (d.leading + 1) := by
  have hlength := Nat.length_toDigits_pos (b := 10) (n := d.digits)
  obtain ⟨n, hn⟩ : ∃ n, (Nat.toDigits 10 d.digits).length = n + 1 := ⟨_, (Nat.succ_pred hlength.ne').symm⟩
  have hupper := (Nat.length_toDigits_le_iff (b := 10) (n := d.digits) (by decide) n.succ_pos).mp hn.le
  have hlower : 10 ^ n ≤ d.digits := by
    have hnot := length_toDigits_add_le_iff hd 0 n
    rw [Nat.pow_zero, Nat.mul_one, hn] at hnot
    exact Nat.not_lt.mp (mt hnot.mpr (by omega))
  have hleading : d.leading = n + d.exponent := by
    unfold Decimal.leading
    rw [hn]
    push_cast
    ring
  have hscale : (0 : ℚ) < 10 ^ d.exponent := by positivity
  have hnext : (n : Int) + d.exponent + 1 = (n + 1 : Nat) + d.exponent := by
    push_cast
    ring
  unfold Decimal.value
  rw [hleading, hnext, zpow_add₀ (by norm_num), zpow_add₀ (by norm_num), zpow_natCast, zpow_natCast]
  constructor
  · gcongr
    exact_mod_cast hlower
  · gcongr
    exact_mod_cast hupper

/-- The first digit of a double is at least that of a power of ten if the double is at least the one that
the power of ten is the shortest decimal of. -/
theorem le_leading_shortest_iff {j k : Nat} {x : Int} (hj : j ≤ infinityRank) (hten : shortest j = ⟨1, x⟩)
    (hpos : 0 < k) (hk : k ≤ infinityRank) : x ≤ (shortest k).leading ↔ j ≤ k := by
  obtain ⟨c₁, n₁, hs₁, hread₁⟩ := exists_shortest_eq hj
  obtain ⟨c, n, hs, hread⟩ := exists_shortest_eq hk
  have hc : 0 < c := by simpa [hs] using digits_shortest_pos hpos hk
  rw [hten] at hs₁
  obtain ⟨rfl, rfl⟩ := (Decimal.mk.injEq ..).mp hs₁
  rw [Nat.one_mul] at hread₁
  have hleading : (n₁ : Int) - places ≤ (shortest k).leading ↔ 10 ^ n₁ ≤ c * 10 ^ n := by
    have hlength := length_toDigits_add_le_iff hc n n₁
    rw [hs, Decimal.leading, ← Nat.not_lt, ← hlength]
    simp only
    omega
  rw [hleading]
  constructor
  · intro h
    rw [← hread, ← hread₁]
    exact nearestRank_mono h _
  · intro h
    by_contra hlt
    have hle := nearestRank_mono (Nat.le_of_not_le hlt) (10 ^ places)
    rw [hread, hread₁] at hle
    -- the double of the power of ten has that as its decimal, and no smaller one
    obtain rfl : j = k := Nat.le_antisymm h hle
    rw [hten] at hs
    obtain ⟨rfl, hexponent⟩ := (Decimal.mk.injEq ..).mp hs
    have hn : n₁ = n := by omega
    subst hn
    exact hlt (Nat.one_mul _).ge

/-- A layout writes the doubles positionally that are at least one power of ten and below another. -/
theorem leading_shortest_iff {layout : Layout} {least limit k : Nat} (hleast : least ≤ infinityRank)
    (hlimit : limit ≤ infinityRank) (htenLeast : shortest least = ⟨1, layout.least⟩)
    (htenLimit : shortest limit = ⟨1, layout.greatest + 1⟩) (hpos : 0 < k) (hk : k ≤ infinityRank) :
    layout.least ≤ (shortest k).leading ∧ (shortest k).leading ≤ layout.greatest ↔ least ≤ k ∧ k < limit := by
  have hlower := le_leading_shortest_iff hleast htenLeast hpos hk
  have hupper := le_leading_shortest_iff hlimit htenLimit hpos hk
  omega

/-! ## Positional texts -/

theorem isDigit_of_mem_zeros (n : Nat) : ∀ c ∈ zeros n, c.isDigit = true := by
  intro c hc
  rw [List.eq_of_mem_replicate hc]
  decide

/-- The parts of a numeral in front of its point and behind it show the digits, the first of them with the
exponent: read without the point, and divided by ten for every place behind it, they are the digits scaled
so. -/
structure Shows (whole fraction digits : List Char) (exponent : Int) : Prop where
  whole_ne_nil : whole ≠ []
  isDigit_whole : ∀ c ∈ whole, c.isDigit = true
  isDigit_fraction : ∀ c ∈ fraction, c.isDigit = true
  scaled : ∀ p q : Nat, (q : Int) + digits.length = p + exponent + 1 →
    Nat.ofDigitChars 10 (whole ++ fraction) 0 * 10 ^ p =
      Nat.ofDigitChars 10 digits 0 * 10 ^ q * 10 ^ fraction.length

/-- Read with its point, a text that shows the digits is the number that they are. -/
theorem Shows.div_eq {whole fraction digits : List Char} {exponent : Int}
    (h : Shows whole fraction digits exponent) :
    (Nat.ofDigitChars 10 (whole ++ fraction) 0 : ℚ) / 10 ^ fraction.length = placed digits exponent := by
  -- the scales on both sides are made whole, so that the equation of the parts applies
  have hscaled := h.scaled (digits.length + exponent.natAbs) (exponent.natAbs + exponent + 1).toNat (by omega)
  have hdifference : exponent + 1 - digits.length =
      (exponent.natAbs + exponent + 1).toNat - (digits.length + exponent.natAbs : Nat) := by omega
  unfold placed
  rw [hdifference, zpow_sub₀ (by norm_num), zpow_natCast, zpow_natCast, ← mul_div_assoc,
    div_eq_div_iff (by positivity) (by positivity)]
  exact_mod_cast hscaled

section Positional

variable {digits : List Char} (hd : ∀ c ∈ digits, c.isDigit = true)
include hd

/-- Below one, zeros stand between the point and the digits. -/
theorem shows_below {n : Nat} {exponent : Int} (hn : exponent = -(n + 1)) :
    Shows ['0'] (zeros n ++ digits) digits exponent where
  whole_ne_nil := List.cons_ne_nil _ _
  isDigit_whole := isDigit_of_mem_zeros 1
  isDigit_fraction := List.forall_mem_append.mpr ⟨isDigit_of_mem_zeros n, hd⟩
  scaled p q hpq := by
    have hp : p = q + (n + digits.length) := by omega
    have hvalue : Nat.ofDigitChars 10 (['0'] ++ (zeros n ++ digits)) 0 = Nat.ofDigitChars 10 digits 0 := by
      simp [zeros, Nat.ofDigitChars_cons, Nat.ofDigitChars_append, Nat.ofDigitChars_replicate_zero]
    rw [hvalue, hp, Nat.pow_add, Nat.mul_assoc]
    simp [zeros]

/-- If there are too few digits, zeros stand between them and the point, and one behind it. -/
theorem shows_padded {n : Nat} (hlength : digits.length ≤ n + 1) :
    Shows (digits ++ zeros (n + 1 - digits.length)) ['0'] digits n where
  whole_ne_nil := by
    refine List.ne_nil_of_length_pos ?_
    rw [List.length_append, zeros, List.length_replicate]
    omega
  isDigit_whole := List.forall_mem_append.mpr ⟨hd, isDigit_of_mem_zeros _⟩
  isDigit_fraction := isDigit_of_mem_zeros 1
  scaled p q hpq := by
    have hq : q = p + (n + 1 - digits.length) := by omega
    rw [hq]
    simp [zeros, Nat.ofDigitChars_append, Nat.ofDigitChars_replicate_zero, Nat.ofDigitChars_cons]
    ring

/-- Otherwise the point stands among the digits. -/
theorem shows_split {n : Nat} (hlength : n + 1 < digits.length) :
    Shows (digits.take (n + 1)) (digits.drop (n + 1)) digits n where
  whole_ne_nil := by
    refine List.ne_nil_of_length_pos ?_
    rw [List.length_take]
    omega
  isDigit_whole c hc := hd c (List.mem_of_mem_take hc)
  isDigit_fraction c hc := hd c (List.mem_of_mem_drop hc)
  scaled p q hpq := by
    have hp : p = q + (digits.length - (n + 1)) := by omega
    rw [List.take_append_drop, List.length_drop, hp, Nat.pow_add, Nat.mul_assoc]

/-- A positional text is a numeral that shows the digits. -/
theorem exists_positional_eq (exponent : Int) :
    ∃ whole fraction, positional digits exponent = whole ++ '.' :: fraction ∧
      Shows whole fraction digits exponent ∧ (digits ≠ [] → fraction ≠ []) := by
  unfold positional
  split
  · next hneg => exact ⟨_, _, rfl, shows_below hd (by omega), List.append_ne_nil_of_right_ne_nil _⟩
  · next hpos =>
    obtain ⟨n, rfl⟩ := Int.eq_ofNat_of_zero_le (Int.not_lt.mp hpos)
    simp only [Int.toNat_natCast]
    by_cases hlength : digits.length ≤ n + 1
    · rw [List.take_of_length_le hlength, if_pos hlength]
      exact ⟨_, _, rfl, shows_padded hd hlength, by simp⟩
    · have hnone : zeros (n + 1 - digits.length) = [] := by
        rw [Nat.sub_eq_zero_of_le (Nat.le_of_not_le hlength)]
        rfl
      rw [if_neg hlength, hnone, List.append_nil]
      exact ⟨_, _, rfl, shows_split hd (Nat.lt_of_not_le hlength), by simp [Nat.lt_of_not_le hlength]⟩

end Positional

theorem decimal_eq (layout : Layout) (d : Decimal) :
    layout.decimal d =
      if layout.least ≤ d.leading ∧ d.leading ≤ layout.greatest then
        positional (trimmed (Nat.toDigits 10 d.digits)) d.leading
      else layout.scientific (trimmed (Nat.toDigits 10 d.digits)) d.leading := rfl

end Calculator.Double
