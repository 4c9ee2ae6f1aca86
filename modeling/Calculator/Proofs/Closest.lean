import Calculator.Double.Exact
import Calculator.Proofs.Decimals

/-!
# The decimals closest to a double

A double is a whole number of 10^-1074. The decimals of so many digits are the points of a coarser grid; those
below the decade of the double are on a finer one, but further away than where that decade begins. What is
between two numbers that are read back is read back as well, so that of the points that are read back the closest
is one of the two neighbours of the double, if there is one at all.

**Results.**
* `exists_onGrid?_eq`: what a grid offers is the closest of its points that are read back.
* `exists_gridPoint_of_isCandidate`: no decimal of so many digits is closer than the points of the grid.
* `isPreferred_of_offer?`: so what is offered is the closest of the decimals of so many digits.
* `exists_shortest_eq_gridPoint`: the shortest decimal is what is offered for the fewest digits.
-/
namespace Calculator.Double

/-! ## Grids -/

section Grid

variable {k a step c : Nat}

theorem two_mul_dist_divRound (a : Nat) {b : Nat} (hb : 0 < b) :
    2 * Nat.dist (divRound a b * b) a ≤ b := by
  have hupper := two_mul_divRound_le a hb
  have hlower := le_two_mul_divRound a hb
  unfold Nat.dist
  omega

/-- Halfway between two points the even one is taken. -/
theorem even_divRound (a : Nat) {b : Nat} (hb : 0 < b) (h : 2 * Nat.dist (divRound a b * b) a = b) :
    2 ∣ divRound a b := by
  have hr := Nat.mod_lt a hb
  have ha := Nat.div_add_mod a b
  rw [Nat.mul_comm] at ha
  have hsplit : (a / b + 1) * b = a / b * b + b := Nat.add_one_mul _ _
  unfold divRound Nat.dist at *
  simp only at *
  split at h
  · omega
  · next hless =>
    rw [if_neg hless]
    split at h
    · omega
    · next hmore =>
      rw [if_neg hmore]
      omega

/-- Two points are at least a step apart, wherever they are seen from. -/
theorem le_dist_add_dist {c c' : Nat} (h : c' ≠ c) (a step : Nat) :
    step ≤ Nat.dist (c' * step) a + Nat.dist (c * step) a := by
  have hstep : step ≤ Nat.dist (c' * step) (c * step) := by
    rw [Nat.dist_mul_right]
    exact Nat.le_mul_of_pos_left _ (Nat.dist_pos_of_ne h)
  unfold Nat.dist at *
  omega

theorem divRound_eq_of_dist {q b : Nat} (h : 2 * Nat.dist (q * b) a < b) : divRound a b = q := by
  have hhalf := two_mul_dist_divRound a (Nat.zero_lt_of_lt h)
  by_contra hne
  have hapart := le_dist_add_dist hne a b
  omega

/-- What is between two numbers that are read back is read back as well. -/
theorem readsBack_of_between {low high m : Nat} (hlow : readsBack k low = true) (hhigh : readsBack k high = true)
    (hle : low ≤ m) (hge : m ≤ high) : readsBack k m = true := by
  rw [readsBack_iff] at *
  have hlower := nearestRank_mono hle (10 ^ places)
  have hupper := nearestRank_mono hge (10 ^ places)
  omega

/-- A point at least as far off on the same side is no closer, and further away if it is another one. -/
theorem dist_le_of_beyond {far c' : Nat} (hstep : 0 < step)
    (h : a ≤ far * step ∧ far ≤ c' ∨ far * step ≤ a ∧ c' ≤ far) :
    Nat.dist (far * step) a ≤ Nat.dist (c' * step) a ∧
      (c' ≠ far → Nat.dist (far * step) a < Nat.dist (c' * step) a) := by
  have hle : ∀ {m n : Nat}, m ≤ n → m * step ≤ n * step := fun h => Nat.mul_le_mul_right _ h
  have hlt : ∀ {m n : Nat}, m < n → m * step < n * step := fun h => Nat.mul_lt_mul_of_pos_right h hstep
  unfold Nat.dist
  rcases h with ⟨habove, hpoint⟩ | ⟨hbelow, hpoint⟩
  · have hfar := hle hpoint
    refine ⟨by omega, fun hne => ?_⟩
    have hfurther := hlt (Nat.lt_of_le_of_ne hpoint hne.symm)
    omega
  · have hfar := hle hpoint
    refine ⟨by omega, fun hne => ?_⟩
    have hfurther := hlt (Nat.lt_of_le_of_ne hpoint hne)
    omega

section Far

variable {near c' : Nat} (hread : readsBack k a = true) (hhalf : 2 * Nat.dist (near * step) a ≤ step)
  (hnear : readsBack k (near * step) ≠ true) (h : readsBack k (c' * step) = true)
include hread hhalf hnear h

/-- If the nearer neighbour is below and is not read back, nothing further below is, and the neighbour above is
read back if anything is. -/
theorem readsBack_above (hle : near * step ≤ a) :
    readsBack k ((near + 1) * step) = true ∧ a ≤ (near + 1) * step ∧ near + 1 ≤ c' := by
  have hside : near * step < c' * step := by
    by_contra hnot
    exact hnear (readsBack_of_between h hread (Nat.le_of_not_lt hnot) hle)
  have hpoint : near + 1 ≤ c' := Nat.lt_of_mul_lt_mul_right hside
  have hnext : (near + 1) * step = near * step + step := Nat.add_one_mul _ _
  have habove : a ≤ (near + 1) * step := by
    unfold Nat.dist at hhalf
    omega
  exact ⟨readsBack_of_between hread h habove (Nat.mul_le_mul_right _ hpoint), habove, hpoint⟩

/-- If it is above it is the neighbour below. -/
theorem readsBack_below (hlt : a < near * step) :
    readsBack k ((near - 1) * step) = true ∧ (near - 1) * step ≤ a ∧ c' ≤ near - 1 := by
  have hside : c' * step < near * step := by
    by_contra hnot
    exact hnear (readsBack_of_between hread h hlt.le (Nat.le_of_not_lt hnot))
  have hpoint : c' ≤ near - 1 := Nat.le_pred_of_lt (Nat.lt_of_mul_lt_mul_right hside)
  have hnext : near * step = (near - 1) * step + step := by
    rw [← Nat.add_one_mul, Nat.sub_add_cancel (Nat.pos_of_mul_pos_right (Nat.zero_lt_of_lt hside))]
  have hbelow : (near - 1) * step ≤ a := by
    unfold Nat.dist at hhalf
    omega
  exact ⟨readsBack_of_between h hread (Nat.mul_le_mul_right _ hpoint) hbelow, hbelow, hpoint⟩

end Far

/-- What a grid offers is the closest of its points that are read back, the even one of two that are as close. -/
theorem exists_onGrid?_eq {c' : Nat} (hstep : 0 < step) (hread : readsBack k a = true)
    (h : readsBack k (c' * step) = true) :
    ∃ c, onGrid? k a step = some c ∧ Nat.dist (c * step) a ≤ Nat.dist (c' * step) a ∧
      (c' ≠ c → Nat.dist (c' * step) a = Nat.dist (c * step) a →
        2 * Nat.dist (c * step) a = step ∧ 2 ∣ c) := by
  have hhalf := two_mul_dist_divRound a hstep
  have heven := even_divRound a hstep
  unfold onGrid?
  simp only
  generalize divRound a step = near at *
  by_cases hnear : readsBack k (near * step) = true
  · refine ⟨near, by simp [hnear], ?_, fun hne htie => ?_⟩
    · by_cases hne : c' = near
      · rw [hne]
      · have hapart := le_dist_add_dist hne a step
        omega
    · have hapart := le_dist_add_dist hne a step
      have hexact : 2 * Nat.dist (near * step) a = step := by omega
      exact ⟨hexact, heven hexact⟩
  · by_cases hle : near * step ≤ a
    · obtain ⟨hfar, habove, hpoint⟩ := readsBack_above hread hhalf hnear h hle
      obtain ⟨hcloser, hfurther⟩ := dist_le_of_beyond hstep (.inl ⟨habove, hpoint⟩)
      rw [if_pos hle]
      exact ⟨near + 1, by simp [hnear, hfar], hcloser, fun hne htie => absurd htie (hfurther hne).ne'⟩
    · obtain ⟨hfar, hbelow, hpoint⟩ := readsBack_below hread hhalf hnear h (Nat.lt_of_not_le hle)
      obtain ⟨hcloser, hfurther⟩ := dist_le_of_beyond hstep (.inr ⟨hbelow, hpoint⟩)
      rw [if_neg hle]
      exact ⟨near - 1, by simp [hnear, hfar], hcloser, fun hne htie => absurd htie (hfurther hne).ne'⟩

/-- What a grid offers is one of the two neighbours. -/
theorem div_of_onGrid? (hstep : 0 < step) (h : onGrid? k a step = some c) : c = a / step ∨ c = a / step + 1 := by
  have hlower := div_le_divRound a step
  have hupper := divRound_le_div a step
  have hdiv : divRound a step * step ≤ a ↔ divRound a step ≤ a / step := (Nat.le_div_iff_mul_le hstep).symm
  have hmem := List.mem_of_find?_eq_some h
  simp only [List.mem_cons, List.not_mem_nil, or_false] at hmem
  obtain hnear | hfar := hmem
  · omega
  · split at hfar <;> omega

end Grid

/-! ## Decimals of so many digits -/

/-- The number that the double of rank `k` is without its sign. -/
def exactValue (k : Nat) : ℚ := units k / unitsInOne

/-- How many digits a decimal has, zeros at their end included. -/
def Decimal.length (d : Decimal) : Nat := (Nat.toDigits 10 d.digits).length

/-- How far a decimal is from the double of rank `k`. -/
def Decimal.distance (k : Nat) (d : Decimal) : ℚ := |d.value - exactValue k|

/-- A decimal of `n` digits that is read back as the double of rank `k`. Zeros at its end count, so that one of
fewer digits is a candidate too. -/
structure IsCandidate (k n : Nat) (d : Decimal) : Prop where
  length : d.length = n
  nearest : nearest d.value = k

/-- Of the decimals of `n` digits that are read back the closest, and the even one of two that are as close. -/
structure IsPreferred (k n : Nat) (d : Decimal) : Prop extends IsCandidate k n d where
  distance_le : ∀ d', IsCandidate k n d' → d.distance k ≤ d'.distance k
  even_of_tie : ∀ d', IsCandidate k n d' → d'.value ≠ d.value → d'.distance k = d.distance k → 2 ∣ d.digits

/-- The number is the preferred one of the fewest digits, from `least` on, of which any decimal is read back. -/
def IsChosen (least k : Nat) (q : ℚ) : Prop :=
  ∃ n d, IsLeast {n | least ≤ n ∧ ∃ d, IsCandidate k n d} n ∧ IsPreferred k n d ∧ d.value = q

/-- How many digits the exact decimal of a double has. -/
def exactLength (k : Nat) : Nat := (Nat.toDigits 10 (exactDigits k)).length

/-- The number `c` in the place of the first `n` digits of the exact decimal. -/
def gridPoint (k n c : Nat) : Decimal := ⟨c, (exactLength k - n : Nat) - places⟩

/-- What is offered in the place of the first `n` digits. -/
def offer? (k n : Nat) : Option Nat := onGrid? k (exactDigits k) (Nat.pow 10 (exactLength k - n))

variable {k n c : Nat} {d : Decimal}

theorem exactValue_eq (k : Nat) : exactValue k = (exactDigits k : ℚ) / (10 ^ places : Nat) := by
  unfold exactValue
  rw [div_eq_div_iff (Nat.cast_ne_zero.mpr unitsInOne_pos.ne') (by positivity)]
  exact_mod_cast (exactDigits_mul_unitsInOne k).symm

theorem nearest_exactValue (hk : k ≤ infinityRank) : nearest (exactValue k) = k := by
  rw [exactValue_eq, nearest_div _ (Nat.pow_pos (by decide)), nearestRank_exactDigits hk]

theorem units_pos (hpos : 0 < k) : 0 < units k := by
  have hsignificand := significand_pos hpos
  rw [units_eq]
  positivity

theorem exactDigits_pos (hpos : 0 < k) : 0 < exactDigits k := by
  have hunits := units_pos hpos
  unfold exactDigits
  rw [Nat.pow_eq]
  positivity

/-- A decimal has `n` digits if it is between two powers of ten. -/
theorem length_eq_iff (hd : 0 < d.digits) (hn : 0 < n) :
    d.length = n ↔ 10 ^ (n - 1) ≤ d.digits ∧ d.digits < 10 ^ n := by
  have hupper := length_toDigits_add_le_iff hd 0 n
  have hlower := length_toDigits_add_le_iff hd 0 (n - 1)
  rw [Nat.pow_zero, Nat.mul_one, Nat.add_zero] at hupper hlower
  unfold Decimal.length
  rw [← hupper, ← Nat.not_lt, ← hlower]
  omega

theorem digits_pos_of_nearest (hpos : 0 < k) (h : nearest d.value = k) : 0 < d.digits := by
  refine Nat.pos_of_ne_zero fun hzero => ?_
  have hnone : d.value = 0 := by rw [Decimal.value, hzero, Nat.cast_zero, zero_mul]
  rw [hnone, nearest] at h
  simp [nearestRank_zero] at h
  omega

theorem distance_congr {d' : Decimal} (h : d.value = d'.value) : d.distance k = d'.distance k := by
  unfold Decimal.distance
  rw [h]

theorem exactDigits_bounds (hpos : 0 < k) :
    10 ^ (exactLength k - 1) ≤ exactDigits k ∧ exactDigits k < 10 ^ exactLength k :=
  (length_eq_iff (d := ⟨exactDigits k, 0⟩) (exactDigits_pos hpos) Nat.length_toDigits_pos).mp rfl

theorem readsBack_exactDigits (hk : k ≤ infinityRank) : readsBack k (exactDigits k) = true :=
  readsBack_iff.mpr (nearestRank_exactDigits hk)

theorem readsBack_iff_nearest (k n c : Nat) :
    readsBack k (c * 10 ^ (exactLength k - n)) = true ↔ nearest (gridPoint k n c).value = k := by
  rw [readsBack_iff, gridPoint, nearest_steps]

/-- Distances between points of a grid are whole numbers of 10^-1074. -/
theorem distance_gridPoint (k n c : Nat) :
    (gridPoint k n c).distance k =
      Nat.dist (c * 10 ^ (exactLength k - n)) (exactDigits k) / (10 ^ places : Nat) := by
  have hcast : ∀ a b : Nat, ((Nat.dist a b : Nat) : ℚ) = |(a : ℚ) - b| := by
    intro a b
    rcases Nat.le_total a b with h | h
    · rw [Nat.dist_eq_sub_of_le h, Nat.cast_sub h, abs_sub_comm, abs_of_nonneg]
      exact sub_nonneg.mpr (Nat.cast_le.mpr h)
    · rw [Nat.dist_eq_sub_of_le_right h, Nat.cast_sub h, abs_of_nonneg]
      exact sub_nonneg.mpr (Nat.cast_le.mpr h)
  have hscale : (0 : ℚ) < (10 ^ places : Nat) := by positivity
  unfold Decimal.distance gridPoint
  rw [value_steps, exactValue_eq, ← sub_div, abs_div, hcast, abs_of_pos hscale]

/-- The decade of a double begins with a point of the grid. -/
theorem value_gridPoint_pow (hlength : 0 < n) (hn : n ≤ exactLength k) :
    (gridPoint k n (10 ^ (n - 1))).value = 10 ^ ((exactLength k : Int) - 1 - places) := by
  have hsum : n - 1 + (exactLength k - n) = exactLength k - 1 := by omega
  have hexponent : (exactLength k : Int) - 1 - places = (exactLength k - 1 : Nat) - places := by omega
  rw [gridPoint, value_steps, ← Nat.pow_add, hsum, hexponent, zpow_sub₀ (by norm_num), zpow_natCast, zpow_natCast]
  push_cast
  rfl

/-- What is below the decade of the double is further away than where that decade begins. -/
theorem distance_gridPoint_pow_lt (hpos : 0 < k) (hk : k ≤ infinityRank) (hn : n ≤ exactLength k)
    (hd : IsCandidate k n d) (hbelow : d.value < 10 ^ ((exactLength k : Int) - 1 - places)) :
    nearest (gridPoint k n (10 ^ (n - 1))).value = k ∧ (gridPoint k n (10 ^ (n - 1))).distance k < d.distance k := by
  have hlength : 0 < n := hd.length ▸ Nat.length_toDigits_pos
  have habove : (gridPoint k n (10 ^ (n - 1))).value ≤ exactValue k := by
    have hdecade := value_bounds (d := ⟨exactDigits k, (0 : Nat) - places⟩) (exactDigits_pos hpos)
    rw [value_steps, Nat.pow_zero, Nat.mul_one, ← exactValue_eq] at hdecade
    rw [value_gridPoint_pow hlength hn]
    have hleading : Decimal.leading ⟨exactDigits k, (0 : Nat) - places⟩ = (exactLength k : Int) - 1 - places := by
      unfold Decimal.leading exactLength
      simp only
      omega
    exact hleading ▸ hdecade.1
  have hnonneg : 0 ≤ d.value := by
    unfold Decimal.value
    positivity
  rw [← value_gridPoint_pow hlength hn] at hbelow
  have hlower := nearest_mono hnonneg hbelow.le
  have hupper := nearest_mono (hnonneg.trans hbelow.le) habove
  rw [hd.nearest] at hlower
  rw [nearest_exactValue hk] at hupper
  refine ⟨Nat.le_antisymm hupper hlower, ?_⟩
  unfold Decimal.distance
  rw [abs_of_nonpos (sub_nonpos.mpr habove), abs_of_nonpos (sub_nonpos.mpr (hbelow.le.trans habove))]
  linarith

/-- Every decimal of `n` digits that is read back is a point of the grid, or there is one that is closer. -/
theorem exists_gridPoint_of_isCandidate (hpos : 0 < k) (hk : k ≤ infinityRank) (hn : n ≤ exactLength k)
    (hd : IsCandidate k n d) :
    ∃ c, nearest (gridPoint k n c).value = k ∧
      ((gridPoint k n c).value = d.value ∨ (gridPoint k n c).distance k < d.distance k) := by
  have hdigits := digits_pos_of_nearest hpos hd.nearest
  have hlast : d.leading = n - 1 + d.exponent := by
    unfold Decimal.leading
    rw [← hd.length]
    rfl
  by_cases hdecade : (exactLength k : Int) - 1 - places ≤ d.leading
  · obtain ⟨t, ht⟩ := Int.eq_ofNat_of_zero_le (a := d.exponent + places - (exactLength k - n : Nat)) (by omega)
    have hexponent : d.exponent = t + ((exactLength k - n : Nat) - places) := by omega
    have hvalue : (gridPoint k n (d.digits * 10 ^ t)).value = d.value := by
      unfold gridPoint Decimal.value
      rw [hexponent, zpow_add₀ (by norm_num) (t : Int), zpow_natCast, ← mul_assoc]
      push_cast
      rfl
    exact ⟨d.digits * 10 ^ t, hvalue ▸ hd.nearest, .inl hvalue⟩
  · have hnext : (10 : ℚ) ^ (d.leading + 1) ≤ 10 ^ ((exactLength k : Int) - 1 - places) :=
      zpow_le_zpow_right₀ (by norm_num) (by omega)
    obtain ⟨hreads, hlt⟩ := distance_gridPoint_pow_lt hpos hk hn hd ((value_bounds hdigits).2.trans_le hnext)
    exact ⟨10 ^ (n - 1), hreads, .inr hlt⟩

/-- What is offered is in the decade of the double, or is where the next one begins. -/
theorem offer?_bounds (hpos : 0 < k) (hlength : 0 < n) (hn : n ≤ exactLength k) (hc : offer? k n = some c) :
    10 ^ (n - 1) ≤ c ∧ c ≤ 10 ^ n := by
  obtain ⟨hlower, hupper⟩ := exactDigits_bounds hpos
  have hstep : 0 < 10 ^ (exactLength k - n) := Nat.pow_pos (by decide)
  have hsum : n - 1 + (exactLength k - n) = exactLength k - 1 := by omega
  have hleast : 10 ^ (n - 1) ≤ exactDigits k / 10 ^ (exactLength k - n) := by
    rw [Nat.le_div_iff_mul_le hstep, ← Nat.pow_add, hsum]
    exact hlower
  have hlimit : exactDigits k / 10 ^ (exactLength k - n) < 10 ^ n := by
    rw [Nat.div_lt_iff_lt_mul hstep, ← Nat.pow_add, Nat.add_sub_cancel' hn]
    exact hupper
  have hquotient := div_of_onGrid? hstep hc
  omega

/-- What is offered has `n` digits, or is the next power of ten, which has as many with one zero less. -/
theorem exists_isCandidate_of_offer? (hpos : 0 < k) (hlength : 0 < n) (hn : n ≤ exactLength k)
    (hc : offer? k n = some c) :
    ∃ d, IsCandidate k n d ∧ d.value = (gridPoint k n c).value ∧ (2 ∣ c → n ≠ 1 → 2 ∣ d.digits) := by
  have hread : nearest (gridPoint k n c).value = k := (readsBack_iff_nearest k n c).mp (readsBack_of_onGrid? hc)
  obtain ⟨hlower, hupper⟩ := offer?_bounds hpos hlength hn hc
  rcases hupper.lt_or_eq with hlt | heq
  · have hdigits := (length_eq_iff (digits_pos_of_nearest hpos hread) hlength).mpr ⟨hlower, hlt⟩
    exact ⟨gridPoint k n c, ⟨hdigits, hread⟩, rfl, fun heven _ => heven⟩
  · have hvalue : (Decimal.mk (10 ^ (n - 1)) ((exactLength k - n : Nat) - places + 1)).value =
        (gridPoint k n c).value := by
      obtain ⟨m, rfl⟩ := Nat.exists_eq_add_one_of_ne_zero hlength.ne'
      unfold gridPoint Decimal.value
      rw [heq, zpow_add_one₀ (by norm_num), Nat.add_sub_cancel]
      push_cast
      ring
    refine ⟨_, ⟨?_, hvalue ▸ hread⟩, hvalue, fun _ hne => ?_⟩
    · exact (length_eq_iff (Nat.pow_pos (by decide)) hlength).mpr
        ⟨le_rfl, Nat.pow_lt_pow_right (by decide) (by omega)⟩
    · exact Dvd.dvd.trans (by decide) (dvd_pow_self 10 (by omega))

/-- No point of the grid that is read back is closer than what is offered. -/
theorem distance_le_of_offer? (hk : k ≤ infinityRank) (hc : offer? k n = some c) {c' : Nat}
    (h : nearest (gridPoint k n c').value = k) :
    (gridPoint k n c).distance k ≤ (gridPoint k n c').distance k ∧
      (c' ≠ c → (gridPoint k n c').distance k = (gridPoint k n c).distance k →
        2 * Nat.dist (c * 10 ^ (exactLength k - n)) (exactDigits k) = 10 ^ (exactLength k - n) ∧ 2 ∣ c) := by
  obtain ⟨c₁, hc₁, hle, htie⟩ := exists_onGrid?_eq (Nat.pow_pos (by decide)) (readsBack_exactDigits hk)
    ((readsBack_iff_nearest k n c').mpr h)
  obtain rfl : c = c₁ := Option.some.inj (hc.symm.trans hc₁)
  have hscale : (0 : ℚ) < (10 ^ places : Nat) := by positivity
  rw [distance_gridPoint, distance_gridPoint, div_le_div_iff_of_pos_right hscale, div_left_inj' hscale.ne',
    Nat.cast_le, Nat.cast_inj]
  exact ⟨hle, htie⟩

/-- What is offered in the place of the first `n` digits is the preferred decimal of `n` digits. -/
theorem isPreferred_of_offer? (hpos : 0 < k) (hk : k ≤ infinityRank) (hlength : 0 < n) (hn : n ≤ exactLength k)
    (hc : offer? k n = some c)
    (hone : n = 1 → 2 * Nat.dist (c * 10 ^ (exactLength k - n)) (exactDigits k) ≠ 10 ^ (exactLength k - n)) :
    ∃ d, IsPreferred k n d ∧ d.value = (gridPoint k n c).value := by
  obtain ⟨d, hd, hvalue, heven⟩ := exists_isCandidate_of_offer? hpos hlength hn hc
  refine ⟨d, ⟨hd, fun d' hd' => ?_, fun d' hd' hne htie => ?_⟩, hvalue⟩
  · obtain ⟨c', hread, hpoint⟩ := exists_gridPoint_of_isCandidate hpos hk hn hd'
    have hle := (distance_le_of_offer? hk hc hread).1
    rw [distance_congr hvalue]
    rcases hpoint with heq | hlt
    · rwa [← distance_congr heq]
    · exact hle.trans hlt.le
  · obtain ⟨c', hread, hpoint⟩ := exists_gridPoint_of_isCandidate hpos hk hn hd'
    obtain ⟨hle, hexact⟩ := distance_le_of_offer? hk hc hread
    rw [distance_congr hvalue] at htie
    rcases hpoint with heq | hlt
    · have hother : c' ≠ c := by
        intro hsame
        rw [hsame, ← hvalue] at heq
        exact hne heq.symm
      rw [← distance_congr heq] at htie
      obtain ⟨hhalf, htwo⟩ := hexact hother htie
      exact heven htwo fun h => hone h hhalf
    · linarith

/-! ## The fewest digits -/

theorem exists_offer?_of_isCandidate (hpos : 0 < k) (hk : k ≤ infinityRank) (hn : n ≤ exactLength k)
    (hd : IsCandidate k n d) : ∃ c, offer? k n = some c := by
  obtain ⟨c', hread, -⟩ := exists_gridPoint_of_isCandidate hpos hk hn hd
  obtain ⟨c, hc, -⟩ := exists_onGrid?_eq (Nat.pow_pos (by decide)) (readsBack_exactDigits hk)
    ((readsBack_iff_nearest k n c').mpr hread)
  exact ⟨c, hc⟩

/-- All digits of a double are read back. -/
theorem exists_offer?_exactLength (hk : k ≤ infinityRank) : ∃ c, offer? k (exactLength k) = some c := by
  have hexact := readsBack_exactDigits hk
  have hpoint : readsBack k (exactDigits k * 1) = true := by rwa [Nat.mul_one]
  have hstep : Nat.pow 10 (exactLength k - exactLength k) = 1 := by rw [Nat.sub_self, Nat.pow_eq, Nat.pow_zero]
  obtain ⟨c, hc, -⟩ := exists_onGrid?_eq Nat.one_pos hexact hpoint
  refine ⟨c, ?_⟩
  rw [offer?, hstep, hc]

/-- A search over the first natural numbers stops at the first one that has a result. -/
theorem exists_of_findSome?_range {α : Type} {f : Nat → Option α} {limit : Nat} {b : α}
    (h : (List.range limit).findSome? f = some b) : ∃ n < limit, f n = some b ∧ ∀ m < n, f m = none := by
  induction limit with
  | zero => cases h
  | succ limit ih =>
    rw [List.range_succ, List.findSome?_append, Option.or_eq_some_iff] at h
    rcases h with hbefore | ⟨hnone, hlast⟩
    · obtain ⟨n, hn, hfound⟩ := ih hbefore
      exact ⟨n, by omega, hfound⟩
    · rw [List.findSome?_eq_none_iff] at hnone
      refine ⟨limit, by omega, by simpa using hlast, fun m hm => ?_⟩
      exact hnone m (List.mem_range.mpr hm)

/-- The shortest decimal is what is offered in the place of the fewest digits for which anything is. -/
theorem exists_shortest_eq_gridPoint (hk : k ≤ infinityRank) :
    ∃ n c, 0 < n ∧ n ≤ exactLength k ∧ offer? k n = some c ∧ shortest k = gridPoint k n c ∧
      ∀ m, 0 < m → m < n → offer? k m = none := by
  have hshortest : shortest k = ((List.range (exactLength k)).findSome? fun n =>
      (offer? k (n + 1)).map (gridPoint k (n + 1))).getD ⟨exactDigits k, -places⟩ := rfl
  cases hfound : (List.range (exactLength k)).findSome? fun n => (offer? k (n + 1)).map (gridPoint k (n + 1)) with
  | none =>
    obtain ⟨c, hc⟩ := exists_offer?_exactLength hk
    obtain ⟨n, hn⟩ : ∃ n, exactLength k = n + 1 := ⟨_, (Nat.succ_pred Nat.length_toDigits_pos.ne').symm⟩
    have hnone := List.findSome?_eq_none_iff.mp hfound n (List.mem_range.mpr (by omega))
    rw [← hn, hc] at hnone
    cases hnone
  | some d =>
    obtain ⟨n, hn, hsome, hbefore⟩ := exists_of_findSome?_range hfound
    obtain ⟨c, hc, rfl⟩ := Option.map_eq_some_iff.mp hsome
    rw [hfound, Option.getD_some] at hshortest
    refine ⟨n + 1, c, by omega, hn, hc, hshortest, fun m hm hlt => ?_⟩
    have hnone := hbefore (m - 1) (by omega)
    rw [Nat.sub_add_cancel hm] at hnone
    exact Option.map_eq_none_iff.mp hnone

/-- What is offered first, from `least` digits on, is chosen. -/
theorem isChosen_of_offer? {least : Nat} (hpos : 0 < k) (hk : k ≤ infinityRank) (hlength : 0 < n)
    (hn : n ≤ exactLength k) (hleast : least ≤ n) (hc : offer? k n = some c)
    (hnone : ∀ m, 0 < m → least ≤ m → m < n → offer? k m = none)
    (hone : n = 1 → 2 * Nat.dist (c * 10 ^ (exactLength k - n)) (exactDigits k) ≠ 10 ^ (exactLength k - n)) :
    IsChosen least k (gridPoint k n c).value := by
  obtain ⟨d, hd, hvalue⟩ := isPreferred_of_offer? hpos hk hlength hn hc hone
  refine ⟨n, d, ⟨⟨hleast, d, hd.toIsCandidate⟩, ?_⟩, hd, hvalue⟩
  intro m hm
  obtain ⟨hle, d', hd'⟩ := hm
  by_contra hlt
  have hmany : 0 < m := hd'.length ▸ Nat.length_toDigits_pos
  obtain ⟨c', hc'⟩ := exists_offer?_of_isCandidate hpos hk (by omega) hd'
  rw [hnone m hmany hle (by omega)] at hc'
  cases hc'

end Calculator.Double
