import Calculator.Proofs.Closest
import Calculator.Proofs.Results

/-!
# Results and decimals of two digits

The digits of a result are the shortest decimal, which is the closest of those with the fewest digits. A result
shows two digits even if one is enough, and of the decimals of two digits another may be closer. It is not if
the double is so much larger than the distance to its neighbours that what is read back is within one part in 200;
of the others there are a hundred, eight of which have a closer decimal of two digits.

**Results.**
* `isChosen_one_shortest`: the shortest decimal is the closest of those with the fewest digits.
* `isChosen_two_shortest_iff`: it is the closest of those with the fewest digits from two on, but for eight ranks.
* `result_text_digits`: the digits and the form of every result.
-/
namespace Calculator.Double

variable {k n c : Nat}

/-! ## Half a unit of the last place -/

/-- A rounded significand, and the next power of two if it was rounded up to that, has its units. -/
theorem units_rounded {e m : Nat} (hm : m ≤ 2 * binade) (h : e = 0 ∨ binade ≤ m) :
    units (e * binade + m) = m <<< e := by
  have hbinade : 0 < binade := by decide
  by_cases hlt : m < 2 * binade
  · rcases h with rfl | hlow
    · rw [Nat.zero_mul, Nat.zero_add, Nat.shiftLeft_zero, units_of_lt hlt]
    · exact units_add hlow hlt
  · have hnext : e * binade + m = (e + 1) * binade + binade := by
      rw [Nat.add_one_mul]
      omega
    have htop : m = 2 * binade := by omega
    rw [hnext, units_add le_rfl (by omega), htop, Nat.shiftLeft_succ_inside]

/-- Unless nothing was cut off, a rounded significand has 53 bits. -/
theorem cut_eq_zero_or_le (size den : Nat) :
    cut size den = 0 ∨ binade ≤ divRound size (den <<< cut size den) := by
  by_cases h : cut size den = 0
  · exact .inl h
  · exact .inr (le_divRound_cut (Nat.pos_of_ne_zero h))

/-- The double nearest to a number of units is what that was rounded to. -/
theorem units_roundedRank (size den : Nat) :
    units (roundedRank size den) * den = divRound size (den <<< cut size den) * den <<< cut size den := by
  unfold roundedRank
  rw [units_rounded (divRound_cut_le size den) (cut_eq_zero_or_le size den), Nat.shiftLeft_eq, Nat.shiftLeft_eq]
  ring

/-- A number is no further from the double nearest to it than one part in 200 of that double, unless the double is
one of the least hundred. -/
theorem dist_units_le {num den : Nat} (hden : 0 < den) (hread : nearestRank num den = k) (hk : k < infinityRank)
    (hlarge : 100 ≤ k) : 200 * Nat.dist (units k * den) (num * unitsInOne) ≤ units k * den := by
  have hrank : roundedRank (num * unitsInOne) den = k := by
    rw [nearestRank_eq] at hread
    omega
  generalize num * unitsInOne = size at *
  have hstep : 0 < den <<< cut size den := by
    rw [Nat.shiftLeft_eq]
    positivity
  have hhalf := two_mul_dist_divRound size hstep
  have hmany : 100 ≤ divRound size (den <<< cut size den) := by
    rcases cut_eq_zero_or_le size den with hzero | hlow
    · unfold roundedRank at hrank
      rw [hzero, Nat.zero_mul, Nat.zero_add] at hrank
      rwa [hzero, hrank]
    · exact Nat.le_trans (by decide) hlow
  have hscaled := Nat.mul_le_mul_right (den <<< cut size den) hmany
  rw [← hrank, units_roundedRank]
  omega

theorem dist_exactDigits_le (hk : k < infinityRank) (hlarge : 100 ≤ k) {m : Nat}
    (hread : nearestRank m (10 ^ places) = k) : 200 * Nat.dist m (exactDigits k) ≤ exactDigits k := by
  have hunits := dist_units_le (Nat.pow_pos (by decide)) hread hk hlarge
  rw [← exactDigits_mul_unitsInOne, Nat.dist_mul_right, Nat.dist_comm, ← Nat.mul_assoc] at hunits
  exact Nat.le_of_mul_le_mul_right hunits unitsInOne_pos

/-! ## One digit and two -/

/-- The ranks of the doubles that are read back from a decimal of one digit while another of two is closer. -/
def lowRanks : List Nat := [1, 2, 10, 12, 14, 16, 18, 20]

/-- How many digits the exact decimals of the first hundred doubles have. -/
def lowLength (k : Nat) : Nat := if k ≤ 2 then 751 else if k ≤ 20 then 752 else 753

theorem exactLength_of_lt (hpos : 0 < k) (hlow : k < 100) : exactLength k = lowLength k := by
  have hbounds : ∀ k < 100, 0 < k → 0 < lowLength k ∧ Nat.pow 10 (lowLength k - 1) ≤ exactDigits k ∧
      exactDigits k < Nat.pow 10 (lowLength k) := by decide +kernel
  obtain ⟨hlength, hk⟩ := hbounds k hlow hpos
  exact (length_eq_iff (d := ⟨exactDigits k, 0⟩) (exactDigits_pos hpos) hlength).mpr hk

/-- What is offered to the first hundred doubles for their first digit is never halfway between two points, and
it is offered for their first two digits as well, but for the low ranks. -/
theorem onGrid?_of_lt : ∀ k < 100, 0 < k →
    ∀ c ∈ onGrid? k (exactDigits k) (Nat.pow 10 (lowLength k - 1)),
      2 * Nat.dist (c * Nat.pow 10 (lowLength k - 1)) (exactDigits k) ≠ Nat.pow 10 (lowLength k - 1) ∧
      (k ∉ lowRanks → onGrid? k (exactDigits k) (Nat.pow 10 (lowLength k - 2)) = some (c * 10)) := by
  decide +kernel

theorem onGrid?_of_mem_lowRanks : ∀ k ∈ lowRanks,
    ∃ c ∈ onGrid? k (exactDigits k) (Nat.pow 10 (lowLength k - 1)),
      ∃ c' ∈ onGrid? k (exactDigits k) (Nat.pow 10 (lowLength k - 2)),
        Nat.dist (c' * Nat.pow 10 (lowLength k - 2)) (exactDigits k) <
          Nat.dist (c * Nat.pow 10 (lowLength k - 1)) (exactDigits k) := by
  decide +kernel

theorem two_le_exactLength (hpos : 0 < k) : 2 ≤ exactLength k := by
  have hten : 10 ≤ Nat.pow 5 places := by decide +kernel
  have hle : 10 ≤ exactDigits k := hten.trans (Nat.le_mul_of_pos_left _ (units_pos hpos))
  by_contra hshort
  have hupper := (exactDigits_bounds hpos).2
  have hpow : 10 ^ exactLength k ≤ 10 ^ 1 := Nat.pow_le_pow_right (by decide) (by omega)
  omega

/-- A point that one digit tells is told by two as well, the second being zero. -/
theorem mul_ten_step (hpos : 0 < k) (c : Nat) :
    c * 10 * 10 ^ (exactLength k - 2) = c * 10 ^ (exactLength k - 1) := by
  have hlong := two_le_exactLength hpos
  have hnext : exactLength k - 1 = exactLength k - 2 + 1 := by omega
  rw [hnext, Nat.pow_add_one', Nat.mul_assoc]

section FirstDigit

variable (hpos : 0 < k) (hk : k < infinityRank) (hc : offer? k 1 = some c)
include hpos hk hc

/-- From the first hundred doubles on, what is offered for the first digit is within half a step of the grid of two
digits. -/
theorem dist_offer_one_lt (hlarge : 100 ≤ k) :
    2 * Nat.dist (c * 10 ^ (exactLength k - 1)) (exactDigits k) < 10 ^ (exactLength k - 2) := by
  have hread := readsBack_iff.mp (readsBack_of_onGrid? hc)
  have hclose := dist_exactDigits_le hk hlarge hread
  have hupper := (exactDigits_bounds hpos).2
  have hlength := two_le_exactLength hpos
  have hsplit : 10 ^ exactLength k = 100 * 10 ^ (exactLength k - 2) := by
    rw [← Nat.pow_add 10 2, Nat.add_sub_cancel' hlength]
  simp only [Nat.pow_eq] at hclose
  omega

/-- It is not halfway between two points. -/
theorem dist_offer_one_ne :
    2 * Nat.dist (c * 10 ^ (exactLength k - 1)) (exactDigits k) ≠ 10 ^ (exactLength k - 1) := by
  by_cases hlow : k < 100
  · unfold offer? at hc
    rw [exactLength_of_lt hpos hlow] at *
    exact (onGrid?_of_lt k hlow hpos c hc).1
  · have hclose := dist_offer_one_lt hpos hk hc (Nat.le_of_not_lt hlow)
    have hpow : 10 ^ (exactLength k - 2) ≤ 10 ^ (exactLength k - 1) :=
      Nat.pow_le_pow_right (by decide) (by omega)
    omega

/-- It is offered for the first two digits as well, but for the low ranks. -/
theorem offer?_two_of_offer?_one (h : k ∉ lowRanks) : offer? k 2 = some (c * 10) := by
  by_cases hlow : k < 100
  · unfold offer? at *
    rw [exactLength_of_lt hpos hlow] at *
    exact (onGrid?_of_lt k hlow hpos c hc).2 h
  · have hclose := dist_offer_one_lt hpos hk hc (Nat.le_of_not_lt hlow)
    have hread := readsBack_of_onGrid? hc
    simp only [Nat.pow_eq] at hread
    rw [← mul_ten_step hpos] at hclose hread
    have hnear := divRound_eq_of_dist hclose
    unfold offer? onGrid?
    simp only [Nat.pow_eq]
    simp [hnear, hread]

end FirstDigit

theorem exists_offer?_of_mem_lowRanks (h : k ∈ lowRanks) :
    ∃ c c', offer? k 1 = some c ∧ offer? k 2 = some c' ∧
      (gridPoint k 2 c').distance k < (gridPoint k 1 c).distance k := by
  have hlow : ∀ k ∈ lowRanks, 0 < k ∧ k < 100 := by decide
  obtain ⟨hpos, hlt⟩ := hlow k h
  obtain ⟨c, hc, c', hc', hcloser⟩ := onGrid?_of_mem_lowRanks k h
  rw [Option.mem_def, ← exactLength_of_lt hpos hlt] at hc hc'
  have hscale : (0 : ℚ) < (10 ^ places : Nat) := by positivity
  refine ⟨c, c', hc, hc', ?_⟩
  rw [distance_gridPoint, distance_gridPoint, div_lt_div_iff_of_pos_right hscale, Nat.cast_lt,
    exactLength_of_lt hpos hlt]
  exact hcloser

/-! ## What is chosen -/

/-- The shortest decimal is the closest of those with the fewest digits. -/
theorem isChosen_one_shortest (hpos : 0 < k) (hk : k < infinityRank) : IsChosen 1 k (shortest k).value := by
  obtain ⟨n, c, hlength, hn, hc, hshortest, hnone⟩ := exists_shortest_eq_gridPoint hk.le
  rw [hshortest]
  refine isChosen_of_offer? hpos hk.le hlength hn hlength hc (fun m hm _ => hnone m hm) fun hone => ?_
  subst hone
  exact dist_offer_one_ne hpos hk hc

/-- It is the closest of those with the fewest digits from two on, but for the low ranks. -/
theorem isChosen_two_shortest_iff (hpos : 0 < k) (hk : k < infinityRank) :
    IsChosen 2 k (shortest k).value ↔ k ∉ lowRanks := by
  obtain ⟨n, c, hlength, hn, hc, hshortest, hnone⟩ := exists_shortest_eq_gridPoint hk.le
  rw [hshortest]
  constructor
  · intro hchosen hmem
    obtain ⟨c₁, c₂, hc₁, hc₂, hcloser⟩ := exists_offer?_of_mem_lowRanks hmem
    obtain rfl : n = 1 := by
      by_contra hne
      have hnothing := hnone 1 Nat.one_pos (by omega)
      rw [hc₁] at hnothing
      cases hnothing
    obtain rfl : c = c₁ := Option.some.inj (hc.symm.trans hc₁)
    obtain ⟨m, d, hleast, hpreferred, hvalue⟩ := hchosen
    obtain ⟨d₂, hd₂, hvalue₂, -⟩ := exists_isCandidate_of_offer? hpos Nat.two_pos (two_le_exactLength hpos) hc₂
    obtain rfl : m = 2 := Nat.le_antisymm (hleast.2 ⟨le_rfl, d₂, hd₂⟩) hleast.1.1
    have hle := hpreferred.distance_le d₂ hd₂
    rw [distance_congr hvalue, distance_congr hvalue₂] at hle
    exact absurd hcloser (not_lt.mpr hle)
  · intro hmem
    by_cases htwo : 1 < n
    · exact isChosen_of_offer? hpos hk.le hlength hn htwo hc (fun m hm _ => hnone m hm) (by omega)
    · obtain rfl : n = 1 := by omega
      have hvalue : (gridPoint k 1 c).value = (gridPoint k 2 (c * 10)).value := by
        rw [gridPoint, gridPoint, value_steps, value_steps, mul_ten_step hpos]
      rw [hvalue]
      exact isChosen_of_offer? hpos hk.le Nat.two_pos (two_le_exactLength hpos) le_rfl
        (offer?_two_of_offer?_one hpos hk hc hmem) (fun m _ hm hlt => absurd hlt (Nat.not_lt.mpr hm))
        fun h => absurd h (by decide)

/-! ## Results -/

/-- A result shows the closest decimal of those with the fewest digits, in the form of its size. With two digits at
least it is the closest as well, but for the doubles of eight ranks and either sign. -/
theorem result_text_digits (x : Float) (hfinite : x.isFinite = true) (hzero : (x == 0) = false) :
    ∃ size d, (Layout.result.text x).toList = (if isNegative x then ['-'] else []) ++ size ∧
      decimal? size = some d ∧ IsChosen 1 (rank x) d.value ∧
      (IsChosen 2 (rank x) d.value ↔ rank x ∉ lowRanks) ∧
      (1e-3 ≤ x.abs ∧ x.abs < 1e7 → IsPositionalText size) ∧
      (¬(1e-3 ≤ x.abs ∧ x.abs < 1e7) → ∃ exponent, IsScientificText size exponent ∧
        10 ^ exponent ≤ d.value ∧ d.value < 10 ^ (exponent + 1)) := by
  have hx := (isFinite_iff x).mp hfinite
  have hpos : 0 < rank x := Nat.pos_of_ne_zero fun h => by simp [(beq_zero_iff x).mpr h] at hzero
  obtain ⟨d, hread, -, hvalue⟩ := decimal?_magnitude isReadable_result hx
  have hmoderate : IsModerate x ↔ 1e-3 ≤ x.abs ∧ x.abs < 1e7 := or_iff_right (by simp [hzero])
  refine ⟨_, d, Layout.toList_text Layout.result hx.le, hread, ?_, ?_, fun h => ?_, fun h => ?_⟩
  · rw [hvalue hpos]
    exact isChosen_one_shortest hpos hx
  · rw [hvalue hpos]
    exact isChosen_two_shortest_iff hpos hx
  · exact isPositionalText_of_isModerate hx (hmoderate.mpr h)
  · have hdigits := digits_shortest_pos hpos hx.le
    rw [hvalue hpos, (magnitude_of_not_isModerate hx (mt hmoderate.mp h)).2]
    exact ⟨_, isScientificText_scientific hdigits _, value_bounds hdigits⟩

/-- One digit is enough for 10^23, although that is not a double, and of those with two none is closer. -/
theorem result_text_digits_power :
    (1e23 : Float).isFinite = true ∧ ((1e23 : Float) == 0) = false ∧
      (Layout.result.text 1e23).toList = "1.0E23".toList ∧ IsChosen 2 (rank 1e23) (10 ^ 23) := by
  have hfinite : (1e23 : Float).isFinite = true := by decide +kernel
  have hzero : ((1e23 : Float) == 0) = false := by decide +kernel
  have htext : (Layout.result.text 1e23).toList = "1.0E23".toList := by decide +kernel
  have hsign : isNegative 1e23 = false := by decide +kernel
  have hrank : rank 1e23 ∉ lowRanks := by decide +kernel
  have hdecimal : decimal? "1.0E23".toList = some ⟨10, 22⟩ := by decide +kernel
  obtain ⟨size, d, hsize, hread, -, hchosen, -⟩ := result_text_digits 1e23 hfinite hzero
  rw [htext, hsign, if_neg Bool.false_ne_true, List.nil_append] at hsize
  rw [← hsize, hdecimal] at hread
  obtain rfl := Option.some.inj hread
  have hvalue : (Decimal.mk 10 22).value = 10 ^ 23 := by norm_num [Decimal.value]
  exact ⟨hfinite, hzero, htext, hvalue ▸ hchosen.mpr hrank⟩

/-- The result of the least double above zero has one digit, while another decimal of two digits is closer. -/
theorem not_forall_isChosen_two :
    ¬∀ x : Float, x.isFinite = true → (x == 0) = false → ∃ size d,
      (Layout.result.text x).toList = (if isNegative x then ['-'] else []) ++ size ∧
        decimal? size = some d ∧ IsChosen 2 (rank x) d.value := by
  intro h
  have hlow : 1 < infinityRank := by decide
  have hrank : rank (ofRank false 1) = 1 := rank_ofRank false hlow.le
  have hsign : isNegative (ofRank false 1) = false := isNegative_ofRank false hlow.le
  have hzero : (ofRank false 1 == 0) = false := by
    rw [Bool.eq_false_iff, ne_eq, beq_zero_iff, hrank]
    decide
  obtain ⟨size, d, hsize, hread, hchosen⟩ := h (ofRank false 1) ((isFinite_iff _).mpr (by rwa [hrank])) hzero
  rw [Layout.toList_text _ (by rw [hrank]; exact hlow.le), hsign, hrank, if_neg Bool.false_ne_true,
    List.nil_append, List.nil_append] at hsize
  obtain ⟨d', hread', -, hvalue⟩ := decimal?_magnitude isReadable_result hlow
  rw [hsize, hread] at hread'
  obtain rfl := Option.some.inj hread'
  rw [hrank, hvalue Nat.one_pos, isChosen_two_shortest_iff Nat.one_pos hlow] at hchosen
  exact hchosen (by decide)

end Calculator.Double
