import Calculator.Proofs.ReadBack

/-!
# How results are written

A result is positional if it is zero or of a size from 10^-3 on and below 10^7, and in scientific form
otherwise. Where it is positional so is its literal, and both are one text. In scientific form it has the
digits of its literal without the zeros at either end, and the exponent of the first of them, wherever the
literal has its point and whether it has an exponent itself.

**Results.**
* `text_result_of_isModerate`, `restated?_literal`: a result is its literal, or its literal restated.
* `isScientificText_scientific`: the form of a result that has an exponent.
* `result_text_exact`: the form and the sign of every result, the number that it shows and what it is read as.
-/
namespace Calculator.Double

/-! ## Forms of texts -/

/-- Digits, a point and digits. -/
def IsPositionalText (cs : List Char) : Prop :=
  ∃ whole fraction, cs = whole ++ '.' :: fraction ∧ whole ≠ [] ∧ fraction ≠ [] ∧
    (∀ c ∈ whole, c.isDigit = true) ∧ ∀ c ∈ fraction, c.isDigit = true

/-- Digits of which the first is a zero only if it is the only one. -/
def IsWholeNumber (digits : List Char) : Prop :=
  digits ≠ [] ∧ (∀ c ∈ digits, c.isDigit = true) ∧ (digits.head? = some '0' → digits = ['0'])

/-- Digits of which the last is a zero only if it is the only one. -/
def IsFraction (digits : List Char) : Prop :=
  digits ≠ [] ∧ (∀ c ∈ digits, c.isDigit = true) ∧ (digits.getLast? = some '0' → digits = ['0'])

/-- A digit but zero, a point, a fraction and an exponent. -/
def IsScientificText (cs : List Char) (exponent : Int) : Prop :=
  ∃ first fraction power, cs = first :: '.' :: (fraction ++ 'E' :: power) ∧
    first.isDigit = true ∧ first ≠ '0' ∧ IsFraction fraction ∧
    IsWholeNumber (splitSign power).2 ∧ integer? power = some exponent

/-- The doubles that are zero, or of a size from 10^-3 on and below 10^7. -/
def IsModerate (x : Float) : Prop := (x == 0) = true ∨ 1e-3 ≤ x.abs ∧ x.abs < 1e7

instance : DecidablePred IsModerate := fun _ => inferInstanceAs (Decidable (_ ∨ _))

/-- A literal in scientific form: its sign, its digits without the zeros at either end, and the exponent of the
first of them. -/
def restated? (literal : List Char) : Option (List Char) :=
  (decimal? (splitSign literal).2).map fun d => (if (splitSign literal).1 then ['-'] else []) ++
    Layout.result.scientific (trimmed (Nat.toDigits 10 d.digits)) d.leading

variable {x : Float} {k : Nat}

/-! ## Digits without zeros at their ends -/

theorem head?_toDigits {c : Nat} (hc : 0 < c) : (Nat.toDigits 10 c).head? ≠ some '0' := by
  induction c using Nat.strongRecOn with
  | ind c ih =>
    rw [Nat.toDigits_eq_if (by decide)]
    split
    · interval_cases c <;> decide
    · have hrest := ih (c / 10) (by omega) (by omega)
      rwa [List.head?_append_of_ne_nil _ Nat.toDigits_ne_nil]

theorem isWholeNumber_toDigits (n : Nat) : IsWholeNumber (Nat.toDigits 10 n) := by
  refine ⟨Nat.toDigits_ne_nil, fun c hc => Nat.isDigit_of_mem_toDigits (by decide) (by decide) hc, ?_⟩
  intro hhead
  rcases Nat.eq_zero_or_pos n with rfl | hpos
  · rfl
  · exact absurd hhead (head?_toDigits hpos)

/-- The digits of a number without the zeros at their end begin with one that is not zero. -/
theorem head?_trimmed {c : Nat} (hc : 0 < c) : (trimmed (Nat.toDigits 10 c)).head? ≠ some '0' := by
  obtain ⟨n, hn⟩ := exists_trimmed_append (Nat.toDigits 10 c)
  have hhead := head?_toDigits hc
  rw [hn, List.head?_append_of_ne_nil _ (trimmed_ne_nil hc)] at hhead
  exact hhead

/-- And they end with one that is not zero. -/
theorem getLast?_trimmed (digits : List Char) : (trimmed digits).getLast? ≠ some '0' := by
  intro hlast
  unfold trimmed at hlast
  rw [List.getLast?_reverse] at hlast
  have hnot := Token.head?_dropWhile (p := (· == '0')) (Option.mem_def.mpr hlast)
  exact absurd hnot (by decide)

/-! ## Scientific form -/

theorem isWholeNumber_exponentText (exponent : Int) :
    IsWholeNumber (splitSign (Layout.result.exponentText exponent)).2 := by
  have hdigits := isWholeNumber_toDigits exponent.natAbs
  have hminus : (Nat.toDigits 10 exponent.natAbs).head? ≠ some '-' := by
    intro hhead
    exact ne_of_isDigit (hdigits.2.1 '-' (List.mem_of_mem_head? hhead)) rfl rfl
  have hwidth : 1 - (Nat.toDigits 10 exponent.natAbs).length = 0 := Nat.sub_eq_zero_of_le Nat.length_toDigits_pos
  have htext : Layout.result.exponentText exponent =
      (if decide (exponent < 0) then ['-'] else []) ++ Nat.toDigits 10 exponent.natAbs := by
    unfold Layout.exponentText
    simp [Layout.result, hwidth, zeros]
  rw [htext, splitSign_append hminus]
  exact hdigits

/-- The form of a result that has an exponent. -/
theorem isScientificText_scientific {c : Nat} (hc : 0 < c) (exponent : Int) :
    IsScientificText (Layout.result.scientific (trimmed (Nat.toDigits 10 c)) exponent) exponent := by
  obtain ⟨first, rest, hdigits⟩ := List.exists_cons_of_ne_nil (trimmed_ne_nil hc)
  have hall : ∀ d ∈ first :: rest, d.isDigit = true := hdigits ▸ isDigit_of_mem_trimmed
  have hhead := head?_trimmed hc
  have hlast := getLast?_trimmed (Nat.toDigits 10 c)
  rw [hdigits] at hhead hlast
  refine ⟨first, if rest = [] then ['0'] else rest, Layout.result.exponentText exponent, ?_,
    hall first List.mem_cons_self, fun hzero => hhead (by rw [hzero]; rfl), ?_,
    isWholeNumber_exponentText exponent, integer?_exponentText _ exponent⟩
  · rw [hdigits, scientific_eq _ (List.cons_ne_nil _ _), Layout.mantissa, if_neg (by simp [Layout.result]),
      positional_zero]
    simp [Layout.result]
  · split
    · exact ⟨List.cons_ne_nil _ _, isDigit_of_mem_zeros 1, fun _ => rfl⟩
    · next hrest =>
      refine ⟨hrest, fun d hd => hall d (List.mem_cons_of_mem _ hd), fun hzero => absurd ?_ hlast⟩
      rwa [List.getLast?_cons_of_ne_nil hrest]

/-! ## Which form -/

/-- The rank of the double nearest to 10^-3, the least but zero that is moderate. -/
def moderateRank : Nat := 0x3F50624DD2F1A9FC

/-- The rank of 10^7, from which on no double is moderate. -/
def immoderateRank : Nat := 0x416312D000000000

theorem shortest_moderateRank : shortest moderateRank = ⟨1, -3⟩ := by decide +kernel

theorem shortest_immoderateRank : shortest immoderateRank = ⟨1, 7⟩ := by decide +kernel

theorem ofRank_moderateRank : ofRank false moderateRank = 1e-3 := rfl

theorem ofRank_immoderateRank : ofRank false immoderateRank = 1e7 := rfl

/-- The moderate doubles but zero are those whose results are positional. -/
theorem isModerate_iff (hx : rank x < infinityRank) :
    IsModerate x ↔ rank x = 0 ∨
      Layout.result.least ≤ (shortest (rank x)).leading ∧
        (shortest (rank x)).leading ≤ Layout.result.greatest := by
  unfold IsModerate
  rw [← ofRank_moderateRank, ← ofRank_immoderateRank, beq_zero_or_abs_iff hx.le (by decide) (by decide)]
  rcases Nat.eq_zero_or_pos (rank x) with hzero | hpos
  · simp [hzero]
  · rw [leading_shortest_iff (by decide) (by decide) shortest_moderateRank shortest_immoderateRank hpos hx.le]

/-- A moderate result is its literal. -/
theorem text_result_of_isModerate (hx : rank x < infinityRank) (h : IsModerate x) :
    Layout.result.text x = Layout.literal.text x := by
  have hmagnitude : Layout.result.magnitude (rank x) = Layout.literal.magnitude (rank x) := by
    unfold Layout.magnitude
    rcases (isModerate_iff hx).mp h with hzero | hrange
    · rw [if_pos hzero, if_pos hzero]
    · have hliteral : Layout.literal.least ≤ (shortest (rank x)).leading ∧
          (shortest (rank x)).leading ≤ Layout.literal.greatest := by
        simp only [Layout.result, Layout.literal] at hrange ⊢
        omega
      rw [if_neg hx.ne, if_neg hx.ne, decimal_eq, decimal_eq, if_pos hrange, if_pos hliteral]
  refine String.toList_inj.mp ?_
  rw [Layout.toList_text _ hx.le, Layout.toList_text _ hx.le, hmagnitude]

/-- It is positional. -/
theorem isPositionalText_of_isModerate (hx : rank x < infinityRank) (h : IsModerate x) :
    IsPositionalText (Layout.result.magnitude (rank x)) := by
  have hform : ∀ {digits : List Char} (exponent : Int), digits ≠ [] → (∀ c ∈ digits, c.isDigit = true) →
      IsPositionalText (positional digits exponent) := by
    intro digits exponent hne hd
    obtain ⟨whole, fraction, htext, hshows, hfraction⟩ := exists_positional_eq hd exponent
    exact ⟨whole, fraction, htext, hshows.whole_ne_nil, hfraction hne, hshows.isDigit_whole,
      hshows.isDigit_fraction⟩
  unfold Layout.magnitude
  by_cases hzero : rank x = 0
  · rw [if_pos hzero]
    exact hform 0 (List.cons_ne_nil _ _) (isDigit_of_mem_zeros 1)
  · have hrange := ((isModerate_iff hx).mp h).resolve_left hzero
    have hpos := digits_shortest_pos (Nat.pos_of_ne_zero hzero) hx.le
    rw [if_neg hzero, if_neg hx.ne, decimal_eq, if_pos hrange]
    exact hform _ (trimmed_ne_nil hpos) isDigit_of_mem_trimmed

/-- A result that is not moderate is its shortest decimal in scientific form. -/
theorem magnitude_of_not_isModerate (hx : rank x < infinityRank) (h : ¬IsModerate x) :
    rank x ≠ 0 ∧ Layout.result.magnitude (rank x) =
      Layout.result.scientific (trimmed (Nat.toDigits 10 (shortest (rank x)).digits))
        (shortest (rank x)).leading := by
  obtain ⟨hzero, hrange⟩ := not_or.mp (mt (isModerate_iff hx).mpr h)
  refine ⟨hzero, ?_⟩
  unfold Layout.magnitude
  rw [if_neg hzero, if_neg hx.ne, decimal_eq, if_neg hrange]

/-- A result that is not moderate is its literal, restated. -/
theorem restated?_literal (hx : rank x < infinityRank) (h : ¬IsModerate x) :
    restated? (Layout.literal.text x).toList = some (Layout.result.text x).toList := by
  obtain ⟨hzero, hmagnitude⟩ := magnitude_of_not_isModerate hx h
  have hpos := Nat.pos_of_ne_zero hzero
  obtain ⟨d, hread, -, hvalue⟩ := decimal?_magnitude isReadable_literal hx
  obtain ⟨hdigits, hleading⟩ := digits_eq_of_value_eq (digits_shortest_pos hpos hx.le) (hvalue hpos).symm
  unfold restated?
  rw [splitSign_text isReadable_literal hx.le, hread, Option.map_some, Layout.toList_text _ hx.le,
    hmagnitude, hdigits, hleading]

/-! ## Results -/

/-- A result shows a number to which its double is the nearest, behind a sign if the double has one; no other
double has the same text. If it is moderate it is positional and the same as its literal; otherwise it is in
scientific form, restates its literal, and its exponent says between which powers of ten the number is. -/
theorem result_text_exact :
    (∀ x : Float, x.isFinite = true → ∃ size d,
      (Layout.result.text x).toList = (if isNegative x then ['-'] else []) ++ size ∧
      ((Layout.result.text x).toList.head? = some '-' ↔ isNegative x = true) ∧
      decimal? size = some d ∧ ofRank (isNegative x) (nearest d.value) = x ∧
      read? (Layout.result.text x).toList = some x ∧
      (IsModerate x → IsPositionalText size ∧ Layout.result.text x = Layout.literal.text x) ∧
      (¬IsModerate x → restated? (Layout.literal.text x).toList = some (Layout.result.text x).toList ∧
        ∃ exponent, IsScientificText size exponent ∧
          10 ^ exponent ≤ d.value ∧ d.value < 10 ^ (exponent + 1))) ∧
    ∀ x y : Float, Layout.result.text x = Layout.result.text y → x = y := by
  refine ⟨fun x hfinite => ?_, fun x y => text_inj isReadable_result⟩
  have hx := (isFinite_iff x).mp hfinite
  have htext := Layout.toList_text Layout.result hx.le
  obtain ⟨d, hread, hnearest, hvalue⟩ := decimal?_magnitude isReadable_result hx
  refine ⟨_, d, htext, ?_, hread, by rw [hnearest, ofRank_rank hx.le], read?_text isReadable_result x,
    fun h => ⟨isPositionalText_of_isModerate hx h, text_result_of_isModerate hx h⟩, fun h => ?_⟩
  · have hminus := head?_ne_of_size? (size?_magnitude isReadable_result hx.le)
    rw [htext]
    cases isNegative x <;> simp [hminus]
  · obtain ⟨hzero, hmagnitude⟩ := magnitude_of_not_isModerate hx h
    have hpos := digits_shortest_pos (Nat.pos_of_ne_zero hzero) hx.le
    refine ⟨restated?_literal hx h, (shortest (rank x)).leading, ?_, ?_⟩
    · rw [hmagnitude]
      exact isScientificText_scientific hpos _
    · rw [hvalue (Nat.pos_of_ne_zero hzero)]
      exact value_bounds hpos

theorem result_text_exact_twelve_million :
    ¬IsModerate (-12345678) ∧ (Layout.result.text (-12345678)).toList = "-1.2345678E7".toList ∧
      restated? "-12345678.0".toList = some "-1.2345678E7".toList ∧
      read? "-1.2345678E7".toList = some (-12345678) := by
  have hliteral : Layout.literal.text (-12345678) = "-12345678.0" := by decide +kernel
  have hresult : Layout.result.text (-12345678) = "-1.2345678E7" := by decide +kernel
  have hnot : ¬IsModerate (-12345678) := by decide +kernel
  obtain ⟨_, _, -, -, -, -, hread, -, hscientific⟩ := result_text_exact.1 (-12345678) (by decide +kernel)
  rw [hresult] at hread
  have h := (hscientific hnot).1
  rw [hliteral, hresult] at h
  exact ⟨hnot, congrArg _ hresult, h, hread⟩

end Calculator.Double
