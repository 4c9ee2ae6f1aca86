import Calculator.Proofs.Decimals
import Calculator.Proofs.Segments

/-!
# Which literals are numerals

The literal of a double that is neither very small nor very large is positional: a numeral, which is read
back as that double. Of all others it has a letter, which is part of no numeral.

**Results.**
* `Layout.writes_text`: the characters that doubles are written with.
* `magnitude_of_isPositional`: a positional literal reads back.
* `exponent_mem_text`: that of a finite double which is not positional has an exponent.
* `letter_mem_text`: a literal that is not positional has a letter.
-/
namespace Calculator.Double

open Token

/-! ## Characters -/

/-- The characters of numbers in the layout that are no digits. -/
def Layout.marks (layout : Layout) : List Char :=
  ['.', '+', '-'] ++ layout.mark.toList ++ layout.infinity.toList ++ layout.notANumber.toList

/-- Digits and marks of the layout are all that its numbers are written with. -/
def Layout.Writes (layout : Layout) (cs : List Char) : Prop := ∀ c ∈ cs, c.isDigit = true ∨ c ∈ layout.marks

section Characters

variable {layout : Layout} {cs digits : List Char}

theorem Layout.writes_of_isDigit (h : ∀ c ∈ cs, c.isDigit = true) : layout.Writes cs := fun c hc => .inl (h c hc)

theorem Layout.writes_of_subset (h : cs ⊆ layout.marks) : layout.Writes cs := fun _ hc => .inr (h hc)

theorem Layout.Writes.append {ds : List Char} (hcs : layout.Writes cs) (hds : layout.Writes ds) :
    layout.Writes (cs ++ ds) := List.forall_mem_append.mpr ⟨hcs, hds⟩

theorem Layout.writes_positional (h : ∀ c ∈ digits, c.isDigit = true) (exponent : Int) :
    layout.Writes (positional digits exponent) := by
  obtain ⟨whole, fraction, htext, hshows, -⟩ := exists_positional_eq h exponent
  have hpoint : layout.Writes ['.'] := writes_of_subset (by simp [marks])
  rw [htext]
  exact (writes_of_isDigit hshows.isDigit_whole).append (hpoint.append (writes_of_isDigit hshows.isDigit_fraction))

theorem Layout.writes_exponentText (exponent : Int) : layout.Writes (layout.exponentText exponent) := by
  have hsign : layout.Writes (if exponent < 0 then ['-'] else if layout.plusSign then ['+'] else []) := by
    apply writes_of_subset
    split
    · simp [marks]
    · split <;> simp [marks]
  have hdigits : ∀ c ∈ Nat.toDigits 10 exponent.natAbs, c.isDigit = true := fun c hc =>
    Nat.isDigit_of_mem_toDigits (by decide) (by decide) hc
  exact (hsign.append (writes_of_isDigit (isDigit_of_mem_zeros _))).append (writes_of_isDigit hdigits)

theorem Layout.writes_scientific (h : ∀ c ∈ digits, c.isDigit = true) (exponent : Int) :
    layout.Writes (layout.scientific digits exponent) := by
  have hpoint : layout.Writes ['.'] := writes_of_subset (by simp [marks])
  have hmark : layout.Writes layout.mark.toList := by
    apply writes_of_subset
    exact fun c hc => by simp [marks, hc]
  have hfirst : layout.Writes (digits.take 1) := writes_of_isDigit fun c hc => h c (List.mem_of_mem_take hc)
  have hfraction : layout.Writes (if digits.length ≤ 1 then (if layout.pointAlways then ['.', '0'] else [])
      else '.' :: digits.drop 1) := by
    split
    · split
      · exact hpoint.append (writes_of_isDigit (isDigit_of_mem_zeros 1))
      · exact List.forall_mem_nil _
    · exact hpoint.append (writes_of_isDigit fun c hc => h c (List.mem_of_mem_drop hc))
  exact ((hfirst.append hfraction).append hmark).append (writes_exponentText exponent)

theorem Layout.writes_magnitude (k : Nat) : layout.Writes (layout.magnitude k) := by
  unfold magnitude
  split
  · exact writes_positional (isDigit_of_mem_zeros 1) 0
  · split
    · apply writes_of_subset
      exact fun c hc => by simp [marks, hc]
    · rw [decimal_eq]
      split
      · exact writes_positional isDigit_of_mem_trimmed _
      · exact writes_scientific isDigit_of_mem_trimmed _

/-- Every double is written with digits and marks of the layout. -/
theorem Layout.writes_text (x : Float) : layout.Writes (layout.text x).toList := by
  unfold text
  split
  · apply writes_of_subset
    exact fun c hc => by simp [marks, hc]
  · have hsign : layout.Writes (if isNegative x then ['-'] else []) := by
      apply writes_of_subset
      split <;> simp [marks]
    rw [String.toList_ofList]
    exact hsign.append (writes_magnitude _)

end Characters

/-! ## Positional literals -/

theorem Shows.isNumeral {whole fraction digits : List Char} {exponent : Int}
    (h : Shows whole fraction digits exponent) : IsNumeral (whole ++ '.' :: fraction) :=
  ⟨whole, h.whole_ne_nil, h.isDigit_whole, .inr ⟨fraction, h.isDigit_fraction, rfl⟩⟩

theorem ofNumeral_append {whole : List Char} (hw : ∀ c ∈ whole, c.isDigit = true)
    (fraction : List Char) :
    ofNumeral (whole ++ '.' :: fraction) =
      ofRank false (nearestRank (Nat.ofDigitChars 10 (whole ++ fraction) 0) (10 ^ fraction.length)) := by
  have hpoint : ∀ c ∈ ('.' :: fraction).head?, c.isDigit = false := by
    rintro c ⟨⟩
    decide
  obtain ⟨htake, hdrop⟩ := span_eq hw hpoint
  unfold ofNumeral
  rw [htake, hdrop]
  rfl

/-- The shortest decimal of a double, written positionally, is a numeral that is read as the double. -/
theorem positional_shortest {k : Nat} (hk : k ≤ infinityRank) :
    let literal := positional (trimmed (Nat.toDigits 10 (shortest k).digits)) (shortest k).leading
    IsNumeral literal ∧ ofNumeral literal = ofRank false k := by
  obtain ⟨whole, fraction, hliteral, hshows, -⟩ := exists_positional_eq isDigit_of_mem_trimmed (shortest k).leading
  simp only
  rw [hliteral]
  refine ⟨hshows.isNumeral, ?_⟩
  have hnumber := hshows.div_eq
  rw [placed_trimmed] at hnumber
  have hnearest := nearest_div (Nat.ofDigitChars 10 (whole ++ fraction) 0) (b := 10 ^ fraction.length)
    (Nat.pow_pos (by decide))
  push_cast at hnearest
  rw [hnumber, nearest_shortest hk] at hnearest
  rw [ofNumeral_append hshows.isDigit_whole, ← hnearest]

/-- The rank of the double nearest to 10^-4, the least but zero that is written positionally. -/
def leastRank : Nat := 0x3F1A36E2EB1C432D

/-- The rank of 10^16, from which on no double is written positionally. -/
def limitRank : Nat := 0x4341C37937E08000

/-- Whether the doubles of a rank are written positionally. -/
def IsPositional (k : Nat) : Prop := k = 0 ∨ leastRank ≤ k ∧ k < limitRank

theorem shortest_leastRank : shortest leastRank = ⟨1, -4⟩ := by decide +kernel

theorem shortest_limitRank : shortest limitRank = ⟨1, 16⟩ := by decide +kernel

/-- The doubles whose literals are positional. -/
theorem leading_literal_iff {k : Nat} (hpos : 0 < k) (hk : k ≤ infinityRank) :
    Layout.literal.least ≤ (shortest k).leading ∧ (shortest k).leading ≤ Layout.literal.greatest ↔
      leastRank ≤ k ∧ k < limitRank :=
  leading_shortest_iff (by decide) (by decide) shortest_leastRank shortest_limitRank hpos hk

/-- The plain doubles: those that are finite, and zero or of a size from 10^-4 on and below 10^16. -/
def IsPlain (x : Float) : Prop :=
  x.isFinite = true ∧ ((x == 0) = true ∨ 1e-4 ≤ x.abs ∧ x.abs < 1e16)

instance : DecidablePred IsPlain := fun _ => inferInstanceAs (Decidable (_ ∧ _))

theorem ofRank_leastRank : ofRank false leastRank = 1e-4 := rfl

theorem ofRank_limitRank : ofRank false limitRank = 1e16 := rfl

/-- The plain doubles are those that are written positionally. -/
theorem isPlain_iff (x : Float) : IsPlain x ↔ IsPositional (rank x) := by
  have hlimit : limitRank < infinityRank := by decide
  unfold IsPlain IsPositional
  rw [isFinite_iff]
  by_cases hk : rank x < infinityRank
  · rw [← ofRank_leastRank, ← ofRank_limitRank, beq_zero_or_abs_iff hk.le (by decide) (by decide)]
    exact and_iff_right hk
  · refine ⟨fun h => absurd h.1 hk, ?_⟩
    rintro (hzero | ⟨-, hlt⟩)
    · exact absurd (hzero ▸ (by decide : 0 < infinityRank)) hk
    · exact absurd (hlt.trans hlimit) hk

/-- The positional literal of a double is a numeral that is read as the double. -/
theorem magnitude_of_isPositional {k : Nat} (h : IsPositional k) :
    IsNumeral (Layout.literal.magnitude k) ∧
      ofNumeral (Layout.literal.magnitude k) = ofRank false k := by
  rcases h with rfl | hrange
  · have hzero : ∀ c ∈ ['0'], c.isDigit = true := isDigit_of_mem_zeros 1
    have hmagnitude : Layout.literal.magnitude 0 = ['0'] ++ '.' :: ['0'] := rfl
    rw [hmagnitude]
    refine ⟨⟨['0'], List.cons_ne_nil _ _, hzero, .inr ⟨['0'], hzero, rfl⟩⟩, ?_⟩
    rw [ofNumeral_append hzero]
    exact congrArg (ofRank false) (nearestRank_zero 10)
  · have hpos : 0 < k := Nat.lt_of_lt_of_le (by decide) hrange.1
    have hlt : k < infinityRank := Nat.lt_of_lt_of_le hrange.2 (by decide)
    unfold Layout.magnitude
    rw [if_neg hpos.ne', if_neg hlt.ne, decimal_eq,
      if_pos ((leading_literal_iff hpos hlt.le).mpr hrange)]
    exact positional_shortest hlt.le

/-- The literal of a finite double that is not positional has an exponent. -/
theorem exponent_mem_text {x : Float} (hx : rank x < infinityRank) (h : ¬IsPositional (rank x)) :
    'e' ∈ (Layout.literal.text x).toList := by
  have hzero : rank x ≠ 0 := fun hzero => h (.inl hzero)
  have hleading := mt (leading_literal_iff (Nat.pos_of_ne_zero hzero) hx.le).mp fun hrange => h (.inr hrange)
  have hmark : 'e' ∈ Layout.literal.mark.toList := by decide
  rw [Layout.toList_text _ hx.le]
  unfold Layout.magnitude
  rw [if_neg hzero, if_neg hx.ne, decimal_eq, if_neg hleading]
  exact List.mem_append_right _ (List.mem_append_left _ (List.mem_append_right _ hmark))

/-- A literal that is not positional has a letter. -/
theorem letter_mem_text {x : Float} (h : ¬IsPositional (rank x)) :
    'e' ∈ (Layout.literal.text x).toList ∨ 'n' ∈ (Layout.literal.text x).toList := by
  rcases Nat.lt_trichotomy (rank x) infinityRank with hfinite | hinfinite | hnan
  · exact .inl (exponent_mem_text hfinite h)
  · have hzero : rank x ≠ 0 := fun hzero => h (.inl hzero)
    rw [Layout.toList_text _ hinfinite.le]
    unfold Layout.magnitude
    rw [if_neg hzero, if_pos hinfinite]
    exact .inr (List.mem_append_right _ (by decide))
  · unfold Layout.text
    rw [if_pos hnan]
    exact .inr (by decide)

end Calculator.Double
