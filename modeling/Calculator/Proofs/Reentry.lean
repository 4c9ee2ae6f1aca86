import Calculator.Proofs.Nesting
import Calculator.Proofs.Rendering
import Calculator.Proofs.Results

/-!
# Results that are typed in

A moderate result is a numeral, with a sign in front of it if its double has one, and has the value of that
double when it is typed in. Every other result has a letter, in front of which the reading stops: behind the
digits of a result in scientific form nothing may follow, and a word does not begin an expression. So no
result is taken for another number. None is too deep for a budget of two units.

**Results.**
* `need_signed_le`: a sign in front of a number, or of what is none, needs one unit.
* `evaluate_eq_of_need_le`: within the units that it needs a line has the value that it has without a limit.
* `scan_moderate`, `exists_scan_scientific`, `exists_scan_word`: the tokens of all forms of results.
* `evaluate_result`: the value of a result that is typed in, or the fault that it has.
-/
namespace Calculator

open Token Double

variable {x : Float} {b : Budget} {line : String}

/-! ## Signs -/

namespace Reader

open Nesting

variable {t : Token} {rest : List Token}

/-- The tokens of a sign, if there is one. -/
def signTokens (negative : Bool) : List Token := if negative then [ofSymbol '-'] else []

/-- A sign in front of tokens needs no more than one unit if they begin with a number and do not go on, or
with what begins no primary. -/
theorem need_signed_le (negative : Bool)
    (h : (∃ l, t = Token.ofNumeral l) ∧ (lookahead rest).kind.tightness = 0 ∨ beginsPrimary t.kind = false) :
    need (signTokens negative ++ t :: rest) ≤ 1 := by
  -- the sign is all that is pending in front of the token, and behind a number nothing is
  have hpeak : ∀ s, s = [] ∨ s = [Kind.minus] → peak ⟨s, true⟩ (t :: rest) ≤ 1 := by
    intro s hs
    have hload : load s ≤ 1 := by
      rcases hs with rfl | rfl <;> decide
    rcases h with ⟨⟨l, rfl⟩, htight⟩ | hbegins
    · have hbehind : behindPrimary s = [] := by
        rcases hs with rfl | rfl <;> rfl
      rw [peak_cons (next?_number rfl rfl s), hbehind, peak_end htight]
      simpa using hload
    · have hstop : ∀ token ∈ (t :: rest).head?, next? token ⟨s, true⟩ = none := by
        rintro token ⟨⟩
        exact next?_noPrimary hbegins s
      rw [peak_eq_load hstop]
      exact hload
  cases negative with
  | false => exact hpeak [] (.inl rfl)
  | true =>
    have hsign : next? (ofSymbol '-') ⟨[], true⟩ = some ⟨[.minus], true⟩ := rfl
    have hnone : load [] = 0 := rfl
    have hlater := hpeak [.minus] (.inr rfl)
    show peak ⟨[], true⟩ (ofSymbol '-' :: t :: rest) ≤ 1
    rw [peak_cons hsign]
    simp only [hnone]
    omega

/-- A number behind a sign is a sum, if no operator is behind it. -/
theorem sum_signed_number (negative : Bool) (l : List Char) (h : (lookahead rest).kind.tightness = 0) :
    ∃ e, (sum .unlimited (signTokens negative ++ Token.ofNumeral l :: rest)).result = .ok e ∧
      (sum .unlimited (signTokens negative ++ Token.ofNumeral l :: rest)).rest = rest := by
  have hnumber := spells_numeral l
  cases negative with
  | false =>
    exact ⟨_, sum_ok_iff.mpr ⟨_, rfl, spells_sum_of_primary hnumber, h⟩⟩
  | true =>
    have hsign : Spells .primary (ofSymbol '-' :: [Token.ofNumeral l]) _ := .sign rfl hnumber
    exact ⟨_, sum_ok_iff.mpr ⟨_, rfl, spells_sum_of_primary hsign, h⟩⟩

/-- Behind a sign a number is missing if something else is there. -/
theorem sum_signed_word (negative : Bool) (h : beginsPrimary t.kind = false) :
    (sum .unlimited (signTokens negative ++ t :: rest)).result = .error (.unexpected .number t) := by
  have hstops : Stops .primary (signTokens negative) .number := by
    cases negative with
    | false => exact .primary
    | true => exact .sign rfl .primary
  have hblocks : Blocks .number (lookahead (t :: rest)).kind := h
  exact (sum_eq_of_reads (reads_of_stops hstops.sum_of_primary hblocks)).1

end Reader

open Reader

/-! ## Within a budget -/

/-- Within the units that its tokens need and that its tree has levels, a line has the value that it has
without a limit. -/
theorem evaluate_eq_of_need_le {strict : Bool} {n : Nat} (hneed : need (tokenize line) ≤ n)
    (hheight : ∀ e, Expr.parse strict .unlimited line = .ok e → e.height ≤ n) (hb : .units n ≤ b) :
    evaluate strict b line = evaluate strict .unlimited line := by
  have hread : Expr.parse strict (.units n) line ≠ .error .tooDeep := by
    intro h
    have := (tooDeep_iff_lt_need strict (tokenize line) n).mp h
    omega
  have hdeep : evaluate strict (.units n) line ≠ .error .tooDeep := by
    intro h
    rw [evaluate_eq] at h
    rcases Fault.of_bind h with hparse | ⟨e, hparse, hvalue⟩
    · exact hread hparse
    · have hsame := isStable_parse strict line _ _ (Budget.le_unlimited _) hread
      exact e.needs_value.not_tooDeep n (hheight e (hsame.trans hparse)) hvalue
  have hstable := isStable_evaluate strict line
  exact (hstable _ _ hb hdeep).trans (hstable _ _ (Budget.le_unlimited _) hdeep).symm

theorem evaluate_eq_error_of_parse {strict : Bool} {fault : Fault}
    (h : Expr.parse strict b line = .error fault) : evaluate strict b line = .error fault := by
  rw [evaluate_eq, h]
  rfl

/-! ## The tokens of a result -/

/-- The sign of a text is scanned apart from its digits. -/
theorem scan_signed (negative : Bool) (cs : List Char) :
    scan ((if negative then ['-'] else []) ++ cs) = signTokens negative ++ scan cs := by
  cases negative with
  | false => rfl
  | true => exact scan_symbol rfl rfl cs

/-- A moderate double is finite. -/
theorem rank_lt_of_isModerate (h : IsModerate x) : rank x < infinityRank := by
  rcases h with hzero | ⟨-, hlt⟩
  · rw [(beq_zero_iff x).mp hzero]
    decide
  · rw [← ofRank_immoderateRank] at hlt
    have hx : rank x ≤ infinityRank := by
      have := ((lt_iff _ _).mp hlt).1
      rwa [rank_abs] at this
    rw [abs_eq hx, lt_ofRank_iff hx (by decide)] at hlt
    exact hlt.trans (by decide)

/-- A moderate double is plain. -/
theorem isPlain_of_isModerate (h : IsModerate x) : IsPlain x := by
  have hx := rank_lt_of_isModerate h
  rw [isPlain_iff]
  by_cases hzero : rank x = 0
  · exact .inl hzero
  · have hrange := ((isModerate_iff hx).mp h).resolve_left hzero
    refine .inr ((leading_literal_iff (Nat.pos_of_ne_zero hzero) hx.le).mp ?_)
    simp only [Layout.result, Layout.literal] at hrange ⊢
    omega

/-- A moderate result is a numeral behind its sign. -/
theorem scan_moderate (h : IsModerate x) :
    ∃ l, scan (Layout.result.text x).toList = signTokens (isNegative x) ++ [Token.ofNumeral l] := by
  have hx := rank_lt_of_isModerate h
  obtain ⟨hl, -⟩ := magnitude_of_isPositional ((isPlain_iff x).mp (isPlain_of_isModerate h))
  have hlone := scan_numeral isGap_nil hl isGap_nil
  rw [List.nil_append, List.append_nil] at hlone
  rw [text_result_of_isModerate hx h, Layout.toList_text _ hx.le, scan_signed, hlone]
  exact ⟨_, rfl⟩

/-- A result in scientific form is a numeral behind its sign, and a letter behind that. -/
theorem exists_scan_scientific (hx : rank x < infinityRank) (h : ¬IsModerate x) :
    ∃ l rest, scan (Layout.result.text x).toList =
      signTokens (isNegative x) ++ Token.ofNumeral l :: ofSymbol 'E' :: rest := by
  obtain ⟨hzero, hmagnitude⟩ := magnitude_of_not_isModerate hx h
  have hpos := digits_shortest_pos (Nat.pos_of_ne_zero hzero) hx.le
  obtain ⟨whole, fraction, hmantissa, hshows, -⟩ :=
    exists_positional_eq (isDigit_of_mem_trimmed (c := (shortest (rank x)).digits)) 0
  have hl := hshows.isNumeral
  have hends : ∀ rest, EndsBefore (whole ++ '.' :: fraction) ('E' :: rest) := by
    intro rest
    refine endsBefore_of_head ?_
    rintro c ⟨⟩
    decide
  rw [Layout.toList_text _ hx.le, scan_signed, hmagnitude, scientific_eq _ (trimmed_ne_nil hpos),
    Layout.mantissa, if_neg (by simp [Layout.result]), hmantissa]
  have hscan := scan_lexeme isGap_nil (.numeral hl)
    (hends (Layout.result.exponentText (shortest (rank x)).leading))
  rw [ofLexeme_of_isNumeral hl, scan_symbol rfl rfl, List.nil_append] at hscan
  exact ⟨_, _, congrArg (signTokens (isNegative x) ++ ·) hscan⟩

/-- The letter that the word for a double begins with which is infinite or no number. -/
def wordLetter (x : Float) : Char := if infinityRank < rank x then 'N' else 'I'

theorem beginsPrimary_wordLetter (x : Float) : beginsPrimary (ofSymbol (wordLetter x)).kind = false := by
  unfold wordLetter
  split <;> rfl

/-- A word is its first letter behind its sign, and more. -/
theorem exists_scan_word (hx : infinityRank ≤ rank x) :
    ∃ negative rest, scan (Layout.result.text x).toList =
      signTokens negative ++ ofSymbol (wordLetter x) :: rest := by
  rcases hx.lt_or_eq with hnan | hinfinite
  · have htext : Layout.result.text x = "NaN" := if_pos hnan
    rw [htext, wordLetter, if_pos hnan]
    exact ⟨false, _, scan_symbol rfl rfl ['a', 'N']⟩
  · have hword : Layout.result.magnitude (rank x) = "Infinity".toList := by
      rw [← hinfinite]
      rfl
    rw [Layout.toList_text _ hinfinite.ge, scan_signed, hword, wordLetter, if_neg hinfinite.not_lt]
    exact ⟨isNegative x, _, congrArg _ (scan_symbol rfl rfl "nfinity".toList)⟩

/-! ## The value of a result -/

/-- What is found, and what is missing there, in a result that is not moderate: the letter behind the digits
of one in scientific form, where nothing may follow, or the first letter of a word. -/
def resultFault (x : Float) : Fault :=
  if x.isFinite then .unexpected .endOfInput (ofSymbol 'E') else .unexpected .number (ofSymbol (wordLetter x))

theorem parse_result_of_isModerate (h : IsModerate x) :
    Expr.parse true .unlimited (Layout.result.text x) = .ok (Expr.signedNumber x) := by
  rw [text_result_of_isModerate (rank_lt_of_isModerate h) h, parse_eq_ok_iff]
  exact spells_sum_of_primary (spells_literal (isPlain_of_isModerate h))

theorem parse_result_of_not_isModerate (h : ¬IsModerate x) :
    Expr.parse true .unlimited (Layout.result.text x) = .error (resultFault x) := by
  unfold Expr.parse tokenize resultFault
  by_cases hx : rank x < infinityRank
  · obtain ⟨l, rest, hscan⟩ := exists_scan_scientific hx h
    rw [hscan, if_pos ((isFinite_iff x).mpr hx), List.append_assoc, List.cons_append, List.cons_append]
    have hloose : (lookahead (ofSymbol 'E' :: (rest ++ [endOfInput]))).kind.tightness = 0 := rfl
    obtain ⟨e, hsum, hrest⟩ := sum_signed_number (isNegative x) l hloose
    rw [read_of_sum_eq_ok true hsum, hrest]
    rfl
  · obtain ⟨negative, rest, hscan⟩ := exists_scan_word (Nat.le_of_not_lt hx)
    rw [hscan, if_neg (mt (isFinite_iff x).mp hx), List.append_assoc, List.cons_append]
    exact read_of_sum_eq_error true (sum_signed_word negative (beginsPrimary_wordLetter x))

theorem need_result_le (x : Float) : need (tokenize (Layout.result.text x)) ≤ 1 := by
  unfold tokenize
  by_cases h : IsModerate x
  · obtain ⟨l, hscan⟩ := scan_moderate h
    rw [hscan, List.append_assoc]
    exact need_signed_le _ (.inl ⟨⟨l, rfl⟩, rfl⟩)
  · by_cases hx : rank x < infinityRank
    · obtain ⟨l, rest, hscan⟩ := exists_scan_scientific hx h
      rw [hscan, List.append_assoc]
      exact need_signed_le _ (.inl ⟨⟨l, rfl⟩, rfl⟩)
    · obtain ⟨negative, rest, hscan⟩ := exists_scan_word (Nat.le_of_not_lt hx)
      rw [hscan, List.append_assoc]
      exact need_signed_le _ (.inr (beginsPrimary_wordLetter x))

theorem height_signedNumber_le (x : Float) : (Expr.signedNumber x).height ≤ 2 := by
  unfold Expr.signedNumber
  split <;> simp [Expr.height]

/-- A result that is typed in has the value of its double, the sign of a zero included, if it is moderate, and
a fault of syntax otherwise, within any budget of two units. So it never has the value of another double. -/
theorem evaluate_result (x : Float) (b : Budget) (hb : .units 2 ≤ b) :
    (IsModerate x → evaluate true b (Layout.result.text x) = .ok x) ∧
      (¬IsModerate x → evaluate true b (Layout.result.text x) = .error (resultFault x) ∧
        ∃ missing found, resultFault x = .unexpected missing found) ∧
      ∀ y, evaluate true b (Layout.result.text x) = .ok y → y = x := by
  have hread : ∀ e, Expr.parse true .unlimited (Layout.result.text x) = .ok e → e.height ≤ 2 := by
    intro e he
    by_cases h : IsModerate x
    · rw [parse_result_of_isModerate h] at he
      cases he
      exact height_signedNumber_le x
    · rw [parse_result_of_not_isModerate h] at he
      cases he
  have hsame := evaluate_eq_of_need_le ((need_result_le x).trans (by decide : 1 ≤ 2)) hread hb
  have hvalue : IsModerate x → evaluate true b (Layout.result.text x) = .ok x := by
    intro h
    rw [hsame, evaluate_eq_ok_iff]
    exact ⟨_, parse_eq_ok_iff.mp (parse_result_of_isModerate h),
      Expr.value_signedNumber ((isFinite_iff x).mpr (rank_lt_of_isModerate h))⟩
  have hfault : ¬IsModerate x → evaluate true b (Layout.result.text x) = .error (resultFault x) := by
    intro h
    rw [hsame]
    exact evaluate_eq_error_of_parse (parse_result_of_not_isModerate h)
  refine ⟨hvalue, fun h => ⟨hfault h, ?_⟩, fun y hy => ?_⟩
  · unfold resultFault
    split
    · exact ⟨_, _, rfl⟩
    · exact ⟨_, _, rfl⟩
  · by_cases h : IsModerate x
    · rw [hvalue h] at hy
      cases hy
      rfl
    · rw [hfault h] at hy
      cases hy

/-- A negative zero is typed in as its sign and a zero. -/
theorem evaluate_result_zero :
    Layout.result.text (-0.0) = "-0.0" ∧ Budget.units 2 ≤ .standard ∧
      evaluate true .standard "-0.0" = .ok (-0.0) := by
  have htext : Layout.result.text (-0.0) = "-0.0" := by decide +kernel
  have hmoderate : IsModerate (-0.0) := by decide +kernel
  have hbudget : Budget.units 2 ≤ .standard := Nat.le_of_ble_eq_true rfl
  have h := (evaluate_result (-0.0) .standard hbudget).1 hmoderate
  rw [htext] at h
  exact ⟨htext, hbudget, h⟩

end Calculator
