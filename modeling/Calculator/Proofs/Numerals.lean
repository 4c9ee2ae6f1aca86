import Calculator.Token.Scanner

/-!
# Numerals

A numeral is digits, or digits, a point and more digits or none. The tokens of a text that are numbers
have a numeral as their lexeme and its double as their value, whatever the text is.

**Results.**
* `isNumeral_numeral`: a text that begins with a digit begins with a numeral.
* `isExact_of_mem_tokenize`: the tokens of a text that are numbers have a numeral and its value.
-/
namespace Calculator.Token

/-- Every numeral among the tokens has a value. -/
def HasValues (ts : List Token) : Prop := ∀ t ∈ ts, t.kind = .number → t.value ≠ none

theorem hasValues_append {p q : List Token} : HasValues (p ++ q) ↔ HasValues p ∧ HasValues q :=
  List.forall_mem_append

theorem hasValues_of_isSuffix {p q : List Token} (h : HasValues q) (hs : p <:+ q) : HasValues p :=
  fun t ht => h t (hs.subset ht)

theorem hasValues_cons {t : Token} {q : List Token} (h : HasValues (t :: q)) : HasValues q :=
  hasValues_of_isSuffix h (List.suffix_cons t q)

/-- Digits, and if a point follows, more digits or none. -/
def IsNumeral (cs : List Char) : Prop :=
  ∃ whole, whole ≠ [] ∧ (∀ c ∈ whole, c.isDigit) ∧
    (cs = whole ∨ ∃ fraction, (∀ c ∈ fraction, c.isDigit) ∧ cs = whole ++ '.' :: fraction)

/-- What is taken of a text that begins with a digit is a numeral. -/
theorem isNumeral_numeral {c : Char} {cs : List Char} (h : c.isDigit) :
    IsNumeral (numeral (c :: cs)).1 := by
  have hne : (c :: cs).takeWhile Char.isDigit ≠ [] := by simp [h]
  refine ⟨_, hne, List.all_eq_true.mp List.all_takeWhile, ?_⟩
  unfold numeral
  split
  · next rest hr => exact .inr ⟨_, List.all_eq_true.mp List.all_takeWhile, rfl⟩
  · exact .inl rfl

/-- A token that, if it is a number, has a numeral as its lexeme and the double of it as its value. -/
def IsExact (t : Token) : Prop :=
  t.kind = .number → IsNumeral t.lexeme.toList ∧ t.value = some (Double.ofNumeral t.lexeme.toList)

theorem isExact_ofNumeral {cs : List Char} (h : IsNumeral cs) : (ofNumeral cs).IsExact := by
  intro _
  simp only [ofNumeral, String.toList_ofList]
  exact ⟨h, trivial⟩

/-- A character that is a token by itself is no numeral. -/
theorem ofSymbol_ne_number (c : Char) : Kind.ofSymbol c ≠ .number := by
  unfold Kind.ofSymbol
  split <;> decide

theorem isExact_ofSymbol (c : Char) : (ofSymbol c).IsExact := fun hk =>
  absurd hk (ofSymbol_ne_number c)

theorem isExact_of_next? {cs rest : List Char} {t : Token} (h : next? cs = some (t, rest)) :
    t.IsExact := by
  unfold next? at h
  split at h
  · cases h
  · next c cs' _ =>
    split at h
    · next hd =>
      cases h
      exact isExact_ofNumeral (isNumeral_numeral hd)
    · cases h
      exact isExact_ofSymbol c

theorem isExact_of_mem_scan {cs : List Char} {t : Token} (h : t ∈ scan cs) : t.IsExact := by
  induction cs using scan.induct with
  | case1 cs hn =>
    rw [scan_of_next?_eq_none hn] at h
    cases h
  | case2 cs u rest hn ih =>
    rw [scan_of_next?_eq_some hn] at h
    rcases List.mem_cons.mp h with rfl | h
    · exact isExact_of_next? hn
    · exact ih h

/-- All tokens of a text are exact. -/
theorem isExact_of_mem_tokenize {text : String} {t : Token} (h : t ∈ tokenize text) : t.IsExact := by
  rcases List.mem_append.mp h with h | h
  · exact isExact_of_mem_scan h
  · cases List.mem_singleton.mp h
    exact fun hk => nomatch hk

theorem hasValues_tokenize (text : String) : HasValues (tokenize text) := by
  intro t ht hk hn
  obtain ⟨-, hv⟩ := isExact_of_mem_tokenize ht hk
  rw [hn] at hv
  cases hv

end Calculator.Token
