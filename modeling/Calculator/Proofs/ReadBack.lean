import Calculator.Proofs.Decimals
import Calculator.Proofs.Segments

/-!
# What the text of a double is read as

A text in decimal is digits, with a point among them or with none, and an exponent behind a mark, if there is
one. It is read as the double nearest to the number that it shows; a sign in front of it is read by itself, so
that both zeros are read back, and infinity and what is no number have their words. All layouts are read in
this way: the zeros that they have in front of the digits or behind them, and an exponent instead of a point
that is far from the digits, change nothing about the number.

**Results.**
* `decimal?_positional`, `decimal?_scientific`: both ways of writing a decimal show its number.
* `decimal?_magnitude`: the text of a finite double shows its shortest decimal.
* `read?_text`: the text of a double is read as that double.
* `text_inj`: no two doubles have one text.
-/
namespace Calculator.Double

open Token

/-! ## Reading decimals -/

/-- Digits, at least one, as a number. -/
def natural? (cs : List Char) : Option Nat :=
  if !cs.isEmpty && cs.all Char.isDigit then some (Nat.ofDigitChars 10 cs 0) else none

/-- A whole number, behind its sign if it has one. -/
def integer? : List Char → Option Int
  | '-' :: cs => (natural? cs).map fun n => -Int.ofNat n
  | '+' :: cs => (natural? cs).map Int.ofNat
  | cs => (natural? cs).map Int.ofNat

/-- Digits with a point in front of them, among them or behind them, or with none. -/
def mantissa? (cs : List Char) : Option Decimal :=
  let whole := cs.takeWhile (· != '.')
  let fraction := (cs.dropWhile (· != '.')).drop 1
  (natural? (whole ++ fraction)).map fun n => ⟨n, -fraction.length⟩

/-- Whether an exponent is behind the character. -/
def isMark (c : Char) : Bool := c == 'e' || c == 'E'

/-- The decimal that a text without a sign shows, its digits as they stand. -/
def decimal? (cs : List Char) : Option Decimal :=
  match cs.dropWhile fun c => !isMark c with
  | [] => mantissa? cs
  | _ :: exponent => do
    let d ← mantissa? (cs.takeWhile fun c => !isMark c)
    let e ← integer? exponent
    return ⟨d.digits, d.exponent + e⟩

/-- The rank that a text without a sign is read as: that of the nearest double, or of a word. -/
def size? (cs : List Char) : Option Nat :=
  match decimal? cs with
  | some d => some (nearest d.value)
  | none =>
    if cs = "inf".toList ∨ cs = "Infinity".toList then some infinityRank
    else if cs = "nan".toList ∨ cs = "NaN".toList then some (infinityRank + binade / 2)
    else none

/-- Whether a text has a sign, and what is behind it. -/
def splitSign : List Char → Bool × List Char
  | '-' :: cs => (true, cs)
  | cs => (false, cs)

/-- The double that a text is read as. -/
def read? (cs : List Char) : Option Float := (size? (splitSign cs).2).map (ofRank (splitSign cs).1)

theorem natural?_eq {cs : List Char} (hne : cs ≠ []) (h : ∀ c ∈ cs, c.isDigit = true) :
    natural? cs = some (Nat.ofDigitChars 10 cs 0) := by
  have hall : cs.all Char.isDigit = true := List.all_eq_true.mpr h
  simp [natural?, hne, hall]

theorem natural?_eq_none {cs : List Char} {c : Char} (hc : c ∈ cs) (h : c.isDigit = false) :
    natural? cs = none := by
  have hnot : cs.all Char.isDigit = false := List.all_eq_false.mpr ⟨c, hc, by simp [h]⟩
  simp [natural?, hnot]

/-- The characters of a mantissa. -/
def IsMantissa (cs : List Char) : Prop := ∀ c ∈ cs, c.isDigit = true ∨ c = '.'

theorem not_isMark {c : Char} (h : c.isDigit = true ∨ c = '.') : (!isMark c) = true := by
  rcases h with hdigit | rfl
  · simp [isMark, ne_of_isDigit hdigit (d := 'e') rfl, ne_of_isDigit hdigit (d := 'E') rfl]
  · rfl

theorem decimal?_of_isMantissa {cs : List Char} (h : IsMantissa cs) : decimal? cs = mantissa? cs := by
  have hnone : (cs.dropWhile fun c => !isMark c) = [] :=
    List.dropWhile_eq_nil_iff.mpr fun c hc => not_isMark (h c hc)
  unfold decimal?
  rw [hnone]

/-- An exponent multiplies by a power of ten. -/
theorem decimal?_mark {cs exponent : List Char} {c : Char} {d : Decimal} {e : Int} (h : IsMantissa cs)
    (hc : isMark c = true) (hd : mantissa? cs = some d) (he : integer? exponent = some e) :
    decimal? (cs ++ c :: exponent) = some ⟨d.digits, d.exponent + e⟩ := by
  have hend : ∀ x ∈ (c :: exponent).head?, (!isMark x) = false := by simp [hc]
  obtain ⟨htake, hdrop⟩ := span_eq (fun c hc => not_isMark (h c hc)) hend
  unfold decimal?
  rw [hdrop, htake, hd]
  simp [he]

/-- A decimal has no sign. -/
theorem decimal?_minus (cs : List Char) : decimal? ('-' :: cs) = none := by
  have hmantissa : ∀ cs : List Char, mantissa? ('-' :: cs) = none := by
    intro cs
    have htake : ('-' :: cs).takeWhile (· != '.') = '-' :: cs.takeWhile (· != '.') := rfl
    unfold mantissa?
    simp only [htake, List.cons_append]
    rw [natural?_eq_none List.mem_cons_self (by decide), Option.map_none]
  have htake : (('-' :: cs).takeWhile fun c => !isMark c) = '-' :: cs.takeWhile fun c => !isMark c := rfl
  unfold decimal?
  split
  · exact hmantissa cs
  · rw [htake, hmantissa]
    rfl

/-! ## Texts in decimal -/

section Texts

variable {digits : List Char}

/-- A positional text has the characters of a mantissa, and as one it is the number that the digits are. -/
theorem mantissa?_positional (hd : ∀ c ∈ digits, c.isDigit = true) (exponent : Int) :
    IsMantissa (positional digits exponent) ∧
      ∃ d, mantissa? (positional digits exponent) = some d ∧ d.value = placed digits exponent := by
  obtain ⟨whole, fraction, htext, hshows, -⟩ := exists_positional_eq hd exponent
  have hpoint : ∀ c ∈ whole, (c != '.') = true := by
    intro c hc
    exact bne_iff_ne.mpr (ne_of_isDigit (hshows.isDigit_whole c hc) rfl)
  have hend : ∀ c ∈ ('.' :: fraction).head?, (c != '.') = false := by simp
  obtain ⟨htake, hdrop⟩ := span_eq hpoint hend
  have hne : whole ++ fraction ≠ [] := List.append_ne_nil_of_left_ne_nil hshows.whole_ne_nil _
  have hnatural := natural?_eq hne (List.forall_mem_append.mpr ⟨hshows.isDigit_whole, hshows.isDigit_fraction⟩)
  refine ⟨?_, ⟨Nat.ofDigitChars 10 (whole ++ fraction) 0, -fraction.length⟩, ?_, ?_⟩
  · rw [htext]
    intro c hc
    simp only [List.mem_append, List.mem_cons] at hc
    rcases hc with hc | hc | hc
    · exact .inl (hshows.isDigit_whole c hc)
    · exact .inr hc
    · exact .inl (hshows.isDigit_fraction c hc)
  · unfold mantissa?
    simp only [htext, htake, hdrop, List.drop_one, List.tail_cons, hnatural, Option.map_some]
  · rw [← hshows.div_eq, Decimal.value, zpow_neg, zpow_natCast, div_eq_mul_inv]

theorem integer?_of_isDigit {cs : List Char} (h : ∀ c ∈ cs, c.isDigit = true) :
    integer? cs = (natural? cs).map Int.ofNat := by
  unfold integer?
  split
  · exact absurd (h '-' List.mem_cons_self) (by decide)
  · exact absurd (h '+' List.mem_cons_self) (by decide)
  · rfl

/-- An exponent is written as the number that it is. -/
theorem integer?_exponentText (layout : Layout) (exponent : Int) :
    integer? (layout.exponentText exponent) = some exponent := by
  have hdigits : ∀ n, ∀ c ∈ zeros n ++ Nat.toDigits 10 exponent.natAbs, c.isDigit = true := fun n =>
    List.forall_mem_append.mpr ⟨isDigit_of_mem_zeros n,
      fun c hc => Nat.isDigit_of_mem_toDigits (by decide) (by decide) hc⟩
  have hnatural : ∀ n, natural? (zeros n ++ Nat.toDigits 10 exponent.natAbs) = some exponent.natAbs := by
    intro n
    rw [natural?_eq (by simp [Nat.toDigits_ne_nil]) (hdigits n), Nat.ofDigitChars_append, zeros,
      Nat.ofDigitChars_replicate_zero, Nat.mul_zero, Nat.ofDigitChars_ten_toDigits]
  unfold Layout.exponentText
  simp only [List.append_assoc]
  split
  · have habs : -Int.ofNat exponent.natAbs = exponent := by
      rw [Int.ofNat_eq_natCast]
      omega
    rw [List.singleton_append, integer?, hnatural, Option.map_some, habs]
  · have habs : Int.ofNat exponent.natAbs = exponent := by
      rw [Int.ofNat_eq_natCast]
      omega
    split
    · rw [List.singleton_append, integer?, hnatural, Option.map_some, habs]
    · rw [List.nil_append, integer?_of_isDigit (hdigits _), hnatural, Option.map_some, habs]

/-- The mantissa of a text in scientific form. -/
def Layout.mantissa (layout : Layout) (digits : List Char) : List Char :=
  if digits.length ≤ 1 ∧ layout.pointAlways = false then digits.take 1 else positional digits 0

theorem positional_zero (first : Char) (rest : List Char) :
    positional (first :: rest) 0 = first :: '.' :: (if rest = [] then ['0'] else rest) := by
  cases rest <;> simp [positional, zeros]

theorem scientific_eq (layout : Layout) (hne : digits ≠ []) (exponent : Int) :
    layout.scientific digits exponent =
      layout.mantissa digits ++ (layout.mark.toList ++ layout.exponentText exponent) := by
  obtain ⟨first, rest, rfl⟩ := List.exists_cons_of_ne_nil hne
  unfold Layout.scientific Layout.mantissa
  rw [positional_zero]
  cases rest with
  | nil => cases layout.pointAlways <;> simp
  | cons second rest => simp

/-- The mantissa is the number that the digits are if the first of them has exponent zero. -/
theorem mantissa?_mantissa (layout : Layout) (hne : digits ≠ []) (hd : ∀ c ∈ digits, c.isDigit = true) :
    IsMantissa (layout.mantissa digits) ∧
      ∃ d, mantissa? (layout.mantissa digits) = some d ∧ d.value = placed digits 0 := by
  unfold Layout.mantissa
  split
  · next hlone =>
    obtain ⟨first, rfl⟩ : ∃ first, digits = [first] := by
      refine List.length_eq_one_iff.mp ?_
      have hpos := List.length_pos_iff.mpr hne
      omega
    have hfirst : first.isDigit = true := hd first List.mem_cons_self
    refine ⟨fun c hc => .inl (hd c hc), ⟨Nat.ofDigitChars 10 [first] 0, 0⟩, ?_, ?_⟩
    · have hpoint : (first != '.') = true := bne_iff_ne.mpr (ne_of_isDigit hfirst rfl)
      have hnatural := natural?_eq hne hd
      simp [mantissa?, hpoint, hnatural]
    · simp [Decimal.value, placed]
  · exact mantissa?_positional hd 0

/-- A text in scientific form shows the number that the digits are if the first of them has the exponent. -/
theorem decimal?_scientific {layout : Layout} {mark : Char} (hmark : layout.mark.toList = [mark])
    (h : isMark mark = true) (hne : digits ≠ []) (hd : ∀ c ∈ digits, c.isDigit = true) (exponent : Int) :
    ∃ d, decimal? (layout.scientific digits exponent) = some d ∧ d.value = placed digits exponent := by
  obtain ⟨hmantissa, d, hread, hvalue⟩ := mantissa?_mantissa layout hne hd
  have hexponent := integer?_exponentText layout exponent
  rw [scientific_eq layout hne, hmark, List.singleton_append,
    decimal?_mark hmantissa h hread hexponent]
  refine ⟨_, rfl, ?_⟩
  have hsum : exponent + 1 - digits.length = (0 + 1 - digits.length) + exponent := by ring
  unfold Decimal.value placed at *
  rw [zpow_add₀ (by norm_num), ← mul_assoc, hvalue, hsum, zpow_add₀ (by norm_num), mul_assoc]

/-- A positional text shows it as well. -/
theorem decimal?_positional (hd : ∀ c ∈ digits, c.isDigit = true) (exponent : Int) :
    ∃ d, decimal? (positional digits exponent) = some d ∧ d.value = placed digits exponent := by
  obtain ⟨hmantissa, d, hread, hvalue⟩ := mantissa?_positional hd exponent
  exact ⟨d, (decimal?_of_isMantissa hmantissa).trans hread, hvalue⟩

end Texts

/-! ## Layouts -/

/-- The layout has the marks and the words that are read. -/
structure Layout.IsReadable (layout : Layout) : Prop where
  mark : layout.mark = "e" ∨ layout.mark = "E"
  infinity : layout.infinity = "inf" ∨ layout.infinity = "Infinity"
  notANumber : layout.notANumber = "nan" ∨ layout.notANumber = "NaN"

theorem isReadable_literal : Layout.literal.IsReadable := ⟨.inl rfl, .inl rfl, .inl rfl⟩

theorem isReadable_result : Layout.result.IsReadable := ⟨.inr rfl, .inr rfl, .inr rfl⟩

variable {layout : Layout} {k : Nat}

/-- However it is written, a decimal shows its number. -/
theorem decimal?_decimal (h : layout.IsReadable) {d : Decimal} (hd : 0 < d.digits) :
    ∃ d', decimal? (layout.decimal d) = some d' ∧ d'.value = d.value := by
  obtain ⟨mark, hmark, hlist⟩ : ∃ mark, isMark mark = true ∧ layout.mark.toList = [mark] := by
    rcases h.mark with he | he
    · exact ⟨'e', rfl, he ▸ rfl⟩
    · exact ⟨'E', rfl, he ▸ rfl⟩
  have hdigits := isDigit_of_mem_trimmed (c := d.digits)
  rw [← placed_trimmed d, decimal_eq]
  split
  · exact decimal?_positional hdigits d.leading
  · exact decimal?_scientific hlist hmark (trimmed_ne_nil hd) hdigits d.leading

/-- The text of a finite double without its sign shows a decimal nearest to which is the double. -/
theorem decimal?_magnitude (h : layout.IsReadable) (hk : k < infinityRank) :
    ∃ d, decimal? (layout.magnitude k) = some d ∧ nearest d.value = k ∧
      (0 < k → d.value = (shortest k).value) := by
  unfold Layout.magnitude
  split
  · next hzero =>
    obtain ⟨d, hread, hvalue⟩ := decimal?_positional (isDigit_of_mem_zeros 1) 0
    have hnone : d.value = 0 := by
      rw [hvalue, placed, zeros, Nat.ofDigitChars_replicate_zero, Nat.mul_zero, Nat.cast_zero, zero_mul]
    refine ⟨d, hread, ?_, fun hpos => absurd hzero hpos.ne'⟩
    rw [hnone, hzero]
    exact nearestRank_zero 1
  · next hzero =>
    have hpos := Nat.pos_of_ne_zero hzero
    rw [if_neg hk.ne]
    obtain ⟨d, hread, hvalue⟩ := decimal?_decimal h (digits_shortest_pos hpos hk.le)
    exact ⟨d, hread, by rw [hvalue, nearest_shortest hk.le], fun _ => hvalue⟩

theorem size?_magnitude (h : layout.IsReadable) (hk : k ≤ infinityRank) :
    size? (layout.magnitude k) = some k := by
  rcases hk.lt_or_eq with hlt | rfl
  · obtain ⟨d, hread, hnearest, -⟩ := decimal?_magnitude h hlt
    unfold size?
    rw [hread, ← hnearest]
  · have hword : layout.magnitude infinityRank = layout.infinity.toList := rfl
    rw [hword]
    rcases h.infinity with he | he <;> rw [he] <;> decide +kernel

/-- What is read has no sign, so that one in front of it is read by itself. -/
theorem size?_minus (cs : List Char) : size? ('-' :: cs) = none := by
  unfold size?
  rw [decimal?_minus]
  simp

theorem head?_ne_of_size? {cs : List Char} (h : size? cs = some k) : cs.head? ≠ some '-' := by
  intro hminus
  obtain ⟨rest, rfl⟩ := List.head?_eq_some_iff.mp hminus
  rw [size?_minus] at h
  cases h

/-- A sign is split off. -/
theorem splitSign_append {cs : List Char} (h : cs.head? ≠ some '-') (negative : Bool) :
    splitSign ((if negative then ['-'] else []) ++ cs) = (negative, cs) := by
  cases negative with
  | true => rfl
  | false =>
    rw [if_neg Bool.false_ne_true, List.nil_append]
    unfold splitSign
    split
    · exact absurd rfl h
    · rfl

/-- The text of a number is its sign and its size. -/
theorem splitSign_text (h : layout.IsReadable) {x : Float} (hx : rank x ≤ infinityRank) :
    splitSign (layout.text x).toList = (isNegative x, layout.magnitude (rank x)) := by
  rw [layout.toList_text hx]
  exact splitSign_append (head?_ne_of_size? (size?_magnitude h hx)) (isNegative x)

/-- The text of a double is read as that double. -/
theorem read?_text (h : layout.IsReadable) (x : Float) : read? (layout.text x).toList = some x := by
  rcases Nat.lt_or_ge infinityRank (rank x) with hnan | hnumber
  · have hword : layout.text x = layout.notANumber := if_pos hnan
    rw [hword, eq_notANumber_of_lt_rank hnan]
    rcases h.notANumber with he | he <;> rw [he] <;> decide +kernel
  · rw [read?, splitSign_text h hnumber, size?_magnitude h hnumber, Option.map_some, ofRank_rank hnumber]

/-- No two doubles have one text. -/
theorem text_inj (h : layout.IsReadable) {x y : Float} (htext : layout.text x = layout.text y) : x = y := by
  have hread := read?_text h x
  rw [htext, read?_text h y] at hread
  exact (Option.some.inj hread).symm

end Calculator.Double
