import Calculator.Double.Decimal

/-!
# How a double is written

All texts show the shortest digits that read back. A `Layout` says for which exponents they are written
positionally and how the exponent is written otherwise. There are two: `literal`, in which expressions
and log records show numbers, and `result`, in which answers are shown.
-/
namespace Calculator.Double

/-- The decisions left open by the digits of a number. -/
structure Layout where
  /-- Least exponent of the first digit that is written positionally. -/
  least : Int
  /-- Greatest exponent of the first digit that is written positionally. -/
  greatest : Int
  /-- What stands before the exponent. -/
  mark : String
  /-- Whether a lone digit before the mark is followed by a point and a zero. -/
  pointAlways : Bool
  /-- Whether a positive exponent has a sign. -/
  plusSign : Bool
  /-- The exponent is filled up with zeros to this many digits. -/
  exponentWidth : Nat
  /-- The word for infinity. -/
  infinity : String
  /-- The word for what is no number. -/
  notANumber : String
  deriving DecidableEq, Repr

/-- Literals are positional from 10^-4 up to 10^16, and `1e+16`, `1.5e-05` beyond. -/
def Layout.literal : Layout where
  least := -4
  greatest := 15
  mark := "e"
  pointAlways := false
  plusSign := true
  exponentWidth := 2
  infinity := "inf"
  notANumber := "nan"

/-- Results are positional from 10^-3 up to 10^7, and `1.0E7`, `1.5E-5` beyond. -/
def Layout.result : Layout where
  least := -3
  greatest := 6
  mark := "E"
  pointAlways := true
  plusSign := false
  exponentWidth := 1
  infinity := "Infinity"
  notANumber := "NaN"

/-- Digits without the zeros at their end. -/
def trimmed (digits : List Char) : List Char :=
  (digits.reverse.dropWhile (· == '0')).reverse

/-- `n` zeros. -/
def zeros (n : Nat) : List Char := List.replicate n '0'

/-- Digits with the point behind the digit of exponent 0, and at least one digit on either side of it;
the first digit has the given exponent. -/
def positional (digits : List Char) (exponent : Int) : List Char :=
  if exponent < 0 then
    '0' :: '.' :: (zeros ((-exponent).toNat - 1) ++ digits)
  else
    let before := exponent.toNat + 1
    let after := if digits.length ≤ before then ['0'] else digits.drop before
    digits.take before ++ zeros (before - digits.length) ++ '.' :: after

/-- The exponent of a number in scientific form, with its sign. -/
def Layout.exponentText (layout : Layout) (exponent : Int) : List Char :=
  let digits := Nat.toDigits 10 exponent.natAbs
  let sign := if exponent < 0 then ['-'] else if layout.plusSign then ['+'] else []
  sign ++ zeros (layout.exponentWidth - digits.length) ++ digits

/-- The first digit, a point and the rest, then the exponent of the first digit. -/
def Layout.scientific (layout : Layout) (digits : List Char) (exponent : Int) : List Char :=
  let fraction := if digits.length ≤ 1 then (if layout.pointAlways then ['.', '0'] else [])
    else '.' :: digits.drop 1
  digits.take 1 ++ fraction ++ layout.mark.toList ++ layout.exponentText exponent

/-- A positive decimal in the layout. -/
def Layout.decimal (layout : Layout) (d : Decimal) : List Char :=
  let all := Nat.toDigits 10 d.digits
  let exponent := (all.length : Int) - 1 + d.exponent
  if layout.least ≤ exponent ∧ exponent ≤ layout.greatest then positional (trimmed all) exponent
  else layout.scientific (trimmed all) exponent

/-- The double of rank `k` without its sign. -/
def Layout.magnitude (layout : Layout) (k : Nat) : List Char :=
  if k = 0 then positional ['0'] 0
  else if k = infinityRank then layout.infinity.toList
  else layout.decimal (shortest k)

/-- The text of a double. -/
def Layout.text (layout : Layout) (x : Float) : String :=
  if infinityRank < rank x then layout.notANumber
  else String.ofList ((if isNegative x then ['-'] else []) ++ layout.magnitude (rank x))

theorem Layout.toList_text (layout : Layout) {x : Float} (h : rank x ≤ infinityRank) :
    (layout.text x).toList = (if isNegative x then ['-'] else []) ++ layout.magnitude (rank x) := by
  unfold Layout.text
  rw [if_neg (Nat.not_lt.mpr h), String.toList_ofList]

end Calculator.Double
