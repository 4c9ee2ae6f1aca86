/-!
# Blank characters

All the white space of the character database together with the four information separators. It is wider
than what separates tokens.
-/
namespace Calculator.Text

/-- The blank code points, as ranges with both ends included, in order. -/
def blankRanges : List (Nat × Nat) := [
  (0x0009, 0x000d), (0x001c, 0x0020), (0x0085, 0x0085), (0x00a0, 0x00a0), (0x1680, 0x1680),
  (0x2000, 0x200a), (0x2028, 0x2029), (0x202f, 0x202f), (0x205f, 0x205f), (0x3000, 0x3000)
]

/-- Whether the character is blank. -/
def isBlank (c : Char) : Bool :=
  blankRanges.any fun range => range.1 ≤ c.toNat && c.toNat ≤ range.2

end Calculator.Text
