/-!
# Decimal digits of all scripts

The decimal digits of a script are ten code points in a row, so the table holds the zeros only. It is that
of version 14 of the character database.

**Results.**
* `isDecimalDigit_of_isDigit`: the ASCII digits are among them.
* `isDecimalDigit_eq_isDigit`: no other ASCII character is.
-/
namespace Calculator.Text

/-- The zeros, in order. -/
def zeroDigits : List Nat := [
  0x0030, 0x0660, 0x06f0, 0x07c0, 0x0966, 0x09e6, 0x0a66, 0x0ae6, 0x0b66, 0x0be6, 0x0c66, 0x0ce6,
  0x0d66, 0x0de6, 0x0e50, 0x0ed0, 0x0f20, 0x1040, 0x1090, 0x17e0, 0x1810, 0x1946, 0x19d0, 0x1a80,
  0x1a90, 0x1b50, 0x1bb0, 0x1c40, 0x1c50, 0xa620, 0xa8d0, 0xa900, 0xa9d0, 0xa9f0, 0xaa50, 0xabf0,
  0xff10, 0x104a0, 0x10d30, 0x11066, 0x110f0, 0x11136, 0x111d0, 0x112f0, 0x11450, 0x114d0, 0x11650,
  0x116c0, 0x11730, 0x118e0, 0x11950, 0x11c50, 0x11d50, 0x11da0, 0x16a60, 0x16ac0, 0x16b50,
  0x1d7ce, 0x1d7d8, 0x1d7e2, 0x1d7ec, 0x1d7f6, 0x1e140, 0x1e2f0, 0x1e950, 0x1fbf0
]

/-- Whether the character is a decimal digit of any script. -/
def isDecimalDigit (c : Char) : Bool :=
  zeroDigits.any fun first => first ≤ c.toNat && c.toNat ≤ first + 9

theorem isDecimalDigit_of_isDigit {c : Char} (h : c.isDigit) : isDecimalDigit c := by
  have hc : 48 ≤ c.toNat ∧ c.toNat ≤ 57 := by
    simpa [Char.isDigit, UInt32.le_iff_toNat_le] using h
  have hz : 48 ∈ zeroDigits := by decide
  exact List.any_eq_true.mpr ⟨48, hz, by simp [hc.1, hc.2]⟩

/-- The decimal digits among the ASCII characters are those of ASCII. -/
theorem isDecimalDigit_eq_isDigit {c : Char} (h : c.toNat < 128) : isDecimalDigit c = c.isDigit := by
  refine Bool.eq_iff_iff.mpr ⟨fun hc => ?_, isDecimalDigit_of_isDigit⟩
  have hzeros : ∀ first ∈ zeroDigits, first = 48 ∨ 128 ≤ first := by decide
  obtain ⟨first, hmem, hrange⟩ := List.any_eq_true.mp hc
  obtain ⟨hle, hge⟩ : first ≤ c.toNat ∧ c.toNat ≤ first + 9 := by simpa using hrange
  rcases hzeros first hmem with rfl | hlarge
  · simpa [Char.isDigit, UInt32.le_iff_toNat_le] using And.intro hle hge
  · omega

end Calculator.Text
