/-!
# Doubles by sign and rank

The doubles of one sign are ordered by the lower 63 bits of their pattern, the *rank*: the finite ones
come first, then infinity, then the patterns that are no number. Every finite double is a whole number
of units of 2^-1074, the smallest positive double, so its size is a natural number and what is said
about it needs no fractions.

**Results.**
* `units_of_lt`: the first two binades are numbered by their size.
* `units_add`: from then on the size is a significand of 53 bits, shifted.
-/
namespace Calculator.Double

/-- The number of doubles between a power of two and the next, 2^52. -/
def binade : Nat := 0x10000000000000

/-- The weight of the sign bit, 2^63. -/
def signWeight : Nat := 0x8000000000000000

/-- The rank of infinity. -/
def infinityRank : Nat := 2047 * binade

/-- The rank of 1.0. -/
def oneRank : Nat := 1023 * binade

/-- The number of units in 1.0. -/
def unitsInOne : Nat := 1 <<< 1074

/-- Position of a double among those of its sign, zero first. -/
def rank (x : Float) : Nat := x.toBits.toNat % signWeight

/-- Whether the sign bit is set, which it may be for a zero too. -/
def isNegative (x : Float) : Bool := decide (signWeight ≤ x.toBits.toNat)

/-- The double of a sign and a rank. -/
def ofRank (negative : Bool) (rank : Nat) : Float :=
  Float.ofBits (UInt64.ofNat (if negative then signWeight + rank else rank))

/-- The double that is no number. -/
def notANumber : Float := ofRank false (infinityRank + binade / 2)

/-- The size, in units, of the finite double of rank `k`. -/
def units (k : Nat) : Nat :=
  if k < binade then k else (binade + k % binade) <<< (k / binade - 1)

/-- Whether the finite double of rank `k` is a whole number. -/
def isWhole (k : Nat) : Bool := units k % unitsInOne == 0

/-! ## Sizes -/

/-- The first two binades are numbered by their size. -/
theorem units_of_lt {k : Nat} (h : k < 2 * binade) : units k = k := by
  unfold units binade at *
  split
  · rfl
  · have hq : k / 0x10000000000000 = 1 := by omega
    rw [hq, Nat.sub_self, Nat.shiftLeft_zero]
    omega

/-- From then on the size is a significand of 53 bits, shifted. -/
theorem units_add {e m : Nat} (lo : binade ≤ m) (hi : m < 2 * binade) :
    units (e * binade + m) = m <<< e := by
  unfold units binade at *
  have hd : (e * 0x10000000000000 + m) / 0x10000000000000 = e + 1 := by omega
  have hm : (e * 0x10000000000000 + m) % 0x10000000000000 = m - 0x10000000000000 := by omega
  rw [if_neg (by omega), hd, hm, Nat.add_sub_cancel, Nat.add_sub_cancel' lo]

end Calculator.Double
