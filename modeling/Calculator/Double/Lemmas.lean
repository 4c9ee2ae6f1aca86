import Calculator.Double
import Mathlib

/-!
# Sign and rank determine a double

A double is seen through its sign and its rank. Here that view is tied to the patterns of binary64: a sign
and a rank up to that of infinity belong to exactly one double, there is one double that is no number, and
negation changes the sign and nothing else.

**Results.**
* `rank_ofRank`, `isNegative_ofRank`: the double of a sign and a rank has them.
* `ofRank_rank`: a double that is a number is that of its sign and rank.
* `eq_of_rank_eq`: sign and rank determine a double.
* `neg_ofRank`: negation changes the sign.
-/
namespace Calculator.Double

open Float.Model (Format)
open Float.Model.UnpackedFloat

/-! ## Patterns -/

/-- The lower 52 bits of a pattern are its significand. -/
theorem toNat_unpackMantissa (b : UInt64) :
    (@unpackMantissa Format.binary64 b.toBitVec).toNat = b.toNat % binade := by
  rw [unpackMantissa_def]
  simp [BitVec.extractLsb'_toNat, binade]

/-- The 11 bits above them are its exponent. -/
theorem toNat_unpackExponent (b : UInt64) :
    (@unpackExponent Format.binary64 b.toBitVec).toNat = b.toNat / binade % 2048 := by
  rw [unpackExponent_def]
  simp [BitVec.extractLsb'_toNat, Nat.shiftRight_eq_div_pow, binade]

/-- The topmost bit is its sign. -/
theorem toNat_unpackSign (b : UInt64) :
    (@unpackSign Format.binary64 b.toBitVec).toNat = b.toNat / signWeight % 2 := by
  rw [unpackSign_def]
  simp [BitVec.extractLsb'_toNat, Nat.shiftRight_eq_div_pow, signWeight]

/-- The patterns that are no number are those above infinity. -/
theorem isNaNBits_iff (b : UInt64) :
    @isNaNBits Format.binary64 b.toBitVec = true ↔
      infinityRank < b.toNat % signWeight := by
  have hb := b.toNat_lt
  unfold isNaNBits
  rw [decide_eq_true_iff, ← BitVec.toNat_inj, ne_eq, ← BitVec.toNat_inj, toNat_unpackExponent,
    toNat_unpackMantissa]
  unfold infinityRank signWeight binade
  simp only [BitVec.toNat_neg, BitVec.toNat_ofNat]
  omega

/-- All other patterns are the patterns of the doubles that they stand for. -/
theorem toBits_ofBits {b : UInt64} (h : b.toNat % signWeight ≤ infinityRank) :
    (Float.ofBits b).toBits = b := by
  have hn : @isNaNBits Format.binary64 b.toBitVec = false := by
    rw [Bool.eq_false_iff, ne_eq, isNaNBits_iff]
    omega
  show UInt64.ofBitVec (pack Format.binary64 (unpack Format.binary64 b.toBitVec)) = b
  rw [pack_unpack, hn]
  simp

/-! ## Sign and rank -/

theorem infinityRank_lt : infinityRank < signWeight := by decide

/-- The pattern of a sign and a rank. -/
theorem toNat_ofRank_bits (negative : Bool) {k : Nat} (h : k < signWeight) :
    (UInt64.ofNat (if negative then signWeight + k else k)).toNat =
      if negative then signWeight + k else k := by
  unfold signWeight at *
  rw [UInt64.toNat_ofNat_of_lt']
  show _ < 18446744073709551616
  split <;> omega

theorem toBits_ofRank (negative : Bool) {k : Nat} (h : k ≤ infinityRank) :
    (ofRank negative k).toBits.toNat = if negative then signWeight + k else k := by
  have hk := Nat.lt_of_le_of_lt h infinityRank_lt
  have hb := toNat_ofRank_bits negative hk
  unfold ofRank
  rw [toBits_ofBits, hb]
  rw [hb]
  split
  · rwa [Nat.add_mod_left, Nat.mod_eq_of_lt hk]
  · rwa [Nat.mod_eq_of_lt hk]

@[simp] theorem rank_ofRank (negative : Bool) {k : Nat} (h : k ≤ infinityRank) :
    rank (ofRank negative k) = k := by
  have hk := Nat.lt_of_le_of_lt h infinityRank_lt
  unfold rank
  rw [toBits_ofRank negative h]
  split
  · rw [Nat.add_mod_left, Nat.mod_eq_of_lt hk]
  · rw [Nat.mod_eq_of_lt hk]

@[simp] theorem isNegative_ofRank (negative : Bool) {k : Nat} (h : k ≤ infinityRank) :
    isNegative (ofRank negative k) = negative := by
  have hk := Nat.lt_of_le_of_lt h infinityRank_lt
  unfold isNegative
  rw [toBits_ofRank negative h]
  cases negative
  · simpa using hk
  · simp

/-- Sign and rank make up the pattern. -/
theorem toNat_toBits (x : Float) :
    x.toBits.toNat = if isNegative x then signWeight + rank x else rank x := by
  have hb := x.toBits.toNat_lt
  unfold isNegative rank signWeight
  simp only [decide_eq_true_eq]
  split <;> omega

/-- Sign and rank determine a double. -/
theorem eq_of_rank_eq {x y : Float} (hs : isNegative x = isNegative y) (hr : rank x = rank y) :
    x = y := by
  apply Float.toBits_inj.mp
  rw [← UInt64.toNat_inj, toNat_toBits, toNat_toBits, hs, hr]

/-- A double that is a number is that of its sign and rank. -/
theorem ofRank_rank {x : Float} (h : rank x ≤ infinityRank) : ofRank (isNegative x) (rank x) = x :=
  eq_of_rank_eq (isNegative_ofRank _ h) (rank_ofRank _ h)

/-- There is one double that is no number. -/
theorem eq_notANumber_of_lt_rank {x : Float} (h : infinityRank < rank x) : x = notANumber := by
  have hn : @isNaNBits Format.binary64 x.toBits.toBitVec = true := by
    rw [isNaNBits_iff]
    exact h
  have hm : @isNaNBits Format.binary64
      (UInt64.ofNat (infinityRank + binade / 2)).toBitVec = true := by decide
  rw [← Float.ofBits_toBits x]
  show Float.ofModel (Float.Model.pack (unpack Format.binary64 _)) =
    Float.ofModel (Float.Model.pack (unpack Format.binary64 _))
  congr 1
  unfold Float.Model.pack
  congr 2
  rw [pack_unpack, hn]
  show _ = pack Format.binary64 (unpack Format.binary64
    (UInt64.ofNat (infinityRank + binade / 2)).toBitVec)
  rw [pack_unpack, hm]
  simp

/-! ## Negation -/

/-- Setting the sign bit of a pattern that has none negates what it stands for. -/
theorem unpack_signWeight_add {k : Nat} (h : k < signWeight) :
    unpack Format.binary64 (UInt64.ofNat (signWeight + k)).toBitVec =
      (unpack Format.binary64 (UInt64.ofNat k).toBitVec).neg := by
  have hn : (UInt64.ofNat (signWeight + k)).toNat = signWeight + k := toNat_ofRank_bits true h
  have hp : (UInt64.ofNat k).toNat = k := toNat_ofRank_bits false h
  have hm : @unpackMantissa Format.binary64 (UInt64.ofNat (signWeight + k)).toBitVec =
      @unpackMantissa Format.binary64 (UInt64.ofNat k).toBitVec := by
    rw [← BitVec.toNat_inj, toNat_unpackMantissa, toNat_unpackMantissa, hn, hp]
    unfold signWeight binade
    omega
  have he : @unpackExponent Format.binary64 (UInt64.ofNat (signWeight + k)).toBitVec =
      @unpackExponent Format.binary64 (UInt64.ofNat k).toBitVec := by
    rw [← BitVec.toNat_inj, toNat_unpackExponent, toNat_unpackExponent, hn, hp]
    unfold signWeight binade
    omega
  have hsn : @unpackSign Format.binary64 (UInt64.ofNat (signWeight + k)).toBitVec = 1#1 := by
    rw [← BitVec.toNat_inj, toNat_unpackSign, hn]
    unfold signWeight at *
    simp only [BitVec.toNat_ofNat]
    omega
  have hsp : @unpackSign Format.binary64 (UInt64.ofNat k).toBitVec = 0#1 := by
    rw [← BitVec.toNat_inj, toNat_unpackSign, hp]
    unfold signWeight at *
    simp only [BitVec.toNat_ofNat]
    omega
  unfold unpack
  simp only [hm, he, hsn, hsp]
  split
  · split <;> rfl
  · split
    · split <;> rfl
    · rfl

/-- Negating twice changes nothing. -/
theorem neg_neg_unpacked (x : Float.Model.UnpackedFloat) : x.neg.neg = x := by
  cases x with
  | notANumber => rfl
  | infinity s => cases s <;> rfl
  | zero s => cases s <;> rfl
  | finite s => cases s <;> rfl

/-- Negation of a pattern that is a number negates what the pattern stands for. -/
theorem neg_ofBits {b : UInt64} (h : b.toNat % signWeight ≤ infinityRank) :
    -Float.ofBits b =
      Float.ofModel (Float.Model.pack (unpack Format.binary64 b.toBitVec).neg) := by
  show Float.ofModel (Float.Model.pack
    (unpack Format.binary64 (Float.ofBits b).toBits.toBitVec).neg) = _
  rw [toBits_ofBits h]

/-- Negation changes the sign. -/
theorem neg_ofRank (negative : Bool) {k : Nat} (h : k ≤ infinityRank) :
    -ofRank negative k = ofRank (!negative) k := by
  have hk := Nat.lt_of_le_of_lt h infinityRank_lt
  have hu := unpack_signWeight_add hk
  cases negative
  · show -Float.ofBits (UInt64.ofNat k) = Float.ofModel (Float.Model.pack
      (unpack Format.binary64 (UInt64.ofNat (signWeight + k)).toBitVec))
    rw [neg_ofBits, hu]
    have hb := toNat_ofRank_bits false hk
    simp only [Bool.false_eq_true, if_false] at hb
    rwa [hb, Nat.mod_eq_of_lt hk]
  · show -Float.ofBits (UInt64.ofNat (signWeight + k)) = Float.ofModel (Float.Model.pack
      (unpack Format.binary64 (UInt64.ofNat k).toBitVec))
    rw [neg_ofBits, hu, neg_neg_unpacked]
    have hb := toNat_ofRank_bits true hk
    simp only [if_true] at hb
    rwa [hb, Nat.add_mod_left, Nat.mod_eq_of_lt hk]

end Calculator.Double
