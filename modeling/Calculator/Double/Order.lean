import Calculator.Double.Lemmas

/-!
# Doubles in order

The comparisons of doubles are those of their ranks. What is compared are signs, exponents and significands,
as the patterns give them; the rank of a positive double is its exponent and its significand in one number.

**Results.**
* `isFinite_iff`, `isInf_iff`, `isNaN_iff`: the kinds of doubles are told by rank.
* `abs_eq`: the absolute value has the rank and no sign.
* `lt_iff`, `le_iff`, `beq_iff`: the doubles that are numbers are ordered as they are on the line.
* `beq_zero_iff`, `lt_zero_iff`, `zero_lt_iff`: zeros, and doubles below and above them.
-/
namespace Calculator.Double

open Float.Model (Format)
open Float.Model.UnpackedFloat

/-! ## What a rank stands for -/

/-- The exponent of the finite doubles of rank `k`, that of the smallest being zero. -/
def exponent (k : Nat) : Nat := k / binade - 1

/-- The significand of the finite doubles of rank `k`. -/
def significand (k : Nat) : Nat := k - exponent k * binade

theorem significand_pos {k : Nat} (h : 0 < k) : 0 < significand k := by
  unfold significand exponent binade
  omega

/-- The doubles below the first binade are those without the leading bit. -/
theorem significand_of_lt {k : Nat} (h : k < binade) : significand k = k ∧ exponent k = 0 := by
  unfold significand exponent binade at *
  omega

/-- From the first binade on the leading bit is added. -/
theorem significand_of_le {k : Nat} (h : binade ≤ k) :
    significand k = binade + k % binade ∧ exponent k + 1 = k / binade := by
  unfold significand exponent binade at *
  omega

/-- What the pattern of a rank without a sign stands for. -/
def magnitude (k : Nat) : Float.Model.UnpackedFloat :=
  unpack Format.binary64 (UInt64.ofNat k).toBitVec

theorem magnitude_zero : magnitude 0 = .zero .positive := rfl

theorem magnitude_infinityRank : magnitude infinityRank = .infinity .positive := rfl

theorem finite_congr {sign : Sign} {m m' : Nat} {e e' : Int} {h : 0 < m} {h' : 0 < m'} (hm : m = m')
    (he : e = e') : finite sign m e h = finite sign m' e' h' := by
  subst hm he
  rfl

/-- The fields of the pattern of a rank without a sign. -/
theorem fields_of_lt {k : Nat} (hk : k < infinityRank) :
    (@unpackMantissa Format.binary64 (UInt64.ofNat k).toBitVec).toNat = k % binade ∧
      (@unpackExponent Format.binary64 (UInt64.ofNat k).toBitVec).toNat = k / binade ∧
      @unpackSign Format.binary64 (UInt64.ofNat k).toBitVec = 0#1 := by
  have hlt := hk.trans infinityRank_lt
  have hb : (UInt64.ofNat k).toNat = k := toNat_ofRank_bits false hlt
  have hquotient : k / binade < 2047 := (Nat.div_lt_iff_lt_mul (by decide)).mpr hk
  refine ⟨?_, ?_, ?_⟩
  · rw [toNat_unpackMantissa, hb]
  · rw [toNat_unpackExponent, hb, Nat.mod_eq_of_lt (by omega)]
  · rw [← BitVec.toNat_inj, toNat_unpackSign, hb, Nat.div_eq_of_lt hlt]
    rfl

/-- In between, a rank stands for its significand, scaled by its exponent. -/
theorem magnitude_eq_finite {k : Nat} (hpos : 0 < k) (hk : k < infinityRank) :
    magnitude k = .finite .positive (significand k) ((exponent k : Int) - 1074) (significand_pos hpos) := by
  obtain ⟨hm, he, hsign⟩ := fields_of_lt hk
  have hordinary : @unpackExponent Format.binary64 (UInt64.ofNat k).toBitVec ≠ -1#11 := by
    have hquotient : k / binade < 2047 := (Nat.div_lt_iff_lt_mul (by decide)).mpr hk
    rw [ne_eq, ← BitVec.toNat_inj, he]
    simp only [BitVec.toNat_neg, BitVec.toNat_ofNat]
    omega
  unfold magnitude unpack
  simp only [hsign, hordinary, if_false]
  by_cases hsub : k < binade
  · obtain ⟨hsignificand, hexponent⟩ := significand_of_lt hsub
    have hzero : @unpackExponent Format.binary64 (UInt64.ofNat k).toBitVec = 0#11 := by
      rw [← BitVec.toNat_inj, he, Nat.div_eq_of_lt hsub]
      rfl
    have hsome : @unpackMantissa Format.binary64 (UInt64.ofNat k).toBitVec ≠ 0#52 := by
      rw [ne_eq, ← BitVec.toNat_inj, hm, Nat.mod_eq_of_lt hsub]
      exact hpos.ne'
    rw [if_pos hzero, dif_neg hsome]
    refine finite_congr ?_ ?_
    · rw [hm, hsignificand, Nat.mod_eq_of_lt hsub]
    · rw [hzero, hexponent]
      rfl
  · obtain ⟨hsignificand, hexponent⟩ := significand_of_le (Nat.le_of_not_lt hsub)
    have hne : @unpackExponent Format.binary64 (UInt64.ofNat k).toBitVec ≠ 0#11 := by
      rw [ne_eq, ← BitVec.toNat_inj, he, ← hexponent]
      exact Nat.succ_ne_zero _
    rw [if_neg hne]
    refine finite_congr ?_ ?_
    · have hlt : k % binade < 2 ^ 52 := Nat.mod_lt k (by decide)
      rw [BitVec.toNat_append, hm, hsignificand, ← Nat.shiftLeft_add_eq_or_of_lt hlt]
      rfl
    · rw [he, ← hexponent]
      show ((exponent k + 1 : Nat) : Int) - ((1023 : Nat) + (52 : Nat)) = (exponent k : Int) - 1074
      omega

/-! ## What a double stands for -/

/-- A double stands for what its rank does, negated if it has a sign. -/
theorem unpack_ofRank (negative : Bool) {k : Nat} (hk : k ≤ infinityRank) :
    (ofRank negative k).toModel.unpack = if negative then (magnitude k).neg else magnitude k := by
  have hlt := Nat.lt_of_le_of_lt hk infinityRank_lt
  have hbits : (ofRank negative k).toBits = UInt64.ofNat (if negative then signWeight + k else k) := by
    rw [← UInt64.toNat_inj, toBits_ofRank negative hk, toNat_ofRank_bits negative hlt]
  have hunpack : (ofRank negative k).toModel.unpack =
      unpack Format.binary64 (ofRank negative k).toBits.toBitVec := rfl
  rw [hunpack, hbits]
  cases negative with
  | false => rfl
  | true => exact unpack_signWeight_add hlt

theorem unpack_eq {x : Float} (h : rank x ≤ infinityRank) :
    x.toModel.unpack = if isNegative x then (magnitude (rank x)).neg else magnitude (rank x) := by
  rw [← unpack_ofRank (isNegative x) h, ofRank_rank h]

/-- What a rank up to that of infinity stands for is zero, finite and positive, or infinite. -/
theorem magnitude_cases {k : Nat} (hk : k ≤ infinityRank) :
    k = 0 ∧ magnitude k = .zero .positive ∨
      (∃ hpos : 0 < k, k < infinityRank ∧ magnitude k =
        .finite .positive (significand k) ((exponent k : Int) - 1074) (significand_pos hpos)) ∨
      k = infinityRank ∧ magnitude k = .infinity .positive := by
  rcases hk.lt_or_eq with hlt | rfl
  · rcases Nat.eq_zero_or_pos k with rfl | hpos
    · exact .inl ⟨rfl, magnitude_zero⟩
    · exact .inr (.inl ⟨hpos, hlt, magnitude_eq_finite hpos hlt⟩)
  · exact .inr (.inr ⟨rfl, magnitude_infinityRank⟩)

/-- What is the same for both signs is told by the rank. -/
theorem eq_of_forall_neg {α : Type} {f : Float.Model.UnpackedFloat → α} (hf : ∀ u, f u.neg = f u)
    (x : Float) :
    f x.toModel.unpack = if infinityRank < rank x then f .notANumber else f (magnitude (rank x)) := by
  split
  · next hnan =>
    rw [eq_notANumber_of_lt_rank hnan]
    rfl
  · next hnumber =>
    rw [unpack_eq (Nat.le_of_not_lt hnumber)]
    cases isNegative x with
    | false => rfl
    | true => exact hf _

theorem isFinite_neg (u : Float.Model.UnpackedFloat) : u.neg.isFinite = u.isFinite := by
  cases u <;> rfl

theorem isInf_neg (u : Float.Model.UnpackedFloat) : u.neg.isInf = u.isInf := by
  cases u <;> rfl

theorem isNaN_neg (u : Float.Model.UnpackedFloat) : u.neg.isNaN = u.isNaN := by
  cases u <;> rfl

theorem abs_neg (u : Float.Model.UnpackedFloat) : u.neg.abs = u.abs := by
  cases u <;> rfl

/-! ## Finite, infinite and absolute -/

/-- The finite doubles are those of a rank below that of infinity. -/
theorem isFinite_iff (x : Float) : x.isFinite = true ↔ rank x < infinityRank := by
  show x.toModel.unpack.isFinite = true ↔ _
  rw [eq_of_forall_neg isFinite_neg]
  split
  · next hnan => exact ⟨nofun, fun h => absurd (h.trans hnan) (Nat.lt_irrefl _)⟩
  · next hnumber =>
    rcases magnitude_cases (Nat.le_of_not_lt hnumber) with ⟨hk, h⟩ | ⟨_, hk, h⟩ | ⟨hk, h⟩
    · rw [h, hk]
      exact ⟨fun _ => by decide, fun _ => rfl⟩
    · rw [h]
      exact ⟨fun _ => hk, fun _ => rfl⟩
    · rw [h, hk]
      exact ⟨nofun, fun h => absurd h (Nat.lt_irrefl _)⟩

/-- The infinite doubles are those of the rank of infinity. -/
theorem isInf_iff (x : Float) : x.isInf = true ↔ rank x = infinityRank := by
  show x.toModel.unpack.isInf = true ↔ _
  rw [eq_of_forall_neg isInf_neg]
  split
  · next hnan => exact ⟨nofun, fun h => absurd h hnan.ne'⟩
  · next hnumber =>
    rcases magnitude_cases (Nat.le_of_not_lt hnumber) with ⟨hk, h⟩ | ⟨_, hk, h⟩ | ⟨hk, h⟩
    · rw [h, hk]
      exact ⟨nofun, fun h => absurd h (by decide)⟩
    · rw [h]
      exact ⟨nofun, fun h => absurd h hk.ne⟩
    · rw [h, hk]
      exact ⟨fun _ => rfl, fun _ => rfl⟩

/-- The double that is no number is that of the ranks above that of infinity. -/
theorem isNaN_iff (x : Float) : x.isNaN = true ↔ infinityRank < rank x := by
  show x.toModel.unpack.isNaN = true ↔ _
  rw [eq_of_forall_neg isNaN_neg]
  split
  · next hnan => exact ⟨fun _ => hnan, fun _ => rfl⟩
  · next hnumber =>
    refine ⟨fun h => ?_, fun h => absurd h hnumber⟩
    rcases magnitude_cases (Nat.le_of_not_lt hnumber) with ⟨-, hu⟩ | ⟨_, -, hu⟩ | ⟨-, hu⟩ <;>
      rw [hu] at h <;> cases h

/-- The absolute value has the rank and no sign. -/
theorem abs_eq {x : Float} (h : rank x ≤ infinityRank) : x.abs = ofRank false (rank x) := by
  have habs : (magnitude (rank x)).abs = magnitude (rank x) := by
    rcases magnitude_cases h with ⟨-, h⟩ | ⟨_, -, h⟩ | ⟨-, h⟩ <;> rw [h] <;> rfl
  have hunpack : x.toModel.unpack.abs = magnitude (rank x) := by
    rw [eq_of_forall_neg abs_neg, if_neg (Nat.not_lt.mpr h), habs]
  show Float.ofModel (Float.Model.pack x.toModel.unpack.abs) = _
  rw [hunpack]
  rfl

/-- The absolute value of what is no number is none. -/
theorem abs_of_isNaN {x : Float} (h : infinityRank < rank x) : x.abs = x := by
  rw [eq_notANumber_of_lt_rank h]
  rfl

theorem rank_abs (x : Float) : rank x.abs = rank x := by
  rcases Nat.lt_or_ge infinityRank (rank x) with hnan | hnumber
  · rw [abs_of_isNaN hnan]
  · rw [abs_eq hnumber, rank_ofRank false hnumber]

/-! ## Comparisons -/

/-- Where a double that is a number is on the line, the zeros being in the middle. -/
def position (x : Float) : Int := if isNegative x then -(rank x : Int) else rank x

/-- Exponents, and significands behind them, are ordered as the ranks are. -/
theorem exponent_lt_or_eq {j k : Nat} (h : j < k) :
    exponent j < exponent k ∨ exponent j = exponent k ∧ significand j < significand k := by
  unfold significand exponent binade
  omega

theorem compare_rank (j k : Nat) :
    (compare ((exponent j : Int) - 1074) ((exponent k : Int) - 1074)).then
      (compare (significand j) (significand k)) = compare j k := by
  have hlt : ∀ {j k : Nat}, j < k → (compare ((exponent j : Int) - 1074) ((exponent k : Int) - 1074)).then
      (compare (significand j) (significand k)) = .lt := by
    intro j k h
    rw [Ordering.then_eq_lt, Int.compare_eq_lt, Int.compare_eq_eq, Nat.compare_eq_lt]
    have := exponent_lt_or_eq h
    omega
  have hgt : ∀ {j k : Nat}, k < j → (compare ((exponent j : Int) - 1074) ((exponent k : Int) - 1074)).then
      (compare (significand j) (significand k)) = .gt := by
    intro j k h
    rw [Ordering.then_eq_gt, Int.compare_eq_gt, Int.compare_eq_eq, Nat.compare_eq_gt]
    have := exponent_lt_or_eq h
    omega
  rcases Nat.lt_trichotomy j k with h | rfl | h
  · rw [hlt h, Nat.compare_eq_lt.mpr h]
  · simp
  · rw [hgt h, Nat.compare_eq_gt.mpr h]

theorem compare_magnitude {j k : Nat} (hj : j ≤ infinityRank) (hk : k ≤ infinityRank) :
    (magnitude j).compare (magnitude k) = some (compare j k) := by
  have hlt : ∀ {j k : Nat}, j < k → some (compare j k) = some .lt := fun h =>
    congrArg some (Nat.compare_eq_lt.mpr h)
  have hgt : ∀ {j k : Nat}, k < j → some (compare j k) = some .gt := fun h =>
    congrArg some (Nat.compare_eq_gt.mpr h)
  rcases magnitude_cases hj with ⟨rfl, h⟩ | ⟨hposj, hltj, h⟩ | ⟨rfl, h⟩
  · rcases magnitude_cases hk with ⟨rfl, -⟩ | ⟨hposk, -, h'⟩ | ⟨rfl, h'⟩
    · rfl
    · rw [h, h', hlt hposk]
      rfl
    · rw [h, h', hlt (by decide)]
      rfl
  · rcases magnitude_cases hk with ⟨rfl, h'⟩ | ⟨hposk, -, h'⟩ | ⟨rfl, h'⟩
    · rw [h, h', hgt hposj]
      rfl
    · rw [h, h']
      exact congrArg some (compare_rank j k)
    · rw [h, h', hlt hltj]
      rfl
  · rcases magnitude_cases hk with ⟨rfl, h'⟩ | ⟨hposk, hltk, h'⟩ | ⟨rfl, -⟩
    · rw [h, h', hgt (by decide)]
      rfl
    · rw [h, h', hgt hltk]
      rfl
    · rw [h]
      exact (congrArg some (Nat.compare_eq_eq.mpr rfl)).symm

/-- Below zero everything is the other way round. -/
theorem compare_neg_neg (u v : Float.Model.UnpackedFloat) :
    u.neg.compare v.neg = (u.compare v).map Ordering.swap := by
  cases u with
  | notANumber => rfl
  | infinity s =>
    cases v with
    | infinity s' => cases s <;> cases s' <;> rfl
    | notANumber => rfl
    | zero s' | finite s' => cases s <;> rfl
  | zero s =>
    cases v with
    | infinity s' | finite s' => cases s' <;> rfl
    | notANumber | zero s' => rfl
  | finite s =>
    cases v with
    | infinity s' => cases s' <;> rfl
    | notANumber => rfl
    | zero s' => cases s <;> rfl
    | finite s' =>
      cases s <;> cases s' <;> first | rfl | simp [neg, Float.Model.UnpackedFloat.compare]

/-- What is below zero is below what is above it, while zeros are equal. -/
theorem compare_neg_magnitude {j k : Nat} (hj : j ≤ infinityRank) (hk : k ≤ infinityRank) :
    (magnitude j).neg.compare (magnitude k) = some (compare (-(j : Int)) k) := by
  have hlt : ∀ {j k : Nat}, 0 < j + k → some (compare (-(j : Int)) k) = some .lt := fun h =>
    congrArg some (Int.compare_eq_lt.mpr (by omega))
  rcases magnitude_cases hj with ⟨rfl, h⟩ | ⟨hpos, -, h⟩ | ⟨rfl, h⟩
  · rcases magnitude_cases hk with ⟨rfl, h'⟩ | ⟨hpos, -, h'⟩ | ⟨rfl, h'⟩
    · rfl
    · rw [h, h', hlt (by omega)]
      rfl
    · rw [h, h', hlt (by decide)]
      rfl
  · rw [h, hlt (by omega)]
    rcases magnitude_cases hk with ⟨-, h'⟩ | ⟨_, -, h'⟩ | ⟨-, h'⟩ <;> rw [h'] <;> rfl
  · rw [h, hlt (Nat.lt_add_right k (by decide))]
    rcases magnitude_cases hk with ⟨-, h'⟩ | ⟨_, -, h'⟩ | ⟨-, h'⟩ <;> rw [h'] <;> rfl

/-- Doubles that are numbers are ordered as they are on the line. -/
theorem compare_eq {x y : Float} (hx : rank x ≤ infinityRank) (hy : rank y ≤ infinityRank) :
    x.toModel.unpack.compare y.toModel.unpack = some (compare (position x) (position y)) := by
  have hcast : ∀ j k : Nat, compare (j : Int) k = compare j k := by
    simp [Int.compare_eq_ite_lt, Nat.compare_eq_ite_lt]
  have hneg : ∀ j k : Int, compare (-j) (-k) = (compare j k).swap := fun j k => by
    rw [Int.compare_swap]
    simp [Int.compare_eq_ite_lt]
  rw [unpack_eq hx, unpack_eq hy]
  unfold position
  cases isNegative x <;> cases isNegative y
  · exact (compare_magnitude hx hy).trans (congrArg some (hcast _ _).symm)
  · have h := compare_neg_neg (magnitude (rank x)).neg (magnitude (rank y))
    rw [neg_neg_unpacked, compare_neg_magnitude hx hy, Option.map_some, ← hneg, Int.neg_neg] at h
    exact h
  · exact compare_neg_magnitude hx hy
  · have h := compare_neg_neg (magnitude (rank x)) (magnitude (rank y))
    rw [compare_magnitude hx hy, Option.map_some, ← hcast, ← hneg] at h
    exact h

/-- The double that is no number is not compared to any. -/
theorem compare_eq_none {x y : Float} (h : infinityRank < rank x ∨ infinityRank < rank y) :
    x.toModel.unpack.compare y.toModel.unpack = none := by
  rcases h with h | h
  · rw [eq_notANumber_of_lt_rank h]
    rfl
  · rw [eq_notANumber_of_lt_rank h]
    show x.toModel.unpack.compare .notANumber = none
    cases x.toModel.unpack <;> rfl

/-- What holds of the order of two doubles holds of numbers, on the line. -/
theorem compare_iff {p : Option Ordering → Bool} (hp : p none = false) (x y : Float) :
    p (x.toModel.unpack.compare y.toModel.unpack) = true ↔
      rank x ≤ infinityRank ∧ rank y ≤ infinityRank ∧
        p (some (compare (position x) (position y))) = true := by
  by_cases h : rank x ≤ infinityRank ∧ rank y ≤ infinityRank
  · rw [compare_eq h.1 h.2, and_iff_right h.1, and_iff_right h.2]
  · rw [compare_eq_none (by omega), hp]
    exact ⟨nofun, fun h' => absurd ⟨h'.1, h'.2.1⟩ h⟩

theorem lt_iff (x y : Float) :
    x < y ↔ rank x ≤ infinityRank ∧ rank y ≤ infinityRank ∧ position x < position y := by
  have hlt : x < y ↔ (x.toModel.unpack.compare y.toModel.unpack == some .lt) = true := by
    show decide _ = true ↔ _
    rw [decide_eq_true_iff]
    exact Iff.rfl
  rw [hlt, compare_iff (p := (· == some .lt)) rfl, beq_iff_eq, Option.some_inj, Int.compare_eq_lt]

theorem le_iff (x y : Float) :
    x ≤ y ↔ rank x ≤ infinityRank ∧ rank y ≤ infinityRank ∧ position x ≤ position y := by
  have hle : x ≤ y ↔ (x.toModel.unpack.compare y.toModel.unpack).any (·.isLE) = true := by
    show decide _ = true ↔ _
    rw [decide_eq_true_iff]
    exact Iff.rfl
  rw [hle, compare_iff (p := fun o => o.any (·.isLE)) rfl]
  exact and_congr_right' (and_congr_right' Int.isLE_compare)

theorem beq_iff (x y : Float) :
    (x == y) = true ↔ rank x ≤ infinityRank ∧ rank y ≤ infinityRank ∧ position x = position y := by
  show (x.toModel.unpack.compare y.toModel.unpack == some .eq) = true ↔ _
  rw [compare_iff (p := (· == some .eq)) rfl, beq_iff_eq, Option.some_inj, Int.compare_eq_eq]

/-! ## Signs -/

theorem position_ofRank (negative : Bool) {k : Nat} (h : k ≤ infinityRank) :
    position (ofRank negative k) = if negative then -(k : Int) else k := by
  unfold position
  rw [isNegative_ofRank negative h, rank_ofRank negative h]

theorem position_abs {x : Float} (h : rank x ≤ infinityRank) : position x.abs = rank x := by
  rw [abs_eq h]
  exact position_ofRank false h

/-- Positive doubles are ordered by rank. -/
theorem lt_ofRank_iff {j k : Nat} (hj : j ≤ infinityRank) (hk : k ≤ infinityRank) :
    ofRank false j < ofRank false k ↔ j < k := by
  rw [lt_iff, rank_ofRank false hj, rank_ofRank false hk, position_ofRank false hj,
    position_ofRank false hk, and_iff_right hj, and_iff_right hk]
  exact Int.ofNat_lt

theorem le_ofRank_iff {j k : Nat} (hj : j ≤ infinityRank) (hk : k ≤ infinityRank) :
    ofRank false j ≤ ofRank false k ↔ j ≤ k := by
  rw [le_iff, rank_ofRank false hj, rank_ofRank false hk, position_ofRank false hj,
    position_ofRank false hk, and_iff_right hj, and_iff_right hk]
  exact Int.ofNat_le

/-- Doubles without a sign compare as equal just if they are. -/
theorem beq_ofRank_iff {j k : Nat} (hj : j ≤ infinityRank) (hk : k ≤ infinityRank) :
    (ofRank false j == ofRank false k) = true ↔ ofRank false j = ofRank false k := by
  rw [beq_iff, rank_ofRank false hj, rank_ofRank false hk, position_ofRank false hj,
    position_ofRank false hk, and_iff_right hj, and_iff_right hk]
  constructor
  · intro h
    rw [Int.ofNat_inj.mp h]
  · intro h
    have hrank := congrArg rank h
    rw [rank_ofRank false hj, rank_ofRank false hk] at hrank
    exact congrArg Int.ofNat hrank

theorem rank_zero : rank 0 = 0 := rank_ofRank false (Nat.zero_le _)

theorem position_zero : position 0 = 0 := position_ofRank false (Nat.zero_le _)

/-- The doubles that are zero are those of rank zero. -/
theorem beq_zero_iff (x : Float) : (x == 0) = true ↔ rank x = 0 := by
  have hposition : position x = 0 ↔ rank x = 0 := by
    unfold position
    split <;> omega
  rw [beq_iff, rank_zero, position_zero, hposition]
  exact ⟨fun h => h.2.2, fun h => ⟨h ▸ Nat.zero_le _, Nat.zero_le _, h⟩⟩

/-- The doubles that are zero, or of a size between two others. -/
theorem beq_zero_or_abs_iff {x : Float} {least limit : Nat} (hx : rank x ≤ infinityRank)
    (hleast : least ≤ infinityRank) (hlimit : limit ≤ infinityRank) :
    ((x == 0) = true ∨ ofRank false least ≤ x.abs ∧ x.abs < ofRank false limit) ↔
      rank x = 0 ∨ least ≤ rank x ∧ rank x < limit := by
  rw [beq_zero_iff, abs_eq hx, le_ofRank_iff hleast hx, lt_ofRank_iff hx hlimit]

theorem lt_zero_iff (x : Float) :
    x < 0 ↔ isNegative x = true ∧ 0 < rank x ∧ rank x ≤ infinityRank := by
  have hposition : position x < 0 ↔ isNegative x = true ∧ 0 < rank x := by
    unfold position
    split <;> simp_all
  rw [lt_iff, rank_zero, position_zero, hposition]
  exact ⟨fun h => ⟨h.2.2.1, h.2.2.2, h.1⟩, fun h => ⟨h.2.2, Nat.zero_le _, h.1, h.2.1⟩⟩

theorem zero_lt_iff (x : Float) :
    0 < x ↔ isNegative x = false ∧ 0 < rank x ∧ rank x ≤ infinityRank := by
  have hposition : 0 < position x ↔ isNegative x = false ∧ 0 < rank x := by
    unfold position
    split <;> simp_all
  rw [lt_iff, rank_zero, position_zero, hposition]
  exact ⟨fun h => ⟨h.2.2.1, h.2.2.2, h.2.1⟩, fun h => ⟨Nat.zero_le _, h.2.2, h.1, h.2.1⟩⟩

end Calculator.Double
