import FieldRules.Binary64
import Mathlib.Tactic.Ring

/-!
Rounding to the nearest float. A number between the middles to both neighbours of a float, or on one
of them if the float's significand is even, is rounded to that float.
-/

namespace FieldRules

namespace Binary64

theorem lt_of_isFinite {x : Binary64} (finite : x.isFinite = true) :
    x.magnitude < infinityMagnitude :=
  of_decide_eq_true finite

theorem ofMagnitude_magnitude (x : Binary64) : ofMagnitude x.isNegative x.magnitude = x := by
  have bound := x.bits.toNat_lt
  have same : (ofMagnitude x.isNegative x.magnitude).bits = x.bits := by
    apply UInt64.toNat_inj.mp
    rw [ofMagnitude, UInt64.toNat_ofNat', magnitude]
    by_cases negative : signBit ≤ x.bits.toNat
    · rw [if_pos (by simp [isNegative, negative])]
      simp only [signBit] at negative ⊢
      omega
    · rw [if_neg (by simp [isNegative, negative])]
      simp only [signBit] at negative ⊢
      omega
  cases x
  exact congrArg mk same

theorem significand_of_lt {x : Binary64} (small : x.magnitude < hiddenBit) :
    x.significand = x.magnitude :=
  if_pos small

theorem significand_of_ge {x : Binary64} (large : hiddenBit ≤ x.magnitude) :
    x.significand = hiddenBit + x.magnitude % hiddenBit :=
  if_neg (Nat.not_lt.mpr large)

theorem magnitude_eq (x : Binary64) : x.magnitude = x.scale * hiddenBit + x.significand := by
  rcases Nat.lt_or_ge x.magnitude hiddenBit with small | large
  · rw [significand_of_lt small, scale, Nat.div_eq_of_lt small]
    omega
  · rw [significand_of_ge large, scale]
    simp only [hiddenBit] at large ⊢
    omega

theorem significand_lt (x : Binary64) : x.significand < 2 * hiddenBit := by
  rcases Nat.lt_or_ge x.magnitude hiddenBit with small | large
  · rw [significand_of_lt small]
    omega
  · rw [significand_of_ge large]
    simp only [hiddenBit]
    omega

theorem hiddenBit_le_significand {x : Binary64} (positive : 0 < x.scale) :
    hiddenBit ≤ x.significand := by
  rcases Nat.lt_or_ge x.magnitude hiddenBit with small | large
  · rw [scale, Nat.div_eq_of_lt small] at positive
    exact absurd positive (by decide)
  · rw [significand_of_ge large]
    exact Nat.le_add_right _ _

theorem scale_le {x : Binary64} (finite : x.isFinite = true) : x.scale ≤ 2045 := by
  have bound := lt_of_isFinite finite
  simp only [infinityMagnitude] at bound
  simp only [scale, hiddenBit]
  omega

theorem significand_pos {x : Binary64} (nonzero : x.isZero = false) : 0 < x.significand := by
  have positive : x.magnitude ≠ 0 := of_decide_eq_false nonzero
  rcases Nat.lt_or_ge x.magnitude hiddenBit with small | large
  · rw [significand_of_lt small]
    exact Nat.pos_of_ne_zero positive
  · rw [significand_of_ge large]
    exact Nat.add_pos_left (by decide) _

theorem nearest_eq {numerator denominator whole : Nat} (positive : 0 < denominator)
    (low : 2 * (whole * denominator) ≤ 2 * numerator + denominator)
    (high : 2 * numerator ≤ 2 * (whole * denominator) + denominator)
    (odd : whole % 2 = 1 → 2 * (whole * denominator) < 2 * numerator + denominator ∧
      2 * numerator < 2 * (whole * denominator) + denominator) :
    nearest numerator denominator = whole := by
  have split := Nat.div_add_mod' numerator denominator
  have remainder := Nat.mod_lt numerator positive
  simp only [nearest]
  generalize numerator / denominator = quotient at split ⊢
  generalize numerator % denominator = excess at split remainder ⊢
  subst split
  -- The quotient is the number sought or one less, whichever side it was rounded from.
  have upper : whole ≤ quotient + 1 := by
    by_contra beyond
    have far : (quotient + 2) * denominator ≤ whole * denominator :=
      Nat.mul_le_mul_right denominator (by omega)
    rw [Nat.add_mul] at far
    omega
  have lower : quotient ≤ whole := by
    by_contra beyond
    have far : (whole + 1) * denominator ≤ quotient * denominator :=
      Nat.mul_le_mul_right denominator (by omega)
    rw [Nat.succ_mul] at far
    omega
  rcases Nat.lt_or_eq_of_le lower with less | same
  · obtain rfl : whole = quotient + 1 := by omega
    rw [Nat.add_one_mul quotient] at low odd
    have half : denominator ≤ 2 * excess := by omega
    have strict : (quotient + 1) % 2 = 1 → denominator < 2 * excess := by
      intro isOdd
      have bounds := (odd isOdd).1
      omega
    split
    · omega
    · split <;> omega
  · subst same
    have half : 2 * excess ≤ denominator := by omega
    have strict : quotient % 2 = 1 → 2 * excess < denominator := by
      intro isOdd
      have bounds := (odd isOdd).2
      omega
    split
    · rfl
    · split <;> omega

theorem twoTo_add (first second : Nat) : twoTo (first + second) = twoTo first * twoTo second :=
  Nat.pow_add 2 first second

theorem hiddenBit_eq : hiddenBit = twoTo 52 := rfl

/-- The ratio lies between the middles to both neighbours of the float, and if it is one of them the
significand is even. -/
structure Covers (x : Binary64) (numerator denominator : Nat) : Prop where
  low : (4 * x.units - x.gapBelow) * denominator ≤ numerator * twoTo 1076
  high : numerator * twoTo 1076 ≤ (4 * x.units + x.gapAbove) * denominator
  odd : x.significand % 2 = 1 →
    (4 * x.units - x.gapBelow) * denominator < numerator * twoTo 1076 ∧
      numerator * twoTo 1076 < (4 * x.units + x.gapAbove) * denominator

theorem log2_div_eq {numerator denominator exponent : Nat} (positive : 0 < denominator)
    (lower : twoTo exponent * denominator ≤ numerator)
    (upper : numerator < 2 * twoTo exponent * denominator) :
    (numerator / denominator).log2 = exponent := by
  have least : 2 ^ exponent ≤ numerator / denominator :=
    (Nat.le_div_iff_mul_le positive).mpr lower
  have nonzero : numerator / denominator ≠ 0 :=
    Nat.pos_iff_ne_zero.mp (Nat.lt_of_lt_of_le (Nat.two_pow_pos exponent) least)
  refine (Nat.log2_eq_iff nonzero).mpr ⟨least, ?_⟩
  rw [Nat.div_lt_iff_lt_mul positive, Nat.pow_succ, Nat.mul_comm _ 2]
  exact upper

theorem ofRatio_of_scale {x : Binary64} {numerator denominator scale whole : Nat}
    (finite : x.isFinite = true)
    (scaled : (numerator * twoTo 1074 / denominator).log2 - 52 = scale)
    (rounded : nearest (numerator * twoTo 1074) (denominator * twoTo scale) = whole)
    (same : scale * hiddenBit + whole = x.magnitude) (negative : Bool) :
    ofRatio negative numerator denominator = ofMagnitude negative x.magnitude := by
  rw [ofRatio]
  simp only [scaled, rounded, same]
  rw [Nat.min_eq_left (Nat.le_of_lt (lt_of_isFinite finite))]

theorem quarters_eq (numerator : Nat) :
    numerator * twoTo 1076 = 4 * (numerator * twoTo 1074) := by
  rw [twoTo_succ 1075, twoTo_succ 1074]
  ring

theorem Covers.upper {x : Binary64} {numerator denominator : Nat}
    (covers : x.Covers numerator denominator) :
    2 * (numerator * twoTo 1074) ≤
        2 * (x.significand * (denominator * twoTo x.scale)) + denominator * twoTo x.scale ∧
      (x.significand % 2 = 1 → 2 * (numerator * twoTo 1074) <
        2 * (x.significand * (denominator * twoTo x.scale)) + denominator * twoTo x.scale) := by
  have above : (4 * x.units + x.gapAbove) * denominator =
      4 * (x.significand * (denominator * twoTo x.scale)) + 2 * (denominator * twoTo x.scale) := by
    rw [units, gapAbove]
    ring
  have high := covers.high
  rw [quarters_eq, above] at high
  constructor
  · omega
  · intro isOdd
    have strict := (covers.odd isOdd).2
    rw [quarters_eq, above] at strict
    omega

theorem Covers.lower {x : Binary64} {numerator denominator : Nat}
    (covers : x.Covers numerator denominator) :
    ∃ below, 4 * (x.significand * (denominator * twoTo x.scale)) ≤
        4 * (numerator * twoTo 1074) + below ∧
      (x.significand % 2 = 1 → 4 * (x.significand * (denominator * twoTo x.scale)) <
        4 * (numerator * twoTo 1074) + below) ∧
      (below = 2 * (denominator * twoTo x.scale) ∧ ¬(x.significand = hiddenBit ∧ 0 < x.scale) ∨
        below = denominator * twoTo x.scale ∧ x.significand = hiddenBit) := by
  have below : (4 * x.units - x.gapBelow) * denominator =
      4 * (x.significand * (denominator * twoTo x.scale)) - denominator * x.gapBelow := by
    rw [Nat.sub_mul, units]
    congr 1 <;> ring
  have low := covers.low
  rw [quarters_eq, below] at low
  refine ⟨denominator * x.gapBelow, by omega, ?_, ?_⟩
  · intro isOdd
    have strict := (covers.odd isOdd).1
    rw [quarters_eq, below] at strict
    omega
  · rw [gapBelow]
    by_cases boundary : x.significand = hiddenBit ∧ 0 < x.scale
    · rw [if_pos boundary]
      exact Or.inr ⟨rfl, boundary.1⟩
    · rw [if_neg boundary]
      exact Or.inl ⟨by ring, boundary⟩

theorem Covers.nearest_eq {x : Binary64} {numerator denominator : Nat} (positive : 0 < denominator)
    (covers : x.Covers numerator denominator) :
    nearest (numerator * twoTo 1074) (denominator * twoTo x.scale) = x.significand := by
  obtain ⟨high, highOdd⟩ := covers.upper
  obtain ⟨below, low, lowOdd, gap⟩ := covers.lower
  apply Binary64.nearest_eq (Nat.mul_pos positive (twoTo_pos x.scale)) ?_ high ?_
  · omega
  · intro isOdd
    refine ⟨?_, highOdd isOdd⟩
    rcases gap with ⟨whole, _⟩ | ⟨_, boundary⟩
    · have strict := lowOdd isOdd
      omega
    · rw [boundary] at isOdd
      exact absurd isOdd (by decide)

theorem Covers.lt_binade {x : Binary64} {numerator denominator : Nat} (positive : 0 < denominator)
    (covers : x.Covers numerator denominator) :
    numerator * twoTo 1074 < 2 * (hiddenBit * (denominator * twoTo x.scale)) := by
  have high := covers.upper.1
  have stepPositive : 0 < denominator * twoTo x.scale := Nat.mul_pos positive (twoTo_pos x.scale)
  have bound := Nat.mul_le_mul_right (denominator * twoTo x.scale)
    (Nat.succ_le_of_lt x.significand_lt)
  rw [Nat.succ_mul, Nat.mul_assoc 2] at bound
  omega

/-- A ratio below the scale of a float that it rounds to lies just below a power of two. It is rounded
on the finer grid of the scale before, up to that power. -/
theorem Covers.finer {x : Binary64} {numerator denominator : Nat}
    (covers : x.Covers numerator denominator) (scaled : 0 < x.scale)
    (under : numerator * twoTo 1074 < hiddenBit * (denominator * twoTo x.scale)) :
    x.significand = hiddenBit ∧ 4 * (hiddenBit * (denominator * twoTo x.scale)) ≤
      4 * (numerator * twoTo 1074) + denominator * twoTo x.scale := by
  obtain ⟨below, low, _, gap⟩ := covers.lower
  rcases gap with ⟨whole, notBoundary⟩ | ⟨half, boundary⟩
  · -- The float would be above the least of its scale, and then the ratio is not under that.
    have atLeast := hiddenBit_le_significand scaled
    have more : hiddenBit + 1 ≤ x.significand := by
      have other : x.significand ≠ hiddenBit := fun same => notBoundary ⟨same, scaled⟩
      omega
    have bound := Nat.mul_le_mul_right (denominator * twoTo x.scale) more
    rw [Nat.succ_mul] at bound
    omega
  · rw [boundary] at low
    exact ⟨boundary, by omega⟩

theorem binade_eq (scale denominator : Nat) :
    twoTo (52 + scale) * denominator = hiddenBit * (denominator * twoTo scale) := by
  rw [twoTo_add, hiddenBit_eq]
  ring

theorem ofRatio_of_within {x : Binary64} (finite : x.isFinite = true) {numerator denominator : Nat}
    (positive : 0 < denominator) (covers : x.Covers numerator denominator) (negative : Bool)
    (within : hiddenBit * (denominator * twoTo x.scale) ≤ numerator * twoTo 1074) :
    ofRatio negative numerator denominator = ofMagnitude negative x.magnitude := by
  have scale : (numerator * twoTo 1074 / denominator).log2 = 52 + x.scale := by
    apply log2_div_eq positive
    · rw [binade_eq]
      exact within
    · rw [Nat.mul_assoc, binade_eq]
      exact covers.lt_binade positive
  apply ofRatio_of_scale finite _ (covers.nearest_eq positive) x.magnitude_eq.symm
  omega

theorem ofRatio_of_flat {x : Binary64} (finite : x.isFinite = true) {numerator denominator : Nat}
    (positive : 0 < denominator) (covers : x.Covers numerator denominator) (negative : Bool)
    (under : numerator * twoTo 1074 < hiddenBit * (denominator * twoTo x.scale))
    (flat : x.scale = 0) :
    ofRatio negative numerator denominator = ofMagnitude negative x.magnitude := by
  apply ofRatio_of_scale finite _ (covers.nearest_eq positive) x.magnitude_eq.symm
  rw [← binade_eq, flat] at under
  rw [flat]
  rcases Nat.eq_zero_or_pos (numerator * twoTo 1074 / denominator) with zero | some
  · rw [zero, Nat.log2_zero]
  · have small := (Nat.log2_lt (Nat.pos_iff_ne_zero.mp some)).mpr
      ((Nat.div_lt_iff_lt_mul positive).mpr under)
    omega

theorem ofRatio_of_carry {x : Binary64} (finite : x.isFinite = true) {numerator denominator : Nat}
    (positive : 0 < denominator) (covers : x.Covers numerator denominator) (negative : Bool)
    (under : numerator * twoTo 1074 < hiddenBit * (denominator * twoTo x.scale))
    (scaled : 0 < x.scale) :
    ofRatio negative numerator denominator = ofMagnitude negative x.magnitude := by
  obtain ⟨boundary, close⟩ := covers.finer scaled under
  obtain ⟨before, same⟩ := Nat.exists_eq_add_one_of_ne_zero (Nat.pos_iff_ne_zero.mp scaled)
  have halves : denominator * twoTo x.scale = 2 * (denominator * twoTo before) := by
    rw [same, twoTo_succ]
    ring
  have halfPositive : 0 < denominator * twoTo before := Nat.mul_pos positive (twoTo_pos before)
  rw [halves] at under close
  simp only [hiddenBit] at under close
  have scale : (numerator * twoTo 1074 / denominator).log2 = 52 + before := by
    apply log2_div_eq positive
    · rw [binade_eq]
      simp only [hiddenBit]
      omega
    · rw [Nat.mul_assoc, binade_eq]
      simp only [hiddenBit]
      omega
  have carried : nearest (numerator * twoTo 1074) (denominator * twoTo before) = 2 * hiddenBit := by
    apply nearest_eq halfPositive
    · simp only [hiddenBit]
      omega
    · simp only [hiddenBit]
      omega
    · intro isOdd
      exact absurd isOdd (by decide)
  have magnitude := x.magnitude_eq
  rw [same, boundary, Nat.succ_mul] at magnitude
  apply ofRatio_of_scale finite _ carried _
  · omega
  · omega

theorem ofRatio_of_covers {x : Binary64} (finite : x.isFinite = true) {numerator denominator : Nat}
    (positive : 0 < denominator) (covers : x.Covers numerator denominator) (negative : Bool) :
    ofRatio negative numerator denominator = ofMagnitude negative x.magnitude := by
  rcases Nat.lt_or_ge (numerator * twoTo 1074) (hiddenBit * (denominator * twoTo x.scale)) with
    under | within
  · rcases Nat.eq_zero_or_pos x.scale with flat | scaled
    · exact ofRatio_of_flat finite positive covers negative under flat
    · exact ofRatio_of_carry finite positive covers negative under scaled
  · exact ofRatio_of_within finite positive covers negative within

end Binary64

end FieldRules
