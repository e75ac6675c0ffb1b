import FieldRules.Proofs.Binary64.Rounding

/-!
Decimals that round to a float. What counts is the number that a decimal is, not how its digits and its
exponent share it, and the shortest decimal of a float rounds to that float, at whatever length it is
found.
-/

namespace FieldRules

theorem tenTo_zero : tenTo 0 = 1 := rfl

theorem tenTo_add (first second : Nat) : tenTo (first + second) = tenTo first * tenTo second :=
  Nat.pow_add 10 first second

theorem twoTo_le_twoTo {first second : Nat} (ordered : first ≤ second) :
    twoTo first ≤ twoTo second :=
  Nat.pow_le_pow_right (by decide) ordered

theorem tenTo_le_tenTo {first second : Nat} (ordered : first ≤ second) :
    tenTo first ≤ tenTo second :=
  Nat.pow_le_pow_right (by decide) ordered

theorem twoTo_le_tenTo (exponent : Nat) : twoTo exponent ≤ tenTo exponent :=
  Nat.pow_le_pow_left (by decide) exponent

namespace Binary64

theorem Covers.of_ratio_eq {x : Binary64} {numerator denominator numerator' denominator' : Nat}
    (covers : x.Covers numerator denominator) (positive : 0 < denominator)
    (positive' : 0 < denominator')
    (same : numerator * denominator' = numerator' * denominator) :
    x.Covers numerator' denominator' := by
  have moved : numerator * twoTo 1076 * denominator' = numerator' * twoTo 1076 * denominator := by
    calc numerator * twoTo 1076 * denominator'
        = numerator * denominator' * twoTo 1076 := by ring
      _ = numerator' * twoTo 1076 * denominator := by rw [same]; ring
  have le_of_le {bound : Nat} (fits : bound * denominator ≤ numerator * twoTo 1076) :
      bound * denominator' ≤ numerator' * twoTo 1076 := by
    have scaled := Nat.mul_le_mul_right denominator' fits
    rw [moved, Nat.mul_right_comm] at scaled
    exact Nat.le_of_mul_le_mul_right scaled positive
  have ge_of_ge {bound : Nat} (fits : numerator * twoTo 1076 ≤ bound * denominator) :
      numerator' * twoTo 1076 ≤ bound * denominator' := by
    have scaled := Nat.mul_le_mul_right denominator' fits
    rw [moved, Nat.mul_right_comm bound] at scaled
    exact Nat.le_of_mul_le_mul_right scaled positive
  have lt_of_lt {bound : Nat} (fits : bound * denominator < numerator * twoTo 1076) :
      bound * denominator' < numerator' * twoTo 1076 := by
    have scaled := Nat.mul_lt_mul_of_pos_right fits positive'
    rw [moved, Nat.mul_right_comm] at scaled
    exact Nat.lt_of_mul_lt_mul_right scaled
  have gt_of_gt {bound : Nat} (fits : numerator * twoTo 1076 < bound * denominator) :
      numerator' * twoTo 1076 < bound * denominator' := by
    have scaled := Nat.mul_lt_mul_of_pos_right fits positive'
    rw [moved, Nat.mul_right_comm bound] at scaled
    exact Nat.lt_of_mul_lt_mul_right scaled
  exact ⟨le_of_le covers.low, ge_of_ge covers.high,
    fun isOdd => ⟨lt_of_lt (covers.odd isOdd).1, gt_of_gt (covers.odd isOdd).2⟩⟩

def CoversDecimal (x : Binary64) (digits : Nat) (exponent : Int) : Prop :=
  x.Covers (digits * tenTo exponent.toNat) (tenTo (-exponent).toNat)

theorem coversDecimal_mul_tenTo {x : Binary64} {digits zeros : Nat} {exponent : Int} :
    x.CoversDecimal (digits * tenTo zeros) exponent ↔ x.CoversDecimal digits (exponent + zeros) := by
  have exponents : zeros + exponent.toNat + (-(exponent + zeros)).toNat =
      (exponent + zeros).toNat + (-exponent).toNat := by omega
  have same : digits * tenTo zeros * tenTo exponent.toNat * tenTo (-(exponent + zeros)).toNat =
      digits * tenTo (exponent + zeros).toNat * tenTo (-exponent).toNat := by
    calc digits * tenTo zeros * tenTo exponent.toNat * tenTo (-(exponent + zeros)).toNat
        = digits * tenTo (zeros + exponent.toNat + (-(exponent + zeros)).toNat) := by
          rw [tenTo_add, tenTo_add]
          ring
      _ = digits * tenTo (exponent + zeros).toNat * tenTo (-exponent).toNat := by
          rw [exponents, tenTo_add]
          ring
  constructor
  · intro covers
    exact Covers.of_ratio_eq covers (tenTo_pos _) (tenTo_pos _) same
  · intro covers
    exact Covers.of_ratio_eq covers (tenTo_pos _) (tenTo_pos _) same.symm

theorem units_bounds {x : Binary64} (finite : x.isFinite = true) (nonzero : x.isZero = false) :
    2 ≤ 4 * x.units - x.gapBelow ∧ 4 * x.units + x.gapAbove < twoTo 2100 := by
  have unit := twoTo_pos x.scale
  constructor
  · have least := Nat.mul_le_mul_right (twoTo x.scale) (significand_pos nonzero)
    rw [units, gapBelow]
    split <;> omega
  · have most := Nat.mul_le_mul_right (twoTo x.scale) (Nat.succ_le_of_lt x.significand_lt)
    have scaled : twoTo (55 + x.scale) = 8 * hiddenBit * twoTo x.scale := by
      rw [twoTo_add]
      rfl
    have bound : twoTo (55 + x.scale) ≤ twoTo 2100 := by
      have scale := scale_le finite
      exact twoTo_le_twoTo (by omega)
    rw [Nat.succ_mul, Nat.mul_assoc 2] at most
    rw [Nat.mul_assoc 8] at scaled
    rw [units, gapAbove]
    omega

theorem twoTo_le_tenTo_332 : twoTo 1076 ≤ tenTo 332 := by
  decide +kernel

theorem twoTo_le_tenTo_309 : twoTo 1026 ≤ tenTo 309 := by
  decide +kernel

theorem CoversDecimal.exponent_ge {x : Binary64} (finite : x.isFinite = true)
    (nonzero : x.isZero = false) {digits : Nat} {exponent : Int}
    (covers : x.CoversDecimal digits exponent) :
    digits ≠ 0 ∧ -(digits.log2 + 331 : Nat) ≤ exponent := by
  have low := Nat.le_trans (Nat.mul_le_mul_right _ (units_bounds finite nonzero).1) covers.low
  have someDigits : digits ≠ 0 := by
    rintro rfl
    have positive := tenTo_pos (-exponent).toNat
    rw [Nat.zero_mul, Nat.zero_mul] at low
    omega
  refine ⟨someDigits, ?_⟩
  by_contra small
  have noPower : exponent.toNat = 0 := by omega
  have far : tenTo (digits.log2 + 332) ≤ tenTo (-exponent).toNat := tenTo_le_tenTo (by omega)
  have few : digits < twoTo (digits.log2 + 1) := Nat.lt_log2_self
  have bound : twoTo digits.log2 * twoTo 1076 ≤ tenTo (digits.log2 + 332) := by
    rw [tenTo_add]
    exact Nat.mul_le_mul (twoTo_le_tenTo _) twoTo_le_tenTo_332
  have fewer := Nat.mul_lt_mul_of_pos_right few (twoTo_pos 1076)
  rw [twoTo_succ digits.log2, Nat.mul_right_comm] at fewer
  rw [noPower] at low
  rw [tenTo_zero, Nat.mul_one] at low
  omega

theorem CoversDecimal.exponent_lt {x : Binary64} (finite : x.isFinite = true)
    (nonzero : x.isZero = false) {digits : Nat} {exponent : Int}
    (covers : x.CoversDecimal digits exponent) : exponent < 309 := by
  by_contra large
  have noPower : (-exponent).toNat = 0 := by omega
  have someDigits := Nat.pos_of_ne_zero (covers.exponent_ge finite nonzero).1
  have far : tenTo 309 ≤ digits * tenTo exponent.toNat :=
    Nat.le_trans (tenTo_le_tenTo (by omega)) (Nat.le_mul_of_pos_left _ someDigits)
  have high := covers.high
  rw [noPower, tenTo_zero, Nat.mul_one] at high
  have bound : twoTo 2102 ≤ digits * tenTo exponent.toNat * twoTo 1076 := by
    rw [twoTo_add 1026 1076]
    exact Nat.mul_le_mul_right _ (Nat.le_trans twoTo_le_tenTo_309 far)
  have less := (units_bounds finite nonzero).2
  have ordered : twoTo 2100 ≤ twoTo 2102 := twoTo_le_twoTo (by omega)
  omega

theorem ofDecimal_of_covers {x : Binary64} (finite : x.isFinite = true) (nonzero : x.isZero = false)
    {digits : Nat} {exponent : Int} (covers : x.CoversDecimal digits exponent) (negative : Bool) :
    ofDecimal negative digits exponent = ofMagnitude negative x.magnitude := by
  obtain ⟨someDigits, notSmall⟩ := covers.exponent_ge finite nonzero
  have notLarge := covers.exponent_lt finite nonzero
  have rounded := ofRatio_of_covers finite (tenTo_pos _) covers negative
  rw [ofDecimal, if_neg (by omega), if_neg (by omega)]
  by_cases whole : 0 ≤ exponent
  · have noPower : (-exponent).toNat = 0 := by omega
    rw [noPower, tenTo_zero] at rounded
    rw [if_pos whole]
    exact rounded
  · have noPower : exponent.toNat = 0 := by omega
    rw [noPower, tenTo_zero, Nat.mul_one] at rounded
    rw [if_neg whole]
    exact rounded

theorem covers_of_roundsFrom {x : Binary64} {point : Nat} (rounds : x.roundsFrom point = true) :
    x.Covers point (tenTo 343) := by
  rw [roundsFrom] at rounds
  by_cases even : x.significand % 2 = 0
  · simp only [if_pos even, Bool.and_eq_true, decide_eq_true_eq] at rounds
    exact ⟨rounds.1, rounds.2, fun odd => absurd even (by omega)⟩
  · simp only [if_neg even, Bool.and_eq_true, decide_eq_true_eq] at rounds
    exact ⟨Nat.le_of_lt rounds.1, Nat.le_of_lt rounds.2, fun _ => rounds⟩

theorem roundsFrom_of_neighbour? {x : Binary64} {tie : Tie} {step digits : Nat}
    (found : x.neighbour? tie step = some digits) : x.roundsFrom (digits * step) = true := by
  simp only [neighbour?] at found
  split at found
  · exact absurd found (by simp)
  · rename_i below _
    obtain rfl := Option.some.inj found
    exact below
  · rename_i _ above
    obtain rfl := Option.some.inj found
    exact above
  · rename_i below above
    have either {count : Nat} (near : count = x.gridFloor / step ∨ count = x.gridFloor / step + 1) :
        x.roundsFrom (count * step) = true := by
      rcases near with rfl | rfl
      · exact below
      · exact above
    apply either
    split at found
    · exact Or.inl (Option.some.inj found).symm
    · split at found
      · exact Or.inr (Option.some.inj found).symm
      · split at found
        · exact Or.inr (Option.some.inj found).symm
        · have same := Option.some.inj found
          omega

theorem gapBelow_pos (x : Binary64) : 0 < x.gapBelow := by
  have unit := twoTo_pos x.scale
  rw [gapBelow]
  split <;> omega

/-- A step of the fine grid is shorter than the way to the middle between the float and a neighbour. -/
theorem covers_gridFloor {x : Binary64} (finite : x.isFinite = true) (nonzero : x.isZero = false) :
    x.Covers x.gridFloor (tenTo 343) := by
  have split := Nat.div_add_mod (4 * x.units * tenTo 343) (twoTo 1076)
  have rest := Nat.mod_lt (4 * x.units * tenTo 343) (twoTo_pos 1076)
  have fine : twoTo 1076 ≤ tenTo 343 := Nat.le_trans twoTo_le_tenTo_332 (tenTo_le_tenTo (by decide))
  have gap : twoTo 1076 ≤ x.gapBelow * tenTo 343 :=
    Nat.le_trans fine (Nat.le_mul_of_pos_left _ (gapBelow_pos x))
  have positive : 0 < (4 * x.units - x.gapBelow) * tenTo 343 :=
    Nat.mul_pos (Nat.lt_of_lt_of_le (by decide) (units_bounds finite nonzero).1) (tenTo_pos 343)
  have low : (4 * x.units - x.gapBelow) * tenTo 343 < x.gridFloor * twoTo 1076 := by
    rw [gridFloor, Nat.mul_comm (_ / _)]
    rw [Nat.sub_mul] at positive ⊢
    omega
  have high : x.gridFloor * twoTo 1076 < (4 * x.units + x.gapAbove) * tenTo 343 := by
    have above : 0 < x.gapAbove * tenTo 343 :=
      Nat.mul_pos (Nat.mul_pos (by decide) (twoTo_pos x.scale)) (tenTo_pos 343)
    rw [gridFloor, Nat.mul_comm (_ / _), Nat.add_mul]
    omega
  exact ⟨Nat.le_of_lt low, Nat.le_of_lt high, fun _ => ⟨low, high⟩⟩

theorem coversDecimal_of_covers {x : Binary64} {digits zeros size : Nat}
    (covers : x.Covers (digits * tenTo zeros) (tenTo size)) :
    x.CoversDecimal digits ((zeros : Int) - size) := by
  have shifted : x.CoversDecimal (digits * tenTo zeros) (-(size : Int)) := by
    have noPower : (-(size : Int)).toNat = 0 := by omega
    have power : (- -(size : Int)).toNat = size := by omega
    rw [CoversDecimal, noPower, power, tenTo_zero, Nat.mul_one]
    exact covers
  have moved := coversDecimal_mul_tenTo.mp shifted
  rwa [Int.add_comm, ← Int.sub_eq_add_neg] at moved

theorem covers_shortest {x : Binary64} (finite : x.isFinite = true) (nonzero : x.isZero = false)
    (tie : Tie) : x.CoversDecimal (x.shortest tie).digits (x.shortest tie).exponent := by
  simp only [shortest]
  generalize attempts : (List.range' 1 17).findSome? _ = found
  cases found with
  | none =>
      -- Whether seventeen digits always suffice does not matter, for the grid point rounds to x too.
      have covers : x.Covers (x.gridFloor * tenTo 0) (tenTo 343) := by
        rw [tenTo_zero, Nat.mul_one]
        exact covers_gridFloor finite nonzero
      exact coversDecimal_of_covers covers
  | some decimal =>
      obtain ⟨count, _, attempt⟩ := List.exists_of_findSome?_eq_some attempts
      obtain ⟨digits, near, rfl⟩ := Option.map_eq_some_iff.mp attempt
      exact coversDecimal_of_covers (covers_of_roundsFrom (roundsFrom_of_neighbour? near))

end Binary64

end FieldRules
