import LocationPath.Binary64.Shortest

/-! # Ranks of decimals

A rank depends on a decimal's value alone, not on how it is scaled; and the full value of a finite
rank has this rank. So the shortest decimal of a finite rank is rounded back to it.

Main results: `rankOfDecimal_mul_pow` and `Decimal.rank_shortest_of_lt`. -/

namespace LocationPath

/-- A power of a base that is not zero is not zero. -/
private theorem pow_pos {base : Nat} (pos : 0 < base) (exponent : Nat) : 0 < base.pow exponent :=
  Nat.pow_pos pos

/-- Exponents are added when powers are multiplied. -/
private theorem pow_add (base first second : Nat) :
    base.pow (first + second) = base.pow first * base.pow second :=
  Nat.pow_add base first second

/-- A unit is a part of the number one. -/
theorem unitsPerOne_pos : 0 < unitsPerOne := pow_pos (by decide) 1074

/-! ## Scaling -/

/-- Rounding depends on the quotient alone. -/
theorem roundHalfEven_mul_mul (num den : Nat) {factor : Nat} (pos : 0 < factor) :
    roundHalfEven (num * factor) (den * factor) = roundHalfEven num den := by
  simp only [roundHalfEven, Nat.mul_div_mul_right _ _ pos, Nat.mul_mod_mul_right]
  have less : ∀ first second : Nat, first * factor < second * factor ↔ first < second :=
    fun first second => Nat.mul_lt_mul_right pos
  rw [← Nat.mul_assoc]
  simp only [less]

/-- The rank of a quotient depends on its value alone. -/
theorem rankOfRatio_mul_mul (num den : Nat) {factor : Nat} (pos : 0 < factor) :
    rankOfRatio (num * factor) (den * factor) = rankOfRatio num den := by
  have units : num * factor * unitsPerOne = num * unitsPerOne * factor := Nat.mul_right_comm ..
  have grid : ∀ shift, den * factor * Nat.pow 2 shift = den * Nat.pow 2 shift * factor :=
    fun shift => Nat.mul_right_comm ..
  simp only [rankOfRatio, units, grid, Nat.mul_div_mul_right _ _ pos, roundHalfEven_mul_mul _ _ pos]

/-- A decimal is a quotient of powers of ten. -/
theorem rankOfDecimal_sub (digits above below : Nat) :
    rankOfDecimal digits ((above : Int) - below) =
      rankOfRatio (digits * Nat.pow 10 above) (Nat.pow 10 below) := by
  -- The exponent is not negative, or it is; what both powers have in common is cancelled.
  by_cases le : below ≤ above
  · obtain ⟨more, rfl⟩ := Nat.exists_eq_add_of_le le
    have exponent : ((below + more : Nat) : Int) - below = .ofNat more := by
      rw [Int.ofNat_eq_natCast]
      omega
    rw [exponent, rankOfDecimal, ← rankOfRatio_mul_mul _ 1 (pow_pos (by decide : 0 < 10) below)]
    congr 1
    · rw [Nat.mul_assoc, ← pow_add, Nat.add_comm]
    · exact Nat.one_mul _
  · obtain ⟨more, rfl⟩ := Nat.exists_eq_add_of_lt (Nat.lt_of_not_le le)
    have exponent : (above : Int) - (above + more + 1 : Nat) = .negSucc more := by
      rw [Int.negSucc_eq]
      omega
    rw [exponent, rankOfDecimal,
      ← rankOfRatio_mul_mul digits _ (pow_pos (by decide : 0 < 10) above)]
    rw [← pow_add]
    congr 2
    omega

/-- Every exponent is a difference of two natural numbers. -/
private theorem eq_toNat_sub_toNat (exponent : Int) :
    exponent = (exponent.toNat : Int) - (-exponent).toNat := by
  omega

/-- **Zeros behind the digits are places of the exponent.** -/
theorem rankOfDecimal_mul_pow (digits zeros : Nat) (exponent : Int) :
    rankOfDecimal (digits * Nat.pow 10 zeros) exponent =
      rankOfDecimal digits (exponent + zeros) := by
  have moved : exponent + zeros =
      ((zeros + exponent.toNat : Nat) : Int) - (-exponent).toNat := by omega
  rw [moved, rankOfDecimal_sub, pow_add, ← Nat.mul_assoc, ← rankOfDecimal_sub,
    ← eq_toNat_sub_toNat]

/-- A decimal with as many factors of five as places is a quotient by a power of two. -/
theorem rankOfDecimal_mul_five_pow (digits places : Nat) :
    rankOfDecimal (digits * Nat.pow 5 places) (-(places : Int)) =
      rankOfRatio digits (Nat.pow 2 places) := by
  have exponent : -(places : Int) = ((0 : Nat) : Int) - places := by omega
  have grid : Nat.pow 10 places = Nat.pow 2 places * Nat.pow 5 places := Nat.mul_pow 2 5 places
  have none : Nat.pow 10 0 = 1 := rfl
  rw [exponent, rankOfDecimal_sub, grid, none, Nat.mul_one,
    rankOfRatio_mul_mul _ _ (pow_pos (by decide) places)]

/-- No digits but zeros have the rank of zero. -/
theorem rankOfDecimal_zero (exponent : Int) : rankOfDecimal 0 exponent = 0 := by
  rw [eq_toNat_sub_toNat exponent, rankOfDecimal_sub]
  simp [rankOfRatio, roundHalfEven]

/-! ## Full values -/

/-- The rank of whole units is that of their quotient by the grid of 53 bits. -/
theorem rankOfRatio_units (units : Nat) :
    rankOfRatio units unitsPerOne = min infinityRank ((units.log2 - 52) * ranksPerBinade +
      roundHalfEven units (Nat.pow 2 (units.log2 - 52))) := by
  have grid : ∀ shift, unitsPerOne * Nat.pow 2 shift = Nat.pow 2 shift * unitsPerOne :=
    fun shift => Nat.mul_comm ..
  simp only [rankOfRatio, Nat.mul_div_cancel _ unitsPerOne_pos, grid,
    roundHalfEven_mul_mul _ _ unitsPerOne_pos]

/-- The value of a finite rank has this rank. -/
theorem rankOfRatio_unitsOfRank {rank : Nat} (lt : rank < infinityRank) :
    rankOfRatio (unitsOfRank rank) unitsPerOne = rank := by
  rw [rankOfRatio_units]
  have le := Nat.le_of_lt lt
  by_cases small : rank < ranksPerBinade
  · -- The least ranks are their own values, on a grid of single units.
    have log_lt : rank.log2 < 53 := by
      by_cases zero : rank = 0
      · simp [zero]
      · rw [Nat.log2_lt zero]
        exact Nat.lt_trans small (by decide)
    have shift : rank.log2 - 52 = 0 := by omega
    have exact : roundHalfEven rank (Nat.pow 2 0) = rank := by
      simpa using roundHalfEven_mul rank (show 0 < Nat.pow 2 0 by decide)
    rw [unitsOfRank, if_pos small, shift, exact, Nat.zero_mul, Nat.zero_add, Nat.min_eq_right le]
  · have binade : 1 ≤ rank / ranksPerBinade :=
      (Nat.one_le_div_iff (by decide)).2 (Nat.le_of_not_lt small)
    have below : rank % ranksPerBinade < ranksPerBinade := Nat.mod_lt _ (by decide)
    obtain ⟨shift, shift_eq⟩ := Nat.exists_eq_add_of_le binade
    have grid_pos : 0 < Nat.pow 2 shift := pow_pos (by decide) shift
    have units : unitsOfRank rank =
        (ranksPerBinade + rank % ranksPerBinade) * Nat.pow 2 shift := by
      rw [unitsOfRank, if_neg small, shift_eq, Nat.add_sub_cancel_left]
    have log : (unitsOfRank rank).log2 = 52 + shift := by
      rw [units, Nat.log2_eq_iff, Nat.pow_add, Nat.add_right_comm, Nat.pow_add]
      · constructor
        · exact Nat.mul_le_mul_right _ (Nat.le_add_right _ _)
        · refine Nat.mul_lt_mul_of_pos_right ?_ grid_pos
          show _ < ranksPerBinade * 2
          omega
      · exact Nat.mul_ne_zero (Nat.ne_of_gt (Nat.add_pos_left (by decide) _))
          (Nat.ne_of_gt grid_pos)
    rw [log, Nat.add_sub_cancel_left, units, roundHalfEven_mul _ grid_pos]
    have split := Nat.div_add_mod' rank ranksPerBinade
    rw [shift_eq, Nat.add_mul, Nat.one_mul, Nat.add_comm ranksPerBinade, Nat.add_assoc] at split
    rw [split, Nat.min_eq_right le]

namespace Decimal

/-- **The full value of a finite rank has this rank.** -/
theorem rank_ofRank {rank : Nat} (lt : rank < infinityRank) : (ofRank rank).rank = rank := by
  have scaled : (ofRank rank).rank = rankOfRatio (unitsOfRank rank) unitsPerOne :=
    rankOfDecimal_mul_five_pow (unitsOfRank rank) 1074
  rw [scaled, rankOfRatio_unitsOfRank lt]

/-- **The shortest decimal of a finite rank is rounded to it.** -/
theorem rank_shortest_of_lt {rank : Nat} (lt : rank < infinityRank) :
    (shortest rank).rank = rank := by
  obtain exact | full := rank_shortest rank
  · exact exact
  · rw [full, rank_ofRank lt]

end Decimal

end LocationPath
