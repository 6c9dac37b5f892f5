import Mathlib
import Pegwork.Number.Shortest

/-!
# Shortest decimals are read back

The shortest decimal of a number is rounded to that number again (`Format.ofDecimal_shortest`).
Candidates with few digits are checked before they are taken. The exact decimal, which would serve if
no candidate passed, is rounded without error (`Format.nearest_units`), and its size does not let it be
settled by its number of digits alone.
-/

namespace Pegwork.Number

/-! ## Counting digits -/

theorem digitCount_le_iff {n k : Nat} (hn : n ≠ 0) : digitCount n ≤ k ↔ n < 10 ^ k := by
  rw [digitCount, if_neg hn]
  cases k with
  | zero =>
    -- A number other than zero has at least one digit.
    have hpos : 0 < (Nat.toDigits 10 n).length := Nat.length_toDigits_pos
    omega
  | succ k => exact Nat.length_toDigits_le_iff (by decide) (Nat.succ_pos k)

theorem lt_pow_digitCount {n : Nat} (hn : n ≠ 0) : n < 10 ^ digitCount n :=
  (digitCount_le_iff hn).1 (Nat.le_refl _)

theorem pow_le_of_lt_digitCount {n k : Nat} (hn : n ≠ 0) (hk : k < digitCount n) : 10 ^ k ≤ n := by
  apply Nat.le_of_not_lt
  intro hlt
  have hle := (digitCount_le_iff hn).2 hlt
  omega

theorem digitCount_mul_pow {n : Nat} (hn : n ≠ 0) (k : Nat) :
    digitCount (n * 10 ^ k) = digitCount n + k := by
  have hpow : 0 < 10 ^ k := Nat.pow_pos (by decide)
  have hne : n * 10 ^ k ≠ 0 := Nat.mul_ne_zero hn (Nat.ne_of_gt hpow)
  have hcount : 0 < digitCount n := by
    rw [digitCount, if_neg hn]
    exact Nat.length_toDigits_pos
  apply Nat.le_antisymm
  · rw [digitCount_le_iff hne, Nat.pow_add]
    exact Nat.mul_lt_mul_of_pos_right (lt_pow_digitCount hn) hpow
  · -- One digit less is not enough for `n`, so not for its multiple either.
    apply Nat.le_of_not_lt
    intro hlt
    have hlower : 10 ^ (digitCount n - 1) ≤ n := pow_le_of_lt_digitCount hn (by omega)
    have hupper : n * 10 ^ k < 10 ^ (digitCount n - 1 + k) :=
      (digitCount_le_iff hne).1 (by omega)
    rw [Nat.pow_add] at hupper
    have := Nat.lt_of_mul_lt_mul_right hupper
    omega

/-! ## Exact quotients -/

namespace Format

theorem roundQuotient_mul (n : Nat) {k : Nat} (hk : 0 < k) : roundQuotient (n * k) k = n := by
  simp [roundQuotient, Nat.mul_div_cancel n hk]
  omega

theorem log2_mul_two_pow {n a k : Nat} (hlow : 2 ^ a ≤ n) (hhigh : n < 2 ^ (a + 1)) :
    (n * 2 ^ k).log2 = a + k := by
  have hk : 0 < 2 ^ k := Nat.pow_pos (by decide)
  have hn : n ≠ 0 := by
    have ha : 0 < 2 ^ a := Nat.pow_pos (by decide)
    omega
  rw [Nat.log2_eq_iff (Nat.mul_ne_zero hn (Nat.ne_of_gt hk))]
  constructor
  · rw [Nat.pow_add]
    exact Nat.mul_le_mul_right _ hlow
  · rw [Nat.add_right_comm, Nat.pow_add]
    exact Nat.mul_lt_mul_of_pos_right hhigh hk

variable {f : Format} {code : Nat}

/-- A magnitude is a significand and a number of doublings, and both are read off its code. -/
theorem exists_significand (hprecision : 0 < f.precision) (code : Nat) :
    ∃ significand halvings, f.units code = significand * 2 ^ halvings ∧
      (f.units code).log2 + 1 - f.precision = halvings ∧
      significand + halvings * f.leading = code := by
  have hleading : f.leading = 2 ^ (f.precision - 1) := rfl
  have hpos : 0 < f.leading := Nat.pow_pos (by decide)
  unfold units
  split
  next hsmall =>
    -- Below the normal numbers the code is the magnitude itself.
    refine ⟨code, 0, by simp, ?_, by simp⟩
    by_cases hzero : code = 0
    · subst hzero
      rw [Nat.log2_zero]
      omega
    · have hlog := (Nat.log2_lt hzero).2 (hleading ▸ hsmall)
      omega
  next hlarge =>
    -- The significand lies between `leading` and its double, so its logarithm is known.
    have hpart : code % f.leading < f.leading := Nat.mod_lt _ hpos
    have hquotient : 1 ≤ code / f.leading := (Nat.one_le_div_iff hpos).2 (by omega)
    refine ⟨code % f.leading + f.leading, code / f.leading - 1, rfl, ?_, ?_⟩
    · rw [Nat.pow_eq, log2_mul_two_pow (a := f.precision - 1)]
      · omega
      · omega
      · rw [Nat.pow_succ, ← hleading]
        omega
    · have hdiv := Nat.div_add_mod code f.leading
      rw [Nat.sub_mul, Nat.one_mul, Nat.mul_comm]
      have hle : f.leading ≤ f.leading * (code / f.leading) := Nat.le_mul_of_pos_right _ hquotient
      omega

/-- A quotient that is a magnitude of the format is rounded to the code of this magnitude. -/
theorem nearest_units (hprecision : 0 < f.precision) (hcode : code < f.infinity) {k : Nat} (hk : 0 < k) :
    f.nearest (f.units code * k) (2 ^ f.scale * k) = code := by
  have hden : 0 < 2 ^ f.scale * k := Nat.mul_pos (Nat.pow_pos (by decide)) hk
  have hscaled : f.units code * k * Nat.pow 2 f.scale = f.units code * (2 ^ f.scale * k) := by
    rw [Nat.mul_assoc, Nat.mul_comm k, Nat.pow_eq]
  obtain ⟨significand, halvings, hunits, hlog, hsum⟩ := exists_significand hprecision code
  -- In units the quotient is a whole number, and the halvings divide it without remainder.
  have hwhole : f.units code * (2 ^ f.scale * k) = significand * (2 ^ f.scale * k * 2 ^ halvings) := by
    rw [hunits, Nat.mul_assoc, Nat.mul_comm (2 ^ halvings)]
  have hstep : 0 < 2 ^ f.scale * k * 2 ^ halvings := Nat.mul_pos hden (Nat.pow_pos (by decide))
  simp only [nearest, hscaled, Nat.mul_div_cancel _ hden, hlog]
  rw [hwhole, Nat.pow_eq, roundQuotient_mul significand hstep, hsum]
  exact Nat.min_eq_left (Nat.le_of_lt hcode)

/-! ## The range of a format -/

theorem units_pos (hcode : 0 < code) : 0 < f.units code := by
  have hpos : 0 < f.leading := Nat.pow_pos (by decide)
  unfold units
  split
  · exact hcode
  · exact Nat.mul_pos (by omega) (Nat.pow_pos (by decide))

theorem units_lt (hprecision : 0 < f.precision) (hwidth : 1 < f.exponentWidth)
    (hcode : code < f.infinity) : f.units code < 2 ^ (2 ^ (f.exponentWidth - 1) + f.scale) := by
  have hleading : f.leading = 2 ^ (f.precision - 1) := rfl
  have hpos : 0 < f.leading := Nat.pow_pos (by decide)
  have hhalf : 2 ^ (f.exponentWidth - 1) * 2 = 2 ^ f.exponentWidth :=
    Nat.two_pow_pred_mul_two (by omega)
  have htwo : 2 ^ 1 ≤ 2 ^ (f.exponentWidth - 1) := Nat.pow_le_pow_right (by decide) (by omega)
  have hscale : f.scale = 2 ^ (f.exponentWidth - 1) - 2 + (f.precision - 1) := rfl
  unfold units
  split
  next hsmall =>
    rw [hleading] at hsmall
    exact Nat.lt_of_lt_of_le hsmall (Nat.pow_le_pow_right (by decide) (by omega))
  next hlarge =>
    -- The code of infinity is the first with all bits of the exponent set.
    have hquotient : code / f.leading < 2 ^ f.exponentWidth - 1 := by
      rw [Nat.div_lt_iff_lt_mul hpos]
      exact hcode
    have hpart : code % f.leading + f.leading < 2 ^ f.precision := by
      have hmod : code % f.leading < f.leading := Nat.mod_lt _ hpos
      have hdouble : 2 ^ (f.precision - 1) * 2 = 2 ^ f.precision :=
        Nat.two_pow_pred_mul_two hprecision
      omega
    calc (code % f.leading + f.leading) * 2 ^ (code / f.leading - 1)
        < 2 ^ f.precision * 2 ^ (code / f.leading - 1) :=
          Nat.mul_lt_mul_of_pos_right hpart (Nat.pow_pos (by decide))
      _ = 2 ^ (f.precision + (code / f.leading - 1)) := (Nat.pow_add ..).symm
      _ ≤ 2 ^ (2 ^ (f.exponentWidth - 1) + f.scale) := Nat.pow_le_pow_right (by decide) (by omega)

theorem two_pow_le_ten_pow (k : Nat) : 2 ^ (3 * k) ≤ 10 ^ k := by
  rw [Nat.pow_mul]
  exact Nat.pow_le_pow_left (by decide) k

theorem ten_pow (k : Nat) : 10 ^ k = 2 ^ k * 5 ^ k := Nat.mul_pow 2 5 k

theorem exact_ne_zero (hpos : 0 < code) : f.units code * 5 ^ f.scale ≠ 0 :=
  Nat.ne_of_gt (Nat.mul_pos (units_pos hpos) (Nat.pow_pos (by decide)))

/-- The exact decimal of a number is not so long that it is taken for infinity. -/
theorem digitCount_exact_lt (hprecision : 0 < f.precision) (hwidth : 1 < f.exponentWidth)
    (hpos : 0 < code) (hcode : code < f.infinity) :
    3 * digitCount (f.units code * 5 ^ f.scale) < 2 ^ (f.exponentWidth - 1) + 3 * f.scale + 3 := by
  have hhalf : 0 < 2 ^ (f.exponentWidth - 1) := Nat.pow_pos (by decide)
  apply Nat.lt_of_not_le
  intro hle
  have hcount : f.scale + 1 ≤ digitCount (f.units code * 5 ^ f.scale) := by omega
  obtain ⟨k, hk⟩ := Nat.exists_eq_add_of_le hcount
  have hlower : 10 ^ (f.scale + k) ≤ f.units code * 5 ^ f.scale :=
    pow_le_of_lt_digitCount (exact_ne_zero hpos) (by omega)
  -- So many digits stand for more than any finite magnitude.
  have hupper : f.units code * 5 ^ f.scale < 10 ^ (f.scale + k) := by
    calc f.units code * 5 ^ f.scale
        < 2 ^ (2 ^ (f.exponentWidth - 1) + f.scale) * 5 ^ f.scale :=
          Nat.mul_lt_mul_of_pos_right (units_lt hprecision hwidth hcode) (Nat.pow_pos (by decide))
      _ = 2 ^ (2 ^ (f.exponentWidth - 1)) * 10 ^ f.scale := by
          rw [Nat.pow_add, Nat.mul_assoc, ten_pow]
      _ ≤ 2 ^ (3 * k) * 10 ^ f.scale :=
          Nat.mul_le_mul_right _ (Nat.pow_le_pow_right (by decide) (by omega))
      _ ≤ 10 ^ k * 10 ^ f.scale := Nat.mul_le_mul_right _ (two_pow_le_ten_pow k)
      _ = 10 ^ (f.scale + k) := by rw [Nat.pow_add, Nat.mul_comm]
  omega

/-- The exact decimal of a number is not so short that it is taken for zero. -/
theorem lt_digitCount_exact (hpos : 0 < code) :
    2 * f.scale < 3 * digitCount (f.units code * 5 ^ f.scale) + 1 := by
  apply Nat.lt_of_not_le
  intro hle
  have hcount : digitCount (f.units code * 5 ^ f.scale) ≤ f.scale := by omega
  obtain ⟨k, hk⟩ := Nat.exists_eq_add_of_le hcount
  have hupper : f.units code * 5 ^ f.scale < 10 ^ digitCount (f.units code * 5 ^ f.scale) :=
    lt_pow_digitCount (exact_ne_zero hpos)
  -- So few digits stand for less than the unit.
  have hlower : 5 ^ f.scale * 10 ^ k < 5 ^ f.scale * 10 ^ k := by
    calc 5 ^ f.scale * 10 ^ k
        ≤ f.units code * 5 ^ f.scale * 10 ^ k :=
          Nat.mul_le_mul_right _ (Nat.le_mul_of_pos_left _ (units_pos hpos))
      _ < 10 ^ digitCount (f.units code * 5 ^ f.scale) * 10 ^ k :=
          Nat.mul_lt_mul_of_pos_right hupper (Nat.pow_pos (by decide))
      _ = 5 ^ f.scale * 2 ^ f.scale := by
          rw [← Nat.pow_add, ← hk, ten_pow, Nat.mul_comm]
      _ ≤ 5 ^ f.scale * 2 ^ (3 * k) :=
          Nat.mul_le_mul_left _ (Nat.pow_le_pow_right (by decide) (by omega))
      _ ≤ 5 ^ f.scale * 10 ^ k := Nat.mul_le_mul_left _ (two_pow_le_ten_pow k)
  omega

theorem ofDecimal_exact (hprecision : 0 < f.precision) (hwidth : 1 < f.exponentWidth)
    (hpos : 0 < code) (hcode : code < f.infinity) :
    f.ofDecimal ⟨f.units code * 5 ^ f.scale, -(f.scale : Int)⟩ = code := by
  have hlong := digitCount_exact_lt hprecision hwidth hpos hcode
  have hshort := lt_digitCount_exact (f := f) hpos
  -- Neither of the two shortcuts applies.
  have hhigh : ¬ ((Nat.pow 2 (f.exponentWidth - 1) : Nat) : Int) ≤
      3 * ((digitCount (f.units code * 5 ^ f.scale) : Int) + -(f.scale : Int) - 1) := by
    rw [Nat.pow_eq]
    omega
  have hlow : ¬ 3 * ((digitCount (f.units code * 5 ^ f.scale) : Int) + -(f.scale : Int)) ≤
      -((f.scale + 1 : Nat) : Int) := by
    omega
  simp only [ofDecimal, if_neg (exact_ne_zero hpos), if_neg hhigh, if_neg hlow]
  have hnearest := nearest_units hprecision hcode (k := 5 ^ f.scale) (Nat.pow_pos (by decide))
  split
  next hwhole =>
    -- A format without fractions: the exact decimal is a whole number.
    have hscale : f.scale = 0 := by omega
    simpa [hscale] using hnearest
  next =>
    -- The power of five cancels, and a multiple of the unit is left.
    rw [Int.neg_neg, Int.toNat_natCast, Nat.pow_eq, ten_pow]
    exact hnearest

/-! ## The shortest decimal -/

/-- Whichever of two candidates is taken has passed. -/
theorem ofDecimal_of_choice {below above d : Decimal} {p : Prop} [Decidable p]
    (h : (match f.ofDecimal below == code, f.ofDecimal above == code with
      | true, true => some (if p then above else below)
      | true, false => some below
      | false, true => some above
      | false, false => none) = some d) : f.ofDecimal d = code := by
  cases hbelow : f.ofDecimal below == code with
  | false =>
    cases habove : f.ofDecimal above == code with
    | false => simp [hbelow, habove] at h
    | true =>
      simp only [hbelow, habove, Option.some.injEq] at h
      exact h ▸ beq_iff_eq.1 habove
  | true =>
    cases habove : f.ofDecimal above == code with
    | false =>
      simp only [hbelow, habove, Option.some.injEq] at h
      exact h ▸ beq_iff_eq.1 hbelow
    | true =>
      simp only [hbelow, habove, Option.some.injEq] at h
      by_cases hp : p
      · rw [if_pos hp] at h
        exact h ▸ beq_iff_eq.1 habove
      · rw [if_neg hp] at h
        exact h ▸ beq_iff_eq.1 hbelow

theorem ofDecimal_of_neighbour {count : Nat} {d : Decimal} (h : f.neighbour code count = some d) :
    f.ofDecimal d = code :=
  ofDecimal_of_choice h

/-- **The shortest decimal of a number is read back as the number.** -/
theorem ofDecimal_shortest (hprecision : 0 < f.precision) (hwidth : 1 < f.exponentWidth)
    (hpos : 0 < code) (hcode : code < f.infinity) : f.ofDecimal (f.shortest code) = code := by
  simp only [shortest, if_neg (Nat.ne_of_gt hpos)]
  cases hfind : ((List.range f.digitsNeeded).map (· + 1)).findSome? (f.neighbour code) with
  | none =>
    rw [Option.getD_none]
    exact ofDecimal_exact hprecision hwidth hpos hcode
  | some d =>
    -- The first candidate that passes is taken.
    obtain ⟨count, -, hcount⟩ := List.exists_of_findSome?_eq_some hfind
    exact ofDecimal_of_neighbour hcount

end Format

end Pegwork.Number
