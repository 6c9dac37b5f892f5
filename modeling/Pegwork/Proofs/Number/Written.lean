import Pegwork.Hitting.Model
import Pegwork.Proofs.Number.Rounding

/-!
# Numbers are read as they are written

A whole number is written with its digits and read back from them (`readWhole_toString`). A positive
finite number is written with digits and at most one point, without an exponent, and read back as the
same number, bit for bit (`Real64.read_text`).
-/

namespace Pegwork.Number

/-! ## Whole numbers -/

theorem isDecimalDigit_iff {c : Char} : isDecimalDigit c = true ↔ 48 ≤ c.toNat ∧ c.toNat ≤ 57 := by
  rw [isDecimalDigit, Bool.and_eq_true, decide_eq_true_eq, decide_eq_true_eq]
  rfl

theorem isDecimalDigit_of_mem_toDigits {n : Nat} {c : Char} (h : c ∈ Nat.toDigits 10 n) :
    isDecimalDigit c = true := by
  have hdigit := Nat.isDigit_of_mem_toDigits (by decide) (by decide) h
  rw [Char.isDigit, Bool.and_eq_true, decide_eq_true_eq, decide_eq_true_eq] at hdigit
  exact isDecimalDigit_iff.2 hdigit

theorem isDecimalDigit_of_mem_zeros {n : Nat} {c : Char} (h : c ∈ zeros n) :
    isDecimalDigit c = true := by
  rw [List.eq_of_mem_replicate h]
  decide

theorem ofDigits_append (a b : List Char) :
    ofDigits (a ++ b) = 10 ^ b.length * ofDigits a + ofDigits b := by
  have happend := Nat.ofDigitChars_append (b := 10) (l := a) (m := b) 0
  exact happend.trans Nat.ofDigitChars_eq_ofDigitChars_zero

theorem ofDigits_toDigits (n : Nat) : ofDigits (Nat.toDigits 10 n) = n := Nat.ofDigitChars_ten_toDigits

theorem ofDigits_zeros (n : Nat) : ofDigits (zeros n) = 0 := by
  have hzeros : Nat.ofDigitChars 10 (zeros n) 0 = 10 ^ n * 0 := Nat.ofDigitChars_replicate_zero
  rwa [Nat.mul_zero] at hzeros

theorem lt_of_readWhole {bound n : Nat} {text : String} (h : readWhole bound text = some n) :
    n < bound := by
  simp only [readWhole, Option.ite_none_left_eq_some, Option.ite_none_right_eq_some,
    Option.some.injEq] at h
  obtain ⟨-, hlt, rfl⟩ := h
  exact hlt

/-- A run of digits has no sign in front of it. -/
theorem readWhole_of_digits (bound : Nat) {text : String} (hne : text.toList ≠ [])
    (hall : ∀ c ∈ text.toList, isDecimalDigit c = true) :
    readWhole bound text =
      if ofDigits text.toList < bound then some (ofDigits text.toList) else none := by
  unfold readWhole
  generalize text.toList = digits at hne hall ⊢
  cases digits with
  | nil => exact absurd rfl hne
  | cons x more =>
    -- The sign that may stand in front is no digit.
    have hplus : x ≠ '+' := by
      rintro rfl
      exact absurd (hall '+' (by simp)) (by decide)
    have hdigits : (x :: more).all isDecimalDigit = true := List.all_eq_true.2 hall
    split
    next rest hcons => exact absurd (List.cons.inj hcons).1 hplus
    next => simp [hdigits]

theorem readWhole_toString {bound n : Nat} (h : n < bound) : readWhole bound (toString n) = some n := by
  have htext : (toString n).toList = Nat.toDigits 10 n := Nat.toList_repr
  rw [readWhole_of_digits, htext, ofDigits_toDigits, if_pos h]
  · rw [htext]
    exact Nat.toDigits_ne_nil
  · rw [htext]
    exact fun c hc => isDecimalDigit_of_mem_toDigits hc

/-! ## Decimals -/

/-- A decimal keeps its value when zeros are written out behind its digits. -/
theorem Format.ofDecimal_mul_pow (f : Format) {digits exponent : Nat} :
    f.ofDecimal ⟨digits * 10 ^ exponent, 0⟩ = f.ofDecimal ⟨digits, exponent⟩ := by
  by_cases hzero : digits = 0
  · simp [ofDecimal, hzero]
  · have hpow : 0 < 10 ^ exponent := Nat.pow_pos (by decide)
    have hne : digits * 10 ^ exponent ≠ 0 := Nat.mul_ne_zero hzero (Nat.ne_of_gt hpow)
    -- The digits and the power of ten together are as large as before.
    simp only [ofDecimal, if_neg hzero, if_neg hne, digitCount_mul_pow hzero, Int.natCast_add,
      Int.add_zero]
    simp

/-- The two ways in which a decimal is written out in full. -/
theorem Decimal.positional_shape (d : Decimal) :
    (∃ e : Nat, d.exponent = e ∧
      (d.positional "").toList = Nat.toDigits 10 d.digits ++ zeros e) ∨
    ∃ whole fraction, whole ≠ [] ∧ (∀ c ∈ whole ++ fraction, isDecimalDigit c = true) ∧
      (d.positional "").toList = whole ++ '.' :: fraction ∧
      ofDigits (whole ++ fraction) = d.digits ∧ d.exponent = -(fraction.length : Int) := by
  have hpos : 0 < (Nat.toDigits 10 d.digits).length := Nat.length_toDigits_pos
  by_cases hexponent : 0 ≤ d.exponent
  · refine .inl ⟨d.exponent.toNat, by omega, ?_⟩
    simp [positional, hexponent]
  · by_cases hpoint : 0 < ((Nat.toDigits 10 d.digits).length : Int) + d.exponent
    -- The point falls among the digits.
    · obtain ⟨point, hcast⟩ := Int.eq_ofNat_of_zero_le (Int.le_of_lt hpoint)
      have hwhole : (Nat.toDigits 10 d.digits).take point ≠ [] := by
        intro hnil
        have hlength := congrArg List.length hnil
        rw [List.length_take, List.length_nil] at hlength
        omega
      refine .inr ⟨_, (Nat.toDigits 10 d.digits).drop point, hwhole, ?_, ?_, ?_, ?_⟩
      · rw [List.take_append_drop]
        exact fun c hc => isDecimalDigit_of_mem_toDigits hc
      · have hsome : 0 < point := by omega
        simp [positional, hexponent, hcast, hsome]
      · rw [List.take_append_drop, ofDigits_toDigits]
      · rw [List.length_drop]
        omega
    -- The point falls before the digits, and zeros fill the gap.
    · obtain ⟨gap, hcast⟩ := Int.eq_ofNat_of_zero_le (Int.neg_nonneg_of_nonpos (Int.not_lt.1 hpoint))
      refine .inr ⟨['0'], zeros gap ++ Nat.toDigits 10 d.digits, by simp, ?_, ?_, ?_, ?_⟩
      · intro c hc
        simp only [List.mem_append, List.mem_singleton] at hc
        rcases hc with rfl | hc | hc
        · decide
        · exact isDecimalDigit_of_mem_zeros hc
        · exact isDecimalDigit_of_mem_toDigits hc
      · have hgap : (-((Nat.toDigits 10 d.digits).length + d.exponent)).toNat = gap := by omega
        simp only [positional, if_neg hexponent, if_neg hpoint, hgap, String.toList_ofList]
        rfl
      · rw [ofDigits_append, ofDigits_append, ofDigits_zeros, ofDigits_toDigits]
        simp [ofDigits, digitValue]
      · rw [List.length_append, zeros, List.length_replicate]
        omega

/-! ## Reading decimals -/

theorem readDecimal_whole {whole : List Char} (hne : whole ≠ [])
    (hwhole : ∀ c ∈ whole, isDecimalDigit c = true) : readDecimal whole = some ⟨ofDigits whole, 0⟩ := by
  have htake : whole.takeWhile isDecimalDigit = whole := List.takeWhile_eq_self_iff.2 hwhole
  have hdrop : whole.dropWhile isDecimalDigit = [] := List.dropWhile_eq_nil_iff.2 hwhole
  simp [readDecimal, htake, hdrop, hne, readExponent]

theorem readDecimal_pointed {whole fraction : List Char} (hne : whole ≠ [])
    (hall : ∀ c ∈ whole ++ fraction, isDecimalDigit c = true) :
    readDecimal (whole ++ '.' :: fraction) =
      some ⟨ofDigits (whole ++ fraction), -(fraction.length : Int)⟩ := by
  have hwhole : ∀ c ∈ whole, isDecimalDigit c = true := fun c hc => hall c (by simp [hc])
  have hfraction : ∀ c ∈ fraction, isDecimalDigit c = true := fun c hc => hall c (by simp [hc])
  -- The point ends the first run of digits, and the text ends the second.
  have hpoint : isDecimalDigit '.' = false := by decide
  have htake : (whole ++ '.' :: fraction).takeWhile isDecimalDigit = whole := by
    rw [List.takeWhile_append_of_pos hwhole, List.takeWhile_cons_of_neg (by simp [hpoint]),
      List.append_nil]
  have hdrop : (whole ++ '.' :: fraction).dropWhile isDecimalDigit = '.' :: fraction := by
    rw [List.dropWhile_append_of_pos hwhole, List.dropWhile_cons_of_neg (by simp [hpoint])]
  have htake' : fraction.takeWhile isDecimalDigit = fraction := List.takeWhile_eq_self_iff.2 hfraction
  have hdrop' : fraction.dropWhile isDecimalDigit = [] := List.dropWhile_eq_nil_iff.2 hfraction
  simp [readDecimal, htake, hdrop, htake', hdrop', hne, readExponent]

theorem toLower_of_isDecimalDigit {x : Char} (hx : isDecimalDigit x = true) : x.toLower = x := by
  have hrange := isDecimalDigit_iff.1 hx
  have hcapital : ¬ (x.val ≥ 'A'.val ∧ x.val ≤ 'Z'.val) := by
    rintro ⟨hlow, -⟩
    have hle : 65 ≤ x.toNat := UInt32.le_iff_toNat_le.1 hlow
    omega
  rw [Char.toLower, dif_neg hcapital]

/-- What starts with a digit has no sign and is no word. -/
theorem readNumeral_of_digit {text : String} {x : Char} {more : List Char}
    (htext : text.toList = x :: more) (hx : isDecimalDigit x = true) :
    readNumeral text = (readDecimal text.toList).map (.finite false) := by
  have hne : ∀ y, isDecimalDigit y = false → x ≠ y := by
    rintro y hy rfl
    rw [hx] at hy
    cases hy
  have hsign : splitSign (x :: more) = (false, x :: more) := by
    unfold splitSign
    split
    next hcons => exact absurd (List.cons.inj hcons).1 (hne '-' (by decide))
    next hcons => exact absurd (List.cons.inj hcons).1 (hne '+' (by decide))
    next => rfl
  -- Taking capitals for small letters does not change a digit, and no word starts with one.
  have hword : ∀ word : String, (∃ y tail, word.toList = y :: tail ∧ isDecimalDigit y = false) →
      String.ofList ((x :: more).map Char.toLower) ≠ word := by
    rintro _ ⟨y, tail, hcons, hy⟩ rfl
    rw [String.toList_ofList, List.map_cons, toLower_of_isDecimalDigit hx] at hcons
    exact hne y hy (List.cons.inj hcons).1
  have hinf := hword "inf" ⟨'i', _, rfl, by decide⟩
  have hinfinity := hword "infinity" ⟨'i', _, rfl, by decide⟩
  have hnan := hword "nan" ⟨'n', _, rfl, by decide⟩
  simp only [readNumeral, htext, hsign, hinf, hinfinity, hnan, decide_false, Bool.or_self,
    Bool.false_eq_true, if_false]

/-- A decimal written out in full is read as a number of the same value. -/
theorem Format.ofNumeral_positional (f : Format) (d : Decimal) :
    (readNumeral (d.positional "")).map f.ofNumeral = some (f.ofDecimal d) := by
  rcases d.positional_shape with ⟨e, he, htext⟩ | ⟨whole, fraction, hne, hall, htext, hdigits, he⟩
  · have hne : Nat.toDigits 10 d.digits ++ zeros e ≠ [] :=
      List.append_ne_nil_of_left_ne_nil Nat.toDigits_ne_nil _
    have hall : ∀ c ∈ Nat.toDigits 10 d.digits ++ zeros e, isDecimalDigit c = true := by
      intro c hc
      rcases List.mem_append.1 hc with hc | hc
      · exact isDecimalDigit_of_mem_toDigits hc
      · exact isDecimalDigit_of_mem_zeros hc
    have hvalue : ofDigits (Nat.toDigits 10 d.digits ++ zeros e) = d.digits * 10 ^ e := by
      rw [ofDigits_append, ofDigits_toDigits, ofDigits_zeros, zeros, List.length_replicate,
        Nat.add_zero, Nat.mul_comm]
    -- A whole number: the zeros behind its digits are read as digits too.
    obtain ⟨x, tail, hcons⟩ := List.exists_cons_of_ne_nil hne
    have hx : isDecimalDigit x = true := hall x (by simp [hcons])
    rw [readNumeral_of_digit (htext.trans hcons) hx, htext, readDecimal_whole hne hall, hvalue]
    simp [ofNumeral, ofDecimal_mul_pow, ← he]
  · obtain ⟨x, tail, rfl⟩ := List.exists_cons_of_ne_nil hne
    have hx : isDecimalDigit x = true := hall x (by simp)
    rw [readNumeral_of_digit htext hx, htext, readDecimal_pointed hne hall, hdigits, ← he]
    simp [ofNumeral]

end Pegwork.Number

namespace Pegwork.Hitting.Real64

open Pegwork.Number

theorem text_of_isPositive {x : Real64} (hx : x.isPositive = true) :
    x.text = (Format.double.shortest x.bits).positional "" := by
  rw [isPositive, Bool.and_eq_true, decide_eq_true_eq, decide_eq_true_eq] at hx
  -- The bits are a code without a sign, below that of infinity.
  have hweight : Format.double.infinity < Format.double.signWeight := by decide
  have hcode : x.bits % Format.double.signWeight = x.bits := Nat.mod_eq_of_lt (by omega)
  have hfinite : ¬ Format.double.infinity < x.bits := by omega
  have hunsigned : ¬ Format.double.signWeight ≤ x.bits := by omega
  have hnumber : x.bits ≠ Format.double.infinity := by omega
  simp only [text, Format.text, hcode, if_neg hfinite, if_neg hunsigned, if_neg hnumber, Decimal.text,
    Layout.plain, Bool.or_true, if_true, String.empty_append]

/-- **A positive number is read back from its text.** -/
theorem read_text {x : Real64} (hx : x.isPositive = true) : read x.text = some x := by
  have hread := Format.double.ofNumeral_positional (Format.double.shortest x.bits)
  rw [text_of_isPositive hx]
  rw [isPositive, Bool.and_eq_true, decide_eq_true_eq, decide_eq_true_eq] at hx
  rw [Format.ofDecimal_shortest (by decide) (by decide) hx.1 hx.2] at hread
  obtain ⟨numeral, hnumeral, hbits⟩ := Option.map_eq_some_iff.1 hread
  simp [read, hnumeral, hbits]

end Pegwork.Hitting.Real64
