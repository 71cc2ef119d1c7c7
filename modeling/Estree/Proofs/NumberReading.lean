import Estree.Proofs.JsonSpelling
import Estree.Proofs.NumeralText
import Estree.Proofs.Scaling

namespace Estree.Json.Numeral

open Decimal (Parts)

-- Of zeros, as many as fit.
theorem absorb_zeros {significand : ℕ} (hfit : significand < Nat.pow 2 64) (k : ℕ)
    {rest : List Char} (hrest : StopsBefore rest) :
    ∃ j i, k = j + i ∧ significand * 10 ^ j < 2 ^ 64 ∧
      (i = 0 ∨ 2 ^ 64 ≤ significand * 10 ^ (j + 1)) ∧
      absorb significand (List.replicate k '0' ++ rest) =
        (significand * 10 ^ j, List.replicate i '0' ++ rest) := by
  induction k generalizing significand with
  | zero =>
    exact ⟨0, 0, rfl, by simpa using hfit, .inl rfl, by simpa using hrest.absorb significand⟩
  | succ k ih =>
    have hzero : digit '0' = 0 := rfl
    by_cases hnext : significand * 10 < Nat.pow 2 64
    · obtain ⟨j, i, rfl, hj, hi, habsorb⟩ := ih hnext
      refine ⟨j + 1, i, by omega, ?_, ?_, ?_⟩
      · rwa [pow_succ', ← mul_assoc]
      · rwa [pow_succ' 10, ← mul_assoc]
      · rw [List.replicate_succ, List.cons_append, absorb, hzero, Nat.add_zero,
          if_pos (by simp [hnext]), habsorb, pow_succ' 10, ← mul_assoc]
    · refine ⟨0, k + 1, by omega, by simpa using hfit, .inr (by simpa using hnext), ?_⟩
      rw [List.replicate_succ, List.cons_append, absorb, hzero, Nat.add_zero,
        if_neg (by simp [hnext])]
      simp

theorem integerPart_zeros {n : ℕ} (hpos : 0 < n) (hn : n < Nat.pow 2 64) (k : ℕ) {tail : List Char}
    (htail : StopsBefore tail) :
    ∃ j i, k = j + i ∧ n * 10 ^ j < 2 ^ 64 ∧ (i = 0 ∨ 2 ^ 64 ≤ n * 10 ^ (j + 1)) ∧
      integerPart (Nat.toDigits 10 n ++ List.replicate k '0' ++ tail) =
        .ok (n * 10 ^ j, i, tail) := by
  obtain ⟨htake, hdrop⟩ := htail.takeWhile
  obtain ⟨j, i, hk, hj, hi, hzeros⟩ := absorb_zeros hn k htail
  refine ⟨j, i, hk, hj, hi, ?_⟩
  have hdigits := isDigit_toDigits n
  have hhead := head?_toDigits_ne_zero hpos
  have habsorb : absorb 0 (Nat.toDigits 10 n ++ (List.replicate k '0' ++ tail)) =
      (n * 10 ^ j, List.replicate i '0' ++ tail) := by
    have hfit : Nat.ofDigitChars 10 (Nat.toDigits 10 n) 0 < Nat.pow 2 64 := by
      rwa [Nat.ofDigitChars_ten_toDigits]
    rw [absorb_digits_append hdigits hfit, Nat.ofDigitChars_ten_toDigits, hzeros]
  have hreplicate : ∀ c ∈ List.replicate i '0', c.isDigit = true := by
    intro c hc
    rw [List.eq_of_mem_replicate hc]
    rfl
  rw [List.append_assoc]
  cases htext : Nat.toDigits 10 n with
  | nil => exact absurd htext Nat.toDigits_ne_nil
  | cons c cs =>
    rw [htext] at hdigits hhead habsorb
    have hzero : c ≠ '0' := by
      rintro rfl
      exact hhead rfl
    rw [List.cons_append] at habsorb ⊢
    rw [integerPart_cons (hdigits c List.mem_cons_self) hzero, habsorb,
      List.takeWhile_append_of_pos hreplicate, List.dropWhile_append_of_pos hreplicate, htake,
      hdrop, List.append_nil, List.length_replicate]

theorem fractionPart_of_fits {fraction tail : List Char} (hne : fraction ≠ [])
    (hdigits : ∀ c ∈ fraction, c.isDigit = true) {significand : ℕ}
    (hfit : Nat.ofDigitChars 10 fraction significand < Nat.pow 2 64) (htail : StopsBefore tail) :
    fractionPart significand ('.' :: fraction ++ tail) =
      .ok (Nat.ofDigitChars 10 fraction significand, some fraction.length, tail) := by
  have habsorb : absorb significand (fraction ++ tail) =
      (Nat.ofDigitChars 10 fraction significand, tail) := by
    rw [absorb_digits_append hdigits hfit, htail.absorb]
  have hlength : (fraction ++ tail).length - tail.length = fraction.length := by
    rw [List.length_append, Nat.add_sub_cancel]
  obtain ⟨c, cs, rfl⟩ := List.exists_cons_of_ne_nil hne
  rw [List.cons_append] at habsorb hlength
  rw [List.cons_append, List.cons_append, fractionPart, if_pos (hdigits c List.mem_cons_self),
    habsorb]
  dsimp only
  rw [htail.takeWhile.2, hlength]

theorem exponentPart_powerText (p : ℤ) {tail : List Char} (htail : StopsBefore tail) :
    exponentPart (Parts.powerText (some p) ++ tail) = .ok (some p, tail) := by
  obtain ⟨htake, hdrop⟩ := htail.takeWhile
  have hdigits := isDigit_toDigits p.natAbs
  have hfold : (Nat.toDigits 10 p.natAbs).foldl (fun n c => n * 10 + digit c) 0 = p.natAbs := by
    have hvalue := Nat.ofDigitChars_ten_toDigits (n := p.natAbs)
    rw [Nat.ofDigitChars_eq_foldl] at hvalue
    simpa only [digit, Nat.mul_comm] using hvalue
  have hpower : power ((if p < 0 then '-' else '+') :: Nat.toDigits 10 p.natAbs ++ tail) =
      .ok (p, tail) := by
    have htakeAll : (Nat.toDigits 10 p.natAbs ++ tail).takeWhile Char.isDigit =
        Nat.toDigits 10 p.natAbs := by
      rw [List.takeWhile_append_of_pos hdigits, htake, List.append_nil]
    have hdropAll : (Nat.toDigits 10 p.natAbs ++ tail).dropWhile Char.isDigit = tail := by
      rw [List.dropWhile_append_of_pos hdigits, hdrop]
    cases htext : Nat.toDigits 10 p.natAbs with
    | nil => exact absurd htext Nat.toDigits_ne_nil
    | cons c cs =>
      rw [htext] at hdigits htakeAll hdropAll hfold
      rw [List.cons_append] at htakeAll hdropAll
      rw [List.cons_append, List.cons_append, power.eq_def]
      by_cases hneg : p < 0
      · simp only [if_pos hneg, if_pos (hdigits c List.mem_cons_self), htakeAll, hdropAll, hfold]
        rw [if_true, show -(p.natAbs : ℤ) = p by omega]
      · simp only [if_neg hneg, if_pos (hdigits c List.mem_cons_self), htakeAll, hdropAll, hfold]
        rw [if_neg (by decide), show (p.natAbs : ℤ) = p by omega]
  rw [Parts.powerText, List.cons_append, exponentPart, hpower]
  rfl

theorem stopsBefore_fractionText (fraction : List Char) (power : Option ℤ) {tail : List Char}
    (htail : EndsBefore tail) :
    StopsBefore (Parts.fractionText fraction ++ (Parts.powerText power ++ tail)) ∧
      StopsBefore (Parts.powerText power ++ tail) := by
  have hpower : StopsBefore (Parts.powerText power ++ tail) := by
    cases power with
    | none => exact htail.stopsBefore
    | some p =>
      rintro _ ⟨⟩
      rfl
  refine ⟨?_, hpower⟩
  rw [Parts.fractionText]
  split
  · exact hpower
  · rintro _ ⟨⟩
    rfl

theorem fractionPart_fractionText {fraction : List Char}
    (hdigits : ∀ c ∈ fraction, c.isDigit = true) {significand : ℕ}
    (hfit : Nat.ofDigitChars 10 fraction significand < Nat.pow 2 64)
    (power : Option ℤ) {tail : List Char} (htail : EndsBefore tail) :
    fractionPart significand (Parts.fractionText fraction ++ (Parts.powerText power ++ tail)) =
      .ok (Nat.ofDigitChars 10 fraction significand,
        if fraction = [] then none else some fraction.length, Parts.powerText power ++ tail) := by
  have hstops := (stopsBefore_fractionText fraction power htail).2
  rw [Parts.fractionText]
  split
  · rename_i hnil
    subst hnil
    cases power with
    | none => exact fractionPart_of_endsBefore htail significand
    | some p => rfl
  · rename_i hne
    exact fractionPart_of_fits hne hdigits hfit hstops

theorem exponentPart_powerText_append (power : Option ℤ) {tail : List Char}
    (htail : EndsBefore tail) :
    exponentPart (Parts.powerText power ++ tail) = .ok (power, tail) := by
  cases power with
  | none => exact exponentPart_of_endsBefore htail
  | some p => exact exponentPart_powerText p htail.stopsBefore

-- A numeral whose digits fit in 64 bits.
theorem read_text {parts : Parts} (h : parts.IsNumeral)
    (hhead : parts.whole.head? ≠ some '0' ∨ parts.whole = ['0'])
    (hfit : Nat.ofDigitChars 10 (parts.whole ++ parts.fraction) 0 < Nat.pow 2 64)
    {tail : List Char} (htail : EndsBefore tail) (negative : Bool) :
    read ((if negative then ['-'] else []) ++ (parts.text ++ tail)) =
      .ok (⟨negative, Nat.ofDigitChars 10 (parts.whole ++ parts.fraction) 0,
        parts.power.getD 0 - parts.fraction.length, parts.fraction = [] ∧ parts.power = none⟩,
        tail) := by
  obtain ⟨whole, fraction, power⟩ := parts
  obtain ⟨hne, hwhole, hfraction⟩ := h
  dsimp only at *
  rw [Nat.ofDigitChars_append] at hfit
  have hfitWhole : Nat.ofDigitChars 10 whole 0 < Nat.pow 2 64 := by
    refine lt_of_le_of_lt ?_ hfit
    rw [Nat.ofDigitChars_eq_ofDigitChars_zero (l := fraction)]
    exact Nat.le_add_right_of_le (Nat.le_mul_of_pos_left _ (by positivity))
  have hminus : minus ((if negative then ['-'] else []) ++ (whole ++
      (Parts.fractionText fraction ++ (Parts.powerText power ++ tail)))) =
      (negative, whole ++ (Parts.fractionText fraction ++ (Parts.powerText power ++ tail))) := by
    refine minus_append (by simp [hne]) ?_ negative
    intro c hc
    rw [List.head?_append_of_ne_nil _ hne] at hc
    exact hwhole c (List.mem_of_mem_head? hc)
  have hstops := (stopsBefore_fractionText fraction power htail).1
  rw [Parts.text, List.append_assoc, List.append_assoc, read, hminus]
  simp only [integerPart_of_fits hne hwhole hhead hfitWhole hstops,
    fractionPart_fractionText hfraction hfit power htail, exponentPart_powerText_append power htail,
    ok_bind, Nat.ofDigitChars_append]
  by_cases hnil : fraction = []
  · subst hnil
    cases power <;> simp [pure, Except.pure]
  · cases power <;> simp [hnil, pure, Except.pure, sub_eq_neg_add]

-- An integer that ends with zeros: those that do not fit count for the exponent.
theorem read_zeros {n : ℕ} (hpos : 0 < n) (hn : n < Nat.pow 2 64) (k : ℕ) {tail : List Char}
    (htail : EndsBefore tail) (negative : Bool) :
    ∃ j i, k = j + i ∧ n * 10 ^ j < 2 ^ 64 ∧ (i = 0 ∨ 2 ^ 64 ≤ n * 10 ^ (j + 1)) ∧
      read ((if negative then ['-'] else []) ++
        (Nat.toDigits 10 n ++ List.replicate k '0' ++ tail)) =
        .ok (⟨negative, n * 10 ^ j, i, i = 0⟩, tail) := by
  obtain ⟨j, i, hk, hj, hi, hinteger⟩ := integerPart_zeros hpos hn k htail.stopsBefore
  refine ⟨j, i, hk, hj, hi, ?_⟩
  have hne : Nat.toDigits 10 n ≠ [] := Nat.toDigits_ne_nil
  have hminus : minus ((if negative then ['-'] else []) ++
      (Nat.toDigits 10 n ++ List.replicate k '0' ++ tail)) =
      (negative, Nat.toDigits 10 n ++ List.replicate k '0' ++ tail) := by
    refine minus_append (by simp [hne]) ?_ negative
    intro c hc
    rw [List.append_assoc, List.head?_append_of_ne_nil _ hne] at hc
    exact isDigit_toDigits n c (List.mem_of_mem_head? hc)
  rw [read, hminus]
  simp only [hinteger, fractionPart_of_endsBefore htail, exponentPart_of_endsBefore htail, ok_bind]
  simp [pure, Except.pure]

-- What the reader takes from the text of a decimal: its digits as the significand, and of the zeros
-- at the end of an integer as many as fit in 64 bits.
inductive Takes (d : Decimal) : ℕ → ℤ → Prop
  | digits (h : d.exponent < 0 ∨ 21 < d.point) : Takes d d.digits d.exponent
  | zeros {j i : ℕ} (hexponent : d.exponent = j + i) (hpoint : d.point ≤ 21)
      (hfit : d.digits * 10 ^ j < 2 ^ 64) (hfull : i = 0 ∨ 2 ^ 64 ≤ d.digits * 10 ^ (j + 1)) :
      Takes d (d.digits * 10 ^ j) i

-- The text determines what is taken from it.
theorem Takes.unique {d : Decimal} {m n : ℕ} {i k : ℤ} (h : Takes d m i)
    (hother : Takes d n k) : m = n ∧ i = k := by
  have hstop {j l i' : ℕ} (hfit : d.digits * 10 ^ l < 2 ^ 64)
      (hfull : i' = 0 ∨ 2 ^ 64 ≤ d.digits * 10 ^ (j + 1)) (hsum : l ≤ j + i') : l ≤ j := by
    by_contra hlt
    rcases hfull with rfl | hfull
    · omega
    · have := Nat.mul_le_mul_left d.digits (Nat.pow_le_pow_right (by decide : 0 < 10)
        (show j + 1 ≤ l by omega))
      omega
  cases h with
  | digits hlayout =>
    cases hother with
    | digits => exact ⟨rfl, rfl⟩
    | zeros => omega
  | @zeros j i hexponent hpoint hfit hfull =>
    cases hother with
    | digits => omega
    | @zeros l k hexponent' hpoint' hfit' hfull' =>
      have := hstop hfit' hfull (by omega)
      have := hstop hfit hfull' (by omega)
      obtain rfl : j = l := by omega
      exact ⟨rfl, by omega⟩

theorem Takes.lt {d : Decimal} {significand : ℕ} {exponent : ℤ}
    (h : Takes d significand exponent) (hfit : d.digits < 2 ^ 64) : significand < 2 ^ 64 := by
  cases h with
  | digits => exact hfit
  | zeros hexponent hpoint hfit => exact hfit

-- The text of an integer is its digits and zeros.
theorem text_ofDigits_integer {d : Decimal} (hexponent : 0 ≤ d.exponent) (hpoint : d.point ≤ 21) :
    (Parts.ofDigits (Nat.toDigits 10 d.digits) (d.point - 1)).text =
      Nat.toDigits 10 d.digits ++ List.replicate d.exponent.toNat '0' := by
  have hlength : (Nat.toDigits 10 d.digits).length = d.length := rfl
  have hpos := d.length_pos
  have hzeros : (d.point - 1 + 1).toNat - d.length = d.exponent.toNat := by
    rw [Decimal.point]
    omega
  rw [Decimal.point] at hpoint
  rw [Parts.ofDigits, if_pos (by rw [Decimal.point]; omega), if_neg (by rw [Decimal.point]; omega),
    if_pos (by rw [hlength, Decimal.point]; omega), hlength, hzeros]
  simp [Parts.text, Parts.fractionText, Parts.powerText]

-- In all other texts the digits stand as they are, with a point or a power of ten.
theorem ofDigits_spec {d : Decimal} (hpos : 0 < d.digits)
    (hlayout : d.exponent < 0 ∨ 21 < d.point) :
    let parts := Parts.ofDigits (Nat.toDigits 10 d.digits) (d.point - 1)
    (parts.whole.head? ≠ some '0' ∨ parts.whole = ['0']) ∧
      Nat.ofDigitChars 10 (parts.whole ++ parts.fraction) 0 = d.digits ∧
      parts.power.getD 0 - parts.fraction.length = d.exponent ∧
      ¬ (parts.fraction = [] ∧ parts.power = none) := by
  have hlength : (Nat.toDigits 10 d.digits).length = d.length := rfl
  have hlengthPos := d.length_pos
  have hhead := head?_toDigits_ne_zero hpos
  have htake (n : ℕ) (hn : 0 < n) : ((Nat.toDigits 10 d.digits).take n).head? ≠ some '0' := by
    rwa [List.head?_take, if_neg (by omega)]
  have hpoint : d.point = d.length + d.exponent := rfl
  unfold Parts.ofDigits
  split
  · split
    · refine ⟨.inr rfl, ?_, ?_, by simp⟩
      · rw [Parts.ofDigitChars_leading_zeros, Nat.ofDigitChars_ten_toDigits]
      · simp only [Option.getD_none, List.length_append, List.length_replicate, hlength]
        omega
    · rw [if_neg (by rw [hlength]; omega)]
      refine ⟨.inl (htake _ (by omega)), ?_, ?_, ?_⟩
      · rw [List.take_append_drop, Nat.ofDigitChars_ten_toDigits]
      · simp only [Option.getD_none, List.length_drop, hlength]
        omega
      · simp only [List.drop_eq_nil_iff, hlength]
        omega
  · refine ⟨.inl (htake 1 (by omega)), ?_, ?_, by simp⟩
    · rw [List.take_append_drop, Nat.ofDigitChars_ten_toDigits]
    · simp only [Option.getD_some, List.length_drop, hlength]
      omega

theorem read_decimal {d : Decimal} (hpos : 0 < d.digits) (hfit : d.digits < Nat.pow 2 64)
    {tail : List Char} (htail : EndsBefore tail) (negative : Bool) :
    ∃ significand exponent isInteger, Takes d significand exponent ∧
      (isInteger = true → exponent = 0) ∧
      read ((if negative then ['-'] else []) ++
        ((Parts.ofDigits (Nat.toDigits 10 d.digits) (d.point - 1)).text ++ tail)) =
        .ok (⟨negative, significand, exponent, isInteger⟩, tail) := by
  have hnumeral := Parts.isNumeral_ofDigits Nat.toDigits_ne_nil (isDigit_toDigits d.digits)
    (d.point - 1)
  by_cases hinteger : 0 ≤ d.exponent ∧ d.point ≤ 21
  · obtain ⟨j, i, hk, hj, hi, hread⟩ := read_zeros hpos hfit d.exponent.toNat htail negative
    rw [text_ofDigits_integer hinteger.1 hinteger.2]
    exact ⟨_, _, _, .zeros (by omega) hinteger.2 hj hi, by simp, hread⟩
  · obtain ⟨hhead, hdigits, hexponent, hnot⟩ := ofDigits_spec hpos (by omega)
    have hread := read_text hnumeral hhead (by rwa [hdigits]) htail negative
    rw [hdigits, hexponent] at hread
    exact ⟨_, _, _, .digits (by omega), fun h => absurd (of_decide_eq_true h) hnot, hread⟩

-- A number is scaled in every case: an integer by one.
theorem map_value {significand : ℕ} (hfit : significand < 2 ^ 64) {exponent : ℤ} {isInteger : Bool}
    (hinteger : isInteger = true → exponent = 0) (negative : Bool) :
    (value ⟨negative, significand, exponent, isInteger⟩).map Number.toFloat =
      (scale (Float.ofNat significand) exponent).map fun y => if negative then -y else y := by
  cases isInteger
  · unfold value
    dsimp only
    rw [if_neg (by decide)]
    cases scale (Float.ofNat significand) exponent <;> rfl
  · rw [hinteger rfl, Double.scale_zero (Double.isMagnitude_ofNat hfit)]
    unfold value
    dsimp only
    rw [if_pos rfl]
    cases negative
    · rfl
    · rw [if_neg (by decide)]
      split
      · rename_i hpos
        obtain ⟨n, rfl⟩ : ∃ n, significand = n + 1 :=
          Nat.exists_eq_succ_of_ne_zero (by rintro rfl; simp at hpos)
        rfl
      · rfl

end Estree.Json.Numeral
