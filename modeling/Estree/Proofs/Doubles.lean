import Mathlib
import Estree.Decimal.Shortest

namespace Estree.Double

-- The magnitude of the double whose bits apart from the sign are `code`: a fraction of 52 bits
-- below the exponent, in units of the least double where the exponent is zero, and with a leading
-- one elsewhere.
def magnitude (code : ℕ) : ℚ :=
  if code / 2 ^ 52 = 0 then code * 2 ^ (-1074 : ℤ)
  else (2 ^ 52 + code % 2 ^ 52 : ℕ) * 2 ^ ((code / 2 ^ 52 : ℕ) - 1075 : ℤ)

-- The code of infinity. The codes below it are those of the finite doubles.
def infinity : ℕ := 2047 * 2 ^ 52

-- From here on magnitudes are too large for a double: half a step above the largest one.
def overflow : ℚ := 2 ^ 1024 - 2 ^ 970

-- The codes of the doubles with a common distance, `2 ^ (e - 1074)`, are consecutive. The range
-- holds the first double beyond as well.
theorem magnitude_eq {e m : ℕ} (hm : m ≤ 2 ^ 53) (hnormal : 2 ^ 52 ≤ m ∨ e = 0) :
    magnitude (e * 2 ^ 52 + m) = m * 2 ^ (e - 1074 : ℤ) := by
  rcases Nat.lt_or_ge m (2 ^ 52) with hlt | hge
  · obtain rfl : e = 0 := by omega
    have hzero : (0 * 2 ^ 52 + m) / 2 ^ 52 = 0 := by omega
    rw [magnitude, if_pos hzero]
    simp
  · rcases Nat.lt_or_ge m (2 ^ 53) with hlt | hge
    · have hdiv : (e * 2 ^ 52 + m) / 2 ^ 52 = e + 1 := by omega
      have hmod : 2 ^ 52 + (e * 2 ^ 52 + m) % 2 ^ 52 = m := by omega
      rw [magnitude, hdiv, hmod, if_neg (Nat.succ_ne_zero e)]
      congr 2
      push_cast
      ring
    · obtain rfl : m = 2 ^ 53 := by omega
      have hdiv : (e * 2 ^ 52 + 2 ^ 53) / 2 ^ 52 = e + 2 := by omega
      have hmod : 2 ^ 52 + (e * 2 ^ 52 + 2 ^ 53) % 2 ^ 52 = 2 ^ 52 := by omega
      have hexp : ((e + 2 : ℕ) : ℤ) - 1075 = (e - 1074 : ℤ) + 1 := by push_cast; ring
      rw [magnitude, hdiv, hmod, if_neg (Nat.succ_ne_zero _), hexp, zpow_add_one₀ two_ne_zero]
      push_cast
      ring

theorem magnitude_succ {e m : ℕ} (hm : m < 2 ^ 53) (hnormal : 2 ^ 52 ≤ m ∨ e = 0) :
    magnitude (e * 2 ^ 52 + m + 1) = (m + 1) * 2 ^ (e - 1074 : ℤ) := by
  rw [Nat.add_assoc, magnitude_eq hm (by omega)]
  push_cast
  rfl

theorem magnitude_pred {e m : ℕ} (hm : m ≤ 2 ^ 53) (hnormal : 2 ^ 52 < m ∨ e = 0 ∧ 0 < m) :
    magnitude (e * 2 ^ 52 + m - 1) = (m - 1) * 2 ^ (e - 1074 : ℤ) := by
  rw [Nat.add_sub_assoc (by omega), magnitude_eq (by omega) (by omega), Nat.cast_sub (by omega),
    Nat.cast_one]

-- Below the first double of a range the distance is half as large.
theorem magnitude_pred_first {e : ℕ} (he : 0 < e) :
    magnitude (e * 2 ^ 52 + 2 ^ 52 - 1) = (2 ^ 52 - 1 / 2) * 2 ^ (e - 1074 : ℤ) := by
  have hcode : e * 2 ^ 52 + 2 ^ 52 - 1 = (e - 1) * 2 ^ 52 + (2 ^ 53 - 1) := by omega
  have hexp : (e : ℤ) - 1074 = ((e - 1 : ℕ) - 1074 : ℤ) + 1 := by omega
  rw [hcode, magnitude_eq (by omega) (by omega), hexp, zpow_add_one₀ two_ne_zero]
  push_cast
  ring

-- The next double is a unit further up, or two.
theorem le_magnitude_succ {e m : ℕ} (hm : m ≤ 2 ^ 53) (hnormal : 2 ^ 52 ≤ m ∨ e = 0) :
    (m + 1) * 2 ^ (e - 1074 : ℤ) ≤ magnitude (e * 2 ^ 52 + m + 1) := by
  rcases Nat.lt_or_ge m (2 ^ 53) with hlt | hge
  · rw [magnitude_succ hlt hnormal]
  · have hshift : e * 2 ^ 52 + m + 1 = (e + 1) * 2 ^ 52 + 2 ^ 52 + 1 := by omega
    have hexp : ((e + 1 : ℕ) : ℤ) - 1074 = (e - 1074 : ℤ) + 1 := by push_cast; ring
    have htwice : (m : ℚ) = 2 * 2 ^ 52 := by
      rw [show m = 2 ^ 53 by omega]
      norm_num
    have hpos : (0 : ℚ) < 2 ^ (e - 1074 : ℤ) := by positivity
    rw [hshift, magnitude_succ (by omega) (by omega), hexp, zpow_add_one₀ two_ne_zero, htwice]
    push_cast
    linarith

-- The one before is a unit further down, except below the first of a range.
theorem magnitude_pred_cases {e m : ℕ} (hm : m ≤ 2 ^ 53) (hnormal : 2 ^ 52 ≤ m ∨ e = 0)
    (hpositive : 0 < e * 2 ^ 52 + m) :
    magnitude (e * 2 ^ 52 + m - 1) = (m - 1) * 2 ^ (e - 1074 : ℤ) ∨
      0 < e ∧ m = 2 ^ 52 ∧ magnitude (e * 2 ^ 52 + m - 1) < m * 2 ^ (e - 1074 : ℤ) := by
  by_cases hfirst : m = 2 ^ 52 ∧ 0 < e
  · obtain ⟨rfl, he⟩ := hfirst
    have hpos : (0 : ℚ) < 2 ^ (e - 1074 : ℤ) := by positivity
    refine .inr ⟨he, rfl, ?_⟩
    rw [magnitude_pred_first he]
    push_cast
    nlinarith
  · exact .inl (magnitude_pred hm (by omega))

-- Every code belongs to such a range.
theorem exists_range (code : ℕ) :
    ∃ e m, code = e * 2 ^ 52 + m ∧ m < 2 ^ 53 ∧ (2 ^ 52 ≤ m ∨ e = 0) := by
  rcases Nat.lt_or_ge code (2 ^ 52) with hlt | hge
  · exact ⟨0, code, by omega, by omega, .inr rfl⟩
  · exact ⟨code / 2 ^ 52 - 1, 2 ^ 52 + code % 2 ^ 52, by omega, by omega, .inl (by omega)⟩

theorem magnitude_strictMono : StrictMono magnitude := by
  refine strictMono_nat_of_lt_succ fun code => ?_
  obtain ⟨e, m, rfl, hm, hnormal⟩ := exists_range code
  have hunit : (0 : ℚ) < 2 ^ (e - 1074 : ℤ) := by positivity
  rw [magnitude_eq hm.le hnormal, Nat.add_assoc, magnitude_eq (by omega) (by omega)]
  push_cast
  nlinarith

@[simp] theorem magnitude_zero : magnitude 0 = 0 := by
  simp [magnitude]

theorem magnitude_nonneg (code : ℕ) : 0 ≤ magnitude code := by
  rw [← magnitude_zero]
  exact magnitude_strictMono.monotone (Nat.zero_le code)

theorem magnitude_pos {code : ℕ} (h : 0 < code) : 0 < magnitude code := by
  rw [← magnitude_zero]
  exact magnitude_strictMono h

-- The numbers that round to a double: up to half way to its neighbours, the half way itself
-- included if the code is even. Above the largest double, the neighbour is the number that would be
-- the next one.
structure InCell (q : ℚ) (code : ℕ) : Prop where
  nonneg : 0 ≤ q
  lower : 0 < code → magnitude (code - 1) + magnitude code ≤ 2 * q
  lower_even : 0 < code → magnitude (code - 1) + magnitude code = 2 * q → code % 2 = 0
  upper : 2 * q ≤ magnitude code + magnitude (code + 1)
  upper_even : 2 * q = magnitude code + magnitude (code + 1) → code % 2 = 0

theorem magnitude_infinity : magnitude (infinity - 1) + magnitude infinity = 2 * overflow := by
  have hlast : infinity - 1 = 2045 * 2 ^ 52 + (2 ^ 53 - 1) := by decide
  have hnext : infinity = 2046 * 2 ^ 52 + 2 ^ 52 := by decide
  have hlastUnit : (2 : ℚ) ^ ((2045 : ℕ) - 1074 : ℤ) = 2 * 2 ^ 970 := by
    rw [← pow_succ', ← zpow_natCast]
    norm_num
  have hnextUnit : (2 : ℚ) ^ ((2046 : ℕ) - 1074 : ℤ) = 2 ^ 2 * 2 ^ 970 := by
    rw [← pow_add, ← zpow_natCast]
    norm_num
  have htop : (2 : ℚ) ^ 1024 = 2 ^ 54 * 2 ^ 970 := by rw [← pow_add]
  rw [hlast, magnitude_eq (by omega) (by omega), hnext, magnitude_eq (by omega) (by omega),
    hlastUnit, hnextUnit, overflow, htop]
  generalize (2 : ℚ) ^ 970 = unit
  push_cast
  ring

namespace InCell

variable {q r : ℚ} {code other : ℕ}

-- A larger number does not round to a smaller one.
theorem le_of_le (h : InCell q code) (hother : InCell r other) (hle : q ≤ r) : code ≤ other := by
  by_contra hlt
  rw [not_le] at hlt
  have hbelow : magnitude other ≤ magnitude (code - 1) :=
    magnitude_strictMono.monotone (by omega)
  have habove : magnitude (other + 1) ≤ magnitude code :=
    magnitude_strictMono.monotone (by omega)
  have hlower := h.lower (by omega)
  have hupper := hother.upper
  -- the two cells touch, so they are neighbours and hold the border both
  have hnext : code = other + 1 :=
    magnitude_strictMono.injective (by linarith)
  have hcode := h.lower_even (by omega) (by linarith)
  have hothers := hother.upper_even (by linarith)
  omega

theorem unique (h : InCell q code) (hother : InCell q other) : code = other :=
  le_antisymm (h.le_of_le hother le_rfl) (hother.le_of_le h le_rfl)

-- A double is in its own cell.
theorem self (code : ℕ) : InCell (magnitude code) code where
  nonneg := magnitude_nonneg code
  lower hpos := by
    have := magnitude_strictMono.monotone (show code - 1 ≤ code by omega)
    linarith
  lower_even hpos heq := by
    have := magnitude_strictMono (show code - 1 < code by omega)
    linarith
  upper := by
    have := magnitude_strictMono.monotone (Nat.le_succ code)
    linarith
  upper_even heq := by
    have := magnitude_strictMono (Nat.lt_succ_self code)
    linarith

-- The numbers of a cell have no gap.
theorem of_between {s : ℚ} (hq : InCell q code) (hs : InCell s code) (hqr : q ≤ r) (hrs : r ≤ s) :
    InCell r code where
  nonneg := hq.nonneg.trans hqr
  lower hpos := by linarith [hq.lower hpos]
  lower_even hpos heq := hq.lower_even hpos (by linarith [hq.lower hpos])
  upper := by linarith [hs.upper]
  upper_even heq := hs.upper_even (by linarith [hs.upper])

-- No double is nearer to a number than the one it rounds to.
theorem nearest (h : InCell q code) (other : ℕ) :
    |q - magnitude code| ≤ |q - magnitude other| := by
  rcases lt_trichotomy other code with hlt | rfl | hlt
  · have hbelow : magnitude other ≤ magnitude (code - 1) :=
      magnitude_strictMono.monotone (by omega)
    have hlower := h.lower (by omega)
    have := magnitude_strictMono hlt
    rw [abs_le]
    constructor <;> cases abs_cases (q - magnitude other) <;> linarith
  · exact le_rfl
  · have habove : magnitude (code + 1) ≤ magnitude other :=
      magnitude_strictMono.monotone (by omega)
    have hupper := h.upper
    have := magnitude_strictMono hlt
    rw [abs_le]
    constructor <;> cases abs_cases (q - magnitude other) <;> linarith

theorem even_of_tie (h : InCell q code) {n : ℕ} (hne : n ≠ code)
    (htie : |q - magnitude n| = |q - magnitude code|) : code % 2 = 0 := by
  rcases lt_or_gt_of_ne hne with hlt | hlt
  · have hbelow : magnitude n ≤ magnitude (code - 1) :=
      magnitude_strictMono.monotone (by omega)
    have hlower := h.lower (by omega)
    have := magnitude_strictMono hlt
    refine h.lower_even (by omega) ?_
    cases abs_cases (q - magnitude n) <;> cases abs_cases (q - magnitude code) <;> linarith
  · have habove : magnitude (code + 1) ≤ magnitude n :=
      magnitude_strictMono.monotone (by omega)
    have hupper := h.upper
    have := magnitude_strictMono hlt
    refine h.upper_even ?_
    cases abs_cases (q - magnitude n) <;> cases abs_cases (q - magnitude code) <;> linarith

-- The cells of the finite doubles end where magnitudes become too large.
theorem lt_infinity_iff (h : InCell q code) : code < infinity ↔ q < overflow := by
  have hmiddle := magnitude_infinity
  constructor
  · intro hlt
    have hupper := h.upper
    have hcode : magnitude code ≤ magnitude (infinity - 1) :=
      magnitude_strictMono.monotone (by omega)
    have hsucc : magnitude (code + 1) ≤ magnitude infinity :=
      magnitude_strictMono.monotone (by omega)
    refine lt_of_le_of_ne (by linarith) fun heq => ?_
    have hcode : code + 1 = infinity := magnitude_strictMono.injective (by linarith)
    have heven := h.upper_even (by linarith)
    simp only [infinity] at hcode
    omega
  · intro hlt
    by_contra hge
    rw [not_lt] at hge
    have hpos : 0 < code := lt_of_lt_of_le (by decide) hge
    have hlower := h.lower hpos
    have hpred : magnitude (infinity - 1) ≤ magnitude (code - 1) :=
      magnitude_strictMono.monotone (by omega)
    have hcode : magnitude infinity ≤ magnitude code := magnitude_strictMono.monotone hge
    linarith

end InCell

-- A number on a grid of doubles rounds to the grid point that it is nearest to, a tie going to the
-- even one.
theorem inCell_of_rounded {r : ℚ} {e m : ℕ} (hnonneg : 0 ≤ r) (htop : r ≤ 2 ^ 53)
    (hbottom : 2 ^ 52 ≤ r ∨ e = 0) (hnear : |r - m| ≤ 1 / 2)
    (heven : |r - m| = 1 / 2 → m % 2 = 0) :
    InCell (r * 2 ^ (e - 1074 : ℤ)) (e * 2 ^ 52 + m) := by
  obtain ⟨hleft, hright⟩ := abs_le.mp hnear
  have hm : m ≤ 2 ^ 53 := by
    have : (m : ℚ) < 2 ^ 53 + 1 := by linarith
    exact Nat.lt_succ_iff.mp (by exact_mod_cast this)
  have hnormal : 2 ^ 52 ≤ m ∨ e = 0 := by
    refine hbottom.imp_left fun h => ?_
    have : (2 ^ 52 : ℚ) < m + 1 := by linarith
    exact Nat.lt_succ_iff.mp (by exact_mod_cast this)
  have hcode := magnitude_eq hm hnormal
  have habove := le_magnitude_succ hm hnormal
  have hbelow := magnitude_pred_cases hm hnormal
  have hparity (h : m % 2 = 0) : (e * 2 ^ 52 + m) % 2 = 0 := by omega
  have hpos : (0 : ℚ) < 2 ^ (e - 1074 : ℤ) := by positivity
  generalize (2 : ℚ) ^ (e - 1074 : ℤ) = unit at *
  -- at the first double of a range the number is not below it
  have hfirst (he : 0 < e) (hm : m = 2 ^ 52) : m * unit ≤ r * unit := by
    have hle := hbottom.resolve_right he.ne'
    rw [hm, Nat.cast_pow, Nat.cast_ofNat]
    gcongr
  refine ⟨by positivity, fun hpositive => ?_, fun hpositive heq => hparity (heven ?_), ?_,
    fun heq => hparity (heven ?_)⟩
  · rw [hcode]
    rcases hbelow hpositive with hpred | ⟨he, hm, hlt⟩
    · rw [hpred]
      nlinarith
    · linarith [hfirst he hm]
  · rw [hcode] at heq
    rcases hbelow hpositive with hpred | ⟨he, hm, hlt⟩
    · have hhalf : r - m = -(1 / 2) := by
        apply mul_right_cancel₀ hpos.ne'
        linarith
      rw [hhalf]
      norm_num
    · linarith [hfirst he hm]
  · rw [hcode]
    nlinarith
  · rw [hcode] at heq
    have hhalf : r - m = 1 / 2 := by
      apply le_antisymm hright
      apply le_of_mul_le_mul_right _ hpos
      linarith
    rw [hhalf]
    norm_num

end Estree.Double
