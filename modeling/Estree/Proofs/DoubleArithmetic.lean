import Estree.Proofs.DoubleBits
import Estree.Json.Numeral

open Float.Model (Format UnpackedFloat totalExponent)
open Float.Model.UnpackedFloat (Sign Accuracy ExtendedMantissa shiftToTargetExponent
  shiftToExponent roundWithAccuracy)

open Estree.Json.Numeral (powerOfTen)

namespace Estree.Double

-- A mantissa with its two further bits stands for the number `r`: the first of them counts a half,
-- the other one says whether there is more.
def Describes (em : ExtendedMantissa) (r : ℚ) : Prop :=
  ∃ rest : ℚ, 0 ≤ rest ∧ rest < 1 / 2 ∧ (em.stickyBit ↔ 0 < rest) ∧
    r = em.mantissa + (if em.roundBit then 1 / 2 else 0) + rest

namespace Describes

variable {em : ExtendedMantissa} {r : ℚ}

theorem exact (m : ℕ) : Describes (.ofMantissaAndAccuracy m .exact) m :=
  ⟨0, by simp [ExtendedMantissa.ofMantissaAndAccuracy]⟩

theorem shiftRightOne (h : Describes em r) : Describes em.shiftRightOne (r / 2) := by
  obtain ⟨rest, hnonneg, hlt, hsticky, rfl⟩ := h
  have hmantissa : (em.mantissa : ℚ) = 2 * (em.mantissa / 2 : ℕ) + (em.mantissa % 2 : ℕ) := by
    exact_mod_cast (Nat.div_add_mod em.mantissa 2).symm
  have hround :
      (if em.shiftRightOne.roundBit then 1 / 2 else 0 : ℚ) = (em.mantissa % 2 : ℕ) / 2 := by
    rcases Nat.mod_two_eq_zero_or_one em.mantissa with heq | heq <;>
      simp [ExtendedMantissa.shiftRightOne, heq]
  refine ⟨(if em.roundBit then 1 / 2 else 0) / 2 + rest / 2, ?_, ?_, ?_, ?_⟩
  · split <;> linarith
  · split <;> linarith
  · rw [ExtendedMantissa.shiftRightOne, Bool.or_eq_true, hsticky]
    cases em.roundBit
    · simp
    · simp
      linarith
  · rw [hround]
    change _ = ((em.mantissa / 2 : ℕ) : ℚ) + _ + _
    linarith

theorem shiftRight (h : Describes em r) (k : ℕ) : Describes (em >>> k) (r / 2 ^ k) := by
  change Describes (k.repeat _ em) _
  induction k with
  | zero => simpa [Nat.repeat] using h
  | succ k ih =>
    rw [pow_succ, ← div_div]
    exact ih.shiftRightOne

theorem bounds (h : Describes em r) : em.mantissa ≤ r ∧ r < em.mantissa + 1 := by
  obtain ⟨rest, hnonneg, hlt, -, rfl⟩ := h
  constructor <;> split <;> linarith

-- The number is rounded to the nearest integer, from half way to the even one.
theorem roundedMantissa (h : Describes em r) :
    |r - em.roundedMantissa| ≤ 1 / 2 ∧
      (|r - em.roundedMantissa| = 1 / 2 → em.roundedMantissa % 2 = 0) := by
  obtain ⟨rest, hnonneg, hlt, hsticky, rfl⟩ := h
  obtain ⟨m, round, sticky⟩ := em
  dsimp only at hsticky ⊢
  cases round <;> cases sticky
  · obtain rfl : rest = 0 := le_antisymm (not_lt.mp (hsticky.not.mp (by simp))) hnonneg
    change |(m : ℚ) + 0 + 0 - m| ≤ 1 / 2 ∧ (|(m : ℚ) + 0 + 0 - m| = 1 / 2 → _)
    norm_num
  · have hpos := hsticky.mp rfl
    change |(m : ℚ) + 0 + rest - m| ≤ 1 / 2 ∧ (|(m : ℚ) + 0 + rest - m| = 1 / 2 → _)
    rw [show (m : ℚ) + 0 + rest - m = rest by ring, abs_of_pos hpos]
    exact ⟨hlt.le, fun heq => absurd heq hlt.ne⟩
  · obtain rfl : rest = 0 := le_antisymm (not_lt.mp (hsticky.not.mp (by simp))) hnonneg
    change |(m : ℚ) + 1 / 2 + 0 - (m + m % 2 : ℕ)| ≤ 1 / 2 ∧ (_ → (m + m % 2) % 2 = 0)
    refine ⟨?_, fun _ => by omega⟩
    rcases Nat.mod_two_eq_zero_or_one m with heq | heq <;> rw [heq, abs_le] <;> push_cast <;>
      constructor <;> linarith
  · have hpos := hsticky.mp rfl
    change |(m : ℚ) + 1 / 2 + rest - (m + 1 : ℕ)| ≤ 1 / 2 ∧
      (|(m : ℚ) + 1 / 2 + rest - (m + 1 : ℕ)| = 1 / 2 → _)
    rw [show (m : ℚ) + 1 / 2 + rest - (m + 1 : ℕ) = -(1 / 2 - rest) by push_cast; ring, abs_neg,
      abs_of_pos (by linarith)]
    exact ⟨by linarith, fun heq => absurd heq (by linarith)⟩

end Describes

theorem targetExponent_eq (m : ℕ) (e : ℤ) :
    Format.binary64.targetExponent (totalExponent m e) = max (m.log2 + e - 52) (-1074) := by
  change max ((m.log2 : ℤ) + 1 + e - 53) (3 - 2 ^ 10 - 53) = _
  norm_num
  omega

-- A mantissa that fits is not shifted, and one that rounding has carried too far fits after one
-- step.
theorem shiftToTargetExponent_of_le {m : ℕ} {e : ℤ} (hm : m ≤ 2 ^ 53) (he : -1074 ≤ e) :
    shiftToTargetExponent Format.binary64 m e .exact =
      if m = 2 ^ 53 then (⟨2 ^ 52, false, false⟩, e + 1) else (⟨m, false, false⟩, e) := by
  rw [shiftToTargetExponent, targetExponent_eq]
  split
  · rename_i heq
    have hlog : m.log2 = 53 := by rw [heq, Nat.log2_two_pow]
    have hshift : (max ((m.log2 : ℤ) + e - 52) (-1074) - e).toNat = 1 := by omega
    simp only [shiftToExponent, hshift]
    rw [heq]
    rfl
  · have hlog : m.log2 < 53 := by
      rcases Nat.eq_zero_or_pos m with rfl | hpos
      · decide
      · exact (Nat.log2_lt hpos.ne').mpr (by omega)
    have hshift : (max ((m.log2 : ℤ) + e - 52) (-1074) - e).toNat = 0 := by omega
    simp only [shiftToExponent, hshift, Nat.cast_zero, add_zero]
    rfl

-- A double that is not negative holds the rounded value of a number, or infinity.
def Rounds (q : ℚ) (x : Float) : Prop :=
  isNegative x = false ∧ ∃ n, InCell q n ∧ code x = min n infinity

theorem mantissa_shiftRight (em : ExtendedMantissa) (k : ℕ) :
    (em >>> k).mantissa = em.mantissa / 2 ^ k := by
  change (k.repeat _ em).mantissa = _
  induction k with
  | zero => simp [Nat.repeat]
  | succ k ih =>
    change (k.repeat _ em).mantissa / 2 = _
    rw [ih, Nat.div_div_eq_div_mul, pow_succ]

theorem mantissa_ofMantissaAndAccuracy (m : ℕ) (accuracy : Accuracy) :
    (ExtendedMantissa.ofMantissaAndAccuracy m accuracy).mantissa = m := by
  unfold ExtendedMantissa.ofMantissaAndAccuracy
  split <;> rfl

theorem roundedMantissa_bounds (em : ExtendedMantissa) :
    em.mantissa ≤ em.roundedMantissa ∧ em.roundedMantissa ≤ em.mantissa + 1 := by
  obtain ⟨m, round, sticky⟩ := em
  cases round <;> cases sticky <;>
    simp only [ExtendedMantissa.roundedMantissa, ExtendedMantissa.accuracy,
      Accuracy.roundToNearestEven] <;> omega

-- What a rounded mantissa is stored as, the carry included.
theorem packed_rounded {target m : ℕ} (hm : m ≤ 2 ^ 53) (hnormal : 2 ^ 52 ≤ m ∨ target = 0)
    {final : ExtendedMantissa × ℤ}
    (hfinal : shiftToTargetExponent Format.binary64 m (target - 1074) .exact = final) :
    let u : UnpackedFloat := if h : final.1.mantissa = 0 then .zero .positive
      else .finite .positive final.1.mantissa final.2 (Nat.pos_of_ne_zero h)
    code (packed u) = min (target * 2 ^ 52 + m) infinity ∧ isNegative (packed u) = false := by
  intro u
  rw [shiftToTargetExponent_of_le hm (by omega)] at hfinal
  subst hfinal
  by_cases hcarry : m = 2 ^ 53
  · subst hcarry
    have hexponent : (target : ℤ) - 1074 + 1 = (target + 1 : ℕ) - 1074 := by push_cast; ring
    have hcode : (target + 1) * 2 ^ 52 + 2 ^ 52 = target * 2 ^ 52 + 2 ^ 53 := by omega
    rw [← hcode]
    simp only [u, if_true, hexponent]
    exact packed_finite .positive _ (by decide) (.inl le_rfl)
  · simp only [u, if_neg hcarry]
    by_cases hzero : m = 0
    · obtain rfl : target = 0 := by omega
      subst hzero
      simp only [dite_true]
      exact packed_zero .positive
    · simp only [dif_neg hzero]
      exact packed_finite .positive _ (by omega) hnormal

-- With 53 bits left, or fewer at the least exponent, the number goes to the rounded mantissa.
theorem Describes.inCell {em : ExtendedMantissa} {r : ℚ} (h : Describes em r) {target : ℕ}
    (hlt : em.mantissa < 2 ^ 53) (hge : 2 ^ 52 ≤ em.mantissa ∨ target = 0) :
    InCell (r * 2 ^ (target - 1074 : ℤ)) (target * 2 ^ 52 + em.roundedMantissa) := by
  obtain ⟨hlower, hupper⟩ := h.bounds
  obtain ⟨hnear, heven⟩ := h.roundedMantissa
  refine inCell_of_rounded ((Nat.cast_nonneg _).trans hlower) ?_ ?_ hnear heven
  · have : (em.mantissa : ℚ) + 1 ≤ 2 ^ 53 := by exact_mod_cast hlt
    linarith
  · refine hge.imp_left fun hle => ?_
    have : (2 : ℚ) ^ 52 ≤ em.mantissa := by exact_mod_cast hle
    linarith

-- As many bits are left after the shift to the target exponent.
theorem shifted_bounds {m shift target : ℕ} {e : ℤ}
    (htarget : max (m.log2 + e - 52) (-1074) = (target : ℤ) - 1074)
    (hshift : (target : ℤ) - 1074 = e + shift) :
    m / 2 ^ shift < 2 ^ 53 ∧ (2 ^ 52 ≤ m / 2 ^ shift ∨ target = 0) := by
  constructor
  · rw [Nat.div_lt_iff_lt_mul (by positivity), ← pow_add]
    exact lt_of_lt_of_le Nat.lt_log2_self (Nat.pow_le_pow_right (by decide) (by omega))
  · rcases Nat.eq_zero_or_pos m with rfl | hpos
    · right
      rw [Nat.log2_zero] at htarget
      omega
    · by_cases hzero : target = 0
      · exact .inr hzero
      · left
        rw [Nat.le_div_iff_mul_le (by positivity), ← pow_add]
        refine le_trans (Nat.pow_le_pow_right (by decide) ?_) (Nat.log2_self_le hpos.ne')
        omega

-- Rounding a number that is known to enough bits.
theorem packed_roundWithAccuracy {m : ℕ} {e : ℤ} {accuracy : Accuracy} {r : ℚ}
    (h : Describes (.ofMantissaAndAccuracy m accuracy) r)
    (he : e ≤ max (m.log2 + e - 52) (-1074)) :
    Rounds (r * 2 ^ e) (packed (roundWithAccuracy Format.binary64 .positive m e accuracy)) := by
  obtain ⟨target, htarget⟩ : ∃ target : ℕ, max (m.log2 + e - 52) (-1074) = (target : ℤ) - 1074 :=
    ⟨(max (m.log2 + e - 52) (-1074) + 1074).toNat, by omega⟩
  obtain ⟨shift, hshift⟩ : ∃ shift : ℕ, (target : ℤ) - 1074 = e + shift :=
    ⟨(target - 1074 - e).toNat, by omega⟩
  have hfirst : shiftToTargetExponent Format.binary64 m e accuracy =
      (ExtendedMantissa.ofMantissaAndAccuracy m accuracy >>> shift, (target : ℤ) - 1074) := by
    rw [shiftToTargetExponent, targetExponent_eq, htarget, hshift]
    simp only [shiftToExponent, add_sub_cancel_left, Int.toNat_natCast]
  have hmantissa : (ExtendedMantissa.ofMantissaAndAccuracy m accuracy >>> shift).mantissa =
      m / 2 ^ shift := by
    rw [mantissa_shiftRight, mantissa_ofMantissaAndAccuracy]
  have hdescribes := h.shiftRight shift
  obtain ⟨hlt, hge⟩ := shifted_bounds htarget hshift
  rw [← hmantissa] at hlt hge
  generalize ExtendedMantissa.ofMantissaAndAccuracy m accuracy >>> shift = em at *
  have hcell := hdescribes.inCell hlt hge
  -- the number in units of the last place
  have hvalue : r / 2 ^ shift * 2 ^ (target - 1074 : ℤ) = r * 2 ^ e := by
    rw [hshift, zpow_add₀ two_ne_zero, zpow_natCast]
    field_simp
  rw [hvalue] at hcell
  have hrounded := roundedMantissa_bounds em
  obtain ⟨hcode, hnegative⟩ :=
    @packed_rounded target em.roundedMantissa (by omega) (by omega) _ rfl
  rw [roundWithAccuracy, hfirst]
  exact ⟨hnegative, _, hcell, hcode⟩

-- A finite double that is not negative.
structure IsMagnitude (x : Float) : Prop where
  sign : isNegative x = false
  finite : code x < infinity

theorem unpack_of_isMagnitude {x : Float} (hx : IsMagnitude x) :
    (x.toModel.unpack = .zero .positive ∧ value x = 0) ∨
      ∃ (e m : ℕ) (hm : 0 < m), x.toModel.unpack = .finite .positive m (e - 1074) hm ∧
        value x = m * 2 ^ (e - 1074 : ℤ) ∧ (2 ^ 52 ≤ m ∨ e = 0) := by
  have hvalue := value_eq_magnitude hx.sign
  have hfinite := hx.finite
  have h := unpacks x
  rw [signOf_toBits, hx.sign, if_neg (by decide)] at h
  generalize x.toModel.unpack = u at *
  cases h with
  | zero hcode =>
    rw [hvalue, hcode]
    exact .inl ⟨rfl, magnitude_zero⟩
  | finite hm hexponent hcode _ hlt hnormal =>
    subst hexponent
    rw [hvalue, hcode, magnitude_eq hlt.le hnormal]
    exact .inr ⟨_, _, hm, rfl, rfl, hnormal⟩
  | infinity hcode => omega
  | notANumber hcode => omega

theorem rounds_zero : Rounds 0 (packed (.zero .positive)) := by
  obtain ⟨hcode, hsign⟩ := packed_zero .positive
  refine ⟨hsign, 0, ?_, hcode⟩
  rw [← magnitude_zero]
  exact InCell.self 0

theorem packed_mul_finite {m₁ m₂ : ℕ} (h₁ : 0 < m₁) (h₂ : 0 < m₂) {e₁ e₂ : ℤ}
    (he : e₁ + e₂ ≤ -1074 ∨ 2 ^ 52 ≤ m₁ * m₂) :
    Rounds (m₁ * 2 ^ e₁ * (m₂ * 2 ^ e₂)) (packed (UnpackedFloat.mul Format.binary64
      (.finite .positive m₁ e₁ h₁) (.finite .positive m₂ e₂ h₂))) := by
  have hvalue : (m₁ * 2 ^ e₁ * (m₂ * 2 ^ e₂) : ℚ) = (m₁ * m₂ : ℕ) * 2 ^ (e₁ + e₂) := by
    rw [zpow_add₀ two_ne_zero]
    push_cast
    ring
  rw [hvalue]
  refine packed_roundWithAccuracy (Describes.exact _) ?_
  have hlog := Nat.le_log2 (k := 52) (Nat.mul_pos h₁ h₂).ne'
  omega

theorem rounds_mul {x y : Float} (hx : IsMagnitude x) (hy : IsMagnitude y) :
    Rounds (value x * value y) (x * y) := by
  change Rounds _ (packed (UnpackedFloat.mul Format.binary64 x.toModel.unpack y.toModel.unpack))
  rcases unpack_of_isMagnitude hx with ⟨hunpack, hvalue⟩ | ⟨e₁, m₁, h₁, hunpack, hvalue, hnormal₁⟩
  · rw [hunpack, hvalue, zero_mul]
    rcases unpack_of_isMagnitude hy with ⟨hunpack, -⟩ | ⟨e₂, m₂, h₂, hunpack, -⟩
    · rw [hunpack]
      exact rounds_zero
    · rw [hunpack]
      exact rounds_zero
  · rw [hunpack, hvalue]
    rcases unpack_of_isMagnitude hy with ⟨hunpack, hvalue⟩ | ⟨e₂, m₂, h₂, hunpack, hvalue, hnormal₂⟩
    · rw [hunpack, hvalue, mul_zero]
      exact rounds_zero
    · rw [hunpack, hvalue]
      apply packed_mul_finite h₁ h₂
      -- a product of subnormal numbers has all its bits below the least double
      by_cases hsmall : e₁ = 0 ∧ e₂ = 0
      · left
        omega
      · right
        rcases hnormal₁ with hnormal | rfl
        · exact hnormal.trans (Nat.le_mul_of_pos_right _ h₂)
        · exact (hnormal₂.resolve_right (by omega)).trans (Nat.le_mul_of_pos_left _ h₁)

open Float.Model.UnpackedFloat (accuracyOfFraction divCore)

theorem Describes.fraction (num : ℕ) {den : ℕ} (hden : 0 < den) :
    Describes (.ofMantissaAndAccuracy (num / den) (accuracyOfFraction (num % den) den))
      (num / den : ℚ) := by
  have hsplit : (num / den : ℚ) = (num / den : ℕ) + (num % den : ℕ) / den := by
    have : (num : ℚ) = den * (num / den : ℕ) + (num % den : ℕ) := by
      exact_mod_cast (Nat.div_add_mod num den).symm
    rw [this]
    field_simp
  have hlt := Nat.mod_lt num hden
  rw [hsplit]
  generalize num / den = m at *
  generalize num % den = rest at *
  have hdenq : (0 : ℚ) < den := by exact_mod_cast hden
  by_cases hzero : rest = 0
  · rw [accuracyOfFraction, if_pos hzero, hzero, Nat.cast_zero, zero_div, add_zero]
    exact .exact m
  · have hpos : (0 : ℚ) < rest := by exact_mod_cast Nat.pos_of_ne_zero hzero
    have hone : (rest : ℚ) / den < 1 := by
      rw [div_lt_one hdenq]
      exact_mod_cast hlt
    rw [accuracyOfFraction, if_neg hzero]
    rcases lt_trichotomy (2 * rest) den with hless | heq | hmore
    · rw [Nat.compare_eq_lt.mpr hless]
      have hhalf : (rest : ℚ) / den < 1 / 2 := by
        rw [div_lt_div_iff₀ hdenq two_pos]
        exact_mod_cast (by omega : rest * 2 < 1 * den)
      have hfraction : 0 < (rest : ℚ) / den := by positivity
      refine ⟨rest / den, hfraction.le, hhalf, ?_, ?_⟩
      · simp [ExtendedMantissa.ofMantissaAndAccuracy, hfraction]
      · simp [ExtendedMantissa.ofMantissaAndAccuracy]
    · rw [Nat.compare_eq_eq.mpr heq]
      have hhalf : (rest : ℚ) / den = 1 / 2 := by
        rw [div_eq_div_iff hdenq.ne' two_ne_zero]
        exact_mod_cast (by omega : rest * 2 = 1 * den)
      refine ⟨0, le_rfl, by norm_num, ?_, ?_⟩
      · simp [ExtendedMantissa.ofMantissaAndAccuracy]
      · simp [ExtendedMantissa.ofMantissaAndAccuracy, hhalf]
    · rw [Nat.compare_eq_gt.mpr hmore]
      have hhalf : 1 / 2 < (rest : ℚ) / den := by
        rw [div_lt_div_iff₀ two_pos hdenq]
        exact_mod_cast (by omega : 1 * den < rest * 2)
      refine ⟨rest / den - 1 / 2, by linarith, by linarith, ?_, ?_⟩
      · simp only [ExtendedMantissa.ofMantissaAndAccuracy, true_iff]
        linarith
      · simp only [ExtendedMantissa.ofMantissaAndAccuracy, if_true]
        ring

theorem packed_div_finite {m₁ m₂ : ℕ} (h₁ : 0 < m₁) (h₂ : 0 < m₂) {e₁ e₂ : ℤ} :
    Rounds (m₁ * 2 ^ e₁ / (m₂ * 2 ^ e₂)) (packed (UnpackedFloat.div Format.binary64
      (.finite .positive m₁ e₁ h₁) (.finite .positive m₂ e₂ h₂))) := by
  obtain ⟨target, htarget⟩ : ∃ target, target =
      min (e₁ - e₂) (max (m₁.log2 + e₁ - (m₂.log2 + e₂) - 53) (-1074)) := ⟨_, rfl⟩
  obtain ⟨shift, hshift⟩ : ∃ shift : ℕ, e₁ - e₂ - target = shift :=
    ⟨(e₁ - e₂ - target).toNat, by omega⟩
  have hcore : divCore Format.binary64 m₁ e₁ m₂ e₂ =
      (m₁ * 2 ^ shift / m₂, target, accuracyOfFraction (m₁ * 2 ^ shift % m₂) m₂) := by
    have hexponent : min (e₁ - e₂) (Format.binary64.targetExponent
        (totalExponent m₁ e₁ - totalExponent m₂ e₂)) = target := by
      change min _ (max ((m₁.log2 : ℤ) + 1 + e₁ - (m₂.log2 + 1 + e₂) - 53) (3 - 2 ^ 10 - 53)) = _
      rw [htarget]
      norm_num
      omega
    rw [divCore]
    simp only [hexponent, hshift, Int.toNat_natCast, Nat.shiftLeft_eq]
  have hvalue : (m₁ * 2 ^ e₁ / (m₂ * 2 ^ e₂) : ℚ) = ((m₁ * 2 ^ shift : ℕ) / m₂) * 2 ^ target := by
    have : e₁ = shift + target + e₂ := by omega
    rw [this, zpow_add₀ two_ne_zero, zpow_add₀ two_ne_zero, zpow_natCast]
    push_cast
    field_simp
  rw [hvalue, UnpackedFloat.div, hcore]
  refine packed_roundWithAccuracy (Describes.fraction _ h₂) ?_
  rcases le_or_gt target (-1074) with hle | hgt
  · exact hle.trans (le_max_right _ _)
  · -- the quotient has 53 bits at least
    have hbits : 2 ^ 52 ≤ m₁ * 2 ^ shift / m₂ := by
      have hlog₁ := Nat.log2_self_le h₁.ne'
      have hlog₂ := Nat.lt_log2_self (n := m₂)
      rw [Nat.le_div_iff_mul_le h₂]
      calc 2 ^ 52 * m₂ ≤ 2 ^ 52 * 2 ^ (m₂.log2 + 1) := by gcongr
        _ = 2 ^ (52 + (m₂.log2 + 1)) := (pow_add 2 52 _).symm
        _ ≤ 2 ^ (m₁.log2 + shift) := Nat.pow_le_pow_right (by decide) (by omega)
        _ = 2 ^ m₁.log2 * 2 ^ shift := pow_add 2 _ _
        _ ≤ m₁ * 2 ^ shift := by gcongr
    have hlog := (Nat.le_log2 (by omega)).mpr hbits
    omega

theorem rounds_div {x y : Float} (hx : IsMagnitude x) (hy : IsMagnitude y) (hpos : 0 < value y) :
    Rounds (value x / value y) (x / y) := by
  change Rounds _ (packed (UnpackedFloat.div Format.binary64 x.toModel.unpack y.toModel.unpack))
  rcases unpack_of_isMagnitude hy with ⟨-, hvalue⟩ | ⟨e₂, m₂, h₂, hunpack, hvalue, -⟩
  · exact absurd hvalue hpos.ne'
  · rw [hunpack, hvalue]
    rcases unpack_of_isMagnitude hx with ⟨hunpack, hvalue⟩ | ⟨e₁, m₁, h₁, hunpack, hvalue, -⟩
    · rw [hunpack, hvalue, zero_div]
      exact rounds_zero
    · rw [hunpack, hvalue]
      exact packed_div_finite h₁ h₂

theorem packed_round {m : ℕ} (hm : 0 < m) (e : ℤ) :
    Rounds (m * 2 ^ e) (packed (UnpackedFloat.round Format.binary64 .positive m e)) := by
  obtain ⟨shift, hshift⟩ : ∃ shift, shift = (e - max ((m.log2 : ℤ) + e - 52) (-1074)).toNat :=
    ⟨_, rfl⟩
  have hround : UnpackedFloat.round Format.binary64 .positive m e =
      roundWithAccuracy Format.binary64 .positive (m * 2 ^ shift) (e - shift) .exact := by
    rw [UnpackedFloat.round, targetExponent_eq]
    simp only [UnpackedFloat.decreaseExponent, ← hshift, Nat.shiftLeft_eq]
  have hvalue : (m * 2 ^ e : ℚ) = (m * 2 ^ shift : ℕ) * 2 ^ (e - shift) := by
    rw [zpow_sub₀ two_ne_zero, zpow_natCast]
    push_cast
    field_simp
  have hlog : m.log2 + shift ≤ (m * 2 ^ shift).log2 := by
    rw [Nat.le_log2 (by positivity), pow_add]
    have := Nat.log2_self_le hm.ne'
    gcongr
  rw [hround, hvalue]
  exact packed_roundWithAccuracy (Describes.exact _) (by omega)

theorem rounds_toFloat (n : UInt64) : Rounds n.toNat n.toFloat := by
  change Rounds _ (packed (UnpackedFloat.normalize Format.binary64 n.toNat 0 .positive))
  generalize n.toNat = n
  rcases Nat.eq_zero_or_pos n with rfl | hpos
  · rw [Nat.cast_zero]
    exact rounds_zero
  · have hcompare : compare (n : ℤ) 0 = .gt := by
      rw [Int.compare_eq_gt]
      exact_mod_cast hpos
    rw [UnpackedFloat.normalize, hcompare]
    simpa using packed_round hpos 0

theorem rounds_ofScientific {m e : ℕ} (hm : 0 < m) (he : e ≤ 2 ^ 11) :
    Rounds (m * 10 ^ e) (packed (UnpackedFloat.ofScientific Format.binary64 m e)) := by
  have hlarge : ¬ ((e : ℤ) > 2 ^ 11) := by omega
  have hsmall : ¬ ((e : ℤ) < -((2 ^ 11 : ℤ) + m.log2)) := by omega
  rw [UnpackedFloat.ofScientific, dif_neg hm.ne', if_neg hlarge, if_neg hsmall,
    if_pos (Int.natCast_nonneg e)]
  have hmul := @packed_mul_finite (m <<< 53) (10 ^ e) (by rw [Nat.shiftLeft_eq]; positivity)
    (by positivity) (-53) 0 (.inr ?_)
  · have hvalue :
        ((m <<< 53 : ℕ) * 2 ^ (-53 : ℤ) * ((10 ^ e : ℕ) * 2 ^ (0 : ℤ)) : ℚ) = m * 10 ^ e := by
      rw [Nat.shiftLeft_eq]
      push_cast
      norm_num
      ring
    rw [hvalue] at hmul
    exact hmul
  · rw [Nat.shiftLeft_eq]
    have : 1 ≤ 10 ^ e := Nat.one_le_pow _ _ (by decide)
    nlinarith

namespace Rounds

variable {q : ℚ} {x y : Float}

theorem lt_infinity_iff (h : Rounds q x) : code x < infinity ↔ q < overflow := by
  obtain ⟨-, n, hcell, hcode⟩ := h
  rw [hcode, ← hcell.lt_infinity_iff]
  omega

theorem isMagnitude (h : Rounds q x) (hrange : q < overflow) : IsMagnitude x :=
  ⟨h.1, h.lt_infinity_iff.mpr hrange⟩

theorem self (hx : IsMagnitude x) : Rounds (value x) x := by
  refine ⟨hx.sign, code x, ?_, (min_eq_left hx.finite.le).symm⟩
  rw [value_eq_magnitude hx.sign]
  exact InCell.self _

-- A number that is a double rounds to it.
theorem value_eq (h : Rounds q x) (hdouble : ∃ n, magnitude n = q) (hrange : q < overflow) :
    value x = q := by
  have hfinite := h.lt_infinity_iff.mpr hrange
  obtain ⟨hsign, n, hcell, hcode⟩ := h
  obtain ⟨m, rfl⟩ := hdouble
  obtain rfl := hcell.unique (.self m)
  rw [value_eq_magnitude hsign, hcode, min_eq_left (by omega)]

theorem isNearest_iff (h : Rounds q x) : IsNearest q y ↔ y = x ∧ q < overflow := by
  have hfinite := h.lt_infinity_iff
  obtain ⟨hsign, n, hcell, hcode⟩ := h
  have hnonneg := hcell.nonneg
  have hnearest (hrange : q < overflow) : IsNearest q x := by
    rw [← hfinite] at hrange
    rw [Double.isNearest_iff, abs_of_nonneg hnonneg, hsign]
    obtain rfl : code x = n := by omega
    exact ⟨hcell, hrange, by simp [hnonneg]⟩
  constructor
  · intro hy
    have hrange := hy.inRange
    rw [abs_of_nonneg hnonneg] at hrange
    exact ⟨hy.unique (hnearest hrange), hrange⟩
  · rintro ⟨rfl, hrange⟩
    exact hnearest hrange

end Rounds

-- The integers of 53 bits are doubles.
theorem exists_magnitude_eq_natCast {n : ℕ} (hn : n < 2 ^ 53) : ∃ code, magnitude code = n := by
  rcases Nat.eq_zero_or_pos n with rfl | hpos
  · exact ⟨0, by simp⟩
  · have hlog : n.log2 < 53 := (Nat.log2_lt hpos.ne').mpr hn
    obtain ⟨shift, hshift⟩ : ∃ shift, n.log2 + shift = 52 := ⟨52 - n.log2, by omega⟩
    have hle := Nat.log2_self_le hpos.ne'
    have hlt := Nat.lt_log2_self (n := n)
    have hlower : 2 ^ 52 ≤ n * 2 ^ shift := by
      rw [← hshift, pow_add]
      gcongr
    have hupper : n * 2 ^ shift < 2 ^ 53 := by
      rw [show 53 = n.log2 + 1 + shift by omega, pow_add 2 (n.log2 + 1)]
      gcongr
    refine ⟨(n.log2 + 1022) * 2 ^ 52 + n * 2 ^ shift, ?_⟩
    rw [magnitude_eq hupper.le (.inl hlower)]
    have hexp : ((n.log2 + 1022 : ℕ) : ℤ) - 1074 = -(shift : ℤ) := by omega
    rw [hexp, zpow_neg, zpow_natCast]
    push_cast
    field_simp

theorem lt_overflow_of_le {n : ℕ} (hn : n ≤ 10 ^ 308) : (n : ℚ) < overflow := by
  have hlimit : 10 ^ 308 + 2 ^ 970 < 2 ^ 1024 := by decide +kernel
  have hlt : (n + 2 ^ 970 : ℚ) < 2 ^ 1024 := by
    exact_mod_cast (Nat.add_le_add_right hn _).trans_lt hlimit
  rw [overflow]
  generalize (2 : ℚ) ^ 970 = unit at *
  generalize (2 : ℚ) ^ 1024 = top at *
  linarith

theorem lt_overflow_of_lt {n : ℕ} (hn : n < 2 ^ 64) : (n : ℚ) < overflow := by
  have hlimit : 2 ^ 64 ≤ 10 ^ 308 := by decide +kernel
  exact lt_overflow_of_le (hn.le.trans hlimit)

theorem mul_two_zpow_of_scaled {m n k offset : ℕ} (h : m * 2 ^ k = n * 2 ^ offset) :
    (m * 2 ^ (k - offset : ℤ) : ℚ) = n := by
  rw [zpow_sub₀ two_ne_zero, zpow_natCast, zpow_natCast, ← mul_div_assoc,
    div_eq_iff (by positivity)]
  exact_mod_cast h

-- The first powers of ten are doubles.
theorem powerOfTen_table : ∀ e ≤ 22,
    let bits := (powerOfTen e).toBits.toNat
    2 ^ 52 ≤ bits ∧ bits < infinity ∧
      (2 ^ 52 + bits % 2 ^ 52) * 2 ^ (bits / 2 ^ 52 - 1) = 10 ^ e * 2 ^ 1074 := by
  decide +kernel

theorem powerOfTen_exact {e : ℕ} (he : e ≤ 22) :
    IsMagnitude (powerOfTen e) ∧ value (powerOfTen e) = (10 ^ e : ℕ) := by
  obtain ⟨hnormal, hfinite, hvalue⟩ := powerOfTen_table e he
  have hcode : code (powerOfTen e) = (powerOfTen e).toBits.toNat := by
    rw [code]
    simp only [infinity] at hfinite
    omega
  have hsign : isNegative (powerOfTen e) = false := by
    rw [isNegative, decide_eq_false_iff_not]
    simp only [infinity] at hfinite
    omega
  refine ⟨⟨hsign, hcode ▸ hfinite⟩, ?_⟩
  generalize (powerOfTen e).toBits.toNat = bits at *
  have hbits : bits = (bits / 2 ^ 52 - 1) * 2 ^ 52 + (2 ^ 52 + bits % 2 ^ 52) := by omega
  rw [value_eq_magnitude hsign, hcode, hbits, magnitude_eq (by omega) (.inl (by omega))]
  have hscaled := mul_two_zpow_of_scaled hvalue
  rwa [Nat.cast_ofNat] at hscaled

theorem rounds_powerOfTen {e : ℕ} (he : e ≤ 308) : Rounds (10 ^ e : ℕ) (powerOfTen e) := by
  rcases Nat.lt_or_ge 22 e with hlarge | hsmall
  · have hpower : powerOfTen e = packed (UnpackedFloat.ofScientific Format.binary64 1 e) := by
      rw [powerOfTen, Float.ofScientific, dif_neg (by omega)]
      rfl
    rw [hpower]
    simpa using rounds_ofScientific Nat.one_pos (show e ≤ 2 ^ 11 by omega)
  · obtain ⟨hpower, hvalue⟩ := powerOfTen_exact hsmall
    rw [← hvalue]
    exact .self hpower

theorem rounds_ofNat (n : ℕ) : Rounds n (Float.ofNat n) := by
  change Rounds n (Float.ofScientific n false 0)
  by_cases hsmall : n < 2 ^ 53
  · have htoNat : n.toUInt64.toNat = n := by
      rw [Nat.toUInt64, UInt64.toNat_ofNat']
      omega
    have hfloat := rounds_toFloat n.toUInt64
    have hrange : (n : ℚ) < overflow := lt_overflow_of_lt (by omega)
    rw [htoNat] at hfloat
    have hvalue := hfloat.value_eq (exists_magnitude_eq_natCast hsmall) hrange
    obtain ⟨hpower, hone⟩ := powerOfTen_exact (Nat.zero_le 22)
    have hmul := rounds_mul (hfloat.isMagnitude hrange) hpower
    rw [hvalue, hone, pow_zero, Nat.cast_one, mul_one] at hmul
    have htable : Float.ofBits 0x3FF0000000000000 = powerOfTen 0 := by decide +kernel
    have hofScientific : Float.ofScientific n false 0 = n.toUInt64.toFloat * powerOfTen 0 := by
      rw [Float.ofScientific, dif_pos ⟨hsmall, Nat.zero_le 22⟩]
      exact congrArg (n.toUInt64.toFloat * ·) htable
    rwa [hofScientific]
  · rw [Float.ofScientific, dif_neg (by omega)]
    have hrounds := rounds_ofScientific (show 0 < n by omega) (Nat.zero_le (2 ^ 11))
    rwa [pow_zero, mul_one] at hrounds

theorem unpack_zero : (0 : Float).toModel.unpack = .zero .positive := by
  have hcode : code 0 = 0 := by decide +kernel
  have h := unpacks 0
  rw [signOf_toBits, show isNegative 0 = false by decide +kernel, hcode] at h
  generalize (0 : Float).toModel.unpack = u at *
  cases h with
  | zero => rfl
  | finite hm _ hcode => omega
  | infinity hcode => exact absurd hcode (by decide)
  | notANumber hcode => exact absurd hcode (by decide)

theorem beq_zero_iff {x : Float} (hx : IsMagnitude x) :
    (x == 0) = true ↔ value x = 0 := by
  change (UnpackedFloat.compare x.toModel.unpack (0 : Float).toModel.unpack == some .eq) = true ↔ _
  rw [unpack_zero]
  rcases unpack_of_isMagnitude hx with ⟨hunpack, hvalue⟩ | ⟨e, m, hm, hunpack, hvalue, -⟩
  · rw [hunpack, hvalue]
    simp [UnpackedFloat.compare]
  · have hpos : (0 : ℚ) < m * 2 ^ (e - 1074 : ℤ) := by positivity
    rw [hunpack, hvalue]
    simp [UnpackedFloat.compare, -mul_eq_zero, hpos.ne']

section

variable {x y : Float}

theorem IsNearest.isMagnitude {q : ℚ} (h : IsNearest q x) (hq : 0 ≤ q) : IsMagnitude x := by
  obtain ⟨-, hfinite, hsign⟩ := isNearest_iff.mp h
  refine ⟨?_, hfinite⟩
  rw [Bool.eq_false_iff, Ne, hsign]
  exact hq.not_gt

theorem InCell.isNearest {q : ℚ} {n : ℕ} (h : InCell q n) (hy : IsMagnitude y)
    (hcode : code y = n) : IsNearest q y := by
  rw [isNearest_iff, abs_of_nonneg h.nonneg, hcode, hy.sign]
  exact ⟨h, hcode ▸ hy.finite, by simp [h.nonneg]⟩

-- The double without its sign.
theorem exists_isMagnitude (hfinite : x.isFinite) :
    ∃ y, IsMagnitude y ∧ code y = code x ∧ value y = |value x| := by
  obtain ⟨y, hsign, hcode⟩ := exists_code_eq false (isFinite_iff.mp hfinite)
  refine ⟨y, ⟨hsign, ?_⟩, hcode, ?_⟩
  · rw [hcode]
    exact isFinite_iff.mp hfinite
  · rw [value_eq_magnitude hsign, hcode, abs_value]

-- A sign is put before a magnitude.
theorem isFinite_ite_neg (hy : IsMagnitude y) (p : Prop) [Decidable p] :
    (if p then -y else y).isFinite := by
  rw [isFinite_iff]
  split
  · rw [(neg_spec hy.finite.le).1]
    exact hy.finite
  · exact hy.finite

theorem value_ite_neg (hy : IsMagnitude y) (h : value y = |value x|) :
    value (if value x < 0 then -y else y) = value x := by
  split <;> rename_i hneg
  · rw [value_neg hy.finite.le, h, abs_of_neg hneg, neg_neg]
  · rw [h, abs_of_nonneg (not_lt.mp hneg)]

theorem isNearest_natCast_iff {n : ℕ} (hn : n < 2 ^ 64) : IsNearest n x ↔ x = Float.ofNat n := by
  rw [(rounds_ofNat n).isNearest_iff, and_iff_left (lt_overflow_of_lt hn)]

end

end Estree.Double
