import Estree.Proofs.DoubleArithmetic

namespace Estree.Double

open Json (Fault)
open Json.Numeral (powerOfTen scale)

-- Multiplying by a power of ten in exact arithmetic with one rounding at each step: the power of
-- ten is rounded to a double, and so is the product or the quotient. What is far too small for one
-- power of ten is divided twice.
inductive Scales : Float → ℤ → Float → Prop
  | up {a p y : Float} {e : ℕ} (he : e ≤ 308) (hp : IsNearest (10 ^ e : ℕ) p)
      (hy : IsNearest (value a * value p) y) : Scales a e y
  | down {a p y : Float} {e : ℕ} (hpos : 0 < e) (he : e ≤ 308) (hp : IsNearest (10 ^ e : ℕ) p)
      (hy : IsNearest (value a / value p) y) : Scales a (-e) y
  | far {a p b y : Float} {e : ℤ} (he : e < -308) (ha : value a ≠ 0)
      (hp : IsNearest (10 ^ 308 : ℕ) p) (hb : IsNearest (value a / value p) b)
      (hrest : Scales b (e + 308) y) : Scales a e y
  | zero {a : Float} {e : ℤ} (he : 308 < e.natAbs) (ha : value a = 0) : Scales a e a

variable {x y : Float} {e : ℕ}

theorem powerOfTen_lt_overflow (he : e ≤ 308) : ((10 ^ e : ℕ) : ℚ) < overflow :=
  lt_overflow_of_le (pow_le_pow_right₀ (by decide) he)

theorem isMagnitude_powerOfTen (he : e ≤ 308) : IsMagnitude (powerOfTen e) :=
  (rounds_powerOfTen he).isMagnitude (powerOfTen_lt_overflow he)

theorem isNearest_powerOfTen_iff (he : e ≤ 308) :
    IsNearest (10 ^ e : ℕ) y ↔ y = powerOfTen e := by
  rw [(rounds_powerOfTen he).isNearest_iff, and_iff_left (powerOfTen_lt_overflow he)]

theorem Rounds.value_le {q r : ℚ} (hx : Rounds q x) (hy : Rounds r y) (hle : q ≤ r) :
    value x ≤ value y := by
  obtain ⟨hsignx, n, hcelln, hcodex⟩ := hx
  obtain ⟨hsigny, m, hcellm, hcodey⟩ := hy
  have := hcelln.le_of_le hcellm hle
  rw [value_eq_magnitude hsignx, value_eq_magnitude hsigny, magnitude_strictMono.le_iff_le]
  omega

theorem one_le_value_powerOfTen (he : e ≤ 308) : 1 ≤ value (powerOfTen e) := by
  have hone := (powerOfTen_exact (Nat.zero_le 22)).2
  rw [pow_zero, Nat.cast_one] at hone
  rw [← hone]
  refine (rounds_powerOfTen (Nat.zero_le 308)).value_le (rounds_powerOfTen he) ?_
  exact_mod_cast Nat.pow_le_pow_right (by decide) (Nat.zero_le e)

theorem IsMagnitude.lt_overflow (hx : IsMagnitude x) : value x < overflow :=
  (Rounds.self hx).lt_infinity_iff.mp hx.finite

theorem IsMagnitude.nonneg (hx : IsMagnitude x) : 0 ≤ value x := by
  rw [value_eq_magnitude hx.sign]
  exact magnitude_nonneg _

-- A quotient by a power of ten stays in range.
theorem div_powerOfTen (hx : IsMagnitude x) (he : e ≤ 308) :
    IsMagnitude (x / powerOfTen e) ∧
      ∀ y, IsNearest (value x / value (powerOfTen e)) y ↔ y = x / powerOfTen e := by
  have hone := one_le_value_powerOfTen he
  have hrounds := rounds_div hx (isMagnitude_powerOfTen he) (by linarith)
  have hrange : value x / value (powerOfTen e) < overflow :=
    (div_le_self hx.nonneg hone).trans_lt hx.lt_overflow
  exact ⟨hrounds.isMagnitude hrange, fun y => by rw [hrounds.isNearest_iff, and_iff_left hrange]⟩

theorem scale_up_iff (hx : IsMagnitude x) (he : e ≤ 308) :
    IsNearest (value x * value (powerOfTen e)) y ↔
      (if (x * powerOfTen e).isInf then .error .numberOutOfRange
        else .ok (x * powerOfTen e) : Except Fault Float) = .ok y := by
  have hrounds := rounds_mul hx (isMagnitude_powerOfTen he)
  have hinf : (x * powerOfTen e).isInf = true ↔ ¬ value x * value (powerOfTen e) < overflow := by
    rw [isInf_iff, ← hrounds.lt_infinity_iff]
    obtain ⟨-, n, -, hcode⟩ := hrounds
    omega
  rw [hrounds.isNearest_iff]
  split <;> rename_i h
  · simp [hinf.mp h]
  · rw [and_iff_left (not_not.mp (hinf.not.mp h)), eq_comm]
    simp

section Steps

variable {e : ℤ}

theorem scales_up_iff (hsmall : e.natAbs ≤ 308) (hpos : 0 ≤ e) :
    Scales x e y ↔ IsNearest (value x * value (powerOfTen e.natAbs)) y := by
  constructor
  · intro h
    cases h with
    | up he hp hy =>
      rw [isNearest_powerOfTen_iff he] at hp
      rwa [Int.natAbs_natCast, ← hp]
    | down hdown he hp hy => omega
    | far he ha hp hb hrest => omega
    | zero he ha => omega
  · intro hy
    rw [← Int.natAbs_of_nonneg hpos]
    exact .up hsmall ((isNearest_powerOfTen_iff hsmall).mpr rfl) hy

theorem scales_down_iff (hsmall : e.natAbs ≤ 308) (hneg : ¬ 0 ≤ e) :
    Scales x e y ↔ IsNearest (value x / value (powerOfTen e.natAbs)) y := by
  constructor
  · intro h
    cases h with
    | up he hp hy => omega
    | down hdown he hp hy =>
      rw [isNearest_powerOfTen_iff he] at hp
      rwa [Int.natAbs_neg, Int.natAbs_natCast, ← hp]
    | far he ha hp hb hrest => omega
    | zero he ha => omega
  · intro hy
    rw [show e = -(e.natAbs : ℤ) by omega]
    exact .down (by omega) hsmall ((isNearest_powerOfTen_iff hsmall).mpr rfl) hy

theorem scales_zero_iff (hlarge : ¬ e.natAbs ≤ 308) (hzero : value x = 0) :
    Scales x e y ↔ y = x := by
  constructor
  · intro h
    cases h with
    | up he hp hy => omega
    | down hdown he hp hy => omega
    | far he ha hp hb hrest => exact absurd hzero ha
    | zero he ha => rfl
  · rintro rfl
    exact .zero (by omega) hzero

theorem not_scales_of_large (hlarge : ¬ e.natAbs ≤ 308) (hzero : value x ≠ 0) (hpos : 0 ≤ e) :
    ¬ Scales x e y := by
  intro h
  cases h with
  | up he hp hy => omega
  | down hdown he hp hy => omega
  | far he ha hp hb hrest => omega
  | zero he ha => exact hzero ha

theorem scales_far_iff (hx : IsMagnitude x) (hlarge : ¬ e.natAbs ≤ 308) (hzero : value x ≠ 0)
    (hneg : ¬ 0 ≤ e) : Scales x e y ↔ Scales (x / powerOfTen 308) (e + 308) y := by
  have hquotient := (div_powerOfTen hx (le_refl 308)).2
  constructor
  · intro h
    cases h with
    | up he hp hy => omega
    | down hdown he hp hy => omega
    | far he ha hp hb hrest =>
      rw [isNearest_powerOfTen_iff le_rfl] at hp
      rw [hp, hquotient] at hb
      rwa [← hb]
    | zero he ha => exact absurd ha hzero
  · intro hrest
    exact .far (by omega) hzero ((isNearest_powerOfTen_iff le_rfl).mpr rfl)
      ((hquotient _).mpr rfl) hrest

-- The reader scales by these steps.
theorem scale_eq_ok_iff (hx : IsMagnitude x) : scale x e = .ok y ↔ Scales x e y := by
  fun_induction scale x e with
  | case1 x e hsmall hpos scaled hinf =>
    rw [scales_up_iff hsmall hpos, scale_up_iff hx hsmall, if_pos hinf]
  | case2 x e hsmall hpos scaled hinf =>
    rw [scales_up_iff hsmall hpos, scale_up_iff hx hsmall, if_neg hinf]
  | case3 x e hsmall hneg =>
    rw [scales_down_iff hsmall hneg, (div_powerOfTen hx hsmall).2, Except.ok.injEq, eq_comm]
  | case4 x e hlarge hzero =>
    rw [scales_zero_iff hlarge ((beq_zero_iff hx).mp hzero), Except.ok.injEq, eq_comm]
  | case5 x e hlarge hzero hpos =>
    have := not_scales_of_large (y := y) hlarge ((beq_zero_iff hx).not.mp hzero) hpos
    simp [this]
  | case6 x e hlarge hzero hneg ih =>
    rw [scales_far_iff hx hlarge ((beq_zero_iff hx).not.mp hzero) hneg]
    exact ih (div_powerOfTen hx le_rfl).1

theorem Scales.isMagnitude (h : Scales x e y) (hx : IsMagnitude x) : IsMagnitude y := by
  induction h with
  | up he hp hy =>
    have hpower := hp.isMagnitude (Nat.cast_nonneg _)
    exact hy.isMagnitude (mul_nonneg hx.nonneg hpower.nonneg)
  | down hpos he hp hy =>
    have hpower := hp.isMagnitude (Nat.cast_nonneg _)
    exact hy.isMagnitude (div_nonneg hx.nonneg hpower.nonneg)
  | far he ha hp hb hrest ih =>
    have hpower := hp.isMagnitude (Nat.cast_nonneg _)
    exact ih (hb.isMagnitude (div_nonneg hx.nonneg hpower.nonneg))
  | zero he ha => exact hx

theorem isNearest_value (hx : IsMagnitude x) : IsNearest (value x) x :=
  (Rounds.self hx).isNearest_iff.mpr ⟨rfl, hx.lt_overflow⟩

theorem scale_zero (hx : IsMagnitude x) : scale x 0 = .ok x := by
  have hone := (powerOfTen_exact (Nat.zero_le 22)).2
  rw [scale_eq_ok_iff hx, scales_up_iff (by decide) le_rfl, Int.natAbs_zero, hone, pow_zero,
    Nat.cast_one, mul_one]
  exact isNearest_value hx

theorem isMagnitude_ofNat {n : ℕ} (hn : n < 2 ^ 64) : IsMagnitude (Float.ofNat n) :=
  (rounds_ofNat n).isMagnitude (lt_overflow_of_lt hn)

end Steps

end Estree.Double
