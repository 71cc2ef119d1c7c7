import Estree.Proofs.DoubleBits

namespace Estree.Decimal

-- The number that a decimal stands for.
def toRat (d : Decimal) : ℚ :=
  d.digits * 10 ^ d.exponent

namespace Binary

open Double (InCell)

-- The mantissa and the exponent of the positive double with the given code.
structure Holds (b : Binary) (code : ℕ) : Prop where
  range : ∃ e : ℕ, b.exponent = e - 1074 ∧ code = e * 2 ^ 52 + b.mantissa ∧
    (2 ^ 52 ≤ b.mantissa ∨ e = 0)
  pos : 0 < b.mantissa
  lt : b.mantissa < 2 ^ 53
  finite : code < Double.infinity

theorem holds_ofBits {bits : UInt64} (hpos : 0 < bits.toNat % 2 ^ 63)
    (hfinite : bits.toNat % 2 ^ 63 < Double.infinity) :
    Holds (ofBits bits) (bits.toNat % 2 ^ 63) := by
  have hinfinity := hfinite
  simp only [Double.infinity] at hinfinity
  rw [ofBits]
  simp only [Nat.pow_eq]
  split
  · refine ⟨⟨0, by simp, ?_, .inr rfl⟩, ?_, ?_, hfinite⟩ <;> simp only <;> omega
  · refine ⟨⟨bits.toNat / 2 ^ 52 % 2 ^ 11 - 1, ?_, ?_, .inl ?_⟩, ?_, ?_, hfinite⟩ <;>
      simp only <;> omega

-- A quarter of the unit of the mantissa.
def quarter (b : Binary) : ℚ :=
  2 ^ (b.exponent - 2)

theorem quarter_pos (b : Binary) : 0 < b.quarter := by
  rw [quarter]
  positivity

namespace Holds

variable {b : Binary} {code : ℕ} {q : ℚ}

theorem code_pos (h : Holds b code) : 0 < code := by
  obtain ⟨e, -, rfl, -⟩ := h.range
  have := h.pos
  omega

theorem magnitude_eq (h : Holds b code) : Double.magnitude code = 4 * b.mantissa * b.quarter := by
  obtain ⟨e, hexponent, rfl, hnormal⟩ := h.range
  rw [Double.magnitude_eq h.lt.le hnormal, quarter, hexponent, zpow_sub₀ two_ne_zero _ 2]
  norm_num
  ring

theorem magnitude_succ_eq (h : Holds b code) :
    Double.magnitude code + Double.magnitude (code + 1) = 2 * (b.upper * b.quarter) := by
  have hcode := h.magnitude_eq
  obtain ⟨e, hexponent, rfl, hnormal⟩ := h.range
  rw [hcode, Double.magnitude_succ h.lt hnormal, upper, quarter, hexponent,
    zpow_sub₀ two_ne_zero _ 2]
  push_cast
  ring

theorem magnitude_pred_eq (h : Holds b code) :
    Double.magnitude (code - 1) + Double.magnitude code = 2 * (b.lower * b.quarter) := by
  have hcode := h.magnitude_eq
  have hpos := h.pos
  obtain ⟨e, hexponent, rfl, hnormal⟩ := h.range
  rw [hcode, lower, quarter, hexponent, zpow_sub₀ two_ne_zero _ 2]
  simp only [Nat.pow_eq]
  split
  · rename_i hfirst
    rw [hfirst.1, Double.magnitude_pred_first (by omega)]
    push_cast
    norm_num
    ring
  · rename_i hfirst
    rw [Double.magnitude_pred h.lt.le (by omega), Nat.cast_sub (by omega)]
    push_cast
    ring

theorem even_iff (h : Holds b code) : code % 2 = 0 ↔ b.mantissa % 2 = 0 := by
  obtain ⟨e, -, rfl, -⟩ := h.range
  omega

-- The numbers that round to a double, by the ends that the search uses.
theorem inCell_iff (h : Holds b code) :
    InCell q code ↔ if b.mantissa % 2 = 0 then b.lower * b.quarter ≤ q ∧ q ≤ b.upper * b.quarter
      else b.lower * b.quarter < q ∧ q < b.upper * b.quarter := by
  have hlower := h.magnitude_pred_eq
  have hupper := h.magnitude_succ_eq
  have hpos := h.code_pos
  have heven := h.even_iff
  have hnonneg : 0 ≤ b.lower * b.quarter := mul_nonneg (Nat.cast_nonneg _) b.quarter_pos.le
  constructor
  · rintro ⟨-, hlow, hlowEven, hup, hupEven⟩
    have hlow' := hlow hpos
    have hlowEven' := hlowEven hpos
    split
    · exact ⟨by linarith, by linarith⟩
    · rename_i hodd
      refine ⟨lt_of_le_of_ne (by linarith) fun heq => hodd (heven.mp (hlowEven' (by linarith))),
        lt_of_le_of_ne (by linarith) fun heq => hodd (heven.mp (hupEven (by linarith)))⟩
  · split
    · rename_i hmantissa
      rintro ⟨hlow, hup⟩
      exact ⟨by linarith, fun _ => by linarith, fun _ _ => heven.mpr hmantissa, by linarith,
        fun _ => heven.mpr hmantissa⟩
    · rintro ⟨hlow, hup⟩
      exact ⟨by linarith, fun _ => by linarith, fun _ heq => by linarith, by linarith,
        fun heq => by linarith⟩

end Holds

-- The common factor of the two sides that the search compares.
def scale (b : Binary) (k : ℤ) : ℚ :=
  10 ^ (-k).toNat * 2 ^ (2 - b.exponent).toNat

theorem scale_pos (b : Binary) (k : ℤ) : 0 < b.scale k := by
  rw [scale]
  positivity

theorem zpow_mul_pow_toNat {a : ℚ} (ha : a ≠ 0) (k : ℤ) : a ^ k * a ^ (-k).toNat = a ^ k.toNat := by
  rw [← zpow_natCast, ← zpow_natCast, ← zpow_add₀ ha]
  congr 1
  omega

theorem cast_tens (b : Binary) (k : ℤ) : (b.tens k : ℚ) = b.scale k * 10 ^ k := by
  have := zpow_mul_pow_toNat (a := 10) (by norm_num) k
  rw [tens, scale]
  simp only [Nat.pow_eq]
  push_cast
  rw [← this]
  ring

theorem cast_twos (b : Binary) (k : ℤ) : (b.twos k : ℚ) = b.scale k * b.quarter := by
  have := zpow_mul_pow_toNat (a := 2) two_ne_zero (b.exponent - 2)
  rw [twos, scale, quarter]
  simp only [Nat.pow_eq]
  push_cast
  rw [← this, neg_sub]
  ring

theorem tens_pos (b : Binary) (k : ℤ) : 0 < b.tens k := by
  rw [tens]
  simp only [Nat.pow_eq]
  positivity

theorem mul_twos_le_iff (b : Binary) (k : ℤ) (x c : ℕ) :
    x * b.twos k ≤ c * b.tens k ↔ (x * b.quarter : ℚ) ≤ c * 10 ^ k := by
  rw [← Nat.cast_le (α := ℚ), Nat.cast_mul, Nat.cast_mul, cast_tens, cast_twos,
    mul_left_comm (x : ℚ), mul_left_comm (c : ℚ), mul_le_mul_iff_right₀ (b.scale_pos k)]

theorem le_mul_twos_iff (b : Binary) (k : ℤ) (x c : ℕ) :
    c * b.tens k ≤ x * b.twos k ↔ (c * 10 ^ k : ℚ) ≤ x * b.quarter := by
  rw [← Nat.cast_le (α := ℚ), Nat.cast_mul, Nat.cast_mul, cast_tens, cast_twos,
    mul_left_comm (x : ℚ), mul_left_comm (c : ℚ), mul_le_mul_iff_right₀ (b.scale_pos k)]

namespace Holds

variable {b : Binary} {code : ℕ}

theorem readsBack_iff (h : Holds b code) (k : ℤ) (c : ℕ) :
    b.readsBack k c = true ↔ InCell (c * 10 ^ k) code := by
  rw [h.inCell_iff, readsBack]
  simp only [← not_le, mul_twos_le_iff, le_mul_twos_iff]
  split <;> simp

theorem gridFloor_le (h : Holds b code) (k : ℤ) :
    (b.gridFloor k * 10 ^ k : ℚ) ≤ Double.magnitude code := by
  have := (le_mul_twos_iff b k (4 * b.mantissa) (b.gridFloor k)).mp (Nat.div_mul_le_self _ _)
  rw [h.magnitude_eq]
  exact_mod_cast this

theorem lt_gridFloor_succ (h : Holds b code) (k : ℤ) :
    Double.magnitude code < ((b.gridFloor k + 1 : ℕ) * 10 ^ k : ℚ) := by
  have hlt : 4 * b.mantissa * b.twos k < (b.gridFloor k + 1) * b.tens k := by
    rw [← Nat.div_lt_iff_lt_mul (b.tens_pos k)]
    exact Nat.lt_succ_self _
  have := (le_mul_twos_iff b k (4 * b.mantissa) (b.gridFloor k + 1)).not.mp (not_le.mpr hlt)
  rw [h.magnitude_eq]
  rw [not_le] at this
  exact_mod_cast this

-- Of the multiples that round to the number, the two next to it are enough.
theorem below_of_inCell (h : Holds b code) {k : ℤ} {c : ℕ} (hc : c ≤ b.gridFloor k)
    (hcell : InCell (c * 10 ^ k) code) : b.readsBack k (b.gridFloor k) = true := by
  rw [h.readsBack_iff]
  refine hcell.of_between (.self code) ?_ (h.gridFloor_le k)
  gcongr

theorem above_of_inCell (h : Holds b code) {k : ℤ} {c : ℕ} (hc : b.gridFloor k < c)
    (hcell : InCell (c * 10 ^ k) code) : b.readsBack k (b.gridFloor k + 1) = true := by
  rw [h.readsBack_iff]
  refine (Double.InCell.self code).of_between hcell (h.lt_gridFloor_succ k).le ?_
  gcongr
  exact hc

end Holds

theorem onGrid?_eq_none {b : Binary} {tie : Tie} {k : ℤ} (h : b.onGrid? tie k = none) :
    b.readsBack k (b.gridFloor k) = false ∧ b.readsBack k (b.gridFloor k + 1) = false := by
  unfold onGrid? at h
  grind

theorem onGrid?_eq_some {b : Binary} {k : ℤ} {c : ℕ} (h : b.onGrid? .up k = some c) :
    b.readsBack k c = true ∧
      (c = b.gridFloor k ∧ (b.readsBack k (b.gridFloor k + 1) = true →
          8 * b.mantissa * b.twos k < (2 * b.gridFloor k + 1) * b.tens k) ∨
        c = b.gridFloor k + 1 ∧ (b.readsBack k (b.gridFloor k) = true →
          (2 * b.gridFloor k + 1) * b.tens k ≤ 8 * b.mantissa * b.twos k)) := by
  unfold onGrid? at h
  dsimp only at h
  split at h
  · cases h
  · rename_i hbelow habove
    cases h
    grind
  · grind
  · split at h <;> grind [Nat.compare_eq_lt, Nat.compare_eq_gt, Nat.compare_eq_eq]

namespace Holds

variable {b : Binary} {code : ℕ}

theorem not_inCell_of_onGrid?_eq_none (h : Holds b code) {tie : Tie} {k : ℤ}
    (hnone : b.onGrid? tie k = none) (c : ℕ) : ¬ InCell (c * 10 ^ k) code := by
  intro hcell
  obtain ⟨hbelow, habove⟩ := onGrid?_eq_none hnone
  rcases Nat.lt_or_ge (b.gridFloor k) c with hc | hc
  · rw [h.above_of_inCell hc hcell] at habove
    cases habove
  · rw [h.below_of_inCell hc hcell] at hbelow
    cases hbelow

theorem nearest_of_onGrid? (h : Holds b code) {k : ℤ} {c : ℕ} (hsome : b.onGrid? .up k = some c)
    {other : ℕ} (hother : InCell (other * 10 ^ k) code) :
    |Double.magnitude code - c * 10 ^ k| ≤ |Double.magnitude code - other * 10 ^ k| ∧
      (|Double.magnitude code - c * 10 ^ k| = |Double.magnitude code - other * 10 ^ k| →
        other ≤ c) := by
  have hten : (0 : ℚ) < 10 ^ k := by positivity
  have hfloor := h.gridFloor_le k
  have hnext := h.lt_gridFloor_succ k
  have hgrid {i j : ℕ} (hle : i ≤ j) : (i * 10 ^ k : ℚ) ≤ j * 10 ^ k := by gcongr
  -- the comparison with the middle of the two neighbours
  have hmiddle : 8 * b.mantissa * b.twos k < (2 * b.gridFloor k + 1) * b.tens k ↔
      2 * Double.magnitude code < b.gridFloor k * 10 ^ k + (b.gridFloor k + 1 : ℕ) * 10 ^ k := by
    rw [← not_le, le_mul_twos_iff, not_le, h.magnitude_eq]
    push_cast
    constructor <;> intro hlt <;> linarith
  obtain ⟨hreads, ⟨rfl, htie⟩ | ⟨rfl, htie⟩⟩ := onGrid?_eq_some hsome
  · rw [abs_of_nonneg (sub_nonneg.mpr hfloor)]
    rcases Nat.lt_or_ge (b.gridFloor k) other with hlt | hge
    · have hclose := hmiddle.mp (htie (h.above_of_inCell hlt hother))
      have hle := hgrid (show b.gridFloor k + 1 ≤ other from hlt)
      rw [abs_of_nonpos (by linarith)]
      exact ⟨by linarith, fun heq => by linarith⟩
    · have hle := hgrid hge
      rw [abs_of_nonneg (by linarith)]
      exact ⟨by linarith, fun _ => hge⟩
  · rw [abs_of_nonpos (by linarith)]
    rcases Nat.lt_or_ge (b.gridFloor k) other with hlt | hge
    · have hle := hgrid (show b.gridFloor k + 1 ≤ other from hlt)
      rw [abs_of_nonpos (by linarith)]
      refine ⟨by linarith, fun heq => ?_⟩
      have : (other * 10 ^ k : ℚ) ≤ (b.gridFloor k + 1 : ℕ) * 10 ^ k := by linarith
      exact_mod_cast le_of_mul_le_mul_right this hten
    · have hclose := hmiddle.not.mp (not_lt.mpr (htie (h.below_of_inCell hge hother)))
      have hle := hgrid hge
      rw [abs_of_nonneg (by linarith)]
      exact ⟨by linarith, fun _ => by omega⟩

-- The number itself is on the grids that the search ends with.
theorem onGrid?_ne_none (h : Holds b code) {tie : Tie} {k : ℤ} (hk : k ≤ min b.exponent 0) :
    b.onGrid? tie k ≠ none := by
  intro hnone
  -- `2 ^ exponent` is a multiple of `10 ^ k`
  obtain ⟨c, hc⟩ : ∃ c : ℕ, Double.magnitude code = c * 10 ^ k := by
    refine ⟨b.mantissa * 2 ^ (b.exponent - k).toNat * 5 ^ (-k).toNat, ?_⟩
    push_cast
    rw [h.magnitude_eq, quarter, ← zpow_natCast, ← zpow_natCast, Int.toNat_of_nonneg (by omega),
      Int.toNat_of_nonneg (by omega), show (10 : ℚ) = 2 * 5 by norm_num, mul_zpow,
      zpow_sub₀ two_ne_zero, zpow_sub₀ two_ne_zero, zpow_neg]
    field_simp
    norm_num
    ring
  refine h.not_inCell_of_onGrid?_eq_none hnone c ?_
  rw [← hc]
  exact .self code

-- The search stops on the coarsest grid that has a multiple to offer.
theorem search_spec (h : Holds b code) (k : ℤ) :
    b.onGrid? .up (b.search .up k).exponent = some (b.search .up k).digits ∧
      ∀ j, (b.search .up k).exponent < j → j ≤ k → b.onGrid? .up j = none := by
  fun_induction search .up b k with
  | case1 k c hsome => exact ⟨hsome, fun j hlt hle => absurd hlt (by simpa using hle)⟩
  | case2 k hnone hle => exact absurd hnone (h.onGrid?_ne_none hle)
  | case3 k hnone hgt ih =>
    refine ⟨ih.1, fun j hlt hle => ?_⟩
    rcases eq_or_lt_of_le hle with rfl | hlt'
    · exact hnone
    · exact ih.2 j hlt (by omega)

end Holds

theorem two_pow_le_ten_pow : ∀ n ≤ 1024, 2 ^ n ≤ 10 ^ (n * 301 / 1000 + 2) := by
  decide +kernel

theorem ten_pow_le_two_pow : ∀ n ≤ 1074, 10 ^ ((n * 301 + 999) / 1000) ≤ 2 ^ n * 10 ^ 2 := by
  decide +kernel

-- The factor 301 / 1000 is close enough to the logarithm of two for all doubles.
theorem two_zpow_le_ten_zpow {p : ℤ} (hlow : -1074 ≤ p) (hhigh : p ≤ 1024) :
    (2 : ℚ) ^ p ≤ 10 ^ (p * 301 / 1000 + 2) := by
  obtain ⟨n, rfl | rfl⟩ := p.eq_nat_or_neg
  · have hle : (2 ^ n : ℚ) ≤ 10 ^ (n * 301 / 1000 + 2) := by
      exact_mod_cast two_pow_le_ten_pow n (by omega)
    have hexponent : (n : ℤ) * 301 / 1000 + 2 = (n * 301 / 1000 + 2 : ℕ) := by push_cast; rfl
    rw [hexponent, zpow_natCast, zpow_natCast]
    exact hle
  · have hle : (10 ^ ((n * 301 + 999) / 1000) : ℚ) ≤ 2 ^ n * 10 ^ 2 := by
      exact_mod_cast ten_pow_le_two_pow n (by omega)
    have hexponent : -(n : ℤ) * 301 / 1000 + 2 = (2 : ℕ) - ((n * 301 + 999) / 1000 : ℕ) := by omega
    rw [hexponent, zpow_neg, zpow_natCast, zpow_sub₀ (by norm_num), zpow_natCast, zpow_natCast,
      inv_eq_one_div, div_le_div_iff₀ (by positivity) (by positivity)]
    linarith

namespace Holds

variable {b : Binary} {code : ℕ} {k : ℤ} {c : ℕ}

theorem pos_of_inCell (h : Holds b code) {q : ℚ} (hcell : InCell q code) : 0 < q := by
  have hlower := hcell.lower h.code_pos
  have := Double.magnitude_pos h.code_pos
  have := Double.magnitude_nonneg (code - 1)
  linarith

theorem not_inCell_of_bound_lt (h : Holds b code) (hk : b.bound < k) :
    ¬ InCell (c * 10 ^ k) code := by
  intro hcell
  have hlog := Nat.lt_log2_self (n := b.mantissa)
  have hlog53 : b.mantissa.log2 < 53 := (Nat.log2_lt h.pos.ne').mpr h.lt
  have hten : (0 : ℚ) < 10 ^ k := by positivity
  have hc : (1 : ℚ) ≤ c := by
    have := pos_of_mul_pos_left (h.pos_of_inCell hcell) hten.le
    exact_mod_cast this
  have hupper : (c * 10 ^ k : ℚ) ≤ b.upper * b.quarter := by
    have := hcell.upper
    rw [h.magnitude_succ_eq] at this
    linarith
  have hpower : (b.upper * b.quarter : ℚ) < 2 ^ (b.exponent + b.mantissa.log2 + 1) := by
    have hquarter := b.quarter_pos
    have hmantissa : (b.upper : ℚ) < 2 ^ 2 * 2 ^ (b.mantissa.log2 + 1) := by
      rw [upper]
      exact_mod_cast (by omega : 4 * b.mantissa + 2 < 2 ^ 2 * 2 ^ (b.mantissa.log2 + 1))
    calc (b.upper * b.quarter : ℚ) < 2 ^ 2 * 2 ^ (b.mantissa.log2 + 1) * b.quarter := by gcongr
      _ = 2 ^ (b.exponent + b.mantissa.log2 + 1) := by
        rw [quarter, ← pow_add, ← zpow_natCast, ← zpow_add₀ two_ne_zero]
        congr 1
        push_cast
        ring
  have hbound : (2 : ℚ) ^ (b.exponent + b.mantissa.log2 + 1) ≤ 10 ^ k := by
    have hrange : -1074 ≤ b.exponent ∧ b.exponent ≤ 971 := by
      obtain ⟨e, hexponent, hcode, hnormal⟩ := h.range
      have hfinite := h.finite
      simp only [Double.infinity] at hfinite
      omega
    refine (two_zpow_le_ten_zpow (by omega) (by omega)).trans ?_
    refine zpow_le_zpow_right₀ (by norm_num) ?_
    rw [bound] at hk
    omega
  nlinarith

-- No decimal with a larger exponent than the shortest one rounds to the number.
theorem not_inCell_of_shortest_lt (h : Holds b code) (hk : (b.shortest .up).exponent < k) :
    ¬ InCell (c * 10 ^ k) code := by
  rcases le_or_gt k b.bound with hle | hgt
  · exact h.not_inCell_of_onGrid?_eq_none ((h.search_spec b.bound).2 k hk hle) c
  · exact h.not_inCell_of_bound_lt hgt

theorem bounds_of_inCell (h : Holds b code) {q r : ℚ} (hq : InCell q code) (hr : InCell r code) :
    q ≤ b.upper * b.quarter ∧ b.lower * b.quarter ≤ r := by
  have hupper := hq.upper
  have hlower := hr.lower h.code_pos
  rw [h.magnitude_succ_eq] at hupper
  rw [h.magnitude_pred_eq] at hlower
  exact ⟨by linarith, by linarith⟩

end Holds

theorem cast_upper (b : Binary) : (b.upper : ℚ) = 4 * b.mantissa + 2 := by
  rw [upper]
  push_cast
  rfl

theorem le_cast_lower (b : Binary) : (4 * b.mantissa - 2 : ℚ) ≤ b.lower := by
  have hle : 4 * b.mantissa ≤ b.lower + 2 := by
    rw [lower]
    split <;> omega
  have : (4 * b.mantissa : ℚ) ≤ b.lower + 2 := by exact_mod_cast hle
  linarith

end Binary

def length (d : Decimal) : ℕ :=
  (Nat.toDigits 10 d.digits).length

theorem length_pos (d : Decimal) : 0 < d.length :=
  Nat.length_toDigits_pos

theorem digits_lt (d : Decimal) : d.digits < 10 ^ d.length :=
  (Nat.length_toDigits_le_iff (by decide) d.length_pos).mp le_rfl

theorem le_digits {d : Decimal} (hpos : 0 < d.digits) : 10 ^ (d.length - 1) ≤ d.digits := by
  rcases Nat.lt_or_ge 1 d.length with hlt | hge
  · by_contra hsmall
    have hle := (Nat.length_toDigits_le_iff (b := 10) (by decide) (by omega)).mpr (not_le.mp hsmall)
    rw [← length] at hle
    omega
  · rw [show d.length - 1 = 0 by omega, pow_zero]
    exact hpos

-- The power of ten above the first digit.
def point (d : Decimal) : ℤ :=
  d.length + d.exponent

theorem ten_pow_mul_zpow (n : ℕ) (k : ℤ) : (10 : ℚ) ^ n * 10 ^ k = 10 ^ (n + k) := by
  rw [← zpow_natCast, ← zpow_add₀ (by norm_num)]

theorem ten_mul_zpow_le {i j : ℤ} (h : i < j) : (10 * 10 ^ i : ℚ) ≤ 10 ^ j := by
  rw [← zpow_one_add₀ (by norm_num)]
  exact zpow_le_zpow_right₀ (by norm_num) (by omega)

theorem toRat_lt (d : Decimal) : d.toRat < 10 ^ d.point := by
  have hlt : (d.digits : ℚ) < 10 ^ d.length := by exact_mod_cast d.digits_lt
  rw [point, ← ten_pow_mul_zpow, toRat]
  gcongr

theorem le_toRat {d : Decimal} (hpos : 0 < d.digits) : 10 ^ (d.point - 1) ≤ d.toRat := by
  have hle : (10 ^ (d.length - 1) : ℚ) ≤ d.digits := by exact_mod_cast le_digits hpos
  have hpoint : d.point - 1 = (d.length - 1 : ℕ) + d.exponent := by
    have := d.length_pos
    rw [point]
    omega
  rw [hpoint, ← ten_pow_mul_zpow, toRat]
  gcongr

theorem point_le_of_toRat_lt {d : Decimal} (hpos : 0 < d.digits) {k : ℤ} (h : d.toRat < 10 ^ k) :
    d.point ≤ k := by
  have hlt := (zpow_lt_zpow_iff_right₀ (by norm_num)).mp ((le_toRat hpos).trans_lt h)
  omega

theorem ten_mul_toRat_le {d : Decimal} {k : ℤ} (hlength : d.length = 1) (hlt : d.exponent < k) :
    10 * d.toRat ≤ 9 * 10 ^ k := by
  have hdigits : (d.digits : ℚ) ≤ 9 := by
    have := d.digits_lt
    rw [hlength] at this
    exact_mod_cast (by omega : d.digits ≤ 9)
  have hten := ten_mul_zpow_le hlt
  have : (0 : ℚ) < 10 ^ d.exponent := by positivity
  rw [toRat]
  nlinarith

theorem eq_of_toRat_eq {d e : Decimal} (hpos : 0 < d.digits) (hlength : d.length = e.length)
    (h : d.toRat = e.toRat) : d = e := by
  have hpose : 0 < e.digits := by
    have : 0 < e.toRat := by
      rw [← h, toRat]
      positivity
    exact_mod_cast pos_of_mul_pos_left this (by positivity)
  have hpoint : d.point = e.point := by
    have h₁ := (le_toRat hpos).trans_lt (h ▸ e.toRat_lt)
    have h₂ := (le_toRat hpose).trans_lt (h ▸ d.toRat_lt)
    rw [zpow_lt_zpow_iff_right₀ (by norm_num)] at h₁ h₂
    omega
  have hexponent : d.exponent = e.exponent := by
    rw [point, point] at hpoint
    omega
  have hdigits : d.digits = e.digits := by
    have hne : (10 : ℚ) ^ e.exponent ≠ 0 := by positivity
    rw [toRat, toRat, hexponent] at h
    exact_mod_cast mul_right_cancel₀ hne h
  cases d
  cases e
  simp_all

namespace Binary.Holds

open Double (InCell)

variable {b : Binary} {code : ℕ}

theorem inCell_shortest (h : Holds b code) : InCell (b.shortest .up).toRat code := by
  have hsome := (h.search_spec b.bound).1
  exact (h.readsBack_iff _ _).mp (onGrid?_eq_some hsome).1

theorem digits_pos_of_inCell (h : Holds b code) {d : Decimal} (hd : InCell d.toRat code) :
    0 < d.digits := by
  have hpos := h.pos_of_inCell hd
  rw [toRat] at hpos
  exact_mod_cast pos_of_mul_pos_left hpos (by positivity)

theorem exponent_le_shortest (h : Holds b code) {d : Decimal} (hd : InCell d.toRat code) :
    d.exponent ≤ (b.shortest .up).exponent := by
  by_contra hlt
  exact h.not_inCell_of_shortest_lt (not_le.mp hlt) hd

-- A power of ten between a decimal and the shortest one would be on a coarser grid, unless the
-- shortest one has a single digit.
theorem length_shortest_of_lt (h : Holds b code) {d : Decimal} (hd : InCell d.toRat code)
    (hlt : d.point < (b.shortest .up).point) : (b.shortest .up).length = 1 := by
  have hshortest := h.inCell_shortest
  have habove := le_toRat (h.digits_pos_of_inCell hshortest)
  have hcoarse (c : ℕ) := h.not_inCell_of_shortest_lt (k := (b.shortest .up).exponent + 1) (c := c)
    (by omega)
  have hlength := (b.shortest .up).length_pos
  generalize b.shortest .up = s at *
  by_contra hlong
  refine hcoarse (10 ^ (s.length - 2)) (hd.of_between hshortest ?_ ?_)
  all_goals
    have hpower : ((10 ^ (s.length - 2) : ℕ) * 10 ^ (s.exponent + 1) : ℚ) = 10 ^ (s.point - 1) := by
      push_cast
      rw [ten_pow_mul_zpow, point]
      congr 1
      omega
    rw [hpower]
  · exact d.toRat_lt.le.trans (zpow_le_zpow_right₀ (by norm_num) (by omega))
  · exact habove

theorem length_shortest_le (h : Holds b code) {d : Decimal} (hd : InCell d.toRat code) :
    (b.shortest .up).length ≤ d.length := by
  have hexponent := h.exponent_le_shortest hd
  have hpos := d.length_pos
  by_contra hlt
  have := h.length_shortest_of_lt hd (by rw [point, point]; omega)
  omega

-- What is as near to a number as half a unit of its 17th digit rounds to it.
theorem inCell_of_abs_sub_lt (h : Holds b code) {q : ℚ}
    (hq : |q - Double.magnitude code| * 2 ^ 54 < Double.magnitude code) : InCell q code := by
  have hquarter := b.quarter_pos
  have hcode := h.magnitude_eq
  have hlt : (b.mantissa : ℚ) < 2 ^ 53 := by exact_mod_cast h.lt
  have hlower : Double.magnitude code ≤ (4 * b.mantissa - b.lower) * b.quarter * 2 ^ 54 := by
    rw [hcode, lower]
    simp only [Nat.pow_eq]
    have hpos := h.pos
    split
    · rename_i hfirst
      rw [hfirst.1, Nat.cast_sub (by norm_num)]
      push_cast
      linarith
    · rw [Nat.cast_sub (by omega)]
      push_cast
      nlinarith
  have hnear : |q - Double.magnitude code| < Double.magnitude code / 2 ^ 54 := by
    rwa [lt_div_iff₀ (by positivity)]
  obtain ⟨hleft, hright⟩ := abs_lt.mp hnear
  have hends : b.lower * b.quarter < q ∧ q < b.upper * b.quarter := by
    rw [hcode] at *
    constructor
    · have : 4 * b.mantissa * b.quarter / 2 ^ 54 ≤ (4 * b.mantissa - b.lower) * b.quarter := by
        rw [div_le_iff₀ (by positivity)]
        exact hlower
      linarith
    · have : 4 * b.mantissa * b.quarter / 2 ^ 54 < 2 * b.quarter := by
        rw [div_lt_iff₀ (by positivity)]
        nlinarith
      rw [b.cast_upper]
      linarith
  rw [h.inCell_iff]
  split
  · exact ⟨hends.1.le, hends.2.le⟩
  · exact hends

-- Seventeen digits are always enough.
theorem digits_shortest_lt (h : Holds b code) : (b.shortest .up).digits < 10 ^ 17 := by
  have hpos := Double.magnitude_pos h.code_pos
  obtain ⟨k, hk⟩ : ∃ k, k = Int.log 10 (Double.magnitude code) - 16 := ⟨_, rfl⟩
  have hten : (0 : ℚ) < 10 ^ k := by positivity
  have hlow : 10 ^ 16 * 10 ^ k ≤ Double.magnitude code := by
    have := Int.zpow_log_le_self (b := 10) (by decide) hpos
    rw [ten_pow_mul_zpow]
    rwa [show ((16 : ℕ) : ℤ) + k = Int.log 10 (Double.magnitude code) by omega]
  have hhigh : Double.magnitude code < 10 ^ 17 * 10 ^ k := by
    have := Int.lt_zpow_succ_log_self (b := 10) (by decide) (Double.magnitude code)
    rw [ten_pow_mul_zpow]
    rwa [show ((17 : ℕ) : ℤ) + k = Int.log 10 (Double.magnitude code) + 1 by omega]
  -- the multiple nearest to the number, with seventeen digits or a zero after them
  obtain ⟨c, hc⟩ : ∃ c, c = ⌊Double.magnitude code / 10 ^ k + 1 / 2⌋₊ := ⟨_, rfl⟩
  have hfloor : (c : ℚ) ≤ Double.magnitude code / 10 ^ k + 1 / 2 := by
    rw [hc]
    exact Nat.floor_le (by positivity)
  have hfloor' : Double.magnitude code / 10 ^ k + 1 / 2 < c + 1 := by
    rw [hc]
    exact Nat.lt_floor_add_one _
  have hcell : InCell (c * 10 ^ k) code := by
    apply h.inCell_of_abs_sub_lt
    have hnear : |(c * 10 ^ k : ℚ) - Double.magnitude code| ≤ 10 ^ k / 2 := by
      have hsplit : Double.magnitude code = Double.magnitude code / 10 ^ k * 10 ^ k := by field_simp
      rw [abs_le]
      constructor <;> nlinarith
    nlinarith
  have hle : c ≤ 10 ^ 17 := by
    have : Double.magnitude code / 10 ^ k < 10 ^ 17 := by rwa [div_lt_iff₀ hten]
    have : (c : ℚ) < 10 ^ 17 + 1 := by linarith
    exact Nat.lt_succ_iff.mp (by exact_mod_cast this)
  have hlength : (b.shortest .up).length ≤ 17 := by
    rcases eq_or_lt_of_le hle with rfl | hlt
    · have hone : InCell (toRat ⟨1, (17 : ℕ) + k⟩) code := by
        rw [toRat, Nat.cast_one, one_mul]
        rwa [Nat.cast_pow, Nat.cast_ofNat, ten_pow_mul_zpow] at hcell
      refine (h.length_shortest_le hone).trans ?_
      exact (Nat.length_toDigits_le_iff (b := 10) (by decide) (by decide)).mpr (by norm_num)
    · refine (h.length_shortest_le (d := ⟨c, k⟩) hcell).trans ?_
      exact (Nat.length_toDigits_le_iff (b := 10) (by decide) (by decide)).mpr hlt
  exact (digits_lt _).trans_le (Nat.pow_le_pow_right (by decide) hlength)

end Binary.Holds

theorem zpow_lt_of_pow_lt {x y m n : ℕ} (h : x * 10 ^ m < y * 2 ^ n) :
    (x * 2 ^ (-n : ℤ) : ℚ) < y * 10 ^ (-m : ℤ) := by
  have hcast : (x * 10 ^ m : ℚ) < y * 2 ^ n := by exact_mod_cast h
  rw [zpow_neg, zpow_neg, zpow_natCast, zpow_natCast, ← div_eq_mul_inv, ← div_eq_mul_inv,
    div_lt_div_iff₀ (by positivity) (by positivity)]
  exact hcast

theorem zpow_lt_of_lt_pow {x y m n : ℕ} (h : y * 2 ^ n < x * 10 ^ m) :
    (y * 10 ^ (-m : ℤ) : ℚ) < x * 2 ^ (-n : ℤ) := by
  have hcast : (y * 2 ^ n : ℚ) < x * 10 ^ m := by exact_mod_cast h
  rw [zpow_neg, zpow_neg, zpow_natCast, zpow_natCast, ← div_eq_mul_inv, ← div_eq_mul_inv,
    div_lt_div_iff₀ (by positivity) (by positivity)]
  exact hcast

namespace Binary.Holds

open Double (InCell)

variable {b : Binary} {code : ℕ} {k : ℤ} {d : Decimal}

-- The cells of all but the least doubles are too narrow for a power of ten and nine tenths of it.
theorem mantissa_lt_ten (h : Holds b code) {q r : ℚ} (hq : InCell q code) (hr : InCell r code)
    (hle : 10 * r ≤ 9 * q) : b.mantissa < 10 := by
  by_contra hge
  have hquarter := b.quarter_pos
  have hmantissa : (10 : ℚ) ≤ b.mantissa := by exact_mod_cast not_lt.mp hge
  have hlower := b.le_cast_lower
  obtain ⟨hqle, hler⟩ := h.bounds_of_inCell hq hr
  rw [b.cast_upper] at hqle
  nlinarith

-- Only the second least double lies so near to a power of ten.
theorem sub_ten_zpow_lt (h : Holds b code) {r : ℚ} (hpower : InCell (10 ^ k) code)
    (hr : InCell r code) (hle : 10 * r ≤ 9 * 10 ^ k) :
    |Double.magnitude code - 10 ^ k| < |Double.magnitude code - r| := by
  have hmantissa := h.mantissa_lt_ten hpower hr hle
  have hexponent : b.exponent = -1074 := by
    obtain ⟨e, hexponent, -, hnormal⟩ := h.range
    omega
  have hcode := h.magnitude_eq
  have hpos := h.pos
  obtain ⟨hupper, hlower⟩ := h.bounds_of_inCell hpower hpower
  have hquarter : b.quarter = 2 ^ (-(1076 : ℕ) : ℤ) := by
    rw [quarter, hexponent]
    rfl
  have hunit := b.quarter_pos
  have hnear : ((809 : ℕ) * b.quarter : ℚ) < (100 : ℕ) * 10 ^ (-(323 : ℕ) : ℤ) ∧
      ((100 : ℕ) * 10 ^ (-(323 : ℕ) : ℤ) : ℚ) < (810 : ℕ) * b.quarter := by
    rw [hquarter]
    exact ⟨zpow_lt_of_pow_lt (by decide +kernel), zpow_lt_of_lt_pow (by decide +kernel)⟩
  rw [lower, if_neg (by rw [hexponent]; simp), Nat.cast_sub (by omega)] at hlower
  rw [upper] at hupper
  -- the exponent is that of the power of ten nearest to the least doubles
  obtain rfl : k = -(323 : ℕ) := by
    have hmantissa' : (b.mantissa : ℚ) ≤ 9 := by exact_mod_cast Nat.lt_succ_iff.mp hmantissa
    have hpos' : (1 : ℚ) ≤ b.mantissa := by exact_mod_cast hpos
    rcases lt_trichotomy k (-(323 : ℕ)) with hlt | heq | hgt
    · have := ten_mul_zpow_le hlt
      generalize (10 : ℚ) ^ (-(323 : ℕ) : ℤ) = ten at *
      push_cast at hlower hnear
      nlinarith
    · exact heq
    · have := ten_mul_zpow_le hgt
      generalize (10 : ℚ) ^ (-(323 : ℕ) : ℤ) = ten at *
      push_cast at hupper hnear
      nlinarith
  generalize (10 : ℚ) ^ (-(323 : ℕ) : ℤ) = ten at *
  generalize b.quarter = unit at *
  rw [hcode]
  push_cast at hupper hlower hnear
  have htwo : b.mantissa = 2 := by
    have hlow : (1 : ℚ) < b.mantissa := by nlinarith
    have hhigh : (b.mantissa : ℚ) < 3 := by nlinarith
    have : 1 < b.mantissa := by exact_mod_cast hlow
    have : b.mantissa < 3 := by exact_mod_cast hhigh
    omega
  rw [htwo]
  push_cast
  rw [abs_of_neg (by linarith), abs_of_pos (by linarith)]
  linarith

theorem nearest_shortest (h : Holds b code) (hd : InCell d.toRat code)
    (hlength : d.length = (b.shortest .up).length) :
    |Double.magnitude code - (b.shortest .up).toRat| ≤ |Double.magnitude code - d.toRat| ∧
      (|Double.magnitude code - (b.shortest .up).toRat| = |Double.magnitude code - d.toRat| →
        d.toRat ≤ (b.shortest .up).toRat) := by
  have hsome : b.onGrid? .up (b.shortest .up).exponent = some (b.shortest .up).digits :=
    (h.search_spec b.bound).1
  have hshortest := h.inCell_shortest
  have hdigits := h.digits_pos_of_inCell hshortest
  have hexponent := h.exponent_le_shortest hd
  have hsingle := h.length_shortest_of_lt hd
  set s := b.shortest .up with hs
  rcases eq_or_lt_of_le hexponent with heq | hlt
  · have hcoarse : d.toRat = d.digits * 10 ^ s.exponent := by rw [toRat, heq]
    rw [hcoarse] at hd ⊢
    obtain ⟨hle, htie⟩ := h.nearest_of_onGrid? hsome hd
    refine ⟨hle, fun hdistance => ?_⟩
    have := htie hdistance
    rw [toRat]
    gcongr
  · -- one digit against one digit: the power of ten is between the two
    have hone := hsingle (by rw [point, point]; omega)
    have hnine := ten_mul_toRat_le (hlength.trans hone) hlt
    have hpower : InCell ((1 : ℕ) * 10 ^ s.exponent) code := by
      have : (0 : ℚ) < 10 ^ s.exponent := by positivity
      refine hd.of_between hshortest ?_ ?_
      · rw [Nat.cast_one]
        linarith
      · rw [toRat]
        gcongr
        exact hdigits
    have hclose := (h.nearest_of_onGrid? hsome hpower).1
    rw [Nat.cast_one, one_mul] at hclose hpower
    have hfar := h.sub_ten_zpow_lt hpower hd hnine
    exact ⟨(hclose.trans_lt hfar).le, fun heq => absurd heq (hclose.trans_lt hfar).ne⟩

-- A number lies on the one side of a power of ten with its digits if it does with its double.
theorem lt_point_iff (h : Holds b code) {p : ℤ} {other : ℕ} (hpower : InCell (10 ^ p) other)
    (hother : 10 ≤ other) : p < (b.shortest .up).point ↔ other ≤ code := by
  have hshortest := h.inCell_shortest
  constructor
  · intro hlt
    refine hpower.le_of_le hshortest (le_trans ?_ (le_toRat (h.digits_pos_of_inCell hshortest)))
    exact zpow_le_zpow_right₀ (by norm_num) (by omega)
  · intro hle
    by_contra hge
    rw [not_lt] at hge
    -- then the double of the power of ten is the number's own
    have hbelow : (b.shortest .up).toRat ≤ 10 ^ p :=
      (toRat_lt _).le.trans (zpow_le_zpow_right₀ (by norm_num) hge)
    obtain rfl : code = other := le_antisymm (hshortest.le_of_le hpower hbelow) hle
    have hone : (b.shortest .up).length = 1 := by
      have hlength : (⟨1, p⟩ : Decimal).length = 1 := by
        rw [length, Nat.toDigits_of_lt_base (show 1 < 10 by decide)]
        rfl
      refine le_antisymm (hlength ▸ h.length_shortest_le ?_) (length_pos _)
      rwa [toRat, Nat.cast_one, one_mul]
    have hnine := ten_mul_toRat_le (k := p) hone (by rw [point, hone] at hge; omega)
    have hmantissa := h.mantissa_lt_ten hpower hshortest hnine
    obtain ⟨e, -, hcode, hnormal⟩ := h.range
    omega

end Binary.Holds

open Double (IsNearest code value isNegative)

-- The number with the sign of a double.
def signed (x : Float) (q : ℚ) : ℚ :=
  if isNegative x then -q else q

-- The digits that a finite double other than zero is written with: as few as round to it, and of
-- the decimals with so many digits the nearest one. Of two that are just as near it is the larger
-- one.
structure IsShortest (x : Float) (d : Decimal) : Prop where
  rounds : IsNearest (signed x d.toRat) x
  fewest : ∀ e : Decimal, IsNearest (signed x e.toRat) x → d.length ≤ e.length
  nearest : ∀ e : Decimal, IsNearest (signed x e.toRat) x → e.length = d.length →
    |(|value x| - d.toRat)| ≤ |(|value x| - e.toRat)|
  larger : ∀ e : Decimal, IsNearest (signed x e.toRat) x → e.length = d.length →
    |(|value x| - d.toRat)| = |(|value x| - e.toRat)| → e.toRat ≤ d.toRat

theorem toRat_nonneg (d : Decimal) : 0 ≤ d.toRat := by
  rw [toRat]
  positivity

theorem toRat_of_nonneg {d : Decimal} (h : 0 ≤ d.exponent) :
    d.toRat = (d.digits * 10 ^ d.exponent.natAbs : ℕ) := by
  obtain ⟨k, hk⟩ := Int.eq_ofNat_of_zero_le h
  rw [toRat, hk, zpow_natCast, Int.natAbs_natCast]
  push_cast
  rfl

theorem toRat_of_neg {d : Decimal} (h : d.exponent < 0) :
    d.toRat = d.digits / (10 ^ d.exponent.natAbs : ℕ) := by
  obtain ⟨k, hk⟩ := Int.eq_ofNat_of_zero_le (Int.neg_nonneg_of_nonpos h.le)
  rw [toRat, neg_eq_iff_eq_neg.mp hk, zpow_neg, zpow_natCast, Int.natAbs_neg, Int.natAbs_natCast]
  push_cast
  rfl

section

variable {x : Float} (hfinite : x.isFinite) (hzero : value x ≠ 0)

include hfinite hzero

theorem holds_ofBits : (Binary.ofBits x.toBits).Holds (code x) :=
  Binary.holds_ofBits (Double.code_pos hzero) (Double.isFinite_iff.mp hfinite)

theorem isNearest_signed_iff {q : ℚ} (hq : 0 ≤ q) :
    IsNearest (signed x q) x ↔ Double.InCell q (code x) := by
  have hholds := holds_ofBits hfinite hzero
  have habs : |signed x q| = q := by
    rw [signed]
    split
    · rw [abs_neg, abs_of_nonneg hq]
    · exact abs_of_nonneg hq
  rw [Double.isNearest_iff, habs]
  refine ⟨fun h => h.1, fun h => ⟨h, Double.isFinite_iff.mp hfinite, ?_⟩⟩
  have hpos := hholds.pos_of_inCell h
  rw [signed]
  cases isNegative x
  · simp [hq]
  · simp [hpos]

theorem isShortest_shortest : IsShortest x ((Binary.ofBits x.toBits).shortest .up) := by
  have h := holds_ofBits hfinite hzero
  have hiff (d : Decimal) := isNearest_signed_iff hfinite hzero d.toRat_nonneg
  refine ⟨(hiff _).mpr h.inCell_shortest, fun e he => h.length_shortest_le ((hiff e).mp he),
    fun e he hlength => ?_, fun e he hlength => ?_⟩
  · rw [Double.abs_value]
    exact (h.nearest_shortest ((hiff e).mp he) hlength).1
  · rw [Double.abs_value]
    exact (h.nearest_shortest ((hiff e).mp he) hlength).2

-- There is one such decimal, and it is the one that the search finds.
theorem isShortest_iff {d : Decimal} :
    IsShortest x d ↔ d = (Binary.ofBits x.toBits).shortest .up := by
  have hs := isShortest_shortest hfinite hzero
  refine ⟨fun hd => ?_, fun heq => heq ▸ hs⟩
  generalize (Binary.ofBits x.toBits).shortest .up = s at *
  have hlength : d.length = s.length := le_antisymm (hd.fewest s hs.rounds) (hs.fewest d hd.rounds)
  have hdistance :=
    le_antisymm (hd.nearest s hs.rounds hlength.symm) (hs.nearest d hd.rounds hlength)
  have hdigits : 0 < d.digits := (holds_ofBits hfinite hzero).digits_pos_of_inCell
    ((isNearest_signed_iff hfinite hzero d.toRat_nonneg).mp hd.rounds)
  refine eq_of_toRat_eq hdigits hlength (le_antisymm ?_ ?_)
  · exact hs.larger d hd.rounds hlength hdistance.symm
  · exact hd.larger s hs.rounds hlength.symm hdistance

variable {d : Decimal} (hd : IsShortest x d)

include hd

theorem IsShortest.inCell : Double.InCell d.toRat (code x) :=
  (isNearest_signed_iff hfinite hzero d.toRat_nonneg).mp hd.rounds

-- Below the double `2 ^ 64` the shortest digits stay below it.
theorem IsShortest.toRat_lt (hlt : |value x| < 2 ^ 64) : d.toRat < 2 ^ 64 := by
  have hlimit : Double.magnitude (1086 * 2 ^ 52 + 2 ^ 52) = 2 ^ 64 := by
    rw [Double.magnitude_eq (by decide) (.inl le_rfl)]
    norm_num
  by_contra hge
  rw [not_lt, ← hlimit] at hge
  have hcode := (Double.InCell.self _).le_of_le (hd.inCell hfinite hzero) hge
  have hle := Double.magnitude_strictMono.monotone hcode
  rw [hlimit, ← Double.abs_value] at hle
  exact hle.not_gt hlt

-- The shortest digits of an integer are those of an integer. Otherwise the power of ten at or below
-- it would be nearer, and no longer.
theorem exponent_nonneg_of_abs_value {n : ℕ} (hn : |value x| = n) : 0 ≤ d.exponent := by
  have hcell := hd.inCell hfinite hzero
  have hiff (e : Decimal) := isNearest_signed_iff hfinite hzero e.toRat_nonneg
  have hself : Double.InCell n (code x) := by
    rw [← hn, Double.abs_value]
    exact Double.InCell.self _
  have hpos : 0 < n := by
    rw [← Nat.cast_pos (α := ℚ), ← hn]
    exact abs_pos.mpr hzero
  let whole : Decimal := ⟨n, 0⟩
  have hwhole : whole.toRat = n := by simp [whole, toRat]
  have hlength := hd.fewest whole ((hiff whole).mpr (hwhole ▸ hself))
  by_contra hneg
  let first : Decimal := ⟨1, whole.length - 1⟩
  have hfirst : first.toRat = 10 ^ (whole.point - 1) := by simp [first, toRat, whole, point]
  have hlt : d.toRat < first.toRat := by
    rw [hfirst]
    refine d.toRat_lt.trans_le (zpow_le_zpow_right₀ (by norm_num) ?_)
    simp only [point, whole] at *
    omega
  have hle : first.toRat ≤ n := by
    rw [hfirst, ← hwhole]
    exact le_toRat hpos
  have hnearest := (hiff first).mpr (hcell.of_between hself hlt.le hle)
  have hone : first.length = 1 :=
    congrArg List.length (Nat.toDigits_of_lt_base (show 1 < 10 by decide))
  have hshort : d.length = 1 := by
    have := hd.fewest first hnearest
    have := d.length_pos
    omega
  have hdistance := hd.nearest first hnearest (hone.trans hshort.symm)
  rw [hn, abs_of_pos (by linarith), abs_of_nonneg (by linarith)] at hdistance
  linarith

end

end Estree.Decimal
