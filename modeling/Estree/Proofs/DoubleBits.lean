import Estree.Proofs.Doubles
open Float.Model (Format UnpackedFloat)
open Float.Model.UnpackedFloat (Sign unpackExponent unpackMantissa unpackSign packComponents
  packedInfinity packedZero)
namespace Estree.Double

-- What a code stands for, given the sign.
inductive Unpacks (sign : Sign) (code : ℕ) : UnpackedFloat → Prop
  | zero (hcode : code = 0) : Unpacks sign code (.zero sign)
  | finite {e m : ℕ} {exponent : ℤ} (hm : 0 < m) (hexponent : exponent = e - 1074)
      (hcode : code = e * 2 ^ 52 + m) (hfinite : code < Double.infinity) (hlt : m < 2 ^ 53)
      (hnormal : 2 ^ 52 ≤ m ∨ e = 0) : Unpacks sign code (.finite sign m exponent hm)
  | infinity (hcode : code = Double.infinity) : Unpacks sign code (.infinity sign)
  | notANumber (hcode : Double.infinity < code) : Unpacks sign code .notANumber

section Bits

variable (b : BitVec 64)

theorem toNat_unpackExponent :
    (@unpackExponent Format.binary64 b).toNat = b.toNat / 2 ^ 52 % 2 ^ 11 := by
  simp [unpackExponent, Nat.shiftRight_eq_div_pow]

theorem toNat_unpackMantissa :
    (@unpackMantissa Format.binary64 b).toNat = b.toNat % 2 ^ 52 := by
  simp [unpackMantissa]

theorem toNat_unpackSign :
    (@unpackSign Format.binary64 b).toNat = b.toNat / 2 ^ 63 := by
  have := b.isLt
  simp [unpackSign, Nat.shiftRight_eq_div_pow]
  omega

theorem toNat_packComponents (sign : Sign) (e : BitVec 11) (m : BitVec 52) :
    (packComponents Format.binary64 sign e m).toNat =
      sign.toBitVec.toNat * 2 ^ 63 + e.toNat * 2 ^ 52 + m.toNat := by
  have he := e.isLt
  have hm := m.isLt
  rw [packComponents, BitVec.toNat_append, BitVec.toNat_append, ← Nat.shiftLeft_add_eq_or_of_lt he,
    ← Nat.shiftLeft_add_eq_or_of_lt hm]
  simp only [Nat.shiftLeft_eq]
  ring

-- The sign that some bits begin with.
def signOf (bits : ℕ) : Sign :=
  if 2 ^ 63 ≤ bits then .negative else .positive

theorem ofBitVec_unpackSign :
    Sign.ofBitVec (@unpackSign Format.binary64 b) = signOf b.toNat := by
  have hbits := toNat_unpackSign b
  have hzero : @unpackSign Format.binary64 b = 0#1 ↔ ¬ 2 ^ 63 ≤ b.toNat := by
    rw [← BitVec.toNat_inj, hbits]
    change b.toNat / 2 ^ 63 = 0 ↔ _
    omega
  rw [Sign.ofBitVec, signOf]
  by_cases h : 2 ^ 63 ≤ b.toNat
  · rw [if_pos h, if_neg (by rw [hzero]; exact not_not.mpr h)]
  · rw [if_neg h, if_pos (hzero.mpr h)]

theorem toNat_one_append_unpackMantissa :
    (1#1 ++ @unpackMantissa Format.binary64 b).toNat = 2 ^ 52 + b.toNat % 2 ^ 52 := by
  rw [BitVec.toNat_append, toNat_unpackMantissa,
    ← Nat.shiftLeft_add_eq_or_of_lt (Nat.mod_lt _ (by positivity))]
  rfl

theorem unpackExponent_eq_iff (e : BitVec 11) :
    @unpackExponent Format.binary64 b = e ↔ b.toNat / 2 ^ 52 % 2 ^ 11 = e.toNat := by
  rw [← BitVec.toNat_inj, toNat_unpackExponent]

theorem unpackMantissa_eq_zero_iff :
    @unpackMantissa Format.binary64 b = 0#52 ↔ b.toNat % 2 ^ 52 = 0 := by
  rw [← BitVec.toNat_inj, toNat_unpackMantissa]
  rfl

theorem unpacks_unpack :
    Unpacks (signOf b.toNat) (b.toNat % 2 ^ 63) (UnpackedFloat.unpack Format.binary64 b) := by
  have hexponent := toNat_unpackExponent b
  have hall : @unpackExponent Format.binary64 b = -1#11 ↔ b.toNat / 2 ^ 52 % 2 ^ 11 = 2047 :=
    unpackExponent_eq_iff b (-1#11)
  have hnone : @unpackExponent Format.binary64 b = 0#11 ↔ b.toNat / 2 ^ 52 % 2 ^ 11 = 0 :=
    unpackExponent_eq_iff b 0#11
  have hmantissa := unpackMantissa_eq_zero_iff b
  unfold UnpackedFloat.unpack
  dsimp only
  simp only [ofBitVec_unpackSign, hall, hnone, hmantissa]
  split
  · split
    · exact .infinity (by simp only [infinity]; omega)
    · exact .notANumber (by simp only [infinity]; omega)
  · split
    · split
      · exact .zero (by omega)
      · refine .finite (e := 0) _ ?_ ?_ ?_ ?_ (.inr rfl)
        · rw [hexponent]
          change (_ : ℤ) - (1023 + 52) + 1 = _
          omega
        all_goals simp only [toNat_unpackMantissa, infinity]; omega
    · have hfull := toNat_one_append_unpackMantissa b
      refine .finite (e := b.toNat / 2 ^ 52 % 2 ^ 11 - 1) _ ?_ ?_ ?_ ?_ (.inl ?_)
      · rw [hexponent]
        change (_ : ℤ) - (1023 + 52) = _
        omega
      · rw [hfull]
        omega
      · simp only [infinity]
        omega
      all_goals rw [hfull]; omega

end Bits

namespace Unpacks

variable {sign : Sign} {n : ℕ} {u : UnpackedFloat}

theorem isFinite_iff (h : Unpacks sign n u) : u.isFinite ↔ n < Double.infinity := by
  cases h <;> simp_all [UnpackedFloat.isFinite, le_of_lt, Double.infinity]

theorem isInf_iff (h : Unpacks sign n u) : u.isInf ↔ n = Double.infinity := by
  cases h <;> simp [UnpackedFloat.isInf] <;> simp_all [Double.infinity] <;> omega

theorem isNaN_iff (h : Unpacks sign n u) : u.isNaN ↔ Double.infinity < n := by
  cases h <;> simp_all [UnpackedFloat.isNaN, le_of_lt]

end Unpacks

theorem toNat_packedInfinity (sign : Sign) :
    (packedInfinity Format.binary64 sign).toNat = sign.toBitVec.toNat * 2 ^ 63 + infinity := by
  rw [packedInfinity, toNat_packComponents, Nat.add_assoc]
  simp [infinity]

theorem toNat_packedZero (sign : Sign) :
    (packedZero Format.binary64 sign).toNat = sign.toBitVec.toNat * 2 ^ 63 := by
  rw [packedZero, toNat_packComponents]
  simp

theorem toNat_pack_finite (sign : Sign) {e m : ℕ} (hm : 0 < m) (hlt : m < 2 ^ 53)
    (hnormal : 2 ^ 52 ≤ m ∨ e = 0) :
    (UnpackedFloat.pack Format.binary64 (.finite sign m (e - 1074) hm)).toNat =
      sign.toBitVec.toNat * 2 ^ 63 + min (e * 2 ^ 52 + m) infinity := by
  have hbiased : ((e - 1074 : ℤ) + Format.binary64.exponentBias + (52 : ℕ)).toNat = e + 1 := by
    change ((e - 1074 : ℤ) + 1023 + 52).toNat = e + 1
    omega
  have hlog : m.log2 + 1 = Format.binary64.mantissaBits ↔ 2 ^ 52 ≤ m := by
    have := Nat.log2_lt (k := 53) hm.ne'
    have := Nat.le_log2 (k := 52) hm.ne'
    change m.log2 + 1 = 53 ↔ _
    omega
  unfold UnpackedFloat.pack
  dsimp only
  rw [hbiased]
  simp only [hlog]
  split
  · rename_i hlarge
    change 2048 ≤ _ at hlarge
    have : infinity ≤ e * 2 ^ 52 + m := by
      simp only [infinity]
      omega
    rw [toNat_packedInfinity, min_eq_right this]
  · rename_i hsmall
    change ¬ 2048 ≤ _ at hsmall
    have : e * 2 ^ 52 + m ≤ infinity := by
      simp only [infinity]
      omega
    rw [min_eq_left this]
    split
    · rw [toNat_packComponents, BitVec.toNat_ofNat, BitVec.toNat_ofNat]
      omega
    · rw [toNat_packComponents, BitVec.toNat_ofNat, BitVec.toNat_ofNat]
      omega

-- The bits of a double apart from the sign.
def code (x : Float) : ℕ :=
  x.toBits.toNat % 2 ^ 63

def isNegative (x : Float) : Bool :=
  2 ^ 63 ≤ x.toBits.toNat

-- The number that a finite double stands for.
def value (x : Float) : ℚ :=
  if isNegative x then -magnitude (code x) else magnitude (code x)

theorem value_eq_magnitude {x : Float} (hsign : isNegative x = false) :
    value x = magnitude (code x) := by
  rw [value, hsign, if_neg (by decide)]

theorem abs_value (x : Float) : |value x| = magnitude (code x) := by
  have := magnitude_nonneg (code x)
  rw [value]
  split
  · rw [abs_neg, abs_of_nonneg this]
  · rw [abs_of_nonneg this]

theorem code_pos {x : Float} (hzero : value x ≠ 0) : 0 < code x := by
  rw [← abs_pos, abs_value] at hzero
  by_contra hle
  rw [show code x = 0 by omega, magnitude_zero] at hzero
  exact lt_irrefl 0 hzero

theorem value_neg_iff {x : Float} (hzero : value x ≠ 0) : value x < 0 ↔ isNegative x = true := by
  have hpos := magnitude_pos (code_pos hzero)
  rw [value]
  cases isNegative x
  · simp [hpos.le]
  · simp [hpos]

theorem le_abs_value_iff {x y : Float} (hsign : isNegative x = false) :
    value x ≤ |value y| ↔ code x ≤ code y := by
  rw [value_eq_magnitude hsign, abs_value, magnitude_strictMono.le_iff_le]

section Float

variable {x y : Float}

theorem ext (hsign : isNegative x = isNegative y) (hcode : code x = code y) : x = y := by
  have hbits : x.toBits = y.toBits := by
    have hx := x.toBits.toNat_lt
    have hy := y.toBits.toNat_lt
    rw [← UInt64.toNat_inj]
    simp only [isNegative, decide_eq_decide] at hsign
    simp only [code] at hcode
    omega
  obtain ⟨⟨bits, valid⟩⟩ := x
  obtain ⟨⟨bits', valid'⟩⟩ := y
  obtain rfl : bits = bits' := hbits
  rfl

theorem unpacks (x : Float) : Unpacks (signOf x.toBits.toNat) (code x) x.toModel.unpack :=
  unpacks_unpack x.toBits.toBitVec

theorem isFinite_iff : x.isFinite ↔ code x < infinity :=
  (unpacks x).isFinite_iff

theorem isInf_iff : x.isInf ↔ code x = infinity :=
  (unpacks x).isInf_iff

theorem isNaN_iff : x.isNaN ↔ infinity < code x :=
  (unpacks x).isNaN_iff

end Float

-- The double that an unpacked one is stored as.
def packed (u : UnpackedFloat) : Float :=
  .ofModel (.pack u)

theorem code_of_toNat_pack {u : UnpackedFloat} {sign : Sign} {n : ℕ} (hn : n ≤ infinity)
    (h : (UnpackedFloat.pack Format.binary64 u).toNat = sign.toBitVec.toNat * 2 ^ 63 + n) :
    code (packed u) = n ∧ isNegative (packed u) = (sign == .negative) := by
  have hbits : (packed u).toBits.toNat = sign.toBitVec.toNat * 2 ^ 63 + n := h
  simp only [infinity] at hn
  rw [code, isNegative, hbits]
  cases sign
  · change (1 * 2 ^ 63 + n) % 2 ^ 63 = n ∧ decide (_ ≤ 1 * 2 ^ 63 + n) = true
    rw [decide_eq_true_iff]
    omega
  · change (0 * 2 ^ 63 + n) % 2 ^ 63 = n ∧ decide (_ ≤ 0 * 2 ^ 63 + n) = false
    rw [decide_eq_false_iff_not]
    omega

theorem packed_finite (sign : Sign) {e m : ℕ} (hm : 0 < m) (hlt : m < 2 ^ 53)
    (hnormal : 2 ^ 52 ≤ m ∨ e = 0) :
    code (packed (.finite sign m (e - 1074) hm)) = min (e * 2 ^ 52 + m) infinity ∧
      isNegative (packed (.finite sign m (e - 1074) hm)) = (sign == .negative) :=
  code_of_toNat_pack (min_le_right _ _) (toNat_pack_finite sign hm hlt hnormal)

theorem packed_zero (sign : Sign) :
    code (packed (.zero sign)) = 0 ∧ isNegative (packed (.zero sign)) = (sign == .negative) :=
  code_of_toNat_pack (Nat.zero_le _) ((toNat_packedZero sign).trans (Nat.add_zero _).symm)

theorem exists_code_eq (negative : Bool) {n : ℕ} (hn : n < infinity) :
    ∃ x, isNegative x = negative ∧ code x = n := by
  obtain ⟨sign, rfl⟩ : ∃ sign : Sign, (sign == .negative) = negative := by
    cases negative
    · exact ⟨.positive, rfl⟩
    · exact ⟨.negative, rfl⟩
  rcases Nat.eq_zero_or_pos n with rfl | hpos
  · exact ⟨_, (packed_zero sign).2, (packed_zero sign).1⟩
  · obtain ⟨e, m, rfl, hlt, hnormal⟩ := exists_range n
    obtain ⟨hcode, hsign⟩ := packed_finite sign (by omega) hlt hnormal
    exact ⟨_, hsign, hcode.trans (min_eq_left hn.le)⟩

theorem packed_infinity (sign : Sign) :
    code (packed (.infinity sign)) = infinity ∧
      isNegative (packed (.infinity sign)) = (sign == .negative) :=
  code_of_toNat_pack le_rfl (toNat_packedInfinity sign)

theorem signOf_toBits (x : Float) :
    signOf x.toBits.toNat = if isNegative x then .negative else .positive := by
  simp [signOf, isNegative]

theorem neg_spec {x : Float} (hx : code x ≤ infinity) :
    code (-x) = code x ∧ isNegative (-x) = !isNegative x := by
  have hneg : -x = packed x.toModel.unpack.neg := rfl
  have hsign : (-signOf x.toBits.toNat == .negative) = !isNegative x := by
    rw [signOf_toBits]
    cases isNegative x <;> rfl
  rw [hneg, ← hsign]
  have h := unpacks x
  generalize x.toModel.unpack = u at *
  cases h with
  | zero hcode =>
    rw [hcode]
    exact packed_zero _
  | finite hm hexponent hcode hfinite hlt hnormal =>
    subst hexponent
    obtain ⟨hpacked, hnegative⟩ := packed_finite (-signOf x.toBits.toNat) hm hlt hnormal
    refine ⟨?_, hnegative⟩
    rw [hcode] at hfinite ⊢
    exact hpacked.trans (min_eq_left hfinite.le)
  | infinity hcode =>
    rw [hcode]
    exact packed_infinity _
  | notANumber hcode => omega

-- The finite double that a number rounds to: no double is nearer to it, and if another one is just
-- as near, then the last bit is zero. What rounds to zero leaves it its sign.
structure IsNearest (q : ℚ) (x : Float) : Prop where
  isFinite : x.isFinite
  inRange : |q| < overflow
  sign : isNegative x ↔ q < 0
  nearest : ∀ y : Float, y.isFinite → |q - value x| ≤ |q - value y|
  even : ∀ y : Float, y.isFinite → value y ≠ value x → |q - value y| = |q - value x| →
    x.toBits.toNat % 2 = 0

theorem abs_sub_value {q : ℚ} {x : Float} (hsign : isNegative x ↔ q < 0) :
    |q - value x| = |(|q| - magnitude (code x))| := by
  rw [value]
  by_cases hq : q < 0
  · rw [if_pos (hsign.mpr hq), abs_of_neg hq, ← abs_neg]
    congr 1
    ring
  · rw [if_neg (hsign.not.mpr hq), abs_of_nonneg (not_lt.mp hq)]

theorem abs_sub_value_of_ne {q : ℚ} {x : Float} (hsign : ¬ (isNegative x ↔ q < 0)) :
    |q - value x| = |q| + magnitude (code x) := by
  have := magnitude_nonneg (code x)
  rw [value]
  by_cases hq : q < 0
  · rw [if_neg (by tauto), abs_of_neg hq, abs_of_neg (by linarith)]
    ring
  · rw [if_pos (by tauto), abs_of_nonneg (not_lt.mp hq), abs_of_nonneg (by linarith)]
    ring

theorem toBits_mod_two (x : Float) : x.toBits.toNat % 2 = code x % 2 := by
  rw [code]
  omega

theorem value_eq_iff {x y : Float} (hsign : isNegative x = isNegative y) :
    value x = value y ↔ code x = code y := by
  rw [value, value, hsign]
  split
  · rw [neg_inj, magnitude_strictMono.injective.eq_iff]
  · rw [magnitude_strictMono.injective.eq_iff]

-- Doubles other than zero are told apart by their numbers.
theorem eq_of_value_eq {x y : Float} (hzero : value x ≠ 0) (h : value y = value x) : y = x := by
  have hsign : isNegative y = isNegative x := by
    rw [Bool.eq_iff_iff, ← value_neg_iff hzero, ← value_neg_iff (h ▸ hzero), h]
  exact ext hsign ((value_eq_iff hsign).mp h)

theorem value_neg {x : Float} (hx : code x ≤ infinity) : value (-x) = -value x := by
  obtain ⟨hcode, hsign⟩ := neg_spec hx
  rw [value, value, hcode, hsign]
  cases isNegative x <;> simp

theorem value_zero : value 0 = 0 := by
  rw [value, show code 0 = 0 by decide +kernel, magnitude_zero, neg_zero, ite_self]

-- The nearest double is the one whose cell the number is in.
theorem IsNearest.inCell {q : ℚ} {x : Float} (h : IsNearest q x) : InCell |q| (code x) := by
  obtain ⟨hfinite, hrange, hsign, hnearest, heven⟩ := h
  rw [isFinite_iff] at hfinite
  -- a neighbour of `x` with the same sign, seen from the magnitude of `q`
  have hneighbour (n : ℕ) (hn : n < infinity) :
      |(|q| - magnitude (code x))| ≤ |(|q| - magnitude n)| ∧
        (n ≠ code x → |(|q| - magnitude n)| = |(|q| - magnitude (code x))| → code x % 2 = 0) := by
    obtain ⟨y, hnegative, rfl⟩ := exists_code_eq (isNegative x) hn
    have hsigny : isNegative y ↔ q < 0 := by rw [hnegative, hsign]
    rw [← abs_sub_value hsign, ← abs_sub_value hsigny, ← toBits_mod_two]
    refine ⟨hnearest y (isFinite_iff.mpr hn), fun hne htie => ?_⟩
    exact heven y (isFinite_iff.mpr hn) ((value_eq_iff hnegative).not.mpr hne) htie
  refine ⟨abs_nonneg q, fun hpos => ?_, fun hpos heq => ?_, ?_, fun heq => ?_⟩
  · have hlt := magnitude_strictMono (show code x - 1 < code x by omega)
    have hle := (hneighbour (code x - 1) (by omega)).1
    cases abs_cases (|q| - magnitude (code x)) <;>
      cases abs_cases (|q| - magnitude (code x - 1)) <;> linarith
  · refine (hneighbour (code x - 1) (by omega)).2 (by omega) ?_
    rw [show |q| - magnitude (code x - 1) = -(|q| - magnitude (code x)) by linarith, abs_neg]
  · rcases Nat.lt_or_ge (code x + 1) infinity with hlt | hge
    · have hnext := magnitude_strictMono (Nat.lt_succ_self (code x))
      have hle := (hneighbour (code x + 1) hlt).1
      cases abs_cases (|q| - magnitude (code x)) <;>
        cases abs_cases (|q| - magnitude (code x + 1)) <;> linarith
    · have := magnitude_infinity
      rw [show code x = infinity - 1 by omega, show infinity - 1 + 1 = infinity by omega]
      linarith
  · rcases Nat.lt_or_ge (code x + 1) infinity with hlt | hge
    · refine (hneighbour (code x + 1) hlt).2 (by omega) ?_
      rw [show |q| - magnitude (code x + 1) = -(|q| - magnitude (code x)) by linarith, abs_neg]
    · have := magnitude_infinity
      rw [show code x = infinity - 1 by omega, show infinity - 1 + 1 = infinity by omega] at heq
      linarith

theorem isNearest_of_inCell {q : ℚ} {x : Float} (hcell : InCell |q| (code x))
    (hfinite : code x < infinity) (hsign : isNegative x ↔ q < 0) : IsNearest q x := by
  refine ⟨isFinite_iff.mpr hfinite, hcell.lt_infinity_iff.mp hfinite, hsign, fun y _ => ?_,
    fun y _ hne htie => ?_⟩
  · rw [abs_sub_value hsign]
    by_cases hsigny : isNegative y ↔ q < 0
    · rw [abs_sub_value hsigny]
      exact hcell.nearest (code y)
    · -- zero is between `q` and `y`
      rw [abs_sub_value_of_ne hsigny]
      have := hcell.nearest 0
      have := magnitude_nonneg (code y)
      rw [magnitude_zero, sub_zero, abs_abs] at *
      linarith
  · rw [toBits_mod_two]
    rw [abs_sub_value hsign] at htie
    by_cases hsigny : isNegative y ↔ q < 0
    · rw [abs_sub_value hsigny] at htie
      refine hcell.even_of_tie (n := code y) (fun heq => hne ?_) htie
      exact (value_eq_iff (Bool.eq_iff_iff.mpr (hsigny.trans hsign.symm))).mpr heq
    · rw [abs_sub_value_of_ne hsigny] at htie
      have hzero := hcell.nearest 0
      rw [magnitude_zero, sub_zero, abs_abs] at hzero
      have hy : magnitude (code y) = 0 := le_antisymm (by linarith) (magnitude_nonneg _)
      have hvalue : value y = 0 := by rw [value, hy, neg_zero, ite_self]
      refine hcell.even_of_tie (n := 0) (fun heq => hne ?_) ?_
      · rw [hvalue, value, ← heq, magnitude_zero, neg_zero, ite_self]
      · rw [magnitude_zero, sub_zero, abs_abs]
        linarith

theorem isNearest_iff {q : ℚ} {x : Float} :
    IsNearest q x ↔ InCell |q| (code x) ∧ code x < infinity ∧ (isNegative x ↔ q < 0) :=
  ⟨fun h => ⟨h.inCell, isFinite_iff.mp h.isFinite, h.sign⟩,
    fun h => isNearest_of_inCell h.1 h.2.1 h.2.2⟩

theorem IsNearest.unique {q : ℚ} {x y : Float} (hx : IsNearest q x) (hy : IsNearest q y) :
    x = y := by
  rw [isNearest_iff] at hx hy
  exact ext (Bool.eq_iff_iff.mpr (hx.2.2.trans hy.2.2.symm)) (hx.1.unique hy.1)

end Estree.Double
