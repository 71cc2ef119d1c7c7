import Estree.Literal
import Estree.Proofs.ShortestDigits

namespace Estree.Decimal

-- The parts of a numeral: digits before and after the point, and a power of ten.
structure Parts where
  whole : List Char
  fraction : List Char
  power : Option ℤ

namespace Parts

def powerText : Option ℤ → List Char
  | none => []
  | some power => 'e' :: (if power < 0 then '-' else '+') :: Nat.toDigits 10 power.natAbs

def fractionText (fraction : List Char) : List Char :=
  if fraction = [] then [] else '.' :: fraction

def text (parts : Parts) : List Char :=
  parts.whole ++ fractionText parts.fraction ++ powerText parts.power

-- The digits with their first one at a power of ten.
def ofDigits (digits : List Char) (power : ℤ) : Parts :=
  if -6 ≤ power ∧ power ≤ 20 then
    if power < 0 then
      ⟨['0'], List.replicate (-power - 1).toNat '0' ++ digits, none⟩
    else if digits.length ≤ (power + 1).toNat then
      ⟨digits ++ List.replicate ((power + 1).toNat - digits.length) '0', [], none⟩
    else
      ⟨digits.take (power + 1).toNat, digits.drop (power + 1).toNat, none⟩
  else
    ⟨digits.take 1, digits.drop 1, some power⟩

end Parts

theorem magnitude_sourceNumeral (b : Binary) :
    magnitude sourceNumeral b =
      (Parts.ofDigits (Nat.toDigits 10 (b.shortest .up).digits)
        ((b.shortest .up).point - 1)).text := by
  have hpower : (b.shortest .up).exponent + (Nat.toDigits 10 (b.shortest .up).digits).length - 1 =
      (b.shortest .up).point - 1 := by
    rw [point, length, add_comm]
  have hdigits : Nat.toDigits 10 (b.shortest .up).digits ≠ [] := Nat.toDigits_ne_nil
  have hmagnitude (digits : List Char) (power : ℤ) :
      (if sourceNumeral.positionalFrom ≤ power ∧ power ≤ sourceNumeral.positionalTo then
        positional sourceNumeral digits power else scientific digits power) =
      if -6 ≤ power ∧ power ≤ 20 then positional sourceNumeral digits power
      else scientific digits power := rfl
  refine (hmagnitude _ _).trans ?_
  rw [show sourceNumeral.tie = .up from rfl, hpower]
  generalize Nat.toDigits 10 (b.shortest .up).digits = digits at *
  generalize (b.shortest .up).point - 1 = power
  unfold Parts.ofDigits
  by_cases hrange : -6 ≤ power ∧ power ≤ 20
  · rw [if_pos hrange, if_pos hrange]
    unfold positional
    dsimp only
    split
    · simp [Parts.text, Parts.fractionText, Parts.powerText, hdigits]
    · split
      · simp [Parts.text, Parts.fractionText, Parts.powerText, sourceNumeral]
      · have hdrop : digits.drop (power + 1).toNat ≠ [] := by
          rw [Ne, List.drop_eq_nil_iff]
          omega
        simp [Parts.text, Parts.fractionText, Parts.powerText, hdrop]
  · rw [if_neg hrange, if_neg hrange]
    simp [scientific, Parts.text, Parts.fractionText, Parts.powerText]

-- The power of ten at the end of a numeral.
def readPower? : List Char → Option ℤ
  | [] => some 0
  | 'e' :: '+' :: digits =>
    if digits.all Char.isDigit ∧ digits ≠ [] then some (Nat.ofDigitChars 10 digits 0) else none
  | 'e' :: '-' :: digits =>
    if digits.all Char.isDigit ∧ digits ≠ [] then some (-Nat.ofDigitChars 10 digits 0) else none
  | _ => none

-- The digits after the point, if there is one.
def readFraction : List Char → List Char × List Char
  | '.' :: rest => (rest.takeWhile Char.isDigit, rest.dropWhile Char.isDigit)
  | rest => ([], rest)

-- The exact value of a numeral without a sign, no matter how many digits it has.
def readMagnitude? (cs : List Char) : Option ℚ :=
  let whole := cs.takeWhile Char.isDigit
  let (fraction, rest) := readFraction (cs.dropWhile Char.isDigit)
  if whole = [] then none
  else (readPower? rest).map fun power =>
    Nat.ofDigitChars 10 (whole ++ fraction) 0 * 10 ^ (power - fraction.length : ℤ)

def readExactly? : List Char → Option ℚ
  | '-' :: cs => (readMagnitude? cs).map (- ·)
  | cs => readMagnitude? cs

theorem readPower?_powerText (power : Option ℤ) :
    readPower? (Parts.powerText power) = some (power.getD 0) := by
  rcases power with _ | power
  · rfl
  · have hdigits : (Nat.toDigits 10 power.natAbs).all Char.isDigit = true :=
      List.all_eq_true.mpr fun _ => Nat.isDigit_of_mem_toDigits (by decide) (by decide)
    have hne : Nat.toDigits 10 power.natAbs ≠ [] := Nat.toDigits_ne_nil
    rw [Parts.powerText]
    split
    · rw [readPower?, if_pos ⟨hdigits, hne⟩, Nat.ofDigitChars_ten_toDigits, Option.getD_some]
      congr 1
      omega
    · rw [readPower?, if_pos ⟨hdigits, hne⟩, Nat.ofDigitChars_ten_toDigits, Option.getD_some]
      congr 1
      omega

namespace Parts

-- All digits are digits, and there is one before the point.
structure IsNumeral (parts : Parts) : Prop where
  whole_ne_nil : parts.whole ≠ []
  whole : ∀ c ∈ parts.whole, c.isDigit = true
  fraction : ∀ c ∈ parts.fraction, c.isDigit = true

-- The number that the parts make up.
def value (parts : Parts) : ℚ :=
  Nat.ofDigitChars 10 (parts.whole ++ parts.fraction) 0 *
    10 ^ (parts.power.getD 0 - parts.fraction.length)

theorem span_powerText (power : Option ℤ) :
    (powerText power).takeWhile Char.isDigit = [] ∧
      (powerText power).dropWhile Char.isDigit = powerText power := by
  cases power
  · exact ⟨rfl, rfl⟩
  · exact ⟨rfl, rfl⟩

theorem readFraction_fractionText {fraction : List Char} (h : ∀ c ∈ fraction, c.isDigit = true)
    (power : Option ℤ) :
    readFraction (fractionText fraction ++ powerText power) = (fraction, powerText power) := by
  obtain ⟨htake, hdrop⟩ := span_powerText power
  rw [fractionText]
  split
  · rename_i hnil
    rw [hnil]
    cases power <;> rfl
  · rw [List.cons_append, readFraction, List.takeWhile_append_of_pos h,
      List.dropWhile_append_of_pos h, htake, hdrop, List.append_nil]

theorem takeWhile_fractionText (fraction : List Char) (power : Option ℤ) :
    (fractionText fraction ++ powerText power).takeWhile Char.isDigit = [] ∧
      (fractionText fraction ++ powerText power).dropWhile Char.isDigit =
        fractionText fraction ++ powerText power := by
  rw [fractionText]
  split
  · exact span_powerText power
  · exact ⟨rfl, rfl⟩

theorem IsNumeral.readMagnitude?_text {parts : Parts} (h : parts.IsNumeral) :
    readMagnitude? parts.text = some parts.value := by
  obtain ⟨htake, hdrop⟩ := takeWhile_fractionText parts.fraction parts.power
  rw [readMagnitude?, text, List.append_assoc, List.takeWhile_append_of_pos h.whole,
    List.dropWhile_append_of_pos h.whole, htake, hdrop, readFraction_fractionText h.fraction,
    List.append_nil]
  dsimp only
  rw [if_neg h.whole_ne_nil, readPower?_powerText]
  rfl

theorem isNumeral_ofDigits {digits : List Char} (hne : digits ≠ [])
    (hdigits : ∀ c ∈ digits, c.isDigit = true) (power : ℤ) : (ofDigits digits power).IsNumeral := by
  have hzeros (n : ℕ) : ∀ c ∈ List.replicate n '0', c.isDigit = true := by
    intro c hc
    rw [List.eq_of_mem_replicate hc]
    rfl
  have htake (n : ℕ) : ∀ c ∈ digits.take n, c.isDigit = true := fun c hc =>
    hdigits c (List.mem_of_mem_take hc)
  have hdrop (n : ℕ) : ∀ c ∈ digits.drop n, c.isDigit = true := fun c hc =>
    hdigits c (List.mem_of_mem_drop hc)
  unfold ofDigits
  split
  · split
    · refine ⟨by simp, by simp, fun c hc => ?_⟩
      rcases List.mem_append.mp hc with hc | hc
      · exact hzeros _ c hc
      · exact hdigits c hc
    · split
      · refine ⟨by simp [hne], fun c hc => ?_, by simp⟩
        rcases List.mem_append.mp hc with hc | hc
        · exact hdigits c hc
        · exact hzeros _ c hc
      · refine ⟨?_, htake _, hdrop _⟩
        simp only [Ne, List.take_eq_nil_iff, hne, or_false]
        omega
  · refine ⟨?_, htake _, hdrop _⟩
    simp [hne]

theorem ofDigitChars_leading_zeros (n : ℕ) (digits : List Char) :
    Nat.ofDigitChars 10 (['0'] ++ (List.replicate n '0' ++ digits)) 0 =
      Nat.ofDigitChars 10 digits 0 := by
  rw [Nat.ofDigitChars_append, Nat.ofDigitChars_append, Nat.ofDigitChars_replicate_zero]
  rfl

-- The digits make up the same number in all the layouts.
theorem value_ofDigits {digits : List Char} (hne : digits ≠ []) (power : ℤ) :
    (ofDigits digits power).value =
      Nat.ofDigitChars 10 digits 0 * 10 ^ (power + 1 - digits.length) := by
  unfold ofDigits value
  split
  · split
    · dsimp only
      rw [ofDigitChars_leading_zeros, List.length_append, List.length_replicate, Option.getD_none]
      congr 2
      omega
    · split
      · dsimp only
        rw [List.append_nil, Nat.ofDigitChars_append, Nat.ofDigitChars_replicate_zero,
          show power + 1 - digits.length = ((power + 1).toNat - digits.length : ℕ) by omega,
          zpow_natCast, Option.getD_none, List.length_nil]
        push_cast
        simp [mul_comm]
      · dsimp only
        rw [List.take_append_drop, List.length_drop, Option.getD_none]
        congr 2
        omega
  · dsimp only
    have hlength := List.length_pos_of_ne_nil hne
    rw [List.take_append_drop, List.length_drop, Option.getD_some]
    congr 2
    omega

theorem IsNumeral.exists_head {parts : Parts} (h : parts.IsNumeral) :
    ∃ c cs, parts.text = c :: cs ∧ c.isDigit = true := by
  obtain ⟨c, cs, hwhole⟩ := List.exists_cons_of_ne_nil h.1
  refine ⟨c, cs ++ fractionText parts.fraction ++ powerText parts.power, ?_, ?_⟩
  · rw [text, hwhole, List.cons_append, List.cons_append]
  · exact h.whole c (by simp [hwhole])

end Parts

theorem readMagnitude?_magnitude (b : Binary) :
    readMagnitude? (magnitude sourceNumeral b) = some (b.shortest .up).toRat := by
  have hne : Nat.toDigits 10 (b.shortest .up).digits ≠ [] := Nat.toDigits_ne_nil
  have hdigits (c : Char) (hc : c ∈ Nat.toDigits 10 (b.shortest .up).digits) : c.isDigit = true :=
    Nat.isDigit_of_mem_toDigits (by decide) (by decide) hc
  rw [magnitude_sourceNumeral, (Parts.isNumeral_ofDigits hne hdigits _).readMagnitude?_text,
    Parts.value_ofDigits hne, Nat.ofDigitChars_ten_toDigits, toRat]
  congr 3
  rw [point, length]
  ring

-- How digits are written with the point after the first `n` of them, or before or behind all of
-- them, or with a power of ten.
inductive Layout (digits : List Char) (n : ℤ) : List Char → Prop
  | integer (hdigits : digits.length ≤ n) (hn : n ≤ 21) :
    Layout digits n (digits ++ List.replicate (n - digits.length).toNat '0')
  | mixed (hpos : 0 < n) (hdigits : n < digits.length) (hn : n ≤ 21) :
    Layout digits n (digits.take n.toNat ++ '.' :: digits.drop n.toNat)
  | fraction (hn : -6 < n) (hpos : n ≤ 0) :
    Layout digits n ('0' :: '.' :: List.replicate (-n).toNat '0' ++ digits)
  | single (hn : n ≤ -6 ∨ 21 < n) (hdigits : digits.length = 1) :
    Layout digits n (digits ++
      'e' :: (if n - 1 < 0 then '-' else '+') :: Nat.toDigits 10 (n - 1).natAbs)
  | scientific (hn : n ≤ -6 ∨ 21 < n) (hdigits : 1 < digits.length) :
    Layout digits n (digits.take 1 ++ '.' :: digits.drop 1 ++
      'e' :: (if n - 1 < 0 then '-' else '+') :: Nat.toDigits 10 (n - 1).natAbs)

theorem layout_ofDigits {digits : List Char} (hne : digits ≠ []) (n : ℤ) :
    Layout digits n (Parts.ofDigits digits (n - 1)).text := by
  have hlength := List.length_pos_of_ne_nil hne
  unfold Parts.ofDigits
  rw [sub_add_cancel]
  split
  · split
    · have hlayout := @Layout.fraction digits n (by omega) (by omega)
      rw [show -n = -(n - 1) - 1 by ring] at hlayout
      simpa [Parts.text, Parts.fractionText, Parts.powerText, hne] using hlayout
    · split
      · have hlayout := @Layout.integer digits n (by omega) (by omega)
        rw [show (n - digits.length).toNat = n.toNat - digits.length by omega] at hlayout
        simpa [Parts.text, Parts.fractionText, Parts.powerText] using hlayout
      · have hlayout := @Layout.mixed digits n (by omega) (by omega) (by omega)
        have hdrop : digits.drop n.toNat ≠ [] := by
          rw [Ne, List.drop_eq_nil_iff]
          omega
        simpa [Parts.text, Parts.fractionText, Parts.powerText, hdrop] using hlayout
  · by_cases hone : digits.length = 1
    · have hlayout := @Layout.single digits n (by omega) hone
      obtain ⟨digit, rfl⟩ := List.length_eq_one_iff.mp hone
      simpa [Parts.text, Parts.fractionText, Parts.powerText] using hlayout
    · have hlayout := @Layout.scientific digits n (by omega) (by omega)
      have hdrop : digits.drop 1 ≠ [] := by
        rw [Ne, List.drop_eq_nil_iff]
        omega
      rw [Parts.text, Parts.fractionText, if_neg hdrop]
      exact hlayout

-- An exponent is written for the numbers that are far from one.
theorem Layout.mem_e_iff {digits text : List Char} {n : ℤ} (h : Layout digits n text)
    (hdigits : ∀ c ∈ digits, c.isDigit = true) : 'e' ∈ text ↔ ¬ (-6 < n ∧ n ≤ 21) := by
  have hnot (cs : List Char) (hcs : ∀ c ∈ cs, c ∈ digits) : 'e' ∉ cs := fun he =>
    absurd (hdigits _ (hcs _ he)) (by decide)
  have hall := hnot digits fun _ => id
  have hdrop (k : ℕ) := hnot (digits.drop k) fun _ => List.mem_of_mem_drop
  have htake (k : ℕ) := hnot (digits.take k) fun _ => List.mem_of_mem_take
  cases h with
  | integer hlength hn =>
    have : -6 < n ∧ n ≤ 21 := by omega
    simp [hall, this]
  | mixed hpos hlength hn =>
    have : -6 < n ∧ n ≤ 21 := by omega
    simp [hdrop, htake, this]
  | fraction hn hpos =>
    have : -6 < n ∧ n ≤ 21 := by omega
    simp [hall, this]
  | single hn hlength =>
    have : ¬ (-6 < n ∧ n ≤ 21) := by omega
    simp [this]
  | scientific hn hlength =>
    have : ¬ (-6 < n ∧ n ≤ 21) := by omega
    simp [this]

open Double (IsNearest code value isNegative)

-- The text of a finite double as a number of the language: it reads back to the double, only that
-- zero has no sign, and it has the shortest digits, in the layout that goes by the power of ten
-- above the first one.
structure IsNumeralOf (x : Float) (text : List Char) : Prop where
  reads : ∃ q, readExactly? text = some q ∧ IsNearest q (if value x = 0 then 0 else x)
  zero : value x = 0 → text = ['0']
  shortest : value x ≠ 0 → ∃ d body, (∀ e, IsShortest x e ↔ e = d) ∧ d.digits % 10 ≠ 0 ∧
    Layout (Nat.toDigits 10 d.digits) d.point body ∧
    text = (if value x < 0 then ['-'] else []) ++ body
  positional : 'e' ∉ text ↔ value x = 0 ∨ ∃ d, IsShortest x d ∧ -6 < d.point ∧ d.point ≤ 21
  -- the same border for doubles and for digits
  border : ∀ d, value x ≠ 0 → IsShortest x d →
    (-6 < d.point ↔ value 1e-6 ≤ |value x|) ∧ (d.point ≤ 21 ↔ |value x| < value 1e21)

theorem numeral_of_value_eq_zero {x : Float} (hzero : value x = 0) :
    numeral sourceNumeral x = "0" := by
  have hcode : x.toBits.toNat % Nat.pow 2 63 = 0 := by
    by_contra hne
    have habs := Double.abs_value x
    rw [hzero, abs_zero] at habs
    exact (Double.magnitude_pos (Nat.pos_of_ne_zero hne)).ne habs
  rw [numeral, if_pos hcode]
  split <;> rfl

theorem numeral_of_value_ne_zero {x : Float} (hfinite : x.isFinite) (hzero : value x ≠ 0) :
    (numeral sourceNumeral x).toList = (if value x < 0 then ['-'] else []) ++
      magnitude sourceNumeral (Binary.ofBits x.toBits) := by
  have hpos : ¬ x.toBits.toNat % Nat.pow 2 63 = 0 := (Double.code_pos hzero).ne'
  have hcode := Double.isFinite_iff.mp hfinite
  have hnan : ¬ x.isNaN = true := by rw [Double.isNaN_iff]; omega
  have hinf : ¬ x.isInf = true := by rw [Double.isInf_iff]; omega
  have hsign : Nat.pow 2 63 ≤ x.toBits.toNat ↔ value x < 0 := by
    rw [Double.value_neg_iff hzero, isNegative, decide_eq_true_iff]
    rfl
  rw [numeral, if_neg hpos, if_neg hnan, if_neg hinf, String.toList_ofList]
  simp only [hsign]

-- What the search finds has no zero at its end.
theorem digits_shortest_mod_ten {b : Binary} {n : ℕ} (h : b.Holds n) :
    (b.shortest .up).digits % 10 ≠ 0 := by
  intro hmod
  have hcell := h.inCell_shortest
  refine h.not_inCell_of_shortest_lt (k := (b.shortest .up).exponent + 1)
    (c := (b.shortest .up).digits / 10) (by omega) ?_
  have hdigits : ((b.shortest .up).digits : ℚ) = ((b.shortest .up).digits / 10 : ℕ) * 10 := by
    exact_mod_cast (by omega : (b.shortest .up).digits = (b.shortest .up).digits / 10 * 10)
  rw [toRat, hdigits] at hcell
  rwa [zpow_add_one₀ (by norm_num), mul_comm ((10 : ℚ) ^ _), ← mul_assoc]

-- The double next to a millionth, and the one that is `10 ^ 21`.
theorem millionth :
    isNegative 1e-6 = false ∧ 10 ≤ code 1e-6 ∧ Double.InCell (10 ^ (-6 : ℤ)) (code 1e-6) := by
  have hcode : code 1e-6 = 1002 * 2 ^ 52 + 4722366482869645 := by decide +kernel
  have hunits : (10 : ℚ) ^ (-6 : ℤ) = 2 ^ 72 / 10 ^ 6 * 2 ^ ((1002 : ℕ) - 1074 : ℤ) := by norm_num
  refine ⟨by decide +kernel, by omega, ?_⟩
  rw [hcode, hunits]
  apply Double.inCell_of_rounded
  all_goals norm_num

theorem sextillion :
    isNegative 1e21 = false ∧ 10 ≤ code 1e21 ∧ Double.InCell (10 ^ (21 : ℤ)) (code 1e21) := by
  have hcode : code 1e21 = 1091 * 2 ^ 52 + 7629394531250000 := by decide +kernel
  have hunits : (10 : ℚ) ^ (21 : ℤ) = 10 ^ 21 / 2 ^ 17 * 2 ^ ((1091 : ℕ) - 1074 : ℤ) := by norm_num
  refine ⟨by decide +kernel, by omega, ?_⟩
  rw [hcode, hunits]
  apply Double.inCell_of_rounded
  all_goals norm_num

theorem readExactly?_of_readMagnitude? {cs : List Char} {q : ℚ} (h : readMagnitude? cs = some q) :
    readExactly? cs = some q := by
  unfold readExactly?
  split
  · simp [readMagnitude?] at h
  · exact h

theorem isNearest_zero : IsNearest 0 0 := by
  have hcode : code 0 = 0 := by decide +kernel
  have hsign : isNegative 0 = false := by decide +kernel
  rw [Double.isNearest_iff, hcode, hsign, abs_zero]
  refine ⟨?_, by decide, by simp⟩
  simpa using Double.InCell.self 0

section

variable {x : Float} (hfinite : x.isFinite) (hzero : value x ≠ 0)

include hfinite hzero

theorem exists_reading :
    ∃ q, readExactly? (numeral sourceNumeral x).toList = some q ∧ IsNearest q x := by
  have hread := readMagnitude?_magnitude (Binary.ofBits x.toBits)
  have hrounds := (isShortest_shortest hfinite hzero).rounds
  refine ⟨_, ?_, hrounds⟩
  rw [numeral_of_value_ne_zero hfinite hzero, signed]
  simp only [← Double.value_neg_iff hzero]
  split
  · rw [List.singleton_append, readExactly?, hread, Option.map_some]
  · exact readExactly?_of_readMagnitude? hread

theorem exists_layout : ∃ d body, (∀ e, IsShortest x e ↔ e = d) ∧ d.digits % 10 ≠ 0 ∧
    Layout (Nat.toDigits 10 d.digits) d.point body ∧
    (numeral sourceNumeral x).toList = (if value x < 0 then ['-'] else []) ++ body := by
  refine ⟨_, _, fun e => isShortest_iff hfinite hzero,
    digits_shortest_mod_ten (holds_ofBits hfinite hzero), layout_ofDigits Nat.toDigits_ne_nil _, ?_⟩
  rw [numeral_of_value_ne_zero hfinite hzero, magnitude_sourceNumeral]

theorem border_of_isShortest {d : Decimal} (hd : IsShortest x d) :
    (-6 < d.point ↔ value 1e-6 ≤ |value x|) ∧ (d.point ≤ 21 ↔ |value x| < value 1e21) := by
  have h := holds_ofBits hfinite hzero
  obtain ⟨hsign, hten, hcell⟩ := millionth
  obtain ⟨hsign', hten', hcell'⟩ := sextillion
  rw [(isShortest_iff hfinite hzero).mp hd]
  constructor
  · rw [h.lt_point_iff hcell hten, Double.le_abs_value_iff hsign]
  · rw [← not_lt, h.lt_point_iff hcell' hten', ← Double.le_abs_value_iff hsign', not_le]

end

-- The text reads back to the double. Zero has no sign there.
theorem exists_reading_of_isFinite {x : Float} (hfinite : x.isFinite) :
    ∃ q, readExactly? (numeral sourceNumeral x).toList = some q ∧
      IsNearest q (if value x = 0 then 0 else x) := by
  by_cases hzero : value x = 0
  · have hnumeral : Parts.IsNumeral ⟨['0'], [], none⟩ := ⟨by simp, by simp, by simp⟩
    have hread := hnumeral.readMagnitude?_text
    have hvalue : readMagnitude? ['0'] = some 0 := by
      simpa [Parts.text, Parts.fractionText, Parts.powerText, Parts.value, Nat.ofDigitChars]
        using hread
    rw [if_pos hzero, numeral_of_value_eq_zero hzero]
    exact ⟨0, readExactly?_of_readMagnitude? hvalue, isNearest_zero⟩
  · rw [if_neg hzero]
    exact exists_reading hfinite hzero

-- Finite doubles with the same text are the same, except for the sign of zero.
theorem numeral_eq_iff {x y : Float} (hx : x.isFinite) (hy : y.isFinite) (hzero : value x ≠ 0) :
    numeral sourceNumeral y = numeral sourceNumeral x ↔ value y = value x := by
  refine ⟨fun h => ?_, fun h => by rw [Double.eq_of_value_eq hzero h]⟩
  obtain ⟨q, hread, hq⟩ := exists_reading hx hzero
  obtain ⟨r, hother, hr⟩ := exists_reading_of_isFinite hy
  rw [h, hread] at hother
  obtain rfl := Option.some.inj hother
  have heq := hr.unique hq
  by_cases hyzero : value y = 0
  · rw [if_pos hyzero] at heq
    exact absurd (heq ▸ Double.value_zero) hzero
  · rw [if_neg hyzero] at heq
    rw [heq]

-- Numbers are printed as the language writes them.
theorem isNumeralOf_numeral (x : Float) (hfinite : x.isFinite) :
    IsNumeralOf x (numeral sourceNumeral x).toList := by
  have hreads := exists_reading_of_isFinite hfinite
  by_cases hzero : value x = 0
  · have htext : (numeral sourceNumeral x).toList = ['0'] := by
      rw [numeral_of_value_eq_zero hzero]
      rfl
    rw [htext]
    refine ⟨htext ▸ hreads, fun _ => rfl, fun hne => absurd hzero hne, by simp [hzero],
      fun _ hne => absurd hzero hne⟩
  · obtain ⟨d, body, hunique, hdigits, hlayout, htext⟩ := exists_layout hfinite hzero
    refine ⟨hreads, fun h => absurd h hzero,
      fun _ => ⟨d, body, hunique, hdigits, hlayout, htext⟩, ?_,
      fun e _ he => border_of_isShortest hfinite hzero he⟩
    have he := hlayout.mem_e_iff fun _ => Nat.isDigit_of_mem_toDigits (by decide) (by decide)
    have hsign : 'e' ∉ if value x < 0 then ['-'] else [] := by split <;> simp
    rw [htext, List.mem_append, or_iff_right hsign, he, not_not, or_iff_right hzero]
    refine ⟨fun hpoint => ⟨d, (hunique d).mpr rfl, hpoint⟩, ?_⟩
    rintro ⟨e, hshortest, hpoint⟩
    rwa [← (hunique e).mp hshortest]

theorem isNumeralOf_numeral_least :
    (Float.ofBits 1).isFinite = true ∧
      IsNumeralOf (Float.ofBits 1) (numeral sourceNumeral (Float.ofBits 1)).toList :=
  ⟨by decide +kernel, isNumeralOf_numeral _ (by decide +kernel)⟩

end Estree.Decimal
