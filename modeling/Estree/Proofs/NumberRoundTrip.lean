import Estree.Proofs.NumberReading
import Estree.Proofs.StringLiterals
import Estree.Proofs.TextReading

namespace Estree

-- A literal as a JSON text, with the text of its value.
def literalText (value : String) : String :=
  "\x7b\"type\":\"Literal\",\"value\":" ++ value ++ "\x7d"

namespace Json

open Lexer (scan)

theorem scan_name {name : String} (h : ∀ c ∈ name.toList, c ≠ '"' ∧ c ≠ '\\' ∧ 0x20 ≤ c.toNat)
    (rest : List Char) :
    scan [] ('"' :: (name.toList ++ ['"']) ++ rest) = .string name :: scan [] rest :=
  Lexer.scan_of_writesToken (.string (.raw h)) (by simp [Token.isNumber])

theorem scan_literalText (value : String) :
    scan [] (literalText value).toList =
      [.openObject, .string "type", .colon, .string "Literal", .comma, .string "value", .colon] ++
        scan [] (value.toList ++ ['\x7d']) := by
  have htext : (literalText value).toList = ['\x7b'] ++ ('"' :: ("type".toList ++ ['"']) ++
      ([':'] ++ ('"' :: ("Literal".toList ++ ['"']) ++ ([','] ++
        ('"' :: ("value".toList ++ ['"']) ++ ([':'] ++ (value.toList ++ ['\x7d']))))))) := by
    unfold literalText
    simp only [String.toList_append, List.append_assoc]
    rfl
  have hmark (token : Token) (c : Char) (h : (token, [c]) ∈ fixedTokens)
      (hnumber : token.isNumber = false) (rest : List Char) :
      scan [] ([c] ++ rest) = token :: scan [] rest :=
    Lexer.scan_of_writesToken (.fixed h) (by simp [hnumber])
  rw [htext, hmark .openObject _ (by simp [fixedTokens]) rfl, scan_name (by simp),
    hmark .colon _ (by simp [fixedTokens]) rfl, scan_name (by simp),
    hmark .comma _ (by simp [fixedTokens]) rfl, scan_name (by simp),
    hmark .colon _ (by simp [fixedTokens]) rfl]
  rfl

theorem parse_literalText {text : String} {numeral : Numeral} {c : Char} {cs : List Char}
    (htext : text.toList = c :: cs) (hc : c = '-' ∨ c.isDigit = true)
    (hread : Numeral.read (text.toList ++ ['\x7d']) = .ok (numeral, ['\x7d'])) :
    parse (literalText text) = numeral.value.map fun value =>
      .object [("type", .string "Literal"), ("value", .number value)] := by
  rw [htext, List.cons_append] at hread
  have hscan : scan [] (text.toList ++ ['\x7d']) =
      (Lexer.lexeme c (cs ++ ['\x7d'])).1 :: scan [] (Lexer.lexeme c (cs ++ ['\x7d'])).2 := by
    rw [htext, List.cons_append, Lexer.scan_nil_cons_of_not_isBlank (Lexer.isBlank_eq_false hc)]
  rw [parse, Token.ofText, scan_literalText, hscan]
  cases hvalue : numeral.value with
  | error fault =>
    rw [Lexer.lexeme_of_read_error hc hread hvalue]
    rfl
  | ok value =>
    have hnil : scan [] [] = [] := Lexer.scan_nil_eq_nil_iff.mpr (by simp)
    have hend : scan [] ['\x7d'] = [.closeObject] := by
      rw [Lexer.scan_nil_cons_of_not_isBlank (by decide)]
      exact congrArg (Token.closeObject :: ·) hnil
    rw [Lexer.lexeme_of_read hc hread hvalue, hend]
    rfl

end Json

open Json (Number Numeral)

theorem print_number (x : Float) (options : PrintOptions) :
    Node.print ⟨.literal (.number x) none⟩ options = .ok (Decimal.numeral sourceNumeral x) := by
  rw [Node.print]
  apply Printer.print_of_template_text
  rw [Printer.template]
  rfl

-- Whether a JSON text describes a tree that is printed as a text.
def PrintsAs (options : PrintOptions) (json text : String) : Prop :=
  ∃ tree, Node.ofText json = .ok tree ∧ tree.print options = .ok text

section

variable {text : String} {numeral : Numeral} {c : Char} {cs : List Char}
  (htext : text.toList = c :: cs) (hc : c = '-' ∨ c.isDigit = true)
  (hread : Numeral.read (text.toList ++ ['\x7d']) = .ok (numeral, ['\x7d']))

include htext hc hread

theorem ofText_literalText :
    Node.ofText (literalText text) = (numeral.value.mapError .fault).map fun value =>
      ⟨.literal (.number value.toFloat) none⟩ := by
  rw [Node.ofText, Json.parse_literalText htext hc hread]
  cases numeral.value with
  | error fault => rfl
  | ok value =>
    have hnode : Node.ofJson (.object [("type", .string "Literal"), ("value", .number value)]) =
        .ok ⟨.literal (.number value.toFloat) none⟩ := by
      rw [Node.ofJson]
      rfl
    change ((Node.ofJson _).mapError _ : Except _ _) = _
    rw [hnode]
    rfl

theorem printsAs_literalText_iff {options : PrintOptions} {printed : String} :
    PrintsAs options (literalText text) printed ↔
      ∃ x, numeral.value.map Number.toFloat = .ok x ∧
        printed = Decimal.numeral sourceNumeral x := by
  rw [PrintsAs, ofText_literalText htext hc hread]
  cases numeral.value with
  | error fault => simp [Except.map, Except.mapError]
  | ok value =>
    constructor
    · rintro ⟨tree, ⟨⟩, hprint⟩
      rw [print_number] at hprint
      exact ⟨_, rfl, (Except.ok.inj hprint).symm⟩
    · rintro ⟨x, ⟨⟩, rfl⟩
      exact ⟨_, rfl, print_number _ options⟩

theorem printsAs_literalText_iff_of_ok {x : Float}
    (hvalue : numeral.value.map Number.toFloat = .ok x) {options : PrintOptions}
    {printed : String} :
    PrintsAs options (literalText text) printed ↔ printed = Decimal.numeral sourceNumeral x := by
  rw [printsAs_literalText_iff htext hc hread, hvalue]
  simp

end

theorem printsAs_zero_iff {options : PrintOptions} {printed : String} :
    PrintsAs options (literalText "0") printed ↔ printed = "0" := by
  have hread : Numeral.read ("0".toList ++ ['\x7d']) =
      .ok (⟨false, 0, 0, true⟩, ['\x7d']) := rfl
  have hzero : Decimal.numeral sourceNumeral (Number.int 0).toFloat = "0" := by decide +kernel
  rw [← hzero]
  exact printsAs_literalText_iff_of_ok rfl (.inr rfl) hread rfl

namespace Decimal

open Double (IsNearest Scales code value)
open Json.Numeral (Takes)

section

variable {x : Float} (hfinite : x.isFinite) (hzero : value x ≠ 0)

include hfinite hzero

-- The number that a literal is printed with: the significand is rounded, and then it is scaled.
theorem exists_takes : ∃ d significand exponent, IsShortest x d ∧ Takes d significand exponent ∧
    significand < 2 ^ 64 ∧ ∀ options printed,
      PrintsAs options (literalText (numeral sourceNumeral x)) printed ↔
        ∃ y, Scales (Float.ofNat significand) exponent y ∧
          printed = numeral sourceNumeral (if value x < 0 then -y else y) := by
  have hholds := holds_ofBits hfinite hzero
  have htext := numeral_of_value_ne_zero hfinite hzero
  have hd := isShortest_shortest hfinite hzero
  have hfit := hholds.digits_shortest_lt
  have hpos := hholds.digits_pos_of_inCell hholds.inCell_shortest
  rw [magnitude_sourceNumeral] at htext
  generalize (Binary.ofBits x.toBits).shortest .up = d at *
  have hend : Json.Numeral.EndsBefore ['\x7d'] := by
    rintro _ ⟨⟩
    decide
  obtain ⟨significand, exponent, isInteger, htakes, hinteger, hread⟩ :=
    Json.Numeral.read_decimal hpos (hfit.trans (by decide)) hend (decide (value x < 0))
  simp only [decide_eq_true_iff] at hread
  rw [← List.append_assoc, ← htext] at hread
  obtain ⟨c, cs, hhead, hc⟩ : ∃ c cs, (numeral sourceNumeral x).toList = c :: cs ∧
      (c = '-' ∨ c.isDigit = true) := by
    obtain ⟨c, cs, hparts, hc⟩ := (Parts.isNumeral_ofDigits Nat.toDigits_ne_nil
      (Json.Numeral.isDigit_toDigits d.digits) (d.point - 1)).exists_head
    rw [htext, hparts]
    split
    · exact ⟨'-', _, rfl, .inl rfl⟩
    · exact ⟨c, cs, rfl, .inr hc⟩
  have hsmall := htakes.lt (hfit.trans (by decide))
  refine ⟨d, significand, exponent, hd, htakes, hsmall, fun options printed => ?_⟩
  rw [printsAs_literalText_iff hhead hc hread, Json.Numeral.map_value hsmall hinteger]
  simp only [← Double.scale_eq_ok_iff (Double.isMagnitude_ofNat hsmall)]
  cases Json.Numeral.scale (Float.ofNat significand) exponent <;> simp [Except.map]

end

-- Which double is read from the text of a double. Its digits make up a significand and a power of
-- ten; the significand is rounded, and then it is scaled.
inductive Rereads (x : Float) : Float → Prop
  | zero (hzero : value x = 0) : Rereads x 0
  | scaled {d : Decimal} {significand : ℕ} {exponent : ℤ} {a y : Float} (hzero : value x ≠ 0)
      (hd : IsShortest x d) (htakes : Takes d significand exponent)
      (ha : IsNearest significand a) (hy : Scales a exponent y) :
      Rereads x (if value x < 0 then -y else y)

theorem Rereads.isFinite {x y : Float} (h : Rereads x y) : y.isFinite := by
  cases h with
  | zero => decide +kernel
  | scaled hzero hd htakes ha hy =>
    exact Double.isFinite_ite_neg (hy.isMagnitude (ha.isMagnitude (Nat.cast_nonneg _))) _

theorem printsAs_numeral_iff {x : Float} (hfinite : x.isFinite) {options : PrintOptions}
    {printed : String} :
    PrintsAs options (literalText (numeral sourceNumeral x)) printed ↔
      ∃ y, Rereads x y ∧ printed = numeral sourceNumeral y := by
  by_cases hzero : value x = 0
  · rw [numeral_of_value_eq_zero hzero, printsAs_zero_iff]
    constructor
    · rintro rfl
      exact ⟨0, .zero hzero, (numeral_of_value_eq_zero Double.value_zero).symm⟩
    · rintro ⟨y, ⟨-⟩ | hne, rfl⟩
      · exact numeral_of_value_eq_zero Double.value_zero
      · exact absurd hzero hne
  obtain ⟨d, significand, exponent, hd, htakes, hsmall, hprints⟩ := exists_takes hfinite hzero
  rw [hprints]
  constructor
  · rintro ⟨y, hy, rfl⟩
    exact ⟨_, .scaled hzero hd htakes ((Double.isNearest_natCast_iff hsmall).mpr rfl) hy, rfl⟩
  · rintro ⟨_, h, rfl⟩
    cases h with
    | zero h => exact absurd h hzero
    | scaled _ hd' htakes' ha hy =>
      rw [(isShortest_iff hfinite hzero).mp hd', ← (isShortest_iff hfinite hzero).mp hd] at htakes'
      obtain ⟨rfl, rfl⟩ := htakes'.unique htakes
      rw [Double.isNearest_natCast_iff hsmall] at ha
      subst ha
      exact ⟨_, hy, rfl⟩

-- Whether a number that is written into a JSON text is printed as it was written.
def ComesBack (options : PrintOptions) (x : Float) : Prop :=
  PrintsAs options (literalText (numeral sourceNumeral x)) (numeral sourceNumeral x)

theorem comesBack_iff_rereads {x : Float} (hfinite : x.isFinite) {options : PrintOptions} :
    ComesBack options x ↔ ∃ y, Rereads x y ∧ value y = value x := by
  rw [ComesBack, printsAs_numeral_iff hfinite]
  refine exists_congr fun y => and_congr_right fun h => ?_
  by_cases hzero : value x = 0
  · cases h with
    | zero =>
      rw [numeral_of_value_eq_zero hzero, numeral_of_value_eq_zero Double.value_zero, hzero,
        Double.value_zero]
      simp
    | scaled hne => exact absurd hzero hne
  · rw [eq_comm, numeral_eq_iff hfinite h.isFinite hzero]

-- Integers below `2 ^ 64` come back: the significand takes all digits.
theorem rereads_of_abs_value {x : Float} (hfinite : x.isFinite) {n : ℕ} (hn : |value x| = n)
    (hlt : n < 2 ^ 64) : ∃ y, Rereads x y ∧ value y = value x := by
  by_cases hzero : value x = 0
  · exact ⟨0, .zero hzero, Double.value_zero.trans hzero.symm⟩
  have hd := isShortest_shortest hfinite hzero
  generalize (Binary.ofBits x.toBits).shortest .up = d at *
  have hcell := hd.inCell hfinite hzero
  have hexponent := exponent_nonneg_of_abs_value hfinite hzero hd hn
  have htoRat := toRat_of_nonneg hexponent
  have hbelow : d.toRat < 2 ^ 64 := by
    refine hd.toRat_lt hfinite hzero ?_
    rw [hn]
    exact_mod_cast hlt
  have hfit : d.digits * 10 ^ d.exponent.natAbs < 2 ^ 64 := by
    rw [htoRat] at hbelow
    exact_mod_cast hbelow
  have hpoint : d.point ≤ 21 := by
    have hpos := (holds_ofBits hfinite hzero).digits_pos_of_inCell hcell
    exact point_le_of_toRat_lt hpos (hbelow.trans (by norm_num))
  obtain ⟨y, hy, hcode, hvalue⟩ := Double.exists_isMagnitude hfinite
  have hnearest := hcell.isNearest hy hcode
  rw [htoRat] at hnearest
  have hscale : Scales y (0 : ℕ) y :=
    (Double.scale_eq_ok_iff hy).mp (Double.scale_zero hy)
  have htakes : Takes d (d.digits * 10 ^ d.exponent.natAbs) (0 : ℕ) :=
    .zeros (by omega) hpoint hfit (.inl rfl)
  exact ⟨_, .scaled hzero hd htakes hnearest hscale, Double.value_ite_neg hy hvalue⟩

-- So do the numbers with few digits near one: the significand and the power of ten are doubles, and
-- only the result of scaling is rounded.
theorem rereads_of_isShortest {x : Float} (hfinite : x.isFinite) {d : Decimal}
    (hd : IsShortest x d) (hlayout : d.exponent < 0 ∨ 21 < d.point) (hdigits : d.digits < 2 ^ 53)
    (hexponent : d.exponent.natAbs ≤ 22) : ∃ y, Rereads x y ∧ value y = value x := by
  by_cases hzero : value x = 0
  · exact ⟨0, .zero hzero, Double.value_zero.trans hzero.symm⟩
  have hcell := hd.inCell hfinite hzero
  have hsmall : d.digits < 2 ^ 64 := hdigits.trans (by decide)
  have hsignificand : value (Float.ofNat d.digits) = d.digits :=
    (Double.rounds_ofNat d.digits).value_eq (Double.exists_magnitude_eq_natCast hdigits)
      (Double.lt_overflow_of_lt hsmall)
  obtain ⟨-, hpower⟩ := Double.powerOfTen_exact hexponent
  obtain ⟨y, hy, hcode, hvalue⟩ := Double.exists_isMagnitude hfinite
  have hnearest := hcell.isNearest hy hcode
  refine ⟨_, .scaled hzero hd (.digits hlayout) ((Double.isNearest_natCast_iff hsmall).mpr rfl) ?_,
    Double.value_ite_neg hy hvalue⟩
  by_cases hpos : 0 ≤ d.exponent
  · rw [toRat_of_nonneg hpos, Nat.cast_mul] at hnearest
    rwa [Double.scales_up_iff (by omega) hpos, hsignificand, hpower]
  · rw [toRat_of_neg (not_le.mp hpos)] at hnearest
    rwa [Double.scales_down_iff (by omega) hpos, hsignificand, hpower]

-- What becomes of a number that is written into a JSON text, read and printed. It comes back if the
-- double that is read is the same. Integers below `2 ^ 64` come back, and so do the other numbers
-- with digits below `2 ^ 53` and a power of ten up to 22.
theorem comesBack_iff (x : Float) (hfinite : x.isFinite) (options : PrintOptions) :
    (∀ printed, PrintsAs options (literalText (numeral sourceNumeral x)) printed ↔
      ∃ y, Rereads x y ∧ printed = numeral sourceNumeral y) ∧
    (ComesBack options x ↔ ∃ y, Rereads x y ∧ value y = value x) ∧
    (∀ n : ℕ, |value x| = n → n < 2 ^ 64 → ComesBack options x) ∧
    ∀ d, IsShortest x d → d.exponent < 0 ∨ 21 < d.point → d.digits < 2 ^ 53 →
      d.exponent.natAbs ≤ 22 → ComesBack options x := by
  have hiff : ComesBack options x ↔ _ := comesBack_iff_rereads hfinite
  refine ⟨fun printed => printsAs_numeral_iff hfinite, hiff, fun n hn hlt => ?_,
    fun d hd hlayout hdigits hexponent => ?_⟩
  · exact hiff.mpr (rereads_of_abs_value hfinite hn hlt)
  · exact hiff.mpr (rereads_of_isShortest hfinite hd hlayout hdigits hexponent)

theorem comesBack_iff_tenth :
    (0.1 : Float).isFinite = true ∧ IsShortest 0.1 ⟨1, -1⟩ ∧ ComesBack {} 0.1 := by
  have hfinite : (0.1 : Float).isFinite = true := by decide +kernel
  have hzero : value 0.1 ≠ 0 := by
    have hcode : 0 < code 0.1 := by decide +kernel
    rw [← abs_pos, Double.abs_value]
    exact Double.magnitude_pos hcode
  have hd : IsShortest 0.1 ⟨1, -1⟩ := (isShortest_iff hfinite hzero).mpr (by decide +kernel)
  refine ⟨hfinite, hd, ?_⟩
  exact (comesBack_iff 0.1 hfinite {}).2.2.2 _ hd (.inl (by decide)) (by decide) (by decide)

-- A power of ten above 22 is rounded, and so is the quotient by it: here to the next double.
theorem not_comesBack_tenYocto :
    numeral sourceNumeral 1e-23 = "1e-23" ∧
      (∀ options printed, PrintsAs options (literalText "1e-23") printed ↔
        printed = "1.0000000000000001e-23") ∧
      ∀ options, ¬ ComesBack options 1e-23 := by
  have htext : numeral sourceNumeral 1e-23 = "1e-23" := by decide +kernel
  have hread : Json.Numeral.read ("1e-23".toList ++ ['\x7d']) =
      .ok (⟨false, 1, -23, false⟩, ['\x7d']) := rfl
  have hscale : Json.Numeral.scale (Float.ofNat 1) (-23) =
      .ok (Float.ofNat 1 / Json.Numeral.powerOfTen 23) := by
    rw [Json.Numeral.scale]
    rfl
  have hnext : numeral sourceNumeral (Float.ofNat 1 / Json.Numeral.powerOfTen 23) =
      "1.0000000000000001e-23" := by decide +kernel
  have hiff (options : PrintOptions) (printed : String) :
      PrintsAs options (literalText "1e-23") printed ↔ printed = "1.0000000000000001e-23" := by
    rw [← hnext]
    refine printsAs_literalText_iff_of_ok rfl (.inr rfl) hread ?_
    rw [Json.Numeral.map_value (by decide) (by simp), hscale]
    rfl
  refine ⟨htext, hiff, fun options => ?_⟩
  rw [ComesBack, htext, hiff]
  decide

end Decimal

end Estree
