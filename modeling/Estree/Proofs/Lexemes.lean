import Estree.Json.Reader
import Estree.Proofs.Templates

namespace Estree.Json

namespace Numeral

theorem absorb_suffix (significand : Nat) (cs : List Char) :
    (absorb significand cs).2 <:+ cs := by
  fun_induction absorb significand cs with
  | case1 => exact List.suffix_refl []
  | case2 significand c cs h ih => exact ih.trans (List.suffix_cons c cs)
  | case3 significand c cs h => exact List.suffix_refl (c :: cs)

theorem minus_suffix (cs : List Char) : (minus cs).2 <:+ cs := by
  unfold minus
  split
  · exact List.suffix_cons _ _
  · exact List.suffix_refl _

theorem integerPart_suffix {cs rest : List Char} {significand skipped : Nat}
    (h : integerPart cs = .ok (significand, skipped, rest)) : rest <:+ cs := by
  unfold integerPart at h
  split at h
  · cases h
  · split at h
    · cases h
    · cases h
      exact List.suffix_cons _ _
  · rename_i c cs _
    split at h
    · cases h
      exact (List.dropWhile_suffix _).trans
        ((absorb_suffix (digit c) cs).trans (List.suffix_cons c cs))
    · cases h

theorem fractionPart_suffix {cs rest : List Char} {before after : Nat} {appended : Option Nat}
    (h : fractionPart before cs = .ok (after, appended, rest)) : rest <:+ cs := by
  unfold fractionPart at h
  split at h
  · rename_i c cs
    split at h
    · cases h
      exact (List.dropWhile_suffix _).trans
        ((absorb_suffix before (c :: cs)).trans (List.suffix_cons _ _))
    · cases h
  · cases h
  · cases h
    exact List.suffix_refl _

theorem power_suffix {cs rest : List Char} {e : Int} (h : power cs = .ok (e, rest)) :
    rest <:+ cs := by
  unfold power at h
  split at h
  rename_i negative digits hsign
  have hdigits : digits <:+ cs := by
    split at hsign
    all_goals cases hsign
    · exact List.suffix_cons _ _
    · exact List.suffix_cons _ _
    · exact List.suffix_refl _
  split at h
  · cases h
  · split at h
    · cases h
      exact (List.dropWhile_suffix _).trans hdigits
    · cases h

theorem exponentPart_suffix {cs rest : List Char} {e : Option Int}
    (h : exponentPart cs = .ok (e, rest)) : rest <:+ cs := by
  unfold exponentPart at h
  split at h
  case h_3 =>
    cases h
    exact List.suffix_refl _
  all_goals
    obtain ⟨found, hread, hpair⟩ := exists_of_map_eq_ok h
    cases hpair
    exact (power_suffix hread).trans (List.suffix_cons _ _)

-- A number is read from the front of a text.
theorem read_suffix {cs rest : List Char} {n : Numeral} (h : read cs = .ok (n, rest)) :
    rest <:+ cs := by
  obtain ⟨⟨significand, skipped, afterInteger⟩, hinteger, h⟩ := exists_of_bind_eq_ok h
  obtain ⟨⟨extended, appended, afterFraction⟩, hfraction, h⟩ := exists_of_bind_eq_ok h
  obtain ⟨⟨power, afterExponent⟩, hexponent, h⟩ := exists_of_bind_eq_ok h
  cases h
  exact (exponentPart_suffix hexponent).trans ((fractionPart_suffix hfraction).trans
    ((integerPart_suffix hinteger).trans (minus_suffix cs)))

end Numeral

namespace Lexer

theorem codeUnit_suffix {cs rest : List Char} {unit : Nat} (h : codeUnit cs = .ok (unit, rest)) :
    rest <:+ cs := by
  unfold codeUnit at h
  split at h
  · cases h
  · split at h
    · split at h
      · cases h
        exact ⟨[_, _, _, _], rfl⟩
      · cases h
    · cases h

theorem trailingUnit_suffix {cs rest : List Char} {leading : Nat} {c : Char}
    (h : trailingUnit leading cs = .ok (c, rest)) : rest <:+ cs := by
  unfold trailingUnit at h
  split at h
  · cases h
  · cases h
  · obtain ⟨⟨trailing, behind⟩, hunit, h⟩ := exists_of_bind_eq_ok h
    dsimp only at h
    split at h
    · obtain ⟨-, rfl⟩ := Prod.mk.inj (Except.ok.inj h)
      exact (codeUnit_suffix hunit).trans ⟨[_, _], rfl⟩
    · cases h
  · cases h

theorem escapedUnit_suffix {cs rest : List Char} {c : Char}
    (h : escapedUnit cs = .ok (c, rest)) : rest <:+ cs := by
  obtain ⟨⟨unit, behind⟩, hunit, h⟩ := exists_of_bind_eq_ok h
  have hbehind := codeUnit_suffix hunit
  dsimp only at h
  split at h
  · cases h
  · split at h
    · exact (trailingUnit_suffix h).trans hbehind
    · cases h
      exact hbehind

theorem escaped_suffix {cs rest : List Char} {c : Char} (h : escaped cs = .ok (c, rest)) :
    rest <:+ cs := by
  unfold escaped at h
  split at h
  · cases h
  · split at h
    case h_9 => exact (escapedUnit_suffix h).trans (List.suffix_cons _ _)
    all_goals cases h
    all_goals exact List.suffix_cons _ _

theorem stringBody_suffix {read cs rest : List Char} {value : String}
    (h : stringBody read cs = .ok (value, rest)) : rest <:+ cs := by
  fun_induction stringBody read cs with
  | case1 => cases h
  | case2 read cs =>
    cases h
    exact List.suffix_cons _ _
  | case3 read cs c behind hescaped hquote ih =>
    exact (ih h).trans ((escaped_suffix hescaped).trans (List.suffix_cons _ _))
  | case4 => cases h
  | case5 => cases h
  | case6 read c cs hquote hescape hcontrol ih => exact (ih h).trans (List.suffix_cons _ _)

theorem word_suffix {letters cs rest : List Char} (h : word letters cs = .ok rest) :
    rest <:+ cs := by
  fun_induction word letters cs with
  | case1 cs =>
    cases h
    exact List.suffix_refl _
  | case2 => cases h
  | case3 letters c cs ih => exact (ih h).trans (List.suffix_cons _ _)
  | case4 => cases h

-- A word is read from the front of a text.
theorem lexeme_suffix (c : Char) (cs : List Char) : (lexeme c cs).2 <:+ cs := by
  unfold lexeme
  split
  iterate 6 exact List.suffix_refl cs
  iterate 3
    · dsimp only
      split
      · rename_i h
        exact word_suffix h
      · exact List.nil_suffix
  · split
    · rename_i h
      exact stringBody_suffix h
    · exact List.nil_suffix
  · split
    · split
      · exact List.nil_suffix
      · rename_i numeral rest hread
        have hrest : rest <:+ cs := by
          obtain ⟨front, hfront⟩ := Numeral.read_suffix hread
          cases front with
          | nil =>
            have := Numeral.length_read_lt hread
            simp_all
          | cons d front => exact ⟨front, (List.cons.inj hfront).2⟩
        split
        · exact hrest
        · exact List.nil_suffix
    · exact List.nil_suffix

theorem scan_cons_of_isBlank {c : Char} (h : isBlank c = true) (read : List Token)
    (cs : List Char) : scan read (c :: cs) = scan read cs := by
  rw [scan, if_pos h]

theorem scan_cons_of_not_isBlank {c : Char} (h : isBlank c = false) (read : List Token)
    (cs : List Char) : scan read (c :: cs) = scan ((lexeme c cs).1 :: read) (lexeme c cs).2 := by
  rw [scan, if_neg (by simp [h])]

-- What has been read already stands in front of what is still to be read.
theorem scan_eq_append (read : List Token) (cs : List Char) :
    scan read cs = read.reverse ++ scan [] cs := by
  match cs with
  | [] => simp [scan]
  | c :: cs =>
    cases h : isBlank c with
    | true =>
      rw [scan_cons_of_isBlank h, scan_cons_of_isBlank h]
      exact scan_eq_append read cs
    | false =>
      rw [scan_cons_of_not_isBlank h, scan_cons_of_not_isBlank h, scan_eq_append (_ :: read),
        scan_eq_append [_]]
      simp
termination_by cs.length
decreasing_by
  all_goals
    have := length_lexeme_le c cs
    simp only [List.length_cons]
    omega

theorem scan_nil_cons_of_not_isBlank {c : Char} (h : isBlank c = false) (cs : List Char) :
    scan [] (c :: cs) = (lexeme c cs).1 :: scan [] (lexeme c cs).2 := by
  rw [scan_cons_of_not_isBlank h, scan_eq_append]
  rfl

-- Only blanks are no words.
theorem scan_nil_eq_nil_iff {cs : List Char} :
    scan [] cs = [] ↔ ∀ c ∈ cs, isBlank c = true := by
  induction cs with
  | nil => simp [scan]
  | cons c cs ih =>
    cases h : isBlank c with
    | true => rw [scan_cons_of_isBlank h, ih]; simp [h]
    | false => rw [scan_nil_cons_of_not_isBlank h]; simp [h]

-- The last words of a text are the words of its end.
theorem exists_suffix_of_suffix_scan {cs : List Char} {tokens : List Token}
    (h : tokens <:+ scan [] cs) : ∃ rest, rest <:+ cs ∧ tokens = scan [] rest := by
  match cs with
  | [] => exact ⟨[], List.suffix_refl [], by simpa [scan] using h⟩
  | c :: cs =>
    cases hblank : isBlank c with
    | true =>
      rw [scan_cons_of_isBlank hblank] at h
      obtain ⟨rest, hrest, rfl⟩ := exists_suffix_of_suffix_scan h
      exact ⟨rest, hrest.trans (List.suffix_cons c cs), rfl⟩
    | false =>
      rw [scan_nil_cons_of_not_isBlank hblank, List.suffix_cons_iff] at h
      rcases h with rfl | h
      · exact ⟨c :: cs, List.suffix_refl _, (scan_nil_cons_of_not_isBlank hblank cs).symm⟩
      · obtain ⟨rest, hrest, rfl⟩ := exists_suffix_of_suffix_scan h
        exact ⟨rest, hrest.trans ((lexeme_suffix c cs).trans (List.suffix_cons c cs)), rfl⟩
termination_by cs.length
decreasing_by
  all_goals
    have := length_lexeme_le c cs
    simp only [List.length_cons]
    omega

end Lexer

end Estree.Json
