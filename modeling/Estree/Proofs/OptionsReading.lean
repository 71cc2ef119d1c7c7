import Estree.Options.Reader
import Estree.Proofs.TextReading

namespace Estree

open Json (Token)

-- A JSON value as a text, if it is one.
def Json.string? : Json → Option String
  | .string text => some text
  | _ => none

namespace PrintOptions

def get (options : PrintOptions) : Setting → String
  | .indentUnit => options.indentUnit
  | .continuationIndent => options.continuationIndent

@[simp] theorem get_set (options : PrintOptions) (setting other : Setting) (value : String) :
    (options.set setting value).get other =
      if other = setting then value else options.get other := by
  cases setting <;> cases other <;> rfl

-- What a JSON value gives for a setting: an object by name, and an array in the order of settings.
def given? (value : Json) (setting : Setting) : Option String :=
  match value with
  | .object members => (members.lookup setting.name).bind Json.string?
  | .array items => ((Setting.all.zip items).lookup setting).bind Json.string?
  | _ => none

-- The options with some settings set one after another.
def setAll (options : PrintOptions) (given : List (Setting × String)) : PrintOptions :=
  given.foldl (fun options member => options.set member.1 member.2) options

theorem get_setAll (options : PrintOptions) {given : List (Setting × String)}
    (h : (given.map Prod.fst).Nodup) (setting : Setting) :
    (setAll options given).get setting = (given.lookup setting).getD (options.get setting) := by
  induction given generalizing options with
  | nil => rfl
  | cons member given ih =>
    obtain ⟨first, value⟩ := member
    rw [List.map_cons, List.nodup_cons] at h
    have hrest : (setAll options ((first, value) :: given)).get setting =
        (given.lookup setting).getD ((options.set first value).get setting) := ih _ h.2
    rw [hrest, get_set, List.lookup_cons]
    by_cases hsetting : setting = first
    · subst hsetting
      have hnone : given.lookup setting = none := by
        rw [List.lookup_eq_none_iff]
        intro other hother
        have hne : setting ≠ other.1 := fun heq =>
          h.1 (List.mem_map.mpr ⟨other, hother, heq.symm⟩)
        simpa using hne
      simp [hnone]
    · rw [if_neg hsetting, beq_false_of_ne hsetting]

theorem Setting.name_injective {a b : Setting} (h : a.name = b.name) : a = b := by
  cases a <;> cases b <;> first | rfl | simp [Setting.name] at h

theorem Setting.name_of_named {name : String} {setting : Setting}
    (h : Setting.named name = .ok setting) : setting.name = name := by
  unfold Setting.named at h
  split at h
  · rename_i found hfound
    cases h
    simpa using List.find?_some hfound
  · cases h

theorem eq_of_stringToken {token : Token} {value : String} (h : stringToken token = .ok value) :
    token = .string value := by
  unfold stringToken at h
  split at h
  · cases h
    rfl
  · cases h

theorem eq_of_memberName {seen : List Setting} {token : Token} {setting : Setting}
    (h : memberName seen token = .ok setting) : token = .string setting.name ∧ setting ∉ seen := by
  unfold memberName at h
  split at h
  · rename_i name
    obtain ⟨found, hfound, hnew⟩ := exists_of_bind_eq_ok h
    have hname : found.name = name := Setting.name_of_named (eq_ok_of_mapError hfound)
    by_cases hseen : found ∈ seen
    · rw [if_pos hseen] at hnew
      cases hnew
    · rw [if_neg hseen] at hnew
      cases hnew
      exact ⟨by rw [hname], hseen⟩
  · cases h
  · cases h

-- One member is read, and then the object ends or another member follows.
theorem membersFrom_eq_ok {options result : PrintOptions} {seen : List Setting}
    {tokens rest : List Token} (h : membersFrom options seen tokens = .ok (result, rest)) :
    ∃ setting value after, setting ∉ seen ∧
      tokens = .string setting.name :: .colon :: .string value :: after ∧
      (after = .closeObject :: rest ∧ result = options.set setting value ∨
        ∃ tokens, after = .comma :: tokens ∧
          membersFrom (options.set setting value) (setting :: seen) tokens =
            .ok (result, rest)) := by
  unfold membersFrom at h
  split at h
  · cases h
  · cases h
  · obtain ⟨setting, hname, hmember⟩ := exists_of_bind_eq_ok h
    clear h
    obtain ⟨rfl, hseen⟩ := eq_of_memberName hname
    split at hmember
    · cases hmember
    · cases hmember
    · obtain ⟨value, hvalue, hend⟩ := exists_of_bind_eq_ok hmember
      clear hmember
      cases eq_of_stringToken hvalue
      refine ⟨setting, value, _, hseen, rfl, ?_⟩
      split at hend
      · cases hend
      · cases hend
        exact .inl ⟨rfl, rfl⟩
      · exact .inr ⟨_, rfl, hend⟩
      · cases hend
    · cases hmember

-- The words of a member.
def memberWords (member : Setting × String) : List Token :=
  [.string member.1.name, .colon, .string member.2]

-- What is read as the members of an object is the words of some settings with their texts, none of
-- them twice.
theorem exists_given_of_membersFrom {options result : PrintOptions} {seen : List Setting}
    {tokens rest : List Token} (h : membersFrom options seen tokens = .ok (result, rest)) :
    ∃ given : List (Setting × String), given ≠ [] ∧ (given.map Prod.fst).Nodup ∧
      (∀ setting ∈ given.map Prod.fst, setting ∉ seen) ∧
      tokens = List.intercalate [.comma] (given.map memberWords) ++ .closeObject :: rest ∧
      result = setAll options given := by
  induction hlength : tokens.length using Nat.strong_induction_on
    generalizing tokens options seen with
  | _ length ih =>
    obtain ⟨setting, value, after, hseen, rfl, ⟨rfl, rfl⟩ | ⟨tokens, rfl, hmore⟩⟩ :=
      membersFrom_eq_ok h
    · exact ⟨[(setting, value)], by simp, by simp, by simpa using hseen, by simp [memberWords], rfl⟩
    · obtain ⟨given, hne, hnodup, hnew, rfl, rfl⟩ := ih _ (by simp [← hlength]; omega) hmore rfl
      refine ⟨(setting, value) :: given, by simp, ?_, ?_, ?_, rfl⟩
      · rw [List.map_cons, List.nodup_cons]
        exact ⟨fun hmem => hnew setting hmem List.mem_cons_self, hnodup⟩
      · rw [List.map_cons, List.forall_mem_cons]
        exact ⟨hseen, fun other hother hmem => hnew other hother (List.mem_cons_of_mem _ hmem)⟩
      · obtain ⟨next, others, rfl⟩ := List.exists_cons_of_ne_nil hne
        simp [memberWords, List.intercalate_cons_cons]

-- The value of an object of settings.
def objectOf (given : List (Setting × String)) : Json :=
  .object (given.map fun member => (member.1.name, .string member.2))

def arrayOf (values : List String) : Json :=
  .array (values.map .string)

theorem tokens_objectOf (given : List (Setting × String)) :
    (objectOf given).tokens =
      .openObject :: (List.intercalate [.comma] (given.map memberWords) ++ [.closeObject]) := by
  have hwords : memberWords = fun member => [.string member.1.name, .colon, .string member.2] := rfl
  rw [objectOf, Json.tokens]
  simp [hwords, Json.tokens, Function.comp_def]

theorem tokens_arrayOf (values : List String) :
    (arrayOf values).tokens =
      .openArray :: (List.intercalate [.comma] (values.map fun value => [.string value]) ++
        [.closeArray]) := by
  rw [arrayOf, Json.tokens]
  simp [Json.tokens, Function.comp_def]

theorem hasUniqueNames_objectOf {given : List (Setting × String)}
    (h : (given.map Prod.fst).Nodup) : (objectOf given).HasUniqueNames := by
  refine .object ?_ ?_
  · have hnames := h.map (f := Setting.name) fun _ _ => Setting.name_injective
    simpa [Function.comp_def] using hnames
  · intro member hmember
    obtain ⟨entry, -, rfl⟩ := List.mem_map.mp hmember
    exact .string entry.2

theorem hasUniqueNames_arrayOf (values : List String) : (arrayOf values).HasUniqueNames := by
  refine .array ?_
  intro item hitem
  obtain ⟨value, -, rfl⟩ := List.mem_map.mp hitem
  exact .string value

-- The members of an object of settings are found by their names.
theorem given?_objectOf (given : List (Setting × String)) (setting : Setting) :
    given? (objectOf given) setting = given.lookup setting := by
  induction given with
  | nil => rfl
  | cons member given ih =>
    obtain ⟨first, value⟩ := member
    have hname : (setting.name == first.name) = (setting == first) := by
      rw [Bool.eq_iff_iff, beq_iff_eq, beq_iff_eq]
      exact ⟨Setting.name_injective, congrArg Setting.name⟩
    simp only [given?, objectOf, List.map_cons, List.lookup_cons, hname] at ih ⊢
    cases setting == first with
    | true => rfl
    | false => exact ih

theorem lookup_zip_string (settings : List Setting) (values : List String) (setting : Setting) :
    ((settings.zip (values.map .string)).lookup setting).bind Json.string? =
      (settings.zip values).lookup setting := by
  induction settings generalizing values with
  | nil => rfl
  | cons first settings ih =>
    cases values with
    | nil => rfl
    | cons value values =>
      simp only [List.map_cons, List.zip_cons_cons, List.lookup_cons]
      cases setting == first with
      | true => rfl
      | false => exact ih values

theorem given?_arrayOf (values : List String) (setting : Setting) :
    given? (arrayOf values) setting = (Setting.all.zip values).lookup setting :=
  lookup_zip_string Setting.all values setting

theorem arrayEnd_eq_ok {options result : PrintOptions} {tokens rest : List Token}
    (h : arrayEnd options tokens = .ok (result, rest)) :
    tokens = .closeArray :: rest ∧ result = options := by
  unfold arrayEnd at h
  split at h <;> cases h
  exact ⟨rfl, rfl⟩

-- What is read as the further items of an array is texts for the settings that are left, or for the
-- first ones of them.
theorem exists_values_of_itemsFrom {options result : PrintOptions} {settings : List Setting}
    {tokens rest : List Token} (h : itemsFrom options settings tokens = .ok (result, rest)) :
    ∃ values : List String,
      tokens = (values.flatMap fun value => [.comma, .string value]) ++ .closeArray :: rest ∧
      result = setAll options (settings.zip values) := by
  induction settings generalizing options tokens with
  | nil =>
    obtain ⟨rfl, rfl⟩ := arrayEnd_eq_ok h
    exact ⟨[], rfl, rfl⟩
  | cons setting settings ih =>
    unfold itemsFrom at h
    split at h
    · cases h
    · cases h
      exact ⟨[], rfl, rfl⟩
    · cases h
    · cases h
    · obtain ⟨value, hvalue, hmore⟩ := exists_of_bind_eq_ok h
      cases eq_of_stringToken hvalue
      obtain ⟨values, rfl, rfl⟩ := ih hmore
      exact ⟨value :: values, rfl, rfl⟩
    · cases h

theorem intercalate_cons_eq_flatMap (separator first : List Token) (others : List (List Token)) :
    separator.intercalate (first :: others) = first ++ others.flatMap (separator ++ ·) := by
  induction others generalizing first with
  | nil => simp
  | cons next others ih => simp [List.intercalate_cons_cons, ih]

-- Options are read from the words of a JSON value, and they are what the value gives over the
-- defaults.
def ReadFrom (tokens rest : List Token) (options : PrintOptions) : Prop :=
  ∃ value : Json, tokens = value.tokens ++ rest ∧ value.HasUniqueNames ∧
    ∀ setting, options.get setting = (given? value setting).getD (get {} setting)

theorem readFrom_objectBody {tokens rest : List Token} {options : PrintOptions}
    (h : objectBody tokens = .ok (options, rest)) :
    ReadFrom (.openObject :: tokens) rest options := by
  have hobject (given : List (Setting × String)) (hnodup : (given.map Prod.fst).Nodup)
      (htokens : tokens = List.intercalate [.comma] (given.map memberWords) ++ .closeObject :: rest)
      (hoptions : options = setAll {} given) : ReadFrom (.openObject :: tokens) rest options := by
    refine ⟨objectOf given, ?_, hasUniqueNames_objectOf hnodup, ?_⟩
    · rw [tokens_objectOf, htokens]
      simp
    · intro setting
      rw [given?_objectOf, hoptions, get_setAll _ hnodup]
  unfold objectBody at h
  split at h
  · cases h
  · cases h
    exact hobject [] List.nodup_nil rfl rfl
  · obtain ⟨given, -, hnodup, -, htokens, hoptions⟩ := exists_given_of_membersFrom h
    exact hobject given hnodup htokens hoptions

theorem readFrom_arrayBody {tokens rest : List Token} {options : PrintOptions}
    (h : arrayBody tokens = .ok (options, rest)) :
    ReadFrom (.openArray :: tokens) rest options := by
  have harray (values : List String)
      (htokens : tokens =
        List.intercalate [.comma] (values.map fun value => [.string value]) ++ .closeArray :: rest)
      (hoptions : options = setAll {} (Setting.all.zip values)) :
      ReadFrom (.openArray :: tokens) rest options := by
    have hnodup : ((Setting.all.zip values).map Prod.fst).Nodup := by
      rcases values with _ | ⟨first, _ | ⟨second, others⟩⟩ <;> simp [Setting.all]
    refine ⟨arrayOf values, ?_, hasUniqueNames_arrayOf values, ?_⟩
    · rw [tokens_arrayOf, htokens]
      simp
    · intro setting
      rw [given?_arrayOf, hoptions, get_setAll _ hnodup]
  unfold arrayBody at h
  split at h
  · cases h
  · cases h
    exact harray [] rfl rfl
  · obtain ⟨value, hvalue, hmore⟩ := exists_of_bind_eq_ok h
    cases eq_of_stringToken hvalue
    obtain ⟨values, rfl, rfl⟩ := exists_values_of_itemsFrom hmore
    refine harray (value :: values) ?_ rfl
    simp [intercalate_cons_eq_flatMap, List.flatMap_map]

theorem readFrom_ofTokens {tokens rest : List Token} {options : PrintOptions}
    (h : ofTokens tokens = .ok (options, rest)) : ReadFrom tokens rest options := by
  unfold ofTokens at h
  split at h
  · cases h
  · exact readFrom_objectBody h
  · exact readFrom_arrayBody h
  · cases h

theorem eq_nil_of_expectEnd {rest : List Token} (h : Json.expectEnd rest = .ok ()) : rest = [] := by
  unfold Json.expectEnd at h
  split at h
  · rename_i hempty
    exact List.isEmpty_iff.mp hempty
  · cases h

-- A text that is read as options denotes a JSON value, and the options are what the value gives
-- over the defaults.
theorem exists_value_of_ofText {text : String} {options : PrintOptions}
    (h : ofText text = .ok options) :
    ∃ value, Json.parse text = .ok value ∧
      ∀ setting, options.get setting = (given? value setting).getD (get {} setting) := by
  obtain ⟨⟨found, rest⟩, htokens, hrest⟩ := exists_of_bind_eq_ok h
  obtain ⟨⟨⟩, hend, hfound⟩ := exists_of_bind_eq_ok hrest
  obtain rfl : found = options := Except.ok.inj hfound
  obtain rfl := eq_nil_of_expectEnd (eq_ok_of_mapError hend)
  obtain ⟨value, hwords, hnames, hgiven⟩ := readFrom_ofTokens htokens
  have hread : Json.readValue none (value.tokens ++ []) = .ok (value, []) :=
    Json.Reader.readsBack hnames (Json.Reader.Awaits.value []) []
  refine ⟨value, ?_, hgiven⟩
  rw [Json.parse, hwords, hread]
  rfl

end PrintOptions

end Estree
