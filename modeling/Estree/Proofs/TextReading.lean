import Estree.Proofs.BoundedNesting
import Estree.Proofs.JsonSpelling
import Mathlib

namespace Estree

namespace Json

-- Whether no object in a value has two members of one name.
inductive HasUniqueNames : Json → Prop where
  | null : HasUniqueNames .null
  | bool (value : Bool) : HasUniqueNames (.bool value)
  | number (value : Number) : HasUniqueNames (.number value)
  | string (value : String) : HasUniqueNames (.string value)
  | array {items : List Json} (hitems : ∀ item ∈ items, HasUniqueNames item) :
      HasUniqueNames (.array items)
  | object {members : Members} (hnames : (members.map Prod.fst).Nodup)
      (hmembers : ∀ member ∈ members, HasUniqueNames member.2) : HasUniqueNames (.object members)

-- The words of a value.
def tokens : Json → List Token
  | .null => [.null]
  | .bool value => [.bool value]
  | .number value => [.number value]
  | .string value => [.string value]
  | .array items => .openArray :: (List.intercalate [.comma] (items.map tokens) ++ [.closeArray])
  | .object members =>
    .openObject :: (List.intercalate [.comma] (members.map fun member =>
      .string member.1 :: .colon :: tokens member.2) ++ [.closeObject])
termination_by value => sizeOf value
decreasing_by
  · have := List.sizeOf_lt_of_mem ‹_ ∈ items›
    simp
    omega
  · have := List.sizeOf_lt_of_mem ‹_ ∈ members›
    obtain ⟨name, value⟩ := member
    simp at this ⊢
    omega

-- A text of a value: its words, each in one of its spellings, with any whitespace around them.
def Writes (value : Json) (text : String) : Prop :=
  WritesTokens value.tokens text.toList

theorem Members.insert_of_notMem {members : Members} {name : String}
    (h : name ∉ members.map Prod.fst) (value : Json) :
    members.insert name value = members ++ [(name, value)] := by
  induction members with
  | nil => rfl
  | cons member members ih =>
    obtain ⟨other, old⟩ := member
    rw [List.map_cons, List.mem_cons, not_or] at h
    rw [insert, if_neg (Ne.symm h.1), ih h.2, List.cons_append]

namespace Token

-- Words that may stand before any others that do not begin with a number.
def StandsApart (words : List Token) : Prop :=
  ∀ rest, Separated rest → (∀ token ∈ rest.head?, token.isNumber = false) →
    Separated (words ++ rest)

theorem Separated.cons {token : Token} {tokens : List Token} (h : Separated tokens)
    (htoken : token.isNumber = false) : Separated (token :: tokens) :=
  List.isChain_cons.mpr ⟨fun _ _ hnumber => absurd hnumber (by simp [htoken]), h⟩

theorem standsApart_singleton (token : Token) : StandsApart [token] := by
  intro rest hrest hhead
  exact List.isChain_cons.mpr ⟨fun next hnext _ => hhead next hnext, hrest⟩

theorem StandsApart.cons {token : Token} {words : List Token} (h : StandsApart words)
    (htoken : token.isNumber = false) : StandsApart (token :: words) :=
  fun rest hrest hhead => (h rest hrest hhead).cons htoken

theorem StandsApart.intercalate {entries : List (List Token)}
    (h : ∀ entry ∈ entries, StandsApart entry) :
    StandsApart (List.intercalate [.comma] entries) := by
  induction entries with
  | nil => exact fun rest hrest _ => hrest
  | cons entry entries ih =>
    have hentry := h entry List.mem_cons_self
    have hentries := ih fun other hother => h other (List.mem_cons_of_mem entry hother)
    cases entries with
    | nil =>
      rw [List.intercalate_singleton]
      exact hentry
    | cons next entries =>
      intro rest hrest hhead
      rw [List.intercalate_cons_cons, List.append_assoc, List.append_assoc]
      apply hentry
      · exact (hentries rest hrest hhead).cons rfl
      · rintro _ ⟨⟩
        rfl

-- A list between an opening and a closing word.
theorem StandsApart.bracketed {opening closing : Token} {words : List Token}
    (h : StandsApart words) (hopening : opening.isNumber = false)
    (hclosing : closing.isNumber = false) :
    StandsApart (opening :: (words ++ [closing])) := by
  intro rest hrest hhead
  rw [List.cons_append, List.append_assoc]
  refine (h _ (hrest.cons hclosing) ?_).cons hopening
  rintro _ ⟨⟩
  exact hclosing

end Token

-- Between two numbers of a value there is always another word.
theorem standsApart_tokens {value : Json} (h : value.HasUniqueNames) :
    Token.StandsApart value.tokens := by
  induction h with
  | null | bool | number | string =>
    rw [tokens]
    exact Token.standsApart_singleton _
  | array hitems ih =>
    rw [tokens]
    refine Token.StandsApart.bracketed (Token.StandsApart.intercalate ?_) rfl rfl
    exact List.forall_mem_map.mpr ih
  | object hnames hmembers ih =>
    rw [tokens]
    refine Token.StandsApart.bracketed (Token.StandsApart.intercalate ?_) rfl rfl
    exact List.forall_mem_map.mpr fun member hmember => ((ih member hmember).cons rfl).cons rfl

theorem separated_tokens {value : Json} (h : value.HasUniqueNames) :
    Token.Separated value.tokens := by
  rw [← List.append_nil value.tokens]
  exact standsApart_tokens h [] List.IsChain.nil (by rintro _ ⟨⟩)

namespace Reader

-- The states in which a value may come next, with the arrays and objects it stands in.
inductive Awaits : State → List Frame → Prop where
  | value (stack : List Frame) : Awaits (.value stack) stack
  | firstItem (stack : List Frame) : Awaits (.firstItem stack) (.array [] :: stack)
  | item (items : List Json) (stack : List Frame) :
      Awaits (.item items stack) (.array items :: stack)

-- The states in which a name may come next, with the members before it.
inductive AwaitsName : State → Members → List Frame → Prop where
  | firstName (stack : List Frame) : AwaitsName (.firstName stack) [] stack
  | name (members : Members) (stack : List Frame) :
      AwaitsName (.name members stack) members stack

-- Whether the words of a value are read as the value, wherever it may come.
def ReadsBack (value : Json) : Prop :=
  ∀ ⦃state : State⦄ ⦃stack : List Frame⦄, Awaits state stack → ∀ rest,
    run none state (value.tokens ++ rest) = run none (complete value stack) rest

theorem run_of_startValue {state next : State} {stack : List Frame} (hstate : Awaits state stack)
    {token : Token} (h : startValue none stack token = .ok next) (rest : List Token) :
    run none state (token :: rest) = run none next rest := by
  have hstep : step none state token = .ok next := by
    cases hstate with
    | value => exact h
    | firstItem | item =>
      cases token with
      | closeArray => cases h
      | _ => exact h
  have hdone : ¬ ∃ value, state = .done value := by
    rintro ⟨value, rfl⟩
    cases hstate
  rw [run_cons hdone, hstep, ok_bind]

-- The items of an array, one after another.
theorem run_items {items : List Json} (hitems : ∀ item ∈ items, ReadsBack item)
    (hne : items ≠ []) {state : State} {read : List Json} {stack : List Frame}
    (hstate : Awaits state (.array read :: stack)) (rest : List Token) :
    run none state (List.intercalate [.comma] (items.map tokens) ++ rest) =
      run none (.afterItem (items.reverse ++ read) stack) rest := by
  induction items generalizing state read with
  | nil => exact absurd rfl hne
  | cons item items ih =>
    have hitem := hitems item List.mem_cons_self
    have htail := fun other hother => hitems other (List.mem_cons_of_mem item hother)
    cases items with
    | nil =>
      rw [List.map_singleton, List.intercalate_singleton, hitem hstate]
      rfl
    | cons next items =>
      rw [List.map_cons, List.map_cons, List.intercalate_cons_cons, List.append_assoc,
        List.append_assoc, hitem hstate, List.reverse_cons, List.append_assoc]
      exact ih htail (List.cons_ne_nil next items) (Awaits.item (item :: read) stack)

-- The members of an object, one after another. Each is a new one.
theorem run_members {members : Members} (hmembers : ∀ member ∈ members, ReadsBack member.2)
    (hne : members ≠ []) {state : State} {read : Members} {stack : List Frame}
    (hstate : AwaitsName state read stack) (hnames : ((read ++ members).map Prod.fst).Nodup)
    (rest : List Token) :
    run none state (List.intercalate [.comma] (members.map fun member =>
      .string member.1 :: .colon :: tokens member.2) ++ rest) =
      run none (.afterMember (read ++ members) stack) rest := by
  induction members generalizing state read with
  | nil => exact absurd rfl hne
  | cons member members ih =>
    obtain ⟨name, value⟩ := member
    have hvalue := hmembers (name, value) List.mem_cons_self
    have htail := fun other hother => hmembers other (List.mem_cons_of_mem (name, value) hother)
    have hnew : name ∉ read.map Prod.fst := by
      rw [List.map_append, List.map_cons] at hnames
      exact fun hmem => (List.nodup_append.mp hnames).2.2 name hmem name List.mem_cons_self rfl
    have hread : ∀ rest, run none state (.string name :: .colon :: (value.tokens ++ rest)) =
        run none (.afterMember (read ++ [(name, value)]) stack) rest := by
      intro rest
      rw [← Members.insert_of_notMem hnew]
      cases hstate <;> exact hvalue (Awaits.value (.object _ name :: stack)) rest
    cases members with
    | nil =>
      rw [List.map_singleton, List.intercalate_singleton]
      exact hread rest
    | cons next members =>
      rw [List.map_cons, List.map_cons, List.intercalate_cons_cons, List.append_assoc,
        List.append_assoc]
      refine (hread _).trans ?_
      rw [List.append_cons read (name, value) (next :: members)] at hnames ⊢
      exact ih htail (List.cons_ne_nil next members)
        (AwaitsName.name (read ++ [(name, value)]) stack) hnames

theorem readsBack {value : Json} (h : value.HasUniqueNames) : ReadsBack value := by
  induction h with
  | null | bool | number | string =>
    intro state stack hstate rest
    rw [tokens]
    exact run_of_startValue hstate rfl rest
  | @array items hitems ih =>
    intro state stack hstate rest
    rw [tokens, List.cons_append, List.append_assoc, run_of_startValue hstate rfl]
    by_cases hne : items = []
    · cases hne
      rfl
    · rw [run_items ih hne (Awaits.firstItem stack), List.append_nil]
      change run none (complete (.array items.reverse.reverse) stack) rest = _
      rw [List.reverse_reverse]
  | @object members hnames hmembers ih =>
    intro state stack hstate rest
    rw [tokens, List.cons_append, List.append_assoc, run_of_startValue hstate rfl]
    by_cases hne : members = []
    · cases hne
      rfl
    · rw [run_members ih hne (AwaitsName.firstName stack) hnames]
      rfl

end Reader

-- A text is read as the value it is written from.
theorem parse_of_writes {value : Json} {text : String} (hvalue : value.HasUniqueNames)
    (htext : value.Writes text) : parse text = .ok value := by
  have hscan : Token.ofText text = value.tokens :=
    Lexer.scan_of_writesTokens htext (separated_tokens hvalue)
  have hread : readValue none value.tokens = .ok (value, []) := by
    rw [← List.append_nil value.tokens]
    exact Reader.readsBack hvalue (Reader.Awaits.value []) []
  rw [parse, hscan, hread]
  rfl

end Json

open Json

-- Reading a text is decoding the value that it is written from, however it is written and however
-- deep the value is nested.
theorem ofText_of_writes {value : Json} {text : String} (hvalue : value.HasUniqueNames)
    (htext : value.Writes text) : Node.ofText text = (Node.ofJson value).mapError .decode := by
  rw [Node.ofText, parse_of_writes hvalue htext]
  rfl

-- A node with a member that is not read. The text has whitespace of every sort, a code unit and a
-- pair of them, a letter after a backslash and an integer at the limit.
theorem ofText_of_writes_thisExpression :
    let value : Json := .object [("type", .string "ThisExpression"),
      ("é😀/", .number (.int (-9223372036854775808)))]
    let text := "\t\x7b\"t\\u0079pe\": \"ThisExpression\",\r\n\"é\\uD83D\\ude00\\/\":" ++
      "-9223372036854775808 \x7d\n"
    value.HasUniqueNames ∧ value.Writes text ∧
      Node.ofText text = (Node.ofJson value).mapError .decode := by
  intro value text
  have hvalue : value.HasUniqueNames := by
    refine .object (by decide) ?_
    simp only [List.forall_mem_cons, List.not_mem_nil, false_imp_iff, forall_true_iff, and_true]
    exact ⟨.string _, .number _⟩
  have hwords : value.tokens =
      [.openObject, .string "type", .colon, .string "ThisExpression", .comma, .string "é😀/",
        .colon, .number (.int (-9223372036854775808)), .closeObject] := by
    simp [value, tokens, List.intercalate]
  have htype : WritesString "type" "\"t\\u0079pe\"".toList := by
    have hunit : WritesUnit 'y'.toNat ['0', '0', '7', '9'] :=
      @WritesUnit.digits 0 0 7 9 _ _ _ _ (.inl rfl) (.inl rfl) (.inl rfl) (.inl rfl)
    have hchars : List.Forall₂ WritesChar "type".toList
        [['t'], ['\\', 'u', '0', '0', '7', '9'], ['p'], ['e']] :=
      .cons (.raw (by decide) (by decide) (by decide)) (.cons (.unit hunit)
        (.cons (.raw (by decide) (by decide) (by decide))
          (.cons (.raw (by decide) (by decide) (by decide)) .nil)))
    exact (WritesString.quoted hchars :)
  have hkind : WritesString "ThisExpression" "\"ThisExpression\"".toList :=
    .raw (by simp)
  have hname : WritesString "é😀/" "\"é\\uD83D\\ude00\\/\"".toList := by
    have hleading : WritesUnit (0xD800 + ('😀'.toNat - 0x10000) / 0x400) ['D', '8', '3', 'D'] :=
      @WritesUnit.digits 13 8 3 13 _ _ _ _ (.inr rfl) (.inl rfl) (.inl rfl) (.inr rfl)
    have htrailing : WritesUnit (0xDC00 + ('😀'.toNat - 0x10000) % 0x400) ['d', 'e', '0', '0'] :=
      @WritesUnit.digits 13 14 0 0 _ _ _ _ (.inl rfl) (.inl rfl) (.inl rfl) (.inl rfl)
    have hchars : List.Forall₂ WritesChar "é😀/".toList [['é'],
        ['\\', 'u', 'D', '8', '3', 'D', '\\', 'u', 'd', 'e', '0', '0'], ['\\', '/']] :=
      .cons (.raw (by decide) (by decide) (by decide)) (.cons (.pair (by decide) hleading htrailing)
        (.cons (.letter (by decide)) .nil))
    exact (WritesString.quoted hchars :)
  have htext : value.Writes text := by
    have hsplit : text.toList = ['\t'] ++ (['\x7b'] ++ ([] ++ ("\"t\\u0079pe\"".toList ++
        ([] ++ ([':'] ++ ([' '] ++ ("\"ThisExpression\"".toList ++ ([] ++ ([','] ++
        (['\r', '\n'] ++ ("\"é\\uD83D\\ude00\\/\"".toList ++ ([] ++ ([':'] ++
        ([] ++ ((toString (-9223372036854775808 : Int)).toList ++ ([' '] ++ (['\x7d'] ++
        ['\n']))))))))))))))))) := by
      decide +kernel
    rw [Writes, hwords, hsplit]
    exact .cons (by decide) (.fixed (by simp [fixedTokens])) (.cons (by decide) (.string htype)
      (.cons (by decide) (.fixed (by simp [fixedTokens])) (.cons (by decide) (.string hkind)
      (.cons (by decide) (.fixed (by simp [fixedTokens])) (.cons (by decide) (.string hname)
      (.cons (by decide) (.fixed (by simp [fixedTokens]))
      (.cons (by decide) (.integer (by decide) (by decide))
      (.cons (by decide) (.fixed (by simp [fixedTokens])) (.nil (by decide))))))))))
  exact ⟨hvalue, htext, ofText_of_writes hvalue htext⟩

end Estree
