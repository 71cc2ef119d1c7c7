import Estree.Decode
import Estree.Proofs.Lexemes
import Mathlib

namespace Estree

namespace Json

namespace Reader

-- The number of arrays and objects that are open.
def State.depth : State → Nat
  | .value stack => stack.length
  | .firstItem stack | .firstName stack => stack.length + 1
  | .item _ stack | .afterItem _ stack => stack.length + 1
  | .name _ stack | .colon _ _ stack | .afterMember _ stack => stack.length + 1
  | .done _ => 0

-- The states that reading passes through, up to a complete value, a fault or the end of the words.
def trace (state : State) (tokens : List Token) : List State :=
  state :: match state, tokens with
    | .done _, _ => []
    | _, [] => []
    | state, token :: tokens =>
      match step none state token with
      | .ok next => trace next tokens
      | .error _ => []

-- Goes on with a state unless it has reached the limit.
def capped (limit : Nat) (state : State) : Except Fault State :=
  if state.depth < limit then .ok state else .error .tooDeep

theorem depth_complete_le (value : Json) (stack : List Frame) :
    (complete value stack).depth ≤ stack.length := by
  cases stack with
  | nil => exact Nat.le_refl 0
  | cons frame stack => cases frame <;> exact Nat.le_refl _

theorem run_cons {limit : Option Nat} {state : State} (h : ¬ ∃ value, state = .done value)
    (token : Token) (tokens : List Token) :
    run limit state (token :: tokens) =
      step limit state token >>= fun next => run limit next tokens := by
  have hrun : run limit state (token :: tokens) =
      match step limit state token with
      | .ok next => run limit next tokens
      | .error fault => .error fault := by
    cases state with
    | done value => exact absurd ⟨value, rfl⟩ h
    | _ => rfl
  rw [hrun]
  cases step limit state token <;> rfl

theorem trace_cons {state : State} (h : ¬ ∃ value, state = .done value) (token : Token)
    (tokens : List Token) :
    trace state (token :: tokens) = state :: match step none state token with
      | .ok next => trace next tokens
      | .error _ => [] := by
  cases state with
  | done value => exact absurd ⟨value, rfl⟩ h
  | _ => rfl

theorem head_mem_trace (state : State) (tokens : List Token) : state ∈ trace state tokens := by
  unfold trace
  exact List.mem_cons_self

section Limit

variable {limit : Nat}

theorem capped_of_le {state : State} {depth : Nat} (hle : state.depth ≤ depth)
    (h : depth < limit) : capped limit state = .ok state :=
  if_pos (Nat.lt_of_le_of_lt hle h)

theorem enter_some {stack : List Frame} {state : State} (h : state.depth = stack.length + 1) :
    enter (some limit) stack state = enter none stack state >>= capped limit := by
  have hnone : enter none stack state = .ok state := rfl
  rw [hnone, ok_bind, capped, enter, h]
  by_cases hlimit : stack.length + 1 < limit
  · simp [hlimit]
  · simp [hlimit, Nat.le_of_not_lt hlimit]

theorem startValue_some {stack : List Frame} (h : stack.length < limit) (token : Token) :
    startValue (some limit) stack token = startValue none stack token >>= capped limit := by
  have hcomplete (value : Json) :
      capped limit (complete value stack) = .ok (complete value stack) :=
    capped_of_le (depth_complete_le value stack) h
  cases token with
  | openArray => exact enter_some rfl
  | openObject => exact enter_some rfl
  | null | bool | number | string => exact (hcomplete _).symm
  | brokenString | broken | closeArray | closeObject | comma | colon => rfl

-- One step under a limit is the step without it, unless that opens one array or object too many.
theorem step_some {state : State} (h : state.depth < limit) (token : Token) :
    step (some limit) state token = step none state token >>= capped limit := by
  have hcomplete {stack : List Frame} (hstack : stack.length + 1 < limit) (value : Json) :
      (.ok (complete value stack) : Except Fault State) = capped limit (complete value stack) :=
    (capped_of_le (depth_complete_le value stack) (Nat.lt_of_succ_lt hstack)).symm
  have hitem (items : List Json) {stack : List Frame} (hstack : stack.length + 1 < limit)
      (token : Token) : startValue (some limit) (.array items :: stack) token =
        startValue none (.array items :: stack) token >>= capped limit :=
    startValue_some hstack token
  cases state with
  | value stack => exact startValue_some h token
  | firstItem stack =>
    cases token with
    | closeArray => exact hcomplete h _
    | _ => simp only [step, hitem [] h]
  | item items stack =>
    cases token with
    | closeArray => rfl
    | _ => simp only [step, hitem items h]
  | afterItem items stack =>
    cases token with
    | comma => exact (if_pos h).symm
    | closeArray => exact hcomplete h _
    | _ => rfl
  | firstName stack =>
    cases token with
    | closeObject => exact hcomplete h _
    | string name => exact (if_pos h).symm
    | _ => rfl
  | name members stack =>
    cases token with
    | string name => exact (if_pos h).symm
    | _ => rfl
  | colon members name stack =>
    cases token with
    | colon => exact (if_pos h).symm
    | _ => rfl
  | afterMember members stack =>
    cases token with
    | comma => exact (if_pos h).symm
    | closeObject => exact hcomplete h _
    | _ => rfl
  | done value => rfl

-- Reading under a limit is reading without it, as long as no state on the way reaches the limit.
-- Where one does, that is the fault.
theorem run_some {state : State} (h : state.depth < limit) (tokens : List Token) :
    run (some limit) state tokens =
      if ∀ passed ∈ trace state tokens, passed.depth < limit then run none state tokens
      else .error .tooDeep := by
  induction tokens generalizing state with
  | nil =>
    have htrace : trace state [] = [state] := by cases state <;> rfl
    have hrun : run (some limit) state [] = run none state [] := by cases state <;> rfl
    rw [htrace, hrun, if_pos (by simpa using h)]
  | cons token tokens ih =>
    by_cases hdone : ∃ value, state = .done value
    · obtain ⟨value, rfl⟩ := hdone
      rw [if_pos (by simpa [trace] using h)]
      rfl
    · rw [run_cons hdone, run_cons hdone, trace_cons hdone, step_some h]
      cases hstep : step none state token with
      | error fault => simp [error_bind, h]
      | ok next =>
        rw [ok_bind, ok_bind, capped]
        by_cases hnext : next.depth < limit
        · rw [if_pos hnext, ok_bind, ih hnext]
          simp [h]
        · have hreached : ¬ ∀ passed ∈ state :: trace next tokens, passed.depth < limit := by
            intro hall
            exact hnext (hall next (List.mem_cons_of_mem _ (head_mem_trace next tokens)))
          rw [if_neg hnext, if_neg hreached]
          rfl

end Limit

-- What is left after a value are the last of the words.
theorem run_suffix {limit : Option Nat} {state : State} {tokens rest : List Token} {value : Json}
    (h : run limit state tokens = .ok (value, rest)) : rest <:+ tokens := by
  induction tokens generalizing state with
  | nil =>
    cases state with
    | done value =>
      cases h
      exact List.suffix_refl []
    | _ => cases h
  | cons token tokens ih =>
    by_cases hdone : ∃ value, state = .done value
    · obtain ⟨value, rfl⟩ := hdone
      cases h
      exact List.suffix_refl _
    · rw [run_cons hdone] at h
      obtain ⟨next, -, hnext⟩ := exists_of_bind_eq_ok h
      exact (ih hnext).trans (List.suffix_cons token tokens)

end Reader

-- Whether fewer than `limit` arrays and objects are open at any time while a text is read.
def NestsBelow (limit : Nat) (text : String) : Prop :=
  ∀ state ∈ Reader.trace (.value []) (Token.ofText text), state.depth < limit

instance (limit : Nat) (text : String) : Decidable (NestsBelow limit text) :=
  inferInstanceAs (Decidable (∀ state ∈ Reader.trace (.value []) (Token.ofText text),
    state.depth < limit))

-- Whether a text has a complete value in front, and behind it something that is no blank.
def GoesOnAfter (text : String) (value : Json) : Prop :=
  ∃ front rest : String, text = front ++ rest ∧ (∃ c ∈ rest.toList, Lexer.isBlank c = false) ∧
    readValue none (Token.ofText text) = .ok (value, Token.ofText rest)

theorem goesOnAfter_iff {text : String} {value : Json} :
    GoesOnAfter text value ↔
      ∃ rest, rest ≠ [] ∧ readValue none (Token.ofText text) = .ok (value, rest) := by
  constructor
  · rintro ⟨front, rest, -, ⟨c, hc, hblank⟩, hread⟩
    refine ⟨Token.ofText rest, ?_, hread⟩
    intro hnil
    rw [Lexer.scan_nil_eq_nil_iff.mp hnil c hc] at hblank
    cases hblank
  · rintro ⟨rest, hne, hread⟩
    obtain ⟨back, ⟨front, hfront⟩, rfl⟩ :=
      Lexer.exists_suffix_of_suffix_scan (Reader.run_suffix hread)
    rw [ne_eq, Lexer.scan_nil_eq_nil_iff] at hne
    have hword : ∃ c ∈ back, Lexer.isBlank c = false := by simpa using hne
    refine ⟨.ofList front, .ofList back, ?_, by simpa using hword, ?_⟩
    · rw [← String.ofList_append, hfront, String.ofList_toList]
    · rw [hread, Token.ofText, String.toList_ofList]

theorem readValue_some {limit : Nat} (hlimit : 0 < limit) (text : String) :
    readValue (some limit) (Token.ofText text) =
      if NestsBelow limit text then readValue none (Token.ofText text) else .error .tooDeep :=
  Reader.run_some hlimit _

end Json

namespace ReadError

-- Whether the text is at fault, and if so whether it ends too early, or the value that it denotes.
def category : ReadError → String
  | .fault cause => if cause.isEnd then "Eof" else "Syntax"
  | .decode _ => "Data"

-- What is told of an error.
def report (error : ReadError) : String × String :=
  (error.category, error.message)

end ReadError

namespace Node

open Json

-- Without a limit, what follows the value is looked at before the value.
theorem ofText_eq (text : String) :
    ofText text =
      match readValue none (Token.ofText text) with
      | .error fault => .error (.fault fault)
      | .ok (value, rest) =>
        if rest = [] then (ofJson value).mapError .decode
        else .error (.fault .trailingCharacters) := by
  rw [ofText, parse]
  cases readValue none (Token.ofText text) with
  | error fault => rfl
  | ok read =>
    obtain ⟨value, rest⟩ := read
    cases rest <;> rfl

-- Under the limit, the value is looked at before what follows it.
theorem ofBoundedText_eq {text : String} (h : NestsBelow nestingLimit text) :
    ofBoundedText text =
      match readValue none (Token.ofText text) with
      | .error fault => .error (.fault fault)
      | .ok (value, rest) =>
        match ofJson value with
        | .error cause => .error (.decode cause)
        | .ok node => if rest = [] then .ok node else .error (.fault .trailingCharacters) := by
  rw [ofBoundedText, readValue_some (by decide), if_pos h]
  cases readValue none (Token.ofText text) with
  | error fault => rfl
  | ok read =>
    obtain ⟨value, rest⟩ := read
    change (ofJson value).mapError ReadError.decode >>= _ = _
    cases hjson : ofJson value with
    | error cause => simp only [hjson]; rfl
    | ok node => simp only [hjson]; cases rest <;> rfl

theorem ofBoundedText_of_not_nestsBelow {text : String} (h : ¬ NestsBelow nestingLimit text) :
    ofBoundedText text = .error (.fault .tooDeep) := by
  rw [ofBoundedText, readValue_some (by decide), if_neg h]
  rfl

theorem ofText_of_goesOnAfter {text : String} {value : Json} (h : GoesOnAfter text value) :
    ofText text = .error (.fault .trailingCharacters) := by
  obtain ⟨rest, hrest, hread⟩ := goesOnAfter_iff.mp h
  simp only [ofText_eq, hread, if_neg hrest]

theorem ofBoundedText_of_goesOnAfter {text : String} (hnests : NestsBelow nestingLimit text)
    {value : Json} (h : GoesOnAfter text value) {cause : DecodeError}
    (hvalue : ofJson value = .error cause) : ofBoundedText text = .error (.decode cause) := by
  obtain ⟨rest, -, hread⟩ := goesOnAfter_iff.mp h
  simp only [ofBoundedText_eq hnests, hread, hvalue]

-- The order of the last two checks matters only where both of them fail.
theorem ofBoundedText_eq_ofText {text : String} (hnests : NestsBelow nestingLimit text)
    (h : ¬ ∃ value cause, GoesOnAfter text value ∧ ofJson value = .error cause) :
    ofBoundedText text = ofText text := by
  rw [ofBoundedText_eq hnests, ofText_eq]
  cases hread : readValue none (Token.ofText text) with
  | error fault => rfl
  | ok read =>
    obtain ⟨value, rest⟩ := read
    by_cases hrest : rest = []
    · simp only [if_pos hrest]
      cases ofJson value <;> rfl
    · simp only [if_neg hrest]
      cases hvalue : ofJson value with
      | ok node => rfl
      | error cause =>
        have hgoesOn : GoesOnAfter text value := goesOnAfter_iff.mpr ⟨rest, hrest, hread⟩
        exact absurd ⟨value, cause, hgoesOn, hvalue⟩ h

end Node

-- What is read under the limit is read without it. The converse holds for a text that nests below
-- the limit, and then the same is told of it if it is refused, unless its first value is refused
-- and something follows: without the limit that comes first, under it the value does.
theorem ofText_ofBoundedText_agree (text : String) :
    (∀ node, Node.ofBoundedText text = .ok node → Node.ofText text = .ok node) ∧
    (Json.NestsBelow Node.nestingLimit text →
      (∀ node, Node.ofText text = .ok node → Node.ofBoundedText text = .ok node) ∧
      ∀ error other, Node.ofText text = .error error → Node.ofBoundedText text = .error other →
        (∀ value cause, Json.GoesOnAfter text value → Node.ofJson value = .error cause →
          error.report = ("Syntax", "trailing characters") ∧
            other.report = ("Data", cause.message)) ∧
        ((¬ ∃ value cause, Json.GoesOnAfter text value ∧ Node.ofJson value = .error cause) →
          error.report = other.report)) ∧
    (¬ Json.NestsBelow Node.nestingLimit text →
      Node.ofBoundedText text = .error (.fault .tooDeep)) := by
  refine ⟨?_, ?_, Node.ofBoundedText_of_not_nestsBelow⟩
  · intro node hnode
    by_cases hnests : Json.NestsBelow Node.nestingLimit text
    · rw [← Node.ofBoundedText_eq_ofText hnests, hnode]
      rintro ⟨value, cause, hgoesOn, hvalue⟩
      rw [Node.ofBoundedText_of_goesOnAfter hnests hgoesOn hvalue] at hnode
      cases hnode
    · rw [Node.ofBoundedText_of_not_nestsBelow hnests] at hnode
      cases hnode
  · intro hnests
    refine ⟨?_, ?_⟩
    · intro node hnode
      rw [Node.ofBoundedText_eq_ofText hnests, hnode]
      rintro ⟨value, cause, hgoesOn, -⟩
      rw [Node.ofText_of_goesOnAfter hgoesOn] at hnode
      cases hnode
    · intro error other herror hother
      refine ⟨?_, ?_⟩
      · intro value cause hgoesOn hvalue
        rw [Node.ofText_of_goesOnAfter hgoesOn] at herror
        rw [Node.ofBoundedText_of_goesOnAfter hnests hgoesOn hvalue] at hother
        cases herror
        cases hother
        exact ⟨rfl, rfl⟩
      · intro hnone
        rw [Node.ofBoundedText_eq_ofText hnests hnone, herror] at hother
        cases hother
        rfl

-- An array is no syntax tree, and a word follows it.
theorem ofText_ofBoundedText_agree_array :
    (Json.NestsBelow Node.nestingLimit "[7] x" ∧
      Json.GoesOnAfter "[7] x" (.array [.number (.int 7)])) ∧
    ∃ error other, Node.ofText "[7] x" = .error error ∧ Node.ofBoundedText "[7] x" = .error other ∧
      error.report = ("Syntax", "trailing characters") ∧
      other.report = ("Data", "expected an ESTree node object, found an array") := by
  have hnests : Json.NestsBelow Node.nestingLimit "[7] x" := by decide +kernel
  have hgoesOn : Json.GoesOnAfter "[7] x" (.array [.number (.int 7)]) := by
    exact ⟨"[7]", " x", rfl, ⟨'x', by decide, rfl⟩, by cbv⟩
  have hvalue : Node.ofJson (.array [.number (.int 7)]) = .error (.notANode .array) := by cbv
  have htext : Node.ofText "[7] x" = .error (.fault .trailingCharacters) := by cbv
  have hbounded : Node.ofBoundedText "[7] x" = .error (.decode (.notANode .array)) := by cbv
  exact ⟨⟨hnests, hgoesOn⟩, _, _, htext, hbounded,
    (((ofText_ofBoundedText_agree "[7] x").2.1 hnests).2 _ _ htext hbounded).1 _ _ hgoesOn hvalue⟩

end Estree
