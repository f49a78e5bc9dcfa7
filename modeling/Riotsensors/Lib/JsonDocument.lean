import Riotsensors.Lib.JsonText

/-! The objects and scalars that the tokens of a JSON text make up. Members are kept in their
order, and a key may occur twice. -/

namespace JsonText

inductive Value where
  | object (members : List (Bytes × Value))
  | string (s : Bytes)
  | int (i : ℤ)
  | bool (b : Bool)
  | null

mutual

/-- The tokens that a value is written with. -/
def Value.tokens : Value → List Token
  | .object [] => [.opening, .closing]
  | .object ((key, value) :: members) =>
    .opening :: .string key :: .colon :: value.tokens ++ furtherTokens members
  | .string s => [.string s]
  | .int i => [.int i]
  | .bool b => [.bool b]
  | .null => [.null]

/-- The members after the first one, and the end of their object. -/
def furtherTokens : List (Bytes × Value) → List Token
  | [] => [.closing]
  | (key, value) :: members =>
    .comma :: .string key :: .colon :: value.tokens ++ furtherTokens members

end

/-! ## The parser -/

/-- An open object: the members before the one whose value is being read, and its key. -/
structure Frame where
  members : List (Bytes × Value)
  key : Bytes

/-- What the parser expects next. The innermost object comes first. -/
inductive Expects where
  | value (stack : List Frame)
  | keyOrEnd (stack : List Frame)
  | key (members : List (Bytes × Value)) (stack : List Frame)
  | colon (frame : Frame) (stack : List Frame)
  /-- a comma or the end, after a member -/
  | more (frame : Frame) (value : Value) (stack : List Frame)
  | nothing (value : Value)

/-- A value is complete. -/
def put (value : Value) : List Frame → Expects
  | [] => .nothing value
  | frame :: stack => .more frame value stack

def Frame.close (frame : Frame) (value : Value) : List (Bytes × Value) :=
  frame.members ++ [(frame.key, value)]

/-- `none`: the token does not belong there. -/
def take : Expects → Token → Option Expects
  | .value stack, .opening => some (.keyOrEnd stack)
  | .value stack, .string s => some (put (.string s) stack)
  | .value stack, .int i => some (put (.int i) stack)
  | .value stack, .bool b => some (put (.bool b) stack)
  | .value stack, .null => some (put .null stack)
  | .keyOrEnd stack, .closing => some (put (.object []) stack)
  | .keyOrEnd stack, .string key => some (.colon ⟨[], key⟩ stack)
  | .key members stack, .string key => some (.colon ⟨members, key⟩ stack)
  | .colon frame stack, .colon => some (.value (frame :: stack))
  | .more frame value stack, .comma => some (.key (frame.close value) stack)
  | .more frame value stack, .closing => some (put (.object (frame.close value)) stack)
  | _, _ => none

/-- The value that the tokens make up. -/
def ofTokens (ts : List Token) : Option Value :=
  match ts.foldlM take (.value []) with
  | some (.nothing value) => some value
  | _ => none

/-- The value that a text denotes. `none`: it is no JSON text. -/
def parse (text : Bytes) : Option Value := (lex text).bind ofTokens

/-! ## What has been read -/

/-- Members with a comma after each. -/
def listed (members : List (Bytes × Value)) : List Token :=
  members.flatMap fun m => .string m.1 :: .colon :: m.2.tokens ++ [.comma]

/-- The tokens before the value that the innermost object waits for. -/
def consumedBy : List Frame → List Token
  | [] => []
  | frame :: stack =>
    consumedBy stack ++ .opening :: listed frame.members ++ [.string frame.key, .colon]

/-- The tokens that lead to a state of the parser. -/
def Expects.consumed : Expects → List Token
  | .value stack => consumedBy stack
  | .keyOrEnd stack => consumedBy stack ++ [.opening]
  | .key members stack => consumedBy stack ++ .opening :: listed members
  | .colon frame stack => consumedBy stack ++ .opening :: listed frame.members ++ [.string frame.key]
  | .more frame v stack => consumedBy (frame :: stack) ++ v.tokens
  | .nothing v => v.tokens

theorem furtherTokens_concat (members : List (Bytes × Value)) (key : Bytes) (value : Value) :
    furtherTokens (members ++ [(key, value)]) =
      .comma :: listed members ++ .string key :: .colon :: value.tokens ++ [.closing] := by
  induction members with
  | nil => simp [furtherTokens, listed]
  | cons m members ih =>
    rw [List.cons_append, furtherTokens, ih]
    simp [listed]

theorem tokens_close (frame : Frame) (value : Value) :
    (Value.object (frame.close value)).tokens =
      .opening :: listed frame.members ++ .string frame.key :: .colon :: value.tokens ++
        [.closing] := by
  rcases frame with ⟨members, key⟩
  cases members with
  | nil => simp [Frame.close, Value.tokens, furtherTokens, listed]
  | cons m members =>
    change (Value.object (m :: (members ++ [(key, value)]))).tokens = _
    rw [Value.tokens, furtherTokens_concat]
    simp [listed]

theorem consumed_put (value : Value) (stack : List Frame) :
    (put value stack).consumed = consumedBy stack ++ value.tokens := by
  cases stack <;> rfl

/-- A step consumes its token. -/
theorem consumed_take {state state' : Expects} {t : Token} (h : take state t = some state') :
    state'.consumed = state.consumed ++ [t] := by
  unfold take at h
  split at h
  case h_11 =>
    obtain rfl := Option.some.inj h
    rw [consumed_put, tokens_close]
    simp [Expects.consumed, consumedBy]
  case h_12 => cases h
  all_goals
    obtain rfl := Option.some.inj h
    try rw [consumed_put]
    simp [Expects.consumed, Value.tokens, consumedBy, listed, Frame.close]

theorem consumed_foldlM {state state' : Expects} {ts : List Token}
    (h : ts.foldlM take state = some state') : state'.consumed = state.consumed ++ ts := by
  induction ts generalizing state with
  | nil =>
    obtain rfl := Option.some.inj h
    simp
  | cons t ts ih =>
    obtain ⟨next, hnext, hrest⟩ := Option.bind_eq_some_iff.mp h
    rw [ih hrest, consumed_take hnext, List.append_assoc]
    rfl

/-! ## What is written is read back -/

mutual

theorem foldlM_tokens (value : Value) (stack : List Frame) (ts : List Token) :
    (value.tokens ++ ts).foldlM take (.value stack) = ts.foldlM take (put value stack) := by
  match value with
  | .object [] => rfl
  | .object ((key, value) :: members) =>
    calc (Value.tokens (.object ((key, value) :: members)) ++ ts).foldlM take (.value stack)
        = (value.tokens ++ (furtherTokens members ++ ts)).foldlM take
            (.value (⟨[], key⟩ :: stack)) := by
          rw [Value.tokens, ← List.append_assoc]
          rfl
      _ = (furtherTokens members ++ ts).foldlM take (.more ⟨[], key⟩ value stack) :=
          foldlM_tokens value _ _
      _ = ts.foldlM take (put (.object ((key, value) :: members)) stack) :=
          foldlM_further members ⟨[], key⟩ value stack ts
  | .string s => rfl
  | .int i => rfl
  | .bool b => rfl
  | .null => rfl

theorem foldlM_further (members : List (Bytes × Value)) (frame : Frame) (value : Value)
    (stack : List Frame) (ts : List Token) :
    (furtherTokens members ++ ts).foldlM take (.more frame value stack) =
      ts.foldlM take (put (.object (frame.close value ++ members)) stack) := by
  match members with
  | [] =>
    rw [List.append_nil]
    rfl
  | (key, next) :: members =>
    calc (furtherTokens ((key, next) :: members) ++ ts).foldlM take (.more frame value stack)
        = (next.tokens ++ (furtherTokens members ++ ts)).foldlM take
            (.value (⟨frame.close value, key⟩ :: stack)) := by
          rw [furtherTokens, ← List.append_assoc]
          rfl
      _ = (furtherTokens members ++ ts).foldlM take (.more ⟨frame.close value, key⟩ next stack) :=
          foldlM_tokens next _ _
      _ = ts.foldlM take (put (.object (frame.close value ++ (key, next) :: members)) stack) := by
          rw [foldlM_further members _ next stack ts, Frame.close, List.append_assoc]
          rfl

end

/-- The tokens of a value are those that are read as it. -/
theorem ofTokens_eq_some_iff {ts : List Token} {value : Value} :
    ofTokens ts = some value ↔ ts = value.tokens := by
  constructor
  · intro h
    unfold ofTokens at h
    split at h
    · next v hfold =>
      obtain rfl := Option.some.inj h
      exact (consumed_foldlM hfold).symm
    · cases h
  · rintro rfl
    have hfold := foldlM_tokens value [] []
    rw [List.append_nil] at hfold
    rw [ofTokens, hfold]
    rfl

theorem parse_eq_some_iff {text : Bytes} {value : Value} :
    parse text = some value ↔ lex text = some value.tokens := by
  rw [parse, Option.bind_eq_some_iff]
  constructor
  · rintro ⟨ts, hts, hvalue⟩
    rw [hts, ofTokens_eq_some_iff.mp hvalue]
  · intro h
    exact ⟨_, h, ofTokens_eq_some_iff.mpr rfl⟩

example : parse [123, 34, 97, 34, 58, 32, 45, 49, 125] = some (.object [([97], .int (-1))]) := by
  rw [parse_eq_some_iff]
  decide

end JsonText
