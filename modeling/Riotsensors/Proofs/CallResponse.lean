import Riotsensors.Proofs.RequestedIds
import Riotsensors.Sanity.Requests
import Riotsensors.Spec.CoapTexts

/-! The arrays that the board's CoAP server fills for a call. The requested name is copied into
twelve bytes, and the answer with the evaluator's result into 200, whatever their lengths. -/

namespace RS.Board

open CMem Loops Numerals Printf

variable {m : DataModel} {ev : Evaluators} {b : Board}

/-! ## The options -/

/-- The value that is read for a name, if the option has its key. -/
def valueFor (n : QueryName) (opt : CoapOption m) : Option (List UInt8) :=
  (readOption opt).bind fun (key, value) => if strEq key n.text then some value else none

def values (n : QueryName) (opts : List (CoapOption m)) : List (List UInt8) :=
  opts.filterMap (valueFor n)

/-- What the last `type` is read as. -/
def askedType (opts : List (CoapOption m)) : RsLambdaType :=
  (values .type opts).getLast?.elim 0 (getLambdaTypeFromString m)

/-- The last `name`. -/
def askedName (opts : List (CoapOption m)) : List UInt8 :=
  (values .name opts).getLast?.elim [] cstr

/-- The last `id` that `strtol` reads to its end. -/
def askedId (opts : List (CoapOption m)) : LambdaId :=
  ((values .id opts).filter fun value =>
    (strtol m.longBits value).2 = strlen value).getLast?.elim 255 (boardId m)

variable {n : QueryName} {opt : CoapOption m} {key value : List UInt8}

theorem valueFor_of_read (h : readOption opt = some (key, value)) (n : QueryName) :
    valueFor n opt = if cstr key = n.text then some value else none := by
  have hkey : strEq key n.text = true ↔ cstr key = n.text := by
    rw [strEq_iff, cstr_of_isText n.isText]
  rw [valueFor, h, Option.bind_some]
  exact if_congr hkey rfl rfl

theorem values_concat (n : QueryName) (opts : List (CoapOption m)) (opt : CoapOption m) :
    values n (opts ++ [opt]) = values n opts ++ (valueFor n opt).toList := by
  rw [values, List.filterMap_append, values]
  cases h : valueFor n opt <;> simp [h]

theorem elim_getLast?_append_toList {α β : Type*} (as : List α) (a : Option α) (d : β)
    (f : α → β) : (as ++ a.toList).getLast?.elim d f = a.elim (as.getLast?.elim d f) f := by
  cases a <;> simp

theorem askedType_concat (opts : List (CoapOption m)) (opt : CoapOption m) :
    askedType (opts ++ [opt]) =
      (valueFor .type opt).elim (askedType opts) (getLambdaTypeFromString m) := by
  rw [askedType, values_concat, elim_getLast?_append_toList, askedType]

theorem askedName_concat (opts : List (CoapOption m)) (opt : CoapOption m) :
    askedName (opts ++ [opt]) = (valueFor .name opt).elim (askedName opts) cstr := by
  rw [askedName, values_concat, elim_getLast?_append_toList, askedName]

theorem askedId_concat (opts : List (CoapOption m)) (opt : CoapOption m) :
    askedId (opts ++ [opt]) = (valueFor .id opt).elim (askedId opts) fun value =>
      if (strtol m.longBits value).2 = strlen value then boardId m value else askedId opts := by
  rw [askedId, values_concat, List.filter_append]
  cases valueFor .id opt with
  | none => simp [askedId]
  | some value =>
    by_cases hread : (strtol m.longBits value).2 = strlen value <;> simp [hread, askedId]

/-- What the loop of `handle_call_name` has read. -/
structure ReadsName (opts : List (CoapOption m)) (query : CoapQuery) : Prop where
  size : query.name.length = MAX_LAMBDA_NAME_LENGTH
  ends : strlen query.name < MAX_LAMBDA_NAME_LENGTH
  type : query.type = askedType opts
  name : cstr query.name = askedName opts

/-- The option is read, and its name, if it is one, fits the array. -/
def NameFits (opt : CoapOption m) : Prop :=
  (readOption opt).isSome ∧ ∀ value ∈ valueFor .name opt, strlen value < MAX_LAMBDA_NAME_LENGTH

theorem readsName_start (junk : List UInt8) :
    ReadsName ([] : List (CoapOption m)) (callNameStart junk) where
  size := by
    rw [callNameStart, List.length_cons, length_uninit]
    rfl
  ends := by
    rw [strlen, callNameStart, cstr_cons_zero]
    decide
  type := rfl
  name := cstr_cons_zero _

theorem ReadsName.round {opts : List (CoapOption m)} {query : CoapQuery}
    (h : ReadsName opts query) (hfits : NameFits opt) :
    ∃ query', callNameRound query opt = some query' ∧ ReadsName (opts ++ [opt]) query' := by
  obtain ⟨⟨key, value⟩, hread⟩ := Option.isSome_iff_exists.mp hfits.1
  have hfor := valueFor_of_read hread
  have hround : callNameRound query opt =
      if cstr key = QueryName.text .type then
        some { query with type := getLambdaTypeFromString m value }
      else if cstr key = QueryName.text .name then
        (strcpy query.name 0 value).map fun name => { query with name }
      else some query := by
    simp only [callNameRound, hread]
    exact if_congr strEq_iff rfl (if_congr strEq_iff rfl rfl)
  rw [hround]
  by_cases htype : cstr key = QueryName.text .type
  · have hname : cstr key ≠ QueryName.text .name := by
      rw [htype]
      decide
    rw [if_pos htype]
    refine ⟨_, rfl, h.size, h.ends, ?_, ?_⟩
    · rw [askedType_concat, hfor, if_pos htype]
      rfl
    · rw [askedName_concat, hfor, if_neg hname]
      exact h.name
  · rw [if_neg htype]
    have hasked : askedType (opts ++ [opt]) = askedType opts := by
      rw [askedType_concat, hfor, if_neg htype]
      rfl
    by_cases hname : cstr key = QueryName.text .name
    · have hvalue : valueFor .name opt = some value := by rw [hfor, if_pos hname]
      have hlt := hfits.2 value hvalue
      obtain ⟨name, hcopy, hsize, hcstr⟩ := poke_text (cstr_isText value) (h.size ▸ hlt)
      rw [if_pos hname, strcpy, hcopy]
      refine ⟨_, rfl, hsize.trans h.size, ?_, h.type.trans hasked.symm, ?_⟩
      · rw [strlen, hcstr]
        exact hlt
      rw [askedName_concat, hvalue]
      exact hcstr
    · rw [if_neg hname]
      refine ⟨_, rfl, h.size, h.ends, h.type.trans hasked.symm, ?_⟩
      rw [askedName_concat, hfor, if_neg hname]
      exact h.name

theorem callNameRound_of_not_fits {query : CoapQuery}
    (h : query.name.length = MAX_LAMBDA_NAME_LENGTH) (hfits : ¬ NameFits opt) :
    callNameRound query opt = none := by
  cases hread : readOption opt with
  | none => simp only [callNameRound, hread]
  | some kv =>
    obtain ⟨key, value⟩ := kv
    have hfor := valueFor_of_read hread .name
    have hname : cstr key = QueryName.text .name := by
      by_contra hne
      rw [if_neg hne] at hfor
      exact hfits ⟨by rw [hread]; rfl, by simp [hfor]⟩
    have hlong : query.name.length ≤ 0 + strlen value := by
      rw [if_pos hname] at hfor
      rw [h, Nat.zero_add]
      by_contra hlt
      refine hfits ⟨by rw [hread]; rfl, fun v hv => ?_⟩
      rw [hfor] at hv
      rw [← Option.some.inj hv]
      exact not_le.mp hlt
    have htype : ¬ strEq key (ascii "type") = true := by
      rw [strEq_iff, hname]
      decide
    simp only [callNameRound, hread]
    rw [if_neg htype, if_pos (strEq_iff.mpr hname), strcpy_eq_none.mpr hlong, Option.map_none]

/-- The names fit and the loop reads the last one, or one leaves the array. -/
theorem callNameQuery_cases (junk : List UInt8) (opts : List (CoapOption m)) :
    ((∀ opt ∈ opts, NameFits opt) ∧
      ∃ query, callNameQuery junk opts = some query ∧ ReadsName opts query) ∨
    ¬ (∀ opt ∈ opts, NameFits opt) ∧ callNameQuery junk opts = none := by
  refine foldlM_inv_cases (fun _ query opt h hfits => ?_) (fun _ query opt h hfits => ?_)
    (readsName_start junk) opts
  · exact h.round hfits
  · exact callNameRound_of_not_fits h.size hfits

/-- What the loop of `handle_call_id` has read. -/
structure ReadsId (opts : List (CoapOption m)) (query : CoapQuery) : Prop where
  type : query.type = askedType opts
  id : query.id = askedId opts

theorem ReadsId.round {opts : List (CoapOption m)} {query : CoapQuery} (h : ReadsId opts query)
    (hread : (readOption opt).isSome) :
    ∃ query', callIdRound query opt = some query' ∧ ReadsId (opts ++ [opt]) query' := by
  obtain ⟨⟨key, value⟩, hread⟩ := Option.isSome_iff_exists.mp hread
  have hfor := valueFor_of_read hread
  have hround : callIdRound query opt =
      if cstr key = QueryName.text .type then
        some { query with type := getLambdaTypeFromString m value }
      else if cstr key = QueryName.text .id then
        if (strtol m.longBits value).2 = strlen value then
          some { query with id := UInt8.ofInt (strtol m.longBits value).1 }
        else some query
      else some query := by
    simp only [callIdRound, hread]
    exact if_congr strEq_iff rfl (if_congr strEq_iff rfl rfl)
  rw [hround]
  by_cases htype : cstr key = QueryName.text .type
  · have hid : cstr key ≠ QueryName.text .id := by
      rw [htype]
      decide
    rw [if_pos htype]
    refine ⟨_, rfl, ?_, ?_⟩
    · rw [askedType_concat, hfor, if_pos htype]
      rfl
    · rw [askedId_concat, hfor, if_neg hid]
      exact h.id
  · rw [if_neg htype]
    have hasked : askedType (opts ++ [opt]) = askedType opts := by
      rw [askedType_concat, hfor, if_neg htype]
      rfl
    by_cases hid : cstr key = QueryName.text .id
    · rw [if_pos hid]
      have hasked' : askedId (opts ++ [opt]) =
          if (strtol m.longBits value).2 = strlen value then boardId m value else askedId opts := by
        rw [askedId_concat, hfor, if_pos hid]
        rfl
      split_ifs at hasked' ⊢ with hstop
      · refine ⟨_, rfl, h.type.trans hasked.symm, ?_⟩
        rw [hasked', boardId, if_pos hstop]
      · exact ⟨_, rfl, h.type.trans hasked.symm, h.id.trans hasked'.symm⟩
    · rw [if_neg hid]
      refine ⟨_, rfl, h.type.trans hasked.symm, ?_⟩
      rw [askedId_concat, hfor, if_neg hid]
      exact h.id

/-- The options are read and the loop ends with the last id, or one is not read. -/
theorem callIdQuery_cases (opts : List (CoapOption m)) :
    ((∀ opt ∈ opts, (readOption opt).isSome) ∧
      ∃ query, callIdQuery opts = some query ∧ ReadsId opts query) ∨
    ¬ (∀ opt ∈ opts, (readOption opt).isSome) ∧ callIdQuery opts = none := by
  refine foldlM_inv_cases (fun _ _ _ h hread => h.round hread) (fun _ query opt _ hread => ?_)
    (⟨rfl, rfl⟩ : ReadsId [] {}) opts
  simp only [callIdRound, Option.not_isSome_iff_eq_none.mp hread]

/-! ## The answers -/

/-- What the board evaluates a lambda to, in the mode it is registered with. -/
def evaluation (ev : Evaluators) (l : RsRegisteredLambda FuncPtr) : Option Result :=
  (LambdaKind.ofType l.type).map fun kind => ev.result kind l.arg l.id

/-- A record that is found under its id is evaluated if it is asked for with its own type. -/
theorem Sound.performCoapLambdaCall_eq (h : b.Sound) {l : RsRegisteredLambda FuncPtr}
    (hl : b.registry.slot l.id.toNat = some l) (ev : Evaluators) (type : RsLambdaType) :
    performCoapLambdaCall ev b type l =
      if l.type = type then
        if l.arg = 0 then none else (evaluation ev l).map (.success l)
      else some (.failure l RS_CALL_WRONGTYPE) := by
  have hget : getRegisteredLambdaById b.registry l.id = some l := (h.wf.getById l.id).trans hl
  unfold performCoapLambdaCall
  cases hkind : LambdaKind.ofType type with
  | none =>
    obtain ⟨kind, hkind'⟩ := h.typed _ l hl
    have hne : l.type ≠ type := by
      rintro rfl
      rw [hkind', LambdaKind.ofType_type] at hkind
      cases hkind
    rw [if_neg hne]
  | some kind =>
    obtain rfl := LambdaKind.of_ofType hkind
    simp only [call_eq, callLambda, hget]
    by_cases htype : l.type = kind.type
    · have hresult : evaluation ev l = some (ev.result kind l.arg l.id) := by
        rw [evaluation, htype, hkind, Option.map_some]
      rw [if_neg (not_not.mpr htype), if_pos htype, hresult]
      split_ifs <;> rfl
    · rw [if_pos htype, if_neg htype]
      rfl

/-- The object for a record in an answer. -/
def lambdaText (l : RsRegisteredLambda FuncPtr) : List UInt8 := printf lambdaFormat (lambdaArgs l)

def resultText : Result → List UInt8
  | .int i => integer i.toInt
  | .double d => fixed d
  | .string mem => ascii "\"" ++ (cstr mem ++ ascii "\"")

/-- What is printed for an answer. -/
def CoapAnswer.text : CoapAnswer → List UInt8
  | .badRequest text => ascii text
  | .success l result => ascii "\x7b\"success\": true," ++ (lambdaText l ++
      (ascii ",\"result\":" ++ (resultText result ++ ascii "\x7d")))
  | .failure l code => ascii "\x7b\"success\": false," ++ (lambdaText l ++
      (ascii ",\"error\":" ++ (integer code.toInt ++ ascii "\x7d")))
  | .unknownName name code =>
    ascii "\x7b\"success\": false,\"lambda\":\x7b\"id\":-1,\"name\":\"" ++ (cstr name ++
      (ascii "\",\"type\":-1,\"cache\":-1\x7d,\"error\":" ++
        (integer code.toInt ++ ascii "\x7d")))
  | .unknownId id code =>
    ascii "\x7b\"success\": false,\"lambda\":\x7b\"id\":" ++ (integer id.toNat ++
      (ascii ",\"name\":\"unknown\",\"type\":-1,\"cache\":-1\x7d,\"error\":" ++
        (integer code.toInt ++ ascii "\x7d")))

theorem lambdaText_append (l : RsRegisteredLambda FuncPtr) (rest : List UInt8) :
    lambdaText l ++ rest =
      ascii "\"lambda\":\x7b\"id\":" ++ (decimal l.id.toNat ++ (ascii ",\"name\":\"" ++
        (l.text ++ (ascii "\",\"type\":" ++ (decimal l.type.toNat ++ (ascii ",\"cache\":" ++
          (decimal l.cache.toNat ++ (ascii "\x7d" ++ rest)))))))) := by
  have htext : lambdaText l = ascii "\"lambda\":\x7b\"id\":" ++ (decimal l.id.toNat ++
      (ascii ",\"name\":\"" ++ (l.text ++ (ascii "\",\"type\":" ++ (decimal l.type.toNat ++
        (ascii ",\"cache\":" ++ (decimal l.cache.toNat ++ ascii "\x7d"))))))) := rfl
  rw [htext]
  simp only [List.append_assoc]

/-- The format holds no NUL, and the text is what it prints. -/
theorem print_text {answer : CoapAnswer} {format : List UInt8} {args : List Arg}
    (h : answer.print = some (format, args)) :
    IsText format ∧ printf format args = answer.text := by
  cases answer with
  | badRequest text => cases h
  | success l result =>
    rw [CoapAnswer.text, lambdaText_append]
    cases result with
    | int i =>
      obtain ⟨rfl, rfl⟩ := Prod.mk.inj (Option.some.inj h)
      exact ⟨by decide, rfl⟩
    | double d =>
      obtain ⟨rfl, rfl⟩ := Prod.mk.inj (Option.some.inj h)
      exact ⟨by decide, rfl⟩
    | string mem =>
      obtain ⟨rfl, rfl⟩ := Prod.mk.inj (Option.some.inj h)
      refine ⟨by decide, ?_⟩
      rw [resultText]
      simp only [List.append_assoc]
      rfl
  | failure l code =>
    rw [CoapAnswer.text, lambdaText_append]
    obtain ⟨rfl, rfl⟩ := Prod.mk.inj (Option.some.inj h)
    exact ⟨by decide, rfl⟩
  | unknownName name code =>
    obtain ⟨rfl, rfl⟩ := Prod.mk.inj (Option.some.inj h)
    exact ⟨by decide, rfl⟩
  | unknownId id code =>
    obtain ⟨rfl, rfl⟩ := Prod.mk.inj (Option.some.inj h)
    exact ⟨by decide, rfl⟩

/-- The answer is sent as it is printed if its terminator fits `buf` too. -/
theorem payload_eq {answer : CoapAnswer} (h : answer.print.isSome) (junk : List UInt8) :
    answer.payload junk = if answer.text.length < BUF_SIZE then some answer.text else none := by
  obtain ⟨⟨format, args⟩, hprint⟩ := Option.isSome_iff_exists.mp h
  obtain ⟨hformat, htext⟩ := print_text hprint
  have hpayload : answer.payload junk = (sprintf (uninit BUF_SIZE junk) format args).map cstr := by
    cases answer with
    | badRequest text => cases hprint
    | success | failure | unknownName | unknownId =>
      rw [CoapAnswer.payload, hprint, Option.bind_some]
      exact fun _ h => by cases h
  rw [hpayload, ← htext]
  split_ifs with hlt
  · have hfits : (printf format args).length < (uninit BUF_SIZE junk).length := by
      rw [length_uninit]
      exact hlt
    obtain ⟨buf, hbuf, -, hcstr⟩ := sprintf_spec hformat hfits
    rw [hbuf, Option.map_some, hcstr]
  · rw [sprintf_eq_none.mpr (by rw [length_uninit]; exact not_lt.mp hlt), Option.map_none]

/-- The length of the parts that come from a record. -/
def recordLength (l : RsRegisteredLambda FuncPtr) : ℕ :=
  (decimal l.id.toNat).length + l.text.length + (decimal l.type.toNat).length +
    (decimal l.cache.toNat).length

def resultLength : Result → ℕ
  | .int i => (integer i.toInt).length
  | .double d => (fixed d).length
  | .string mem => strlen mem + 2

theorem length_lambdaText (l : RsRegisteredLambda FuncPtr) :
    (lambdaText l).length = 43 + recordLength l := by
  have happend := congrArg List.length (lambdaText_append l [])
  rw [List.append_nil] at happend
  rw [happend, recordLength]
  simp only [List.length_append, List.length_nil,
    show (ascii "\"lambda\":\x7b\"id\":").length = 15 from rfl,
    show (ascii ",\"name\":\"").length = 9 from rfl,
    show (ascii "\",\"type\":").length = 9 from rfl,
    show (ascii ",\"cache\":").length = 9 from rfl, show (ascii "\x7d").length = 1 from rfl]
  omega

theorem length_resultText (result : Result) : (resultText result).length = resultLength result := by
  cases result with
  | int i => rfl
  | double d => rfl
  | string mem =>
    rw [resultText, resultLength, strlen]
    simp only [List.length_append, show (ascii "\"").length = 1 from rfl]
    omega

theorem length_success (l : RsRegisteredLambda FuncPtr) (result : Result) :
    (CoapAnswer.success l result).text.length = 71 + recordLength l + resultLength result := by
  rw [CoapAnswer.text]
  simp only [List.length_append, length_lambdaText, length_resultText,
    show (ascii "\x7b\"success\": true,").length = 17 from rfl,
    show (ascii ",\"result\":").length = 10 from rfl, show (ascii "\x7d").length = 1 from rfl]
  omega

theorem length_wrongType (l : RsRegisteredLambda FuncPtr) :
    (CoapAnswer.failure l RS_CALL_WRONGTYPE).text.length = 73 + recordLength l := by
  rw [CoapAnswer.text]
  simp only [List.length_append, length_lambdaText,
    show (ascii "\x7b\"success\": false,").length = 18 from rfl,
    show (ascii ",\"error\":").length = 9 from rfl, show (ascii "\x7d").length = 1 from rfl,
    show (integer RS_CALL_WRONGTYPE.toInt).length = 2 by decide +kernel]
  omega

theorem length_notFound : (integer RS_CALL_NOTFOUND.toInt).length = 2 := by decide +kernel

/-- A name that fits its array fits the answer. -/
theorem length_unknownName {name : List UInt8} (h : strlen name < MAX_LAMBDA_NAME_LENGTH) :
    (CoapAnswer.unknownName name RS_CALL_NOTFOUND).text.length < BUF_SIZE := by
  have hstart : (ascii ("\x7b\"success\": false,\"lambda\":\x7b\"id\":-1," ++
    "\"name\":\"")).length = 44 := rfl
  have hend : (ascii "\",\"type\":-1,\"cache\":-1\x7d,\"error\":").length = 32 := rfl
  have hlength : (CoapAnswer.unknownName name RS_CALL_NOTFOUND).text.length =
      44 + ((cstr name).length + (32 + (2 + 1))) := by
    rw [CoapAnswer.text, List.length_append, List.length_append, List.length_append,
      List.length_append, length_notFound, hend]
    exact congrArg (· + _) hstart
  change (cstr name).length < 12 at h
  change _ < 200
  omega

theorem length_unknownId (id : LambdaId) :
    (CoapAnswer.unknownId id RS_CALL_NOTFOUND).text.length < BUF_SIZE := by
  have hid : (integer id.toNat).length ≤ 3 :=
    length_decimal_le (by norm_num) (id.toNat_lt.trans (by norm_num))
  have hstart : (ascii "\x7b\"success\": false,\"lambda\":\x7b\"id\":").length = 33 := rfl
  have hend : (ascii (",\"name\":\"unknown\",\"type\":-1,\"cache\":-1\x7d," ++
    "\"error\":")).length = 48 := rfl
  have hlength : (CoapAnswer.unknownId id RS_CALL_NOTFOUND).text.length =
      33 + ((integer id.toNat).length + (48 + (2 + 1))) := by
    rw [CoapAnswer.text, List.length_append, List.length_append, List.length_append,
      List.length_append, length_notFound, hstart]
    exact congrArg (fun n => 33 + (_ + (n + _))) hend
  change _ < 200
  omega

/-! ## The calls -/

/-- The names of a request to `call/name` and its answer fit their arrays. Nothing is printed for
a lambda without a function. -/
def CallNameInside (ev : Evaluators) (b : Board) (name buf : List UInt8)
    (opts : List (CoapOption m)) : Prop :=
  ∃ query, callNameQuery name opts = some query ∧
    ∀ answer, handleCallName ev b query = some answer → (answer.payload buf).isSome

def CallIdInside (ev : Evaluators) (b : Board) (buf : List UInt8) (opts : List (CoapOption m)) :
    Prop :=
  ∃ query, callIdQuery opts = some query ∧
    ∀ answer, handleCallId ev b query = some answer → (answer.payload buf).isSome

/-- What is printed about the lambda that is called, if there is one, has at most 199 characters. -/
def AnswerFits (ev : Evaluators) (b : Board) (type : RsLambdaType) (target : Target) : Prop :=
  ∀ l, b.addressee target = some l →
    if l.type = type then
      l.arg ≠ 0 → ∀ result, evaluation ev l = some result →
        71 + recordLength l + resultLength result < BUF_SIZE
    else 73 + recordLength l < BUF_SIZE

theorem isSome_payload_iff {answer : CoapAnswer} (h : answer.print.isSome) (buf : List UInt8) :
    (answer.payload buf).isSome ↔ answer.text.length < BUF_SIZE := by
  rw [payload_eq h]
  split_ifs with hlt <;> simp [hlt]

theorem answerFits_of_found {target : Target} {l : RsRegisteredLambda FuncPtr}
    (hl : b.addressee target = some l) (type : RsLambdaType) :
    AnswerFits ev b type target ↔
      if l.type = type then
        l.arg ≠ 0 → ∀ result, evaluation ev l = some result →
          71 + recordLength l + resultLength result < BUF_SIZE
      else 73 + recordLength l < BUF_SIZE := by
  simp only [AnswerFits, hl, Option.some.injEq, forall_eq']

theorem Sound.perform_inside_iff (h : b.Sound) {target : Target} {l : RsRegisteredLambda FuncPtr}
    (hl : b.addressee target = some l) (type : RsLambdaType) (buf : List UInt8) :
    (∀ answer, performCoapLambdaCall ev b type l = some answer → (answer.payload buf).isSome) ↔
      AnswerFits ev b type target := by
  have hprint : ∀ result, (CoapAnswer.success l result).print.isSome := fun _ => rfl
  rw [answerFits_of_found hl, h.performCoapLambdaCall_eq (slot_of_addressee h.wf hl)]
  split_ifs with htype hnull
  · exact iff_of_true (fun _ h => by cases h) fun hne => absurd hnull hne
  · rw [forall_prop_of_true hnull]
    constructor
    · intro hall result hresult
      rw [← length_success, ← isSome_payload_iff (hprint result) buf]
      exact hall _ (by rw [hresult, Option.map_some])
    · intro hall answer hanswer
      obtain ⟨result, hresult, rfl⟩ := Option.map_eq_some_iff.mp hanswer
      rw [isSome_payload_iff (hprint result), length_success]
      exact hall result hresult
  · simp only [Option.some.injEq, forall_eq']
    rw [isSome_payload_iff rfl, length_wrongType]

theorem answerFits_of_unknown {target : Target} (h : b.addressee target = none)
    (type : RsLambdaType) : AnswerFits ev b type target := by
  intro l hl
  rw [h] at hl
  cases hl

theorem addressee_cstr (b : Board) (name : List UInt8) :
    b.addressee (.name (cstr name)) = b.addressee (.name name) := by
  change getRegisteredLambdaByName _ _ = getRegisteredLambdaByName _ _
  unfold getRegisteredLambdaByName strEq
  rw [cstr_of_isText (cstr_isText name)]

theorem callNameInside_iff (h : b.Sound) (opts : List (CoapOption m)) (name buf : List UInt8) :
    CallNameInside ev b name buf opts ↔
      (∀ opt ∈ opts, NameFits opt) ∧
        (¬ (askedType opts = 255 ∨ askedType opts = 0) → askedName opts ≠ [] →
          AnswerFits ev b (askedType opts) (.name (askedName opts))) := by
  rcases callNameQuery_cases name opts with ⟨hfit, query, hquery, hreads⟩ | ⟨hno, hnone⟩
  · rw [and_iff_right hfit]
    have honly : CallNameInside ev b name buf opts ↔
        ∀ answer, handleCallName ev b query = some answer → (answer.payload buf).isSome := by
      simp only [CallNameInside, hquery, Option.some.injEq, exists_eq_left']
    have hempty : strlen query.name = 0 ↔ askedName opts = [] := by
      rw [← hreads.name, strlen, List.length_eq_zero_iff]
    rw [honly, handleCallName, hreads.type]
    simp only [hempty]
    split_ifs with htype hname
    · simp [htype, CoapAnswer.payload]
    · simp [hname, CoapAnswer.payload]
    · have htarget : b.addressee (.name (askedName opts)) =
          getRegisteredLambdaByName b.registry query.name := by
        rw [← hreads.name]
        exact addressee_cstr b query.name
      rw [forall_prop_of_true htype, forall_prop_of_true hname]
      cases hfound : getRegisteredLambdaByName b.registry query.name with
      | none =>
        refine iff_of_true ?_ (answerFits_of_unknown (htarget.trans hfound) _)
        simp only [Option.some.injEq, forall_eq']
        rw [isSome_payload_iff rfl]
        exact length_unknownName hreads.ends
      | some l => exact h.perform_inside_iff (htarget.trans hfound) _ buf
  · refine iff_of_false ?_ fun hfit => hno hfit.1
    rintro ⟨query, hquery, -⟩
    rw [hnone] at hquery
    cases hquery

theorem callIdInside_iff (h : b.Sound) (opts : List (CoapOption m)) (buf : List UInt8) :
    CallIdInside ev b buf opts ↔
      (∀ opt ∈ opts, (readOption opt).isSome) ∧
        (¬ (askedType opts = 255 ∨ askedType opts = 0) → askedId opts ≠ 255 →
          AnswerFits ev b (askedType opts) (.id (askedId opts))) := by
  rcases callIdQuery_cases opts with ⟨hall, query, hquery, hreads⟩ | ⟨hno, hnone⟩
  · rw [and_iff_right hall]
    have honly : CallIdInside ev b buf opts ↔
        ∀ answer, handleCallId ev b query = some answer → (answer.payload buf).isSome := by
      simp only [CallIdInside, hquery, Option.some.injEq, exists_eq_left']
    rw [honly, handleCallId, hreads.type, hreads.id]
    split_ifs with htype hid
    · simp [htype, CoapAnswer.payload]
    · simp [hid, CoapAnswer.payload]
    · have htarget : b.addressee (.id (askedId opts)) =
          getRegisteredLambdaById b.registry (askedId opts) := rfl
      rw [forall_prop_of_true htype, forall_prop_of_true hid]
      cases hfound : getRegisteredLambdaById b.registry (askedId opts) with
      | none =>
        refine iff_of_true ?_ (answerFits_of_unknown (htarget.trans hfound) _)
        simp only [Option.some.injEq, forall_eq']
        rw [isSome_payload_iff rfl]
        exact length_unknownId _
      | some l => exact h.perform_inside_iff (htarget.trans hfound) _ buf
  · refine iff_of_false ?_ fun hall => hno hall.1
    rintro ⟨query, hquery, -⟩
    rw [hnone] at hquery
    cases hquery

/-- The calls stay inside `name` and `buf` exactly if every option is read, no requested name has
more than eleven characters, and what is printed about a lambda has at most 199. -/
theorem call_inside_iff {started : Bool} {ops : List (Env × BoardOp)}
    (h : Board.after started ops = some b) (ev : Evaluators) (opts : List (CoapOption m))
    (name buf : List UInt8) :
    (CallNameInside ev b name buf opts ↔
      (∀ opt ∈ opts, NameFits opt) ∧
        (¬ (askedType opts = 255 ∨ askedType opts = 0) → askedName opts ≠ [] →
          AnswerFits ev b (askedType opts) (.name (askedName opts)))) ∧
    (CallIdInside ev b buf opts ↔
      (∀ opt ∈ opts, (readOption opt).isSome) ∧
        (¬ (askedType opts = 255 ∨ askedType opts = 0) → askedId opts ≠ 255 →
          AnswerFits ev b (askedType opts) (.id (askedId opts)))) :=
  ⟨callNameInside_iff (Sound.after h).1 opts name buf, callIdInside_iff (Sound.after h).1 opts buf⟩

/-- An option on its own. -/
def optionOf (text : List UInt8) (h : text.length < 256) : CoapOption .ilp32 :=
  ⟨text, text.length, le_rfl, h.trans (by norm_num [DataModel.ilp32])⟩

/-- `type=1&name=a` and `type=1&id=0` -/
def queryNameA : List (CoapOption .ilp32) :=
  [optionOf (ascii "type=1") (by decide), optionOf (ascii "name=a") (by decide)]

def queryId0 : List (CoapOption .ilp32) :=
  [optionOf (ascii "type=1") (by decide), optionOf (ascii "id=0") (by decide)]

theorem answerFits_withA {target : Target}
    (h : (withA .int 1 RS_CACHE_NO_CACHE).addressee target =
      some (newRecord [] 0 [97] RS_LAMBDA_INT RS_CACHE_NO_CACHE 1)) :
    AnswerFits zeros (withA .int 1 RS_CACHE_NO_CACHE) 1 target := by
  rw [answerFits_of_found h, if_pos (show (newRecord [] 0 [97] RS_LAMBDA_INT RS_CACHE_NO_CACHE
    (1 : FuncPtr)).type = 1 from rfl)]
  rintro - result hresult
  obtain rfl := Option.some.inj hresult
  decide +kernel

/-- `"a"` is called by name and by id within the arrays. -/
theorem call_a_inside :
    CallNameInside zeros (withA .int 1 RS_CACHE_NO_CACHE) [] [] queryNameA ∧
      CallIdInside zeros (withA .int 1 RS_CACHE_NO_CACHE) [] queryId0 := by
  have hafter := after_withA .int (show ¬ (1 = 0 ∧ RS_CACHE_NO_CACHE ≠ RS_CACHE_ONLY) by decide)
  have hread : ∀ opts : List (CoapOption .ilp32), (opts.all fun opt => (readOption opt).isSome) →
      ∀ opt ∈ opts, (readOption opt).isSome := by simp
  constructor
  · refine (call_inside_iff hafter zeros queryNameA [] []).1.mpr
      ⟨fun opt hopt => ⟨hread queryNameA (by decide) opt hopt, ?_⟩, fun _ _ => ?_⟩
    · rcases List.mem_pair.mp hopt with rfl | rfl <;> decide
    · exact answerFits_withA rfl
  · refine (call_inside_iff hafter zeros queryId0 [] []).2.mpr
      ⟨hread queryId0 (by decide), fun _ _ => ?_⟩
    exact answerFits_withA rfl

/-- The function of every string lambda returns 200 letters. -/
def longString : Evaluators := ⟨fun _ _ => 0, fun _ _ => 0, fun _ _ => List.replicate 200 97⟩

/-- A name of twelve characters and a result of 200 leave their arrays. -/
theorem long_name_and_result_overflow :
    (∀ ev b, ¬ CallNameInside ev b [] []
      [optionOf (ascii "type=1") (by decide), optionOf (ascii "name=aaaaaaaaaaaa") (by decide)]) ∧
    ∃ b, Board.after true [({}, .register .string [97] 1 RS_CACHE_NO_CACHE)] = some b ∧
      ¬ CallIdInside longString b []
        [optionOf (ascii "type=3") (by decide), optionOf (ascii "id=0") (by decide)] := by
  have hafter := after_withA .string
    (show ¬ (1 = 0 ∧ RS_CACHE_NO_CACHE ≠ RS_CACHE_ONLY) by decide)
  constructor
  · rintro ev b ⟨query, hquery, -⟩
    have hnone : callNameQuery [] [optionOf (ascii "type=1") (by decide),
        optionOf (ascii "name=aaaaaaaaaaaa") (by decide)] = none := by decide
    rw [hnone] at hquery
    cases hquery
  · refine ⟨_, hafter, fun hinside => ?_⟩
    have hfits := ((callIdInside_iff (Sound.after hafter).1 _ []).mp hinside).2 (by decide)
      (by decide)
    have hfound : (withA .string 1 RS_CACHE_NO_CACHE).addressee (.id 0) =
        some (newRecord [] 0 [97] RS_LAMBDA_STRING RS_CACHE_NO_CACHE 1) := rfl
    have hshort := (answerFits_of_found hfound RS_LAMBDA_STRING).mp hfits
    rw [if_pos (show (newRecord [] 0 [97] RS_LAMBDA_STRING RS_CACHE_NO_CACHE
      (1 : FuncPtr)).type = RS_LAMBDA_STRING from rfl)] at hshort
    exact absurd (hshort (by decide) _ rfl) (by decide +kernel)

end RS.Board
