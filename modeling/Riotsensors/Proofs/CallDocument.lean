import Riotsensors.Proofs.CallResponse
import Riotsensors.Proofs.ListDocument

/-! The board's answers to calls as JSON texts. Names and results are printed between quotes as
they are, so that an answer says what was called and what came of it exactly if none of them needs
an escape. -/

namespace RS.Board

open CMem JsonText Numerals Printf

variable {m : DataModel} {ev : Evaluators} {b : Board}

/-! ## The documents -/

def resultValue : Result → Value
  | .int i => .int i.toInt
  | .double _ => .null
  | .string mem => .string (cstr mem)

/-- The object for a lambda that there is not. -/
def unknownValue (id : ℤ) (name : List UInt8) : Value :=
  .object [(ascii "id", .int id), (ascii "name", .string name), (ascii "type", .int (-1)),
    (ascii "cache", .int (-1))]

def successValue (lambda result : Value) : Value :=
  .object [(ascii "success", .bool true), (ascii "lambda", lambda), (ascii "result", result)]

def failureValue (lambda : Value) (code : Int8) : Value :=
  .object [(ascii "success", .bool false), (ascii "lambda", lambda),
    (ascii "error", .int code.toInt)]

/-! ## The texts -/

theorem complete_lambdaText {l : RsRegisteredLambda FuncPtr} (h : l.Spelled) (ds : List UInt8) :
    complete .between (lambdaText l ++ ds) =
      if l.Terminated then
        (complete .between ds).map (.string (ascii "lambda") :: .colon :: (lambdaValue l).tokens ++ ·)
      else none := by
  have hhead : scan .between (ascii "\"lambda\":\x7b\"id\":") = some ([.string (ascii "lambda"),
    .colon, .opening, .string (ascii "id"), .colon], .between) := rfl
  have hname : ascii ",\"name\":\"" = 44 :: ascii "\"name\":\"" := rfl
  have hname' : scan .between (44 :: ascii "\"name\":\"") =
    some ([.comma, .string (ascii "name"), .colon], .string [] false) := rfl
  rw [lambdaText_append, complete_append hhead, hname, List.cons_append, complete_decimal _ rfl,
    ← List.cons_append, complete_append hname', complete_name h]
  split_ifs
  · cases complete .between ds <;> rfl
  · rfl

theorem complete_closing : complete .between (ascii "\x7d") = some [.closing] := rfl

/-- The code at the end of a failure. -/
theorem complete_code (code : Int8) :
    complete .between (ascii ",\"error\":" ++ (integer code.toInt ++ ascii "\x7d")) =
      some [.comma, .string (ascii "error"), .colon, .int code.toInt, .closing] := by
  have herror : scan .between (ascii ",\"error\":") =
    some ([.comma, .string (ascii "error"), .colon], .between) := rfl
  have hend : ∀ c rest, ascii "\x7d" = c :: rest → wordByte c = false := by
    rintro c rest heq
    rw [← (List.cons.inj heq).1]
    rfl
  rw [complete_append herror, complete_integer _ hend, complete_closing]
  rfl

theorem lex_failure {l : RsRegisteredLambda FuncPtr} (h : l.Spelled) (code : Int8) :
    lex (CoapAnswer.failure l code).text =
      if l.Terminated then some (failureValue (lambdaValue l) code).tokens else none := by
  have hhead : scan .between (ascii "\x7b\"success\": false,") =
    some ([.opening, .string (ascii "success"), .colon, .bool false, .comma], .between) := rfl
  rw [lex_eq_complete, CoapAnswer.text, complete_append hhead, complete_lambdaText h, complete_code]
  split_ifs <;> rfl

theorem lex_unknownId (id : LambdaId) (code : Int8) :
    lex (CoapAnswer.unknownId id code).text =
      some (failureValue (unknownValue id.toNat (ascii "unknown")) code).tokens := by
  have hhead : scan .between (ascii "\x7b\"success\": false,\"lambda\":\x7b\"id\":") =
    some ([.opening, .string (ascii "success"), .colon, .bool false, .comma,
      .string (ascii "lambda"), .colon, .opening, .string (ascii "id"), .colon], .between) := rfl
  have hrest : ascii ",\"name\":\"unknown\",\"type\":-1,\"cache\":-1\x7d,\"error\":" =
    ascii ",\"name\":\"unknown\",\"type\":-1,\"cache\":-1\x7d" ++ ascii ",\"error\":" := rfl
  have hrest' : scan .between (ascii ",\"name\":\"unknown\",\"type\":-1,\"cache\":-1\x7d") =
    some ([.comma, .string (ascii "name"), .colon, .string (ascii "unknown"), .comma,
      .string (ascii "type"), .colon, .int (-1), .comma, .string (ascii "cache"), .colon,
      .int (-1), .closing], .between) := by
    decide +kernel
  rw [lex_eq_complete, CoapAnswer.text, complete_append hhead, complete_integer, hrest,
    List.append_assoc, complete_append hrest', complete_code]
  · rfl
  · rintro c rest heq
    rw [← (List.cons.inj heq).1]
    rfl

theorem map_append_eq_some_iff {ts us : List Token} {x : Option (List Token)} :
    x.map (ts ++ ·) = some (ts ++ us) ↔ x = some us := by
  cases x <;> simp

theorem lex_unknownName_iff (name : List UInt8) (code : Int8) :
    lex (CoapAnswer.unknownName name code).text =
        some (failureValue (unknownValue (-1) (cstr name)) code).tokens ↔ Plain (cstr name) := by
  have hhead : scan .between
      (ascii "\x7b\"success\": false,\"lambda\":\x7b\"id\":-1,\"name\":\"") =
    some ([.opening, .string (ascii "success"), .colon, .bool false, .comma,
      .string (ascii "lambda"), .colon, .opening, .string (ascii "id"), .colon, .int (-1), .comma,
      .string (ascii "name"), .colon], .string [] false) := by
    decide +kernel
  have hrest : ascii "\",\"type\":-1,\"cache\":-1\x7d,\"error\":" =
    34 :: (ascii ",\"type\":-1,\"cache\":-1\x7d" ++ ascii ",\"error\":") := rfl
  have hrest' : scan .between (ascii ",\"type\":-1,\"cache\":-1\x7d") =
    some ([.comma, .string (ascii "type"), .colon, .int (-1), .comma, .string (ascii "cache"),
      .colon, .int (-1), .closing], .between) := by
    decide +kernel
  have hcomplete : complete .between (ascii ",\"type\":-1,\"cache\":-1\x7d" ++
      (ascii ",\"error\":" ++ (integer code.toInt ++ ascii "\x7d"))) =
    some [.comma, .string (ascii "type"), .colon, .int (-1), .comma, .string (ascii "cache"),
      .colon, .int (-1), .closing, .comma, .string (ascii "error"), .colon, .int code.toInt,
      .closing] := by
    rw [complete_append hrest', complete_code]
    rfl
  have htokens : (failureValue (unknownValue (-1) (cstr name)) code).tokens =
    ([.opening, .string (ascii "success"), .colon, .bool false, .comma,
      .string (ascii "lambda"), .colon, .opening, .string (ascii "id"), .colon, .int (-1), .comma,
      .string (ascii "name"), .colon] : List Token) ++ (.string (cstr name) :: ([.comma,
      .string (ascii "type"), .colon, .int (-1), .comma, .string (ascii "cache"), .colon, .int (-1),
      .closing, .comma, .string (ascii "error"), .colon, .int code.toInt, .closing] :
      List Token)) := rfl
  rw [lex_eq_complete, CoapAnswer.text, complete_append hhead, htokens, map_append_eq_some_iff,
    hrest, List.cons_append, List.append_assoc]
  exact (complete_string_iff fun _ => ⟨_, rfl⟩).trans (and_iff_left hcomplete)

theorem complete_result_iff {result : Result} (hdouble : ∀ d, result ≠ .double d) :
    complete .between (resultText result ++ ascii "\x7d") =
        some ((resultValue result).tokens ++ [.closing]) ↔
      ∀ mem, result = .string mem → Plain (cstr mem) := by
  cases result with
  | int i =>
    refine iff_of_true ?_ fun mem h => by cases h
    rw [resultText, complete_integer, complete_closing]
    · rfl
    · rintro c rest heq
      rw [← (List.cons.inj heq).1]
      rfl
  | double d => exact absurd rfl (hdouble d)
  | string mem =>
    have hquote : scan .between (ascii "\"") = some ([], .string [] false) := rfl
    have hclosing : complete .between [125] = some [.closing] := rfl
    rw [resultText, List.append_assoc, complete_append hquote, List.append_assoc]
    change (complete (.string [] false) (cstr mem ++ 34 :: [125])).map ([] ++ ·) =
      some ([] ++ .string (cstr mem) :: [.closing]) ↔ _
    rw [map_append_eq_some_iff, complete_string_iff (by simp), hclosing, and_iff_left rfl]
    exact ⟨fun h mem' heq => by cases heq; exact h, fun h => h mem rfl⟩

theorem lex_success_iff {l : RsRegisteredLambda FuncPtr} (h : l.Spelled) {result : Result}
    (hdouble : ∀ d, result ≠ .double d) :
    lex (CoapAnswer.success l result).text =
        some (successValue (lambdaValue l) (resultValue result)).tokens ↔
      l.Terminated ∧ ∀ mem, result = .string mem → Plain (cstr mem) := by
  have hhead : scan .between (ascii "\x7b\"success\": true,") =
    some ([.opening, .string (ascii "success"), .colon, .bool true, .comma], .between) := rfl
  have hresult : scan .between (ascii ",\"result\":") =
    some ([.comma, .string (ascii "result"), .colon], .between) := rfl
  have htokens : (successValue (lambdaValue l) (resultValue result)).tokens =
    ([.opening, .string (ascii "success"), .colon, .bool true, .comma] : List Token) ++
      ((.string (ascii "lambda") :: .colon :: (lambdaValue l).tokens : List Token) ++
        (([.comma, .string (ascii "result"), .colon] : List Token) ++
          ((resultValue result).tokens ++ [.closing]))) := rfl
  rw [lex_eq_complete, CoapAnswer.text, complete_append hhead, complete_lambdaText h,
    complete_append hresult, htokens, map_append_eq_some_iff]
  split_ifs with hlt
  · rw [map_append_eq_some_iff, map_append_eq_some_iff, complete_result_iff hdouble,
      and_iff_right hlt]
  · exact iff_of_false (fun h => by cases h) fun h => hlt h.1

/-! ## The calls -/

/-- The `lambda` of an answer if nothing is registered under the target. -/
def unregisteredValue : Target → Value
  | .id id => unknownValue id.toNat (ascii "unknown")
  | .name name => unknownValue (-1) name

/-- The document that says what came of a call. -/
def outcome (ev : Evaluators) (b : Board) (type : RsLambdaType) (target : Target) : Value :=
  match b.addressee target with
  | none => failureValue (unregisteredValue target) RS_CALL_NOTFOUND
  | some l =>
    if l.type = type then
      successValue (lambdaValue l) (((evaluation ev l).map resultValue).getD .null)
    else failureValue (lambdaValue l) RS_CALL_WRONGTYPE

/-- The call has an integer or a string as its result, or none. -/
def NoDouble (ev : Evaluators) (b : Board) (type : RsLambdaType) (target : Target) : Prop :=
  ∀ l d, b.addressee target = some l → l.type = type → evaluation ev l ≠ some (.double d)

/-- What is printed between quotes stands for itself there. -/
structure PrintsPlain (ev : Evaluators) (b : Board) (type : RsLambdaType) (target : Target) :
    Prop where
  /-- The name is not read on into the bytes behind its field. -/
  terminated : ∀ l, b.addressee target = some l → l.Terminated
  result : ∀ l mem, b.addressee target = some l → l.type = type →
    evaluation ev l = some (.string mem) → Plain (cstr mem)
  requested : ∀ name, target = .name name → b.addressee target = none → Plain name

theorem outcome_of_unknown {target : Target} (h : b.addressee target = none)
    (type : RsLambdaType) :
    outcome ev b type target = failureValue (unregisteredValue target) RS_CALL_NOTFOUND := by
  rw [outcome, h]

theorem printsPlain_of_unknown {target : Target} (h : b.addressee target = none)
    (type : RsLambdaType) :
    PrintsPlain ev b type target ↔ ∀ name, target = .name name → Plain name := by
  refine ⟨fun hplain name hname => hplain.requested name hname h, fun hplain => ⟨?_, ?_, ?_⟩⟩
  · intro l hl
    rw [h] at hl
    cases hl
  · intro l mem hl
    rw [h] at hl
    cases hl
  · exact fun name hname _ => hplain name hname

theorem outcome_of_found {target : Target} {l : RsRegisteredLambda FuncPtr}
    (hl : b.addressee target = some l) (type : RsLambdaType) :
    outcome ev b type target =
      if l.type = type then
        successValue (lambdaValue l) (((evaluation ev l).map resultValue).getD .null)
      else failureValue (lambdaValue l) RS_CALL_WRONGTYPE := by
  rw [outcome, hl]

theorem printsPlain_of_found {target : Target} {l : RsRegisteredLambda FuncPtr}
    (hl : b.addressee target = some l) (type : RsLambdaType) :
    PrintsPlain ev b type target ↔ l.Terminated ∧ (l.type = type → ∀ mem,
      evaluation ev l = some (.string mem) → Plain (cstr mem)) := by
  constructor
  · exact fun h => ⟨h.terminated l hl, fun htype mem => h.result l mem hl htype⟩
  · rintro ⟨hterminated, hresult⟩
    refine ⟨fun l' hl' => ?_, fun l' mem hl' => ?_, fun _ _ hnone => ?_⟩
    · rwa [← Option.some.inj (hl.symm.trans hl')]
    · rw [← Option.some.inj (hl.symm.trans hl')]
      exact fun htype => hresult htype mem
    · rw [hl] at hnone
      cases hnone

/-- What is sent of an answer is its text. -/
theorem body_of_payload {answer : CoapAnswer} (h : answer.print.isSome) {buf body : List UInt8}
    (hbody : answer.payload buf = some body) : body = answer.text := by
  rw [payload_eq h] at hbody
  split_ifs at hbody
  exact (Option.some.inj hbody).symm

theorem perform_decodes_iff (h : b.Sound) {target : Target} {l : RsRegisteredLambda FuncPtr}
    (hl : b.addressee target = some l) (hspelled : l.Spelled) {type : RsLambdaType}
    (hdouble : NoDouble ev b type target) {answer : CoapAnswer} {buf body : List UInt8}
    (hanswer : performCoapLambdaCall ev b type l = some answer)
    (hbody : answer.payload buf = some body) :
    parse body = some (outcome ev b type target) ↔ PrintsPlain ev b type target := by
  rw [h.performCoapLambdaCall_eq (slot_of_addressee h.wf hl)] at hanswer
  rw [outcome_of_found hl, printsPlain_of_found hl]
  split_ifs at hanswer ⊢ with htype hnull
  · obtain ⟨result, hresult, rfl⟩ := Option.map_eq_some_iff.mp hanswer
    have hkind : ∀ d, result ≠ .double d := by
      rintro d rfl
      exact hdouble l d hl htype hresult
    rw [body_of_payload rfl hbody, parse_eq_some_iff, hresult, Option.map_some, Option.getD_some,
      lex_success_iff hspelled hkind, forall_prop_of_true htype]
    simp only [Option.some.injEq]
  · obtain rfl := Option.some.inj hanswer
    rw [body_of_payload rfl hbody, parse_eq_some_iff, lex_failure hspelled,
      and_iff_left fun heq => absurd heq htype]
    split_ifs with hterminated
    · exact iff_of_true rfl hterminated
    · exact iff_of_false (fun h => by cases h) hterminated

/-- What `handle_call_name` has read of the options of a request that it answers. -/
theorem reads_of_respondCallName {opts : List (CoapOption m)} {name buf body : List UInt8}
    (h : respondCallName ev b name buf opts = some body) :
    ∃ query answer, ReadsName opts query ∧ handleCallName ev b query = some answer ∧
      answer.payload buf = some body := by
  obtain ⟨query, hquery, h⟩ := Option.bind_eq_some_iff.mp h
  obtain ⟨answer, hanswer, hbody⟩ := Option.bind_eq_some_iff.mp h
  rcases callNameQuery_cases name opts with ⟨-, query', hquery', hreads⟩ | ⟨-, hnone⟩
  · obtain rfl := Option.some.inj (hquery.symm.trans hquery')
    exact ⟨query, answer, hreads, hanswer, hbody⟩
  · rw [hquery] at hnone
    cases hnone

theorem reads_of_respondCallId {opts : List (CoapOption m)} {buf body : List UInt8}
    (h : respondCallId ev b buf opts = some body) :
    ∃ query answer, ReadsId opts query ∧ handleCallId ev b query = some answer ∧
      answer.payload buf = some body := by
  obtain ⟨query, hquery, h⟩ := Option.bind_eq_some_iff.mp h
  obtain ⟨answer, hanswer, hbody⟩ := Option.bind_eq_some_iff.mp h
  rcases callIdQuery_cases opts with ⟨-, query', hquery', hreads⟩ | ⟨-, hnone⟩
  · obtain rfl := Option.some.inj (hquery.symm.trans hquery')
    exact ⟨query, answer, hreads, hanswer, hbody⟩
  · rw [hquery] at hnone
    cases hnone

theorem callName_decodes_iff (h : b.Sound) (hspelled : ∀ i l, b.registry.slot i = some l → l.Spelled)
    {opts : List (CoapOption m)} (htype : ¬ (askedType opts = 255 ∨ askedType opts = 0))
    (hname : askedName opts ≠ [])
    (hdouble : NoDouble ev b (askedType opts) (.name (askedName opts)))
    {name buf body : List UInt8} (hbody : respondCallName ev b name buf opts = some body) :
    parse body = some (outcome ev b (askedType opts) (.name (askedName opts))) ↔
      PrintsPlain ev b (askedType opts) (.name (askedName opts)) := by
  obtain ⟨query, answer, hreads, hanswer, hbody⟩ := reads_of_respondCallName hbody
  have hempty : strlen query.name ≠ 0 := by
    rw [strlen, Ne, List.length_eq_zero_iff, hreads.name]
    exact hname
  have htarget : b.addressee (.name (askedName opts)) =
      getRegisteredLambdaByName b.registry query.name := by
    rw [← hreads.name]
    exact addressee_cstr b query.name
  rw [handleCallName, hreads.type, if_neg htype, if_neg hempty] at hanswer
  cases hfound : getRegisteredLambdaByName b.registry query.name with
  | none =>
    rw [hfound] at hanswer htarget
    obtain rfl := Option.some.inj hanswer
    rw [body_of_payload rfl hbody, parse_eq_some_iff, outcome_of_unknown htarget,
      printsPlain_of_unknown htarget, unregisteredValue, ← hreads.name, lex_unknownName_iff]
    simp only [Target.name.injEq, forall_eq']
  | some l =>
    rw [hfound] at hanswer htarget
    have hslot := slot_of_addressee h.wf htarget
    exact perform_decodes_iff h htarget (hspelled _ l hslot) hdouble hanswer hbody

theorem callId_decodes_iff (h : b.Sound) (hspelled : ∀ i l, b.registry.slot i = some l → l.Spelled)
    {opts : List (CoapOption m)} (htype : ¬ (askedType opts = 255 ∨ askedType opts = 0))
    (hid : askedId opts ≠ 255) (hdouble : NoDouble ev b (askedType opts) (.id (askedId opts)))
    {buf body : List UInt8} (hbody : respondCallId ev b buf opts = some body) :
    parse body = some (outcome ev b (askedType opts) (.id (askedId opts))) ↔
      PrintsPlain ev b (askedType opts) (.id (askedId opts)) := by
  obtain ⟨query, answer, hreads, hanswer, hbody⟩ := reads_of_respondCallId hbody
  have htarget : b.addressee (.id (askedId opts)) =
      getRegisteredLambdaById b.registry (askedId opts) := rfl
  rw [handleCallId, hreads.type, hreads.id, if_neg htype, if_neg hid] at hanswer
  cases hfound : getRegisteredLambdaById b.registry (askedId opts) with
  | none =>
    rw [hfound] at hanswer htarget
    obtain rfl := Option.some.inj hanswer
    rw [body_of_payload rfl hbody, parse_eq_some_iff, outcome_of_unknown htarget,
      printsPlain_of_unknown htarget, unregisteredValue, lex_unknownId]
    exact iff_of_true rfl fun name hname => by cases hname
  | some l =>
    rw [hfound] at hanswer htarget
    have hslot := slot_of_addressee h.wf htarget
    exact perform_decodes_iff h htarget (hspelled _ l hslot) hdouble hanswer hbody

/-- An answer that fits `buf` is the document that says what was called and what came of it
exactly if nothing in it needs an escape and the lambda's name is shorter than its field. -/
theorem call_decodes_iff {started : Bool} {ops : List (Env × BoardOp)}
    (h : Board.after started ops = some b) (ev : Evaluators) (opts : List (CoapOption m))
    (htype : ¬ (askedType opts = 255 ∨ askedType opts = 0)) :
    (askedName opts ≠ [] → NoDouble ev b (askedType opts) (.name (askedName opts)) →
      ∀ name buf body, respondCallName ev b name buf opts = some body →
        (parse body = some (outcome ev b (askedType opts) (.name (askedName opts))) ↔
          PrintsPlain ev b (askedType opts) (.name (askedName opts)))) ∧
    (askedId opts ≠ 255 → NoDouble ev b (askedType opts) (.id (askedId opts)) →
      ∀ buf body, respondCallId ev b buf opts = some body →
        (parse body = some (outcome ev b (askedType opts) (.id (askedId opts))) ↔
          PrintsPlain ev b (askedType opts) (.id (askedId opts)))) := by
  have hsound := (Sound.after h).1
  have hspelled := spelled_after h
  constructor
  · intro hname hdouble name buf body hbody
    exact callName_decodes_iff hsound hspelled htype hname hdouble hbody
  · intro hid hdouble buf body hbody
    exact callId_decodes_iff hsound hspelled htype hid hdouble hbody

theorem printsPlain_withA {target : Target}
    (h : (withA .int 1 RS_CACHE_NO_CACHE).addressee target =
      some (newRecord [] 0 [97] RS_LAMBDA_INT RS_CACHE_NO_CACHE 1)) :
    PrintsPlain zeros (withA .int 1 RS_CACHE_NO_CACHE) 1 target :=
  (printsPlain_of_found h 1).mpr ⟨by decide, fun _ mem heq => by cases heq⟩

theorem noDouble_withA {target : Target}
    (h : (withA .int 1 RS_CACHE_NO_CACHE).addressee target =
      some (newRecord [] 0 [97] RS_LAMBDA_INT RS_CACHE_NO_CACHE 1)) :
    NoDouble zeros (withA .int 1 RS_CACHE_NO_CACHE) 1 target := by
  intro l d hl _ heq
  obtain rfl := Option.some.inj (h.symm.trans hl)
  cases heq

/-- The answers about `"a"`, called by name and by id. -/
theorem call_a_decodes :
    (∃ body, respondCallName zeros (withA .int 1 RS_CACHE_NO_CACHE) [] [] queryNameA = some body ∧
      parse body = some (outcome zeros (withA .int 1 RS_CACHE_NO_CACHE) 1 (.name [97]))) ∧
    ∃ body, respondCallId zeros (withA .int 1 RS_CACHE_NO_CACHE) [] queryId0 = some body ∧
      parse body = some (outcome zeros (withA .int 1 RS_CACHE_NO_CACHE) 1 (.id 0)) := by
  have hafter := after_withA .int (show ¬ (1 = 0 ∧ RS_CACHE_NO_CACHE ≠ RS_CACHE_ONLY) by decide)
  obtain ⟨body, hbody⟩ := Option.isSome_iff_exists.mp (show (respondCallName zeros
    (withA .int 1 RS_CACHE_NO_CACHE) [] [] queryNameA).isSome by decide +kernel)
  obtain ⟨body', hbody'⟩ := Option.isSome_iff_exists.mp (show (respondCallId zeros
    (withA .int 1 RS_CACHE_NO_CACHE) [] queryId0).isSome by decide +kernel)
  refine ⟨⟨body, hbody, ?_⟩, body', hbody', ?_⟩
  · exact ((call_decodes_iff hafter zeros queryNameA (by decide)).1 (by decide)
      (noDouble_withA rfl) [] [] body hbody).mpr (printsPlain_withA rfl)
  · exact ((call_decodes_iff hafter zeros queryId0 (by decide)).2 (by decide)
      (noDouble_withA rfl) [] body' hbody').mpr (printsPlain_withA rfl)

/-- The function of every string lambda returns `a"b`. -/
def quoted : Evaluators := ⟨fun _ _ => 0, fun _ _ => 0, fun _ _ => [97, 34, 98, 0]⟩

/-- A quote in a result, or in a name that is not registered, ends the string. -/
theorem quote_no_document :
    ∃ b, Board.after true [({}, .register .string [97] 1 RS_CACHE_NO_CACHE)] = some b ∧
      (∃ body, respondCallId quoted b []
          [optionOf (ascii "type=3") (by decide), optionOf (ascii "id=0") (by decide)] = some body ∧
        parse body = none) ∧
      ∃ body, respondCallName quoted b [] []
          [optionOf (ascii "type=3") (by decide), optionOf (ascii "name=a\"b") (by decide)] =
            some body ∧
        parse body = none := by
  refine ⟨_, after_withA .string (by decide), ?_, ?_⟩
  · have hread : (respondCallId quoted (withA .string 1 RS_CACHE_NO_CACHE) []
        [optionOf (ascii "type=3") (by decide), optionOf (ascii "id=0") (by decide)]).map
          (fun body => (parse body).isNone) = some true := by
      decide +kernel
    obtain ⟨body, hbody, hnone⟩ := Option.map_eq_some_iff.mp hread
    exact ⟨body, hbody, Option.isNone_iff_eq_none.mp hnone⟩
  · have hread : (respondCallName quoted (withA .string 1 RS_CACHE_NO_CACHE) [] []
        [optionOf (ascii "type=3") (by decide), optionOf (ascii "name=a\"b") (by decide)]).map
          (fun body => (parse body).isNone) = some true := by
      decide +kernel
    obtain ⟨body, hbody, hnone⟩ := Option.map_eq_some_iff.mp hread
    exact ⟨body, hbody, Option.isNone_iff_eq_none.mp hnone⟩

end RS.Board
