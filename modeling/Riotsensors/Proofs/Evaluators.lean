import Riotsensors.Sanity.Requests

/-! Which function pointers the board calls. A registration takes `NULL` only for
`RS_CACHE_ONLY`, but no path to an evaluation looks at the cache policy. -/

namespace RS

open CMem

namespace Board

/-- A live lambda that the request asks for, in its own type, was registered with a
function. -/
def HasEvaluator (b : Board) (request : CallRequest) : Prop :=
  ∀ target type l, request.asks = some (target, type) → b.addressee target = some l →
    l.type = type → ¬ (l.cache = RS_CACHE_ONLY ∧ l.arg = 0)

variable {ev : Evaluators} {b : Board}

/-- A request calls `NULL` exactly if the lambda that it asks for has no function. -/
theorem Sound.callsNull_iff (h : b.Sound) (request : CallRequest) :
    b.CallsNull ev request ↔ ¬ b.HasEvaluator request := by
  cases hasks : request.asks with
  | none =>
    have hhas : b.HasEvaluator request := fun target type l hread => by
      rw [hasks] at hread
      cases hread
    simp [not_callsNull_of_refused hasks, hhas]
  | some asked =>
    rcases asked with ⟨target, type⟩
    rw [callsNull_of_asks hasks]
    constructor
    · rintro ⟨kind, id, hkind, hid, hnone⟩ hhas
      obtain ⟨l, hl, htype, harg⟩ := (Board.call_eq_none_iff _ _).mp hnone
      have hslot : b.registry.slot id.toNat = some l := (h.wf.getById id).symm.trans hl
      refine hhas target type l hasks ((addressee_of_resolve h.wf hid).trans hl) ?_ ?_
      · rw [htype, LambdaKind.of_ofType hkind]
      · exact ⟨h.guarded _ l hslot harg, harg⟩
    · intro hnot
      simp only [HasEvaluator, hasks, not_forall, not_not] at hnot
      obtain ⟨_, _, l, heq, hl, htype, -, harg⟩ := hnot
      obtain ⟨rfl, rfl⟩ := Prod.mk.inj (Option.some.inj heq)
      obtain ⟨kind, hkind⟩ := h.typed _ l (slot_of_addressee h.wf hl)
      have hid := resolve_of_addressee h.wf hl
      refine ⟨kind, l.id, ?_, hid, (Board.call_eq_none_iff _ _).mpr ⟨l, ?_, hkind, harg⟩⟩
      · rw [← htype, hkind, LambdaKind.ofType_type]
      · rw [← addressee_of_resolve h.wf hid, hl]

/-! ## What an entry point does with `NULL` -/

theorem call_eq_none_iff_callsNull (kind : LambdaKind) (id : LambdaId) :
    b.call ev kind id = none ↔ b.CallsNull ev (.api kind id) := by
  have hasks : (CallRequest.api kind id).asks = some (.id id, kind.type) := rfl
  simp [callsNull_of_asks hasks, resolve]

/-- The lookup by name comes first; its record is then looked up again by its id. -/
theorem found_by_name_iff (hwf : b.registry.WF) {name : List UInt8} {P : LambdaId → Prop} :
    (∃ id, b.resolve (.name name) = some id ∧ P id) ↔
      ∃ l, getRegisteredLambdaByName b.registry name = some l ∧ P l.id := by
  cases hl : getRegisteredLambdaByName b.registry name with
  | none =>
    have h255 := (getLambdaIdFromName_eq_sentinel hwf name).mpr hl
    simp [resolve, h255]
  | some l =>
    have haddressee : b.addressee (.name name) = some l := hl
    simp [resolve_of_addressee hwf haddressee]

theorem callByName_eq_none_iff (hwf : b.registry.WF) (kind : LambdaKind) (name : List UInt8) :
    b.callByName ev kind name = none ↔ b.CallsNull ev (.apiByName kind name) := by
  have hasks : (CallRequest.apiByName kind name).asks = some (.name name, kind.type) := rfl
  rw [callsNull_of_asks hasks, callByName]
  simp only [LambdaKind.ofType_type, Option.some.injEq, exists_eq_left', exists_and_left,
    found_by_name_iff hwf]
  cases getRegisteredLambdaByName b.registry name <;> simp

theorem performCoapLambdaCall_eq_none_iff (type : RsLambdaType) (l : RsRegisteredLambda FuncPtr) :
    performCoapLambdaCall ev b type l = none ↔
      ∃ kind, LambdaKind.ofType type = some kind ∧ b.call ev kind l.id = none := by
  unfold performCoapLambdaCall
  cases LambdaKind.ofType type <;> simp

theorem handleCallName_eq_none_iff (hwf : b.registry.WF) (query : CoapQuery) :
    handleCallName ev b query = none ↔ b.CallsNull ev (.coapName query) := by
  unfold handleCallName
  split_ifs with htype hname
  · have hasks : (CallRequest.coapName query).asks = none := if_pos (by tauto)
    simp [not_callsNull_of_refused hasks]
  · have hasks : (CallRequest.coapName query).asks = none := if_pos (by tauto)
    simp [not_callsNull_of_refused hasks]
  · have hasks : (CallRequest.coapName query).asks = some (.name query.name, query.type) :=
      if_neg (by tauto)
    rw [callsNull_of_asks hasks]
    simp only [exists_and_left, found_by_name_iff hwf]
    cases getRegisteredLambdaByName b.registry query.name with
    | none => simp
    | some l => simp [performCoapLambdaCall_eq_none_iff]

theorem handleCallId_eq_none_iff (hwf : b.registry.WF) (query : CoapQuery) :
    handleCallId ev b query = none ↔ b.CallsNull ev (.coapId query) := by
  unfold handleCallId
  split_ifs with htype hid
  · have hasks : (CallRequest.coapId query).asks = none := if_pos (by tauto)
    simp [not_callsNull_of_refused hasks]
  · have hasks : (CallRequest.coapId query).asks = none := if_pos (by tauto)
    simp [not_callsNull_of_refused hasks]
  · have hasks : (CallRequest.coapId query).asks = some (.id query.id, query.type) :=
      if_neg (by tauto)
    rw [callsNull_of_asks hasks]
    cases hl : getRegisteredLambdaById b.registry query.id with
    | none => simp [resolve, Board.call_eq_none_iff, hl]
    | some l =>
      have hid : l.id = query.id :=
        UInt8.toNat_inj.mp (hwf.ids _ l ((hwf.getById query.id).symm.trans hl))
      simp [resolve, performCoapLambdaCall_eq_none_iff, hid]

/-- A packet that makes the board call `NULL` is not answered. -/
theorem handleReceivedPacket_of_callsNull {o : ByteOrder} {env : Env} {packet : Packet}
    (h : b.CallsNull ev (.packet env packet)) :
    handleReceivedPacket o env ev b packet = none := by
  obtain ⟨kind, id, hfor, hnone⟩ := h
  rw [handleReceivedPacket_callFor, hfor]
  simp only [hnone, Option.bind_none]

/-- On every board that its API leads to, a request calls no `NULL` exactly if the lambda
that it asks for has a function. Where one does, its entry point is undefined: that of a packet,
of `call_lambda_*` and `call_lambda_*_by_name`, and of the two CoAP handlers. -/
theorem calls_no_null_iff {started : Bool} {ops : List (Env × BoardOp)}
    (h : Board.after started ops = some b) (ev : Evaluators) :
    (∀ request, ¬ b.CallsNull ev request ↔ b.HasEvaluator request) ∧
    (∀ o env packet, b.CallsNull ev (.packet env packet) →
      handleReceivedPacket o env ev b packet = none) ∧
    (∀ kind id, b.call ev kind id = none ↔ b.CallsNull ev (.api kind id)) ∧
    (∀ kind name, b.callByName ev kind name = none ↔ b.CallsNull ev (.apiByName kind name)) ∧
    (∀ query, handleCallName ev b query = none ↔ b.CallsNull ev (.coapName query)) ∧
    ∀ query, handleCallId ev b query = none ↔ b.CallsNull ev (.coapId query) := by
  have hsound := (Sound.after h).1
  refine ⟨fun request => ?_, fun _ _ _ => handleReceivedPacket_of_callsNull,
    call_eq_none_iff_callsNull, callByName_eq_none_iff hsound.wf,
    handleCallName_eq_none_iff hsound.wf, handleCallId_eq_none_iff hsound.wf⟩
  rw [hsound.callsNull_iff, not_not]

theorem calls_no_null_iff_registered :
    ¬ (withA .int 1 RS_CACHE_NO_CACHE).CallsNull zeros (.api .int 0) ↔
      (withA .int 1 RS_CACHE_NO_CACHE).HasEvaluator (.api .int 0) :=
  (calls_no_null_iff (after_withA .int (by decide)) zeros).1 _

/-- `register_lambda_int("a", NULL, RS_CACHE_ONLY)`, then a call packet for it by id. -/
theorem null_is_called : ¬ ∀ (started : Bool) (ops : List (Env × BoardOp)) (b : Board)
    (ev : Evaluators) (request : CallRequest), Board.after started ops = some b →
    ¬ b.CallsNull ev request := by
  intro h
  refine h true _ (withA .int 0 RS_CACHE_ONLY) zeros (.packet {} [3, 0, 1])
    (after_withA .int (by decide)) ⟨.int, 0, ?_, ?_⟩
  · rfl
  · exact (Board.call_eq_none_iff _ _).mpr ⟨_, rfl, rfl, rfl⟩

end Board

end RS
