import Riotsensors.Proofs.Strings
import Riotsensors.Sanity.Link
import Riotsensors.Sanity.Pack
import Riotsensors.Sanity.Requests

/-! Call packets and their replies: one for each, as long as the packet with the value can
be built. -/

namespace RS

open CMem

namespace Board

/-- What Linux reads in the reply to a call of `id` as a `kind`. -/
def RepliesTo (ev : Evaluators) (b : Board) (id : LambdaId) (kind : LambdaKind) (m : Message) :
    Prop :=
  match getRegisteredLambdaById b.registry id with
  | none => m = .error id RS_CALL_NOTFOUND
  | some l =>
    if l.type ≠ kind.type then m = .error id RS_CALL_WRONGTYPE
    else
      match kind with
      | .int => m = .result id (.retI (ev.int l.arg id)) false
      | .double => ∃ d, m = .result id (.retD d) false
      | .string => ∃ block, m = .result id (.retS block) true

/-- The board sends exactly the reply to a call packet whose lambda it can resolve, and
nothing for any other packet. -/
def Answered (o : ByteOrder) (env : Env) (ev : Evaluators) (b : Board) (packet : Packet) : Prop :=
  match b.callFor (.packet env packet) with
  | none => handleReceivedPacket o env ev b packet = some Served.nothing
  | some (kind, id) => ∃ reply invoked,
      handleReceivedPacket o env ev b packet = some ⟨[reply], invoked⟩ ∧
      ∀ lenv, b.RepliesTo ev id kind (Linux.readPacket o lenv reply)

/-- The packet with the value of the lambda's function can be built: the name, as it is
read off the record, ends inside the object, the value is not infinite, the string is
empty. -/
def Packs (ev : Evaluators) (l : RsRegisteredLambda FuncPtr) : LambdaKind → Prop
  | .int => BASE_NAME + strlen l.nameMem < SIZEOF_RS_PACKET_LAMBDA_RESULT_INT
  | .double => BASE_NAME + strlen l.nameMem < SIZEOF_RS_PACKET_LAMBDA_RESULT_DOUBLE ∧
      ¬ Binary64.Infinite (ev.double l.arg l.id)
  | .string => StringFits l (ev.string l.arg l.id)

/-- The packet does not ask for a live lambda, in its own type, whose value cannot be
packed. -/
def CanAnswer (env : Env) (ev : Evaluators) (b : Board) (packet : Packet) : Prop :=
  ∀ target kind l, readCall env packet = some (target, LambdaKind.type kind) →
    b.addressee target = some l → l.type = kind.type → Packs ev l kind

variable {o : ByteOrder} {env : Env} {ev : Evaluators} {b : Board}

/-- The packet of `send_result_lambda_*`. -/
def resultPacket (o : ByteOrder) (env : Env) (l : RsRegisteredLambda FuncPtr) :
    Result → Option Packet
  | .int result => resultIntPacket o env l result
  | .double result => resultDoublePacket o env l result
  | .string result => resultStringPacket o env l result

theorem sendResult_of_live {id : LambdaId} {l : RsRegisteredLambda FuncPtr} {kind : LambdaKind}
    (hl : getRegisteredLambdaById b.registry id = some l) (htype : l.type = kind.type)
    (hup : b.rsSptStarted = true) (p : FuncPtr) (i : LambdaId) :
    b.sendResult o env id (ev.result kind p i) =
      (resultPacket o env l (ev.result kind p i)).map fun pkt => (RS_RESULT_SUCCESS, [pkt]) := by
  have hsend : ∀ (type : RsLambdaType) (packet : RsRegisteredLambda FuncPtr → Option Packet),
      l.type = type → sendResultLambda type packet b id =
        (packet l).map fun pkt => (RS_RESULT_SUCCESS, [pkt]) := by
    rintro type packet rfl
    simp only [sendResultLambda, hl, ne_eq, not_true_eq_false, if_false, hup, if_true]
    cases packet l <;> rfl
  cases kind with
  | int => exact hsend RS_LAMBDA_INT _ htype
  | double => exact hsend RS_LAMBDA_DOUBLE _ htype
  | string => exact hsend RS_LAMBDA_STRING _ htype

/-- A live lambda of the requested type is evaluated, and the packet with its value sent. -/
theorem answer_of_live {id : LambdaId} {l : RsRegisteredLambda FuncPtr} {kind : LambdaKind}
    (hl : getRegisteredLambdaById b.registry id = some l) (htype : l.type = kind.type)
    (harg : l.arg ≠ 0) (hup : b.rsSptStarted = true) :
    (b.call ev kind id).bind (b.answer o env id) =
      (resultPacket o env l (ev.result kind l.arg id)).map fun pkt => ⟨[pkt], some l⟩ := by
  simp only [call_eq, callLambda, hl, htype, ne_eq, not_true_eq_false, if_false, harg,
    Option.bind_some, answer, sendResult_of_live hl htype hup]
  cases resultPacket o env l (ev.result kind l.arg id) <;> rfl

/-- Any other call is answered with the code of the check that failed. -/
theorem answer_of_refused (o : ByteOrder) (env : Env) {id : LambdaId} {kind : LambdaKind}
    {code : Int8}
    (hcall : b.call ev kind id = some ⟨code, none, none⟩) (hup : b.rsSptStarted = true) :
    ∃ pkt, (b.call ev kind id).bind (b.answer o env id) = some ⟨[pkt], none⟩ ∧
      ∀ o lenv, Linux.readPacket o lenv pkt = .error id code := by
  obtain ⟨pkt, hpkt, hread⟩ := Linux.readPacket_resultError env id code
  refine ⟨pkt, ?_, hread⟩
  simp [hcall, answer, sendCallError, hup, hpkt]

/-- The packet of a value exists exactly where it fits, and is then read as the value's
kind. -/
theorem resultPacket_iff (o : ByteOrder) (env : Env) {l : RsRegisteredLambda FuncPtr}
    {kind : LambdaKind}
    (hl : getRegisteredLambdaById b.registry l.id = some l) (htype : l.type = kind.type) :
    (∃ pkt, resultPacket o env l (ev.result kind l.arg l.id) = some pkt ∧
      ∀ lenv, b.RepliesTo ev l.id kind (Linux.readPacket o lenv pkt)) ↔ Packs ev l kind := by
  have hreplies : ∀ m, b.RepliesTo ev l.id kind m ↔ match kind with
      | .int => m = .result l.id (.retI (ev.int l.arg l.id)) false
      | .double => ∃ d, m = .result l.id (.retD d) false
      | .string => ∃ block, m = .result l.id (.retS block) true := by
    intro m
    simp only [RepliesTo, hl, htype, ne_eq, not_true_eq_false, if_false]
    cases kind <;> exact Iff.rfl
  simp only [hreplies]
  cases kind with
  | int =>
    constructor
    · rintro ⟨pkt, hpkt, -⟩
      by_contra hlong
      have hnone := resultIntPacket_none (not_lt.mp hlong) o env (ev.int l.arg l.id)
      exact absurd (hpkt.symm.trans hnone) (by simp)
    · intro hfits
      exact Linux.readPacket_resultInt hfits o env _
  | double =>
    constructor
    · rintro ⟨pkt, hpkt, -⟩
      by_contra hnot
      have hwhy : SIZEOF_RS_PACKET_LAMBDA_RESULT_DOUBLE ≤ BASE_NAME + strlen l.nameMem ∨
          packResult (ev.double l.arg l.id) = none := by
        rw [packResult_eq_none_iff, ← not_lt]
        simp only [Packs] at hnot
        tauto
      exact absurd (hpkt.symm.trans (resultDoublePacket_none hwhy o env)) (by simp)
    · rintro ⟨hfits, hfin⟩
      obtain ⟨d, hd⟩ := Option.ne_none_iff_exists'.mp (mt (packResult_eq_none_iff _).mp hfin)
      obtain ⟨pkt, hpkt, hlen, htag, hid, -⟩ := resultDoublePacket_spec hfits o env hd
      refine ⟨pkt, hpkt, fun lenv => ?_⟩
      rw [← hid]
      exact Linux.readPacket_resultDouble hlen htag lenv
  | string =>
    constructor
    · rintro ⟨pkt, hpkt, -⟩
      by_contra hnot
      exact absurd (hpkt.symm.trans (resultStringPacket_none hnot o env)) (by simp)
    · intro hfits
      obtain ⟨pkt, hpkt, hlen, htag, hid, hget, hnul⟩ := resultStringPacket_spec hfits o env
      refine ⟨pkt, hpkt, fun lenv => ?_⟩
      obtain ⟨block, hread, -⟩ := Linux.readPacket_resultString hlen htag hget hnul lenv
      rw [← hid]
      exact ⟨block, hread⟩

theorem answered_iff (hwf : b.registry.WF) (hup : b.rsSptStarted = true)
    (hfun : ∀ id l, getRegisteredLambdaById b.registry id = some l → l.arg ≠ 0)
    (packet : Packet) : Answered o env ev b packet ↔ b.CanAnswer env ev packet := by
  unfold Answered
  rw [handleReceivedPacket_callFor]
  cases hfor : b.callFor (.packet env packet) with
  | none =>
    refine iff_of_true rfl fun target kind l hread hl _ => ?_
    have hasks : (CallRequest.packet env packet).asks = some (target, kind.type) := hread
    have hsome := callFor_eq_some_iff.mpr ⟨target, hasks, resolve_of_addressee hwf hl⟩
    rw [hfor] at hsome
    cases hsome
  | some call =>
    rcases call with ⟨kind, id⟩
    obtain ⟨target, hread, hid⟩ := callFor_eq_some_iff.mp hfor
    have hread' : readCall env packet = some (target, kind.type) := hread
    have htarget := addressee_of_resolve hwf hid
    -- the only lambda that the packet can ask for in its own type
    have hcan : b.CanAnswer env ev packet ↔ ∀ l, getRegisteredLambdaById b.registry id = some l →
        l.type = kind.type → Packs ev l kind := by
      constructor
      · intro h l hl
        exact h target kind l hread' (htarget.trans hl)
      · intro h target' kind' l hread'' hl htype
        obtain ⟨rfl, hkind⟩ := Prod.mk.inj (Option.some.inj (hread'.symm.trans hread''))
        have hsame : kind = kind' := by
          have hof := congrArg LambdaKind.ofType hkind
          simpa using hof
        subst hsame
        exact h l (htarget.symm.trans hl) htype
    rw [hcan]
    cases hl : getRegisteredLambdaById b.registry id with
    | none =>
      have hcall : b.call ev kind id = some ⟨RS_CALL_NOTFOUND, none, none⟩ := by
        simp only [call_eq, callLambda, hl]
      obtain ⟨pkt, heq, hmsg⟩ := answer_of_refused o env hcall hup
      refine iff_of_true ⟨pkt, none, heq, fun lenv => ?_⟩ fun l h => by cases h
      simp only [RepliesTo, hl, hmsg]
    | some l =>
      have hlid : l.id = id := UInt8.toNat_inj.mp (hwf.ids _ l ((hwf.getById id).symm.trans hl))
      by_cases htype : l.type = kind.type
      · subst hlid
        simp only [answer_of_live hl htype (hfun _ l hl) hup, Option.some.injEq, forall_eq',
          htype, true_imp_iff]
        rw [← resultPacket_iff o env hl htype]
        constructor
        · rintro ⟨reply, invoked, hsent, hreply⟩
          obtain ⟨pkt, hpkt, heq⟩ := Option.map_eq_some_iff.mp hsent
          obtain ⟨rfl, -⟩ : pkt = reply ∧ _ := by simpa using heq
          exact ⟨pkt, hpkt, hreply⟩
        · rintro ⟨pkt, hpkt, hreply⟩
          exact ⟨pkt, some l, by rw [hpkt]; rfl, hreply⟩
      · have hcall : b.call ev kind id = some ⟨RS_CALL_WRONGTYPE, none, none⟩ := by
          simp only [call_eq, callLambda, hl, ne_eq, htype, not_false_eq_true, if_true]
        obtain ⟨pkt, heq, hmsg⟩ := answer_of_refused o env hcall hup
        refine iff_of_true ⟨pkt, none, heq, fun lenv => ?_⟩ fun l' h htype' => ?_
        · simp only [RepliesTo, hl, ne_eq, htype, not_false_eq_true, if_true, hmsg]
        · rw [← Option.some.inj h] at htype'
          exact absurd htype' htype

/-- A call packet by name is served as the one for the id that its name is resolved to. -/
theorem byName_eq_byId {name : List UInt8} {type : RsLambdaType} {id : LambdaId}
    {packet : Packet} (hread : readCall env packet = some (.name name, type))
    (hid : b.resolve (.name name) = some id) :
    handleReceivedPacket o env ev b packet =
      handleReceivedPacket o env ev b [RS_PACKET_CALL_BY_ID, id, type] := by
  have hbyId : readCall env [RS_PACKET_CALL_BY_ID, id, type] = some (.id id, type) := rfl
  rw [handleReceivedPacket_eq, handleReceivedPacket_eq, hread, hbyId]
  simp only [hid]
  rfl

end Board

/-- Handling a packet leaves the board as it is. -/
theorem Link.serve_board {o : ByteOrder} {env : Env} {ev : Evaluators} {s s' : Link}
    (h : s.serve o env ev = some s') : s'.board = s.board := by
  unfold Link.serve at h
  cases hreq : s.toBoard with
  | nil =>
    rw [hreq] at h
    rw [← Option.some.inj h]
  | cons r rest =>
    rw [hreq] at h
    obtain ⟨served, -, hpost⟩ := Option.bind_eq_some_iff.mp h
    rw [← Option.some.inj hpost]
    rfl

namespace Board

/-- On every started board that the API leads to, where every live lambda has a function: a
packet is answered as it should be exactly if the value asked for can be packed; a call by
name is served as the call by id; and the board stays as it is. -/
theorem answered_iff_canAnswer {ops : List (Env × BoardOp)} {b : Board}
    (h : Board.after true ops = some b)
    (hfun : ∀ id l, getRegisteredLambdaById b.registry id = some l → l.arg ≠ 0) (o : ByteOrder)
    (env : Env) (ev : Evaluators) (packet : Packet) :
    (Answered o env ev b packet ↔ b.CanAnswer env ev packet) ∧
      (∀ name type id, readCall env packet = some (.name name, type) →
        b.resolve (.name name) = some id →
        handleReceivedPacket o env ev b packet =
          handleReceivedPacket o env ev b [RS_PACKET_CALL_BY_ID, id, type]) ∧
      ∀ s s' : Link, s.board = b → s.serve o env ev = some s' → s'.board = b := by
  obtain ⟨hsound, hup⟩ := Sound.after h
  refine ⟨answered_iff hsound.wf hup hfun packet, ?_, ?_⟩
  · intro name type id hread hid
    exact byName_eq_byId hread hid
  · intro s s' hb hserve
    rw [Link.serve_board hserve, hb]

theorem arg_withA {kind : LambdaKind} {lambda : FuncPtr} {cache : RsCacheType} {id : LambdaId}
    {l : RsRegisteredLambda FuncPtr}
    (hl : getRegisteredLambdaById (withA kind lambda cache).registry id = some l) :
    l.arg = lambda := by
  have hwf : (withA kind lambda cache).registry.WF := Registry.WF.empty.push (by decide) rfl
  rw [hwf.getById, withA, pushed, Registry.slot_push (by decide)] at hl
  split_ifs at hl
  · rw [← Option.some.inj hl]
    rfl
  · rw [Board.started, Registry.slot_empty] at hl
    cases hl

/-- An integer lambda `"a"` that returns 0, called by id. -/
theorem answered_iff_canAnswer_zero :
    Answered .little {} zeros (withA .int 1 RS_CACHE_NO_CACHE) [3, 0, 1] ↔
      (withA .int 1 RS_CACHE_NO_CACHE).CanAnswer {} zeros [3, 0, 1] :=
  (answered_iff_canAnswer (after_withA .int (by decide))
    (fun _ _ hl => by rw [arg_withA hl]; decide) .little {} zeros [3, 0, 1]).1

/-- A string lambda `"a"` that returns `"Hi"`, called by id. -/
theorem hi_is_not_answered : ¬ ∀ (ops : List (Env × BoardOp)) (b : Board) (o : ByteOrder)
    (env : Env) (ev : Evaluators) (packet : Packet), Board.after true ops = some b →
    (∀ id l, getRegisteredLambdaById b.registry id = some l → l.arg ≠ 0) →
    Answered o env ev b packet := by
  intro h
  have hfun : ∀ id l,
      getRegisteredLambdaById (withA .string 1 RS_CACHE_NO_CACHE).registry id = some l →
      l.arg ≠ 0 := fun _ _ hl => by rw [arg_withA hl]; decide
  have hafter := after_withA .string (show ¬ (1 = 0 ∧ RS_CACHE_NO_CACHE ≠ RS_CACHE_ONLY) by decide)
  obtain ⟨hsound, hup⟩ := Sound.after hafter
  have hanswered := h _ _ .little {} { zeros with string := fun _ _ => [72, 105, 0] } [3, 0, 3]
    hafter hfun
  have hfits := (answered_iff hsound.wf hup hfun _).mp hanswered (.id 0) .string _ rfl rfl rfl
  exact absurd hfits.1 (by decide)

end Board

end RS
