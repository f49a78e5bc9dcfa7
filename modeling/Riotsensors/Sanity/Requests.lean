import Riotsensors.Sanity.Board
import Riotsensors.Spec.Requests

/-! What holds of every board that the API leads to, and which `call_lambda_*` each entry
point makes. -/

namespace RS

open CMem

variable {o : ByteOrder} {ev : Evaluators} {b b' : Board}

@[simp] theorem LambdaKind.ofType_type (kind : LambdaKind) :
    LambdaKind.ofType kind.type = some kind := by
  cases kind <;> rfl

theorem LambdaKind.of_ofType {type : RsLambdaType} {kind : LambdaKind}
    (h : LambdaKind.ofType type = some kind) : kind.type = type := by
  unfold LambdaKind.ofType at h
  split_ifs at h with hint hdouble hstring
  · rw [← Option.some.inj h, hint]
    rfl
  · rw [← Option.some.inj h, hdouble]
    rfl
  · rw [← Option.some.inj h, hstring]
    rfl

/-- The function of a kind, with its result. -/
def Evaluators.result (ev : Evaluators) : LambdaKind → FuncPtr → LambdaId → Result
  | .int => fun p id => .int (ev.int p id)
  | .double => fun p id => .double (ev.double p id)
  | .string => fun p id => .string (ev.string p id)

namespace Board

/-- What the board's registrations establish for every live lambda. -/
structure Sound (b : Board) : Prop where
  wf : b.registry.WF
  typed : ∀ i l, b.registry.slot i = some l → ∃ kind : LambdaKind, l.type = kind.type
  guarded : ∀ i l, b.registry.slot i = some l → l.arg = 0 → l.cache = RS_CACHE_ONLY

theorem Sound.empty (started : Bool) : Sound ⟨Registry.empty, started⟩ where
  wf := Registry.WF.empty
  typed i l hl := by
    rw [Registry.slot_empty] at hl
    cases hl
  guarded i l hl := by
    rw [Registry.slot_empty] at hl
    cases hl

theorem Sound.pushed (h : b.Sound) {name : List UInt8} (hacc : b.registry.Accepts name)
    (mem : List UInt8) {lambda : FuncPtr} {cache : RsCacheType}
    (hnull : ¬ (lambda = 0 ∧ cache ≠ RS_CACHE_ONLY)) (kind : LambdaKind) :
    (b.pushed mem name lambda kind.type cache).Sound where
  wf := h.wf.push hacc.1 rfl
  typed i l hl := by
    simp only [Board.pushed, Registry.slot_push hacc.1] at hl
    split_ifs at hl
    · exact ⟨kind, by rw [← Option.some.inj hl]; rfl⟩
    · exact h.typed i l hl
  guarded i l hl harg := by
    simp only [Board.pushed, Registry.slot_push hacc.1] at hl
    split_ifs at hl
    · obtain rfl := Option.some.inj hl
      by_contra hcache
      exact hnull ⟨harg, hcache⟩
    · exact h.guarded i l hl harg

theorem Sound.unregister (h : b.Sound) (id : LambdaId) :
    Sound { b with registry := (lambdaRegistryUnregister b.registry id).1 } where
  wf := lambdaRegistryUnregister_wf h.wf id
  typed i l hl := by
    simp only [lambdaRegistryUnregister_slot h.wf] at hl
    split_ifs at hl
    exact h.typed i l hl
  guarded i l hl := by
    simp only [lambdaRegistryUnregister_slot h.wf] at hl
    split_ifs at hl
    exact h.guarded i l hl

/-- What an unregistration leaves. -/
theorem unregisterLambda_state {env : Env} {id : LambdaId} {code : Int8} {sent : List Packet}
    (h : unregisterLambda env b id = some (b', code, sent)) :
    b' = b ∨ b' = { b with registry := (lambdaRegistryUnregister b.registry id).1 } := by
  unfold unregisterLambda at h
  cases hget : getRegisteredLambdaById b.registry id with
  | none =>
    simp only [hget, Option.some.injEq, Prod.mk.injEq] at h
    exact Or.inl h.1.symm
  | some l =>
    simp only [hget] at h
    split_ifs at h
    · cases hpkt : unregisteredPacket env id l with
      | none =>
        rw [hpkt] at h
        cases h
      | some pkt =>
        rw [hpkt] at h
        obtain ⟨rfl, -⟩ := Prod.mk.inj (Option.some.inj h)
        exact Or.inr rfl
    · exact Or.inr (Prod.mk.inj (Option.some.inj h)).1.symm

/-- An operation leaves the board, adds a record, or clears a slot. -/
theorem Sound.operate_cases (h : b.Sound) {env : Env} {op : BoardOp} {code : Int8}
    {sent : List Packet} (hop : b.operate env op = some (b', code, sent)) :
    b' = b ∨
    (∃ mem name lambda kind cache, b.registry.Accepts name ∧
      ¬ (lambda = 0 ∧ cache ≠ RS_CACHE_ONLY) ∧
      b' = b.pushed mem name lambda (LambdaKind.type kind) cache) ∨
    ∃ id, b' = { b with registry := (lambdaRegistryUnregister b.registry id).1 } := by
  cases op with
  | register kind name lambda cache =>
    rw [operate_register] at hop
    rcases registerLambda_cases h.wf env name lambda kind.type cache with
      ⟨-, res, -, heq⟩ | ⟨mem, -, hacc, hnull, out, heq, -⟩
    · rw [heq] at hop
      exact Or.inl (Prod.mk.inj (Option.some.inj hop)).1.symm
    · rw [heq] at hop
      exact Or.inr (Or.inl ⟨mem, name, lambda, kind, cache, hacc, hnull,
        (Prod.mk.inj (Option.some.inj hop)).1.symm⟩)
  | unregister id =>
    rw [operate_unregister] at hop
    exact (unregisterLambda_state hop).imp_right fun heq => Or.inr ⟨id, heq⟩

theorem Sound.operate (h : b.Sound) {env : Env} {op : BoardOp} {code : Int8} {sent : List Packet}
    (hop : b.operate env op = some (b', code, sent)) :
    b'.Sound ∧ b'.rsSptStarted = b.rsSptStarted := by
  rcases h.operate_cases hop with rfl | ⟨mem, name, lambda, kind, cache, hacc, hnull, rfl⟩ |
    ⟨id, rfl⟩
  · exact ⟨h, rfl⟩
  · exact ⟨h.pushed hacc mem hnull kind, rfl⟩
  · exact ⟨h.unregister id, rfl⟩

/-- Every board that operations lead to is sound, its link as it was at the start. -/
theorem Sound.after {started : Bool} {ops : List (Env × BoardOp)}
    (h : Board.after started ops = some b) : b.Sound ∧ b.rsSptStarted = started := by
  have hrun : ∀ b, Board.after started ops = some b → b.Sound ∧ b.rsSptStarted = started := by
    refine @Runs.run_inv_all _ _ _
      (fun s => ∀ b : Board, s = some b → b.Sound ∧ b.rsSptStarted = started)
      (fun s op hs b' hb' => ?_) _ ops (fun b hb => ?_)
    · obtain ⟨b, rfl, hb⟩ := Option.bind_eq_some_iff.mp hb'
      obtain ⟨⟨b'', code, sent⟩, hop, rfl⟩ := Option.map_eq_some_iff.mp hb
      obtain ⟨hsound, hup⟩ := hs b rfl
      obtain ⟨hsound', hup'⟩ := hsound.operate hop
      exact ⟨hsound', hup'.trans hup⟩
    · rw [← Option.some.inj hb]
      exact ⟨Sound.empty started, rfl⟩
  exact hrun b h

/-- A started board after the registration of `"a"`. -/
def withA (kind : LambdaKind) (lambda : FuncPtr) (cache : RsCacheType) : Board :=
  Board.started.pushed [] [97] lambda kind.type cache

theorem after_withA (kind : LambdaKind) {lambda : FuncPtr} {cache : RsCacheType}
    (h : ¬ (lambda = 0 ∧ cache ≠ RS_CACHE_ONLY)) :
    Board.after true [({}, .register kind [97] lambda cache)] =
      some (withA kind lambda cache) := by
  simp only [Board.after, Runs.run_cons, Runs.run_nil, Option.bind_some, operate_register,
    registerLambda, if_neg h]
  rfl

/-- Functions that return 0 and the empty string. -/
def zeros : Evaluators := ⟨fun _ _ => 0, fun _ _ => 0, fun _ _ => [0]⟩

theorem callLambda_map {β γ : Type} (f : β → γ) (type : RsLambdaType)
    (eval : FuncPtr → LambdaId → β) (id : LambdaId) :
    (callLambda type eval b id).map (Called.map f) =
      callLambda type (fun p id => f (eval p id)) b id := by
  unfold callLambda
  cases getRegisteredLambdaById b.registry id with
  | none => rfl
  | some l => by_cases htype : l.type = type <;> by_cases harg : l.arg = 0 <;>
      simp [htype, harg, Called.map]

/-- The three calls are one, with the kind's type and function. -/
theorem call_eq (kind : LambdaKind) (id : LambdaId) :
    b.call ev kind id = callLambda kind.type (ev.result kind) b id := by
  cases kind with
  | int => exact callLambda_map Result.int _ _ _
  | double => exact callLambda_map Result.double _ _ _
  | string => exact callLambda_map Result.string _ _ _

theorem call_eq_none_iff (kind : LambdaKind) (id : LambdaId) :
    b.call ev kind id = none ↔ ∃ l, getRegisteredLambdaById b.registry id = some l ∧
      l.type = kind.type ∧ l.arg = 0 := by
  rw [call_eq, callLambda]
  cases getRegisteredLambdaById b.registry id with
  | none => simp
  | some l => by_cases htype : l.type = kind.type <;> by_cases harg : l.arg = 0 <;>
      simp [htype, harg]

theorem slot_of_addressee (hwf : b.registry.WF) {target : Target}
    {l : RsRegisteredLambda FuncPtr} (h : b.addressee target = some l) :
    b.registry.slot l.id.toNat = some l := by
  cases target with
  | id id =>
    have hslot : b.registry.slot id.toNat = some l := (hwf.getById id).symm.trans h
    rw [hwf.ids _ l hslot, hslot]
  | name name => exact (hwf.of_getByName h).1

/-- A name that is found is resolved to the id of its record. -/
theorem resolve_of_addressee (hwf : b.registry.WF) {target : Target}
    {l : RsRegisteredLambda FuncPtr} (h : b.addressee target = some l) :
    b.resolve target = some l.id := by
  cases target with
  | id id =>
    have hid : l.id = id := UInt8.toNat_inj.mp (hwf.ids _ l ((hwf.getById id).symm.trans h))
    rw [hid]
    rfl
  | name name =>
    have hname : getRegisteredLambdaByName b.registry name = some l := h
    have hne : getLambdaIdFromName b name ≠ 255 := fun h255 => by
      rw [(getLambdaIdFromName_eq_sentinel hwf name).mp h255] at hname
      cases hname
    rw [resolve, if_neg hne, getLambdaIdFromName, hname]

/-- What a target is resolved to has the record that the target is for, if any. -/
theorem addressee_of_resolve (hwf : b.registry.WF) {target : Target} {id : LambdaId}
    (h : b.resolve target = some id) :
    b.addressee target = getRegisteredLambdaById b.registry id := by
  cases target with
  | id id' =>
    obtain rfl := Option.some.inj h
    rfl
  | name name =>
    change getRegisteredLambdaByName b.registry name = _
    simp only [resolve] at h
    split_ifs at h with h255
    have hfound : getRegisteredLambdaByName b.registry name ≠ none := fun hnone =>
      h255 ((getLambdaIdFromName_eq_sentinel hwf name).mpr hnone)
    obtain ⟨l, hl⟩ := Option.ne_none_iff_exists'.mp hfound
    rw [getLambdaIdFromName, hl] at h
    rw [← Option.some.inj h, hl, hwf.getById]
    exact (hwf.of_getByName hl).1.symm

theorem callFor_eq_some_iff {request : CallRequest} {kind : LambdaKind} {id : LambdaId} :
    b.callFor request = some (kind, id) ↔
      ∃ target, request.asks = some (target, kind.type) ∧ b.resolve target = some id := by
  constructor
  · intro hfor
    obtain ⟨⟨target, type⟩, hasks, hfor⟩ := Option.bind_eq_some_iff.mp hfor
    obtain ⟨kind', hkind, hfor⟩ := Option.bind_eq_some_iff.mp hfor
    obtain ⟨id', hid, hfor⟩ := Option.bind_eq_some_iff.mp hfor
    obtain ⟨rfl, rfl⟩ := Prod.mk.inj (Option.some.inj hfor)
    exact ⟨target, by rw [hasks, LambdaKind.of_ofType hkind], hid⟩
  · rintro ⟨target, hasks, hid⟩
    simp [callFor, hasks, hid]

/-- The evaluation that a request leads to, once it is read. -/
theorem callsNull_of_asks {request : CallRequest} {target : Target} {type : RsLambdaType}
    (h : request.asks = some (target, type)) :
    b.CallsNull ev request ↔ ∃ kind id, LambdaKind.ofType type = some kind ∧
      b.resolve target = some id ∧ b.call ev kind id = none := by
  simp only [CallsNull, callFor_eq_some_iff, h, Option.some.injEq, Prod.mk.injEq]
  constructor
  · rintro ⟨kind, id, ⟨_, ⟨rfl, rfl⟩, hid⟩, hnone⟩
    exact ⟨kind, id, LambdaKind.ofType_type kind, hid, hnone⟩
  · rintro ⟨kind, id, hkind, hid, hnone⟩
    exact ⟨kind, id, ⟨target, ⟨rfl, (LambdaKind.of_ofType hkind).symm⟩, hid⟩, hnone⟩

theorem not_callsNull_of_refused {request : CallRequest} (h : request.asks = none) :
    ¬ b.CallsNull ev request := by
  rintro ⟨kind, id, hfor, -⟩
  rw [callFor, h] at hfor
  cases hfor

/-! ## The entry points -/

/-- What `handle_call_lambda` does with an evaluation. -/
def answer (o : ByteOrder) (env : Env) (b : Board) (id : LambdaId) (called : Called Result) :
    Option Served :=
  match called.result with
  | some result => (b.sendResult o env id result).map fun out => ⟨out.2, called.invoked⟩
  | none => sendCallError env b id called.code

theorem handleCallLambda_eq (env : Env) (id : LambdaId) (type : RsLambdaType) :
    handleCallLambda o env ev b id type =
      match LambdaKind.ofType type with
      | none => some Served.nothing
      | some kind => (b.call ev kind id).bind (b.answer o env id) := by
  have hcall : ∀ {β : Type} (called : Option (Called β)) (mk : β → Result)
      (send : β → Option (Int8 × List Packet)), (∀ x, send x = b.sendResult o env id (mk x)) →
      handleCall env b id called send =
        (called.map (Called.map mk)).bind (b.answer o env id) := by
    intro β called mk send hsend
    cases called with
    | none => rfl
    | some called =>
      rcases called with ⟨code, _ | result, invoked⟩
      · rfl
      · simp only [handleCall, answer, Called.map, hsend, Option.map_some, Option.bind_some,
          Option.bind_eq_bind]
        cases b.sendResult o env id (mk result) <;> rfl
  unfold handleCallLambda LambdaKind.ofType
  split_ifs
  · exact hcall _ .int _ fun _ => rfl
  · exact hcall _ .double _ fun _ => rfl
  · exact hcall _ .string _ fun _ => rfl
  · rfl

theorem handleReceivedPacket_eq (env : Env) (packet : Packet) :
    handleReceivedPacket o env ev b packet =
      match readCall env packet with
      | none => some Served.nothing
      | some (target, type) =>
        match b.resolve target with
        | none => some Served.nothing
        | some id => handleCallLambda o env ev b id type := by
  unfold handleReceivedPacket readCall
  split_ifs
  · rfl
  · rfl
  · rfl
  · rfl
  · have hpkt : ntohRsPacketCallByName packet = packet := rfl
    rw [hpkt]
    simp only [resolve]
    by_cases hid : getLambdaIdFromName b (packet.drop NAME ++ env.beyond) = 255
    · rw [if_pos hid, if_pos hid]
    · rw [if_neg hid, if_neg hid]
  · rfl

/-- A packet is answered by the evaluation that it leads to. -/
theorem handleReceivedPacket_callFor (env : Env) (packet : Packet) :
    handleReceivedPacket o env ev b packet =
      match b.callFor (.packet env packet) with
      | none => some Served.nothing
      | some (kind, id) => (b.call ev kind id).bind (b.answer o env id) := by
  rw [handleReceivedPacket_eq]
  simp only [callFor, CallRequest.asks]
  cases readCall env packet with
  | none => rfl
  | some asked =>
    rcases asked with ⟨target, type⟩
    cases hid : b.resolve target with
    | none => cases hkind : LambdaKind.ofType type <;> simp [hid, hkind]
    | some id =>
      simp only [handleCallLambda_eq]
      cases hkind : LambdaKind.ofType type <;> simp [hid, hkind]

end Board

end RS
