import Riotsensors.Proofs.Registration
import Riotsensors.Sanity.Client
import Riotsensors.Sanity.Link

/-! Encoders and dispatchers: for every packet that one side sends, whether the other
side takes the branch of the sender's operation with the sender's values. -/

namespace RS

open CMem

/-- The board's operations that send a packet of fixed layout. -/
inductive BoardSend where
  | registered (env : Env) (name : List UInt8) (lambda : FuncPtr) (type : RsLambdaType)
      (cache : RsCacheType)
  | unregistered (env : Env) (id : LambdaId)
  | resultInt (env : Env) (id : LambdaId) (result : RsInt)
  /-- the error branch of `handle_call_lambda` -/
  | callError (env : Env) (id : LambdaId) (code : Int8)

namespace Board

/-- What the operation hands to the link. -/
def sends (o : ByteOrder) (b : Board) : BoardSend → Option (List Packet)
  | .registered env name lambda type cache =>
    (registerLambda env b name lambda type cache).map fun out => out.2.2
  | .unregistered env id => (unregisterLambda env b id).map fun out => out.2.2
  | .resultInt env id result => (sendResultLambdaInt o env b id result).map fun out => out.2
  | .callError env id code => (sendCallError env b id code).map fun served => served.sent

/-- Linux's handler takes the branch of the operation with the operation's values, in
every state it can be in. -/
def Takes (o : ByteOrder) (send : BoardSend) (pkt : Packet) : Prop :=
  ∀ (env : Env) (s : Linux), match send with
    | .registered _ name _ type cache => ∃ mem, cstr mem = cstr name ∧
        Linux.handleReceivedPacket o env s pkt =
          Linux.act env.heap s (.registered mem type cache)
    | .unregistered _ id =>
        Linux.handleReceivedPacket o env s pkt = Linux.act env.heap s (.unregistered id)
    | .resultInt _ id result =>
        Linux.handleReceivedPacket o env s pkt =
          Linux.act env.heap s (.result id (.retI result) false)
    | .callError _ id code =>
        Linux.handleReceivedPacket o env s pkt = Linux.act env.heap s (.error id code)

/-- The operation returns, and Linux takes every packet it sent for what it is. -/
def Understood (o : ByteOrder) (b : Board) (send : BoardSend) : Prop :=
  ∃ sent, b.sends o send = some sent ∧ ∀ pkt ∈ sent, Takes o send pkt

/-- A registration that is announced leaves room for the NUL of its name (or has type 0,
which is no lambda type), nothing live is unregistered, and the name of an integer lambda
as it is read off the record ends inside the result packet. -/
def Understandable (b : Board) : BoardSend → Prop
  | .registered env name lambda type cache =>
    b.Registers env name lambda cache → b.registry.lambdaCounter.toNat < 128 →
      strlen name < MAX_LAMBDA_NAME_LENGTH ∨ type = 0
  | .unregistered _ id => getRegisteredLambdaById b.registry id = none
  | .resultInt _ id _ => ∀ lambda, getRegisteredLambdaById b.registry id = some lambda →
      lambda.type = RS_LAMBDA_INT →
        BASE_NAME + strlen lambda.nameMem < SIZEOF_RS_PACKET_LAMBDA_RESULT_INT
  | .callError _ _ _ => True

variable {o : ByteOrder} {b : Board}

/-- A fresh Linux process tells a name that it can register from one that is too long. -/
theorem act_registered_ne {name mem long : List UInt8} (hacc : b.registry.Accepts name)
    (hmem : cstr mem = cstr name) (hlong : MAX_LAMBDA_NAME_LENGTH < strlen long)
    (type : RsLambdaType) (cache : RsCacheType) :
    Linux.act (some []) (Linux.started zeroed) (.registered mem type cache) ≠
      Linux.act (some []) (Linux.started zeroed) (.registered long type cache) := by
  have hlen : strlen mem = strlen name := congrArg List.length hmem
  have hyes : (Registry.empty : Registry ArgPtr).Accepts mem := by
    refine ⟨by decide, ?_, ?_, ?_, rfl⟩
    · rw [hlen]
      exact hacc.2.1
    · rw [hlen]
      exact hacc.2.2.1
    · rw [hmem]
      exact hacc.2.2.2.1
  have hwf : (Registry.empty : Registry ArgPtr).WF := Registry.WF.empty
  have hno := (lambdaRegistryRegister_refused hwf
    (fun hok : Registry.Accepts _ long ∧ (some [] : Option (List UInt8)).isSome =>
      absurd hok.1.2.2.1 (not_le.mpr hlong)) type cache 0).1
  intro heq
  have hreg := congrArg (fun h : Linux.Handled => h.state.registry) heq
  simp only [Linux.registry_act, Linux.started, hno, lambdaRegistryRegister_of_accepts hyes] at hreg
  exact Registry.push_ne _ (by decide) _ hreg

theorem understood_registered_iff (hwf : b.registry.WF) (hup : b.rsSptStarted = true) (env : Env)
    (name : List UInt8) (lambda : FuncPtr) (type : RsLambdaType) (cache : RsCacheType) :
    b.Understood o (.registered env name lambda type cache) ↔
      b.Understandable (.registered env name lambda type cache) := by
  unfold Understood
  simp only [sends, Understandable]
  rcases registerLambda_cases hwf env name lambda type cache with
    ⟨hrefused, res, -, heq⟩ | ⟨mem, hmem, hacc, hnull, sent, heq, hsends, hsilent⟩
  · rw [heq]
    refine ⟨fun _ hreg => absurd hreg hrefused, fun _ => ⟨[], rfl, fun pkt hpkt => ?_⟩⟩
    cases hpkt
  · rw [heq]
    have hreg : b.Registers env name lambda cache := ⟨hnull, hacc, by rw [hmem]; rfl⟩
    by_cases hlt : b.registry.lambdaCounter.toNat < 128
    · obtain ⟨pkt, rfl, hpkt⟩ := hsends hlt hup
      constructor
      · rintro ⟨sent, hsent, htakes⟩ _ _
        obtain rfl := Option.some.inj hsent
        by_contra hfull
        rw [not_or, not_lt] at hfull
        obtain ⟨lmem, hname, heff⟩ := htakes pkt (by simp) {} (Linux.started zeroed)
        obtain ⟨long, hmsg, hlong⟩ := Linux.readPacket_registered_full hpkt
          (le_antisymm hacc.2.2.1 hfull.1) hfull.2 o {}
        rw [Linux.handleReceivedPacket_eq, hmsg] at heff
        exact act_registered_ne hacc hname hlong type cache heff.symm
      · intro hok
        refine ⟨[pkt], rfl, fun p hp lenv s => ?_⟩
        obtain rfl := List.mem_singleton.mp hp
        obtain ⟨lmem, hmsg, hname⟩ :=
          Linux.readPacket_registered hpkt hacc.2.2.1 (hok hreg hlt) o lenv
        exact ⟨lmem, hname, by rw [Linux.handleReceivedPacket_eq, hmsg]⟩
    · rw [hsilent (not_lt.mp hlt)]
      refine ⟨fun _ _ h => absurd h hlt, fun _ => ⟨[], rfl, fun pkt hpkt => ?_⟩⟩
      cases hpkt

/-- A Linux process that has the id `id`. -/
def linuxWith (id : LambdaId) : Linux where
  registry := ⟨fun j => if j.val = id.toNat then
    some (newRecord [] id [97] RS_LAMBDA_INT RS_CACHE_NO_CACHE 0) else none, 255⟩
  heap := zeroed
  brk := 1

theorem slot_linuxWith (id : LambdaId) (i : ℕ) (hi : i < MAX_LAMBDAS) :
    (linuxWith id).registry.slot i = if i = id.toNat then
      some (newRecord [] id [97] RS_LAMBDA_INT RS_CACHE_NO_CACHE 0) else none := by
  rw [Registry.slot, dif_pos hi]
  rfl

theorem linuxWith_wf (id : LambdaId) : (linuxWith id).registry.WF := by
  refine ⟨fun i hi => Registry.slot_of_le hi, fun i l hl => ?_⟩
  rw [slot_linuxWith id i (Registry.WF.lt_max hl)] at hl
  split_ifs at hl with hid
  rw [← Option.some.inj hl, hid]
  rfl

/-- The packet of an unregistration is ignored, also where the id is live. -/
theorem not_takes_unregistered {id : LambdaId} {lambda : RsRegisteredLambda FuncPtr}
    (hlive : id.toNat < MAX_LAMBDAS) {env : Env} {pkt : Packet}
    (hpkt : unregisteredPacket env id lambda = some pkt) :
    ¬ Takes o (.unregistered env id) pkt := by
  intro htakes
  have heff := htakes {} (linuxWith id)
  rw [Linux.handleReceivedPacket_eq, Linux.readPacket_unregistered hpkt] at heff
  have hslot := congrArg (fun h : Linux.Handled => h.state.registry.slot id.toNat) heff
  simp only [Linux.registry_act] at hslot
  rw [lambdaRegistryUnregister_slot (linuxWith_wf id), if_pos rfl, slot_linuxWith id _ hlive,
    if_pos rfl] at hslot
  cases hslot

theorem understood_unregistered_iff (hwf : b.registry.WF) (hup : b.rsSptStarted = true) (env : Env)
    (id : LambdaId) :
    b.Understood o (.unregistered env id) ↔ b.Understandable (.unregistered env id) := by
  unfold Understood
  simp only [sends, Understandable]
  cases hget : getRegisteredLambdaById b.registry id with
  | none =>
    simp only [unregisterLambda, hget]
    refine ⟨fun _ => trivial, fun _ => ⟨[], rfl, fun pkt hpkt => ?_⟩⟩
    cases hpkt
  | some lambda =>
    have hslot := (hwf.getById id).symm.trans hget
    rw [unregisterLambda_of_live env hget hup]
    constructor
    · rintro ⟨sent, hsent, htakes⟩
      cases hpkt : unregisteredPacket env id lambda with
      | none =>
        rw [hpkt] at hsent
        cases hsent
      | some pkt =>
        rw [hpkt] at hsent
        obtain rfl := Option.some.inj hsent
        exact absurd (htakes pkt (by simp)) (not_takes_unregistered (Registry.WF.lt_max hslot) hpkt)
    · intro h
      cases h

theorem understood_resultInt_iff (hwf : b.registry.WF) (hup : b.rsSptStarted = true) (env : Env)
    (id : LambdaId) (result : RsInt) :
    b.Understood o (.resultInt env id result) ↔ b.Understandable (.resultInt env id result) := by
  unfold Understood
  simp only [sends, Understandable, sendResultLambdaInt, sendResultLambda]
  cases hget : getRegisteredLambdaById b.registry id with
  | none =>
    refine ⟨fun _ l hl => ?_, fun _ => ⟨[], rfl, fun pkt hpkt => ?_⟩⟩
    · cases hl
    · cases hpkt
  | some lambda =>
    by_cases htype : lambda.type = RS_LAMBDA_INT
    · have hid : lambda.id = id :=
        UInt8.toNat_inj.mp (hwf.ids _ _ ((hwf.getById id).symm.trans hget))
      simp only [ne_eq, htype, not_true_eq_false, if_false, hup, if_true]
      constructor
      · rintro ⟨sent, hsent, -⟩ l hl -
        obtain rfl := Option.some.inj hl
        by_contra hover
        rw [resultIntPacket_none (not_lt.mp hover)] at hsent
        cases hsent
      · intro hok
        obtain ⟨pkt, hpkt, hread⟩ := Linux.readPacket_resultInt (hok lambda rfl htype) o env result
        refine ⟨[pkt], by rw [hpkt]; rfl, fun p hp lenv s => ?_⟩
        obtain rfl := List.mem_singleton.mp hp
        rw [Linux.handleReceivedPacket_eq, hread, hid]
    · refine ⟨fun _ l hl ht => ?_, fun _ => ?_⟩
      · rw [← Option.some.inj hl] at ht
        exact absurd ht htype
      · simp only [ne_eq, htype, not_false_eq_true, if_true]
        refine ⟨[], rfl, fun pkt hpkt => ?_⟩
        cases hpkt

/-- Error packets are always taken for what they are. -/
theorem understood_callError (hup : b.rsSptStarted = true) (env : Env) (id : LambdaId)
    (code : Int8) : b.Understood o (.callError env id code) := by
  obtain ⟨pkt, hpkt, hread⟩ := Linux.readPacket_resultError env id code
  refine ⟨[pkt], by simp [sends, sendCallError, hup, hpkt], fun p hp lenv s => ?_⟩
  obtain rfl := List.mem_singleton.mp hp
  rw [Linux.handleReceivedPacket_eq, hread]

theorem understood_iff (hwf : b.registry.WF) (hup : b.rsSptStarted = true) (send : BoardSend) :
    b.Understood o send ↔ b.Understandable send := by
  cases send with
  | registered env name lambda type cache =>
    exact understood_registered_iff hwf hup env name lambda type cache
  | unregistered env id => exact understood_unregistered_iff hwf hup env id
  | resultInt env id result => exact understood_resultInt_iff hwf hup env id result
  | callError env id code => exact ⟨fun _ => trivial, fun _ => understood_callError hup env id code⟩

end Board

namespace Linux

/-- The board's handler serves the call that was made: for the same id, or for the id
registered for the same name, with the expected type. -/
def CallTaken (o : ByteOrder) (c : Call) (pkt : Packet) : Prop :=
  ∀ (env : Env) (ev : Evaluators) (b : Board), Board.handleReceivedPacket o env ev b pkt =
    match c with
    | .byId id expectedType => Board.handleCallLambda o env ev b id expectedType
    | .byName name expectedType =>
      if Board.getLambdaIdFromName b name = 255 then some Board.Served.nothing
      else Board.handleCallLambda o env ev b (Board.getLambdaIdFromName b name) expectedType

/-- A name that fills its field is followed by a type that is NUL. -/
theorem type_of_full {l : RsRegisteredLambda ArgPtr}
    (h : strlen l.nameMem = MAX_LAMBDA_NAME_LENGTH) : l.type = 0 := by
  have hnul := byteAt_strlen l.nameMem
  rw [h, RsRegisteredLambda.nameMem, byteAt_append_right l.name_length.le, l.name_length] at hnul
  exact hnul

theorem callPacket_taken {s : Linux} (h : s.Inv) {c : Call} {l : RsRegisteredLambda ArgPtr}
    (hw : s.waitsOn c = some l) {env : Env} {pkt : Packet} (hpkt : callPacket env c = some pkt)
    (o : ByteOrder) : CallTaken o c pkt := by
  obtain ⟨hf, htype, -⟩ := waitsOn_eq_some.mp hw
  intro renv ev b
  cases c with
  | byId id expectedType =>
    exact Board.handle_callById hpkt o renv ev b
  | byName name expectedType =>
    obtain ⟨hslot, htext⟩ := h.wf.of_getByName hf
    have hlen : strlen l.nameMem = strlen name := congrArg List.length htext
    have hshort := h.short _ _ hslot
    rw [hlen] at hshort
    have hend : strlen name < MAX_LAMBDA_NAME_LENGTH ∨ expectedType = 0 := by
      rcases hshort.lt_or_eq with hlt | heq
      · exact Or.inl hlt
      · exact Or.inr (htype.symm.trans (type_of_full (hlen.trans heq)))
    exact Board.handle_callByName hpkt hshort hend o renv ev b

/-- Every call packet is served as the call that was made. -/
theorem call_sent_taken {s : Linux} (h : s.Inv) {o : ByteOrder} {env : Env} {c : Call} {w : Wait}
    {out : CallOutcome} (hout : call o env s c w = some out) :
    ∀ pkt ∈ out.sent, CallTaken o c pkt := by
  cases hw : s.waitsOn c with
  | none =>
    obtain ⟨code, written, hcall, -⟩ := call_of_not_waiting hw o env w
    obtain rfl := Option.some.inj (hout.symm.trans hcall)
    intro pkt hpkt
    cases hpkt
  | some l =>
    obtain ⟨packet, hpacket, hcall⟩ := h.call_of_waiting hw o env w
    rw [waitLambdaResult_sent (hcall.symm.trans hout)]
    intro pkt hpkt
    obtain rfl := List.mem_singleton.mp hpkt
    exact callPacket_taken h hw hpacket o

end Linux

/-- Over all reachable states: what the board sends is understood exactly when it is
understandable, and what Linux sends always is. -/
theorem dispatch_agrees_iff (o : ByteOrder) (ops : List (RegistryOp FuncPtr)) (send : BoardSend) :
    ((Board.mk (Registry.after ops) true).Understood o send ↔
        (Board.mk (Registry.after ops) true).Understandable send) ∧
      ∀ (garbage : ArgPtr → RsLinuxRegisteredLambda) (es : List LinuxEvent) (w : Watched),
        Watched.Reaches o garbage es w →
        ∀ (env : Env) (c : Call) (wait : Linux.Wait) (out : Linux.CallOutcome),
          Linux.call o env w.linux c wait = some out →
          ∀ pkt ∈ out.sent, Linux.CallTaken o c pkt := by
  refine ⟨?_, fun garbage es w h env c wait out hout => ?_⟩
  · exact Board.understood_iff (Registry.after_wf ops) rfl send
  · exact Linux.call_sent_taken h.inv.linux hout

/-- The board after it registered an integer lambda `"a"`. -/
def registryWithA : Registry FuncPtr :=
  Registry.after [.register (some []) [97] RS_LAMBDA_INT RS_CACHE_NO_CACHE 1]

/-- The unregistration of a live lambda is not understood. -/
theorem unregistration_is_not_understood :
    ¬ ∀ (ops : List (RegistryOp FuncPtr)) (send : BoardSend),
      (Board.mk (Registry.after ops) true).Understood .little send := by
  intro h
  have hnone : getRegisteredLambdaById registryWithA 0 = none :=
    (Board.understood_unregistered_iff (Registry.after_wf _) rfl {} 0).mp (h _ _)
  have hsome : (getRegisteredLambdaById registryWithA 0).isSome = true := by decide
  rw [hnone] at hsome
  cases hsome

end RS
