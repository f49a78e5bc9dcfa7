import Riotsensors.Lib.Loops
import Riotsensors.Proofs.Agreement
import Riotsensors.Proofs.NameOrId
import Riotsensors.Sanity.Flight
import Riotsensors.Spec.Remote

/-! A call from end to end is a call on the board: as long as the registries agree, a client on
Linux gets the code and the value that the board's own `call_lambda_*` gives there. -/

namespace RS

open CMem

/-! ## Both sides find the same lambda -/

/-- Registries that implement one directory find a name under the same id. -/
theorem Registry.getByName_of_directory {α β ν : Type} {r : Registry α} {r' : Registry β}
    {val : RsRegisteredLambda α → ν} {val' : RsRegisteredLambda β → ν} (hwf : r.WF) (hwf' : r'.WF)
    (hsame : r.directory val = r'.directory val') {name : List UInt8} {l : RsRegisteredLambda α}
    (hl : getRegisteredLambdaByName r name = some l) :
    ∃ l', getRegisteredLambdaByName r' name = some l' ∧ l'.id = l.id ∧ val' l' = val l := by
  obtain ⟨hslot, htext, hfirst⟩ := hwf.getByName_eq_some_iff.mp hl
  have hlook : (r'.directory val').look l.id.toNat = some (l.text, val l) := by
    rw [← hsame]
    exact hwf.look_eq_some.mpr ⟨l, hslot, rfl, rfl⟩
  obtain ⟨l', hslot', htext', hval⟩ := hwf'.look_eq_some.mp hlook
  have hid : l'.id.toNat = l.id.toNat := hwf'.ids _ l' hslot'
  refine ⟨l', hwf'.getByName_eq_some_iff.mpr ⟨hid ▸ hslot', htext'.trans htext, ?_⟩,
    UInt8.toNat_inj.mp hid, hval⟩
  intro j hj m hm hmtext
  have hlookj : (r.directory val).look j = some (m.text, val' m) := by
    rw [hsame]
    exact hwf'.look_eq_some.mpr ⟨m, hm, rfl, rfl⟩
  obtain ⟨k, hk, hktext, -⟩ := hwf.look_eq_some.mp hlookj
  exact hfirst j (hid ▸ hj) k hk (hktext.trans hmtext)

theorem Registry.getById_of_directory {α β ν : Type} {r : Registry α} {r' : Registry β}
    {val : RsRegisteredLambda α → ν} {val' : RsRegisteredLambda β → ν} (hwf : r.WF) (hwf' : r'.WF)
    (hsame : r.directory val = r'.directory val') {id : LambdaId} {l : RsRegisteredLambda α}
    (hl : getRegisteredLambdaById r id = some l) :
    ∃ l', getRegisteredLambdaById r' id = some l' ∧ l'.id = l.id ∧ val' l' = val l := by
  rw [hwf.getById] at hl
  have hlook : (r'.directory val').look id.toNat = some (l.text, val l) := by
    rw [← hsame]
    exact hwf.look_eq_some.mpr ⟨l, hl, rfl, rfl⟩
  obtain ⟨l', hslot', -, hval⟩ := hwf'.look_eq_some.mp hlook
  refine ⟨l', (hwf'.getById id).trans hslot', UInt8.toNat_inj.mp ?_, hval⟩
  rw [hwf'.ids _ l' hslot', hwf.ids _ l hl]

/-! ## The reply -/

theorem Linux.readPacket_resultDouble_eq {o : ByteOrder} {pkt : Packet}
    (hlen : pkt.length = SIZEOF_RS_PACKET_LAMBDA_RESULT_DOUBLE)
    (htag : byteAt pkt PTYPE = RS_PACKET_RESULT_DOUBLE) (env : Env) :
    readPacket o env pkt = .result (byteAt pkt LAMBDA_ID)
      (.retD (unpackResult env.undef (getDouble o pkt RESULT))) false := by
  have hid : byteAt (ntohRsPacketLambdaResultDouble o env.undef pkt) LAMBDA_ID =
      byteAt pkt LAMBDA_ID := byteAt_setField_of_lt (by decide)
  have hvalue : getDouble o (ntohRsPacketLambdaResultDouble o env.undef pkt) RESULT =
      unpackResult env.undef (getDouble o pkt RESULT) := getDouble_setField o hlen _
  rw [readPacket, if_neg (by rw [hlen]; decide), if_neg (by rw [htag]; decide),
    if_neg (by rw [htag]; decide), if_neg (by rw [htag]; decide), if_pos htag,
    if_neg (not_not.mpr hlen)]
  dsimp only
  rw [hid, hvalue]

namespace Board

variable {ev : Evaluators} {l : RsRegisteredLambda FuncPtr} {kind : LambdaKind}

/-- The packet of a value that can be packed is read as that value. -/
theorem resultPacket_arrives (h : Packs ev l kind) (o : ByteOrder) (env : Env) :
    ∃ pkt, resultPacket o env l (ev.result kind l.arg l.id) = some pkt ∧
      ∀ lenv, ∃ ret frees, Linux.readPacket o lenv pkt = .result l.id ret frees ∧
        (ev.result kind l.arg l.id).Arrives lenv.undef ret := by
  cases kind with
  | int =>
    obtain ⟨pkt, hpkt, hread⟩ := Linux.readPacket_resultInt h o env (ev.int l.arg l.id)
    exact ⟨pkt, hpkt, fun lenv => ⟨_, _, hread lenv, rfl⟩⟩
  | double =>
    obtain ⟨packed, hpacked⟩ :=
      Option.ne_none_iff_exists'.mp (mt (packResult_eq_none_iff _).mp h.2)
    obtain ⟨pkt, hpkt, hlen, htag, hid, hvalue⟩ := resultDoublePacket_spec h.1 o env hpacked
    refine ⟨pkt, hpkt, fun lenv => ⟨_, false, ?_, packed, hpacked, rfl⟩⟩
    rw [Linux.readPacket_resultDouble_eq hlen htag, hid, hvalue]
  | string =>
    obtain ⟨pkt, hpkt, hlen, htag, hid, hlength, hnul⟩ := resultStringPacket_spec h o env
    refine ⟨pkt, hpkt, fun lenv => ?_⟩
    obtain ⟨block, hread, hblock⟩ := Linux.readPacket_resultString hlen htag hlength hnul lenv
    rw [hid] at hread
    exact ⟨_, _, hread, block, rfl, hblock.trans (List.length_eq_zero_iff.mp h.1).symm⟩

theorem resultPacket_none (h : ¬ Packs ev l kind) (o : ByteOrder) (env : Env) :
    resultPacket o env l (ev.result kind l.arg l.id) = none := by
  cases kind with
  | int => exact resultIntPacket_none (not_lt.mp h) o env _
  | double =>
    refine resultDoublePacket_none ?_ o env
    rw [packResult_eq_none_iff, ← not_lt]
    simp only [Packs] at h
    tauto
  | string => exact resultStringPacket_none h o env

end Board

/-- A client that waits takes the value of the reply. -/
theorem Linux.call_of_reply {s : Linux} (h : s.Inv) {c : Call} {l : RsRegisteredLambda ArgPtr}
    (hw : s.waitsOn c = some l) (o : ByteOrder) (env : Env) {d : Delivery}
    {ret : GenericLambdaReturn} {frees : Bool}
    (hread : readPacket o d.env d.packet = .result l.id ret frees) :
    ∃ packet, callPacket env c = some packet ∧ call o env s c ⟨[d], [], true⟩ =
      some ⟨receive o s d, [packet], RS_CALL_SUCCESS, some ret⟩ := by
  obtain ⟨packet, hpacket, hcall⟩ := h.call_of_waiting hw o env ⟨[d], [], true⟩
  have hslot := h.slot_of_found (waitsOn_eq_some.mp hw).1
  have hlive : getRegisteredLambdaById s.registry l.id = some l := (h.wf.getById l.id).trans hslot
  have hact := act_result_of_live hlive d.env.heap ret frees
  have hstate : receive o s d = s.setArg l.arg ⟨true, RS_CALL_SUCCESS, ret⟩ := by
    rw [receive_eq, hread, hact]
  have hbroadcast : (handleReceivedPacket o d.env s d.packet).broadcast = some l.arg := by
    rw [handleReceivedPacket_eq, hread, hact]
  have hafter : receiveAll o s [d] = receive o s d := rfl
  have hending : ending o l.arg s ⟨[d], [], true⟩ = .woken d := by
    simp only [ending, firstWaker, hbroadcast, if_true]
  refine ⟨packet, hpacket, hcall.trans ?_⟩
  have hwait : Wait.packets ⟨[d], [], true⟩ = [d] := rfl
  have hstays : (receiveAll o s [d]).entry l ≠ none := by
    rw [hafter, hstate]
    exact ne_of_eq_of_ne hslot (Option.some_ne_none l)
  have hwoken : ending o l.arg s ⟨[d], [], true⟩ ≠ .timedOut := by
    rw [hending]
    exact Ending.noConfusion
  rw [waitLambdaResult_of_answered (hwait ▸ hstays) hwoken, hwait, hafter]
  simp [hstate, setArg]

namespace System

variable {o : ByteOrder} {s : System}

/-- Agreement, and what either side keeps on its own. -/
structure Paired (s : System) : Prop where
  inv : s.Inv
  linux : s.linux.Inv
  board : s.board.Sound

theorem Paired.started (garbage : ArgPtr → RsLinuxRegisteredLambda) : (started garbage).Paired :=
  ⟨Inv.started garbage, Linux.Inv.started garbage, Board.Sound.empty true⟩

/-- What a call finds on Linux, the board finds too. -/
theorem Paired.addressee (h : s.Paired) {c : Call} {l : RsRegisteredLambda ArgPtr}
    (hl : s.linux.found c = some l) :
    ∃ m, s.board.addressee c.target = some m ∧ m.id = l.id ∧ m.type = l.type := by
  have hterms : ∀ {m : RsRegisteredLambda FuncPtr}, terms m = terms l → m.type = l.type :=
    fun heq => congrArg Prod.fst heq
  cases c with
  | byId id type =>
    obtain ⟨m, hm, hid, hval⟩ :=
      Registry.getById_of_directory h.inv.linux h.inv.board h.inv.same.symm hl
    exact ⟨m, hm, hid, hterms hval⟩
  | byName name type =>
    obtain ⟨m, hm, hid, hval⟩ :=
      Registry.getByName_of_directory h.inv.linux h.inv.board h.inv.same.symm hl
    exact ⟨m, hm, hid, hterms hval⟩

theorem Paired.found (h : s.Paired) {c : Call} {m : RsRegisteredLambda FuncPtr}
    (hm : s.board.addressee c.target = some m) :
    ∃ l, s.linux.found c = some l ∧ l.id = m.id ∧ l.type = m.type := by
  have hterms : ∀ {l : RsRegisteredLambda ArgPtr}, terms l = terms m → l.type = m.type :=
    fun heq => congrArg Prod.fst heq
  cases c with
  | byId id type =>
    obtain ⟨l, hl, hid, hval⟩ :=
      Registry.getById_of_directory h.inv.board h.inv.linux h.inv.same hm
    exact ⟨l, hl, hid, hterms hval⟩
  | byName name type =>
    obtain ⟨l, hl, hid, hval⟩ :=
      Registry.getByName_of_directory h.inv.board h.inv.linux h.inv.same hm
    exact ⟨l, hl, hid, hterms hval⟩

/-! ## The board's call -/

theorem callTarget_of_missing {ev : Evaluators} {kind : LambdaKind} {target : Target}
    {b : Board} (h : b.addressee target = none) :
    b.callTarget ev kind target = some ⟨RS_CALL_NOTFOUND, none, none⟩ := by
  cases target with
  | id id =>
    have hget : getRegisteredLambdaById b.registry id = none := h
    simp only [Board.callTarget, Board.call_eq, Board.callLambda, hget]
  | name name =>
    have hget : getRegisteredLambdaByName b.registry name = none := h
    simp only [Board.callTarget, Board.callByName, hget]

theorem callTarget_of_found {ev : Evaluators} {kind : LambdaKind} {target : Target} {b : Board}
    (hwf : b.registry.WF) {m : RsRegisteredLambda FuncPtr} (h : b.addressee target = some m) :
    b.callTarget ev kind target =
      if m.type ≠ kind.type then some ⟨RS_CALL_WRONGTYPE, none, none⟩
      else if m.arg = 0 then none
      else some ⟨RS_CALL_SUCCESS, some (ev.result kind m.arg m.id), some m⟩ := by
  have hget : getRegisteredLambdaById b.registry m.id = some m :=
    (hwf.getById m.id).trans (Board.slot_of_addressee hwf h)
  have hcall : b.callTarget ev kind target = b.call ev kind m.id := by
    cases target with
    | id id =>
      have hid : m.id = id :=
        UInt8.toNat_inj.mp (hwf.ids _ m ((hwf.getById id).symm.trans h))
      rw [Board.callTarget, hid]
    | name name =>
      have hname : getRegisteredLambdaByName b.registry name = some m := h
      simp only [Board.callTarget, Board.callByName, hname]
  rw [hcall, Board.call_eq, Board.callLambda, hget]

/-! ## From end to end -/

/-- The board serves the packet of a call with the function that the call is for. -/
theorem Paired.served (h : s.Paired) {c : Call} {kind : LambdaKind}
    (htype : c.expectedType = kind.type) {l : RsRegisteredLambda ArgPtr}
    (hw : s.linux.waitsOn c = some l) {m : RsRegisteredLambda FuncPtr}
    (hm : s.board.addressee c.target = some m) (hmtype : m.type = kind.type) {env : Env}
    {packet : Packet} (hpacket : Linux.callPacket env c = some packet) (benv : Env)
    (ev : Evaluators) :
    Board.handleReceivedPacket o benv ev s.board packet =
      if m.arg = 0 then none
      else (Board.resultPacket o benv m (ev.result kind m.arg m.id)).map fun p =>
        ⟨[p], some m⟩ := by
  have hget : getRegisteredLambdaById s.board.registry m.id = some m :=
    (h.board.wf.getById m.id).trans (Board.slot_of_addressee h.board.wf hm)
  have hserve : Board.handleReceivedPacket o benv ev s.board packet =
      (s.board.call ev kind m.id).bind (s.board.answer o benv m.id) := by
    have heval := @Board.handleCallLambda_eq o ev s.board benv m.id kind.type
    rw [LambdaKind.ofType_type] at heval
    cases c with
    | byId id type =>
      obtain rfl : type = kind.type := htype
      have hid : m.id = id :=
        UInt8.toNat_inj.mp (h.board.wf.ids _ m ((h.board.wf.getById id).symm.trans hm))
      rw [Board.handle_callById hpacket, ← hid, heval]
    | byName name type =>
      obtain rfl : type = kind.type := htype
      have hfound := (Linux.waitsOn_eq_some.mp hw).1
      have hltype : l.type = kind.type := (Linux.waitsOn_eq_some.mp hw).2.1
      have htext : l.text = cstr name := (h.linux.wf.of_getByName hfound).2
      have hshort : strlen name < MAX_LAMBDA_NAME_LENGTH := by
        have hslot := h.linux.slot_of_found hfound
        rw [strlen, ← htext]
        refine (h.linux.short_or_untyped hslot).resolve_right ?_
        rw [hltype, LambdaKind.ofType_type]
        exact Option.some_ne_none kind
      have hname : getRegisteredLambdaByName s.board.registry name = some m := hm
      have hne : Board.getLambdaIdFromName s.board name ≠ 255 := fun h255 => by
        rw [(Board.getLambdaIdFromName_eq_sentinel h.board.wf name).mp h255] at hname
        cases hname
      have hid : Board.getLambdaIdFromName s.board name = m.id := by
        rw [Board.getLambdaIdFromName, hname]
      rw [Board.handle_callByName hpacket hshort.le (Or.inl hshort), if_neg hne, hid, heval]
  rw [hserve]
  by_cases harg : m.arg = 0
  · rw [if_pos harg, (Board.call_eq_none_iff kind m.id).mpr ⟨m, hget, hmtype, harg⟩,
      Option.bind_none]
  · rw [if_neg harg, Board.answer_of_live hget hmtype harg h.inv.up]

/-- The function that a call is for is there, and its value can be packed. -/
def Answerable (ev : Evaluators) (b : Board) (kind : LambdaKind) (target : Target) : Prop :=
  ∀ m, b.addressee target = some m → m.type = kind.type → m.arg ≠ 0 ∧ Board.Packs ev m kind

/-- The call is not answered from the cache. -/
def Passed (s : Linux) (c : Call) : Prop :=
  ∀ l, s.found c = some l → l.type = c.expectedType → (Linux.checkLambdaCache s l).1 = 0

/-- What a client is told is what the board's own call says. -/
def SameAnswer (undef : UInt64) (called : Board.Called Result) (out : Linux.CallOutcome) : Prop :=
  out.code = called.code ∧ Option.Rel (Result.Arrives undef) called.result out.written

theorem Paired.remoteCall (h : s.Paired) (o : ByteOrder) (ev : Evaluators) {r : RemoteCall}
    {kind : LambdaKind} (htype : r.call.expectedType = kind.type)
    (hpassed : Passed s.linux r.call) :
    (Answerable ev s.board kind r.call.target ∧ ∃ called out,
      s.board.callTarget ev kind r.call.target = some called ∧
      s.remoteCall o ev r = some out ∧ SameAnswer r.reply.undef called out) ∨
    ¬ Answerable ev s.board kind r.call.target ∧ s.remoteCall o ev r = none := by
  cases hw : s.linux.waitsOn r.call with
  | none =>
    have hremote : s.remoteCall o ev r = Linux.call o r.linux s.linux r.call ⟨[], [], true⟩ := by
      simp [System.remoteCall, Linux.request, hw]
    rw [hremote, Linux.call_eq]
    left
    cases hl : s.linux.found r.call with
    | none =>
      have hm : s.board.addressee r.call.target = none := by
        by_contra hsome
        obtain ⟨m, hm⟩ := Option.ne_none_iff_exists'.mp hsome
        obtain ⟨l, hl', -⟩ := h.found hm
        rw [hl] at hl'
        cases hl'
      refine ⟨fun m hm' => absurd (hm.symm.trans hm') (Option.some_ne_none m).symm, _, _,
        callTarget_of_missing hm, rfl, rfl, Option.Rel.none⟩
    | some l =>
      obtain ⟨m, hm, -, hmtype⟩ := h.addressee hl
      have hne : l.type ≠ r.call.expectedType := fun heq => by
        have hnone := hw
        rw [Linux.waitsOn_eq_some.mpr ⟨hl, heq, hpassed l hl heq⟩] at hnone
        cases hnone
      have hmne : m.type ≠ kind.type := by rwa [hmtype, ← htype]
      have hlocal := @callTarget_of_found ev kind _ _ h.board.wf _ hm
      rw [if_pos hmne] at hlocal
      refine ⟨fun m' hm' heq => ?_, _, _, hlocal, if_pos hne, rfl, Option.Rel.none⟩
      obtain rfl := Option.some.inj (hm.symm.trans hm')
      exact absurd heq hmne
  | some l =>
    obtain ⟨hl, hltype, -⟩ := Linux.waitsOn_eq_some.mp hw
    obtain ⟨m, hm, hid, hmtype⟩ := h.addressee hl
    have hmkind : m.type = kind.type := by rw [hmtype, hltype, htype]
    obtain ⟨packet, hpacket⟩ := h.linux.callPacket_exists hl r.linux
    have hserved := h.served (o := o) htype hw hm hmkind hpacket r.board ev
    have hremote : s.remoteCall o ev r =
        (Board.handleReceivedPacket o r.board ev s.board packet).bind fun served =>
          Linux.call o r.linux s.linux r.call
            ⟨served.sent.map fun p => ⟨r.reply, p⟩, [], true⟩ := by
      simp only [System.remoteCall, Linux.request, hw, hpacket, Option.map_some,
        Option.bind_eq_bind, Option.bind_some, List.mapM_cons, List.mapM_nil, Option.pure_def]
      cases Board.handleReceivedPacket o r.board ev s.board packet with
      | none => rfl
      | some served => simp
    have hlocal := @callTarget_of_found ev kind _ _ h.board.wf _ hm
    rw [if_neg (not_not.mpr hmkind)] at hlocal
    have hanswerable : Answerable ev s.board kind r.call.target ↔
        m.arg ≠ 0 ∧ Board.Packs ev m kind := by
      constructor
      · exact fun h => h m hm hmkind
      · intro h m' hm' _
        obtain rfl := Option.some.inj (hm.symm.trans hm')
        exact h
    rw [hanswerable, hremote, hserved]
    by_cases harg : m.arg = 0
    · exact Or.inr ⟨fun h => h.1 harg, by rw [if_pos harg, Option.bind_none]⟩
    rw [if_neg harg] at hlocal ⊢
    by_cases hpacks : Board.Packs ev m kind
    · left
      obtain ⟨reply, hreply, hread⟩ := Board.resultPacket_arrives hpacks o r.board
      obtain ⟨ret, frees, hmessage, harrives⟩ := hread r.reply
      rw [hid] at hmessage
      obtain ⟨_, -, hcall⟩ :=
        Linux.call_of_reply (d := ⟨r.reply, reply⟩) h.linux hw o r.linux hmessage
      rw [hreply]
      exact ⟨⟨harg, hpacks⟩, _, _, hlocal, hcall, rfl, Option.Rel.some harrives⟩
    · right
      rw [Board.resultPacket_none hpacks o r.board]
      exact ⟨fun h => hpacks h.2, rfl⟩

/-! ## Whole runs -/

/-- What the board sends of its own accord, or in answer to a call: no registrations. -/
def Reply (packet : Packet) : Prop := (∃ id, IsResult id packet) ∨ IsError packet

theorem registry_receive_of_reply {packet : Packet} (h : Reply packet) (o : ByteOrder) (s : Linux)
    (env : Env) : (Linux.receive o s ⟨env, packet⟩).registry = s.registry := by
  rw [Linux.receive_eq, Linux.registry_act]
  rcases h with ⟨id, h⟩ | h
  · rcases Linux.readPacket_of_isResult h o env with hread | ⟨ret, frees, hread⟩ <;> rw [hread]
  · obtain ⟨id, code, hread⟩ := h o env
    rw [hread]

theorem registry_receiveAll_of_replies {packets : List Packet} (h : ∀ p ∈ packets, Reply p)
    (o : ByteOrder) (s : Linux) (env : Env) :
    (Linux.receiveAll o s (packets.map fun packet => ⟨env, packet⟩)).registry = s.registry := by
  induction packets generalizing s with
  | nil => rfl
  | cons p packets ih =>
    have hrest := ih (fun p hp => h p (List.mem_cons_of_mem _ hp)) (Linux.receive o s ⟨env, p⟩)
    rw [List.map_cons]
    exact hrest.trans (registry_receive_of_reply (h p List.mem_cons_self) o s env)

theorem reply_of_served {o : ByteOrder} {env : Env} {ev : Evaluators} {b : Board}
    {packet : Packet} {served : Board.Served}
    (h : Board.handleReceivedPacket o env ev b packet = some served) :
    ∀ p ∈ served.sent, Reply p := by
  rw [Board.handleReceivedPacket_eq] at h
  intro p hp
  cases hread : Board.readCall env packet with
  | none =>
    rw [hread] at h
    rw [← Option.some.inj h] at hp
    cases hp
  | some asked =>
    obtain ⟨target, type⟩ := asked
    simp only [hread] at h
    cases hid : b.resolve target with
    | none =>
      simp only [hid] at h
      rw [← Option.some.inj h] at hp
      cases hp
    | some id =>
      simp only [hid] at h
      rcases Board.handleCallLambda_answers h with ⟨l, -, -, hsent⟩ | ⟨-, hsent⟩
      · exact Or.inl ⟨l.id, hsent p hp⟩
      · exact Or.inr (hsent p hp)

theorem reply_of_sendResultTo {o : ByteOrder} {env : Env} {b : Board} {target : Target}
    {result : Result} {code : Int8} {sent : List Packet}
    (h : b.sendResultTo o env target result = some (code, sent)) : ∀ p ∈ sent, Reply p := by
  intro p hp
  have hid : ∀ id, b.sendResult o env id result = some (code, sent) → Reply p := fun id h => by
    obtain ⟨l, -, hres⟩ := Board.sendResult_isResult h hp
    exact Or.inl ⟨l.id, hres⟩
  cases target with
  | id id => exact hid id h
  | name name =>
    simp only [Board.sendResultTo, Board.sendResultByName] at h
    cases hname : getRegisteredLambdaByName b.registry name with
    | none =>
      rw [hname] at h
      obtain ⟨-, rfl⟩ := Prod.mk.inj (Option.some.inj h)
      cases hp
    | some l =>
      rw [hname] at h
      exact hid l.id h

/-- What leaves both registries alone keeps the two sides paired. -/
theorem Paired.of_registry (h : s.Paired) {linux : Linux} (hinv : linux.Inv)
    (hregistry : linux.registry = s.linux.registry) : Paired { s with linux } where
  inv := ⟨h.inv.board, hinv.wf, by rw [hregistry]; exact h.inv.same, h.inv.up⟩
  linux := hinv
  board := h.board

theorem registry_remoteCall (h : s.linux.Inv) {ev : Evaluators} {r : RemoteCall}
    {out : Linux.CallOutcome} (hout : s.remoteCall o ev r = some out) :
    out.state.Inv ∧ out.state.registry = s.linux.registry := by
  simp only [System.remoteCall, Option.bind_eq_bind, Option.bind_eq_some_iff] at hout
  obtain ⟨sent, -, served, hserved, hcall⟩ := hout
  have hreplies : ∀ p ∈ served.flatMap Board.Served.sent, Reply p := by
    intro p hp
    obtain ⟨answer, hanswer, hp⟩ := List.mem_flatMap.mp hp
    obtain ⟨packet, -, hpacket⟩ := Loops.exists_of_mem_mapM hserved hanswer
    exact reply_of_served hpacket p hp
  have halike := h.call_alike hcall
  have hduring : (Linux.duringCall o s.linux r.call
      ⟨(served.flatMap Board.Served.sent).map fun packet => ⟨r.reply, packet⟩, [], true⟩).Inv ∧
      (Linux.duringCall o s.linux r.call
      ⟨(served.flatMap Board.Served.sent).map fun packet => ⟨r.reply, packet⟩, [], true⟩).registry =
        s.linux.registry := by
    unfold Linux.duringCall
    split
    · rw [Linux.Wait.packets, List.append_nil]
      exact ⟨h.receiveAll _, registry_receiveAll_of_replies hreplies o s.linux r.reply⟩
    · exact ⟨h, rfl⟩
  exact ⟨halike.inv hduring.1, halike.registry.trans hduring.2⟩

/-- The board's operations are such that Linux follows them. -/
def Follows : Option System → SystemEvent → Prop
  | s, .operate x => Followed s x
  | _, _ => True

theorem Paired.play (h : s.Paired) {e : SystemEvent} (he : Follows (some s) e) {s' : System}
    (hplay : play o (some s) e = some s') : s'.Paired := by
  cases e with
  | operate x =>
    obtain ⟨t, ht, hinv⟩ := step_of_followed (o := o) h.inv he
    obtain rfl : t = s' := Option.some.inj (ht.symm.trans hplay)
    simp only [step, Option.bind_eq_bind, Option.bind_some, Option.bind_eq_some_iff] at ht
    obtain ⟨⟨board, code, sent⟩, hop, hstate⟩ := ht
    obtain rfl := Option.some.inj hstate
    exact ⟨hinv, h.linux.receiveAll _, (h.board.operate hop).1⟩
  | result env linux target result =>
    simp only [System.play, Option.bind_eq_bind, Option.bind_some, Option.bind_eq_some_iff] at hplay
    obtain ⟨⟨code, sent⟩, hsend, hstate⟩ := hplay
    obtain rfl := Option.some.inj hstate
    exact h.of_registry (h.linux.receiveAll _)
      (registry_receiveAll_of_replies (reply_of_sendResultTo hsend) o s.linux linux)
  | call ev r =>
    simp only [System.play, Option.bind_eq_bind, Option.bind_some, Option.bind_eq_some_iff] at hplay
    obtain ⟨out, hout, hstate⟩ := hplay
    obtain rfl := Option.some.inj hstate
    obtain ⟨hinv, hregistry⟩ := registry_remoteCall h.linux hout
    exact h.of_registry hinv hregistry

theorem paired_of_run {garbage : ArgPtr → RsLinuxRegisteredLambda} {es : List SystemEvent}
    (hrun : Runs.run (play o) (some (started garbage)) es = some s)
    (hfollows : Runs.Meets (play o) Follows (some (started garbage)) es) : s.Paired := by
  have hplay : ∀ (c : Option System) e, (∀ s, c = some s → s.Paired) → Follows c e →
      ∀ s', play o c e = some s' → s'.Paired := by
    intro c e hinv he s' hs'
    cases c with
    | none => cases e <;> cases hs'
    | some s => exact (hinv s rfl).play he hs'
  have halong := Runs.along_of_inv hplay (fun _ hinv => hinv)
    (fun s hs => Option.some.inj hs ▸ Paired.started garbage) hfollows
  exact halong es List.prefix_rfl s hrun

/-- In every run in which Linux follows the board's operations: a call that the cache does not
answer ends exactly if the board's function is there and its value can be packed, and tells the
client what the board's own call says. -/
theorem remote_call_eq_local {garbage : ArgPtr → RsLinuxRegisteredLambda} {es : List SystemEvent}
    (hrun : Runs.run (play o) (some (started garbage)) es = some s)
    (hfollows : Runs.Meets (play o) Follows (some (started garbage)) es) (ev : Evaluators)
    {r : RemoteCall} {kind : LambdaKind} (htype : r.call.expectedType = kind.type)
    (hpassed : Passed s.linux r.call) :
    ((s.remoteCall o ev r).isSome ↔ Answerable ev s.board kind r.call.target) ∧
      ∀ out, s.remoteCall o ev r = some out → ∃ called,
        s.board.callTarget ev kind r.call.target = some called ∧
        SameAnswer r.reply.undef called out := by
  rcases (paired_of_run hrun hfollows).remoteCall o ev htype hpassed with
    ⟨hanswerable, called, out, hlocal, hout, hsame⟩ | ⟨hnot, hnone⟩
  · rw [hout]
    refine ⟨iff_of_true rfl hanswerable, fun out' hout' => ⟨called, hlocal, ?_⟩⟩
    rwa [← Option.some.inj hout']
  · rw [hnone]
    exact ⟨iff_of_false Bool.false_ne_true hnot, fun out hout => by cases hout⟩

/-- A board and a Linux process with the integer lambda `"a"`. -/
def pairedA : System :=
  ⟨Board.withA .int 1 RS_CACHE_NO_CACHE, Linux.receive .little (Linux.started zeroed) registersA⟩

theorem run_pairedA : Runs.run (play .little) (some (started zeroed))
    [.operate ⟨.register .int [97] 1 RS_CACHE_NO_CACHE, {}, {}⟩] = some pairedA := rfl

theorem follows_pairedA : Runs.Meets (play .little) Follows (some (started zeroed))
    [.operate ⟨.register .int [97] 1 RS_CACHE_NO_CACHE, {}, {}⟩] :=
  ⟨fun _ => by decide, trivial⟩

theorem passed_pairedA : Passed pairedA.linux (.byName [97] RS_LAMBDA_INT) := by
  have hfound : ∃ l, pairedA.linux.found (.byName [97] RS_LAMBDA_INT) = some l ∧
      (Linux.checkLambdaCache pairedA.linux l).1 = 0 := ⟨_, rfl, rfl⟩
  obtain ⟨l, hl, hcode⟩ := hfound
  intro l' hl' _
  rwa [← Option.some.inj (hl.symm.trans hl')]

theorem answerable_pairedA : Answerable Board.zeros pairedA.board .int (.name [97]) := by
  have hfound : ∃ m, pairedA.board.addressee (.name [97]) = some m ∧ m.arg ≠ 0 ∧
      strlen m.nameMem < 16 := ⟨_, rfl, by decide, by decide⟩
  obtain ⟨m, hm, harg, hname⟩ := hfound
  intro m' hm' _
  rw [← Option.some.inj (hm.symm.trans hm')]
  exact ⟨harg, by change 2 + strlen m.nameMem < 18; omega⟩

/-- The lambda `"a"`, called by its name. -/
theorem remote_call_eq_local_a :
    Runs.run (play .little) (some (started zeroed))
      [.operate ⟨.register .int [97] 1 RS_CACHE_NO_CACHE, {}, {}⟩] = some pairedA ∧
    ∃ out, pairedA.remoteCall .little Board.zeros ⟨.byName [97] RS_LAMBDA_INT, {}, {}, {}⟩ =
        some out ∧
      ∃ called, pairedA.board.callTarget Board.zeros .int (.name [97]) = some called ∧
        SameAnswer 0 called out := by
  let r : RemoteCall := ⟨.byName [97] RS_LAMBDA_INT, {}, {}, {}⟩
  have htype : r.call.expectedType = LambdaKind.int.type := rfl
  obtain ⟨hiff, hsame⟩ :=
    remote_call_eq_local run_pairedA follows_pairedA Board.zeros htype passed_pairedA
  obtain ⟨out, hout⟩ := Option.isSome_iff_exists.mp (hiff.mpr answerable_pairedA)
  exact ⟨run_pairedA, out, hout, hsame out hout⟩

end System

end RS
