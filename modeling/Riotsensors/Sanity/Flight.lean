import Riotsensors.Sanity.Board
import Riotsensors.Sanity.Client
import Riotsensors.Sanity.Link
import Riotsensors.Spec.Link

/-! Packets in flight: what each of them can be read as when it arrives, given the names
under which the board has registered its lambdas, by number. -/

namespace RS

open CMem

/-! ## Results -/

/-- The packet is a result for the lambda `id`, whatever else is in it. -/
def IsResult (id : LambdaId) (pkt : Packet) : Prop :=
  (byteAt pkt PTYPE = RS_PACKET_RESULT_INT ∨ byteAt pkt PTYPE = RS_PACKET_RESULT_DOUBLE ∨
    byteAt pkt PTYPE = RS_PACKET_RESULT_STRING) ∧ byteAt pkt LAMBDA_ID = id

/-- The packet reports a failed call. -/
def IsError (pkt : Packet) : Prop :=
  ∀ o env, ∃ id code, Linux.readPacket o env pkt = .error id code

theorem Linux.readPacket_of_isResult {id : LambdaId} {pkt : Packet} (h : IsResult id pkt)
    (o : ByteOrder) (env : Env) :
    readPacket o env pkt = .ignored ∨ ∃ ret frees, readPacket o env pkt = .result id ret frees := by
  obtain ⟨htag, rfl⟩ := h
  by_cases h0 : pkt.length < 1
  · exact Or.inl (by rw [readPacket, if_pos h0])
  rcases htag with htag | htag | htag
  · rw [readPacket, if_neg h0, if_neg (by rw [htag]; decide), if_neg (by rw [htag]; decide),
      if_pos htag]
    split_ifs
    · exact Or.inl rfl
    · exact Or.inr ⟨_, _, rfl⟩
  · rw [readPacket, if_neg h0, if_neg (by rw [htag]; decide), if_neg (by rw [htag]; decide),
      if_neg (by rw [htag]; decide), if_pos htag]
    split_ifs
    · exact Or.inl rfl
    · refine Or.inr ⟨_, _, congrArg (Message.result · _ _) ?_⟩
      exact byteAt_setField_of_lt (by decide)
  · rw [readPacket, if_neg h0, if_neg (by rw [htag]; decide), if_neg (by rw [htag]; decide),
      if_neg (by rw [htag]; decide), if_neg (by rw [htag]; decide), if_pos htag]
    split_ifs
    · exact Or.inl rfl
    · refine Or.inr ⟨_, _, congrArg (Message.result · _ _) ?_⟩
      exact byteAt_setField_of_lt (by decide)

namespace Board

theorem resultBase_header {n : ℕ} {env : Env} {tag : RsPacketType} {p1 p2 : Packet}
    {lambda : RsRegisteredLambda FuncPtr} (h1 : poke (uninit n env.object) PTYPE [tag] = some p1)
    (h2 : populateResultbaseFromLambda p1 lambda = some p2) :
    p2.length = n ∧ byteAt p2 PTYPE = tag ∧ byteAt p2 LAMBDA_ID = lambda.id := by
  obtain ⟨l1, htag, -⟩ := poke_byte h1
  simp only [populateResultbaseFromLambda, Option.bind_eq_bind, Option.bind_eq_some_iff] at h2
  obtain ⟨p, hp, h2⟩ := h2
  obtain ⟨l2, hid, b2⟩ := poke_byte hp
  obtain ⟨l3, b3⟩ := poke_before h2
  refine ⟨by rw [l3, l2, l1, length_uninit], ?_, ?_⟩
  · rw [b3 _ (by decide), b2 _ (by decide), htag]
  · rw [b3 _ (by decide), hid]

theorem resultIntPacket_isResult {o : ByteOrder} {env : Env} {lambda : RsRegisteredLambda FuncPtr}
    {result : RsInt} {pkt : Packet} (h : resultIntPacket o env lambda result = some pkt) :
    IsResult lambda.id pkt := by
  simp only [resultIntPacket, Option.bind_eq_bind, Option.bind_eq_some_iff] at h
  obtain ⟨p1, h1, p2, h2, p3, h3, h4⟩ := h
  obtain ⟨-, htag, hid⟩ := resultBase_header h1 h2
  obtain ⟨-, hb⟩ := poke_before h3
  obtain rfl : p3 = pkt := Option.some.inj h4
  exact ⟨Or.inl ((hb _ (by decide)).trans htag), (hb _ (by decide)).trans hid⟩

theorem resultDoublePacket_isResult {o : ByteOrder} {env : Env}
    {lambda : RsRegisteredLambda FuncPtr} {result : RsDouble} {pkt : Packet}
    (h : resultDoublePacket o env lambda result = some pkt) : IsResult lambda.id pkt := by
  simp only [resultDoublePacket, Option.bind_eq_bind, Option.bind_eq_some_iff] at h
  obtain ⟨p1, h1, p2, h2, p3, h3, h4⟩ := h
  obtain ⟨-, htag, hid⟩ := resultBase_header h1 h2
  obtain ⟨-, hb⟩ := poke_before h3
  obtain ⟨d, -, rfl⟩ := Option.map_eq_some_iff.mp h4
  have hkeep : ∀ i < RESULT, byteAt (setField p3 RESULT (o.write 8 d.toNat)) i = byteAt p2 i :=
    fun i hi => (byteAt_setField_of_lt hi).trans (hb i hi)
  exact ⟨Or.inr (Or.inl ((hkeep _ (by decide)).trans htag)), (hkeep _ (by decide)).trans hid⟩

theorem resultStringPacket_isResult {o : ByteOrder} {env : Env}
    {lambda : RsRegisteredLambda FuncPtr} {result : List UInt8} {pkt : Packet}
    (h : resultStringPacket o env lambda result = some pkt) : IsResult lambda.id pkt := by
  simp only [resultStringPacket, Option.bind_eq_bind, Option.bind_eq_some_iff] at h
  obtain ⟨p1, h1, p2, h2, p3, h3, p4, h4, h5⟩ := h
  obtain ⟨hlen, htag, hid⟩ := resultBase_header h1 h2
  obtain ⟨l3, b3⟩ := poke_before h3
  obtain ⟨l4, b4⟩ := poke_before h4
  -- the copy fits the object only if nothing but the NUL is copied
  have hempty : strlen result = 0 := by
    by_contra hne
    have hover : poke p3 STRING (peek result 0 (strlen result + 1)) = none := by
      rw [poke_eq_none, length_peek, l3, hlen]
      change 17 < 16 + (strlen result + 1)
      omega
    rw [hover] at h4
    cases h4
  obtain rfl := Option.some.inj h5
  have hkeep : ∀ i < 2, byteAt (peek (htonRsPacketLambdaResultString o p4 ++ env.beyond) 0
      ((SIZEOF_RS_PACKET_LAMBDA_RESULT_STRING - 1 + (strlen result + 1)) % 2 ^ 16)) i =
      byteAt p2 i := by
    intro i hi
    have hfield : byteAt (htonRsPacketLambdaResultString o p4) i = byteAt p4 i :=
      byteAt_setField_of_lt (by change i < 14; omega)
    have hl : (htonRsPacketLambdaResultString o p4).length = 17 := by
      refine (length_setField _ _ _).trans ?_
      change p4.length = 17
      rw [l4, l3, hlen]
    rw [byteAt_peek (by rw [hempty]; change i < 17; omega), Nat.zero_add,
      byteAt_append_left (by omega), hfield, b4 i (by change i < 16; omega),
      b3 i (by change i < 14; omega)]
  exact ⟨Or.inr (Or.inr ((hkeep _ (by decide)).trans htag)), (hkeep _ (by decide)).trans hid⟩

/-- A result that is sent is for the live record under the id. -/
theorem sendResultLambda_isResult {type : RsLambdaType}
    {packet : RsRegisteredLambda FuncPtr → Option Packet}
    (hpacket : ∀ l pkt, packet l = some pkt → IsResult l.id pkt) {b : Board} {id : LambdaId}
    {code : Int8} {sent : List Packet}
    (h : sendResultLambda type packet b id = some (code, sent)) {pkt : Packet} (hpkt : pkt ∈ sent) :
    ∃ l, getRegisteredLambdaById b.registry id = some l ∧ IsResult l.id pkt := by
  unfold sendResultLambda at h
  cases hget : getRegisteredLambdaById b.registry id with
  | none =>
    rw [hget] at h
    obtain ⟨-, rfl⟩ := Prod.mk.inj (Option.some.inj h)
    cases hpkt
  | some l =>
    rw [hget] at h
    simp only at h
    split_ifs at h
    · obtain ⟨-, rfl⟩ := Prod.mk.inj (Option.some.inj h)
      cases hpkt
    · obtain ⟨p, hp, hsent⟩ := Option.bind_eq_some_iff.mp h
      obtain ⟨-, rfl⟩ := Prod.mk.inj (Option.some.inj hsent)
      obtain rfl := List.mem_singleton.mp hpkt
      exact ⟨l, rfl, hpacket l _ hp⟩
    · obtain ⟨-, rfl⟩ := Prod.mk.inj (Option.some.inj h)
      cases hpkt

theorem sendResult_isResult {o : ByteOrder} {env : Env} {b : Board} {id : LambdaId} {r : Result}
    {code : Int8} {sent : List Packet} (h : b.sendResult o env id r = some (code, sent))
    {pkt : Packet} (hpkt : pkt ∈ sent) :
    ∃ l, getRegisteredLambdaById b.registry id = some l ∧ IsResult l.id pkt := by
  cases r with
  | int result => exact sendResultLambda_isResult (fun _ _ => resultIntPacket_isResult) h hpkt
  | double result => exact sendResultLambda_isResult (fun _ _ => resultDoublePacket_isResult) h hpkt
  | string result => exact sendResultLambda_isResult (fun _ _ => resultStringPacket_isResult) h hpkt

/-- What the board answers to a call: it evaluates the live record under the id and sends a
result for it, or it evaluates nothing and sends at most an error. -/
def Answers (b : Board) (id : LambdaId) (served : Served) : Prop :=
  (∃ l, served.invoked = some l ∧ getRegisteredLambdaById b.registry id = some l ∧
    ∀ pkt ∈ served.sent, IsResult l.id pkt) ∨
  (served.invoked = none ∧ ∀ pkt ∈ served.sent, IsError pkt)

theorem sendCallError_answers {env : Env} {b : Board} {id : LambdaId} {code : Int8}
    {served : Served} (h : sendCallError env b id code = some served) : b.Answers id served := by
  unfold sendCallError at h
  split_ifs at h
  · obtain ⟨pkt, hpkt, hread⟩ := Linux.readPacket_resultError env id code
    rw [hpkt] at h
    obtain rfl := Option.some.inj h
    refine Or.inr ⟨rfl, fun p hp => ?_⟩
    obtain rfl := List.mem_singleton.mp hp
    exact fun o env => ⟨id, code, hread o env⟩
  · obtain rfl := Option.some.inj h
    exact Or.inr ⟨rfl, fun p hp => absurd hp List.not_mem_nil⟩

theorem handleCall_answers {β : Type} {type : RsLambdaType} {eval : FuncPtr → LambdaId → β}
    {env : Env} {b : Board} {id : LambdaId} {send : β → Option (Int8 × List Packet)}
    (hsend : ∀ v code sent pkt, send v = some (code, sent) → pkt ∈ sent →
      ∃ l, getRegisteredLambdaById b.registry id = some l ∧ IsResult l.id pkt) {served : Served}
    (h : handleCall env b id (callLambda type eval b id) send = some served) :
    b.Answers id served := by
  unfold callLambda handleCall at h
  cases hget : getRegisteredLambdaById b.registry id with
  | none =>
    rw [hget] at h
    exact sendCallError_answers h
  | some l =>
    rw [hget] at h
    by_cases htype : l.type ≠ type
    · simp only [if_pos htype] at h
      exact sendCallError_answers h
    · simp only [if_neg htype] at h
      by_cases hnull : l.arg = 0
      · simp only [if_pos hnull] at h
        cases h
      · simp only [if_neg hnull, Option.bind_eq_bind, Option.bind_some] at h
        obtain ⟨⟨code, sent⟩, hs, hserved⟩ := Option.bind_eq_some_iff.mp h
        obtain rfl := Option.some.inj hserved
        refine Or.inl ⟨l, rfl, hget, fun pkt hpkt => ?_⟩
        obtain ⟨l', hl', hres⟩ := hsend _ _ _ pkt hs hpkt
        obtain rfl : l' = l := Option.some.inj (hl'.symm.trans hget)
        exact hres

theorem handleCallLambda_answers {o : ByteOrder} {env : Env} {ev : Evaluators} {b : Board}
    {id : LambdaId} {type : RsLambdaType} {served : Served}
    (h : handleCallLambda o env ev b id type = some served) : b.Answers id served := by
  have hsend := fun r code sent pkt h hp => @sendResult_isResult o env b id r code sent h pkt hp
  unfold handleCallLambda at h
  split_ifs at h
  · exact handleCall_answers (fun v => hsend (.int v)) h
  · exact handleCall_answers (fun v => hsend (.double v)) h
  · exact handleCall_answers (fun v => hsend (.string v)) h
  · obtain rfl := Option.some.inj h
    exact Or.inr ⟨rfl, fun p hp => absurd hp List.not_mem_nil⟩

end Board

/-! ## Ledger of names -/

/-- Every live record has the name that its number was given out for. -/
def Registry.NamedBy {α : Type} (r : Registry α) (names : List (List UInt8)) : Prop :=
  ∀ i l, r.slot i = some l → names[i]? = some l.text

theorem getElem?_of_prefix {β : Type} {xs ys : List β} (h : xs <+: ys) {i : ℕ} {x : β}
    (hi : xs[i]? = some x) : ys[i]? = some x := by
  obtain ⟨t, rfl⟩ := h
  rw [List.getElem?_append_left (List.getElem?_eq_some_iff.mp hi).1, hi]

namespace Registry

variable {α : Type} {r r' : Registry α} {names names' : List (List UInt8)}

theorem NamedBy.empty : (empty : Registry α).NamedBy names := fun i l hl => by
  rw [slot_empty] at hl
  cases hl

theorem NamedBy.mono (h : r.NamedBy names) (hpre : names <+: names') : r.NamedBy names' :=
  fun i l hl => getElem?_of_prefix hpre (h i l hl)

/-- Whatever only takes records away keeps the names. -/
theorem NamedBy.anti (h : r.NamedBy names)
    (hsub : ∀ i l, r'.slot i = some l → r.slot i = some l) : r'.NamedBy names :=
  fun i l hl => h i l (hsub i l hl)

theorem NamedBy.unregister (h : r.NamedBy names) (hwf : r.WF) (id : LambdaId) :
    (lambdaRegistryUnregister r id).1.NamedBy names :=
  h.anti fun i l hl => by
    rw [lambdaRegistryUnregister_slot hwf] at hl
    split_ifs at hl
    exact hl

theorem NamedBy.push (h : r.NamedBy names) (hc : r.lambdaCounter.toNat < MAX_LAMBDAS)
    {l : RsRegisteredLambda α} (hl : names[r.lambdaCounter.toNat]? = some l.text) :
    (r.push l).NamedBy names := by
  intro i m hm
  rw [slot_push hc] at hm
  split_ifs at hm with hi
  · rw [hi, hl, Option.some.inj hm]
  · exact h i m hm

end Registry

/-! ## To Linux -/

/-- What a packet sent for a purpose can be read as. A registration is read under the name of
its number, or under one that is too long to be taken up. -/
def Origin.Fits (names : List (List UInt8)) (pkt : Packet) : Origin → Prop
  | registration k => ∀ o env, ∃ mem type cache,
      Linux.readPacket o env pkt = .registered mem type cache ∧
      (strlen mem ≤ MAX_LAMBDA_NAME_LENGTH →
        strlen mem < MAX_LAMBDA_NAME_LENGTH ∧ names[k]? = some (cstr mem))
  | unregistration => ∀ o env, Linux.readPacket o env pkt = .ignored
  | result n => ∃ id : LambdaId, IsResult id pkt ∧ names[id.toNat]? = some n
  | error => IsError pkt

def Parcel.Fits (names : List (List UInt8)) (p : Parcel) : Prop := p.origin.Fits names p.packet

theorem Parcel.Fits.mono {names names' : List (List UInt8)} {p : Parcel} (h : p.Fits names)
    (hpre : names <+: names') : p.Fits names' := by
  rcases p with ⟨pkt, _ | _ | _ | _⟩
  case registration k =>
    intro o env
    obtain ⟨mem, type, cache, hread, hmem⟩ := h o env
    refine ⟨mem, type, cache, hread, fun hlen => ?_⟩
    exact ⟨(hmem hlen).1, getElem?_of_prefix hpre (hmem hlen).2⟩
  case unregistration => exact h
  case result n =>
    obtain ⟨id, hres, hid⟩ := h
    exact ⟨id, hres, getElem?_of_prefix hpre hid⟩
  case error => exact h

/-- The packet of a registration, whose record has the name of its number. -/
theorem registered_fits {names : List (List UInt8)} {name : List UInt8} {type : RsLambdaType}
    {cache : RsCacheType} {env : Env} {pkt : Packet} (hlen : strlen name ≤ MAX_LAMBDA_NAME_LENGTH)
    (htype : type ≠ 0) (hpkt : Board.registeredPacket env name type cache = some pkt) {k : ℕ}
    {mem : List UInt8} {id : LambdaId} {lambda : FuncPtr}
    (hk : names[k]? = some (newRecord mem id name type cache lambda).text) :
    (Origin.registration k).Fits names pkt := by
  intro o env'
  rcases hlen.lt_or_eq with hlt | hfull
  · obtain ⟨lmem, hmsg, htext⟩ := Linux.readPacket_registered hpkt hlen (Or.inl hlt) o env'
    refine ⟨lmem, type, cache, hmsg, fun _ => ⟨?_, ?_⟩⟩
    · rwa [strlen, htext]
    · rw [hk, newRecord_text_of_lt hlt, htext]
  · obtain ⟨lmem, hmsg, hlong⟩ := Linux.readPacket_registered_full hpkt hfull htype o env'
    exact ⟨lmem, type, cache, hmsg, fun hle => absurd hle (not_le.mpr hlong)⟩

namespace Linux

variable {names names' : List (List UInt8)}

/-- Linux's records bear the board's names for their numbers, and each name ends inside its
field. -/
structure Knows (names : List (List UInt8)) (s : Linux) : Prop where
  wf : s.registry.WF
  named : s.registry.NamedBy names
  short : ∀ i l, s.registry.slot i = some l → l.text.length < MAX_LAMBDA_NAME_LENGTH

theorem Knows.started (garbage : ArgPtr → RsLinuxRegisteredLambda) :
    (started garbage).Knows names :=
  ⟨Registry.WF.empty, Registry.NamedBy.empty, fun i l hl => by
    rw [Linux.started, Registry.slot_empty] at hl
    cases hl⟩

theorem Knows.mono {s : Linux} (h : s.Knows names) (hpre : names <+: names') : s.Knows names' :=
  ⟨h.wf, h.named.mono hpre, h.short⟩

/-- A result goes to a record of the name it was sent for. -/
theorem Knows.written {s : Linux} (h : s.Knows names) {p : Parcel} (hfits : p.Fits names)
    {o : ByteOrder} {env : Env} {l : RsRegisteredLambda ArgPtr}
    (hw : written o s ⟨env, p.packet⟩ = some l) : p.origin.name = some l.text := by
  unfold Linux.written at hw
  rcases p with ⟨pkt, _ | _ | _ | _⟩
  case registration k =>
    obtain ⟨mem, type, cache, hread, -⟩ := hfits o env
    rw [hread] at hw
    cases hw
  case unregistration =>
    rw [hfits o env] at hw
    cases hw
  case result n =>
    obtain ⟨id, hres, hid⟩ := hfits
    rcases readPacket_of_isResult hres o env with hread | ⟨ret, frees, hread⟩
    · rw [hread] at hw
      cases hw
    · rw [hread] at hw
      have hslot : s.registry.slot id.toNat = some l := (h.wf.getById id).symm.trans hw
      exact hid.symm.trans (h.named _ _ hslot)
  case error =>
    obtain ⟨id, code, hread⟩ := hfits o env
    rw [hread] at hw
    cases hw

/-- Either nothing is registered, or the parcel is a registration and its lambda gets
Linux's next number. -/
theorem Knows.receive {s : Linux} (h : s.Knows names) {p : Parcel} (hfits : p.Fits names)
    (o : ByteOrder) (env : Env) :
    ((Linux.receive o s ⟨env, p.packet⟩).registry = s.registry) ∨
    (∃ k, p.origin = .registration k ∧
      (Linux.receive o s ⟨env, p.packet⟩).registry.lambdaCounter.toNat =
        s.registry.lambdaCounter.toNat + 1 ∧
      (k = s.registry.lambdaCounter.toNat →
        (Linux.receive o s ⟨env, p.packet⟩).Knows names)) := by
  rw [receive_eq]
  rcases p with ⟨pkt, _ | _ | _ | _⟩
  case registration k =>
    obtain ⟨mem, type, cache, hread, hmem⟩ := hfits o env
    simp only [hread]
    rcases lambdaRegistryRegister_cases h.wf env.heap mem type cache s.brk with
      ⟨block, -, hacc, heq⟩ | ⟨-, heq, -⟩
    · obtain ⟨hlen, hname⟩ := hmem hacc.2.2.1
      have htext := newRecord_text_of_lt hlen block s.registry.lambdaCounter type cache s.brk
      have hreg : (act env.heap s (.registered mem type cache)).state.registry =
          s.registry.push (newRecord block s.registry.lambdaCounter mem type cache s.brk) := by
        rw [registry_act]
        exact congrArg Prod.fst heq
      refine Or.inr ⟨k, rfl, ?_, fun hk => ⟨?_, ?_, ?_⟩⟩
      · rw [hreg, Registry.toNat_counter_push hacc.1]
      · rw [hreg]
        exact h.wf.push hacc.1 rfl
      · rw [hreg]
        exact h.named.push hacc.1 (by rw [htext, ← hk, hname])
      · intro i l hl
        rw [hreg, Registry.slot_push hacc.1] at hl
        split_ifs at hl
        · rw [← Option.some.inj hl, htext]
          exact hlen
        · exact h.short i l hl
    · exact Or.inl ((registry_act ..).trans heq)
  case unregistration =>
    simp only [hfits o env]
    exact Or.inl rfl
  case result n =>
    obtain ⟨id, hres, -⟩ := hfits
    left
    rw [registry_act]
    rcases readPacket_of_isResult hres o env with hread | ⟨ret, frees, hread⟩ <;> simp only [hread]
  case error =>
    obtain ⟨id, code, hread⟩ := hfits o env
    simp only [hread]
    exact Or.inl (registry_act ..)

end Linux

/-! ## To the board -/

/-- What the call packet can be read as: it carries the number or the name of the lambda it
was issued for. -/
def Request.Fits (names : List (List UInt8)) (r : Request) : Prop :=
  (∃ sender id type, Linux.callByIdPacket sender id type = some r.packet ∧
    names[id.toNat]? = some r.name) ∨
  (∃ sender name type, strlen name < MAX_LAMBDA_NAME_LENGTH ∧
    Linux.callByNamePacket sender name type = some r.packet ∧ cstr name = r.name)

theorem Request.Fits.mono {names names' : List (List UInt8)} {r : Request} (h : r.Fits names)
    (hpre : names <+: names') : r.Fits names' := by
  rcases h with ⟨sender, id, type, hpkt, hid⟩ | hname
  · exact Or.inl ⟨sender, id, type, hpkt, getElem?_of_prefix hpre hid⟩
  · exact Or.inr hname

/-- A call that waits sends a packet for the record it waits on. -/
theorem Linux.Knows.request {names : List (List UInt8)} {s : Linux} (h : s.Knows names) {env : Env}
    {c : Call} {sent : List Packet} (hsent : s.request env c = some sent) {pkt : Packet}
    (hpkt : pkt ∈ sent) : ∃ l, s.waitsOn c = some l ∧ Request.Fits names ⟨pkt, l.text⟩ := by
  unfold Linux.request at hsent
  cases hw : s.waitsOn c with
  | none =>
    rw [hw] at hsent
    obtain rfl := Option.some.inj hsent
    cases hpkt
  | some l =>
    rw [hw] at hsent
    obtain ⟨packet, hpacket, rfl⟩ := Option.map_eq_some_iff.mp hsent
    obtain rfl := List.mem_singleton.mp hpkt
    refine ⟨l, rfl, ?_⟩
    obtain ⟨hfound, -, -⟩ := waitsOn_eq_some.mp hw
    cases c with
    | byId id type =>
      have hslot : s.registry.slot id.toNat = some l := (h.wf.getById id).symm.trans hfound
      exact Or.inl ⟨env, id, type, hpacket, h.named _ _ hslot⟩
    | byName name type =>
      obtain ⟨hslot, htext⟩ := h.wf.of_getByName hfound
      have hshort := h.short _ _ hslot
      rw [htext] at hshort
      exact Or.inr ⟨env, name, type, hshort, hpacket, htext.symm⟩

namespace Board

/-- A call is answered for the lambda it was issued for, if for any. -/
theorem answers_of_fits {names : List (List UInt8)} {b : Board} (hwf : b.registry.WF)
    (hnamed : b.registry.NamedBy names) {r : Request} (hfits : r.Fits names) {o : ByteOrder}
    {env : Env} {ev : Evaluators} {served : Served}
    (h : handleReceivedPacket o env ev b r.packet = some served) :
    (∃ id, b.Answers id served) ∧ ∀ l, served.invoked = some l → l.text = r.name := by
  have hinvoked : ∀ {id l}, b.Answers id served → served.invoked = some l →
      b.registry.slot id.toNat = some l := by
    rintro id l (⟨l', hl', hget, -⟩ | ⟨hnone, -⟩) hl
    · rw [hl] at hl'
      obtain rfl := Option.some.inj hl'
      rwa [hwf.getById] at hget
    · rw [hl] at hnone
      cases hnone
  rcases hfits with ⟨sender, id, type, hpkt, hid⟩ | ⟨sender, name, type, hlen, hpkt, hname⟩
  · rw [handle_callById hpkt] at h
    have hans := handleCallLambda_answers h
    refine ⟨⟨id, hans⟩, fun l hl => ?_⟩
    have hslot := hnamed _ _ (hinvoked hans hl)
    exact Option.some.inj (hslot.symm.trans hid)
  · rw [handle_callByName hpkt hlen.le (Or.inl hlen)] at h
    split_ifs at h with h255
    · obtain rfl := Option.some.inj h
      refine ⟨⟨0, Or.inr ⟨rfl, fun p hp => absurd hp List.not_mem_nil⟩⟩, fun l hl => ?_⟩
      cases hl
    · have hans := handleCallLambda_answers h
      refine ⟨⟨_, hans⟩, fun l hl => ?_⟩
      have hslot := hinvoked hans hl
      unfold getLambdaIdFromName at hslot h255
      cases hget : getRegisteredLambdaByName b.registry name with
      | none =>
        rw [hget] at h255
        exact absurd rfl h255
      | some m =>
        rw [hget] at hslot
        obtain ⟨hm, htext⟩ := hwf.of_getByName hget
        obtain rfl : m = l := Option.some.inj (hm.symm.trans hslot)
        rw [htext, hname]

end Board

end RS
