import Riotsensors.Sanity.Packets
import Riotsensors.Sanity.Handler

/-! What the receiving side reads in the packets that the sending side built. -/

namespace RS

open CMem

namespace Linux

theorem readPacket_of_registered {o : ByteOrder} {env : Env} {pkt : Packet}
    (hlen : pkt.length = SIZEOF_RS_PACKET_REGISTERED)
    (htag : byteAt pkt PTYPE = RS_PACKET_REGISTERED) :
    readPacket o env pkt =
      .registered (pkt.drop NAME ++ env.beyond) (byteAt pkt LTYPE) (byteAt pkt CACHE) := by
  rw [readPacket, if_neg (by rw [hlen]; decide), if_pos htag, if_neg (not_not.mpr hlen)]

/-- A registration is read as it was sent if its name is shorter than the field, or the
type byte that follows a full field is NUL. -/
theorem readPacket_registered {name : List UInt8} {type : RsLambdaType} {cache : RsCacheType}
    {sender : Env} {pkt : Packet}
    (hpkt : Board.registeredPacket sender name type cache = some pkt)
    (hlen : strlen name ≤ MAX_LAMBDA_NAME_LENGTH)
    (hend : strlen name < MAX_LAMBDA_NAME_LENGTH ∨ type = 0) (o : ByteOrder) (env : Env) :
    ∃ mem, readPacket o env pkt = .registered mem type cache ∧ cstr mem = cstr name := by
  obtain ⟨pkt', hpkt', hl, htag, htype, hcache, hname⟩ :=
    Board.registeredPacket_spec hlen sender type cache
  obtain rfl : pkt' = pkt := Option.some.inj (hpkt'.symm.trans hpkt)
  refine ⟨_, ?_, hname.cstr_eq hlen ?_ (by rw [hl]; decide) env.beyond⟩
  · rw [readPacket_of_registered hl htag, htype, hcache]
  · rcases hend with hlt | rfl
    · exact Or.inl hlt
    · exact Or.inr htype

/-- A name of full field length is read on into the type byte: too long to register. -/
theorem readPacket_registered_full {name : List UInt8} {type : RsLambdaType} {cache : RsCacheType}
    {sender : Env} {pkt : Packet}
    (hpkt : Board.registeredPacket sender name type cache = some pkt)
    (hfull : strlen name = MAX_LAMBDA_NAME_LENGTH) (htype : type ≠ 0) (o : ByteOrder) (env : Env) :
    ∃ mem, readPacket o env pkt = .registered mem type cache ∧
      MAX_LAMBDA_NAME_LENGTH < strlen mem := by
  obtain ⟨pkt', hpkt', hlen, htag, hty, hcache, hname⟩ :=
    Board.registeredPacket_spec hfull.le sender type cache
  obtain rfl : pkt' = pkt := Option.some.inj (hpkt'.symm.trans hpkt)
  refine ⟨_, ?_, hname.lt_strlen hfull ?_ env.beyond⟩
  · rw [readPacket_of_registered hlen htag, hty, hcache]
  · change byteAt pkt' LTYPE ≠ 0
    rwa [hty]

/-- The packet of an unregistration is tagged as a registration, whose size it has not. -/
theorem readPacket_unregistered {lambda : RsRegisteredLambda FuncPtr} {sender : Env}
    {id : LambdaId} {pkt : Packet} (h : Board.unregisteredPacket sender id lambda = some pkt)
    (o : ByteOrder) (env : Env) : readPacket o env pkt = .ignored := by
  by_cases hname : strlen lambda.nameMem < MAX_LAMBDA_NAME_LENGTH
  · obtain ⟨pkt', hpkt', hlen, htag, -⟩ := Board.unregisteredPacket_spec hname sender id
    obtain rfl : pkt' = pkt := Option.some.inj (hpkt'.symm.trans h)
    rw [readPacket, if_neg (by rw [hlen]; decide), if_pos htag, if_pos (by rw [hlen]; decide)]
  · rw [Board.unregisteredPacket_none (not_lt.mp hname)] at h
    cases h

theorem readPacket_resultInt {lambda : RsRegisteredLambda FuncPtr}
    (h : BASE_NAME + strlen lambda.nameMem < SIZEOF_RS_PACKET_LAMBDA_RESULT_INT) (o : ByteOrder)
    (sender : Env) (result : RsInt) :
    ∃ pkt, Board.resultIntPacket o sender lambda result = some pkt ∧
      ∀ env, readPacket o env pkt = .result lambda.id (.retI result) false := by
  obtain ⟨pkt, hpkt, hlen, htag, hid, hint⟩ := Board.resultIntPacket_spec h o sender result
  refine ⟨pkt, hpkt, fun env => ?_⟩
  rw [readPacket, if_neg (by rw [hlen]; decide), if_neg (by rw [htag]; decide),
    if_neg (by rw [htag]; decide), if_pos htag, if_neg (not_not.mpr hlen), hid, hint]

theorem readPacket_resultDouble {o : ByteOrder} {pkt : Packet}
    (hlen : pkt.length = SIZEOF_RS_PACKET_LAMBDA_RESULT_DOUBLE)
    (htag : byteAt pkt PTYPE = RS_PACKET_RESULT_DOUBLE) (env : Env) :
    ∃ d, readPacket o env pkt = .result (byteAt pkt LAMBDA_ID) (.retD d) false := by
  have hid : byteAt (ntohRsPacketLambdaResultDouble o env.undef pkt) LAMBDA_ID =
      byteAt pkt LAMBDA_ID := byteAt_setField_of_lt (by decide)
  refine ⟨getDouble o (ntohRsPacketLambdaResultDouble o env.undef pkt) RESULT, ?_⟩
  rw [readPacket, if_neg (by rw [hlen]; decide), if_neg (by rw [htag]; decide),
    if_neg (by rw [htag]; decide), if_neg (by rw [htag]; decide), if_pos htag,
    if_neg (not_not.mpr hlen), ← hid]

theorem readPacket_resultError (sender : Env) (id : LambdaId) (code : Int8) :
    ∃ pkt, Board.resultErrorPacket sender id code = some pkt ∧
      ∀ o env, readPacket o env pkt = .error id code := by
  obtain ⟨pkt, hpkt, hlen, htag, hid, hcode⟩ := Board.resultErrorPacket_spec sender id code
  refine ⟨pkt, hpkt, fun o env => ?_⟩
  rw [readPacket, if_neg (by rw [hlen]; decide), if_neg (by rw [htag]; decide),
    if_neg (by rw [htag]; decide), if_neg (by rw [htag]; decide), if_neg (by rw [htag]; decide),
    if_neg (by rw [htag]; decide), if_pos htag, if_neg (not_not.mpr hlen), hid, hcode]

end Linux

namespace Board

/-- A call by id is read as it was sent. -/
theorem handle_callById {sender : Env} {id : LambdaId} {type : RsLambdaType} {pkt : Packet}
    (hpkt : Linux.callByIdPacket sender id type = some pkt) (o : ByteOrder) (env : Env)
    (ev : Evaluators) (b : Board) :
    handleReceivedPacket o env ev b pkt = handleCallLambda o env ev b id type := by
  obtain ⟨pkt', hpkt', hlen, htag, hid, htype⟩ := Linux.callByIdPacket_spec sender id type
  obtain rfl : pkt' = pkt := Option.some.inj (hpkt'.symm.trans hpkt)
  rw [handleReceivedPacket, if_neg (by rw [hlen]; decide), if_pos htag,
    if_neg (not_not.mpr hlen)]
  change handleCallLambda o env ev b (byteAt pkt' LAMBDA_ID) (byteAt pkt' EXPECTED_TYPE) = _
  rw [hid, htype]

theorem getLambdaIdFromName_congr {mem name : List UInt8} (h : cstr mem = cstr name) (b : Board) :
    getLambdaIdFromName b mem = getLambdaIdFromName b name := by
  unfold getLambdaIdFromName getRegisteredLambdaByName strEq
  rw [h]

/-- A call by name is read as it was sent if the name is shorter than its field, or the
type byte that follows a full field is NUL. -/
theorem handle_callByName {sender : Env} {name : List UInt8} {type : RsLambdaType} {pkt : Packet}
    (hpkt : Linux.callByNamePacket sender name type = some pkt)
    (hlen : strlen name ≤ MAX_LAMBDA_NAME_LENGTH)
    (hend : strlen name < MAX_LAMBDA_NAME_LENGTH ∨ type = 0) (o : ByteOrder) (env : Env)
    (ev : Evaluators) (b : Board) :
    handleReceivedPacket o env ev b pkt =
      if getLambdaIdFromName b name = 255 then some Served.nothing
      else handleCallLambda o env ev b (getLambdaIdFromName b name) type := by
  obtain ⟨pkt', hpkt', hl, htag, htype, hname⟩ := Linux.callByNamePacket_spec hlen sender type
  obtain rfl : pkt' = pkt := Option.some.inj (hpkt'.symm.trans hpkt)
  have hend' : strlen name < MAX_LAMBDA_NAME_LENGTH ∨
      byteAt pkt' (NAME + MAX_LAMBDA_NAME_LENGTH) = 0 := by
    rcases hend with hlt | rfl
    · exact Or.inl hlt
    · exact Or.inr htype
  have hread := hname.cstr_eq hlen hend' (by rw [hl]; decide) env.beyond
  rw [handleReceivedPacket, if_neg (by rw [hl]; decide), if_neg (by rw [htag]; decide),
    if_pos htag, if_neg (not_not.mpr hl)]
  simp only [ntohRsPacketCallByName, ntohRsPacketBase, getLambdaIdFromName_congr hread, htype]

end Board

end RS
