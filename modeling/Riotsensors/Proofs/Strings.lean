import Riotsensors.Proofs.RegistryMap
import Riotsensors.Sanity.Board
import Riotsensors.Sanity.Handler

/-! String results: the packet object ends one byte into the string, so that only the
empty string is copied inside it. -/

namespace RS

open CMem

namespace Board

/-- The board builds the packet inside its object, and a Linux process that has a string
lambda under the id caches the string from it. -/
def StringSurvives (o : ByteOrder) (env : Env) (b : Board) (id : LambdaId) (result : List UInt8) :
    Prop :=
  ∃ code pkt, sendResultLambdaString o env b id result = some (code, [pkt]) ∧
    ∀ (lenv : Env) (s : Linux) (l : RsRegisteredLambda ArgPtr),
      getRegisteredLambdaById s.registry id = some l → l.type = RS_LAMBDA_STRING →
      ∃ block, (Linux.handleReceivedPacket o lenv s pkt).state.heap l.arg =
          ⟨true, RS_CALL_SUCCESS, .retS block⟩ ∧ cstr block = cstr result

/-- The string is empty, and the lambda's name as it is read off the record ends before
the length field. -/
def StringFits (lambda : RsRegisteredLambda FuncPtr) (result : List UInt8) : Prop :=
  strlen result = 0 ∧ strlen lambda.nameMem ≤ 14

/-- Any string with a character is copied past the object. -/
theorem resultStringPacket_none {lambda : RsRegisteredLambda FuncPtr} {result : List UInt8}
    (h : ¬ StringFits lambda result) (o : ByteOrder) (env : Env) :
    resultStringPacket o env lambda result = none := by
  by_cases hname : strlen lambda.nameMem ≤ 14
  · have hlong : strlen result ≠ 0 := fun h0 => h ⟨h0, hname⟩
    have hbase : BASE_NAME + strlen lambda.nameMem < 17 := by
      change 2 + strlen lambda.nameMem < 17
      omega
    obtain ⟨p1, p2, e1, e2, l2, -⟩ := resultBase_spec lambda (by decide) hbase env
      RS_PACKET_RESULT_STRING
    obtain ⟨p3, e3, l3, -⟩ := poke_exists p2 14 (o.write 2 (strlen result + 1)) (by simp; omega)
    have hover : poke p3 STRING (peek result 0 (strlen result + 1)) = none := by
      rw [poke_eq_none, length_peek, l3, l2]
      change 17 < 16 + (strlen result + 1)
      omega
    simp [resultStringPacket, e1, e2, e3, hover]
  · have hbase : 17 ≤ BASE_NAME + strlen lambda.nameMem := by
      change 17 ≤ 2 + strlen lambda.nameMem
      omega
    obtain ⟨p1, e1, e2⟩ := resultBase_none lambda (by decide) hbase env RS_PACKET_RESULT_STRING
    simp [resultStringPacket, e1, e2]

/-- The packet of an empty string. -/
theorem resultStringPacket_spec {lambda : RsRegisteredLambda FuncPtr} {result : List UInt8}
    (h : StringFits lambda result) (o : ByteOrder) (env : Env) :
    ∃ pkt, resultStringPacket o env lambda result = some pkt ∧
      pkt.length = SIZEOF_RS_PACKET_LAMBDA_RESULT_STRING ∧
      byteAt pkt PTYPE = RS_PACKET_RESULT_STRING ∧ byteAt pkt LAMBDA_ID = lambda.id ∧
      getU16 o pkt RESULT = o.htons 1 ∧ byteAt pkt STRING = 0 := by
  obtain ⟨hempty, hname⟩ := h
  have hbase : BASE_NAME + strlen lambda.nameMem < 17 := by
    change 2 + strlen lambda.nameMem < 17
    omega
  obtain ⟨p1, p2, e1, e2, l2, t2, i2⟩ := resultBase_spec lambda (by decide) hbase env
    RS_PACKET_RESULT_STRING
  obtain ⟨p3, e3, l3, b3⟩ := poke_exists p2 14 (o.write 2 1) (by simp; omega)
  have hnul : peek result 0 1 = [0] := by
    have hbyte := byteAt_strlen result
    rw [hempty] at hbyte
    simp [peek, hbyte]
  obtain ⟨p4, e4, l4, b4⟩ := poke_exists p3 16 [0] (by simp; omega)
  rw [ByteOrder.length_write] at b3
  simp only [List.length_singleton] at b4
  have hlen4 : p4.length = 17 := by omega
  have hget : getU16 o p4 RESULT = 1 := by
    apply getU16_of_bytes
    intro i hi
    change byteAt p4 (14 + i) = _
    rw [b4, if_neg (by omega), b3, if_pos (by omega), Nat.add_sub_cancel_left]
    rfl
  have hfield : RESULT + (o.write 2 (o.htons 1).toNat).length ≤ p4.length := by
    rw [ByteOrder.length_write, hlen4]
    decide
  have hlen5 : (setField p4 RESULT (o.write 2 (o.htons 1).toNat)).length = 17 := by
    rw [length_setField, hlen4]
  refine ⟨setField p4 RESULT (o.write 2 (o.htons 1).toNat), ?_, hlen5, ?_, ?_, ?_, ?_⟩
  · have hsent := peek_append_self (setField p4 RESULT (o.write 2 (o.htons 1).toNat)) env.beyond
    rw [hlen5] at hsent
    simp [resultStringPacket, e1, e2, e3, e4, hempty, hnul, htonRsPacketLambdaResultString,
      htonRsPacketLambdaResult, htonRsPacketBase, hget, hsent]
  · rw [byteAt_setField_of_lt (by decide), b4, if_neg (by decide), b3, if_neg (by decide), t2]
  · rw [byteAt_setField_of_lt (by decide), b4, if_neg (by decide), b3, if_neg (by decide), i2]
  · exact getU16_setField o p4 RESULT (by rw [hlen4]; decide) _
  · rw [byteAt_setField hfield, ByteOrder.length_write, if_neg (by decide), b4, if_pos (by decide)]
    rfl

end Board

namespace Linux

/-- Linux stores the NUL that follows the length. -/
theorem readPacket_resultString {o : ByteOrder} {pkt : Packet}
    (hlen : pkt.length = SIZEOF_RS_PACKET_LAMBDA_RESULT_STRING)
    (htag : byteAt pkt PTYPE = RS_PACKET_RESULT_STRING) (hget : getU16 o pkt RESULT = o.htons 1)
    (hnul : byteAt pkt STRING = 0) (lenv : Env) :
    ∃ block, readPacket o lenv pkt = .result (byteAt pkt LAMBDA_ID) (.retS block) true ∧
      cstr block = [] := by
  have hlen' : pkt.length = 17 := hlen
  have hntoh : ntohRsPacketLambdaResultString o pkt = setField pkt RESULT (o.write 2 1) := by
    simp only [ntohRsPacketLambdaResultString, ntohRsPacketLambdaResult, ntohRsPacketBase, hget,
      ByteOrder.ntohs_htons]
    rfl
  have hone : getU16 o (setField pkt RESULT (o.write 2 1)) RESULT = 1 :=
    getU16_setField o pkt RESULT (by rw [hlen]; decide) 1
  have hblock : resultBlock o lenv (setField pkt RESULT (o.write 2 1)) = [0] := by
    have hbyte : byteAt (setField pkt RESULT (o.write 2 1) ++ lenv.beyond) STRING = 0 := by
      have hfield : RESULT + (o.write 2 1).length ≤ pkt.length := by
        rw [ByteOrder.length_write, hlen]
        decide
      rw [byteAt_append_left (by rw [length_setField, hlen]; decide), byteAt_setField hfield,
        ByteOrder.length_write, if_neg (by decide), hnul]
    rw [resultBlock, hone]
    exact congrArg (fun c => [c]) hbyte
  refine ⟨[0], ?_, rfl⟩
  rw [readPacket, if_neg (by rw [hlen]; decide), if_neg (by rw [htag]; decide),
    if_neg (by rw [htag]; decide), if_neg (by rw [htag]; decide), if_neg (by rw [htag]; decide),
    if_pos htag, if_neg (by rw [hlen]; decide)]
  simp only [hntoh, hblock, byteAt_setField_of_lt (show LAMBDA_ID < RESULT by decide)]

end Linux

namespace Board

theorem stringSurvives_iff {b : Board} (hwf : b.registry.WF) (hup : b.rsSptStarted = true)
    {id : LambdaId} {lambda : RsRegisteredLambda FuncPtr}
    (hget : getRegisteredLambdaById b.registry id = some lambda)
    (htype : lambda.type = RS_LAMBDA_STRING) (o : ByteOrder) (env : Env) (result : List UInt8) :
    StringSurvives o env b id result ↔ StringFits lambda result := by
  have hid : lambda.id = id :=
    UInt8.toNat_inj.mp (hwf.ids _ _ ((hwf.getById id).symm.trans hget))
  have hsend : sendResultLambdaString o env b id result =
      (resultStringPacket o env lambda result).map fun pkt => (RS_RESULT_SUCCESS, [pkt]) := by
    simp only [sendResultLambdaString, sendResultLambda, hget, htype, ne_eq, not_true_eq_false,
      if_false, hup, if_true]
    cases resultStringPacket o env lambda result <;> rfl
  by_cases hfits : StringFits lambda result
  · obtain ⟨pkt, hpkt, hlen, htag, hpid, hfield, hnul⟩ := resultStringPacket_spec hfits o env
    refine ⟨fun _ => hfits, fun _ => ⟨RS_RESULT_SUCCESS, pkt, by rw [hsend, hpkt]; rfl, ?_⟩⟩
    intro lenv s l hl _
    obtain ⟨block, hmsg, hblock⟩ := Linux.readPacket_resultString hlen htag hfield hnul lenv
    rw [hpid, hid] at hmsg
    refine ⟨block, ?_, hblock.trans (List.length_eq_zero_iff.mp hfits.1).symm⟩
    rw [Linux.handleReceivedPacket_eq, hmsg, Linux.act_result_of_live hl]
    simp [Linux.setArg]
  · refine ⟨?_, fun h => absurd h hfits⟩
    rintro ⟨code, pkt, hsent, -⟩
    rw [hsend, resultStringPacket_none hfits] at hsent
    cases hsent

end Board

/-- Over all reachable boards: a string survives the link exactly when it is empty and its
lambda's name leaves the header intact. -/
theorem string_survives_iff (ops : List (RegistryOp FuncPtr)) {id : LambdaId}
    {lambda : RsRegisteredLambda FuncPtr}
    (hget : getRegisteredLambdaById (Registry.after ops) id = some lambda)
    (htype : lambda.type = RS_LAMBDA_STRING) (o : ByteOrder) (env : Env) (result : List UInt8) :
    Board.StringSurvives o env ⟨Registry.after ops, true⟩ id result ↔
      Board.StringFits lambda result :=
  Board.stringSurvives_iff (Registry.after_wf ops) rfl hget htype o env result

/-- Registers a string lambda `"s"`. -/
def registersS : List (RegistryOp FuncPtr) :=
  [.register (some []) [115] RS_LAMBDA_STRING RS_CACHE_NO_CACHE 1]

def recordS : RsRegisteredLambda FuncPtr :=
  newRecord [] 0 [115] RS_LAMBDA_STRING RS_CACHE_NO_CACHE 1

/-- It returns the empty string or `"Hi"`. -/
theorem string_survives_iff_s :
    (Board.StringSurvives .little {} ⟨Registry.after registersS, true⟩ 0 [] ↔
      Board.StringFits recordS []) ∧
    (Board.StringSurvives .little {} ⟨Registry.after registersS, true⟩ 0 [72, 105] ↔
      Board.StringFits recordS [72, 105]) :=
  ⟨@string_survives_iff registersS 0 recordS rfl rfl .little {} [],
    @string_survives_iff registersS 0 recordS rfl rfl .little {} [72, 105]⟩

/-- `"Hi"` is copied past the packet object. -/
theorem hi_does_not_survive :
    ¬ ∀ (ops : List (RegistryOp FuncPtr)) (id : LambdaId) (lambda : RsRegisteredLambda FuncPtr)
      (result : List UInt8), getRegisteredLambdaById (Registry.after ops) id = some lambda →
      lambda.type = RS_LAMBDA_STRING →
        Board.StringSurvives .little {} ⟨Registry.after ops, true⟩ id result := by
  intro h
  have hfits := (Board.stringSurvives_iff (Registry.after_wf registersS) rfl
    (show getRegisteredLambdaById (Registry.after registersS) 0 = some recordS from rfl) rfl
    .little {} [72, 105]).mp (h registersS 0 recordS [72, 105] rfl rfl)
  exact absurd hfits.1 (by decide)

end RS
