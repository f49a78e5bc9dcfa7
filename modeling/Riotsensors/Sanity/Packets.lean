import Riotsensors.Spec.Connector

/-! The packets that each side builds: when the stores stay inside the packet
object, and what the bytes handed to the link are then. -/

namespace RS

open CMem

/-- The name bytes of a packet, and the terminator where the field has room for it. -/
def HoldsName (pkt : Packet) (name : List UInt8) : Prop :=
  ∀ i < MAX_LAMBDA_NAME_LENGTH, i ≤ strlen name →
    byteAt pkt (NAME + i) = byteAt (cstr name ++ [0]) i

/-- A terminated name is read as it was written, whatever memory follows. A name that
fills its field is terminated when the next byte of the packet is NUL. -/
theorem HoldsName.cstr_eq {pkt : Packet} {name : List UInt8} (h : HoldsName pkt name)
    (hlen : strlen name ≤ MAX_LAMBDA_NAME_LENGTH)
    (hend : strlen name < MAX_LAMBDA_NAME_LENGTH ∨ byteAt pkt (NAME + MAX_LAMBDA_NAME_LENGTH) = 0)
    (hpkt : NAME + MAX_LAMBDA_NAME_LENGTH < pkt.length) (beyond : List UInt8) :
    cstr (pkt.drop NAME ++ beyond) = cstr name := by
  have hlen' : strlen name ≤ 12 := hlen
  have hpkt' : 1 + 12 < pkt.length := hpkt
  have hdrop : (pkt.drop NAME).length = pkt.length - 1 := List.length_drop
  apply cstr_eq_of_bytes (cstr_isText name)
  intro i hi
  change i ≤ strlen name at hi
  rw [byteAt_append_left (by omega), byteAt_drop]
  by_cases h12 : i < 12
  · exact h i h12 hi
  · have hfull : (cstr name).length = 12 := by change strlen name = 12; omega
    obtain rfl : i = 12 := by omega
    rw [hend.resolve_left (not_lt.mpr (by change 12 ≤ strlen name; omega)),
      byteAt_append_right (by omega), hfull]
    rfl

/-- An unterminated name field is read on into the byte behind it. -/
theorem HoldsName.lt_strlen {pkt : Packet} {name : List UInt8} (h : HoldsName pkt name)
    (hlen : strlen name = MAX_LAMBDA_NAME_LENGTH)
    (hnext : byteAt pkt (NAME + MAX_LAMBDA_NAME_LENGTH) ≠ 0) (beyond : List UInt8) :
    MAX_LAMBDA_NAME_LENGTH < strlen (pkt.drop NAME ++ beyond) := by
  have hlen' : strlen name = 12 := hlen
  have hpkt : 1 + 12 < pkt.length := by
    by_contra hge
    exact hnext (byteAt_of_length_le (by change pkt.length ≤ 1 + 12; omega))
  have hdrop : (pkt.drop NAME).length = pkt.length - 1 := List.length_drop
  apply le_strlen
  intro i hi
  have hi' : i < 13 := hi
  rw [byteAt_append_left (by omega), byteAt_drop]
  by_cases h12 : i < 12
  · have hlt : i < (cstr name).length := by change i < strlen name; omega
    rw [h i h12 (by omega), byteAt_append_left hlt,
      ← byteAt_of_lt_strlen (by omega : i < strlen name)]
    exact byteAt_ne_zero_of_lt (by omega)
  · obtain rfl : i = 12 := by omega
    exact hnext

theorem length_setField (pkt : Packet) (off : ℕ) (bs : List UInt8) :
    (setField pkt off bs).length = pkt.length := by
  unfold setField
  cases h : poke pkt off bs with
  | none => rfl
  | some pkt' => exact (poke_spec h).1

theorem byteAt_setField {pkt : Packet} {off : ℕ} {bs : List UInt8}
    (h : off + bs.length ≤ pkt.length) (i : ℕ) :
    byteAt (setField pkt off bs) i =
      if off ≤ i ∧ i < off + bs.length then byteAt bs (i - off) else byteAt pkt i := by
  obtain ⟨pkt', hpkt, -, hb⟩ := poke_exists _ _ _ h
  rw [setField, hpkt, Option.getD_some, hb i]

/-- Bytes outside the field are kept, also when the field does not fit. -/
theorem byteAt_setField_of_lt {pkt : Packet} {off i : ℕ} {bs : List UInt8} (hi : i < off) :
    byteAt (setField pkt off bs) i = byteAt pkt i := by
  unfold setField
  cases h : poke pkt off bs with
  | none => rfl
  | some pkt' =>
    rw [Option.getD_some, (poke_spec h).2 i, if_neg (by omega)]

theorem poke_before {obj obj' bs : List UInt8} {off : ℕ} (h : poke obj off bs = some obj') :
    obj'.length = obj.length ∧ ∀ i < off, byteAt obj' i = byteAt obj i := by
  obtain ⟨hlen, hb⟩ := poke_spec h
  exact ⟨hlen, fun i hi => by rw [hb, if_neg (by omega)]⟩

theorem poke_byte {obj obj' : List UInt8} {off : ℕ} {b : UInt8} (h : poke obj off [b] = some obj') :
    obj'.length = obj.length ∧ byteAt obj' off = b ∧ ∀ i ≠ off, byteAt obj' i = byteAt obj i := by
  obtain ⟨hlen, hb⟩ := poke_spec h
  simp only [List.length_singleton] at hb
  refine ⟨hlen, ?_, fun i hi => by rw [hb, if_neg (by omega)]⟩
  rw [hb, if_pos (by omega), Nat.sub_self]
  rfl

/-- A field that was assigned is read back. -/
theorem peek_eq_of_bytes (pkt : Packet) (off : ℕ) (bs : List UInt8)
    (h : ∀ i < bs.length, byteAt pkt (off + i) = byteAt bs i) : peek pkt off bs.length = bs := by
  apply ext_byteAt (length_peek _ _ _)
  intro i hi
  rw [length_peek] at hi
  rw [byteAt_peek hi, h i hi]

/-- Exactly the packet is read when its own length is sent. -/
theorem peek_append_self (pkt beyond : Packet) : peek (pkt ++ beyond) 0 pkt.length = pkt := by
  apply peek_eq_of_bytes
  intro i hi
  rw [Nat.zero_add, byteAt_append_left hi]

theorem getInt_of_bytes (o : ByteOrder) {pkt : Packet} {result : RsInt}
    (h : ∀ i < 4, byteAt pkt (RESULT + i) = byteAt (o.write 4 result.toUInt32.toNat) i) :
    getInt o pkt RESULT = result := by
  have hpeek : peek pkt RESULT 4 = o.write 4 result.toUInt32.toNat := by
    have hfield := peek_eq_of_bytes pkt RESULT (o.write 4 result.toUInt32.toNat) (by simpa using h)
    simpa using hfield
  have hlt : result.toUInt32.toNat < 256 ^ 4 := result.toUInt32.toNat_lt
  rw [getInt, hpeek, ByteOrder.read_write, Nat.mod_eq_of_lt hlt, UInt32.ofNat_toNat]
  simp

theorem getU16_of_bytes (o : ByteOrder) {pkt : Packet} {off : ℕ} {x : UInt16}
    (h : ∀ i < 2, byteAt pkt (off + i) = byteAt (o.write 2 x.toNat) i) :
    getU16 o pkt off = x := by
  have hpeek : peek pkt off 2 = o.write 2 x.toNat := by
    have hfield := peek_eq_of_bytes pkt off (o.write 2 x.toNat) (by simpa using h)
    simpa using hfield
  have hlt : x.toNat < 256 ^ 2 := x.toNat_lt
  rw [getU16, hpeek, ByteOrder.read_write, Nat.mod_eq_of_lt hlt, UInt16.ofNat_toNat]

/-- A length that was assigned is read back. -/
theorem getU16_setField (o : ByteOrder) (pkt : Packet) (off : ℕ) (h : off + 2 ≤ pkt.length)
    (x : UInt16) : getU16 o (setField pkt off (o.write 2 x.toNat)) off = x := by
  apply getU16_of_bytes
  intro i hi
  rw [byteAt_setField (by simpa using h), ByteOrder.length_write, if_pos (by omega),
    Nat.add_sub_cancel_left]

theorem getDouble_of_bytes (o : ByteOrder) {pkt : Packet} {d : RsDouble}
    (h : ∀ i < 8, byteAt pkt (RESULT + i) = byteAt (o.write 8 d.toNat) i) :
    getDouble o pkt RESULT = d := by
  have hpeek : peek pkt RESULT 8 = o.write 8 d.toNat := by
    have hfield := peek_eq_of_bytes pkt RESULT (o.write 8 d.toNat) (by simpa using h)
    simpa using hfield
  have hlt : d.toNat < 256 ^ 8 := d.toNat_lt
  rw [getDouble, hpeek, ByteOrder.read_write, Nat.mod_eq_of_lt hlt, UInt64.ofNat_toNat]

theorem getDouble_setField (o : ByteOrder) {pkt : Packet}
    (hlen : pkt.length = SIZEOF_RS_PACKET_LAMBDA_RESULT_DOUBLE) (d : RsDouble) :
    getDouble o (setField pkt RESULT (o.write 8 d.toNat)) RESULT = d := by
  have hfield : RESULT + (o.write 8 d.toNat).length ≤ pkt.length := by
    rw [ByteOrder.length_write, hlen]
  apply getDouble_of_bytes
  intro i hi
  rw [byteAt_setField hfield, ByteOrder.length_write, if_pos (by omega), Nat.add_sub_cancel_left]

/-! The layouts below are checked on literal offsets: `omega` does not look into
the names of the constants. -/

namespace Board

theorem registeredPacket_spec {name : List UInt8} (h : strlen name ≤ MAX_LAMBDA_NAME_LENGTH)
    (env : Env) (type : RsLambdaType) (cache : RsCacheType) :
    ∃ pkt, registeredPacket env name type cache = some pkt ∧
      pkt.length = SIZEOF_RS_PACKET_REGISTERED ∧ byteAt pkt PTYPE = RS_PACKET_REGISTERED ∧
      byteAt pkt LTYPE = type ∧ byteAt pkt CACHE = cache ∧ HoldsName pkt name := by
  have h12 : strlen name ≤ 12 := h
  obtain ⟨p1, e1, l1, b1⟩ := poke_exists (uninit 15 env.object) 0 [RS_PACKET_REGISTERED] (by simp)
  rw [length_uninit] at l1
  obtain ⟨p2, e2, l2, b2⟩ := strcpy_exists p1 1 name (by omega)
  obtain ⟨p3, e3, l3, b3⟩ := poke_exists p2 13 [type] (by simp; omega)
  obtain ⟨p4, e4, l4, b4⟩ := poke_exists p3 14 [cache] (by simp; omega)
  simp only [List.length_singleton] at b1 b3 b4
  have hlen : p4.length = 15 := by omega
  refine ⟨p4, ?_, hlen, ?_, ?_, ?_, ?_⟩
  · simp [registeredPacket, e1, e2, e3, e4, htonRsPacketRegistered, htonRsPacketBase]
  · rw [b4, if_neg (by decide), b3, if_neg (by decide), b2,
      if_neg (fun h => absurd h.1 (by decide)),
      b1, if_pos (by decide)]
    rfl
  · rw [b4, if_neg (by decide), b3, if_pos (by decide)]
    rfl
  · rw [b4, if_pos (by decide)]
    rfl
  · intro i hi hn
    have hi' : i < 12 := hi
    change byteAt p4 (1 + i) = _
    rw [b4, if_neg (by omega), b3, if_neg (by omega), b2, if_pos (by omega),
      Nat.add_sub_cancel_left]

/-- The header that a result packet of size `n` starts with: it is written where the
record's name, read as a C string, ends inside the object. -/
theorem resultBase_spec (lambda : RsRegisteredLambda FuncPtr) {n : ℕ} (hn : 14 ≤ n)
    (h : BASE_NAME + strlen lambda.nameMem < n) (env : Env) (ptype : RsPacketType) :
    ∃ p1 p2, poke (uninit n env.object) PTYPE [ptype] = some p1 ∧
      populateResultbaseFromLambda p1 lambda = some p2 ∧ p2.length = n ∧
      byteAt p2 PTYPE = ptype ∧ byteAt p2 LAMBDA_ID = lambda.id := by
  have h' : 2 + strlen lambda.nameMem < n := h
  obtain ⟨p1, e1, l1, b1⟩ := poke_exists (uninit n env.object) 0 [ptype]
    (by simp; omega)
  rw [length_uninit] at l1
  obtain ⟨p2, e2, l2, b2⟩ := poke_exists p1 1 [lambda.id]
    (by simp; omega)
  obtain ⟨p3, e3, l3, b3⟩ := strcpy_exists p2 2 lambda.nameMem (by omega)
  simp only [List.length_singleton] at b1 b2
  refine ⟨p1, p3, e1, ?_, by omega, ?_, ?_⟩
  · simp [populateResultbaseFromLambda, e2, e3]
  · rw [b3, if_neg (fun h => absurd h.1 (by decide)), b2, if_neg (by decide), b1,
      if_pos (by decide)]
    rfl
  · rw [b3, if_neg (fun h => absurd h.1 (by decide)), b2, if_pos (by decide)]
    rfl

/-- Conversely a name that does not end inside the object is written past it. -/
theorem resultBase_none (lambda : RsRegisteredLambda FuncPtr) {n : ℕ} (hn : 2 ≤ n)
    (h : n ≤ BASE_NAME + strlen lambda.nameMem) (env : Env) (ptype : RsPacketType) :
    ∃ p1, poke (uninit n env.object) PTYPE [ptype] = some p1 ∧
      populateResultbaseFromLambda p1 lambda = none := by
  obtain ⟨p1, e1, l1, b1⟩ := poke_exists (uninit n env.object) 0 [ptype]
    (by simp; omega)
  rw [length_uninit] at l1
  obtain ⟨p2, e2, l2, b2⟩ := poke_exists p1 1 [lambda.id]
    (by simp; omega)
  refine ⟨p1, e1, ?_⟩
  have hnone : strcpy p2 BASE_NAME lambda.nameMem = none :=
    strcpy_eq_none.mpr (by rw [l2, l1]; exact h)
  simp [populateResultbaseFromLambda, e2, hnone]

/-- An unregistration has the header of a result packet and nothing else. -/
theorem unregisteredPacket_eq (env : Env) (id : LambdaId) (lambda : RsRegisteredLambda FuncPtr) :
    unregisteredPacket env id lambda =
      (poke (uninit SIZEOF_RS_PACKET_UNREGISTERED env.object) PTYPE [RS_PACKET_REGISTERED]).bind
        fun pkt => populateResultbaseFromLambda pkt { lambda with id := id } := by
  simp only [unregisteredPacket, populateResultbaseFromLambda, htonRsPacketUnregistered,
    htonRsPacketBase, bind_pure]
  rfl

theorem unregisteredPacket_spec {lambda : RsRegisteredLambda FuncPtr}
    (h : strlen lambda.nameMem < MAX_LAMBDA_NAME_LENGTH) (env : Env) (id : LambdaId) :
    ∃ pkt, unregisteredPacket env id lambda = some pkt ∧
      pkt.length = SIZEOF_RS_PACKET_UNREGISTERED ∧ byteAt pkt PTYPE = RS_PACKET_REGISTERED ∧
      byteAt pkt LAMBDA_ID = id := by
  have h' : strlen lambda.nameMem < 12 := h
  have hfits : BASE_NAME + strlen lambda.nameMem < SIZEOF_RS_PACKET_UNREGISTERED := by
    change 2 + strlen lambda.nameMem < 14
    omega
  obtain ⟨p1, p2, e1, e2, l2, t2, i2⟩ :=
    resultBase_spec { lambda with id := id } (by decide) hfits env RS_PACKET_REGISTERED
  refine ⟨p2, ?_, l2, t2, i2⟩
  rw [unregisteredPacket_eq, e1, Option.bind_some, e2]

theorem unregisteredPacket_none {lambda : RsRegisteredLambda FuncPtr}
    (h : MAX_LAMBDA_NAME_LENGTH ≤ strlen lambda.nameMem) (env : Env) (id : LambdaId) :
    unregisteredPacket env id lambda = none := by
  have h' : 12 ≤ strlen lambda.nameMem := h
  have hover : SIZEOF_RS_PACKET_UNREGISTERED ≤ BASE_NAME + strlen lambda.nameMem := by
    change 14 ≤ 2 + strlen lambda.nameMem
    omega
  obtain ⟨p1, e1, e2⟩ :=
    resultBase_none { lambda with id := id } (by decide) hover env RS_PACKET_REGISTERED
  rw [unregisteredPacket_eq, e1, Option.bind_some, e2]

theorem resultIntPacket_spec {lambda : RsRegisteredLambda FuncPtr}
    (h : BASE_NAME + strlen lambda.nameMem < SIZEOF_RS_PACKET_LAMBDA_RESULT_INT) (o : ByteOrder)
    (env : Env) (result : RsInt) :
    ∃ pkt, resultIntPacket o env lambda result = some pkt ∧
      pkt.length = SIZEOF_RS_PACKET_LAMBDA_RESULT_INT ∧ byteAt pkt PTYPE = RS_PACKET_RESULT_INT ∧
      byteAt pkt LAMBDA_ID = lambda.id ∧ getInt o pkt RESULT = result := by
  obtain ⟨p1, p2, e1, e2, l2, t2, i2⟩ := resultBase_spec lambda (by decide) h env
    RS_PACKET_RESULT_INT
  obtain ⟨p3, e3, l3, b3⟩ := poke_exists p2 14 (o.write 4 result.toUInt32.toNat) (by rw [l2]; simp)
  rw [ByteOrder.length_write] at b3
  refine ⟨p3, ?_, l3.trans l2, ?_, ?_, ?_⟩
  · simp [resultIntPacket, e1, e2, e3, htonRsPacketLambdaResultInt, htonRsPacketLambdaResult,
      htonRsPacketBase]
  · rw [b3, if_neg (by decide), t2]
  · rw [b3, if_neg (by decide), i2]
  · exact getInt_of_bytes o fun i hi => byteAt_poke e3 (by simpa using hi)

theorem resultIntPacket_none {lambda : RsRegisteredLambda FuncPtr}
    (h : SIZEOF_RS_PACKET_LAMBDA_RESULT_INT ≤ BASE_NAME + strlen lambda.nameMem) (o : ByteOrder)
    (env : Env) (result : RsInt) : resultIntPacket o env lambda result = none := by
  obtain ⟨p1, e1, e2⟩ := resultBase_none lambda (by decide) h env RS_PACKET_RESULT_INT
  simp [resultIntPacket, e1, e2]

/-- A double packet holds what packing gives. -/
theorem resultDoublePacket_spec {lambda : RsRegisteredLambda FuncPtr}
    (h : BASE_NAME + strlen lambda.nameMem < SIZEOF_RS_PACKET_LAMBDA_RESULT_DOUBLE) (o : ByteOrder)
    (env : Env) {result packed : RsDouble} (hpack : packResult result = some packed) :
    ∃ pkt, resultDoublePacket o env lambda result = some pkt ∧
      pkt.length = SIZEOF_RS_PACKET_LAMBDA_RESULT_DOUBLE ∧
      byteAt pkt PTYPE = RS_PACKET_RESULT_DOUBLE ∧ byteAt pkt LAMBDA_ID = lambda.id ∧
      getDouble o pkt RESULT = packed := by
  obtain ⟨p1, p2, e1, e2, l2, t2, i2⟩ := resultBase_spec lambda (by decide) h env
    RS_PACKET_RESULT_DOUBLE
  obtain ⟨p3, e3, l3, b3⟩ := poke_exists p2 14 (o.write 8 result.toNat) (by rw [l2]; simp)
  rw [ByteOrder.length_write] at b3
  have hresult : getDouble o p3 RESULT = result :=
    getDouble_of_bytes o fun i hi => byteAt_poke e3 (by simpa using hi)
  refine ⟨setField p3 RESULT (o.write 8 packed.toNat), ?_, ?_, ?_, ?_, ?_⟩
  · simp [resultDoublePacket, e1, e2, e3, htonRsPacketLambdaResultDouble,
      htonRsPacketLambdaResult, htonRsPacketBase, hresult, hpack]
  · rw [length_setField, l3, l2]
  · rw [byteAt_setField_of_lt (by decide), b3, if_neg (by decide), t2]
  · rw [byteAt_setField_of_lt (by decide), b3, if_neg (by decide), i2]
  · exact getDouble_setField o (l3.trans l2) packed

theorem resultDoublePacket_none {lambda : RsRegisteredLambda FuncPtr} {result : RsDouble}
    (h : SIZEOF_RS_PACKET_LAMBDA_RESULT_DOUBLE ≤ BASE_NAME + strlen lambda.nameMem ∨
      packResult result = none) (o : ByteOrder) (env : Env) :
    resultDoublePacket o env lambda result = none := by
  by_cases hbase : SIZEOF_RS_PACKET_LAMBDA_RESULT_DOUBLE ≤ BASE_NAME + strlen lambda.nameMem
  · obtain ⟨p1, e1, e2⟩ := resultBase_none lambda (by decide) hbase env RS_PACKET_RESULT_DOUBLE
    simp [resultDoublePacket, e1, e2]
  · obtain ⟨p1, p2, e1, e2, l2, -⟩ := resultBase_spec lambda (by decide) (not_le.mp hbase) env
      RS_PACKET_RESULT_DOUBLE
    obtain ⟨p3, e3, -, -⟩ := poke_exists p2 14 (o.write 8 result.toNat) (by rw [l2]; simp)
    have hresult : getDouble o p3 RESULT = result :=
      getDouble_of_bytes o fun i hi => byteAt_poke e3 (by simpa using hi)
    simp [resultDoublePacket, e1, e2, e3, htonRsPacketLambdaResultDouble,
      htonRsPacketLambdaResult, htonRsPacketBase, hresult, h.resolve_left hbase]

theorem resultErrorPacket_spec (env : Env) (id : LambdaId) (code : Int8) :
    ∃ pkt, resultErrorPacket env id code = some pkt ∧
      pkt.length = SIZEOF_RS_PACKET_LAMBDA_RESULT_ERROR ∧
      byteAt pkt PTYPE = RS_PACKET_RESULT_ERROR ∧ byteAt pkt LAMBDA_ID = id ∧
      (byteAt pkt RESULT).toInt8 = code := by
  have hname : strlen unknownName = 7 := by decide
  obtain ⟨p1, e1, l1, b1⟩ := poke_exists (uninit 15 env.object) 0 [RS_PACKET_RESULT_ERROR] (by simp)
  rw [length_uninit] at l1
  obtain ⟨p2, e2, l2, b2⟩ := poke_exists p1 1 [id] (by simp; omega)
  obtain ⟨p3, e3, l3, b3⟩ := strcpy_exists p2 2 unknownName (by omega)
  obtain ⟨p4, e4, l4, b4⟩ := poke_exists p3 14 [code.toUInt8]
    (by simp; omega)
  simp only [List.length_singleton] at b1 b2 b4
  have hlen : p4.length = 15 := by omega
  refine ⟨p4, ?_, hlen, ?_, ?_, ?_⟩
  · simp [resultErrorPacket, e1, e2, e3, e4, htonRsPacketLambdaResultError,
      htonRsPacketLambdaResult, htonRsPacketBase]
  · rw [b4, if_neg (by decide), b3, if_neg (fun h => absurd h.1 (by decide)), b2,
      if_neg (by decide), b1,
      if_pos (by decide)]
    rfl
  · rw [b4, if_neg (by decide), b3, if_neg (fun h => absurd h.1 (by decide)), b2,
      if_pos (by decide)]
    rfl
  · rw [b4, if_pos (by decide)]
    simp [byteAt]

end Board

namespace Linux

theorem callByIdPacket_spec (env : Env) (id : LambdaId) (type : RsLambdaType) :
    ∃ pkt, callByIdPacket env id type = some pkt ∧ pkt.length = SIZEOF_RS_PACKET_CALL_BY_ID ∧
      byteAt pkt PTYPE = RS_PACKET_CALL_BY_ID ∧ byteAt pkt LAMBDA_ID = id ∧
      byteAt pkt EXPECTED_TYPE = type := by
  obtain ⟨p1, e1, l1, b1⟩ := poke_exists (uninit 3 env.object) 0 [RS_PACKET_CALL_BY_ID] (by simp)
  rw [length_uninit] at l1
  obtain ⟨p2, e2, l2, b2⟩ := poke_exists p1 1 [id] (by simp; omega)
  obtain ⟨p3, e3, l3, b3⟩ := poke_exists p2 2 [type] (by simp; omega)
  simp only [List.length_singleton] at b1 b2 b3
  have hlen : p3.length = 3 := by omega
  refine ⟨p3, ?_, hlen, ?_, ?_, ?_⟩
  · simp [callByIdPacket, e1, e2, e3, htonRsPacketCallById, htonRsPacketBase]
  · rw [b3, if_neg (by decide), b2, if_neg (by decide), b1, if_pos (by decide)]
    rfl
  · rw [b3, if_neg (by decide), b2, if_pos (by decide)]
    rfl
  · rw [b3, if_pos (by decide)]
    rfl

theorem callByNamePacket_spec {name : List UInt8} (h : strlen name ≤ MAX_LAMBDA_NAME_LENGTH)
    (env : Env) (type : RsLambdaType) :
    ∃ pkt, callByNamePacket env name type = some pkt ∧
      pkt.length = SIZEOF_RS_PACKET_CALL_BY_NAME ∧ byteAt pkt PTYPE = RS_PACKET_CALL_BY_NAME ∧
      byteAt pkt LTYPE = type ∧ HoldsName pkt name := by
  have h12 : strlen name ≤ 12 := h
  obtain ⟨p1, e1, l1, b1⟩ := poke_exists (uninit 14 env.object) 0 [RS_PACKET_CALL_BY_NAME] (by simp)
  rw [length_uninit] at l1
  obtain ⟨p2, e2, l2, b2⟩ := strcpy_exists p1 1 name (by omega)
  obtain ⟨p3, e3, l3, b3⟩ := poke_exists p2 13 [type] (by simp; omega)
  simp only [List.length_singleton] at b1 b3
  have hlen : p3.length = 14 := by omega
  refine ⟨p3, ?_, hlen, ?_, ?_, ?_⟩
  · simp [callByNamePacket, e1, e2, e3, htonRsPacketCallByName, htonRsPacketBase]
  · rw [b3, if_neg (by decide), b2, if_neg (fun h => absurd h.1 (by decide)),
      b1, if_pos (by decide)]
    rfl
  · rw [b3, if_pos (by decide)]
    rfl
  · intro i hi hn
    have hi' : i < 12 := hi
    change byteAt p3 (1 + i) = _
    rw [b3, if_neg (by omega), b2, if_pos (by omega),
      Nat.add_sub_cancel_left]

end Linux

end RS
