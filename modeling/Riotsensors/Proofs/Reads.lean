import Riotsensors.Sanity.Handler
import Riotsensors.Sanity.Packets
import Riotsensors.Spec.Reads

/-! Which packets Linux's handler reads within their own bytes. Names have no terminator of
their own, and a string result declares its length itself. -/

namespace RS

open CMem

variable {o : ByteOrder} {env : Env} {s : Linux} {packet : Packet}

/-- A registration reads no more of its name than the string. -/
theorem lambdaRegistryRegister_congr {α : Type} {a b : List UInt8} (h : cstr a = cstr b)
    (heap : Option (List UInt8)) (r : Registry α) (type : RsLambdaType) (cache : RsCacheType)
    (arg : α) :
    lambdaRegistryRegister heap r a type cache arg =
      lambdaRegistryRegister heap r b type cache arg := by
  have hlen : strlen a = strlen b := congrArg List.length h
  have hfind : getRegisteredLambdaByName r a = getRegisteredLambdaByName r b := by
    simp only [getRegisteredLambdaByName, strEq, h]
  have hrecord : ∀ mem id, newRecord mem id a type cache arg = newRecord mem id b type cache arg :=
    fun mem id => by simp only [newRecord, strcpyField_congr h]
  simp only [lambdaRegistryRegister, hlen, h, hfind, hrecord]

/-- A record that a registration enters holds the name copied into its field. -/
theorem entered_name {α : Type} {heap : Option (List UInt8)} {r : Registry α} {name : List UInt8}
    {type : RsLambdaType} {cache : RsCacheType} {arg : α} {l : RsRegisteredLambda α}
    (hmoved : (lambdaRegistryRegister heap r name type cache arg).1.lambdaCounter ≠
      r.lambdaCounter)
    (hl : (lambdaRegistryRegister heap r name type cache arg).1.slot r.lambdaCounter.toNat =
      some l) :
    ∃ mem, l.name = strcpyField MAX_LAMBDA_NAME_LENGTH mem name := by
  unfold lambdaRegistryRegister at hmoved hl
  split_ifs at hmoved hl with hfull
  all_goals try exact absurd rfl hmoved
  cases heap with
  | none => exact absurd rfl hmoved
  | some mem =>
    have hslot := (Registry.slot_setSlot r (not_le.mp hfull) r.lambdaCounter.toNat
      (some (newRecord mem r.lambdaCounter name type cache arg))).symm.trans hl
    rw [if_pos rfl] at hslot
    exact ⟨mem, by rw [← Option.some.inj hslot]; rfl⟩

namespace Linux

/-- The bytes of the name field. -/
def nameField (packet : Packet) : List UInt8 := (packet.drop NAME).take MAX_LAMBDA_NAME_LENGTH

/-- The length that a string result declares, in network order. -/
def declaredLength (packet : Packet) : ℕ :=
  256 * (byteAt packet RESULT).toNat + (byteAt packet (RESULT + 1)).toNat

/-- The bytes that it declares, as far as the packet has them. -/
def resultBytes (packet : Packet) : List UInt8 :=
  (packet.drop STRING).take (declaredLength packet)

/-- A registration has a NUL in its name field; the string of a result for a live lambda
ends inside the packet and has a NUL. -/
def SelfContained (s : Linux) (packet : Packet) : Prop :=
  (byteAt packet PTYPE = RS_PACKET_REGISTERED → packet.length = SIZEOF_RS_PACKET_REGISTERED →
    0 ∈ nameField packet) ∧
  (byteAt packet PTYPE = RS_PACKET_RESULT_STRING →
    SIZEOF_RS_PACKET_LAMBDA_RESULT_STRING ≤ packet.length →
    (getRegisteredLambdaById s.registry (byteAt packet LAMBDA_ID)).isSome →
    STRING + declaredLength packet ≤ packet.length ∧ 0 ∈ resultBytes packet)

/-- The packet is read within its bytes, with the effect that the handler has whatever lies
behind it, and every string left behind has its terminator. -/
def ReadsInside (o : ByteOrder) (env : Env) (s : Linux) (packet : Packet) : Prop :=
  ∃ r, handleReceivedPacketChecked o env s packet = some r ∧
    (∀ beyond, r.handled = handleReceivedPacket o { env with beyond } s packet) ∧
    ∀ str ∈ r.strings, 0 ∈ str

/-! ## Registrations -/

theorem handleRegisteredChecked_none (h : 0 ∉ nameField packet) :
    handleRegisteredChecked env s packet = none := by
  by_cases hlen : NAME + MAX_LAMBDA_NAME_LENGTH ≤ packet.length
  · have htext : textIn (nameField packet) = none := if_neg h
    simp only [handleRegisteredChecked, fetch, if_pos hlen]
    change (textIn (nameField packet)).bind _ = none
    rw [htext]
    rfl
  · simp [handleRegisteredChecked, fetch, hlen]

theorem terminated_registerRead {name : List UInt8} (h : strlen name < MAX_LAMBDA_NAME_LENGTH)
    (ltype : RsLambdaType) (cache : RsCacheType) {str : List UInt8}
    (hstr : str ∈ (registerRead env s name ltype cache).strings) : 0 ∈ str := by
  obtain ⟨l, hl, rfl⟩ := Option.map_eq_some_iff.mp (Option.mem_toList.mp hstr)
  obtain ⟨hmoved, hslot⟩ := Option.ite_none_left_eq_some.mp hl
  obtain ⟨mem, hname⟩ := entered_name hmoved hslot
  rw [hname]
  exact zero_mem_strcpyField h

theorem handleRegisteredChecked_some (hlen : packet.length = SIZEOF_RS_PACKET_REGISTERED)
    (h : 0 ∈ nameField packet) :
    ∃ r, handleRegisteredChecked env s packet = some r ∧
      (∀ beyond, r.handled = handleRegistered { env with beyond } s packet) ∧
      ∀ str ∈ r.strings, 0 ∈ str := by
  have hfetch : fetch packet NAME MAX_LAMBDA_NAME_LENGTH = some (nameField packet) :=
    if_pos (by rw [hlen]; decide)
  have htext : textIn (nameField packet) = some (cstr (nameField packet)) := if_pos h
  have hltype : load packet LTYPE = some (byteAt packet LTYPE) :=
    load_of_lt (by rw [hlen]; decide)
  have hcache : load packet CACHE = some (byteAt packet CACHE) :=
    load_of_lt (by rw [hlen]; decide)
  have hname : cstr (cstr (nameField packet) ++ [0]) = cstr (nameField packet) := by
    rw [cstr_append_of_text (cstr_isText _), cstr_cons_zero, List.append_nil]
  refine ⟨registerRead env s (cstr (nameField packet) ++ [0]) (byteAt packet LTYPE)
    (byteAt packet CACHE), ?_, fun beyond => ?_, fun str hstr => ?_⟩
  · simp [handleRegisteredChecked, hfetch, htext, hltype, hcache]
  · -- the rest of the packet and what lies behind it are not part of the string
    have hread : cstr (packet.drop NAME ++ beyond) = cstr (nameField packet) := by
      rw [← List.take_append_drop MAX_LAMBDA_NAME_LENGTH (packet.drop NAME), List.append_assoc]
      exact cstr_append_of_mem h _
    simp only [registerRead, handleRegistered,
      lambdaRegistryRegister_congr (hname.trans hread.symm)]
  · refine terminated_registerRead ?_ _ _ hstr
    have hlt := strlen_lt_of_mem h
    have hfield : (nameField packet).length ≤ MAX_LAMBDA_NAME_LENGTH := List.length_take_le _ _
    have hsame : strlen (cstr (nameField packet) ++ [0]) = strlen (nameField packet) :=
      congrArg List.length hname
    omega

/-! ## String results -/

theorem fetch_eq_peek {pkt : Packet} {off n : ℕ} (h : off + n ≤ pkt.length)
    (beyond : List UInt8) : fetch pkt off n = some (peek (pkt ++ beyond) off n) := by
  rw [peek_append_of_le h, fetch, if_pos h]

theorem toNat_declared (o : ByteOrder) (packet : Packet) :
    (o.ntohs (getU16 o packet RESULT)).toNat = declaredLength packet :=
  ByteOrder.toNat_ntohs_read o _ _

/-- The handler reads the length that the packet declares, and the string behind it. -/
theorem resultBlock_eq (h : SIZEOF_RS_PACKET_LAMBDA_RESULT_STRING ≤ packet.length)
    (hfits : STRING + declaredLength packet ≤ packet.length) (env : Env) :
    resultBlock o env (ntohRsPacketLambdaResultString o packet) = resultBytes packet := by
  have h17 : 17 ≤ packet.length := h
  have hlen : getU16 o (ntohRsPacketLambdaResultString o packet) RESULT =
      o.ntohs (getU16 o packet RESULT) :=
    getU16_setField o packet RESULT (show 14 + 2 ≤ packet.length by omega) _
  have hsame : (ntohRsPacketLambdaResultString o packet).length = packet.length :=
    length_setField ..
  have hfits' : 16 + declaredLength packet ≤ packet.length := hfits
  rw [resultBlock, hlen, toNat_declared, resultBytes,
    ← peek_append_of_le hfits env.beyond]
  apply ext_byteAt (by simp)
  intro i hi
  rw [length_peek] at hi
  rw [byteAt_peek hi, byteAt_peek hi, byteAt_append_left (by omega),
    byteAt_append_left (by omega)]
  refine (byteAt_setField ?_ _).trans (if_neg ?_)
  · rw [ByteOrder.length_write]
    change 14 + 2 ≤ packet.length
    omega
  · rw [ByteOrder.length_write]
    change ¬ (14 ≤ 16 + i ∧ 16 + i < 14 + 2)
    omega

theorem handleResultStringChecked_eq
    (h : SIZEOF_RS_PACKET_LAMBDA_RESULT_STRING ≤ packet.length) :
    handleResultStringChecked o s packet =
      match getRegisteredLambdaById s.registry (byteAt packet LAMBDA_ID) with
      | none => some (Receipt.of (Handled.quiet s))
      | some _ => (fetch packet STRING (declaredLength packet)).map fun result =>
        ⟨storeResult s (byteAt packet LAMBDA_ID) (.retS result) true, [result]⟩ := by
  have h17 : 17 ≤ packet.length := h
  have hlength : fetch packet RESULT 2 = some (peek packet RESULT 2) := by
    have hfetch := fetch_eq_peek (show RESULT + 2 ≤ packet.length by change 14 + 2 ≤ _; omega) []
    rwa [List.append_nil] at hfetch
  have hid : load packet LAMBDA_ID = some (byteAt packet LAMBDA_ID) :=
    load_of_lt (show 1 < packet.length by omega)
  have hread : (o.ntohs (UInt16.ofNat (o.read (peek packet RESULT 2)))).toNat =
      declaredLength packet := toNat_declared o packet
  simp only [handleResultStringChecked, hlength, hid, Option.bind_eq_bind, Option.bind_some, hread]
  cases getRegisteredLambdaById s.registry (byteAt packet LAMBDA_ID) with
  | none => rfl
  | some l => cases fetch packet STRING (declaredLength packet) <;> rfl

/-! ## The handler -/

/-- A registration of the right size. -/
def IsRegistration (packet : Packet) : Prop :=
  byteAt packet PTYPE = RS_PACKET_REGISTERED ∧ packet.length = SIZEOF_RS_PACKET_REGISTERED

/-- A string result of an acceptable size. -/
def IsStringResult (packet : Packet) : Prop :=
  byteAt packet PTYPE = RS_PACKET_RESULT_STRING ∧
    SIZEOF_RS_PACKET_LAMBDA_RESULT_STRING ≤ packet.length

theorem checked_registration (h : IsRegistration packet) :
    handleReceivedPacketChecked o env s packet = handleRegisteredChecked env s packet ∧
      handleReceivedPacket o env s packet = handleRegistered env s packet := by
  obtain ⟨htag, hlen⟩ := h
  have hone : ¬ packet.length < 1 := by rw [hlen]; decide
  have hptype : load packet PTYPE = some (byteAt packet PTYPE) := load_of_lt (not_lt.mp hone)
  have hfetch : fetch packet 0 SIZEOF_RS_PACKET_REGISTERED = some packet := by
    rw [← hlen]
    exact fetch_all packet
  constructor
  · rw [handleReceivedPacketChecked, if_neg hone, hptype]
    simp only [Option.bind_eq_bind, Option.bind_some, if_pos htag, if_neg (not_not.mpr hlen),
      hfetch]
    rfl
  · rw [handleReceivedPacket, if_neg hone, if_pos htag, if_neg (not_not.mpr hlen)]
    rfl

theorem checked_stringResult (h : IsStringResult packet) :
    handleReceivedPacketChecked o env s packet = handleResultStringChecked o s packet ∧
      handleReceivedPacket o env s packet =
        storeResult s (byteAt packet LAMBDA_ID)
          (.retS (resultBlock o env (ntohRsPacketLambdaResultString o packet))) true := by
  obtain ⟨htag, hlen⟩ := h
  have h17 : 17 ≤ packet.length := hlen
  have hone : ¬ packet.length < 1 := by omega
  have hptype : load packet PTYPE = some (byteAt packet PTYPE) := load_of_lt (not_lt.mp hone)
  have hid : byteAt (ntohRsPacketLambdaResultString o packet) LAMBDA_ID =
      byteAt packet LAMBDA_ID := byteAt_setField_of_lt (by decide)
  constructor
  · rw [handleReceivedPacketChecked, if_neg hone, hptype]
    simp only [Option.bind_eq_bind, Option.bind_some, htag, if_neg (not_lt.mpr hlen), fetch_all]
    rfl
  · rw [handleReceivedPacket, if_neg hone, if_neg (by rw [htag]; decide),
      if_neg (by rw [htag]; decide), if_neg (by rw [htag]; decide), if_neg (by rw [htag]; decide),
      if_pos htag, if_neg (not_lt.mpr hlen)]
    simp only [hid]

/-- Every other packet is read through a local object of its own size, or not at all. -/
theorem checked_other (hreg : ¬ IsRegistration packet) (hstr : ¬ IsStringResult packet)
    (beyond : List UInt8) :
    handleReceivedPacketChecked o env s packet =
      some (Receipt.of (handleReceivedPacket o { env with beyond } s packet)) := by
  by_cases hone : packet.length < 1
  · rw [handleReceivedPacketChecked, if_pos hone, handleReceivedPacket, if_pos hone]
  have hptype : load packet PTYPE = some (byteAt packet PTYPE) := load_of_lt (not_lt.mp hone)
  have hfetch : ∀ n, packet.length = n → fetch packet 0 n = some packet := by
    rintro n rfl
    exact fetch_all packet
  rw [handleReceivedPacketChecked, if_neg hone, hptype, handleReceivedPacket, if_neg hone]
  simp only [Option.bind_eq_bind, Option.bind_some]
  split_ifs with hr hrl hu hul hi hil hd hdl hs hsl he hel
  · rfl
  · exact absurd ⟨hr, not_not.mp hrl⟩ hreg
  · rfl
  · rw [hfetch _ (not_not.mp hul)]
    rfl
  · rfl
  · rw [hfetch _ (not_not.mp hil)]
    rfl
  · rfl
  · rw [hfetch _ (not_not.mp hdl)]
    rfl
  · rfl
  · exact absurd ⟨hs, not_lt.mp hsl⟩ hstr
  · rfl
  · rw [hfetch _ (not_not.mp hel)]
    rfl
  · rfl

theorem readsInside_registration (h : IsRegistration packet) :
    ReadsInside o env s packet ↔ 0 ∈ nameField packet := by
  simp only [ReadsInside, (checked_registration h).1, (checked_registration h).2]
  constructor
  · rintro ⟨r, hr, -⟩
    by_contra hno
    rw [handleRegisteredChecked_none hno] at hr
    cases hr
  · exact handleRegisteredChecked_some h.2

theorem readsInside_stringResult (h : IsStringResult packet) :
    ReadsInside o env s packet ↔
      ((getRegisteredLambdaById s.registry (byteAt packet LAMBDA_ID)).isSome →
        STRING + declaredLength packet ≤ packet.length ∧ 0 ∈ resultBytes packet) := by
  simp only [ReadsInside, (checked_stringResult h).1, (checked_stringResult h).2,
    handleResultStringChecked_eq h.2]
  cases hl : getRegisteredLambdaById s.registry (byteAt packet LAMBDA_ID) with
  | none =>
    refine iff_of_true ⟨_, rfl, fun beyond => ?_, fun str hstr => ?_⟩ fun hlive => by cases hlive
    · rw [storeResult, hl]
      rfl
    · cases hstr
  | some l =>
    simp only [Option.isSome_some, true_imp_iff]
    constructor
    · rintro ⟨r, hr, -, hterm⟩
      obtain ⟨result, hfetch, rfl⟩ := Option.map_eq_some_iff.mp hr
      obtain ⟨hfits, hresult⟩ := Option.ite_none_right_eq_some.mp hfetch
      have hbytes : resultBytes packet = result := Option.some.inj hresult
      exact ⟨hfits, hbytes ▸ hterm result (by simp)⟩
    · rintro ⟨hfits, hterm⟩
      have hfetch : fetch packet STRING (declaredLength packet) = some (resultBytes packet) :=
        if_pos hfits
      refine ⟨_, by rw [hfetch]; rfl, fun beyond => ?_, fun str hstr => ?_⟩
      · rw [resultBlock_eq h.2 hfits]
      · rw [List.mem_singleton.mp hstr]
        exact hterm

/-- Every packet, in every state, is read within its bytes exactly if its strings end in
their fields. -/
theorem readsInside_iff (o : ByteOrder) (env : Env) (s : Linux) (packet : Packet) :
    ReadsInside o env s packet ↔ SelfContained s packet := by
  by_cases hreg : IsRegistration packet
  · rw [readsInside_registration hreg]
    refine ⟨fun h => ⟨fun _ _ => h, fun htag => ?_⟩, fun h => h.1 hreg.1 hreg.2⟩
    rw [hreg.1] at htag
    exact absurd htag (by decide)
  by_cases hstr : IsStringResult packet
  · rw [readsInside_stringResult hstr]
    refine ⟨fun h => ⟨fun htag => ?_, fun _ _ => h⟩, fun h => h.2 hstr.1 hstr.2⟩
    rw [hstr.1] at htag
    exact absurd htag (by decide)
  · refine iff_of_true ⟨_, checked_other hreg hstr env.beyond, fun beyond => ?_, fun str hmem => ?_⟩
      ⟨fun htag hlen => absurd ⟨htag, hlen⟩ hreg, fun htag hlen => absurd ⟨htag, hlen⟩ hstr⟩
    · exact Option.some.inj (congrArg (Option.map Receipt.handled)
        ((checked_other hreg hstr env.beyond).symm.trans (checked_other hreg hstr beyond)))
    · cases hmem

/-- A live string lambda `"a"`, and a string result of 17 bytes for it that declares a string
of 2 bytes. -/
theorem declared_length_is_trusted : ¬ ∀ (o : ByteOrder) (env : Env) (s : Linux)
    (packet : Packet), ReadsInside o env s packet := by
  intro h
  have hinside := h .little {} (receive .little (started fun _ => ⟨false, 0, .unset⟩)
    ⟨{}, [1, 97, 0, 0, 0, 0, 0, 0, 0, 0, 0, 0, 0, 3, 1]⟩)
    [8, 0, 97, 0, 0, 0, 0, 0, 0, 0, 0, 0, 0, 0, 0, 2, 65]
  have hfits := (readsInside_stringResult ⟨rfl, by decide⟩).mp hinside rfl
  exact absurd hfits.1 (by decide)

end Linux

end RS
