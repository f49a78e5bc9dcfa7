import Riotsensors.Sanity.Packets
import Riotsensors.Spec.Wire

/-! What the receiver of a packet sees of its fields. -/

namespace RS

open CMem ByteOrder

/-! ## Objects in parts -/

theorem peek_middle (a w rest : List UInt8) : peek (a ++ w ++ rest) a.length w.length = w := by
  apply peek_eq_of_bytes
  intro i hi
  rw [byteAt_append_left (by simp; omega), byteAt_append_right (Nat.le_add_right _ _),
    Nat.add_sub_cancel_left]

theorem setField_middle (a w rest : List UInt8) {w' : List UInt8} (h : w'.length = w.length) :
    setField (a ++ w ++ rest) a.length w' = a ++ w' ++ rest := by
  have hfit : a.length + w'.length ≤ (a ++ w ++ rest).length := by
    simp only [List.length_append]
    omega
  have htake : (a ++ w ++ rest).take a.length = a := by
    rw [List.append_assoc, List.take_left]
  have hdrop : (a ++ w ++ rest).drop (a.length + w.length) = rest := by
    rw [← List.length_append, List.drop_left]
  rw [setField, poke, if_pos hfit, Option.getD_some, h, htake, hdrop]

theorem byteAt_ofFn {n : ℕ} (f : Fin n → UInt8) (rest : List UInt8) (i : Fin n) :
    byteAt (List.ofFn f ++ rest) i = f i := by
  rw [byteAt_append_left (by simp), byteAt, List.getD_eq_getElem?_getD,
    List.getElem?_eq_getElem (by simp), Option.getD_some, List.getElem_ofFn]

theorem byteAt_behind_ofFn {n : ℕ} (f : Fin n → UInt8) (rest : List UInt8) (i : ℕ) :
    byteAt (List.ofFn f ++ rest) (n + i) = byteAt rest i := by
  rw [byteAt_append_right (by simp), List.length_ofFn, Nat.add_sub_cancel_left]

theorem byteAt_cons_succ (b : UInt8) (mem : List UInt8) (i : ℕ) :
    byteAt (b :: mem) (1 + i) = byteAt mem i := by
  rw [Nat.add_comm, byteAt, List.getD_cons_succ, byteAt]

namespace ResultBase

@[simp] theorem length_layout (base : ResultBase) : base.layout.length = 14 := by
  simp [layout]

theorem read_layout (base : ResultBase) (rest : List UInt8) :
    read (base.layout ++ rest) = base := by
  have hname : ∀ i : Fin 12, byteAt (base.layout ++ rest) (2 + i) = base.name i := by
    intro i
    rw [layout, List.cons_append, List.cons_append, Nat.add_assoc 1 1 i, byteAt_cons_succ,
      byteAt_cons_succ, byteAt_ofFn]
  have hread : (fun i : Fin 12 => byteAt (base.layout ++ rest) (2 + i)) = base.name := funext hname
  change (⟨base.ptype, base.lambdaId, fun i : Fin 12 => byteAt (base.layout ++ rest) (2 + i)⟩ :
    ResultBase) = base
  rw [hread]

end ResultBase

/-! ## Numbers in another order -/

/-- The two bytes that `htons` leaves in the packet are those of network order. -/
theorem write_htons (o : ByteOrder) (x : UInt16) :
    o.write 2 (o.htons x).toNat = [UInt8.ofNat (x.toNat / 256), UInt8.ofNat x.toNat] := by
  have hx : x.toNat < 65536 := x.toNat_lt
  cases o with
  | big => rfl
  | little =>
    have hswap : (little.htons x).toNat = x.toNat % 256 * 256 + x.toNat / 256 := by
      rw [htons, UInt16.toNat_ofNat']
      omega
    have hlow : UInt8.ofNat (x.toNat % 256 * 256 + x.toNat / 256) = UInt8.ofNat (x.toNat / 256) := by
      apply UInt8.toNat_inj.mp
      simp only [UInt8.toNat_ofNat']
      omega
    have hdiv : (x.toNat % 256 * 256 + x.toNat / 256) / 256 = x.toNat % 256 := by omega
    have hhigh : UInt8.ofNat ((x.toNat % 256 * 256 + x.toNat / 256) / 256) =
        UInt8.ofNat x.toNat := by
      apply UInt8.toNat_inj.mp
      rw [hdiv]
      simp only [UInt8.toNat_ofNat']
      omega
    rw [hswap, write, leBytes, leBytes, leBytes, hlow, hhigh]

theorem ntohs_read_write_htons (o o' : ByteOrder) (x : UInt16) :
    o'.ntohs (UInt16.ofNat (o'.read (o.write 2 (o.htons x).toNat))) = x := by
  have hx : x.toNat < 65536 := x.toNat_lt
  rw [write_htons]
  apply UInt16.toNat_inj.mp
  rw [toNat_ntohs_read]
  simp only [UInt8.toNat_ofNat']
  omega

/-! ## Packets from host to host -/

section

variable (o o' : ByteOrder) (undef : UInt64) (base : ResultBase)

theorem transfer_lambdaResultInt (result : RsInt) :
    transfer o o' undef (.lambdaResultInt base result) =
      some (.lambdaResultInt base
        (UInt32.ofNat (o'.read (o.write 4 result.toUInt32.toNat))).toInt32) := by
  have hpeek := peek_middle base.layout (o.write 4 result.toUInt32.toNat) []
  rw [List.append_nil, ResultBase.length_layout, length_write] at hpeek
  have hread : getInt o' (base.layout ++ o.write 4 result.toUInt32.toNat) RESULT =
      (UInt32.ofNat (o'.read (o.write 4 result.toUInt32.toNat))).toInt32 := by
    rw [getInt, hpeek]
  have hbase := base.read_layout (o.write 4 result.toUInt32.toNat)
  change some (Fields.lambdaResultInt (ResultBase.read (base.layout ++ _))
    (getInt o' (base.layout ++ o.write 4 result.toUInt32.toNat) RESULT)) = _
  rw [hread, hbase]

theorem getDouble_layout (d : RsDouble) :
    getDouble o' (base.layout ++ o.write 8 d.toNat) RESULT =
      UInt64.ofNat (o'.read (o.write 8 d.toNat)) := by
  have hpeek := peek_middle base.layout (o.write 8 d.toNat) []
  rw [List.append_nil, ResultBase.length_layout, length_write] at hpeek
  rw [getDouble, hpeek]

theorem setDouble_layout (d d' : RsDouble) :
    setField (base.layout ++ o.write 8 d.toNat) RESULT (o'.write 8 d'.toNat) =
      base.layout ++ o'.write 8 d'.toNat := by
  have hlen : (o'.write 8 d'.toNat).length = (o.write 8 d.toNat).length := by simp
  have hset := setField_middle base.layout (o.write 8 d.toNat) [] hlen
  rwa [List.append_nil, List.append_nil, ResultBase.length_layout] at hset

/-- The receiver unpacks the stored number that it reads. -/
theorem transfer_lambdaResultDouble (d : RsDouble) :
    transfer o o' undef (.lambdaResultDouble base d) =
      (packResult d).map fun wire =>
        .lambdaResultDouble base
          (unpackResult undef (UInt64.ofNat (o'.read (o.write 8 wire.toNat)))) := by
  have hread : ∀ (o : ByteOrder) (d : RsDouble), UInt64.ofNat (o.read (o.write 8 d.toNat)) = d :=
    fun o d => by
      have hlt : d.toNat < 256 ^ 8 := d.toNat_lt
      rw [read_write, Nat.mod_eq_of_lt hlt, UInt64.ofNat_toNat]
  have hton : htonRsPacketLambdaResultDouble o (base.layout ++ o.write 8 d.toNat) =
      (packResult d).map fun wire => base.layout ++ o.write 8 wire.toNat := by
    simp only [htonRsPacketLambdaResultDouble, htonRsPacketLambdaResult, htonRsPacketBase,
      getDouble_layout, setDouble_layout, hread]
  have hntoh : ∀ wire : RsDouble,
      ntohRsPacketLambdaResultDouble o' undef (base.layout ++ o.write 8 wire.toNat) =
        base.layout ++ o'.write 8
          (unpackResult undef (UInt64.ofNat (o'.read (o.write 8 wire.toNat)))).toNat := by
    intro wire
    simp only [ntohRsPacketLambdaResultDouble, ntohRsPacketLambdaResult, ntohRsPacketBase,
      getDouble_layout, setDouble_layout]
  change (htonRsPacketLambdaResultDouble o (base.layout ++ o.write 8 d.toNat)).bind (fun wire =>
    some (Fields.lambdaResultDouble
      (ResultBase.read (ntohRsPacketLambdaResultDouble o' undef wire))
      (getDouble o' (ntohRsPacketLambdaResultDouble o' undef wire) RESULT))) = _
  rw [hton]
  cases packResult d with
  | none => rfl
  | some wire =>
    simp only [Option.map_some, Option.bind_some, hntoh, getDouble_layout, hread,
      ResultBase.read_layout]

theorem transfer_lambdaResultString (length : UInt16) (result : List UInt8) :
    transfer o o' undef (.lambdaResultString base length result) =
      some (.lambdaResultString base length result) := by
  have hget : ∀ (o' : ByteOrder) (w : List UInt8), w.length = 2 →
      getU16 o' (base.layout ++ w ++ result) RESULT = UInt16.ofNat (o'.read w) := by
    intro o' w hw
    have hpeek := peek_middle base.layout w result
    rw [ResultBase.length_layout, hw] at hpeek
    rw [getU16, hpeek]
  have hset : ∀ w w' : List UInt8, w.length = 2 → w'.length = 2 →
      setField (base.layout ++ w ++ result) RESULT w' = base.layout ++ w' ++ result := by
    intro w w' hw hw'
    have hset := setField_middle base.layout w result (hw'.trans hw.symm)
    rwa [ResultBase.length_layout] at hset
  have hread : ∀ (o : ByteOrder) (x : UInt16), UInt16.ofNat (o.read (o.write 2 x.toNat)) = x :=
    fun o x => by
      have hlt : x.toNat < 256 ^ 2 := x.toNat_lt
      rw [read_write, Nat.mod_eq_of_lt hlt, UInt16.ofNat_toNat]
  have hton : htonRsPacketLambdaResultString o
      (base.layout ++ o.write 2 length.toNat ++ result) =
        base.layout ++ o.write 2 (o.htons length).toNat ++ result := by
    simp only [htonRsPacketLambdaResultString, htonRsPacketLambdaResult, htonRsPacketBase]
    rw [hget o _ (length_write _ _ _), hread, hset _ _ (length_write _ _ _) (length_write _ _ _)]
  have hntoh : ntohRsPacketLambdaResultString o'
      (base.layout ++ o.write 2 (o.htons length).toNat ++ result) =
        base.layout ++ o'.write 2 length.toNat ++ result := by
    simp only [ntohRsPacketLambdaResultString, ntohRsPacketLambdaResult, ntohRsPacketBase]
    rw [hget o' _ (length_write _ _ _), ntohs_read_write_htons,
      hset _ _ (length_write _ _ _) (length_write _ _ _)]
  have hdrop : (base.layout ++ o'.write 2 length.toNat ++ result).drop 16 = result := by
    have hlen : (base.layout ++ o'.write 2 length.toNat).length = 16 := by simp
    rw [← hlen, List.drop_left]
  change some (Fields.lambdaResultString
    (ResultBase.read (ntohRsPacketLambdaResultString o' (htonRsPacketLambdaResultString o
      (base.layout ++ o.write 2 length.toNat ++ result))))
    (getU16 o' (ntohRsPacketLambdaResultString o' (htonRsPacketLambdaResultString o
      (base.layout ++ o.write 2 length.toNat ++ result))) RESULT)
    ((ntohRsPacketLambdaResultString o' (htonRsPacketLambdaResultString o
      (base.layout ++ o.write 2 length.toNat ++ result))).drop 16)) = _
  rw [hton, hntoh, hdrop, hget o' _ (length_write _ _ _), hread, List.append_assoc,
    ResultBase.read_layout]

/-- A name field behind one byte. -/
theorem byteAt_name (b : UInt8) (name : NameField) (rest : List UInt8) :
    (fun i : Fin MAX_LAMBDA_NAME_LENGTH => byteAt (b :: (List.ofFn name ++ rest)) (1 + i)) = name ∧
      ∀ i, byteAt (b :: (List.ofFn name ++ rest)) (1 + (MAX_LAMBDA_NAME_LENGTH + i)) =
        byteAt rest i := by
  refine ⟨funext fun i => ?_, fun i => ?_⟩
  · rw [byteAt_cons_succ, byteAt_ofFn]
  · rw [byteAt_cons_succ, byteAt_behind_ofFn]

/-- Packets of bytes alone are not touched. -/
theorem transfer_bytes {f : Fields}
    (hf : f.kind ≠ .lambdaResultInt ∧ f.kind ≠ .lambdaResultDouble ∧ f.kind ≠ .lambdaResultString) :
    transfer o o' undef f = some f := by
  obtain ⟨hint, hdouble, hstring⟩ := hf
  cases f with
  | lambdaResultInt => exact absurd rfl hint
  | lambdaResultDouble => exact absurd rfl hdouble
  | lambdaResultString => exact absurd rfl hstring
  | base ptype => rfl
  | callById ptype lambdaId expectedType => rfl
  | registered ptype name ltype cache =>
    obtain ⟨hname, hbehind⟩ := byteAt_name ptype name [ltype, cache]
    exact congrArg some ((congrArg (fun n => Fields.registered ptype n _ _) hname).trans
      (congrArg₂ (Fields.registered ptype name) (hbehind 0) (hbehind 1)))
  | unregistered ptype lambdaId name =>
    have hread := (ResultBase.mk ptype lambdaId name).read_layout []
    rw [List.append_nil] at hread
    exact congrArg (fun b : ResultBase => some (Fields.unregistered b.ptype b.lambdaId b.name)) hread
  | callByName ptype name expectedType =>
    obtain ⟨hname, hbehind⟩ := byteAt_name ptype name [expectedType]
    exact congrArg some ((congrArg (fun n => Fields.callByName ptype n _) hname).trans
      (congrArg (Fields.callByName ptype name) (hbehind 0)))
  | lambdaResult base =>
    have hread := base.read_layout []
    rw [List.append_nil] at hread
    exact congrArg (fun b => some (Fields.lambdaResult b)) hread
  | lambdaResultError base errorCode =>
    have hcode : (byteAt (base.layout ++ [errorCode.toUInt8]) 14).toInt8 = errorCode := by
      rw [byteAt_append_right (by simp), ResultBase.length_layout]
      exact Int8.toInt8_toUInt8 errorCode
    exact congrArg some (congrArg₂ Fields.lambdaResultError (base.read_layout _) hcode)

end

end RS
