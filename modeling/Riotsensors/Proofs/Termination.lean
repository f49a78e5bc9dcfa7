import Riotsensors.Proofs.Doubles
import Riotsensors.Spec.Budgets

/-! Which double conversions end. Packing does for every value but an infinity, which no halving
brings below 2; unpacking does for any 64 bits, since the exponent is counted down. -/

namespace RS

open Binary64 CMem Loops

/-! ## Unpacking -/

/-- The unsigned difference, read back as signed, is the difference. -/
theorem unpackShift_eq (i : UInt64) :
    unpackShift i 64 11 = (((i.toNat >>> 52) &&& (2 ^ 11 - 1) : ℕ) : ℤ) - 1023 := by
  have hall : ∀ f : Fin 2048, (UInt64.ofNat f.val - UInt64.ofNat 1023).toInt64.toInt =
      (f.val : ℤ) - 1023 := by
    decide +kernel
  have hlt : (i.toNat >>> 52) &&& (2 ^ 11 - 1) < 2048 := by
    rw [Nat.and_two_pow_sub_one_eq_mod]
    exact Nat.mod_lt _ (by norm_num)
  have hfield : (i >>> UInt64.ofNat 52) &&& UInt64.ofNat (2 ^ 11 - 1) =
      UInt64.ofNat ((i.toNat >>> 52) &&& (2 ^ 11 - 1)) := by
    apply UInt64.toNat_inj.mp
    rw [UInt64.toNat_and, UInt64.toNat_shiftRight, show (UInt64.ofNat 52).toNat % 64 = 52 from rfl,
      show (UInt64.ofNat (2 ^ 11 - 1)).toNat = 2 ^ 11 - 1 from rfl,
      UInt64.toNat_ofNat_of_lt' (hlt.trans (by decide))]
  have hshift := hall ⟨_, hlt⟩
  rw [← hfield] at hshift
  exact hshift

theorem unpackShift_bounds (i : UInt64) :
    -1023 ≤ unpackShift i 64 11 ∧ unpackShift i 64 11 ≤ 1024 := by
  rw [unpackShift_eq, Nat.and_two_pow_sub_one_eq_mod]
  omega

/-- The value that the mantissa and the exponent stand for stays the same, and the exponent ends
where it was or at 0. -/
theorem scaleUpFuel_spec {fuel : ℕ} {shift : ℤ} (h : shift.toNat < fuel) (q : ℚ) :
    ∃ q', scaleUpFuel fuel (.fin q, shift) = some (.fin q', min shift 0) ∧
      q' * 2 ^ min shift 0 = q * 2 ^ shift := by
  obtain ⟨⟨result, shift'⟩, hrun⟩ : ∃ t, scaleUpFuel fuel (.fin q, shift) = some t :=
    whileWithin_of_measure (fun s => s.2.toNat) (by simp) h
  have hkeep : ∀ s : LongDouble × ℤ, decide (0 < s.2) = true →
      (∃ q', s.1 = .fin q' ∧ q' * 2 ^ s.2 = q * 2 ^ shift ∧ min s.2 0 = min shift 0) →
        ∃ q', s.1.double = .fin q' ∧ q' * 2 ^ (s.2 - 1) = q * 2 ^ shift ∧
          min (s.2 - 1) 0 = min shift 0 := by
    rintro ⟨result, shift'⟩ hcond ⟨q', hq', hvalue, hmin⟩
    have hlt : 0 < shift' := by simpa using hcond
    obtain rfl : result = .fin q' := hq'
    refine ⟨q' * 2, rfl, ?_, by simp only at hmin ⊢; omega⟩
    rw [← hvalue, zpow_sub_one₀ two_ne_zero]
    ring
  obtain ⟨⟨q', hq', hvalue, hmin⟩, hcond⟩ := whileWithin_inv _ hkeep hrun ⟨q, rfl, rfl, rfl⟩
  obtain rfl : shift' = min shift 0 := by
    have hle : ¬ 0 < shift' := by simpa using hcond
    rw [← hmin]
    omega
  obtain rfl : result = .fin q' := hq'
  exact ⟨q', hrun, hvalue⟩

theorem scaleDownFuel_spec {fuel : ℕ} {shift : ℤ} (hle : shift ≤ 0) (h : (-shift).toNat < fuel)
    (q : ℚ) : scaleDownFuel fuel (.fin q, shift) = some (.fin (q * 2 ^ shift), 0) := by
  obtain ⟨⟨result, shift'⟩, hrun⟩ : ∃ t, scaleDownFuel fuel (.fin q, shift) = some t :=
    whileWithin_of_measure (fun s => (-s.2).toNat) (by simp) h
  have hkeep : ∀ s : LongDouble × ℤ, decide (s.2 < 0) = true →
      (s.2 ≤ 0 ∧ ∃ q', s.1 = .fin q' ∧ q' * 2 ^ s.2 = q * 2 ^ shift) →
        s.2 + 1 ≤ 0 ∧ ∃ q', s.1.half = .fin q' ∧ q' * 2 ^ (s.2 + 1) = q * 2 ^ shift := by
    rintro ⟨result, shift'⟩ hcond ⟨-, q', hq', hvalue⟩
    have hlt : shift' < 0 := by simpa using hcond
    obtain rfl : result = .fin q' := hq'
    refine ⟨by simp only; omega, q' / 2, rfl, ?_⟩
    rw [← hvalue, zpow_add_one₀ two_ne_zero]
    ring
  obtain ⟨⟨hle', q', hq', hvalue⟩, hcond⟩ := whileWithin_inv _ hkeep hrun ⟨hle, q, rfl, rfl⟩
  obtain rfl : shift' = 0 := by
    have hge : ¬ shift' < 0 := by simpa using hcond
    exact le_antisymm hle' (not_lt.mp hge)
  obtain rfl : result = .fin q' := hq'
  rw [← hvalue, zpow_zero, mul_one]
  exact hrun

/-- A budget above the largest exponent is enough, for any 64 bits. -/
theorem unpack754Fuel_eq {fuel : ℕ} (h : 1024 < fuel) (i : UInt64) :
    unpack754Fuel fuel i 64 11 = some (.fin (unpack754 i 64 11)) := by
  obtain ⟨hlow, hhigh⟩ := unpackShift_bounds i
  by_cases h0 : i = 0
  · rw [unpack754Fuel, unpack754, if_pos h0, if_pos h0]
  · rw [unpack754Fuel, unpack754, if_neg h0, if_neg h0]
    simp only [Nat.reduceSub, scale_eq]
    generalize ((i.toNat &&& (2 ^ 52 - 1) : ℕ) / 2 ^ 52 + 1 : ℚ) = q
    obtain ⟨q', hup, hvalue⟩ := scaleUpFuel_spec
      (show (unpackShift i 64 11).toNat < fuel by omega) q
    have hdown := scaleDownFuel_spec (min_le_right (unpackShift i 64 11) 0)
      (show (-min (unpackShift i 64 11) 0).toNat < fuel by omega) q'
    rw [hup, Option.bind_eq_bind, Option.bind_some, hdown, hvalue, unpackShift_eq]
    split_ifs <;> simp [Value.neg]

theorem unpackResultFuel_eq {fuel : ℕ} (h : 1024 < fuel) (undef : UInt64) (d : RsDouble) :
    unpackResultFuel fuel undef d = some (unpackResult undef d) := by
  rw [unpackResultFuel, unpack754Fuel_eq h]
  rfl

/-! ## The conversions of the packet -/

/-- With the budget of the model without one, the two agree. -/
theorem htonRsPacketLambdaResultDoubleFuel_eq (o : ByteOrder) (pkt : Packet) :
    htonRsPacketLambdaResultDoubleFuel PACK_FUEL o pkt = htonRsPacketLambdaResultDouble o pkt := rfl

/-- Packing ends for every value but the infinities. -/
theorem hton_ends_iff (o : ByteOrder) (pkt : Packet) :
    (∃ fuel, (htonRsPacketLambdaResultDoubleFuel fuel o pkt).isSome) ↔
      ¬ Binary64.Infinite (getDouble o pkt RESULT) := by
  constructor
  · rintro ⟨fuel, hfuel⟩ hinf
    rw [htonRsPacketLambdaResultDoubleFuel, Option.isSome_map, packResultFuel, Option.isSome_map,
      htonRsPacketLambdaResult, htonRsPacketBase, decode_infinite hinf, pack754Fuel_inf] at hfuel
    cases hfuel
  · intro hfin
    refine ⟨PACK_FUEL, ?_⟩
    rw [htonRsPacketLambdaResultDoubleFuel_eq, htonRsPacketLambdaResultDouble, Option.isSome_map,
      Option.isSome_iff_ne_none, Ne, packResult_eq_none_iff]
    exact hfin

theorem ntohRsPacketLambdaResultDoubleFuel_eq {fuel : ℕ} (h : 1024 < fuel) (o : ByteOrder)
    (undef : UInt64) (pkt : Packet) :
    ntohRsPacketLambdaResultDoubleFuel fuel o undef pkt =
      some (ntohRsPacketLambdaResultDouble o undef pkt) := by
  rw [ntohRsPacketLambdaResultDoubleFuel, unpackResultFuel_eq h]
  rfl

namespace Board

variable {o : ByteOrder} {env : Env} {b : Board} {id : LambdaId} {result : RsDouble}

theorem resultDoublePacket_eq (o : ByteOrder) (env : Env) (lambda : RsRegisteredLambda FuncPtr)
    (result : RsDouble) : resultDoublePacket o env lambda result =
      (resultDoubleObject o env lambda result).bind (htonRsPacketLambdaResultDouble o) := by
  simp only [resultDoublePacket, resultDoubleObject, Option.bind_eq_bind, Option.bind_assoc]

/-- With the budget of the model without one, the two agree. -/
theorem sendResultLambdaDoubleFuel_eq (o : ByteOrder) (env : Env) (b : Board) (id : LambdaId)
    (result : RsDouble) : (sendResultLambdaDoubleFuel PACK_FUEL o env b id result).join =
      sendResultLambdaDouble o env b id result := by
  unfold sendResultLambdaDoubleFuel sendResultLambdaDouble sendResultLambda
  cases getRegisteredLambdaById b.registry id with
  | none => rfl
  | some lambda =>
    dsimp only
    split_ifs with htype hstarted
    · rfl
    · rw [resultDoublePacket_eq]
      cases resultDoubleObject o env lambda result with
      | none => rfl
      | some pkt =>
        rw [Option.bind_some]
        dsimp only
        rw [htonRsPacketLambdaResultDoubleFuel_eq]
        cases htonRsPacketLambdaResultDouble o pkt <;> rfl
    · rfl

theorem getDouble_resultDoubleObject {lambda : RsRegisteredLambda FuncPtr} {pkt : Packet}
    (h : resultDoubleObject o env lambda result = some pkt) : getDouble o pkt RESULT = result := by
  simp only [resultDoubleObject, Option.bind_eq_bind, Option.bind_eq_some_iff] at h
  obtain ⟨p1, -, p2, -, hpoke⟩ := h
  exact getDouble_of_bytes o fun i hi => byteAt_poke hpoke (by simpa using hi)

/-- The value gets as far as its conversion: the lambda is there and of type double, the link is
up, and the name stays inside the packet object. -/
def Converts (o : ByteOrder) (env : Env) (b : Board) (id : LambdaId) (result : RsDouble) : Prop :=
  b.rsSptStarted = true ∧ ∃ lambda, getRegisteredLambdaById b.registry id = some lambda ∧
    lambda.type = RS_LAMBDA_DOUBLE ∧ (resultDoubleObject o env lambda result).isSome

/-- Sending ends unless an infinity is converted. -/
theorem send_ends_iff (o : ByteOrder) (env : Env) (b : Board) (id : LambdaId)
    (result : RsDouble) :
    (∃ fuel, (sendResultLambdaDoubleFuel fuel o env b id result).isSome) ↔
      ¬ (Converts o env b id result ∧ Binary64.Infinite result) := by
  unfold sendResultLambdaDoubleFuel Converts
  cases hget : getRegisteredLambdaById b.registry id with
  | none => exact iff_of_true ⟨0, rfl⟩ (by simp)
  | some lambda =>
    dsimp only
    by_cases htype : lambda.type = RS_LAMBDA_DOUBLE
    · by_cases hstarted : b.rsSptStarted = true
      · simp only [htype, hstarted, ne_eq, not_true_eq_false, if_false, if_true]
        cases hobject : resultDoubleObject o env lambda result with
        | none =>
          refine iff_of_true ⟨0, rfl⟩ ?_
          rintro ⟨⟨-, lambda', heq, -, hsome⟩, -⟩
          rw [← Option.some.inj heq, hobject] at hsome
          cases hsome
        | some pkt =>
          simp only [Option.isSome_map]
          rw [hton_ends_iff, getDouble_resultDoubleObject hobject]
          simp [htype, hobject]
      · simp only [htype, ne_eq, not_true_eq_false, if_false, if_neg hstarted]
        exact iff_of_true ⟨0, rfl⟩ fun h => hstarted h.1.1
    · simp only [if_pos htype]
      refine iff_of_true ⟨0, rfl⟩ ?_
      rintro ⟨⟨-, lambda', heq, htype', -⟩, -⟩
      exact htype (Option.some.inj heq ▸ htype')

end Board

/-- Sending a double ends exactly if no infinity is packed; receiving one always does. With the
budget of the model without one, sending is what it is there. -/
theorem double_ends_iff (o : ByteOrder) (pkt : Packet) (env : Env) (b : Board) (id : LambdaId)
    (result : RsDouble) (undef : UInt64) :
    ((∃ fuel, (htonRsPacketLambdaResultDoubleFuel fuel o pkt).isSome) ↔
        ¬ Binary64.Infinite (getDouble o pkt RESULT)) ∧
      ((∃ fuel, (Board.sendResultLambdaDoubleFuel fuel o env b id result).isSome) ↔
        ¬ (b.Converts o env id result ∧ Binary64.Infinite result)) ∧
      (∃ fuel, (ntohRsPacketLambdaResultDoubleFuel fuel o undef pkt).isSome) ∧
      (Board.sendResultLambdaDoubleFuel PACK_FUEL o env b id result).join =
        Board.sendResultLambdaDouble o env b id result := by
  refine ⟨hton_ends_iff o pkt, Board.send_ends_iff o env b id result, ⟨1025, ?_⟩,
    Board.sendResultLambdaDoubleFuel_eq o env b id result⟩
  rw [ntohRsPacketLambdaResultDoubleFuel_eq (by norm_num)]
  rfl

/-- Positive infinity is halved forever. -/
theorem infinity_is_not_packed :
    ¬ ∀ (o : ByteOrder) (pkt : Packet),
      ∃ fuel, (htonRsPacketLambdaResultDoubleFuel fuel o pkt).isSome := by
  intro h
  have hinf : Binary64.Infinite (getDouble .little (doublePacket 0x7FF0000000000000) RESULT) := by
    decide
  exact (hton_ends_iff .little _).mp (h .little (doublePacket 0x7FF0000000000000)) hinf

end RS
