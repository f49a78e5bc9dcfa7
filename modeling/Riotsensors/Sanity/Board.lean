import Riotsensors.Sanity.Registry
import Riotsensors.Sanity.Packets
import Riotsensors.Spec.System

/-! What the board's entry points do, by the state before them. -/

namespace RS

open CMem

theorem LambdaKind.type_ne_zero (kind : LambdaKind) : kind.type ≠ 0 := by
  cases kind <;> decide

namespace Board

theorem operate_register (env : Env) (b : Board) (kind : LambdaKind) (name : List UInt8)
    (lambda : FuncPtr) (cache : RsCacheType) :
    b.operate env (.register kind name lambda cache) =
      registerLambda env b name lambda kind.type cache := by
  cases kind <;> rfl

theorem operate_unregister (env : Env) (b : Board) (id : LambdaId) :
    b.operate env (.unregister id) = unregisterLambda env b id := rfl

/-- What a registration needs to take effect. -/
def Registers (b : Board) (env : Env) (name : List UInt8) (lambda : FuncPtr)
    (cache : RsCacheType) : Prop :=
  ¬ (lambda = 0 ∧ cache ≠ RS_CACHE_ONLY) ∧ b.registry.Accepts name ∧ env.heap.isSome

/-- The board with one more record. -/
def pushed (b : Board) (mem name : List UInt8) (lambda : FuncPtr) (type : RsLambdaType)
    (cache : RsCacheType) : Board where
  registry := b.registry.push (newRecord mem b.registry.lambdaCounter name type cache lambda)
  rsSptStarted := b.rsSptStarted

theorem registerLambda_cases {b : Board} (hwf : b.registry.WF) (env : Env) (name : List UInt8)
    (lambda : FuncPtr) (type : RsLambdaType) (cache : RsCacheType) :
    (¬ b.Registers env name lambda cache ∧
      ∃ res ∈ RS_REGISTER_ERRORS, registerLambda env b name lambda type cache = some (b, res, [])) ∨
    (∃ mem, env.heap = some mem ∧ b.registry.Accepts name ∧
      ¬ (lambda = 0 ∧ cache ≠ RS_CACHE_ONLY) ∧
      ∃ sent, registerLambda env b name lambda type cache =
          some (b.pushed mem name lambda type cache, b.registry.lambdaCounter.toInt8, sent) ∧
        (b.registry.lambdaCounter.toNat < 128 → b.rsSptStarted = true →
          ∃ pkt, sent = [pkt] ∧ registeredPacket env name type cache = some pkt) ∧
        (128 ≤ b.registry.lambdaCounter.toNat → sent = [])) := by
  by_cases hnull : lambda = 0 ∧ cache ≠ RS_CACHE_ONLY
  · refine Or.inl ⟨fun h => h.1 hnull, RS_REGISTER_INVALPARAM, by decide, ?_⟩
    rw [registerLambda, if_pos hnull]
  · rcases lambdaRegistryRegister_cases hwf env.heap name type cache lambda with
      ⟨mem, hheap, hacc, heq⟩ | ⟨hrefused, hsame, hres⟩
    · refine Or.inr ⟨mem, hheap, hacc, hnull, ?_⟩
      rw [registerLambda, if_neg hnull, heq]
      by_cases hlt : b.registry.lambdaCounter.toNat < 128
      · have hpos : ¬ b.registry.lambdaCounter.toInt8 < 0 :=
          Int8.not_lt.mpr ((toInt8_nonneg_iff _).mpr hlt)
        simp only [if_neg hpos]
        by_cases hstarted : b.rsSptStarted = true
        · obtain ⟨pkt, hpkt, -⟩ := registeredPacket_spec hacc.2.2.1 env type cache
          refine ⟨[pkt], ?_, fun _ _ => ⟨pkt, rfl, hpkt⟩, fun h => by omega⟩
          simp [pushed, hstarted, hpkt]
        · exact ⟨[], by simp [pushed, hstarted], fun _ h => absurd h hstarted, fun _ => rfl⟩
      · have hneg : b.registry.lambdaCounter.toInt8 < 0 :=
          Int8.not_le.mp fun h => hlt ((toInt8_nonneg_iff _).mp h)
        exact ⟨[], by simp only [if_pos hneg, pushed], fun h => absurd h hlt, fun _ => rfl⟩
    · refine Or.inl ⟨fun h => hrefused h.2, _, hres, ?_⟩
      rw [registerLambda, if_neg hnull]
      have hneg := Int8.not_le.mp (not_nonneg_of_error hres)
      simp only [if_pos hneg, hsame]

/-- The sentinel is returned exactly for the names that the lookup does not find. -/
theorem getLambdaIdFromName_eq_sentinel {b : Board} (h : b.registry.WF)
    (name : List UInt8) :
    getLambdaIdFromName b name = 255 ↔ getRegisteredLambdaByName b.registry name = none := by
  unfold getLambdaIdFromName
  cases hfound : getRegisteredLambdaByName b.registry name with
  | none => exact ⟨fun _ => rfl, fun _ => rfl⟩
  | some l =>
    refine ⟨fun hid => ?_, fun hnone => by cases hnone⟩
    exact absurd hid (h.id_ne_sentinel (h.of_getByName hfound).1)

/-- An unregistration of a live id with the link up. -/
theorem unregisterLambda_of_live {b : Board} {id : LambdaId} {lambda : RsRegisteredLambda FuncPtr}
    (env : Env) (hget : getRegisteredLambdaById b.registry id = some lambda)
    (hup : b.rsSptStarted = true) :
    unregisterLambda env b id = (unregisteredPacket env id lambda).map fun packet =>
      ({ b with registry := (lambdaRegistryUnregister b.registry id).1 },
        RS_UNREGISTER_SUCCESS, [packet]) := by
  simp only [unregisterLambda, hget, hup, if_true]
  cases unregisteredPacket env id lambda <;> rfl

end Board

end RS
