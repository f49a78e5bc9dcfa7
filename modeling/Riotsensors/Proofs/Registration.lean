import Riotsensors.Proofs.RegistryMap
import Riotsensors.Sanity.Board

/-! Registration reports what it did while the new id is positive as an `int8_t`. -/

namespace RS

open CMem

variable {α : Type}

/-- Exactly one entry is new in `r'`, under the id `id`, and all others are as in `r`. -/
def Registry.Adds (r r' : Registry α) (id : LambdaId) : Prop :=
  ∃ l, l.id = id ∧ r.slot id.toNat = none ∧ r'.slot id.toNat = some l ∧
    ∀ j, j ≠ id.toNat → r'.slot j = r.slot j

/-- A result that is an id names the one entry added; an error constant says that the
registry is as it was; and both the other way round. -/
def Registry.ReportsTruly (r r' : Registry α) (res : Int8) : Prop :=
  (0 ≤ res ↔ r.Adds r' res.toUInt8) ∧ (res ∈ RS_REGISTER_ERRORS ↔ r' = r)

/-- The registration is refused, or its id is positive as an `int8_t`. -/
def Registry.IdFits (r : Registry α) (heap : Option (List UInt8)) (name : List UInt8) : Prop :=
  r.Accepts name ∧ heap.isSome → r.lambdaCounter.toNat < 128

theorem Registry.push_ne (r : Registry α) (hc : r.lambdaCounter.toNat < MAX_LAMBDAS)
    (l : RsRegisteredLambda α) : r.push l ≠ r := by
  intro heq
  have hnat := Registry.toNat_counter_push hc l
  rw [heq] at hnat
  omega

theorem Registry.adds_push {r : Registry α} (hwf : r.WF)
    (hc : r.lambdaCounter.toNat < MAX_LAMBDAS) {l : RsRegisteredLambda α}
    (hl : l.id = r.lambdaCounter) : r.Adds (r.push l) r.lambdaCounter := by
  refine ⟨l, hl, hwf.vacant _ le_rfl, ?_, fun j hj => ?_⟩
  · rw [Registry.slot_push hc, if_pos rfl]
  · rw [Registry.slot_push hc, if_neg hj]

theorem Registry.not_adds_self (r : Registry α) (id : LambdaId) : ¬ r.Adds r id := by
  rintro ⟨l, -, hnone, hsome, -⟩
  rw [hnone] at hsome
  cases hsome

/-- A refusal is reported truly: it names an error and changes nothing. -/
theorem Registry.reportsTruly_refused (r : Registry α) {res : Int8}
    (hres : res ∈ RS_REGISTER_ERRORS) : r.ReportsTruly r res := by
  exact ⟨⟨fun h => absurd h (not_nonneg_of_error hres), fun h => absurd h (r.not_adds_self _)⟩,
    fun _ => rfl, fun _ => hres⟩

/-- A registration that took effect is reported truly exactly while its id fits. -/
theorem Registry.reportsTruly_push_iff {r : Registry α} (hwf : r.WF)
    (hc : r.lambdaCounter.toNat < MAX_LAMBDAS) {l : RsRegisteredLambda α}
    (hl : l.id = r.lambdaCounter) :
    r.ReportsTruly (r.push l) r.lambdaCounter.toInt8 ↔ r.lambdaCounter.toNat < 128 := by
  have hadds : r.Adds (r.push l) r.lambdaCounter.toInt8.toUInt8 := by
    rw [UInt8.toUInt8_toInt8]
    exact Registry.adds_push hwf hc hl
  constructor
  · intro h
    exact (toInt8_nonneg_iff _).mp (h.1.mpr hadds)
  · intro h
    refine ⟨⟨fun _ => hadds, fun _ => (toInt8_nonneg_iff _).mpr h⟩, ?_⟩
    exact ⟨fun herr => absurd herr (toInt8_not_error h), fun hsame => absurd hsame (r.push_ne hc l)⟩

theorem lambdaRegistryRegister_reportsTruly_iff {r : Registry α} (hwf : r.WF)
    (heap : Option (List UInt8)) (name : List UInt8) (type : RsLambdaType) (cache : RsCacheType)
    (arg : α) :
    r.ReportsTruly (lambdaRegistryRegister heap r name type cache arg).1
      (lambdaRegistryRegister heap r name type cache arg).2 ↔ r.IdFits heap name := by
  rcases lambdaRegistryRegister_cases hwf heap name type cache arg with
    ⟨mem, rfl, hacc, heq⟩ | ⟨hrefused, hsame, hres⟩
  · rw [heq, Registry.reportsTruly_push_iff hwf hacc.1 rfl]
    exact ⟨fun h _ => h, fun h => h ⟨hacc, rfl⟩⟩
  · rw [hsame]
    exact ⟨fun _ hacc => absurd hacc hrefused, fun _ => r.reportsTruly_refused hres⟩

namespace Board

/-- `register_lambda` returns and reports truly, and while the link is up it sends one
`RS_PACKET_REGISTERED` for an entry it added and nothing otherwise. -/
def RegistersTruly (b : Board) (out : Option (Board × Int8 × List Packet)) : Prop :=
  ∃ b' res sent, out = some (b', res, sent) ∧ b.registry.ReportsTruly b'.registry res ∧
    (b.rsSptStarted = true →
      (0 ≤ res → ∃ pkt, sent = [pkt] ∧ byteAt pkt PTYPE = RS_PACKET_REGISTERED) ∧
      (res < 0 → sent = []))

/-- The null check refuses, or the registry does, or the id is positive as an `int8_t`. -/
def IdFits (b : Board) (env : Env) (name : List UInt8) (lambda : FuncPtr) (cache : RsCacheType) :
    Prop :=
  lambda = 0 ∧ cache ≠ RS_CACHE_ONLY ∨ b.registry.IdFits env.heap name

theorem registerLambda_registersTruly_iff {b : Board} (hwf : b.registry.WF) (env : Env)
    (name : List UInt8) (lambda : FuncPtr) (type : RsLambdaType) (cache : RsCacheType) :
    b.RegistersTruly (registerLambda env b name lambda type cache) ↔
      b.IdFits env name lambda cache := by
  rcases registerLambda_cases hwf env name lambda type cache with
    ⟨hrefused, res, hres, heq⟩ | ⟨mem, hheap, hacc, hnull, sent, heq, hpos, hneg⟩
  · constructor
    · intro _
      rcases not_and_or.mp hrefused with hnull | hreg
      · exact Or.inl (not_not.mp hnull)
      · exact Or.inr fun hacc => absurd hacc hreg
    · intro _
      refine ⟨b, res, [], heq, b.registry.reportsTruly_refused hres,
        fun _ => ⟨fun h => ?_, fun _ => rfl⟩⟩
      exact absurd h (not_nonneg_of_error hres)
  · have htruly := Registry.reportsTruly_push_iff hwf hacc.1
      (l := newRecord mem b.registry.lambdaCounter name type cache lambda) rfl
    constructor
    · rintro ⟨b', res, sent', hout, hrep, -⟩
      rw [heq] at hout
      obtain ⟨rfl, rfl, rfl⟩ : _ ∧ _ ∧ _ := by simpa using hout
      exact Or.inr fun _ => htruly.mp hrep
    · rintro (h | hfits)
      · exact absurd h hnull
      · have hlt := hfits ⟨hacc, by rw [hheap]; rfl⟩
        refine ⟨_, _, sent, heq, htruly.mpr hlt, fun hstarted => ⟨fun _ => ?_, fun h => ?_⟩⟩
        · obtain ⟨pkt, rfl, hpkt⟩ := hpos hlt hstarted
          obtain ⟨pkt', hpkt', -, htag, -⟩ := registeredPacket_spec hacc.2.2.1 env type cache
          rw [hpkt] at hpkt'
          exact ⟨pkt, rfl, by rw [Option.some.inj hpkt']; exact htag⟩
        · exact absurd ((toInt8_nonneg_iff _).mpr hlt) (Int8.not_le.mpr h)

end Board

/-- Over every reachable registry: a registration reports what it did exactly when it is
refused or its id is below 128, in the registry and on the board. -/
theorem registration_reports_truly_iff {α : Type} (ops : List (RegistryOp α))
    (boardOps : List (RegistryOp FuncPtr)) (started : Bool) (heap : Option (List UInt8)) (env : Env)
    (name : List UInt8) (type : RsLambdaType) (cache : RsCacheType) (arg : α) (lambda : FuncPtr) :
    ((Registry.after ops).ReportsTruly
          (lambdaRegistryRegister heap (Registry.after ops) name type cache arg).1
          (lambdaRegistryRegister heap (Registry.after ops) name type cache arg).2 ↔
        (Registry.after ops).IdFits heap name) ∧
      ((Board.mk (Registry.after boardOps) started).RegistersTruly
          (Board.registerLambda env ⟨Registry.after boardOps, started⟩ name lambda type cache) ↔
        (Board.mk (Registry.after boardOps) started).IdFits env name lambda cache) := by
  refine ⟨?_, ?_⟩
  · exact lambdaRegistryRegister_reportsTruly_iff (Registry.after_wf ops) heap name type cache arg
  · exact Board.registerLambda_registersTruly_iff (Registry.after_wf boardOps) env name lambda type
      cache

/-- `n` lambdas named `"a"`, each unregistered before the next. -/
def churn : ℕ → List (RegistryOp ℕ)
  | 0 => []
  | n + 1 => churn n ++ [.register (some []) [97] RS_LAMBDA_INT 0 0, .unregister (UInt8.ofNat n)]

/-- The numbers of unregistered lambdas stay used. -/
theorem after_churn {n : ℕ} (hn : n ≤ MAX_LAMBDAS) :
    Registry.after (churn n) = ⟨fun _ => none, UInt8.ofNat n⟩ := by
  induction n with
  | zero => rfl
  | succ n ih =>
    have hn' : n < 255 := hn
    rw [Registry.after, churn, Runs.run_append]
    change Runs.run Registry.apply (Registry.after (churn n)) _ = _
    rw [ih (by omega)]
    have hwf : (⟨fun _ => none, UInt8.ofNat n⟩ : Registry ℕ).WF :=
      ⟨fun i _ => by simp [Registry.slot], fun i l hl => by simp [Registry.slot] at hl⟩
    have hnat : (UInt8.ofNat n).toNat = n := by
      rw [UInt8.toNat_ofNat', Nat.mod_eq_of_lt (by omega)]
    have hacc : (⟨fun _ => none, UInt8.ofNat n⟩ : Registry ℕ).Accepts [97] := by
      refine ⟨?_, by decide, by decide, by decide, ?_⟩
      · change (UInt8.ofNat n).toNat < 255
        omega
      · rw [hwf.getByName_isNone_iff]
        intro i l hl
        simp [Registry.slot] at hl
    apply Registry.ext_slot
    · simp only [Runs.run_cons, Runs.run_nil, Registry.apply, lambdaRegistryUnregister_counter,
        lambdaRegistryRegister_of_accepts hacc]
      change UInt8.ofNat n + 1 = UInt8.ofNat (n + 1)
      rw [UInt8.ofNat_add]
      rfl
    · intro i
      simp only [Runs.run_cons, Runs.run_nil, Registry.apply,
        lambdaRegistryRegister_of_accepts hacc]
      rw [lambdaRegistryUnregister_slot (hwf.push hacc.1 rfl), Registry.slot_push hacc.1]
      simp [Registry.slot]

theorem id_128_is_reported_as_an_error :
    ¬ ∀ (ops : List (RegistryOp ℕ)) (name : List UInt8) (type : RsLambdaType)
      (cache : RsCacheType) (arg : ℕ),
      (Registry.after ops).ReportsTruly
        (lambdaRegistryRegister (some []) (Registry.after ops) name type cache arg).1
        (lambdaRegistryRegister (some []) (Registry.after ops) name type cache arg).2 := by
  intro h
  have h128 := h (churn 128) [97] RS_LAMBDA_INT 0 0
  rw [lambdaRegistryRegister_reportsTruly_iff (Registry.after_wf _),
    after_churn (by decide)] at h128
  exact absurd (h128 ⟨by decide, rfl⟩) (by decide)

end RS
