import Riotsensors.Sanity.Refinement
import Riotsensors.Spec.History

/-! The registry is a map with two keys as long as every accepted name keeps its
terminator: a name of full field length loses it to the type byte. -/

namespace RS

open CMem

variable {α : Type}

theorem Registry.WF.apply {r : Registry α} (h : r.WF) (op : RegistryOp α) : (r.apply op).WF := by
  cases op with
  | register heap name type cache arg => exact lambdaRegistryRegister_wf h ..
  | unregister id => exact lambdaRegistryUnregister_wf h id
  | free =>
    rw [Registry.apply, h.free_eq]
    exact Registry.WF.empty
  | init => exact Registry.WF.init

/-- Every registry that operations lead to is well formed. -/
theorem Registry.after_wf (ops : List (RegistryOp α)) : (Registry.after ops).WF :=
  Runs.run_inv_all (fun _ op h => h.apply op) ops Registry.WF.empty

namespace History

/-- An accepted name is shorter than its field, or the type that follows it is NUL. -/
def Terminated (h : History α) : RegistryOp α → Prop
  | .register heap name type _ _ =>
    h.registry.Accepts name → heap.isSome → strlen name < MAX_LAMBDA_NAME_LENGTH ∨ type = 0
  | _ => True

instance (h : History α) (op : RegistryOp α) : Decidable (h.Terminated op) := by
  unfold Terminated; split <;> infer_instance

/-- The registry implements its own ledger. -/
structure Inv (h : History α) : Prop where
  wf : h.registry.WF
  implements : h.registry.directory RsRegisteredLambda.registration = h.ledger
  distinct : h.ledger.Distinct

theorem Inv.start : (start : History α).Inv :=
  ⟨Registry.WF.empty, Registry.directory_empty, Directory.distinct_empty⟩

theorem ledgerStep_register_accepted {h : History α} {name : List UInt8}
    (hacc : h.registry.Accepts name) (mem : List UInt8) (type : RsLambdaType) (cache : RsCacheType)
    (arg : α) :
    h.ledgerStep (.register (some mem) name type cache arg) =
      h.ledger.enter (cstr name) (type, cache, arg) := by
  have hne : ¬ h.registry.lambdaCounter + 1 = h.registry.lambdaCounter := by
    intro heq
    have hnat := Registry.toNat_counter_push hacc.1
      (newRecord mem h.registry.lambdaCounter name type cache arg)
    change (h.registry.lambdaCounter + 1).toNat = _ at hnat
    rw [heq] at hnat
    omega
  rw [ledgerStep, lambdaRegistryRegister_of_accepts hacc]
  exact if_neg hne

theorem Inv.step_register {h : History α} (hinv : h.Inv) {heap : Option (List UInt8)}
    {name : List UInt8} {type : RsLambdaType} {cache : RsCacheType} {arg : α}
    (hterm : h.Terminated (.register heap name type cache arg)) :
    (h.step (.register heap name type cache arg)).Inv := by
  rcases lambdaRegistryRegister_cases hinv.wf heap name type cache arg with
    ⟨mem, rfl, hacc, heq⟩ | ⟨-, hsame, -⟩
  · have htext : (newRecord mem h.registry.lambdaCounter name type cache arg).text = cstr name :=
      (newRecord_text_iff hacc.2.2.1 ..).mpr (hterm hacc rfl)
    have hfresh : ¬ h.ledger.Has (cstr name) := by
      rw [← hinv.implements, ← hinv.wf.getByName_isNone_iff_directory]
      exact hacc.2.2.2.2
    refine ⟨hinv.wf.apply (.register ..), ?_, ?_⟩
    · simp only [History.step, Registry.apply, heq]
      rw [hinv.wf.directory_push hacc.1 rfl, htext, ledgerStep_register_accepted hacc,
        hinv.implements]
      rfl
    · simp only [History.step, ledgerStep_register_accepted hacc]
      exact hinv.distinct.enter hfresh _
  · have hledger : h.ledgerStep (.register heap name type cache arg) = h.ledger := by
      rw [ledgerStep, hsame, if_pos rfl]
    have hstep : h.step (.register heap name type cache arg) = h := by
      rw [History.step, Registry.apply, hsame, hledger]
    rw [hstep]
    exact hinv

theorem Inv.step_unregister {h : History α} (hinv : h.Inv) (id : LambdaId) :
    (h.step (.unregister id)).Inv := by
  have hledger : h.ledgerStep (.unregister id) = h.ledger.withdraw id.toNat := by
    rw [ledgerStep, lambdaRegistryUnregister_eq hinv.wf]
    split_ifs with hnone hcode hcode
    · cases hcode
    · apply Directory.ext_look (Directory.next_withdraw ..).symm
      intro i _
      rw [Directory.look_withdraw]
      split_ifs with hi
      · rw [← hinv.implements, hinv.wf.look_directory, hi, Option.isNone_iff_eq_none.mp hnone,
          Option.map_none]
      · rfl
    · rfl
    · exact absurd rfl hcode
  refine ⟨hinv.wf.apply (.unregister id), ?_, ?_⟩
  · simp only [History.step, Registry.apply]
    rw [hinv.wf.directory_unregister, hinv.implements, hledger]
  · simp only [History.step, hledger]
    exact hinv.distinct.withdraw _

/-- A step that keeps every accepted name terminated keeps the invariant. -/
theorem Inv.step {h : History α} (hinv : h.Inv) {op : RegistryOp α} (hterm : h.Terminated op) :
    (h.step op).Inv := by
  cases op with
  | register heap name type cache arg => exact hinv.step_register hterm
  | unregister id => exact hinv.step_unregister id
  | free => exact ⟨hinv.wf.apply .free, hinv.wf.directory_free, Directory.distinct_empty⟩
  | init =>
    refine ⟨hinv.wf.apply .init, ?_, Directory.distinct_withdrawAll _⟩
    rw [History.step, History.ledgerStep, ← hinv.implements]
    exact Registry.directory_init

theorem Inv.keysAgree {h : History α} (hinv : h.Inv) : h.KeysAgree := by
  refine ⟨fun name => ?_, hinv.distinct⟩
  unfold AgreesOn
  cases hget : getRegisteredLambdaByName h.registry name with
  | none =>
    rw [← hinv.implements]
    exact (hinv.wf.getByName_isNone_iff_directory _ name).mp (by rw [hget]; rfl)
  | some l =>
    obtain ⟨hslot, htext⟩ := hinv.wf.of_getByName hget
    refine ⟨htext, l.id, (hinv.wf.getById l.id).trans hslot, ?_⟩
    rw [← hinv.implements]
    exact hinv.wf.look_of_getByName hget

/-- The lookup by name misses a registration whose name lost its terminator. -/
theorem Inv.not_keysAgree {h : History α} (hinv : h.Inv) {op : RegistryOp α}
    (hterm : ¬ h.Terminated op) : ¬ (h.step op).KeysAgree := by
  cases op with
  | register heap name type cache arg =>
    simp only [Terminated, Classical.not_imp, not_or] at hterm
    obtain ⟨hacc, hheap, hlen, htype⟩ := hterm
    obtain ⟨mem, rfl⟩ := Option.isSome_iff_exists.mp hheap
    rintro ⟨hagree, -⟩
    have hname := hagree name
    have hmiss : getRegisteredLambdaByName
        (h.step (.register (some mem) name type cache arg)).registry name = none := by
      rw [← Option.isNone_iff_eq_none, History.step,
        (hinv.wf.apply (.register ..)).getByName_isNone_iff]
      simp only [Registry.apply, lambdaRegistryRegister_of_accepts hacc]
      intro i l hl
      rw [Registry.slot_push hacc.1] at hl
      split_ifs at hl with hi
      · rw [← Option.some.inj hl]
        intro htext
        exact ((newRecord_text_iff hacc.2.2.1 ..).mp htext).elim hlen htype
      · exact (hinv.wf.getByName_isNone_iff name).mp hacc.2.2.2.2 i l hl
    rw [AgreesOn, hmiss] at hname
    apply hname
    rw [History.step, ledgerStep_register_accepted hacc]
    exact ⟨h.ledger.next, _, by rw [Directory.look_enter, if_pos rfl]⟩
  | unregister id => exact absurd trivial hterm
  | free => exact absurd trivial hterm
  | init => exact absurd trivial hterm

/-- The two keys agree in every state of a history exactly when every name that the
history registers keeps its terminator. -/
theorem keys_agree_along_iff (ops : List (RegistryOp α)) :
    Runs.Along step KeysAgree (start : History α) ops ↔ Runs.Meets step Terminated start ops :=
  Runs.along_iff_meets (fun _ _ hinv hterm => hinv.step hterm) (fun _ hinv => hinv.keysAgree)
    (fun _ _ hinv hterm => hinv.not_keysAgree hterm) Inv.start ops

/-- `"abcdefghijkl"`, a name of full field length -/
def fullName : List UInt8 := [97, 98, 99, 100, 101, 102, 103, 104, 105, 106, 107, 108]

/-- An integer lambda of that name is registered and not found by it. -/
theorem full_name_is_not_found :
    ¬ ∀ ops : List (RegistryOp ℕ), Runs.Along step KeysAgree start ops := by
  intro h
  have hname := (h [.register (some []) fullName RS_LAMBDA_INT 0 7] _ List.prefix_rfl).1 fullName
  have hmiss : getRegisteredLambdaByName
      (start.step (.register (some []) fullName RS_LAMBDA_INT 0 7)).registry fullName = none := by
    decide
  simp only [Runs.run_cons, Runs.run_nil, AgreesOn, hmiss] at hname
  exact hname ⟨0, (RS_LAMBDA_INT, 0, 7), by decide⟩

end History

end RS
