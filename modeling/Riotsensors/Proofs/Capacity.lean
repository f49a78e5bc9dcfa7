import Riotsensors.Proofs.Registration

/-! The capacity of the registry. The counter says how many ids were given out,
which is the number of registered lambdas only until one of them is removed. -/

namespace RS

open CMem

variable {α : Type}

namespace Registry

/-- The slots in use. -/
def registered (r : Registry α) : Finset ℕ :=
  (Finset.range MAX_LAMBDAS).filter fun i => (r.slot i).isSome

/-- What registration asks of a name, whatever the registry. -/
def ValidName (name : List UInt8) : Prop :=
  0 < strlen name ∧ strlen name ≤ MAX_LAMBDA_NAME_LENGTH ∧ (cstr name).all isalnum

/-- A valid new name is refused for lack of room only if all `MAX_LAMBDAS` lambdas are
registered, and the number of lambdas is reported. -/
structure CountsRegistered (r : Registry α) : Prop where
  limit : ∀ heap name type cache arg, ValidName name →
    (∀ i l, r.slot i = some l → l.text ≠ cstr name) →
    lambdaRegistryRegister heap r name type cache arg = (r, RS_REGISTER_LIMIT_REACHED) →
    r.registered.card = MAX_LAMBDAS
  number : (getNumberOfRegisteredLambdas r).toNat = r.registered.card

/-- The operation takes no registered lambda away, short of a reset of the counter. -/
def RemovesNone (r : Registry α) : RegistryOp α → Prop
  | .unregister id => r.slot id.toNat = none
  | .init => ∀ i, r.slot i = none
  | .register _ _ _ _ _ | .free => True

/-- Every id given out is in use. -/
def Full (r : Registry α) : Prop := ∀ i < r.lambdaCounter.toNat, (r.slot i).isSome

theorem mem_registered {r : Registry α} {i : ℕ} : i ∈ r.registered ↔ (r.slot i).isSome := by
  rw [registered, Finset.mem_filter, Finset.mem_range, and_iff_right_iff_imp]
  intro h
  obtain ⟨l, hl⟩ := Option.isSome_iff_exists.mp h
  exact WF.lt_max hl

theorem WF.registered_subset {r : Registry α} (h : r.WF) :
    r.registered ⊆ Finset.range r.lambdaCounter.toNat := by
  intro i hi
  obtain ⟨l, hl⟩ := Option.isSome_iff_exists.mp (mem_registered.mp hi)
  exact Finset.mem_range.mpr (h.lt_counter hl)

/-- The counter is the number of registered lambdas exactly if none is missing below it. -/
theorem WF.counter_eq_card_iff {r : Registry α} (h : r.WF) :
    r.lambdaCounter.toNat = r.registered.card ↔ r.Full := by
  have hsub := h.registered_subset
  constructor
  · intro hcard i hi
    have hle : (Finset.range r.lambdaCounter.toNat).card ≤ r.registered.card := by
      rw [Finset.card_range, hcard]
    rw [← mem_registered, Finset.eq_of_subset_of_card_le hsub hle]
    exact Finset.mem_range.mpr hi
  · intro hfull
    have heq : r.registered = Finset.range r.lambdaCounter.toNat := by
      refine hsub.antisymm fun i hi => ?_
      exact mem_registered.mpr (hfull i (Finset.mem_range.mp hi))
    rw [heq, Finset.card_range]

/-- Only a full counter is refused for lack of room. -/
theorem limit_of_refused {r : Registry α} {heap : Option (List UInt8)} {name : List UInt8}
    {type : RsLambdaType} {cache : RsCacheType} {arg : α}
    (h : lambdaRegistryRegister heap r name type cache arg = (r, RS_REGISTER_LIMIT_REACHED)) :
    MAX_LAMBDAS ≤ r.lambdaCounter.toNat := by
  by_contra hroom
  have hne : ∀ {r' : Registry α} {res : Int8}, res ≠ RS_REGISTER_LIMIT_REACHED →
      (r', res) ≠ (r, RS_REGISTER_LIMIT_REACHED) := by
    rintro r' res hres heq
    exact hres (congrArg Prod.snd heq)
  rw [lambdaRegistryRegister, if_neg hroom] at h
  split_ifs at h
  · exact hne (by decide) h
  · exact hne (by decide) h
  · exact hne (by decide) h
  · cases heap with
    | none => exact hne (by decide) h
    | some mem =>
      -- a record was added, whatever the id reads as
      have hc : r.lambdaCounter.toNat < MAX_LAMBDAS := by omega
      exact r.push_ne hc (newRecord mem r.lambdaCounter name type cache arg) (congrArg Prod.fst h)

theorem WF.countsRegistered_iff {r : Registry α} (h : r.WF) : r.CountsRegistered ↔ r.Full := by
  constructor
  · intro hcounts
    exact h.counter_eq_card_iff.mp hcounts.number
  · intro hfull
    have hcard := h.counter_eq_card_iff.mpr hfull
    refine ⟨fun heap name type cache arg _ _ hlimit => ?_, hcard⟩
    have hmax : 255 ≤ r.lambdaCounter.toNat := limit_of_refused hlimit
    have hlt := r.lambdaCounter.toNat_lt
    rw [← hcard]
    change r.lambdaCounter.toNat = 255
    omega

theorem full_empty : (empty : Registry α).Full := by
  intro i hi
  exact absurd hi (Nat.not_lt_zero i)

theorem Full.push {r : Registry α} (h : r.Full) (hc : r.lambdaCounter.toNat < MAX_LAMBDAS)
    (l : RsRegisteredLambda α) : (r.push l).Full := by
  intro i hi
  rw [toNat_counter_push hc] at hi
  rw [slot_push hc]
  split_ifs with hlast
  · rfl
  · exact h i (by omega)

/-- An operation keeps every id in use exactly if it removes none. -/
theorem Full.apply_iff {r : Registry α} (hwf : r.WF) (h : r.Full) (op : RegistryOp α) :
    (r.apply op).Full ↔ r.RemovesNone op := by
  cases op with
  | register heap name type cache arg =>
    refine iff_of_true ?_ trivial
    change (lambdaRegistryRegister heap r name type cache arg).1.Full
    rcases lambdaRegistryRegister_cases hwf heap name type cache arg with
      ⟨mem, -, hacc, heq⟩ | ⟨-, heq, -⟩
    · rw [heq]
      exact h.push hacc.1 _
    · rw [heq]
      exact h
  | unregister id =>
    change (lambdaRegistryUnregister r id).1.Full ↔ r.slot id.toNat = none
    constructor
    · intro hfull
      by_contra hne
      obtain ⟨l, hl⟩ := Option.ne_none_iff_exists'.mp hne
      have hsome := hfull id.toNat (by simpa using hwf.lt_counter hl)
      rw [lambdaRegistryUnregister_slot hwf, if_pos rfl] at hsome
      cases hsome
    · intro hnone i hi
      rw [lambdaRegistryUnregister_counter] at hi
      have hsome := h i hi
      rw [lambdaRegistryUnregister_slot hwf, if_neg]
      · exact hsome
      · rintro rfl
        rw [hnone] at hsome
        cases hsome
  | free =>
    refine iff_of_true ?_ trivial
    change (freeLambdaRegistry r).Full
    rw [hwf.free_eq]
    exact full_empty
  | init =>
    change (∀ i < r.lambdaCounter.toNat, ((initLambdaRegistry r).slot i).isSome) ↔
      ∀ i, r.slot i = none
    have hcleared : ∀ i, (initLambdaRegistry r).slot i = none := fun i => by
      simp [slot, initLambdaRegistry]
    constructor
    · intro hfull i
      by_contra hne
      obtain ⟨l, hl⟩ := Option.ne_none_iff_exists'.mp hne
      have hsome := hfull i (hwf.lt_counter hl)
      rw [hcleared] at hsome
      cases hsome
    · intro hnone i hi
      have hsome := h i hi
      rw [hnone] at hsome
      cases hsome

end Registry

/-- In every state of a run of registry operations the capacity and the reported number
are about registered lambdas if and only if no step of the run removes one. -/
theorem counts_registered_iff (ops : List (RegistryOp α)) :
    Runs.Along Registry.apply Registry.CountsRegistered Registry.empty ops ↔
      Runs.Meets Registry.apply Registry.RemovesNone Registry.empty ops := by
  refine @Runs.along_iff_meets _ _ _ (fun r => r.WF ∧ r.Full) _ _ ?_ ?_ ?_ _
    ⟨Registry.WF.empty, Registry.full_empty⟩ ops
  · rintro r op ⟨hwf, hfull⟩ hop
    exact ⟨hwf.apply op, (hfull.apply_iff hwf op).mpr hop⟩
  · rintro r ⟨hwf, hfull⟩
    exact hwf.countsRegistered_iff.mpr hfull
  · rintro r op ⟨hwf, hfull⟩ hop hcounts
    have hfull' := (hwf.apply op).countsRegistered_iff.mp hcounts
    exact hop ((hfull.apply_iff hwf op).mp hfull')

/-- After 255 lambdas that came and went the registry is empty and full. -/
theorem removed_lambdas_fill_the_registry :
    (Registry.after (churn MAX_LAMBDAS)).registered.card = 0 ∧
      getNumberOfRegisteredLambdas (Registry.after (churn MAX_LAMBDAS)) = 255 ∧
      lambdaRegistryRegister (some []) (Registry.after (churn MAX_LAMBDAS)) [97] RS_LAMBDA_INT 0 0 =
        (Registry.after (churn MAX_LAMBDAS), RS_REGISTER_LIMIT_REACHED) ∧
      ¬ Runs.Along Registry.apply Registry.CountsRegistered Registry.empty (churn MAX_LAMBDAS) := by
  have hafter := after_churn (le_refl MAX_LAMBDAS)
  have hcard : (Registry.after (churn MAX_LAMBDAS)).registered.card = 0 := by
    rw [hafter, Finset.card_eq_zero, Finset.eq_empty_iff_forall_notMem]
    intro i hi
    simpa [Registry.slot] using Registry.mem_registered.mp hi
  have hnumber : getNumberOfRegisteredLambdas (Registry.after (churn MAX_LAMBDAS)) = 255 := by
    rw [hafter]
    rfl
  refine ⟨hcard, hnumber, ?_, fun h => ?_⟩
  · rw [lambdaRegistryRegister, if_pos]
    rw [hafter]
    decide
  · have hlast := (h (churn MAX_LAMBDAS) List.prefix_rfl).number
    change (getNumberOfRegisteredLambdas (Registry.after (churn MAX_LAMBDAS))).toNat =
      (Registry.after (churn MAX_LAMBDAS)).registered.card at hlast
    rw [hcard, hnumber] at hlast
    exact absurd hlast (by decide)

end RS
