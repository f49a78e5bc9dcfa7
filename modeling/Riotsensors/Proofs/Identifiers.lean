import Riotsensors.Proofs.RegistryMap
import Riotsensors.Sanity.Board

/-! Ids: where the counter stands, which ids are assigned between two calls of
`free_lambda_registry`, and why the sentinel is free. -/

namespace RS

open CMem

variable {α : Type}

namespace Registry

/-- What the counter, the 8-bit loops over it, the slots and the records have in common. -/
structure IdsSound (r : Registry α) : Prop where
  counter_le : r.lambdaCounter.toNat ≤ MAX_LAMBDAS
  /-- a loop index does not wrap on its way to the counter -/
  index : ∀ k ≤ r.lambdaCounter.toNat, ((· + 1)^[k] (0 : LambdaId)).toNat = k
  vacant : ∀ i, r.lambdaCounter.toNat ≤ i → r.slot i = none
  ids : ∀ i l, r.slot i = some l → l.id.toNat = i
  sentinel : ∀ i l, r.slot i = some l → l.id ≠ 255

theorem counter_lt (r : Registry α) : r.lambdaCounter.toNat < 256 := r.lambdaCounter.toNat_lt

theorem toNat_iterate_add_one {k : ℕ} (hk : k < 256) :
    ((· + 1)^[k] (0 : LambdaId)).toNat = k := by
  induction k with
  | zero => rfl
  | succ k ih =>
    rw [Function.iterate_succ_apply', UInt8.toNat_add, ih (by omega)]
    simp only [UInt8.reduceToNat]
    omega

theorem WF.idsSound {r : Registry α} (h : r.WF) : r.IdsSound where
  counter_le := Nat.le_of_lt_succ r.counter_lt
  index _ hk := toNat_iterate_add_one (hk.trans_lt r.counter_lt)
  vacant := h.vacant
  ids := h.ids
  sentinel _ _ hl := h.id_ne_sentinel hl

/-- Everything an operation can do: it assigns the counter as the id of a new record, it
frees the registry, or it assigns nothing and at most takes records away. -/
theorem WF.apply_cases {r : Registry α} (h : r.WF) (op : RegistryOp α) :
    (∃ l, r.lambdaCounter.toNat < MAX_LAMBDAS ∧
      r.assigns op = some r.lambdaCounter ∧ r.apply op = r.push l) ∨
    (op = .free ∧ r.assigns op = none ∧ r.apply op = Registry.empty) ∨
    (r.assigns op = none ∧ (r.apply op).lambdaCounter = r.lambdaCounter ∧
      ∀ i, (r.apply op).slot i = none ∨ (r.apply op).slot i = r.slot i) := by
  cases op with
  | register heap name type cache arg =>
    rcases lambdaRegistryRegister_cases h heap name type cache arg with
      ⟨mem, -, hacc, heq⟩ | ⟨-, hsame, -⟩
    · refine Or.inl ⟨_, hacc.1, ?_, congrArg Prod.fst heq⟩
      have hmoved := toNat_counter_push hacc.1
        (newRecord mem r.lambdaCounter name type cache arg)
      rw [assigns, heq, if_neg, UInt8.toUInt8_toInt8]
      intro hstill
      rw [hstill] at hmoved
      omega
    · refine Or.inr (Or.inr ⟨?_, ?_, fun i => Or.inr ?_⟩)
      · rw [assigns, hsame, if_pos rfl]
      · rw [Registry.apply, hsame]
      · rw [Registry.apply, hsame]
  | unregister id =>
    refine Or.inr (Or.inr ⟨rfl, lambdaRegistryUnregister_counter r id, fun i => ?_⟩)
    rw [Registry.apply, lambdaRegistryUnregister_slot h]
    split_ifs
    · exact Or.inl rfl
    · exact Or.inr rfl
  | free => exact Or.inr (Or.inl ⟨rfl, rfl, h.free_eq⟩)
  | init =>
    refine Or.inr (Or.inr ⟨rfl, rfl, fun i => Or.inl ?_⟩)
    simp [Registry.apply, slot, initLambdaRegistry]

/-- Only `free_lambda_registry` sets the counter back. -/
theorem WF.counter_le_apply {r : Registry α} (h : r.WF) {op : RegistryOp α}
    (hop : op ≠ .free) : r.lambdaCounter.toNat ≤ (r.apply op).lambdaCounter.toNat := by
  rcases h.apply_cases op with ⟨l, hc, -, heq⟩ | ⟨hfree, -⟩ | ⟨-, hcounter, -⟩
  · rw [heq, toNat_counter_push hc]
    exact Nat.le_succ _
  · exact absurd hfree hop
  · rw [hcounter]

/-- Ids are assigned in increasing order, from the counter on. -/
theorem WF.assigned_increasing {r : Registry α} (h : r.WF) {ops : List (RegistryOp α)}
    (hfree : RegistryOp.free ∉ ops) :
    (∀ id ∈ r.assigned ops, r.lambdaCounter ≤ id) ∧ (r.assigned ops).Pairwise (· < ·) := by
  induction ops generalizing r with
  | nil => exact ⟨fun id hid => absurd hid List.not_mem_nil, List.Pairwise.nil⟩
  | cons op ops ih =>
    obtain ⟨hop, hrest⟩ := not_or.mp (fun hmem => hfree (List.mem_cons.mpr hmem))
    have hmono := h.counter_le_apply (Ne.symm hop)
    obtain ⟨hlater, hsorted⟩ := ih (h.apply op) hrest
    have hge : ∀ id ∈ assigned (r.apply op) ops, r.lambdaCounter ≤ id := fun id hid =>
      UInt8.le_iff_toNat_le.mpr (hmono.trans (UInt8.le_iff_toNat_le.mp (hlater id hid)))
    rw [assigned]
    rcases h.apply_cases op with ⟨l, hc, hassign, heq⟩ | ⟨-, hassign, -⟩ | ⟨hassign, -⟩
    · rw [hassign]
      refine ⟨?_, List.pairwise_cons.mpr ⟨fun id hid => ?_, hsorted⟩⟩
      · rintro id (_ | ⟨_, hid⟩)
        · exact UInt8.le_refl _
        · exact hge id hid
      · have hlt := UInt8.le_iff_toNat_le.mp (hlater id hid)
        rw [heq, toNat_counter_push hc] at hlt
        exact UInt8.lt_iff_toNat_lt.mpr hlt
    · rw [hassign]
      exact ⟨hge, hsorted⟩
    · rw [hassign]
      exact ⟨hge, hsorted⟩

/-- A slot below the counter that is empty stays empty. -/
theorem WF.slot_apply_none {r : Registry α} (h : r.WF) {op : RegistryOp α} {i : ℕ}
    (hi : i < r.lambdaCounter.toNat) (hnone : r.slot i = none) : (r.apply op).slot i = none := by
  rcases h.apply_cases op with ⟨l, hc, -, heq⟩ | ⟨-, -, heq⟩ | ⟨-, -, hslots⟩
  · rw [heq, slot_push hc, if_neg hi.ne, hnone]
  · rw [heq, slot_empty]
  · rcases hslots i with hgone | hsame
    · exact hgone
    · rw [hsame, hnone]

theorem WF.run_slot_none {r : Registry α} (h : r.WF) {ops : List (RegistryOp α)}
    (hfree : RegistryOp.free ∉ ops) {i : ℕ} (hi : i < r.lambdaCounter.toNat)
    (hnone : r.slot i = none) : (Runs.run Registry.apply r ops).slot i = none := by
  induction ops generalizing r with
  | nil => exact hnone
  | cons op ops ih =>
    obtain ⟨hop, hrest⟩ := not_or.mp (fun hmem => hfree (List.mem_cons.mpr hmem))
    exact ih (h.apply op) hrest (hi.trans_le (h.counter_le_apply (Ne.symm hop)))
      (h.slot_apply_none hi hnone)

/-- An unregistered id resolves to nothing until the registry is freed. -/
theorem WF.unregistered_stays_unknown {r : Registry α} (h : r.WF) {id : LambdaId}
    (hdone : (lambdaRegistryUnregister r id).2 = RS_UNREGISTER_SUCCESS)
    {ops : List (RegistryOp α)} (hfree : RegistryOp.free ∉ ops) :
    getRegisteredLambdaById (Runs.run Registry.apply r (.unregister id :: ops)) id = none := by
  have hwf := h.apply (.unregister id)
  have hlive : r.slot id.toNat ≠ none := by
    intro hnone
    rw [lambdaRegistryUnregister_eq h, hnone, if_pos Option.isNone_none] at hdone
    exact absurd (show RS_UNREGISTER_NOTFOUND = RS_UNREGISTER_SUCCESS from hdone) (by decide)
  obtain ⟨l, hl⟩ := Option.ne_none_iff_exists'.mp hlive
  rw [Runs.run_cons, (Runs.run_inv_all (fun _ op h => h.apply op) ops hwf).getById]
  refine hwf.run_slot_none hfree ?_ ?_
  · rw [Registry.apply, lambdaRegistryUnregister_counter]
    exact h.lt_counter hl
  · rw [Registry.apply, lambdaRegistryUnregister_slot h, if_pos rfl]

end Registry

/-- Over every history: the ids are sound, they increase between two calls of
`free_lambda_registry`, none comes back, and none is the sentinel. -/
theorem ids_stable (ops : List (RegistryOp α)) (boardOps : List (RegistryOp FuncPtr))
    (started : Bool) :
    (Registry.after ops).IdsSound ∧
      (∀ later, RegistryOp.free ∉ later →
        ((Registry.after ops).assigned later).Pairwise (· < ·)) ∧
      (∀ id later, (lambdaRegistryUnregister (Registry.after ops) id).2 = RS_UNREGISTER_SUCCESS →
        RegistryOp.free ∉ later →
        getRegisteredLambdaById (Registry.after (ops ++ .unregister id :: later)) id = none) ∧
      ∀ name, Board.getLambdaIdFromName ⟨Registry.after boardOps, started⟩ name = 255 ↔
        getRegisteredLambdaByName (Registry.after boardOps) name = none := by
  have hwf := Registry.after_wf ops
  refine ⟨hwf.idsSound, ?_, ?_, ?_⟩
  · intro later hfree
    exact (hwf.assigned_increasing hfree).2
  · intro id later hdone hfree
    rw [Registry.after, Runs.run_append]
    exact hwf.unregistered_stays_unknown hdone hfree
  · intro name
    exact Board.getLambdaIdFromName_eq_sentinel (Registry.after_wf boardOps) name

end RS
