import Riotsensors.Spec.Registry

/-! What the registry operations do, stated once: every operation keeps the
representation invariant, a registration is accepted on a condition of the state
before it, and the lookups read the slots. -/

namespace RS

open CMem

variable {α : Type}

/-- The negative constants that a registration reports. -/
def RS_REGISTER_ERRORS : List Int8 :=
  [RS_REGISTER_INVALNAME, RS_REGISTER_DUPLICATE, RS_REGISTER_LIMIT_REACHED, RS_REGISTER_NOMEM,
    RS_REGISTER_INVALPARAM]

namespace Registry

/-- No slot is in use from the counter on, and a record holds its own index. -/
structure WF (r : Registry α) : Prop where
  vacant : ∀ i, r.lambdaCounter.toNat ≤ i → r.slot i = none
  ids : ∀ i l, r.slot i = some l → l.id.toNat = i

/-- The checks a registration has to pass, in the code's own predicates. -/
def Accepts (r : Registry α) (name : List UInt8) : Prop :=
  r.lambdaCounter.toNat < MAX_LAMBDAS ∧ 0 < strlen name ∧
    strlen name ≤ MAX_LAMBDA_NAME_LENGTH ∧ (cstr name).all isalnum ∧
    (getRegisteredLambdaByName r name).isNone

instance (r : Registry α) (name : List UInt8) : Decidable (r.Accepts name) := by
  unfold Accepts; infer_instance

/-- The registry with one more record, at the counter. -/
def push (r : Registry α) (l : RsRegisteredLambda α) : Registry α :=
  { r.setSlot r.lambdaCounter.toNat (some l) with lambdaCounter := r.lambdaCounter + 1 }

@[simp] theorem slot_empty (i : ℕ) : (empty : Registry α).slot i = none := by
  simp [slot, empty]

theorem slot_of_le {r : Registry α} {i : ℕ} (h : MAX_LAMBDAS ≤ i) : r.slot i = none := by
  rw [slot, dif_neg (by omega)]

theorem slot_setSlot (r : Registry α) {i : ℕ} (hi : i < MAX_LAMBDAS) (j : ℕ)
    (l : Option (RsRegisteredLambda α)) :
    (r.setSlot i l).slot j = if j = i then l else r.slot j := by
  unfold slot setSlot
  by_cases hj : j < MAX_LAMBDAS
  · simp only [dif_pos hj]
  · rw [dif_neg hj, dif_neg hj, if_neg (by omega)]

/-- Two registries are equal when their counters and all slots are. -/
theorem ext_slot {r s : Registry α} (hc : r.lambdaCounter = s.lambdaCounter)
    (h : ∀ i, r.slot i = s.slot i) : r = s := by
  rcases r with ⟨slots, c⟩
  rcases s with ⟨slots', c'⟩
  obtain rfl : c = c' := hc
  congr
  funext i
  simpa [slot, i.isLt] using h i.val

theorem setSlot_none_of_vacant {r : Registry α} {i : ℕ} (h : r.slot i = none) :
    r.setSlot i none = r := by
  rcases r with ⟨slots, c⟩
  simp only [setSlot, Registry.mk.injEq, and_true]
  funext j
  split_ifs with hj
  · subst hj
    simpa [slot] using h.symm
  · rfl

theorem toNat_counter_push {r : Registry α} (h : r.lambdaCounter.toNat < MAX_LAMBDAS)
    (l : RsRegisteredLambda α) :
    (r.push l).lambdaCounter.toNat = r.lambdaCounter.toNat + 1 := by
  have h' : r.lambdaCounter.toNat < 255 := h
  change (r.lambdaCounter + 1).toNat = _
  rw [UInt8.toNat_add]
  simp only [UInt8.reduceToNat]
  omega

theorem slot_push {r : Registry α} (h : r.lambdaCounter.toNat < MAX_LAMBDAS)
    (l : RsRegisteredLambda α) (j : ℕ) :
    (r.push l).slot j = if j = r.lambdaCounter.toNat then some l else r.slot j :=
  slot_setSlot r h j (some l)

theorem WF.empty : (empty : Registry α).WF := ⟨by simp, by simp⟩

theorem WF.push {r : Registry α} (h : r.WF) (hc : r.lambdaCounter.toNat < MAX_LAMBDAS)
    {l : RsRegisteredLambda α} (hl : l.id = r.lambdaCounter) : (r.push l).WF := by
  refine ⟨fun i hi => ?_, fun i m hm => ?_⟩
  · rw [toNat_counter_push hc] at hi
    rw [slot_push hc, if_neg (by omega)]
    exact h.vacant i (by omega)
  · rw [slot_push hc] at hm
    split_ifs at hm with hi
    · rw [← Option.some.inj hm, hl, hi]
    · exact h.ids i m hm

theorem WF.init {r : Registry α} : (initLambdaRegistry r).WF :=
  ⟨fun i _ => by simp [slot, initLambdaRegistry], fun i l hl => by
    simp [slot, initLambdaRegistry] at hl⟩

/-- On a well-formed registry `free_lambda_registry` restores the start state. -/
theorem WF.free_eq {r : Registry α} (h : r.WF) : freeLambdaRegistry r = Registry.empty := by
  simp only [freeLambdaRegistry, Registry.empty, Registry.mk.injEq, and_true]
  funext i
  split_ifs with hi
  · rfl
  · have := h.vacant i.val (by omega)
    simpa [slot, i.isLt] using this

/-- A live record sits below the counter. -/
theorem WF.lt_counter {r : Registry α} (h : r.WF) {i : ℕ} {l : RsRegisteredLambda α}
    (hl : r.slot i = some l) : i < r.lambdaCounter.toNat := by
  by_contra hge
  rw [h.vacant i (by omega)] at hl
  cases hl

theorem WF.lt_max {r : Registry α} {i : ℕ} {l : RsRegisteredLambda α}
    (hl : r.slot i = some l) : i < MAX_LAMBDAS := by
  by_contra hge
  rw [slot_of_le (by omega)] at hl
  cases hl

/-- A live record sits below 255. -/
theorem WF.id_ne_sentinel {r : Registry α} (h : r.WF) {i : ℕ} {l : RsRegisteredLambda α}
    (hl : r.slot i = some l) : l.id ≠ 255 := by
  intro hid
  have hmax := WF.lt_max hl
  rw [← h.ids i l hl, hid] at hmax
  exact absurd hmax (by decide)

/-- Both range checks of the lookup are implied by the invariant. -/
theorem WF.getById {r : Registry α} (h : r.WF) (id : LambdaId) :
    getRegisteredLambdaById r id = r.slot id.toNat := by
  unfold getRegisteredLambdaById
  split_ifs with hid
  · rcases hid with hid | hid
    · rw [slot_of_le hid]
    · rw [h.vacant _ (UInt8.le_iff_toNat_le.mp hid)]
  · rfl

theorem getByName_isNone_iff (r : Registry α) (name : List UInt8) :
    (getRegisteredLambdaByName r name).isNone ↔
      ∀ i < r.lambdaCounter.toNat, ∀ l, r.slot i = some l → l.text ≠ cstr name := by
  simp only [getRegisteredLambdaByName, Option.isNone_iff_eq_none, List.findSome?_eq_none_iff,
    List.mem_range, Option.filter_eq_none_iff, strEq_iff]
  rfl

theorem WF.getByName_isNone_iff {r : Registry α} (h : r.WF) (name : List UInt8) :
    (getRegisteredLambdaByName r name).isNone ↔
      ∀ i l, r.slot i = some l → l.text ≠ cstr name := by
  rw [Registry.getByName_isNone_iff]
  exact ⟨fun hn i l hl => hn i (h.lt_counter hl) l hl, fun hn i _ l hl => hn i l hl⟩

/-- A record found by name is live under its own id and compares equal. -/
theorem WF.of_getByName {r : Registry α} (h : r.WF) {name : List UInt8}
    {l : RsRegisteredLambda α} (hl : getRegisteredLambdaByName r name = some l) :
    r.slot l.id.toNat = some l ∧ l.text = cstr name := by
  obtain ⟨i, -, hi⟩ := List.exists_of_findSome?_eq_some hl
  obtain ⟨hslot, heq⟩ := Option.filter_eq_some_iff.mp hi
  refine ⟨?_, strEq_iff.mp heq⟩
  rw [h.ids i l hslot, hslot]

/-- The lookup answers with the first live record of the name. -/
theorem WF.getByName_eq_some_iff {r : Registry α} (h : r.WF) {name : List UInt8}
    {l : RsRegisteredLambda α} :
    getRegisteredLambdaByName r name = some l ↔
      r.slot l.id.toNat = some l ∧ l.text = cstr name ∧
        ∀ j < l.id.toNat, ∀ m, r.slot j = some m → m.text ≠ cstr name := by
  have hmatch : ∀ i m, (r.slot i).filter (fun l => strEq l.nameMem name) = some m ↔
      r.slot i = some m ∧ m.text = cstr name := fun i m => by
    rw [Option.filter_eq_some_iff, strEq_iff]
    rfl
  have hmiss : ∀ i, (r.slot i).filter (fun l => strEq l.nameMem name) = none ↔
      ∀ m, r.slot i = some m → m.text ≠ cstr name := fun i => by
    rw [Option.filter_eq_none_iff]
    exact forall₂_congr fun m _ => not_congr strEq_iff
  rw [getRegisteredLambdaByName, List.findSome?_eq_some_iff]
  constructor
  · rintro ⟨before, i, after, hsplit, hi, hbefore⟩
    obtain ⟨hslot, htext⟩ := (hmatch i l).mp hi
    have hlen : before.length = i := by
      have hget := congrArg (fun xs : List ℕ => xs[before.length]?) hsplit
      have hlt : before.length < r.lambdaCounter.toNat := by
        have := congrArg List.length hsplit
        simp only [List.length_range, List.length_append, List.length_cons] at this
        omega
      simpa [List.getElem?_range hlt] using hget
    obtain rfl := h.ids i l hslot
    refine ⟨hslot, htext, fun j hj => (hmiss j).mp (hbefore j ?_)⟩
    have hget : (List.range r.lambdaCounter.toNat)[j]? = before[j]? := by
      rw [hsplit, List.getElem?_append_left (by omega)]
    have hlt : j < r.lambdaCounter.toNat := hj.trans (h.lt_counter hslot)
    rw [List.getElem?_range hlt] at hget
    exact List.mem_of_getElem? hget.symm
  · rintro ⟨hslot, htext, hfirst⟩
    refine ⟨List.range l.id.toNat, l.id.toNat,
      (List.range (r.lambdaCounter.toNat - l.id.toNat - 1)).map (l.id.toNat + 1 + ·), ?_,
      (hmatch _ _).mpr ⟨hslot, htext⟩, fun j hj => (hmiss j).mpr (hfirst j (List.mem_range.mp hj))⟩
    have hlt := h.lt_counter hslot
    have hsum : r.lambdaCounter.toNat =
        l.id.toNat + 1 + (r.lambdaCounter.toNat - l.id.toNat - 1) := by omega
    conv_lhs => rw [hsum, List.range_add, List.range_succ, List.append_assoc]
    rfl

/-- A record stays what its name finds as long as it is there and nothing comes before it. -/
theorem WF.getByName_of_anti {r r' : Registry α} (h : r.WF) (h' : r'.WF) {name : List UInt8}
    {l : RsRegisteredLambda α} (hl : getRegisteredLambdaByName r name = some l)
    (hstay : r'.slot l.id.toNat = some l)
    (hbefore : ∀ j < l.id.toNat, ∀ m, r'.slot j = some m → r.slot j = some m) :
    getRegisteredLambdaByName r' name = some l := by
  obtain ⟨-, htext, hfirst⟩ := h.getByName_eq_some_iff.mp hl
  exact h'.getByName_eq_some_iff.mpr
    ⟨hstay, htext, fun j hj m hm => hfirst j hj m (hbefore j hj m hm)⟩

end Registry

/-! ## Registration -/

/-- A name shorter than its field is read back as it was given. -/
theorem newRecord_text_of_lt {name : List UInt8} (h : strlen name < MAX_LAMBDA_NAME_LENGTH)
    (mem : List UInt8) (id : LambdaId) (type : RsLambdaType) (cache : RsCacheType) (arg : α) :
    (newRecord mem id name type cache arg).text = cstr name :=
  cstr_strcpyField_of_lt h _

/-- A name that fills its field is read on into the type byte. -/
theorem newRecord_text_of_eq {name : List UInt8} (h : strlen name = MAX_LAMBDA_NAME_LENGTH)
    (mem : List UInt8) (id : LambdaId) (type : RsLambdaType) (cache : RsCacheType) (arg : α) :
    (newRecord mem id name type cache arg).text =
      cstr name ++ cstr (type :: cache :: mem.drop MAX_LAMBDA_NAME_LENGTH) := by
  change cstr (strcpyField MAX_LAMBDA_NAME_LENGTH mem name ++ _) = _
  rw [strcpyField_of_eq h, cstr_append_of_text (cstr_isText name)]
  rfl

/-- An accepted name is read back exactly if its terminator survives: it is shorter
than the field, or the type byte that overwrites the terminator is itself NUL. -/
theorem newRecord_text_iff {name : List UInt8} (h : strlen name ≤ MAX_LAMBDA_NAME_LENGTH)
    (mem : List UInt8) (id : LambdaId) (type : RsLambdaType) (cache : RsCacheType) (arg : α) :
    (newRecord mem id name type cache arg).text = cstr name ↔
      strlen name < MAX_LAMBDA_NAME_LENGTH ∨ type = 0 := by
  rcases h.lt_or_eq with hlt | heq
  · exact ⟨fun _ => Or.inl hlt, fun _ => newRecord_text_of_lt hlt ..⟩
  · rw [newRecord_text_of_eq heq]
    constructor
    · intro ht
      right
      by_contra hne
      rw [cstr_cons_of_ne hne] at ht
      simpa using congrArg List.length ht
    · rintro (hlt | rfl)
      · omega
      · rw [cstr_cons_zero, List.append_nil]

theorem lambdaRegistryRegister_of_accepts {r : Registry α} {name : List UInt8}
    (h : r.Accepts name) (mem : List UInt8) (type : RsLambdaType) (cache : RsCacheType) (arg : α) :
    lambdaRegistryRegister (some mem) r name type cache arg =
      (r.push (newRecord mem r.lambdaCounter name type cache arg), r.lambdaCounter.toInt8) := by
  obtain ⟨hc, h0, h12, hall, hnone⟩ := h
  have hany : ¬ (cstr name).any (fun c => !isalnum c) = true := by
    simp only [List.any_eq_true, not_exists, not_and, Bool.not_eq_true']
    intro c hcmem hfalse
    have := List.all_eq_true.mp hall c hcmem
    rw [this] at hfalse
    cases hfalse
  have hsome : ¬ (getRegisteredLambdaByName r name).isSome = true := by
    simpa using hnone
  rw [lambdaRegistryRegister, if_neg (by omega), if_neg (by omega), if_neg hany, if_neg hsome]
  rfl

/-- A refused registration leaves the registry as it was and names its reason. -/
theorem lambdaRegistryRegister_refused {r : Registry α} (hwf : r.WF)
    {heap : Option (List UInt8)} {name : List UInt8} (h : ¬ (r.Accepts name ∧ heap.isSome))
    (type : RsLambdaType) (cache : RsCacheType) (arg : α) :
    (lambdaRegistryRegister heap r name type cache arg).1 = r ∧
      (lambdaRegistryRegister heap r name type cache arg).2 ∈ RS_REGISTER_ERRORS := by
  unfold lambdaRegistryRegister
  split_ifs with h1 h2 h3 h4
  · exact ⟨rfl, by simp [RS_REGISTER_ERRORS]⟩
  · exact ⟨rfl, by simp [RS_REGISTER_ERRORS]⟩
  · exact ⟨rfl, by simp [RS_REGISTER_ERRORS]⟩
  · exact ⟨rfl, by simp [RS_REGISTER_ERRORS]⟩
  · cases heap with
    | none =>
      exact ⟨Registry.setSlot_none_of_vacant (hwf.vacant _ le_rfl), by simp [RS_REGISTER_ERRORS]⟩
    | some mem =>
      refine absurd ⟨⟨by omega, by omega, by omega, ?_, by simpa using h4⟩, rfl⟩ h
      rw [List.all_eq_true]
      intro c hc
      by_contra hne
      exact h3 (List.any_eq_true.mpr ⟨c, hc, by simpa using hne⟩)

/-- Everything a registration can do, by the state before it. -/
theorem lambdaRegistryRegister_cases {r : Registry α} (hwf : r.WF) (heap : Option (List UInt8))
    (name : List UInt8) (type : RsLambdaType) (cache : RsCacheType) (arg : α) :
    (∃ mem, heap = some mem ∧ r.Accepts name ∧
      lambdaRegistryRegister heap r name type cache arg =
        (r.push (newRecord mem r.lambdaCounter name type cache arg), r.lambdaCounter.toInt8)) ∨
    (¬ (r.Accepts name ∧ heap.isSome) ∧
      (lambdaRegistryRegister heap r name type cache arg).1 = r ∧
      (lambdaRegistryRegister heap r name type cache arg).2 ∈ RS_REGISTER_ERRORS) := by
  by_cases h : r.Accepts name ∧ heap.isSome
  · obtain ⟨mem, rfl⟩ := Option.isSome_iff_exists.mp h.2
    exact Or.inl ⟨mem, rfl, h.1, lambdaRegistryRegister_of_accepts h.1 ..⟩
  · exact Or.inr ⟨h, lambdaRegistryRegister_refused hwf h ..⟩

theorem lambdaRegistryRegister_wf {r : Registry α} (hwf : r.WF) (heap : Option (List UInt8))
    (name : List UInt8) (type : RsLambdaType) (cache : RsCacheType) (arg : α) :
    (lambdaRegistryRegister heap r name type cache arg).1.WF := by
  rcases lambdaRegistryRegister_cases hwf heap name type cache arg with
    ⟨mem, -, hacc, heq⟩ | ⟨-, heq, -⟩
  · rw [heq]
    exact hwf.push hacc.1 rfl
  · rw [heq]
    exact hwf

theorem toInt8_nonneg_iff (id : LambdaId) : 0 ≤ id.toInt8 ↔ id.toNat < 128 := by
  have hall : ∀ f : Fin 256, 0 ≤ (UInt8.ofFin f).toInt8 ↔ f.val < 128 := by
    decide +kernel
  exact hall id.toFin

theorem toInt8_not_error {id : LambdaId} (h : id.toNat < 128) :
    id.toInt8 ∉ RS_REGISTER_ERRORS := by
  have hall : ∀ f : Fin 256, f.val < 128 → (UInt8.ofFin f).toInt8 ∉ RS_REGISTER_ERRORS := by
    decide +kernel
  exact hall id.toFin h

theorem not_nonneg_of_error {res : Int8} (h : res ∈ RS_REGISTER_ERRORS) : ¬ 0 ≤ res := by
  have hall : ∀ c ∈ RS_REGISTER_ERRORS, ¬ 0 ≤ c := by decide +kernel
  exact hall res h

/-! ## Unregistration -/

/-- An id that the lookup does not find is refused. -/
theorem lambdaRegistryUnregister_of_none {r : Registry α} {id : LambdaId}
    (h : getRegisteredLambdaById r id = none) :
    lambdaRegistryUnregister r id = (r, RS_UNREGISTER_NOTFOUND) := by
  unfold getRegisteredLambdaById at h
  unfold lambdaRegistryUnregister
  split_ifs at h ⊢ with hid hslot
  · rfl
  · rfl
  · exact absurd (by rw [h]; rfl) hslot

theorem lambdaRegistryUnregister_eq {r : Registry α} (hwf : r.WF) (id : LambdaId) :
    lambdaRegistryUnregister r id =
      if (r.slot id.toNat).isNone then (r, RS_UNREGISTER_NOTFOUND)
      else (r.setSlot id.toNat none, RS_UNREGISTER_SUCCESS) := by
  have hget := hwf.getById id
  unfold getRegisteredLambdaById at hget
  unfold lambdaRegistryUnregister
  by_cases hid : MAX_LAMBDAS ≤ id.toNat ∨ r.lambdaCounter ≤ id
  · rw [if_pos hid] at hget
    rw [if_pos hid, ← hget]
    rfl
  · rw [if_neg hid]

theorem lambdaRegistryUnregister_slot {r : Registry α} (hwf : r.WF) (id : LambdaId) (j : ℕ) :
    (lambdaRegistryUnregister r id).1.slot j = if j = id.toNat then none else r.slot j := by
  rw [lambdaRegistryUnregister_eq hwf]
  split_ifs with h hj hj
  · rw [hj]
    simpa using h
  · rfl
  · rw [hj, Registry.slot_setSlot r, if_pos rfl]
    obtain ⟨l, hl⟩ := Option.ne_none_iff_exists'.mp (by simpa using h)
    exact Registry.WF.lt_max hl
  · rw [Registry.slot_setSlot r, if_neg hj]
    obtain ⟨l, hl⟩ := Option.ne_none_iff_exists'.mp (by simpa using h)
    exact Registry.WF.lt_max hl

@[simp] theorem lambdaRegistryUnregister_counter (r : Registry α) (id : LambdaId) :
    (lambdaRegistryUnregister r id).1.lambdaCounter = r.lambdaCounter := by
  unfold lambdaRegistryUnregister
  split_ifs <;> rfl

theorem lambdaRegistryUnregister_wf {r : Registry α} (hwf : r.WF) (id : LambdaId) :
    (lambdaRegistryUnregister r id).1.WF := by
  refine ⟨fun i hi => ?_, fun i l hl => ?_⟩
  · rw [lambdaRegistryUnregister_counter] at hi
    rw [lambdaRegistryUnregister_slot hwf, hwf.vacant i hi, ite_self]
  · rw [lambdaRegistryUnregister_slot hwf] at hl
    split_ifs at hl
    exact hwf.ids i l hl

end RS
