import Mathlib.Order.Basic

/-! Loops that count up in eight bits: `for (uint8_t i = 0; i < n; i++)`. The bound is a
byte itself, so that the counter does not wrap. -/

namespace Loops

variable {σ : Type*} {n i : UInt8}

theorem toNat_succ (h : i < n) : (i + 1).toNat = i.toNat + 1 := by
  have hlt : i.toNat < n.toNat := UInt8.lt_iff_toNat_lt.mp h
  have hmax := n.toNat_lt
  rw [UInt8.toNat_add, UInt8.toNat_one]
  omega

/-- The rounds from `i` on. `none`: a round failed. -/
def forBelow (n : UInt8) (body : UInt8 → σ → Option σ) (i : UInt8) (s : σ) : Option σ :=
  if i < n then (body i s).bind fun s' => forBelow n body (i + 1) s' else some s
termination_by n.toNat - i.toNat
decreasing_by
  rename_i h
  have hlt : i.toNat < n.toNat := UInt8.lt_iff_toNat_lt.mp h
  rw [toNat_succ h]
  omega

/-- An invariant that every round keeps, without failing, holds after the loop. -/
theorem forBelow_inv {body : UInt8 → σ → Option σ} {Inv : UInt8 → σ → Prop}
    (hbody : ∀ i s, i < n → Inv i s → ∃ s', body i s = some s' ∧ Inv (i + 1) s')
    {s : σ} (hi : i ≤ n) (h : Inv i s) : ∃ s', forBelow n body i s = some s' ∧ Inv n s' := by
  fun_induction forBelow n body i s with
  | case1 i s hlt ih =>
    obtain ⟨s', hs', hinv⟩ := hbody i s hlt h
    have hle : i + 1 ≤ n := by
      rw [UInt8.le_iff_toNat_le, toNat_succ hlt]
      exact UInt8.lt_iff_toNat_lt.mp hlt
    obtain ⟨s'', hs'', hinv'⟩ := ih s' hle hinv
    exact ⟨s'', by rw [hs', Option.bind_some, hs''], hinv'⟩
  | case2 i s hge =>
    obtain rfl : i = n := UInt8.le_antisymm hi (UInt8.not_lt.mp hge)
    exact ⟨s, rfl, h⟩

/-- The loop as one over the list of its counters. -/
theorem forBelow_eq_foldlM (body : UInt8 → σ → Option σ) (i : UInt8) (s : σ) :
    forBelow n body i s = (List.range' i.toNat (n.toNat - i.toNat)).foldlM
      (fun s j => body (UInt8.ofNat j) s) s := by
  fun_induction forBelow n body i s with
  | case1 i s hlt ih =>
    have hlt' : i.toNat < n.toNat := UInt8.lt_iff_toNat_lt.mp hlt
    obtain ⟨k, hk⟩ : ∃ k, n.toNat - i.toNat = k + 1 := ⟨n.toNat - i.toNat - 1, by omega⟩
    have hk' : n.toNat - (i.toNat + 1) = k := by omega
    simp only [toNat_succ hlt, hk'] at ih
    rw [hk, List.range'_succ, List.foldlM_cons, UInt8.ofNat_toNat]
    exact congrArg _ (funext ih)
  | case2 i s hge =>
    have hle : n.toNat ≤ i.toNat := UInt8.le_iff_toNat_le.mp (UInt8.not_lt.mp hge)
    rw [Nat.sub_eq_zero_of_le hle]
    rfl

/-- A loop that looks an element up in each round, and passes over it where there is none or it is
not to be kept, is one over the elements that are kept. -/
theorem forBelow_eq_foldlM_filter {α : Type*} {body : UInt8 → σ → Option σ}
    {get : UInt8 → Option α} {keep : α → Bool} {round : σ → α → Option σ}
    (hnone : ∀ i s, get i = none → body i s = some s)
    (hskip : ∀ i s a, get i = some a → keep a = false → body i s = some s)
    (hkeep : ∀ i s a, get i = some a → keep a = true → body i s = round s a) (s : σ) :
    forBelow n body 0 s =
      (((List.range n.toNat).filterMap fun i => get (UInt8.ofNat i)).filter keep).foldlM
        round s := by
  rw [forBelow_eq_foldlM, UInt8.toNat_zero, Nat.sub_zero, ← List.range_eq_range']
  induction List.range n.toNat generalizing s with
  | nil => rfl
  | cons i is ih =>
    rw [List.foldlM_cons, List.filterMap_cons]
    cases hget : get (UInt8.ofNat i) with
    | none =>
      rw [hnone _ s hget]
      exact ih s
    | some a =>
      dsimp only
      cases ha : keep a with
      | false =>
        rw [hskip _ s a hget ha, List.filter_cons_of_neg (by rw [ha]; decide)]
        exact ih s
      | true =>
        rw [hkeep _ s a hget ha, List.filter_cons_of_pos ha, List.foldlM_cons]
        exact congrArg _ (funext ih)

/-- If the counter alone decides whether a round fails, the loop fails at the rounds that do. -/
theorem forBelow_isSome_iff {body : UInt8 → σ → Option σ} {Good : UInt8 → Prop}
    (hbody : ∀ i s, (body i s).isSome ↔ Good i) (i : UInt8) (s : σ) :
    (forBelow n body i s).isSome ↔ ∀ j, i ≤ j → j < n → Good j := by
  fun_induction forBelow n body i s with
  | case1 i s hlt ih =>
    have hsplit : (∀ j, i ≤ j → j < n → Good j) ↔
        Good i ∧ ∀ j, i + 1 ≤ j → j < n → Good j := by
      constructor
      · refine fun h => ⟨h i (UInt8.le_refl i) hlt, fun j hj => h j ?_⟩
        rw [UInt8.le_iff_toNat_le, toNat_succ hlt] at hj
        rw [UInt8.le_iff_toNat_le]
        omega
      · rintro ⟨hi, h⟩ j hj hjn
        rcases eq_or_ne i j with rfl | hne
        · exact hi
        · refine h j ?_ hjn
          have hne' : i.toNat ≠ j.toNat := fun heq => hne (UInt8.toNat_inj.mp heq)
          rw [UInt8.le_iff_toNat_le] at hj
          rw [UInt8.le_iff_toNat_le, toNat_succ hlt]
          omega
    rw [hsplit, ← hbody i s]
    cases hround : body i s with
    | none => simp
    | some s' => simpa using ih s'
  | case2 i s hge =>
    refine iff_of_true rfl fun j hj hjn => absurd ?_ hge
    rw [UInt8.lt_iff_toNat_lt] at hjn ⊢
    rw [UInt8.le_iff_toNat_le] at hj
    omega

/-! ## Loops over a list that an exception may leave -/

section Exceptions

variable {ε α : Type*} {f : σ → α → Except ε σ} {Good : α → Prop}

/-- If every round ends well on good elements only, the loop ends well exactly if all
elements are good. -/
theorem foldlM_ok_iff (h : ∀ s a, (∃ s', f s a = .ok s') ↔ Good a) (s : σ) (as : List α) :
    (∃ s', as.foldlM f s = .ok s') ↔ ∀ a ∈ as, Good a := by
  induction as generalizing s with
  | nil => exact iff_of_true ⟨s, rfl⟩ fun a ha => absurd ha List.not_mem_nil
  | cons a as ih =>
    rw [List.forall_mem_cons, List.foldlM_cons, ← h s a]
    constructor
    · rintro ⟨s', hs'⟩
      cases hround : f s a with
      | error e =>
        rw [hround] at hs'
        cases hs'
      | ok s'' =>
        rw [hround] at hs'
        exact ⟨⟨s'', rfl⟩, (ih s'').mp ⟨s', hs'⟩⟩
    · rintro ⟨⟨s'', hround⟩, hrest⟩
      rw [hround]
      exact (ih s'').mpr hrest

end Exceptions

/-! ## Loops over a list that may fail -/

section Failures

variable {α : Type*} {f : σ → α → Option σ} {Good : α → Prop} {Inv : List α → σ → Prop}

/-- Rounds that fail at bad elements only, and else carry an invariant on by one element. -/
theorem foldlM_inv_cases
    (hgood : ∀ as s a, Inv as s → Good a → ∃ s', f s a = some s' ∧ Inv (as ++ [a]) s')
    (hbad : ∀ as s a, Inv as s → ¬ Good a → f s a = none) {before : List α} {s : σ}
    (h : Inv before s) (as : List α) :
    ((∀ a ∈ as, Good a) ∧ ∃ s', as.foldlM f s = some s' ∧ Inv (before ++ as) s') ∨
      ¬ (∀ a ∈ as, Good a) ∧ as.foldlM f s = none := by
  induction as generalizing before s with
  | nil => exact Or.inl ⟨by simp, s, rfl, by simpa using h⟩
  | cons a as ih =>
    rw [List.forall_mem_cons, List.foldlM_cons]
    by_cases ha : Good a
    · obtain ⟨s', hs', hinv⟩ := hgood before s a h ha
      rw [hs']
      rcases ih hinv with ⟨hall, s'', hs'', hinv'⟩ | ⟨hno, hnone⟩
      · rw [List.append_assoc, List.singleton_append] at hinv'
        exact Or.inl ⟨⟨ha, hall⟩, s'', hs'', hinv'⟩
      · exact Or.inr ⟨fun hall => hno hall.2, hnone⟩
    · rw [hbad before s a h ha]
      exact Or.inr ⟨fun hall => ha hall.1, rfl⟩

/-- What a loop that maps a list has put out, it has put out for a member of the list. -/
theorem exists_of_mem_mapM {α β : Type} {f : α → Option β} {as : List α} {bs : List β}
    (h : as.mapM f = some bs) {b : β} (hb : b ∈ bs) : ∃ a ∈ as, f a = some b := by
  induction as generalizing bs with
  | nil =>
    obtain rfl : [] = bs := Option.some.inj h
    cases hb
  | cons a as ih =>
    rw [List.mapM_cons] at h
    obtain ⟨b', hb', h⟩ := Option.bind_eq_some_iff.mp h
    obtain ⟨bs', hbs', h⟩ := Option.bind_eq_some_iff.mp h
    obtain rfl : b' :: bs' = bs := Option.some.inj h
    rcases List.mem_cons.mp hb with rfl | hmem
    · exact ⟨a, List.mem_cons_self, hb'⟩
    · obtain ⟨a', ha', hfa⟩ := ih hbs' hmem
      exact ⟨a', List.mem_cons_of_mem a ha', hfa⟩

end Failures

/-! ## Loops with a budget -/

section Budgets

variable {cond : σ → Bool} {body : σ → σ}

/-- `while (cond) body`, with a budget of tests. `none`: it has run out. -/
def whileWithin (cond : σ → Bool) (body : σ → σ) : ℕ → σ → Option σ
  | 0, _ => none
  | budget + 1, s => if cond s then whileWithin cond body budget (body s) else some s

/-- What the body keeps holds after the loop, and the condition does not. -/
theorem whileWithin_inv (Inv : σ → Prop) (hkeep : ∀ s, cond s = true → Inv s → Inv (body s))
    {budget : ℕ} {s t : σ} (h : whileWithin cond body budget s = some t) (hs : Inv s) :
    Inv t ∧ cond t = false := by
  induction budget generalizing s with
  | zero => cases h
  | succ budget ih =>
    rw [whileWithin] at h
    split_ifs at h with hcond
    · exact ih h (hkeep s hcond hs)
    · obtain rfl := Option.some.inj h
      exact ⟨hs, Bool.eq_false_iff.mpr hcond⟩

/-- A loop whose body lowers a measure is left within a budget above it. -/
theorem whileWithin_of_measure (measure : σ → ℕ)
    (hlower : ∀ s, cond s = true → measure (body s) < measure s) {budget : ℕ} {s : σ}
    (h : measure s < budget) : ∃ t, whileWithin cond body budget s = some t := by
  induction budget generalizing s with
  | zero => exact absurd h (Nat.not_lt_zero _)
  | succ budget ih =>
    rw [whileWithin]
    by_cases hcond : cond s = true
    · rw [if_pos hcond]
      exact ih (Nat.lt_of_lt_of_le (hlower s hcond) (Nat.le_of_lt_succ h))
    · rw [if_neg hcond]
      exact ⟨s, rfl⟩

end Budgets

end Loops
