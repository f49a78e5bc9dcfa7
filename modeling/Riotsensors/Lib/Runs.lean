import Mathlib.Data.List.Infix

/-! Finite runs of a deterministic step function. A property of every state a
run passes through is reduced to one step: either the step keeps an invariant,
or a step that misses its condition breaks the property at once. -/

namespace Runs

variable {σ α : Type*} (step : σ → α → σ)

/-- The state after the actions `as`. -/
def run (s : σ) (as : List α) : σ := as.foldl step s

/-- `C` holds of every action of the run, in the state the action is taken from. -/
def Meets (C : σ → α → Prop) : σ → List α → Prop
  | _, [] => True
  | s, a :: as => C s a ∧ Meets C (step s a) as

/-- `P` holds in every state the run passes through, the first and last included. -/
def Along (P : σ → Prop) (s : σ) (as : List α) : Prop :=
  ∀ pre, pre <+: as → P (run step s pre)

instance Meets.decidable (C : σ → α → Prop) [∀ s a, Decidable (C s a)] :
    ∀ s as, Decidable (Meets step C s as)
  | _, [] => isTrue trivial
  | s, a :: as => @instDecidableAnd _ _ _ (Meets.decidable C (step s a) as)

@[simp] theorem run_nil (s : σ) : run step s [] = s := rfl

@[simp] theorem run_cons (s : σ) (a : α) (as : List α) :
    run step s (a :: as) = run step (step s a) as := rfl

theorem run_append (s : σ) (as bs : List α) :
    run step s (as ++ bs) = run step (run step s as) bs := by
  simp [run]

variable {step}

/-- The same without a condition on the steps. -/
theorem run_inv_all {Inv : σ → Prop} (hkeep : ∀ s a, Inv s → Inv (step s a)) {s : σ}
    (as : List α) (h0 : Inv s) : Inv (run step s as) := by
  induction as generalizing s with
  | nil => exact h0
  | cons a as ih => exact ih (hkeep s a h0)

/-- What every conditioned step satisfies from the invariant, a conditioned run does. -/
theorem meets_of_inv {Inv : σ → Prop} {C D : σ → α → Prop}
    (hkeep : ∀ s a, Inv s → C s a → Inv (step s a)) (hD : ∀ s a, Inv s → C s a → D s a)
    {s : σ} {as : List α} (h0 : Inv s) (hC : Meets step C s as) : Meets step D s as := by
  induction as generalizing s with
  | nil => trivial
  | cons a as ih => exact ⟨hD s a h0 hC.1, ih (hkeep s a h0 hC.1) hC.2⟩

theorem along_cons {P : σ → Prop} {s : σ} {a : α} {as : List α} :
    Along step P s (a :: as) ↔ P s ∧ Along step P (step s a) as := by
  constructor
  · intro h
    refine ⟨h [] (List.nil_prefix), fun pre hpre => ?_⟩
    exact h (a :: pre) (List.cons_prefix_cons.mpr ⟨rfl, hpre⟩)
  · rintro ⟨hs, hrest⟩ pre hpre
    cases pre with
    | nil => exact hs
    | cons b pre =>
      obtain ⟨rfl, htail⟩ := List.cons_prefix_cons.mp hpre
      exact hrest pre htail

theorem along_nil {P : σ → Prop} {s : σ} : Along step P s [] ↔ P s := by
  constructor
  · intro h
    exact h [] (List.nil_prefix)
  · intro h pre hpre
    rw [List.prefix_nil.mp hpre]
    exact h

/-- What the invariant implies holds in every state of a conditioned run. -/
theorem along_of_inv {Inv P : σ → Prop} {C : σ → α → Prop}
    (hkeep : ∀ s a, Inv s → C s a → Inv (step s a)) (hP : ∀ s, Inv s → P s) {s : σ} {as : List α}
    (h0 : Inv s) (hC : Meets step C s as) : Along step P s as := by
  induction as generalizing s with
  | nil => exact along_nil.mpr (hP s h0)
  | cons a as ih => exact along_cons.mpr ⟨hP s h0, ih (hkeep s a h0 hC.1) hC.2⟩

/-- Where an unconditioned step breaks the property in the very state it leads
to, the conditioned runs are exactly those along which the property holds. -/
theorem along_iff_meets {Inv P : σ → Prop} {C : σ → α → Prop}
    (hkeep : ∀ s a, Inv s → C s a → Inv (step s a)) (hP : ∀ s, Inv s → P s)
    (hbreak : ∀ s a, Inv s → ¬ C s a → ¬ P (step s a)) {s : σ} (h0 : Inv s) (as : List α) :
    Along step P s as ↔ Meets step C s as := by
  induction as generalizing s with
  | nil => exact along_nil.trans ⟨fun _ => trivial, fun _ => hP s h0⟩
  | cons a as ih =>
    rw [along_cons, Meets]
    by_cases hC : C s a
    · rw [ih (hkeep s a h0 hC)]
      exact ⟨fun h => ⟨hC, h.2⟩, fun h => ⟨hP s h0, h.2⟩⟩
    · refine ⟨fun h => absurd (h.2 [] List.nil_prefix) (hbreak s a h0 hC), fun h => absurd h.1 hC⟩

/-! ## Steps that may fail

A step on concrete states that fails exactly where its abstract counterpart misses a
condition. -/

/-- The sum of `f` over the actions of a run, each in the state it is taken from. -/
def total (step : σ → α → σ) (f : σ → α → ℕ) : σ → List α → ℕ
  | _, [] => 0
  | s, a :: as => f s a + total step f (step s a) as

section Refinement

variable {τ : Type*} {pstep : τ → α → Option τ} {abs : τ → σ} {Inv : τ → Prop} {C : σ → α → Prop}

/-- What a failing step does, next to the step on the abstract states. -/
def Refines (step : σ → α → σ) (pstep : τ → α → Option τ) (abs : τ → σ) (Inv : τ → Prop)
    (C : σ → α → Prop) : Prop :=
  ∀ t a, Inv t →
    (∃ t', pstep t a = some t' ∧ Inv t' ∧ abs t' = step (abs t) a ∧ C (abs t) a) ∨
    (pstep t a = none ∧ ¬ C (abs t) a)

theorem Refines.of_some (h : Refines step pstep abs Inv C) {t t' : τ} {a : α} (ht : Inv t)
    (hstep : pstep t a = some t') : Inv t' ∧ abs t' = step (abs t) a ∧ C (abs t) a := by
  rcases h t a ht with ⟨t'', heq, hnext⟩ | ⟨hnone, -⟩
  · obtain rfl := Option.some.inj (hstep.symm.trans heq)
    exact hnext
  · rw [hstep] at hnone
    cases hnone

/-- The concrete run ends exactly if every action of the abstract run meets the condition. -/
theorem Refines.foldlM_isSome_iff (h : Refines step pstep abs Inv C) {t : τ} (ht : Inv t)
    (as : List α) : (as.foldlM pstep t).isSome ↔ Meets step C (abs t) as := by
  induction as generalizing t with
  | nil => exact iff_of_true rfl trivial
  | cons a as ih =>
    rw [List.foldlM_cons, Meets]
    rcases h t a ht with ⟨t', hstep, ht', habs, hC⟩ | ⟨hnone, hC⟩
    · rw [hstep, Option.bind_eq_bind, Option.bind_some, ih ht', habs, and_iff_right hC]
    · rw [hnone]
      exact iff_of_false Bool.false_ne_true fun hmeets => hC hmeets.1

/-- Where it ends, it ends in a state that stands for the one the abstract run leads to. -/
theorem Refines.foldlM_some (h : Refines step pstep abs Inv C) {t t' : τ} (ht : Inv t)
    {as : List α} (hrun : as.foldlM pstep t = some t') :
    Inv t' ∧ abs t' = run step (abs t) as := by
  induction as generalizing t with
  | nil =>
    obtain rfl := Option.some.inj hrun
    exact ⟨ht, rfl⟩
  | cons a as ih =>
    rw [List.foldlM_cons, Option.bind_eq_bind, Option.bind_eq_some_iff] at hrun
    obtain ⟨t₁, hstep, hrest⟩ := hrun
    obtain ⟨ht₁, habs, -⟩ := h.of_some ht hstep
    rw [run_cons, ← habs]
    exact ih ht₁ hrest

/-- A measure that each step moves by the sum of `f` is moved by the sum over the run. -/
theorem Refines.foldlM_total (h : Refines step pstep abs Inv C) (μ ν : τ → ℕ) (f : σ → α → ℕ)
    (hμ : ∀ t a t', Inv t → pstep t a = some t' → μ t' + ν t = μ t + ν t' + f (abs t) a)
    {t t' : τ} (ht : Inv t) {as : List α} (hrun : as.foldlM pstep t = some t') :
    μ t' + ν t = μ t + ν t' + total step f (abs t) as := by
  induction as generalizing t with
  | nil =>
    obtain rfl := Option.some.inj hrun
    exact rfl
  | cons a as ih =>
    rw [List.foldlM_cons, Option.bind_eq_bind, Option.bind_eq_some_iff] at hrun
    obtain ⟨t₁, hstep, hrest⟩ := hrun
    obtain ⟨ht₁, habs, -⟩ := h.of_some ht hstep
    have hfirst := hμ t a t₁ ht hstep
    have hlast := ih ht₁ hrest
    rw [habs] at hlast
    rw [total]
    omega

/-- Where every step at which `f` counts leads from `P` to `Q`, and `Q` is never left, the sum
over the run tells in which of the two it ends. -/
theorem Refines.foldlM_switch (h : Refines step pstep abs Inv C) {P Q : τ → Prop} (f : σ → α → ℕ)
    (hP : ∀ t a t', Inv t → P t → pstep t a = some t' → if f (abs t) a = 0 then P t' else Q t')
    (hQ : ∀ t a t', Inv t → Q t → pstep t a = some t' → Q t') {t t' : τ} (ht : Inv t)
    {as : List α} (hrun : as.foldlM pstep t = some t') :
    (P t → if total step f (abs t) as = 0 then P t' else Q t') ∧ (Q t → Q t') := by
  induction as generalizing t with
  | nil =>
    obtain rfl := Option.some.inj hrun
    exact ⟨id, id⟩
  | cons a as ih =>
    rw [List.foldlM_cons, Option.bind_eq_bind, Option.bind_eq_some_iff] at hrun
    obtain ⟨t₁, hstep, hrest⟩ := hrun
    obtain ⟨ht₁, habs, -⟩ := h.of_some ht hstep
    obtain ⟨ihP, ihQ⟩ := ih ht₁ hrest
    refine ⟨fun hPt => ?_, fun hQt => ihQ (hQ t a t₁ ht hQt hstep)⟩
    have hfirst := hP t a t₁ ht hPt hstep
    rw [total, ← habs]
    by_cases hf : f (abs t) a = 0
    · rw [if_pos hf] at hfirst
      rw [hf, Nat.zero_add]
      exact ihP hfirst
    · rw [if_neg hf] at hfirst
      rw [if_neg (by omega)]
      exact ihQ hfirst

end Refinement

end Runs
