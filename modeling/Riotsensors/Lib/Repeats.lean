import Riotsensors.Lib.Runs

/-! Runs in which an action may come again right after itself. -/

namespace Runs

variable {σ τ α : Type*}

/-- `bs` is `as` with copies put in. `last` was done before; a copy is one of what was done last. -/
inductive Repeats (same copy : α → α → Prop) : Option α → List α → List α → Prop
  | nil (last : Option α) : Repeats same copy last [] []
  | next {last : Option α} {a b : α} {as bs : List α} (h : same a b)
      (hrest : Repeats same copy (some a) as bs) : Repeats same copy last (a :: as) (b :: bs)
  | again {a b : α} {as bs : List α} (h : copy a b) (hrest : Repeats same copy (some a) as bs) :
      Repeats same copy (some a) as (b :: bs)

variable {same copy : α → α → Prop} {step : τ → α → τ} {step' : σ → α → σ} {R : τ → σ → Prop}
  {Done : α → σ → Prop}

/-- What a copy of the last action leaves as it was cannot tell a run from one with copies. -/
theorem Repeats.run (hstep : ∀ t s a b, R t s → same a b →
      R (step t a) (step' s b) ∧ Done a (step' s b))
    (hcopy : ∀ t s a b, R t s → Done a s → copy a b → R t (step' s b) ∧ Done a (step' s b))
    {last : Option α} {as bs : List α} (h : Repeats same copy last as bs) {t : τ} {s : σ}
    (hR : R t s) (hlast : ∀ a, last = some a → Done a s) :
    R (Runs.run step t as) (Runs.run step' s bs) := by
  induction h generalizing t s with
  | nil last => exact hR
  | next hsame hrest ih =>
    obtain ⟨hR', hdone⟩ := hstep _ _ _ _ hR hsame
    refine ih hR' fun a ha => ?_
    obtain rfl := Option.some.inj ha
    exact hdone
  | again hagain hrest ih =>
    obtain ⟨hR', hdone⟩ := hcopy _ _ _ _ hR (hlast _ rfl) hagain
    refine ih hR' fun a ha => ?_
    obtain rfl := Option.some.inj ha
    exact hdone

end Runs
