import Riotsensors.Lib.Runs
import Mathlib.Data.List.Basic

/-! Runs of steps of which some commute. Each step has at most one key, steps with different keys
commute, and a step without a key does nothing: then only the order within each key matters. -/

namespace Runs

variable {σ α κ : Type*} {step : σ → α → σ} {key : α → Option κ} {Inv : σ → Prop}
  {C : α → Prop}

variable [DecidableEq κ]

end Runs
