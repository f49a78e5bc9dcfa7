import Mathlib.Data.List.Basic

/-! JSON as the calls that write it, one after the other. A writer takes exactly one value
after each key, and a key or the end where an object goes on. -/

namespace Json

variable {α : Type*}

/-- Objects and scalars. -/
inductive Token (α : Type*) where
  | startObject
  | endObject
  | key (name : String)
  | value (scalar : α)
  deriving DecidableEq

/-- What a writer is still to be given. -/
inductive Expected where
  | value
  /-- the members that an open object still has, and its end -/
  | members
  deriving DecidableEq

/-- `none`: the writer refuses the call. -/
def step : List Expected → Token α → Option (List Expected)
  | .value :: rest, .value _ => some rest
  | .value :: rest, .startObject => some (.members :: rest)
  | .members :: rest, .key _ => some (.value :: .members :: rest)
  | .members :: rest, .endObject => some rest
  | _, _ => none

def run : List Expected → List (Token α) → Option (List Expected)
  | expected, [] => some expected
  | expected, t :: ts => (step expected t).bind fun expected' => run expected' ts

/-- The calls write one value and nothing else. -/
def IsValue (ts : List (Token α)) : Prop := run [.value] ts = some []

/-- The calls write members of an object that stays open. -/
def IsMembers (ts : List (Token α)) : Prop := run [.members] ts = some [.members]

instance (ts : List (Token α)) : Decidable (IsValue ts) :=
  inferInstanceAs (Decidable (run [.value] ts = some []))

variable {expected expected' rest : List Expected} {t : Token α} {ts us : List (Token α)}

@[simp] theorem run_nil : run expected ([] : List (Token α)) = some expected := rfl

@[simp] theorem run_value (a : α) : run (.value :: rest) (.value a :: ts) = run rest ts := rfl

@[simp] theorem run_startObject :
    run (.value :: rest) (.startObject :: ts) = run (.members :: rest) ts := rfl

@[simp] theorem run_key (k : String) :
    run (.members :: rest) (.key k :: ts) = run (.value :: .members :: rest) ts := rfl

@[simp] theorem run_endObject : run (.members :: rest) (.endObject :: ts) = run rest ts := rfl

theorem run_append (expected : List Expected) (ts us : List (Token α)) :
    run expected (ts ++ us) = (run expected ts).bind fun expected' => run expected' us := by
  induction ts generalizing expected with
  | nil => rfl
  | cons t ts ih =>
    simp only [List.cons_append, run, Option.bind_assoc]
    exact Option.bind_congr fun expected' _ => ih expected'

/-- What lies further out does not matter to a call that is taken. -/
theorem step_frame (h : step expected t = some expected') (rest : List Expected) :
    step (expected ++ rest) t = some (expected' ++ rest) := by
  cases expected with
  | nil => cases h
  | cons e expected =>
    cases e <;> cases t <;> simp only [step, Option.some.injEq, reduceCtorEq] at h
    all_goals
      subst h
      rfl

theorem run_frame (h : run expected ts = some expected') (rest : List Expected) :
    run (expected ++ rest) ts = some (expected' ++ rest) := by
  induction ts generalizing expected with
  | nil => rw [← Option.some.inj h, run_nil]
  | cons t ts ih =>
    obtain ⟨next, hstep, hrun⟩ := Option.bind_eq_some_iff.mp h
    rw [run, step_frame hstep rest, Option.bind_some]
    exact ih hrun

/-- A value is taken wherever one is expected. -/
theorem IsValue.run_append (h : IsValue ts) (rest : List Expected) (us : List (Token α)) :
    run (.value :: rest) (ts ++ us) = run rest us := by
  have hvalue : run (.value :: rest) ts = some rest := run_frame h rest
  rw [Json.run_append, hvalue, Option.bind_some]

/-- Members are taken in any open object. -/
theorem IsMembers.run_append (h : IsMembers ts) (rest : List Expected) (us : List (Token α)) :
    run (.members :: rest) (ts ++ us) = run (.members :: rest) us := by
  have hmembers : run (.members :: rest) ts = some (.members :: rest) := run_frame h rest
  rw [Json.run_append, hmembers, Option.bind_some]

theorem IsValue.scalar (a : α) : IsValue [Token.value a] := rfl

theorem IsMembers.nil : IsMembers ([] : List (Token α)) := rfl

/-- One more member at the end. -/
theorem IsMembers.concat (h : IsMembers ts) (k : String) (hv : IsValue us) :
    IsMembers (ts ++ .key k :: us) := by
  have hlast : run [.value, .members] us = some [.members] := run_frame hv [.members]
  rw [IsMembers, h.run_append, run_key, hlast]

end Json
