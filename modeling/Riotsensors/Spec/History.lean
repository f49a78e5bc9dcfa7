import Riotsensors.Lib.Directory
import Riotsensors.Lib.Runs
import Riotsensors.Spec.Registry

/-! Histories of a registry. Beside the registry runs the ledger of what callers
were given: every registration that took effect, under the name, type, cache policy
and argument it was made with, until an operation undoes it. -/

namespace RS

open CMem

variable {α : Type}

inductive RegistryOp (α : Type) where
  | register (heap : Option (List UInt8)) (name : List UInt8) (type : RsLambdaType)
      (cache : RsCacheType) (arg : α)
  | unregister (id : LambdaId)
  | free
  | init

namespace Registry

def apply (r : Registry α) : RegistryOp α → Registry α
  | .register heap name type cache arg => (lambdaRegistryRegister heap r name type cache arg).1
  | .unregister id => (lambdaRegistryUnregister r id).1
  | .free => freeLambdaRegistry r
  | .init => initLambdaRegistry r

/-- The registry after a sequence of operations on an empty one. -/
def after (ops : List (RegistryOp α)) : Registry α := Runs.run apply empty ops

/-- The id that an operation assigns: what a registration returns, if the counter moved. -/
def assigns (r : Registry α) : RegistryOp α → Option LambdaId
  | .register heap name type cache arg =>
    if (lambdaRegistryRegister heap r name type cache arg).1.lambdaCounter = r.lambdaCounter then
      none
    else some (lambdaRegistryRegister heap r name type cache arg).2.toUInt8
  | _ => none

/-- The ids that a sequence of operations assigns, in order. -/
def assigned : Registry α → List (RegistryOp α) → List LambdaId
  | _, [] => []
  | r, op :: ops => (r.assigns op).toList ++ assigned (r.apply op) ops

end Registry

/-- What a registration was made with, beside the name. -/
abbrev Registration (α : Type) := RsLambdaType × RsCacheType × α

def RsRegisteredLambda.registration (l : RsRegisteredLambda α) : Registration α :=
  (l.type, l.cache, l.arg)

structure History (α : Type) where
  registry : Registry α
  ledger : Directory (List UInt8) (Registration α)

namespace History

def start : History α := ⟨Registry.empty, Directory.empty⟩

/-- A registration took effect if the counter moved; an unregistration, if it says so. -/
def ledgerStep (h : History α) : RegistryOp α → Directory (List UInt8) (Registration α)
  | .register heap name type cache arg =>
    if (lambdaRegistryRegister heap h.registry name type cache arg).1.lambdaCounter =
        h.registry.lambdaCounter then h.ledger
    else h.ledger.enter (cstr name) (type, cache, arg)
  | .unregister id =>
    if (lambdaRegistryUnregister h.registry id).2 = RS_UNREGISTER_SUCCESS then
      h.ledger.withdraw id.toNat
    else h.ledger
  | .free => Directory.empty
  | .init => h.ledger.withdrawAll

def step (h : History α) (op : RegistryOp α) : History α := ⟨h.registry.apply op, h.ledgerStep op⟩

/-- What the lookup by name says about `name` is what the ledger says. -/
def AgreesOn (h : History α) (name : List UInt8) : Prop :=
  match getRegisteredLambdaByName h.registry name with
  | none => ¬ h.ledger.Has (cstr name)
  | some l => l.text = cstr name ∧ ∃ id : LambdaId,
      getRegisteredLambdaById h.registry id = some l ∧
      h.ledger.look id.toNat = some (cstr name, l.registration)

/-- The registry is a map with two keys: for every name the lookup by name finds the
live registration of that name, under its id, and no name is live twice. -/
def KeysAgree (h : History α) : Prop := (∀ name, h.AgreesOn name) ∧ h.ledger.Distinct

end History

end RS
