import Riotsensors.Lib.CMemory
import Riotsensors.Spec.Constants

/-! The lambda registry (`lambda_registry.c`), generic in the user argument
that each side stores with a record: a function pointer on the board, a pointer
to the call state on Linux. -/

namespace RS

open CMem

/-- A record in its C layout. `behind` is the memory from the byte after `cache` on
while the record is registered. `arg` lies there, so that a registration writes to it;
no later operation does. -/
structure RsRegisteredLambda (α : Type) where
  id : LambdaId
  name : List UInt8
  type : RsLambdaType
  cache : RsCacheType
  arg : α
  behind : List UInt8
  name_length : name.length = MAX_LAMBDA_NAME_LENGTH

/-- The memory that `lambda->name` points at. -/
def RsRegisteredLambda.nameMem {α : Type} (l : RsRegisteredLambda α) : List UInt8 :=
  l.name ++ l.type :: l.cache :: l.behind

/-- The name as `strcmp` reads it off the record. -/
def RsRegisteredLambda.text {α : Type} (l : RsRegisteredLambda α) : List UInt8 := cstr l.nameMem

/-- `lambda_registry` and `lambda_counter` -/
structure Registry (α : Type) where
  slots : Fin MAX_LAMBDAS → Option (RsRegisteredLambda α)
  lambdaCounter : LambdaId

namespace Registry

variable {α : Type}

/-- The registry of a freshly started program. -/
def empty : Registry α := ⟨fun _ => none, 0⟩

/-- `lambda_registry[i]` -/
def slot (r : Registry α) (i : ℕ) : Option (RsRegisteredLambda α) :=
  if h : i < MAX_LAMBDAS then r.slots ⟨i, h⟩ else none

def setSlot (r : Registry α) (i : ℕ) (l : Option (RsRegisteredLambda α)) : Registry α :=
  { r with slots := fun j => if j.val = i then l else r.slots j }

end Registry

variable {α : Type}

def getNumberOfRegisteredLambdas (r : Registry α) : LambdaId := r.lambdaCounter

/-- Clears the slots; the counter keeps its value. -/
def initLambdaRegistry (r : Registry α) : Registry α := { r with slots := fun _ => none }

def freeLambdaRegistry (r : Registry α) : Registry α :=
  ⟨fun i => if i.val < r.lambdaCounter.toNat then none else r.slots i, 0⟩

def getRegisteredLambdaById (r : Registry α) (id : LambdaId) : Option (RsRegisteredLambda α) :=
  if MAX_LAMBDAS ≤ id.toNat ∨ r.lambdaCounter ≤ id then none else r.slot id.toNat

/-- The first slot whose name compares equal, read as the code reads it: from
the name field on, through `type` and `cache` where the field has no NUL. -/
def getRegisteredLambdaByName (r : Registry α) (name : List UInt8) :
    Option (RsRegisteredLambda α) :=
  (List.range r.lambdaCounter.toNat).findSome? fun i =>
    (r.slot i).filter fun l => strEq l.nameMem name

/-- `isalnum` of the C locale -/
def isalnum (c : UInt8) : Bool :=
  (48 ≤ c && c ≤ 57) || (65 ≤ c && c ≤ 90) || (97 ≤ c && c ≤ 122)

/-- The record that registration fills in. `mem` is what `malloc` returned. A
name of 12 bytes puts its NUL on `type`, which is assigned afterwards. -/
def newRecord (mem : List UInt8) (id : LambdaId) (name : List UInt8) (type : RsLambdaType)
    (cache : RsCacheType) (arg : α) : RsRegisteredLambda α where
  id := id
  name := strcpyField MAX_LAMBDA_NAME_LENGTH mem name
  type := type
  cache := cache
  arg := arg
  behind := mem.drop MAX_LAMBDA_NAME_LENGTH
  name_length := by simp

/-- `lambda_registry_register`. `heap` is the outcome of its `malloc`: `none`, or
the contents of the block. The id is returned as an `int8_t`. -/
def lambdaRegistryRegister (heap : Option (List UInt8)) (r : Registry α) (name : List UInt8)
    (type : RsLambdaType) (cache : RsCacheType) (arg : α) : Registry α × Int8 :=
  if MAX_LAMBDAS ≤ r.lambdaCounter.toNat then (r, RS_REGISTER_LIMIT_REACHED)
  else if strlen name = 0 ∨ MAX_LAMBDA_NAME_LENGTH < strlen name then
    (r, RS_REGISTER_INVALNAME)
  else if (cstr name).any (fun c => !isalnum c) then (r, RS_REGISTER_INVALNAME)
  else if (getRegisteredLambdaByName r name).isSome then (r, RS_REGISTER_DUPLICATE)
  else
    let myid := r.lambdaCounter
    match heap with
    | none => (r.setSlot myid.toNat none, RS_REGISTER_NOMEM)
    | some mem =>
      let r := r.setSlot myid.toNat (some (newRecord mem myid name type cache arg))
      ({ r with lambdaCounter := r.lambdaCounter + 1 }, myid.toInt8)

def lambdaRegistryUnregister (r : Registry α) (id : LambdaId) : Registry α × Int8 :=
  if MAX_LAMBDAS ≤ id.toNat ∨ r.lambdaCounter ≤ id then (r, RS_UNREGISTER_NOTFOUND)
  else if (r.slot id.toNat).isNone then (r, RS_UNREGISTER_NOTFOUND)
  else (r.setSlot id.toNat none, RS_UNREGISTER_SUCCESS)

end RS
