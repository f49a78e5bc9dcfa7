import Riotsensors.Proofs.RegistryMap

/-! Which of the two resets gives a fresh registry: `free_lambda_registry` sets the
counter back, `init_lambda_registry` leaves it where it is. -/

namespace RS

open CMem

variable {α : Type}

/-- What a program asks of the registry between two resets. -/
inductive Inquiry (α : Type) where
  | register (heap : Option (List UInt8)) (name : List UInt8) (type : RsLambdaType)
      (cache : RsCacheType) (arg : α)
  | unregister (id : LambdaId)
  | byId (id : LambdaId)
  | byName (name : List UInt8)

/-- What the program gets: a return code, or the record behind the returned pointer. -/
inductive Reply (α : Type) where
  | code (code : Int8)
  | found (lambda : Option (RsRegisteredLambda α))

namespace Registry

def ask (r : Registry α) : Inquiry α → Registry α × Reply α
  | .register heap name type cache arg =>
    let (r', res) := lambdaRegistryRegister heap r name type cache arg
    (r', .code res)
  | .unregister id =>
    let (r', res) := lambdaRegistryUnregister r id
    (r', .code res)
  | .byId id => (r, .found (getRegisteredLambdaById r id))
  | .byName name => (r, .found (getRegisteredLambdaByName r name))

/-- The replies to a sequence of inquiries. -/
def replies : Registry α → List (Inquiry α) → List (Reply α)
  | _, [] => []
  | r, q :: qs => (r.ask q).2 :: replies (r.ask q).1 qs

/-- No sequence of inquiries tells the registry from that of a freshly started program. -/
def Fresh (r : Registry α) : Prop := ∀ qs, r.replies qs = empty.replies qs

/-- With the counter at 0, clearing the slots is all there is to do. -/
theorem init_eq_empty {r : Registry α} (h : r.lambdaCounter = 0) :
    initLambdaRegistry r = empty := by
  rw [initLambdaRegistry, h]
  rfl

/-- An initialised registry assigns its first id where the old counter stood. -/
theorem init_register {r : Registry α} (h : r.lambdaCounter ≠ 0) (arg : α) :
    (lambdaRegistryRegister (some []) (initLambdaRegistry r) [97] RS_LAMBDA_INT
      RS_CACHE_NO_CACHE arg).2 ≠ 0 := by
  rcases lambdaRegistryRegister_cases WF.init (some []) [97] RS_LAMBDA_INT RS_CACHE_NO_CACHE
      arg with ⟨mem, -, -, heq⟩ | ⟨-, -, hres⟩
  · rw [heq]
    intro hzero
    have hid : r.lambdaCounter.toInt8.toUInt8 = Int8.toUInt8 0 := congrArg Int8.toUInt8 hzero
    rw [UInt8.toUInt8_toInt8] at hid
    exact h hid
  · intro hzero
    rw [hzero] at hres
    exact not_nonneg_of_error hres (by decide)

theorem empty_register (arg : α) :
    (lambdaRegistryRegister (some []) (empty : Registry α) [97] RS_LAMBDA_INT
      RS_CACHE_NO_CACHE arg).2 = 0 := rfl

theorem fresh_init_iff [Inhabited α] (r : Registry α) :
    (initLambdaRegistry r).Fresh ↔ r.lambdaCounter = 0 := by
  constructor
  · intro hfresh
    by_contra hcounter
    have hcode := hfresh [.register (some []) [97] RS_LAMBDA_INT RS_CACHE_NO_CACHE default]
    have hhead := (List.cons.inj hcode).1
    exact init_register hcounter default ((Reply.code.inj hhead).trans (empty_register default))
  · intro hcounter qs
    rw [init_eq_empty hcounter]

end Registry

/-- Over every history: `free_lambda_registry` always gives a fresh registry,
`init_lambda_registry` exactly where the counter is still 0. -/
theorem fresh_after_reset_iff [Inhabited α] (ops : List (RegistryOp α)) :
    ((initLambdaRegistry (Registry.after ops)).Fresh ↔ (Registry.after ops).lambdaCounter = 0) ∧
      (freeLambdaRegistry (Registry.after ops)).Fresh := by
  refine ⟨(Registry.after ops).fresh_init_iff, fun qs => ?_⟩
  rw [(Registry.after_wf ops).free_eq]

/-- Register `"a"`, initialise, register `"a"` again: the second id is 1. -/
theorem init_keeps_counting :
    ¬ ∀ ops : List (RegistryOp ℕ), (initLambdaRegistry (Registry.after ops)).Fresh := by
  intro h
  have hzero := (Registry.fresh_init_iff _).mp
    (h [.register (some []) [97] RS_LAMBDA_INT RS_CACHE_NO_CACHE 1])
  exact absurd hzero (by decide)

end RS
