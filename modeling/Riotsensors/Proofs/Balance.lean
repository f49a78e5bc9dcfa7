import Riotsensors.Sanity.Client
import Riotsensors.Spec.Locking

/-! The registry mutex: every exit of the two calls gives it up once, so that any number of clients
use it soundly together. -/

namespace RS.Locking

open Mutex Mutex.Prog

/-- One of the exits that hold the mutex. -/
theorem keeps_exit (answer : Answer) :
    (do unlock; return answer : Prog Shared Answer).Keeps true false :=
  keeps_unlock.seq fun _ => Keeps.pure answer

/-- The five exits of the wait. -/
theorem keeps_waitLambdaResult (lambda : RsRegisteredLambda ArgPtr) :
    (waitLambdaResult lambda).Keeps true false := by
  refine (keeps_read _).seq fun arg => keeps_timedwait.seq fun timedOut => ?_
  cases timedOut with
  | false => exact (keeps_read _).seq fun ret => keeps_exit _
  | true =>
    refine (keeps_read _).seq fun lastCallError => ?_
    split
    · exact (keeps_read _).seq fun errorCode => (keeps_write _).seq fun _ => keeps_exit _
    refine (keeps_read _).seq fun cache => ?_
    split
    · refine (keeps_read _).seq fun dataCached => ?_
      cases dataCached with
      | true => exact (keeps_read _).seq fun ret => keeps_exit _
      | false => exact keeps_exit _
    · exact keeps_exit _

/-- The cache check leaves the mutex alone. -/
theorem keeps_checkLambdaCache (lambda : RsRegisteredLambda ArgPtr) :
    (checkLambdaCache lambda).Keeps true true := by
  refine (keeps_read _).seq fun arg => (keeps_read _).seq fun cache => ?_
  split
  · exact Keeps.pure _
  split
  · refine (keeps_read _).seq fun dataCached => ?_
    cases dataCached with
    | true => exact (keeps_read _).seq fun ret => Keeps.pure _
    | false => exact Keeps.pure _
  split
  · refine (keeps_read _).seq fun dataCached => ?_
    cases dataCached with
    | true => exact (keeps_read _).seq fun ret => Keeps.pure _
    | false => exact Keeps.pure _
  · exact Keeps.pure _

/-- The three exits of the calls themselves. -/
theorem keeps_callLambdaBy (lookup : Linux → Option (RsRegisteredLambda ArgPtr))
    (expectedType : RsLambdaType) (pkt : Option Packet) :
    (callLambdaBy lookup expectedType pkt).Keeps false false := by
  refine keeps_lock.seq fun _ => (keeps_read _).seq fun found => ?_
  cases found with
  | none => exact keeps_exit _
  | some lambda =>
    refine (keeps_read _).seq fun type => ?_
    dsimp only
    split
    · exact keeps_exit _
    refine (keeps_checkLambdaCache lambda).seq fun cached => ?_
    split
    · exact keeps_exit _
    · exact (keeps_write _).seq fun _ => keeps_waitLambdaResult lambda

theorem keeps_callLambda (c : Env × Call) : (callLambda c).Keeps false false := by
  obtain ⟨env, c⟩ := c
  cases c with
  | byId id expectedType =>
    rw [callLambda, callLambdaById]
    exact keeps_callLambdaBy _ expectedType _
  | byName name expectedType =>
    rw [callLambda, callLambdaByName]
    exact keeps_callLambdaBy _ expectedType _

/-- Whatever the clients call, whatever becomes of the memory and however the waits end. -/
theorem registry_mutex_sound (memory : Shared) (es : List (Event Shared (Env × Call))) :
    (Runs.run (Pool.step callLambda) (Pool.initial memory : Clients) es).Sound :=
  (Pool.inv_run keeps_callLambda memory es).sound

/-- However many clients are inside their calls, and wherever: their own steps and the ends of
their waits bring all of them to their end, without any packet. -/
theorem all_calls_return (memory : Shared) (es : List (Event Shared (Env × Call))) (n : ℕ) :
    ∃ es' : List (Event Shared (Env × Call)), (∀ e ∈ es', Pool.Unaided e) ∧
      let s := Runs.run (Pool.step callLambda) (Pool.initial memory : Clients) (es ++ es')
      s.holder = none ∧ ∀ i < n, (s.threads i).Out := by
  obtain ⟨es', hes', hend⟩ := Pool.exists_all_return keeps_callLambda
    (Pool.inv_run keeps_callLambda memory es) n
  refine ⟨es', hes', ?_⟩
  rw [Runs.run_append]
  exact hend

end RS.Locking
