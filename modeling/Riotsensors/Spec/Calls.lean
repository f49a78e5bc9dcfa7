import Riotsensors.Spec.Locking

/-! The calls in two steps each: up to the timed wait, and from there on. This is what the mutex is
for; the code's own steps are those of `callLambda`. -/

namespace RS.Locking

open Mutex

/-- Where a client stands between the two steps of its call. -/
inductive Place where
  | idle
  | called (env : Env) (c : Call)
  | waiting (lambda : RsRegisteredLambda ArgPtr)
  | resuming (lambda : RsRegisteredLambda ArgPtr) (timedOut : Bool)
  | returned (answer : Answer)

structure Calls where
  memory : Shared
  clients : ℕ → Place

/-- The lookup, the cache check and the call packet. -/
def enter (m : Shared) (env : Env) (c : Call) : Shared × Place :=
  match m.linux.found c with
  | none => (m, .returned (RS_CALL_NOTFOUND, none))
  | some lambda =>
    if lambda.type ≠ c.expectedType then (m, .returned (RS_CALL_WRONGTYPE, none))
    else if (Linux.checkLambdaCache m.linux lambda).1 ≠ 0 then
      (m, .returned (Linux.checkLambdaCache m.linux lambda))
    else ({ m with sent := m.sent ++ (Linux.callPacket env c).toList }, .waiting lambda)

/-- What follows the timed wait. Of a record that was freed only the cache policy matters. -/
def leave (m : Shared) (lambda : RsRegisteredLambda ArgPtr) (timedOut : Bool) : Shared × Answer :=
  let arg := m.arg lambda.arg
  if timedOut then
    if arg.lastCallError ≠ 0 then (m.setLastCallError lambda.arg 0, arg.lastCallError, none)
    else if (m.deref lambda).cache = RS_CACHE_ON_TIMEOUT then
      if arg.dataCached then (m, RS_CALL_CACHE_TIMEOUT, some arg.ret)
      else (m, RS_CALL_CACHE_TIMEOUT_EMPTY, none)
    else (m, RS_CALL_TIMEOUT, none)
  else (m, RS_CALL_SUCCESS, some arg.ret)

namespace Calls

def initial (memory : Shared) : Calls := ⟨memory, fun _ => .idle⟩

def put (k : Calls) (i : ℕ) (p : Shared × Place) : Calls :=
  ⟨p.1, Function.update k.clients i p.2⟩

def step (k : Calls) : Event Shared (Env × Call) → Calls
  | .memory m => { k with memory := m }
  | .start i (env, c) =>
    match k.clients i with
    | .idle | .returned _ => k.put i (k.memory, .called env c)
    | _ => k
  | .step i =>
    match k.clients i with
    | .called env c => k.put i (enter k.memory env c)
    | .resuming lambda timedOut =>
      k.put i ((leave k.memory lambda timedOut).1, .returned (leave k.memory lambda timedOut).2)
    | _ => k
  | .wakeup i timedOut =>
    match k.clients i with
    | .waiting lambda => k.put i (k.memory, .resuming lambda timedOut)
    | _ => k

end Calls

/-- The packets are handled one after the other. -/
def handled (o : ByteOrder) (m : Shared) : List Linux.Delivery → List (Event Shared (Env × Call))
  | [] => []
  | d :: ds =>
    .memory { m with linux := Linux.receive o m.linux d } ::
      handled o { m with linux := Linux.receive o m.linux d } ds

/-- What client `i` meets in its wait: the packets until it is woken or its time is over, and
those until it has the mutex again. -/
def waitEvents (o : ByteOrder) (i : ℕ) (m : Shared) (w : Linux.Wait) (timedOut : Bool) :
    List (Event Shared (Env × Call)) :=
  handled o m w.blocked ++ .wakeup i timedOut ::
    handled o { m with linux := Linux.receiveAll o m.linux w.blocked } w.resuming

/-- Packets are handled while no client is inside. Nothing in the code sees to it. -/
def HandledOutside (o : ByteOrder) (s : Clients) : Event Shared (Env × Call) → Prop
  | .memory m => s.holder = none ∧
      ∃ d, m = { s.memory with linux := Linux.receive o s.memory.linux d }
  | _ => True

end RS.Locking
