import Riotsensors.Spec.Client

/-! Client threads calling while packets arrive. A call holds the registry mutex from its
lookup on, gives it up while it waits and takes it again before it goes on. The packet
handler does not take it: a packet may be handled between any two steps. -/

namespace RS

/-- A call in progress and the record it found. Neither the call nor the handler sees the
marks: a result for the lambda was handled since the call packet was sent, and one was
handled before the call waited. -/
structure Pending where
  call : Call
  lambda : RsRegisteredLambda ArgPtr
  answered : Bool
  early : Bool

/-- What a call returned, with the record that it found. -/
structure Returned where
  call : Call
  lambda : Option (RsRegisteredLambda ArgPtr)
  code : Int8
  written : Option GenericLambdaReturn
  answered : Bool

/-- Where a client thread stands. It holds the mutex while `ready` and `sent`. -/
inductive Phase where
  | idle
  | ready (p : Pending)
  | sent (p : Pending)
  /-- in `pthread_cond_timedwait` -/
  | waiting (p : Pending)
  /-- woken or timed out, about to take the mutex again -/
  | resuming (p : Pending) (timedOut : Bool)
  | returned (r : Returned)
  /-- The call ran into undefined behaviour. -/
  | undefined (answered : Bool)

/-- A use of a record, with the entry that its id had in the registry at that moment. -/
inductive Access where
  /-- `lambda->arg` in `wait_lambda_result` -/
  | arg (lambda : RsRegisteredLambda ArgPtr) (entry : Option (RsRegisteredLambda ArgPtr))
  /-- `&arg->wait_result`, when the time of a wait on it is over -/
  | waitResult (lambda : RsRegisteredLambda ArgPtr) (entry : Option (RsRegisteredLambda ArgPtr))
  /-- `lambda->cache` in `wait_lambda_result` -/
  | cache (lambda : RsRegisteredLambda ArgPtr) (entry : Option (RsRegisteredLambda ArgPtr))
  /-- What `assemble_call_success_rest` is given after a call of `lambda`. -/
  | response (lambda given : Option (RsRegisteredLambda ArgPtr))

structure Threads where
  linux : Linux
  /-- the thread that holds `accessing_registry` -/
  holder : Option ℕ
  clients : ℕ → Phase
  log : List Access

inductive ThreadEvent where
  | packet (d : Linux.Delivery)
  | lookup (i : ℕ) (c : Call)
  | send (i : ℕ) (env : Env)
  | wait (i : ℕ)
  | expire (i : ℕ)
  /-- a wakeup that nobody caused -/
  | spurious (i : ℕ)
  | resume (i : ℕ)
  /-- The REST handler answers. -/
  | respond (i : ℕ)

/-- A packet that stores a result in the call state `stored` and broadcasts on `broadcast`. -/
def Phase.onPacket (stored broadcast : Option ArgPtr) : Phase → Phase
  | .sent p =>
    let hit := stored == some p.lambda.arg
    .sent { p with answered := p.answered || hit, early := p.early || hit }
  | .waiting p =>
    let p' := { p with answered := p.answered || stored == some p.lambda.arg }
    if broadcast = some p.lambda.arg then .resuming p' false else .waiting p'
  | phase => phase

namespace Threads

/-- No client has called yet. -/
def start (linux : Linux) : Threads := ⟨linux, none, fun _ => .idle, []⟩

def setPhase (s : Threads) (i : ℕ) (phase : Phase) : Threads :=
  { s with clients := Function.update s.clients i phase }

def record (s : Threads) (a : Access) : Threads := { s with log := s.log ++ [a] }

def packet (o : ByteOrder) (s : Threads) (d : Linux.Delivery) : Threads :=
  let h := Linux.handleReceivedPacket o d.env s.linux d.packet
  let stored := (Linux.delivered o s.linux d).map Prod.fst
  { s with
    linux := h.state
    clients := fun i => (s.clients i).onPacket stored h.broadcast }

/-- `call_lambda_by_*` up to the cache check. -/
def lookup (s : Threads) (i : ℕ) (c : Call) : Threads :=
  match s.clients i, s.holder with
  | .idle, none =>
    match s.linux.found c with
    | none => s.setPhase i (.returned ⟨c, none, RS_CALL_NOTFOUND, none, false⟩)
    | some lambda =>
      if lambda.type ≠ c.expectedType then
        s.setPhase i (.returned ⟨c, some lambda, RS_CALL_WRONGTYPE, none, false⟩)
      else
        let (cacheResult, written) := Linux.checkLambdaCache s.linux lambda
        if cacheResult ≠ 0 then
          s.setPhase i (.returned ⟨c, some lambda, cacheResult, written, false⟩)
        else { s with holder := some i }.setPhase i (.ready ⟨c, lambda, false, false⟩)
  | _, _ => s

def send (s : Threads) (i : ℕ) (env : Env) : Threads :=
  match s.clients i with
  | .ready p =>
    match Linux.callPacket env p.call with
    | none => s.setPhase i (.undefined false)
    | some _ => s.setPhase i (.sent p)
  | _ => s

/-- `wait_lambda_result` up to the timed wait, which releases the mutex. -/
def wait (s : Threads) (i : ℕ) : Threads :=
  match s.clients i with
  | .sent p =>
    let s' := s.record (.arg p.lambda (s.linux.entry p.lambda))
    if (s.linux.entry p.lambda).isNone then s'.setPhase i (.undefined p.answered)
    else { s' with holder := none }.setPhase i (.waiting p)
  | _ => s

/-- The time of a blocked caller is over: from here on its call goes on with `ETIMEDOUT`. The
condition variable was destroyed under it if the record is gone by now. -/
def expire (s : Threads) (i : ℕ) : Threads :=
  match s.clients i with
  | .waiting p =>
    let s' := s.record (.waitResult p.lambda (s.linux.entry p.lambda))
    if (s.linux.entry p.lambda).isNone then s'.setPhase i (.undefined p.answered)
    else s'.setPhase i (.resuming p true)
  | _ => s

def spurious (s : Threads) (i : ℕ) : Threads :=
  match s.clients i with
  | .waiting p => s.setPhase i (.resuming p false)
  | _ => s

/-- `lambda->cache` is read after a timeout without an error. -/
def readsCache (s : Threads) (p : Pending) (timedOut : Bool) : Bool :=
  timedOut && (s.linux.heap p.lambda.arg).lastCallError == 0

/-- The mutex is taken for the rest of `wait_lambda_result`, which releases it. -/
def resume (s : Threads) (i : ℕ) : Threads :=
  match s.clients i, s.holder with
  | .resuming p timedOut, none =>
    let s' := if s.readsCache p timedOut then s.record (.cache p.lambda (s.linux.entry p.lambda))
      else s
    match s.linux.afterWait p.lambda timedOut with
    | none => s'.setPhase i (.undefined p.answered)
    | some (linux, code, written) =>
      { s' with linux }.setPhase i (.returned ⟨p.call, some p.lambda, code, written, p.answered⟩)
  | _, _ => s

/-- The codes after which the REST handler assembles a success. -/
def SUCCESS_CODES : List Int8 := [RS_CALL_SUCCESS, RS_CALL_CACHE, RS_CALL_CACHE_TIMEOUT]

/-- `handleCallById` and `handleCallByName` after the call: they look the lambda up again. -/
def respond (s : Threads) (i : ℕ) : Threads :=
  match s.clients i with
  | .returned r =>
    let s' := if r.code ∈ SUCCESS_CODES then s.record (.response r.lambda (s.linux.found r.call))
      else s
    s'.setPhase i .idle
  | _ => s

/-- A step that its thread cannot take now changes nothing. -/
def step (o : ByteOrder) (s : Threads) : ThreadEvent → Threads
  | .packet d => s.packet o d
  | .lookup i c => s.lookup i c
  | .send i env => s.send i env
  | .wait i => s.wait i
  | .expire i => s.expire i
  | .spurious i => s.spurious i
  | .resume i => s.resume i
  | .respond i => s.respond i

end Threads

end RS
