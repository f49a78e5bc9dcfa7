import Mathlib.Logic.Function.Basic
import Riotsensors.Lib.Runs
import Riotsensors.Spec.Board

/-! The Linux side (`rs_connector.c`): the packet handler, the cache check and
the blocking calls. -/

namespace RS

open CMem

/-- The union by its last written member. `unset`: none was written since `malloc`. -/
inductive GenericLambdaReturn where
  | unset
  | retI (i : RsInt)
  | retD (d : RsDouble)
  /-- the block that the stored pointer points at -/
  | retS (block : List UInt8)
  deriving DecidableEq

structure RsLinuxRegisteredLambda where
  dataCached : Bool
  lastCallError : Int8
  ret : GenericLambdaReturn
  deriving DecidableEq

/-- The address of a call state; it also names its condition variable. -/
abbrev ArgPtr := ℕ

/-- The call states lie in a heap of their own: unregistering frees the registry
record only. The next block has whatever contents the heap holds at `brk`. -/
structure Linux where
  registry : Registry ArgPtr
  heap : ArgPtr → RsLinuxRegisteredLambda
  brk : ArgPtr

namespace Linux

/-- A freshly started process. -/
def started (garbage : ArgPtr → RsLinuxRegisteredLambda) : Linux := ⟨Registry.empty, garbage, 0⟩

def setArg (s : Linux) (p : ArgPtr) (a : RsLinuxRegisteredLambda) : Linux :=
  { s with heap := Function.update s.heap p a }

/-- What one packet does: the new state, the condition variable it broadcasts on,
and the union whose `ret_s` it passes to `free`. -/
structure Handled where
  state : Linux
  broadcast : Option ArgPtr
  freed : Option GenericLambdaReturn

def Handled.quiet (s : Linux) : Handled := ⟨s, none, none⟩

/-- The body of the three result branches once the size is accepted. Only the
string branch frees the old value. -/
def storeResult (s : Linux) (id : LambdaId) (ret : GenericLambdaReturn) (frees : Bool) : Handled :=
  match getRegisteredLambdaById s.registry id with
  | none => Handled.quiet s
  | some lambda =>
    let arg := s.heap lambda.arg
    { state := s.setArg lambda.arg
        { ret := ret, lastCallError := RS_CALL_SUCCESS, dataCached := true }
      broadcast := some lambda.arg
      freed := if frees ∧ arg.dataCached then some arg.ret else none }

def handleRegistered (env : Env) (s : Linux) (mypkt : Packet) : Handled :=
  let arg := s.brk
  let s := { s with brk := s.brk + 1 }
  let s := s.setArg arg { s.heap arg with dataCached := false }
  let (registry, _) := lambdaRegistryRegister env.heap s.registry
    (mypkt.drop NAME ++ env.beyond) (byteAt mypkt LTYPE) (byteAt mypkt CACHE) arg
  Handled.quiet { s with registry }

def handleUnregistered (s : Linux) (mypkt : Packet) : Handled :=
  let id := byteAt mypkt LAMBDA_ID
  match getRegisteredLambdaById s.registry id with
  | none => Handled.quiet s
  | some _ => Handled.quiet { s with registry := (lambdaRegistryUnregister s.registry id).1 }

def handleResultError (s : Linux) (mypkt : Packet) : Handled :=
  match getRegisteredLambdaById s.registry (byteAt mypkt LAMBDA_ID) with
  | none => Handled.quiet s
  | some lambda =>
    { state := s.setArg lambda.arg
        { s.heap lambda.arg with lastCallError := (byteAt mypkt RESULT).toInt8 }
      broadcast := some lambda.arg
      freed := none }

/-- The string block: `result_length` bytes from the field on, past the end of the
packet if the length says so. -/
def resultBlock (o : ByteOrder) (env : Env) (mypkt : Packet) : List UInt8 :=
  peek (mypkt ++ env.beyond) STRING (getU16 o mypkt RESULT).toNat

def handleReceivedPacket (o : ByteOrder) (env : Env) (s : Linux) (packet : Packet) : Handled :=
  if packet.length < 1 then Handled.quiet s
  else if byteAt packet PTYPE = RS_PACKET_REGISTERED then
    if packet.length ≠ SIZEOF_RS_PACKET_REGISTERED then Handled.quiet s
    else handleRegistered env s (ntohRsPacketRegistered packet)
  else if byteAt packet PTYPE = RS_PACKET_UNREGISTERED then
    if packet.length ≠ SIZEOF_RS_PACKET_UNREGISTERED then Handled.quiet s
    else handleUnregistered s (ntohRsPacketUnregistered packet)
  else if byteAt packet PTYPE = RS_PACKET_RESULT_INT then
    if packet.length ≠ SIZEOF_RS_PACKET_LAMBDA_RESULT_INT then Handled.quiet s
    else
      let mypkt := ntohRsPacketLambdaResultInt packet
      storeResult s (byteAt mypkt LAMBDA_ID) (.retI (getInt o mypkt RESULT)) false
  else if byteAt packet PTYPE = RS_PACKET_RESULT_DOUBLE then
    if packet.length ≠ SIZEOF_RS_PACKET_LAMBDA_RESULT_DOUBLE then Handled.quiet s
    else
      let mypkt := ntohRsPacketLambdaResultDouble o env.undef packet
      storeResult s (byteAt mypkt LAMBDA_ID) (.retD (getDouble o mypkt RESULT)) false
  else if byteAt packet PTYPE = RS_PACKET_RESULT_STRING then
    if packet.length < SIZEOF_RS_PACKET_LAMBDA_RESULT_STRING then Handled.quiet s
    else
      let mypkt := ntohRsPacketLambdaResultString o packet
      storeResult s (byteAt mypkt LAMBDA_ID) (.retS (resultBlock o env mypkt)) true
  else if byteAt packet PTYPE = RS_PACKET_RESULT_ERROR then
    if packet.length ≠ SIZEOF_RS_PACKET_LAMBDA_RESULT_ERROR then Handled.quiet s
    else handleResultError s (ntohRsPacketLambdaResultError packet)
  else Handled.quiet s

/-- A packet as the receiver gets it. -/
structure Delivery where
  env : Env
  packet : Packet

def receive (o : ByteOrder) (s : Linux) (d : Delivery) : Linux :=
  (handleReceivedPacket o d.env s d.packet).state

def receiveAll (o : ByteOrder) (s : Linux) (ds : List Delivery) : Linux := Runs.run (receive o) s ds

/-- What happens while `pthread_cond_timedwait` runs: the packets handled while the
caller is blocked, those handled before it holds the mutex again, and, should no
packet wake it, whether the timer expired (otherwise the wakeup is spurious). -/
structure Wait where
  blocked : List Delivery
  resuming : List Delivery
  expired : Bool

/-- The packets handled before the caller goes on. -/
def Wait.packets (w : Wait) : List Delivery := w.blocked ++ w.resuming

inductive Ending where
  | woken (d : Delivery)
  | timedOut
  | spurious

/-- The packet that ends a wait on `arg`: the first that broadcasts on it. -/
def firstWaker (o : ByteOrder) (arg : ArgPtr) : Linux → List Delivery → Option Delivery
  | _, [] => none
  | s, d :: ds =>
    if (handleReceivedPacket o d.env s d.packet).broadcast = some arg then some d
    else firstWaker o arg (receive o s d) ds

def ending (o : ByteOrder) (arg : ArgPtr) (s : Linux) (w : Wait) : Ending :=
  match firstWaker o arg s w.blocked with
  | some d => .woken d
  | none => if w.expired then .timedOut else .spurious

/-- A call's effect: the new state, the packet it sent, its return code and what it
stored in `*result`, if it did. -/
structure CallOutcome where
  state : Linux
  sent : List Packet
  code : Int8
  written : Option GenericLambdaReturn

/-- The entry that a record's id has in the registry. -/
def entry (s : Linux) (lambda : RsRegisteredLambda ArgPtr) : Option (RsRegisteredLambda ArgPtr) :=
  s.registry.slot lambda.id.toNat

/-- `wait_lambda_result` once the timed wait has returned: the state, the code and what is
stored in `*result`. `none`: the record that it reads was freed. -/
def afterWait (s : Linux) (lambda : RsRegisteredLambda ArgPtr) (timedOut : Bool) :
    Option (Linux × Int8 × Option GenericLambdaReturn) :=
  let arg := s.heap lambda.arg
  if timedOut then
    if arg.lastCallError ≠ 0 then
      some (s.setArg lambda.arg { arg with lastCallError := 0 }, arg.lastCallError, none)
    -- `lambda->cache`
    else if (s.entry lambda).isNone then none
    else if lambda.cache = RS_CACHE_ON_TIMEOUT then
      if arg.dataCached then some (s, RS_CALL_CACHE_TIMEOUT, some arg.ret)
      else some (s, RS_CALL_CACHE_TIMEOUT_EMPTY, none)
    else some (s, RS_CALL_TIMEOUT, none)
  -- `lambda->id`, for the log
  else if (s.entry lambda).isNone then none
  else some (s, RS_CALL_SUCCESS, some arg.ret)

/-- Whether the wait timed out. `none`: it did, on a condition variable that an unregistration
destroyed while the caller was blocked on it. -/
def timedWait (o : ByteOrder) (s : Linux) (lambda : RsRegisteredLambda ArgPtr) (w : Wait) :
    Option Bool :=
  match ending o lambda.arg s w with
  | .timedOut => if ((receiveAll o s w.blocked).entry lambda).isNone then none else some true
  | _ => some false

/-- `wait_lambda_result`, from the timed wait on. -/
def waitLambdaResult (o : ByteOrder) (s : Linux) (lambda : RsRegisteredLambda ArgPtr) (w : Wait)
    (sent : List Packet) : Option CallOutcome := do
  let timedOut ← timedWait o s lambda w
  let (state, code, written) ← (receiveAll o s w.packets).afterWait lambda timedOut
  return ⟨state, sent, code, written⟩

/-- The code and what is stored in `*result`. -/
def checkLambdaCache (s : Linux) (lambda : RsRegisteredLambda ArgPtr) :
    Int8 × Option GenericLambdaReturn :=
  let arg := s.heap lambda.arg
  if lambda.cache = RS_CACHE_NO_CACHE then (RS_CALL_SUCCESS, none)
  else if lambda.cache = RS_CACHE_CALL_ONCE then
    if arg.dataCached then (RS_CALL_CACHE, some arg.ret) else (RS_CALL_SUCCESS, none)
  else if lambda.cache = RS_CACHE_ONLY then
    if arg.dataCached then (RS_CALL_CACHE, some arg.ret) else (RS_CALL_CACHE_EMPTY, none)
  else (RS_CALL_SUCCESS, none)

/-- The common body of the two calls: `found` is the lookup's answer, `packet` the
call packet they build. -/
def callLambda (o : ByteOrder) (s : Linux) (found : Option (RsRegisteredLambda ArgPtr))
    (expectedType : RsLambdaType) (packet : Option Packet) (w : Wait) : Option CallOutcome :=
  match found with
  | none => some ⟨s, [], RS_CALL_NOTFOUND, none⟩
  | some lambda =>
    if lambda.type ≠ expectedType then some ⟨s, [], RS_CALL_WRONGTYPE, none⟩
    else
      let (cacheResult, written) := checkLambdaCache s lambda
      if cacheResult ≠ 0 then some ⟨s, [], cacheResult, written⟩
      else do
        let pkt ← packet
        waitLambdaResult o s lambda w [pkt]

def callByIdPacket (env : Env) (id : LambdaId) (expectedType : RsLambdaType) : Option Packet := do
  let mypkt := uninit SIZEOF_RS_PACKET_CALL_BY_ID env.object
  let mypkt ← poke mypkt PTYPE [RS_PACKET_CALL_BY_ID]
  let mypkt ← poke mypkt LAMBDA_ID [id]
  let mypkt ← poke mypkt EXPECTED_TYPE [expectedType]
  return htonRsPacketCallById mypkt

/-- The NUL of a 12-byte name lands on `expected_type`, which is assigned next. -/
def callByNamePacket (env : Env) (name : List UInt8) (expectedType : RsLambdaType) :
    Option Packet := do
  let mypkt := uninit SIZEOF_RS_PACKET_CALL_BY_NAME env.object
  let mypkt ← poke mypkt PTYPE [RS_PACKET_CALL_BY_NAME]
  let mypkt ← strcpy mypkt NAME name
  let mypkt ← poke mypkt LTYPE [expectedType]
  return htonRsPacketCallByName mypkt

def callLambdaById (o : ByteOrder) (env : Env) (s : Linux) (id : LambdaId)
    (expectedType : RsLambdaType) (w : Wait) : Option CallOutcome :=
  callLambda o s (getRegisteredLambdaById s.registry id) expectedType
    (callByIdPacket env id expectedType) w

def callLambdaByName (o : ByteOrder) (env : Env) (s : Linux) (name : List UInt8)
    (expectedType : RsLambdaType) (w : Wait) : Option CallOutcome :=
  callLambda o s (getRegisteredLambdaByName s.registry name) expectedType
    (callByNamePacket env name expectedType) w

end Linux

end RS
