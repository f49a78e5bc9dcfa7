import Riotsensors.Lib.Heap
import Riotsensors.Spec.Client

/-! The connector with its memory: the string branch of the packet handler copies the packet to
a block of its own, frees the cached string and keeps the new one by its address, and the calls
hand that address out. The call states and the registry records lie elsewhere. -/

namespace RS

open CMem

/-- The union with the address that `ret_s` holds. -/
inductive StoredReturn where
  | unset
  | retI (i : RsInt)
  | retD (d : RsDouble)
  | retS (p : ℕ)

structure StoredLambda where
  dataCached : Bool
  lastCallError : Int8
  ret : StoredReturn

/-- The Linux process with its heap of packet copies and strings. -/
structure Process where
  registry : Registry ArgPtr
  args : ArgPtr → StoredLambda
  brk : ArgPtr
  heap : Heap (List UInt8)

/-- What is read through the union. -/
def StoredReturn.read (heap : Heap (List UInt8)) : StoredReturn → GenericLambdaReturn
  | .unset => .unset
  | .retI i => .retI i
  | .retD d => .retD d
  | .retS p => .retS ((heap.block p).getD [])

def StoredLambda.read (heap : Heap (List UInt8)) (v : StoredLambda) : RsLinuxRegisteredLambda :=
  ⟨v.dataCached, v.lastCallError, v.ret.read heap⟩

namespace Process

/-- The process without its addresses. -/
def values (s : Process) : Linux := ⟨s.registry, fun a => (s.args a).read s.heap, s.brk⟩

/-- A freshly started process; `malloc` leaves flags and codes in the call states. -/
def started (cached : ArgPtr → Bool) (code : ArgPtr → Int8) : Process :=
  ⟨Registry.empty, fun a => ⟨cached a, code a, .unset⟩, 0, Heap.empty⟩

def setArg (s : Process) (a : ArgPtr) (v : StoredLambda) : Process :=
  { s with args := Function.update s.args a v }

/-- The number branches once the size is accepted. -/
def storeNumber (s : Process) (id : LambdaId) (ret : StoredReturn) : Process :=
  match getRegisteredLambdaById s.registry id with
  | none => s
  | some lambda =>
    s.setArg lambda.arg { ret := ret, lastCallError := RS_CALL_SUCCESS, dataCached := true }

/-- `free(arg->ret.ret_s)`. `none`: the union holds no address of a live block. -/
def freeReturn (heap : Heap (List UInt8)) : StoredReturn → Option (Heap (List UInt8))
  | .retS p => heap.free p
  | _ => none

/-- A new block takes the place of the cached string. -/
def cacheString (s : Process) (a : ArgPtr) (block : List UInt8) : Option Process :=
  (if (s.args a).dataCached then freeReturn s.heap (s.args a).ret else some s.heap).map
    fun heap => { s with heap := heap.alloc block }.setArg a
      { ret := .retS heap.next, lastCallError := RS_CALL_SUCCESS, dataCached := true }

/-- The string branch once the size is accepted; `mypkt` is the copy after its conversion, and
stays allocated. -/
def storeString (o : ByteOrder) (env : Env) (s : Process) (mypkt : Packet) : Option Process :=
  let s := { s with heap := s.heap.alloc mypkt }
  match getRegisteredLambdaById s.registry (byteAt mypkt LAMBDA_ID) with
  | none => some s
  | some lambda => s.cacheString lambda.arg (Linux.resultBlock o env mypkt)

def handleRegistered (env : Env) (s : Process) (mypkt : Packet) : Process :=
  let arg := s.brk
  let s := { s with brk := s.brk + 1 }
  let s := s.setArg arg { s.args arg with dataCached := false }
  let (registry, _) := lambdaRegistryRegister env.heap s.registry
    (mypkt.drop NAME ++ env.beyond) (byteAt mypkt LTYPE) (byteAt mypkt CACHE) arg
  { s with registry }

def handleUnregistered (s : Process) (mypkt : Packet) : Process :=
  let id := byteAt mypkt LAMBDA_ID
  match getRegisteredLambdaById s.registry id with
  | none => s
  | some _ => { s with registry := (lambdaRegistryUnregister s.registry id).1 }

def handleResultError (s : Process) (mypkt : Packet) : Process :=
  match getRegisteredLambdaById s.registry (byteAt mypkt LAMBDA_ID) with
  | none => s
  | some lambda =>
    s.setArg lambda.arg
      { s.args lambda.arg with lastCallError := (byteAt mypkt RESULT).toInt8 }

/-- `none`: a string is cached for a lambda whose cached value is a number. -/
def handleReceivedPacket (o : ByteOrder) (env : Env) (s : Process) (packet : Packet) :
    Option Process :=
  if packet.length < 1 then some s
  else if byteAt packet PTYPE = RS_PACKET_REGISTERED then
    if packet.length ≠ SIZEOF_RS_PACKET_REGISTERED then some s
    else some (handleRegistered env s (ntohRsPacketRegistered packet))
  else if byteAt packet PTYPE = RS_PACKET_UNREGISTERED then
    if packet.length ≠ SIZEOF_RS_PACKET_UNREGISTERED then some s
    else some (handleUnregistered s (ntohRsPacketUnregistered packet))
  else if byteAt packet PTYPE = RS_PACKET_RESULT_INT then
    if packet.length ≠ SIZEOF_RS_PACKET_LAMBDA_RESULT_INT then some s
    else
      let mypkt := ntohRsPacketLambdaResultInt packet
      some (storeNumber s (byteAt mypkt LAMBDA_ID) (.retI (getInt o mypkt RESULT)))
  else if byteAt packet PTYPE = RS_PACKET_RESULT_DOUBLE then
    if packet.length ≠ SIZEOF_RS_PACKET_LAMBDA_RESULT_DOUBLE then some s
    else
      let mypkt := ntohRsPacketLambdaResultDouble o env.undef packet
      some (storeNumber s (byteAt mypkt LAMBDA_ID) (.retD (getDouble o mypkt RESULT)))
  else if byteAt packet PTYPE = RS_PACKET_RESULT_STRING then
    if packet.length < SIZEOF_RS_PACKET_LAMBDA_RESULT_STRING then some s
    else storeString o env s (ntohRsPacketLambdaResultString o packet)
  else if byteAt packet PTYPE = RS_PACKET_RESULT_ERROR then
    if packet.length ≠ SIZEOF_RS_PACKET_LAMBDA_RESULT_ERROR then some s
    else some (handleResultError s (ntohRsPacketLambdaResultError packet))
  else some s

def receive (o : ByteOrder) (s : Process) (d : Linux.Delivery) : Option Process :=
  s.handleReceivedPacket o d.env d.packet

/-- `none`: undefined behaviour. -/
def receiveAll (o : ByteOrder) (s : Process) (ds : List Linux.Delivery) : Option Process :=
  ds.foldlM (receive o) s

/-- As `Linux.CallOutcome`, with the address of a string in `*result`. -/
structure Returned where
  state : Process
  sent : List Packet
  code : Int8
  written : Option StoredReturn

/-- As `Linux.afterWait`. -/
def afterWait (s : Process) (lambda : RsRegisteredLambda ArgPtr) (timedOut : Bool) :
    Option (Process × Int8 × Option StoredReturn) :=
  let arg := s.args lambda.arg
  let freed := (s.registry.slot lambda.id.toNat).isNone
  if timedOut then
    if arg.lastCallError ≠ 0 then
      some (s.setArg lambda.arg { arg with lastCallError := 0 }, arg.lastCallError, none)
    else if freed then none
    else if lambda.cache = RS_CACHE_ON_TIMEOUT then
      if arg.dataCached then some (s, RS_CALL_CACHE_TIMEOUT, some arg.ret)
      else some (s, RS_CALL_CACHE_TIMEOUT_EMPTY, none)
    else some (s, RS_CALL_TIMEOUT, none)
  else if freed then none
  else some (s, RS_CALL_SUCCESS, some arg.ret)

/-- The timed wait touches the mutex and the condition variable only. -/
def waitLambdaResult (o : ByteOrder) (s : Process) (lambda : RsRegisteredLambda ArgPtr)
    (w : Linux.Wait) (sent : List Packet) : Option Returned := do
  let s' ← s.receiveAll o w.packets
  let timedOut ← Linux.timedWait o s.values lambda w
  let (state, code, written) ← s'.afterWait lambda timedOut
  return ⟨state, sent, code, written⟩

def checkLambdaCache (s : Process) (lambda : RsRegisteredLambda ArgPtr) :
    Int8 × Option StoredReturn :=
  let arg := s.args lambda.arg
  if lambda.cache = RS_CACHE_NO_CACHE then (RS_CALL_SUCCESS, none)
  else if lambda.cache = RS_CACHE_CALL_ONCE then
    if arg.dataCached then (RS_CALL_CACHE, some arg.ret) else (RS_CALL_SUCCESS, none)
  else if lambda.cache = RS_CACHE_ONLY then
    if arg.dataCached then (RS_CALL_CACHE, some arg.ret) else (RS_CALL_CACHE_EMPTY, none)
  else (RS_CALL_SUCCESS, none)

/-- The common body of the two calls; the call packet is a block of the heap until it is
sent. -/
def callLambda (o : ByteOrder) (s : Process) (found : Option (RsRegisteredLambda ArgPtr))
    (expectedType : RsLambdaType) (packet : Option Packet) (w : Linux.Wait) : Option Returned :=
  match found with
  | none => some ⟨s, [], RS_CALL_NOTFOUND, none⟩
  | some lambda =>
    if lambda.type ≠ expectedType then some ⟨s, [], RS_CALL_WRONGTYPE, none⟩
    else
      let (cacheResult, written) := s.checkLambdaCache lambda
      if cacheResult ≠ 0 then some ⟨s, [], cacheResult, written⟩
      else do
        let pkt ← packet
        let heap ← (s.heap.alloc pkt).free s.heap.next
        waitLambdaResult o { s with heap } lambda w [pkt]

def callLambdaById (o : ByteOrder) (env : Env) (s : Process) (id : LambdaId)
    (expectedType : RsLambdaType) (w : Linux.Wait) : Option Returned :=
  callLambda o s (getRegisteredLambdaById s.registry id) expectedType
    (Linux.callByIdPacket env id expectedType) w

def callLambdaByName (o : ByteOrder) (env : Env) (s : Process) (name : List UInt8)
    (expectedType : RsLambdaType) (w : Linux.Wait) : Option Returned :=
  callLambda o s (getRegisteredLambdaByName s.registry name) expectedType
    (Linux.callByNamePacket env name expectedType) w

def call (o : ByteOrder) (env : Env) (s : Process) (c : Call) (w : Linux.Wait) :
    Option Returned :=
  match c with
  | .byId id expectedType => callLambdaById o env s id expectedType w
  | .byName name expectedType => callLambdaByName o env s name expectedType w

def play (o : ByteOrder) (s : Process) : LinuxEvent → Option Process
  | .packet d => s.receive o d
  | .call env c w => (s.call o env c w).map Returned.state

/-- The process after a history. `none`: undefined behaviour. -/
def playAll (o : ByteOrder) (s : Process) (es : List LinuxEvent) : Option Process :=
  es.foldlM (play o) s

end Process

end RS
