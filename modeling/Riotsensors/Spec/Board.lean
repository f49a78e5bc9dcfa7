import Riotsensors.Spec.Registry
import Riotsensors.Spec.Packets

/-! The board (`rs.c`). Every function returns the packets it hands to
`spt_send_packet`, in order. `none` is undefined behaviour or a call that never
returns: a store that leaves its packet object, or a packing loop without end. -/

namespace RS

open CMem

/-- What a C function finds in memory that it has not written: the contents of a
fresh local object, the memory behind a received packet, the block `malloc`
returns for a registry record (`none`: no memory), and the machine's answer to a
double-to-integer conversion out of range. -/
structure Env where
  object : List UInt8 := []
  beyond : List UInt8 := []
  heap : Option (List UInt8) := some []
  undef : UInt64 := 0

/-- A lambda's function pointer; `0` is `NULL`. -/
abbrev FuncPtr := ℕ

/-- What the user's functions return when they are called now with a given id. A
string is the memory that the returned pointer points at. -/
structure Evaluators where
  int : FuncPtr → LambdaId → RsInt
  double : FuncPtr → LambdaId → RsDouble
  string : FuncPtr → LambdaId → List UInt8

structure Board where
  registry : Registry FuncPtr
  rsSptStarted : Bool

namespace Board

/-- A freshly started board with the serial link up. -/
def started : Board := ⟨Registry.empty, true⟩

/-- The packet object of `register_lambda`. The NUL of a 12-byte name lands on
`ltype`, which is assigned next. -/
def registeredPacket (env : Env) (name : List UInt8) (type : RsLambdaType)
    (cache : RsCacheType) : Option Packet := do
  let pkt := uninit SIZEOF_RS_PACKET_REGISTERED env.object
  let pkt ← poke pkt PTYPE [RS_PACKET_REGISTERED]
  let pkt ← strcpy pkt NAME name
  let pkt ← poke pkt LTYPE [type]
  let pkt ← poke pkt CACHE [cache]
  return htonRsPacketRegistered pkt

def registerLambda (env : Env) (b : Board) (name : List UInt8) (lambda : FuncPtr)
    (type : RsLambdaType) (cache : RsCacheType) : Option (Board × Int8 × List Packet) :=
  if lambda = 0 ∧ cache ≠ RS_CACHE_ONLY then some (b, RS_REGISTER_INVALPARAM, [])
  else
    let (registry, res) := lambdaRegistryRegister env.heap b.registry name type cache lambda
    let b := { b with registry }
    if res < 0 then some (b, res, [])
    else if b.rsSptStarted then do
      let pkt ← registeredPacket env name type cache
      return (b, res, [pkt])
    else some (b, res, [])

def registerLambdaInt (env : Env) (b : Board) (name : List UInt8) (lambda : FuncPtr)
    (cache : RsCacheType) : Option (Board × Int8 × List Packet) :=
  registerLambda env b name lambda RS_LAMBDA_INT cache

def registerLambdaDouble (env : Env) (b : Board) (name : List UInt8) (lambda : FuncPtr)
    (cache : RsCacheType) : Option (Board × Int8 × List Packet) :=
  registerLambda env b name lambda RS_LAMBDA_DOUBLE cache

def registerLambdaString (env : Env) (b : Board) (name : List UInt8) (lambda : FuncPtr)
    (cache : RsCacheType) : Option (Board × Int8 × List Packet) :=
  registerLambda env b name lambda RS_LAMBDA_STRING cache

/-- A call's code and value, and the record whose function was invoked. -/
structure Called (β : Type) where
  code : Int8
  result : Option β
  invoked : Option (RsRegisteredLambda FuncPtr)

/-- The common body of `call_lambda_int`, `call_lambda_double` and
`call_lambda_string`. `none`: a lambda without a function is called. -/
def callLambda {β : Type} (type : RsLambdaType) (eval : FuncPtr → LambdaId → β) (b : Board)
    (id : LambdaId) : Option (Called β) :=
  match getRegisteredLambdaById b.registry id with
  | none => some ⟨RS_CALL_NOTFOUND, none, none⟩
  | some lambda =>
    if lambda.type ≠ type then some ⟨RS_CALL_WRONGTYPE, none, none⟩
    else if lambda.arg = 0 then none
    else some ⟨RS_CALL_SUCCESS, some (eval lambda.arg id), some lambda⟩

def callLambdaInt (ev : Evaluators) (b : Board) (id : LambdaId) : Option (Called RsInt) :=
  callLambda RS_LAMBDA_INT ev.int b id

def callLambdaDouble (ev : Evaluators) (b : Board) (id : LambdaId) : Option (Called RsDouble) :=
  callLambda RS_LAMBDA_DOUBLE ev.double b id

def callLambdaString (ev : Evaluators) (b : Board) (id : LambdaId) :
    Option (Called (List UInt8)) :=
  callLambda RS_LAMBDA_STRING ev.string b id

/-- Copies the name as a C string, from the record's name field on. -/
def populateResultbaseFromLambda (pkt : Packet) (lambda : RsRegisteredLambda FuncPtr) :
    Option Packet := do
  let pkt ← poke pkt LAMBDA_ID [lambda.id]
  strcpy pkt BASE_NAME lambda.nameMem

def resultIntPacket (o : ByteOrder) (env : Env) (lambda : RsRegisteredLambda FuncPtr)
    (result : RsInt) : Option Packet := do
  let pkt := uninit SIZEOF_RS_PACKET_LAMBDA_RESULT_INT env.object
  let pkt ← poke pkt PTYPE [RS_PACKET_RESULT_INT]
  let pkt ← populateResultbaseFromLambda pkt lambda
  let pkt ← poke pkt RESULT (o.write 4 result.toUInt32.toNat)
  return htonRsPacketLambdaResultInt pkt

def resultDoublePacket (o : ByteOrder) (env : Env) (lambda : RsRegisteredLambda FuncPtr)
    (result : RsDouble) : Option Packet := do
  let pkt := uninit SIZEOF_RS_PACKET_LAMBDA_RESULT_DOUBLE env.object
  let pkt ← poke pkt PTYPE [RS_PACKET_RESULT_DOUBLE]
  let pkt ← populateResultbaseFromLambda pkt lambda
  let pkt ← poke pkt RESULT (o.write 8 result.toNat)
  htonRsPacketLambdaResultDouble o pkt

/-- The object is a struct with a one-byte tail; the copy writes the whole string. -/
def resultStringPacket (o : ByteOrder) (env : Env) (lambda : RsRegisteredLambda FuncPtr)
    (result : List UInt8) : Option Packet := do
  let resLen := strlen result + 1
  let pktSize := SIZEOF_RS_PACKET_LAMBDA_RESULT_STRING - 1 + resLen
  let pkt := uninit SIZEOF_RS_PACKET_LAMBDA_RESULT_STRING env.object
  let pkt ← poke pkt PTYPE [RS_PACKET_RESULT_STRING]
  let pkt ← populateResultbaseFromLambda pkt lambda
  let pkt ← poke pkt RESULT (o.write 2 resLen)
  let pkt ← poke pkt STRING (peek result 0 resLen)
  let pkt := htonRsPacketLambdaResultString o pkt
  -- `sdpkt.len` is a `uint16_t`: `spt_send_packet` reads that many bytes
  return peek (pkt ++ env.beyond) 0 (pktSize % 2 ^ 16)

/-- The common body of the `send_result_lambda_*` functions. -/
def sendResultLambda (type : RsLambdaType)
    (packet : RsRegisteredLambda FuncPtr → Option Packet) (b : Board) (id : LambdaId) :
    Option (Int8 × List Packet) :=
  match getRegisteredLambdaById b.registry id with
  | none => some (RS_RESULT_NOTFOUND, [])
  | some lambda =>
    if lambda.type ≠ type then some (RS_RESULT_WRONGTYPE, [])
    else if b.rsSptStarted then do
      let pkt ← packet lambda
      return (RS_RESULT_SUCCESS, [pkt])
    else some (RS_RESULT_SUCCESS, [])

def sendResultLambdaInt (o : ByteOrder) (env : Env) (b : Board) (id : LambdaId)
    (result : RsInt) : Option (Int8 × List Packet) :=
  sendResultLambda RS_LAMBDA_INT (resultIntPacket o env · result) b id

def sendResultLambdaDouble (o : ByteOrder) (env : Env) (b : Board) (id : LambdaId)
    (result : RsDouble) : Option (Int8 × List Packet) :=
  sendResultLambda RS_LAMBDA_DOUBLE (resultDoublePacket o env · result) b id

def sendResultLambdaString (o : ByteOrder) (env : Env) (b : Board) (id : LambdaId)
    (result : List UInt8) : Option (Int8 × List Packet) :=
  sendResultLambda RS_LAMBDA_STRING (resultStringPacket o env · result) b id

/-- The packet object of `unregister_lambda`, with the tag that the code gives it. -/
def unregisteredPacket (env : Env) (id : LambdaId) (lambda : RsRegisteredLambda FuncPtr) :
    Option Packet := do
  let pkt := uninit SIZEOF_RS_PACKET_UNREGISTERED env.object
  let pkt ← poke pkt PTYPE [RS_PACKET_REGISTERED]
  let pkt ← poke pkt LAMBDA_ID [id]
  let pkt ← strcpy pkt BASE_NAME lambda.nameMem
  return htonRsPacketUnregistered pkt

def unregisterLambda (env : Env) (b : Board) (id : LambdaId) :
    Option (Board × Int8 × List Packet) :=
  match getRegisteredLambdaById b.registry id with
  | none => some (b, RS_UNREGISTER_NOTFOUND, [])
  | some lambda =>
    let b' := { b with registry := (lambdaRegistryUnregister b.registry id).1 }
    if b.rsSptStarted then do
      let pkt ← unregisteredPacket env id lambda
      return (b', RS_UNREGISTER_SUCCESS, [pkt])
    else some (b', RS_UNREGISTER_SUCCESS, [])

def getLambdaIdFromName (b : Board) (name : List UInt8) : LambdaId :=
  match getRegisteredLambdaByName b.registry name with
  | none => 255
  | some lambda => lambda.id

/-- `"unknown"`, the name an error packet carries. -/
def unknownName : List UInt8 := [117, 110, 107, 110, 111, 119, 110]

def resultErrorPacket (env : Env) (id : LambdaId) (code : Int8) : Option Packet := do
  let pkt := uninit SIZEOF_RS_PACKET_LAMBDA_RESULT_ERROR env.object
  let pkt ← poke pkt PTYPE [RS_PACKET_RESULT_ERROR]
  let pkt ← poke pkt LAMBDA_ID [id]
  let pkt ← strcpy pkt BASE_NAME unknownName
  let pkt ← poke pkt RESULT [code.toUInt8]
  return htonRsPacketLambdaResultError pkt

/-- The board's answer to one packet: what it sends, and the record whose function
it invoked. -/
structure Served where
  sent : List Packet
  invoked : Option (RsRegisteredLambda FuncPtr)

def Served.nothing : Served := ⟨[], none⟩

/-- The tail of `handle_call_lambda`, reached when the call did not succeed. -/
def sendCallError (env : Env) (b : Board) (id : LambdaId) (code : Int8) : Option Served :=
  if b.rsSptStarted then do
    let pkt ← resultErrorPacket env id code
    return ⟨[pkt], none⟩
  else some Served.nothing

/-- One typed branch of `handle_call_lambda`. -/
def handleCall {β : Type} (env : Env) (b : Board) (id : LambdaId) (called : Option (Called β))
    (send : β → Option (Int8 × List Packet)) : Option Served := do
  let called ← called
  match called.result with
  | some result => do
    let (_, sent) ← send result
    return ⟨sent, called.invoked⟩
  | none => sendCallError env b id called.code

def handleCallLambda (o : ByteOrder) (env : Env) (ev : Evaluators) (b : Board) (id : LambdaId)
    (expectedType : RsLambdaType) : Option Served :=
  if expectedType = RS_LAMBDA_INT then
    handleCall env b id (callLambdaInt ev b id) (sendResultLambdaInt o env b id)
  else if expectedType = RS_LAMBDA_DOUBLE then
    handleCall env b id (callLambdaDouble ev b id) (sendResultLambdaDouble o env b id)
  else if expectedType = RS_LAMBDA_STRING then
    handleCall env b id (callLambdaString ev b id) (sendResultLambdaString o env b id)
  else some Served.nothing

def handleReceivedPacket (o : ByteOrder) (env : Env) (ev : Evaluators) (b : Board)
    (packet : Packet) : Option Served :=
  if packet.length < 1 then some Served.nothing
  else if byteAt packet PTYPE = RS_PACKET_CALL_BY_ID then
    if packet.length ≠ SIZEOF_RS_PACKET_CALL_BY_ID then some Served.nothing
    else
      let mypkt := ntohRsPacketCallById packet
      handleCallLambda o env ev b (byteAt mypkt LAMBDA_ID) (byteAt mypkt EXPECTED_TYPE)
  else if byteAt packet PTYPE = RS_PACKET_CALL_BY_NAME then
    if packet.length ≠ SIZEOF_RS_PACKET_CALL_BY_NAME then some Served.nothing
    else
      let mypkt := ntohRsPacketCallByName packet
      let id := getLambdaIdFromName b (mypkt.drop NAME ++ env.beyond)
      if id = 255 then some Served.nothing
      else handleCallLambda o env ev b id (byteAt mypkt LTYPE)
  else some Served.nothing

end Board

end RS
