import Riotsensors.Spec.Link

/-! Every way to have the board evaluate a lambda: the API by id and by name (`rs.c`),
call packets, and the CoAP server (`rs_coap_server.c`) once it has read its options. -/

namespace RS

open CMem

def LambdaKind.ofType (type : RsLambdaType) : Option LambdaKind :=
  if type = RS_LAMBDA_INT then some .int
  else if type = RS_LAMBDA_DOUBLE then some .double
  else if type = RS_LAMBDA_STRING then some .string
  else none

namespace Board

def Called.map {β γ : Type} (f : β → γ) (c : Called β) : Called γ :=
  ⟨c.code, c.result.map f, c.invoked⟩

/-- `call_lambda_int`, `call_lambda_double` or `call_lambda_string`. -/
def call (ev : Evaluators) (b : Board) (kind : LambdaKind) (id : LambdaId) :
    Option (Called Result) :=
  match kind with
  | .int => (callLambdaInt ev b id).map (Called.map .int)
  | .double => (callLambdaDouble ev b id).map (Called.map .double)
  | .string => (callLambdaString ev b id).map (Called.map .string)

/-- `call_lambda_*_by_name` -/
def callByName (ev : Evaluators) (b : Board) (kind : LambdaKind) (name : List UInt8) :
    Option (Called Result) :=
  match getRegisteredLambdaByName b.registry name with
  | none => some ⟨RS_CALL_NOTFOUND, none, none⟩
  | some lambda => b.call ev kind lambda.id

/-- What the option loops of `handle_call_name` and `handle_call_id` leave in `type`,
`name` and `id`. -/
structure CoapQuery where
  type : RsLambdaType := 0
  name : List UInt8 := [0]
  id : LambdaId := 255

/-- The answer of the CoAP server, before it is printed. -/
inductive CoapAnswer where
  | badRequest (text : String)
  | success (lambda : RsRegisteredLambda FuncPtr) (result : Result)
  | failure (lambda : RsRegisteredLambda FuncPtr) (code : Int8)
  | unknownName (name : List UInt8) (code : Int8)
  | unknownId (id : LambdaId) (code : Int8)

/-- `none`: a lambda without a function is called. -/
def performCoapLambdaCall (ev : Evaluators) (b : Board) (type : RsLambdaType)
    (lambda : RsRegisteredLambda FuncPtr) : Option CoapAnswer :=
  match LambdaKind.ofType type with
  | none => some (.failure lambda RS_CALL_WRONGTYPE)
  | some kind => (b.call ev kind lambda.id).map fun called =>
    match called.result with
    | some result => .success lambda result
    | none => .failure lambda called.code

def handleCallName (ev : Evaluators) (b : Board) (query : CoapQuery) : Option CoapAnswer :=
  if query.type = 255 ∨ query.type = 0 then some (.badRequest "Unknown/missing lambda type")
  else if strlen query.name = 0 then some (.badRequest "Wrong/missing lambda name")
  else
    match getRegisteredLambdaByName b.registry query.name with
    | none => some (.unknownName query.name RS_CALL_NOTFOUND)
    | some lambda => performCoapLambdaCall ev b query.type lambda

def handleCallId (ev : Evaluators) (b : Board) (query : CoapQuery) : Option CoapAnswer :=
  if query.type = 255 ∨ query.type = 0 then some (.badRequest "Unknown/missing lambda type")
  else if query.id = 255 then some (.badRequest "Wrong/missing lambda id")
  else
    match getRegisteredLambdaById b.registry query.id with
    | none => some (.unknownId query.id RS_CALL_NOTFOUND)
    | some lambda => performCoapLambdaCall ev b query.type lambda

/-- What a received packet asks the board to evaluate: the same tests of tag and size as
in the handler. A name is the memory from the name field on. -/
def readCall (env : Env) (packet : Packet) : Option (Target × RsLambdaType) :=
  if packet.length < 1 then none
  else if byteAt packet PTYPE = RS_PACKET_CALL_BY_ID then
    if packet.length ≠ SIZEOF_RS_PACKET_CALL_BY_ID then none
    else some (.id (byteAt packet LAMBDA_ID), byteAt packet EXPECTED_TYPE)
  else if byteAt packet PTYPE = RS_PACKET_CALL_BY_NAME then
    if packet.length ≠ SIZEOF_RS_PACKET_CALL_BY_NAME then none
    else some (.name (packet.drop NAME ++ env.beyond), byteAt packet LTYPE)
  else none

/-- The lambda that a call packet is for: by name, unless the lookup gives the sentinel. -/
def resolve (b : Board) : Target → Option LambdaId
  | .id id => some id
  | .name name => if getLambdaIdFromName b name = 255 then none else getLambdaIdFromName b name

end Board

/-- A request that may make the board evaluate a lambda. -/
inductive CallRequest where
  | packet (env : Env) (received : Packet)
  | api (kind : LambdaKind) (id : LambdaId)
  | apiByName (kind : LambdaKind) (name : List UInt8)
  | coapName (query : Board.CoapQuery)
  | coapId (query : Board.CoapQuery)

/-- What a request asks for, where it is not refused on the face of it. -/
def CallRequest.asks : CallRequest → Option (Target × RsLambdaType)
  | .packet env received => Board.readCall env received
  | .api kind id => some (.id id, kind.type)
  | .apiByName kind name => some (.name name, kind.type)
  | .coapName query =>
    if query.type = 255 ∨ query.type = 0 ∨ strlen query.name = 0 then none
    else some (.name query.name, query.type)
  | .coapId query =>
    if query.type = 255 ∨ query.type = 0 ∨ query.id = 255 then none
    else some (.id query.id, query.type)

namespace Board

/-- The `call_lambda_*` that a request leads to. -/
def callFor (b : Board) (request : CallRequest) : Option (LambdaKind × LambdaId) := do
  let (target, type) ← request.asks
  let kind ← LambdaKind.ofType type
  let id ← b.resolve target
  return (kind, id)

/-- The request makes the board call a function pointer that is `NULL`. -/
def CallsNull (ev : Evaluators) (b : Board) (request : CallRequest) : Prop :=
  ∃ kind id, b.callFor request = some (kind, id) ∧ b.call ev kind id = none

/-- The board after operations with what they found in memory; `none` after undefined
behaviour. -/
def after (started : Bool) (ops : List (Env × BoardOp)) : Option Board :=
  Runs.run (fun b op => b.bind fun b => (b.operate op.1 op.2).map Prod.fst)
    (some ⟨Registry.empty, started⟩) ops

end Board

end RS
