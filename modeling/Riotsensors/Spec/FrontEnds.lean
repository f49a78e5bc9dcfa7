import Riotsensors.Spec.Options
import Riotsensors.Spec.Requests
import Riotsensors.Spec.Rest

/-! The three front ends: the board's CoAP server up to the parsed query
(`rs_coap_server.c`), and the CoAP and HTTP servers on Linux (`rs_server_coap.cpp`,
`rs_server_http.cpp`). -/

namespace RS

open CMem Numerals

variable {m : DataModel}

/-! ## The board -/

namespace Board

/-- `key` and `value` of one option. `none`: the value's length has wrapped, `value` does
not fit the stack and its bytes are not in memory. -/
def readOption (opt : CoapOption m) : Option (List UInt8 × List UInt8) :=
  let kv := initializeCoapKeyValueFromOpt opt
  if kv.valLen = 0 ∨ kv.keyLen + 1 + kv.valLen ≤ opt.p.length then some (kv.key, kv.value)
  else none

/-- The option loop of `handle_list`, which ends at the first `type`. -/
def listType : List (CoapOption m) → Option RsLambdaType
  | [] => some 0
  | opt :: opts =>
    match readOption opt with
    | none => none
    | some (key, value) =>
      if strEq key (ascii "type") then some (getLambdaTypeFromString m value) else listType opts

/-- One round of the option loop of `handle_call_name`. `none`: the name leaves its array. -/
def callNameRound (query : CoapQuery) (opt : CoapOption m) : Option CoapQuery :=
  match readOption opt with
  | none => none
  | some (key, value) =>
    if strEq key (ascii "type") then some { query with type := getLambdaTypeFromString m value }
    else if strEq key (ascii "name") then
      (strcpy query.name 0 value).map fun name => { query with name }
    else some query

/-- `name[0] = '\0'` in an array of `MAX_LAMBDA_NAME_LENGTH` bytes. -/
def callNameStart (junk : List UInt8) : CoapQuery :=
  { name := 0 :: uninit (MAX_LAMBDA_NAME_LENGTH - 1) junk }

def callNameQuery (junk : List UInt8) (opts : List (CoapOption m)) : Option CoapQuery :=
  opts.foldlM callNameRound (callNameStart junk)

/-- One round of the option loop of `handle_call_id`. -/
def callIdRound (query : CoapQuery) (opt : CoapOption m) : Option CoapQuery :=
  match readOption opt with
  | none => none
  | some (key, value) =>
    if strEq key (ascii "type") then some { query with type := getLambdaTypeFromString m value }
    else if strEq key (ascii "id") then
      let (num, endparsed) := strtol m.longBits value
      if endparsed = strlen value then some { query with id := UInt8.ofInt num } else some query
    else some query

def callIdQuery (opts : List (CoapOption m)) : Option CoapQuery := opts.foldlM callIdRound {}

end Board

/-! ## Linux -/

/-- What a handler asks of `RiotsensorsRESTHandler`. -/
inductive RestRequest where
  | call (c : Call)
  | list (type : RsLambdaType)
  | cache (type : RsLambdaType)

namespace Linux

/-- `RiotsensorsRESTHandler`. `none`: the call or its answer runs into undefined behaviour. -/
def restHandler (o : ByteOrder) (env : Env) (s : Linux) (w : Wait) :
    RestRequest → Option (HttpCode × Body)
  | .call c => (call o env s c w).bind fun out =>
      handleCallReturned out.state c out.code out.written
  | .list type => handleList s type
  | .cache type => handleCache s type

/-- The packets that a request makes the server send to the board. -/
def packetsFor (o : ByteOrder) (env : Env) (s : Linux) (w : Wait) : RestRequest → List Packet
  | .call c => ((call o env s c w).map CallOutcome.sent).getD []
  | .list _ => []
  | .cache _ => []

end Linux

namespace CoapProvider

/-- A refusal with its text, or the answer of the REST handler. -/
inductive Reply where
  | badRequest (text : String)
  | rest (request : RestRequest)

/-- The variables of the option loop in `handleCallById`. -/
structure ById where
  typeFound : Bool := false
  idFound : Bool := false
  type : RsLambdaType := 0
  id : LambdaId := 0

/-- The callback for `id`: only `std::invalid_argument` is caught. -/
def parseId (value : List UInt8) : Except Exception LambdaId :=
  match stoi value with
  | .ok n => .ok (UInt8.ofInt n)
  | .error .invalidArgument => .ok 255
  | .error .outOfRange => .error .outOfRange

def callByIdRound (m : DataModel) (s : ById) (q : List UInt8) : Except Exception ById :=
  tryMatchCoapOptAndExecute (ascii "type") q
    (fun value => .ok { s with type := getLambdaTypeFromString m value, typeFound := true })
    (tryMatchCoapOptAndExecute (ascii "id") q
      (fun value => (parseId value).map fun id => { s with id, idFound := true })
      (.ok s))

def answerCallById (s : ById) : Reply :=
  if ¬ s.idFound then .badRequest "Missing id query parameter"
  else if ¬ s.typeFound then .badRequest "Missing type query parameter"
  else if s.id = 255 then .badRequest "Illegal id parameter"
  else if s.type = 255 then .badRequest "Illegal type parameter"
  else .rest (.call (.byId s.id s.type))

def handleCallById (m : DataModel) (request : List (List UInt8)) : Except Exception Reply :=
  (request.foldlM (callByIdRound m) {}).map answerCallById

/-- The variables of the option loop in `handleCallByName`. -/
structure ByName where
  typeFound : Bool := false
  nameFound : Bool := false
  type : RsLambdaType := 0
  name : List UInt8 := []

def callByNameRound (m : DataModel) (s : ByName) (q : List UInt8) : Except Exception ByName :=
  tryMatchCoapOptAndExecute (ascii "type") q
    (fun value => .ok { s with type := getLambdaTypeFromString m value, typeFound := true })
    (tryMatchCoapOptAndExecute (ascii "name") q
      (fun value => .ok { s with name := value, nameFound := true })
      (.ok s))

def answerCallByName (s : ByName) : Reply :=
  if ¬ s.nameFound then .badRequest "Missing name query parameter"
  else if ¬ s.typeFound then .badRequest "Missing type query parameter"
  else if s.name.length = 0 then .badRequest "Illegal name parameter"
  else if s.type = 255 then .badRequest "Illegal type parameter"
  else .rest (.call (.byName s.name s.type))

def handleCallByName (m : DataModel) (request : List (List UInt8)) : Except Exception Reply :=
  (request.foldlM (callByNameRound m) {}).map answerCallByName

def handleList (m : DataModel) (request : List (List UInt8)) : Except Exception Reply :=
  (coapParseType m request).map fun type =>
    if type = 255 then .badRequest "Unknown lambda type" else .rest (.list type)

def handleCache (m : DataModel) (request : List (List UInt8)) : Except Exception Reply :=
  (coapParseType m request).map fun type =>
    if type = 255 then .badRequest "Unknown lambda type" else .rest (.cache type)

end CoapProvider

namespace HttpProvider

inductive Response where
  | badRequest (text : String)
  | answer (code : HttpCode) (body : Body)

inductive Ending where
  | returned
  /-- an exception left the handler -/
  | threw
  /-- The REST handler ran into undefined behaviour. -/
  | undefined
  deriving DecidableEq

/-- What one run of a handler sends and asks of the REST handler. -/
structure Run where
  sent : List Response
  asked : List RestRequest
  ending : Ending

/-- The last lines of every handler: the REST handler's answer is sent. -/
def answerWith (rest : RestRequest → Option (HttpCode × Body)) (sent : List Response)
    (request : RestRequest) : Run :=
  match rest request with
  | some (code, body) => ⟨sent ++ [.answer code body], [request], .returned⟩
  | none => ⟨sent, [request], .undefined⟩

/-- The first test of the two call handlers, which does not return. -/
def refuseType (type : RsLambdaType) : List Response :=
  if type = 255 then [.badRequest "Unknown lambda type\n"] else []

/-- `asInt` is the conversion of a parameter to `int`; `none`: it throws. -/
def handleCallById (m : DataModel) (asInt : List UInt8 → Option ℤ)
    (rest : RestRequest → Option (HttpCode × Body)) (typeParam idParam : List UInt8) : Run :=
  let type := getLambdaTypeFromString m typeParam
  match asInt idParam with
  | none => ⟨refuseType type, [], .threw⟩
  | some intId =>
    let refused := if intId < 0 then [.badRequest "Bad lambda id\n"] else []
    answerWith rest (refuseType type ++ refused) (.call (.byId (UInt8.ofInt intId) type))

def handleCallByName (m : DataModel) (rest : RestRequest → Option (HttpCode × Body))
    (typeParam name : List UInt8) : Run :=
  let type := getLambdaTypeFromString m typeParam
  answerWith rest (refuseType type) (.call (.byName name type))

/-- The common body of the two listings: `type` is optional in the query. -/
def handleListing (m : DataModel) (rest : RestRequest → Option (HttpCode × Body))
    (request : RsLambdaType → RestRequest) : Option (List UInt8) → Run
  | none => answerWith rest [] (request 0)
  | some typeParam =>
    let type := getLambdaTypeFromString m typeParam
    if type = 255 then ⟨[.badRequest "Unknown lambda type\n"], [], .returned⟩
    else answerWith rest [] (request type)

def handleList (m : DataModel) (rest : RestRequest → Option (HttpCode × Body))
    (typeParam : Option (List UInt8)) : Run :=
  handleListing m rest .list typeParam

def handleCache (m : DataModel) (rest : RestRequest → Option (HttpCode × Body))
    (typeParam : Option (List UInt8)) : Run :=
  handleListing m rest .cache typeParam

end HttpProvider

end RS
