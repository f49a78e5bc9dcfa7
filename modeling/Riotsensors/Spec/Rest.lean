import Riotsensors.Lib.Json
import Riotsensors.Lib.Loops
import Riotsensors.Spec.Client

/-! The REST answers (`rs_rest.cpp`, with the handlers of `rs_server.cpp` that ask for
them), as the calls of the JSON writer. -/

namespace RS

open CMem Json Loops

/-- A scalar that the JSON writer is given. -/
inductive Scalar where
  | int (i : RsInt)
  | double (d : RsDouble)
  | string (s : List UInt8)
  deriving DecidableEq

/-- The scalars that `print_result` writes for a lambda of the given type. `none`: it
reads a member of the union other than the one last written. -/
def printResult (type : RsLambdaType) (result : GenericLambdaReturn) : Option (List Scalar) :=
  if type = RS_LAMBDA_INT then
    match result with
    | .retI i => some [.int i]
    | _ => none
  else if type = RS_LAMBDA_DOUBLE then
    match result with
    | .retD d => some [.double d]
    | _ => none
  else if type = RS_LAMBDA_STRING then
    match result with
    | .retS block => some [.string (cstr block)]
    | _ => none
  else some []

/-- What stands at a value's place in an answer. -/
inductive JsonScalar where
  | int (i : ℤ)
  | bool (b : Bool)
  /-- a string of the source -/
  | text (s : String)
  /-- a string in memory -/
  | cstring (s : List UInt8)
  | result (v : Scalar)
  /-- a number read from another member of the union than the one last written -/
  | unspecified
  deriving DecidableEq

abbrev Body := List (Token JsonScalar)

/-- An entry of a static table. `none`: NULL. -/
def stringAt (strings : List (Option String)) (i : ℕ) : Option String := strings[i]?.join

def stringifyRsLambdaType (c : RsLambdaType) : Option String :=
  if c < 1 ∨ 3 < c then none
  else stringAt [none, "RS_LAMBDA_INT", "RS_LAMBDA_DOUBLE", "RS_LAMBDA_STRING"] c.toNat

def stringifyRsCacheType (c : RsCacheType) : Option String :=
  if c < 1 ∨ 4 < c then none
  else stringAt [none, "RS_CACHE_NO_CACHE", "RS_CACHE_CALL_ONCE", "RS_CACHE_ONLY",
    "RS_CACHE_ON_TIMEOUT"] c.toNat

def stringifyRsCallResult (c : Int8) : Option String :=
  if c < -5 ∨ 2 < c then none
  else stringAt ["RS_CALL_CACHE_TIMEOUT_EMPTY", "RS_CALL_CACHE_EMPTY", "RS_CALL_TIMEOUT",
    "RS_CALL_WRONGTYPE", "RS_CALL_NOTFOUND", "RS_CALL_SUCCESS", "RS_CALL_CACHE",
    "RS_CALL_CACHE_TIMEOUT"] (c.toInt + 5).toNat

/-- `print_result`, whatever the union holds. `none`: it takes something else for the
pointer to a string. A call of the writer counts as a value, although the writer prints nothing
for an infinity and for NaN. -/
def writeResult (type : RsLambdaType) (result : GenericLambdaReturn) : Option Body :=
  match printResult type result with
  | some scalars => some (scalars.map fun v => .value (.result v))
  | none => if type = RS_LAMBDA_STRING then none else some [.value .unspecified]

def printLambdaProperties (lambda : RsRegisteredLambda ArgPtr) : Option Body := do
  let type ← stringifyRsLambdaType lambda.type
  let cache ← stringifyRsCacheType lambda.cache
  return [.startObject,
    .key "id", .value (.int lambda.id.toNat),
    .key "name", .value (.cstring lambda.text),
    .key "type", .startObject,
      .key "code", .value (.int lambda.type.toNat),
      .key "string", .value (.text type), .endObject,
    .key "cache", .startObject,
      .key "policy", .value (.int lambda.cache.toNat),
      .key "string", .value (.text cache), .endObject,
    .endObject]

def printLambdaTypeNCacheUnknown : Body :=
  [.key "type", .startObject,
    .key "code", .value (.int (-1)),
    .key "string", .value (.text "unknown"), .endObject,
  .key "cache", .startObject,
    .key "policy", .value (.int (-1)),
    .key "string", .value (.text "unknown"), .endObject]

def printCacheContent (s : Linux) (lambda : RsRegisteredLambda ArgPtr) : Option Body := do
  let arg := s.heap lambda.arg
  let cached ←
    if arg.dataCached then (writeResult lambda.type arg.ret).map (.key "cached_result" :: ·)
    else some []
  return [.startObject, .key "cache_available", .value (.bool arg.dataCached)] ++ cached ++
    [.endObject]

/-- A NULL `lambda` is dereferenced. -/
def assembleCallSuccessRest (lambda : Option (RsRegisteredLambda ArgPtr))
    (cacheRetrieved timeout : Bool) (result : GenericLambdaReturn) : Option Body := do
  let lambda ← lambda
  let properties ← printLambdaProperties lambda
  let value ← writeResult lambda.type result
  return [.startObject, .key "success", .value (.bool true), .key "lambda"] ++ properties ++
    [.key "cache", .startObject,
      .key "retrieved", .value (.bool cacheRetrieved),
      .key "timeout", .value (.bool timeout), .endObject,
    .key "result"] ++ value ++ [.endObject]

/-- The lambda in an error answer. `id` and `name` stand for an unknown one. -/
def printLambdaOrUnknown (id : ℤ) (name : JsonScalar) :
    Option (RsRegisteredLambda ArgPtr) → Option Body
  | some lambda => printLambdaProperties lambda
  | none => some ([.startObject, .key "id", .value (.int id), .key "name", .value name] ++
      printLambdaTypeNCacheUnknown ++ [.endObject])

/-- The common body of the two error answers. -/
def assembleCallErrorRest (id : ℤ) (name : JsonScalar)
    (lambda : Option (RsRegisteredLambda ArgPtr)) (error : Int8) : Option Body := do
  let properties ← printLambdaOrUnknown id name lambda
  let string ← stringifyRsCallResult error
  return [.startObject, .key "success", .value (.bool false), .key "lambda"] ++ properties ++
    [.key "error", .startObject,
      .key "code", .value (.int error.toInt),
      .key "string", .value (.text string), .endObject,
    .endObject]

def assembleCallErrorRestId (id : LambdaId) (lambda : Option (RsRegisteredLambda ArgPtr))
    (error : Int8) : Option Body :=
  assembleCallErrorRest id.toNat (.text "unknown") lambda error

def assembleCallErrorRestName (name : List UInt8) (lambda : Option (RsRegisteredLambda ArgPtr))
    (error : Int8) : Option Body :=
  assembleCallErrorRest (-1) (.cstring (cstr name)) lambda error

/-! ## Listings -/

/-- One round of the loop over the registry: the members written so far and `count`. -/
def listRound (s : Linux) (keep : RsRegisteredLambda ArgPtr → Bool)
    (print : RsRegisteredLambda ArgPtr → Option Body) (i : LambdaId) :
    Body × LambdaId → Option (Body × LambdaId)
  | (members, count) =>
    match getRegisteredLambdaById s.registry i with
    | none => some (members, count)
    | some lambda =>
      if keep lambda then do
        let value ← print lambda
        return (members ++ .key (toString lambda.id.toNat) :: value, count + 1)
      else some (members, count)

/-- The common body of the listings. `keep` is the test before the `continue`. -/
def assembleRest (s : Linux) (keep : RsRegisteredLambda ArgPtr → Bool)
    (print : RsRegisteredLambda ArgPtr → Option Body) : Option Body := do
  let (members, count) ←
    forBelow (getNumberOfRegisteredLambdas s.registry) (listRound s keep print) 0 ([], 0)
  return [.startObject, .key "lambdas", .startObject] ++ members ++
    [.endObject, .key "count", .value (.int count.toNat), .endObject]

def printCacheEntry (s : Linux) (lambda : RsRegisteredLambda ArgPtr) : Option Body := do
  let properties ← printLambdaProperties lambda
  let content ← printCacheContent s lambda
  return [.startObject, .key "lambda"] ++ properties ++ [.key "cache-content"] ++ content ++
    [.endObject]

def assembleListRest (s : Linux) : Option Body :=
  assembleRest s (fun _ => true) printLambdaProperties

def assembleListRestForType (s : Linux) (type : RsLambdaType) : Option Body :=
  assembleRest s (fun lambda => lambda.type == type) printLambdaProperties

def assembleCacheRest (s : Linux) : Option Body :=
  assembleRest s (fun _ => true) (printCacheEntry s)

def assembleCacheRestForType (s : Linux) (type : RsLambdaType) : Option Body :=
  assembleRest s (fun lambda => lambda.type == type) (printCacheEntry s)

/-! ## The handlers -/

inductive HttpCode where
  | ok
  | notFound
  deriving DecidableEq

/-- `none`: the answer cannot be assembled. -/
abbrev RestResponseInfo := Option (HttpCode × Body)

def handleList (s : Linux) (type : RsLambdaType) : RestResponseInfo :=
  if type = 0 then (assembleListRest s).map fun body => (.ok, body)
  else (assembleListRestForType s type).map fun body => (.ok, body)

def handleCache (s : Linux) (type : RsLambdaType) : RestResponseInfo :=
  if type = 0 then (assembleCacheRest s).map fun body => (.ok, body)
  else (assembleCacheRestForType s type).map fun body => (.ok, body)

/-- `handleCallById` and `handleCallByName` after the call: `code` is what it returned,
`written` what it stored in `result`, which starts as `generic_lambda_return result{}`. The
lambda is looked up again. -/
def handleCallReturned (s : Linux) (c : Call) (code : Int8)
    (written : Option GenericLambdaReturn) : RestResponseInfo :=
  let result := written.getD (.retI 0)
  let lambda := s.found c
  if code = RS_CALL_SUCCESS then
    (assembleCallSuccessRest lambda false false result).map fun body => (.ok, body)
  else if code = RS_CALL_CACHE then
    (assembleCallSuccessRest lambda true false result).map fun body => (.ok, body)
  else if code = RS_CALL_CACHE_TIMEOUT then
    (assembleCallSuccessRest lambda true true result).map fun body => (.ok, body)
  else
    match c with
    | .byId id _ => (assembleCallErrorRestId id lambda code).map fun body => (.notFound, body)
    | .byName name _ =>
      (assembleCallErrorRestName name lambda code).map fun body => (.notFound, body)

end RS
