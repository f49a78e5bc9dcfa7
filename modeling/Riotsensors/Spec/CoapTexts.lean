import Riotsensors.Lib.Loops
import Riotsensors.Lib.Printf
import Riotsensors.Spec.FrontEnds

/-! The JSON texts that the board's CoAP server prints (`rs_coap_server.c`). The format macros
for eight and 32 bits are `u` and `d`. -/

namespace RS.Board

open CMem Loops Printf

variable {m : DataModel}

/-- `MAX_RESPONSE_LEN` -/
abbrev MAX_RESPONSE_LEN : ℕ := 500

/-- `sizeof(buf)` -/
abbrev BUF_SIZE : ℕ := 200

/-! ## The listing -/

/-- `rsp`, `buf`, `len` and `count` of `handle_list`. `wrapped` is not in the code: it records
that a subtraction from `len` went below zero. -/
structure ListState where
  rsp : List UInt8
  buf : List UInt8
  len : ℕ
  count : LambdaId := 0
  wrapped : Bool := false

/-- `sprintf(buf, …); strncat(rsp, buf, len); len -= strlen(buf)`, with a `size_t` for `len`.
`none`: a byte is written outside an array. -/
def ListState.append (m : DataModel) (s : ListState) (format : List UInt8) (args : List Arg) :
    Option ListState := do
  let buf ← sprintf s.buf format args
  let rsp ← strncat s.rsp buf s.len
  return { s with
    rsp, buf
    len := if strlen buf ≤ s.len then s.len - strlen buf else s.len + 2 ^ m.sizeBits - strlen buf
    wrapped := s.wrapped || s.len < strlen buf }

def listEntryFormat : List UInt8 :=
  ascii "\"%u\": \x7b\"id\": %u,\"name\":\"%s\",\"type\":%u,\"cache\":%u\x7d"

def listEntryArgs (lambda : RsRegisteredLambda FuncPtr) : List Arg :=
  [.unsigned lambda.id.toNat, .unsigned lambda.id.toNat, .string lambda.nameMem,
    .unsigned lambda.type.toNat, .unsigned lambda.cache.toNat]

def listRound (m : DataModel) (r : Registry FuncPtr) (type : RsLambdaType) (i : LambdaId)
    (s : ListState) : Option ListState :=
  match getRegisteredLambdaById r i with
  | none => some s
  | some lambda =>
    if type ≠ 0 ∧ lambda.type ≠ type then some s
    else ({ s with count := s.count + 1 }).append m listEntryFormat (listEntryArgs lambda)

def listTailFormat : List UInt8 := ascii "\x7d,\"count\":%u\x7d"

/-- The `else` branch of `handle_list`, from the `memset` to the response. `junk` is what `buf`
holds from the last time. -/
def listText (m : DataModel) (r : Registry FuncPtr) (type : RsLambdaType) (junk : List UInt8) :
    Option ListState := do
  let rsp ← strncat (List.replicate MAX_RESPONSE_LEN 0) (ascii "\x7b\"lambdas\":\x7b")
    MAX_RESPONSE_LEN
  let s ← forBelow (getNumberOfRegisteredLambdas r) (listRound m r type) 0
    { rsp, buf := uninit BUF_SIZE junk, len := MAX_RESPONSE_LEN - 12 }
  s.append m listTailFormat [.unsigned s.count.toNat]

/-- `handle_list`: the payload of the response. -/
def handleList (m : DataModel) (b : Board) (junk : List UInt8) (opts : List (CoapOption m)) :
    Option (List UInt8) := do
  let type ← listType opts
  if type = 255 then return ascii "Unknown lambda type" ++ [0]
  else
    let s ← listText m b.registry type junk
    return cstr s.rsp

/-! ## The calls -/

/-- The `lambda` in the texts about a record. -/
def lambdaFormat : List UInt8 :=
  ascii "\"lambda\":\x7b\"id\":%u,\"name\":\"%s\",\"type\":%u,\"cache\":%u\x7d"

def lambdaArgs (lambda : RsRegisteredLambda FuncPtr) : List Arg :=
  [.unsigned lambda.id.toNat, .string lambda.nameMem, .unsigned lambda.type.toNat,
    .unsigned lambda.cache.toNat]

/-- What `sprintf` is called with for an answer. `none`: nothing is printed. -/
def CoapAnswer.print : CoapAnswer → Option (List UInt8 × List Arg)
  | .badRequest _ => none
  | .success lambda result =>
    let (directive, arg) : String × Arg :=
      match result with
      | .int i => ("%d", .signed i.toInt)
      | .double d => ("%f", .double d)
      | .string mem => ("\"%s\"", .string mem)
    some (ascii "\x7b\"success\": true," ++ lambdaFormat ++ ascii ",\"result\":" ++
      ascii directive ++ ascii "\x7d", lambdaArgs lambda ++ [arg])
  | .failure lambda code =>
    some (ascii "\x7b\"success\": false," ++ lambdaFormat ++ ascii ",\"error\":%d\x7d",
      lambdaArgs lambda ++ [.signed code.toInt])
  | .unknownName name code =>
    some (ascii "\x7b\"success\": false,\"lambda\":\x7b\"id\":-1,\"name\":\"%s\"," ++
      ascii "\"type\":-1,\"cache\":-1\x7d,\"error\":%d\x7d", [.string name, .signed code.toInt])
  | .unknownId id code =>
    some (ascii "\x7b\"success\": false,\"lambda\":\x7b\"id\":%d,\"name\":\"unknown\"," ++
      ascii "\"type\":-1,\"cache\":-1\x7d,\"error\":%d\x7d",
      [.signed id.toNat, .signed code.toInt])

/-- The payload of the response. `none`: the text leaves `buf`. -/
def CoapAnswer.payload (junk : List UInt8) : CoapAnswer → Option (List UInt8)
  | .badRequest text => some (ascii text ++ [0])
  | answer => answer.print.bind fun (format, args) =>
    (sprintf (uninit BUF_SIZE junk) format args).map cstr

/-- `handle_call_name`: what the arrays `name` and `buf` hold before. -/
def respondCallName (ev : Evaluators) (b : Board) (name buf : List UInt8)
    (opts : List (CoapOption m)) : Option (List UInt8) := do
  let query ← callNameQuery name opts
  let answer ← handleCallName ev b query
  answer.payload buf

/-- `handle_call_id` -/
def respondCallId (ev : Evaluators) (b : Board) (buf : List UInt8) (opts : List (CoapOption m)) :
    Option (List UInt8) := do
  let query ← callIdQuery opts
  let answer ← handleCallId ev b query
  answer.payload buf

end RS.Board
