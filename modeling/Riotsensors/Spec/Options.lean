import Riotsensors.Lib.Numerals
import Riotsensors.Spec.Constants

/-! Query options as the two CoAP servers read them: the board splits a slice of the
datagram buffer (`rs_coap_utils.c`, `rs_coap_server.c`), Linux a `std::string`
(`rs_server_coap.cpp`). -/

namespace RS

open CMem Numerals

/-- The widths of the C types that differ between the boards. -/
structure DataModel where
  sizeBits : ℕ
  longBits : ℕ
  long_ge : 32 ≤ longBits

/-- `'='` -/
abbrev EQUALS : UInt8 := 61

/-- A string literal of the source. -/
def ascii (s : String) : List UInt8 := s.toList.map fun c => UInt8.ofNat c.toNat

/-- `get_lambda_type_from_string` -/
def getLambdaTypeFromString (m : DataModel) (str : List UInt8) : RsLambdaType :=
  let (num, endparsed) := strtol m.longBits str
  if endparsed ≠ strlen str then 255
  else if num = RS_LAMBDA_INT.toNat then RS_LAMBDA_INT
  else if num = RS_LAMBDA_DOUBLE.toNat then RS_LAMBDA_DOUBLE
  else if num = RS_LAMBDA_STRING.toNat then RS_LAMBDA_STRING
  else 255

/-! ## The board -/

/-- `index_of` -/
def indexOf (string : List UInt8) (search : UInt8) : ℤ :=
  match strchr string search with
  | some offset => offset
  | none => -1

/-- An option as it is reported: `p` is the memory from `buf.p` on, of which the first
`len` bytes are the option. The others are the rest of the buffer and what lies behind it. -/
structure CoapOption (m : DataModel) where
  p : List UInt8
  len : ℕ
  inside : len ≤ p.length
  /-- Offsets are values of `ssize_t`. -/
  small : p.length < 2 ^ (m.sizeBits - 1)

/-- The option's own bytes. -/
def CoapOption.bytes {m : DataModel} (opt : CoapOption m) : List UInt8 := opt.p.take opt.len

/-- What the macro declares, without the NULs that it puts behind `key` and `value`. -/
structure KeyValue where
  keyLen : ℕ
  valLen : ℕ
  key : List UInt8
  value : List UInt8

/-- `INITIALIZE_COAP_KEY_VALUE_FROM_OPT`. The value's length is a difference of `size_t`s. -/
def initializeCoapKeyValueFromOpt {m : DataModel} (opt : CoapOption m) : KeyValue :=
  let splitAt := indexOf opt.p EQUALS
  let keyLen := if splitAt = -1 then opt.len else splitAt.toNat
  let valLen := if splitAt = -1 then 0 else ((opt.len - splitAt - 1) % 2 ^ m.sizeBits).toNat
  { keyLen, valLen, key := peek opt.p 0 keyLen, value := peek opt.p (keyLen + 1) valLen }

/-! ## Linux -/

/-- `std::string::substr(pos)` -/
def substr (s : List UInt8) (pos : ℕ) : Except Exception (List UInt8) :=
  if s.length < pos then .error .outOfRange else .ok (s.drop pos)

/-- `key_value` of `match_coap_opt_and_execute` -/
def keyValue (optValue : List UInt8) : List UInt8 :=
  match find optValue EQUALS with
  | some loc => optValue.take loc
  | none => optValue

/-- `match_coap_opt_and_execute`: what it passes to the callback, if it calls it. -/
def matchCoapOptAndExecute (name optValue : List UInt8) :
    Except Exception (Option (List UInt8)) :=
  if strEq name (keyValue optValue) then (substr optValue (name.length + 1)).map some else .ok none

/-- `try_match_coap_opt_and_execute`: `next` is the rest of the loop's body, which a match
leaves out. -/
def tryMatchCoapOptAndExecute {β : Type} (name q : List UInt8)
    (lambda : List UInt8 → Except Exception β) (next : Except Exception β) : Except Exception β :=
  match matchCoapOptAndExecute name q with
  | .error e => .error e
  | .ok (some argStr) => lambda argStr
  | .ok none => next

/-- One round of the loop in `coap_parse_type`. -/
def parseTypeRound (m : DataModel) (type : RsLambdaType) (q : List UInt8) :
    Except Exception RsLambdaType :=
  tryMatchCoapOptAndExecute (ascii "type") q (fun value => .ok (getLambdaTypeFromString m value))
    (.ok type)

/-- `coap_parse_type` -/
def coapParseType (m : DataModel) (request : List (List UInt8)) : Except Exception RsLambdaType :=
  request.foldlM (parseTypeRound m) 0

end RS
