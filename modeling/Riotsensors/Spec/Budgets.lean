import Riotsensors.Lib.Loops
import Riotsensors.Spec.Board

/-! The double conversions and the functions that call them, with a budget for their loops.
`none`: the budget has run out. -/

namespace RS

open Binary64 CMem Loops

/-- `pkt->result = pack754_64(pkt->result)` -/
def packResultFuel (fuel : ℕ) (d : RsDouble) : Option RsDouble :=
  (pack754Fuel fuel (decode d) 64 11).map doubleOfUInt64

def htonRsPacketLambdaResultDoubleFuel (fuel : ℕ) (o : ByteOrder) (pkt : Packet) : Option Packet :=
  let pkt := htonRsPacketLambdaResult pkt
  (packResultFuel fuel (getDouble o pkt RESULT)).map fun d =>
    setField pkt RESULT (o.write 8 d.toNat)

/-- The exponent of `unpack754`. The bias is taken off in 64 unsigned bits, the difference is
assigned to a `long long`. -/
def unpackShift (i : UInt64) (bits expbits : ℕ) : ℤ :=
  let significandbits := bits - expbits - 1
  let bias := UInt64.ofNat (2 ^ (expbits - 1) - 1)
  (((i >>> UInt64.ofNat significandbits) &&& UInt64.ofNat (2 ^ expbits - 1)) - bias).toInt64.toInt

/-- `while (shift > 0)` -/
def scaleUpFuel (fuel : ℕ) : LongDouble × ℤ → Option (LongDouble × ℤ) :=
  whileWithin (fun s => 0 < s.2) (fun s => (s.1.double, s.2 - 1)) fuel

/-- `while (shift < 0)` -/
def scaleDownFuel (fuel : ℕ) : LongDouble × ℤ → Option (LongDouble × ℤ) :=
  whileWithin (fun s => s.2 < 0) (fun s => (s.1.half, s.2 + 1)) fuel

/-- `unpack754` with a budget for each of its loops. -/
def unpack754Fuel (fuel : ℕ) (i : UInt64) (bits expbits : ℕ) : Option LongDouble :=
  if i = 0 then some (.fin 0)
  else do
    let significandbits := bits - expbits - 1
    let result : ℚ := (i.toNat &&& (2 ^ significandbits - 1) : ℕ) / 2 ^ significandbits + 1
    let scaled ← scaleUpFuel fuel (.fin result, unpackShift i bits expbits)
    let (result, _) ← scaleDownFuel fuel scaled
    return if (i.toNat >>> (bits - 1)) &&& 1 = 1 then result.neg else result

/-- `pkt->result = (rs_double_t) unpack754_64((uint64_t) pkt->result)` -/
def unpackResultFuel (fuel : ℕ) (undef : UInt64) (d : RsDouble) : Option RsDouble :=
  (unpack754Fuel fuel (uint64OfDouble undef d) 64 11).map encode

def ntohRsPacketLambdaResultDoubleFuel (fuel : ℕ) (o : ByteOrder) (undef : UInt64)
    (pkt : Packet) : Option Packet :=
  let pkt := ntohRsPacketLambdaResult pkt
  (unpackResultFuel fuel undef (getDouble o pkt RESULT)).map fun d =>
    setField pkt RESULT (o.write 8 d.toNat)

namespace Board

/-- The packet object of `send_result_lambda_double` before its conversion. `none`: the name
leaves it. -/
def resultDoubleObject (o : ByteOrder) (env : Env) (lambda : RsRegisteredLambda FuncPtr)
    (result : RsDouble) : Option Packet := do
  let pkt := uninit SIZEOF_RS_PACKET_LAMBDA_RESULT_DOUBLE env.object
  let pkt ← poke pkt PTYPE [RS_PACKET_RESULT_DOUBLE]
  let pkt ← populateResultbaseFromLambda pkt lambda
  poke pkt RESULT (o.write 8 result.toNat)

/-- `send_result_lambda_double` with a budget. `some none`: undefined behaviour. -/
def sendResultLambdaDoubleFuel (fuel : ℕ) (o : ByteOrder) (env : Env) (b : Board) (id : LambdaId)
    (result : RsDouble) : Option (Option (Int8 × List Packet)) :=
  match getRegisteredLambdaById b.registry id with
  | none => some (some (RS_RESULT_NOTFOUND, []))
  | some lambda =>
    if lambda.type ≠ RS_LAMBDA_DOUBLE then some (some (RS_RESULT_WRONGTYPE, []))
    else if b.rsSptStarted then
      match resultDoubleObject o env lambda result with
      | none => some none
      | some pkt =>
        (htonRsPacketLambdaResultDoubleFuel fuel o pkt).map fun pkt =>
          some (RS_RESULT_SUCCESS, [pkt])
    else some (some (RS_RESULT_SUCCESS, []))

end Board

end RS
