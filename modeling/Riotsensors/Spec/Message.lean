import Riotsensors.Spec.Connector

/-! The packets that Linux's handler receives, as the messages they stand for: the
same tests of tag and size as in the handler, without the effects. -/

namespace RS

open CMem

/-- What a received packet asks for. A name is the memory from the name field on. -/
inductive Message where
  | registered (name : List UInt8) (type : RsLambdaType) (cache : RsCacheType)
  | unregistered (id : LambdaId)
  | result (id : LambdaId) (ret : GenericLambdaReturn) (frees : Bool)
  | error (id : LambdaId) (code : Int8)
  /-- unknown tag or wrong size -/
  | ignored

/-- The lambda that a message is for, by its id. -/
def Message.target : Message → Option LambdaId
  | .unregistered id => some id
  | .result id _ _ => some id
  | .error id _ => some id
  | _ => none

namespace Linux

def readPacket (o : ByteOrder) (env : Env) (packet : Packet) : Message :=
  if packet.length < 1 then .ignored
  else if byteAt packet PTYPE = RS_PACKET_REGISTERED then
    if packet.length ≠ SIZEOF_RS_PACKET_REGISTERED then .ignored
    else .registered (packet.drop NAME ++ env.beyond) (byteAt packet LTYPE) (byteAt packet CACHE)
  else if byteAt packet PTYPE = RS_PACKET_UNREGISTERED then
    if packet.length ≠ SIZEOF_RS_PACKET_UNREGISTERED then .ignored
    else .unregistered (byteAt packet LAMBDA_ID)
  else if byteAt packet PTYPE = RS_PACKET_RESULT_INT then
    if packet.length ≠ SIZEOF_RS_PACKET_LAMBDA_RESULT_INT then .ignored
    else .result (byteAt packet LAMBDA_ID) (.retI (getInt o packet RESULT)) false
  else if byteAt packet PTYPE = RS_PACKET_RESULT_DOUBLE then
    if packet.length ≠ SIZEOF_RS_PACKET_LAMBDA_RESULT_DOUBLE then .ignored
    else
      let mypkt := ntohRsPacketLambdaResultDouble o env.undef packet
      .result (byteAt mypkt LAMBDA_ID) (.retD (getDouble o mypkt RESULT)) false
  else if byteAt packet PTYPE = RS_PACKET_RESULT_STRING then
    if packet.length < SIZEOF_RS_PACKET_LAMBDA_RESULT_STRING then .ignored
    else
      let mypkt := ntohRsPacketLambdaResultString o packet
      .result (byteAt mypkt LAMBDA_ID) (.retS (resultBlock o env mypkt)) true
  else if byteAt packet PTYPE = RS_PACKET_RESULT_ERROR then
    if packet.length ≠ SIZEOF_RS_PACKET_LAMBDA_RESULT_ERROR then .ignored
    else .error (byteAt packet LAMBDA_ID) (byteAt packet RESULT).toInt8
  else .ignored

end Linux

end RS
