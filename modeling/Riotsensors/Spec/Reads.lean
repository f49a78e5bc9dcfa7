import Riotsensors.Spec.Connector

/-! Linux's packet handler once more, with every read of packet content as an access that
fails outside its object: the received packet, the copy of it, the name field of that copy.
A local packet object is as large as its struct, so that its fields lie inside it. -/

namespace RS

open CMem

namespace Linux

/-- A handled packet, and the strings that it left in the registry or in a call state: the
bytes copied there. -/
structure Receipt where
  handled : Handled
  strings : List (List UInt8)

def Receipt.of (h : Handled) : Receipt := ⟨h, []⟩

/-- A registration with what was read from its packet. -/
def registerRead (env : Env) (s : Linux) (name : List UInt8) (ltype : RsLambdaType)
    (cache : RsCacheType) : Receipt :=
  let arg := s.brk
  let s := { s with brk := s.brk + 1 }
  let s := s.setArg arg { s.heap arg with dataCached := false }
  let (registry, _) := lambdaRegistryRegister env.heap s.registry name ltype cache arg
  let entered :=
    if registry.lambdaCounter = s.registry.lambdaCounter then none
    else registry.slot s.registry.lambdaCounter.toNat
  ⟨Handled.quiet { s with registry }, (entered.map RsRegisteredLambda.name).toList⟩

/-- The name is read by the registry and by the log line, accepted or not. -/
def handleRegisteredChecked (env : Env) (s : Linux) (mypkt : Packet) : Option Receipt := do
  let field ← fetch mypkt NAME MAX_LAMBDA_NAME_LENGTH
  let name ← textIn field
  let ltype ← load mypkt LTYPE
  let cache ← load mypkt CACHE
  return registerRead env s (name ++ [0]) ltype cache

/-- `mypkt` is a block of `packet->len` bytes. -/
def handleResultStringChecked (o : ByteOrder) (s : Linux) (mypkt : Packet) : Option Receipt := do
  let length ← fetch mypkt RESULT 2
  let resultLength := o.ntohs (UInt16.ofNat (o.read length))
  let id ← load mypkt LAMBDA_ID
  match getRegisteredLambdaById s.registry id with
  | none => return Receipt.of (Handled.quiet s)
  | some _ =>
    let result ← fetch mypkt STRING resultLength.toNat
    return ⟨storeResult s id (.retS result) true, [result]⟩

def handleReceivedPacketChecked (o : ByteOrder) (env : Env) (s : Linux) (packet : Packet) :
    Option Receipt :=
  if packet.length < 1 then some (Receipt.of (Handled.quiet s))
  else do
    let ptype ← load packet PTYPE
    if ptype = RS_PACKET_REGISTERED then
      if packet.length ≠ SIZEOF_RS_PACKET_REGISTERED then some (Receipt.of (Handled.quiet s))
      else
        let mypkt ← fetch packet 0 SIZEOF_RS_PACKET_REGISTERED
        handleRegisteredChecked env s (ntohRsPacketRegistered mypkt)
    else if ptype = RS_PACKET_UNREGISTERED then
      if packet.length ≠ SIZEOF_RS_PACKET_UNREGISTERED then some (Receipt.of (Handled.quiet s))
      else
        let mypkt ← fetch packet 0 SIZEOF_RS_PACKET_UNREGISTERED
        return Receipt.of (handleUnregistered s (ntohRsPacketUnregistered mypkt))
    else if ptype = RS_PACKET_RESULT_INT then
      if packet.length ≠ SIZEOF_RS_PACKET_LAMBDA_RESULT_INT then
        some (Receipt.of (Handled.quiet s))
      else
        let mypkt ← fetch packet 0 SIZEOF_RS_PACKET_LAMBDA_RESULT_INT
        let mypkt := ntohRsPacketLambdaResultInt mypkt
        return Receipt.of
          (storeResult s (byteAt mypkt LAMBDA_ID) (.retI (getInt o mypkt RESULT)) false)
    else if ptype = RS_PACKET_RESULT_DOUBLE then
      if packet.length ≠ SIZEOF_RS_PACKET_LAMBDA_RESULT_DOUBLE then
        some (Receipt.of (Handled.quiet s))
      else
        let mypkt ← fetch packet 0 SIZEOF_RS_PACKET_LAMBDA_RESULT_DOUBLE
        let mypkt := ntohRsPacketLambdaResultDouble o env.undef mypkt
        return Receipt.of
          (storeResult s (byteAt mypkt LAMBDA_ID) (.retD (getDouble o mypkt RESULT)) false)
    else if ptype = RS_PACKET_RESULT_STRING then
      if packet.length < SIZEOF_RS_PACKET_LAMBDA_RESULT_STRING then
        some (Receipt.of (Handled.quiet s))
      else
        let mypkt ← fetch packet 0 packet.length
        handleResultStringChecked o s mypkt
    else if ptype = RS_PACKET_RESULT_ERROR then
      if packet.length ≠ SIZEOF_RS_PACKET_LAMBDA_RESULT_ERROR then
        some (Receipt.of (Handled.quiet s))
      else
        let mypkt ← fetch packet 0 SIZEOF_RS_PACKET_LAMBDA_RESULT_ERROR
        return Receipt.of (handleResultError s (ntohRsPacketLambdaResultError mypkt))
    else some (Receipt.of (Handled.quiet s))

end Linux

end RS
