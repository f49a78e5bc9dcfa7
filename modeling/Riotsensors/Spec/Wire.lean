import Riotsensors.Spec.Packets

/-! The packets of `rs_packets.h` by their field values, and their way from one host to
another: laid out in the sender's byte order, converted, and read in the receiver's. -/

namespace RS

open CMem

/-- `char name[MAX_LAMBDA_NAME_LENGTH]`, all of its bytes. -/
abbrev NameField := Fin MAX_LAMBDA_NAME_LENGTH → UInt8

/-- `rs_packet_lambda_result_t` -/
structure ResultBase where
  ptype : RsPacketType
  lambdaId : LambdaId
  name : NameField
  deriving DecidableEq

inductive PacketKind where
  | base | registered | unregistered
  | lambdaResult | lambdaResultError | lambdaResultInt | lambdaResultDouble | lambdaResultString
  | callById | callByName
  deriving DecidableEq

/-- A packet's fields. The bytes from `result` of a string packet on are any number. -/
inductive Fields where
  | base (ptype : RsPacketType)
  | registered (ptype : RsPacketType) (name : NameField) (ltype : RsLambdaType)
      (cache : RsCacheType)
  | unregistered (ptype : RsPacketType) (lambdaId : LambdaId) (name : NameField)
  | lambdaResult (resultBase : ResultBase)
  | lambdaResultError (resultBase : ResultBase) (errorCode : Int8)
  | lambdaResultInt (resultBase : ResultBase) (result : RsInt)
  | lambdaResultDouble (resultBase : ResultBase) (result : RsDouble)
  | lambdaResultString (resultBase : ResultBase) (resultLength : UInt16) (result : List UInt8)
  | callById (ptype : RsPacketType) (lambdaId : LambdaId) (expectedType : RsLambdaType)
  | callByName (ptype : RsPacketType) (name : NameField) (expectedType : RsLambdaType)
  deriving DecidableEq

namespace ResultBase

def layout (base : ResultBase) : List UInt8 :=
  base.ptype :: base.lambdaId :: List.ofFn base.name

def read (pkt : Packet) : ResultBase :=
  ⟨byteAt pkt PTYPE, byteAt pkt LAMBDA_ID, fun i => byteAt pkt (BASE_NAME + i)⟩

end ResultBase

namespace Fields

def kind : Fields → PacketKind
  | base .. => .base
  | registered .. => .registered
  | unregistered .. => .unregistered
  | lambdaResult .. => .lambdaResult
  | lambdaResultError .. => .lambdaResultError
  | lambdaResultInt .. => .lambdaResultInt
  | lambdaResultDouble .. => .lambdaResultDouble
  | lambdaResultString .. => .lambdaResultString
  | callById .. => .callById
  | callByName .. => .callByName

/-- The packed struct on a host of order `o`. -/
def layout (o : ByteOrder) : Fields → Packet
  | base ptype => [ptype]
  | registered ptype name ltype cache => ptype :: (List.ofFn name ++ [ltype, cache])
  | unregistered ptype lambdaId name => ptype :: lambdaId :: List.ofFn name
  | lambdaResult resultBase => resultBase.layout
  | lambdaResultError resultBase errorCode => resultBase.layout ++ [errorCode.toUInt8]
  | lambdaResultInt resultBase result => resultBase.layout ++ o.write 4 result.toUInt32.toNat
  | lambdaResultDouble resultBase result => resultBase.layout ++ o.write 8 result.toNat
  | lambdaResultString resultBase resultLength result =>
    resultBase.layout ++ o.write 2 resultLength.toNat ++ result
  | callById ptype lambdaId expectedType => [ptype, lambdaId, expectedType]
  | callByName ptype name expectedType => ptype :: (List.ofFn name ++ [expectedType])

end Fields

namespace PacketKind

/-- The fields that a host of order `o` sees in a packet of this type. -/
def read (o : ByteOrder) (pkt : Packet) : PacketKind → Fields
  | base => .base (byteAt pkt PTYPE)
  | registered => .registered (byteAt pkt PTYPE) (fun i => byteAt pkt (NAME + i))
      (byteAt pkt LTYPE) (byteAt pkt CACHE)
  | unregistered => .unregistered (byteAt pkt PTYPE) (byteAt pkt LAMBDA_ID)
      (fun i => byteAt pkt (BASE_NAME + i))
  | lambdaResult => .lambdaResult (ResultBase.read pkt)
  | lambdaResultError => .lambdaResultError (ResultBase.read pkt) (byteAt pkt RESULT).toInt8
  | lambdaResultInt => .lambdaResultInt (ResultBase.read pkt) (getInt o pkt RESULT)
  | lambdaResultDouble => .lambdaResultDouble (ResultBase.read pkt) (getDouble o pkt RESULT)
  | lambdaResultString =>
    .lambdaResultString (ResultBase.read pkt) (getU16 o pkt RESULT) (pkt.drop STRING)
  | callById => .callById (byteAt pkt PTYPE) (byteAt pkt LAMBDA_ID) (byteAt pkt EXPECTED_TYPE)
  | callByName => .callByName (byteAt pkt PTYPE) (fun i => byteAt pkt (NAME + i))
      (byteAt pkt LTYPE)

/-- The `hton_*` of a packet type. `none`: it does not end. -/
def hton (o : ByteOrder) (pkt : Packet) : PacketKind → Option Packet
  | base => some (htonRsPacketBase pkt)
  | registered => some (htonRsPacketRegistered pkt)
  | unregistered => some (htonRsPacketUnregistered pkt)
  | lambdaResult => some (htonRsPacketLambdaResult pkt)
  | lambdaResultError => some (htonRsPacketLambdaResultError pkt)
  | lambdaResultInt => some (htonRsPacketLambdaResultInt pkt)
  | lambdaResultDouble => htonRsPacketLambdaResultDouble o pkt
  | lambdaResultString => some (htonRsPacketLambdaResultString o pkt)
  | callById => some (htonRsPacketCallById pkt)
  | callByName => some (htonRsPacketCallByName pkt)

/-- The `ntoh_*` of a packet type. -/
def ntoh (o : ByteOrder) (undef : UInt64) (pkt : Packet) : PacketKind → Packet
  | base => ntohRsPacketBase pkt
  | registered => ntohRsPacketRegistered pkt
  | unregistered => ntohRsPacketUnregistered pkt
  | lambdaResult => ntohRsPacketLambdaResult pkt
  | lambdaResultError => ntohRsPacketLambdaResultError pkt
  | lambdaResultInt => ntohRsPacketLambdaResultInt pkt
  | lambdaResultDouble => ntohRsPacketLambdaResultDouble o undef pkt
  | lambdaResultString => ntohRsPacketLambdaResultString o pkt
  | callById => ntohRsPacketCallById pkt
  | callByName => ntohRsPacketCallByName pkt

end PacketKind

/-- From a sender of order `o` to a receiver of order `o'`, whose machine answers `undef` to
a conversion out of range. -/
def transfer (o o' : ByteOrder) (undef : UInt64) (f : Fields) : Option Fields := do
  let wire ← f.kind.hton o (f.layout o)
  return f.kind.read o' (f.kind.ntoh o' undef wire)

/-- The receiver gets the values that were sent; of a double, what the sending host itself
would get back. -/
def SameValues (o o' : ByteOrder) (f : Fields) : Prop :=
  ∀ undef, ∃ g, transfer o o' undef f = some g ∧
    match f with
    | .lambdaResultDouble resultBase _ =>
      (∃ result, g = .lambdaResultDouble resultBase result) ∧ transfer o o undef f = some g
    | _ => g = f

end RS
