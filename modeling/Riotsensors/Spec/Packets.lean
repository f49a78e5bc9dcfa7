import Riotsensors.Lib.CMemory
import Riotsensors.Lib.ByteOrder
import Riotsensors.Spec.Ieee754

/-! The packed packet structs and their network conversions (`rs_packets.h`,
`rs_packets.c`). A packet object is its bytes; a field is an offset. -/

namespace RS

open CMem

/-- The bytes of a packet object. -/
abbrev Packet := List UInt8

abbrev SIZEOF_RS_PACKET_REGISTERED : ℕ := 15
abbrev SIZEOF_RS_PACKET_UNREGISTERED : ℕ := 14
abbrev SIZEOF_RS_PACKET_LAMBDA_RESULT_ERROR : ℕ := 15
abbrev SIZEOF_RS_PACKET_LAMBDA_RESULT_INT : ℕ := 18
abbrev SIZEOF_RS_PACKET_LAMBDA_RESULT_DOUBLE : ℕ := 22
abbrev SIZEOF_RS_PACKET_LAMBDA_RESULT_STRING : ℕ := 17
abbrev SIZEOF_RS_PACKET_CALL_BY_ID : ℕ := 3
abbrev SIZEOF_RS_PACKET_CALL_BY_NAME : ℕ := 14

/-! Offsets. `base.ptype` is the first byte of every packet. -/

abbrev PTYPE : ℕ := 0

/-- `name`, `ltype`, `cache` of `rs_packet_registered_t`; the first two also
place `name` and `expected_type` in `rs_packet_call_by_name_t`. -/
abbrev NAME : ℕ := 1
abbrev LTYPE : ℕ := 13
abbrev CACHE : ℕ := 14

/-- `lambda_id` and `name` of `rs_packet_unregistered_t` and of the result base;
`lambda_id` and `expected_type` of `rs_packet_call_by_id_t`. -/
abbrev LAMBDA_ID : ℕ := 1
abbrev BASE_NAME : ℕ := 2
abbrev EXPECTED_TYPE : ℕ := 2

/-- What follows the result base: `error_code`, `result` or `result_length`. -/
abbrev RESULT : ℕ := 14
/-- `result` of `rs_packet_lambda_result_string_t` -/
abbrev STRING : ℕ := 16

/-- Assign a field that lies inside the packet. -/
def setField (pkt : Packet) (off : ℕ) (bs : List UInt8) : Packet := (poke pkt off bs).getD pkt

def getU16 (o : ByteOrder) (pkt : Packet) (off : ℕ) : UInt16 :=
  UInt16.ofNat (o.read (peek pkt off 2))

def getInt (o : ByteOrder) (pkt : Packet) (off : ℕ) : RsInt :=
  (UInt32.ofNat (o.read (peek pkt off 4))).toInt32

def getDouble (o : ByteOrder) (pkt : Packet) (off : ℕ) : RsDouble :=
  UInt64.ofNat (o.read (peek pkt off 8))

def htonRsPacketBase (pkt : Packet) : Packet := pkt
def htonRsPacketRegistered (pkt : Packet) : Packet := htonRsPacketBase pkt
def htonRsPacketUnregistered (pkt : Packet) : Packet := htonRsPacketBase pkt
def htonRsPacketLambdaResult (pkt : Packet) : Packet := htonRsPacketBase pkt
def htonRsPacketLambdaResultError (pkt : Packet) : Packet := htonRsPacketLambdaResult pkt
def htonRsPacketLambdaResultInt (pkt : Packet) : Packet := htonRsPacketLambdaResult pkt

/-- `none`: the packing loop does not end. -/
def htonRsPacketLambdaResultDouble (o : ByteOrder) (pkt : Packet) : Option Packet :=
  let pkt := htonRsPacketLambdaResult pkt
  (packResult (getDouble o pkt RESULT)).map fun d => setField pkt RESULT (o.write 8 d.toNat)

def htonRsPacketLambdaResultString (o : ByteOrder) (pkt : Packet) : Packet :=
  let pkt := htonRsPacketLambdaResult pkt
  setField pkt RESULT (o.write 2 (o.htons (getU16 o pkt RESULT)).toNat)

def htonRsPacketCallById (pkt : Packet) : Packet := htonRsPacketBase pkt
def htonRsPacketCallByName (pkt : Packet) : Packet := htonRsPacketBase pkt

def ntohRsPacketBase (pkt : Packet) : Packet := pkt
def ntohRsPacketRegistered (pkt : Packet) : Packet := ntohRsPacketBase pkt
def ntohRsPacketUnregistered (pkt : Packet) : Packet := ntohRsPacketBase pkt
def ntohRsPacketLambdaResult (pkt : Packet) : Packet := ntohRsPacketBase pkt
def ntohRsPacketLambdaResultError (pkt : Packet) : Packet := ntohRsPacketLambdaResult pkt
def ntohRsPacketLambdaResultInt (pkt : Packet) : Packet := ntohRsPacketLambdaResult pkt

def ntohRsPacketLambdaResultDouble (o : ByteOrder) (undef : UInt64) (pkt : Packet) : Packet :=
  let pkt := ntohRsPacketLambdaResult pkt
  setField pkt RESULT (o.write 8 (unpackResult undef (getDouble o pkt RESULT)).toNat)

def ntohRsPacketLambdaResultString (o : ByteOrder) (pkt : Packet) : Packet :=
  let pkt := ntohRsPacketLambdaResult pkt
  setField pkt RESULT (o.write 2 (o.ntohs (getU16 o pkt RESULT)).toNat)

def ntohRsPacketCallById (pkt : Packet) : Packet := ntohRsPacketBase pkt
def ntohRsPacketCallByName (pkt : Packet) : Packet := ntohRsPacketBase pkt

end RS
