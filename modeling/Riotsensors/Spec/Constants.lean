/-! The constants and scalar types shared by the board and the Linux side
(`rs_constants.h`, `rs_packets.h`, `rs.h`). -/

namespace RS

abbrev LambdaId := UInt8
abbrev RsPacketType := UInt8
abbrev RsLambdaType := UInt8
abbrev RsCacheType := UInt8
abbrev RsInt := Int32
/-- A C `double` as its 64-bit pattern. -/
abbrev RsDouble := UInt64

abbrev MAX_LAMBDAS : Nat := 255
abbrev MAX_LAMBDA_NAME_LENGTH : Nat := 12

abbrev RS_REGISTER_INVALNAME : Int8 := -1
abbrev RS_REGISTER_DUPLICATE : Int8 := -2
abbrev RS_REGISTER_LIMIT_REACHED : Int8 := -3
abbrev RS_REGISTER_NOMEM : Int8 := -4
abbrev RS_REGISTER_INVALPARAM : Int8 := -5

abbrev RS_UNREGISTER_SUCCESS : Int8 := 0
abbrev RS_UNREGISTER_NOTFOUND : Int8 := -1

abbrev RS_CALL_SUCCESS : Int8 := 0
abbrev RS_CALL_CACHE : Int8 := 1
abbrev RS_CALL_CACHE_TIMEOUT : Int8 := 2
abbrev RS_CALL_NOTFOUND : Int8 := -1
abbrev RS_CALL_WRONGTYPE : Int8 := -2
abbrev RS_CALL_TIMEOUT : Int8 := -3
abbrev RS_CALL_CACHE_EMPTY : Int8 := -4
abbrev RS_CALL_CACHE_TIMEOUT_EMPTY : Int8 := -5

abbrev RS_RESULT_SUCCESS : Int8 := 0
abbrev RS_RESULT_NOTFOUND : Int8 := -1
abbrev RS_RESULT_WRONGTYPE : Int8 := -2

abbrev RS_PACKET_REGISTERED : RsPacketType := 1
abbrev RS_PACKET_UNREGISTERED : RsPacketType := 2
abbrev RS_PACKET_CALL_BY_ID : RsPacketType := 3
abbrev RS_PACKET_CALL_BY_NAME : RsPacketType := 4
abbrev RS_PACKET_RESULT_ERROR : RsPacketType := 5
abbrev RS_PACKET_RESULT_INT : RsPacketType := 6
abbrev RS_PACKET_RESULT_DOUBLE : RsPacketType := 7
abbrev RS_PACKET_RESULT_STRING : RsPacketType := 8

abbrev RS_LAMBDA_INT : RsLambdaType := 1
abbrev RS_LAMBDA_DOUBLE : RsLambdaType := 2
abbrev RS_LAMBDA_STRING : RsLambdaType := 3

abbrev RS_CACHE_NO_CACHE : RsCacheType := 1
abbrev RS_CACHE_CALL_ONCE : RsCacheType := 2
abbrev RS_CACHE_ONLY : RsCacheType := 3
abbrev RS_CACHE_ON_TIMEOUT : RsCacheType := 4

end RS
