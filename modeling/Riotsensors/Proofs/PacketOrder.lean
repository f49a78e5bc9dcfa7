import Riotsensors.Lib.Traces
import Riotsensors.Sanity.Client

/-! Packets for different lambdas, handled in any order: what they leave depends on the order of
the packets for each lambda only. -/

namespace RS

namespace Linux

variable {o : ByteOrder} {s : Linux}

/-- The lambda that a packet is for. -/
def target (o : ByteOrder) (d : Delivery) : Option LambdaId := (readPacket o d.env d.packet).target

/-- A packet that registers nothing. -/
def Plain (o : ByteOrder) (d : Delivery) : Prop :=
  ∀ name type cache, readPacket o d.env d.packet ≠ .registered name type cache

end Linux

namespace Watched

open Linux

end Watched

end RS
