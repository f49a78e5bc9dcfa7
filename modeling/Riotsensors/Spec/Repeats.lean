import Riotsensors.Lib.Repeats
import Riotsensors.Spec.Transcripts

/-! A link that delivers some packets more than once, each copy before anything else. -/

namespace RS

namespace Linux

/-- The packet is read as the one before, and no memory is found for it that was not there. -/
def Delivery.Copy (o : ByteOrder) (d d' : Delivery) : Prop :=
  readPacket o d'.env d'.packet = readPacket o d.env d.packet ∧
    (d.env.heap = none → d'.env.heap = none)

/-- The same wait with copies of its packets. -/
structure Wait.Repeats (o : ByteOrder) (w w' : Wait) : Prop where
  blocked : Runs.Repeats Eq (Delivery.Copy o) none w.blocked w'.blocked
  resuming : Runs.Repeats Eq (Delivery.Copy o) none w.resuming w'.resuming
  expired : w'.expired = w.expired

end Linux

namespace LinuxEvent

def Same (o : ByteOrder) : LinuxEvent → LinuxEvent → Prop
  | .packet d, .packet d' => d = d'
  | .call env c w, .call env' c' w' => env = env' ∧ c = c' ∧ w.Repeats o w'
  | _, _ => False

def Copy (o : ByteOrder) : LinuxEvent → LinuxEvent → Prop
  | .packet d, .packet d' => d.Copy o d'
  | _, _ => False

end LinuxEvent

end RS
