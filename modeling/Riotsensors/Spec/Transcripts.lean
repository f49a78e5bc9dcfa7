import Riotsensors.Spec.Threads

/-! What can be seen of a history: the packets handled, the calls, the packets that they send, their
codes and what they store. -/

namespace RS

namespace Linux

/-- The calls of a history. `none`: one of them ran into undefined behaviour. -/
def transcript (o : ByteOrder) :
    Linux → List LinuxEvent → Option (List (List Packet × Int8 × Option GenericLambdaReturn))
  | _, [] => some []
  | s, .packet d :: es => transcript o (receive o s d) es
  | s, .call env c w :: es => do
    let out ← call o env s c w
    let later ← transcript o out.state es
    return (out.sent, out.code, out.written) :: later

end Linux

/-- What is seen of a process whose clients have numbers. -/
inductive Observation where
  /-- A packet is handled. -/
  | packet (d : Linux.Delivery)
  | call (i : ℕ) (c : Call)
  | sent (i : ℕ) (packet : Packet)
  /-- What the REST handler of a client that answers was given by the call. -/
  | told (i : ℕ) (code : Int8) (written : Option GenericLambdaReturn)

namespace Linux

/-- What is seen of a history of blocking calls, and the state that it leaves. -/
def observed (o : ByteOrder) : Linux → List (ℕ × LinuxEvent) → Option (List Observation × Linux)
  | s, [] => some ([], s)
  | s, (_, .packet d) :: es => do
    let (later, last) ← observed o (receive o s d) es
    return (.packet d :: later, last)
  | s, (i, .call env c w) :: es => do
    let out ← call o env s c w
    let (later, last) ← observed o out.state es
    -- a call that does not wait meets no packets
    let during := if (s.waitsOn c).isSome then w.packets else []
    return (.call i c :: (out.sent.map (.sent i) ++ during.map .packet ++
      .told i out.code out.written :: later), last)

end Linux

namespace Threads

/-- What is seen of a step. -/
def shown (s : Threads) : ThreadEvent → List Observation
  | .packet d => [.packet d]
  | .lookup i c =>
    match s.clients i, s.holder with
    | .idle, none => [.call i c]
    | _, _ => []
  | .send i env =>
    match s.clients i with
    | .ready p => (Linux.callPacket env p.call).toList.map (.sent i)
    | _ => []
  | .respond i =>
    match s.clients i with
    | .returned r => [.told i r.code r.written]
    | _ => []
  | _ => []

def observed (o : ByteOrder) : Threads → List ThreadEvent → List Observation
  | _, [] => []
  | s, e :: es => s.shown e ++ observed o (step o s e) es

end Threads

end RS
