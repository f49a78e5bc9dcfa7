import Riotsensors.Spec.Requests

/-! Calls from end to end: while a client waits, the board serves the packet of its call and
what it sends back arrives. Nothing is lost. -/

namespace RS

/-- A call of a client, with what either side finds in memory meanwhile: Linux for the packet of
the call, the board while it serves it, Linux again when the reply arrives. -/
structure RemoteCall where
  call : Call
  linux : Env
  board : Env
  reply : Env

/-- What happens to the two sides next. -/
inductive SystemEvent where
  | operate (x : Exchange)
  /-- `send_result_lambda_*` -/
  | result (board linux : Env) (target : Target) (result : Result)
  | call (ev : Evaluators) (r : RemoteCall)

/-- How a call names the lambda. -/
def Call.target : Call → Target
  | .byId id _ => .id id
  | .byName name _ => .name name

/-- What is stored on Linux for a result of the board. The machine answers `undef` to a
conversion out of range. -/
def Result.Arrives (undef : UInt64) : Result → GenericLambdaReturn → Prop
  | .int i, ret => ret = .retI i
  | .double d, ret => ∃ packed, packResult d = some packed ∧ ret = .retD (unpackResult undef packed)
  | .string s, ret => ∃ block, ret = .retS block ∧ CMem.cstr block = CMem.cstr s

namespace Board

/-- `call_lambda_*` or `call_lambda_*_by_name` -/
def callTarget (ev : Evaluators) (b : Board) (kind : LambdaKind) :
    Target → Option (Called Result)
  | .id id => b.call ev kind id
  | .name name => b.callByName ev kind name

end Board

namespace System

/-- `none`: one of the two sides runs into undefined behaviour. -/
def remoteCall (o : ByteOrder) (ev : Evaluators) (s : System) (r : RemoteCall) :
    Option Linux.CallOutcome := do
  let sent ← s.linux.request r.linux r.call
  let served ← sent.mapM (Board.handleReceivedPacket o r.board ev s.board)
  let replies := (served.flatMap Board.Served.sent).map fun packet => ⟨r.reply, packet⟩
  Linux.call o r.linux s.linux r.call ⟨replies, [], true⟩

def play (o : ByteOrder) (s : Option System) : SystemEvent → Option System
  | .operate x => step o s x
  | .result env linux target result => do
    let s ← s
    let (_, sent) ← s.board.sendResultTo o env target result
    return { s with linux := Linux.receiveAll o s.linux (sent.map fun packet => ⟨linux, packet⟩) }
  | .call ev r => do
    let s ← s
    let out ← s.remoteCall o ev r
    return { s with linux := out.state }

end System

end RS
