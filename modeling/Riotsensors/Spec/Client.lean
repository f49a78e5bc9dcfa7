import Riotsensors.Spec.Message

/-! Histories of the Linux process: packets handled and calls made, in any order.
Beside the state runs the log of the results that packets delivered. -/

namespace RS

/-- The lambda type whose member of the union was written last. -/
def GenericLambdaReturn.member : GenericLambdaReturn → Option RsLambdaType
  | .unset => none
  | .retI _ => some RS_LAMBDA_INT
  | .retD _ => some RS_LAMBDA_DOUBLE
  | .retS _ => some RS_LAMBDA_STRING

/-- The result fits the lambda: the member of its type was written last. -/
def RsRegisteredLambda.Typed (l : RsRegisteredLambda ArgPtr) (ret : GenericLambdaReturn) : Prop :=
  ret.member = some l.type

instance (l : RsRegisteredLambda ArgPtr) (ret : GenericLambdaReturn) : Decidable (l.Typed ret) :=
  inferInstanceAs (Decidable (ret.member = some l.type))

inductive Call where
  | byId (id : LambdaId) (expectedType : RsLambdaType)
  | byName (name : List UInt8) (expectedType : RsLambdaType)

def Call.expectedType : Call → RsLambdaType
  | .byId _ expectedType => expectedType
  | .byName _ expectedType => expectedType

inductive LinuxEvent where
  | packet (d : Linux.Delivery)
  | call (env : Env) (c : Call) (w : Linux.Wait)

namespace Linux

def call (o : ByteOrder) (env : Env) (s : Linux) (c : Call) (w : Wait) : Option CallOutcome :=
  match c with
  | .byId id expectedType => callLambdaById o env s id expectedType w
  | .byName name expectedType => callLambdaByName o env s name expectedType w

/-- The call packet of either kind of call. -/
def callPacket (env : Env) : Call → Option Packet
  | .byId id expectedType => callByIdPacket env id expectedType
  | .byName name expectedType => callByNamePacket env name expectedType

/-- The record that a call is about. -/
def found (s : Linux) : Call → Option (RsRegisteredLambda ArgPtr)
  | .byId id _ => getRegisteredLambdaById s.registry id
  | .byName name _ => getRegisteredLambdaByName s.registry name

/-- The record that a call waits on: found, of the expected type, not answered by the
cache check. -/
def waitsOn (s : Linux) (c : Call) : Option (RsRegisteredLambda ArgPtr) :=
  (s.found c).filter fun lambda =>
    lambda.type = c.expectedType ∧ (checkLambdaCache s lambda).1 = 0

/-- What a call sends before it waits. -/
def request (env : Env) (s : Linux) (c : Call) : Option (List Packet) :=
  match s.waitsOn c with
  | none => some []
  | some _ => (callPacket env c).map fun packet => [packet]

/-- The record whose call state a packet writes a result to. -/
def written (o : ByteOrder) (s : Linux) (d : Delivery) : Option (RsRegisteredLambda ArgPtr) :=
  match readPacket o d.env d.packet with
  | .result id _ _ => getRegisteredLambdaById s.registry id
  | _ => none

/-- The result that a packet delivers, and the call state it is delivered to. -/
def delivered (o : ByteOrder) (s : Linux) (d : Delivery) : Option (ArgPtr × GenericLambdaReturn) :=
  match readPacket o d.env d.packet with
  | .result id ret _ => (getRegisteredLambdaById s.registry id).map fun lambda => (lambda.arg, ret)
  | _ => none

/-- The results that packets deliver one after the other. -/
def deliveredAll (o : ByteOrder) : Linux → List Delivery → List (ArgPtr × GenericLambdaReturn)
  | _, [] => []
  | s, d :: ds => (delivered o s d).toList ++ deliveredAll o (receive o s d) ds

end Linux

/-- A Linux process and the results delivered to it so far. -/
structure Watched where
  linux : Linux
  log : List (ArgPtr × GenericLambdaReturn)

namespace Watched

def started (garbage : ArgPtr → RsLinuxRegisteredLambda) : Watched := ⟨Linux.started garbage, []⟩

def receive (o : ByteOrder) (w : Watched) (d : Linux.Delivery) : Watched :=
  ⟨Linux.receive o w.linux d, w.log ++ (Linux.delivered o w.linux d).toList⟩

/-- What is delivered during a call: nothing, unless it waits. -/
def duringCall (o : ByteOrder) (w : Watched) (c : Call) (wait : Linux.Wait) :
    List (ArgPtr × GenericLambdaReturn) :=
  if (w.linux.waitsOn c).isSome then Linux.deliveredAll o w.linux wait.packets else []

/-- `none`: a call ran into undefined behaviour. -/
def play (o : ByteOrder) (w : Option Watched) (e : LinuxEvent) : Option Watched := do
  let w ← w
  match e with
  | .packet d => return w.receive o d
  | .call env c wait =>
    let out ← Linux.call o env w.linux c wait
    return ⟨out.state, w.log ++ w.duringCall o c wait⟩

/-- The process after a history that is defined throughout. -/
def Reaches (o : ByteOrder) (garbage : ArgPtr → RsLinuxRegisteredLambda) (es : List LinuxEvent)
    (w : Watched) : Prop :=
  Runs.run (play o) (some (started garbage)) es = some w

end Watched

end RS
