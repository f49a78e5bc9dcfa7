import Riotsensors.Spec.FrontEnds
import Riotsensors.Spec.Remote

/-! The REST server in front of both sides: a request that calls a lambda waits while the board
serves the packet of the call. Beside it the answers as the board's own data give them. -/

namespace RS

namespace System

/-- `RiotsensorsRESTHandler` for a client whose call meets the memory of `r`. -/
def restHandler (o : ByteOrder) (ev : Evaluators) (s : System) (r : RemoteCall) :
    RestRequest → RestResponseInfo
  | .call c => (s.remoteCall o ev { r with call := c }).bind fun out =>
      handleCallReturned out.state c out.code out.written
  | .list type => handleList s.linux type
  | .cache type => handleCache s.linux type

end System

/-- What Linux holds of a result of the board. `none`: a double that cannot be packed. -/
def Result.ret (undef : UInt64) : Result → Option GenericLambdaReturn
  | .int i => some (.retI i)
  | .double d => (packResult d).map fun packed => .retD (unpackResult undef packed)
  | .string s => some (.retS s)

namespace Board

/-- A record of the board as the REST server prints one; `arg` is not printed. -/
def shown (l : RsRegisteredLambda FuncPtr) : RsRegisteredLambda ArgPtr :=
  ⟨l.id, l.name, l.type, l.cache, 0, l.behind, l.name_length⟩

/-- The answer to a call, as `call_lambda_*` and the registry of the board give it. -/
def callAnswer (undef : UInt64) (ev : Evaluators) (b : Board) (kind : LambdaKind) (c : Call) :
    RestResponseInfo := do
  let called ← b.callTarget ev kind c.target
  let lambda := (b.addressee c.target).map shown
  match called.result with
  | some result =>
    let ret ← result.ret undef
    (assembleCallSuccessRest lambda false false ret).map fun body => (.ok, body)
  | none =>
    match c with
    | .byId id _ =>
      (assembleCallErrorRestId id lambda called.code).map fun body => (.notFound, body)
    | .byName name _ =>
      (assembleCallErrorRestName name lambda called.code).map fun body => (.notFound, body)

/-- A Linux process whose registry has the records of the board. -/
def asLinux (b : Board) : Linux where
  registry := ⟨fun i => (b.registry.slots i).map shown, b.registry.lambdaCounter⟩
  heap _ := ⟨false, 0, .unset⟩
  brk := 0

/-- The listing of the board's lambdas of a type, of all for 0. -/
def listAnswer (b : Board) (type : RsLambdaType) : RestResponseInfo :=
  RS.handleList b.asLinux type

end Board

end RS
