import Riotsensors.Spec.Connector

/-! Board and Linux process joined by a link that loses nothing. Linux's handler and
the board share no state, so delivering a packet as soon as it is sent leaves the
same state as delivering all of them, in order, at the end. -/

namespace RS

inductive LambdaKind where
  | int
  | double
  | string

def LambdaKind.type : LambdaKind → RsLambdaType
  | .int => RS_LAMBDA_INT
  | .double => RS_LAMBDA_DOUBLE
  | .string => RS_LAMBDA_STRING

inductive BoardOp where
  | register (kind : LambdaKind) (name : List UInt8) (lambda : FuncPtr) (cache : RsCacheType)
  | unregister (id : LambdaId)

namespace Board

def register (env : Env) (b : Board) (kind : LambdaKind) (name : List UInt8) (lambda : FuncPtr)
    (cache : RsCacheType) : Option (Board × Int8 × List Packet) :=
  match kind with
  | .int => registerLambdaInt env b name lambda cache
  | .double => registerLambdaDouble env b name lambda cache
  | .string => registerLambdaString env b name lambda cache

def operate (env : Env) (b : Board) : BoardOp → Option (Board × Int8 × List Packet)
  | .register kind name lambda cache => b.register env kind name lambda cache
  | .unregister id => unregisterLambda env b id

end Board

/-- One operation, with what either side finds in its memory meanwhile. -/
structure Exchange where
  op : BoardOp
  board : Env
  linux : Env

structure System where
  board : Board
  linux : Linux

namespace System

/-- Both processes freshly started, the serial link up. -/
def started (garbage : ArgPtr → RsLinuxRegisteredLambda) : System :=
  ⟨Board.started, Linux.started garbage⟩

/-- The board operates and Linux handles what it sent. `none`: the board ran into
undefined behaviour. -/
def step (o : ByteOrder) (s : Option System) (x : Exchange) : Option System := do
  let s ← s
  let (board, _, sent) ← s.board.operate x.board x.op
  return ⟨board, Linux.receiveAll o s.linux (sent.map fun packet => ⟨x.linux, packet⟩)⟩

end System

/-- What the two sides have to agree on: name, type and cache policy. -/
def RsRegisteredLambda.shared {α : Type} (l : RsRegisteredLambda α) :
    List UInt8 × RsLambdaType × RsCacheType :=
  (l.text, l.type, l.cache)

/-- Every id is live on both sides or on neither, and live ids agree. -/
def System.Agree (s : System) : Prop :=
  ∀ id, (getRegisteredLambdaById s.board.registry id).map RsRegisteredLambda.shared =
    (getRegisteredLambdaById s.linux.registry id).map RsRegisteredLambda.shared

/-- Agreement of a run's state; there is none after undefined behaviour. -/
def System.Agrees : Option System → Prop
  | some s => s.Agree
  | none => False

end RS
