import Riotsensors.Spec.Client
import Riotsensors.Spec.System

/-! Board and Linux process joined by a link that keeps the order of the packets and may
lose any of them. The Linux process starts at some point of the board's life, and what
arrives before is lost. A packet in flight is marked with what it was sent for; neither
side sees the mark. What a call does once it has sent its packet (`waitLambdaResult`) is
left out here: it resets an error code and sends nothing. -/

namespace RS

inductive Result where
  | int (result : RsInt)
  | double (result : RsDouble)
  | string (result : List UInt8)

/-- How the caller of `send_result_lambda_*` names the lambda. -/
inductive Target where
  | id (id : LambdaId)
  | name (name : List UInt8)

namespace Board

def sendResult (o : ByteOrder) (env : Env) (b : Board) (id : LambdaId) :
    Result → Option (Int8 × List Packet)
  | .int result => sendResultLambdaInt o env b id result
  | .double result => sendResultLambdaDouble o env b id result
  | .string result => sendResultLambdaString o env b id result

/-- `send_result_lambda_*_by_name` -/
def sendResultByName (o : ByteOrder) (env : Env) (b : Board) (name : List UInt8)
    (result : Result) : Option (Int8 × List Packet) :=
  match getRegisteredLambdaByName b.registry name with
  | none => some (RS_RESULT_NOTFOUND, [])
  | some lambda => b.sendResult o env lambda.id result

def sendResultTo (o : ByteOrder) (env : Env) (b : Board) (target : Target) (result : Result) :
    Option (Int8 × List Packet) :=
  match target with
  | .id id => b.sendResult o env id result
  | .name name => b.sendResultByName o env name result

/-- The record that a result is sent for. -/
def addressee (b : Board) : Target → Option (RsRegisteredLambda FuncPtr)
  | .id id => getRegisteredLambdaById b.registry id
  | .name name => getRegisteredLambdaByName b.registry name

end Board

/-- What a packet of the board was sent for. -/
inductive Origin where
  /-- the board's registration under this number -/
  | registration (number : ℕ)
  | unregistration
  | result (name : List UInt8)
  | error

namespace Origin

def number : Origin → Option ℕ
  | registration n => some n
  | _ => none

/-- The name of the lambda that a result was produced for. -/
def name : Origin → Option (List UInt8)
  | result n => some n
  | _ => none

end Origin

structure Parcel where
  packet : Packet
  origin : Origin

/-- A call packet, and the name of the Linux entry that it was issued for. -/
structure Request where
  packet : Packet
  name : List UInt8

structure Link where
  board : Board
  /-- `none`: not started yet -/
  linux : Option Linux
  toLinux : List Parcel
  toBoard : List Request
  /-- A registration was sent and Linux did not take it up. -/
  missed : Bool
  /-- Every result stored and every lambda evaluated so far: the name it was meant for, and
  the name of the record it went to. -/
  log : List (Option (List UInt8) × List UInt8)

inductive LinkEvent where
  | start (garbage : ArgPtr → RsLinuxRegisteredLambda)
  | operate (env : Env) (op : BoardOp)
  | send (env : Env) (target : Target) (result : Result)
  | call (env : Env) (c : Call)
  /-- Linux handles the next packet. -/
  | deliver (env : Env)
  /-- The board handles the next packet. -/
  | serve (env : Env) (ev : Evaluators)
  | loseToLinux (i : ℕ)
  | loseToBoard (i : ℕ)

def BoardOp.origin (op : BoardOp) (b : Board) : Origin :=
  match op with
  | .register .. => .registration b.registry.lambdaCounter.toNat
  | .unregister _ => .unregistration

def Board.Served.origin (served : Board.Served) : Origin :=
  match served.invoked with
  | some lambda => .result lambda.text
  | none => .error

namespace Link

/-- The board freshly started with the serial link up, no Linux process yet. -/
def start : Link := ⟨Board.started, none, [], [], false, []⟩

/-- The board sends packets for one purpose. -/
def post (s : Link) (origin : Origin) (sent : List Packet) : Link :=
  { s with toLinux := s.toLinux ++ sent.map fun packet => ⟨packet, origin⟩ }

def operate (env : Env) (s : Link) (op : BoardOp) : Option Link := do
  let (board, _, sent) ← s.board.operate env op
  return { s with board }.post (op.origin s.board) sent

def send (o : ByteOrder) (env : Env) (s : Link) (target : Target) (result : Result) :
    Option Link := do
  let (_, sent) ← s.board.sendResultTo o env target result
  let name := ((s.board.addressee target).map RsRegisteredLambda.text).getD []
  return s.post (.result name) sent

def call (env : Env) (s : Link) (c : Call) : Option Link :=
  match s.linux with
  | none => some s
  | some linux => do
    let sent ← linux.request env c
    let name := ((linux.waitsOn c).map RsRegisteredLambda.text).getD []
    return { s with toBoard := s.toBoard ++ sent.map fun packet => ⟨packet, name⟩ }

/-- How many lambdas Linux has registered. -/
def known (s : Link) : Option LambdaId :=
  s.linux.map fun linux => getNumberOfRegisteredLambdas linux.registry

/-- One packet arrives at the Linux process, or where it will be started. -/
def arrive (o : ByteOrder) (env : Env) (s : Link) (p : Parcel) : Link :=
  match s.linux with
  | none => { s with missed := s.missed || p.origin.number.isSome }
  | some linux =>
    let d : Linux.Delivery := ⟨env, p.packet⟩
    let linux' := Linux.receive o linux d
    { s with
      linux := some linux'
      missed := s.missed || (p.origin.number.isSome &&
        getNumberOfRegisteredLambdas linux'.registry ==
          getNumberOfRegisteredLambdas linux.registry)
      log := s.log ++ (linux.written o d).toList.map fun lambda =>
        (p.origin.name, lambda.text) }

def deliver (o : ByteOrder) (env : Env) (s : Link) : Link :=
  match s.toLinux with
  | [] => s
  | p :: rest => { s with toLinux := rest }.arrive o env p

def serve (o : ByteOrder) (env : Env) (ev : Evaluators) (s : Link) : Option Link :=
  match s.toBoard with
  | [] => some s
  | r :: rest => do
    let served ← Board.handleReceivedPacket o env ev s.board r.packet
    let evaluated := served.invoked.map RsRegisteredLambda.text
    let s := { s with
      toBoard := rest
      log := s.log ++ evaluated.toList.map fun name => (some r.name, name) }
    return s.post served.origin served.sent

def loseToLinux (s : Link) (i : ℕ) : Link :=
  { s with
    toLinux := s.toLinux.eraseIdx i
    missed := s.missed || (s.toLinux[i]?).any fun p => p.origin.number.isSome }

def loseToBoard (s : Link) (i : ℕ) : Link := { s with toBoard := s.toBoard.eraseIdx i }

/-- `none`: the board or a call ran into undefined behaviour. -/
def step (o : ByteOrder) (s : Option Link) (e : LinkEvent) : Option Link := do
  let s ← s
  match e with
  | .start garbage => return { s with linux := some (s.linux.getD (Linux.started garbage)) }
  | .operate env op => s.operate env op
  | .send env target result => s.send o env target result
  | .call env c => s.call env c
  | .deliver env => return s.deliver o env
  | .serve env ev => s.serve o env ev
  | .loseToLinux i => return s.loseToLinux i
  | .loseToBoard i => return s.loseToBoard i

/-- Every value and every call went to a record of the name it was meant for. -/
def Attributed : Option Link → Prop
  | some s => ∀ a ∈ s.log, a.1 = some a.2
  | none => True

instance : ∀ s, Decidable (Attributed s)
  | some s => inferInstanceAs (Decidable (∀ a ∈ s.log, a.1 = some a.2))
  | none => isTrue trivial

/-- Once Linux has missed a registration, it registers no other lambda. -/
def KeepsUp (o : ByteOrder) : Option Link → LinkEvent → Prop
  | some s, .deliver env => s.missed = true → (s.deliver o env).known = s.known
  | _, _ => True

instance (o : ByteOrder) : ∀ s e, Decidable (KeepsUp o s e)
  | some s, .deliver env =>
    inferInstanceAs (Decidable (s.missed = true → (s.deliver o env).known = s.known))
  | some _, .start _ => isTrue trivial
  | some _, .operate _ _ => isTrue trivial
  | some _, .send _ _ _ => isTrue trivial
  | some _, .call _ _ => isTrue trivial
  | some _, .serve _ _ => isTrue trivial
  | some _, .loseToLinux _ => isTrue trivial
  | some _, .loseToBoard _ => isTrue trivial
  | none, _ => isTrue trivial

end Link

end RS
