import Riotsensors.Spec.Remote
import Riotsensors.Spec.Threads

/-! The whole system: client threads on Linux, the board, and the lossy link between them. A
call puts its packet on the link, the packet handler runs between any two steps of the
threads. Linux is up from the start; what was lost before it came up counts as lost. -/

namespace RS

/-- A step of a client thread. -/
inductive ClientStep where
  | lookup (i : ℕ) (c : Call)
  | send (i : ℕ) (env : Env)
  | wait (i : ℕ)
  | expire (i : ℕ)
  | spurious (i : ℕ)
  | resume (i : ℕ)
  | respond (i : ℕ)

def ClientStep.event : ClientStep → ThreadEvent
  | lookup i c => .lookup i c
  | send i env => .send i env
  | wait i => .wait i
  | expire i => .expire i
  | spurious i => .spurious i
  | resume i => .resume i
  | respond i => .respond i

/-- The record is one that the call asks for. -/
def RsRegisteredLambda.IsFor {α : Type} (l : RsRegisteredLambda α) (c : Call) : Prop :=
  l.type = c.expectedType ∧
    match c with
    | .byId id _ => l.id = id
    | .byName name _ => l.text = CMem.cstr name

/-- A value of one of the board's lambdas: evaluated, or sent with `send_result_lambda_*`. -/
structure Product where
  lambda : RsRegisteredLambda FuncPtr
  result : Result

def Result.kind : Result → LambdaKind
  | .int _ => .int
  | .double _ => .double
  | .string _ => .string

/-- What an evaluation of the lambda returns. -/
def Evaluators.produce (ev : Evaluators) (lambda : RsRegisteredLambda FuncPtr) : Option Product :=
  (LambdaKind.ofType lambda.type).map fun
    | .int => ⟨lambda, .int (ev.int lambda.arg lambda.id)⟩
    | .double => ⟨lambda, .double (ev.double lambda.arg lambda.id)⟩
    | .string => ⟨lambda, .string (ev.string lambda.arg lambda.id)⟩

/-- The packet that a step puts on the link, and the call it is for. -/
def Threads.posts (s : Threads) : ClientStep → Option (Pending × Packet)
  | .send i env =>
    match s.clients i with
    | .ready p => (Linux.callPacket env p.call).map fun packet => (p, packet)
    | _ => none
  | _ => none

structure World where
  link : Link
  /-- the thread that holds `accessing_registry` -/
  holder : Option ℕ
  clients : ℕ → Phase
  accesses : List Access
  /-- The calls whose packets went out. -/
  issued : List Call
  /-- The lambdas that the board evaluated for a packet. -/
  evaluated : List (RsRegisteredLambda FuncPtr)
  produced : List Product

inductive WorldEvent where
  | operate (env : Env) (op : BoardOp)
  | send (env : Env) (target : Target) (result : Result)
  | client (x : ClientStep)
  | deliver (env : Env)
  | serve (env : Env) (ev : Evaluators)
  | loseToLinux (i : ℕ)
  | loseToBoard (i : ℕ)

namespace World

/-- Both sides freshly started, no client has called yet. -/
def start (garbage : ArgPtr → RsLinuxRegisteredLambda) : World :=
  ⟨{ Link.start with linux := some (Linux.started garbage) }, none, fun _ => .idle, [], [], [], []⟩

/-- The Linux process with its threads. -/
def threads (w : World) : Option Threads :=
  w.link.linux.map fun linux => ⟨linux, w.holder, w.clients, w.accesses⟩

def client (o : ByteOrder) (w : World) (x : ClientStep) : World :=
  match w.threads with
  | none => w
  | some threads =>
    let threads' := threads.step o x.event
    let posted := (threads.posts x).toList
    { w with
      link := { w.link with
        linux := some threads'.linux
        toBoard := w.link.toBoard ++ posted.map fun (p, packet) => ⟨packet, p.lambda.text⟩ }
      holder := threads'.holder
      clients := threads'.clients
      accesses := threads'.log
      issued := w.issued ++ posted.map fun (p, _) => p.call }

/-- The handler wakes clients, and stores in the call states. -/
def deliver (o : ByteOrder) (env : Env) (w : World) : World :=
  match w.threads, w.link.toLinux with
  | some threads, p :: _ =>
    { w with
      link := w.link.deliver o env
      clients := (threads.packet o ⟨env, p.packet⟩).clients }
  | _, _ => w

def send (o : ByteOrder) (env : Env) (w : World) (target : Target) (result : Result) :
    Option World := do
  let (_, sent) ← w.link.board.sendResultTo o env target result
  let link ← w.link.send o env target result
  let lambda := if sent = [] then none else w.link.board.addressee target
  let product := lambda.map fun lambda => ⟨lambda, result⟩
  return { w with link, produced := w.produced ++ product.toList }

def serve (o : ByteOrder) (env : Env) (ev : Evaluators) (w : World) : Option World :=
  match w.link.toBoard with
  | [] => some w
  | r :: _ => do
    let served ← Board.handleReceivedPacket o env ev w.link.board r.packet
    let link ← w.link.serve o env ev
    return { w with
      link
      evaluated := w.evaluated ++ served.invoked.toList
      produced := w.produced ++ (served.invoked.bind ev.produce).toList }

/-- `none`: the board ran into undefined behaviour. -/
def step (o : ByteOrder) (w : Option World) (e : WorldEvent) : Option World := do
  let w ← w
  match e with
  | .operate env op =>
    let link ← w.link.operate env op
    return { w with link }
  | .send env target result => w.send o env target result
  | .client x => return w.client o x
  | .deliver env => return w.deliver o env
  | .serve env ev => w.serve o env ev
  | .loseToLinux i => return { w with link := w.link.loseToLinux i }
  | .loseToBoard i => return { w with link := w.link.loseToBoard i }

end World

end RS
