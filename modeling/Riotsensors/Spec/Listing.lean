import Riotsensors.Spec.Rest
import Riotsensors.Spec.Threads

/-! The loops of the REST listings (`rs_rest.cpp`) while the other threads go on: they read the
registry without the mutex. A record is looked up in one step and read in the next one. -/

namespace RS

/-- Where the loop stands. -/
inductive Cursor where
  /-- before the test of the loop, for `i` -/
  | looping (i : LambdaId)
  | found (i : LambdaId) (lambda : RsRegisteredLambda ArgPtr)
  | ended
  /-- The record was freed, or cannot be printed. -/
  | undefined

structure ListLoop where
  threads : Threads
  cursor : Cursor
  members : Body
  count : LambdaId

inductive LoopEvent where
  | thread (e : ThreadEvent)
  | round

namespace ListLoop

/-- A listing is asked for. -/
def start (threads : Threads) : ListLoop := ⟨threads, .looping 0, [], 0⟩

-- `keep` is the test before the `continue`, `print` what is written for a lambda.
variable (keep : RsRegisteredLambda ArgPtr → Bool)
  (print : Linux → RsRegisteredLambda ArgPtr → Option Body)

def round (s : ListLoop) : ListLoop :=
  match s.cursor with
  | .looping i =>
    if i < getNumberOfRegisteredLambdas s.threads.linux.registry then
      match getRegisteredLambdaById s.threads.linux.registry i with
      | none => { s with cursor := .looping (i + 1) }
      | some lambda => { s with cursor := .found i lambda }
    else { s with cursor := .ended }
  | .found i lambda =>
    if (s.threads.linux.entry lambda).isNone then { s with cursor := .undefined }
    else if keep lambda then
      match print s.threads.linux lambda with
      | none => { s with cursor := .undefined }
      | some value =>
        { s with
          cursor := .looping (i + 1)
          members := s.members ++ .key (toString lambda.id.toNat) :: value
          count := s.count + 1 }
    else { s with cursor := .looping (i + 1) }
  | _ => s

def step (o : ByteOrder) (s : ListLoop) : LoopEvent → ListLoop
  | .thread e => { s with threads := s.threads.step o e }
  | .round => s.round keep print

/-- The answer once the loop has ended. -/
def body (s : ListLoop) : Body :=
  [.startObject, .key "lambdas", .startObject] ++ s.members ++
    [.endObject, .key "count", .value (.int s.count.toNat), .endObject]

end ListLoop

end RS
