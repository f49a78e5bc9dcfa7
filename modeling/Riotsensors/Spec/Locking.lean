import Riotsensors.Lib.Mutex
import Riotsensors.Spec.Client

/-! `call_lambda_by_id`, `call_lambda_by_name`, `check_lambda_cache` and `wait_lambda_result` with
every operation on `accessing_registry` at its place. Between any two operations the packet handler,
which does not take the mutex, may change the registry and the call states. -/

namespace RS.Locking

open Mutex

/-- What the client threads share with each other and with the packet handler. -/
structure Shared where
  linux : Linux
  /-- what a record reads as once it was freed -/
  freed : RsRegisteredLambda ArgPtr → RsRegisteredLambda ArgPtr
  /-- the call packets -/
  sent : List Packet

/-- `*lambda` -/
def Shared.deref (m : Shared) (lambda : RsRegisteredLambda ArgPtr) : RsRegisteredLambda ArgPtr :=
  if (m.linux.registry.slot lambda.id.toNat).isSome then lambda else m.freed lambda

/-- `*arg` -/
abbrev Shared.arg (m : Shared) (arg : ArgPtr) : RsLinuxRegisteredLambda := m.linux.heap arg

def Shared.setLastCallError (m : Shared) (arg : ArgPtr) (code : Int8) : Shared :=
  { m with linux := m.linux.setArg arg { m.arg arg with lastCallError := code } }

/-- A code, and what was stored in `*result`. -/
abbrev Answer := Int8 × Option GenericLambdaReturn

def waitLambdaResult (lambda : RsRegisteredLambda ArgPtr) : Prog Shared Answer := do
  let arg ← read fun m => (m.deref lambda).arg
  let timedOut ← timedwait
  if timedOut then
    let lastCallError ← read fun m => (m.arg arg).lastCallError
    if lastCallError ≠ 0 then
      let errorCode ← read fun m => (m.arg arg).lastCallError
      write fun m => m.setLastCallError arg 0
      unlock
      return (errorCode, none)
    let cache ← read fun m => (m.deref lambda).cache
    if cache = RS_CACHE_ON_TIMEOUT then
      let dataCached ← read fun m => (m.arg arg).dataCached
      if dataCached then
        let ret ← read fun m => (m.arg arg).ret
        unlock
        return (RS_CALL_CACHE_TIMEOUT, some ret)
      else
        unlock
        return (RS_CALL_CACHE_TIMEOUT_EMPTY, none)
    else
      unlock
      return (RS_CALL_TIMEOUT, none)
  let ret ← read fun m => (m.arg arg).ret
  unlock
  return (RS_CALL_SUCCESS, some ret)

def checkLambdaCache (lambda : RsRegisteredLambda ArgPtr) : Prog Shared Answer := do
  let arg ← read fun m => (m.deref lambda).arg
  let cache ← read fun m => (m.deref lambda).cache
  if cache = RS_CACHE_NO_CACHE then
    return (RS_CALL_SUCCESS, none)
  else if cache = RS_CACHE_CALL_ONCE then
    let dataCached ← read fun m => (m.arg arg).dataCached
    if dataCached then
      let ret ← read fun m => (m.arg arg).ret
      return (RS_CALL_CACHE, some ret)
    else
      return (RS_CALL_SUCCESS, none)
  else if cache = RS_CACHE_ONLY then
    let dataCached ← read fun m => (m.arg arg).dataCached
    if dataCached then
      let ret ← read fun m => (m.arg arg).ret
      return (RS_CALL_CACHE, some ret)
    else
      return (RS_CALL_CACHE_EMPTY, none)
  else
    return (RS_CALL_SUCCESS, none)

/-- `spt_send_packet`. Where the name does not fit the packet nothing is known to be sent. -/
def sptSendPacket (pkt : Option Packet) : Prog Shared Unit :=
  write fun m => { m with sent := m.sent ++ pkt.toList }

/-- The common body of the two calls: `lookup` finds the record, `pkt` is the call packet. -/
def callLambdaBy (lookup : Linux → Option (RsRegisteredLambda ArgPtr))
    (expectedType : RsLambdaType) (pkt : Option Packet) : Prog Shared Answer := do
  lock
  let found ← read fun m => lookup m.linux
  match found with
  | none =>
    unlock
    return (RS_CALL_NOTFOUND, none)
  | some lambda =>
    let type ← read fun m => (m.deref lambda).type
    if type ≠ expectedType then
      unlock
      return (RS_CALL_WRONGTYPE, none)
    let (cacheResult, written) ← checkLambdaCache lambda
    if cacheResult ≠ 0 then
      unlock
      return (cacheResult, written)
    sptSendPacket pkt
    waitLambdaResult lambda

def callLambdaById (env : Env) (id : LambdaId) (expectedType : RsLambdaType) :
    Prog Shared Answer :=
  callLambdaBy (fun s => getRegisteredLambdaById s.registry id) expectedType
    (Linux.callByIdPacket env id expectedType)

def callLambdaByName (env : Env) (name : List UInt8) (expectedType : RsLambdaType) :
    Prog Shared Answer :=
  callLambdaBy (fun s => getRegisteredLambdaByName s.registry name) expectedType
    (Linux.callByNamePacket env name expectedType)

/-- A call with what its packet object held before. -/
def callLambda : Env × Call → Prog Shared Answer
  | (env, .byId id expectedType) => callLambdaById env id expectedType
  | (env, .byName name expectedType) => callLambdaByName env name expectedType

/-- Client threads that call the lambdas, each one call after the other. -/
abbrev Clients := Pool Shared Answer

end RS.Locking
