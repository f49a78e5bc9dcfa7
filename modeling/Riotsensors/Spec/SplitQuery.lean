import Riotsensors.Lib.Chain
import Riotsensors.Lib.CStrings
import Riotsensors.Spec.Options

/-! `split_query` (`rs_coap_utils.c`). Every allocation is an object of its own, and an access
outside of one fails. -/

namespace RS.CoapUtils

open CMem

/-- `'&'` -/
abbrev AMPERSAND : UInt8 := 38

/-- `index_of(obj + i, search)` -/
def indexOfAt (obj : List UInt8) (i : ℕ) (search : UInt8) : Option ℤ :=
  (strchrAt obj i search).map fun
    | some movedString => (movedString : ℤ) - i
    | none => -1

structure CoapQuery where
  key : List UInt8
  value : List UInt8

structure CoapQueries where
  num : UInt8
  first : Chain CoapQuery

/-- What an access outside an object may meet. -/
structure Memory where
  /-- the bytes that `malloc` adds to a block for the `k`-th parameter -/
  spare : ℕ → ℕ
  /-- the bytes behind `working` -/
  behind : List UInt8
  /-- the contents of fresh memory -/
  junk : List UInt8

/-- Nothing lies around the objects. -/
def Memory.exact (junk : List UInt8) : Memory := ⟨fun _ => 0, [], junk⟩

def malloc (mem : Memory) (k n : ℕ) : List UInt8 := uninit (n + mem.spare k) mem.junk

/-- The element of the list for the `k`-th token, which is at `ptr`. -/
def newQuery (mem : Memory) (k : ℕ) (working : List UInt8) (ptr : ℕ) : Option CoapQuery := do
  let lentotal ← strlenAt working ptr
  let lenkey ← indexOfAt working ptr EQUALS
  if lenkey = -1 then
    let key ← memcpy (malloc mem k (lentotal + 1)) (working ++ mem.behind) ptr (lentotal + 1)
    let value ← poke (malloc mem k 1) 0 [0]
    return ⟨key, value⟩
  else
    let lenkey := lenkey.toNat
    let key ← memcpy (malloc mem k (lenkey + 1)) (working ++ mem.behind) ptr lenkey
    let key ← poke key lenkey [0]
    let value ← memcpy (malloc mem k (lentotal - lenkey)) (working ++ mem.behind)
      (ptr + lenkey + 1) (lentotal - lenkey + 1)
    let value ← poke value (lentotal - lenkey) [0]
    return ⟨key, value⟩

/-- The loop over the tokens. -/
def splitLoop (mem : Memory) (working : List UInt8) (save : ℕ) (result : CoapQueries) :
    Option CoapQueries :=
  match _h : strtok AMPERSAND working save with
  | none => none
  | some (_, _, none) => some result
  | some (working', save', some ptr) =>
    match newQuery mem result.first.nodes.length working' ptr with
    | none => none
    | some current => splitLoop mem working' save' ⟨result.num + 1, result.first.append current⟩
termination_by working.length - save
decreasing_by
  have hadvances := strtok_advances _h
  omega

/-- `split_query`, whose `len` is the length of `strquery`. -/
def splitQuery (mem : Memory) (strquery : List UInt8) : Option CoapQueries := do
  let len := strquery.length
  let working ← memcpy (uninit (len + 1) mem.junk) strquery 0 len
  let working ← poke working len [0]
  splitLoop mem working 0 ⟨0, Chain.empty⟩

end RS.CoapUtils
