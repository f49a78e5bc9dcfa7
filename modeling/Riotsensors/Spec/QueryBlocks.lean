import Riotsensors.Lib.Heap
import Riotsensors.Spec.SplitQuery

/-! `split_query` with its allocations, and `free_coap_query` (`rs_coap_utils.c`). The list and its
texts are blocks of one heap. -/

namespace RS.CoapUtils

open CMem

inductive Block where
  /-- `struct coap_query` -/
  | query (key value next : Option ℕ)
  | text (bytes : List UInt8)

/-- `struct coap_queries`, with the heap and the last element. -/
structure Splitting where
  heap : Heap Block
  num : UInt8
  first : Option ℕ
  last : Option ℕ

/-- The allocations for one parameter, and its place in the list. -/
def Splitting.append (s : Splitting) (q : CoapQuery) : Option Splitting := do
  let current := s.heap.next
  let heap := s.heap.alloc (.query none none none)
  let key := heap.next
  let heap := heap.alloc (.text q.key)
  let value := heap.next
  let heap := heap.alloc (.text q.value)
  let heap ← heap.store current (.query key value none)
  match s.last with
  | none => return ⟨heap, s.num + 1, some current, some current⟩
  | some last =>
    match heap.block last with
    | some (.query key value _) =>
      let heap ← heap.store last (.query key value (some current))
      return ⟨heap, s.num + 1, s.first, some current⟩
    | _ => none

/-- The loop over the tokens, from the `k`-th on. -/
def splitBlocksLoop (mem : Memory) (working : List UInt8) (save k : ℕ) (s : Splitting) :
    Option Splitting :=
  match _h : strtok AMPERSAND working save with
  | none => none
  | some (_, _, none) => some s
  | some (working', save', some ptr) =>
    match (newQuery mem k working' ptr).bind s.append with
    | none => none
    | some s' => splitBlocksLoop mem working' save' (k + 1) s'
termination_by working.length - save
decreasing_by
  have hadvances := strtok_advances _h
  omega

def splitQueryBlocks (mem : Memory) (heap : Heap Block) (strquery : List UInt8) :
    Option Splitting := do
  let len := strquery.length
  let working ← memcpy (uninit (len + 1) mem.junk) strquery 0 len
  let working ← poke working len [0]
  splitBlocksLoop mem working 0 0 ⟨heap, 0, none, none⟩

/-- What is read from `current` on, in at most `budget` elements. -/
def readQueries (heap : Heap Block) : ℕ → Option ℕ → Option (List CoapQuery)
  | _, none => some []
  | 0, some _ => none
  | budget + 1, some current =>
    match heap.block current with
    | some (.query (some key) (some value) next) =>
      match heap.block key, heap.block value with
      | some (.text key), some (.text value) =>
        (readQueries heap budget next).map (⟨key, value⟩ :: ·)
      | _, _ => none
    | _ => none

/-- The loop of `free_coap_query` from `current` on. `none`: it frees, or reads, what is no live
block. -/
def freeCoapQuery (heap : Heap Block) : Option ℕ → Option (Heap Block)
  | none => some heap
  | some current =>
    match heap.block current with
    | some (.query key value next) =>
      match _h : ((heap.freeAt key).bind fun heap => heap.freeAt value).bind fun heap =>
          heap.free current with
      | some heap' => freeCoapQuery heap' next
      | none => none
    | _ => none
termination_by heap.live.card
decreasing_by
  obtain ⟨h₂, hkeys, hnode⟩ := Option.bind_eq_some_iff.mp _h
  obtain ⟨h₁, hkey, hvalue⟩ := Option.bind_eq_some_iff.mp hkeys
  exact (Heap.card_live_of_free hnode).trans_le
    ((Heap.card_live_of_freeAt hvalue).trans (Heap.card_live_of_freeAt hkey))

end RS.CoapUtils
