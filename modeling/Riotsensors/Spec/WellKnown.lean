import Riotsensors.Spec.CoapTexts

/-! `.well-known/core` on the board (`handle_get_well_known_core` in `rs_coap_server.c`), for any
table of endpoints. -/

namespace RS.Board

open CMem

variable (m : DataModel)

/-- An entry of `endpoints`, as far as the handler reads it: `core_attr` may be NULL. -/
structure CoapEndpoint where
  path : List (List UInt8)
  coreAttr : Option (List UInt8)

/-- `endpoints`, without the entry that marks its end. -/
def endpoints : List CoapEndpoint :=
  [⟨[ascii ".well-known", ascii "core"], some (ascii "ct=40")⟩,
    ⟨[ascii "riot", ascii "board"], some (ascii "ct=0")⟩,
    ⟨[ascii "list"], some (ascii "ct=50")⟩,
    ⟨[ascii "call", ascii "name"], some (ascii "ct=50")⟩,
    ⟨[ascii "call", ascii "id"], some (ascii "ct=50")⟩]

/-- `rsp` and `len` -/
structure CoreState where
  rsp : List UInt8
  len : ℕ

/-- `strncat(rsp, src, len); len -= strlen(src)`, with a `size_t` for `len`. -/
def CoreState.append (s : CoreState) (src : List UInt8) : Option CoreState := do
  let rsp ← strncat s.rsp src s.len
  return ⟨rsp, if strlen src ≤ s.len then s.len - strlen src
    else s.len + 2 ^ m.sizeBits - strlen src⟩

def coreRound (s : CoreState) (ep : CoapEndpoint) : Option CoreState :=
  match ep.coreAttr with
  | none => some s
  | some coreAttr => do
    let s ← if 0 < strlen s.rsp then s.append m (ascii ",") else some s
    let s ← s.append m (ascii "<")
    let s ← ep.path.foldlM (fun s elem => do
      let s ← s.append m (ascii "/")
      s.append m elem) s
    let s ← s.append m (ascii ">;")
    s.append m coreAttr

/-- The payload of the response. `none`: the text leaves `response`. -/
def handleGetWellKnownCore (endpoints : List CoapEndpoint) : Option (List UInt8) := do
  let s ← endpoints.foldlM (coreRound m)
    ⟨List.replicate MAX_RESPONSE_LEN 0, MAX_RESPONSE_LEN - 1⟩
  return cstr s.rsp

end RS.Board
