import Riotsensors.Proofs.QueryOptions
import Riotsensors.Spec.WellKnown

/-! `.well-known/core` for every table of endpoints: the links of the table in its order, as far as
they fit. The first piece that does not fit is cut; one more leaves `response`. -/

namespace RS.Board

open CMem

variable {m : DataModel} {s : CoreState} {text : List UInt8}

/-- The link of an endpoint. -/
def link (ep : CoapEndpoint) (coreAttr : List UInt8) : List UInt8 :=
  ascii "<" ++ ep.path.flatMap (fun elem => ascii "/" ++ cstr elem) ++ ascii ">;" ++ cstr coreAttr

def links (eps : List CoapEndpoint) : List (List UInt8) :=
  eps.filterMap fun ep => ep.coreAttr.map (link ep)

/-- The document of a table: its links with a comma between any two. -/
def coreDocument (eps : List CoapEndpoint) : List UInt8 :=
  match links eps with
  | [] => []
  | l :: ls => l ++ ls.flatMap (ascii "," ++ ·)

/-- What is appended for a link. -/
def linkPieces (ep : CoapEndpoint) (coreAttr : List UInt8) : List (List UInt8) :=
  ascii "<" :: ep.path.flatMap (fun elem => [ascii "/", elem]) ++ [ascii ">;", coreAttr]

/-- What is appended for a table, behind another link or at the start. -/
def pieces : Bool → List CoapEndpoint → List (List UInt8)
  | _, [] => []
  | behind, ep :: eps =>
    match ep.coreAttr with
    | none => pieces behind eps
    | some coreAttr =>
      (if behind then [ascii ","] else []) ++ linkPieces ep coreAttr ++ pieces true eps

def joined (ps : List (List UInt8)) : List UInt8 := ps.flatMap cstr

/-- Each piece that is not empty starts before the end of `response`. -/
def StartInside : List UInt8 → List (List UInt8) → Prop
  | _, [] => True
  | text, p :: ps => (text.length < MAX_RESPONSE_LEN ∨ cstr p = []) ∧
      StartInside (text ++ cstr p) ps

instance StartInside.decidable : ∀ text ps, Decidable (StartInside text ps)
  | _, [] => isTrue trivial
  | text, p :: ps => @instDecidableAnd _ _ _ (StartInside.decidable (text ++ cstr p) ps)

/-- `response` holds what there is room for of a text, and `len` has wrapped if there was not
enough. -/
structure CoreState.Holds (m : DataModel) (s : CoreState) (text : List UInt8) : Prop where
  size : s.rsp.length = MAX_RESPONSE_LEN
  rsp : cstr s.rsp = text.take (MAX_RESPONSE_LEN - 1)
  len : s.len = if text.length < MAX_RESPONSE_LEN then MAX_RESPONSE_LEN - 1 - text.length
    else 2 ^ m.sizeBits + (MAX_RESPONSE_LEN - 1) - text.length

theorem CoreState.Holds.append (h : s.Holds m text) {p : List UInt8}
    (hp : text.length < MAX_RESPONSE_LEN ∨ cstr p = [])
    (hsmall : (text ++ cstr p).length < 2 ^ m.sizeBits) :
    ∃ s', s.append m p = some s' ∧ s'.Holds m (text ++ cstr p) := by
  have hstrlen : strlen s.rsp = min (MAX_RESPONSE_LEN - 1) text.length := by
    rw [strlen, h.rsp, List.length_take]
  have htake : (cstr p).take s.len = (cstr p).take (MAX_RESPONSE_LEN - 1 - text.length) := by
    rcases hp with hroom | hempty
    · rw [h.len, if_pos hroom]
    · rw [hempty, List.take_nil, List.take_nil]
  have hfits : strlen s.rsp + ((cstr p).take s.len).length < s.rsp.length := by
    rw [htake, hstrlen, h.size, List.length_take]
    simp only [MAX_RESPONSE_LEN]
    omega
  obtain ⟨rsp, hcat, hsize, hrsp⟩ := strncat_spec hfits
  refine ⟨_, by rw [CoreState.append, hcat]; rfl, hsize.trans h.size, ?_, ?_⟩
  · rw [hrsp, h.rsp, htake, List.take_append]
  · have hlen := h.len
    have hplen : strlen p = (cstr p).length := rfl
    have hzero : cstr p = [] → (cstr p).length = 0 := fun hnil => by rw [hnil]; rfl
    rw [List.length_append] at hsmall ⊢
    simp only [hplen]
    split_ifs at hlen ⊢ <;> omega

theorem CoreState.Holds.append_none (h : s.Holds m text) {p : List UInt8}
    (hp : ¬ (text.length < MAX_RESPONSE_LEN ∨ cstr p = []))
    (hsmall : (text ++ cstr p).length < 2 ^ m.sizeBits) : s.append m p = none := by
  rw [not_or] at hp
  have hpos : 0 < (cstr p).length := List.length_pos_of_ne_nil hp.2
  have hlen := h.len
  rw [if_neg hp.1] at hlen
  rw [List.length_append] at hsmall
  have hfull : strncat s.rsp p s.len = none := by
    rw [strncat_eq_none, strlen, h.rsp, h.size, List.length_take, List.length_take]
    omega
  rw [CoreState.append, hfull]
  rfl

/-- All pieces are appended if each starts inside, and otherwise one leaves `response`. -/
theorem CoreState.Holds.append_all (h : s.Holds m text) (ps : List (List UInt8))
    (hsmall : (text ++ joined ps).length < 2 ^ m.sizeBits) :
    (StartInside text ps ∧ ∃ s', ps.foldlM (CoreState.append m) s = some s' ∧
      s'.Holds m (text ++ joined ps)) ∨
    (¬ StartInside text ps ∧ ps.foldlM (CoreState.append m) s = none) := by
  induction ps generalizing s text with
  | nil =>
    refine .inl ⟨trivial, s, rfl, ?_⟩
    rwa [joined, List.flatMap_nil, List.append_nil]
  | cons p ps ih =>
    rw [joined, List.flatMap_cons, ← List.append_assoc] at hsmall
    have hfirst : (text ++ cstr p).length < 2 ^ m.sizeBits := by
      rw [List.length_append] at hsmall
      omega
    rw [List.foldlM_cons, joined, List.flatMap_cons, ← List.append_assoc, StartInside]
    by_cases hp : text.length < MAX_RESPONSE_LEN ∨ cstr p = []
    · obtain ⟨s', hs', hholds⟩ := h.append hp hfirst
      rw [hs', and_iff_right hp, Option.bind_eq_bind, Option.bind_some]
      exact ih hholds hsmall
    · rw [h.append_none hp hfirst]
      exact .inr ⟨fun hall => hp hall.1, rfl⟩

/-! ## The table -/

theorem foldlM_path (path : List (List UInt8)) (s : CoreState) :
    path.foldlM (fun s elem => do
      let s ← s.append m (ascii "/")
      s.append m elem) s =
      (path.flatMap fun elem => [ascii "/", elem]).foldlM (CoreState.append m) s := by
  induction path generalizing s with
  | nil => rfl
  | cons elem path ih =>
    have hpair : ∀ s : CoreState, [ascii "/", elem].foldlM (CoreState.append m) s =
        s.append m (ascii "/") >>= fun s => s.append m elem := fun s => by
      simp only [List.foldlM_cons, List.foldlM_nil, bind_pure]
    rw [List.foldlM_cons, List.flatMap_cons, List.foldlM_append, hpair]
    exact congrArg _ (funext ih)

theorem coreRound_eq (s : CoreState) (ep : CoapEndpoint) {coreAttr : List UInt8}
    (hattr : ep.coreAttr = some coreAttr) :
    coreRound m s ep = ((if 0 < strlen s.rsp then [ascii ","] else []) ++
      linkPieces ep coreAttr).foldlM (CoreState.append m) s := by
  by_cases hpos : 0 < strlen s.rsp
  · simp only [coreRound, hattr, linkPieces, if_pos hpos, List.foldlM_append, List.cons_append,
      List.foldlM_cons, List.foldlM_nil, foldlM_path, bind_pure, pure_bind]
  · simp only [coreRound, hattr, linkPieces, if_neg hpos, List.foldlM_append, List.cons_append,
      List.foldlM_cons, List.foldlM_nil, foldlM_path, bind_pure, pure_bind]
    rfl

theorem joined_append (ps qs : List (List UInt8)) : joined (ps ++ qs) = joined ps ++ joined qs :=
  List.flatMap_append

theorem startInside_append (text : List UInt8) (ps qs : List (List UInt8)) :
    StartInside text (ps ++ qs) ↔ StartInside text ps ∧ StartInside (text ++ joined ps) qs := by
  induction ps generalizing text with
  | nil => rw [joined, List.flatMap_nil, List.append_nil, List.nil_append, StartInside, true_and]
  | cons p ps ih =>
    rw [List.cons_append, StartInside, StartInside, ih, joined, joined, List.flatMap_cons,
      List.append_assoc, and_assoc]

theorem joined_linkPieces (ep : CoapEndpoint) (coreAttr : List UInt8) :
    joined (linkPieces ep coreAttr) = link ep coreAttr := by
  have hpath : joined (ep.path.flatMap fun elem => [ascii "/", elem]) =
      ep.path.flatMap fun elem => ascii "/" ++ cstr elem := by
    rw [joined, List.flatMap_assoc]
    refine congrArg₂ List.flatMap (funext fun elem => ?_) rfl
    simp [show cstr (ascii "/") = ascii "/" from rfl]
  rw [linkPieces, List.cons_append, joined, List.flatMap_cons]
  change _ ++ joined _ = _
  rw [joined_append, hpath]
  simp [joined, link, show cstr (ascii "<") = ascii "<" from rfl,
    show cstr (ascii ">;") = ascii ">;" from rfl]

theorem joined_pieces_true (eps : List CoapEndpoint) :
    joined (pieces true eps) = (links eps).flatMap (ascii "," ++ ·) := by
  induction eps with
  | nil => rfl
  | cons ep eps ih =>
    cases hattr : ep.coreAttr with
    | none => simp only [pieces, hattr, ih, links, List.filterMap_cons, Option.map_none]
    | some coreAttr =>
      simp only [pieces, hattr, if_true, joined_append, ih, joined_linkPieces, links,
        List.filterMap_cons, Option.map_some, List.flatMap_cons]
      rfl

theorem joined_pieces_false (eps : List CoapEndpoint) :
    joined (pieces false eps) = coreDocument eps := by
  induction eps with
  | nil => rfl
  | cons ep eps ih =>
    cases hattr : ep.coreAttr with
    | none =>
      simp only [pieces, hattr, ih, coreDocument, links, List.filterMap_cons, Option.map_none]
    | some coreAttr =>
      simp only [pieces, hattr, Bool.false_eq_true, if_false, List.nil_append, joined_append,
        joined_linkPieces, joined_pieces_true, coreDocument, links, List.filterMap_cons,
        Option.map_some]

/-- The rounds append the pieces of their endpoints. -/
theorem CoreState.Holds.table (h : s.Holds m text) {behind : Bool}
    (hbehind : behind = true ↔ text ≠ []) (eps : List CoapEndpoint)
    (hsmall : (text ++ joined (pieces behind eps)).length < 2 ^ m.sizeBits) :
    (StartInside text (pieces behind eps) ∧ ∃ s', eps.foldlM (coreRound m) s = some s' ∧
      s'.Holds m (text ++ joined (pieces behind eps))) ∨
    (¬ StartInside text (pieces behind eps) ∧ eps.foldlM (coreRound m) s = none) := by
  induction eps generalizing s text behind with
  | nil =>
    refine .inl ⟨trivial, s, rfl, ?_⟩
    rwa [pieces, joined, List.flatMap_nil, List.append_nil]
  | cons ep eps ih =>
    rw [List.foldlM_cons]
    cases hattr : ep.coreAttr with
    | none =>
      have hskip : coreRound m s ep = some s := by rw [coreRound, hattr]
      simp only [pieces, hattr] at hsmall ⊢
      rw [hskip]
      exact ih h hbehind hsmall
    | some coreAttr =>
      have hcomma : (if 0 < strlen s.rsp then [ascii ","] else []) =
          if behind then [ascii ","] else [] := by
        have hpos : 0 < strlen s.rsp ↔ behind = true := by
          rw [hbehind, strlen, h.rsp, List.length_take, ← List.length_pos_iff]
          simp only [MAX_RESPONSE_LEN]
          omega
        simp only [hpos]
      obtain ⟨first, hfirst⟩ : ∃ first, first =
          (if behind then [ascii ","] else []) ++ linkPieces ep coreAttr := ⟨_, rfl⟩
      have hne : joined first ≠ [] := by
        rw [hfirst, joined_append, joined_linkPieces]
        simp [link, ascii]
      simp only [pieces, hattr, ← hfirst] at hsmall ⊢
      rw [coreRound_eq s ep hattr, hcomma, ← hfirst, startInside_append, joined_append,
        ← List.append_assoc]
      rw [joined_append, ← List.append_assoc] at hsmall
      have hshort : (text ++ joined first).length < 2 ^ m.sizeBits := by
        rw [List.length_append] at hsmall
        omega
      rcases h.append_all first hshort with ⟨hinside, s', hs', hholds⟩ | ⟨hout, hnone⟩
      · rw [hs', and_iff_right hinside, Option.bind_eq_bind, Option.bind_some]
        refine ih hholds ?_ hsmall
        exact iff_of_true rfl (List.append_ne_nil_of_right_ne_nil text hne)
      · rw [hnone]
        exact .inr ⟨fun hall => hout hall.1, rfl⟩

/-- The response is the document of the table up to its 499th byte, as long as no piece that is not
empty starts behind that; otherwise the text leaves `response`. -/
theorem handleGetWellKnownCore_eq (eps : List CoapEndpoint)
    (hsmall : (coreDocument eps).length < 2 ^ m.sizeBits) :
    handleGetWellKnownCore m eps =
      if StartInside [] (pieces false eps) then
        some ((coreDocument eps).take (MAX_RESPONSE_LEN - 1))
      else none := by
  have hstart : CoreState.Holds m
      ⟨List.replicate MAX_RESPONSE_LEN 0, MAX_RESPONSE_LEN - 1⟩ [] := by
    refine ⟨List.length_replicate, ?_, rfl⟩
    rw [MAX_RESPONSE_LEN, List.replicate_succ, cstr_cons_zero]
    rfl
  rw [← joined_pieces_false] at hsmall
  rw [handleGetWellKnownCore]
  rcases hstart.table (by simp) eps hsmall with ⟨hinside, s', hs', hholds⟩ | ⟨hout, hnone⟩
  · rw [hs', if_pos hinside, ← joined_pieces_false]
    exact congrArg some hholds.rsp
  · rw [hnone, if_neg hout]
    rfl

/-- The five endpoints of the board. -/
theorem handleGetWellKnownCore_endpoints : handleGetWellKnownCore .ilp32 endpoints =
    some (ascii ("</.well-known/core>;ct=40,</riot/board>;ct=0,</list>;ct=50," ++
      "</call/name>;ct=50,</call/id>;ct=50")) := by
  have hsmall : (coreDocument endpoints).length < 2 ^ DataModel.ilp32.sizeBits := by
    decide +kernel
  rw [handleGetWellKnownCore_eq endpoints hsmall, if_pos (by decide +kernel)]
  decide +kernel

end RS.Board
