import Riotsensors.Lib.JsonDocument
import Riotsensors.Proofs.ListResponse
import Riotsensors.Proofs.RequestedIds
import Riotsensors.Sanity.Names

/-! The board's listing as a JSON text. No comma is printed between two entries, and a name that
fills its field is read on into the type byte, a control character. -/

namespace RS.Board

open CMem JsonText Numerals

variable {m : DataModel} {b : Board}

/-- The object for a lambda. -/
def lambdaValue (l : RsRegisteredLambda FuncPtr) : Value :=
  .object [(ascii "id", .int l.id.toNat), (ascii "name", .string (cstr l.name)),
    (ascii "type", .int l.type.toNat), (ascii "cache", .int l.cache.toNat)]

/-- The document that lists the lambdas. -/
def listValue (ls : List (RsRegisteredLambda FuncPtr)) : Value :=
  .object [
    (ascii "lambdas", .object (ls.map fun l => (decimal l.id.toNat, lambdaValue l))),
    (ascii "count", .int ls.length)]

/-- The tokens of an entry. -/
def entryTokens (l : RsRegisteredLambda FuncPtr) : List Token :=
  .string (decimal l.id.toNat) :: .colon :: (lambdaValue l).tokens

theorem plain_name {l : RsRegisteredLambda FuncPtr} (h : l.Spelled) : Plain (cstr l.name) := by
  have hall : ∀ f : Fin 256, isalnum (UInt8.ofFin f) = true →
      32 ≤ UInt8.ofFin f ∧ UInt8.ofFin f ≠ 34 ∧ UInt8.ofFin f ≠ 92 ∧ UInt8.ofFin f ≤ 0x7F := by
    decide +kernel
  exact plain_of_ascii fun c hc => hall c.toFin (h.alnum c hc)

/-- The text before a name. -/
theorem complete_entry_start (l : RsRegisteredLambda FuncPtr) (ds : List UInt8) :
    complete .between (ascii "\"" ++ (decimal l.id.toNat ++ (ascii "\": \x7b\"id\": " ++
        (decimal l.id.toNat ++ (ascii ",\"name\":\"" ++ ds))))) =
      (complete (.string [] false) ds).map ([.string (decimal l.id.toNat), .colon, .opening,
        .string (ascii "id"), .colon, .int l.id.toNat, .comma, .string (ascii "name"),
        .colon] ++ ·) := by
  have hquote : scan .between (ascii "\"") = some ([], .string [] false) := rfl
  have hid : ascii "\": \x7b\"id\": " = 34 :: ascii ": \x7b\"id\": " := rfl
  have hid' : scan .between (ascii ": \x7b\"id\": ") =
    some ([.colon, .opening, .string (ascii "id"), .colon], .between) := rfl
  have hname : ascii ",\"name\":\"" = 44 :: ascii "\"name\":\"" := rfl
  have hname' : scan .between (44 :: ascii "\"name\":\"") =
    some ([.comma, .string (ascii "name"), .colon], .string [] false) := rfl
  rw [complete_append hquote, hid, List.cons_append, complete_string_of_plain (plain_decimal _),
    complete_append hid', hname, List.cons_append, complete_decimal _ rfl, ← List.cons_append,
    complete_append hname']
  cases complete (.string [] false) ds <;> rfl

/-- The text behind a name. -/
theorem complete_entry_end (type cache : ℕ) (ds : List UInt8) :
    complete .between (ascii ",\"type\":" ++ (decimal type ++ (ascii ",\"cache\":" ++
        (decimal cache ++ (ascii "\x7d" ++ ds))))) =
      (complete .between ds).map ([.comma, .string (ascii "type"), .colon, .int type, .comma,
        .string (ascii "cache"), .colon, .int cache, .closing] ++ ·) := by
  have htype : scan .between (ascii ",\"type\":") =
    some ([.comma, .string (ascii "type"), .colon], .between) := rfl
  have hcache : ascii ",\"cache\":" = 44 :: ascii "\"cache\":" := rfl
  have hcache' : scan .between (44 :: ascii "\"cache\":") =
    some ([.comma, .string (ascii "cache"), .colon], .between) := rfl
  have hend : ascii "\x7d" = [125] := rfl
  have hclosing : scan .between [125] = some ([.closing], .between) := rfl
  have hend' : complete .between (125 :: ds) = (complete .between ds).map ([.closing] ++ ·) :=
    complete_append hclosing ds
  rw [complete_append htype, hcache, List.cons_append, complete_decimal _ rfl, ← List.cons_append,
    complete_append hcache', hend, List.singleton_append, complete_decimal _ rfl, hend']
  cases complete .between ds <;> rfl

/-- A name is read with what follows if it is shorter than its field, and else refused. -/
theorem complete_name {l : RsRegisteredLambda FuncPtr} (h : l.Spelled) (ds : List UInt8) :
    complete (.string [] false) (l.text ++ (ascii "\",\"type\":" ++ (decimal l.type.toNat ++
        (ascii ",\"cache\":" ++ (decimal l.cache.toNat ++ (ascii "\x7d" ++ ds)))))) =
      if l.Terminated then
        (complete .between ds).map ([.string (cstr l.name), .comma, .string (ascii "type"), .colon,
          .int l.type.toNat, .comma, .string (ascii "cache"), .colon, .int l.cache.toNat,
          .closing] ++ ·)
      else none := by
  have htype : ascii "\",\"type\":" = 34 :: ascii ",\"type\":" := rfl
  split_ifs with hlt
  · rw [h.text_of_terminated hlt, htype, List.cons_append, complete_string_of_plain (plain_name h),
      complete_entry_end]
    cases complete .between ds <;> rfl
  · obtain ⟨rest, htext⟩ := h.text_of_not hlt
    obtain ⟨kind, hkind⟩ := h.typed
    have hcontrol : l.type < 32 := by
      rw [hkind]
      cases kind <;> decide
    rw [htext, List.append_assoc, List.cons_append, complete_string_control (plain_name h) hcontrol]

theorem complete_listEntry {l : RsRegisteredLambda FuncPtr} (h : l.Spelled) (ds : List UInt8) :
    complete .between (listEntry l ++ ds) =
      if l.Terminated then
        (complete .between ds).map (entryTokens l ++ ·)
      else none := by
  rw [listEntry_eq]
  simp only [List.append_assoc]
  rw [complete_entry_start, complete_name h]
  split_ifs
  · cases complete .between ds <;> rfl
  · rfl

theorem complete_entries {ls : List (RsRegisteredLambda FuncPtr)} (h : ∀ l ∈ ls, l.Spelled)
    (ds : List UInt8) :
    complete .between (ls.flatMap listEntry ++ ds) =
      if ∀ l ∈ ls, l.Terminated then
        (complete .between ds).map (ls.flatMap entryTokens ++ ·)
      else none := by
  induction ls with
  | nil => simp
  | cons l ls ih =>
    obtain ⟨hl, hls⟩ := List.forall_mem_cons.mp h
    rw [List.flatMap_cons, List.append_assoc, complete_listEntry hl, ih hls]
    by_cases hlt : l.Terminated
    · rw [if_pos hlt]
      by_cases hall : ∀ l ∈ ls, l.Terminated
      · rw [if_pos hall, if_pos (List.forall_mem_cons.mpr ⟨hlt, hall⟩)]
        cases complete .between ds <;> simp
      · rw [if_neg hall, if_neg fun h => hall (List.forall_mem_cons.mp h).2]
        rfl
    · rw [if_neg hlt, if_neg fun h => hlt (List.forall_mem_cons.mp h).1]

theorem complete_listTail (count : ℕ) :
    complete .between (listTail count) =
      some [.closing, .comma, .string (ascii "count"), .colon, .int count, .closing] := by
  have hcount : scan .between (ascii "\x7d,\"count\":") =
    some ([.closing, .comma, .string (ascii "count"), .colon], .between) := rfl
  have hend : ascii "\x7d" = [125] := rfl
  have hend' : complete .between [125] = some [.closing] := rfl
  rw [listTail_eq, complete_append hcount, hend, complete_decimal _ rfl, hend']
  rfl

/-- The tokens of a listing, if no name fills its field. -/
def listingTokens (ls : List (RsRegisteredLambda FuncPtr)) : List Token :=
  [.opening, .string (ascii "lambdas"), .colon, .opening] ++ (ls.flatMap entryTokens ++
    [.closing, .comma, .string (ascii "count"), .colon, .int ls.length, .closing])

theorem lex_listing {ls : List (RsRegisteredLambda FuncPtr)} (h : ∀ l ∈ ls, l.Spelled) :
    lex (listing ls) =
      if ∀ l ∈ ls, l.Terminated then some (listingTokens ls) else none := by
  have hhead : scan .between listHead =
    some ([.opening, .string (ascii "lambdas"), .colon, .opening], .between) := rfl
  rw [lex_eq_complete, listing, List.append_assoc, complete_append hhead, complete_entries h,
    complete_listTail]
  split_ifs <;> rfl

/-- Without commas only a listing of at most one lambda is a document: what follows the first
entry is the key of the second one. -/
theorem listingTokens_eq_iff (ls : List (RsRegisteredLambda FuncPtr)) :
    listingTokens ls = (listValue ls).tokens ↔ ls.length ≤ 1 := by
  cases ls with
  | nil => exact iff_of_true rfl (by decide)
  | cons l ls =>
    cases ls with
    | nil => exact iff_of_true rfl le_rfl
    | cons l' ls =>
      refine iff_of_false (fun h => ?_) (by simp)
      have hnext : some (Token.string (decimal l'.id.toNat)) = some Token.comma :=
        congrArg (fun ts => ts[23]?) h
      cases hnext

theorem mem_listed {r : Registry FuncPtr} {type : RsLambdaType} {l : RsRegisteredLambda FuncPtr}
    (hwf : r.WF) (h : l ∈ listed r type) : r.slot l.id.toNat = some l := by
  obtain ⟨i, -, hget⟩ := List.mem_filterMap.mp (List.mem_of_mem_filter h)
  rw [hwf.getById] at hget
  rw [hwf.ids _ l hget]
  exact hget

/-- The text that a listing is printed to, where it fits, denotes the lambdas exactly if there is
at most one, with a name that is shorter than its field. -/
theorem listText_decodes_iff {r : Registry FuncPtr} {type : RsLambdaType}
    (hspelled : ∀ l ∈ listed r type, l.Spelled) {junk : List UInt8}
    (hfits : ListInside m r type junk) :
    (∃ s, listText m r type junk = some s ∧ parse (cstr s.rsp) = some (listValue (listed r type))) ↔
      (listed r type).length ≤ 1 ∧ ∀ l ∈ listed r type, l.Terminated := by
  obtain ⟨s, hs, -⟩ := hfits
  rcases listText_cases m r type junk with ⟨-, -, s', hs', hholds⟩ | ⟨-, hnone⟩
  · obtain rfl := Option.some.inj (hs.symm.trans hs')
    have hread : (∃ s, listText m r type junk = some s ∧
        parse (cstr s.rsp) = some (listValue (listed r type))) ↔
        lex (listing (listed r type)) = some (listValue (listed r type)).tokens := by
      rw [← parse_eq_some_iff, ← hholds.rsp]
      constructor
      · rintro ⟨t, ht, hparse⟩
        rwa [← Option.some.inj (hs.symm.trans ht)] at hparse
      · exact fun hparse => ⟨s, hs, hparse⟩
    rw [hread, lex_listing hspelled]
    by_cases hall : ∀ l ∈ listed r type, l.Terminated
    · rw [if_pos hall, Option.some.injEq, listingTokens_eq_iff, and_iff_left hall]
    · rw [if_neg hall]
      exact iff_of_false (fun h => by cases h) fun h => hall h.2
  · rw [hnone] at hs
    cases hs

theorem spelled_listed {started : Bool} {ops : List (Env × BoardOp)}
    (h : Board.after started ops = some b) (type : RsLambdaType) :
    ∀ l ∈ listed b.registry type, l.Spelled :=
  fun l hl => spelled_after h _ l (mem_listed (Sound.after h).1.wf hl)

/-- The type that a request's options restrict the listing to: that of the first one named so. -/
def listedType (m : DataModel) (options : List (List UInt8)) : RsLambdaType :=
  ((options.find? (keyIs .type)).map fun q => getLambdaTypeFromString m (valueOf q)).getD 0

theorem listType_of_searchEnds {opts : List (CoapOption m)} (h : ∀ opt ∈ opts, opt.SearchEnds) :
    listType opts = some (listedType m (opts.map CoapOption.bytes)) := by
  induction opts with
  | nil => rfl
  | cons opt opts ih =>
    obtain ⟨hopt, hopts⟩ := List.forall_mem_cons.mp h
    rw [listType, readOption_of_searchEnds hopt, listedType, List.map_cons]
    change (if keyIs .type opt.bytes then _ else _) = _
    by_cases htype : keyIs .type opt.bytes
    · rw [if_pos htype, List.find?_cons_of_pos htype]
      rfl
    · rw [if_neg htype, List.find?_cons_of_neg htype]
      exact ih hopts

/-- The response to a request whose options are split inside their bytes. -/
theorem handleList_of_searchEnds {opts : List (CoapOption m)} (h : ∀ opt ∈ opts, opt.SearchEnds)
    (htype : listedType m (opts.map CoapOption.bytes) ≠ 255) (b : Board) (junk : List UInt8) :
    handleList m b junk opts =
      (listText m b.registry (listedType m (opts.map CoapOption.bytes)) junk).map fun s =>
        cstr s.rsp := by
  rw [handleList, listType_of_searchEnds h]
  change (if _ = (255 : RsLambdaType) then _ else _) = _
  rw [if_neg htype]
  cases listText m b.registry (listedType m (opts.map CoapOption.bytes)) junk <;> rfl

/-- The listing of a board, where it fits its arrays, is the document that lists the lambdas
exactly if there is at most one, with a name that is shorter than its field. So is the response
to every request for the listing. -/
theorem list_decodes_iff {started : Bool} {ops : List (Env × BoardOp)}
    (h : Board.after started ops = some b) (m : DataModel) (type : RsLambdaType)
    (junk : List UInt8) (hfits : ListInside m b.registry type junk) :
    ((∃ s, listText m b.registry type junk = some s ∧
        parse (cstr s.rsp) = some (listValue (listed b.registry type))) ↔
      (listed b.registry type).length ≤ 1 ∧ ∀ l ∈ listed b.registry type, l.Terminated) ∧
    ∀ opts : List (CoapOption m), (∀ opt ∈ opts, opt.SearchEnds) →
      listedType m (opts.map CoapOption.bytes) = type → type ≠ 255 →
        ((∃ body, handleList m b junk opts = some body ∧
            parse body = some (listValue (listed b.registry type))) ↔
          (listed b.registry type).length ≤ 1 ∧ ∀ l ∈ listed b.registry type, l.Terminated) := by
  have hdecodes := listText_decodes_iff (spelled_listed h type) hfits
  refine ⟨hdecodes, ?_⟩
  rintro opts hends rfl hknown
  rw [← hdecodes, handleList_of_searchEnds hends hknown]
  constructor
  · rintro ⟨body, hbody, hparse⟩
    obtain ⟨s, hs, rfl⟩ := Option.map_eq_some_iff.mp hbody
    exact ⟨s, hs, hparse⟩
  · rintro ⟨s, hs, hparse⟩
    exact ⟨cstr s.rsp, by rw [hs]; rfl, hparse⟩

/-- A board with the one lambda `"a"`. -/
theorem list_decodes_a :
    ∃ s, listText .ilp32 (withA .int 1 RS_CACHE_NO_CACHE).registry 0 [] = some s ∧
      parse (cstr s.rsp) = some (listValue (listed (withA .int 1 RS_CACHE_NO_CACHE).registry 0)) :=
  (list_decodes_iff (b := withA .int 1 RS_CACHE_NO_CACHE) (after_withA .int (by decide)) .ilp32 0 []
    (inside_of_short (by decide +kernel) (by decide +kernel))).1.mpr
    ⟨by decide +kernel, by decide +kernel⟩

/-- The registrations of `"a"` and `"b"`. -/
def registersTwo : List (Env × BoardOp) :=
  [({}, .register .int [97] 1 RS_CACHE_NO_CACHE), ({}, .register .int [98] 1 RS_CACHE_NO_CACHE)]

/-- The listing of two lambdas fits, and is no document for them. -/
theorem two_lambdas_no_document :
    ∃ b, Board.after true registersTwo = some b ∧ ListInside .ilp32 b.registry 0 [] ∧
      ¬ ∃ s, listText .ilp32 b.registry 0 [] = some s ∧
        parse (cstr s.rsp) = some (listValue (listed b.registry 0)) := by
  have hboard : (Board.after true registersTwo).map (fun b : Board =>
      (decide (∀ l ∈ listed b.registry 0, entryLength l < BUF_SIZE),
        listLength (listed b.registry 0), (listed b.registry 0).length)) = some (true, 112, 2) := by
    decide +kernel
  obtain ⟨b, hb, heq⟩ := Option.map_eq_some_iff.mp hboard
  obtain ⟨hentries, hrest⟩ := Prod.mk.inj heq
  obtain ⟨hlength, htwo⟩ := Prod.mk.inj hrest
  have hfits : ListInside .ilp32 b.registry 0 [] :=
    inside_of_short (of_decide_eq_true hentries) (by rw [hlength]; decide)
  refine ⟨b, hb, hfits, fun hdecodes => ?_⟩
  have hone := ((listText_decodes_iff (spelled_listed hb 0) hfits).mp hdecodes).1
  rw [htwo] at hone
  exact absurd hone (by decide)

end RS.Board
