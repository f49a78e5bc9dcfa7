import Riotsensors.Proofs.QueryOptions

/-! The id that a request asks for and the id that is looked up, for the three front ends:
each reads the text as a number in its own way and casts it to eight bits. -/

namespace RS

open CMem Numerals

variable {m : DataModel}

/-- The id that a text asks for: the whole text is a number of an id. -/
def expectedId (t : List UInt8) : Option LambdaId :=
  (decimalOf t).bind fun n => if 0 ≤ n ∧ n ≤ 254 then some (UInt8.ofNat n.toNat) else none

/-- The key of the option reads as the name. -/
def keyIs (n : QueryName) (option : List UInt8) : Bool := strEq (keyOf option) n.text

/-- Beside options of other names the request consists of the type `T` and the id `t`. -/
def AsksFor (options : List (List UInt8)) (T t : List UInt8) : Prop :=
  options.filter (fun q => keyIs .type q || keyIs .id q) =
      [ascii "type=" ++ T, ascii "id=" ++ t] ∨
    options.filter (fun q => keyIs .type q || keyIs .id q) =
      [ascii "id=" ++ t, ascii "type=" ++ T]

theorem lambdaId_toNat_ofInt (x : ℤ) : (UInt8.ofInt x).toNat = (x % 256).toNat := by
  have hlt : (x % 256).toNat < 256 := by omega
  change (UInt8.ofNat (x % 2 ^ 8).toNat).toNat = _
  rw [UInt8.toNat_ofNat', Nat.mod_eq_of_lt (by omega)]
  rfl

theorem ofInt_eq_255_iff (x : ℤ) : UInt8.ofInt x = 255 ↔ x % 256 = 255 := by
  rw [← UInt8.toNat_inj, lambdaId_toNat_ofInt]
  change (x % 256).toNat = 255 ↔ _
  omega

/-- A clamped number ends in 255 if it was too large, and never if it was too small. -/
theorem clamp_emod_iff {w : ℕ} (hw : 32 ≤ w) (n : ℤ) :
    clamp w n % 256 = 255 ↔ 2 ^ (w - 1) ≤ n ∨ (-2 ^ (w - 1) ≤ n ∧ n % 256 = 255) := by
  obtain ⟨k, hk⟩ : (256 : ℤ) ∣ 2 ^ (w - 1) := by
    have hpow : (2 : ℤ) ^ (w - 1) = 2 ^ 8 * 2 ^ (w - 1 - 8) := by
      rw [← pow_add]
      congr 1
      omega
    exact ⟨2 ^ (w - 1 - 8), by rw [hpow]; norm_num⟩
  have hpos : (0 : ℤ) < 2 ^ (w - 1) := by positivity
  rw [clamp]
  generalize (2 : ℤ) ^ (w - 1) = P at *
  omega

theorem expectedId_cases (t : List UInt8) :
    expectedId t = none ∨
      ∃ n, decimalOf t = some n ∧ 0 ≤ n ∧ n ≤ 254 ∧ expectedId t = some (UInt8.ofInt n) := by
  unfold expectedId
  cases hdec : decimalOf t with
  | none => exact Or.inl rfl
  | some n =>
    rw [Option.bind_some]
    split_ifs with hn
    · refine Or.inr ⟨n, rfl, hn.1, hn.2, congrArg some ?_⟩
      rw [← UInt8.toNat_inj, lambdaId_toNat_ofInt, UInt8.toNat_ofNat']
      omega
    · exact Or.inl rfl

theorem getLambdaTypeFromString_ne_zero (str : List UInt8) :
    getLambdaTypeFromString m str ≠ 0 := by
  simp only [getLambdaTypeFromString]
  split_ifs <;> decide

/-! ## The board -/

/-- What the option loop makes of the text of an id. -/
def boardId (m : DataModel) (t : List UInt8) : LambdaId :=
  if (strtol m.longBits t).2 = strlen t then UInt8.ofInt (strtol m.longBits t).1 else 255

/-- The text is the number of an id; or it is not empty and no number, or a number that is
too large for `long` or leaves 255 in eight bits, and is refused. -/
def BoardReads (m : DataModel) (t : List UInt8) : Prop :=
  (expectedId t).isSome ∨ cstr t ≠ [] ∧
    ∀ n, decimalOf ((cstr t).dropWhile isspace) = some n →
      2 ^ (m.longBits - 1) ≤ n ∨ (-2 ^ (m.longBits - 1) ≤ n ∧ n % 256 = 255)

theorem boardId_eq_255_iff (t : List UInt8) :
    boardId m t = 255 ↔ cstr t ≠ [] ∧
      ∀ n, decimalOf ((cstr t).dropWhile isspace) = some n →
        2 ^ (m.longBits - 1) ≤ n ∨ (-2 ^ (m.longBits - 1) ≤ n ∧ n % 256 = 255) := by
  have hall := fun num => @strtol_all_iff m.longBits t num
  unfold boardId
  split_ifs with hstop
  · rcases (hall (strtol m.longBits t).1).mp (Prod.ext rfl hstop) with ⟨hempty, hnum⟩ | ⟨n, hn, hnum⟩
    · rw [hnum]
      exact iff_of_false (by decide) fun h => h.1 hempty
    · have hne : cstr t ≠ [] := by
        intro hempty
        rw [hempty] at hn
        cases hn
      rw [hnum, ofInt_eq_255_iff, clamp_emod_iff m.long_ge, and_iff_right hne]
      constructor
      · intro h n' hn'
        rwa [← Option.some.inj (hn.symm.trans hn')]
      · intro h
        exact h n hn
  · refine iff_of_true rfl ⟨fun hempty => hstop ?_, fun n hn => absurd ?_ hstop⟩
    · rw [(hall 0).mpr (Or.inl ⟨hempty, rfl⟩)]
    · rw [(hall _).mpr (Or.inr ⟨n, hn, rfl⟩)]

theorem boardId_of_expected {t : List UInt8} {id : LambdaId} (h : expectedId t = some id) :
    boardId m t = id ∧ id ≠ 255 := by
  rcases expectedId_cases t with hnone | ⟨n, hn, h0, h254, hsome⟩
  · rw [hnone] at h
    cases h
  obtain rfl := Option.some.inj (hsome.symm.trans h)
  have hclamp : clamp m.longBits n = n := by
    have hpow : (2 : ℤ) ^ 31 ≤ 2 ^ (m.longBits - 1) := by
      have hge := m.long_ge
      exact pow_le_pow_right₀ (by norm_num) (by omega)
    rw [clamp]
    norm_num at hpow
    omega
  have hstrtol : strtol m.longBits t = (n, strlen t) := by
    obtain ⟨htext, hblank⟩ := text_of_decimalOf hn
    rw [strtol_all_iff, htext, hblank]
    exact Or.inr ⟨n, hn, hclamp.symm⟩
  rw [boardId, hstrtol, if_pos rfl, Ne, ofInt_eq_255_iff]
  exact ⟨rfl, by omega⟩

theorem keyIs_iff {n : QueryName} {option : List UInt8} :
    keyIs n option ↔ cstr (keyOf option) = n.text := by
  rw [keyIs, strEq_iff, cstr_of_isText n.isText]

/-- An option that is split inside its bytes is read as these say. -/
theorem readOption_of_searchEnds {opt : CoapOption m} (h : opt.SearchEnds) :
    Board.readOption opt = some (keyOf opt.bytes, valueOf opt.bytes) := by
  have hsplits := CoapOption.splitsInside_iff.mpr h
  have hkeyLen : (initializeCoapKeyValueFromOpt opt).keyLen = (keyOf opt.bytes).length := by
    rw [← hsplits.key]
    exact (length_peek _ _ _).symm
  have hvalLen : (initializeCoapKeyValueFromOpt opt).valLen = (valueOf opt.bytes).length := by
    rw [← hsplits.value]
    exact (length_peek _ _ _).symm
  have hfits : (initializeCoapKeyValueFromOpt opt).valLen = 0 ∨
      (initializeCoapKeyValueFromOpt opt).keyLen + 1 + (initializeCoapKeyValueFromOpt opt).valLen ≤
        opt.p.length := by
    by_cases hmem : EQUALS ∈ opt.bytes
    · have hlen := congrArg List.length (split_of_mem hmem)
      rw [opt.length_bytes, List.length_append, List.length_cons] at hlen
      have hinside := opt.inside
      omega
    · rw [hvalLen, valueOf_of_notMem hmem]
      exact Or.inl rfl
  rw [Board.readOption]
  simp only [if_pos hfits, hsplits.key, hsplits.value]

/-- One round of the loop, on the option's bytes. -/
def callIdStep (m : DataModel) (query : Board.CoapQuery) (q : List UInt8) : Board.CoapQuery :=
  if keyIs .type q then { query with type := getLambdaTypeFromString m (valueOf q) }
  else if keyIs .id q then
    if (strtol m.longBits (valueOf q)).2 = strlen (valueOf q) then
      { query with id := UInt8.ofInt (strtol m.longBits (valueOf q)).1 }
    else query
  else query

theorem callIdRound_of_searchEnds (query : Board.CoapQuery) {opt : CoapOption m}
    (h : opt.SearchEnds) : Board.callIdRound query opt = some (callIdStep m query opt.bytes) := by
  rw [Board.callIdRound, readOption_of_searchEnds h, callIdStep]
  dsimp only
  rcases strtol m.longBits (valueOf opt.bytes) with ⟨num, stop⟩
  change (if keyIs .type opt.bytes then _ else if keyIs .id opt.bytes then
    if stop = strlen (valueOf opt.bytes) then _ else _ else _) = _
  split_ifs <;> rfl

theorem callIdQuery_of_searchEnds {opts : List (CoapOption m)}
    (h : ∀ opt ∈ opts, opt.SearchEnds) :
    Board.callIdQuery opts = some ((opts.map CoapOption.bytes).foldl (callIdStep m) {}) := by
  have hrun : ∀ query, opts.foldlM Board.callIdRound query =
      some ((opts.map CoapOption.bytes).foldl (callIdStep m) query) := by
    induction opts with
    | nil => exact fun _ => rfl
    | cons opt opts ih =>
      obtain ⟨hopt, hopts⟩ := List.forall_mem_cons.mp h
      intro query
      rw [List.foldlM_cons, callIdRound_of_searchEnds query hopt]
      exact ih hopts _
  exact hrun {}

/-- Options of other names are passed over. -/
theorem foldl_callIdStep_filter (options : List (List UInt8)) (query : Board.CoapQuery) :
    options.foldl (callIdStep m) query =
      (options.filter fun q => keyIs .type q || keyIs .id q).foldl (callIdStep m) query := by
  rw [List.foldl_filter]
  congr 1
  funext query q
  simp only [callIdStep]
  cases keyIs .type q <;> cases keyIs .id q <;> rfl

theorem query_of_asksFor {options : List (List UInt8)} {T t : List UInt8}
    (h : AsksFor options T t) :
    options.foldl (callIdStep m) {} =
      { type := getLambdaTypeFromString m T, id := boardId m t } := by
  have htype : ∀ query, callIdStep m query (ascii "type=" ++ T) =
      { query with type := getLambdaTypeFromString m T } := fun _ => rfl
  have hid : ∀ query, callIdStep m query (ascii "id=" ++ t) =
      if (strtol m.longBits t).2 = strlen t then
        { query with id := UInt8.ofInt (strtol m.longBits t).1 }
      else query := fun _ => rfl
  rw [foldl_callIdStep_filter]
  rcases h with h | h
  all_goals
    rw [h]
    simp only [List.foldl_cons, List.foldl_nil, htype, hid, boardId]
    split_ifs <;> rfl

/-- What the handler does with a query that asks for a lambda: it looks that id up. -/
theorem handleCallId_of_asks {query : Board.CoapQuery} {id : LambdaId} {type : RsLambdaType}
    (h : (CallRequest.coapId query).asks = some (.id id, type)) (ev : Evaluators) (b : Board) :
    Board.handleCallId ev b query =
      (getRegisteredLambdaById b.registry id).elim (some (.unknownId id RS_CALL_NOTFOUND))
        (Board.performCoapLambdaCall ev b type) := by
  simp only [CallRequest.asks] at h
  split_ifs at h with hrefused
  obtain ⟨rfl, rfl⟩ : query.id = id ∧ query.type = type := by simpa using h
  rw [Board.handleCallId, if_neg (by tauto), if_neg (by tauto)]
  cases getRegisteredLambdaById b.registry query.id <;> rfl

/-- A query that asks for nothing is refused, and no lambda is looked up. -/
theorem handleCallId_of_refused {query : Board.CoapQuery}
    (h : (CallRequest.coapId query).asks = none) (ev : Evaluators) (b : Board) :
    ∃ text, Board.handleCallId ev b query = some (.badRequest text) := by
  simp only [CallRequest.asks] at h
  split_ifs at h with hrefused
  unfold Board.handleCallId
  by_cases htype : query.type = 255 ∨ query.type = 0
  · exact ⟨_, if_pos htype⟩
  · have hid : query.id = 255 := by tauto
    exact ⟨_, (if_neg htype).trans (if_pos hid)⟩

/-- The board asks for the id that is asked for, looks up that id and no other, and refuses if
there is none. -/
def BoardCalls (opts : List (CoapOption m)) (T t : List UInt8) : Prop :=
  ∃ query, Board.callIdQuery opts = some query ∧
    (CallRequest.coapId query).asks =
      ((expectedId t).map fun id => (Target.id id, getLambdaTypeFromString m T)) ∧
    ∀ ev b, match expectedId t with
      | some id => Board.handleCallId ev b query =
          (getRegisteredLambdaById b.registry id).elim (some (.unknownId id RS_CALL_NOTFOUND))
            (Board.performCoapLambdaCall ev b (getLambdaTypeFromString m T))
      | none => ∃ text, Board.handleCallId ev b query = some (.badRequest text)

theorem asks_of_asksFor {opts : List (CoapOption m)} {T t : List UInt8}
    (hends : ∀ opt ∈ opts, opt.SearchEnds) (hasks : AsksFor (opts.map CoapOption.bytes) T t)
    (htype : getLambdaTypeFromString m T ≠ 255) :
    (Board.callIdQuery opts).map (fun query => (CallRequest.coapId query).asks) =
      some (if boardId m t = 255 then none
        else some (.id (boardId m t), getLambdaTypeFromString m T)) := by
  have htype0 : getLambdaTypeFromString m T ≠ 0 := getLambdaTypeFromString_ne_zero T
  rw [callIdQuery_of_searchEnds hends, query_of_asksFor hasks, Option.map_some]
  simp only [CallRequest.asks, htype, htype0, false_or]

theorem boardCalls_iff {opts : List (CoapOption m)} {T t : List UInt8}
    (hends : ∀ opt ∈ opts, opt.SearchEnds) (hasks : AsksFor (opts.map CoapOption.bytes) T t)
    (htype : getLambdaTypeFromString m T ≠ 255) : BoardCalls opts T t ↔ BoardReads m t := by
  obtain ⟨query, hquery, hasked⟩ := Option.map_eq_some_iff.mp (asks_of_asksFor hends hasks htype)
  -- what is asked for is what was read
  have hreads : (CallRequest.coapId query).asks =
      ((expectedId t).map fun id => (Target.id id, getLambdaTypeFromString m T)) ↔
        BoardReads m t := by
    rw [hasked, BoardReads, ← boardId_eq_255_iff]
    cases hexpected : expectedId t with
    | some id =>
      obtain ⟨hid, hne⟩ := boardId_of_expected (m := m) hexpected
      rw [hid, if_neg hne]
      exact iff_of_true rfl (Or.inl rfl)
    | none =>
      by_cases hrefused : boardId m t = 255
      · rw [if_pos hrefused]
        exact iff_of_true rfl (Or.inr hrefused)
      · rw [if_neg hrefused]
        exact iff_of_false (fun h => by cases h) (by simp [hrefused])
  constructor
  · rintro ⟨query', hquery', hexpected, -⟩
    obtain rfl := Option.some.inj (hquery.symm.trans hquery')
    exact hreads.mp hexpected
  · intro h
    have hexpected := hreads.mpr h
    refine ⟨query, hquery, hexpected, fun ev b => ?_⟩
    cases hid : expectedId t with
    | some id => exact handleCallId_of_asks (hexpected.trans (by rw [hid]; rfl)) ev b
    | none => exact handleCallId_of_refused (hexpected.trans (by rw [hid]; rfl)) ev b

/-! ## The CoAP server on Linux -/

/-- The text is the number of an id; or it begins with no number, or with one that is in the
range of `int` and leaves 255 in eight bits, and is refused. -/
def CoapReads (t : List UInt8) : Prop :=
  (expectedId t).isSome ∨
    ∀ n stop, scan t = some (n, stop) → -2 ^ 31 ≤ n ∧ n < 2 ^ 31 ∧ n % 256 = 255

/-- What the handler asks of the REST handler, unless it refuses. -/
def CoapProvider.Reply.asked : CoapProvider.Reply → Option RestRequest
  | .badRequest _ => none
  | .rest request => some request

def CoapCalls (m : DataModel) (request : List (List UInt8)) (T t : List UInt8) : Prop :=
  (CoapProvider.handleCallById m request).map CoapProvider.Reply.asked =
    .ok ((expectedId t).map fun id => .call (.byId id (getLambdaTypeFromString m T)))

/-- An option of another name is passed over. -/
theorem tryMatch_of_not_keyIs {β : Type} {n : QueryName} {q : List UInt8} (h : ¬ keyIs n q)
    (lambda : List UInt8 → Except Exception β) (next : Except Exception β) :
    tryMatchCoapOptAndExecute n.text q lambda next = next := by
  rw [keyIs_iff] at h
  rw [tryMatchCoapOptAndExecute, matchCoapOptAndExecute_eq n.isText, if_neg (Ne.symm h)]

/-- A loop runs as on the options that its round does not pass over. -/
theorem foldlM_filter_of_skips {β : Type} {round : β → List UInt8 → Except Exception β}
    {p : List UInt8 → Bool} (hskips : ∀ s q, ¬ p q → round s q = .ok s)
    (request : List (List UInt8)) (s : β) :
    request.foldlM round s = (request.filter p).foldlM round s := by
  rw [List.foldlM_filter]
  congr 1
  funext s q
  by_cases hq : p q
  · rw [if_pos hq]
  · rw [if_neg hq, hskips s q hq]
    rfl

theorem foldlM_callByIdRound_filter (request : List (List UInt8)) (s : CoapProvider.ById) :
    request.foldlM (CoapProvider.callByIdRound m) s =
      (request.filter fun q => keyIs .type q || keyIs .id q).foldlM
        (CoapProvider.callByIdRound m) s := by
  refine foldlM_filter_of_skips (fun s q hq => ?_) request s
  rw [Bool.or_eq_true, not_or] at hq
  rw [CoapProvider.callByIdRound, show ascii "type" = QueryName.text .type from rfl,
    show ascii "id" = QueryName.text .id from rfl, tryMatch_of_not_keyIs hq.1,
    tryMatch_of_not_keyIs hq.2]

theorem handleCallById_of_asksFor {request : List (List UInt8)} {T t : List UInt8}
    (h : AsksFor request T t) :
    CoapProvider.handleCallById m request =
      (CoapProvider.parseId t).map fun id => CoapProvider.answerCallById
        { typeFound := true, idFound := true, type := getLambdaTypeFromString m T, id := id } := by
  have htype : ∀ s, CoapProvider.callByIdRound m s (ascii "type=" ++ T) =
      .ok { s with type := getLambdaTypeFromString m T, typeFound := true } := fun _ => rfl
  have hid : ∀ s, CoapProvider.callByIdRound m s (ascii "id=" ++ t) =
      (CoapProvider.parseId t).map fun id => { s with id, idFound := true } := fun _ => rfl
  rw [CoapProvider.handleCallById, foldlM_callByIdRound_filter]
  rcases h with h | h
  · rw [h, List.foldlM_cons, htype]
    change ((CoapProvider.callByIdRound m _ (ascii "id=" ++ t) >>= pure).map _) = _
    rw [hid]
    cases CoapProvider.parseId t <;> rfl
  · rw [h, List.foldlM_cons, hid]
    cases CoapProvider.parseId t <;> rfl

theorem coapCalls_iff {request : List (List UInt8)} {T t : List UInt8}
    (hasks : AsksFor request T t) (htype : getLambdaTypeFromString m T ≠ 255) :
    CoapCalls m request T t ↔ CoapReads t := by
  rw [CoapCalls, handleCallById_of_asksFor hasks, CoapReads]
  have hanswer : ∀ id, (CoapProvider.answerCallById ⟨true, true,
      getLambdaTypeFromString m T, id⟩).asked =
      if id = 255 then none else some (.call (.byId id (getLambdaTypeFromString m T))) := by
    intro id
    rw [CoapProvider.answerCallById, if_neg (not_not.mpr rfl), if_neg (not_not.mpr rfl),
      if_neg htype]
    split_ifs <;> rfl
  have hscan : ∀ n stop, scan t = some (n, stop) → expectedId t = none ∨
      0 ≤ n ∧ n ≤ 254 ∧ expectedId t = some (UInt8.ofInt n) := by
    intro n stop hscan
    rcases expectedId_cases t with hnone | ⟨n', hn', h0, h254, hsome⟩
    · exact Or.inl hnone
    · obtain ⟨rfl, -⟩ := Prod.mk.inj (Option.some.inj ((scan_of_decimalOf hn').symm.trans hscan))
      exact Or.inr ⟨h0, h254, hsome⟩
  cases hcase : scan t with
  | none =>
    have hnone : expectedId t = none := by
      rcases expectedId_cases t with hnone | ⟨n, hn, -⟩
      · exact hnone
      · rw [scan_of_decimalOf hn] at hcase
        cases hcase
    rw [CoapProvider.parseId, stoi, hcase, hnone]
    refine iff_of_true (congrArg Except.ok (hanswer 255)) (Or.inr ?_)
    rintro n stop h
    cases h
  | some found =>
    rcases found with ⟨n, stop⟩
    have hread : (∀ n' stop', some (n, stop) = some (n', stop') →
        -2 ^ 31 ≤ n' ∧ n' < 2 ^ 31 ∧ n' % 256 = 255) ↔
        -2 ^ 31 ≤ n ∧ n < 2 ^ 31 ∧ n % 256 = 255 := by
      constructor
      · intro h
        exact h n stop rfl
      · rintro h _ _ ⟨⟩
        exact h
    rw [hread, CoapProvider.parseId, stoi, hcase]
    dsimp only
    rcases hscan n stop hcase with hnone | ⟨h0, h254, hsome⟩
    · rw [hnone]
      split_ifs with hrange
      · change Except.ok (CoapProvider.answerCallById ⟨true, true, getLambdaTypeFromString m T,
          UInt8.ofInt n⟩).asked = Except.ok none ↔ _
        rw [hanswer, Except.ok.injEq]
        split_ifs with h255
        · rw [ofInt_eq_255_iff] at h255
          exact iff_of_true rfl (Or.inr ⟨hrange.1, hrange.2, h255⟩)
        · rw [ofInt_eq_255_iff] at h255
          refine iff_of_false (fun h => by cases h) ?_
          rintro (h | ⟨-, -, h⟩)
          · cases h
          · exact h255 h
      · refine iff_of_false (fun h => by cases h) ?_
        rintro (h | ⟨hlow, hhigh, -⟩)
        · cases h
        · exact hrange ⟨hlow, hhigh⟩
    · have hne : UInt8.ofInt n ≠ 255 := by
        rw [Ne, ofInt_eq_255_iff]
        omega
      rw [hsome, if_pos (by omega)]
      refine iff_of_true (congrArg Except.ok ?_) (Or.inl rfl)
      exact (hanswer _).trans (if_neg hne)

/-! ## The HTTP server -/

/-- The handler returns and asks for the id that is asked for, or refuses if none is. -/
structure HttpCalls (m : DataModel) (asInt : List UInt8 → Option ℤ)
    (rest : RestRequest → Option (HttpCode × Body)) (T t : List UInt8) : Prop where
  returns : (HttpProvider.handleCallById m asInt rest T t).ending ≠ .threw
  asked : (HttpProvider.handleCallById m asInt rest T t).asked =
    ((expectedId t).map fun id =>
      RestRequest.call (.byId id (getLambdaTypeFromString m T))).toList
  refused : (∃ text, .badRequest text ∈ (HttpProvider.handleCallById m asInt rest T t).sent) ↔
    expectedId t = none

theorem answerWith_spec (rest : RestRequest → Option (HttpCode × Body))
    (sent : List HttpProvider.Response) (request : RestRequest) :
    (HttpProvider.answerWith rest sent request).ending ≠ .threw ∧
      (HttpProvider.answerWith rest sent request).asked = [request] ∧
      ∀ text, .badRequest text ∈ (HttpProvider.answerWith rest sent request).sent ↔
        .badRequest text ∈ sent := by
  unfold HttpProvider.answerWith
  cases rest request with
  | none => simp
  | some answer => simp

theorem httpCalls_iff {asInt : List UInt8 → Option ℤ}
    (hInt : ∀ t n, decimalOf t = some n → -2 ^ 31 ≤ n → n < 2 ^ 31 → asInt t = some n)
    (rest : RestRequest → Option (HttpCode × Body)) {T t : List UInt8}
    (htype : getLambdaTypeFromString m T ≠ 255) :
    HttpCalls m asInt rest T t ↔ (expectedId t).isSome := by
  rcases expectedId_cases t with hnone | ⟨n, hn, h0, h254, hsome⟩
  · refine iff_of_false (fun h => ?_) (by simp [hnone])
    have hreturns := h.returns
    have hasked := h.asked
    rw [hnone] at hasked
    unfold HttpProvider.handleCallById at hreturns hasked
    cases hconv : asInt t with
    | none =>
      rw [hconv] at hreturns
      exact hreturns rfl
    | some n =>
      rw [hconv] at hasked
      dsimp only at hasked
      rw [(answerWith_spec _ _ _).2.1] at hasked
      cases hasked
  · refine iff_of_true ?_ (by simp [hsome])
    have hrun : HttpProvider.handleCallById m asInt rest T t = HttpProvider.answerWith rest []
        (.call (.byId (UInt8.ofInt n) (getLambdaTypeFromString m T))) := by
      rw [HttpProvider.handleCallById, hInt t n hn (by omega) (by omega)]
      simp only [HttpProvider.refuseType, if_neg htype, if_neg (not_lt.mpr h0), List.append_nil]
    obtain ⟨hreturns, hasked, hsent⟩ := answerWith_spec rest []
      (.call (.byId (UInt8.ofInt n) (getLambdaTypeFromString m T)))
    refine ⟨by rw [hrun]; exact hreturns, by rw [hrun, hasked, hsome]; rfl, ?_⟩
    rw [hrun, hsome]
    refine iff_of_false ?_ (by simp)
    rintro ⟨text, htext⟩
    exact absurd ((hsent text).mp htext) List.not_mem_nil

/-- A request for the id `t` under a valid type is served as asked exactly if its front end
reads `t` as the number it is, or refuses it. `asInt` is documented to convert an integer of
the range of `int` to itself. -/
theorem requested_id_iff (m : DataModel) (asInt : List UInt8 → Option ℤ)
    (hInt : ∀ t n, decimalOf t = some n → -2 ^ 31 ≤ n → n < 2 ^ 31 → asInt t = some n)
    (T t : List UInt8) (htype : getLambdaTypeFromString m T ≠ 255) :
    (∀ opts : List (CoapOption m), (∀ opt ∈ opts, opt.SearchEnds) →
      AsksFor (opts.map CoapOption.bytes) T t → (BoardCalls opts T t ↔ BoardReads m t)) ∧
    (∀ request, AsksFor request T t → (CoapCalls m request T t ↔ CoapReads t)) ∧
    ∀ rest, HttpCalls m asInt rest T t ↔ (expectedId t).isSome :=
  ⟨fun _ hends hasks => boardCalls_iff hends hasks htype,
    fun _ hasks => coapCalls_iff hasks htype, fun rest => httpCalls_iff hInt rest htype⟩

/-- `std::stoi`, which converts an integer of the range of `int` to itself. -/
def convert (t : List UInt8) : Option ℤ := (stoi t).toOption

theorem convert_of_decimalOf (t : List UInt8) (n : ℤ) (hn : decimalOf t = some n)
    (hlow : -2 ^ 31 ≤ n) (hhigh : n < 2 ^ 31) : convert t = some n := by
  rw [convert, stoi, scan_of_decimalOf hn]
  dsimp only
  rw [if_pos ⟨hlow, hhigh⟩]
  rfl

/-- The options `type=1` and `id=` with a text. -/
def typeAndId (t : List UInt8) (h : t.length < 256) : List (CoapOption .ilp32) :=
  [⟨ascii "type=1", 6, by decide, by decide⟩,
    ⟨ascii "id=" ++ t, (ascii "id=" ++ t).length, le_rfl, by
      change (ascii "id=" ++ t).length < 2 ^ 31
      rw [List.length_append, show (ascii "id=").length = 3 from rfl]
      omega⟩]

theorem bytes_typeAndId (t : List UInt8) (h : t.length < 256) :
    (typeAndId t h).map CoapOption.bytes = [ascii "type=1", ascii "id=" ++ t] := by
  change [List.take 6 (ascii "type=1"), List.take (ascii "id=" ++ t).length _] = _
  rw [List.take_length]
  rfl

theorem searchEnds_typeAndId (t : List UInt8) (h : t.length < 256) :
    ∀ opt ∈ typeAndId t h, opt.SearchEnds := by
  have hbytes := bytes_typeAndId t h
  intro opt hopt
  have hmem : opt.bytes ∈ [ascii "type=1", ascii "id=" ++ t] :=
    hbytes ▸ List.mem_map_of_mem hopt
  unfold CoapOption.SearchEnds
  rcases List.mem_cons.mp hmem with heq | hmem
  · rw [heq, if_pos (by decide)]
    decide
  · rw [List.mem_singleton.mp hmem, if_pos (by simp [ascii])]
    change 0 ∉ ascii "id"
    decide

/-- `type=1` and `id=7`, through all three front ends. -/
theorem requested_id_7 :
    BoardCalls (typeAndId (ascii "7") (by decide)) (ascii "1") (ascii "7") ∧
      CoapCalls .ilp32 [ascii "type=1", ascii "id=7"] (ascii "1") (ascii "7") ∧
      HttpCalls .ilp32 convert (fun _ => none) (ascii "1") (ascii "7") := by
  have hiff := requested_id_iff .ilp32 convert convert_of_decimalOf (ascii "1") (ascii "7")
    (by decide)
  refine ⟨?_, ?_, (hiff.2.2 _).mpr rfl⟩
  · refine (hiff.1 _ (searchEnds_typeAndId _ _) ?_).mpr (Or.inl rfl)
    rw [bytes_typeAndId]
    exact Or.inl rfl
  · exact (hiff.2.1 _ (Or.inl rfl)).mpr (Or.inl rfl)

/-- 256 is read as the id 0 by all three, the empty text by the board, and a number too large
for `int` leaves the CoAP server on Linux as an exception. -/
theorem id_256_calls_0 :
    (Board.callIdQuery (typeAndId (ascii "256") (by decide))).map
        (fun query => (CallRequest.coapId query).asks) = some (some (.id 0, RS_LAMBDA_INT)) ∧
    ¬ BoardCalls (typeAndId (ascii "256") (by decide)) (ascii "1") (ascii "256") ∧
    ¬ BoardCalls (typeAndId [] (by decide)) (ascii "1") [] ∧
    ¬ CoapCalls .ilp32 [ascii "type=1", ascii "id=256"] (ascii "1") (ascii "256") ∧
    ¬ HttpCalls .ilp32 convert (fun _ => none) (ascii "1") (ascii "256") ∧
    CoapProvider.handleCallById .ilp32 [ascii "type=1", ascii "id=4294967296"] =
      .error .outOfRange := by
  have hboard : ∀ t (h : t.length < 256), boardId .ilp32 t = 0 →
      (Board.callIdQuery (typeAndId t h)).map (fun query => (CallRequest.coapId query).asks) =
        some (some (.id 0, RS_LAMBDA_INT)) := by
    intro t h hzero
    rw [asks_of_asksFor (T := ascii "1") (t := t) (searchEnds_typeAndId t h) ?_ (by decide), hzero]
    · rfl
    rw [bytes_typeAndId]
    exact Or.inl rfl
  have hnone : expectedId (ascii "256") = none := rfl
  have hcalls : ∀ t (h : t.length < 256), boardId .ilp32 t = 0 → expectedId t = none →
      ¬ BoardCalls (typeAndId t h) (ascii "1") t := by
    rintro t h hzero hnone ⟨query, hquery, hasked, -⟩
    have hasks := hboard t h hzero
    rw [hquery, Option.map_some, hasked, hnone] at hasks
    cases hasks
  refine ⟨hboard _ _ rfl, hcalls _ _ rfl hnone, hcalls _ _ rfl rfl, fun h => ?_, fun h => ?_, rfl⟩
  · rw [CoapCalls, hnone] at h
    cases h
  · have hasked := h.asked
    rw [hnone] at hasked
    cases hasked

end RS
