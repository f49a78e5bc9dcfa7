import Riotsensors.Proofs.HttpResponses

/-! The HTTP server beside the CoAP server on Linux: when the two make the same of one request. -/

namespace RS

open CMem Numerals

variable {m : DataModel} {rest : RestRequest → Option (HttpCode × Body)}

/-- The option `key=value`. -/
def QueryName.option (key : QueryName) (value : List UInt8) : List UInt8 :=
  key.text ++ EQUALS :: value

/-- Beside options of other names the request consists of the type `T` and one `key`. -/
def AsksBy (key : QueryName) (request : List (List UInt8)) (T value : List UInt8) : Prop :=
  request.filter (fun q => keyIs .type q || keyIs key q) =
      [QueryName.option .type T, key.option value] ∨
    request.filter (fun q => keyIs .type q || keyIs key q) =
      [key.option value, QueryName.option .type T]

/-- Beside options of other names the request consists of the type, where there is one. -/
def ListsType (request : List (List UInt8)) (T : Option (List UInt8)) : Prop :=
  request.filter (keyIs .type) = (T.map (QueryName.option .type)).toList

/-- The run does what the reply says: the exception leaves it, the refusal is its one response,
or it asks the REST handler the same and sends nothing but the answer. -/
def HttpProvider.Run.DoesAs (rest : RestRequest → Option (HttpCode × Body))
    (run : HttpProvider.Run) : Except Exception CoapProvider.Reply → Prop
  | .error _ => run = ⟨[], [], .threw⟩
  | .ok (.badRequest _) => ∃ text, run = ⟨[.badRequest text], [], .returned⟩
  | .ok (.rest request) => run = HttpProvider.answerWith rest [] request

/-- The two conversions both throw, or give numbers of one id, which HTTP takes from 0 on. -/
def ConvertAlike (asInt : List UInt8 → Option ℤ) (t : List UInt8) : Prop :=
  (stoi t = .error .outOfRange ∧ asInt t = none) ∨
    ∃ n n', stoi t = .ok n ∧ asInt t = some n' ∧
      0 ≤ n' ∧ n' % 256 = n % 256 ∧ n % 256 ≠ 255

/-! ## The HTTP server -/

namespace HttpProvider

theorem answerWith_eq_iff (sent : List Response) (request request' : RestRequest) :
    answerWith rest sent request = answerWith rest [] request' ↔
      sent = [] ∧ request = request' := by
  constructor
  · intro h
    have hasked := congrArg Run.asked h
    rw [(answerWith_spec _ _ _).2.1, (answerWith_spec _ _ _).2.1] at hasked
    obtain rfl := List.singleton_injective hasked
    have hsent := congrArg Run.sent h
    unfold answerWith at hsent
    cases hrest : rest request with
    | none =>
      rw [hrest] at hsent
      exact ⟨hsent, rfl⟩
    | some answer =>
      rw [hrest] at hsent
      exact ⟨List.append_left_eq_self.mp hsent, rfl⟩
  · rintro ⟨rfl, rfl⟩
    rfl

/-- A run that asks neither throws nor refuses. -/
theorem answerWith_ne (sent sent' : List Response) (request : RestRequest) (ending : Ending) :
    answerWith rest sent request ≠ ⟨sent', [], ending⟩ := by
  intro h
  have hasked := congrArg Run.asked h
  rw [(answerWith_spec _ _ _).2.1] at hasked
  cases hasked

theorem handleCallById_eq_answerWith_iff (asInt : List UInt8 → Option ℤ) (T t : List UInt8)
    (id : LambdaId) :
    handleCallById m asInt rest T t =
        answerWith rest [] (.call (.byId id (getLambdaTypeFromString m T))) ↔
      getLambdaTypeFromString m T ≠ 255 ∧ ∃ n, asInt t = some n ∧ 0 ≤ n ∧ UInt8.ofInt n = id := by
  unfold handleCallById
  cases hint : asInt t with
  | none =>
    refine iff_of_false (fun h => answerWith_ne _ _ _ _ h.symm) ?_
    rintro ⟨-, n, hn, -⟩
    cases hn
  | some n =>
    dsimp only
    rw [answerWith_eq_iff, List.append_eq_nil_iff, refuseType_eq_nil_iff]
    simp only [refuseId_eq_nil_iff, RestRequest.call.injEq, Call.byId.injEq, and_true,
      Option.some.injEq, exists_eq_left']
    tauto

theorem handleCallById_eq_threw_iff (asInt : List UInt8 → Option ℤ) (T t : List UInt8) :
    handleCallById m asInt rest T t = ⟨[], [], .threw⟩ ↔
      getLambdaTypeFromString m T ≠ 255 ∧ asInt t = none := by
  unfold handleCallById
  cases hint : asInt t with
  | none => simp [refuseType_eq_nil_iff]
  | some n => exact iff_of_false (answerWith_ne _ _ _ _) (by simp)

/-- Nothing that is wrong with the id ends in a refusal alone. -/
theorem handleCallById_ne_refused (asInt : List UInt8 → Option ℤ) (T t : List UInt8)
    (text : String) :
    handleCallById m asInt rest T t ≠ ⟨[.badRequest text], [], .returned⟩ := by
  unfold handleCallById
  cases asInt t with
  | none =>
    intro h
    cases congrArg Run.ending h
  | some n => exact answerWith_ne _ _ _ _

end HttpProvider

/-! ## The CoAP server on Linux -/

namespace CoapProvider

theorem asksFor_of_asksBy {request : List (List UInt8)} {T t : List UInt8}
    (h : AsksBy .id request T t) : AsksFor request T t := h

theorem handleCallByName_of_asksBy {request : List (List UInt8)} {T name : List UInt8}
    (h : AsksBy .name request T name) :
    handleCallByName m request = .ok (answerCallByName
      { typeFound := true, nameFound := true, type := getLambdaTypeFromString m T, name }) := by
  have htype : ∀ s, callByNameRound m s (QueryName.option .type T) =
      .ok { s with type := getLambdaTypeFromString m T, typeFound := true } := fun _ => rfl
  have hname : ∀ s, callByNameRound m s (QueryName.option .name name) =
      .ok { s with name := name, nameFound := true } := fun _ => rfl
  have hskips : ∀ s q, ¬ (keyIs .type q || keyIs .name q) → callByNameRound m s q = .ok s := by
    intro s q hq
    rw [Bool.or_eq_true, not_or] at hq
    rw [callByNameRound, show ascii "type" = QueryName.text .type from rfl,
      show ascii "name" = QueryName.text .name from rfl, tryMatch_of_not_keyIs hq.1,
      tryMatch_of_not_keyIs hq.2]
  rw [handleCallByName, foldlM_filter_of_skips hskips]
  rcases h with h | h
  · rw [h, List.foldlM_cons, htype]
    rfl
  · rw [h, List.foldlM_cons, hname]
    rfl

theorem answerCallById_found (type : RsLambdaType) (id : LambdaId) :
    answerCallById ⟨true, true, type, id⟩ =
      if id = 255 then .badRequest "Illegal id parameter"
      else if type = 255 then .badRequest "Illegal type parameter"
      else .rest (.call (.byId id type)) := rfl

theorem answerCallByName_found (type : RsLambdaType) (name : List UInt8) :
    answerCallByName ⟨true, true, type, name⟩ =
      if name.length = 0 then .badRequest "Illegal name parameter"
      else if type = 255 then .badRequest "Illegal type parameter"
      else .rest (.call (.byName name type)) := rfl

theorem coapParseType_of_listsType {request : List (List UInt8)} {T : Option (List UInt8)}
    (h : ListsType request T) : coapParseType m request = .ok (HttpProvider.typeOf m T) := by
  have hskips : ∀ s q, ¬ keyIs .type q → parseTypeRound m s q = .ok s := by
    intro s q hq
    rw [parseTypeRound, show ascii "type" = QueryName.text .type from rfl, tryMatch_of_not_keyIs hq]
  rw [coapParseType, foldlM_filter_of_skips hskips, h]
  cases T with
  | none => rfl
  | some T => rfl

end CoapProvider

/-! ## Both -/

namespace HttpProvider

variable {request : List (List UInt8)} {T : List UInt8}

theorem not_doesAs_refused (asInt : List UInt8 → Option ℤ) (t : List UInt8) (text : String) :
    ¬ (handleCallById m asInt rest T t).DoesAs rest (.ok (.badRequest text)) := by
  rintro ⟨text', hrun⟩
  exact handleCallById_ne_refused asInt T t text' hrun

/-- A reply to an id that was read: the HTTP server asks the same from 0 on. -/
theorem doesAs_answerCallById_iff (asInt : List UInt8 → Option ℤ) (t : List UInt8) (n : ℤ) :
    (handleCallById m asInt rest T t).DoesAs rest (.ok (CoapProvider.answerCallById
        ⟨true, true, getLambdaTypeFromString m T, UInt8.ofInt n⟩)) ↔
      getLambdaTypeFromString m T ≠ 255 ∧ n % 256 ≠ 255 ∧
        ∃ n', asInt t = some n' ∧ 0 ≤ n' ∧ n' % 256 = n % 256 := by
  rw [CoapProvider.answerCallById_found]
  by_cases hid : UInt8.ofInt n = 255
  · rw [if_pos hid]
    exact iff_of_false (not_doesAs_refused asInt t _)
      fun h => h.2.1 ((ofInt_eq_255_iff n).mp hid)
  by_cases htype : getLambdaTypeFromString m T = 255
  · rw [if_neg hid, if_pos htype]
    exact iff_of_false (not_doesAs_refused asInt t _) fun h => h.1 htype
  · rw [if_neg hid, if_neg htype]
    change handleCallById m asInt rest T t = answerWith rest [] _ ↔ _
    have hsame : ∀ n' : ℤ, UInt8.ofInt n' = UInt8.ofInt n ↔ n' % 256 = n % 256 := by
      intro n'
      rw [← UInt8.toNat_inj, lambdaId_toNat_ofInt, lambdaId_toNat_ofInt]
      omega
    rw [ofInt_eq_255_iff] at hid
    simp only [handleCallById_eq_answerWith_iff, hsame]
    exact and_congr_right fun _ => (and_iff_right hid).symm

theorem doesAs_byId_iff (asInt : List UInt8 → Option ℤ) {t : List UInt8}
    (h : AsksBy .id request T t) :
    (handleCallById m asInt rest T t).DoesAs rest (CoapProvider.handleCallById m request) ↔
      getLambdaTypeFromString m T ≠ 255 ∧ ConvertAlike asInt t := by
  rw [handleCallById_of_asksFor (CoapProvider.asksFor_of_asksBy h), CoapProvider.parseId,
    ConvertAlike]
  cases hstoi : stoi t with
  | error e =>
    cases e with
    | invalidArgument => exact iff_of_false (not_doesAs_refused asInt t _) (by simp)
    | outOfRange =>
      change handleCallById m asInt rest T t = ⟨[], [], .threw⟩ ↔ _
      rw [handleCallById_eq_threw_iff]
      simp
  | ok n =>
    refine (doesAs_answerCallById_iff asInt t n).trans (and_congr_right fun _ => ?_)
    simp only [reduceCtorEq, false_and, false_or, Except.ok.injEq]
    constructor
    · rintro ⟨hne, n', hint, hn', hmod⟩
      exact ⟨n, n', rfl, hint, hn', hmod, hne⟩
    · rintro ⟨_, n', rfl, hint, hn', hmod, hne⟩
      exact ⟨hne, n', hint, hn', hmod⟩

theorem doesAs_byName_iff {name : List UInt8} (h : AsksBy .name request T name) :
    (handleCallByName m rest T name).DoesAs rest (CoapProvider.handleCallByName m request) ↔
      getLambdaTypeFromString m T ≠ 255 ∧ name ≠ [] := by
  have hrefused : ∀ text,
      ¬ (handleCallByName m rest T name).DoesAs rest (.ok (.badRequest text)) := by
    rintro text ⟨text', hrun⟩
    exact answerWith_ne _ _ _ _ hrun
  rw [CoapProvider.handleCallByName_of_asksBy h, CoapProvider.answerCallByName_found]
  by_cases hname : name.length = 0
  · rw [if_pos hname]
    exact iff_of_false (hrefused _) fun h => h.2 (List.eq_nil_of_length_eq_zero hname)
  by_cases htype : getLambdaTypeFromString m T = 255
  · rw [if_neg hname, if_pos htype]
    exact iff_of_false (hrefused _) fun h => h.1 htype
  · rw [if_neg hname, if_neg htype]
    refine iff_of_true ?_ ⟨htype, fun hnil => hname (congrArg List.length hnil)⟩
    exact (answerWith_eq_iff _ _ _).mpr ⟨(refuseType_eq_nil_iff _).mpr htype, rfl⟩

theorem doesAs_listing (ask : RsLambdaType → RestRequest) {T : Option (List UInt8)}
    (h : ListsType request T) :
    (handleListing m rest ask T).DoesAs rest ((coapParseType m request).map fun type =>
      if type = 255 then .badRequest "Unknown lambda type" else .rest (ask type)) := by
  rw [CoapProvider.coapParseType_of_listsType h]
  cases T with
  | none => rfl
  | some T =>
    change (handleListing m rest ask (some T)).DoesAs rest
      (.ok (if getLambdaTypeFromString m T = 255 then _ else _))
    unfold handleListing
    dsimp only
    split_ifs with htype
    · exact ⟨_, rfl⟩
    · rfl

/-- The HTTP server does with a request as the CoAP server exactly if the type is known, a name
is not empty and an id is converted alike; with the listings it always does. -/
theorem does_as_coap_iff (m : DataModel) (asInt : List UInt8 → Option ℤ)
    (rest : RestRequest → Option (HttpCode × Body)) (request : List (List UInt8)) :
    (∀ T t, AsksBy .id request T t →
      ((handleCallById m asInt rest T t).DoesAs rest (CoapProvider.handleCallById m request) ↔
        getLambdaTypeFromString m T ≠ 255 ∧ ConvertAlike asInt t)) ∧
    (∀ T name, AsksBy .name request T name →
      ((handleCallByName m rest T name).DoesAs rest (CoapProvider.handleCallByName m request) ↔
        getLambdaTypeFromString m T ≠ 255 ∧ name ≠ [])) ∧
    ∀ T, ListsType request T →
      (handleList m rest T).DoesAs rest (CoapProvider.handleList m request) ∧
        (handleCache m rest T).DoesAs rest (CoapProvider.handleCache m request) :=
  ⟨fun _ _ => doesAs_byId_iff asInt, fun _ _ => doesAs_byName_iff,
    fun _ h => ⟨doesAs_listing .list h, doesAs_listing .cache h⟩⟩

/-- The id 7, a name and the lists are asked for alike, and `4294967296` throws in both servers.
The id `-256` is 0 for the CoAP server, and the HTTP server refuses it. -/
theorem does_as_coap_7 :
    let rest := Linux.restHandler .little {} (Linux.started zeroed) ⟨[], [], true⟩
    let byId := fun t => (handleCallById .ilp32 convert rest (ascii "1") t).DoesAs rest
      (CoapProvider.handleCallById .ilp32 [QueryName.option .type (ascii "1"),
        QueryName.option .id t])
    (byId (ascii "7") ∧ byId (ascii "4294967296") ∧ ¬ byId (ascii "-256")) ∧
      (handleCallByName .ilp32 rest (ascii "1") (ascii "a")).DoesAs rest
        (CoapProvider.handleCallByName .ilp32 [ascii "name=a", ascii "x", ascii "type=1"]) ∧
      (handleList .ilp32 rest none).DoesAs rest (CoapProvider.handleList .ilp32 [ascii "x"]) := by
  intro rest byId
  have hiff := does_as_coap_iff .ilp32 convert rest
  have hid : ∀ t, byId t ↔ ConvertAlike convert t := fun t =>
    ((hiff _).1 (ascii "1") t (Or.inl rfl)).trans (and_iff_right (by decide))
  refine ⟨⟨(hid _).mpr ?_, (hid _).mpr ?_, fun h => ?_⟩, ?_, ?_⟩
  · exact Or.inr ⟨7, 7, rfl, rfl, by decide, rfl, by decide⟩
  · exact Or.inl ⟨rfl, rfl⟩
  · rcases (hid _).mp h with ⟨hrange, -⟩ | ⟨n, n', hn, hn', hpos, -⟩
    · cases hrange
    · obtain rfl := Option.some.inj hn'
      exact absurd hpos (by decide)
  · exact ((hiff _).2.1 (ascii "1") (ascii "a") (Or.inr rfl)).mpr ⟨by decide, by decide⟩
  · exact ((hiff [ascii "x"]).2.2 none rfl).1

end HttpProvider

end RS
