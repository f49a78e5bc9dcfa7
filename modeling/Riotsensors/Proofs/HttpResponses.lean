import Riotsensors.Proofs.RequestedIds
import Riotsensors.Proofs.RestAnswers

/-! How many responses an HTTP request gets, and what a refused one does. The two call handlers
go on after a refusal, the two listings return. -/

namespace RS

open CMem Numerals

variable {m : DataModel} {o : ByteOrder} {env : Env} {s : Linux} {w : Linux.Wait}

/-- What a call needs that waits for the lambda `l`: a packet to send, and a wait that goes on to
an answer. -/
def Linux.ServesWait (o : ByteOrder) (env : Env) (s : Linux) (w : Linux.Wait) (c : Call)
    (l : RsRegisteredLambda ArgPtr) : Prop :=
  (Linux.callPacket env c).isSome ∧
    (∃ timedOut, Linux.timedWait o s l w = some timedOut ∧
      (Linux.receiveAll o s w.packets).AnswersAfterWait c l timedOut) ∧
    ∀ k, (Linux.receiveAll o s w.packets).found c = some k → k.Known

/-- What the REST handler needs for its answer: every lambda that is printed has a type and a
policy with a name, and what is printed of a string lambda is a string. -/
def Linux.Serves (o : ByteOrder) (env : Env) (s : Linux) (w : Linux.Wait) : RestRequest → Prop
  | .call c =>
    match s.waitsOn c with
    | some l => s.ServesWait o env w c l
    | none => ∀ l, s.found c = some l → l.Known ∧
        (l.type = c.expectedType → (Linux.checkLambdaCache s l).1 = RS_CALL_CACHE →
          l.Prints (s.heap l.arg).ret)
  | .list type => ∀ i l, i < getNumberOfRegisteredLambdas s.registry →
      getRegisteredLambdaById s.registry i = some l → type = 0 ∨ l.type = type → l.Known
  | .cache type => ∀ i l, i < getNumberOfRegisteredLambdas s.registry →
      getRegisteredLambdaById s.registry i = some l → type = 0 ∨ l.type = type →
        l.Known ∧ ((s.heap l.arg).dataCached = true → l.Prints (s.heap l.arg).ret)

theorem isSome_handleCache (type : RsLambdaType) :
    (handleCache s type).isSome ↔ s.Serves o env w (.cache type) := by
  unfold handleCache Linux.Serves
  by_cases htype : type = 0
  · simp [htype, assembleCacheRest, assembleRest_isSome_iff, printCacheEntry_isSome_iff]
  · simp [htype, assembleCacheRestForType, assembleRest_isSome_iff, printCacheEntry_isSome_iff]

/-- A call is answered if it returns, with what can be printed. -/
theorem isSome_call_iff (c : Call) :
    (Linux.restHandler o env s w (.call c)).isSome ↔ ∃ out, Linux.call o env s c w = some out ∧
      out.state.Answers ⟨c, none, out.code, out.written, false⟩ ∧
      ∀ l, out.state.found c = some l → l.Known := by
  change ((Linux.call o env s c w).bind fun out =>
    handleCallReturned out.state c out.code out.written).isSome ↔ _
  constructor
  · intro h
    obtain ⟨answer, hanswer⟩ := Option.isSome_iff_exists.mp h
    obtain ⟨out, hout, hreturned⟩ := Option.bind_eq_some_iff.mp hanswer
    exact ⟨out, hout, Linux.answers_of_isSome (r := ⟨c, none, out.code, out.written, false⟩)
      (Option.isSome_of_eq_some hreturned)⟩
  · rintro ⟨out, hout, hanswers, hknown⟩
    obtain ⟨code, body, hbody, -⟩ := hanswers.built hknown
    rw [hout]
    exact Option.isSome_of_eq_some hbody

/-- A call that does not wait returns one of three refusals, or what is cached. -/
theorem answers_of_not_waiting {s : Linux} {c : Call} (hw : s.waitsOn c = none) (o : ByteOrder)
    (env : Env) (w : Linux.Wait) :
    ∃ code written, Linux.call o env s c w = some ⟨s, [], code, written⟩ ∧
      (s.Answers ⟨c, none, code, written, false⟩ ↔ ∀ l, s.found c = some l →
        l.type = c.expectedType → (Linux.checkLambdaCache s l).1 = RS_CALL_CACHE →
          l.Prints (s.heap l.arg).ret) := by
  rw [Linux.call_eq]
  unfold Linux.callLambda
  cases hf : s.found c with
  | none => exact ⟨_, _, rfl, iff_of_true rfl fun l hl => by cases hl⟩
  | some l =>
    simp only [Option.some.injEq, forall_eq']
    by_cases htype : l.type = c.expectedType
    · rw [if_neg (not_not.mpr htype)]
      rcases Linux.checkLambdaCache_cases s l with hgo | ⟨hhit, -⟩ | hempty
      · have hgo' : (Linux.checkLambdaCache s l).1 = 0 := by rw [hgo]
        rw [Linux.waitsOn_eq_some.mpr ⟨hf, htype, hgo'⟩] at hw
        cases hw
      · rw [hhit]
        refine ⟨_, _, rfl, ?_⟩
        have hmem : RS_CALL_CACHE ∈ Threads.SUCCESS_CODES := by decide
        rw [Linux.answers_of_found (r := ⟨c, none, RS_CALL_CACHE, _, false⟩) hf hmem]
        exact ⟨fun h _ _ => h, fun h => h htype rfl⟩
      · rw [hempty]
        exact ⟨_, _, rfl, iff_of_true rfl fun _ h => absurd h (by decide)⟩
    · rw [if_pos htype]
      exact ⟨_, _, rfl, iff_of_true rfl fun h => absurd h htype⟩

/-- One that waits comes back with what the end of its wait leaves. -/
theorem answers_of_waiting {c : Call} {l : RsRegisteredLambda ArgPtr}
    (hw : s.waitsOn c = some l) :
    (∃ out, Linux.call o env s c w = some out ∧
      out.state.Answers ⟨c, none, out.code, out.written, false⟩ ∧
      ∀ k, out.state.found c = some k → k.Known) ↔ s.ServesWait o env w c l := by
  obtain ⟨hf, htype, hcheck⟩ := Linux.waitsOn_eq_some.mp hw
  have hcall : Linux.call o env s c w = (Linux.callPacket env c).bind fun packet =>
      Linux.waitLambdaResult o s l w [packet] := by
    rw [Linux.call_eq]
    unfold Linux.callLambda
    simp only [hf, ne_eq, htype, not_true_eq_false, if_false, hcheck, Option.bind_eq_bind]
  unfold Linux.ServesWait
  rw [hcall]
  cases hpacket : Linux.callPacket env c with
  | none => simp
  | some packet =>
    simp only [Option.bind_some, Option.isSome_some, true_and,
      Linux.answersAfterWait_iff none false]
    constructor
    · rintro ⟨out, hout, hanswers, hknown⟩
      obtain ⟨-, timedOut, htimed, hafter⟩ := Linux.afterWait_of_waitLambdaResult hout
      have halike := Linux.afterWait_alike hafter
      refine ⟨⟨timedOut, htimed, _, _, _, hafter, hanswers⟩, fun k hk => hknown k ?_⟩
      rw [← hk]
      exact Linux.found_congr halike.registry c
    · rintro ⟨⟨timedOut, htimed, s', code, written, hafter, hanswers⟩, hknown⟩
      have halike := Linux.afterWait_alike hafter
      refine ⟨⟨s', [packet], code, written⟩, ?_, hanswers, fun k hk => hknown k ?_⟩
      · rw [Linux.waitLambdaResult_of_timedWait htimed, hafter]
        rfl
      · rw [← hk]
        exact (Linux.found_congr halike.registry c).symm

theorem isSome_call (c : Call) :
    (Linux.restHandler o env s w (.call c)).isSome ↔ s.Serves o env w (.call c) := by
  rw [isSome_call_iff, Linux.Serves]
  cases hw : s.waitsOn c with
  | some l => exact answers_of_waiting hw
  | none =>
    obtain ⟨code, written, hcall, hanswers⟩ := answers_of_not_waiting hw o env w
    rw [hcall]
    constructor
    · rintro ⟨out, ⟨⟩, h, hknown⟩ l hl
      exact ⟨hknown l hl, hanswers.mp h l hl⟩
    · intro h
      exact ⟨_, rfl, hanswers.mpr fun l hl => (h l hl).2, fun l hl => (h l hl).1⟩

theorem isSome_restHandler (request : RestRequest) :
    (Linux.restHandler o env s w request).isSome ↔ s.Serves o env w request := by
  cases request with
  | call c => exact isSome_call c
  | list type => exact isSome_handleList s type
  | cache type => exact isSome_handleCache type

namespace HttpProvider

/-- What the client gets: `caught` is how often the server responds to an exception. -/
def Run.responses (caught : ℕ) (run : Run) : ℕ :=
  run.sent.length + if run.ending = .threw then caught else 0

/-- There is one response, and if it refuses the request, then the REST handler is not asked and
nothing is sent to the board. -/
structure Lawful (packetsFor : RestRequest → List Packet) (caught : ℕ) (run : Run) : Prop where
  defined : run.ending ≠ .undefined
  one : run.responses caught = 1
  refused : ∀ text, .badRequest text ∈ run.sent →
    run.asked = [] ∧ run.asked.flatMap packetsFor = []

variable {packetsFor : RestRequest → List Packet} {caught : ℕ}
  {rest : RestRequest → Option (HttpCode × Body)}

/-- An answer is the one response exactly if nothing was sent before it. -/
theorem lawful_answerWith_iff (sent : List Response) (request : RestRequest) :
    Lawful packetsFor caught (answerWith rest sent request) ↔
      sent = [] ∧ (rest request).isSome := by
  unfold answerWith
  cases rest request with
  | none => exact iff_of_false (fun h => h.defined rfl) (by simp)
  | some answer =>
    constructor
    · intro h
      have hone := h.one
      simp only [Run.responses, List.length_append, List.length_singleton] at hone
      exact ⟨List.eq_nil_of_length_eq_zero (by omega), rfl⟩
    · rintro ⟨rfl, -⟩
      exact ⟨nofun, rfl, by simp⟩

/-- A run that throws is answered by the server alone. -/
theorem lawful_threw_iff (type : RsLambdaType) :
    Lawful packetsFor caught ⟨refuseType type, [], .threw⟩ ↔
      caught = if type = 255 then 0 else 1 := by
  have hresponses : Run.responses caught ⟨refuseType type, [], .threw⟩ =
      (if type = 255 then 1 else 0) + caught := by
    rw [Run.responses, if_pos rfl, refuseType]
    split_ifs <;> rfl
  constructor
  · intro h
    have hone := h.one
    rw [hresponses] at hone
    split_ifs at hone ⊢ <;> omega
  · intro h
    refine ⟨by simp, ?_, fun _ _ => ⟨rfl, rfl⟩⟩
    rw [hresponses, h]
    split_ifs <;> rfl

theorem refuseType_eq_nil_iff (type : RsLambdaType) : refuseType type = [] ↔ type ≠ 255 := by
  unfold refuseType
  split_ifs with h <;> simp [h]

theorem refuseId_eq_nil_iff (n : ℤ) :
    (if n < 0 then [Response.badRequest "Bad lambda id\n"] else []) = [] ↔ 0 ≤ n := by
  split_ifs with hneg
  · simpa using hneg
  · simpa using hneg

/-- The type is known and the id a number from 0 on; or the server itself makes the one response,
to an id that is no number. -/
def TakesId (m : DataModel) (asInt : List UInt8 → Option ℤ) (caught : ℕ)
    (serves : RestRequest → Prop) (typeParam idParam : List UInt8) : Prop :=
  (∃ n, asInt idParam = some n ∧ 0 ≤ n ∧ getLambdaTypeFromString m typeParam ≠ 255 ∧
      serves (.call (.byId (UInt8.ofInt n) (getLambdaTypeFromString m typeParam)))) ∨
    asInt idParam = none ∧ caught = if getLambdaTypeFromString m typeParam = 255 then 0 else 1

theorem lawful_handleCallById_iff (asInt : List UInt8 → Option ℤ) (typeParam idParam : List UInt8) :
    Lawful packetsFor caught (handleCallById m asInt rest typeParam idParam) ↔
      TakesId m asInt caught (fun request => (rest request).isSome) typeParam idParam := by
  unfold handleCallById TakesId
  cases hint : asInt idParam with
  | none =>
    dsimp only
    rw [lawful_threw_iff]
    simp
  | some n =>
    dsimp only
    rw [lawful_answerWith_iff, List.append_eq_nil_iff, refuseType_eq_nil_iff, refuseId_eq_nil_iff]
    constructor
    · rintro ⟨⟨htype, hn⟩, hrest⟩
      exact Or.inl ⟨n, rfl, hn, htype, hrest⟩
    · rintro (⟨n', ⟨⟩, hn, htype, hrest⟩ | ⟨hnone, -⟩)
      · exact ⟨⟨htype, hn⟩, hrest⟩
      · cases hnone

theorem lawful_handleCallByName_iff (typeParam name : List UInt8) :
    Lawful packetsFor caught (handleCallByName m rest typeParam name) ↔
      getLambdaTypeFromString m typeParam ≠ 255 ∧
        (rest (.call (.byName name (getLambdaTypeFromString m typeParam)))).isSome := by
  unfold handleCallByName
  dsimp only
  rw [lawful_answerWith_iff, refuseType_eq_nil_iff]

/-- The type that a listing is restricted to, `0` if it is not. -/
def typeOf (m : DataModel) (typeParam : Option (List UInt8)) : RsLambdaType :=
  typeParam.elim 0 (getLambdaTypeFromString m)

theorem lawful_handleListing_iff (request : RsLambdaType → RestRequest)
    (typeParam : Option (List UInt8)) :
    Lawful packetsFor caught (handleListing m rest request typeParam) ↔
      (typeOf m typeParam ≠ 255 → (rest (request (typeOf m typeParam))).isSome) := by
  cases typeParam with
  | none =>
    have hlisted : typeOf m none ≠ 255 := (by decide : (0 : RsLambdaType) ≠ 255)
    change Lawful packetsFor caught (answerWith rest [] (request 0)) ↔ _
    rw [lawful_answerWith_iff]
    exact ⟨fun h _ => h.2, fun h => ⟨rfl, h hlisted⟩⟩
  | some typeParam =>
    unfold handleListing
    change _ ↔ (getLambdaTypeFromString m typeParam ≠ 255 →
      (rest (request (getLambdaTypeFromString m typeParam))).isSome)
    by_cases htype : getLambdaTypeFromString m typeParam = 255
    · simp only [htype, if_true]
      exact iff_of_true ⟨nofun, rfl, fun _ _ => ⟨rfl, rfl⟩⟩ fun h => absurd rfl h
    · simp only [htype, if_false]
      rw [lawful_answerWith_iff]
      exact ⟨fun h _ => h.2, fun h => ⟨rfl, h htype⟩⟩

/-- A request to call gets one response and is refused without effect exactly if it is not
refused at all and can be served; a listing also if its type is unknown. -/
theorem one_response_iff (m : DataModel) (asInt : List UInt8 → Option ℤ) (caught : ℕ)
    (o : ByteOrder) (env : Env) (s : Linux) (w : Linux.Wait) :
    (∀ typeParam idParam,
      Lawful (Linux.packetsFor o env s w) caught
          (handleCallById m asInt (Linux.restHandler o env s w) typeParam idParam) ↔
        TakesId m asInt caught (s.Serves o env w) typeParam idParam) ∧
    (∀ typeParam name,
      Lawful (Linux.packetsFor o env s w) caught
          (handleCallByName m (Linux.restHandler o env s w) typeParam name) ↔
        getLambdaTypeFromString m typeParam ≠ 255 ∧
          s.Serves o env w (.call (.byName name (getLambdaTypeFromString m typeParam)))) ∧
    (∀ typeParam,
      Lawful (Linux.packetsFor o env s w) caught
          (handleList m (Linux.restHandler o env s w) typeParam) ↔
        (typeOf m typeParam ≠ 255 → s.Serves o env w (.list (typeOf m typeParam)))) ∧
    ∀ typeParam,
      Lawful (Linux.packetsFor o env s w) caught
          (handleCache m (Linux.restHandler o env s w) typeParam) ↔
        (typeOf m typeParam ≠ 255 → s.Serves o env w (.cache (typeOf m typeParam))) := by
  refine ⟨fun typeParam idParam => ?_, fun typeParam name => ?_, fun typeParam => ?_,
    fun typeParam => ?_⟩
  · rw [lawful_handleCallById_iff]
    simp only [isSome_restHandler]
  · rw [lawful_handleCallByName_iff, isSome_restHandler]
  · rw [handleList, lawful_handleListing_iff, isSome_restHandler]
  · rw [handleCache, lawful_handleListing_iff, isSome_restHandler]

/-- With lambda 0 registered, the id `-256` is refused, and a call packet for the id 0 goes to the
board. An unknown type is refused and answered, too. -/
theorem refused_request_calls :
    let s := Linux.receive .little (Linux.started zeroed) registersA
    let run := handleCallById .ilp32 convert (Linux.restHandler .little {} s ⟨[], [], true⟩)
      (ascii "1") (ascii "-256")
    let run' := handleCallByName .ilp32 (Linux.restHandler .little {} s ⟨[], [], true⟩)
      (ascii "9") (ascii "b")
    (run.sent.length = 2 ∧ run.asked.flatMap (Linux.packetsFor .little {} s ⟨[], [], true⟩) ≠ [] ∧
      ¬ Lawful (Linux.packetsFor .little {} s ⟨[], [], true⟩) 1 run) ∧
    run'.sent.length = 2 ∧ run'.asked ≠ [] ∧
      ¬ Lawful (Linux.packetsFor .little {} s ⟨[], [], true⟩) 1 run' := by
  have hlawful : ∀ {packetsFor : RestRequest → List Packet} {run : Run},
      run.sent.length = 2 → ¬ Lawful packetsFor 1 run := by
    intro packetsFor run hlength h
    have hone := h.one
    rw [Run.responses, hlength] at hone
    omega
  refine ⟨⟨rfl, by decide, hlawful rfl⟩, rfl, ?_, hlawful rfl⟩
  rw [handleCallByName, (answerWith_spec _ _ _).2.1]
  exact List.cons_ne_nil _ _

end HttpProvider

end RS
