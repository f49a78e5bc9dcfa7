import Riotsensors.Proofs.Remote
import Riotsensors.Proofs.RestAnswers
import Riotsensors.Spec.RemoteRest

/-! Requests from end to end: as long as the registries agree, the REST server answers a call with
what the board's own call says, and a listing with the board's own lambdas. -/

namespace RS

open CMem

/-- A record of Linux and one of the board that are printed alike. -/
structure Alike (m : RsRegisteredLambda FuncPtr) (l : RsRegisteredLambda ArgPtr) : Prop where
  id : l.id = m.id
  text : l.text = m.text
  type : l.type = m.type
  cache : l.cache = m.cache

namespace Alike

variable {m : RsRegisteredLambda FuncPtr} {l : RsRegisteredLambda ArgPtr}

theorem shown (h : Alike m l) :
    printLambdaProperties l = printLambdaProperties (Board.shown m) := by
  unfold printLambdaProperties
  rw [h.id, h.text, h.type, h.cache]
  rfl

theorem known_iff (h : Alike m l) : l.Known ↔ (Board.shown m).Known := by
  rw [← printLambdaProperties_isSome_iff, ← printLambdaProperties_isSome_iff, h.shown]

/-- What is printed of a string is its text. -/
theorem writeResult_text (type : RsLambdaType) {block s : List UInt8} (h : cstr block = cstr s) :
    writeResult type (.retS block) = writeResult type (.retS s) := by
  have hprint : printResult type (.retS block) = printResult type (.retS s) := by
    unfold printResult
    dsimp only
    rw [h]
  rw [writeResult, writeResult, hprint]

theorem success (h : Alike m l) {undef : UInt64} {result : Result} {ret ret' : GenericLambdaReturn}
    (hret : result.ret undef = some ret) (hret' : result.Arrives undef ret')
    (cacheRetrieved timeout : Bool) :
    assembleCallSuccessRest (some l) cacheRetrieved timeout ret' =
      assembleCallSuccessRest (some (Board.shown m)) cacheRetrieved timeout ret := by
  have hwrite : writeResult l.type ret' = writeResult m.type ret := by
    rw [h.type]
    cases result with
    | int i =>
      obtain rfl := Option.some.inj hret
      rw [hret']
    | double d =>
      obtain ⟨packed, hpacked, rfl⟩ := hret'
      rw [Result.ret, hpacked] at hret
      obtain rfl := Option.some.inj hret
      rfl
    | string s =>
      obtain ⟨block, rfl, hblock⟩ := hret'
      obtain rfl := Option.some.inj hret
      exact writeResult_text m.type hblock
  unfold assembleCallSuccessRest
  simp only [Option.bind_eq_bind, Option.bind_some, h.shown, hwrite]
  rfl

theorem error (h : Alike m l) (id : ℤ) (name : JsonScalar) (error : Int8) :
    assembleCallErrorRest id name (some l) error =
      assembleCallErrorRest id name (some (Board.shown m)) error := by
  have hlambda : printLambdaOrUnknown id name (some l) =
      printLambdaOrUnknown id name (some (Board.shown m)) := h.shown
  rw [assembleCallErrorRest, assembleCallErrorRest, hlambda]

end Alike

/-- Whether or not the lambda is known. -/
theorem assembleCallErrorRest_of_rel {m : Option (RsRegisteredLambda FuncPtr)}
    {l : Option (RsRegisteredLambda ArgPtr)} (h : Option.Rel Alike m l) (id : ℤ)
    (name : JsonScalar) (error : Int8) :
    assembleCallErrorRest id name l error =
      assembleCallErrorRest id name (m.map Board.shown) error := by
  cases h with
  | none => rfl
  | some halike => exact halike.error id name error

/-- What one side knows by name the other does. -/
theorem known_iff_of_rel {m : Option (RsRegisteredLambda FuncPtr)}
    {l : Option (RsRegisteredLambda ArgPtr)} (h : Option.Rel Alike m l) :
    (∀ k, l = some k → k.Known) ↔ ∀ k, m = some k → (Board.shown k).Known := by
  cases h with
  | none => simp
  | some halike => simpa using halike.known_iff

namespace System

variable {o : ByteOrder} {ev : Evaluators} {s : System}

/-- Both sides find alike records under an id. -/
theorem Paired.slot (h : s.Paired) (i : ℕ) :
    Option.Rel Alike (s.board.registry.slot i) (s.linux.registry.slot i) := by
  have hlook : (s.board.registry.slot i).map (fun m => (m.text, terms m)) =
      (s.linux.registry.slot i).map fun l => (l.text, terms l) := by
    rw [← h.inv.board.look_directory, ← h.inv.linux.look_directory, h.inv.same]
  cases hm : s.board.registry.slot i with
  | none =>
    rw [hm] at hlook
    rw [Option.map_eq_none_iff.mp hlook.symm]
    exact Option.Rel.none
  | some m =>
    rw [hm] at hlook
    obtain ⟨l, hl, heq⟩ := Option.map_eq_some_iff.mp hlook.symm
    rw [hl]
    have hid : l.id.toNat = m.id.toNat :=
      (h.inv.linux.ids i l hl).trans (h.inv.board.ids i m hm).symm
    have hterms : (l.type, l.cache) = (m.type, m.cache) := congrArg Prod.snd heq
    exact Option.Rel.some ⟨UInt8.toNat_inj.mp hid, congrArg Prod.fst heq,
      congrArg Prod.fst hterms, congrArg Prod.snd hterms⟩

/-- And so they do for every call. -/
theorem Paired.records (h : s.Paired) (c : Call) :
    Option.Rel Alike (s.board.addressee c.target) (s.linux.found c) := by
  cases hl : s.linux.found c with
  | none =>
    cases hm : s.board.addressee c.target with
    | none => exact Option.Rel.none
    | some m =>
      obtain ⟨l, hl', -⟩ := h.found hm
      rw [hl] at hl'
      cases hl'
  | some l =>
    obtain ⟨m, hm, hid, -⟩ := h.addressee hl
    have hslot := h.slot l.id.toNat
    rw [h.linux.slot_of_found hl, ← hid, Board.slot_of_addressee h.board.wf hm] at hslot
    rw [hm]
    exact hslot

/-- The board's own call has a result exactly if it succeeds. -/
theorem called_cases (hwf : s.board.registry.WF) {kind : LambdaKind} {target : Target}
    {called : Board.Called Result} (h : s.board.callTarget ev kind target = some called) :
    (called.code = RS_CALL_SUCCESS ∧ ∃ m, s.board.addressee target = some m ∧
        m.type = kind.type ∧ called.result = some (ev.result kind m.arg m.id)) ∨
      (called.code = RS_CALL_NOTFOUND ∨ called.code = RS_CALL_WRONGTYPE) ∧
        called.result = none := by
  cases hm : s.board.addressee target with
  | none =>
    rw [callTarget_of_missing hm] at h
    obtain rfl := Option.some.inj h
    exact Or.inr ⟨Or.inl rfl, rfl⟩
  | some m =>
    rw [callTarget_of_found hwf hm] at h
    split_ifs at h with htype
    · obtain rfl := Option.some.inj h
      exact Or.inr ⟨Or.inr rfl, rfl⟩
    · obtain rfl := Option.some.inj h
      exact Or.inl ⟨rfl, m, rfl, not_not.mp htype, rfl⟩

/-- The two answers to a call, from what Linux found and was told and from what the board
says. -/
theorem handleCallReturned_eq {t : Linux} {c : Call} {kind : LambdaKind} {undef : UInt64}
    {called : Board.Called Result} {out : Linux.CallOutcome} (hwf : s.board.registry.WF)
    (hlocal : s.board.callTarget ev kind c.target = some called)
    (hrecords : Option.Rel Alike (s.board.addressee c.target) (t.found c))
    (hsame : SameAnswer undef called out)
    (hret : ∀ result, called.result = some result → (result.ret undef).isSome) :
    handleCallReturned t c out.code out.written = s.board.callAnswer undef ev kind c := by
  obtain ⟨hcode, hresult⟩ := hsame
  unfold Board.callAnswer
  rw [hlocal, Option.bind_eq_bind, Option.bind_some]
  rcases called_cases hwf hlocal with ⟨hsuccess, m, hm, -, hcalled⟩ | ⟨herror, hcalled⟩
  · obtain ⟨ret, hret⟩ := Option.isSome_iff_exists.mp (hret _ hcalled)
    rw [hcalled] at hresult
    rw [hm] at hrecords
    generalize hw : out.written = written at hresult ⊢
    generalize hf : t.found c = found at hrecords
    cases hresult with
    | some harrives =>
    cases hrecords with
    | some halike =>
      unfold handleCallReturned
      rw [hcode, hsuccess, if_pos rfl, hf, hcalled, hm]
      simp only [Option.getD_some, Option.map_some, hret]
      rw [halike.success hret harrives]
      rfl
  · have hcodes : called.code ≠ RS_CALL_SUCCESS ∧ called.code ≠ RS_CALL_CACHE ∧
        called.code ≠ RS_CALL_CACHE_TIMEOUT := by
      rcases herror with hcode | hcode
      · rw [hcode]
        decide
      · rw [hcode]
        decide
    unfold handleCallReturned
    rw [hcode, if_neg hcodes.1, if_neg hcodes.2.1, if_neg hcodes.2.2, hcalled]
    cases c with
    | byId id type =>
      dsimp only
      rw [assembleCallErrorRestId, assembleCallErrorRestId, assembleCallErrorRest_of_rel hrecords]
    | byName name type =>
      dsimp only
      rw [assembleCallErrorRestName, assembleCallErrorRestName,
        assembleCallErrorRest_of_rel hrecords]

/-- What arrives of a string lambda is a string. -/
theorem prints_of_arrives {l : RsRegisteredLambda ArgPtr} {kind : LambdaKind} {undef : UInt64}
    {p : FuncPtr} {id : LambdaId} {ret : GenericLambdaReturn} (htype : l.type = kind.type)
    (h : (ev.result kind p id).Arrives undef ret) : l.Prints ret := by
  intro hstring
  cases kind with
  | int => exact absurd (htype.symm.trans hstring) (by decide)
  | double => exact absurd (htype.symm.trans hstring) (by decide)
  | string =>
    obtain ⟨block, rfl, -⟩ := h
    rfl

/-- What a client is told can be answered with: a value of the lambda's type, or one of the two
refusals. -/
theorem answers_of_sameAnswer {t : Linux} {c : Call} {kind : LambdaKind} {undef : UInt64}
    {called : Board.Called Result} {out : Linux.CallOutcome} (hwf : s.board.registry.WF)
    (hlocal : s.board.callTarget ev kind c.target = some called)
    (hrecords : Option.Rel Alike (s.board.addressee c.target) (t.found c))
    (hsame : SameAnswer undef called out) :
    t.Answers ⟨c, none, out.code, out.written, false⟩ := by
  obtain ⟨hcode, hresult⟩ := hsame
  rcases called_cases hwf hlocal with ⟨hsuccess, m, hm, htype, hcalled⟩ | ⟨herror, -⟩
  · rw [hcalled] at hresult
    rw [hm] at hrecords
    have hmem : out.code ∈ Threads.SUCCESS_CODES := by
      rw [hcode, hsuccess]
      decide
    rw [Linux.Answers, if_pos hmem]
    generalize out.written = written at hresult ⊢
    generalize t.found c = found at hrecords ⊢
    cases hresult with
    | some harrives =>
    cases hrecords with
    | some halike => exact ⟨_, rfl, prints_of_arrives (halike.type.trans htype) harrives⟩
  · have hrefused : out.code ∉ Threads.SUCCESS_CODES ∧ (stringifyRsCallResult out.code).isSome := by
      rw [hcode]
      rcases herror with hcode | hcode
      · rw [hcode]
        decide
      · rw [hcode]
        decide
    rw [Linux.Answers, if_neg hrefused.1]
    exact hrefused.2

theorem Paired.remoteRest (h : s.Paired) (o : ByteOrder) (ev : Evaluators) (r : RemoteCall)
    {c : Call} {kind : LambdaKind} (htype : c.expectedType = kind.type)
    (hpassed : Passed s.linux c) :
    ((s.restHandler o ev r (.call c)).isSome ↔ Answerable ev s.board kind c.target ∧
      ∀ m, s.board.addressee c.target = some m → (Board.shown m).Known) ∧
    (Answerable ev s.board kind c.target → s.restHandler o ev r (.call c) =
      s.board.callAnswer r.reply.undef ev kind c) := by
  have hhandler : s.restHandler o ev r (.call c) =
      (s.remoteCall o ev { r with call := c }).bind fun out =>
        handleCallReturned out.state c out.code out.written := rfl
  rw [hhandler]
  rcases h.remoteCall o ev (r := { r with call := c }) htype hpassed with
    ⟨hanswerable, called, out, hlocal, hout, hcode, hresult⟩ | ⟨hnot, hnone⟩
  · have hafter : Paired { s with linux := out.state } := by
      refine h.play (o := o) (e := .call ev { r with call := c }) trivial ?_
      simp only [System.play, Option.bind_eq_bind, Option.bind_some, hout]
      rfl
    have hrecords := hafter.records c
    have hanswers := answers_of_sameAnswer h.board.wf hlocal hrecords ⟨hcode, hresult⟩
    rw [hout, Option.bind_some]
    constructor
    · rw [and_iff_right hanswerable, ← known_iff_of_rel hrecords]
      constructor
      · intro hsome
        exact (Linux.answers_of_isSome (r := ⟨c, none, out.code, out.written, false⟩) hsome).2
      · intro hknown
        obtain ⟨code, body, hbody, -⟩ := hanswers.built hknown
        exact Option.isSome_of_eq_some hbody
    intro _
    refine handleCallReturned_eq h.board.wf hlocal hrecords ⟨hcode, hresult⟩ fun result hr => ?_
    -- what arrived had been packed
    rw [hr] at hresult
    generalize out.written = written at hresult
    cases hresult with
    | some harrives =>
      cases result with
      | int i => rfl
      | double d =>
        obtain ⟨packed, hpacked, -⟩ := harrives
        rw [Result.ret, hpacked]
        rfl
      | string s => rfl
  · rw [hnone]
    exact ⟨iff_of_false Bool.false_ne_true fun hnot' => hnot hnot'.1,
      fun hanswerable => absurd hanswerable hnot⟩

/-! ## Listings -/

theorem getById_asLinux (b : Board) (id : LambdaId) :
    getRegisteredLambdaById b.asLinux.registry id =
      (getRegisteredLambdaById b.registry id).map Board.shown := by
  have hslot : b.asLinux.registry.slot id.toNat =
      (b.registry.slot id.toNat).map Board.shown := by
    unfold Registry.slot
    split
    · rfl
    · rfl
  unfold getRegisteredLambdaById
  rw [show b.asLinux.registry.lambdaCounter = b.registry.lambdaCounter from rfl, hslot]
  split
  · rfl
  · rfl

/-- A listing prints nothing but what alike records share. -/
theorem Paired.assembleRest (h : s.Paired) (keep : RsLambdaType → Bool) :
    assembleRest s.linux (fun l => keep l.type) printLambdaProperties =
      assembleRest s.board.asLinux (fun l => keep l.type) printLambdaProperties := by
  have hround : listRound s.linux (fun l => keep l.type) printLambdaProperties =
      listRound s.board.asLinux (fun l => keep l.type) printLambdaProperties := by
    funext i acc
    obtain ⟨members, count⟩ := acc
    have hslot := h.slot i.toNat
    rw [← h.inv.board.getById, ← h.inv.linux.getById] at hslot
    unfold listRound
    rw [getById_asLinux]
    generalize getRegisteredLambdaById s.board.registry i = onBoard at hslot ⊢
    generalize getRegisteredLambdaById s.linux.registry i = onLinux at hslot ⊢
    cases hslot with
    | none => rfl
    | some halike =>
      simp only [Option.map_some, halike.shown, halike.type, halike.id]
      rfl
  have hcounter : getNumberOfRegisteredLambdas s.linux.registry =
      getNumberOfRegisteredLambdas s.board.asLinux.registry := h.inv.counter.symm
  unfold RS.assembleRest
  rw [hround, hcounter]

theorem Paired.handleList (h : s.Paired) (type : RsLambdaType) :
    RS.handleList s.linux type = s.board.listAnswer type := by
  have hall := h.assembleRest fun _ => true
  have hof := h.assembleRest fun t => t == type
  unfold RS.handleList Board.listAnswer RS.handleList assembleListRest assembleListRestForType
  rw [hall, hof]

/-- The board's lambdas can be listed exactly if their types and policies have names. -/
theorem isSome_listAnswer (b : Board) (type : RsLambdaType) :
    (b.listAnswer type).isSome ↔ ∀ id m, getRegisteredLambdaById b.registry id = some m →
      type = 0 ∨ m.type = type → (Board.shown m).Known := by
  rw [Board.listAnswer, isSome_handleList]
  constructor
  · intro h id m hm
    have hbelow : id < getNumberOfRegisteredLambdas b.asLinux.registry := by
      by_contra hge
      have hout : b.registry.lambdaCounter ≤ id := UInt8.not_lt.mp hge
      rw [getRegisteredLambdaById, if_pos (Or.inr hout)] at hm
      cases hm
    exact h id (Board.shown m) hbelow (by rw [getById_asLinux, hm]; rfl)
  · intro h id l _ hl
    rw [getById_asLinux] at hl
    obtain ⟨m, hm, rfl⟩ := Option.map_eq_some_iff.mp hl
    exact h id m hm

/-! ## Over whole runs -/

section Runs

variable {garbage : ArgPtr → RsLinuxRegisteredLambda} {es : List SystemEvent}

/-- In every run in which Linux follows the board's operations the REST server lists the
board's own lambdas, with status 200 as long as their types and policies have names. -/
theorem rest_lists_the_board (hrun : Runs.run (play o) (some (started garbage)) es = some s)
    (hfollows : Runs.Meets (play o) Follows (some (started garbage)) es) (ev : Evaluators)
    (r : RemoteCall) (type : RsLambdaType) :
    s.restHandler o ev r (.list type) = s.board.listAnswer type ∧
    ((∃ body, s.restHandler o ev r (.list type) = some (.ok, body)) ↔
      ∀ id m, getRegisteredLambdaById s.board.registry id = some m →
        type = 0 ∨ m.type = type → (Board.shown m).Known) := by
  have hlist : s.restHandler o ev r (.list type) = s.board.listAnswer type :=
    (paired_of_run hrun hfollows).handleList type
  refine ⟨hlist, ?_⟩
  rw [hlist, ← isSome_listAnswer, Option.isSome_iff_exists]
  constructor
  · rintro ⟨body, hbody⟩
    exact ⟨_, hbody⟩
  · rintro ⟨⟨code, body⟩, hbody⟩
    obtain rfl := handleList_ok hbody
    exact ⟨body, hbody⟩

theorem known_pairedA {id : LambdaId} {m : RsRegisteredLambda FuncPtr}
    (hm : getRegisteredLambdaById pairedA.board.registry id = some m) :
    (Board.shown m).Known := by
  rw [(paired_of_run run_pairedA follows_pairedA).board.wf.getById, pairedA, Board.withA,
    Board.pushed, Registry.slot_push (by decide)] at hm
  split_ifs at hm
  · rw [← Option.some.inj hm]
    exact ⟨by decide, by decide, by decide, by decide⟩
  · rw [Board.started, Registry.slot_empty] at hm
    cases hm

theorem rest_lists_the_board_a :
    ∃ body, pairedA.restHandler .little Board.zeros ⟨.byId 0 0, {}, {}, {}⟩ (.list 0) =
      some (.ok, body) :=
  (rest_lists_the_board run_pairedA follows_pairedA _ _ _).2.mpr fun _ _ hm _ => known_pairedA hm

/-- And where the cache does not answer, it answers a call as the board's own call says: exactly
if the board's function is there, its value can be packed, and the lambda that is printed, if
there is one, has a type and a policy with names. -/
theorem rest_calls_the_board (hrun : Runs.run (play o) (some (started garbage)) es = some s)
    (hfollows : Runs.Meets (play o) Follows (some (started garbage)) es) (ev : Evaluators)
    (r : RemoteCall) {c : Call} {kind : LambdaKind} (htype : c.expectedType = kind.type)
    (hpassed : Passed s.linux c) :
    ((s.restHandler o ev r (.call c)).isSome ↔ Answerable ev s.board kind c.target ∧
      ∀ m, s.board.addressee c.target = some m → (Board.shown m).Known) ∧
    (Answerable ev s.board kind c.target → s.restHandler o ev r (.call c) =
      s.board.callAnswer r.reply.undef ev kind c) :=
  (paired_of_run hrun hfollows).remoteRest o ev r htype hpassed

theorem rest_calls_the_board_a :
    ∃ answer, pairedA.restHandler .little Board.zeros ⟨.byId 0 0, {}, {}, {}⟩
        (.call (.byName [97] RS_LAMBDA_INT)) = some answer ∧
      pairedA.board.callAnswer 0 Board.zeros .int (.byName [97] RS_LAMBDA_INT) = some answer := by
  obtain ⟨hiff, hsame⟩ := rest_calls_the_board run_pairedA follows_pairedA Board.zeros
    ⟨.byId 0 0, {}, {}, {}⟩
    (show Call.expectedType (.byName [97] RS_LAMBDA_INT) = LambdaKind.type .int from rfl)
    passed_pairedA
  have hknown : ∃ m, pairedA.board.addressee (.name [97]) = some m ∧ (Board.shown m).Known :=
    ⟨_, rfl, by decide, by decide, by decide, by decide⟩
  obtain ⟨m, hm, hknown⟩ := hknown
  have hknown' : ∀ m', pairedA.board.addressee (.name [97]) = some m' →
      (Board.shown m').Known := by
    intro m' hm'
    rwa [← Option.some.inj (hm.symm.trans hm')]
  obtain ⟨answer, hanswer⟩ :=
    Option.isSome_iff_exists.mp (hiff.mpr ⟨answerable_pairedA, hknown'⟩)
  exact ⟨answer, hanswer, (hsame answerable_pairedA).symm.trans hanswer⟩

end Runs

end System

end RS
