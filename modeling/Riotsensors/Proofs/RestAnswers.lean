import Riotsensors.Proofs.Lifetimes
import Riotsensors.Sanity.Rest

/-! When the REST answers can be assembled, whatever packets arrive. Types, policies, results
and error codes come from the board unchecked. A listing needs those of the live lambdas, an
answer to a call what the call was given. -/

namespace RS

open Json

def Built (answer : RestResponseInfo) : Prop :=
  ∃ code body, answer = some (code, body) ∧ IsValue body

/-- In an answer to a call that returned a success code, the lambda is there and the result
is printed; for every other code there is a text. -/
def Linux.Answers (s : Linux) (r : Returned) : Prop :=
  if r.code ∈ Threads.SUCCESS_CODES then
    ∃ l, s.found r.call = some l ∧ l.Prints (r.written.getD (.retI 0))
  else (stringifyRsCallResult r.code).isSome

theorem handleCallReturned_of_success {code : Int8} (h : code ∈ Threads.SUCCESS_CODES) (s : Linux)
    (c : Call) (written : Option GenericLambdaReturn) :
    ∃ cacheRetrieved timeout, handleCallReturned s c code written =
      (assembleCallSuccessRest (s.found c) cacheRetrieved timeout
        (written.getD (.retI 0))).map fun body => (.ok, body) := by
  simp only [Threads.SUCCESS_CODES, List.mem_cons, List.not_mem_nil, or_false] at h
  rcases h with rfl | rfl | rfl
  · exact ⟨false, false, rfl⟩
  · exact ⟨true, false, rfl⟩
  · exact ⟨true, true, rfl⟩

theorem handleCallReturned_of_error {code : Int8} (h : code ∉ Threads.SUCCESS_CODES) (s : Linux)
    (c : Call) (written : Option GenericLambdaReturn) :
    ∃ id name, handleCallReturned s c code written =
      (assembleCallErrorRest id name (s.found c) code).map fun body => (.notFound, body) := by
  simp only [Threads.SUCCESS_CODES, List.mem_cons, List.not_mem_nil, or_false, not_or] at h
  unfold handleCallReturned
  simp only [if_neg h.1, if_neg h.2.1, if_neg h.2.2]
  cases c with
  | byId id expectedType => exact ⟨_, _, rfl⟩
  | byName name expectedType => exact ⟨_, _, rfl⟩

theorem built_map {body : Option Body} (code : HttpCode)
    (h : ∃ ts, body = some ts ∧ IsValue ts) : Built (body.map fun ts => (code, ts)) := by
  obtain ⟨ts, rfl, hts⟩ := h
  exact ⟨code, ts, rfl, hts⟩

namespace Linux

variable {s : Linux} {r : Returned}

/-- Known lambdas are named in every answer. -/
theorem Answers.built (h : s.Answers r) (hknown : ∀ l, s.found r.call = some l → l.Known) :
    Built (handleCallReturned s r.call r.code r.written) := by
  unfold Answers at h
  split_ifs at h with hcode
  · obtain ⟨l, hf, hprints⟩ := h
    obtain ⟨cacheRetrieved, timeout, heq⟩ := handleCallReturned_of_success hcode s r.call r.written
    rw [heq, hf]
    exact built_map _ (assembleCallSuccessRest_spec (hknown l hf) hprints _ _)
  · obtain ⟨id, name, heq⟩ := handleCallReturned_of_error hcode s r.call r.written
    rw [heq]
    exact built_map _ (assembleCallErrorRest_spec hknown h _ _)

theorem answers_of_isSome (h : (handleCallReturned s r.call r.code r.written).isSome) :
    s.Answers r ∧ ∀ l, s.found r.call = some l → l.Known := by
  obtain ⟨answer, hanswer⟩ := Option.isSome_iff_exists.mp h
  by_cases hcode : r.code ∈ Threads.SUCCESS_CODES
  · obtain ⟨cacheRetrieved, timeout, heq⟩ := handleCallReturned_of_success hcode s r.call r.written
    rw [heq, Option.map_eq_some_iff] at hanswer
    obtain ⟨body, hbody, -⟩ := hanswer
    rw [Answers, if_pos hcode]
    cases hf : s.found r.call with
    | none =>
      rw [hf] at hbody
      cases hbody
    | some l =>
      rw [hf] at hbody
      refine ⟨⟨l, rfl, fun hstring => ?_⟩, ?_⟩
      · by_contra hret
        rw [assembleCallSuccessRest_of_not_string hstring hret] at hbody
        cases hbody
      · rintro l' ⟨⟩
        exact assembleCallSuccessRest_known hbody
  · obtain ⟨id, name, heq⟩ := handleCallReturned_of_error hcode s r.call r.written
    rw [heq, Option.map_eq_some_iff] at hanswer
    obtain ⟨body, hbody, -⟩ := hanswer
    rw [Answers, if_neg hcode]
    constructor
    · cases hstring : stringifyRsCallResult r.code with
      | some string => rfl
      | none =>
        rw [assembleCallErrorRest_of_no_text hstring] at hbody
        cases hbody
    · intro l hf
      rw [hf] at hbody
      exact assembleCallErrorRest_known hbody

/-- Every live lambda is known, and what it has cached can be printed. -/
def Presentable (s : Linux) : Prop :=
  ∀ i l, s.registry.slot i = some l →
    l.Known ∧ ((s.heap l.arg).dataCached = true → l.Prints (s.heap l.arg).ret)

theorem Presentable.listed (h : s.Presentable) (hinv : s.Inv) (type : RsLambdaType) :
    Built (handleList s type) ∧ Built (handleCache s type) := by
  have hlive : ∀ id l, getRegisteredLambdaById s.registry id = some l →
      s.registry.slot id.toNat = some l :=
    fun id l hget => (hinv.wf.getById id).symm.trans hget
  have hlist : ∀ id l, getRegisteredLambdaById s.registry id = some l →
      ∃ ts, printLambdaProperties l = some ts ∧ IsValue ts :=
    fun id l hget => (h _ l (hlive id l hget)).1.properties
  have hcache : ∀ id l, getRegisteredLambdaById s.registry id = some l →
      ∃ ts, printCacheEntry s l = some ts ∧ IsValue ts :=
    fun id l hget => (h _ l (hlive id l hget)).1.cacheEntry (h _ l (hlive id l hget)).2
  unfold handleList handleCache
  split_ifs
  · exact ⟨built_map _ (assembleRest_spec hlist _), built_map _ (assembleRest_spec hcache _)⟩
  · exact ⟨built_map _ (assembleRest_spec hlist _), built_map _ (assembleRest_spec hcache _)⟩

theorem Presentable.of_alike {t : Linux} (h : t.Presentable) (ht : t.Inv) (hs : s.Alike t) :
    s.Presentable := by
  intro i l hl
  rw [hs.registry] at hl
  have hbelow : l.arg < s.brk := hs.brk ▸ ht.below i l hl
  refine ⟨(h i l hl).1, fun hc => ?_⟩
  rw [hs.ret l.arg hbelow hc]
  exact (h i l hl).2 ((hs.cached l.arg hbelow).symm.trans hc)

/-- What a message brings can be printed: a registration that is accepted names a type and a
policy, a result for a string lambda is a string. -/
def Presents (heap : Option (List UInt8)) (s : Linux) : Message → Prop
  | .registered name type cache => s.registry.Accepts name ∧ heap.isSome →
      1 ≤ type ∧ type ≤ 3 ∧ 1 ≤ cache ∧ cache ≤ 4
  | .result id ret _ => ∀ l, getRegisteredLambdaById s.registry id = some l → l.Prints ret
  | _ => True

theorem Presentable.act (h : s.Presentable) (hinv : s.Inv) {heap : Option (List UInt8)}
    {m : Message} (hm : s.Presents heap m) : (Linux.act heap s m).state.Presentable := by
  intro i l hl
  rcases slot_act hinv.wf hl with hold | ⟨mem, name, type, cache, rfl, rfl, hacc, -, rfl⟩
  · refine ⟨(h i l hold).1, fun hc => ?_⟩
    rcases act_heap_cases (hinv.below i l hold) heap m with
      ⟨id, ret, frees, k, rfl, hget, harg, hheap, -⟩ | ⟨id, code, k, -, -, -, hheap, -⟩ |
      ⟨hheap, -, -⟩
    · -- the call state is the record's own
      have hk : s.registry.slot id.toNat = some k := (hinv.wf.getById id).symm.trans hget
      obtain rfl : l = k := by
        rw [hinv.own _ _ _ _ hk hold harg, hold] at hk
        exact Option.some.inj hk
      rw [hheap]
      exact hm l hget
    · rw [hheap] at hc ⊢
      exact (h i l hold).2 hc
    · rw [hheap] at hc ⊢
      exact (h i l hold).2 hc
  · obtain ⟨htype, htype', hcache, hcache'⟩ := hm ⟨hacc, rfl⟩
    refine ⟨⟨htype, htype', hcache, hcache'⟩, fun hc => ?_⟩
    -- the new call state is empty
    have hfresh : ((enlist (some mem) s name type cache).heap s.brk).dataCached = false := by
      simp [enlist]
    exact absurd (hfresh.symm.trans hc) Bool.false_ne_true

/-- A message that brings something else shows at once. -/
theorem presents_of_printed (hinv : s.Inv) {heap : Option (List UInt8)} {m : Message}
    (hnamed : ∀ id l, getRegisteredLambdaById (Linux.act heap s m).state.registry id = some l →
      (stringifyRsLambdaType l.type).isSome ∧ (stringifyRsCacheType l.cache).isSome)
    (hcached : ∀ id l, getRegisteredLambdaById (Linux.act heap s m).state.registry id = some l →
      ((Linux.act heap s m).state.heap l.arg).dataCached = true →
        ∃ v, writeResult l.type ((Linux.act heap s m).state.heap l.arg).ret = some [.value v]) :
    s.Presents heap m := by
  cases m with
  | registered name type cache =>
    rintro ⟨hacc, hheap⟩
    obtain ⟨mem, rfl⟩ := Option.isSome_iff_exists.mp hheap
    have hwf := lambdaRegistryRegister_wf hinv.wf (some mem) name type cache s.brk
    have hnew : getRegisteredLambdaById (enlist (some mem) s name type cache).registry
        s.registry.lambdaCounter =
          some (newRecord mem s.registry.lambdaCounter name type cache s.brk) := by
      change getRegisteredLambdaById (lambdaRegistryRegister (some mem) _ _ _ _ _).1 _ = _
      rw [hwf.getById, lambdaRegistryRegister_of_accepts hacc, Registry.slot_push hacc.1,
        if_pos rfl]
    obtain ⟨htype, hcache⟩ := hnamed _ _ hnew
    rw [stringifyRsLambdaType_isSome_iff] at htype
    rw [stringifyRsCacheType_isSome_iff] at hcache
    exact ⟨htype.1, htype.2, hcache.1, hcache.2⟩
  | result id ret frees =>
    intro l hget hstring
    by_contra hret
    rw [act_result_of_live hget] at hcached
    have hcell : (s.setArg l.arg ⟨true, RS_CALL_SUCCESS, ret⟩).heap l.arg =
        ⟨true, RS_CALL_SUCCESS, ret⟩ := Function.update_self ..
    obtain ⟨v, hv⟩ := hcached id l hget (by rw [hcell])
    rw [hcell, hstring, writeResult_of_not_string hret] at hv
    cases hv
  | unregistered id => trivial
  | error id code => trivial
  | ignored => trivial

/-! ## The lambda of a call -/

/-- No two live records have one name. -/
def Distinct (s : Linux) : Prop :=
  ∀ i j l k, s.registry.slot i = some l → s.registry.slot j = some k → l.text = k.text → i = j

theorem Distinct.act (h : s.Distinct) (hinv : s.Inv) {heap : Option (List UInt8)} {m : Message}
    (hformed : m.Formed) : (Linux.act heap s m).state.Distinct := by
  -- a name that is accepted is no live record's
  have hnew : ∀ mem name type cache i l, m = .registered name type cache →
      s.registry.Accepts name → s.registry.slot i = some l →
        l.text ≠ (newRecord mem s.registry.lambdaCounter name type cache s.brk).text := by
    rintro mem name type cache i l rfl hacc hl
    rw [text_of_formed hformed hacc.2.2.1]
    exact (hinv.wf.getByName_isNone_iff name).mp hacc.2.2.2.2 i l hl
  intro i j l k hl hk htext
  rcases slot_act hinv.wf hl with hl | ⟨mem, name, type, cache, -, hm, hacc, hi, rfl⟩
  · rcases slot_act hinv.wf hk with hk | ⟨mem', name', type', cache', -, hm', hacc', -, rfl⟩
    · exact h i j l k hl hk htext
    · exact absurd htext (hnew _ _ _ _ i l hm' hacc' hl)
  · rcases slot_act hinv.wf hk with hk | ⟨mem', name', type', cache', -, -, -, hj, -⟩
    · exact absurd htext.symm (hnew _ _ _ _ j k hm hacc hk)
    · exact hi.trans hj.symm

theorem Answers.act (h : s.Answers r) (hinv : s.Inv) {heap : Option (List UInt8)} {m : Message}
    (hformed : m.Formed)
    (hm : r.code ∈ Threads.SUCCESS_CODES → ∀ l, s.found r.call = some l → m ≠ .unregistered l.id) :
    (Linux.act heap s m).state.Answers r := by
  unfold Answers at h ⊢
  split_ifs at h ⊢ with hcode
  · obtain ⟨l, hf, hprints⟩ := h
    exact ⟨l, hinv.found_act hf hformed (hm hcode l hf) heap, hprints⟩
  · exact h

theorem Answers.congr {t : Linux} (h : s.Answers r) (hregistry : t.registry = s.registry) :
    t.Answers r := by
  unfold Answers at h ⊢
  split_ifs at h ⊢ with hcode
  · obtain ⟨l, hf, hprints⟩ := h
    exact ⟨l, (found_congr hregistry r.call).trans hf, hprints⟩
  · exact h

/-- What a call of `l` finds after its wait can be answered with: an error that a code of the
calls names, and no success code for a string; otherwise its own record, and a result that can be
printed where there is to be one. -/
def AnswersAfterWait (s : Linux) (c : Call) (l : RsRegisteredLambda ArgPtr) (timedOut : Bool) :
    Prop :=
  let arg := s.heap l.arg
  if timedOut = true ∧ arg.lastCallError ≠ 0 then
    -5 ≤ arg.lastCallError ∧ arg.lastCallError ≤ 2 ∧
      (0 < arg.lastCallError → ∃ k, s.found c = some k ∧ k.type ≠ RS_LAMBDA_STRING)
  else s.entry l ≠ none ∧
    ((timedOut = true → l.cache = RS_CACHE_ON_TIMEOUT ∧ arg.dataCached = true) →
      ∃ k, s.found c = some k ∧ k.Prints arg.ret)

theorem mem_successCodes_iff (c : Int8) : c ∈ Threads.SUCCESS_CODES ↔ 0 ≤ c ∧ c ≤ 2 := by
  have hall : ∀ f : Fin 256, (UInt8.ofFin f).toInt8 ∈ Threads.SUCCESS_CODES ↔
      0 ≤ (UInt8.ofFin f).toInt8 ∧ (UInt8.ofFin f).toInt8 ≤ 2 := by
    decide +kernel
  exact hall c.toUInt8.toFin

/-- A success code answers with the lambda that is found. -/
theorem answers_of_found {l : RsRegisteredLambda ArgPtr} (hf : s.found r.call = some l)
    (hcode : r.code ∈ Threads.SUCCESS_CODES) :
    s.Answers r ↔ l.Prints (r.written.getD (.retI 0)) := by
  rw [Answers, if_pos hcode, hf]
  constructor
  · rintro ⟨l', hl', hprints⟩
    rwa [Option.some.inj hl']
  · intro hprints
    exact ⟨l, rfl, hprints⟩

/-- An error code from the board that a call returns: a positive one counts as success, with
a result that was never written. -/
theorem answers_error_iff {c : Call} {code : Int8} (hcode : code ≠ 0)
    (lambda : Option (RsRegisteredLambda ArgPtr)) (answered : Bool) :
    s.Answers ⟨c, lambda, code, none, answered⟩ ↔
      -5 ≤ code ∧ code ≤ 2 ∧
        (0 < code → ∃ k, s.found c = some k ∧ k.type ≠ RS_LAMBDA_STRING) := by
  by_cases hmem : code ∈ Threads.SUCCESS_CODES
  · obtain ⟨h0, h2⟩ := (mem_successCodes_iff code).mp hmem
    have hpos : 0 < code := Int8.lt_of_le_of_ne h0 hcode.symm
    have h5 : -5 ≤ code := Int8.le_trans (by decide) h0
    have hzero : ∀ k : RsRegisteredLambda ArgPtr,
        k.Prints (.retI 0) ↔ k.type ≠ RS_LAMBDA_STRING := fun k =>
      ⟨fun h hstring => absurd (h hstring) (by decide), fun h hstring => absurd hstring h⟩
    simp only [Answers, if_pos hmem, Option.getD_none, hzero]
    exact ⟨fun h => ⟨h5, h2, fun _ => h⟩, fun h => h.2.2 hpos⟩
  · rw [Answers, if_neg hmem, stringifyRsCallResult_isSome_iff]
    rw [mem_successCodes_iff] at hmem
    constructor
    · rintro ⟨h5, h2⟩
      exact ⟨h5, h2, fun hpos => absurd ⟨Int8.le_of_lt hpos, h2⟩ hmem⟩
    · rintro ⟨h5, h2, -⟩
      exact ⟨h5, h2⟩

/-- It is exactly then that the call goes on to an answer. -/
theorem answersAfterWait_iff {c : Call} {l : RsRegisteredLambda ArgPtr} {timedOut : Bool}
    (lambda : Option (RsRegisteredLambda ArgPtr)) (answered : Bool) :
    s.AnswersAfterWait c l timedOut ↔
      ∃ s' code written, s.afterWait l timedOut = some (s', code, written) ∧
        s'.Answers ⟨c, lambda, code, written, answered⟩ := by
  rw [afterWait_eq]
  unfold AnswersAfterWait
  dsimp only
  split_ifs with herror hentry htimedOut
  · rw [← answers_error_iff herror.2 lambda answered]
    constructor
    · intro h
      exact ⟨_, _, _, rfl, h.congr rfl⟩
    · rintro ⟨s', code, written, ⟨⟩, h⟩
      exact h.congr rfl
  · exact iff_of_false (fun h => h.1 hentry) (by simp)
  · have hall : ∀ p : Int8 × Option GenericLambdaReturn,
        (∃ s' code written, some (s, p) = some (s', code, written) ∧
          s'.Answers ⟨c, lambda, code, written, answered⟩) ↔
            s.Answers ⟨c, lambda, p.1, p.2, answered⟩ := by
      rintro ⟨code, written⟩
      constructor
      · rintro ⟨_, _, _, ⟨⟩, h⟩
        exact h
      · exact fun h => ⟨_, _, _, rfl, h⟩
    rw [hall, and_iff_right hentry, timeoutAnswer]
    split_ifs with hpolicy hcached
    · have hmem : RS_CALL_CACHE_TIMEOUT ∈ Threads.SUCCESS_CODES := by decide
      simp only [Answers, if_pos hmem, htimedOut, hpolicy, hcached, true_imp_iff, true_and]
      rfl
    · exact iff_of_true (fun h => absurd (h htimedOut).2 hcached) rfl
    · exact iff_of_true (fun h => absurd (h htimedOut).1 hpolicy) rfl
  · have hmem : RS_CALL_SUCCESS ∈ Threads.SUCCESS_CODES := by decide
    rw [and_iff_right hentry]
    constructor
    · intro h
      refine ⟨_, _, _, rfl, ?_⟩
      rw [Answers, if_pos hmem]
      exact h fun ht => absurd ht htimedOut
    · rintro ⟨s', code, written, ⟨⟩, h⟩ -
      rwa [Answers, if_pos hmem] at h

end Linux

/-- A call that goes on has a packet to send; one that has returned can be answered. -/
def Phase.Sound (linux : Linux) : Phase → Prop
  | .ready p => ∀ env, (Linux.callPacket env p.call).isSome
  | .returned r => linux.Answers r
  | .undefined _ => False
  | _ => True

theorem Phase.Sound.mono {s t : Linux} {phase : Phase} (h : phase.Sound s)
    (hanswers : ∀ r, phase = .returned r → s.Answers r → t.Answers r) : phase.Sound t := by
  cases phase with
  | returned r => exact hanswers r rfl h
  | _ => exact h

theorem Phase.Sound.onPacket {linux : Linux} {phase : Phase} (h : phase.Sound linux)
    (stored broadcast : Option ArgPtr) : (phase.onPacket stored broadcast).Sound linux := by
  cases phase with
  | waiting p =>
    rw [Phase.onPacket]
    split_ifs <;> trivial
  | _ => exact h

namespace Threads

variable {o : ByteOrder} {s : Threads}

/-- A packet brings what can be printed, and does not unregister a lambda between a successful
call and its answer. A call has its record where it reads it, and finds what it can be answered
with after its wait. -/
def Servable (o : ByteOrder) (s : Threads) : ThreadEvent → Prop
  | .packet d =>
    s.linux.Presents d.env.heap (Linux.readPacket o d.env d.packet) ∧
      ∀ i r l, s.clients i = .returned r → r.code ∈ SUCCESS_CODES →
        s.linux.found r.call = some l → Linux.readPacket o d.env d.packet ≠ .unregistered l.id
  | .wait i => ∀ p, s.clients i = .sent p → s.linux.entry p.lambda ≠ none
  | .expire i => ∀ p, s.clients i = .waiting p → s.linux.entry p.lambda ≠ none
  | .resume i => ∀ p timedOut, s.clients i = .resuming p timedOut → s.holder = none →
      s.linux.AnswersAfterWait p.call p.lambda timedOut
  | _ => True

structure Served (s : Threads) : Prop where
  linux : s.linux.Inv
  distinct : s.linux.Distinct
  presentable : s.linux.Presentable
  sound : ∀ i, (s.clients i).Sound s.linux

theorem Served.start (garbage : ArgPtr → RsLinuxRegisteredLambda) :
    (start (Linux.started garbage)).Served where
  linux := Linux.Inv.started garbage
  distinct := by simp [Linux.Distinct, Threads.start, Linux.started]
  presentable := by simp [Linux.Presentable, Threads.start, Linux.started]
  sound _ := trivial

theorem Served.packet (h : s.Served) {d : Linux.Delivery} (hd : Servable o s (.packet d)) :
    (s.packet o d).Served := by
  have hformed := Linux.readPacket_formed o d.env d.packet
  refine ⟨h.linux.receive d, ?_, ?_, fun i => Phase.Sound.onPacket ?_ _ _⟩
  · rw [linux_packet]
    exact h.distinct.act h.linux hformed
  · rw [linux_packet]
    exact h.presentable.act h.linux hd.1
  · rw [linux_packet]
    exact (h.sound i).mono fun r hr ha =>
      ha.act h.linux hformed fun hcode l hl => hd.2 i r l hr hcode hl

/-- One thread takes a step that changes an error code at most. -/
theorem Served.setPhase (h : s.Served) (t : Threads) (hclients : t.clients = s.clients)
    (halike : t.linux.Alike s.linux) (i : ℕ) {phase : Phase} (hphase : phase.Sound t.linux) :
    (t.setPhase i phase).Served where
  linux := halike.inv h.linux
  distinct := by
    intro j k l m hl hm
    rw [linux_setPhase, halike.registry] at hl hm
    exact h.distinct j k l m hl hm
  presentable := h.presentable.of_alike h.linux halike
  sound := by
    refine forall_setPhase (fun j => ?_) i hphase
    rw [hclients]
    exact (h.sound j).mono fun r _ ha => ha.congr halike.registry

theorem Served.lookup (h : s.Served) (i : ℕ) (c : Call) : (s.lookup i c).Served := by
  rcases lookup_cases s i c with heq | ⟨code, lambda, written, heq, hlambda, hcode⟩ |
    ⟨lambda, hwaits, -, -, heq⟩
  · rwa [heq]
  · rw [heq]
    refine h.setPhase _ rfl (Linux.Alike.refl _) i ?_
    rcases hcode with rfl | rfl | rfl | ⟨rfl, l, hl, hcached, rfl⟩
    · exact (rfl : (stringifyRsCallResult RS_CALL_NOTFOUND).isSome = true)
    · exact (rfl : (stringifyRsCallResult RS_CALL_WRONGTYPE).isSome = true)
    · exact (rfl : (stringifyRsCallResult RS_CALL_CACHE_EMPTY).isSome = true)
    · have hmem : RS_CALL_CACHE ∈ SUCCESS_CODES := by decide
      exact (Linux.answers_of_found hl hmem).mpr
        ((h.presentable _ l (h.linux.slot_of_found hl)).2 hcached)
  · rw [heq]
    have hf := (Linux.waitsOn_eq_some.mp hwaits).1
    have hready : Phase.Sound s.linux (.ready ⟨c, lambda, false, false⟩) := fun env =>
      Option.isSome_iff_exists.mpr (h.linux.callPacket_exists hf env)
    exact h.setPhase { s with holder := some i } rfl (Linux.Alike.refl _) i hready

theorem Served.send (h : s.Served) (i : ℕ) (env : Env) : (s.send i env).Served := by
  rcases send_cases s i env with heq | ⟨p, hphase, ⟨hnone, -⟩ | heq⟩
  · rwa [heq]
  · have hp := h.sound i
    rw [hphase] at hp
    exact absurd (hp env) (Option.not_isSome_iff_eq_none.mpr hnone)
  · rw [heq]
    exact h.setPhase _ rfl (Linux.Alike.refl _) i trivial

theorem Served.wait (h : s.Served) {i : ℕ} (hd : Servable o s (.wait i)) : (s.wait i).Served := by
  rcases wait_cases s i with ⟨-, heq⟩ | ⟨p, hphase, ⟨hentry, -⟩ | ⟨-, heq⟩⟩
  · rwa [heq]
  · exact absurd hentry (hd p hphase)
  · rw [heq]
    exact h.setPhase { s.record _ with holder := none } rfl (Linux.Alike.refl _) i trivial

theorem Served.expire (h : s.Served) {i : ℕ} (hd : Servable o s (.expire i)) :
    (s.expire i).Served := by
  rcases expire_cases s i with ⟨-, heq⟩ | ⟨p, hphase, ⟨hentry, -⟩ | ⟨-, heq⟩⟩
  · rwa [heq]
  · exact absurd hentry (hd p hphase)
  · rw [heq]
    exact h.setPhase (s.record _) rfl (Linux.Alike.refl _) i trivial

theorem Served.spurious (h : s.Served) (i : ℕ) : (s.spurious i).Served := by
  rcases spurious_cases s i with heq | ⟨p, -, heq⟩
  · rwa [heq]
  · rw [heq]
    exact h.setPhase _ rfl (Linux.Alike.refl _) i trivial

theorem Served.resume (h : s.Served) {i : ℕ} (hd : Servable o s (.resume i)) :
    (s.resume i).Served := by
  rcases resume_cases s i with ⟨-, heq⟩ | ⟨p, timedOut, s', hphase, hfree, hs', hcases⟩
  · rwa [heq]
  have hclients : s'.clients = s.clients := (frame_of_record hs').1
  obtain ⟨linux', code', written', hafter', hanswers⟩ :=
    (Linux.answersAfterWait_iff (some p.lambda) p.answered).mp (hd p timedOut hphase hfree)
  rcases hcases with ⟨hafter, -⟩ | ⟨linux, code, written, hafter, heq⟩
  · rw [hafter] at hafter'
    cases hafter'
  · obtain ⟨rfl, rfl, rfl⟩ : linux = linux' ∧ code = code' ∧ written = written' := by
      simpa using hafter.symm.trans hafter'
    rw [heq]
    exact h.setPhase { s' with linux } hclients (Linux.afterWait_alike hafter) i hanswers

theorem Served.respond (h : s.Served) (i : ℕ) : (s.respond i).Served := by
  rcases respond_cases s i with heq | ⟨r, -, heq⟩
  · rwa [heq]
  · rw [heq]
    split_ifs
    · exact h.setPhase (s.record _) rfl (Linux.Alike.refl _) i trivial
    · exact h.setPhase _ rfl (Linux.Alike.refl _) i trivial

theorem Served.step (h : s.Served) {e : ThreadEvent} (he : Servable o s e) :
    (step o s e).Served := by
  cases e with
  | packet d => exact h.packet he
  | lookup i c => exact h.lookup i c
  | send i env => exact h.send i env
  | wait i => exact h.wait he
  | expire i => exact h.expire he
  | spurious i => exact h.spurious i
  | resume i => exact h.resume he
  | respond i => exact h.respond i

/-- Registers `"a"` with the type 0, which is none. -/
def registersUntyped : Linux.Delivery :=
  ⟨{}, [RS_PACKET_REGISTERED, 97] ++ List.replicate 11 0 ++ [0, RS_CACHE_NO_CACHE]⟩

end Threads

end RS
