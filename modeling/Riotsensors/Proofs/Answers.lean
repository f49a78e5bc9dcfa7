import Riotsensors.Sanity.Client

/-! When a call's answer on Linux is sound: what it hands out was delivered for the
lambda, success is about this wait, and an error that ends the wait is returned. -/

namespace RS

open CMem

namespace Watched

/-- `written` is a result of the lambda's own type that a packet delivered for it. -/
def Delivers (w : Watched) (c : Call) (log : List (ArgPtr × GenericLambdaReturn))
    (written : Option GenericLambdaReturn) : Prop :=
  ∃ l ret, w.linux.found c = some l ∧ written = some ret ∧ l.Typed ret ∧ (l.arg, ret) ∈ log

structure SoundAnswer (o : ByteOrder) (w : Watched) (c : Call) (wait : Linux.Wait)
    (out : Linux.CallOutcome) : Prop where
  /-- a non-negative code says that a delivered result was handed out -/
  answers : 0 ≤ out.code ↔ w.Delivers c (w.log ++ w.duringCall o c wait) out.written
  /-- success says that one was delivered during this call -/
  fresh : out.code = RS_CALL_SUCCESS → ∃ written, w.Delivers c (w.duringCall o c wait) written
  /-- an error packet that ends the wait is returned -/
  error : ∀ l d id code, w.linux.waitsOn c = some l → Linux.ending o l.arg w.linux wait = .woken d →
    Linux.readPacket o d.env d.packet = .error id code → out.code = code ∧ out.written = none

/-- The call returns, with a sound answer. -/
def Sound (o : ByteOrder) (env : Env) (w : Watched) (c : Call) (wait : Linux.Wait) : Prop :=
  ∃ out, Linux.call o env w.linux c wait = some out ∧ w.SoundAnswer o c wait out

/-- The wait ended with a timeout that finds no positive error code left over, with a result, or
without a packet but after a result came. A value that is handed out is of the lambda's type. The
condition variable lasts as long as the wait on it, and the record until it is read, which it is
not if the timeout finds an error code. -/
def WaitOk (o : ByteOrder) (w : Watched) (l : RsRegisteredLambda ArgPtr) (wait : Linux.Wait) :
    Prop :=
  let live := (Linux.receiveAll o w.linux wait.packets).entry l ≠ none
  let arg := (Linux.receiveAll o w.linux wait.packets).heap l.arg
  match Linux.ending o l.arg w.linux wait with
  | .timedOut => (Linux.receiveAll o w.linux wait.blocked).entry l ≠ none ∧
      arg.lastCallError ≤ 0 ∧ (arg.lastCallError = 0 → live ∧
        (l.cache = RS_CACHE_ON_TIMEOUT → arg.dataCached = true → l.Typed arg.ret))
  | .woken d =>
      live ∧ (∀ id code, Linux.readPacket o d.env d.packet ≠ .error id code) ∧ l.Typed arg.ret
  | .spurious =>
      live ∧ (∃ ret, (l.arg, ret) ∈ Linux.deliveredAll o w.linux wait.packets) ∧ l.Typed arg.ret

/-- A call that waits ends its wait well; one that the cache answers finds a value of the
lambda's type there. -/
def CallOk (o : ByteOrder) (w : Watched) (c : Call) (wait : Linux.Wait) : Prop :=
  match w.linux.waitsOn c with
  | some l => w.WaitOk o l wait
  | none => ∀ l ret, w.linux.found c = some l → l.type = c.expectedType →
      (Linux.checkLambdaCache w.linux l).2 = some ret → l.Typed ret

variable {o : ByteOrder} {env : Env} {w : Watched} {c : Call} {wait : Linux.Wait}

/-- An error code with nothing stored is a sound answer where no error ended a wait. -/
theorem soundAnswer_of_refused {out : Linux.CallOutcome} (hcode : out.code < 0)
    (hwritten : out.written = none)
    (herror : ∀ l d id code, w.linux.waitsOn c = some l →
      Linux.ending o l.arg w.linux wait = .woken d →
      Linux.readPacket o d.env d.packet = .error id code → out.code = code ∧ out.written = none) :
    w.SoundAnswer o c wait out where
  answers := by
    refine ⟨fun h => absurd h (Int8.not_le.mpr hcode), ?_⟩
    rintro ⟨l, ret, -, hw, -⟩
    rw [hwritten] at hw
    cases hw
  fresh h := by
    rw [h] at hcode
    exact absurd hcode (by decide)
  error := herror

theorem Inv.sound_iff_of_not_waiting (h : w.Inv) (hw : w.linux.waitsOn c = none) :
    w.Sound o env c wait ↔ w.CallOk o c wait := by
  obtain ⟨code, written, hcall, hcases⟩ := Linux.call_of_not_waiting hw o env wait
  have herror : ∀ l d id code', w.linux.waitsOn c = some l →
      Linux.ending o l.arg w.linux wait = .woken d →
      Linux.readPacket o d.env d.packet = .error id code' → code = code' ∧ written = none := by
    intro l d id code' hl
    rw [hw] at hl
    cases hl
  simp only [CallOk, hw]
  rcases hcases with ⟨hcode, hnone, hempty⟩ | ⟨l, hf, htype, hcode, hwritten, hcached, hcheck⟩
  · constructor
    · intro _ l ret hl ht hret
      rw [hempty l hl ht] at hret
      cases hret
    · intro _
      exact ⟨_, hcall, soundAnswer_of_refused hcode hnone herror⟩
  · have hslot := h.linux.slot_of_found hf
    have hlogged := h.logged l.arg (h.linux.below _ _ hslot) hcached
    have hpos : 0 ≤ code := by rw [hcode]; decide
    have hne : code ≠ RS_CALL_SUCCESS := by rw [hcode]; decide
    constructor
    · rintro ⟨out, hout, hsound⟩ l' ret hl' - hret
      obtain rfl := Option.some.inj (hcall.symm.trans hout)
      obtain ⟨m, ret', hm, hwr, htyped, -⟩ := hsound.answers.mp hpos
      rw [hl'] at hm hf
      obtain rfl := Option.some.inj hm
      obtain rfl := Option.some.inj hf
      rw [hcheck] at hret
      rwa [Option.some.inj (hret.symm.trans hwr)]
    · intro hok
      refine ⟨_, hcall, ⟨fun _ => ?_, fun _ => hpos⟩, fun h0 => absurd h0 hne, herror⟩
      refine ⟨l, _, hf, hwritten, hok l _ hf htype (hcheck.trans hwritten), ?_⟩
      exact List.mem_append_left _ hlogged

theorem duringCall_of_waiting {l : RsRegisteredLambda ArgPtr} (hw : w.linux.waitsOn c = some l) :
    w.duringCall o c wait = Linux.deliveredAll o w.linux wait.packets := by
  rw [duringCall, hw, Option.isSome_some, if_pos rfl]

/-- Reported success is sound when a result came, the last one is of the lambda's type,
and no error ended the wait. -/
theorem soundAnswer_success_iff {l : RsRegisteredLambda ArgPtr} (hw : w.linux.waitsOn c = some l)
    (hbrk : l.arg < w.linux.brk) (state : Linux) (sent : List Packet) :
    w.SoundAnswer o c wait ⟨state, sent, RS_CALL_SUCCESS,
        some ((Linux.receiveAll o w.linux wait.packets).heap l.arg).ret⟩ ↔
      (∃ ret, (l.arg, ret) ∈ Linux.deliveredAll o w.linux wait.packets) ∧
        l.Typed ((Linux.receiveAll o w.linux wait.packets).heap l.arg).ret ∧
        ∀ d, Linux.ending o l.arg w.linux wait = .woken d →
          ∀ id code, Linux.readPacket o d.env d.packet ≠ .error id code := by
  have hf := (Linux.waitsOn_eq_some.mp hw).1
  have hlog := @duringCall_of_waiting o w c wait l hw
  constructor
  · intro hsound
    refine ⟨?_, ?_, ?_⟩
    · obtain ⟨-, m, ret, hm, -, -, hmem⟩ := hsound.fresh rfl
      obtain rfl := Option.some.inj (hf.symm.trans hm)
      exact ⟨ret, hlog ▸ hmem⟩
    · obtain ⟨m, ret, hm, hret, htyped, -⟩ := hsound.answers.mp (Int8.le_refl 0)
      obtain rfl := Option.some.inj (hf.symm.trans hm)
      rwa [Option.some.inj hret]
    · intro d hend id code herr
      have hnone := (hsound.error l d id code hw hend herr).2
      cases hnone
  · rintro ⟨⟨ret, hmem⟩, htyped, hnoerr⟩
    have hlast : (l.arg, ((Linux.receiveAll o w.linux wait.packets).heap l.arg).ret) ∈
        w.duringCall o c wait := by
      rw [hlog]
      rcases Linux.receiveAll_heap hbrk o wait.packets with ⟨-, hlast⟩ | ⟨hnone, -⟩
      · exact hlast
      · exact absurd hmem (hnone ret)
    refine ⟨⟨fun _ => ?_, fun _ => Int8.le_refl 0⟩, fun _ => ?_, ?_⟩
    · exact ⟨l, _, hf, rfl, htyped, List.mem_append_right _ hlast⟩
    · exact ⟨_, l, _, hf, rfl, htyped, hlast⟩
    · intro l' d id code hl' hend herr
      obtain rfl := Option.some.inj (hw.symm.trans hl')
      exact absurd herr (hnoerr d hend id code)

/-- A timed out call answers soundly when it finds no positive error code, and the value
it takes from the cache, if it does, is of the lambda's type. -/
theorem Inv.soundAnswer_timedOut_iff (h : w.Inv) {l : RsRegisteredLambda ArgPtr}
    (hw : w.linux.waitsOn c = some l) (hend : Linux.ending o l.arg w.linux wait = .timedOut)
    (state : Linux) (sent : List Packet) :
    w.SoundAnswer o c wait ⟨state, sent,
        (Linux.timeoutAnswer l.cache ((Linux.receiveAll o w.linux wait.packets).heap l.arg)).1,
        (Linux.timeoutAnswer l.cache ((Linux.receiveAll o w.linux wait.packets).heap l.arg)).2⟩ ↔
      (l.cache = RS_CACHE_ON_TIMEOUT →
        ((Linux.receiveAll o w.linux wait.packets).heap l.arg).dataCached = true →
          l.Typed ((Linux.receiveAll o w.linux wait.packets).heap l.arg).ret) := by
  have hf := (Linux.waitsOn_eq_some.mp hw).1
  have hbrk := h.linux.below _ _ (h.linux.slot_of_found hf)
  have hnoerr : ∀ out : Linux.CallOutcome, ∀ m d id code, w.linux.waitsOn c = some m →
      Linux.ending o m.arg w.linux wait = .woken d →
      Linux.readPacket o d.env d.packet = .error id code →
        out.code = code ∧ out.written = none := by
    intro out m d id code hm hwoken
    obtain rfl := Option.some.inj (hw.symm.trans hm)
    rw [hend] at hwoken
    cases hwoken
  unfold Linux.timeoutAnswer
  split_ifs with hcache hcached
  · constructor
    · intro hsound _ _
      obtain ⟨m, ret, hm, hret, htyped, -⟩ :=
        hsound.answers.mp (show 0 ≤ RS_CALL_CACHE_TIMEOUT by decide)
      obtain rfl := Option.some.inj (hf.symm.trans hm)
      rwa [Option.some.inj hret]
    · intro htyped
      have hlogged := (h.receiveAll wait.packets).logged l.arg
        (hbrk.trans_le (Linux.brk_receiveAll_le o w.linux wait.packets)) hcached
      refine ⟨⟨fun _ => ?_, fun _ => show 0 ≤ RS_CALL_CACHE_TIMEOUT by decide⟩, fun h0 => ?_,
        hnoerr _⟩
      swap
      · exact absurd (show RS_CALL_CACHE_TIMEOUT = RS_CALL_SUCCESS from h0) (by decide)
      refine ⟨l, _, hf, rfl, htyped hcache hcached, ?_⟩
      rw [duringCall_of_waiting hw]
      exact hlogged
  · refine ⟨fun _ _ hc => absurd hc hcached, fun _ => ?_⟩
    exact soundAnswer_of_refused (show RS_CALL_CACHE_TIMEOUT_EMPTY < 0 by decide) rfl (hnoerr _)
  · refine ⟨fun _ hc => absurd hc hcache, fun _ => ?_⟩
    exact soundAnswer_of_refused (show RS_CALL_TIMEOUT < 0 by decide) rfl (hnoerr _)

/-- The call sends its packet and waits. -/
theorem Inv.sound_of_waiting (h : w.Inv) {l : RsRegisteredLambda ArgPtr}
    (hw : w.linux.waitsOn c = some l) (o : ByteOrder) (env : Env) (wait : Linux.Wait) :
    ∃ packet, w.Sound o env c wait ↔
      ∃ out, Linux.waitLambdaResult o w.linux l wait [packet] = some out ∧
        w.SoundAnswer o c wait out := by
  obtain ⟨packet, -, hcall⟩ := h.linux.call_of_waiting hw o env wait
  refine ⟨packet, ?_⟩
  rw [Sound, hcall]

theorem Inv.sound_iff_of_timedOut (h : w.Inv) {l : RsRegisteredLambda ArgPtr}
    (hw : w.linux.waitsOn c = some l) (hend : Linux.ending o l.arg w.linux wait = .timedOut) :
    w.Sound o env c wait ↔ w.WaitOk o l wait := by
  obtain ⟨packet, hsound⟩ := h.sound_of_waiting hw o env wait
  simp only [hsound, WaitOk, hend]
  by_cases hblocked : (Linux.receiveAll o w.linux wait.blocked).entry l = none
  · rw [Linux.waitLambdaResult_of_destroyed (Linux.timedWait_eq_none_iff.mpr ⟨hend, hblocked⟩)]
    refine iff_of_false ?_ fun hok => hok.1 hblocked
    rintro ⟨out, hout, -⟩
    cases hout
  rw [Linux.waitLambdaResult_of_timedOut hblocked hend]
  by_cases hcode : ((Linux.receiveAll o w.linux wait.packets).heap l.arg).lastCallError = 0
  · by_cases hlive : (Linux.receiveAll o w.linux wait.packets).entry l = none
    · simp [hblocked, hcode, hlive]
    · simp only [hblocked, hcode, hlive, ne_eq, not_true_eq_false, not_false_eq_true, if_false,
        Option.some.injEq, exists_eq_left', h.soundAnswer_timedOut_iff hw hend, Int8.le_refl,
        true_and, forall_const]
  · simp only [hblocked, ne_eq, hcode, not_false_eq_true, if_true, Option.some.injEq,
      exists_eq_left', false_imp_iff, and_true, true_and]
    constructor
    · intro hsound
      by_contra hpos
      obtain ⟨m, ret, -, hnone, -⟩ := hsound.answers.mp (Int8.le_of_lt (Int8.not_le.mp hpos))
      cases hnone
    · intro hneg
      refine soundAnswer_of_refused (Int8.lt_of_le_of_ne hneg hcode) rfl ?_
      intro m d id code hm hwoken
      obtain rfl := Option.some.inj (hw.symm.trans hm)
      rw [hend] at hwoken
      cases hwoken

theorem Inv.sound_iff_of_waiting (h : w.Inv) {l : RsRegisteredLambda ArgPtr}
    (hw : w.linux.waitsOn c = some l) : w.Sound o env c wait ↔ w.WaitOk o l wait := by
  have hf := (Linux.waitsOn_eq_some.mp hw).1
  have hbrk := h.linux.below _ _ (h.linux.slot_of_found hf)
  cases hend : Linux.ending o l.arg w.linux wait with
  | timedOut => exact h.sound_iff_of_timedOut hw hend
  | woken d =>
    have hne : Linux.ending o l.arg w.linux wait ≠ .timedOut := by
      rw [hend]
      exact Linux.Ending.noConfusion
    obtain ⟨packet, hsound⟩ := h.sound_of_waiting hw o env wait
    simp only [hsound, WaitOk, hend]
    by_cases hlive : (Linux.receiveAll o w.linux wait.packets).entry l = none
    · simp [Linux.waitLambdaResult_of_freed hlive hne, hlive]
    rw [Linux.waitLambdaResult_of_answered hlive hne]
    simp only [Option.some.injEq, exists_eq_left', soundAnswer_success_iff hw hbrk, hend, ne_eq,
      hlive, not_false_eq_true, true_and]
    constructor
    · rintro ⟨-, htyped, hnoerr⟩
      exact ⟨hnoerr d rfl, htyped⟩
    · rintro ⟨hnoerr, htyped⟩
      refine ⟨Linux.exists_delivered_of_woken hbrk hend hnoerr, htyped, fun d' hd' => ?_⟩
      rwa [← Linux.Ending.woken.inj hd']
  | spurious =>
    have hne : Linux.ending o l.arg w.linux wait ≠ .timedOut := by
      rw [hend]
      exact Linux.Ending.noConfusion
    obtain ⟨packet, hsound⟩ := h.sound_of_waiting hw o env wait
    simp only [hsound, WaitOk, hend]
    by_cases hlive : (Linux.receiveAll o w.linux wait.packets).entry l = none
    · simp [Linux.waitLambdaResult_of_freed hlive hne, hlive]
    rw [Linux.waitLambdaResult_of_answered hlive hne]
    simp only [Option.some.injEq, exists_eq_left', soundAnswer_success_iff hw hbrk, hend, ne_eq,
      hlive, not_false_eq_true, true_and]
    constructor
    · rintro ⟨hres, htyped, -⟩
      exact ⟨hres, htyped⟩
    · rintro ⟨hres, htyped⟩
      exact ⟨hres, htyped, fun d hd => by cases hd⟩

theorem Inv.sound_iff (h : w.Inv) : w.Sound o env c wait ↔ w.CallOk o c wait := by
  cases hw : w.linux.waitsOn c with
  | none => exact h.sound_iff_of_not_waiting hw
  | some l =>
    simp only [CallOk, hw]
    exact h.sound_iff_of_waiting hw

/-- In every reachable state: a call's answer is sound exactly when its wait ends well. -/
theorem answer_sound_iff {o : ByteOrder} {garbage : ArgPtr → RsLinuxRegisteredLambda}
    {es : List LinuxEvent} {w : Watched} (h : Reaches o garbage es w) (env : Env) (c : Call)
    (wait : Linux.Wait) : w.Sound o env c wait ↔ w.CallOk o c wait :=
  h.inv.sound_iff

theorem answer_sound_iff_registered :
    Reaches .little zeroed [.packet registersA]
        ((started zeroed).receive .little registersA) ∧
      (((started zeroed).receive .little registersA).Sound .little {} (.byId 0 RS_LAMBDA_INT)
          ⟨[], [], true⟩ ↔
        ((started zeroed).receive .little registersA).CallOk .little (.byId 0 RS_LAMBDA_INT)
          ⟨[], [], true⟩) :=
  ⟨rfl, @answer_sound_iff _ _ [.packet registersA] _ rfl _ _ _⟩

/-- An error packet that ends the wait is reported as success. -/
theorem error_is_reported_as_success :
    ¬ ∀ (es : List LinuxEvent) (w : Watched) (env : Env) (c : Call) (wait : Linux.Wait),
      Reaches .little zeroed es w → w.Sound .little env c wait := by
  intro h
  obtain ⟨out, hout, hsound⟩ := h [.packet registersA] _ {} (.byId 0 RS_LAMBDA_INT)
    ⟨[reportsError 0 RS_CALL_WRONGTYPE], [], false⟩ rfl
  have hcode : out.code = RS_CALL_SUCCESS := by
    have hcall : (Linux.call .little {} ((started zeroed).receive .little registersA).linux
        (.byId 0 RS_LAMBDA_INT) ⟨[reportsError 0 RS_CALL_WRONGTYPE], [], false⟩).map (·.code) =
        some RS_CALL_SUCCESS := by decide
    rw [hout] at hcall
    exact Option.some.inj hcall
  have herror := (hsound.error _ _ _ _ rfl rfl rfl).1
  rw [hcode] at herror
  exact absurd herror (by decide)

end Watched

end RS
