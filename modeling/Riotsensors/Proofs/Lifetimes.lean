import Riotsensors.Sanity.Threads

/-! Which records a call uses. An unregistration frees the record, and the handler does it
without the mutex, in the middle of a call as well as between calls. -/

namespace RS

/-- The record is still the one of its id; a response is assembled from the called one. -/
def Access.Live : Access → Prop
  | .arg lambda entry => entry = some lambda
  | .waitResult lambda entry => entry = some lambda
  | .cache lambda entry => entry = some lambda
  | .response lambda given => ∃ l, lambda = some l ∧ given = some l

/-- The record that a thread is going to use. After an error no response needs one. -/
def Phase.uses : Phase → Option (RsRegisteredLambda ArgPtr)
  | .ready p => some p.lambda
  | .sent p => some p.lambda
  | .waiting p => some p.lambda
  | .resuming p _ => some p.lambda
  | .returned r => if r.code ∈ Threads.SUCCESS_CODES then r.lambda else none
  | _ => none

namespace Linux

/-- No message but its unregistration takes a record from the call that found it. -/
theorem Inv.found_act {s : Linux} (h : s.Inv) {c : Call} {l : RsRegisteredLambda ArgPtr}
    (hf : s.found c = some l) {m : Message} (hformed : m.Formed)
    (hm : m ≠ .unregistered l.id) (heap : Option (List UInt8)) :
    (Linux.act heap s m).state.found c = some l := by
  have hslot := h.slot_of_found hf
  have hwf := (h.act heap hformed).wf
  have hstay : (Linux.act heap s m).state.registry.slot l.id.toNat = some l :=
    slot_act_of_ne h.wf hslot hm
  have hbefore : ∀ j < l.id.toNat, ∀ k, (Linux.act heap s m).state.registry.slot j = some k →
      s.registry.slot j = some k := by
    intro j hj k hk
    rcases slot_act h.wf hk with hold | ⟨mem, name, type, cache, -, -, -, hnew, -⟩
    · exact hold
    · exact absurd (hj.trans (h.wf.lt_counter hslot)) hnew.ge.not_gt
  cases c with
  | byId id expectedType =>
    have hid : s.registry.slot id.toNat = some l := (h.wf.getById id).symm.trans hf
    have hl := h.wf.ids _ _ hid
    change getRegisteredLambdaById _ id = some l
    rw [hwf.getById, ← hl]
    exact hstay
  | byName name expectedType => exact h.wf.getByName_of_anti hwf hf hstay hbefore

theorem Inv.found_receive {o : ByteOrder} {s : Linux} (h : s.Inv) {c : Call}
    {l : RsRegisteredLambda ArgPtr} (hf : s.found c = some l) {d : Delivery}
    (hd : readPacket o d.env d.packet ≠ .unregistered l.id) :
    (Linux.receive o s d).found c = some l := by
  rw [receive_eq]
  exact h.found_act hf (readPacket_formed _ _ _) hd _

theorem found_congr {s t : Linux} (h : s.registry = t.registry) (c : Call) :
    s.found c = t.found c := by
  cases c <;> simp only [found, h]

end Linux

namespace Threads

def UsesLive (s : Threads) : Prop := ∀ a ∈ s.log, a.Live

/-- No lambda is unregistered that a thread is going to use. -/
def Undisturbed (o : ByteOrder) (s : Threads) : ThreadEvent → Prop
  | .packet d => ∀ i l, (s.clients i).uses = some l →
      Linux.readPacket o d.env d.packet ≠ .unregistered l.id
  | _ => True

end Threads

/-- A thread's record is the one that its call still finds. -/
def Phase.Holds (linux : Linux) : Phase → Prop
  | .ready p => linux.found p.call = some p.lambda
  | .sent p => linux.found p.call = some p.lambda
  | .waiting p => linux.found p.call = some p.lambda
  | .resuming p _ => linux.found p.call = some p.lambda
  | .returned r => r.code ∈ Threads.SUCCESS_CODES →
      ∃ l, r.lambda = some l ∧ linux.found r.call = some l
  | _ => True

theorem Phase.Holds.congr {s t : Linux} {phase : Phase} (h : phase.Holds s)
    (hfound : ∀ c l, phase.uses = some l → s.found c = some l → t.found c = some l) :
    phase.Holds t := by
  cases phase with
  | ready p => exact hfound _ _ rfl h
  | sent p => exact hfound _ _ rfl h
  | waiting p => exact hfound _ _ rfl h
  | resuming p timedOut => exact hfound _ _ rfl h
  | returned r =>
    intro hcode
    obtain ⟨l, hl, hf⟩ := h hcode
    exact ⟨l, hl, hfound _ _ (by rw [Phase.uses, if_pos hcode, hl]) hf⟩
  | idle => trivial
  | undefined answered => trivial

theorem Phase.Holds.onPacket {linux : Linux} {phase : Phase} (h : phase.Holds linux)
    (stored broadcast : Option ArgPtr) : (phase.onPacket stored broadcast).Holds linux := by
  cases phase with
  | waiting p =>
    rw [Phase.onPacket]
    split_ifs
    · exact h
    · exact h
  | _ => exact h

namespace Threads

variable {o : ByteOrder} {s : Threads}

structure Safe (s : Threads) : Prop where
  linux : s.linux.Inv
  holds : ∀ i, (s.clients i).Holds s.linux
  log : s.UsesLive

theorem Safe.start (garbage : ArgPtr → RsLinuxRegisteredLambda) :
    (start (Linux.started garbage)).Safe :=
  ⟨Linux.Inv.started garbage, fun _ => trivial, fun _ ha => absurd ha List.not_mem_nil⟩

theorem Safe.packet (h : s.Safe) {d : Linux.Delivery} (hd : Undisturbed o s (.packet d)) :
    (s.packet o d).Safe where
  linux := h.linux.receive d
  holds i := by
    refine Phase.Holds.onPacket ?_ _ _
    exact (h.holds i).congr fun c l huse hf => h.linux.found_receive hf (hd i l huse)
  log := h.log

/-- One thread takes a step that leaves the registry as it is. -/
theorem Safe.setPhase (h : s.Safe) (t : Threads) (hclients : t.clients = s.clients)
    (hregistry : t.linux.registry = s.linux.registry ∧ t.linux.brk = s.linux.brk)
    (hlog : t.UsesLive) {i : ℕ} {phase : Phase} (hphase : phase.Holds t.linux) :
    (t.setPhase i phase).Safe where
  linux := h.linux.anti (hregistry.1 ▸ h.linux.wf) hregistry.2.ge fun _ _ hl => hregistry.1 ▸ hl
  holds := by
    refine forall_setPhase (fun j => ?_) i hphase
    rw [hclients]
    exact (h.holds j).congr fun c l _ hf => (Linux.found_congr hregistry.1 c).trans hf
  log := hlog

theorem UsesLive.record {a : Access} (h : s.UsesLive) (ha : a.Live) : (s.record a).UsesLive := by
  intro b hb
  rcases List.mem_append.mp hb with hold | hnew
  · exact h b hold
  · rwa [List.mem_singleton.mp hnew]

theorem UsesLive.of_record {s' : Threads} {a : Access} (h : s.UsesLive)
    (hs' : s' = s.record a ∨ s' = s) (ha : a.Live) : s'.UsesLive := by
  rcases hs' with rfl | rfl
  · exact h.record ha
  · exact h

theorem Safe.lookup (h : s.Safe) (i : ℕ) (c : Call) : (s.lookup i c).Safe := by
  rcases lookup_cases s i c with heq | ⟨code, lambda, written, heq, hlambda, hcode⟩ |
    ⟨lambda, hwaits, -, -, heq⟩
  · rwa [heq]
  · rw [heq]
    refine h.setPhase _ rfl ⟨rfl, rfl⟩ h.log fun hmem => ?_
    rcases hcode with rfl | rfl | rfl | ⟨rfl, l, hl, -, -⟩
    · exact absurd hmem (show RS_CALL_NOTFOUND ∉ SUCCESS_CODES by decide)
    · exact absurd hmem (show RS_CALL_WRONGTYPE ∉ SUCCESS_CODES by decide)
    · exact absurd hmem (show RS_CALL_CACHE_EMPTY ∉ SUCCESS_CODES by decide)
    · exact ⟨l, hlambda.trans hl, hl⟩
  · rw [heq]
    have hf : Phase.Holds s.linux (.ready ⟨c, lambda, false, false⟩) :=
      (Linux.waitsOn_eq_some.mp hwaits).1
    exact h.setPhase { s with holder := some i } rfl ⟨rfl, rfl⟩ h.log hf

theorem Safe.send (h : s.Safe) (i : ℕ) (env : Env) : (s.send i env).Safe := by
  rcases send_cases s i env with heq | ⟨p, hphase, ⟨-, heq⟩ | heq⟩
  · rwa [heq]
  · rw [heq]
    exact h.setPhase _ rfl ⟨rfl, rfl⟩ h.log trivial
  · have hp := h.holds i
    rw [hphase] at hp
    rw [heq]
    exact h.setPhase _ rfl ⟨rfl, rfl⟩ h.log hp

theorem Safe.wait (h : s.Safe) (i : ℕ) : (s.wait i).Safe := by
  rcases wait_cases s i with ⟨-, heq⟩ | ⟨p, hphase, hcases⟩
  · rwa [heq]
  have hp : s.linux.found p.call = some p.lambda := by
    have := h.holds i
    rwa [hphase] at this
  have hentry : s.linux.entry p.lambda = some p.lambda := h.linux.slot_of_found hp
  rcases hcases with ⟨hnone, -⟩ | ⟨-, heq⟩
  · rw [hentry] at hnone
    cases hnone
  · rw [heq]
    have hlive : (Access.arg p.lambda (s.linux.entry p.lambda)).Live := hentry
    have hwaiting : Phase.Holds s.linux (.waiting p) := hp
    exact h.setPhase { s.record _ with holder := none } rfl ⟨rfl, rfl⟩ (h.log.record hlive) hwaiting

theorem Safe.wakes (h : s.Safe) {i : ℕ} {t : Threads} (ht : s.Wakes i t) : t.Safe := by
  rcases ht with rfl | ⟨p, s', hphase, hs', hcases⟩
  · exact h
  have hp : s.linux.found p.call = some p.lambda := by
    have := h.holds i
    rwa [hphase] at this
  have hentry : s.linux.entry p.lambda = some p.lambda := h.linux.slot_of_found hp
  have hlive : (Access.waitResult p.lambda (s.linux.entry p.lambda)).Live := hentry
  have hlog : s'.UsesLive := h.log.of_record hs' hlive
  obtain ⟨hclients, hlinux, -⟩ := frame_of_record hs'
  have hregistry : s'.linux.registry = s.linux.registry ∧ s'.linux.brk = s.linux.brk := by
    rw [hlinux]
    exact ⟨rfl, rfl⟩
  rcases hcases with ⟨timedOut, rfl⟩ | ⟨-, rfl⟩
  · have hresuming : Phase.Holds s'.linux (.resuming p timedOut) := hlinux ▸ hp
    exact h.setPhase s' hclients hregistry hlog hresuming
  · exact h.setPhase s' hclients hregistry hlog trivial

theorem Safe.resume (h : s.Safe) (i : ℕ) : (s.resume i).Safe := by
  rcases resume_cases s i with ⟨-, heq⟩ | ⟨p, timedOut, s', hphase, -, hs', hcases⟩
  · rwa [heq]
  have hp : s.linux.found p.call = some p.lambda := by
    have := h.holds i
    rwa [hphase] at this
  have hentry : s.linux.entry p.lambda = some p.lambda := h.linux.slot_of_found hp
  have hlive : (Access.cache p.lambda (s.linux.entry p.lambda)).Live := hentry
  have hlog : s'.UsesLive := h.log.of_record hs' hlive
  obtain ⟨hclients, hlinux, -⟩ := frame_of_record hs'
  rcases hcases with ⟨-, heq⟩ | ⟨linux, code, written, hafter, heq⟩
  · rw [heq]
    exact h.setPhase s' hclients (by rw [hlinux]; exact ⟨rfl, rfl⟩) hlog trivial
  · have halike := Linux.afterWait_alike hafter
    have hreturned : Phase.Holds linux
        (.returned ⟨p.call, some p.lambda, code, written, p.answered⟩) :=
      fun _ => ⟨p.lambda, rfl, (Linux.found_congr halike.registry p.call).trans hp⟩
    have hlog' : UsesLive { s' with linux } := hlog
    rw [heq]
    exact h.setPhase { s' with linux } hclients ⟨halike.registry, halike.brk⟩ hlog' hreturned

theorem Safe.respond (h : s.Safe) (i : ℕ) : (s.respond i).Safe := by
  rcases respond_cases s i with heq | ⟨r, hphase, heq⟩
  · rwa [heq]
  have hr := h.holds i
  rw [hphase] at hr
  rw [heq]
  split_ifs with hcode
  · have hlive : (Access.response r.lambda (s.linux.found r.call)).Live := hr hcode
    exact h.setPhase (s.record _) rfl ⟨rfl, rfl⟩ (h.log.record hlive) trivial
  · exact h.setPhase _ rfl ⟨rfl, rfl⟩ h.log trivial

theorem Safe.step (h : s.Safe) {e : ThreadEvent} (he : Undisturbed o s e) : (step o s e).Safe := by
  cases e with
  | packet d => exact h.packet he
  | lookup i c => exact h.lookup i c
  | send i env => exact h.send i env
  | wait i => exact h.wait i
  | expire i => exact h.wakes (wakes_expire s i)
  | spurious i => exact h.wakes (wakes_spurious s i)
  | resume i => exact h.resume i
  | respond i => exact h.respond i

/-- Calls use live records as long as no lambda is unregistered in the middle of its call. -/
theorem uses_live_lambdas (o : ByteOrder) (garbage : ArgPtr → RsLinuxRegisteredLambda)
    (es : List ThreadEvent)
    (h : Runs.Meets (step o) (Undisturbed o) (start (Linux.started garbage)) es) :
    Runs.Along (step o) UsesLive (start (Linux.started garbage)) es :=
  Runs.along_of_inv (fun _ _ hs he => hs.step he) (fun _ hs => hs.log) (Safe.start garbage) h

/-- Unregisters the lambda with id 0. -/
def unregistersZero : Linux.Delivery :=
  ⟨{}, [RS_PACKET_UNREGISTERED, 0] ++ List.replicate 12 0⟩

/-- A call that is answered. -/
theorem uses_live_lambdas_answered :
    Runs.Along (step .little) UsesLive (start (Linux.started zeroed))
      [.packet registersA, .lookup 0 (.byId 0 RS_LAMBDA_INT), .send 0 {}, .wait 0,
        .packet answersFive, .resume 0, .respond 0] := by
  apply uses_live_lambdas
  have hregisters : Linux.readPacket .little {} registersA.packet =
      .registered (registersA.packet.drop NAME) RS_LAMBDA_INT RS_CACHE_NO_CACHE := rfl
  have hanswers : Linux.readPacket .little {} answersFive.packet = .result 0 (.retI 5) false := rfl
  exact ⟨fun _ _ _ h => Message.noConfusion (hregisters.symm.trans h), trivial, trivial, trivial,
    fun _ _ _ h => Message.noConfusion (hanswers.symm.trans h), trivial, trivial, trivial⟩

/-- The lambda goes between the end of its call's time and the call's going on. -/
theorem freed_lambda_is_read :
    ¬ ∀ (o : ByteOrder) (garbage : ArgPtr → RsLinuxRegisteredLambda) (es : List ThreadEvent),
      Runs.Along (step o) UsesLive (start (Linux.started garbage)) es := by
  intro h
  have hlive := h .little zeroed [.packet registersA, .lookup 0 (.byId 0 RS_LAMBDA_INT), .send 0 {},
    .wait 0, .expire 0, .packet unregistersZero, .resume 0] _ (List.prefix_refl _)
  have hdead : ∃ l, (Runs.run (step .little) (start (Linux.started zeroed)) [.packet registersA,
      .lookup 0 (.byId 0 RS_LAMBDA_INT), .send 0 {}, .wait 0, .expire 0, .packet unregistersZero,
      .resume 0]).log[2]? = some (.cache l none) := ⟨_, rfl⟩
  obtain ⟨l, hl⟩ := hdead
  have hlive' := hlive _ (List.mem_of_getElem? hl)
  cases hlive'

end Threads

end RS
