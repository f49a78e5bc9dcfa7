import Riotsensors.Sanity.Threads
import Riotsensors.Spec.Transcripts

/-! The blocking calls of the sequential model are runs of the client threads. -/

namespace RS

namespace Threads

variable {o : ByteOrder} {s : Threads} {i j : ℕ}

theorem observed_append (o : ByteOrder) (s : Threads) (es es' : List ThreadEvent) :
    observed o s (es ++ es') = observed o s es ++ observed o (Runs.run (step o) s es) es' := by
  induction es generalizing s with
  | nil => rfl
  | cons e es ih =>
    change s.shown e ++ observed o (step o s e) (es ++ es') = _
    rw [ih, ← List.append_assoc]
    rfl

theorem observed_packets (o : ByteOrder) (s : Threads) (ds : List Linux.Delivery) :
    observed o s (ds.map .packet) = ds.map .packet := by
  induction ds generalizing s with
  | nil => rfl
  | cons d ds ih =>
    change .packet d :: observed o (s.packet o d) (ds.map .packet) = _
    rw [ih]
    rfl

/-- A client calls only by looking its lambda up. -/
theorem idle_step (hidle : s.clients j = .idle) {e : ThreadEvent} (he : ∀ c, e ≠ .lookup j c) :
    (step o s e).clients j = .idle := by
  have hset : ∀ {t : Threads} {i : ℕ} (phase : Phase), t.clients = s.clients → j ≠ i →
      (t.setPhase i phase).clients j = .idle := by
    intro t i phase hclients hne
    rw [clients_setPhase, Function.update_of_ne hne, hclients, hidle]
  -- whoever is not idle is another client
  have hbusy : ∀ {i : ℕ} {phase : Phase}, s.clients i = phase → phase ≠ .idle → j ≠ i := by
    rintro i phase hi hphase rfl
    exact hphase (hi.symm.trans hidle)
  have hwakes : ∀ {i : ℕ} {t : Threads}, s.Wakes i t → t.clients j = .idle := by
    rintro i t (rfl | ⟨p, s', hphase, hs', hcases⟩)
    · exact hidle
    have hclients : s'.clients = s.clients := (frame_of_record hs').1
    rcases hcases with ⟨timedOut, rfl⟩ | ⟨-, rfl⟩
    · exact hset _ hclients (hbusy hphase Phase.noConfusion)
    · exact hset _ hclients (hbusy hphase Phase.noConfusion)
  cases e with
  | packet d =>
    change (s.clients j).onPacket _ _ = _
    rw [hidle]
    rfl
  | lookup i c =>
    have hne : j ≠ i := by
      rintro rfl
      exact he c rfl
    rcases lookup_cases s i c with heq | ⟨code, lambda, written, heq, -⟩ | ⟨lambda, -, -, -, heq⟩
    · rwa [step, heq]
    · rw [step, heq]
      exact hset _ rfl hne
    · rw [step, heq]
      exact hset _ rfl hne
  | send i env =>
    rcases send_cases s i env with heq | ⟨p, hphase, ⟨-, heq⟩ | heq⟩
    · rwa [step, heq]
    · rw [step, heq]
      exact hset _ rfl (hbusy hphase Phase.noConfusion)
    · rw [step, heq]
      exact hset _ rfl (hbusy hphase Phase.noConfusion)
  | wait i =>
    rcases wait_cases s i with ⟨-, heq⟩ | ⟨p, hphase, ⟨-, heq⟩ | ⟨-, heq⟩⟩
    · rwa [step, heq]
    · rw [step, heq]
      exact hset _ rfl (hbusy hphase Phase.noConfusion)
    · rw [step, heq]
      exact hset _ rfl (hbusy hphase Phase.noConfusion)
  | expire i => exact hwakes (wakes_expire s i)
  | spurious i => exact hwakes (wakes_spurious s i)
  | resume i =>
    rcases resume_cases s i with ⟨-, heq⟩ | ⟨p, timedOut, s', hphase, -, hs', hcases⟩
    · rwa [step, heq]
    have hclients : s'.clients = s.clients := (frame_of_record hs').1
    rcases hcases with ⟨-, heq⟩ | ⟨linux, code, written, -, heq⟩
    · rw [step, heq]
      exact hset _ hclients (hbusy hphase Phase.noConfusion)
    · rw [step, heq]
      exact hset _ hclients (hbusy hphase Phase.noConfusion)
  | respond i =>
    rcases respond_cases s i with heq | ⟨r, hphase, heq⟩
    · rwa [step, heq]
    · rw [step, heq]
      refine hset _ ?_ (hbusy hphase Phase.noConfusion)
      split_ifs <;> rfl

theorem idle_run (hidle : s.clients j = .idle) {es : List ThreadEvent}
    (hes : ∀ c, .lookup j c ∉ es) : (Runs.run (step o) s es).clients j = .idle := by
  induction es generalizing s with
  | nil => exact hidle
  | cons e es ih =>
    refine ih (idle_step hidle ?_) fun c hc => hes c (List.mem_cons_of_mem _ hc)
    rintro c rfl
    exact hes c List.mem_cons_self

/-! ## One blocking call -/

/-- The steps of a call up to its return. -/
def blockingSteps (s : Threads) (i : ℕ) (env : Env) (c : Call) (w : Linux.Wait) :
    List ThreadEvent :=
  if (s.linux.waitsOn c).isSome then callSteps i env c w else [.lookup i c]

/-- Among them is no lookup of another client. -/
theorem eq_of_lookup_mem {env : Env} {c c' : Call} {w : Linux.Wait}
    (h : .lookup j c' ∈ s.blockingSteps i env c w) : j = i := by
  unfold blockingSteps at h
  split at h
  · simp only [callSteps, List.mem_append, List.mem_cons, List.mem_map, List.not_mem_nil,
      or_false] at h
    rcases ite_eq_or_eq (w.expired = true) (ThreadEvent.expire i) (.spurious i) with hend | hend
    all_goals
      rw [hend] at h
      rcases h with ((((h | h | h) | ⟨d, -, h⟩) | h) | ⟨d, -, h⟩) | h
      · exact (ThreadEvent.lookup.inj h).1
      all_goals cases h
  · exact (ThreadEvent.lookup.inj (List.mem_singleton.mp h)).1

theorem run_blockingSteps (hinv : s.linux.Inv) (hidle : s.clients i = .idle)
    (hfree : s.holder = none) {env : Env} {c : Call} {w : Linux.Wait} {out : Linux.CallOutcome}
    (hcall : Linux.call o env s.linux c w = some out) :
    let s' := Runs.run (step o) s (s.blockingSteps i env c w)
    s'.linux = out.state ∧ s'.holder = none ∧
      ∃ r, s'.clients i = .returned r ∧ r.code = out.code ∧ r.written = out.written := by
  unfold blockingSteps
  cases hw : s.linux.waitsOn c with
  | some l =>
    rw [Option.isSome_some, if_pos rfl]
    obtain ⟨hlinux, hholder, answered, hphase⟩ := run_callSteps hinv hidle hfree hw hcall
    exact ⟨hlinux, hholder, _, hphase, rfl, rfl⟩
  | none =>
    rw [Option.isSome_none, if_neg Bool.false_ne_true]
    obtain ⟨out', hcall', hstate, hlookup⟩ := lookup_of_not_waiting (o := o) hidle hfree hw env w
    obtain rfl := Option.some.inj (hcall'.symm.trans hcall)
    change (s.lookup i c).linux = _ ∧ (s.lookup i c).holder = _ ∧
      ∃ r, (s.lookup i c).clients i = _ ∧ _
    rw [hlookup]
    exact ⟨hstate.symm, hfree, _, Function.update_self .., rfl, rfl⟩

/-- Seen are the call, its packet if it sends one, and the packets of its wait. -/
theorem observed_blockingSteps (hinv : s.linux.Inv) (hidle : s.clients i = .idle)
    (hfree : s.holder = none) {env : Env} {c : Call} {w : Linux.Wait} {out : Linux.CallOutcome}
    (hcall : Linux.call o env s.linux c w = some out) :
    observed o s (s.blockingSteps i env c w) =
      .call i c :: (out.sent.map (.sent i) ++
        (if (s.linux.waitsOn c).isSome then w.packets else []).map .packet) := by
  have hcalled : s.shown (.lookup i c) = [.call i c] := by
    simp only [shown, hidle, hfree]
  unfold blockingSteps
  cases hw : s.linux.waitsOn c with
  | none =>
    obtain ⟨code, written, hout, -⟩ := Linux.call_of_not_waiting hw o env w
    obtain rfl := Option.some.inj (hout.symm.trans hcall)
    rw [Option.isSome_none, if_neg Bool.false_ne_true, if_neg Bool.false_ne_true, observed,
      hcalled]
    rfl
  | some l =>
    obtain ⟨packet, hpacket, hwait⟩ := hinv.call_of_waiting hw o env w
    rw [hwait] at hcall
    have hsends : (s.lookup i c).shown (.send i env) = [.sent i packet] := by
      rw [lookup_of_waitsOn hidle hfree hw]
      simp [shown, hpacket]
    have hends : ∀ t : Threads,
        observed o t [if w.expired then .expire i else .spurious i] = [] := by
      intro t
      cases w.expired <;> rfl
    have hresumes : ∀ t : Threads, observed o t [.resume i] = [] := fun t => rfl
    have hcalls : observed o s [.lookup i c, .send i env, .wait i] =
        [.call i c, .sent i packet] := by
      change s.shown (.lookup i c) ++ ((s.lookup i c).shown (.send i env) ++ ([] ++ [])) = _
      rw [hcalled, hsends]
      rfl
    rw [Option.isSome_some, if_pos rfl, if_pos rfl, Linux.waitLambdaResult_sent hcall]
    simp only [callSteps, observed_append, hcalls, observed_packets, hends, hresumes,
      Linux.Wait.packets, List.map_append, List.append_nil, List.append_assoc]
    rfl

/-- A call and the REST handler's answer. -/
theorem run_call (hinv : s.linux.Inv) (hidle : ∀ j, s.clients j = .idle)
    (hfree : s.holder = none) {env : Env} {c : Call} {w : Linux.Wait} {out : Linux.CallOutcome}
    (hcall : Linux.call o env s.linux c w = some out) (i : ℕ) :
    let es := s.blockingSteps i env c w ++ [.respond i]
    let s' := Runs.run (step o) s es
    s'.linux = out.state ∧ s'.holder = none ∧ (∀ j, s'.clients j = .idle) ∧
      observed o s es = .call i c :: (out.sent.map (.sent i) ++
        (if (s.linux.waitsOn c).isSome then w.packets else []).map .packet ++
          [.told i out.code out.written]) := by
  obtain ⟨hlinux, hholder, r, hphase, hcode, hwritten⟩ :=
    run_blockingSteps hinv (hidle i) hfree hcall
  have hcalled := observed_blockingSteps hinv (hidle i) hfree hcall
  have hothers : ∀ j, j ≠ i →
      (Runs.run (step o) s (s.blockingSteps i env c w)).clients j = .idle := fun j hj =>
    idle_run (hidle j) fun c' hc' => hj (eq_of_lookup_mem hc')
  intro es s'
  have hrun : s' = (Runs.run (step o) s (s.blockingSteps i env c w)).respond i := by
    rw [show s' = Runs.run (step o) s es from rfl, Runs.run_append]
    rfl
  have hseen : observed o s es = observed o s (s.blockingSteps i env c w) ++
      shown (Runs.run (step o) s (s.blockingSteps i env c w)) (.respond i) := by
    rw [observed_append, observed, observed, List.append_nil]
  obtain ⟨t, ht⟩ : ∃ t, t = Runs.run (step o) s (s.blockingSteps i env c w) := ⟨_, rfl⟩
  rw [← ht] at hlinux hholder hphase hothers hrun hseen
  rw [hrun, hseen, hcalled]
  simp only [respond, shown, hphase, hcode, hwritten]
  refine ⟨?_, ?_, fun j => ?_, rfl⟩
  · split_ifs <;> exact hlinux
  · split_ifs <;> exact hholder
  · by_cases hj : j = i
    · rw [hj]
      exact Function.update_self ..
    · rw [clients_setPhase, Function.update_of_ne hj]
      split_ifs <;> exact hothers j hj

/-! ## Histories -/

theorem exists_run (hinv : s.linux.Inv) (hidle : ∀ j, s.clients j = .idle)
    (hfree : s.holder = none) {es : List (ℕ × LinuxEvent)} {seen : List Observation} {last : Linux}
    (h : Linux.observed o s.linux es = some (seen, last)) :
    ∃ es', observed o s es' = seen ∧ let s' := Runs.run (step o) s es'
      s'.linux = last ∧ s'.holder = none ∧ ∀ j, s'.clients j = .idle := by
  induction es generalizing s seen with
  | nil =>
    obtain ⟨rfl, rfl⟩ := Prod.mk.inj (Option.some.inj h)
    exact ⟨[], rfl, rfl, hfree, hidle⟩
  | cons e es ih =>
    obtain ⟨i, e⟩ := e
    cases e with
    | packet d =>
      obtain ⟨⟨later, t⟩, hlater, h⟩ := Option.bind_eq_some_iff.mp h
      obtain ⟨rfl, rfl⟩ := Prod.mk.inj (Option.some.inj h)
      have hidle' : ∀ j, (s.packet o d).clients j = .idle := fun j =>
        idle_step (e := .packet d) (hidle j) fun c => ThreadEvent.noConfusion
      obtain ⟨es', hes', hend⟩ := ih (s := s.packet o d) (hinv.receive d) hidle' hfree hlater
      refine ⟨.packet d :: es', ?_, hend⟩
      change .packet d :: observed o (s.packet o d) es' = _
      rw [hes']
    | call env c w =>
      obtain ⟨out, hcall, h⟩ := Option.bind_eq_some_iff.mp h
      obtain ⟨⟨later, t⟩, hlater, h⟩ := Option.bind_eq_some_iff.mp h
      obtain ⟨rfl, rfl⟩ := Prod.mk.inj (Option.some.inj h)
      obtain ⟨hlinux, hholder, hidle', hseen⟩ := run_call hinv hidle hfree hcall i
      rw [← hlinux] at hlater
      obtain ⟨es', hes', hend⟩ := ih (hlinux ▸ hinv.afterCall hcall) hidle' hholder hlater
      refine ⟨s.blockingSteps i env c w ++ [.respond i] ++ es', ?_, ?_⟩
      · rw [observed_append, hseen, hes']
        simp only [List.cons_append, List.append_assoc, List.nil_append]
      · rw [Runs.run_append]
        exact hend

/-- A history of blocking calls is a run of client threads that interleave with packets: the same
packets are handled and sent, the same clients call for the same lambdas and are told the same,
all in the same order, and the same state is reached, with every call over. -/
theorem exists_interleaving {o : ByteOrder} {garbage : ArgPtr → RsLinuxRegisteredLambda}
    (es : List (ℕ × LinuxEvent)) {seen : List Observation} {last : Linux}
    (h : Linux.observed o (Linux.started garbage) es = some (seen, last)) :
    ∃ es', observed o (start (Linux.started garbage)) es' = seen ∧
      let s' := Runs.run (step o) (start (Linux.started garbage)) es'
      s'.linux = last ∧ s'.holder = none ∧ ∀ j, s'.clients j = .idle :=
  exists_run (Linux.Inv.started garbage) (fun _ => rfl) rfl h

/-- Client 0 is answered by the board, client 1 waits in vain. -/
theorem exists_interleaving_two :
    ∃ es' packet packet', observed .little (start (Linux.started zeroed)) es' =
      [.packet registersA, .call 0 (.byId 0 RS_LAMBDA_INT), .sent 0 packet, .packet answersFive,
        .told 0 RS_CALL_SUCCESS (some (.retI 5)), .call 1 (.byId 0 RS_LAMBDA_INT), .sent 1 packet',
        .told 1 RS_CALL_TIMEOUT none] := by
  have hseen : ∃ packet packet' last, Linux.observed .little (Linux.started zeroed)
      [(0, .packet registersA),
        (0, .call {} (.byId 0 RS_LAMBDA_INT) ⟨[answersFive], [], false⟩),
        (1, .call {} (.byId 0 RS_LAMBDA_INT) ⟨[], [], true⟩)] =
      some ([.packet registersA, .call 0 (.byId 0 RS_LAMBDA_INT), .sent 0 packet,
        .packet answersFive, .told 0 RS_CALL_SUCCESS (some (.retI 5)),
        .call 1 (.byId 0 RS_LAMBDA_INT), .sent 1 packet', .told 1 RS_CALL_TIMEOUT none], last) :=
    ⟨_, _, _, rfl⟩
  obtain ⟨packet, packet', last, hseen⟩ := hseen
  obtain ⟨es', hes', -⟩ := exists_interleaving _ hseen
  exact ⟨es', packet, packet', hes'⟩

end Threads

end RS
