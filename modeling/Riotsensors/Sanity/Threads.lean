import Riotsensors.Sanity.Client
import Riotsensors.Spec.Threads

/-! What each step of a client thread can do. A call by itself does what the blocking call
of the sequential model does. -/

namespace RS

namespace Threads

variable {o : ByteOrder} {s : Threads} {i : ℕ}

@[simp] theorem clients_setPhase (s : Threads) (i : ℕ) (phase : Phase) :
    (s.setPhase i phase).clients = Function.update s.clients i phase := rfl

@[simp] theorem linux_setPhase (s : Threads) (i : ℕ) (phase : Phase) :
    (s.setPhase i phase).linux = s.linux := rfl

@[simp] theorem holder_setPhase (s : Threads) (i : ℕ) (phase : Phase) :
    (s.setPhase i phase).holder = s.holder := rfl

@[simp] theorem log_setPhase (s : Threads) (i : ℕ) (phase : Phase) :
    (s.setPhase i phase).log = s.log := rfl

/-- A packet is read as a message, which acts on the Linux side. -/
theorem linux_packet (o : ByteOrder) (s : Threads) (d : Linux.Delivery) :
    (s.packet o d).linux =
      (Linux.act d.env.heap s.linux (Linux.readPacket o d.env d.packet)).state :=
  Linux.receive_eq o s.linux d

/-- What holds of every client's phase still does after one of them has gone on. -/
theorem forall_setPhase {P : Phase → Prop} (h : ∀ j, P (s.clients j)) (i : ℕ) {phase : Phase}
    (hphase : P phase) (j : ℕ) : P ((s.setPhase i phase).clients j) := by
  rw [clients_setPhase]
  by_cases hj : j = i
  · rw [hj, Function.update_self]
    exact hphase
  · rw [Function.update_of_ne hj]
    exact h j

/-- A lookup is not possible now, answers the call, or goes on with the mutex held. -/
theorem lookup_cases (s : Threads) (i : ℕ) (c : Call) :
    s.lookup i c = s ∨
    (∃ code lambda written,
      s.lookup i c = s.setPhase i (.returned ⟨c, lambda, code, written, false⟩) ∧
      lambda = s.linux.found c ∧ (code = RS_CALL_NOTFOUND ∨ code = RS_CALL_WRONGTYPE ∨
        code = RS_CALL_CACHE_EMPTY ∨ code = RS_CALL_CACHE ∧ ∃ l, s.linux.found c = some l ∧
          (s.linux.heap l.arg).dataCached = true ∧ written = some (s.linux.heap l.arg).ret)) ∨
    (∃ lambda, s.linux.waitsOn c = some lambda ∧ s.clients i = .idle ∧ s.holder = none ∧
      s.lookup i c =
        { s with holder := some i }.setPhase i (.ready ⟨c, lambda, false, false⟩)) := by
  unfold lookup
  split
  next hphase hholder =>
    cases hf : s.linux.found c with
    | none => exact Or.inr (Or.inl ⟨_, _, _, rfl, rfl, Or.inl rfl⟩)
    | some lambda =>
      by_cases htype : lambda.type = c.expectedType
      · simp only [ne_eq, htype, not_true_eq_false, if_false]
        rcases Linux.checkLambdaCache_cases s.linux lambda with hgo | ⟨hhit, hcached⟩ | hempty
        · refine Or.inr (Or.inr ⟨lambda, ?_, hphase, hholder, by rw [hgo]; rfl⟩)
          rw [Linux.waitsOn_eq_some]
          exact ⟨hf, htype, by rw [hgo]⟩
        · rw [hhit]
          exact Or.inr (Or.inl ⟨_, _, _, rfl, rfl,
            Or.inr (Or.inr (Or.inr ⟨rfl, lambda, rfl, hcached, rfl⟩))⟩)
        · rw [hempty]
          exact Or.inr (Or.inl ⟨_, _, _, rfl, rfl, Or.inr (Or.inr (Or.inl rfl))⟩)
      · simp only [ne_eq, htype, not_false_eq_true, if_true]
        exact Or.inr (Or.inl ⟨_, _, _, rfl, rfl, Or.inr (Or.inl rfl)⟩)
  next => exact Or.inl rfl

theorem send_cases (s : Threads) (i : ℕ) (env : Env) :
    s.send i env = s ∨
    ∃ p, s.clients i = .ready p ∧
      ((Linux.callPacket env p.call = none ∧ s.send i env = s.setPhase i (.undefined false)) ∨
        s.send i env = s.setPhase i (.sent p)) := by
  unfold send
  split
  next p hphase =>
    right
    refine ⟨p, hphase, ?_⟩
    cases hpacket : Linux.callPacket env p.call with
    | none => exact Or.inl ⟨rfl, rfl⟩
    | some packet => exact Or.inr rfl
  next => exact Or.inl rfl

theorem wait_cases (s : Threads) (i : ℕ) :
    ((∀ p, s.clients i ≠ .sent p) ∧ s.wait i = s) ∨
    ∃ p, s.clients i = .sent p ∧
      ((s.linux.entry p.lambda = none ∧ s.wait i =
          (s.record (.arg p.lambda none)).setPhase i (.undefined p.answered)) ∨
        (s.linux.entry p.lambda ≠ none ∧ s.wait i =
          { s.record (.arg p.lambda (s.linux.entry p.lambda)) with holder := none }.setPhase i
            (.waiting p))) := by
  unfold wait
  split
  next p hphase =>
    right
    refine ⟨p, hphase, ?_⟩
    cases hentry : s.linux.entry p.lambda with
    | none => exact Or.inl ⟨rfl, rfl⟩
    | some lambda => exact Or.inr ⟨Option.some_ne_none lambda, rfl⟩
  next hno => exact Or.inl ⟨hno, rfl⟩

/-- The time is over for a client that waits, on a condition variable that is still there. -/
theorem expire_cases (s : Threads) (i : ℕ) :
    ((∀ p, s.clients i ≠ .waiting p) ∧ s.expire i = s) ∨
    ∃ p, s.clients i = .waiting p ∧
      ((s.linux.entry p.lambda = none ∧ s.expire i =
          (s.record (.waitResult p.lambda none)).setPhase i (.undefined p.answered)) ∨
        (s.linux.entry p.lambda ≠ none ∧ s.expire i =
          (s.record (.waitResult p.lambda (s.linux.entry p.lambda))).setPhase i
            (.resuming p true))) := by
  unfold expire
  split
  next p hphase =>
    right
    refine ⟨p, hphase, ?_⟩
    cases hentry : s.linux.entry p.lambda with
    | none => exact Or.inl ⟨rfl, rfl⟩
    | some lambda => exact Or.inr ⟨Option.some_ne_none lambda, rfl⟩
  next hno => exact Or.inl ⟨hno, rfl⟩

/-- Client `i` leaves its wait, timed out or not, if it is waiting. -/
def Wakes (s : Threads) (i : ℕ) (t : Threads) : Prop :=
  t = s ∨ ∃ p s', s.clients i = .waiting p ∧
    (s' = s.record (.waitResult p.lambda (s.linux.entry p.lambda)) ∨ s' = s) ∧
    ((∃ timedOut, t = s'.setPhase i (.resuming p timedOut)) ∨
      s.linux.entry p.lambda = none ∧ t = s'.setPhase i (.undefined p.answered))

theorem wakes_expire (s : Threads) (i : ℕ) : s.Wakes i (s.expire i) := by
  rcases expire_cases s i with ⟨-, heq⟩ | ⟨p, hphase, ⟨hentry, heq⟩ | ⟨-, heq⟩⟩
  · exact Or.inl heq
  · exact Or.inr ⟨p, _, hphase, Or.inl rfl, Or.inr ⟨hentry, hentry ▸ heq⟩⟩
  · exact Or.inr ⟨p, _, hphase, Or.inl rfl, Or.inl ⟨true, heq⟩⟩

theorem spurious_cases (s : Threads) (i : ℕ) :
    s.spurious i = s ∨
    ∃ p, s.clients i = .waiting p ∧ s.spurious i = s.setPhase i (.resuming p false) := by
  unfold spurious
  split
  next p hphase => exact Or.inr ⟨p, hphase, rfl⟩
  next => exact Or.inl rfl

theorem wakes_spurious (s : Threads) (i : ℕ) : s.Wakes i (s.spurious i) := by
  rcases spurious_cases s i with heq | ⟨p, hphase, heq⟩
  · exact Or.inl heq
  · exact Or.inr ⟨p, s, hphase, Or.inr rfl, Or.inl ⟨false, heq⟩⟩

/-- A step that looks into a record only adds to the log. -/
theorem frame_of_record {s' : Threads} {a : Access} (h : s' = s.record a ∨ s' = s) :
    s'.clients = s.clients ∧ s'.linux = s.linux ∧ s'.holder = s.holder := by
  rcases h with rfl | rfl
  · exact ⟨rfl, rfl, rfl⟩
  · exact ⟨rfl, rfl, rfl⟩

/-- What a thread does with the mutex after its wait. -/
theorem resume_cases (s : Threads) (i : ℕ) :
    ((∀ p timedOut, s.clients i = .resuming p timedOut → s.holder ≠ none) ∧ s.resume i = s) ∨
    ∃ p timedOut s', s.clients i = .resuming p timedOut ∧ s.holder = none ∧
      (s' = s.record (.cache p.lambda (s.linux.entry p.lambda)) ∨ s' = s) ∧
      ((s.linux.afterWait p.lambda timedOut = none ∧
          s.resume i = s'.setPhase i (.undefined p.answered)) ∨
        ∃ linux code written, s.linux.afterWait p.lambda timedOut = some (linux, code, written) ∧
          s.resume i = { s' with linux }.setPhase i
            (.returned ⟨p.call, some p.lambda, code, written, p.answered⟩)) := by
  unfold resume
  split
  next p timedOut hphase hholder =>
    right
    refine ⟨p, timedOut, if s.readsCache p timedOut then
      s.record (.cache p.lambda (s.linux.entry p.lambda)) else s, hphase, hholder, ?_, ?_⟩
    · exact ite_eq_or_eq _ _ _
    cases hafter : s.linux.afterWait p.lambda timedOut with
    | none => exact Or.inl ⟨rfl, rfl⟩
    | some after => exact Or.inr ⟨after.1, after.2.1, after.2.2, rfl, rfl⟩
  next hno => exact Or.inl ⟨fun p timedOut => hno p timedOut, rfl⟩

theorem respond_cases (s : Threads) (i : ℕ) :
    s.respond i = s ∨
    ∃ r, s.clients i = .returned r ∧ s.respond i =
      (if r.code ∈ SUCCESS_CODES then s.record (.response r.lambda (s.linux.found r.call))
        else s).setPhase i .idle := by
  unfold respond
  split
  next r hphase => exact Or.inr ⟨r, hphase, rfl⟩
  next => exact Or.inl rfl

/-- Clients leave the registry alone, and the call states but for the error codes. -/
theorem alike_step (o : ByteOrder) (s : Threads) {e : ThreadEvent} (he : ∀ d, e ≠ .packet d) :
    (step o s e).linux.Alike s.linux := by
  have hwakes : ∀ {i : ℕ} {t : Threads}, s.Wakes i t → t.linux.Alike s.linux := by
    rintro i t (rfl | ⟨p, s', -, rfl | rfl, ⟨timedOut, rfl⟩ | ⟨-, rfl⟩⟩)
    all_goals exact Linux.Alike.refl _
  cases e with
  | packet d => exact absurd rfl (he d)
  | lookup i c =>
    rcases lookup_cases s i c with heq | ⟨code, lambda, written, heq, -⟩ | ⟨lambda, -, -, -, heq⟩
    all_goals
      rw [step, heq]
      exact Linux.Alike.refl _
  | send i env =>
    rcases send_cases s i env with heq | ⟨p, -, ⟨-, heq⟩ | heq⟩
    all_goals
      rw [step, heq]
      exact Linux.Alike.refl _
  | wait i =>
    rcases wait_cases s i with ⟨-, heq⟩ | ⟨p, -, ⟨-, heq⟩ | ⟨-, heq⟩⟩
    all_goals
      rw [step, heq]
      exact Linux.Alike.refl _
  | expire i => exact hwakes (wakes_expire s i)
  | spurious i => exact hwakes (wakes_spurious s i)
  | resume i =>
    rcases resume_cases s i with ⟨-, heq⟩ | ⟨p, timedOut, s', -, -, hs', hcases⟩
    · rw [step, heq]
      exact Linux.Alike.refl _
    have hlinux : s'.linux = s.linux := (frame_of_record hs').2.1
    rcases hcases with ⟨-, heq⟩ | ⟨linux, code, written, hafter, heq⟩
    · rw [step, heq, linux_setPhase, hlinux]
      exact Linux.Alike.refl _
    · rw [step, heq]
      exact Linux.afterWait_alike hafter
  | respond i =>
    rcases respond_cases s i with heq | ⟨r, -, heq⟩
    · rw [step, heq]
      exact Linux.Alike.refl _
    · rw [step, heq]
      split_ifs
      · exact Linux.Alike.refl _
      · exact Linux.Alike.refl _

/-! ## A call by itself -/

theorem run_packets (o : ByteOrder) (s : Threads) (ds : List Linux.Delivery) :
    (Runs.run (step o) s (ds.map .packet)).linux = Linux.receiveAll o s.linux ds ∧
      (Runs.run (step o) s (ds.map .packet)).holder = s.holder := by
  induction ds generalizing s with
  | nil => exact ⟨rfl, rfl⟩
  | cons d ds ih => exact ih (s.packet o d)

theorem run_packets_resuming {p : Pending} {timedOut : Bool}
    (h : s.clients i = .resuming p timedOut) (ds : List Linux.Delivery) :
    (Runs.run (step o) s (ds.map .packet)).clients i = .resuming p timedOut := by
  induction ds generalizing s with
  | nil => exact h
  | cons d ds ih =>
    refine ih ?_
    change (s.clients i).onPacket _ _ = _
    rw [h]
    rfl

/-- A waiting client goes on with the first broadcast on its call state. -/
theorem run_packets_waiting {p : Pending} (h : s.clients i = .waiting p)
    (ds : List Linux.Delivery) :
    ∃ answered, (Runs.run (step o) s (ds.map .packet)).clients i =
      if (Linux.firstWaker o p.lambda.arg s.linux ds).isSome then
        .resuming { p with answered } false
      else .waiting { p with answered } := by
  induction ds generalizing s p with
  | nil => exact ⟨p.answered, h⟩
  | cons d ds ih =>
    have hphase : (s.packet o d).clients i = (s.clients i).onPacket
        ((Linux.delivered o s.linux d).map Prod.fst)
        (Linux.handleReceivedPacket o d.env s.linux d.packet).broadcast := rfl
    rw [h, Phase.onPacket] at hphase
    by_cases hb : (Linux.handleReceivedPacket o d.env s.linux d.packet).broadcast =
        some p.lambda.arg
    · rw [if_pos hb] at hphase
      rw [Linux.firstWaker, if_pos hb]
      exact ⟨_, run_packets_resuming hphase ds⟩
    · rw [if_neg hb] at hphase
      obtain ⟨answered, hrun⟩ := ih hphase
      rw [Linux.firstWaker, if_neg hb]
      exact ⟨answered, hrun⟩

/-- The steps of a call that waits, with the packets that it meets. -/
def callSteps (i : ℕ) (env : Env) (c : Call) (w : Linux.Wait) : List ThreadEvent :=
  [.lookup i c, .send i env, .wait i] ++ w.blocked.map .packet ++
    [if w.expired then .expire i else .spurious i] ++ w.resuming.map .packet ++ [.resume i]

/-- A call that does not wait returns from its lookup. -/
theorem lookup_of_not_waiting {c : Call} (hidle : s.clients i = .idle) (hfree : s.holder = none)
    (hw : s.linux.waitsOn c = none) (env : Env) (w : Linux.Wait) :
    ∃ out, Linux.call o env s.linux c w = some out ∧ out.state = s.linux ∧
      s.lookup i c =
        s.setPhase i (.returned ⟨c, s.linux.found c, out.code, out.written, false⟩) := by
  obtain ⟨code, written, hcall, -⟩ := Linux.call_of_not_waiting hw o env w
  refine ⟨_, hcall, rfl, ?_⟩
  rw [Linux.call_eq] at hcall
  unfold Linux.callLambda at hcall
  unfold lookup
  simp only [hidle, hfree]
  cases hf : s.linux.found c with
  | none =>
    simp only [hf, Option.some.injEq, Linux.CallOutcome.mk.injEq, true_and] at hcall
    rw [← hcall.1, ← hcall.2]
  | some l =>
    simp only [hf] at hcall
    dsimp only
    split_ifs at hcall with htype hcheck
    · simp only [Option.some.injEq, Linux.CallOutcome.mk.injEq, true_and] at hcall
      rw [if_pos htype, ← hcall.1, ← hcall.2]
    · simp only [Option.some.injEq, Linux.CallOutcome.mk.injEq, true_and] at hcall
      rw [if_neg htype, if_pos hcheck, ← hcall.1, ← hcall.2]
    · rw [Linux.waitsOn_eq_some.mpr ⟨hf, not_not.mp htype, not_not.mp hcheck⟩] at hw
      cases hw

theorem lookup_of_waitsOn {c : Call} {l : RsRegisteredLambda ArgPtr} (hidle : s.clients i = .idle)
    (hfree : s.holder = none) (hw : s.linux.waitsOn c = some l) :
    s.lookup i c = { s with holder := some i }.setPhase i (.ready ⟨c, l, false, false⟩) := by
  obtain ⟨hf, htype, hcheck⟩ := Linux.waitsOn_eq_some.mp hw
  unfold lookup
  simp only [hidle, hfree, hf, ne_eq, htype, not_true_eq_false, if_false, hcheck]

/-- A call that waits gets as far as its wait, which leaves the mutex free. -/
theorem wait_of_waitsOn {c : Call} {l : RsRegisteredLambda ArgPtr} (hinv : s.linux.Inv)
    (hidle : s.clients i = .idle) (hfree : s.holder = none) (hw : s.linux.waitsOn c = some l)
    (env : Env) :
    (((s.lookup i c).send i env).wait i).linux = s.linux ∧
      (((s.lookup i c).send i env).wait i).holder = none ∧
      (((s.lookup i c).send i env).wait i).clients i = .waiting ⟨c, l, false, false⟩ := by
  have hf := (Linux.waitsOn_eq_some.mp hw).1
  obtain ⟨packet, hpacket⟩ := hinv.callPacket_exists hf env
  have hslot : s.linux.entry l = some l := hinv.slot_of_found hf
  rw [lookup_of_waitsOn hidle hfree hw]
  simp [send, wait, hpacket, hslot, record]

/-- A blocked call goes on as its timed wait says, with the wakeup that it had or with the end of
its time. -/
theorem resuming_of_blocked {p : Pending} {linux : Linux} {w : Linux.Wait} {timedOut : Bool}
    (h : s.clients i = if (Linux.firstWaker o p.lambda.arg linux w.blocked).isSome then
      .resuming p false else .waiting p)
    (hlinux : s.linux = Linux.receiveAll o linux w.blocked)
    (hwait : Linux.timedWait o linux p.lambda w = some timedOut) :
    (step o s (if w.expired then .expire i else .spurious i)).linux = s.linux ∧
      (step o s (if w.expired then .expire i else .spurious i)).holder = s.holder ∧
      (step o s (if w.expired then .expire i else .spurious i)).clients i =
        .resuming p timedOut := by
  unfold Linux.timedWait Linux.ending at hwait
  rw [← hlinux] at hwait
  cases hwaker : Linux.firstWaker o p.lambda.arg linux w.blocked with
  | some d =>
    rw [hwaker] at hwait h
    obtain rfl := Option.some.inj hwait
    rw [Option.isSome_some, if_pos rfl] at h
    cases w.expired
    · simp [step, spurious, h]
    · simp [step, expire, h]
  | none =>
    rw [hwaker] at hwait h
    rw [Option.isSome_none, if_neg Bool.false_ne_true] at h
    cases hexpired : w.expired with
    | false =>
      simp only [hexpired, Bool.false_eq_true, if_false, Option.some.injEq] at hwait
      obtain rfl := hwait
      simp [step, spurious, h]
    | true =>
      simp only [hexpired, if_true] at hwait
      split_ifs at hwait with hentry
      obtain rfl := Option.some.inj hwait
      rw [Option.isNone_iff_eq_none] at hentry
      simp [step, expire, h, hentry, record]

/-- A call that waits runs through its steps to the outcome of the blocking call. -/
theorem run_callSteps {c : Call} {l : RsRegisteredLambda ArgPtr} (hinv : s.linux.Inv)
    (hidle : s.clients i = .idle) (hfree : s.holder = none) (hw : s.linux.waitsOn c = some l)
    {env : Env} {w : Linux.Wait} {out : Linux.CallOutcome}
    (hcall : Linux.call o env s.linux c w = some out) :
    (Runs.run (step o) s (callSteps i env c w)).linux = out.state ∧
      (Runs.run (step o) s (callSteps i env c w)).holder = none ∧
      ∃ answered, (Runs.run (step o) s (callSteps i env c w)).clients i =
        .returned ⟨c, some l, out.code, out.written, answered⟩ := by
  obtain ⟨packet, -, hwait⟩ := hinv.call_of_waiting hw o env w
  rw [hwait] at hcall
  obtain ⟨-, timedOut, htimed, hafter⟩ := Linux.afterWait_of_waitLambdaResult hcall
  -- up to the wait
  obtain ⟨s₁, hs₁⟩ : ∃ s₁, s₁ = ((s.lookup i c).send i env).wait i := ⟨_, rfl⟩
  obtain ⟨hlinux₁, hholder₁, hphase₁⟩ := wait_of_waitsOn hinv hidle hfree hw env
  rw [← hs₁] at hlinux₁ hholder₁ hphase₁
  -- blocked
  obtain ⟨s₂, hs₂⟩ : ∃ s₂, s₂ = Runs.run (step o) s₁ (w.blocked.map .packet) := ⟨_, rfl⟩
  obtain ⟨hlinux₂, hholder₂⟩ := run_packets o s₁ w.blocked
  obtain ⟨answered, hphase₂⟩ := run_packets_waiting (o := o) hphase₁ w.blocked
  rw [← hs₂] at hlinux₂ hholder₂ hphase₂
  rw [hlinux₁] at hlinux₂ hphase₂
  -- woken, timed out or neither
  obtain ⟨s₃, hs₃⟩ : ∃ s₃, s₃ = step o s₂ (if w.expired then .expire i else .spurious i) := ⟨_, rfl⟩
  obtain ⟨hlinux₃, hholder₃, hphase₃⟩ :=
    resuming_of_blocked (p := ⟨c, l, answered, false⟩) hphase₂ hlinux₂ htimed
  rw [← hs₃] at hlinux₃ hholder₃ hphase₃
  -- the mutex again
  obtain ⟨s₄, hs₄⟩ : ∃ s₄, s₄ = Runs.run (step o) s₃ (w.resuming.map .packet) := ⟨_, rfl⟩
  obtain ⟨hlinux₄, hholder₄⟩ := run_packets o s₃ w.resuming
  have hphase₄ := run_packets_resuming (o := o) hphase₃ w.resuming
  rw [← hs₄] at hlinux₄ hholder₄ hphase₄
  have hall : s₄.linux = Linux.receiveAll o s.linux w.packets := by
    rw [hlinux₄, hlinux₃, hlinux₂, Linux.Wait.packets, Linux.receiveAll, Linux.receiveAll,
      Linux.receiveAll, Runs.run_append]
  have hrun : Runs.run (step o) s (callSteps i env c w) = s₄.resume i := by
    simp only [callSteps, Runs.run_append, Runs.run_cons, Runs.run_nil, hs₄, hs₃, hs₂, hs₁]
    rfl
  rw [← hall] at hafter
  have hfree₄ : s₄.holder = none := by rw [hholder₄, hholder₃, hholder₂, hholder₁]
  rw [hrun]
  rcases resume_cases s₄ i with ⟨hno, -⟩ | ⟨p, t, s', hphase, -, hs', hcases⟩
  · exact absurd hfree₄ (hno _ _ hphase₄)
  obtain ⟨rfl, rfl⟩ := Phase.resuming.inj (hphase₄.symm.trans hphase)
  rcases hcases with ⟨hnone, -⟩ | ⟨linux, code, written, hsome, heq⟩
  · rw [hafter] at hnone
    cases hnone
  · obtain ⟨rfl, rfl, rfl⟩ : out.state = linux ∧ out.code = code ∧ out.written = written := by
      simpa using hafter.symm.trans hsome
    have hholder' : s'.holder = none := (frame_of_record hs').2.2.trans hfree₄
    rw [heq]
    exact ⟨rfl, hholder', answered, Function.update_self ..⟩

end Threads

end RS
