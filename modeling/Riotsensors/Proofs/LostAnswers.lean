import Riotsensors.Sanity.Threads

/-! Answers and waits. The broadcast for a result is heard by the clients that wait already.
A result that comes between a call packet and the wait for its answer wakes nobody, and the
call times out on an answered request. -/

namespace RS

/-- The codes of a call that got no answer in time. -/
def TIMEOUT_CODES : List Int8 :=
  [RS_CALL_TIMEOUT, RS_CALL_CACHE_TIMEOUT, RS_CALL_CACHE_TIMEOUT_EMPTY]

/-- A call whose answer was handled in time reports a timeout, or its record is gone. -/
def Phase.LosesAnswer : Phase → Prop
  | .returned r => r.answered = true ∧ r.code ∈ TIMEOUT_CODES
  | .undefined answered => answered = true
  | _ => False

instance : ∀ phase : Phase, Decidable phase.LosesAnswer
  | .idle => isFalse id
  | .ready _ => isFalse id
  | .sent _ => isFalse id
  | .waiting _ => isFalse id
  | .resuming _ _ => isFalse id
  | .returned r => inferInstanceAs (Decidable (r.answered = true ∧ r.code ∈ TIMEOUT_CODES))
  | .undefined answered => inferInstanceAs (Decidable (answered = true))

namespace Threads

def NoAnswerLost (s : Threads) : Prop := ∀ i, ¬ (s.clients i).LosesAnswer

/-- A call whose timer expired does not go on with an answer from before its wait, unless an
error of another kind is pending; and the record of an answered call is there when the call
comes to use it: as it starts to wait, as its timer expires, and as it goes on without that. -/
def Heard (s : Threads) : ThreadEvent → Prop
  | .wait i => ∀ p, s.clients i = .sent p → p.answered = true → s.linux.entry p.lambda ≠ none
  | .expire i => ∀ p, s.clients i = .waiting p → p.answered = true → s.linux.entry p.lambda ≠ none
  | .resume i => ∀ p timedOut, s.clients i = .resuming p timedOut → s.holder = none →
      (timedOut = false → p.answered = true → s.linux.entry p.lambda ≠ none) ∧
      (timedOut = true → p.early = true →
        (s.linux.heap p.lambda.arg).lastCallError ∉ RS_CALL_SUCCESS :: TIMEOUT_CODES)
  | _ => True

end Threads

/-- A call that has not been woken has missed every answer that it got. -/
def Phase.Deaf : Phase → Prop
  | .ready p => p.answered = false ∧ p.early = false
  | .sent p => p.early = p.answered
  | .waiting p => p.early = p.answered
  | .resuming p timedOut =>
    (p.early = true → p.answered = true) ∧ (timedOut = true → p.early = p.answered)
  | phase => ¬ phase.LosesAnswer

/-- Whatever stores a result broadcasts on the same call state. -/
theorem Linux.broadcast_of_delivered {o : ByteOrder} {s : Linux} {d : Linux.Delivery}
    {p : ArgPtr} (h : (Linux.delivered o s d).map Prod.fst = some p) :
    (Linux.handleReceivedPacket o d.env s d.packet).broadcast = some p := by
  rw [Linux.handleReceivedPacket_eq]
  unfold Linux.delivered at h
  split at h
  next id ret frees hmsg =>
    obtain ⟨entry, hentry, hfst⟩ := Option.map_eq_some_iff.mp h
    obtain ⟨l, hget, hl⟩ := Option.map_eq_some_iff.mp hentry
    rw [hmsg, Linux.act_result_of_live hget, ← hfst, ← hl]
  next => cases h

theorem Phase.Deaf.onPacket {phase : Phase} (h : phase.Deaf) {stored broadcast : Option ArgPtr}
    (hwake : ∀ p, stored = some p → broadcast = some p) :
    (phase.onPacket stored broadcast).Deaf := by
  cases phase with
  | sent p =>
    change (p.early || _) = (p.answered || _)
    rw [show p.early = p.answered from h]
  | waiting p =>
    have h' : p.early = p.answered := h
    by_cases hb : broadcast = some p.lambda.arg
    · rw [Phase.onPacket, if_pos hb]
      refine ⟨fun he => ?_, fun ht => by cases ht⟩
      rw [← h', he, Bool.true_or]
    · -- nobody woke it, so nothing was stored
      have hmiss : (stored == some p.lambda.arg) = false :=
        beq_eq_false_iff_ne.mpr fun hs => hb (hwake _ hs)
      rw [Phase.onPacket, if_neg hb, hmiss]
      exact h'.trans (Bool.or_false _).symm
  | _ => exact h

/-- A call that goes on reports a timeout if its timer expired and no other error is pending. -/
theorem Linux.afterWait_code {s s' : Linux} {l : RsRegisteredLambda ArgPtr} {timedOut : Bool}
    {code : Int8} {written : Option GenericLambdaReturn}
    (h : s.afterWait l timedOut = some (s', code, written)) :
    code ∈ TIMEOUT_CODES ↔
      timedOut = true ∧ (s.heap l.arg).lastCallError ∈ RS_CALL_SUCCESS :: TIMEOUT_CODES := by
  rw [Linux.afterWait_eq] at h
  by_cases herror : timedOut = true ∧ (s.heap l.arg).lastCallError ≠ 0
  · -- the pending error
    rw [if_pos herror] at h
    have hcode : (s.heap l.arg).lastCallError = code :=
      (Prod.mk.inj (Prod.mk.inj (Option.some.inj h)).2).1
    rw [List.mem_cons, hcode, and_iff_right herror.1]
    exact ⟨Or.inr, fun hmem => hmem.resolve_left (hcode ▸ herror.2)⟩
  rw [if_neg herror] at h
  by_cases hlive : s.entry l = none
  · rw [if_pos hlive] at h
    cases h
  rw [if_neg hlive] at h
  cases timedOut with
  | false =>
    have hcode : RS_CALL_SUCCESS = code := (Prod.mk.inj (Prod.mk.inj (Option.some.inj h)).2).1
    rw [← hcode]
    exact iff_of_false (by decide) (fun h => Bool.false_ne_true h.1)
  | true =>
    have hnone : (s.heap l.arg).lastCallError = 0 := not_not.mp fun hne => herror ⟨rfl, hne⟩
    have hcode : (Linux.timeoutAnswer l.cache (s.heap l.arg)).1 = code :=
      congrArg Prod.fst (Prod.mk.inj (Option.some.inj h)).2
    rw [← hcode, hnone]
    refine iff_of_true ?_ ⟨rfl, List.mem_cons_self⟩
    unfold Linux.timeoutAnswer
    split_ifs <;> simp only [TIMEOUT_CODES, List.mem_cons, true_or, or_true]

namespace Threads

def Inv (s : Threads) : Prop := ∀ i, (s.clients i).Deaf

theorem Inv.noAnswerLost {s : Threads} (h : s.Inv) : s.NoAnswerLost := by
  intro i hlost
  have hi := h i
  cases hphase : s.clients i <;> rw [hphase] at hi hlost
  case returned r => exact hi hlost
  case undefined a => exact hi hlost
  all_goals exact hlost

/-- Only the phase of one client changes. -/
theorem Inv.setPhase {s t : Threads} (h : s.Inv) (ht : t.clients = s.clients) {i : ℕ}
    {phase : Phase} (hphase : phase.Deaf) : (t.setPhase i phase).Inv := by
  refine forall_setPhase (fun j => ?_) i hphase
  rw [ht]
  exact h j

/-- A step that leads one client to a lost answer breaks the property at once. -/
theorem not_noAnswerLost {t : Threads} {i : ℕ} {phase : Phase} (h : phase.LosesAnswer) :
    ¬ (t.setPhase i phase).NoAnswerLost := by
  intro hall
  apply hall i
  rw [clients_setPhase, Function.update_self]
  exact h

theorem Inv.start (linux : Linux) : (start linux).Inv := fun _ h => h

theorem Inv.packet {s : Threads} (h : s.Inv) (o : ByteOrder) (d : Linux.Delivery) :
    (s.packet o d).Inv :=
  fun i => (h i).onPacket fun _ => Linux.broadcast_of_delivered

theorem Inv.lookup {s : Threads} (h : s.Inv) (i : ℕ) (c : Call) : (s.lookup i c).Inv := by
  rcases lookup_cases s i c with heq | ⟨code, lambda, written, heq, -⟩ | ⟨lambda, -, -, -, heq⟩
  · rwa [heq]
  · rw [heq]
    exact h.setPhase rfl fun hlost => Bool.false_ne_true hlost.1
  · rw [heq]
    exact h.setPhase rfl ⟨rfl, rfl⟩

theorem Inv.send {s : Threads} (h : s.Inv) (i : ℕ) (env : Env) : (s.send i env).Inv := by
  rcases send_cases s i env with heq | ⟨p, hphase, ⟨-, heq⟩ | heq⟩
  · rwa [heq]
  · rw [heq]
    exact h.setPhase rfl Bool.false_ne_true
  · have hp : p.answered = false ∧ p.early = false := by
      have := h i
      rwa [hphase] at this
    rw [heq]
    exact h.setPhase rfl (hp.2.trans hp.1.symm)

/-- The end of a time keeps the invariant or loses an answer at once. -/
theorem Inv.expire {s : Threads} (h : s.Inv) (i : ℕ) :
    (s.Heard (.expire i) → (s.expire i).Inv) ∧
      (¬ s.Heard (.expire i) → ¬ (s.expire i).NoAnswerLost) := by
  rcases expire_cases s i with ⟨hno, heq⟩ | ⟨p, hphase, hcases⟩
  · rw [heq]
    exact ⟨fun _ => h, fun hheard => absurd (fun p hp => absurd hp (hno p)) hheard⟩
  have hheard : s.Heard (.expire i) ↔ (p.answered = true → s.linux.entry p.lambda ≠ none) := by
    refine ⟨fun hall => hall p hphase, fun hone q hq => ?_⟩
    obtain rfl := Phase.waiting.inj (hphase.symm.trans hq)
    exact hone
  rw [hheard]
  rcases hcases with ⟨hentry, heq⟩ | ⟨hentry, heq⟩
  · rw [heq]
    refine ⟨fun hone => h.setPhase rfl fun ha => hone ha hentry, fun hone => ?_⟩
    exact not_noAnswerLost (by_contra fun ha => hone fun hpa => absurd hpa ha)
  · have hp : p.early = p.answered := by
      have := h i
      rwa [hphase] at this
    rw [heq]
    exact ⟨fun _ => h.setPhase rfl ⟨fun he => hp ▸ he, fun _ => hp⟩,
      fun hone => absurd (fun _ => hentry) hone⟩

theorem Inv.spurious {s : Threads} (h : s.Inv) (i : ℕ) : (s.spurious i).Inv := by
  rcases spurious_cases s i with heq | ⟨p, hphase, heq⟩
  · rwa [heq]
  · have hp : p.early = p.answered := by
      have := h i
      rwa [hphase] at this
    rw [heq]
    exact h.setPhase rfl ⟨fun he => hp ▸ he, fun ht => absurd ht Bool.false_ne_true⟩

theorem Inv.respond {s : Threads} (h : s.Inv) (i : ℕ) : (s.respond i).Inv := by
  rcases respond_cases s i with heq | ⟨r, -, heq⟩
  · rwa [heq]
  · rw [heq]
    refine h.setPhase ?_ id
    split_ifs <;> rfl

/-- The wait, and the step after it, keep the invariant or lose an answer at once. -/
theorem Inv.wait {s : Threads} (h : s.Inv) (i : ℕ) :
    (s.Heard (.wait i) → (s.wait i).Inv) ∧ (¬ s.Heard (.wait i) → ¬ (s.wait i).NoAnswerLost) := by
  rcases wait_cases s i with ⟨hno, heq⟩ | ⟨p, hphase, hcases⟩
  · rw [heq]
    exact ⟨fun _ => h, fun hheard => absurd (fun p hp => absurd hp (hno p)) hheard⟩
  have hp : p.early = p.answered := by
    have := h i
    rwa [hphase] at this
  rcases hcases with ⟨hentry, heq⟩ | ⟨hentry, heq⟩
  · rw [heq]
    constructor
    · intro hheard
      exact h.setPhase rfl fun ha => hheard p hphase ha hentry
    · intro hheard
      refine not_noAnswerLost (by_contra fun ha => hheard fun q hq hqa => ?_)
      obtain rfl := Phase.sent.inj (hphase.symm.trans hq)
      exact absurd hqa ha
  · rw [heq]
    refine ⟨fun _ => h.setPhase rfl hp, fun hheard => absurd (fun q hq _ => ?_) hheard⟩
    obtain rfl := Phase.sent.inj (hphase.symm.trans hq)
    exact hentry

theorem Inv.resume {s : Threads} (h : s.Inv) (i : ℕ) :
    (s.Heard (.resume i) → (s.resume i).Inv) ∧
      (¬ s.Heard (.resume i) → ¬ (s.resume i).NoAnswerLost) := by
  rcases resume_cases s i with ⟨hno, heq⟩ | ⟨p, timedOut, s', hphase, hholder, hs', hcases⟩
  · rw [heq]
    exact ⟨fun _ => h, fun hheard => absurd (fun p t hp hh => absurd hh (hno p t hp)) hheard⟩
  have hp : (p.early = true → p.answered = true) ∧ (timedOut = true → p.early = p.answered) := by
    have := h i
    rwa [hphase] at this
  have hclients : s'.clients = s.clients := (frame_of_record hs').1
  have hheard : s.Heard (.resume i) ↔
      (timedOut = false → p.answered = true → s.linux.entry p.lambda ≠ none) ∧
      (timedOut = true → p.early = true →
        (s.linux.heap p.lambda.arg).lastCallError ∉ RS_CALL_SUCCESS :: TIMEOUT_CODES) := by
    refine ⟨fun hall => hall p timedOut hphase hholder, fun hone q t hq _ => ?_⟩
    obtain ⟨rfl, rfl⟩ := Phase.resuming.inj (hphase.symm.trans hq)
    exact hone
  rw [hheard]
  rcases hcases with ⟨hafter, heq⟩ | ⟨linux, code, written, hafter, heq⟩
  · -- the record is gone, and no error is pending for a call that timed out
    obtain ⟨hentry, herror⟩ := Linux.afterWait_eq_none_iff.mp hafter
    rw [heq]
    constructor
    · rintro ⟨hwoken, hlate⟩
      refine h.setPhase hclients fun ha => ?_
      cases timedOut with
      | false => exact hwoken rfl ha hentry
      | true =>
        refine hlate rfl ((hp.2 rfl).trans ha) ?_
        rw [herror rfl]
        exact List.mem_cons_self
    · intro hone
      refine not_noAnswerLost (by_contra fun ha => hone ⟨fun _ hpa => absurd hpa ha, ?_⟩)
      exact fun _ he => absurd (hp.1 he) ha
  · have hcode := Linux.afterWait_code hafter
    rw [heq]
    constructor
    · rintro ⟨-, hone⟩
      refine h.setPhase hclients fun hlost => ?_
      obtain ⟨ht, herror⟩ := hcode.mp hlost.2
      exact hone ht ((hp.2 ht).trans hlost.1) herror
    · intro hone
      refine not_noAnswerLost (by_contra fun hkeep => hone ⟨fun ht _ hentry => ?_, ?_⟩)
      · rw [Linux.afterWait_eq_none_iff.mpr ⟨hentry, fun h => absurd (ht ▸ h) Bool.false_ne_true⟩]
          at hafter
        cases hafter
      · intro ht he herror
        exact hkeep ⟨hp.1 he, hcode.mpr ⟨ht, herror⟩⟩

theorem Inv.step {s : Threads} (h : s.Inv) (o : ByteOrder) (e : ThreadEvent) :
    (s.Heard e → (step o s e).Inv) ∧ (¬ s.Heard e → ¬ (step o s e).NoAnswerLost) := by
  cases e with
  | packet d => exact ⟨fun _ => h.packet o d, fun hheard => absurd trivial hheard⟩
  | lookup i c => exact ⟨fun _ => h.lookup i c, fun hheard => absurd trivial hheard⟩
  | send i env => exact ⟨fun _ => h.send i env, fun hheard => absurd trivial hheard⟩
  | wait i => exact h.wait i
  | expire i => exact h.expire i
  | spurious i => exact ⟨fun _ => h.spurious i, fun hheard => absurd trivial hheard⟩
  | resume i => exact h.resume i
  | respond i => exact ⟨fun _ => h.respond i, fun hheard => absurd trivial hheard⟩

/-- The runs without a lost answer are those in which no call times out on an answer that
came before its wait. -/
theorem no_answer_lost_iff (o : ByteOrder) (linux : Linux) (es : List ThreadEvent) :
    Runs.Along (step o) NoAnswerLost (start linux) es ↔
      Runs.Meets (step o) Heard (start linux) es :=
  Runs.along_iff_meets (fun _ e h hC => (h.step o e).1 hC) (fun _ h => h.noAnswerLost)
    (fun _ e h hC => (h.step o e).2 hC) (Inv.start linux) es

/-- The board answers before the caller waits. -/
theorem fast_answer_is_lost :
    ¬ ∀ (o : ByteOrder) (linux : Linux) (es : List ThreadEvent),
      Runs.Along (step o) NoAnswerLost (start linux) es := by
  intro h
  have hlost : Phase.LosesAnswer ((Runs.run (step .little) (start (Linux.started zeroed))
      [.packet registersA, .lookup 0 (.byId 0 RS_LAMBDA_INT), .send 0 {}, .packet answersFive,
        .wait 0, .expire 0, .resume 0]).clients 0) := by
    decide +kernel
  exact h .little (Linux.started zeroed) _ _ (List.prefix_refl _) 0 hlost

end Threads

end RS
