import Riotsensors.Lib.Critical
import Riotsensors.Proofs.Balance
import Riotsensors.Spec.Calls
import Riotsensors.Spec.Threads

/-! The calls are atomic up to their waits where packets are handled while the mutex is free. -/

namespace RS.Locking

open Mutex Mutex.Prog

/-! ## The memory is accessed under the mutex -/

theorem guarded_exit (answer : Answer) :
    (do unlock; return answer : Prog Shared Answer).Guarded true :=
  guarded_unlock.seq keeps_unlock fun _ => Guarded.pure answer

/-- `waitLambdaResult` after its wait. -/
def resumed (arg : ArgPtr) (lambda : RsRegisteredLambda ArgPtr) (timedOut : Bool) :
    Prog Shared Answer := do
  if timedOut then
    let lastCallError ← read fun m => (m.arg arg).lastCallError
    if lastCallError ≠ 0 then
      let errorCode ← read fun m => (m.arg arg).lastCallError
      write fun m => m.setLastCallError arg 0
      unlock
      return (errorCode, none)
    let cache ← read fun m => (m.deref lambda).cache
    if cache = RS_CACHE_ON_TIMEOUT then
      let dataCached ← read fun m => (m.arg arg).dataCached
      if dataCached then
        let ret ← read fun m => (m.arg arg).ret
        unlock
        return (RS_CALL_CACHE_TIMEOUT, some ret)
      else
        unlock
        return (RS_CALL_CACHE_TIMEOUT_EMPTY, none)
    else
      unlock
      return (RS_CALL_TIMEOUT, none)
  let ret ← read fun m => (m.arg arg).ret
  unlock
  return (RS_CALL_SUCCESS, some ret)

theorem waitLambdaResult_eq (lambda : RsRegisteredLambda ArgPtr) :
    waitLambdaResult lambda =
      (read fun m => (m.deref lambda).arg) >>= fun arg =>
        timedwait >>= resumed arg lambda := rfl

theorem guarded_resumed (arg : ArgPtr) (lambda : RsRegisteredLambda ArgPtr) (timedOut : Bool) :
    (resumed arg lambda timedOut).Guarded true := by
  cases timedOut with
  | false => exact (guarded_read _).seq (keeps_read _) fun ret => guarded_exit _
  | true =>
    refine (guarded_read _).seq (keeps_read _) fun lastCallError => ?_
    split
    · exact (guarded_read _).seq (keeps_read _) fun errorCode =>
        (guarded_write _).seq (keeps_write _) fun _ => guarded_exit _
    refine (guarded_read _).seq (keeps_read _) fun cache => ?_
    split
    · refine (guarded_read _).seq (keeps_read _) fun dataCached => ?_
      cases dataCached with
      | true => exact (guarded_read _).seq (keeps_read _) fun ret => guarded_exit _
      | false => exact guarded_exit _
    · exact guarded_exit _

theorem guarded_waitLambdaResult (lambda : RsRegisteredLambda ArgPtr) :
    (waitLambdaResult lambda).Guarded true :=
  (guarded_read _).seq (keeps_read _) fun arg =>
    guarded_timedwait.seq keeps_timedwait fun timedOut => guarded_resumed arg lambda timedOut

theorem guarded_checkLambdaCache (lambda : RsRegisteredLambda ArgPtr) :
    (checkLambdaCache lambda).Guarded true := by
  refine (guarded_read _).seq (keeps_read _) fun arg =>
    (guarded_read _).seq (keeps_read _) fun cache => ?_
  split
  · exact Guarded.pure _
  split
  · refine (guarded_read _).seq (keeps_read _) fun dataCached => ?_
    cases dataCached with
    | true => exact (guarded_read _).seq (keeps_read _) fun ret => Guarded.pure _
    | false => exact Guarded.pure _
  split
  · refine (guarded_read _).seq (keeps_read _) fun dataCached => ?_
    cases dataCached with
    | true => exact (guarded_read _).seq (keeps_read _) fun ret => Guarded.pure _
    | false => exact Guarded.pure _
  · exact Guarded.pure _

theorem guarded_callLambdaBy (lookup : Linux → Option (RsRegisteredLambda ArgPtr))
    (expectedType : RsLambdaType) (pkt : Option Packet) :
    (callLambdaBy lookup expectedType pkt).Guarded false := by
  refine guarded_lock.seq keeps_lock fun _ => (guarded_read _).seq (keeps_read _) fun found => ?_
  cases found with
  | none => exact guarded_exit _
  | some lambda =>
    refine (guarded_read _).seq (keeps_read _) fun type => ?_
    dsimp only
    split
    · exact guarded_exit _
    refine (guarded_checkLambdaCache lambda).seq (keeps_checkLambdaCache lambda) fun cached => ?_
    split
    · exact guarded_exit _
    · exact (guarded_write _).seq (keeps_write _) fun _ => guarded_waitLambdaResult lambda

theorem guarded_callLambda (c : Env × Call) : (callLambda c).Guarded false := by
  obtain ⟨env, c⟩ := c
  cases c with
  | byId id expectedType =>
    rw [callLambda, callLambdaById]
    exact guarded_callLambdaBy _ expectedType _
  | byName name expectedType =>
    rw [callLambda, callLambdaByName]
    exact guarded_callLambdaBy _ expectedType _

/-! ## The critical sections -/

variable {m : Shared} {lambda : RsRegisteredLambda ArgPtr}

theorem critical_resumed (m : Shared) (lambda : RsRegisteredLambda ArgPtr) (timedOut : Bool) :
    (resumed lambda.arg lambda timedOut).critical m =
      ((leave m lambda timedOut).1, .running (.ret (leave m lambda timedOut).2)) := by
  simp only [resumed, leave, critical_ite, critical_read_bind, critical_unlock_bind,
    critical_write_bind]
  split_ifs <;> rfl

theorem critical_checkLambdaCache_bind (hderef : m.deref lambda = lambda)
    (f : Answer → Prog Shared Answer) :
    (checkLambdaCache lambda >>= f).critical m =
      (f (Linux.checkLambdaCache m.linux lambda)).critical m := by
  simp only [checkLambdaCache, Linux.checkLambdaCache, critical_read_bind_bind, critical_ite_bind,
    critical_pure_bind, hderef]
  split_ifs <;> rfl

theorem critical_waitLambdaResult (hderef : m.deref lambda = lambda) :
    (waitLambdaResult lambda).critical m = (m, .waiting (resumed lambda.arg lambda)) := by
  rw [waitLambdaResult_eq, critical_read_bind, critical_timedwait_bind, hderef]

/-- Where a thread stands that is at a place between two steps. -/
def Place.thread : Place → Thread Shared Answer
  | .idle => .idle
  | .called env c => .running (callLambda (env, c))
  | .waiting lambda => .waiting (resumed lambda.arg lambda)
  | .resuming lambda timedOut => .resuming (resumed lambda.arg lambda timedOut)
  | .returned answer => .running (.ret answer)

/-- A record that is found is live. -/
theorem deref_of_found {c : Call} (hinv : m.linux.Inv) (hfound : m.linux.found c = some lambda) :
    m.deref lambda = lambda := by
  have hslot := hinv.slot_of_found hfound
  rw [Shared.deref, hslot]
  rfl

/-- What a call does from its taking the mutex until it gives it up. -/
theorem critical_callLambda (hinv : m.linux.Inv) (env : Env) (c : Call) :
    ∃ next, callLambda (env, c) = .lock next ∧ next.Keeps true false ∧
      next.critical m = ((enter m env c).1, (enter m env c).2.thread) := by
  have hcall : callLambda (env, c) =
      callLambdaBy (fun s => s.found c) c.expectedType (Linux.callPacket env c) := by
    cases c <;> rfl
  refine ⟨_, hcall, (keeps_callLambdaBy (fun s => s.found c) c.expectedType
    (Linux.callPacket env c)).2, ?_⟩
  change (read (fun m : Shared => m.linux.found c) >>= _).critical m = _
  rw [critical_read_bind]
  cases hfound : m.linux.found c with
  | none =>
    simp only [enter, hfound]
    rfl
  | some lambda =>
    have hderef := deref_of_found hinv hfound
    have hsent : ∀ sent, ({ m with sent } : Shared).deref lambda = lambda := fun _ => hderef
    simp only [enter, hfound, critical_read_bind, critical_ite, critical_unlock_bind, hderef,
      critical_checkLambdaCache_bind hderef, sptSendPacket, critical_write_bind,
      critical_waitLambdaResult (hsent _)]
    split_ifs <;> rfl

/-! ## The simulation -/

/-- The pool with single steps is where the clients are. -/
structure Shows (a : Clients) (k : Calls) : Prop where
  memory : a.memory = k.memory
  threads : ∀ i, a.threads i = (k.clients i).thread

theorem Calls.put_self (k : Calls) (i : ℕ) (p : Shared × Place) : (k.put i p).clients i = p.2 :=
  Function.update_self _ _ _

theorem Calls.put_of_ne (k : Calls) {i j : ℕ} (h : j ≠ i) (p : Shared × Place) :
    (k.put i p).clients j = k.clients j := Function.update_of_ne h _ _

section Steps

variable {a : Clients} {k : Calls}

theorem Shows.put (h : Shows a k) (i : ℕ) (p : Shared × Place) :
    Shows ({ a with memory := p.1 }.setThread i p.2.thread) (k.put i p) where
  memory := rfl
  threads j := by
    by_cases hj : j = i
    · rw [hj, Pool.setThread_self, Calls.put_self]
    · rw [Pool.setThread_of_ne hj, Calls.put_of_ne k hj]
      exact h.threads j

/-- The memory stays. -/
theorem Shows.move (h : Shows a k) (i : ℕ) (p : Place) :
    Shows (a.setThread i p.thread) (k.put i (k.memory, p)) := by
  have hput := h.put i (k.memory, p)
  rw [← h.memory] at hput ⊢
  exact hput

theorem Shows.start (h : Shows a k) (i : ℕ) (c : Env × Call) :
    Shows (a.begin callLambda i c) (k.step (.start i c)) := by
  obtain ⟨env, c⟩ := c
  have hthread := h.threads i
  have hmove := h.move i (.called env c)
  cases hplace : k.clients i with
  | idle =>
    rw [hplace, Place.thread] at hthread
    simp only [Pool.begin, hthread, Calls.step, hplace]
    exact hmove
  | returned answer =>
    rw [hplace, Place.thread] at hthread
    simp only [Pool.begin, hthread, Calls.step, hplace]
    exact hmove
  | called env' c' =>
    obtain ⟨next, hlock⟩ : ∃ next, callLambda (env', c') = .lock next := by
      cases c' <;> exact ⟨_, rfl⟩
    rw [hplace, Place.thread, hlock] at hthread
    simp only [Pool.begin, hthread, Calls.step, hplace]
    exact h
  | waiting lambda =>
    rw [hplace, Place.thread] at hthread
    simp only [Pool.begin, hthread, Calls.step, hplace]
    exact h
  | resuming lambda timedOut =>
    rw [hplace, Place.thread] at hthread
    simp only [Pool.begin, hthread, Calls.step, hplace]
    exact h

/-- A critical section is one step of the call. -/
theorem Shows.perform (h : Shows a k) (hinv : k.memory.linux.Inv) (i : ℕ) :
    Shows (a.perform i) (k.step (.step i)) := by
  have hthread := h.threads i
  have hput := h.put i
  cases hplace : k.clients i with
  | called env c =>
    obtain ⟨next, hlock, -, hcritical⟩ := critical_callLambda hinv env c
    rw [hplace, Place.thread, hlock] at hthread
    simp only [Pool.perform, hthread, h.memory, hcritical, Calls.step, hplace]
    exact hput (enter k.memory env c)
  | resuming lambda timedOut =>
    rw [hplace, Place.thread] at hthread
    simp only [Pool.perform, hthread, h.memory, critical_resumed, Calls.step, hplace]
    exact hput ((leave k.memory lambda timedOut).1,
      .returned (leave k.memory lambda timedOut).2)
  | idle =>
    rw [hplace, Place.thread] at hthread
    simp only [Pool.perform, hthread, Calls.step, hplace]
    exact h
  | waiting lambda =>
    rw [hplace, Place.thread] at hthread
    simp only [Pool.perform, hthread, Calls.step, hplace]
    exact h
  | returned answer =>
    rw [hplace, Place.thread] at hthread
    simp only [Pool.perform, hthread, Calls.step, hplace]
    exact h

theorem Shows.wakeup (h : Shows a k) (i : ℕ) (timedOut : Bool) :
    Shows (a.wakeup i timedOut) (k.step (.wakeup i timedOut)) := by
  have hthread := h.threads i
  have hmove := h.move i
  cases hplace : k.clients i with
  | waiting lambda =>
    rw [hplace, Place.thread] at hthread
    simp only [Pool.wakeup, hthread, Calls.step, hplace]
    exact hmove (.resuming lambda timedOut)
  | _ =>
    rw [hplace, Place.thread] at hthread
    simp only [Pool.wakeup, hthread, Calls.step, hplace]
    exact h

theorem Shows.step (h : Shows a k) (hinv : k.memory.linux.Inv)
    (e : Event Shared (Env × Call)) : Shows (Pool.serialStep callLambda a e) (k.step e) := by
  cases e with
  | memory m => exact ⟨rfl, h.threads⟩
  | start i c => exact h.start i c
  | step i => exact h.perform hinv i
  | wakeup i timedOut => exact h.wakeup i timedOut

end Steps

theorem inv_enter {m : Shared} (h : m.linux.Inv) (env : Env) (c : Call) :
    (enter m env c).1.linux.Inv := by
  unfold enter
  split
  · exact h
  · split_ifs <;> exact h

theorem inv_leave {m : Shared} (h : m.linux.Inv) (lambda : RsRegisteredLambda ArgPtr)
    (timedOut : Bool) : (leave m lambda timedOut).1.linux.Inv := by
  unfold leave
  dsimp only
  split_ifs
  · exact h.anti h.wf le_rfl fun _ _ hl => hl
  all_goals exact h

theorem inv_step {k : Calls} (h : k.memory.linux.Inv) {e : Event Shared (Env × Call)}
    (he : ∀ m, e = .memory m → m.linux.Inv) : (k.step e).memory.linux.Inv := by
  cases e with
  | memory m => exact he m rfl
  | start i c =>
    simp only [Calls.step]
    split <;> exact h
  | step i =>
    simp only [Calls.step]
    split
    · exact inv_enter h _ _
    · exact inv_leave h _ _
    · exact h
  | wakeup i timedOut =>
    simp only [Calls.step]
    split <;> exact h

/-- The clients and their calls: who is not inside stands where its call does, and who is inside
is on the way there. -/
structure Follows (s : Clients) (k : Calls) : Prop where
  outside : ∀ i, s.holder ≠ some i → s.threads i = (k.clients i).thread
  memory : s.holder = none → s.memory = k.memory
  inside : ∀ i, s.holder = some i → ∃ p, s.threads i = .running p ∧
    p.critical s.memory = (k.memory, (k.clients i).thread)

theorem follows_of_ahead {s a : Clients} {k : Calls} (h : Pool.Ahead s a) (hk : Shows a k) :
    Follows s k where
  outside i hi := by rw [← h.threads_of_ne hi, hk.threads]
  memory hfree := by rw [← (h.free hfree).1, hk.memory]
  inside i hi := by
    obtain ⟨p, hthread, hcritical, -⟩ := h.held i hi
    exact ⟨p, hthread, by rw [hcritical, hk.memory, hk.threads]⟩

theorem exists_calls {o : ByteOrder} {memory : Shared} (hinv : memory.linux.Inv)
    {es : List (Event Shared (Env × Call))}
    (hes : Runs.Meets (Pool.step callLambda) (HandledOutside o) (Pool.initial memory) es) :
    ∃ es', es'.Sublist es ∧ ∃ a : Clients,
      Pool.Ahead (Runs.run (Pool.step callLambda) (Pool.initial memory) es) a ∧
        Shows a (Runs.run Calls.step (Calls.initial memory) es') := by
  have hrespects : ∀ (s : Clients) (e : Event Shared (Env × Call)), HandledOutside o s e →
      s.Respects e := by
    intro s e he
    cases e with
    | memory m => exact he.1
    | _ => trivial
  have hsimulates : ∀ (s a : Clients) (k : Calls) (e : Event Shared (Env × Call)),
      Pool.Ahead s a → Shows a k ∧ k.memory.linux.Inv → HandledOutside o s e →
        Shows (Pool.serialStep callLambda a e) (k.step e) ∧ (k.step e).memory.linux.Inv := by
    intro s a k e hahead hk he
    refine ⟨hk.1.step hk.2 e, inv_step hk.2 ?_⟩
    rintro m rfl
    obtain ⟨hfree, d, rfl⟩ := he
    have hmemory : s.memory = k.memory := (hahead.free hfree).1.symm.trans hk.1.memory
    rw [hmemory]
    exact hk.2.receive d
  have hinitial : Shows (Pool.initial memory) (Calls.initial memory) := ⟨rfl, fun _ => rfl⟩
  obtain ⟨es', hsub, a, hahead, hshows, -⟩ := Pool.exists_serial keeps_callLambda
    guarded_callLambda hrespects hsimulates (Pool.inv_initial memory)
    (Pool.guards_initial memory) (Pool.ahead_refl _ rfl) ⟨hinitial, hinv⟩ hes
  exact ⟨es', hsub, a, hahead, hshows⟩

/-- Any number of clients that call, wait and go on in any order, with packets handled while none
of them is inside: what they come to is what calls in two steps come to. -/
theorem calls_are_atomic {o : ByteOrder} {memory : Shared} (hinv : memory.linux.Inv)
    {es : List (Event Shared (Env × Call))}
    (hes : Runs.Meets (Pool.step callLambda) (HandledOutside o) (Pool.initial memory) es) :
    ∃ es', es'.Sublist es ∧
      Follows (Runs.run (Pool.step callLambda) (Pool.initial memory) es)
        (Runs.run Calls.step (Calls.initial memory) es') := by
  obtain ⟨es', hsub, a, hahead, hshows⟩ := exists_calls hinv hes
  exact ⟨es', hsub, follows_of_ahead hahead hshows⟩

/-- The lambda `"a"` registers, two clients call it, and the second has to wait for the first. -/
theorem calls_are_atomic_a :
    let memory : Shared := ⟨Linux.started zeroed, id, []⟩
    let call : Env × Call := ({}, .byId 0 RS_LAMBDA_INT)
    let es : List (Event Shared (Env × Call)) :=
      [.memory { memory with linux := Linux.receive .little memory.linux registersA },
        .start 0 call, .start 1 call, .step 0, .step 1]
    ∃ es', es'.Sublist es ∧
      Follows (Runs.run (Pool.step callLambda) (Pool.initial memory) es)
        (Runs.run Calls.step (Calls.initial memory) es') :=
  calls_are_atomic (o := .little) (Linux.Inv.started zeroed)
    ⟨⟨rfl, registersA, rfl⟩, trivial, trivial, trivial, trivial, trivial⟩

/-- A wait that goes on leaves as the call does, whatever a freed record reads as. -/
theorem leave_of_afterWait {m : Shared} {lambda : RsRegisteredLambda ArgPtr} {timedOut : Bool}
    {linux : Linux} {code : Int8} {written : Option GenericLambdaReturn}
    (h : m.linux.afterWait lambda timedOut = some (linux, code, written)) :
    leave m lambda timedOut = ({ m with linux }, code, written) := by
  by_cases hlive : (m.linux.entry lambda).isSome
  · have hderef : m.deref lambda = lambda := if_pos hlive
    have hentry : (m.linux.entry lambda).isNone ↔ False := by
      rw [Option.isNone_iff_eq_none, iff_false]
      exact Option.isSome_iff_ne_none.mp hlive
    simp only [Linux.afterWait, hentry, if_false] at h
    simp only [leave, hderef]
    split_ifs at h ⊢
    all_goals
      obtain ⟨rfl, rfl, rfl⟩ : _ ∧ _ ∧ _ := by simpa using h
      rfl
  · -- the record is not read
    have hentry : m.linux.entry lambda = none := Option.not_isSome_iff_eq_none.mp hlive
    rw [Linux.afterWait_eq, if_pos hentry] at h
    split_ifs at h with herror
    obtain ⟨rfl, rfl, rfl⟩ : _ ∧ _ ∧ _ := by simpa using h
    unfold leave
    rw [if_pos herror.1, if_pos herror.2]
    rfl

/-! ## A call that meets no other -/

section Alone

variable {o : ByteOrder} {m : Shared} {env : Env} {c : Call} {w : Linux.Wait}
  {out : Linux.CallOutcome} {i : ℕ}

theorem enter_of_not_waiting (hw : m.linux.waitsOn c = none)
    (h : Linux.call o env m.linux c w = some out) :
    enter m env c = (m, .returned (out.code, out.written)) ∧ out.state = m.linux ∧
      out.sent = [] := by
  rw [Linux.call_eq] at h
  unfold Linux.callLambda at h
  unfold enter
  cases hfound : m.linux.found c with
  | none =>
    rw [hfound] at h
    obtain rfl := Option.some.inj h
    exact ⟨rfl, rfl, rfl⟩
  | some l =>
    rw [hfound] at h
    dsimp only at h ⊢
    split_ifs at h with htype hcached
    · obtain rfl := Option.some.inj h
      exact ⟨if_pos htype, rfl, rfl⟩
    · obtain rfl := Option.some.inj h
      exact ⟨(if_neg htype).trans (if_pos hcached), rfl, rfl⟩
    · rw [Linux.waitsOn_eq_some.mpr ⟨hfound, not_not.mp htype, not_not.mp hcached⟩] at hw
      cases hw

theorem enter_of_waiting {lambda : RsRegisteredLambda ArgPtr}
    (hw : m.linux.waitsOn c = some lambda) {packet : Packet}
    (hpacket : Linux.callPacket env c = some packet) :
    enter m env c = ({ m with sent := m.sent ++ [packet] }, .waiting lambda) := by
  obtain ⟨hfound, htype, hcached⟩ := Linux.waitsOn_eq_some.mp hw
  unfold enter
  rw [hfound, hpacket]
  exact (if_neg (not_not.mpr htype)).trans (if_neg (not_not.mpr hcached))

theorem keeps_resumed (lambda : RsRegisteredLambda ArgPtr) (timedOut : Bool) :
    (resumed lambda.arg lambda timedOut).Keeps true false := by
  -- a memory in which a freed record keeps its fields
  let m : Shared := ⟨Linux.started fun _ => ⟨false, 0, .unset⟩, id, []⟩
  have hderef : m.deref lambda = lambda := by
    unfold Shared.deref
    split_ifs <;> rfl
  have hkeeps : (timedwait >>= resumed (m.deref lambda).arg lambda).Keeps true false :=
    keeps_waitLambdaResult lambda m
  rw [hderef] at hkeeps
  exact hkeeps.2 timedOut

/-- Packets change the registry and the call states only. -/
theorem run_handled (o : ByteOrder) (s : Clients) (ds : List Linux.Delivery) :
    let s' := Runs.run (Pool.step callLambda) s (handled o s.memory ds)
    s'.threads = s.threads ∧ s'.holder = s.holder ∧
      s'.memory = { s.memory with linux := Linux.receiveAll o s.memory.linux ds } := by
  induction ds generalizing s with
  | nil => exact ⟨rfl, rfl, rfl⟩
  | cons d ds ih =>
    exact ih { s with memory := { s.memory with linux := Linux.receive o s.memory.linux d } }

/-- The mutex is taken, and a critical section done. -/
theorem exists_steps {s : Clients} {p : Prog Shared Answer} (hp : p.Keeps true false)
    (hthread : s.threads i = .running (.lock p) ∨ s.threads i = .resuming p)
    (hfree : s.holder = none) :
    ∃ n, let s' := Runs.run (Pool.step callLambda) s (List.replicate n (.step i))
      s'.holder = none ∧ s'.memory = (p.critical s.memory).1 ∧
        s'.threads i = (p.critical s.memory).2 := by
  have htaken : Pool.step callLambda s (.step i) = s.taken i p := by
    rcases hthread with hlock | hresuming
    · exact Pool.step_lock hlock hfree
    · exact Pool.step_resuming hresuming hfree
  obtain ⟨n, hn⟩ := Pool.exists_steps_critical callLambda hp (s := s.taken i p)
    (Pool.setThread_self _) rfl
  refine ⟨n + 1, ?_⟩
  rw [List.replicate_succ, Runs.run_cons, htaken]
  exact hn

/-- A client whose wait goes on comes to the end of its call. -/
theorem exists_run_wait {s : Clients} {lambda : RsRegisteredLambda ArgPtr}
    (hthread : s.threads i = .waiting (resumed lambda.arg lambda)) (hfree : s.holder = none)
    (w : Linux.Wait) (timedOut : Bool) {linux : Linux} {code : Int8}
    {written : Option GenericLambdaReturn}
    (h : (Linux.receiveAll o s.memory.linux w.packets).afterWait lambda timedOut =
      some (linux, code, written)) :
    ∃ k,
      let es := waitEvents o i s.memory w timedOut ++ List.replicate k (.step i)
      let s' := Runs.run (Pool.step callLambda) s es
      s'.threads i = .running (.ret (code, written)) ∧
        s'.memory = { s.memory with linux } ∧ s'.holder = none := by
  -- blocked
  obtain ⟨s₁, hs₁⟩ : ∃ s₁, Runs.run (Pool.step callLambda) s (handled o s.memory w.blocked) = s₁ :=
    ⟨_, rfl⟩
  obtain ⟨hthreads₁, hholder₁, hmemory₁⟩ := run_handled o s w.blocked
  rw [hs₁] at hthreads₁ hholder₁ hmemory₁
  -- woken, or its time is over
  let s₂ := s₁.setThread i (.resuming (resumed lambda.arg lambda timedOut))
  have hwakeup : Pool.step callLambda s₁ (.wakeup i timedOut) = s₂ :=
    Pool.step_wakeup (by rw [hthreads₁, hthread]) timedOut
  have hmemory₂ : s₂.memory =
      { s.memory with linux := Linux.receiveAll o s.memory.linux w.blocked } := hmemory₁
  obtain ⟨s₃, hs₃⟩ : ∃ s₃, Runs.run (Pool.step callLambda) s₂ (handled o s₂.memory w.resuming) =
      s₃ := ⟨_, rfl⟩
  obtain ⟨hthreads₃, hholder₃, hmemory₃⟩ := run_handled o s₂ w.resuming
  rw [hs₃] at hthreads₃ hholder₃ hmemory₃
  -- the mutex again
  obtain ⟨k, hholder, hmemory, hreturned⟩ := exists_steps (i := i) (s := s₃)
    (keeps_resumed lambda timedOut)
    (.inr (by rw [hthreads₃]; exact Pool.setThread_self _)) (hholder₃.trans (hholder₁.trans hfree))
  have hall : s₃.memory.linux = Linux.receiveAll o s.memory.linux w.packets := by
    rw [hmemory₃, hmemory₂, Linux.Wait.packets, Linux.receiveAll, Linux.receiveAll,
      Linux.receiveAll, Runs.run_append]
  rw [← hall] at h
  have hleave := leave_of_afterWait h
  have hrun : Runs.run (Pool.step callLambda) s
      (waitEvents o i s.memory w timedOut ++ List.replicate k (.step i)) =
        Runs.run (Pool.step callLambda) s₃ (List.replicate k (.step i)) := by
    rw [waitEvents, Runs.run_append, Runs.run_append, hs₁, Runs.run_cons, hwakeup, ← hmemory₂, hs₃]
  refine ⟨k, ?_⟩
  dsimp only
  rw [hrun]
  rw [critical_resumed, hleave] at hmemory hreturned
  refine ⟨hreturned, ?_, hholder⟩
  rw [hmemory, hmemory₃, hmemory₂]

/-- The clients can do what the sequential model says of one call: client `i` by its own steps,
with no other packets than those of the call's wait. -/
theorem exists_run_call (hinv : m.linux.Inv) (h : Linux.call o env m.linux c w = some out)
    (i : ℕ) :
    ∃ n during k,
      let es := .start i (env, c) :: (List.replicate n (.step i) ++ during ++
        List.replicate k (.step i))
      let s' := Runs.run (Pool.step callLambda) (Pool.initial m : Clients) es
      (match m.linux.waitsOn c with
        | none => during = []
        | some lambda => ∃ timedOut, Linux.timedWait o m.linux lambda w = some timedOut ∧
            during = waitEvents o i { m with sent := m.sent ++ out.sent } w timedOut) ∧
      s'.threads i = .running (.ret (out.code, out.written)) ∧
      s'.memory = ⟨out.state, m.freed, m.sent ++ out.sent⟩ ∧ s'.holder = none := by
  obtain ⟨next, hlock, hkeeps, hcritical⟩ := critical_callLambda hinv env c
  let called : Clients := (Pool.initial m).setThread i (.running (callLambda (env, c)))
  have hcalled : Pool.step callLambda (Pool.initial m) (.start i (env, c)) = called := rfl
  obtain ⟨n, hholder, hmemory, hthread⟩ := exists_steps (s := called) hkeeps
    (.inl (by rw [← hlock]; exact Pool.setThread_self _)) rfl
  obtain ⟨entered, hentered⟩ : ∃ s, Runs.run (Pool.step callLambda) called
      (List.replicate n (.step i)) = s := ⟨_, rfl⟩
  rw [show called.memory = m from rfl, hcritical] at hmemory hthread
  rw [hentered] at hholder hmemory hthread
  cases hw : m.linux.waitsOn c with
  | none =>
    obtain ⟨henter, hstate, hsent⟩ := enter_of_not_waiting hw h
    rw [henter] at hmemory hthread
    refine ⟨n, [], 0, rfl, ?_⟩
    rw [List.append_nil, List.replicate_zero, List.append_nil, Runs.run_cons, hcalled, hentered,
      hstate, hsent, List.append_nil]
    exact ⟨hthread, hmemory, hholder⟩
  | some lambda =>
    obtain ⟨packet, hpacket, hcall⟩ := hinv.call_of_waiting hw o env w
    rw [hcall] at h
    obtain ⟨hsent, timedOut, htimed, hafter⟩ := Linux.afterWait_of_waitLambdaResult h
    rw [enter_of_waiting hw hpacket] at hmemory hthread
    have hlinux : entered.memory.linux = m.linux := by rw [hmemory]
    rw [← hlinux] at hafter
    obtain ⟨k, hend⟩ := exists_run_wait hthread hholder w timedOut hafter
    refine ⟨n, _, k, ⟨timedOut, htimed, rfl⟩, ?_⟩
    rw [List.append_assoc, Runs.run_cons, hcalled, Runs.run_append, hentered, hsent]
    rw [hmemory] at hend
    exact hend

/-- The integer lambda `"a"` answers the second client, which is blocked. -/
theorem exists_run_call_five :
    ∃ n k sent,
      let m : Shared := ⟨Linux.receive .little (Linux.started zeroed) registersA, id, []⟩
      let during := waitEvents .little 1 { m with sent } ⟨[answersFive], [], false⟩ false
      let s' := Runs.run (Pool.step callLambda) (Pool.initial m : Clients)
        (.start 1 ({}, .byId 0 RS_LAMBDA_INT) ::
          (List.replicate n (.step 1) ++ during ++ List.replicate k (.step 1)))
      s'.threads 1 = .running (.ret (RS_CALL_SUCCESS, some (.retI 5))) ∧ s'.holder = none := by
  let m : Shared := ⟨Linux.receive .little (Linux.started zeroed) registersA, id, []⟩
  have hcall : ∃ out, Linux.call .little {} m.linux (.byId 0 RS_LAMBDA_INT)
      ⟨[answersFive], [], false⟩ = some out ∧ out.code = RS_CALL_SUCCESS ∧
        out.written = some (.retI 5) := ⟨_, rfl, rfl, rfl⟩
  obtain ⟨out, hout, hcode, hwritten⟩ := hcall
  have hinv : m.linux.Inv := (Linux.Inv.started zeroed).receive (o := .little) registersA
  obtain ⟨n, during, k, hduring, hthread, -, hholder⟩ := exists_run_call hinv hout 1
  have hwaits : ∃ l, m.linux.waitsOn (.byId 0 RS_LAMBDA_INT) = some l ∧
      Linux.timedWait .little m.linux l ⟨[answersFive], [], false⟩ = some false := ⟨_, rfl, rfl⟩
  obtain ⟨l, hl, hwoken⟩ := hwaits
  rw [hl] at hduring
  obtain ⟨timedOut, htimed, rfl⟩ := hduring
  obtain rfl : false = timedOut := Option.some.inj (hwoken.symm.trans htimed)
  rw [hcode, hwritten] at hthread
  exact ⟨n, k, _, hthread, hholder⟩

end Alone

/-! ## Success without a result -/

theorem enter_ne (m : Shared) (env : Env) (c : Call) :
    (enter m env c).2 ≠ .returned (RS_CALL_SUCCESS, none) := by
  unfold enter
  split
  · exact fun h => absurd (Place.returned.inj h) (by decide)
  · split_ifs with htype hcached
    · exact fun h => absurd (Place.returned.inj h) (by decide)
    · exact fun h => hcached (by rw [Place.returned.inj h])
    · exact Place.noConfusion

theorem leave_ne (m : Shared) (lambda : RsRegisteredLambda ArgPtr) (timedOut : Bool) :
    (leave m lambda timedOut).2 ≠ (RS_CALL_SUCCESS, none) := by
  unfold leave
  dsimp only
  split_ifs with htimedOut herror
  · exact fun h => herror (Prod.mk.inj h).1
  · exact fun h => absurd (Prod.mk.inj h).1 (by decide)
  · exact fun h => absurd (Prod.mk.inj h).1 (by decide)
  · exact fun h => absurd (Prod.mk.inj h).1 (by decide)
  · exact fun h => absurd (Prod.mk.inj h).2 (Option.some_ne_none _)

theorem ne_step {k : Calls} (h : ∀ i, k.clients i ≠ .returned (RS_CALL_SUCCESS, none))
    (e : Event Shared (Env × Call)) (i : ℕ) :
    (k.step e).clients i ≠ .returned (RS_CALL_SUCCESS, none) := by
  have hput : ∀ (j : ℕ) (p : Shared × Place), p.2 ≠ .returned (RS_CALL_SUCCESS, none) →
      (k.put j p).clients i ≠ .returned (RS_CALL_SUCCESS, none) := by
    intro j p hp
    by_cases hi : i = j
    · rwa [hi, Calls.put_self]
    · rw [Calls.put_of_ne k hi]
      exact h i
  cases e with
  | memory m => exact h i
  | start j c =>
    simp only [Calls.step]
    split
    · exact hput j _ Place.noConfusion
    · exact hput j _ Place.noConfusion
    · exact h i
  | step j =>
    simp only [Calls.step]
    split
    · exact hput j _ (enter_ne _ _ _)
    · exact hput j _ fun heq => leave_ne _ _ _ (Place.returned.inj heq)
    · exact h i
  | wakeup j timedOut =>
    simp only [Calls.step]
    split
    · exact hput j _ Place.noConfusion
    · exact h i

/-- With packets handled outside only, a call that succeeds has a result. -/
theorem success_has_result {o : ByteOrder} {memory : Shared} (hinv : memory.linux.Inv)
    {es : List (Event Shared (Env × Call))}
    (hes : Runs.Meets (Pool.step callLambda) (HandledOutside o) (Pool.initial memory) es)
    (i : ℕ) :
    (Runs.run (Pool.step callLambda) (Pool.initial memory) es).threads i ≠
      .running (.ret (RS_CALL_SUCCESS, none)) := by
  intro hthread
  obtain ⟨es', -, a, hahead, hshows⟩ := exists_calls hinv hes
  have hfits := (Pool.inv_run keeps_callLambda memory es).fits i
  have hout : (Runs.run (Pool.step callLambda) (Pool.initial memory : Clients) es).holder ≠
      some i := by
    rw [hthread] at hfits
    exact of_decide_eq_false hfits
  have hplace := (hshows.threads i).symm.trans ((hahead.threads_of_ne hout).trans hthread)
  have hne := Runs.run_inv_all (fun k e h => ne_step (k := k) h e) es'
    (s := Calls.initial memory) (fun _ => Place.noConfusion) i
  generalize (Runs.run Calls.step (Calls.initial memory) es').clients i = place at hplace hne
  cases place with
  | returned answer =>
    rw [Place.thread] at hplace
    obtain rfl : answer = (RS_CALL_SUCCESS, none) := by simpa using hplace
    exact hne rfl
  | called env c =>
    rw [Place.thread] at hplace
    cases c <;> cases hplace
  | _ => cases hplace

/-- The client of `"a"` before any answer. -/
theorem success_has_result_a :
    let memory : Shared := ⟨Linux.started zeroed, id, []⟩
    (Runs.run (Pool.step callLambda) (Pool.initial memory : Clients)
      [.memory { memory with linux := Linux.receive .little memory.linux registersA },
        .start 0 ({}, .byId 0 RS_LAMBDA_INT), .step 0]).threads 0 ≠
      .running (.ret (RS_CALL_SUCCESS, none)) := by
  intro memory
  refine success_has_result (o := .little) (Linux.Inv.started zeroed) ?_ 0
  exact ⟨⟨rfl, registersA, rfl⟩, trivial, trivial, trivial⟩

section Torn

variable {s : Clients} {i : ℕ} {lambda : RsRegisteredLambda ArgPtr}

/-- The second read of the error, and what is done with it. -/
def failed (arg : ArgPtr) : Prog Shared Answer := do
  let errorCode ← read fun m => (m.arg arg).lastCallError
  write fun m => m.setLastCallError arg 0
  unlock
  return (errorCode, none)

theorem step_resumed (hthread : s.threads i = .running (resumed lambda.arg lambda true))
    (herror : (s.memory.arg lambda.arg).lastCallError ≠ 0) :
    Pool.step callLambda s (.step i) = s.setThread i (.running (failed lambda.arg)) := by
  rw [Pool.step_access hthread]
  exact congrArg (fun p => s.setThread i (.running p)) (if_pos herror)

theorem run_failed {arg : ArgPtr} (hthread : s.threads i = .running (failed arg)) :
    (Runs.run (Pool.step callLambda) s [.step i, .step i, .step i]).threads i =
      .running (.ret ((s.memory.arg arg).lastCallError, none)) := by
  have hread : Pool.step callLambda s (.step i) = s.setThread i (.running
      (.access (fun m => m.setLastCallError arg 0) fun _ =>
        .unlock (.ret ((s.memory.arg arg).lastCallError, none)))) := Pool.step_access hthread
  simp only [Runs.run_cons, Runs.run_nil]
  rw [hread, Pool.step_access (Pool.setThread_self _), Pool.step_unlock (Pool.setThread_self _)]
  exact Pool.setThread_self _

/-- The error is read twice. A result that is handled between the two makes a call that failed
one that succeeds without a result. -/
theorem torn_timeout {o : ByteOrder} {d : Linux.Delivery}
    (hthread : s.threads i = .resuming (resumed lambda.arg lambda true))
    (hfree : s.holder = none) (herror : (s.memory.arg lambda.arg).lastCallError ≠ 0)
    (hstored : ((Linux.receive o s.memory.linux d).heap lambda.arg).lastCallError = 0) :
    (Runs.run (Pool.step callLambda) s [.step i, .step i,
      .memory { s.memory with linux := Linux.receive o s.memory.linux d },
      .step i, .step i, .step i]).threads i = .running (.ret (RS_CALL_SUCCESS, none)) := by
  change (Runs.run (Pool.step callLambda) (Pool.step callLambda (Pool.step callLambda
    (Pool.step callLambda s (.step i)) (.step i)) (.memory _))
    [.step i, .step i, .step i]).threads i = _
  rw [Pool.step_resuming hthread hfree,
    step_resumed (s := s.taken i _) (Pool.setThread_self _) herror]
  have hhandled : (Pool.step callLambda
      ((s.taken i (resumed lambda.arg lambda true)).setThread i (.running (failed lambda.arg)))
      (.memory { s.memory with linux := Linux.receive o s.memory.linux d })).threads i =
        .running (failed lambda.arg) := Pool.setThread_self _
  rw [run_failed hhandled]
  change Thread.running (.ret (((Linux.receive o s.memory.linux d).heap lambda.arg).lastCallError,
    none)) = _
  rw [hstored]

/-- An error reaches the client of `"a"` when its time is over, and a result comes right after
that the client has looked at it. -/
theorem torn_timeout_a : ∃ es : List (Event Shared (Env × Call)),
    (Runs.run (Pool.step callLambda) (Pool.initial ⟨Linux.started zeroed, id, []⟩ : Clients)
      es).threads 0 = .running (.ret (RS_CALL_SUCCESS, none)) := by
  let start : Clients := Pool.initial ⟨Linux.started zeroed, id, []⟩
  let es : List (Event Shared (Env × Call)) :=
    [.memory ⟨Linux.receive .little (Linux.started zeroed) registersA, id, []⟩,
      .start 0 ({}, .byId 0 RS_LAMBDA_INT)] ++ List.replicate 8 (.step 0)
  let sent := (Runs.run (Pool.step callLambda) start es).memory
  let es' := es ++ [.memory { sent with
    linux := Linux.receive .little sent.linux (reportsError 0 (-1)) }, .wakeup 0 true]
  obtain ⟨s, hs⟩ : ∃ s, Runs.run (Pool.step callLambda) start es' = s := ⟨_, rfl⟩
  have hlate : ∃ lambda, s.threads 0 = .resuming (resumed lambda.arg lambda true) ∧
      s.holder = none ∧ (s.memory.arg lambda.arg).lastCallError ≠ 0 ∧
        ((Linux.receive .little s.memory.linux answersFive).heap lambda.arg).lastCallError = 0 := by
    rw [← hs]
    exact ⟨_, rfl, rfl, by decide, rfl⟩
  obtain ⟨lambda, hthread, hfree, herror, hstored⟩ := hlate
  obtain ⟨rest, htorn⟩ : ∃ rest, (Runs.run (Pool.step callLambda) s rest).threads 0 =
      .running (.ret (RS_CALL_SUCCESS, none)) :=
    ⟨_, torn_timeout hthread hfree herror hstored⟩
  refine ⟨es' ++ rest, ?_⟩
  rw [Runs.run_append, hs]
  exact htorn

end Torn

end RS.Locking
