import Riotsensors.Sanity.Client

/-! A call that gets no answer: what it reports depends on its cache policy alone as
long as no error code was left in the record before. -/

namespace RS

open CMem

namespace Linux

/-- No packet of the wait is for the lambda `id`, up to the moment when the call goes on: then it
reads what it answers with. Packets after the end of its time count as packets of the wait. -/
def Silent (o : ByteOrder) (id : LambdaId) (w : Wait) : Prop :=
  ∀ d ∈ w.packets, (readPacket o d.env d.packet).target ≠ some id

/-- A packet that is not for a live lambda leaves its record, its call state and
whoever waits on it alone. -/
theorem receive_other {o : ByteOrder} {s : Linux} (h : s.Inv) {l : RsRegisteredLambda ArgPtr}
    (hl : s.registry.slot l.id.toNat = some l) {d : Delivery}
    (hd : (readPacket o d.env d.packet).target ≠ some l.id) :
    (receive o s d).registry.slot l.id.toNat = some l ∧
      (receive o s d).heap l.arg = s.heap l.arg ∧
      (handleReceivedPacket o d.env s d.packet).broadcast ≠ some l.arg := by
  have hown : ∀ id m, getRegisteredLambdaById s.registry id = some m → m.arg = l.arg →
      id = l.id := by
    intro id m hm harg
    exact UInt8.toNat_inj.mp (h.own _ _ _ _ ((h.wf.getById id).symm.trans hm) hl harg)
  rw [receive_eq, handleReceivedPacket_eq]
  refine ⟨?_, ?_⟩
  · refine slot_act_of_ne h.wf hl fun hmsg => hd ?_
    rw [hmsg]
    rfl
  · rcases act_heap_cases (h.below _ _ hl) d.env.heap (readPacket o d.env d.packet) with
      ⟨id, ret, frees, m, hmsg, hget, harg, -⟩ | ⟨id, code, m, hmsg, hget, harg, -⟩ |
      ⟨hheap, hquiet, -⟩
    · rw [hmsg] at hd
      exact absurd (congrArg some (hown id m hget harg)) hd
    · rw [hmsg] at hd
      exact absurd (congrArg some (hown id m hget harg)) hd
    · exact ⟨hheap, hquiet⟩

/-- Packets that are not for a live lambda leave it alone, and wake no one on it. -/
theorem receiveAll_others {o : ByteOrder} {s : Linux} (h : s.Inv)
    {l : RsRegisteredLambda ArgPtr} (hl : s.registry.slot l.id.toNat = some l)
    (ds : List Delivery) (hds : ∀ d ∈ ds, (readPacket o d.env d.packet).target ≠ some l.id) :
    (receiveAll o s ds).registry.slot l.id.toNat = some l ∧
      (receiveAll o s ds).heap l.arg = s.heap l.arg ∧ firstWaker o l.arg s ds = none := by
  induction ds generalizing s with
  | nil => exact ⟨hl, rfl, rfl⟩
  | cons d ds ih =>
    obtain ⟨hslot, hheap, hquiet⟩ := receive_other h hl (hds d (by simp))
    obtain ⟨hslot', hheap', hnone⟩ := ih (h.receive d) hslot fun e he => hds e (by simp [he])
    refine ⟨hslot', hheap'.trans hheap, ?_⟩
    rw [firstWaker, if_neg hquiet]
    exact hnone

end Linux

namespace Watched

/-- What the caller gets: the code, and what `*result` holds afterwards if it held `old`. -/
def answer (o : ByteOrder) (env : Env) (w : Watched) (c : Call) (wait : Linux.Wait)
    (old : GenericLambdaReturn) : Option (Int8 × GenericLambdaReturn) :=
  (Linux.call o env w.linux c wait).map fun out => (out.code, out.written.getD old)

/-- What a timed out call on `l` is to answer in this state. -/
def policyAnswer (w : Watched) (l : RsRegisteredLambda ArgPtr) :
    Int8 × Option GenericLambdaReturn :=
  Linux.timeoutAnswer l.cache (w.linux.heap l.arg)

/-- The call returns the code of its policy, and `*result` holds the value that goes with
the code. -/
def AnswersByPolicy (o : ByteOrder) (env : Env) (w : Watched) (c : Call)
    (l : RsRegisteredLambda ArgPtr) (wait : Linux.Wait) (old : GenericLambdaReturn) : Prop :=
  ∃ value, w.answer o env c wait old = some ((w.policyAnswer l).1, value) ∧
    ∀ ret, (w.policyAnswer l).2 = some ret → value = ret

theorem AnswersByPolicy.code {o : ByteOrder} {env : Env} {w : Watched} {c : Call}
    {l : RsRegisteredLambda ArgPtr} {wait : Linux.Wait} {old : GenericLambdaReturn}
    (h : w.AnswersByPolicy o env c l wait old) :
    (w.answer o env c wait old).map Prod.fst = some (w.policyAnswer l).1 := by
  obtain ⟨value, hanswer, -⟩ := h
  rw [hanswer]
  rfl

/-- No error code is left over in the record, or one that happens to be the code of the
policy (and `*result` happens to hold the value). -/
def NoErrorLeft (w : Watched) (l : RsRegisteredLambda ArgPtr) (old : GenericLambdaReturn) : Prop :=
  (w.linux.heap l.arg).lastCallError = 0 ∨
    (w.linux.heap l.arg).lastCallError = (w.policyAnswer l).1 ∧
      ∀ ret, (w.policyAnswer l).2 = some ret → old = ret

variable {o : ByteOrder} {env : Env} {w : Watched} {c : Call} {l : RsRegisteredLambda ArgPtr}
  {wait : Linux.Wait}

/-- What a call returns that nothing answers until its timer expires. -/
theorem Inv.answer_unanswered (h : w.Inv) (hw : w.linux.waitsOn c = some l)
    (hexpired : wait.expired = true) (hsilent : Linux.Silent o l.id wait)
    (old : GenericLambdaReturn) :
    w.answer o env c wait old = some
      (if (w.linux.heap l.arg).lastCallError ≠ 0 then ((w.linux.heap l.arg).lastCallError, old)
        else ((w.policyAnswer l).1, (w.policyAnswer l).2.getD old)) := by
  have hslot := h.linux.slot_of_found (Linux.waitsOn_eq_some.mp hw).1
  obtain ⟨hlive, hheap, -⟩ := Linux.receiveAll_others h.linux hslot _ hsilent
  obtain ⟨hblocked, -, hnone⟩ := Linux.receiveAll_others h.linux hslot wait.blocked fun d hd =>
    hsilent d (List.mem_append_left _ hd)
  have hthere : (Linux.receiveAll o w.linux wait.blocked).entry l ≠ none := by
    rw [Linux.entry, hblocked]
    exact Option.some_ne_none l
  have hend : Linux.ending o l.arg w.linux wait = .timedOut := by
    rw [Linux.ending, hnone, hexpired]
    rfl
  obtain ⟨packet, -, hcall⟩ := h.linux.call_of_waiting hw o env wait
  rw [answer, hcall, Linux.waitLambdaResult_of_timedOut hthere hend, hheap]
  split_ifs with herror hgone
  · rfl
  · rw [Linux.entry, hlive] at hgone
    cases hgone
  · rfl

/-- With no error code left the call answers by its policy. -/
theorem Inv.answer_of_noErrorLeft (h : w.Inv) (hw : w.linux.waitsOn c = some l)
    (hexpired : wait.expired = true) (hsilent : Linux.Silent o l.id wait)
    {old : GenericLambdaReturn} (hno : w.NoErrorLeft l old) :
    w.answer o env c wait old =
      some ((w.policyAnswer l).1, (w.policyAnswer l).2.getD old) := by
  rw [h.answer_unanswered hw hexpired hsilent]
  by_cases h0 : (w.linux.heap l.arg).lastCallError = 0
  · rw [if_neg (not_not.mpr h0)]
  · obtain ⟨hcode, hold⟩ := hno.resolve_left h0
    rw [if_pos h0, hcode]
    cases hret : (w.policyAnswer l).2 with
    | none => rfl
    | some ret => rw [hold ret hret, Option.getD_some]

theorem Inv.answersByPolicy_iff (h : w.Inv) (hw : w.linux.waitsOn c = some l)
    (hexpired : wait.expired = true) (hsilent : Linux.Silent o l.id wait)
    (old : GenericLambdaReturn) :
    w.AnswersByPolicy o env c l wait old ↔ w.NoErrorLeft l old := by
  constructor
  · rintro ⟨value, hanswer, hvalue⟩
    rw [h.answer_unanswered hw hexpired hsilent] at hanswer
    by_cases h0 : (w.linux.heap l.arg).lastCallError = 0
    · exact Or.inl h0
    · rw [if_pos h0] at hanswer
      obtain ⟨hcode, rfl⟩ := Prod.mk.inj (Option.some.inj hanswer)
      exact Or.inr ⟨hcode, hvalue⟩
  · intro hno
    refine ⟨_, h.answer_of_noErrorLeft hw hexpired hsilent hno, fun ret hret => ?_⟩
    rw [hret, Option.getD_some]

end Watched

/-! ## Two histories -/

def isError (o : ByteOrder) (d : Linux.Delivery) : Bool :=
  match Linux.readPacket o d.env d.packet with
  | .error _ _ => true
  | _ => false

/-- An event without its error packets. Which packet ended a wait, and whether the timer
did, is forgotten with them. -/
def LinuxEvent.withoutErrors (o : ByteOrder) : LinuxEvent → Option LinuxEvent
  | .packet d => if isError o d then none else some (.packet d)
  | .call env c wait => some (.call env c ⟨wait.packets.filter fun d => !isError o d, [], false⟩)

namespace Linux

theorem registry_receive (o : ByteOrder) (s : Linux) (d : Delivery) :
    (receive o s d).registry = match readPacket o d.env d.packet with
      | .registered name type cache =>
        (lambdaRegistryRegister d.env.heap s.registry name type cache s.brk).1
      | .unregistered id => (lambdaRegistryUnregister s.registry id).1
      | _ => s.registry := by
  rw [receive_eq]
  exact registry_act ..

theorem brk_receive (o : ByteOrder) (s : Linux) (d : Delivery) :
    (receive o s d).brk = match readPacket o d.env d.packet with
      | .registered _ _ _ => s.brk + 1
      | _ => s.brk := by
  rw [receive_eq]
  cases hmsg : readPacket o d.env d.packet with
  | registered name type cache => rfl
  | unregistered id => rfl
  | result id ret frees =>
    simp only [act, storeResult]
    cases getRegisteredLambdaById s.registry id <;> rfl
  | error id code =>
    simp only [act, storeError]
    cases getRegisteredLambdaById s.registry id <;> rfl
  | ignored => rfl

/-- The same packet keeps two states alike. -/
theorem Alike.receive {s t : Linux} (h : s.Alike t) (o : ByteOrder) (d : Delivery) :
    (receive o s d).Alike (Linux.receive o t d) := by
  have hdel : delivered o s d = delivered o t d := by
    unfold delivered
    rw [h.registry]
  have hbrk : (Linux.receive o s d).brk = (Linux.receive o t d).brk := by
    rw [brk_receive, brk_receive, h.brk]
  have hcells : ∀ p < (Linux.receive o s d).brk,
      ((Linux.receive o s d).heap p).dataCached = ((Linux.receive o t d).heap p).dataCached ∧
      (((Linux.receive o s d).heap p).dataCached = true →
        ((Linux.receive o s d).heap p).ret = ((Linux.receive o t d).heap p).ret) := by
    intro p hp
    by_cases hold : p < s.brk
    · rcases receive_heap hold o d with ⟨ret, hs, hsheap⟩ | ⟨hs, hsc, hsr⟩
      · rcases receive_heap (h.brk ▸ hold) o d with ⟨ret', ht, htheap⟩ | ⟨ht, -⟩
        · rw [hdel, ht] at hs
          rw [hsheap, htheap, (Prod.mk.inj (Option.some.inj hs)).2]
          exact ⟨rfl, fun _ => rfl⟩
        · exact absurd (hdel.symm.trans hs) (ht ret)
      · rcases receive_heap (h.brk ▸ hold) o d with ⟨ret', ht, -⟩ | ⟨-, htc, htr⟩
        · exact absurd (hdel.trans ht) (hs ret')
        · rw [hsc, hsr, htc, htr]
          exact ⟨h.cached p hold, h.ret p hold⟩
    · have hs := receive_heap_fresh (not_lt.mp hold) o d hp
      have ht := receive_heap_fresh (h.brk ▸ not_lt.mp hold) o d (hbrk ▸ hp)
      rw [hs, ht]
      exact ⟨rfl, fun hc => by cases hc⟩
  refine ⟨?_, hbrk, fun p hp => (hcells p hp).1, fun p hp => (hcells p hp).2⟩
  rw [registry_receive, registry_receive, h.registry, h.brk]

/-- An error packet keeps the state alike. -/
theorem alike_of_isError {o : ByteOrder} {d : Delivery} (hd : isError o d = true) (s : Linux) :
    (receive o s d).Alike s := by
  unfold isError at hd
  split at hd
  next id code hmsg =>
    rw [receive_eq, hmsg]
    simp only [act, storeError]
    cases getRegisteredLambdaById s.registry id with
    | none => exact Alike.refl s
    | some l => exact alike_setError s l.arg code
  next => cases hd

theorem Alike.receiveAll {s t : Linux} (h : s.Alike t) (o : ByteOrder) (ds : List Delivery) :
    (receiveAll o s ds).Alike (Linux.receiveAll o t (ds.filter fun d => !isError o d)) := by
  induction ds generalizing s t with
  | nil => exact h
  | cons d ds ih =>
    cases hd : isError o d with
    | true =>
      rw [List.filter_cons_of_neg (by simp [hd])]
      exact ih ((alike_of_isError hd s).trans h)
    | false =>
      rw [List.filter_cons_of_pos (by simp [hd])]
      exact ih (h.receive o d)

/-- Alike states let the same calls wait. -/
theorem Alike.waitsOn_eq {s t : Linux} (h : s.Alike t) (hs : s.Inv) (c : Call) :
    s.waitsOn c = t.waitsOn c := by
  have hfound : s.found c = t.found c := by
    cases c <;> simp only [found, h.registry]
  unfold waitsOn
  rw [← hfound]
  cases hf : s.found c with
  | none => rfl
  | some l =>
    have hbrk := hs.below _ _ (hs.slot_of_found hf)
    have hcheck : (checkLambdaCache s l).1 = (checkLambdaCache t l).1 := by
      unfold checkLambdaCache
      simp only [h.cached l.arg hbrk]
      split_ifs <;> rfl
    simp only [Option.filter_some, hcheck]

/-- The state that an event leaves, but for the error codes: what a call returns is forgotten. -/
def absorb (o : ByteOrder) (s : Linux) : LinuxEvent → Linux
  | .packet d => receive o s d
  | .call _ c w => duringCall o s c w

/-- The packets of the same call, with the error packets among them or without. -/
theorem Alike.duringCall {s t : Linux} (h : s.Alike t) (hs : s.Inv) {o : ByteOrder} (c : Call)
    {w w' : Wait} (hw : w'.packets = w.packets.filter fun d => !isError o d) :
    (duringCall o s c w).Alike (Linux.duringCall o t c w') := by
  unfold Linux.duringCall
  rw [← h.waitsOn_eq hs c]
  split_ifs
  · rw [hw]
    exact h.receiveAll o w.packets
  · exact h

end Linux

namespace Watched

/-- A history that ran into undefined behaviour stays there. -/
theorem run_none (o : ByteOrder) (es : List LinuxEvent) : Runs.run (play o) none es = none := by
  induction es with
  | nil => rfl
  | cons e es ih => exact ih

/-- A history and what is left of it without its error packets lead to alike states. -/
theorem alike_withoutErrors {o : ByteOrder} {w w' : Watched} {t : Linux} (h : w.linux.Alike t)
    (hw : w.Inv) {es : List LinuxEvent} (hrun : Runs.run (play o) (some w) es = some w') :
    w'.linux.Alike
      (Runs.run (Linux.absorb o) t (es.filterMap (LinuxEvent.withoutErrors o))) := by
  induction es generalizing w t with
  | nil =>
    obtain rfl := Option.some.inj hrun
    exact h
  | cons e es ih =>
    rw [Runs.run_cons] at hrun
    cases hplay : play o (some w) e with
    | none =>
      rw [hplay, run_none] at hrun
      cases hrun
    | some w1 =>
      rw [hplay] at hrun
      have hw1 := hw.play hplay
      cases e with
      | packet d =>
        obtain rfl := Option.some.inj hplay
        cases hd : isError o d with
        | true =>
          rw [List.filterMap_cons_none (by simp [LinuxEvent.withoutErrors, hd])]
          exact ih ((Linux.alike_of_isError hd w.linux).trans h) hw1 hrun
        | false =>
          have hsome : LinuxEvent.withoutErrors o (.packet d) = some (.packet d) := by
            simp [LinuxEvent.withoutErrors, hd]
          rw [List.filterMap_cons_some hsome]
          exact ih (h.receive o d) hw1 hrun
      | call env c wait =>
        simp only [play, Option.bind_eq_bind, Option.bind_some] at hplay
        obtain ⟨out, hout, heq⟩ := Option.bind_eq_some_iff.mp hplay
        obtain rfl := Option.some.inj heq
        let wait' : Linux.Wait := ⟨wait.packets.filter fun d => !isError o d, [], false⟩
        have hpackets : wait'.packets = wait.packets.filter fun d => !isError o d :=
          List.append_nil _
        have hkeep : LinuxEvent.withoutErrors o (.call env c wait) = some (.call env c wait') := rfl
        rw [List.filterMap_cons_some hkeep, Runs.run_cons]
        exact ih ((hw.linux.call_alike hout).trans (h.duringCall hw.linux c hpackets)) hw1 hrun

/-- Two histories that differ in error packets and in the initial contents of memory
only lead to alike states. -/
theorem alike_of_withoutErrors_eq {o : ByteOrder}
    {garbage garbage' : ArgPtr → RsLinuxRegisteredLambda} {es es' : List LinuxEvent}
    {w w' : Watched} (h : Reaches o garbage es w) (h' : Reaches o garbage' es' w')
    (hes : es.filterMap (LinuxEvent.withoutErrors o) = es'.filterMap (LinuxEvent.withoutErrors o)) :
    w.linux.Alike w'.linux := by
  have hstart : ∀ g g', (started g).linux.Alike (started g').linux := fun _ _ =>
    ⟨rfl, rfl, fun p hp => absurd hp (Nat.not_lt_zero p), fun p hp => absurd hp (Nat.not_lt_zero p)⟩
  have halike := alike_withoutErrors (hstart garbage garbage) (Inv.started garbage) h
  have halike' := alike_withoutErrors (hstart garbage' garbage) (Inv.started garbage') h'
  rw [← hes] at halike'
  exact halike.trans halike'.symm

/-- Alike states ask for the same answer. -/
theorem policyAnswer_eq {w w' : Watched} (h : w.linux.Alike w'.linux)
    {l : RsRegisteredLambda ArgPtr} (hl : l.arg < w.linux.brk) :
    w.policyAnswer l = w'.policyAnswer l := by
  unfold policyAnswer Linux.timeoutAnswer
  rw [← h.cached l.arg hl]
  split_ifs with hcache hcached
  · rw [h.ret l.arg hl hcached]
  · rfl
  · rfl

/-- A call that passes its checks and is not answered reports by its policy exactly when
no error code is left in the record; two histories that differ in error packets and in
the initial contents of memory only then give the same answer. -/
theorem timeout_answer_iff {o : ByteOrder} {garbage : ArgPtr → RsLinuxRegisteredLambda}
    {es : List LinuxEvent} {w : Watched} (h : Reaches o garbage es w) {c : Call}
    {l : RsRegisteredLambda ArgPtr} (hw : w.linux.waitsOn c = some l) {wait : Linux.Wait}
    (hexpired : wait.expired = true) (hsilent : Linux.Silent o l.id wait) (env : Env)
    (old : GenericLambdaReturn) :
    (w.AnswersByPolicy o env c l wait old ↔ w.NoErrorLeft l old) ∧
    ∀ (garbage' : ArgPtr → RsLinuxRegisteredLambda) (es' : List LinuxEvent) (w' : Watched)
      (env' : Env) (wait' : Linux.Wait), Reaches o garbage' es' w' →
      es.filterMap (LinuxEvent.withoutErrors o) = es'.filterMap (LinuxEvent.withoutErrors o) →
      wait'.expired = true → Linux.Silent o l.id wait' →
      w.NoErrorLeft l old → w'.NoErrorLeft l old →
        w.answer o env c wait old = w'.answer o env' c wait' old := by
  refine ⟨h.inv.answersByPolicy_iff hw hexpired hsilent old, ?_⟩
  intro garbage' es' w' env' wait' h' hes hexpired' hsilent' hno hno'
  have halike := alike_of_withoutErrors_eq h h' hes
  have hw' := (halike.waitsOn_eq h.inv.linux c).symm.trans hw
  have hbrk := h.inv.linux.below _ _ (h.inv.linux.slot_of_found (Linux.waitsOn_eq_some.mp hw).1)
  rw [h.inv.answer_of_noErrorLeft hw hexpired hsilent hno,
    h'.inv.answer_of_noErrorLeft hw' hexpired' hsilent' hno', policyAnswer_eq halike hbrk]

/-- The record of lambda `"a"`. -/
def recordA : RsRegisteredLambda ArgPtr :=
  newRecord [] 0 [97] RS_LAMBDA_INT RS_CACHE_NO_CACHE 0

theorem timeout_answer_iff_registered :
    ((started zeroed).receive .little registersA).AnswersByPolicy .little {}
        (.byId 0 RS_LAMBDA_INT) recordA ⟨[], [], true⟩ .unset ↔
      ((started zeroed).receive .little registersA).NoErrorLeft recordA .unset :=
  (@timeout_answer_iff .little zeroed [.packet registersA] _ rfl (.byId 0 RS_LAMBDA_INT) recordA
    rfl ⟨[], [], true⟩ rfl (fun _ hd => by cases hd) {} .unset).1

/-- A call that an error packet ended leaves the code to the next one that times out. -/
theorem old_error_is_reported_later :
    ¬ ∀ (es : List LinuxEvent) (w : Watched) (env : Env) (c : Call)
      (l : RsRegisteredLambda ArgPtr) (wait : Linux.Wait) (old : GenericLambdaReturn),
      Reaches .little zeroed es w → w.linux.waitsOn c = some l → wait.expired = true →
      Linux.Silent .little l.id wait → w.AnswersByPolicy .little env c l wait old := by
  intro h
  have hanswer := h
    [.packet registersA,
      .call {} (.byId 0 RS_LAMBDA_INT) ⟨[reportsError 0 RS_CALL_WRONGTYPE], [], false⟩]
    _ {} (.byId 0 RS_LAMBDA_INT) recordA ⟨[], [], true⟩ .unset rfl rfl rfl
    (fun _ hd => by cases hd)
  exact absurd hanswer.code (by decide)

end Watched

end RS
