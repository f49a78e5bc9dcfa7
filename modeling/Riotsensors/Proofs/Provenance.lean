import Riotsensors.Proofs.Attribution
import Riotsensors.Proofs.Lifetimes
import Riotsensors.Proofs.Remote
import Riotsensors.Spec.World

/-! Where the values come from. Whatever a call on Linux hands to its caller, the board
produced for the lambda of that id, however the clients interleave and whatever the link
loses; and the board evaluates a lambda only for a call that asked for it, once for each. -/

namespace RS

/-! ## What the threads do with a value -/

/-- A call goes on with a record of the type that it expects. One that has returned with a
value returned what may be a value of the record that it asked for. -/
def Phase.Truthful (E : RsRegisteredLambda ArgPtr → GenericLambdaReturn → Prop) : Phase → Prop
  | .idle => True
  | .ready p => p.lambda.type = p.call.expectedType
  | .sent p => p.lambda.type = p.call.expectedType
  | .waiting p => p.lambda.type = p.call.expectedType
  | .resuming p _ => p.lambda.type = p.call.expectedType
  | .returned r => ∀ ret, r.written = some ret → ∃ l, r.lambda = some l ∧ l.IsFor r.call ∧ E l ret
  | .undefined _ => False

theorem Phase.Truthful.mono {E F : RsRegisteredLambda ArgPtr → GenericLambdaReturn → Prop}
    (hE : ∀ l ret, E l ret → F l ret) {phase : Phase} (h : phase.Truthful E) :
    phase.Truthful F := by
  cases phase with
  | returned r =>
    intro ret hret
    obtain ⟨l, hl, hfor, hvalue⟩ := h ret hret
    exact ⟨l, hl, hfor, hE l ret hvalue⟩
  | _ => exact h

theorem Phase.Truthful.onPacket {E : RsRegisteredLambda ArgPtr → GenericLambdaReturn → Prop}
    {phase : Phase} (h : phase.Truthful E) (stored broadcast : Option ArgPtr) :
    (phase.onPacket stored broadcast).Truthful E := by
  cases phase with
  | waiting p =>
    rw [Phase.onPacket]
    split_ifs
    · exact h
    · exact h
  | _ => exact h

/-- What a call finds is what it asks for, if the type is right. -/
theorem Linux.isFor_of_found {s : Linux} (h : s.Inv) {c : Call} {l : RsRegisteredLambda ArgPtr}
    (hf : s.found c = some l) (htype : l.type = c.expectedType) : l.IsFor c := by
  refine ⟨htype, ?_⟩
  cases c with
  | byId id type =>
    exact UInt8.toNat_inj.mp (h.wf.ids _ l ((h.wf.getById id).symm.trans hf))
  | byName name type => exact (h.wf.of_getByName hf).2

namespace Threads

variable {E F : RsRegisteredLambda ArgPtr → GenericLambdaReturn → Prop}
  {garbage : ArgPtr → RsLinuxRegisteredLambda} {o : ByteOrder} {s : Threads}

/-- Every cached value, and every value returned, may be one of its lambda. -/
structure Truthful (E : RsRegisteredLambda ArgPtr → GenericLambdaReturn → Prop)
    (garbage : ArgPtr → RsLinuxRegisteredLambda) (s : Threads) : Prop where
  safe : s.Safe
  fresh : ∀ p, s.linux.brk ≤ p → (s.linux.heap p).ret = (garbage p).ret
  cells : ∀ i l, s.linux.registry.slot i = some l → E l (s.linux.heap l.arg).ret
  clients : ∀ i, (s.clients i).Truthful E

/-- What a packet may do: leave the lambdas registered, and store what may be a value of the
lambda it is for. -/
def Admits (E : RsRegisteredLambda ArgPtr → GenericLambdaReturn → Prop) (o : ByteOrder)
    (s : Threads) (d : Linux.Delivery) : Prop :=
  (∀ id, Linux.readPacket o d.env d.packet ≠ .unregistered id) ∧
  ∀ id ret frees l, Linux.readPacket o d.env d.packet = .result id ret frees →
    getRegisteredLambdaById s.linux.registry id = some l → E l ret

theorem Truthful.start (E : RsRegisteredLambda ArgPtr → GenericLambdaReturn → Prop)
    (garbage : ArgPtr → RsLinuxRegisteredLambda) :
    (start (Linux.started garbage)).Truthful E garbage where
  safe := Safe.start garbage
  fresh _ _ := rfl
  cells i l hl := by
    rw [Threads.start, Linux.started, Registry.slot_empty] at hl
    cases hl
  clients _ := trivial

theorem Truthful.mono (h : s.Truthful E garbage) (hE : ∀ l ret, E l ret → F l ret) :
    s.Truthful F garbage where
  safe := h.safe
  fresh := h.fresh
  cells i l hl := hE _ _ (h.cells i l hl)
  clients i := (h.clients i).mono hE

/-- A message leaves the value of a cell, or stores the one that it carries. -/
theorem ret_act (linux : Linux) (heap : Option (List UInt8)) (m : Message) (p : ArgPtr) :
    ((Linux.act heap linux m).state.heap p).ret = (linux.heap p).ret ∨
    ∃ id ret frees l, m = .result id ret frees ∧
      getRegisteredLambdaById linux.registry id = some l ∧ l.arg = p ∧
      ((Linux.act heap linux m).state.heap p).ret = ret := by
  have hupdate : ∀ (q : ArgPtr) (a : RsLinuxRegisteredLambda), a.ret = (linux.heap q).ret →
      (Function.update linux.heap q a p).ret = (linux.heap p).ret := by
    intro q a ha
    by_cases hp : p = q
    · rw [hp, Function.update_self, ha]
    · rw [Function.update_of_ne hp]
  cases m with
  | registered name type cache => exact Or.inl (hupdate _ _ rfl)
  | unregistered id => exact Or.inl rfl
  | ignored => exact Or.inl rfl
  | error id code =>
    left
    simp only [Linux.act, Linux.storeError]
    cases getRegisteredLambdaById linux.registry id with
    | none => rfl
    | some l => exact hupdate _ _ rfl
  | result id ret frees =>
    cases hget : getRegisteredLambdaById linux.registry id with
    | none =>
      left
      simp only [Linux.act, Linux.storeResult, hget, Linux.Handled.quiet]
    | some l =>
      rw [Linux.act_result_of_live hget]
      by_cases hp : p = l.arg
      · refine Or.inr ⟨id, ret, frees, l, rfl, hget, hp.symm, ?_⟩
        simp only [hp, Linux.setArg, Function.update_self]
      · left
        simp only [Linux.setArg, Function.update_of_ne hp]

theorem Truthful.packet (hgarbage : ∀ l : RsRegisteredLambda ArgPtr, E l (garbage l.arg).ret)
    (h : s.Truthful E garbage) {d : Linux.Delivery} (hd : Admits E o s d) :
    (s.packet o d).Truthful E garbage where
  safe := h.safe.packet fun _ _ _ => hd.1 _
  fresh p hp := by
    rw [linux_packet] at hp ⊢
    have hold := (Linux.brk_act_le d.env.heap s.linux _).trans hp
    rcases ret_act s.linux d.env.heap (Linux.readPacket o d.env d.packet) p with
      heq | ⟨id, ret, frees, l, -, hget, rfl, -⟩
    · rw [heq]
      exact h.fresh p hold
    · have hslot := (h.safe.linux.wf.getById id).symm.trans hget
      exact absurd (h.safe.linux.below _ l hslot) (not_lt.mpr hold)
  cells i l hl := by
    rw [linux_packet] at hl ⊢
    rcases ret_act s.linux d.env.heap (Linux.readPacket o d.env d.packet) l.arg with
      heq | ⟨id, ret, frees, m, hread, hget, harg, heq⟩
    · rw [heq]
      rcases Linux.slot_act h.safe.linux.wf hl with hold | ⟨mem, name, type, cache, -, -, -, -, rfl⟩
      · exact h.cells i l hold
      · rw [h.fresh (newRecord _ _ _ _ _ s.linux.brk).arg le_rfl]
        exact hgarbage _
    · rw [heq]
      rw [hread, Linux.registry_act] at hl
      have hslot := (h.safe.linux.wf.getById id).symm.trans hget
      have hi : i = id.toNat := h.safe.linux.own i id.toNat l m hl hslot harg.symm
      rw [hi, hslot] at hl
      rw [← Option.some.inj hl]
      exact hd.2 id ret frees m hread hget
  clients i := (h.clients i).onPacket _ _

/-- One thread goes on, and the cells keep their values. -/
theorem Truthful.setPhase (h : s.Truthful E garbage) {t : Threads} (hsafe : t.Safe) {i : ℕ}
    {phase : Phase} (hclients : t.clients = Function.update s.clients i phase)
    (hregistry : t.linux.registry = s.linux.registry) (hbrk : t.linux.brk = s.linux.brk)
    (hret : ∀ p, (t.linux.heap p).ret = (s.linux.heap p).ret) (hphase : phase.Truthful E) :
    t.Truthful E garbage where
  safe := hsafe
  fresh p hp := by
    rw [hret]
    exact h.fresh p (hbrk ▸ hp)
  cells j l hl := by
    rw [hret]
    exact h.cells j l (hregistry ▸ hl)
  clients j := by
    rw [hclients]
    exact forall_setPhase h.clients i hphase j

/-- What a lookup answers comes out of the cell of the record that it found. -/
theorem lookup_returned (s : Threads) (i : ℕ) (c : Call) :
    s.lookup i c = s ∨
    (∃ r, s.lookup i c = s.setPhase i (.returned r) ∧ r.call = c ∧ ∀ ret, r.written = some ret →
      ∃ l, r.lambda = some l ∧ s.linux.found c = some l ∧ l.type = c.expectedType ∧
        ret = (s.linux.heap l.arg).ret) ∨
    ∃ p, s.lookup i c = { s with holder := some i }.setPhase i (.ready p) ∧
      p.lambda.type = p.call.expectedType := by
  unfold lookup
  split
  next hphase hholder =>
    right
    cases hf : s.linux.found c with
    | none => exact Or.inl ⟨_, rfl, rfl, fun ret hret => by cases hret⟩
    | some lambda =>
      by_cases htype : lambda.type = c.expectedType
      · simp only [ne_eq, htype, not_true_eq_false, if_false]
        rcases Linux.checkLambdaCache_cases s.linux lambda with hgo | ⟨hhit, -⟩ | hempty
        · exact Or.inr ⟨⟨c, lambda, false, false⟩, by rw [hgo]; rfl, htype⟩
        · rw [hhit]
          refine Or.inl ⟨_, rfl, rfl, fun ret hret => ⟨lambda, rfl, rfl, htype, ?_⟩⟩
          exact (Option.some.inj hret).symm
        · rw [hempty]
          exact Or.inl ⟨_, rfl, rfl, fun ret hret => by cases hret⟩
      · simp only [ne_eq, htype, not_false_eq_true, if_true]
        exact Or.inl ⟨_, rfl, rfl, fun ret hret => by cases hret⟩
  next => exact Or.inl rfl

/-- A wait that is over leaves the values as they are, and answers with the one in its cell. -/
theorem afterWait_value {linux linux' : Linux} {l : RsRegisteredLambda ArgPtr} {timedOut : Bool}
    {code : Int8} {written : Option GenericLambdaReturn}
    (h : linux.afterWait l timedOut = some (linux', code, written)) :
    (∀ p, (linux'.heap p).ret = (linux.heap p).ret) ∧
      ∀ ret, written = some ret → ret = (linux.heap l.arg).ret := by
  have hcleared : ∀ p, ((linux.setArg l.arg { linux.heap l.arg with lastCallError := 0 }).heap
      p).ret = (linux.heap p).ret := by
    intro p
    by_cases hp : p = l.arg
    · simp only [hp, Linux.setArg, Function.update_self]
    · simp only [Linux.setArg, Function.update_of_ne hp]
  rw [Linux.afterWait_eq] at h
  unfold Linux.timeoutAnswer at h
  split_ifs at h
  all_goals
    obtain ⟨rfl, hrest⟩ := Prod.mk.inj (Option.some.inj h)
    obtain ⟨-, rfl⟩ := Prod.mk.inj hrest
  · exact ⟨hcleared, fun ret hret => by cases hret⟩
  · exact ⟨fun _ => rfl, fun ret hret => (Option.some.inj hret).symm⟩
  · exact ⟨fun _ => rfl, fun ret hret => by cases hret⟩
  · exact ⟨fun _ => rfl, fun ret hret => by cases hret⟩
  · exact ⟨fun _ => rfl, fun ret hret => (Option.some.inj hret).symm⟩

theorem Truthful.lookup (h : s.Truthful E garbage) (i : ℕ) (c : Call) :
    (s.lookup i c).Truthful E garbage := by
  have hsafe := h.safe.lookup i c
  rcases lookup_returned s i c with heq | ⟨r, heq, hcall, hr⟩ | ⟨p, heq, htype⟩
  · rwa [heq]
  · rw [heq] at hsafe ⊢
    refine h.setPhase hsafe rfl rfl rfl (fun _ => rfl) fun ret hret => ?_
    obtain ⟨l, hl, hf, htype, rfl⟩ := hr ret hret
    have hfor := Linux.isFor_of_found h.safe.linux hf htype
    exact ⟨l, hl, hcall ▸ hfor, h.cells _ l (h.safe.linux.slot_of_found hf)⟩
  · rw [heq] at hsafe ⊢
    exact h.setPhase hsafe rfl rfl rfl (fun _ => rfl) htype

theorem Truthful.send (h : s.Truthful E garbage) (i : ℕ) (env : Env) :
    (s.send i env).Truthful E garbage := by
  have hsafe := h.safe.send i env
  rcases send_cases s i env with heq | ⟨p, hphase, hcases⟩
  · rwa [heq]
  have hp := h.safe.holds i
  have htype := h.clients i
  rw [hphase] at hp htype
  rcases hcases with ⟨hnone, -⟩ | heq
  · obtain ⟨packet, hpacket⟩ := h.safe.linux.callPacket_exists hp env
    rw [hnone] at hpacket
    cases hpacket
  · rw [heq] at hsafe ⊢
    exact h.setPhase hsafe rfl rfl rfl (fun _ => rfl) htype

theorem Truthful.wait (h : s.Truthful E garbage) (i : ℕ) : (s.wait i).Truthful E garbage := by
  have hsafe := h.safe.wait i
  rcases wait_cases s i with ⟨-, heq⟩ | ⟨p, hphase, hcases⟩
  · rwa [heq]
  have hp := h.safe.holds i
  have htype := h.clients i
  rw [hphase] at hp htype
  rcases hcases with ⟨hnone, -⟩ | ⟨-, heq⟩
  · rw [Linux.entry, h.safe.linux.slot_of_found hp] at hnone
    cases hnone
  · rw [heq] at hsafe ⊢
    exact h.setPhase hsafe rfl rfl rfl (fun _ => rfl) htype

theorem Truthful.wakes (h : s.Truthful E garbage) {i : ℕ} {t : Threads} (ht : s.Wakes i t) :
    t.Truthful E garbage := by
  have hsafe := h.safe.wakes ht
  rcases ht with rfl | ⟨p, s', hphase, hs', hcases⟩
  · exact h
  have hp := h.safe.holds i
  have htype := h.clients i
  rw [hphase] at hp htype
  obtain ⟨hclients, hlinux, -⟩ := frame_of_record hs'
  rcases hcases with ⟨timedOut, rfl⟩ | ⟨hentry, -⟩
  · have hupdate := congrArg (Function.update · i (Phase.resuming p timedOut)) hclients
    refine h.setPhase hsafe hupdate ?_ ?_ ?_ htype
    all_goals simp only [linux_setPhase, hlinux, implies_true]
  · rw [Linux.entry, h.safe.linux.slot_of_found hp] at hentry
    cases hentry

theorem Truthful.resume (h : s.Truthful E garbage) (i : ℕ) : (s.resume i).Truthful E garbage := by
  have hsafe := h.safe.resume i
  rcases resume_cases s i with ⟨-, heq⟩ | ⟨p, timedOut, s', hphase, -, hs', hcases⟩
  · rwa [heq]
  have hp := h.safe.holds i
  have htype := h.clients i
  rw [hphase] at hp htype
  have hslot := h.safe.linux.slot_of_found hp
  rcases hcases with ⟨hnone, -⟩ | ⟨linux, code, written, hafter, heq⟩
  · have hentry := (Linux.afterWait_eq_none_iff.mp hnone).1
    rw [Linux.entry, hslot] at hentry
    cases hentry
  · obtain ⟨hret, hwritten⟩ := afterWait_value hafter
    have halike := Linux.afterWait_alike hafter
    have hclients : s'.clients = s.clients := (frame_of_record hs').1
    have hreturned : Phase.Truthful E
        (.returned ⟨p.call, some p.lambda, code, written, p.answered⟩) := by
      intro ret hr
      refine ⟨p.lambda, rfl, Linux.isFor_of_found h.safe.linux hp htype, ?_⟩
      rw [hwritten ret hr]
      exact h.cells _ p.lambda hslot
    rw [heq] at hsafe ⊢
    have hupdate := congrArg (Function.update · i
      (Phase.returned ⟨p.call, some p.lambda, code, written, p.answered⟩)) hclients
    exact h.setPhase hsafe hupdate halike.registry halike.brk hret hreturned

theorem Truthful.respond (h : s.Truthful E garbage) (i : ℕ) :
    (s.respond i).Truthful E garbage := by
  have hsafe := h.safe.respond i
  rcases respond_cases s i with heq | ⟨r, -, heq⟩
  · rwa [heq]
  · rw [heq] at hsafe ⊢
    split_ifs at hsafe ⊢
    · exact h.setPhase hsafe rfl rfl rfl (fun _ => rfl) trivial
    · exact h.setPhase hsafe rfl rfl rfl (fun _ => rfl) trivial

theorem Truthful.client (h : s.Truthful E garbage) (o : ByteOrder) (x : ClientStep) :
    (Threads.step o s x.event).Truthful E garbage := by
  cases x with
  | lookup i c => exact h.lookup i c
  | send i env => exact h.send i env
  | wait i => exact h.wait i
  | expire i => exact h.wakes (wakes_expire s i)
  | spurious i => exact h.wakes (wakes_spurious s i)
  | resume i => exact h.resume i
  | respond i => exact h.respond i

end Threads

/-! ## What the board sends -/

namespace Board

variable {o : ByteOrder} {env : Env} {ev : Evaluators} {b : Board}

/-- A result packet is read as the result that it was built from. -/
theorem resultPacket_read {l : RsRegisteredLambda FuncPtr} {r : Result} {pkt : Packet}
    (h : resultPacket o env l r = some pkt) (lenv : Env) :
    ∃ ret frees, Linux.readPacket o lenv pkt = .result l.id ret frees ∧
      r.Arrives lenv.undef ret := by
  have hread : ∀ (ev : Evaluators) (kind : LambdaKind), ev.result kind l.arg l.id = r →
      ∃ ret frees, Linux.readPacket o lenv pkt = .result l.id ret frees ∧
        r.Arrives lenv.undef ret := by
    rintro ev kind rfl
    by_cases hpacks : Packs ev l kind
    · obtain ⟨pkt', hpkt', harrives⟩ := resultPacket_arrives hpacks o env
      obtain rfl := Option.some.inj (h.symm.trans hpkt')
      exact harrives lenv
    · rw [resultPacket_none hpacks] at h
      cases h
  cases r with
  | int i => exact hread ⟨fun _ _ => i, fun _ _ => 0, fun _ _ => []⟩ .int rfl
  | double d => exact hread ⟨fun _ _ => 0, fun _ _ => d, fun _ _ => []⟩ .double rfl
  | string t => exact hread ⟨fun _ _ => 0, fun _ _ => 0, fun _ _ => t⟩ .string rfl

/-- A result is sent for the record of its id, if its type is right. -/
theorem sendResult_packet {id : LambdaId} {r : Result} {code : Int8} {sent : List Packet}
    (h : b.sendResult o env id r = some (code, sent)) :
    ∀ p ∈ sent, ∃ l, getRegisteredLambdaById b.registry id = some l ∧ r.kind.type = l.type ∧
      resultPacket o env l r = some p := by
  have hsend : ∀ (type : RsLambdaType) (packet : RsRegisteredLambda FuncPtr → Option Packet),
      sendResultLambda type packet b id = some (code, sent) →
      ∀ p ∈ sent, ∃ l, getRegisteredLambdaById b.registry id = some l ∧ type = l.type ∧
        packet l = some p := by
    intro type packet h p hp
    unfold sendResultLambda at h
    cases hget : getRegisteredLambdaById b.registry id with
    | none =>
      rw [hget] at h
      obtain ⟨-, rfl⟩ := Prod.mk.inj (Option.some.inj h)
      cases hp
    | some l =>
      rw [hget] at h
      dsimp only at h
      split_ifs at h with htype
      · obtain ⟨-, rfl⟩ := Prod.mk.inj (Option.some.inj h)
        cases hp
      · obtain ⟨pkt, hpkt, hout⟩ := Option.bind_eq_some_iff.mp h
        obtain ⟨-, rfl⟩ := Prod.mk.inj (Option.some.inj hout)
        rw [List.mem_singleton.mp hp]
        exact ⟨l, rfl, (not_not.mp htype).symm, hpkt⟩
      · obtain ⟨-, rfl⟩ := Prod.mk.inj (Option.some.inj h)
        cases hp
  cases r with
  | int i => exact hsend _ _ h
  | double d => exact hsend _ _ h
  | string t => exact hsend _ _ h

theorem sendResultTo_packet (hwf : b.registry.WF) {target : Target} {r : Result} {code : Int8}
    {sent : List Packet} (h : b.sendResultTo o env target r = some (code, sent)) :
    ∀ p ∈ sent, ∃ l, b.addressee target = some l ∧ r.kind.type = l.type ∧
      resultPacket o env l r = some p := by
  cases target with
  | id id => exact sendResult_packet h
  | name name =>
    intro p hp
    simp only [sendResultTo, sendResultByName] at h
    cases hname : getRegisteredLambdaByName b.registry name with
    | none =>
      rw [hname] at h
      obtain ⟨-, rfl⟩ := Prod.mk.inj (Option.some.inj h)
      cases hp
    | some l =>
      rw [hname] at h
      obtain ⟨m, hm, htype, hpkt⟩ := sendResult_packet h p hp
      rw [hwf.getById, (hwf.of_getByName hname).1] at hm
      obtain rfl := Option.some.inj hm
      exact ⟨l, hname, htype, hpkt⟩

theorem sendCallError_isError {id : LambdaId} {code : Int8} {served : Served}
    (h : sendCallError env b id code = some served) :
    served.invoked = none ∧ ∀ p ∈ served.sent, IsError p := by
  unfold sendCallError at h
  split_ifs at h
  · obtain ⟨pkt, hpkt, hread⟩ := Linux.readPacket_resultError env id code
    rw [hpkt] at h
    obtain rfl := Option.some.inj h
    refine ⟨rfl, fun p hp => ?_⟩
    rw [List.mem_singleton.mp hp]
    exact fun o env => ⟨id, code, hread o env⟩
  · obtain rfl := Option.some.inj h
    exact ⟨rfl, fun p hp => absurd hp List.not_mem_nil⟩

/-- A packet is answered with errors, or the lambda that it asks for, by target and type, is
evaluated and answered with its value. -/
theorem served_cases (hwf : b.registry.WF) {packet : Packet} {served : Served}
    (h : handleReceivedPacket o env ev b packet = some served) :
    (served.invoked = none ∧ ∀ p ∈ served.sent, IsError p) ∨
    ∃ target l r, readCall env packet = some (target, l.type) ∧ b.addressee target = some l ∧
      served.invoked = some l ∧ ev.produce l = some ⟨l, r⟩ ∧ r.kind.type = l.type ∧
      ∀ p ∈ served.sent, resultPacket o env l r = some p := by
  rw [handleReceivedPacket_callFor] at h
  cases hfor : b.callFor (.packet env packet) with
  | none =>
    rw [hfor] at h
    rw [← Option.some.inj h]
    exact Or.inl ⟨rfl, fun p hp => absurd hp List.not_mem_nil⟩
  | some asked =>
    rcases asked with ⟨kind, id⟩
    obtain ⟨target, hasks, hid⟩ := callFor_eq_some_iff.mp hfor
    simp only [hfor, call_eq, callLambda] at h
    have haddressee := addressee_of_resolve hwf hid
    cases hget : getRegisteredLambdaById b.registry id with
    | none =>
      simp only [hget, Option.bind_some, answer] at h
      exact Or.inl (sendCallError_isError h)
    | some l =>
      simp only [hget] at h
      split_ifs at h with htype harg
      · exact Or.inl (sendCallError_isError h)
      · cases h
      · obtain ⟨out, hout, hserved⟩ := Option.map_eq_some_iff.mp h
        rw [← hserved]
        have hlid : l.id = id :=
          UInt8.toNat_inj.mp (hwf.ids _ l ((hwf.getById id).symm.trans hget))
        have hltype : l.type = kind.type := not_not.mp htype
        refine Or.inr ⟨target, l, ev.result kind l.arg id, hltype ▸ hasks,
          haddressee.trans hget, rfl, ?_, ?_, fun p hp => ?_⟩
        · rw [Evaluators.produce, hltype, LambdaKind.ofType_type, ← hlid]
          cases kind <;> rfl
        · rw [hltype]
          cases kind <;> rfl
        · obtain ⟨m, hm, -, hpkt⟩ := sendResult_packet hout p hp
          rw [hget] at hm
          obtain rfl := Option.some.inj hm
          exact hpkt

/-- What an operation sends is taken for a registration, or ignored. -/
theorem operate_sends (hwf : b.registry.WF) (hup : b.rsSptStarted = true) {op : BoardOp}
    {b' : Board} {code : Int8} {sent : List Packet} (h : b.operate env op = some (b', code, sent)) :
    ∀ p ∈ sent, ∀ o lenv, Linux.readPacket o lenv p = .ignored ∨
      ∃ mem type cache, Linux.readPacket o lenv p = .registered mem type cache := by
  intro p hp o lenv
  cases op with
  | register kind name lambda cache =>
    rw [operate_register] at h
    rcases registerLambda_cases hwf env name lambda kind.type cache with
      ⟨-, res, -, heq⟩ | ⟨mem, -, hacc, -, sent', heq, hsends, hsilent⟩
    · rw [heq] at h
      obtain ⟨-, hrest⟩ := Prod.mk.inj (Option.some.inj h)
      obtain ⟨-, rfl⟩ := Prod.mk.inj hrest
      cases hp
    · rw [heq] at h
      obtain ⟨-, hrest⟩ := Prod.mk.inj (Option.some.inj h)
      obtain ⟨-, rfl⟩ := Prod.mk.inj hrest
      rcases lt_or_ge b.registry.lambdaCounter.toNat 128 with hlt | hge
      · obtain ⟨pkt, rfl, hpkt⟩ := hsends hlt hup
        obtain ⟨pkt', hpkt', hlen, htag, -⟩ :=
          registeredPacket_spec hacc.2.2.1 env kind.type cache
        obtain rfl := Option.some.inj (hpkt.symm.trans hpkt')
        rw [List.mem_singleton.mp hp]
        exact Or.inr ⟨_, _, _, Linux.readPacket_of_registered hlen htag⟩
      · rw [hsilent hge] at hp
        cases hp
  | unregister id =>
    rw [operate_unregister] at h
    cases hget : getRegisteredLambdaById b.registry id with
    | none =>
      simp only [unregisterLambda, hget, Option.some.injEq, Prod.mk.injEq] at h
      rw [← h.2.2] at hp
      cases hp
    | some l =>
      rw [unregisterLambda_of_live env hget hup] at h
      obtain ⟨pkt, hpkt, hout⟩ := Option.map_eq_some_iff.mp h
      obtain ⟨-, hrest⟩ := Prod.mk.inj hout
      obtain ⟨-, rfl⟩ := Prod.mk.inj hrest
      rw [List.mem_singleton.mp hp]
      exact Or.inl (Linux.readPacket_unregistered hpkt o lenv)

end Board

/-! ## The packets in flight -/

/-- What a packet on its way to Linux can be read as: nothing that takes a lambda away, and no
result but one that was produced. -/
structure Parcel.Honest (o : ByteOrder) (produced : List Product) (p : Parcel) : Prop where
  keeps : ∀ env id, Linux.readPacket o env p.packet ≠ .unregistered id
  result : ∀ env id ret frees, Linux.readPacket o env p.packet = .result id ret frees →
    ∃ product ∈ produced, product.lambda.id = id ∧ product.result.Arrives env.undef ret

namespace Parcel.Honest

variable {o : ByteOrder} {produced produced' : List Product} {p : Parcel}

theorem mono (h : p.Honest o produced) (hsub : produced ⊆ produced') :
    p.Honest o produced' where
  keeps := h.keeps
  result env id ret frees hread := by
    obtain ⟨product, hmem, hrest⟩ := h.result env id ret frees hread
    exact ⟨product, hsub hmem, hrest⟩

theorem of_operate {p : Packet} (h : ∀ o lenv, Linux.readPacket o lenv p = .ignored ∨
    ∃ mem type cache, Linux.readPacket o lenv p = .registered mem type cache) (origin : Origin) :
    Honest o produced ⟨p, origin⟩ where
  keeps env id hread := by
    rcases h o env with hr | ⟨_, _, _, hr⟩
    · exact Message.noConfusion (hr.symm.trans hread)
    · exact Message.noConfusion (hr.symm.trans hread)
  result env id ret frees hread := by
    rcases h o env with hr | ⟨_, _, _, hr⟩
    · exact Message.noConfusion (hr.symm.trans hread)
    · exact Message.noConfusion (hr.symm.trans hread)

theorem of_error {p : Packet} (h : IsError p) (origin : Origin) :
    Honest o produced ⟨p, origin⟩ where
  keeps env id hread := by
    obtain ⟨_, _, hr⟩ := h o env
    exact Message.noConfusion (hr.symm.trans hread)
  result env id ret frees hread := by
    obtain ⟨_, _, hr⟩ := h o env
    exact Message.noConfusion (hr.symm.trans hread)

theorem of_result {env : Env} {l : RsRegisteredLambda FuncPtr} {r : Result} {p : Packet}
    (h : Board.resultPacket o env l r = some p) (hmem : ⟨l, r⟩ ∈ produced) (origin : Origin) :
    Honest o produced ⟨p, origin⟩ where
  keeps lenv id hread := by
    obtain ⟨_, _, hr, -⟩ := Board.resultPacket_read h lenv
    exact Message.noConfusion (hr.symm.trans hread)
  result lenv id ret frees hread := by
    obtain ⟨_, _, hr, harrives⟩ := Board.resultPacket_read h lenv
    obtain ⟨rfl, rfl, -⟩ := Message.result.inj (hr.symm.trans hread)
    exact ⟨⟨l, r⟩, hmem, rfl, harrives⟩

end Parcel.Honest

namespace World

/-- The value is what the call state held when it was allocated, or a value of a lambda of the
board that stands in relation `R` to the record. -/
def Explained (R : RsRegisteredLambda FuncPtr → RsRegisteredLambda ArgPtr → Prop)
    (garbage : ArgPtr → RsLinuxRegisteredLambda) (produced : List Product)
    (l : RsRegisteredLambda ArgPtr) (ret : GenericLambdaReturn) : Prop :=
  ret = (garbage l.arg).ret ∨
    ∃ product ∈ produced, R product.lambda l ∧ ∃ undef, product.result.Arrives undef ret

variable {R : RsRegisteredLambda FuncPtr → RsRegisteredLambda ArgPtr → Prop}
  {garbage : ArgPtr → RsLinuxRegisteredLambda} {o : ByteOrder} {w w' : World}

theorem Explained.mono {produced produced' : List Product} (hsub : produced ⊆ produced')
    (l : RsRegisteredLambda ArgPtr) (ret : GenericLambdaReturn)
    (h : Explained R garbage produced l ret) : Explained R garbage produced' l ret := by
  rcases h with hret | ⟨product, hmem, hrest⟩
  · exact Or.inl hret
  · exact Or.inr ⟨product, hsub hmem, hrest⟩

structure Inv (o : ByteOrder) (R : RsRegisteredLambda FuncPtr → RsRegisteredLambda ArgPtr → Prop)
    (garbage : ArgPtr → RsLinuxRegisteredLambda) (w : World) : Prop where
  board : w.link.board.Sound
  up : w.link.board.rsSptStarted = true
  typed : ∀ product ∈ w.produced, product.result.kind.type = product.lambda.type
  parcels : ∀ p ∈ w.link.toLinux, p.Honest o w.produced
  threads : ∃ threads, w.threads = some threads ∧
    threads.Truthful (Explained R garbage w.produced) garbage

theorem Inv.start (o : ByteOrder)
    (R : RsRegisteredLambda FuncPtr → RsRegisteredLambda ArgPtr → Prop)
    (garbage : ArgPtr → RsLinuxRegisteredLambda) : (World.start garbage).Inv o R garbage where
  board := Board.Sound.empty true
  up := rfl
  typed _ h := absurd h List.not_mem_nil
  parcels _ h := absurd h List.not_mem_nil
  threads := ⟨_, rfl, Threads.Truthful.start _ garbage⟩

/-- The link changes, and Linux does not. -/
theorem Inv.withLink (h : w.Inv o R garbage) {link : Link} (hboard : link.board.Sound)
    (hup : link.board.rsSptStarted = true) (hlinux : link.linux = w.link.linux)
    {evaluated : List (RsRegisteredLambda FuncPtr)} {new : Option Product}
    (htyped : ∀ product, new = some product → product.result.kind.type = product.lambda.type)
    (hparcels : ∀ p ∈ link.toLinux,
      p ∈ w.link.toLinux ∨ p.Honest o (w.produced ++ new.toList)) :
    Inv o R garbage { w with link, evaluated, produced := w.produced ++ new.toList } where
  board := hboard
  up := hup
  typed product hmem := by
    rcases List.mem_append.mp hmem with hold | hnew
    · exact h.typed product hold
    · exact htyped product (Option.mem_toList.mp hnew)
  parcels p hp := by
    rcases hparcels p hp with hold | hnew
    · exact (h.parcels p hold).mono (List.subset_append_left _ _)
    · exact hnew
  threads := by
    obtain ⟨threads, hthreads, htruthful⟩ := h.threads
    refine ⟨threads, ?_, htruthful.mono (Explained.mono (List.subset_append_left _ _))⟩
    rw [← hthreads, World.threads, World.threads, hlinux]

/-- The packets in flight after more were posted. -/
theorem mem_post {s : Link} {origin : Origin} {sent : List Packet} {p : Parcel}
    (hp : p ∈ (s.post origin sent).toLinux) :
    p ∈ s.toLinux ∨ ∃ packet ∈ sent, p = ⟨packet, origin⟩ := by
  rcases List.mem_append.mp hp with hold | hnew
  · exact Or.inl hold
  · obtain ⟨packet, hmem, heq⟩ := List.mem_map.mp hnew
    exact Or.inr ⟨packet, hmem, heq.symm⟩

theorem Inv.operate (h : w.Inv o R garbage) {env : Env} {op : BoardOp} {link : Link}
    (hstep : w.link.operate env op = some link) : Inv o R garbage { w with link } := by
  obtain ⟨⟨board, code, sent⟩, hop, hlink⟩ := Option.bind_eq_some_iff.mp hstep
  obtain rfl := Option.some.inj hlink
  obtain ⟨hsound, hstarted⟩ := h.board.operate hop
  refine ⟨hsound, hstarted.trans h.up, h.typed, fun p hp => ?_, h.threads⟩
  rcases mem_post hp with hold | ⟨packet, hmem, rfl⟩
  · exact h.parcels p hold
  · exact .of_operate (Board.operate_sends h.board.wf h.up hop packet hmem) _

theorem Inv.send (h : w.Inv o R garbage) {env : Env} {target : Target} {result : Result}
    (hstep : w.send o env target result = some w') : w'.Inv o R garbage := by
  obtain ⟨⟨code, sent⟩, hsend, hstep⟩ := Option.bind_eq_some_iff.mp hstep
  obtain ⟨link, hlink, hw'⟩ := Option.bind_eq_some_iff.mp hstep
  obtain rfl := Option.some.inj hw'
  have hpost : link = w.link.post
      (.result (((w.link.board.addressee target).map RsRegisteredLambda.text).getD [])) sent := by
    rw [Link.send, hsend] at hlink
    exact (Option.some.inj hlink).symm
  have hpackets := Board.sendResultTo_packet h.board.wf hsend
  rw [hpost]
  apply h.withLink
  case hboard => exact h.board
  case hup => exact h.up
  case hlinux => rfl
  case htyped =>
    intro product hproduct
    obtain ⟨l, hl, rfl⟩ := Option.map_eq_some_iff.mp hproduct
    by_cases hnil : sent = []
    · rw [if_pos hnil] at hl
      cases hl
    · rw [if_neg hnil] at hl
      obtain ⟨packet, hmem⟩ := List.exists_mem_of_ne_nil sent hnil
      obtain ⟨m, hm, htype, -⟩ := hpackets packet hmem
      rw [Option.some.inj (hl.symm.trans hm)]
      exact htype
  case hparcels =>
    intro p hp
    rcases mem_post hp with hold | ⟨packet, hmem, rfl⟩
    · exact Or.inl hold
    · right
      obtain ⟨l, hl, -, hpacket⟩ := hpackets packet hmem
      refine .of_result hpacket (List.mem_append_right _ ?_) _
      rw [if_neg (List.ne_nil_of_mem hmem), hl]
      exact List.mem_singleton.mpr rfl

theorem Inv.serve (h : w.Inv o R garbage) {env : Env} {ev : Evaluators}
    (hstep : w.serve o env ev = some w') : w'.Inv o R garbage := by
  unfold World.serve at hstep
  cases hqueue : w.link.toBoard with
  | nil =>
    rw [hqueue] at hstep
    rwa [← Option.some.inj hstep]
  | cons r rest =>
    simp only [hqueue] at hstep
    obtain ⟨served, hserved, hstep⟩ := Option.bind_eq_some_iff.mp hstep
    obtain ⟨link, hlink, hw'⟩ := Option.bind_eq_some_iff.mp hstep
    obtain rfl := Option.some.inj hw'
    simp only [Link.serve, hqueue, hserved, Option.bind_eq_bind, Option.bind_some,
      Option.pure_def, Option.some.injEq] at hlink
    have hcases := Board.served_cases h.board.wf hserved
    rw [← hlink]
    apply h.withLink
    case hboard => exact h.board
    case hup => exact h.up
    case hlinux => rfl
    case htyped =>
      intro product hproduct
      rcases hcases with ⟨hnone, -⟩ | ⟨target, l, r, -, -, hinvoked, hproduce, htype, -⟩
      · rw [hnone] at hproduct
        cases hproduct
      · rw [hinvoked, Option.bind_some, hproduce] at hproduct
        rwa [← Option.some.inj hproduct]
    case hparcels =>
      intro p hp
      rcases mem_post hp with hold | ⟨packet, hmem, rfl⟩
      · exact Or.inl hold
      · right
        rcases hcases with ⟨-, herror⟩ | ⟨target, l, r, -, -, hinvoked, hproduce, -, hsent⟩
        · exact .of_error (herror packet hmem) _
        · refine .of_result (hsent packet hmem) (List.mem_append_right _ ?_) _
          rw [hinvoked, Option.bind_some, hproduce]
          exact List.mem_singleton.mpr rfl

theorem Inv.loseToLinux (h : w.Inv o R garbage) (i : ℕ) :
    Inv o R garbage { w with link := w.link.loseToLinux i } :=
  ⟨h.board, h.up, h.typed, fun p hp => h.parcels p ((List.eraseIdx_sublist _ _).subset hp),
    h.threads⟩

theorem Inv.loseToBoard (h : w.Inv o R garbage) (i : ℕ) :
    Inv o R garbage { w with link := w.link.loseToBoard i } :=
  ⟨h.board, h.up, h.typed, h.parcels, h.threads⟩

theorem threads_eq_some {threads : Threads} (h : w.threads = some threads) :
    w.link.linux = some threads.linux ∧ threads.holder = w.holder ∧
      threads.clients = w.clients ∧ threads.log = w.accesses := by
  obtain ⟨linux, hlinux, rfl⟩ := Option.map_eq_some_iff.mp h
  exact ⟨hlinux, rfl, rfl, rfl⟩

theorem Inv.client (h : w.Inv o R garbage) (x : ClientStep) : (w.client o x).Inv o R garbage := by
  obtain ⟨threads, hthreads, htruthful⟩ := h.threads
  simp only [World.client, hthreads]
  exact ⟨h.board, h.up, h.typed, h.parcels, _, rfl, htruthful.client o x⟩

/-- The values that are under way are related to the records that they may go to. -/
def Brings (R : RsRegisteredLambda FuncPtr → RsRegisteredLambda ArgPtr → Prop) (w : World) : Prop :=
  ∀ linux i l, w.link.linux = some linux → linux.registry.slot i = some l →
    ∀ product ∈ w.produced, product.lambda.id = l.id → R product.lambda l

theorem deliver_linux {linux : Linux} (hlinux : w.link.linux = some linux) {p : Parcel}
    {rest : List Parcel} (hqueue : w.link.toLinux = p :: rest) (o : ByteOrder) (env : Env) :
    (w.link.deliver o env).linux = some (Linux.receive o linux ⟨env, p.packet⟩) ∧
      (w.link.deliver o env).board = w.link.board ∧
      (w.link.deliver o env).toLinux = rest := by
  rw [Link.deliver, hqueue]
  simp only [Link.arrive, hlinux, and_self]

theorem Inv.deliver (h : w.Inv o R garbage) (hR : Brings R w) (env : Env) :
    (w.deliver o env).Inv o R garbage := by
  obtain ⟨threads, hthreads, htruthful⟩ := h.threads
  obtain ⟨hlinux, hholder, -, hlog⟩ := threads_eq_some hthreads
  unfold World.deliver
  cases hqueue : w.link.toLinux with
  | nil =>
    simp only [hthreads]
    exact h
  | cons p rest =>
    simp only [hthreads]
    have hp := h.parcels p (hqueue ▸ List.mem_cons_self)
    obtain ⟨hlinux', hboard, htoLinux⟩ := deliver_linux hlinux hqueue o env
    refine ⟨hboard ▸ h.board, hboard ▸ h.up, h.typed, fun q hq => ?_,
      threads.packet o ⟨env, p.packet⟩, ?_,
      htruthful.packet (fun _ => Or.inl rfl) ⟨hp.keeps env, fun id ret frees l hread hget => ?_⟩⟩
    · rw [htoLinux] at hq
      exact h.parcels q (hqueue ▸ List.mem_cons_of_mem _ hq)
    · simp only [World.threads, hlinux', Option.map_some, ← hholder, ← hlog]
      rfl
    · obtain ⟨product, hmem, hid, harrives⟩ := hp.result env id ret frees hread
      have hslot := (htruthful.safe.linux.wf.getById id).symm.trans hget
      have hlid : l.id = id := UInt8.toNat_inj.mp (htruthful.safe.linux.wf.ids _ l hslot)
      exact Or.inr ⟨product, hmem, hR _ _ l hlinux hslot product hmem (hid.trans hlid.symm),
        env.undef, harrives⟩

theorem Inv.step (h : w.Inv o R garbage) {e : WorldEvent}
    (hR : ∀ env, e = .deliver env → Brings R w) (hstep : World.step o (some w) e = some w') :
    w'.Inv o R garbage := by
  cases e with
  | operate env op =>
    obtain ⟨link, hlink, hw'⟩ := Option.bind_eq_some_iff.mp hstep
    exact Option.some.inj hw' ▸ h.operate hlink
  | send env target result => exact h.send hstep
  | client x => exact Option.some.inj hstep ▸ h.client x
  | deliver env => exact Option.some.inj hstep ▸ h.deliver (hR env rfl) env
  | serve env ev => exact h.serve hstep
  | loseToLinux i => exact Option.some.inj hstep ▸ h.loseToLinux i
  | loseToBoard i => exact Option.some.inj hstep ▸ h.loseToBoard i

theorem inv_of_run {es : List WorldEvent}
    (hrun : Runs.run (step o) (some (start garbage)) es = some w) :
    w.Inv o (fun m l => m.id = l.id) garbage := by
  have hstep : ∀ (c : Option World) (e : WorldEvent),
      (∀ w, c = some w → w.Inv o (fun m l => m.id = l.id) garbage) →
      ∀ w, step o c e = some w → w.Inv o (fun m l => m.id = l.id) garbage := by
    intro c e hinv w hw
    cases c with
    | none => cases hw
    | some w0 => exact (hinv w0 rfl).step (fun _ _ _ _ _ _ _ _ _ hid => hid) hw
  have hstart : ∀ w, some (start garbage) = some w → w.Inv o (fun m l => m.id = l.id) garbage :=
    fun w hw => Option.some.inj hw ▸ Inv.start o _ garbage
  exact Runs.run_inv_all hstep es hstart w hrun

/-- In every run: no call runs into undefined behaviour; and a value that a call hands out is,
unless nothing was stored yet, one that the board produced, in its type, for a lambda of the id
that the call's record has. -/
theorem values_are_the_boards {es : List WorldEvent}
    (hrun : Runs.run (step o) (some (start garbage)) es = some w) (i : ℕ) :
    (∀ answered, w.clients i ≠ .undefined answered) ∧
    ∀ r ret, w.clients i = .returned r → r.written = some ret →
      ∃ l, r.lambda = some l ∧ l.IsFor r.call ∧ (ret = (garbage l.arg).ret ∨
        ∃ product ∈ w.produced, product.lambda.id = l.id ∧
          product.result.kind.type = product.lambda.type ∧
          ∃ undef, product.result.Arrives undef ret) := by
  have h := inv_of_run hrun
  obtain ⟨threads, hthreads, htruthful⟩ := h.threads
  obtain ⟨-, -, hclients, -⟩ := threads_eq_some hthreads
  have hphase := htruthful.clients i
  rw [hclients] at hphase
  refine ⟨fun answered heq => ?_, fun r ret heq hret => ?_⟩
  · rw [heq] at hphase
    exact hphase
  · rw [heq] at hphase
    obtain ⟨l, hl, hfor, hvalue⟩ := hphase ret hret
    refine ⟨l, hl, hfor, hvalue.imp_right ?_⟩
    rintro ⟨product, hmem, hid, harrives⟩
    exact ⟨product, hmem, hid, h.typed product hmem, harrives⟩

/-- `"a"` is registered, called by its name and answered with 7. -/
def answersSeven : List WorldEvent :=
  [.operate {} (.register .int [97] 1 RS_CACHE_NO_CACHE), .deliver {},
    .client (.lookup 0 (.byName [97] RS_LAMBDA_INT)), .client (.send 0 {}), .client (.wait 0),
    .serve {} Link.sevens, .deliver {}, .client (.resume 0)]

theorem run_answersSeven :
    ∃ w r, Runs.run (step .little) (some (start zeroed)) answersSeven = some w ∧
      w.clients 0 = .returned r ∧ r.written = some (.retI 7) :=
  ⟨_, _, rfl, rfl, rfl⟩

theorem values_are_the_boards_seven :
    ∃ w r, Runs.run (step .little) (some (start zeroed)) answersSeven = some w ∧
      w.clients 0 = .returned r ∧ r.written = some (.retI 7) ∧
      ∃ l, r.lambda = some l ∧ l.IsFor r.call ∧ (.retI 7 = (zeroed l.arg).ret ∨
        ∃ product ∈ w.produced, product.lambda.id = l.id ∧
          product.result.kind.type = product.lambda.type ∧
          ∃ undef, product.result.Arrives undef (.retI 7)) := by
  obtain ⟨w, r, hw, hr, hret⟩ := run_answersSeven
  exact ⟨w, r, hw, hr, hret, (values_are_the_boards hw 0).2 r _ hr hret⟩

end World

end RS
