import Riotsensors.Sanity.Packets
import Riotsensors.Sanity.Handler

/-! Runs of the Linux process: where a cached result comes from, and what a call
leaves behind. -/

namespace RS

open CMem

namespace Linux

theorem brk_receive_le (o : ByteOrder) (s : Linux) (d : Delivery) :
    s.brk ≤ (receive o s d).brk := by
  rw [receive_eq]
  exact brk_act_le ..

theorem Inv.receiveAll {o : ByteOrder} {s : Linux} (h : s.Inv) (ds : List Delivery) :
    (receiveAll o s ds).Inv :=
  Runs.run_inv_all (fun _ d hs => hs.receive d) ds h

theorem brk_receiveAll_le (o : ByteOrder) (s : Linux) (ds : List Delivery) :
    s.brk ≤ (receiveAll o s ds).brk := by
  induction ds generalizing s with
  | nil => exact le_rfl
  | cons d ds ih => exact (brk_receive_le o s d).trans (ih _)

/-- What one packet does to a call state: it delivers a result to it, or leaves what
was cached there. -/
theorem receive_heap {s : Linux} {p : ArgPtr} (hp : p < s.brk) (o : ByteOrder) (d : Delivery) :
    (∃ ret, delivered o s d = some (p, ret) ∧
      (receive o s d).heap p = ⟨true, RS_CALL_SUCCESS, ret⟩) ∨
    ((∀ ret, delivered o s d ≠ some (p, ret)) ∧
      ((receive o s d).heap p).dataCached = (s.heap p).dataCached ∧
      ((receive o s d).heap p).ret = (s.heap p).ret) := by
  rw [receive_eq]
  rcases act_heap_cases hp d.env.heap (readPacket o d.env d.packet) with
    ⟨id, ret, frees, l, hmsg, hget, harg, hheap, -⟩ | ⟨id, code, l, hmsg, -, -, hheap, -⟩ |
    ⟨hheap, -, hother⟩
  · exact Or.inl ⟨ret, by simp [delivered, hmsg, hget, harg], hheap⟩
  · refine Or.inr ⟨fun ret => by simp [delivered, hmsg], ?_, ?_⟩
    · rw [hheap]
    · rw [hheap]
  · refine Or.inr ⟨fun ret hdel => ?_, by rw [hheap], by rw [hheap]⟩
    unfold delivered at hdel
    split at hdel
    next id ret' frees hmsg =>
      obtain ⟨l, hget, hl⟩ := Option.map_eq_some_iff.mp hdel
      have htarget : (readPacket o d.env d.packet).target = some id := by rw [hmsg]; rfl
      have hun := hother id l htarget hget (Prod.mk.inj hl).1
      rw [hmsg] at hun
      cases hun
    next => cases hdel

/-- After a sequence of packets a call state holds the last result delivered to it,
or, if there was none, what it held before. -/
theorem receiveAll_heap {s : Linux} {p : ArgPtr} (hp : p < s.brk) (o : ByteOrder)
    (ds : List Delivery) :
    ((receiveAll o s ds).heap p).dataCached = true ∧
        (p, ((receiveAll o s ds).heap p).ret) ∈ deliveredAll o s ds ∨
    ((∀ ret, (p, ret) ∉ deliveredAll o s ds) ∧
      ((receiveAll o s ds).heap p).dataCached = (s.heap p).dataCached ∧
      ((receiveAll o s ds).heap p).ret = (s.heap p).ret) := by
  induction ds generalizing s with
  | nil => exact Or.inr ⟨fun ret => List.not_mem_nil, rfl, rfl⟩
  | cons d ds ih =>
    have hstep := receive_heap hp o d
    change ((receiveAll o (receive o s d) ds).heap p).dataCached = true ∧ _ ∨ _
    rcases ih (hp.trans_le (brk_receive_le o s d)) with ⟨hcached, hmem⟩ | ⟨hnone, hcached, hret⟩
    · exact Or.inl ⟨hcached, List.mem_append_right _ hmem⟩
    · rcases hstep with ⟨ret, hdel, hheap⟩ | ⟨hno, hcached', hret'⟩
      · refine Or.inl ⟨?_, List.mem_append_left _ ?_⟩
        · rw [hcached, hheap]
        · rw [hdel, Option.mem_toList]
          change some (p, ret) = some (p, ((receiveAll o (receive o s d) ds).heap p).ret)
          rw [hret, hheap]
      · refine Or.inr ⟨fun ret hmem => ?_, hcached.trans hcached', hret.trans hret'⟩
        rcases List.mem_append.mp hmem with hnow | hlater
        · exact hno ret (Option.mem_toList.mp hnow)
        · exact hnone ret hlater

/-! ## Calls -/

theorem call_eq (o : ByteOrder) (env : Env) (s : Linux) (c : Call) (w : Wait) :
    call o env s c w = callLambda o s (s.found c) c.expectedType (callPacket env c) w := by
  cases c <;> rfl

theorem Inv.slot_of_found {s : Linux} (h : s.Inv) {c : Call} {l : RsRegisteredLambda ArgPtr}
    (hf : s.found c = some l) : s.registry.slot l.id.toNat = some l := by
  cases c with
  | byId id expectedType =>
    have hslot : s.registry.slot id.toNat = some l := (h.wf.getById id).symm.trans hf
    rw [h.wf.ids _ _ hslot, hslot]
  | byName name expectedType => exact (h.wf.of_getByName hf).1

/-- The call packet of a lambda that is found stays inside its object. -/
theorem Inv.callPacket_exists {s : Linux} (h : s.Inv) {c : Call} {l : RsRegisteredLambda ArgPtr}
    (hf : s.found c = some l) (env : Env) : ∃ packet, callPacket env c = some packet := by
  cases c with
  | byId id expectedType =>
    obtain ⟨packet, hpacket, -⟩ := callByIdPacket_spec env id expectedType
    exact ⟨packet, hpacket⟩
  | byName name expectedType =>
    obtain ⟨hslot, htext⟩ := h.wf.of_getByName hf
    have hshort := h.short _ _ hslot
    change l.text.length ≤ _ at hshort
    rw [htext] at hshort
    obtain ⟨packet, hpacket, -⟩ := callByNamePacket_spec hshort env expectedType
    exact ⟨packet, hpacket⟩

theorem waitsOn_eq_some {s : Linux} {c : Call} {l : RsRegisteredLambda ArgPtr} :
    s.waitsOn c = some l ↔
      s.found c = some l ∧ l.type = c.expectedType ∧ (checkLambdaCache s l).1 = 0 := by
  rw [waitsOn, Option.filter_eq_some_iff]
  simp

/-- The cache check lets a call go on, answers it with the cached value, or refuses it. -/
theorem checkLambdaCache_cases (s : Linux) (l : RsRegisteredLambda ArgPtr) :
    checkLambdaCache s l = (RS_CALL_SUCCESS, none) ∨
    (checkLambdaCache s l = (RS_CALL_CACHE, some (s.heap l.arg).ret) ∧
      (s.heap l.arg).dataCached = true) ∨
    checkLambdaCache s l = (RS_CALL_CACHE_EMPTY, none) := by
  unfold checkLambdaCache
  cases hcached : (s.heap l.arg).dataCached <;> split_ifs <;> simp [hcached]

/-- A call that does not wait changes nothing; it answers with an error code, or with
the cached value. -/
theorem call_of_not_waiting {s : Linux} {c : Call} (h : s.waitsOn c = none) (o : ByteOrder)
    (env : Env) (w : Wait) :
    ∃ code written, call o env s c w = some ⟨s, [], code, written⟩ ∧
      ((code < 0 ∧ written = none ∧ ∀ l, s.found c = some l → l.type = c.expectedType →
          (checkLambdaCache s l).2 = none) ∨
        ∃ l, s.found c = some l ∧ l.type = c.expectedType ∧ code = RS_CALL_CACHE ∧
          written = some (s.heap l.arg).ret ∧ (s.heap l.arg).dataCached = true ∧
          (checkLambdaCache s l).2 = written) := by
  rw [call_eq]
  unfold callLambda
  cases hf : s.found c with
  | none => exact ⟨_, _, rfl, Or.inl ⟨by decide, rfl, fun l hl => by cases hl⟩⟩
  | some l =>
    by_cases htype : l.type = c.expectedType
    · have hcheck : (checkLambdaCache s l).1 ≠ 0 := by
        intro h0
        rw [waitsOn_eq_some.mpr ⟨hf, htype, h0⟩] at h
        cases h
      simp only [ne_eq, htype, not_true_eq_false, if_false, if_pos hcheck]
      refine ⟨_, _, rfl, ?_⟩
      rcases checkLambdaCache_cases s l with hgo | ⟨hhit, hcached⟩ | hempty
      · rw [hgo] at hcheck
        exact absurd rfl hcheck
      · exact Or.inr ⟨l, rfl, htype, by rw [hhit], by rw [hhit], hcached, rfl⟩
      · refine Or.inl ⟨by rw [hempty]; decide, by rw [hempty], fun l' hl' _ => ?_⟩
        rw [← Option.some.inj hl', hempty]
    · simp only [if_pos htype]
      refine ⟨_, _, rfl, Or.inl ⟨by decide, rfl, fun l' hl' htype' => ?_⟩⟩
      rw [← Option.some.inj hl'] at htype'
      exact absurd htype' htype

/-- A call that waits sends its packet and answers from the wait. -/
theorem Inv.call_of_waiting {s : Linux} (h : s.Inv) {c : Call} {l : RsRegisteredLambda ArgPtr}
    (hw : s.waitsOn c = some l) (o : ByteOrder) (env : Env) (w : Wait) :
    ∃ packet, callPacket env c = some packet ∧
      call o env s c w = waitLambdaResult o s l w [packet] := by
  obtain ⟨hf, htype, hcheck⟩ := waitsOn_eq_some.mp hw
  obtain ⟨packet, hpacket⟩ := h.callPacket_exists hf env
  refine ⟨packet, hpacket, ?_⟩
  rw [call_eq]
  unfold callLambda
  simp only [hf, ne_eq, htype, not_true_eq_false, if_false, hcheck, hpacket, Option.bind_eq_bind,
    Option.bind_some]

/-! ## The end of a wait -/

/-- The packet that wakes the caller is the first that broadcasts on its record. -/
theorem firstWaker_spec {o : ByteOrder} {p : ArgPtr} {s : Linux} {ds : List Delivery} {d : Delivery}
    (h : firstWaker o p s ds = some d) :
    ∃ pre post, ds = pre ++ d :: post ∧
      (handleReceivedPacket o d.env (receiveAll o s pre) d.packet).broadcast = some p := by
  induction ds generalizing s with
  | nil => cases h
  | cons e ds ih =>
    rw [firstWaker] at h
    split_ifs at h with hbroadcast
    · obtain rfl := Option.some.inj h
      exact ⟨[], ds, rfl, hbroadcast⟩
    · obtain ⟨pre, post, rfl, hwake⟩ := ih h
      exact ⟨e :: pre, post, rfl, hwake⟩

/-- Whatever broadcasts on a call state is an error for it or delivers a result to it. -/
theorem delivered_of_broadcast {o : ByteOrder} {s : Linux} {p : ArgPtr} (hp : p < s.brk)
    {d : Delivery} (h : (handleReceivedPacket o d.env s d.packet).broadcast = some p) :
    (∃ id code, readPacket o d.env d.packet = .error id code) ∨
      ∃ ret, delivered o s d = some (p, ret) := by
  rw [handleReceivedPacket_eq] at h
  rcases act_heap_cases hp d.env.heap (readPacket o d.env d.packet) with
    ⟨id, ret, frees, l, hmsg, hget, harg, -, -⟩ | ⟨id, code, l, hmsg, -⟩ | ⟨-, hquiet, -⟩
  · exact Or.inr ⟨ret, by simp [delivered, hmsg, hget, harg]⟩
  · exact Or.inl ⟨id, code, hmsg⟩
  · exact absurd h hquiet

theorem deliveredAll_append (o : ByteOrder) (s : Linux) (ds es : List Delivery) :
    deliveredAll o s (ds ++ es) = deliveredAll o s ds ++ deliveredAll o (receiveAll o s ds) es := by
  induction ds generalizing s with
  | nil => rfl
  | cons d ds ih =>
    simp only [List.cons_append, deliveredAll, ih, List.append_assoc]
    rfl

/-- A wait that a result ended has had a result delivered. -/
theorem exists_delivered_of_woken {o : ByteOrder} {s : Linux} {p : ArgPtr} (hp : p < s.brk)
    {w : Wait} {d : Delivery} (h : ending o p s w = .woken d)
    (hresult : ∀ id code, readPacket o d.env d.packet ≠ .error id code) :
    ∃ ret, (p, ret) ∈ deliveredAll o s w.packets := by
  unfold ending at h
  split at h
  next d' hwaker =>
    obtain rfl : d' = d := Ending.woken.inj h
    obtain ⟨pre, post, hsplit, hwake⟩ := firstWaker_spec hwaker
    rcases delivered_of_broadcast (hp.trans_le (brk_receiveAll_le o s pre)) hwake with
      ⟨id, code, herr⟩ | ⟨ret, hdel⟩
    · exact absurd herr (hresult id code)
    · refine ⟨ret, ?_⟩
      rw [Wait.packets, hsplit, deliveredAll_append, deliveredAll_append, deliveredAll, hdel]
      simp
  next => split_ifs at h

/-- What a timed out call is to answer: by the cache policy and the cached value. -/
def timeoutAnswer (cache : RsCacheType) (arg : RsLinuxRegisteredLambda) :
    Int8 × Option GenericLambdaReturn :=
  if cache = RS_CACHE_ON_TIMEOUT then
    if arg.dataCached then (RS_CALL_CACHE_TIMEOUT, some arg.ret)
    else (RS_CALL_CACHE_TIMEOUT_EMPTY, none)
  else (RS_CALL_TIMEOUT, none)

/-- How a wait goes on: with a pending error, and otherwise, where the record is still there,
by the cache policy or with success. -/
theorem afterWait_eq (s : Linux) (l : RsRegisteredLambda ArgPtr) (timedOut : Bool) :
    s.afterWait l timedOut =
      if timedOut = true ∧ (s.heap l.arg).lastCallError ≠ 0 then
        some (s.setArg l.arg { s.heap l.arg with lastCallError := 0 },
          (s.heap l.arg).lastCallError, none)
      else if s.entry l = none then none
      else if timedOut = true then some (s, timeoutAnswer l.cache (s.heap l.arg))
      else some (s, RS_CALL_SUCCESS, some (s.heap l.arg).ret) := by
  unfold afterWait timeoutAnswer
  simp only [Option.isNone_iff_eq_none]
  cases timedOut with
  | false => simp
  | true =>
    simp only [if_true, true_and]
    split_ifs <;> rfl

/-- A wait does not go on once its record is gone, but for a pending error. -/
theorem afterWait_eq_none_iff {s : Linux} {l : RsRegisteredLambda ArgPtr} {timedOut : Bool} :
    s.afterWait l timedOut = none ↔
      s.entry l = none ∧ (timedOut = true → (s.heap l.arg).lastCallError = 0) := by
  rw [afterWait_eq]
  by_cases herror : timedOut = true ∧ (s.heap l.arg).lastCallError ≠ 0
  · rw [if_pos herror]
    exact iff_of_false nofun fun h => herror.2 (h.2 herror.1)
  · have hpending : timedOut = true → (s.heap l.arg).lastCallError = 0 := fun ht =>
      not_not.mp fun hne => herror ⟨ht, hne⟩
    rw [if_neg herror, and_iff_left hpending]
    split_ifs with hentry <;> simp [hentry]

section Wait

variable {o : ByteOrder} {s : Linux} {l : RsRegisteredLambda ArgPtr} {w : Wait}
  {sent : List Packet}

theorem timedWait_eq_none_iff : timedWait o s l w = none ↔
    ending o l.arg s w = .timedOut ∧ (receiveAll o s w.blocked).entry l = none := by
  unfold timedWait
  cases ending o l.arg s w with
  | timedOut => simp
  | _ => simp

theorem timedWait_eq_true_iff : timedWait o s l w = some true ↔
    ending o l.arg s w = .timedOut ∧ (receiveAll o s w.blocked).entry l ≠ none := by
  unfold timedWait
  cases ending o l.arg s w with
  | timedOut => simp
  | _ => simp

theorem timedWait_eq_false_iff :
    timedWait o s l w = some false ↔ ending o l.arg s w ≠ .timedOut := by
  unfold timedWait
  cases ending o l.arg s w with
  | timedOut => simp
  | _ => simp

theorem waitLambdaResult_of_destroyed (h : timedWait o s l w = none) :
    waitLambdaResult o s l w sent = none := by
  rw [waitLambdaResult, h]
  rfl

/-- The blocking call's wait is the packets it meets and what follows. -/
theorem waitLambdaResult_of_timedWait {timedOut : Bool} (h : timedWait o s l w = some timedOut) :
    waitLambdaResult o s l w sent =
      ((receiveAll o s w.packets).afterWait l timedOut).map fun after =>
        ⟨after.1, sent, after.2.1, after.2.2⟩ := by
  simp only [waitLambdaResult, h, Option.bind_eq_bind, Option.bind_some]
  cases (receiveAll o s w.packets).afterWait l timedOut with
  | none => rfl
  | some after => rfl

/-- A call that did not time out reads its record. -/
theorem waitLambdaResult_of_freed
    (h : (receiveAll o s w.packets).entry l = none) (hend : ending o l.arg s w ≠ .timedOut) :
    waitLambdaResult o s l w sent = none := by
  rw [waitLambdaResult_of_timedWait (timedWait_eq_false_iff.mpr hend), afterWait_eq,
    if_neg (fun h => Bool.false_ne_true h.1), if_pos h]
  rfl

/-- Woken or not, a call that did not time out reports success. -/
theorem waitLambdaResult_of_answered
    (hlive : (receiveAll o s w.packets).entry l ≠ none) (hend : ending o l.arg s w ≠ .timedOut) :
    waitLambdaResult o s l w sent =
      some ⟨receiveAll o s w.packets, sent, RS_CALL_SUCCESS,
        some ((receiveAll o s w.packets).heap l.arg).ret⟩ := by
  rw [waitLambdaResult_of_timedWait (timedWait_eq_false_iff.mpr hend), afterWait_eq,
    if_neg (fun h => Bool.false_ne_true h.1), if_neg hlive, if_neg Bool.false_ne_true]
  rfl

theorem waitLambdaResult_of_timedOut
    (hblocked : (receiveAll o s w.blocked).entry l ≠ none) (hend : ending o l.arg s w = .timedOut) :
    waitLambdaResult o s l w sent =
      if ((receiveAll o s w.packets).heap l.arg).lastCallError ≠ 0 then
        some ⟨(receiveAll o s w.packets).setArg l.arg
            { (receiveAll o s w.packets).heap l.arg with lastCallError := 0 }, sent,
          ((receiveAll o s w.packets).heap l.arg).lastCallError, none⟩
      else if (receiveAll o s w.packets).entry l = none then none
      else
        some ⟨receiveAll o s w.packets, sent,
          (timeoutAnswer l.cache ((receiveAll o s w.packets).heap l.arg)).1,
          (timeoutAnswer l.cache ((receiveAll o s w.packets).heap l.arg)).2⟩ := by
  rw [waitLambdaResult_of_timedWait (timedWait_eq_true_iff.mpr ⟨hend, hblocked⟩), afterWait_eq]
  simp only [true_and, if_true]
  split_ifs <;> rfl

/-- A wait that returns went on with the state its packets left. -/
theorem afterWait_of_waitLambdaResult {out : CallOutcome}
    (h : waitLambdaResult o s l w sent = some out) :
    out.sent = sent ∧ ∃ timedOut, timedWait o s l w = some timedOut ∧
      (receiveAll o s w.packets).afterWait l timedOut =
        some (out.state, out.code, out.written) := by
  cases hwait : timedWait o s l w with
  | none =>
    rw [waitLambdaResult_of_destroyed hwait] at h
    cases h
  | some timedOut =>
    rw [waitLambdaResult_of_timedWait hwait] at h
    obtain ⟨after, hafter, rfl⟩ := Option.map_eq_some_iff.mp h
    exact ⟨rfl, timedOut, rfl, hafter⟩

/-- Whatever a wait returns, the packet was sent before it. -/
theorem waitLambdaResult_sent {out : CallOutcome} (h : waitLambdaResult o s l w sent = some out) :
    out.sent = sent :=
  (afterWait_of_waitLambdaResult h).1

end Wait

/-- What a whole call sends is what it sends before it waits. -/
theorem Inv.request_eq_sent {s : Linux} (h : s.Inv) {o : ByteOrder} {env : Env} {c : Call}
    {w : Wait} {out : CallOutcome} (hcall : call o env s c w = some out) :
    s.request env c = some out.sent := by
  cases hw : s.waitsOn c with
  | none =>
    obtain ⟨code, written, hout, -⟩ := call_of_not_waiting hw o env w
    obtain rfl := Option.some.inj (hcall.symm.trans hout)
    rw [Linux.request, hw]
  | some l =>
    obtain ⟨packet, hpacket, hout⟩ := h.call_of_waiting hw o env w
    rw [hout] at hcall
    rw [Linux.request, hw, waitLambdaResult_sent hcall, hpacket]
    rfl

/-- The state that a call answers from: the packets of its wait are handled, if it
waits. -/
def duringCall (o : ByteOrder) (s : Linux) (c : Call) (w : Wait) : Linux :=
  if (s.waitsOn c).isSome then receiveAll o s w.packets else s

/-! ## States that differ in error codes only -/

/-- The same lambdas with the same cached results. -/
structure Alike (s t : Linux) : Prop where
  registry : s.registry = t.registry
  brk : s.brk = t.brk
  cached : ∀ p < s.brk, (s.heap p).dataCached = (t.heap p).dataCached
  ret : ∀ p < s.brk, (s.heap p).dataCached = true → (s.heap p).ret = (t.heap p).ret

theorem Alike.refl (s : Linux) : s.Alike s := ⟨rfl, rfl, fun _ _ => rfl, fun _ _ _ => rfl⟩

theorem Alike.symm {s t : Linux} (h : s.Alike t) : t.Alike s where
  registry := h.registry.symm
  brk := h.brk.symm
  cached p hp := (h.cached p (h.brk ▸ hp)).symm
  ret p hp hc := (h.ret p (h.brk ▸ hp) ((h.cached p (h.brk ▸ hp)).trans hc)).symm

theorem Alike.trans {s t u : Linux} (h : s.Alike t) (h' : t.Alike u) : s.Alike u where
  registry := h.registry.trans h'.registry
  brk := h.brk.trans h'.brk
  cached p hp := (h.cached p hp).trans (h'.cached p (h.brk ▸ hp))
  ret p hp hc := (h.ret p hp hc).trans (h'.ret p (h.brk ▸ hp) ((h.cached p hp).symm.trans hc))

/-- Resetting an error code changes no result. -/
theorem alike_setError (s : Linux) (p : ArgPtr) (code : Int8) :
    (s.setArg p { s.heap p with lastCallError := code }).Alike s where
  registry := rfl
  brk := rfl
  cached q _ := by
    by_cases hq : q = p
    · simp [setArg, hq]
    · simp [setArg, Function.update_of_ne hq]
  ret q _ _ := by
    by_cases hq : q = p
    · simp [setArg, hq]
    · simp [setArg, Function.update_of_ne hq]

theorem Alike.inv {s t : Linux} (h : s.Alike t) (ht : t.Inv) : s.Inv :=
  ht.anti (h.registry ▸ ht.wf) h.brk.ge fun _ _ hl => h.registry ▸ hl

/-- What follows a wait resets an error code at most. -/
theorem afterWait_alike {s s' : Linux} {l : RsRegisteredLambda ArgPtr} {timedOut : Bool}
    {code : Int8} {written : Option GenericLambdaReturn}
    (h : s.afterWait l timedOut = some (s', code, written)) : s'.Alike s := by
  rw [afterWait_eq] at h
  split_ifs at h
  · obtain rfl := (Prod.mk.inj (Option.some.inj h)).1
    exact alike_setError ..
  · obtain rfl := (Prod.mk.inj (Option.some.inj h)).1
    exact Alike.refl _
  · obtain rfl := (Prod.mk.inj (Option.some.inj h)).1
    exact Alike.refl _

/-- Whatever a wait returns, its state is the one its packets left. -/
theorem waitLambdaResult_alike {o : ByteOrder} {s : Linux} {l : RsRegisteredLambda ArgPtr}
    {w : Wait} {sent : List Packet} {out : CallOutcome}
    (h : waitLambdaResult o s l w sent = some out) :
    out.state.Alike (receiveAll o s w.packets) := by
  obtain ⟨-, timedOut, -, hafter⟩ := afterWait_of_waitLambdaResult h
  exact afterWait_alike hafter

theorem Inv.call_alike {o : ByteOrder} {env : Env} {s : Linux} (h : s.Inv) {c : Call} {w : Wait}
    {out : CallOutcome} (hout : call o env s c w = some out) :
    out.state.Alike (duringCall o s c w) := by
  unfold duringCall
  cases hw : s.waitsOn c with
  | none =>
    obtain ⟨code, written, hcall, -⟩ := call_of_not_waiting hw o env w
    obtain rfl := Option.some.inj (hout.symm.trans hcall)
    exact Alike.refl _
  | some l =>
    obtain ⟨packet, -, hcall⟩ := h.call_of_waiting hw o env w
    exact waitLambdaResult_alike (hcall.symm.trans hout)

theorem Inv.afterCall {o : ByteOrder} {env : Env} {s : Linux} (h : s.Inv) {c : Call} {w : Wait}
    {out : CallOutcome} (hout : call o env s c w = some out) : out.state.Inv := by
  refine (h.call_alike hout).inv ?_
  unfold duringCall
  split
  · exact h.receiveAll _
  · exact h

/-- A fresh call state holds no result. -/
theorem receive_heap_fresh {s : Linux} {p : ArgPtr} (hp : s.brk ≤ p) (o : ByteOrder)
    (d : Delivery) (hlt : p < (receive o s d).brk) :
    ((receive o s d).heap p).dataCached = false := by
  rw [receive_eq] at hlt ⊢
  cases hmsg : readPacket o d.env d.packet with
  | registered name type cache =>
    rw [hmsg] at hlt
    obtain rfl : p = s.brk := le_antisymm (Nat.le_of_lt_succ hlt) hp
    simp [act, enlist, Handled.quiet]
  | unregistered id =>
    rw [hmsg] at hlt
    exact absurd hlt (not_lt.mpr hp)
  | result id ret frees =>
    simp only [hmsg, act, storeResult] at hlt
    cases hget : getRegisteredLambdaById s.registry id <;> rw [hget] at hlt <;>
      exact absurd hlt (not_lt.mpr hp)
  | error id code =>
    simp only [hmsg, act, storeError] at hlt
    cases hget : getRegisteredLambdaById s.registry id <;> rw [hget] at hlt <;>
      exact absurd hlt (not_lt.mpr hp)
  | ignored =>
    rw [hmsg] at hlt
    exact absurd hlt (not_lt.mpr hp)

end Linux

namespace Watched

/-- Every cached value was delivered by a packet. -/
structure Inv (w : Watched) : Prop where
  linux : w.linux.Inv
  logged : ∀ p < w.linux.brk, (w.linux.heap p).dataCached = true →
    (p, (w.linux.heap p).ret) ∈ w.log

theorem Inv.started (garbage : ArgPtr → RsLinuxRegisteredLambda) : (started garbage).Inv :=
  ⟨Linux.Inv.started garbage, fun _ hp => absurd hp (Nat.not_lt_zero _)⟩

theorem Inv.receive {o : ByteOrder} {w : Watched} (h : w.Inv) (d : Linux.Delivery) :
    (w.receive o d).Inv := by
  refine ⟨h.linux.receive d, fun p hp hc => ?_⟩
  change (p, ((Linux.receive o w.linux d).heap p).ret) ∈
    w.log ++ (Linux.delivered o w.linux d).toList
  by_cases hold : p < w.linux.brk
  · rcases Linux.receive_heap hold o d with ⟨ret, hdel, hheap⟩ | ⟨-, hcached, hret⟩
    · rw [hheap, hdel]
      exact List.mem_append_right _ (List.mem_singleton.mpr rfl)
    · rw [hret]
      exact List.mem_append_left _ (h.logged p hold (hcached.symm.trans hc))
  · have hfresh := Linux.receive_heap_fresh (not_lt.mp hold) o d hp
    rw [Watched.receive, hfresh] at hc
    cases hc

/-- The packets of a wait one by one. -/
def receiveAll (o : ByteOrder) (w : Watched) (ds : List Linux.Delivery) : Watched :=
  ⟨Linux.receiveAll o w.linux ds, w.log ++ Linux.deliveredAll o w.linux ds⟩

theorem receiveAll_cons (o : ByteOrder) (w : Watched) (d : Linux.Delivery)
    (ds : List Linux.Delivery) :
    w.receiveAll o (d :: ds) = (w.receive o d).receiveAll o ds := by
  simp [receiveAll, Linux.deliveredAll, Watched.receive, Linux.receiveAll]

theorem Inv.receiveAll {o : ByteOrder} {w : Watched} (h : w.Inv) (ds : List Linux.Delivery) :
    (w.receiveAll o ds).Inv := by
  induction ds generalizing w with
  | nil =>
    refine ⟨h.linux, fun p hp hc => ?_⟩
    exact List.mem_append_left _ (h.logged p hp hc)
  | cons d ds ih =>
    rw [receiveAll_cons]
    exact ih (h.receive d)

/-- A state that differs in error codes only has the same logged results. -/
theorem Inv.of_alike {w : Watched} (h : w.Inv) {s : Linux} (hs : s.Alike w.linux) :
    Inv ⟨s, w.log⟩ := by
  refine ⟨hs.inv h.linux, fun p hp hc => ?_⟩
  change (p, (s.heap p).ret) ∈ w.log
  rw [hs.ret p hp hc]
  exact h.logged p (hs.brk ▸ hp) ((hs.cached p hp).symm.trans hc)

/-- A call handles the packets of its wait, and otherwise only resets an error code. -/
theorem Inv.afterCall {o : ByteOrder} {w : Watched} (h : w.Inv) (c : Call) (wait : Linux.Wait) :
    Inv ⟨Linux.duringCall o w.linux c wait, w.log ++ w.duringCall o c wait⟩ := by
  unfold Linux.duringCall Watched.duringCall
  split_ifs
  · exact h.receiveAll wait.packets
  · rw [List.append_nil]
    exact h

theorem Inv.play {o : ByteOrder} {w w' : Watched} (h : w.Inv) {e : LinuxEvent}
    (hplay : play o (some w) e = some w') : w'.Inv := by
  cases e with
  | packet d =>
    obtain rfl := Option.some.inj hplay
    exact h.receive d
  | call env c wait =>
    simp only [Watched.play, Option.bind_eq_bind, Option.bind_some] at hplay
    obtain ⟨out, hout, hw'⟩ := Option.bind_eq_some_iff.mp hplay
    obtain rfl := Option.some.inj hw'
    exact (h.afterCall c wait).of_alike (h.linux.call_alike hout)

/-- The invariant, where the history is still defined. -/
def Kept (c : Option Watched) : Prop := ∀ w, c = some w → w.Inv

theorem Kept.play {o : ByteOrder} {c : Option Watched} (h : Kept c) (e : LinuxEvent) :
    Kept (play o c e) := by
  intro w' hplay
  cases c with
  | none => cases hplay
  | some w => exact (h w rfl).play hplay

/-- Every reachable state satisfies the invariant. -/
theorem Reaches.inv {o : ByteOrder} {garbage : ArgPtr → RsLinuxRegisteredLambda}
    {es : List LinuxEvent} {w : Watched} (h : Reaches o garbage es w) : w.Inv := by
  have hstart : Kept (some (Watched.started garbage)) := by
    intro w' hw'
    rw [← Option.some.inj hw']
    exact Inv.started garbage
  exact Runs.run_inv_all (fun _ e hc => hc.play e) es hstart w h

end Watched

/-! ## Concrete packets -/

/-- Registers an uncached integer lambda `"a"`. -/
def registersA : Linux.Delivery :=
  ⟨{}, [RS_PACKET_REGISTERED, 97] ++ List.replicate 11 0 ++ [RS_LAMBDA_INT, RS_CACHE_NO_CACHE]⟩

/-- The answer 5 of lambda 0. -/
def answersFive : Linux.Delivery :=
  ⟨{}, [RS_PACKET_RESULT_INT, 0] ++ List.replicate 12 0 ++ [5, 0, 0, 0]⟩

/-- Reports the error `code` for the id `id`. -/
def reportsError (id : LambdaId) (code : Int8) : Linux.Delivery :=
  ⟨{}, [RS_PACKET_RESULT_ERROR, id] ++ List.replicate 12 0 ++ [code.toUInt8]⟩

/-- Fresh memory that holds zeros. -/
def zeroed : ArgPtr → RsLinuxRegisteredLambda := fun _ => ⟨false, 0, .unset⟩

end RS
