import Riotsensors.Sanity.Registry
import Riotsensors.Spec.Client

/-! Linux's packet handler in two steps: a packet is read as a message, and the
message acts on the state. Every fact about the handler is a fact about the five
messages. -/

namespace RS

open CMem

/-- The type byte of a registration is the byte behind its name field. -/
def Message.Formed : Message → Prop
  | .registered name type _ => byteAt name MAX_LAMBDA_NAME_LENGTH = type
  | _ => True

namespace Linux

/-- The state that a registration leaves, accepted or not: a call state is allocated
in both cases. -/
def enlist (heap : Option (List UInt8)) (s : Linux) (name : List UInt8) (type : RsLambdaType)
    (cache : RsCacheType) : Linux where
  registry := (lambdaRegistryRegister heap s.registry name type cache s.brk).1
  heap := Function.update s.heap s.brk { s.heap s.brk with dataCached := false }
  brk := s.brk + 1

/-- What an error packet leaves in the call state it names. -/
def storeError (s : Linux) (id : LambdaId) (code : Int8) : Handled :=
  match getRegisteredLambdaById s.registry id with
  | none => Handled.quiet s
  | some lambda =>
    { state := s.setArg lambda.arg { s.heap lambda.arg with lastCallError := code }
      broadcast := some lambda.arg
      freed := none }

def act (heap : Option (List UInt8)) (s : Linux) : Message → Handled
  | .registered name type cache => Handled.quiet (enlist heap s name type cache)
  | .unregistered id =>
    Handled.quiet { s with registry := (lambdaRegistryUnregister s.registry id).1 }
  | .result id ret frees => storeResult s id ret frees
  | .error id code => storeError s id code
  | .ignored => Handled.quiet s

/-- An unknown id is refused by the registry as well. -/
theorem handleUnregistered_eq (s : Linux) (mypkt : Packet) :
    handleUnregistered s mypkt =
      Handled.quiet { s with registry :=
        (lambdaRegistryUnregister s.registry (byteAt mypkt LAMBDA_ID)).1 } := by
  unfold handleUnregistered
  cases hget : getRegisteredLambdaById s.registry (byteAt mypkt LAMBDA_ID) with
  | some lambda => simp only [hget]
  | none => simp only [hget, lambdaRegistryUnregister_of_none hget]

theorem handleReceivedPacket_eq (o : ByteOrder) (env : Env) (s : Linux) (packet : Packet) :
    handleReceivedPacket o env s packet = act env.heap s (readPacket o env packet) := by
  unfold handleReceivedPacket readPacket
  split_ifs
  all_goals first | rfl | exact handleUnregistered_eq s packet

theorem readPacket_formed (o : ByteOrder) (env : Env) (packet : Packet) :
    (readPacket o env packet).Formed := by
  unfold readPacket
  split_ifs with h0 htag hlen
  case neg =>
    have hlen' : packet.length = 15 := not_not.mp hlen
    have hdrop : (packet.drop NAME).length = 14 := by
      rw [List.length_drop, hlen']
      rfl
    change byteAt (packet.drop NAME ++ env.beyond) 12 = byteAt packet 13
    rw [byteAt_append_left (by omega), byteAt_drop]
  all_goals trivial

theorem receive_eq (o : ByteOrder) (s : Linux) (d : Delivery) :
    receive o s d = (act d.env.heap s (readPacket o d.env d.packet)).state := by
  rw [receive, handleReceivedPacket_eq]

/-- The registry after a message. -/
theorem registry_act (heap : Option (List UInt8)) (s : Linux) (m : Message) :
    (act heap s m).state.registry =
      match m with
      | .registered name type cache =>
        (lambdaRegistryRegister heap s.registry name type cache s.brk).1
      | .unregistered id => (lambdaRegistryUnregister s.registry id).1
      | _ => s.registry := by
  cases m with
  | registered name type cache => rfl
  | unregistered id => rfl
  | result id ret frees =>
    simp only [act, storeResult]
    cases getRegisteredLambdaById s.registry id <;> rfl
  | error id code =>
    simp only [act, storeError]
    cases getRegisteredLambdaById s.registry id <;> rfl
  | ignored => rfl

/-- A record that is live after a message was live before, or is the one just registered. -/
theorem slot_act {s : Linux} (h : s.registry.WF) {heap : Option (List UInt8)} {m : Message} {i : ℕ}
    {l : RsRegisteredLambda ArgPtr} (hl : (act heap s m).state.registry.slot i = some l) :
    s.registry.slot i = some l ∨
      ∃ mem name type cache, heap = some mem ∧ m = .registered name type cache ∧
        s.registry.Accepts name ∧ i = s.registry.lambdaCounter.toNat ∧
        l = newRecord mem s.registry.lambdaCounter name type cache s.brk := by
  rw [registry_act] at hl
  cases m with
  | registered name type cache =>
    rcases lambdaRegistryRegister_cases h heap name type cache s.brk with
      ⟨mem, hheap, hacc, heq⟩ | ⟨-, heq, -⟩
    · simp only [heq, Registry.slot_push hacc.1] at hl
      split_ifs at hl with hi
      · exact Or.inr ⟨mem, name, type, cache, hheap, rfl, hacc, hi, (Option.some.inj hl).symm⟩
      · exact Or.inl hl
    · simp only [heq] at hl
      exact Or.inl hl
  | unregistered id =>
    simp only [lambdaRegistryUnregister_slot h] at hl
    split_ifs at hl
    exact Or.inl hl
  | result id ret frees => exact Or.inl hl
  | error id code => exact Or.inl hl
  | ignored => exact Or.inl hl

/-- Only its own unregistration takes a record away. -/
theorem slot_act_of_ne {s : Linux} (h : s.registry.WF) {heap : Option (List UInt8)} {m : Message}
    {l : RsRegisteredLambda ArgPtr} (hl : s.registry.slot l.id.toNat = some l)
    (hm : m ≠ .unregistered l.id) :
    (act heap s m).state.registry.slot l.id.toNat = some l := by
  rw [registry_act]
  cases m with
  | registered name type cache =>
    rcases lambdaRegistryRegister_cases h heap name type cache s.brk with
      ⟨mem, -, hacc, heq⟩ | ⟨-, heq, -⟩
    · simp only [heq, Registry.slot_push hacc.1]
      rw [if_neg (h.lt_counter hl).ne]
      exact hl
    · simp only [heq]
      exact hl
  | unregistered id =>
    have hne : l.id ≠ id := fun he => hm (by rw [he])
    simp only [lambdaRegistryUnregister_slot h]
    rw [if_neg (fun he => hne (UInt8.toNat_inj.mp he))]
    exact hl
  | result id ret frees => exact hl
  | error id code => exact hl
  | ignored => exact hl

theorem counter_act_le {s : Linux} (h : s.registry.WF) (heap : Option (List UInt8)) (m : Message) :
    s.registry.lambdaCounter.toNat ≤ (act heap s m).state.registry.lambdaCounter.toNat := by
  rw [registry_act]
  cases m with
  | registered name type cache =>
    rcases lambdaRegistryRegister_cases h heap name type cache s.brk with
      ⟨mem, -, hacc, heq⟩ | ⟨-, heq, -⟩
    · simp only [heq, Registry.toNat_counter_push hacc.1]
      exact Nat.le_succ _
    · simp only [heq, le_refl]
  | unregistered id => simp only [lambdaRegistryUnregister_counter, le_refl]
  | result id ret frees => exact le_rfl
  | error id code => exact le_rfl
  | ignored => exact le_rfl

theorem wf_act {s : Linux} (h : s.registry.WF) (heap : Option (List UInt8)) (m : Message) :
    (act heap s m).state.registry.WF := by
  rw [registry_act]
  cases m with
  | registered name type cache => exact lambdaRegistryRegister_wf h heap name type cache s.brk
  | unregistered id => exact lambdaRegistryUnregister_wf h id
  | result id ret frees => exact h
  | error id code => exact h
  | ignored => exact h

theorem brk_act_le (heap : Option (List UInt8)) (s : Linux) (m : Message) :
    s.brk ≤ (act heap s m).state.brk := by
  cases m with
  | registered name type cache => exact Nat.le_succ _
  | unregistered id => exact le_rfl
  | result id ret frees =>
    simp only [act, storeResult]
    cases getRegisteredLambdaById s.registry id <;> exact le_rfl
  | error id code =>
    simp only [act, storeError]
    cases getRegisteredLambdaById s.registry id <;> exact le_rfl
  | ignored => exact le_rfl

/-- Only string results make the handler free the old value. -/
theorem member_of_frees {o : ByteOrder} {env : Env} {packet : Packet} {id : LambdaId}
    {ret : GenericLambdaReturn} (h : readPacket o env packet = .result id ret true) :
    ret.member = some RS_LAMBDA_STRING := by
  unfold readPacket at h
  split_ifs at h
  all_goals cases h
  rfl

/-- A result for a live lambda. -/
theorem act_result_of_live {s : Linux} {id : LambdaId} {l : RsRegisteredLambda ArgPtr}
    (hget : getRegisteredLambdaById s.registry id = some l) (heap : Option (List UInt8))
    (ret : GenericLambdaReturn) (frees : Bool) :
    act heap s (.result id ret frees) =
      { state := s.setArg l.arg
          { ret := ret, lastCallError := RS_CALL_SUCCESS, dataCached := true }
        broadcast := some l.arg
        freed := if frees ∧ (s.heap l.arg).dataCached then some (s.heap l.arg).ret else none } := by
  simp only [act, storeResult, hget]

/-- Every live record has a call state of its own, allocated before, and a name that
ends with its field at the latest. -/
structure Inv (s : Linux) : Prop where
  wf : s.registry.WF
  short : ∀ i l, s.registry.slot i = some l → strlen l.nameMem ≤ MAX_LAMBDA_NAME_LENGTH
  below : ∀ i l, s.registry.slot i = some l → l.arg < s.brk
  own : ∀ i j l m, s.registry.slot i = some l → s.registry.slot j = some m →
    l.arg = m.arg → i = j

theorem Inv.started (garbage : ArgPtr → RsLinuxRegisteredLambda) : (started garbage).Inv :=
  ⟨Registry.WF.empty, by simp [Linux.started], by simp [Linux.started], by simp [Linux.started]⟩

/-- Whatever only takes records away keeps the invariant. -/
theorem Inv.anti {s s' : Linux} (h : s.Inv) (hwf : s'.registry.WF) (hbrk : s.brk ≤ s'.brk)
    (hsub : ∀ i l, s'.registry.slot i = some l → s.registry.slot i = some l) : s'.Inv where
  wf := hwf
  short i l hl := h.short i l (hsub i l hl)
  below i l hl := (h.below i l (hsub i l hl)).trans_le hbrk
  own i j l m hl hm := h.own i j l m (hsub i l hl) (hsub j m hm)

/-- A record registered from a packet has the name that was sent: one that fills its
field is followed by a type byte that is NUL. -/
theorem text_of_formed {name : List UInt8} {type : RsLambdaType} {cache : RsCacheType}
    (hformed : (Message.registered name type cache).Formed)
    (hlen : strlen name ≤ MAX_LAMBDA_NAME_LENGTH) (mem : List UInt8) (id : LambdaId)
    (arg : ArgPtr) : (newRecord mem id name type cache arg).text = cstr name := by
  rw [newRecord_text_iff hlen]
  rcases hlen.lt_or_eq with hlt | heq
  · exact Or.inl hlt
  · right
    rw [← hformed, ← heq]
    exact byteAt_strlen name

/-- Every message keeps the invariant. -/
theorem Inv.act {s : Linux} (h : s.Inv) (heap : Option (List UInt8)) {m : Message}
    (hformed : m.Formed) : (Linux.act heap s m).state.Inv where
  wf := wf_act h.wf heap m
  short i l hl := by
    rcases slot_act h.wf hl with hold | ⟨mem, name, type, cache, -, rfl, hacc, -, rfl⟩
    · exact h.short i l hold
    · change (newRecord mem s.registry.lambdaCounter name type cache s.brk).text.length ≤ _
      rw [text_of_formed hformed hacc.2.2.1]
      exact hacc.2.2.1
  below i l hl := by
    rcases slot_act h.wf hl with hold | ⟨mem, name, type, cache, -, rfl, -, -, rfl⟩
    · exact (h.below i l hold).trans_le (brk_act_le heap s m)
    · exact Nat.lt_succ_self _
  own i j l k hl hk harg := by
    rcases slot_act h.wf hl with hl | ⟨mem, name, type, cache, -, -, -, hi, rfl⟩
    · rcases slot_act h.wf hk with hk | ⟨mem', name', type', cache', -, -, -, -, rfl⟩
      · exact h.own i j l k hl hk harg
      · exact absurd (h.below i l hl) (not_lt.mpr harg.ge)
    · rcases slot_act h.wf hk with hk | ⟨mem', name', type', cache', -, -, -, hj, -⟩
      · exact absurd (h.below j k hk) (not_lt.mpr harg.le)
      · exact hi.trans hj.symm

theorem Inv.receive {o : ByteOrder} {s : Linux} (h : s.Inv) (d : Delivery) :
    (receive o s d).Inv := by
  rw [receive_eq]
  exact h.act _ (readPacket_formed _ _ _)

/-- A handler that stores `v` in the call state of the lambda it finds, and does nothing
when it finds none, seen from the call state at `p`. -/
theorem stored_cases (s : Linux) (id : LambdaId) (h : Handled)
    (v : RsRegisteredLambda ArgPtr → RsLinuxRegisteredLambda)
    (hnone : getRegisteredLambdaById s.registry id = none →
      h.state.heap = s.heap ∧ h.broadcast = none)
    (hsome : ∀ l, getRegisteredLambdaById s.registry id = some l →
      h.state.heap = Function.update s.heap l.arg (v l) ∧ h.broadcast = some l.arg)
    (p : ArgPtr) :
    (∃ l, getRegisteredLambdaById s.registry id = some l ∧ l.arg = p ∧
      h.state.heap p = v l ∧ h.broadcast = some p) ∨
    (h.state.heap p = s.heap p ∧ h.broadcast ≠ some p ∧
      ∀ l, getRegisteredLambdaById s.registry id = some l → l.arg ≠ p) := by
  cases hget : getRegisteredLambdaById s.registry id with
  | none =>
    obtain ⟨hheap, hquiet⟩ := hnone hget
    refine Or.inr ⟨by rw [hheap], by rw [hquiet]; exact Option.some_ne_none p |>.symm, ?_⟩
    intro l hl
    cases hl
  | some l =>
    obtain ⟨hheap, hwake⟩ := hsome l hget
    by_cases harg : l.arg = p
    · refine Or.inl ⟨l, rfl, harg, ?_, by rw [hwake, harg]⟩
      rw [hheap, ← harg, Function.update_self]
    · refine Or.inr ⟨?_, ?_, ?_⟩
      · rw [hheap, Function.update_of_ne (Ne.symm harg)]
      · rw [hwake]
        exact fun h' => harg (Option.some.inj h')
      · intro l' hl'
        rw [← Option.some.inj hl']
        exact harg

/-- What a message does to the call state at `p`: it stores a result there, it stores
an error code there, or it does not touch it and wakes nobody who waits on it. -/
theorem act_heap_cases {s : Linux} {p : ArgPtr} (hp : p < s.brk)
    (heap : Option (List UInt8)) (m : Message) :
    (∃ id ret frees l, m = .result id ret frees ∧ getRegisteredLambdaById s.registry id = some l ∧
      l.arg = p ∧ (act heap s m).state.heap p = ⟨true, RS_CALL_SUCCESS, ret⟩ ∧
      (act heap s m).broadcast = some p) ∨
    (∃ id code l, m = .error id code ∧ getRegisteredLambdaById s.registry id = some l ∧
      l.arg = p ∧ (act heap s m).state.heap p = { s.heap p with lastCallError := code } ∧
      (act heap s m).broadcast = some p) ∨
    ((act heap s m).state.heap p = s.heap p ∧ (act heap s m).broadcast ≠ some p ∧
      ∀ id l, m.target = some id → getRegisteredLambdaById s.registry id = some l →
        l.arg = p → m = .unregistered id) := by
  cases m with
  | registered name type cache =>
    refine Or.inr (Or.inr ⟨?_, by simp [act, Handled.quiet], by simp [Message.target]⟩)
    exact Function.update_of_ne hp.ne _ _
  | unregistered id =>
    refine Or.inr (Or.inr ⟨rfl, by simp [act, Handled.quiet], fun id' l ht _ _ => ?_⟩)
    rw [Option.some.inj ht]
  | result id ret frees =>
    rcases stored_cases s id (act heap s (.result id ret frees))
        (fun _ => ⟨true, RS_CALL_SUCCESS, ret⟩)
        (fun hget => by rw [act, storeResult, hget]; exact ⟨rfl, rfl⟩)
        (fun l hget => by rw [act_result_of_live hget]; exact ⟨rfl, rfl⟩) p with
      ⟨l, hget, harg, hheap, hwake⟩ | ⟨hheap, hwake, hne⟩
    · exact Or.inl ⟨id, ret, frees, l, rfl, hget, harg, hheap, hwake⟩
    · refine Or.inr (Or.inr ⟨hheap, hwake, fun id' l ht hl harg => ?_⟩)
      obtain rfl := Option.some.inj ht
      exact absurd harg (hne l hl)
  | error id code =>
    rcases stored_cases s id (act heap s (.error id code))
        (fun l => { s.heap l.arg with lastCallError := code })
        (fun hget => by rw [act, storeError, hget]; exact ⟨rfl, rfl⟩)
        (fun l hget => by rw [act, storeError, hget]; exact ⟨rfl, rfl⟩) p with
      ⟨l, hget, harg, hheap, hwake⟩ | ⟨hheap, hwake, hne⟩
    · refine Or.inr (Or.inl ⟨id, code, l, rfl, hget, harg, ?_, hwake⟩)
      rw [hheap, harg]
    · refine Or.inr (Or.inr ⟨hheap, hwake, fun id' l ht hl harg => ?_⟩)
      obtain rfl := Option.some.inj ht
      exact absurd harg (hne l hl)
  | ignored => exact Or.inr (Or.inr ⟨rfl, by simp [act, Handled.quiet], by simp [Message.target]⟩)

end Linux

end RS
