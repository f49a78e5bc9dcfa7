import Riotsensors.Sanity.Threads
import Riotsensors.Spec.Repeats

/-! Clients cannot tell whether packets were delivered more than once. A copy may use up a call
state, so that the two processes agree up to the addresses of their call states. -/

namespace RS

/-- The record with its call state at another address. -/
def RsRegisteredLambda.moved (f : ArgPtr → ArgPtr) (l : RsRegisteredLambda ArgPtr) :
    RsRegisteredLambda ArgPtr := { l with arg := f l.arg }

namespace Linux

variable {g : RsLinuxRegisteredLambda} {f : ArgPtr → ArgPtr} {t s : Linux}

/-- `s` is `t` with the call state at `a` at `f a`. Memory that was not allocated yet reads as
`g`. -/
structure Moved (g : RsLinuxRegisteredLambda) (f : ArgPtr → ArgPtr) (t s : Linux) : Prop where
  left : t.Inv
  right : s.Inv
  counter : s.registry.lambdaCounter = t.registry.lambdaCounter
  slot : ∀ i, s.registry.slot i = (t.registry.slot i).map (RsRegisteredLambda.moved f)
  heap : ∀ a < t.brk, s.heap (f a) = t.heap a
  below : ∀ a < t.brk, f a < s.brk
  injective : ∀ a < t.brk, ∀ b < t.brk, f a = f b → a = b
  freshLeft : ∀ a, t.brk ≤ a → t.heap a = g
  freshRight : ∀ a, s.brk ≤ a → s.heap a = g

/-! ## Lookups -/

theorem Moved.getById (h : Moved g f t s) (id : LambdaId) :
    getRegisteredLambdaById s.registry id =
      (getRegisteredLambdaById t.registry id).map (RsRegisteredLambda.moved f) := by
  rw [h.right.wf.getById, h.left.wf.getById, h.slot]

theorem Moved.getByName (h : Moved g f t s) (name : List UInt8) :
    getRegisteredLambdaByName s.registry name =
      (getRegisteredLambdaByName t.registry name).map (RsRegisteredLambda.moved f) := by
  unfold getRegisteredLambdaByName
  rw [h.counter, List.map_findSome?]
  refine congrArg (fun p => List.findSome? p _) (funext fun i => ?_)
  rw [h.slot, Option.filter_map]
  rfl

theorem Moved.found (h : Moved g f t s) (c : Call) :
    s.found c = (t.found c).map (RsRegisteredLambda.moved f) := by
  cases c with
  | byId id expectedType => exact h.getById id
  | byName name expectedType => exact h.getByName name

theorem Moved.accepts (h : Moved g f t s) (name : List UInt8) :
    s.registry.Accepts name ↔ t.registry.Accepts name := by
  rw [Registry.Accepts, Registry.Accepts, h.counter, h.getByName, Option.isNone_map]

/-! ## One message -/

variable {heap heap' : Option (List UInt8)}

/-- The call state that a message wakes clients on. -/
theorem broadcast_act (heap : Option (List UInt8)) (s : Linux) (m : Message) :
    (act heap s m).broadcast =
      match m with
      | .result id _ _ | .error id _ =>
        (getRegisteredLambdaById s.registry id).map RsRegisteredLambda.arg
      | _ => none := by
  cases m with
  | result id ret frees =>
    simp only [act, storeResult]
    cases getRegisteredLambdaById s.registry id <;> rfl
  | error id code =>
    simp only [act, storeError]
    cases getRegisteredLambdaById s.registry id <;> rfl
  | _ => rfl

/-- One call state changes in both. -/
theorem Moved.setArg (h : Moved g f t s) {p : ArgPtr} (hp : p < t.brk)
    (v : RsLinuxRegisteredLambda) : Moved g f (t.setArg p v) (s.setArg (f p) v) := by
  refine ⟨h.left.anti h.left.wf le_rfl fun _ _ hl => hl,
    h.right.anti h.right.wf le_rfl fun _ _ hl => hl, h.counter, h.slot, fun a ha => ?_, h.below,
    h.injective, fun a ha => ?_, fun a ha => ?_⟩
  · simp only [Linux.setArg]
    by_cases heq : a = p
    · rw [heq, Function.update_self, Function.update_self]
    · rw [Function.update_of_ne heq,
        Function.update_of_ne fun hf => heq (h.injective a ha p hp hf)]
      exact h.heap a ha
  · rw [Linux.setArg]
    exact (Function.update_of_ne (hp.trans_le ha).ne' _ _).trans (h.freshLeft a ha)
  · rw [Linux.setArg]
    exact (Function.update_of_ne ((h.below p hp).trans_le ha).ne' _ _).trans (h.freshRight a ha)

/-- A live call state is an address that `f` was asked for. -/
theorem Moved.slot_congr (h : Moved g f t s) {f' : ArgPtr → ArgPtr} (hf : ∀ a < t.brk, f' a = f a)
    (i : ℕ) : s.registry.slot i = (t.registry.slot i).map (RsRegisteredLambda.moved f') := by
  rw [h.slot]
  refine Option.map_congr fun l hl => ?_
  rw [RsRegisteredLambda.moved, RsRegisteredLambda.moved, hf _ (h.left.below i l hl)]

/-- A registration allocates a call state in both, accepted or not. -/
theorem Moved.enlist (h : Moved g f t s) (heap : Option (List UInt8)) {name : List UInt8}
    {type : RsLambdaType} {cache : RsCacheType}
    (hformed : (Message.registered name type cache).Formed) :
    ∃ f', (∀ a < t.brk, f' a = f a) ∧
      Moved g f' (Linux.enlist heap t name type cache) (Linux.enlist heap s name type cache) := by
  have hold : ∀ a < t.brk, Function.update f t.brk s.brk a = f a := fun a ha =>
    Function.update_of_ne ha.ne _ _
  have hnew : Function.update f t.brk s.brk t.brk = s.brk := Function.update_self _ _ _
  have hregistry : (Linux.enlist heap s name type cache).registry.lambdaCounter =
        (Linux.enlist heap t name type cache).registry.lambdaCounter ∧
      ∀ i, (Linux.enlist heap s name type cache).registry.slot i =
        ((Linux.enlist heap t name type cache).registry.slot i).map
          (RsRegisteredLambda.moved (Function.update f t.brk s.brk)) := by
    rcases lambdaRegistryRegister_cases h.left.wf heap name type cache t.brk with
      ⟨mem, rfl, hacc, hregistered⟩ | ⟨hrefused, hkept, -⟩
    · have hregistered' := lambdaRegistryRegister_of_accepts
        ((h.accepts name).mpr hacc) mem type cache s.brk
      simp only [Linux.enlist, hregistered, hregistered']
      refine ⟨congrArg (· + 1) h.counter, fun i => ?_⟩
      rw [Registry.slot_push hacc.1, Registry.slot_push (by rw [h.counter]; exact hacc.1),
        h.counter, h.slot_congr hold]
      split_ifs with hi
      · have hrecord : ∀ f' : ArgPtr → ArgPtr,
            (newRecord mem t.registry.lambdaCounter name type cache t.brk).moved f' =
              newRecord mem t.registry.lambdaCounter name type cache (f' t.brk) := fun _ => rfl
        rw [Option.map_some, hrecord, Function.update_self]
      · rfl
    · have hrefused' : ¬ (s.registry.Accepts name ∧ heap.isSome) := by
        rwa [h.accepts name]
      obtain ⟨hkept', -⟩ := lambdaRegistryRegister_refused h.right.wf hrefused' type cache
        s.brk
      simp only [Linux.enlist, hkept, hkept']
      exact ⟨h.counter, h.slot_congr hold⟩
  refine ⟨Function.update f t.brk s.brk, hold, h.left.act heap hformed, h.right.act heap hformed,
    hregistry.1, hregistry.2, fun a ha => ?_, fun a ha => ?_, fun a ha b hb hab => ?_,
    fun a ha => ?_, fun a ha => ?_⟩
  · simp only [Linux.enlist]
    rcases Nat.lt_succ_iff_lt_or_eq.mp ha with hlt | rfl
    · rw [hold a hlt, Function.update_of_ne (h.below a hlt).ne, Function.update_of_ne hlt.ne]
      exact h.heap a hlt
    · rw [hnew, Function.update_self, Function.update_self, h.freshLeft _ le_rfl,
        h.freshRight _ le_rfl]
  · rcases Nat.lt_succ_iff_lt_or_eq.mp ha with hlt | rfl
    · rw [hold a hlt]
      exact Nat.lt_succ_of_lt (h.below a hlt)
    · rw [hnew]
      exact Nat.lt_succ_self _
  · rcases Nat.lt_succ_iff_lt_or_eq.mp ha with halt | rfl
    · rcases Nat.lt_succ_iff_lt_or_eq.mp hb with hblt | rfl
      · rw [hold a halt, hold b hblt] at hab
        exact h.injective a halt b hblt hab
      · rw [hold a halt, hnew] at hab
        exact absurd hab (h.below a halt).ne
    · rcases Nat.lt_succ_iff_lt_or_eq.mp hb with hblt | rfl
      · rw [hold b hblt, hnew] at hab
        exact absurd hab.symm (h.below b hblt).ne
      · rfl
  · exact (Function.update_of_ne (Nat.lt_of_succ_le ha).ne' _ _).trans
      (h.freshLeft a (Nat.le_of_succ_le ha))
  · exact (Function.update_of_ne (Nat.lt_of_succ_le ha).ne' _ _).trans
      (h.freshRight a (Nat.le_of_succ_le ha))

/-- A message does the same to both. -/
theorem Moved.act (h : Moved g f t s) (heap : Option (List UInt8)) {m : Message}
    (hformed : m.Formed) :
    ∃ f', (∀ a < t.brk, f' a = f a) ∧ Moved g f' (act heap t m).state (act heap s m).state := by
  cases m with
  | registered name type cache => exact h.enlist heap hformed
  | unregistered id =>
    refine ⟨f, fun _ _ => rfl, h.left.act heap hformed, h.right.act heap hformed, ?_, fun i => ?_,
      h.heap, h.below, h.injective, h.freshLeft, h.freshRight⟩
    · change (lambdaRegistryUnregister s.registry id).1.lambdaCounter =
        (lambdaRegistryUnregister t.registry id).1.lambdaCounter
      rw [lambdaRegistryUnregister_counter, lambdaRegistryUnregister_counter, h.counter]
    · change (lambdaRegistryUnregister s.registry id).1.slot i =
        ((lambdaRegistryUnregister t.registry id).1.slot i).map _
      rw [lambdaRegistryUnregister_slot h.left.wf, lambdaRegistryUnregister_slot h.right.wf, h.slot]
      split_ifs <;> rfl
  | result id ret frees =>
    refine ⟨f, fun _ _ => rfl, ?_⟩
    have hget := h.getById id
    simp only [Linux.act, storeResult]
    cases hl : getRegisteredLambdaById t.registry id with
    | none =>
      rw [hl, Option.map_none] at hget
      rw [hget]
      exact h
    | some l =>
      rw [hl, Option.map_some] at hget
      rw [hget]
      exact h.setArg (h.left.below _ l ((h.left.wf.getById id).symm.trans hl)) _
  | error id code =>
    refine ⟨f, fun _ _ => rfl, ?_⟩
    have hget := h.getById id
    simp only [Linux.act, storeError]
    cases hl : getRegisteredLambdaById t.registry id with
    | none =>
      rw [hl, Option.map_none] at hget
      rw [hget]
      exact h
    | some l =>
      rw [hl, Option.map_some] at hget
      have harg := h.left.below _ l ((h.left.wf.getById id).symm.trans hl)
      rw [hget]
      dsimp only [RsRegisteredLambda.moved]
      rw [h.heap _ harg]
      exact h.setArg harg _
  | ignored => exact ⟨f, fun _ _ => rfl, h⟩

/-- It wakes the same clients. -/
theorem Moved.broadcast (h : Moved g f t s) (heap : Option (List UInt8)) (m : Message) {a : ArgPtr}
    (ha : a < t.brk) :
    (Linux.act heap t m).broadcast = some a ↔ (Linux.act heap s m).broadcast = some (f a) := by
  have hid : ∀ id : LambdaId,
      (getRegisteredLambdaById t.registry id).map RsRegisteredLambda.arg = some a ↔
        (getRegisteredLambdaById s.registry id).map RsRegisteredLambda.arg = some (f a) := by
    intro id
    rw [h.getById, h.left.wf.getById]
    cases hl : t.registry.slot id.toNat with
    | none => exact iff_of_false (fun heq => by cases heq) fun heq => by cases heq
    | some l =>
      have harg := h.left.below _ l hl
      change some l.arg = some a ↔ some (f l.arg) = some (f a)
      rw [Option.some_inj, Option.some_inj]
      exact ⟨congrArg f, h.injective _ harg a ha⟩
  rw [broadcast_act, broadcast_act]
  cases m with
  | result id ret frees => exact hid id
  | error id code => exact hid id
  | _ => exact iff_of_false (fun heq => by cases heq) fun heq => by cases heq

/-! ## The same message again -/

/-- The message has nothing left to do. -/
def Settled (heap : Option (List UInt8)) (s : Linux) : Message → Prop
  | .registered name _ _ => ¬ (s.registry.Accepts name ∧ heap.isSome)
  | .unregistered id => s.registry.slot id.toNat = none
  | .result id ret _ => ∀ l, s.registry.slot id.toNat = some l →
      s.heap l.arg = ⟨true, RS_CALL_SUCCESS, ret⟩
  | .error id code => ∀ l, s.registry.slot id.toNat = some l →
      (s.heap l.arg).lastCallError = code
  | .ignored => True

theorem settled_act (h : s.Inv) (heap : Option (List UInt8)) {m : Message} (hformed : m.Formed) :
    Settled heap (Linux.act heap s m).state m := by
  cases m with
  | registered name type cache =>
    change ¬ ((lambdaRegistryRegister heap s.registry name type cache s.brk).1.Accepts name ∧ _)
    rcases lambdaRegistryRegister_cases h.wf heap name type cache s.brk with
      ⟨mem, rfl, hacc, hregistered⟩ | ⟨hrefused, hkept, -⟩
    · rintro ⟨⟨-, -, -, -, hfree⟩, -⟩
      have hwf := lambdaRegistryRegister_wf h.wf (some mem) name type cache s.brk
      refine (hwf.getByName_isNone_iff name).mp hfree s.registry.lambdaCounter.toNat
        (newRecord mem s.registry.lambdaCounter name type cache s.brk) ?_
        (text_of_formed hformed hacc.2.2.1 mem _ _)
      rw [hregistered, Registry.slot_push hacc.1, if_pos rfl]
    · rw [hkept]
      exact hrefused
  | unregistered id =>
    change (lambdaRegistryUnregister s.registry id).1.slot id.toNat = none
    rw [lambdaRegistryUnregister_slot h.wf, if_pos rfl]
  | result id ret frees =>
    intro l hl
    have hslot : s.registry.slot id.toNat = some l := by rwa [registry_act] at hl
    have hget := (h.wf.getById id).trans hslot
    simp only [Linux.act, storeResult, hget, Linux.setArg, Function.update_self]
  | error id code =>
    intro l hl
    have hslot : s.registry.slot id.toNat = some l := by rwa [registry_act] at hl
    have hget := (h.wf.getById id).trans hslot
    simp only [Linux.act, storeError, hget, Linux.setArg, Function.update_self]
  | ignored => trivial

/-- A message that is settled leaves everything as it was, but for fresh memory. -/
structure Keeps (g : RsLinuxRegisteredLambda) (s s' : Linux) : Prop where
  registry : s'.registry = s.registry
  heap : ∀ a < s.brk, s'.heap a = s.heap a
  brk : s.brk ≤ s'.brk
  fresh : ∀ a, s'.brk ≤ a → s'.heap a = g

theorem Settled.keeps {m : Message} (hm : Settled heap s m) (h : s.Inv)
    (hfresh : ∀ a, s.brk ≤ a → s.heap a = g) (hheap : heap = none → heap' = none) :
    Keeps g s (Linux.act heap' s m).state := by
  have hsame : Keeps g s s := ⟨rfl, fun _ _ => rfl, le_rfl, hfresh⟩
  cases m with
  | registered name type cache =>
    have hrefused : ¬ (s.registry.Accepts name ∧ heap'.isSome) := by
      rintro ⟨hacc, hsome⟩
      refine hm ⟨hacc, ?_⟩
      rw [Option.isSome_iff_ne_none] at hsome ⊢
      exact fun hnone => hsome (hheap hnone)
    refine ⟨(lambdaRegistryRegister_refused h.wf hrefused type cache s.brk).1, fun a ha => ?_,
      Nat.le_succ _, fun a ha => ?_⟩
    · exact Function.update_of_ne ha.ne _ _
    · exact (Function.update_of_ne (Nat.lt_of_succ_le ha).ne' _ _).trans
        (hfresh a (Nat.le_of_succ_le ha))
  | unregistered id =>
    have hnone := (h.wf.getById id).trans hm
    refine ⟨?_, fun _ _ => rfl, le_rfl, hfresh⟩
    exact congrArg Prod.fst (lambdaRegistryUnregister_of_none hnone)
  | result id ret frees =>
    simp only [Linux.act, storeResult]
    cases hl : getRegisteredLambdaById s.registry id with
    | none => exact hsame
    | some l =>
      have hvalue := hm l ((h.wf.getById id).symm.trans hl)
      simp only [Linux.setArg, ← hvalue, Function.update_eq_self]
      exact hsame
  | error id code =>
    simp only [Linux.act, storeError]
    cases hl : getRegisteredLambdaById s.registry id with
    | none => exact hsame
    | some l =>
      have hvalue := hm l ((h.wf.getById id).symm.trans hl)
      simp only [Linux.setArg, ← hvalue, Function.update_eq_self]
      exact hsame
  | ignored => exact hsame

theorem Moved.keeps {s' : Linux} (h : Moved g f t s) (hs : Keeps g s s') (hinv : s'.Inv) :
    Moved g f t s' where
  left := h.left
  right := hinv
  counter := by rw [hs.registry, h.counter]
  slot i := by rw [hs.registry, h.slot]
  heap a ha := (hs.heap _ (h.below a ha)).trans (h.heap a ha)
  below a ha := (h.below a ha).trans_le hs.brk
  injective := h.injective
  freshLeft := h.freshLeft
  freshRight := hs.fresh

theorem Settled.of_keeps {s' : Linux} {m : Message} (hm : Settled heap s m) (h : s.Inv)
    (hs : Keeps g s s') : Settled heap s' m := by
  cases m with
  | registered name type cache =>
    change ¬ (s'.registry.Accepts name ∧ _)
    rw [hs.registry]
    exact hm
  | unregistered id =>
    change s'.registry.slot id.toNat = none
    rw [hs.registry]
    exact hm
  | result id ret frees =>
    intro l hl
    rw [hs.registry] at hl
    rw [hs.heap _ (h.below _ l hl)]
    exact hm l hl
  | error id code =>
    intro l hl
    rw [hs.registry] at hl
    rw [hs.heap _ (h.below _ l hl)]
    exact hm l hl
  | ignored => trivial

/-! ## Packets -/

/-- A process with a client that waits on `arg`, and whether it was woken. -/
def watch (o : ByteOrder) (arg : ArgPtr) (p : Linux × Bool) (d : Delivery) : Linux × Bool :=
  (receive o p.1 d,
    p.2 || decide ((handleReceivedPacket o d.env p.1 d.packet).broadcast = some arg))

theorem run_watch (o : ByteOrder) (arg : ArgPtr) (s : Linux) (woken : Bool)
    (ds : List Delivery) :
    Runs.run (watch o arg) (s, woken) ds =
      (receiveAll o s ds, woken || (firstWaker o arg s ds).isSome) := by
  induction ds generalizing s woken with
  | nil => simp only [Runs.run_nil, receiveAll, firstWaker, Option.isSome_none, Bool.or_false]
  | cons d ds ih =>
    rw [Runs.run_cons, watch, ih, firstWaker]
    refine Prod.ext rfl ?_
    dsimp only
    split_ifs with hb
    · simp only [hb, decide_true, Bool.or_true, Bool.true_or, Option.isSome_some]
    · simp only [hb, decide_false, Bool.or_false]

/-- The client waits on `a` in `t` and on `b` in `s`, and was woken in both or in neither. -/
def Waits (g : RsLinuxRegisteredLambda) (a b : ArgPtr) (p q : Linux × Bool) : Prop :=
  q.2 = p.2 ∧ a < p.1.brk ∧ ∃ f, Moved g f p.1 q.1 ∧ f a = b

/-- A copy of the packet does nothing and wakes nobody. -/
def Handled.Again (o : ByteOrder) (b : ArgPtr) (d : Delivery) (q : Linux × Bool) : Prop :=
  Settled d.env.heap q.1 (readPacket o d.env d.packet) ∧
    ∀ heap', (Linux.act heap' q.1 (readPacket o d.env d.packet)).broadcast = some b → q.2 = true

variable {o : ByteOrder} {a b : ArgPtr} {p q : Linux × Bool} {d d' : Delivery}

theorem broadcast_of_registry {s s' : Linux} (h : s'.registry = s.registry)
    (heap heap' : Option (List UInt8)) (m : Message) :
    (Linux.act heap' s' m).broadcast = (Linux.act heap s m).broadcast := by
  rw [broadcast_act, broadcast_act, h]

/-- Who is woken by the message again, was woken by it. -/
theorem broadcast_again {s : Linux} {m : Message}
    (hb : (Linux.act heap' (Linux.act heap s m).state m).broadcast = some b) :
    (Linux.act heap s m).broadcast = some b := by
  cases m with
  | result id ret frees =>
    exact (broadcast_of_registry (registry_act heap s (.result id ret frees)) _ _ _).symm.trans hb
  | error id code =>
    exact (broadcast_of_registry (registry_act heap s (.error id code)) _ _ _).symm.trans hb
  | _ => exact hb

theorem Waits.next (h : Waits g a b p q) (d : Delivery) :
    Waits g a b (watch o a p d) (watch o b q d) ∧ Handled.Again o b d (watch o b q d) := by
  obtain ⟨hwoken, ha, f, hmoved, rfl⟩ := h
  have hformed := readPacket_formed o d.env d.packet
  obtain ⟨f', hold, hmoved'⟩ := hmoved.act d.env.heap hformed
  have hbroadcast := hmoved.broadcast d.env.heap (readPacket o d.env d.packet) ha
  simp only [watch, receive_eq, handleReceivedPacket_eq]
  refine ⟨⟨?_, ?_, f', hmoved', hold a ha⟩, settled_act hmoved.right _ hformed, ?_⟩
  · simp only [hwoken, hbroadcast]
  · exact ha.trans_le (brk_act_le _ _ _)
  · intro heap' hb
    rw [decide_eq_true (broadcast_again hb), Bool.or_true]

theorem Waits.again (h : Waits g a b p q) (hagain : Handled.Again o b d q) (hcopy : d.Copy o d') :
    Waits g a b p (watch o b q d') ∧ Handled.Again o b d (watch o b q d') := by
  obtain ⟨hwoken, ha, f, hmoved, rfl⟩ := h
  obtain ⟨hsettled, hwakes⟩ := hagain
  obtain ⟨hread, hheap⟩ := hcopy
  have hkeeps := hsettled.keeps hmoved.right hmoved.freshRight hheap
  have hformed := readPacket_formed o d.env d.packet
  have hflag : (q.2 || decide ((Linux.act d'.env.heap q.1
      (readPacket o d.env d.packet)).broadcast = some (f a))) = q.2 := by
    by_cases hb : (Linux.act d'.env.heap q.1 (readPacket o d.env d.packet)).broadcast = some (f a)
    · rw [hwakes _ hb, Bool.true_or]
    · rw [decide_eq_false hb, Bool.or_false]
  simp only [watch, receive_eq, handleReceivedPacket_eq, hread, hflag]
  refine ⟨⟨hwoken, ha, f, hmoved.keeps hkeeps (hmoved.right.act _ hformed), rfl⟩,
    hsettled.of_keeps hmoved.right hkeeps, fun heap' hb => ?_⟩
  exact hwakes heap' ((broadcast_of_registry hkeeps.registry heap' heap' _).symm.trans hb)

/-- Packets with copies, while a client waits. -/
theorem Moved.receiveAll (h : Moved g f t s) (ha : a < t.brk) {ds ds' : List Delivery}
    (hds : Runs.Repeats Eq (Delivery.Copy o) none ds ds') :
    ∃ f', f' a = f a ∧ Moved g f' (receiveAll o t ds) (receiveAll o s ds') ∧
      (firstWaker o (f a) s ds').isSome = (firstWaker o a t ds).isSome := by
  have hnext : ∀ (p q : Linux × Bool) (d d' : Delivery), Waits g a (f a) p q → d = d' →
      Waits g a (f a) (watch o a p d) (watch o (f a) q d') ∧
        Handled.Again o (f a) d (watch o (f a) q d') := by
    rintro p q d _ hwaits rfl
    exact hwaits.next d
  have hagain : ∀ (p q : Linux × Bool) (d d' : Delivery), Waits g a (f a) p q →
      Handled.Again o (f a) d q → d.Copy o d' → Waits g a (f a) p (watch o (f a) q d') ∧
        Handled.Again o (f a) d (watch o (f a) q d') :=
    fun p q d d' hwaits hdone hcopy => hwaits.again hdone hcopy
  have hrun : Waits g a (f a) (Runs.run (watch o a) (t, false) ds)
      (Runs.run (watch o (f a)) (s, false) ds') :=
    Runs.Repeats.run hnext hagain hds ⟨rfl, ha, f, h, rfl⟩ fun d hnone => by cases hnone
  rw [run_watch, run_watch, Bool.false_or, Bool.false_or] at hrun
  obtain ⟨hwoken, -, f', hmoved, hf'⟩ := hrun
  exact ⟨f', hf', hmoved, hwoken⟩

/-! ## Calls -/

variable {env : Env} {c : Call} {w w' : Wait} {l : RsRegisteredLambda ArgPtr}

theorem timedWait_eq (o : ByteOrder) (s : Linux) (l : RsRegisteredLambda ArgPtr) (w : Wait) :
    timedWait o s l w =
      if (firstWaker o l.arg s w.blocked).isNone && w.expired then
        if (Linux.receiveAll o s w.blocked).entry l = none then none else some true
      else some false := by
  unfold timedWait ending
  cases firstWaker o l.arg s w.blocked with
  | none => cases w.expired <;> simp
  | some d => simp

theorem Moved.entry (h : Moved g f t s) {l' : RsRegisteredLambda ArgPtr} (hid : l'.id = l.id) :
    s.entry l' = (t.entry l).map (RsRegisteredLambda.moved f) := by
  rw [Linux.entry, Linux.entry, hid, h.slot]

theorem Moved.checkLambdaCache (h : Moved g f t s) (hl : l.arg < t.brk) :
    checkLambdaCache s (l.moved f) = Linux.checkLambdaCache t l := by
  simp only [Linux.checkLambdaCache, RsRegisteredLambda.moved, h.heap _ hl]

/-- What two processes answer: nothing, or the same. -/
def AnswersAlike (g : RsLinuxRegisteredLambda) (x y : Option CallOutcome) : Prop :=
  (x = none ∧ y = none) ∨
    ∃ out out' f, x = some out ∧ y = some out' ∧ out'.sent = out.sent ∧ out'.code = out.code ∧
      out'.written = out.written ∧ Moved g f out.state out'.state

theorem Moved.afterWait (h : Moved g f t s) (hl : l.arg < t.brk) {l' : RsRegisteredLambda ArgPtr}
    (hid : l'.id = l.id) (hcache : l'.cache = l.cache) (harg : l'.arg = f l.arg)
    (timedOut : Bool) (sent : List Packet) :
    AnswersAlike g ((t.afterWait l timedOut).map fun after => ⟨after.1, sent, after.2.1, after.2.2⟩)
      ((s.afterWait l' timedOut).map fun after => ⟨after.1, sent, after.2.1, after.2.2⟩) := by
  simp only [afterWait_eq, h.entry hid, harg, hcache, h.heap _ hl, Option.map_eq_none_iff]
  split_ifs
  · exact .inr ⟨_, _, f, rfl, rfl, rfl, rfl, rfl, h.setArg hl _⟩
  · exact .inl ⟨rfl, rfl⟩
  · exact .inr ⟨_, _, f, rfl, rfl, rfl, rfl, rfl, h⟩
  · exact .inr ⟨_, _, f, rfl, rfl, rfl, rfl, rfl, h⟩

theorem Moved.waitLambdaResult (h : Moved g f t s) (hl : l.arg < t.brk) (hw : w.Repeats o w')
    (sent : List Packet) :
    AnswersAlike g (waitLambdaResult o t l w sent)
      (Linux.waitLambdaResult o s (l.moved f) w' sent) := by
  obtain ⟨f₁, hf₁, hblocked, hwoken⟩ := h.receiveAll hl hw.blocked
  have hl₁ : l.arg < (Linux.receiveAll o t w.blocked).brk :=
    hl.trans_le (brk_receiveAll_le o t w.blocked)
  obtain ⟨f₂, hf₂, hresuming, -⟩ := hblocked.receiveAll hl₁ hw.resuming
  have hpackets : ∀ (s : Linux) (w : Wait), Linux.receiveAll o s w.packets =
      Linux.receiveAll o (Linux.receiveAll o s w.blocked) w.resuming := fun s w =>
    Runs.run_append (receive o) s w.blocked w.resuming
  have hid : (l.moved f).id = l.id := rfl
  have harg : (l.moved f).arg = f₂ l.arg := (hf₂.trans hf₁).symm
  have htimed : timedWait o s (l.moved f) w' = timedWait o t l w := by
    have hends : ((firstWaker o (f l.arg) s w'.blocked).isNone && w'.expired) =
        ((firstWaker o l.arg t w.blocked).isNone && w.expired) := by
      rw [hw.expired, ← Option.not_isSome, ← Option.not_isSome, hwoken]
    rw [timedWait_eq, timedWait_eq, hblocked.entry hid]
    simp only [RsRegisteredLambda.moved, hends, Option.map_eq_none_iff]
  cases hwait : timedWait o t l w with
  | none =>
    rw [waitLambdaResult_of_destroyed hwait, waitLambdaResult_of_destroyed (htimed.trans hwait)]
    exact .inl ⟨rfl, rfl⟩
  | some timedOut =>
    rw [waitLambdaResult_of_timedWait hwait, waitLambdaResult_of_timedWait (htimed.trans hwait),
      hpackets, hpackets]
    exact hresuming.afterWait (hl₁.trans_le (brk_receiveAll_le o _ w.resuming)) hid rfl harg _ sent

theorem Moved.call (h : Moved g f t s) (hw : w.Repeats o w') :
    AnswersAlike g (call o env t c w) (Linux.call o env s c w') := by
  rw [call_eq, call_eq, h.found c]
  unfold callLambda
  cases hfound : t.found c with
  | none => exact .inr ⟨_, _, f, rfl, rfl, rfl, rfl, rfl, h⟩
  | some l =>
    have hl : l.arg < t.brk := h.left.below _ l (h.left.slot_of_found hfound)
    obtain ⟨packet, hpacket⟩ := h.left.callPacket_exists hfound env
    have htype : (l.moved f).type = l.type := rfl
    simp only [Option.map_some, htype, h.checkLambdaCache hl, hpacket]
    split_ifs
    · exact .inr ⟨_, _, f, rfl, rfl, rfl, rfl, rfl, h⟩
    · exact .inr ⟨_, _, f, rfl, rfl, rfl, rfl, rfl, h⟩
    · exact h.waitLambdaResult hl hw [packet]

/-! ## Histories -/

theorem transcript_of_repeats (h : Moved g f t s) {last : Option LinuxEvent}
    {es es' : List LinuxEvent}
    (hes : Runs.Repeats (LinuxEvent.Same o) (LinuxEvent.Copy o) last es es')
    (hlast : ∀ d, last = some (.packet d) → Settled d.env.heap s (readPacket o d.env d.packet)) :
    transcript o s es' = transcript o t es := by
  induction hes generalizing f t s with
  | nil last => rfl
  | @next last e e' es es' hsame hrest ih =>
    cases e with
    | packet d =>
      cases e' with
      | packet d' =>
        obtain rfl : d = d' := hsame
        have hformed := readPacket_formed o d.env d.packet
        obtain ⟨f', -, hmoved⟩ := h.act d.env.heap hformed
        have hsettled := settled_act h.right d.env.heap hformed
        rw [← receive_eq] at hmoved hsettled
        rw [← receive_eq] at hmoved
        refine ih hmoved fun k hk => ?_
        obtain rfl := LinuxEvent.packet.inj (Option.some.inj hk)
        exact hsettled
      | call env c w => exact hsame.elim
    | call env c w =>
      cases e' with
      | packet d => exact hsame.elim
      | call env' c' w' =>
        obtain ⟨rfl, rfl, hw⟩ := hsame
        have halike : AnswersAlike g (Linux.call o env t c w) (Linux.call o env s c w') := h.call hw
        rcases halike with
          ⟨hcall, hcall'⟩ | ⟨out, out', f', hcall, hcall', hsent, hcode, hwritten, hmoved⟩
        · rw [transcript, transcript, hcall, hcall']
          rfl
        · have hrest' := ih hmoved fun d hd => by cases hd
          rw [transcript, transcript, hcall, hcall', Option.bind_eq_bind, Option.bind_eq_bind,
            Option.bind_some, Option.bind_some, hrest', hsent, hcode, hwritten]
  | @again e e' es es' hcopy hrest ih =>
    cases e with
    | packet d =>
      cases e' with
      | packet d' =>
        obtain ⟨hread, hheap⟩ : d.Copy o d' := hcopy
        have hsettled := hlast d rfl
        have hkeeps := hsettled.keeps h.right h.freshRight hheap
        have hinv := h.right.act d'.env.heap (readPacket_formed o d.env d.packet)
        rw [← hread, ← receive_eq] at hkeeps hinv
        refine ih (h.keeps hkeeps hinv) fun k hk => ?_
        obtain rfl := LinuxEvent.packet.inj (Option.some.inj hk)
        exact hsettled.of_keeps h.right hkeeps
      | call env c w => exact hcopy.elim
    | call env c w => exact hcopy.elim

theorem moved_started (g : RsLinuxRegisteredLambda) :
    Moved g id (started fun _ => g) (started fun _ => g) where
  left := Inv.started _
  right := Inv.started _
  counter := rfl
  slot i := by
    rw [started, Registry.slot_empty, Option.map_none]
  heap _ _ := rfl
  below _ ha := ha
  injective _ _ _ _ hab := hab
  freshLeft _ _ := rfl
  freshRight _ _ := rfl

/-- A link that delivers packets again, each copy right after the first, is no different for the
clients, where memory that was not used yet reads the same everywhere. -/
theorem repeated_packets {o : ByteOrder} {es es' : List LinuxEvent}
    (h : Runs.Repeats (LinuxEvent.Same o) (LinuxEvent.Copy o) none es es')
    (g : RsLinuxRegisteredLambda) :
    transcript o (started fun _ => g) es' = transcript o (started fun _ => g) es :=
  transcript_of_repeats (moved_started g) h fun d hd => by cases hd

/-- The registration and the answer of `"a"` come twice. -/
theorem repeated_packets_a :
    transcript .little (started zeroed) [.packet registersA, .packet registersA,
        .call {} (.byId 0 RS_LAMBDA_INT) ⟨[answersFive, answersFive], [], false⟩] =
      transcript .little (started zeroed) [.packet registersA,
        .call {} (.byId 0 RS_LAMBDA_INT) ⟨[answersFive], [], false⟩] := by
  have hwait : (⟨[answersFive], [], false⟩ : Wait).Repeats .little
      ⟨[answersFive, answersFive], [], false⟩ :=
    ⟨.next rfl (.again ⟨rfl, fun h => h⟩ (.nil _)), .nil _, rfl⟩
  refine repeated_packets (.next ?_ (.again ?_ (.next ?_ (.nil _)))) ⟨false, 0, .unset⟩
  · exact rfl
  · exact ⟨rfl, fun h => h⟩
  · exact ⟨rfl, rfl, hwait⟩

end Linux

end RS
