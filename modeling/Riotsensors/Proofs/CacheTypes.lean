import Riotsensors.Sanity.Client
import Riotsensors.Sanity.Rest

/-! The cached values of the Linux process have their lambdas' types as long as every
result that is delivered does: the handler stores by id and does not look at the type. -/

namespace RS

theorem printResult_ne_none {type : RsLambdaType} {ret : GenericLambdaReturn}
    (h : ret.member = some type) : printResult type ret ≠ none := by
  cases ret with
  | unset => cases h
  | retI i =>
    obtain rfl := Option.some.inj h
    simp [printResult]
  | retD d =>
    obtain rfl := Option.some.inj h
    simp [printResult, RS_LAMBDA_INT, RS_LAMBDA_DOUBLE]
  | retS block =>
    obtain rfl := Option.some.inj h
    simp [printResult, RS_LAMBDA_INT, RS_LAMBDA_DOUBLE, RS_LAMBDA_STRING]

namespace Linux

/-- A record that is live after a packet was live before, or is new with a fresh call
state. -/
theorem slot_receive {s : Linux} (h : s.Inv) (o : ByteOrder) (d : Delivery) {i : ℕ}
    {l : RsRegisteredLambda ArgPtr} (hl : (receive o s d).registry.slot i = some l) :
    s.registry.slot i = some l ∨ l.arg = s.brk := by
  rw [receive_eq] at hl
  rcases slot_act h.wf hl with hold | ⟨mem, name, type, cache, -, -, -, -, rfl⟩
  · exact Or.inl hold
  · exact Or.inr rfl

end Linux

namespace Watched

/-- A live lambda with a cached value holds the member of its type, and that is the
member that `print_result` reads. -/
def CacheTyped (w : Watched) : Prop :=
  ∀ id l, getRegisteredLambdaById w.linux.registry id = some l →
    (w.linux.heap l.arg).dataCached = true →
      l.Typed (w.linux.heap l.arg).ret ∧ printResult l.type (w.linux.heap l.arg).ret ≠ none

/-- The pointer that the packet makes the handler free came with an earlier string result
of the lambda that the packet is for. -/
def FreesOwn (o : ByteOrder) (w : Watched) (d : Linux.Delivery) : Prop :=
  ∀ ret, (Linux.handleReceivedPacket o d.env w.linux d.packet).freed = some ret →
    ∃ id l block, getRegisteredLambdaById w.linux.registry id = some l ∧
      (Linux.handleReceivedPacket o d.env w.linux d.packet).broadcast = some l.arg ∧
      ret = .retS block ∧ (l.arg, .retS block) ∈ w.log

/-- A result for a live lambda is of the lambda's type. -/
def TypeMatches (o : ByteOrder) (w : Watched) (d : Linux.Delivery) : Prop :=
  match Linux.readPacket o d.env d.packet with
  | .result id ret _ =>
    ∀ l, getRegisteredLambdaById w.linux.registry id = some l → l.Typed ret
  | _ => True

variable {o : ByteOrder} {w : Watched} {d : Linux.Delivery}

theorem TypeMatches.delivered (h : w.TypeMatches o d) (hinv : w.Inv)
    {i : ℕ} {l : RsRegisteredLambda ArgPtr} (hl : w.linux.registry.slot i = some l)
    {ret : GenericLambdaReturn} (hdel : Linux.delivered o w.linux d = some (l.arg, ret)) :
    l.Typed ret := by
  unfold Linux.delivered at hdel
  unfold TypeMatches at h
  split at hdel
  next id ret' frees hmsg =>
    rw [hmsg] at h
    obtain ⟨m, hm, heq⟩ := Option.map_eq_some_iff.mp hdel
    obtain ⟨harg, rfl⟩ := Prod.mk.inj heq
    have hslot := (hinv.linux.wf.getById id).symm.trans hm
    have hid := hinv.linux.own _ _ _ _ hslot hl harg
    rw [hid, hl] at hslot
    rw [Option.some.inj hslot]
    exact h m hm
  next => cases hdel

/-- A packet that matches keeps the cached values typed. -/
theorem CacheTyped.receive (h : w.CacheTyped) (hinv : w.Inv) (hd : w.TypeMatches o d) :
    (w.receive o d).CacheTyped := by
  intro id l hl hc
  have htyped : l.Typed ((w.receive o d).linux.heap l.arg).ret := by
    change getRegisteredLambdaById (Linux.receive o w.linux d).registry id = some l at hl
    change ((Linux.receive o w.linux d).heap l.arg).dataCached = true at hc
    change l.Typed ((Linux.receive o w.linux d).heap l.arg).ret
    rw [(hinv.linux.receive d).wf.getById] at hl
    rcases Linux.slot_receive hinv.linux o d hl with hold | hnew
    · rcases Linux.receive_heap (hinv.linux.below _ _ hold) o d with
        ⟨ret, hdel, hheap⟩ | ⟨-, hcached, hret⟩
      · rw [hheap]
        exact hd.delivered hinv hold hdel
      · rw [hret]
        rw [← hinv.linux.wf.getById] at hold
        exact (h id l hold (hcached.symm.trans hc)).1
    · have hfresh := Linux.receive_heap_fresh hnew.ge o d ((hinv.linux.receive d).below _ _ hl)
      rw [hfresh] at hc
      cases hc
  exact ⟨htyped, printResult_ne_none htyped⟩

/-- A result of another type breaks the typing at once. -/
theorem not_cacheTyped_of_mismatch (hd : ¬ w.TypeMatches o d) : ¬ (w.receive o d).CacheTyped := by
  unfold TypeMatches at hd
  split at hd
  next id ret frees hmsg =>
    simp only [not_forall] at hd
    obtain ⟨l, hget, hmis⟩ := hd
    have hstate : (w.receive o d).linux = w.linux.setArg l.arg
        { ret := ret, lastCallError := RS_CALL_SUCCESS, dataCached := true } := by
      change Linux.receive o w.linux d = _
      rw [Linux.receive_eq, hmsg, Linux.act_result_of_live hget]
    have hcell : (w.receive o d).linux.heap l.arg = ⟨true, RS_CALL_SUCCESS, ret⟩ := by
      rw [hstate]
      exact Function.update_self ..
    intro htyped
    have hl := (htyped id l (by rw [hstate]; exact hget) (by rw [hcell])).1
    rw [hcell] at hl
    exact hmis hl
  next => exact absurd trivial hd

/-- With matching results the handler frees string results only, and its own. -/
theorem TypeMatches.freesOwn (hd : w.TypeMatches o d) (hinv : w.Inv) (h : w.CacheTyped) :
    w.FreesOwn o d := by
  intro ret hfreed
  rw [Linux.handleReceivedPacket_eq] at hfreed ⊢
  unfold TypeMatches at hd
  cases hmsg : Linux.readPacket o d.env d.packet with
  | result id ret' frees =>
    rw [hmsg] at hfreed hd
    cases hget : getRegisteredLambdaById w.linux.registry id with
    | none =>
      simp only [Linux.act, Linux.storeResult, hget] at hfreed
      cases hfreed
    | some l =>
      rw [Linux.act_result_of_live hget] at hfreed ⊢
      obtain ⟨hboth, hret⟩ := Option.ite_none_right_eq_some.mp hfreed
      obtain ⟨rfl, hcached⟩ := hboth
      have hstring : l.type = RS_LAMBDA_STRING :=
        Option.some.inj ((hd l hget).symm.trans (Linux.member_of_frees hmsg))
      have htyped := (h id l hget hcached).1
      have hlogged := hinv.logged l.arg
        (hinv.linux.below _ _ ((hinv.linux.wf.getById id).symm.trans hget)) hcached
      unfold RsRegisteredLambda.Typed at htyped
      rw [hstring] at htyped
      obtain ⟨block, hblock⟩ := exists_retS htyped
      refine ⟨id, l, block, hget, rfl, (Option.some.inj hret).symm.trans hblock, ?_⟩
      rw [← hblock]
      exact hlogged
  | registered name type cache =>
    rw [hmsg] at hfreed
    cases hfreed
  | unregistered id =>
    rw [hmsg] at hfreed
    cases hfreed
  | error id code =>
    rw [hmsg] at hfreed
    simp only [Linux.act, Linux.storeError] at hfreed
    cases hget : getRegisteredLambdaById w.linux.registry id <;> rw [hget] at hfreed <;>
      cases hfreed
  | ignored =>
    rw [hmsg] at hfreed
    cases hfreed

structure TypedInv (w : Watched) : Prop where
  inv : w.Inv
  typed : w.CacheTyped

/-- The cached values are typed in every state of a run and every pointer freed is a string
result of the lambda's own, exactly when every result matches its lambda's type. -/
theorem cache_typed_along_iff (o : ByteOrder) (garbage : ArgPtr → RsLinuxRegisteredLambda)
    (ds : List Linux.Delivery) :
    (Runs.Along (receive o) CacheTyped (started garbage) ds ∧
        Runs.Meets (receive o) (FreesOwn o) (started garbage) ds) ↔
      Runs.Meets (receive o) (TypeMatches o) (started garbage) ds := by
  have hstart : (started garbage).TypedInv := ⟨Inv.started garbage, fun id l hl => by
    rw [(Inv.started garbage).linux.wf.getById] at hl
    simp [started, Linux.started] at hl⟩
  have hkeep : ∀ w d, TypedInv w → w.TypeMatches o d → TypedInv (w.receive o d) :=
    fun w d h hd => ⟨h.inv.receive d, h.typed.receive h.inv hd⟩
  have halong := Runs.along_iff_meets hkeep (fun _ h => h.typed)
    (fun _ _ _ hd => not_cacheTyped_of_mismatch hd) hstart ds
  constructor
  · intro h
    exact halong.mp h.1
  · intro h
    exact ⟨halong.mpr h,
      Runs.meets_of_inv hkeep (fun _ _ h hd => hd.freesOwn h.inv h.typed) hstart h⟩

/-- A string result for the id 0, empty. -/
def stringForA : Linux.Delivery :=
  ⟨{}, [RS_PACKET_RESULT_STRING, 0] ++ List.replicate 12 0 ++ [0, 1, 0]⟩

/-- The handler stores a string in the integer lambda `"a"`. -/
theorem string_is_cached_for_an_int :
    ¬ ∀ ds : List Linux.Delivery,
      Runs.Along (receive .little) CacheTyped (started zeroed) ds ∧
        Runs.Meets (receive .little) (FreesOwn .little) (started zeroed) ds := by
  intro h
  have htyped := (h [registersA, stringForA]).1 _ List.prefix_rfl 0 _ rfl rfl
  exact absurd htyped.1 (by decide)

end Watched

end RS
