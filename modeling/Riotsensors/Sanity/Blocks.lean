import Riotsensors.Sanity.Client
import Riotsensors.Spec.Blocks

/-! The connector with its memory does what the connector on values does, as long as no string
is freed that is none. What each event leaves behind on the heap is counted. -/

namespace RS

open CMem

/-- How many strings the union holds: one or none. -/
def GenericLambdaReturn.strings (ret : GenericLambdaReturn) : ℕ :=
  if ret.member = some RS_LAMBDA_STRING then 1 else 0

namespace Linux

/-- The union whose `ret_s` is freed holds a number. -/
def Handled.Misfrees (h : Handled) : Prop :=
  ∃ ret, h.freed = some ret ∧ ret.member ≠ some RS_LAMBDA_STRING

/-- A string arrives for a lambda that has a number cached. -/
def MixesTypes (o : ByteOrder) (s : Linux) (d : Delivery) : Prop :=
  ∃ a ret, delivered o s d = some (a, ret) ∧ ret.member = some RS_LAMBDA_STRING ∧
    (s.heap a).dataCached = true ∧ (s.heap a).ret.member ≠ some RS_LAMBDA_STRING

/-- The blocks that a message leaves to nobody: the copy of a string packet, and the string
that a number is stored over. -/
def lost (s : Linux) : Message → ℕ
  | .result id ret _ =>
    if ret.member = some RS_LAMBDA_STRING then 1
    else match getRegisteredLambdaById s.registry id with
      | none => 0
      | some lambda => (s.heap lambda.arg).ret.strings
  | _ => 0

def leaks (o : ByteOrder) (s : Linux) (d : Delivery) : ℕ := s.lost (readPacket o d.env d.packet)

def leaksOf (o : ByteOrder) (s : Linux) : LinuxEvent → ℕ
  | .packet d => s.leaks o d
  | .call _ c w =>
    if (s.waitsOn c).isSome then Runs.total (receive o) (leaks o) s w.packets else 0

/-- No string arrives, during a wait neither, for a lambda that has a number cached. -/
def Safe (o : ByteOrder) (s : Linux) : LinuxEvent → Prop
  | .packet d => ¬ s.MixesTypes o d
  | .call _ c w =>
    (s.waitsOn c).isSome → Runs.Meets (receive o) (fun s d => ¬ s.MixesTypes o d) s w.packets

/-- No call uses a freed record or overruns its packet. -/
def Defined (o : ByteOrder) (s : Linux) : LinuxEvent → Prop
  | .packet _ => True
  | .call env c w => (call o env s c w).isSome

/-- The state that an event leaves where it is defined. -/
def next (o : ByteOrder) (s : Linux) : LinuxEvent → Linux
  | .packet d => receive o s d
  | .call env c w => ((call o env s c w).map CallOutcome.state).getD s

/-- The cached strings. -/
def held (s : Linux) : ℕ := ∑ a ∈ Finset.range s.brk, (s.heap a).ret.strings

theorem held_setArg {s : Linux} {a : ArgPtr} (ha : a < s.brk) (v : RsLinuxRegisteredLambda) :
    (s.setArg a v).held + (s.heap a).ret.strings = s.held + v.ret.strings := by
  have hmem : a ∈ Finset.range s.brk := Finset.mem_range.mpr ha
  have hold := Finset.sum_erase_add (Finset.range s.brk) (fun a => (s.heap a).ret.strings) hmem
  have hnew := Finset.sum_erase_add (Finset.range s.brk)
    (fun a' => ((s.setArg a v).heap a').ret.strings) hmem
  have hrest : ∑ a' ∈ (Finset.range s.brk).erase a, ((s.setArg a v).heap a').ret.strings =
      ∑ a' ∈ (Finset.range s.brk).erase a, (s.heap a').ret.strings := by
    refine Finset.sum_congr rfl fun a' ha' => ?_
    change (Function.update s.heap a v a').ret.strings = _
    rw [Function.update_of_ne (Finset.ne_of_mem_erase ha')]
  have hself : ((s.setArg a v).heap a).ret.strings = v.ret.strings := by
    change (Function.update s.heap a v a).ret.strings = _
    rw [Function.update_self]
  change (∑ a' ∈ Finset.range s.brk, ((s.setArg a v).heap a').ret.strings) + _ =
    (∑ a' ∈ Finset.range s.brk, (s.heap a').ret.strings) + _
  rw [← hold, ← hnew, hrest, hself]
  exact Nat.add_right_comm _ _ _

/-- A code changes no string. -/
theorem held_setArg_of_ret {s : Linux} {a : ArgPtr} {v : RsLinuxRegisteredLambda}
    (hret : v.ret = (s.heap a).ret) : (s.setArg a v).held = s.held := by
  refine Finset.sum_congr rfl fun a' _ => ?_
  change (Function.update s.heap a v a').ret.strings = _
  by_cases ha : a' = a
  · rw [ha, Function.update_self, hret]
  · rw [Function.update_of_ne ha]

/-- The string results are those that free the old value. -/
theorem frees_iff {o : ByteOrder} {env : Env} {packet : Packet} {id : LambdaId}
    {ret : GenericLambdaReturn} {frees : Bool} (h : readPacket o env packet = .result id ret frees) :
    frees = true ↔ ret.member = some RS_LAMBDA_STRING := by
  constructor
  · rintro rfl
    exact member_of_frees h
  · intro hmember
    unfold readPacket at h
    split_ifs at h
    all_goals cases h
    all_goals first | rfl | cases hmember

theorem misfrees_iff {o : ByteOrder} {s : Linux} {d : Delivery} :
    (handleReceivedPacket o d.env s d.packet).Misfrees ↔ MixesTypes o s d := by
  rw [handleReceivedPacket_eq, MixesTypes, delivered]
  cases hmsg : readPacket o d.env d.packet with
  | result id ret frees =>
    cases hget : getRegisteredLambdaById s.registry id with
    | none =>
      rw [act, storeResult, hget]
      refine iff_of_false (fun h => ?_) fun h => ?_
      · obtain ⟨ret, hfreed, -⟩ := h
        cases hfreed
      · obtain ⟨a, ret, hdel, -⟩ := h
        simp only [hget, Option.map_none] at hdel
        cases hdel
    | some l =>
      rw [act_result_of_live hget]
      constructor
      · rintro ⟨ret', hfreed, hmember⟩
        dsimp only at hfreed
        split_ifs at hfreed with hboth
        rw [← Option.some.inj hfreed] at hmember
        exact ⟨l.arg, ret, by simp only [hget, Option.map_some], (frees_iff hmsg).mp hboth.1,
          hboth.2, hmember⟩
      · rintro ⟨a, ret', hdel, hmember, hcached, hold⟩
        simp only [hget, Option.map_some] at hdel
        obtain ⟨rfl, rfl⟩ := Prod.mk.inj (Option.some.inj hdel)
        exact ⟨_, if_pos ⟨(frees_iff hmsg).mpr hmember, hcached⟩, hold⟩
  | error id code =>
    refine iff_of_false (fun h => ?_) fun h => ?_
    · obtain ⟨ret, hfreed, -⟩ := h
      rw [act, storeError] at hfreed
      cases hget : getRegisteredLambdaById s.registry id with
      | none =>
        rw [hget] at hfreed
        cases hfreed
      | some l =>
        rw [hget] at hfreed
        cases hfreed
    · obtain ⟨a, ret, hdel, -⟩ := h
      cases hdel
  | _ =>
    refine iff_of_false (fun h => ?_) fun h => ?_
    · obtain ⟨ret, hfreed, -⟩ := h
      cases hfreed
    · obtain ⟨a, ret, hdel, -⟩ := h
      cases hdel

end Linux

namespace Process

variable {o : ByteOrder} {s s' : Process}

/-- Every string is owned by one call state, which has it cached. -/
structure Inv (s : Process) : Prop where
  live : ∀ a p, (s.args a).ret = .retS p → ∃ b, s.heap.block p = some b
  own : ∀ a a' p, (s.args a).ret = .retS p → (s.args a').ret = .retS p → a = a'
  cached : ∀ a p, (s.args a).ret = .retS p → (s.args a).dataCached = true ∧ a < s.brk

theorem Inv.started (cached : ArgPtr → Bool) (code : ArgPtr → Int8) :
    (started cached code).Inv where
  live _ _ h := by cases h
  own _ _ _ h := by cases h
  cached _ _ h := by cases h

/-- Beside the cached strings `n` more blocks are live in `s'` than in `s`. -/
def Leaves (s s' : Process) (n : ℕ) : Prop :=
  s'.heap.live.card + s.values.held = s.heap.live.card + s'.values.held + n

theorem Leaves.trans {s₁ s₂ s₃ : Process} {m n : ℕ} (h : s₁.Leaves s₂ m) (h' : s₂.Leaves s₃ n) :
    s₁.Leaves s₃ (m + n) := by
  unfold Leaves at h h' ⊢
  omega

/-- What the handler with its memory does, next to what the handler on values does. -/
def Simulates (s : Process) (n : ℕ) (out : Option Process) (h : Linux.Handled) : Prop :=
  match out with
  | some s' => s'.Inv ∧ s'.values = h.state ∧ ¬ h.Misfrees ∧ s.Leaves s' n
  | none => h.Misfrees

theorem not_misfrees_of_none {h : Linux.Handled} (hfreed : h.freed = none) : ¬ h.Misfrees := by
  rintro ⟨ret, heq, -⟩
  rw [hfreed] at heq
  cases heq

theorem simulates_quiet (h : s.Inv) : s.Simulates 0 (some s) (Linux.Handled.quiet s.values) :=
  ⟨h, rfl, not_misfrees_of_none rfl, rfl⟩

@[simp] theorem args_setArg_self (s : Process) (a : ArgPtr) (v : StoredLambda) :
    (s.setArg a v).args a = v := Function.update_self ..

theorem args_setArg_of_ne (s : Process) {a a' : ArgPtr} (v : StoredLambda) (h : a' ≠ a) :
    (s.setArg a v).args a' = s.args a' := Function.update_of_ne h ..

theorem values_setArg (s : Process) (a : ArgPtr) (v : StoredLambda) :
    (s.setArg a v).values = s.values.setArg a (v.read s.heap) := by
  have hargs : (fun a' => ((s.setArg a v).args a').read s.heap) =
      Function.update s.values.heap a (v.read s.heap) := by
    funext a'
    by_cases ha : a' = a
    · rw [ha, args_setArg_self, Function.update_self]
    · rw [args_setArg_of_ne s v ha, Function.update_of_ne ha]
      rfl
  exact congrArg (fun heap => (⟨s.registry, heap, s.brk⟩ : Linux)) hargs

/-- A call state is given a value that is no string. -/
theorem Inv.setNumber (h : s.Inv) (a : ArgPtr) {v : StoredLambda}
    (hv : ∀ p, v.ret ≠ .retS p) : (s.setArg a v).Inv := by
  have hold : ∀ a' p, ((s.setArg a v).args a').ret = .retS p → (s.args a').ret = .retS p ∧
      ((s.setArg a v).args a') = s.args a' := by
    intro a' p hp
    by_cases ha : a' = a
    · rw [ha, args_setArg_self] at hp
      exact absurd hp (hv p)
    · rw [args_setArg_of_ne s v ha] at hp ⊢
      exact ⟨hp, rfl⟩
  refine ⟨fun a' p hp => h.live a' p (hold a' p hp).1,
    fun a' a'' p hp hp' => h.own a' a'' p (hold a' p hp).1 (hold a'' p hp').1, fun a' p hp => ?_⟩
  rw [(hold a' p hp).2]
  exact h.cached a' p (hold a' p hp).1

/-- A call state keeps its value, and its flag if the value is a string. -/
theorem Inv.setCode (h : s.Inv) (a : ArgPtr) (code : Int8) :
    (s.setArg a { s.args a with lastCallError := code }).Inv := by
  have hsame : ∀ a', ((s.setArg a { s.args a with lastCallError := code }).args a').ret =
      (s.args a').ret ∧ ((s.setArg a { s.args a with lastCallError := code }).args a').dataCached =
      (s.args a').dataCached := by
    intro a'
    by_cases ha : a' = a
    · rw [ha, args_setArg_self]
      exact ⟨rfl, rfl⟩
    · rw [args_setArg_of_ne s _ ha]
      exact ⟨rfl, rfl⟩
  refine ⟨fun a' p hp => h.live a' p ((hsame a').1 ▸ hp), fun a' a'' p hp hp' =>
    h.own a' a'' p ((hsame a').1 ▸ hp) ((hsame a'').1 ▸ hp'), fun a' p hp => ?_⟩
  rw [(hsame a').2]
  exact h.cached a' p ((hsame a').1 ▸ hp)

theorem simulates_storeNumber (h : s.Inv) (hlinux : s.values.Inv) (id : LambdaId)
    {ret : StoredReturn} (hret : (ret.read s.heap).member ≠ some RS_LAMBDA_STRING) :
    s.Simulates (s.values.lost (.result id (ret.read s.heap) false)) (some (s.storeNumber id ret))
      (Linux.storeResult s.values id (ret.read s.heap) false) := by
  have hnumber : ∀ p, ret ≠ .retS p := by
    rintro p rfl
    exact hret rfl
  rw [Linux.lost, if_neg hret, Process.storeNumber, Linux.storeResult]
  change s.Simulates (match getRegisteredLambdaById s.registry id with
    | none => _
    | some lambda => _) (some (match getRegisteredLambdaById s.registry id with
    | none => s
    | some lambda => _)) (match getRegisteredLambdaById s.registry id with
    | none => _
    | some lambda => _)
  cases hget : getRegisteredLambdaById s.registry id with
  | none => exact simulates_quiet h
  | some l =>
    have hslot := (hlinux.wf.getById id).symm.trans hget
    refine ⟨h.setNumber l.arg hnumber, values_setArg s l.arg _, not_misfrees_of_none ?_, ?_⟩
    · dsimp only
      rw [if_neg fun hfrees => Bool.false_ne_true hfrees.1]
    · have hheld := Linux.held_setArg (hlinux.below _ l hslot)
        (StoredLambda.read s.heap ⟨true, RS_CALL_SUCCESS, ret⟩)
      rw [show (StoredLambda.read s.heap ⟨true, RS_CALL_SUCCESS, ret⟩).ret.strings = 0 from
        if_neg hret, ← values_setArg] at hheld
      change s.heap.live.card + s.values.held = s.heap.live.card + Linux.held _ + _
      rw [Nat.add_assoc, hheld, Nat.add_zero]

/-- A call state keeps its value and gets another code. -/
theorem leaves_setCode (s : Process) (a : ArgPtr) (code : Int8) :
    s.Leaves (s.setArg a { s.args a with lastCallError := code }) 0 := by
  have hheld : (s.setArg a { s.args a with lastCallError := code }).values.held =
      s.values.held := by
    rw [values_setArg]
    exact Linux.held_setArg_of_ret rfl
  rw [Leaves, hheld]
  rfl

theorem simulates_handleResultError (h : s.Inv) (mypkt : Packet) :
    s.Simulates 0 (some (s.handleResultError mypkt))
      (Linux.handleResultError s.values mypkt) := by
  unfold Process.handleResultError Linux.handleResultError
  change s.Simulates 0 (some (match getRegisteredLambdaById s.registry _ with
    | none => s
    | some lambda => _)) (match getRegisteredLambdaById s.registry _ with
    | none => _
    | some lambda => _)
  cases getRegisteredLambdaById s.registry (byteAt mypkt LAMBDA_ID) with
  | none => exact simulates_quiet h
  | some l =>
    exact ⟨h.setCode l.arg _, values_setArg s l.arg _, not_misfrees_of_none rfl,
      leaves_setCode s l.arg _⟩

theorem simulates_handleUnregistered (h : s.Inv) (mypkt : Packet) :
    s.Simulates 0 (some (s.handleUnregistered mypkt))
      (Linux.handleUnregistered s.values mypkt) := by
  unfold Process.handleUnregistered Linux.handleUnregistered
  change s.Simulates 0 (some (match getRegisteredLambdaById s.registry _ with
    | none => s
    | some lambda => _)) (match getRegisteredLambdaById s.registry _ with
    | none => _
    | some lambda => _)
  cases getRegisteredLambdaById s.registry (byteAt mypkt LAMBDA_ID) with
  | none => exact simulates_quiet h
  | some l => exact ⟨⟨h.live, h.own, h.cached⟩, rfl, not_misfrees_of_none rfl, rfl⟩

theorem simulates_handleRegistered (h : s.Inv) (env : Env) (mypkt : Packet) :
    s.Simulates 0 (some (s.handleRegistered env mypkt))
      (Linux.handleRegistered env s.values mypkt) := by
  have hbrk : ∀ p, (s.args s.brk).ret ≠ .retS p := fun p hp =>
    absurd (h.cached s.brk p hp).2 (lt_irrefl s.brk)
  have hset := h.setNumber s.brk (v := { s.args s.brk with dataCached := false }) hbrk
  have hvalues : (s.handleRegistered env mypkt).values =
      (Linux.handleRegistered env s.values mypkt).state := by
    have hheap := congrArg Linux.heap
      (values_setArg s s.brk { s.args s.brk with dataCached := false })
    exact congrArg (fun heap => (⟨_, heap, s.brk + 1⟩ : Linux)) hheap
  refine ⟨⟨hset.live, hset.own, fun a p hp => ?_⟩, hvalues, not_misfrees_of_none rfl, ?_⟩
  · exact ⟨(hset.cached a p hp).1, Nat.lt_succ_of_lt (hset.cached a p hp).2⟩
  · -- the new call state holds no string
    have hnew : ((s.args s.brk).ret.read s.heap).strings = 0 := by
      refine if_neg fun hmember => ?_
      cases hret : (s.args s.brk).ret with
      | retS p => exact hbrk p hret
      | _ =>
        rw [hret] at hmember
        cases hmember
    have hheld : (s.handleRegistered env mypkt).values.held = s.values.held := by
      rw [hvalues]
      change ∑ a ∈ Finset.range (s.brk + 1), (Function.update s.values.heap s.brk
        { s.values.heap s.brk with dataCached := false } a).ret.strings = _
      rw [Finset.sum_range_succ, Function.update_self]
      change _ + ((s.args s.brk).ret.read s.heap).strings = _
      rw [hnew, Nat.add_zero]
      refine Finset.sum_congr rfl fun a ha => ?_
      have hne : a ≠ s.brk := (Finset.mem_range.mp ha).ne
      rw [Function.update_of_ne hne]
    change s.heap.live.card + s.values.held = s.heap.live.card + Linux.held _
    rw [hheld]

/-- What a call state owns is not touched by what happens at new and at other addresses. -/
theorem read_eq {heap heap' : Heap (List UInt8)} {ret : StoredReturn}
    (h : ∀ p, ret = .retS p → heap'.block p = heap.block p) : ret.read heap' = ret.read heap := by
  cases ret with
  | retS p => rw [StoredReturn.read, StoredReturn.read, h p rfl]
  | _ => rfl

theorem Inv.withHeap (h : s.Inv) {heap : Heap (List UInt8)}
    (hblock : ∀ a p, (s.args a).ret = .retS p → heap.block p = s.heap.block p) :
    Inv { s with heap } ∧ values { s with heap } = s.values := by
  refine ⟨⟨fun a p hp => ?_, h.own, h.cached⟩, ?_⟩
  · rw [hblock a p hp]
    exact h.live a p hp
  · have hargs : (fun a => (s.args a).read heap) = fun a => (s.args a).read s.heap := by
      funext a
      rw [StoredLambda.read, read_eq (hblock a)]
      rfl
    exact congrArg (fun heap => (⟨s.registry, heap, s.brk⟩ : Linux)) hargs

theorem Inv.alloc (h : s.Inv) (b : List UInt8) :
    Inv { s with heap := s.heap.alloc b } ∧
      values { s with heap := s.heap.alloc b } = s.values := by
  refine h.withHeap fun a p hp => ?_
  obtain ⟨b', hb'⟩ := h.live a p hp
  rw [hb', Heap.block_alloc hb']

/-- A block that is freed at once is never missed. -/
theorem Inv.scratch (h : s.Inv) (b : List UInt8) :
    Inv { s with heap := (s.heap.alloc b).erase s.heap.next } ∧
      values { s with heap := (s.heap.alloc b).erase s.heap.next } = s.values := by
  refine h.withHeap fun a p hp => ?_
  obtain ⟨b', hb'⟩ := h.live a p hp
  rw [Heap.block_erase_of_ne (Heap.lt_next hb').ne, hb', Heap.block_alloc hb']

/-- A call state gets a new block, and what it owned before may be gone. -/
theorem Inv.replace (h : s.Inv) {a : ArgPtr} (ha : a < s.brk) {heap : Heap (List UInt8)}
    (hnext : heap.next = s.heap.next)
    (hblock : ∀ a' p, a' ≠ a → (s.args a').ret = .retS p → heap.block p = s.heap.block p)
    (b : List UInt8) {s' : Process}
    (hs' : s' = { s with heap := heap.alloc b }.setArg a
      ⟨true, RS_CALL_SUCCESS, .retS heap.next⟩) :
    s'.Inv ∧ s'.values = s.values.setArg a ⟨true, RS_CALL_SUCCESS, .retS b⟩ := by
  have hself : s'.args a = ⟨true, RS_CALL_SUCCESS, .retS heap.next⟩ := by
    rw [hs', args_setArg_self]
  have hother : ∀ a', a' ≠ a → s'.args a' = s.args a' := fun a' hne => by
    rw [hs', args_setArg_of_ne _ _ hne]
  have hheap : s'.heap = heap.alloc b := by rw [hs']; rfl
  have hkept : ∀ a' p, a' ≠ a → (s.args a').ret = .retS p →
      p ≠ heap.next ∧ s'.heap.block p = s.heap.block p := by
    intro a' p hne hp
    obtain ⟨b', hb'⟩ := h.live a' p hp
    have hlt := Heap.lt_next hb'
    rw [← hnext] at hlt
    rw [hheap, Heap.block_alloc_of_ne b hlt.ne, hblock a' p hne hp]
    exact ⟨hlt.ne, rfl⟩
  have hbrk : s'.brk = s.brk := by rw [hs']; rfl
  refine ⟨⟨fun a' p hp => ?_, fun a' a'' p hp hp' => ?_, fun a' p hp => ?_⟩, ?_⟩
  · by_cases hne : a' = a
    · rw [hne, hself] at hp
      obtain rfl := StoredReturn.retS.inj hp
      rw [hheap, Heap.block_alloc_self]
      exact ⟨b, rfl⟩
    · rw [hother a' hne] at hp
      rw [(hkept a' p hne hp).2]
      exact h.live a' p hp
  · by_cases hne : a' = a
    · by_cases hne' : a'' = a
      · rw [hne, hne']
      · rw [hne, hself] at hp
        rw [hother a'' hne'] at hp'
        exact absurd (StoredReturn.retS.inj hp).symm (hkept a'' p hne' hp').1
    · rw [hother a' hne] at hp
      by_cases hne' : a'' = a
      · rw [hne', hself] at hp'
        exact absurd (StoredReturn.retS.inj hp').symm (hkept a' p hne hp).1
      · rw [hother a'' hne'] at hp'
        exact h.own a' a'' p hp hp'
  · rw [hbrk]
    by_cases hne : a' = a
    · rw [hne, hself]
      exact ⟨rfl, ha⟩
    · rw [hother a' hne] at hp ⊢
      exact h.cached a' p hp
  · have hargs : (fun a' => (s'.args a').read s'.heap) =
        Function.update s.values.heap a ⟨true, RS_CALL_SUCCESS, .retS b⟩ := by
      funext a'
      by_cases hne : a' = a
      · rw [hne, hself, Function.update_self, StoredLambda.read, StoredReturn.read, hheap,
          Heap.block_alloc_self]
        rfl
      · rw [hother a' hne, Function.update_of_ne hne, StoredLambda.read,
          read_eq fun p hp => (hkept a' p hne hp).2]
        rfl
    rw [hs'] at hargs ⊢
    exact congrArg (fun heap => (⟨s.registry, heap, s.brk⟩ : Linux)) hargs

/-- A string is cached, unless the value that was cached is none. -/
theorem cacheString_cases (h : s.Inv) {a : ArgPtr} (ha : a < s.brk) (block : List UInt8) :
    (∃ s', s.cacheString a block = some s' ∧ s'.Inv ∧
      s'.values = s.values.setArg a ⟨true, RS_CALL_SUCCESS, .retS block⟩ ∧
      s'.heap.live.card + (s.values.heap a).ret.strings = s.heap.live.card + 1 ∧
      ((s.args a).dataCached = true → ∃ p, (s.args a).ret = .retS p)) ∨
    (s.cacheString a block = none ∧ (s.args a).dataCached = true ∧
      ((s.args a).ret.read s.heap).member ≠ some RS_LAMBDA_STRING) := by
  cases hcached : (s.args a).dataCached with
  | false =>
    obtain ⟨hinv, hvalues⟩ := h.replace ha rfl (fun _ _ _ _ => rfl) block rfl
    refine Or.inl ⟨_, ?_, hinv, hvalues, ?_, fun hc => by cases hc⟩
    · rw [Process.cacheString, hcached]
      rfl
    · have hnone : (s.values.heap a).ret.strings = 0 := by
        refine if_neg fun hmember => ?_
        change ((s.args a).ret.read s.heap).member = _ at hmember
        cases hret : (s.args a).ret with
        | retS p =>
          rw [(h.cached a p hret).1] at hcached
          cases hcached
        | _ =>
          rw [hret] at hmember
          cases hmember
      rw [hnone]
      exact Heap.card_live_alloc s.heap block
  | true =>
    cases hret : (s.args a).ret with
    | retS p =>
      obtain ⟨b, hb⟩ := h.live a p hret
      have hblock : ∀ a' p', a' ≠ a → (s.args a').ret = .retS p' →
          (s.heap.erase p).block p' = s.heap.block p' := by
        intro a' p' hne hp'
        refine Heap.block_erase_of_ne fun heq => hne ?_
        exact h.own a' a p' hp' (heq ▸ hret)
      obtain ⟨hinv, hvalues⟩ := h.replace ha (Heap.next_erase s.heap p) hblock block rfl
      refine Or.inl ⟨_, ?_, hinv, hvalues, ?_, fun _ => ⟨p, rfl⟩⟩
      · rw [Process.cacheString, hcached, hret, if_pos rfl, freeReturn, Heap.free_of_live hb]
        rfl
      · have hone : (s.values.heap a).ret.strings = 1 := by
          change ((s.args a).ret.read s.heap).strings = 1
          rw [hret]
          rfl
        rw [hone]
        change ((s.heap.erase p).alloc block).live.card + 1 = _
        rw [Heap.card_live_alloc, Heap.card_live_erase hb]
    | unset =>
      refine Or.inr ⟨?_, rfl, fun hm => by cases hm⟩
      rw [Process.cacheString, hcached, hret]
      rfl
    | retI i =>
      refine Or.inr ⟨?_, rfl, fun hm => by cases hm⟩
      rw [Process.cacheString, hcached, hret]
      rfl
    | retD d =>
      refine Or.inr ⟨?_, rfl, fun hm => by cases hm⟩
      rw [Process.cacheString, hcached, hret]
      rfl

theorem simulates_storeString (h : s.Inv) (hlinux : s.values.Inv) (env : Env) (mypkt : Packet) :
    s.Simulates 1 (s.storeString o env mypkt) (Linux.storeResult s.values (byteAt mypkt LAMBDA_ID)
      (.retS (Linux.resultBlock o env mypkt)) true) := by
  obtain ⟨hcopy, hvalues⟩ := h.alloc mypkt
  have hleaves : s.Leaves { s with heap := s.heap.alloc mypkt } 1 := by
    rw [Leaves, hvalues, Heap.card_live_alloc]
    exact Nat.add_right_comm _ _ _
  rw [← hvalues] at hlinux ⊢
  unfold Process.storeString Linux.storeResult
  change s.Simulates 1 (match getRegisteredLambdaById s.registry _ with
    | none => some { s with heap := s.heap.alloc mypkt }
    | some lambda => Process.cacheString { s with heap := s.heap.alloc mypkt } lambda.arg _)
    (match getRegisteredLambdaById s.registry _ with
    | none => _
    | some lambda => _)
  cases hget : getRegisteredLambdaById s.registry (byteAt mypkt LAMBDA_ID) with
  | none => exact ⟨hcopy, rfl, not_misfrees_of_none rfl, hleaves⟩
  | some l =>
    have hslot := (hlinux.wf.getById (byteAt mypkt LAMBDA_ID)).symm.trans hget
    have hbelow : l.arg < s.brk := hlinux.below _ l hslot
    rcases cacheString_cases hcopy hbelow (Linux.resultBlock o env mypkt) with
      ⟨s', hs', hinv, hstate, hlive, hstring⟩ | ⟨hnone, hcached, hmember⟩
    · dsimp only
      rw [hs']
      refine ⟨hinv, hstate, ?_, ?_⟩
      · rintro ⟨ret, hfreed, hmember⟩
        dsimp only at hfreed
        split_ifs at hfreed with hfrees
        obtain ⟨p, hp⟩ := hstring hfrees.2
        rw [← Option.some.inj hfreed] at hmember
        refine hmember ?_
        change ((s.args l.arg).ret.read _).member = _
        rw [hp]
        rfl
      · have hheld := Linux.held_setArg (s := values { s with heap := s.heap.alloc mypkt }) hbelow
          ⟨true, RS_CALL_SUCCESS, .retS (Linux.resultBlock o env mypkt)⟩
        rw [← hstate] at hheld
        have hone : GenericLambdaReturn.strings (.retS (Linux.resultBlock o env mypkt)) = 1 := rfl
        unfold Leaves at hleaves ⊢
        dsimp only at hheld hlive hleaves
        omega
    · dsimp only
      rw [hnone]
      exact ⟨_, if_pos ⟨rfl, hcached⟩, hmember⟩

/-- The handler with its memory does what the handler on values does, unless it frees what is
no string. -/
theorem simulates_handleReceivedPacket (h : s.Inv) (hlinux : s.values.Inv) (env : Env)
    (packet : Packet) :
    s.Simulates (s.values.lost (Linux.readPacket o env packet))
      (s.handleReceivedPacket o env packet)
      (Linux.handleReceivedPacket o env s.values packet) := by
  unfold Process.handleReceivedPacket Linux.handleReceivedPacket Linux.readPacket
  split_ifs
  · exact simulates_quiet h
  · exact simulates_quiet h
  · exact simulates_handleRegistered h env _
  · exact simulates_quiet h
  · exact simulates_handleUnregistered h _
  · exact simulates_quiet h
  · exact simulates_storeNumber h hlinux _ fun hmember => by cases hmember
  · exact simulates_quiet h
  · exact simulates_storeNumber h hlinux _ fun hmember => by cases hmember
  · exact simulates_quiet h
  · exact simulates_storeString h hlinux env _
  · exact simulates_quiet h
  · exact simulates_handleResultError h _
  · exact simulates_quiet h

/-- The process with its memory refines the process on values. -/
theorem refines (o : ByteOrder) : Runs.Refines (Linux.receive o) (receive o) values
    (fun s => s.Inv ∧ s.values.Inv) (fun s d => ¬ s.MixesTypes o d) := by
  intro s d ⟨h, hlinux⟩
  have hsim := simulates_handleReceivedPacket (o := o) h hlinux d.env d.packet
  cases hout : s.handleReceivedPacket o d.env d.packet with
  | none =>
    rw [hout] at hsim
    exact Or.inr ⟨hout, fun hnot => hnot (Linux.misfrees_iff.mp hsim)⟩
  | some s' =>
    rw [hout] at hsim
    obtain ⟨hinv, hvalues, hfree, -⟩ := hsim
    refine Or.inl ⟨s', hout, ⟨hinv, ?_⟩, hvalues, fun hmix => hfree (Linux.misfrees_iff.mpr hmix)⟩
    rw [hvalues]
    exact hlinux.receive d

theorem leaves_receive (h : s.Inv) (hlinux : s.values.Inv) {d : Linux.Delivery}
    (hstep : receive o s d = some s') : s.Leaves s' (s.values.leaks o d) := by
  have hsim := simulates_handleReceivedPacket (o := o) h hlinux d.env d.packet
  change s.handleReceivedPacket o d.env d.packet = some s' at hstep
  rw [hstep] at hsim
  exact hsim.2.2.2

theorem leaves_of_run (h : s.Inv) (hlinux : s.values.Inv) {ds : List Linux.Delivery}
    (hrun : s.receiveAll o ds = some s') :
    s.Leaves s' (Runs.total (Linux.receive o) (Linux.leaks o) s.values ds) :=
  (refines o).foldlM_total (fun s => s.heap.live.card) (fun s => s.values.held) (Linux.leaks o)
    (fun _ _ _ hs hstep => leaves_receive hs.1 hs.2 hstep) ⟨h, hlinux⟩ hrun

/-! ## Calls -/

/-- What a call returns, with the string in place of its address. -/
def Returned.read (out : Returned) : Linux.CallOutcome :=
  ⟨out.state.values, out.sent, out.code, out.written.map (StoredReturn.read out.state.heap)⟩

/-- What a call on the process with its memory does, next to the call on values. -/
def Agrees (s : Process) (n : ℕ) (safe : Prop) (out : Option Returned)
    (lout : Option Linux.CallOutcome) : Prop :=
  match out with
  | some r => lout = some r.read ∧ safe ∧ r.state.Inv ∧ s.Leaves r.state n
  | none => lout = none ∨ ¬ safe

/-- The outcome does not tell two processes apart that have the same values and as many
blocks. -/
theorem Agrees.of_alike {s₀ : Process} {n : ℕ} {safe : Prop} {out : Option Returned}
    {lout : Option Linux.CallOutcome} (h : s₀.Agrees n safe out lout)
    (hlive : s₀.heap.live.card = s.heap.live.card) (hvalues : s₀.values = s.values) :
    s.Agrees n safe out lout := by
  cases out with
  | none => exact h
  | some r =>
    obtain ⟨hout, hsafe, hinv, hleaves⟩ := h
    refine ⟨hout, hsafe, hinv, ?_⟩
    rw [Leaves, hlive, hvalues] at hleaves
    exact hleaves

theorem agrees_quiet (h : s.Inv) {safe : Prop} (hsafe : safe) (code : Int8)
    (written : Option StoredReturn) :
    s.Agrees 0 safe (some ⟨s, [], code, written⟩)
      (some ⟨s.values, [], code, written.map (StoredReturn.read s.heap)⟩) :=
  ⟨rfl, hsafe, h, rfl⟩

theorem checkLambdaCache_values (s : Process) (lambda : RsRegisteredLambda ArgPtr) :
    Linux.checkLambdaCache s.values lambda = ((s.checkLambdaCache lambda).1,
      (s.checkLambdaCache lambda).2.map (StoredReturn.read s.heap)) := by
  unfold Linux.checkLambdaCache Process.checkLambdaCache
  cases hcached : (s.args lambda.arg).dataCached
  all_goals
    simp only [values, StoredLambda.read, hcached, if_true, if_false, Bool.false_eq_true]
    split_ifs
    all_goals rfl

/-- What follows the wait does to values what it does to the values of the blocks. -/
theorem afterWait_values (s : Process) (lambda : RsRegisteredLambda ArgPtr) (timedOut : Bool) :
    s.values.afterWait lambda timedOut = (s.afterWait lambda timedOut).map fun after =>
      (after.1.values, after.2.1, after.2.2.map (StoredReturn.read s.heap)) := by
  have hread : s.values.heap lambda.arg = (s.args lambda.arg).read s.heap := rfl
  have hentry : s.values.entry lambda = s.registry.slot lambda.id.toNat := rfl
  unfold Linux.afterWait Process.afterWait
  simp only [hread, hentry, StoredLambda.read]
  cases timedOut with
  | false =>
    simp only [Bool.false_eq_true, if_false]
    split_ifs <;> rfl
  | true =>
    simp only [if_true]
    by_cases hcode : (s.args lambda.arg).lastCallError ≠ 0
    · simp only [if_pos hcode, Option.map_some, values_setArg]
      rfl
    simp only [if_neg hcode]
    cases hcached : (s.args lambda.arg).dataCached
    all_goals
      simp only [if_true, if_false, Bool.false_eq_true]
      split_ifs <;> rfl

/-- It resets an error code at most. -/
theorem afterWait_state {lambda : RsRegisteredLambda ArgPtr} {timedOut : Bool} {s' : Process}
    {code : Int8} {written : Option StoredReturn}
    (h : s.afterWait lambda timedOut = some (s', code, written)) :
    s' = s.setArg lambda.arg { s.args lambda.arg with lastCallError := 0 } ∧ written = none ∨
      s' = s ∧ ∀ v, written = some v → (s.args lambda.arg).ret = v := by
  unfold Process.afterWait at h
  dsimp only at h
  split_ifs at h
  all_goals obtain ⟨rfl, rfl, rfl⟩ : _ ∧ _ ∧ _ := by simpa using h
  · exact Or.inl ⟨rfl, rfl⟩
  · exact Or.inr ⟨rfl, fun v hv => Option.some.inj hv⟩
  · exact Or.inr ⟨rfl, fun v hv => by cases hv⟩
  · exact Or.inr ⟨rfl, fun v hv => by cases hv⟩
  · exact Or.inr ⟨rfl, fun v hv => Option.some.inj hv⟩

theorem agrees_waitLambdaResult (h : s.Inv) (hlinux : s.values.Inv)
    (lambda : RsRegisteredLambda ArgPtr) (w : Linux.Wait) (sent : List Packet) :
    s.Agrees (Runs.total (Linux.receive o) (Linux.leaks o) s.values w.packets)
      (Runs.Meets (Linux.receive o) (fun s d => ¬ s.MixesTypes o d) s.values w.packets)
      (s.waitLambdaResult o lambda w sent) (Linux.waitLambdaResult o s.values lambda w sent) := by
  have hmeets := (refines o).foldlM_isSome_iff ⟨h, hlinux⟩ w.packets
  unfold Process.waitLambdaResult Linux.waitLambdaResult
  change Agrees _ _ _ ((w.packets.foldlM (receive o) s).bind _) _
  cases hrun : w.packets.foldlM (receive o) s with
  | none =>
    rw [hrun] at hmeets
    exact Or.inr fun hm => Bool.false_ne_true (hmeets.mpr hm)
  | some s' =>
    have hsafe := hmeets.mp (by rw [hrun]; rfl)
    obtain ⟨⟨hinv, -⟩, hvalues⟩ := (refines o).foldlM_some ⟨h, hlinux⟩ hrun
    have hleaves : s.Leaves s' _ := leaves_of_run h hlinux hrun
    rw [show Linux.receiveAll o s.values w.packets = s'.values from hvalues.symm]
    cases Linux.timedWait o s.values lambda w with
    | none => exact Or.inl rfl
    | some timedOut =>
      simp only [Option.bind_eq_bind, Option.bind_some, afterWait_values]
      cases hafter : s'.afterWait lambda timedOut with
      | none => exact Or.inl rfl
      | some after =>
        obtain ⟨s'', code, written⟩ := after
        rcases afterWait_state hafter with ⟨rfl, rfl⟩ | ⟨rfl, -⟩
        · exact ⟨rfl, hsafe, hinv.setCode lambda.arg 0,
            Leaves.trans hleaves (leaves_setCode s' lambda.arg 0)⟩
        · exact ⟨rfl, hsafe, hinv, hleaves⟩

/-- Where the value comes from that the cache check writes. -/
theorem written_of_checkLambdaCache {lambda : RsRegisteredLambda ArgPtr} {v : StoredReturn}
    (h : (s.checkLambdaCache lambda).2 = some v) : (s.args lambda.arg).ret = v := by
  unfold Process.checkLambdaCache at h
  dsimp only at h
  split_ifs at h
  all_goals exact Option.some.inj h

theorem call_eq (o : ByteOrder) (env : Env) (s : Process) (c : Call) (w : Linux.Wait) :
    s.call o env c w =
      s.callLambda o (s.values.found c) c.expectedType (Linux.callPacket env c) w := by
  cases c
  all_goals rfl

/-- A call that does not wait. -/
theorem call_of_quiet {c : Call} (hwait : s.values.waitsOn c = none) (o : ByteOrder) (env : Env)
    (w : Linux.Wait) :
    ∃ code written, s.call o env c w = some ⟨s, [], code, written⟩ ∧
      Linux.call o env s.values c w =
        some ⟨s.values, [], code, written.map (StoredReturn.read s.heap)⟩ ∧
      ∀ v, written = some v → ∃ l, s.values.found c = some l ∧ (s.args l.arg).ret = v := by
  rw [call_eq, Linux.call_eq]
  unfold Process.callLambda Linux.callLambda
  cases hf : s.values.found c with
  | none => exact ⟨_, none, rfl, rfl, fun v hv => by cases hv⟩
  | some l =>
    dsimp only
    by_cases htype : l.type = c.expectedType
    swap
    · rw [if_pos htype, if_pos htype]
      exact ⟨_, none, rfl, rfl, fun v hv => by cases hv⟩
    have hcache : (s.checkLambdaCache l).1 ≠ 0 := by
      intro hcache
      rw [Linux.waitsOn_eq_some.mpr ⟨hf, htype, by rw [checkLambdaCache_values]; exact hcache⟩]
        at hwait
      cases hwait
    rw [if_neg (not_not.mpr htype), if_neg (not_not.mpr htype), checkLambdaCache_values]
    dsimp only
    rw [if_pos hcache, if_pos hcache]
    exact ⟨_, _, rfl, rfl, fun v hv => ⟨l, rfl, written_of_checkLambdaCache hv⟩⟩

/-- A call that waits. -/
theorem call_of_waiting {c : Call} {l : RsRegisteredLambda ArgPtr}
    (hwait : s.values.waitsOn c = some l) (o : ByteOrder) (env : Env) (w : Linux.Wait) :
    s.call o env c w = (Linux.callPacket env c).bind (fun pkt => waitLambdaResult o
      { s with heap := (s.heap.alloc pkt).erase s.heap.next } l w [pkt]) ∧
    Linux.call o env s.values c w = (Linux.callPacket env c).bind fun pkt =>
      Linux.waitLambdaResult o s.values l w [pkt] := by
  obtain ⟨hf, htype, hcache⟩ := Linux.waitsOn_eq_some.mp hwait
  have hcache' : (s.checkLambdaCache l).1 = 0 := by
    rw [checkLambdaCache_values] at hcache
    exact hcache
  rw [call_eq, Linux.call_eq]
  unfold Process.callLambda Linux.callLambda
  rw [hf]
  dsimp only
  rw [if_neg (not_not.mpr htype), if_neg (not_not.mpr htype), checkLambdaCache_values]
  dsimp only
  rw [if_neg (not_not.mpr hcache'), if_neg (not_not.mpr hcache')]
  simp only [Heap.free_of_live (Heap.block_alloc_self s.heap _), Option.bind_eq_bind,
    Option.bind_some, and_self]

theorem agrees_call (h : s.Inv) (hlinux : s.values.Inv) (env : Env) (c : Call) (w : Linux.Wait) :
    s.Agrees (s.values.leaksOf o (.call env c w)) (s.values.Safe o (.call env c w))
      (s.call o env c w) (Linux.call o env s.values c w) := by
  rw [Linux.leaksOf, Linux.Safe]
  cases hwait : s.values.waitsOn c with
  | none =>
    obtain ⟨code, written, hcall, hlcall, -⟩ := call_of_quiet hwait o env w
    rw [hcall, hlcall]
    exact agrees_quiet h (fun hsome => absurd hsome Bool.false_ne_true) code written
  | some l =>
    obtain ⟨hcall, hlcall⟩ := call_of_waiting hwait o env w
    rw [hcall, hlcall]
    cases Linux.callPacket env c with
    | none => exact Or.inl rfl
    | some pkt =>
      obtain ⟨hinv, hvalues⟩ := h.scratch pkt
      have hagrees := agrees_waitLambdaResult (o := o) hinv (hvalues ▸ hlinux) l w [pkt]
      have hlive : ((s.heap.alloc pkt).erase s.heap.next).live.card = s.heap.live.card := by
        have hcard := Heap.card_live_erase (Heap.block_alloc_self s.heap pkt)
        rw [Heap.card_live_alloc] at hcard
        exact Nat.succ_inj.mp hcard
      simp only [Option.bind_some, Option.isSome_some, if_true, true_implies]
      rw [hvalues] at hagrees
      exact hagrees.of_alike hlive hvalues

/-! ## Histories -/

/-- The process with its memory plays a history as the process on values does. -/
theorem refines_play (o : ByteOrder) : Runs.Refines (Linux.next o) (play o) values
    (fun s => s.Inv ∧ s.values.Inv) (fun s e => s.Defined o e ∧ s.Safe o e) := by
  intro s e ⟨h, hlinux⟩
  cases e with
  | packet d =>
    rcases refines o s d ⟨h, hlinux⟩ with ⟨s', hstep, hinv, hvalues, hmix⟩ | ⟨hnone, hmix⟩
    · exact Or.inl ⟨s', hstep, hinv, hvalues, trivial, hmix⟩
    · exact Or.inr ⟨hnone, fun hboth => hmix hboth.2⟩
  | call env c w =>
    have hagrees := agrees_call (o := o) h hlinux env c w
    cases hout : s.call o env c w with
    | none =>
      rw [hout] at hagrees
      refine Or.inr ⟨congrArg (Option.map Returned.state) hout, fun hboth => ?_⟩
      rcases hagrees with hnone | hunsafe
      · have hsome := hboth.1
        rw [Linux.Defined, hnone] at hsome
        cases hsome
      · exact hunsafe hboth.2
    | some r =>
      rw [hout] at hagrees
      obtain ⟨hlout, hsafe, hinv, -⟩ := hagrees
      have hnext : r.state.values = Linux.next o s.values (.call env c w) := by
        rw [Linux.next, hlout]
        rfl
      refine Or.inl ⟨r.state, congrArg (Option.map Returned.state) hout, ⟨hinv, ?_⟩, hnext, ?_,
        hsafe⟩
      · refine (hlinux.call_alike hlout).inv ?_
        unfold Linux.duringCall
        split_ifs
        · exact hlinux.receiveAll w.packets
        · exact hlinux
      · rw [Linux.Defined, hlout]
        rfl

theorem leaves_play (h : s.Inv) (hlinux : s.values.Inv) {e : LinuxEvent}
    (hstep : play o s e = some s') : s.Leaves s' (s.values.leaksOf o e) := by
  cases e with
  | packet d => exact leaves_receive h hlinux hstep
  | call env c w =>
    have hagrees := agrees_call (o := o) h hlinux env c w
    obtain ⟨r, hr, rfl⟩ := Option.map_eq_some_iff.mp hstep
    rw [hr] at hagrees
    exact hagrees.2.2.2

theorem Inv.playAll (h : s.Inv) (hlinux : s.values.Inv) {es : List LinuxEvent}
    (hrun : s.playAll o es = some s') : s'.Inv ∧ s'.values.Inv :=
  ((refines_play o).foldlM_some ⟨h, hlinux⟩ hrun).1

end Process

end RS
