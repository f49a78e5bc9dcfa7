import Riotsensors.Proofs.Memory

/-! A string that a call returned is the cached string itself. It is good until the next
string of its lambda is stored, and freed from then on. -/

namespace RS

open CMem

namespace Linux

/-- The call state that a message stores a string in. -/
def storedBy (s : Linux) : Message → Option ArgPtr
  | .result id (.retS _) _ =>
    (getRegisteredLambdaById s.registry id).map fun lambda => lambda.arg
  | _ => none

/-- How many strings a packet stores in the call state at `a`. -/
def stringsTo (o : ByteOrder) (a : ArgPtr) (s : Linux) (d : Delivery) : ℕ :=
  if s.storedBy (readPacket o d.env d.packet) = some a then 1 else 0

theorem delivered_of_storedBy {o : ByteOrder} {s : Linux} {d : Delivery} {a : ArgPtr}
    (h : s.storedBy (readPacket o d.env d.packet) = some a) :
    ∃ block, delivered o s d = some (a, .retS block) := by
  unfold delivered
  cases hmsg : readPacket o d.env d.packet with
  | result id ret frees =>
    rw [hmsg] at h
    cases ret with
    | retS block =>
      obtain ⟨l, hget, rfl⟩ := Option.map_eq_some_iff.mp h
      exact ⟨block, congrArg (Option.map _) hget⟩
    | _ => cases h
  | _ =>
    rw [hmsg] at h
    cases h

/-- How many strings an event stores there, those of a wait included. -/
def stringsIn (o : ByteOrder) (a : ArgPtr) (s : Linux) : LinuxEvent → ℕ
  | .packet d => s.stringsTo o a d
  | .call _ c w =>
    if (s.waitsOn c).isSome then Runs.total (receive o) (stringsTo o a) s w.packets else 0

end Linux

namespace Process

variable {o : ByteOrder} {s s' : Process}

/-- What may happen to blocks and owners while a string is stored in the call state
`stored`, or none. -/
structure Frame (s s' : Process) (stored : Option ArgPtr) : Prop where
  next : s.heap.next ≤ s'.heap.next
  kept : ∀ q < s.heap.next, s'.heap.block q = s.heap.block q ∨
    s'.heap.block q = none ∧ ∃ a, stored = some a ∧ (s.args a).ret = .retS q
  freed : ∀ a q, stored = some a → (s.args a).ret = .retS q → s'.heap.block q = none
  owned : ∀ a q, (s'.args a).ret = .retS q →
    (s.args a).ret = .retS q ∨ stored = some a ∧ s.heap.next ≤ q

/-- No string is stored, and no block is freed. -/
theorem Frame.of_kept (hnext : s.heap.next ≤ s'.heap.next)
    (hkept : ∀ q < s.heap.next, s'.heap.block q = s.heap.block q)
    (howned : ∀ a q, (s'.args a).ret = .retS q → (s.args a).ret = .retS q) :
    Frame s s' none where
  next := hnext
  kept q hq := Or.inl (hkept q hq)
  freed a q ha _ := by cases ha
  owned a q hq := Or.inl (howned a q hq)

theorem Frame.refl (s : Process) : Frame s s none :=
  .of_kept le_rfl (fun _ _ => rfl) fun _ _ hq => hq

theorem Frame.trans {s₁ s₂ s₃ : Process} {stored : Option ArgPtr} (h : Frame s₁ s₂ none)
    (hargs : s₂.args = s₁.args) (h' : Frame s₂ s₃ stored) : Frame s₁ s₃ stored where
  next := h.next.trans h'.next
  kept q hq := by
    have hsame : s₂.heap.block q = s₁.heap.block q := by
      rcases h.kept q hq with heq | ⟨-, a, ha, -⟩
      · exact heq
      · cases ha
    rw [← hsame, ← hargs]
    exact h'.kept q (hq.trans_le h.next)
  freed a q ha hq := h'.freed a q ha (by rw [hargs]; exact hq)
  owned a q hq := by
    rcases h'.owned a q hq with hold | ⟨ha, hge⟩
    · rw [hargs] at hold
      exact Or.inl hold
    · exact Or.inr ⟨ha, h.next.trans hge⟩

theorem frame_alloc (s : Process) (b : List UInt8) :
    Frame s { s with heap := s.heap.alloc b } none :=
  .of_kept (Nat.le_succ _) (fun _ hq => Heap.block_alloc_of_ne b hq.ne) fun _ _ hq => hq

/-- A call state is given a value that is no new string. -/
theorem frame_setArg (s : Process) (a : ArgPtr) {v : StoredLambda}
    (hv : ∀ q, v.ret = .retS q → (s.args a).ret = .retS q) : Frame s (s.setArg a v) none := by
  refine .of_kept le_rfl (fun _ _ => rfl) fun a' q hq => ?_
  by_cases ha : a' = a
  · rw [ha, args_setArg_self] at hq
    rw [ha]
    exact hv q hq
  · rw [args_setArg_of_ne s v ha] at hq
    exact hq

theorem frame_cacheString (h : s.Inv) {a : ArgPtr} {block : List UInt8}
    (hstep : s.cacheString a block = some s') : Frame s s' (some a) := by
  obtain ⟨heap, hheap, rfl⟩ := Option.map_eq_some_iff.mp hstep
  -- the old string, if there is one, is the only block that goes
  have hgone : heap.next = s.heap.next ∧
      (∀ q, (s.args a).ret = .retS q → heap.block q = none) ∧
      ∀ q, (s.args a).ret ≠ .retS q → heap.block q = s.heap.block q := by
    cases hcached : (s.args a).dataCached with
    | false =>
      rw [hcached, if_neg Bool.false_ne_true] at hheap
      obtain rfl := Option.some.inj hheap
      refine ⟨rfl, fun q hq => ?_, fun _ _ => rfl⟩
      rw [(h.cached a q hq).1] at hcached
      cases hcached
    | true =>
      rw [hcached, if_pos rfl] at hheap
      cases hret : (s.args a).ret with
      | retS p =>
        obtain ⟨b, hb⟩ := h.live a p hret
        rw [hret, freeReturn, Heap.free_of_live hb] at hheap
        obtain rfl := Option.some.inj hheap
        refine ⟨rfl, fun q hq => ?_, fun q hq => ?_⟩
        · rw [← StoredReturn.retS.inj hq, Heap.block_erase_self]
        · exact Heap.block_erase_of_ne fun heq => hq (by rw [heq])
      | _ =>
        rw [hret] at hheap
        cases hheap
  obtain ⟨hnext, hnone, hsame⟩ := hgone
  have hblock : ∀ q < s.heap.next, (heap.alloc block).block q = heap.block q := fun q hq =>
    Heap.block_alloc_of_ne block (hnext ▸ hq.ne)
  refine ⟨?_, fun q hq => ?_, fun a' q ha hq => ?_, fun a' q hq => ?_⟩
  · exact hnext ▸ Nat.le_succ _
  · change (heap.alloc block).block q = _ ∨ (heap.alloc block).block q = none ∧ _
    rw [hblock q hq]
    by_cases hret : (s.args a).ret = .retS q
    · exact Or.inr ⟨hnone q hret, a, rfl, hret⟩
    · exact Or.inl (hsame q hret)
  · obtain rfl := Option.some.inj ha
    obtain ⟨b, hb⟩ := h.live a q hq
    exact (hblock q (Heap.lt_next hb)).trans (hnone q hq)
  · by_cases ha : a' = a
    · rw [ha, args_setArg_self] at hq
      rw [← StoredReturn.retS.inj hq, ha, hnext]
      exact Or.inr ⟨rfl, le_rfl⟩
    · rw [args_setArg_of_ne _ _ ha] at hq
      exact Or.inl hq

theorem frame_storeNumber (s : Process) (id : LambdaId) {ret : StoredReturn}
    (hret : ∀ q, ret ≠ .retS q) : Frame s (s.storeNumber id ret) none := by
  unfold Process.storeNumber
  cases getRegisteredLambdaById s.registry id with
  | none => exact Frame.refl s
  | some l => exact frame_setArg s l.arg fun q hq => absurd hq (hret q)

theorem frame_storeString (h : s.Inv) (env : Env) (mypkt : Packet)
    (hstep : s.storeString o env mypkt = some s') :
    Frame s s' (s.values.storedBy (.result (byteAt mypkt LAMBDA_ID)
      (.retS (Linux.resultBlock o env mypkt)) true)) := by
  obtain ⟨hcopy, -⟩ := h.alloc mypkt
  unfold Process.storeString at hstep
  dsimp only at hstep
  change Frame s s' ((getRegisteredLambdaById s.registry _).map fun lambda => lambda.arg)
  cases hget : getRegisteredLambdaById s.registry (byteAt mypkt LAMBDA_ID) with
  | none =>
    rw [hget] at hstep
    obtain rfl := Option.some.inj hstep
    exact frame_alloc s mypkt
  | some l =>
    rw [hget] at hstep
    exact (frame_alloc s mypkt).trans rfl (frame_cacheString hcopy hstep)

theorem frame_handleRegistered (s : Process) (env : Env) (mypkt : Packet) :
    Frame s (s.handleRegistered env mypkt) none := by
  have hset := frame_setArg s s.brk (v := { s.args s.brk with dataCached := false }) fun _ hq => hq
  refine .of_kept le_rfl (fun _ _ => rfl) fun a q hq => ?_
  rcases hset.owned a q hq with hold | ⟨hnone, -⟩
  · exact hold
  · cases hnone

theorem frame_handleUnregistered (s : Process) (mypkt : Packet) :
    Frame s (s.handleUnregistered mypkt) none := by
  unfold Process.handleUnregistered
  dsimp only
  cases getRegisteredLambdaById s.registry (byteAt mypkt LAMBDA_ID) with
  | none => exact Frame.refl s
  | some l => exact .of_kept le_rfl (fun _ _ => rfl) fun _ _ hq => hq

theorem frame_handleResultError (s : Process) (mypkt : Packet) :
    Frame s (s.handleResultError mypkt) none := by
  unfold Process.handleResultError
  cases getRegisteredLambdaById s.registry (byteAt mypkt LAMBDA_ID) with
  | none => exact Frame.refl s
  | some l => exact frame_setArg s l.arg fun _ hq => hq

theorem frame_handleReceivedPacket (h : s.Inv) (env : Env) (packet : Packet)
    (hstep : s.handleReceivedPacket o env packet = some s') :
    Frame s s' (s.values.storedBy (Linux.readPacket o env packet)) := by
  unfold Process.handleReceivedPacket at hstep
  unfold Linux.readPacket
  have hquiet : some s = some s' → Frame s s' none := by
    rintro hs
    obtain rfl := Option.some.inj hs
    exact Frame.refl s
  split_ifs at hstep ⊢
  · exact hquiet hstep
  · exact hquiet hstep
  · obtain rfl := Option.some.inj hstep
    exact frame_handleRegistered s env _
  · exact hquiet hstep
  · obtain rfl := Option.some.inj hstep
    exact frame_handleUnregistered s _
  · exact hquiet hstep
  · obtain rfl := Option.some.inj hstep
    exact frame_storeNumber s _ fun q hq => by cases hq
  · exact hquiet hstep
  · obtain rfl := Option.some.inj hstep
    exact frame_storeNumber s _ fun q hq => by cases hq
  · exact hquiet hstep
  · exact frame_storeString h env _ hstep
  · exact hquiet hstep
  · obtain rfl := Option.some.inj hstep
    exact frame_handleResultError s _
  · exact hquiet hstep

/-- The string `b` at `p` was stored in the call state at `a` last. -/
structure Lent (a : ArgPtr) (p : ℕ) (b : List UInt8) (s : Process) : Prop where
  block : s.heap.block p = some b
  owner : ∀ a', (s.args a').ret = .retS p → a' = a
  only : ∀ q, (s.args a).ret = .retS q → q = p
  cached : (s.args a).dataCached = true
  below : a < s.brk

/-- The block at `p` was freed. -/
def Gone (p : ℕ) (s : Process) : Prop := p < s.heap.next ∧ s.heap.block p = none

theorem lent_of_cached (h : s.Inv) {a : ArgPtr} {p : ℕ} (hp : (s.args a).ret = .retS p) :
    ∃ b, Lent a p b s := by
  obtain ⟨b, hb⟩ := h.live a p hp
  obtain ⟨hcached, hbelow⟩ := h.cached a p hp
  refine ⟨b, hb, fun a' ha' => h.own a' a p ha' hp, fun q hq => ?_, hcached, hbelow⟩
  exact StoredReturn.retS.inj (hq.symm.trans hp)

theorem Gone.frame {p : ℕ} {stored : Option ArgPtr} (hgone : Gone p s)
    (hframe : Frame s s' stored) : Gone p s' := by
  refine ⟨hgone.1.trans_le hframe.next, ?_⟩
  rcases hframe.kept p hgone.1 with hsame | ⟨hnone, -⟩
  · rw [hsame, hgone.2]
  · exact hnone

/-- Nothing but a string for its own call state touches a string. -/
theorem Lent.frame {a : ArgPtr} {p : ℕ} {b : List UInt8} {stored : Option ArgPtr}
    (hlent : Lent a p b s) (hframe : Frame s s' stored) (hstored : stored ≠ some a)
    (hcached : (s'.args a).dataCached = true) (hbelow : a < s'.brk) : Lent a p b s' where
  block := by
    rcases hframe.kept p (Heap.lt_next hlent.block) with hsame | ⟨-, a', ha', hown⟩
    · rw [hsame, hlent.block]
    · rw [hlent.owner a' hown] at ha'
      exact absurd ha' hstored
  owner a' ha' := by
    rcases hframe.owned a' p ha' with hold | ⟨-, hge⟩
    · exact hlent.owner a' hold
    · exact absurd (Heap.lt_next hlent.block) (not_lt.mpr hge)
  only q hq := by
    rcases hframe.owned a q hq with hold | ⟨ha, -⟩
    · exact hlent.only q hold
    · exact absurd ha hstored
  cached := hcached
  below := hbelow

/-- Where a string is stored over another, the other one is freed. -/
theorem Lent.gone {a : ArgPtr} {p : ℕ} {b : List UInt8} (hlent : Lent a p b s)
    (hframe : Frame s s' (some a))
    (hstring : ((s.args a).ret.read s.heap).member = some RS_LAMBDA_STRING) : Gone p s' := by
  refine ⟨(Heap.lt_next hlent.block).trans_le hframe.next, ?_⟩
  cases hret : (s.args a).ret with
  | retS q =>
    obtain rfl := hlent.only q hret
    exact hframe.freed a q rfl hret
  | _ =>
    rw [hret] at hstring
    cases hstring

theorem switch_receive (h : s.Inv) (hlinux : s.values.Inv) {a : ArgPtr} {p : ℕ} {b : List UInt8}
    {d : Linux.Delivery} (hlent : Lent a p b s) (hstep : receive o s d = some s') :
    if s.values.stringsTo o a d = 0 then Lent a p b s' else Gone p s' := by
  have hframe := frame_handleReceivedPacket h d.env d.packet hstep
  obtain ⟨-, hvalues, hmix⟩ := (refines o).of_some ⟨h, hlinux⟩ hstep
  rw [Linux.stringsTo]
  by_cases hstored : s.values.storedBy (Linux.readPacket o d.env d.packet) = some a
  · rw [if_pos hstored, if_neg Nat.one_ne_zero]
    rw [hstored] at hframe
    obtain ⟨block, hdel⟩ := Linux.delivered_of_storedBy hstored
    refine hlent.gone hframe ?_
    by_contra hmember
    exact hmix ⟨a, .retS block, hdel, rfl, hlent.cached, hmember⟩
  · rw [if_neg hstored, if_pos rfl]
    have hbelow : a < s'.values.brk := by
      rw [hvalues]
      exact hlent.below.trans_le (Linux.brk_receive_le o s.values d)
    have hcached : (s'.values.heap a).dataCached = true := by
      rw [hvalues]
      rcases Linux.receive_heap (s := s.values) hlent.below o d with
        ⟨ret, -, hheap⟩ | ⟨-, hsame, -⟩
      · rw [hheap]
      · rw [hsame]
        exact hlent.cached
    exact hlent.frame hframe hstored hcached hbelow

theorem gone_receive (h : s.Inv) {p : ℕ} {d : Linux.Delivery} (hgone : Gone p s)
    (hstep : receive o s d = some s') : Gone p s' :=
  hgone.frame (frame_handleReceivedPacket h d.env d.packet hstep)

theorem switch_receiveAll (h : s.Inv) (hlinux : s.values.Inv) (a : ArgPtr) (p : ℕ)
    (b : List UInt8) {ds : List Linux.Delivery} (hrun : s.receiveAll o ds = some s') :
    (Lent a p b s → if Runs.total (Linux.receive o) (Linux.stringsTo o a) s.values ds = 0
      then Lent a p b s' else Gone p s') ∧ (Gone p s → Gone p s') :=
  (refines o).foldlM_switch (Linux.stringsTo o a)
    (fun _ _ _ hs hlent hstep => switch_receive hs.1 hs.2 hlent hstep)
    (fun _ _ _ hs hgone hstep => gone_receive hs.1 hgone hstep) ⟨h, hlinux⟩ hrun

/-- A wait handles its packets, and may reset a code. -/
theorem waitLambdaResult_cases {lambda : RsRegisteredLambda ArgPtr} {w : Linux.Wait}
    {sent : List Packet} {out : Returned}
    (hout : s.waitLambdaResult o lambda w sent = some out) :
    ∃ s₁, s.receiveAll o w.packets = some s₁ ∧
      (out.state = s₁ ∧ (∀ v, out.written = some v → (s₁.args lambda.arg).ret = v) ∨
        out.state = s₁.setArg lambda.arg { s₁.args lambda.arg with lastCallError := 0 } ∧
        out.written = none) := by
  unfold Process.waitLambdaResult at hout
  change (s.receiveAll o w.packets).bind _ = _ at hout
  obtain ⟨s₁, hrun, hrest⟩ := Option.bind_eq_some_iff.mp hout
  obtain ⟨timedOut, -, hrest⟩ := Option.bind_eq_some_iff.mp hrest
  obtain ⟨⟨state, code, written⟩, hafter, hreturn⟩ := Option.bind_eq_some_iff.mp hrest
  obtain rfl := Option.some.inj hreturn
  exact ⟨s₁, hrun, (afterWait_state hafter).symm⟩

/-- What a call hands out is what the call state of its lambda holds when it returns. -/
theorem ret_of_written {env : Env} {c : Call} {w : Linux.Wait} {out : Returned}
    (hout : s.call o env c w = some out) {v : StoredReturn} (hv : out.written = some v) :
    ∃ l, s.values.found c = some l ∧ (out.state.args l.arg).ret = v := by
  cases hwait : s.values.waitsOn c with
  | none =>
    obtain ⟨code, written, hcall, -, hwritten⟩ := call_of_quiet hwait o env w
    obtain rfl := Option.some.inj (hout.symm.trans hcall)
    exact hwritten v hv
  | some l =>
    refine ⟨l, (Linux.waitsOn_eq_some.mp hwait).1, ?_⟩
    rw [(call_of_waiting hwait o env w).1] at hout
    obtain ⟨pkt, -, hreturn⟩ := Option.bind_eq_some_iff.mp hout
    obtain ⟨s₁, -, ⟨hstate, hwritten⟩ | ⟨-, hnone⟩⟩ := waitLambdaResult_cases hreturn
    · rw [hstate]
      exact hwritten v hv
    · rw [hnone] at hv
      cases hv

theorem Lent.setCode {a : ArgPtr} {p : ℕ} {b : List UInt8} (hlent : Lent a p b s) (a' : ArgPtr)
    (code : Int8) : Lent a p b (s.setArg a' { s.args a' with lastCallError := code }) := by
  refine hlent.frame (frame_setArg s a' fun _ hq => hq) (Option.some_ne_none a).symm ?_
    hlent.below
  by_cases ha : a = a'
  · rw [← ha, args_setArg_self]
    exact hlent.cached
  · rw [args_setArg_of_ne s _ ha]
    exact hlent.cached

theorem frame_scratch (s : Process) (b : List UInt8) :
    Frame s { s with heap := (s.heap.alloc b).erase s.heap.next } none := by
  refine .of_kept (Nat.le_succ _) (fun q hq => ?_) fun _ _ hq => hq
  exact (Heap.block_erase_of_ne hq.ne).trans (Heap.block_alloc_of_ne b hq.ne)

theorem switch_call (h : s.Inv) (hlinux : s.values.Inv) (a : ArgPtr) (p : ℕ) (b : List UInt8)
    {env : Env} {c : Call} {w : Linux.Wait} {out : Returned}
    (hout : s.call o env c w = some out) :
    (Lent a p b s → if s.values.stringsIn o a (.call env c w) = 0 then Lent a p b out.state
      else Gone p out.state) ∧ (Gone p s → Gone p out.state) := by
  rw [Linux.stringsIn]
  cases hwait : s.values.waitsOn c with
  | none =>
    obtain ⟨code, written, hcall, -⟩ := call_of_quiet hwait o env w
    obtain rfl := Option.some.inj (hout.symm.trans hcall)
    exact ⟨id, id⟩
  | some l =>
    rw [(call_of_waiting hwait o env w).1] at hout
    obtain ⟨pkt, -, hreturn⟩ := Option.bind_eq_some_iff.mp hout
    obtain ⟨hinv, hvalues⟩ := h.scratch pkt
    have hframe := frame_scratch s pkt
    obtain ⟨s₁, hrun, hcases⟩ := waitLambdaResult_cases hreturn
    obtain ⟨hlent, hgone⟩ := switch_receiveAll hinv (hvalues ▸ hlinux) a p b hrun
    rw [hvalues] at hlent
    have hlent₀ : Lent a p b s → Lent a p b
        { s with heap := (s.heap.alloc pkt).erase s.heap.next } := fun hl =>
      hl.frame hframe (Option.some_ne_none a).symm hl.cached hl.below
    have hgone₀ : Gone p s → Gone p
        { s with heap := (s.heap.alloc pkt).erase s.heap.next } := fun hg => hg.frame hframe
    simp only [Option.isSome_some, if_true]
    rcases hcases with ⟨hstate, -⟩ | ⟨hstate, -⟩
    · rw [hstate]
      exact ⟨fun hl => hlent (hlent₀ hl), fun hg => hgone (hgone₀ hg)⟩
    · rw [hstate]
      refine ⟨fun hl => ?_, fun hg => ?_⟩
      · have hend := hlent (hlent₀ hl)
        split_ifs at hend ⊢
        · exact hend.setCode l.arg 0
        · exact hend.frame (frame_setArg s₁ l.arg fun _ hq => hq)
      · exact (hgone (hgone₀ hg)).frame (frame_setArg s₁ l.arg fun _ hq => hq)

theorem switch_play (h : s.Inv) (hlinux : s.values.Inv) (a : ArgPtr) (p : ℕ) (b : List UInt8)
    {e : LinuxEvent} (hstep : play o s e = some s') :
    (Lent a p b s → if s.values.stringsIn o a e = 0 then Lent a p b s' else Gone p s') ∧
      (Gone p s → Gone p s') := by
  cases e with
  | packet d =>
    exact ⟨fun hl => switch_receive h hlinux hl hstep, fun hg => gone_receive h hg hstep⟩
  | call env c w =>
    obtain ⟨out, hout, rfl⟩ := Option.map_eq_some_iff.mp hstep
    exact switch_call h hlinux a p b hout

/-- A string that a call returned, in any history from the start, lies in a live block, the
cached string of its lambda. During the events that follow it stays as it is until the first
string is stored for that lambda, and is freed from then on. -/
theorem string_is_lent {cached : ArgPtr → Bool} {code : ArgPtr → Int8} {es : List LinuxEvent}
    (hs : (started cached code).playAll o es = some s) {env : Env} {c : Call} {w : Linux.Wait}
    {out : Returned} (hout : s.call o env c w = some out) {p : ℕ}
    (hp : out.written = some (.retS p)) :
    ∃ l b, s.values.found c = some l ∧ out.state.heap.block p = some b ∧
      ∀ fs s', out.state.playAll o fs = some s' →
        s'.heap.block p =
          if Runs.total (Linux.next o) (Linux.stringsIn o l.arg) out.state.values fs = 0
          then some b else none := by
  obtain ⟨hinv, hlinux⟩ := Inv.playAll (Inv.started cached code) (Inv.started_values cached code) hs
  obtain ⟨l, hfound, hret⟩ := ret_of_written hout hp
  obtain ⟨⟨hinv', hlinux'⟩, -⟩ := (refines_play o).of_some (a := .call env c w) ⟨hinv, hlinux⟩
    (congrArg (Option.map Returned.state) hout)
  obtain ⟨b, hlent⟩ := lent_of_cached hinv' hret
  refine ⟨l, b, hfound, hlent.block, fun fs s' hrun => ?_⟩
  have hswitch := ((refines_play o).foldlM_switch (Linux.stringsIn o l.arg)
    (fun _ _ _ hs hl hstep => (switch_play hs.1 hs.2 l.arg p b hstep).1 hl)
    (fun _ _ _ hs hg hstep => (switch_play hs.1 hs.2 l.arg p b hstep).2 hg)
    ⟨hinv', hlinux'⟩ hrun).1 hlent
  split_ifs at hswitch ⊢
  · exact hswitch.block
  · exact hswitch.2

/-- Registers an uncached string lambda `"t"`. -/
def registersT : Linux.Delivery :=
  ⟨{}, [RS_PACKET_REGISTERED, 116] ++ List.replicate 11 0 ++
    [RS_LAMBDA_STRING, RS_CACHE_NO_CACHE]⟩

/-- The answer `"hi"` of lambda 0. -/
def answersHi : Linux.Delivery :=
  ⟨{}, [RS_PACKET_RESULT_STRING, 0] ++ List.replicate 12 0 ++ [0, 3, 104, 105, 0]⟩

theorem string_is_lent_hi :
    ∃ s out, (started (fun _ => false) fun _ => 0).playAll .little [.packet registersT] = some s ∧
      s.call .little {} (.byId 0 RS_LAMBDA_STRING) ⟨[answersHi], [], false⟩ = some out ∧
      ∃ l b, s.values.found (.byId 0 RS_LAMBDA_STRING) = some l ∧
        out.state.heap.block 2 = some b ∧
        ∀ fs s', out.state.playAll .little fs = some s' →
          s'.heap.block 2 =
            if Runs.total (Linux.next .little) (Linux.stringsIn .little l.arg) out.state.values
                fs = 0
            then some b else none :=
  ⟨_, _, rfl, rfl, @string_is_lent .little _ (fun _ => false) (fun _ => 0) [.packet registersT]
    rfl {} (.byId 0 RS_LAMBDA_STRING) ⟨[answersHi], [], false⟩ _ rfl 2 rfl⟩

end Process

end RS
