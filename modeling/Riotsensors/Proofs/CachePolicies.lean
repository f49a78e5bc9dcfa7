import Riotsensors.Sanity.Client
import Riotsensors.Spec.Requests

/-! The cache policies over whole runs: which calls send a packet, and what stands in the
cache. Errors and timeouts change neither. -/

namespace RS

open CMem

namespace Watched

variable {o : ByteOrder} {garbage : ArgPtr → RsLinuxRegisteredLambda} {es : List LinuxEvent}
  {w w' : Watched}

/-- What handling a packet keeps, and what does not look at error codes, runs keep. -/
theorem run_induct {Q : Watched → Prop}
    (hreceive : ∀ w d, w.Inv → Q w → Q (w.receive o d))
    (halike : ∀ w s, w.Inv → s.Alike w.linux → Q w → Q ⟨s, w.log⟩) (hw : w.Inv) (hq : Q w)
    (h : Runs.run (play o) (some w) es = some w') : Q w' := by
  have hall : ∀ (ds : List Linux.Delivery) (w : Watched), w.Inv → Q w → Q (w.receiveAll o ds) := by
    intro ds
    induction ds with
    | nil =>
      intro w _ hq
      simpa [receiveAll, Linux.deliveredAll, Linux.receiveAll] using hq
    | cons d ds ih =>
      intro w hw hq
      rw [receiveAll_cons]
      exact ih _ (hw.receive d) (hreceive w d hw hq)
  have hplay : ∀ (w w' : Watched) (e : LinuxEvent), w.Inv → Q w → play o (some w) e = some w' →
      Q w' := by
    intro w w' e hw hq hplay
    cases e with
    | packet d =>
      obtain rfl := Option.some.inj hplay
      exact hreceive w d hw hq
    | call env c wait =>
      simp only [Watched.play, Option.bind_eq_bind, Option.bind_some] at hplay
      obtain ⟨out, hout, hw'⟩ := Option.bind_eq_some_iff.mp hplay
      obtain rfl := Option.some.inj hw'
      have halike' := hw.linux.call_alike hout
      -- the packets of the wait come first, then at most an error code is reset
      unfold Linux.duringCall at halike'
      unfold Watched.duringCall
      split_ifs at halike' ⊢ with hwaits
      · exact halike (w.receiveAll o wait.packets) _ (hw.receiveAll _) halike' (hall _ _ hw hq)
      · rw [List.append_nil]
        exact halike w _ hw halike' hq
  have hrun : ∀ c : Option Watched, (∀ w, c = some w → w.Inv ∧ Q w) →
      ∀ w, Runs.run (play o) c es = some w → w.Inv ∧ Q w := by
    intro c hc
    refine @Runs.run_inv_all _ _ _ (fun c => ∀ w, c = some w → w.Inv ∧ Q w) ?_ _ es hc
    intro c e hc w' hstep
    cases c with
    | none => cases hstep
    | some w =>
      obtain ⟨hw, hq⟩ := hc w rfl
      exact ⟨hw.play hstep, hplay w w' e hw hq hstep⟩
  refine (hrun (some w) (fun v hv => ?_) w' h).2
  rw [← Option.some.inj hv]
  exact ⟨hw, hq⟩

/-- The result that was delivered to a call state last. -/
def latest (w : Watched) (p : ArgPtr) : Option GenericLambdaReturn := w.log.reverse.lookup p

theorem latest_receive (o : ByteOrder) (w : Watched) (d : Linux.Delivery) (p : ArgPtr) :
    (w.receive o d).latest p =
      (((Linux.delivered o w.linux d).toList).lookup p).or (w.latest p) := by
  have hrev : (Linux.delivered o w.linux d).toList.reverse =
      (Linux.delivered o w.linux d).toList := by
    cases Linux.delivered o w.linux d <;> rfl
  rw [latest, Watched.receive, List.reverse_append, hrev, List.lookup_append]
  rfl

/-- Every call state that is in use holds the result delivered to it last, if any. -/
structure Current (w : Watched) : Prop where
  held : ∀ p < w.linux.brk, w.latest p =
    if (w.linux.heap p).dataCached then some (w.linux.heap p).ret else none
  fresh : ∀ p, w.linux.brk ≤ p → w.latest p = none

theorem Current.started (garbage : ArgPtr → RsLinuxRegisteredLambda) :
    (started garbage).Current :=
  ⟨fun _ hp => absurd hp (Nat.not_lt_zero _), fun _ _ => rfl⟩

/-- Results are delivered to call states in use only. -/
theorem delivered_lt {s : Linux} (h : s.Inv) {d : Linux.Delivery} {p : ArgPtr}
    {ret : GenericLambdaReturn} (hdel : Linux.delivered o s d = some (p, ret)) : p < s.brk := by
  unfold Linux.delivered at hdel
  split at hdel
  next id ret' frees _ =>
    obtain ⟨l, hl, heq⟩ := Option.map_eq_some_iff.mp hdel
    rw [← (Prod.mk.inj heq).1]
    exact h.below _ l ((h.wf.getById id).symm.trans hl)
  next => cases hdel

theorem latest_of_delivered {d : Linux.Delivery} {p : ArgPtr} {ret : GenericLambdaReturn}
    (h : Linux.delivered o w.linux d = some (p, ret)) : (w.receive o d).latest p = some ret := by
  rw [latest_receive, h]
  simp

theorem latest_of_not_delivered {d : Linux.Delivery} {p : ArgPtr}
    (h : ∀ ret, Linux.delivered o w.linux d ≠ some (p, ret)) :
    (w.receive o d).latest p = w.latest p := by
  rw [latest_receive]
  cases hdel : Linux.delivered o w.linux d with
  | none => rfl
  | some entry =>
    rcases entry with ⟨q, ret⟩
    have hne : (p == q) = false := beq_eq_false_iff_ne.mpr fun heq => h ret (by rw [hdel, heq])
    simp [List.lookup_cons, hne]

theorem Current.receive (hc : w.Current) (h : w.Inv) (d : Linux.Delivery) :
    (w.receive o d).Current := by
  have hnew : ∀ p, w.linux.brk ≤ p → (w.receive o d).latest p = none := by
    intro p hp
    rw [latest_of_not_delivered fun ret hdel => absurd (delivered_lt h.linux hdel) (not_lt.mpr hp)]
    exact hc.fresh p hp
  refine ⟨fun p hp => ?_, fun p hp => hnew p ((Linux.brk_receive_le o w.linux d).trans hp)⟩
  change _ = if ((Linux.receive o w.linux d).heap p).dataCached then
    some ((Linux.receive o w.linux d).heap p).ret else none
  by_cases hold : p < w.linux.brk
  · rcases Linux.receive_heap hold o d with ⟨ret, hdel, hheap⟩ | ⟨hno, hcached, hret⟩
    · rw [latest_of_delivered hdel, hheap]
      rfl
    · rw [latest_of_not_delivered hno, hcached, hret]
      exact hc.held p hold
  · rw [hnew p (not_lt.mp hold), Linux.receive_heap_fresh (not_lt.mp hold) o d hp]
    rfl

theorem Current.of_alike (hc : w.Current) {s : Linux} (hs : s.Alike w.linux) :
    Current ⟨s, w.log⟩ where
  held p hp := by
    change w.latest p = if (s.heap p).dataCached then some (s.heap p).ret else none
    rw [hc.held p (hs.brk ▸ hp), ← hs.cached p hp]
    split_ifs with hcached
    · rw [hs.ret p hp hcached]
    · rfl
  fresh p hp := hc.fresh p (hs.brk ▸ hp)

theorem Reaches.current (h : Reaches o garbage es w) : w.Current :=
  run_induct (fun _ d hw hq => hq.receive hw d) (fun _ _ _ hs hq => hq.of_alike hs)
    (Inv.started garbage) (Current.started garbage) h

/-- The log only grows. -/
theorem log_grows (hw : w.Inv) (h : Runs.run (play o) (some w) es = some w') :
    w.log <+: w'.log := by
  refine run_induct (Q := fun v => w.log <+: v.log) ?_ ?_ hw (List.prefix_refl _) h
  · intro v d _ hv
    exact hv.trans (List.prefix_append _ _)
  · intro v s _ _ hv
    exact hv

/-- What was delivered once stays delivered. -/
theorem latest_isSome_of_prefix {p : ArgPtr} (h : w.log <+: w'.log)
    (hsome : (w.latest p).isSome) : (w'.latest p).isSome := by
  obtain ⟨rest, hrest⟩ := h
  unfold latest at hsome ⊢
  rw [← hrest, List.reverse_append, List.lookup_append, Option.isSome_or, hsome, Bool.or_true]

/-! ## Which calls send -/

/-- A call packet names a lambda and a type, as the board reads it. -/
def Names (packet : Packet) (l : RsRegisteredLambda ArgPtr) (type : RsLambdaType) : Prop :=
  ∀ env, ∃ target, Board.readCall env packet = some (target, type) ∧
    match target with
    | .id id => id = l.id
    | .name mem => cstr mem = l.text

/-- Behind the name field lies the type. -/
theorem byteAt_nameMem {α : Type} (l : RsRegisteredLambda α) :
    byteAt l.nameMem MAX_LAMBDA_NAME_LENGTH = l.type := by
  rw [RsRegisteredLambda.nameMem, byteAt_append_right l.name_length.le, l.name_length]
  rfl

/-- The packet of a call names the lambda that the call found. -/
theorem callPacket_names {s : Linux} (h : s.Inv) {c : Call} {l : RsRegisteredLambda ArgPtr}
    (hf : s.found c = some l) (htype : l.type = c.expectedType) (env : Env) :
    ∃ packet, Linux.callPacket env c = some packet ∧ Names packet l c.expectedType := by
  cases c with
  | byId id expectedType =>
    obtain ⟨packet, hpacket, hlen, htag, hid, hty⟩ := Linux.callByIdPacket_spec env id expectedType
    refine ⟨packet, hpacket, fun benv => ⟨.id id, ?_, ?_⟩⟩
    · rw [Board.readCall, if_neg (by rw [hlen]; decide), if_pos htag, if_neg (not_not.mpr hlen),
        hid, hty]
      rfl
    · have hslot : s.registry.slot id.toNat = some l := (h.wf.getById id).symm.trans hf
      exact (UInt8.toNat_inj.mp (h.wf.ids _ l hslot)).symm
  | byName name expectedType =>
    obtain ⟨hslot, htext⟩ := h.wf.of_getByName hf
    have hlen : strlen name ≤ MAX_LAMBDA_NAME_LENGTH := by
      have hshort := h.short _ _ hslot
      change l.text.length ≤ _ at hshort
      rwa [htext] at hshort
    obtain ⟨packet, hpacket, hl, htag, hty, hname⟩ :=
      Linux.callByNamePacket_spec hlen env expectedType
    -- a full field is followed by the type, which is NUL then
    have hend : strlen name < MAX_LAMBDA_NAME_LENGTH ∨
        byteAt packet (NAME + MAX_LAMBDA_NAME_LENGTH) = 0 := by
      rcases hlen.lt_or_eq with hlt | hfull
      · exact Or.inl hlt
      · right
        change byteAt packet LTYPE = 0
        have hfull' : strlen l.nameMem = MAX_LAMBDA_NAME_LENGTH :=
          (congrArg List.length htext).trans hfull
        have hnul := byteAt_strlen l.nameMem
        rw [hfull', byteAt_nameMem] at hnul
        rw [hty]
        exact htype.symm.trans hnul
    refine ⟨packet, hpacket, fun benv => ⟨.name (packet.drop NAME ++ benv.beyond), ?_, ?_⟩⟩
    · rw [Board.readCall, if_neg (by rw [hl]; decide), if_neg (by rw [htag]; decide), if_pos htag,
        if_neg (not_not.mpr hl), hty]
      rfl
    · exact (hname.cstr_eq hlen hend (by rw [hl]; decide) benv.beyond).trans htext.symm

/-- A call is what the check of its lambda's cache makes of it. -/
theorem request_eq {s : Linux} {c : Call} {l : RsRegisteredLambda ArgPtr}
    (hf : s.found c = some l) (env : Env) :
    s.request env c =
      if l.type = c.expectedType ∧ (Linux.checkLambdaCache s l).1 = 0 then
        (Linux.callPacket env c).map fun packet => [packet]
      else some [] := by
  unfold Linux.request Linux.waitsOn
  rw [hf]
  by_cases h : l.type = c.expectedType ∧ (Linux.checkLambdaCache s l).1 = 0
  · simp [Option.filter, h]
  · simp [Option.filter, h]

section Policies

variable {s : Linux} {l : RsRegisteredLambda ArgPtr}

theorem check_only (h : l.cache = RS_CACHE_ONLY) : Linux.checkLambdaCache s l =
    if (s.heap l.arg).dataCached then (RS_CALL_CACHE, some (s.heap l.arg).ret)
    else (RS_CALL_CACHE_EMPTY, none) := by
  simp only [Linux.checkLambdaCache, h]
  rfl

theorem check_callOnce (h : l.cache = RS_CACHE_CALL_ONCE) : Linux.checkLambdaCache s l =
    if (s.heap l.arg).dataCached then (RS_CALL_CACHE, some (s.heap l.arg).ret)
    else (RS_CALL_SUCCESS, none) := by
  simp only [Linux.checkLambdaCache, h]
  rfl

theorem check_other (honly : l.cache ≠ RS_CACHE_ONLY) (honce : l.cache ≠ RS_CACHE_CALL_ONCE) :
    Linux.checkLambdaCache s l = (RS_CALL_SUCCESS, none) := by
  simp only [Linux.checkLambdaCache, if_neg honly, if_neg honce, ite_self]

end Policies

/-- Over every history, for every call to a live lambda `l`: what is sent, by its policy and
by what was delivered, and what the cache check returns. -/
theorem cache_policies_hold (h : Reaches o garbage es w) (env : Env) (c : Call)
    (l : RsRegisteredLambda ArgPtr) (hf : w.linux.found c = some l) :
    (l.cache = RS_CACHE_ONLY → w.linux.request env c = some []) ∧
    (l.cache = RS_CACHE_CALL_ONCE → (w.latest l.arg).isSome → w.linux.request env c = some []) ∧
    (l.cache ≠ RS_CACHE_ONLY → l.cache ≠ RS_CACHE_CALL_ONCE → l.type = c.expectedType →
      ∃ packet, w.linux.request env c = some [packet] ∧ Names packet l c.expectedType) ∧
    (∀ wait out, Linux.call o env w.linux c wait = some out →
      w.linux.request env c = some out.sent) ∧
    ((Linux.checkLambdaCache w.linux l).1 = RS_CALL_CACHE →
      (w.latest l.arg).isSome ∧ (Linux.checkLambdaCache w.linux l).2 = w.latest l.arg) ∧
    ((w.latest l.arg).isSome → ∀ later w', Reaches o garbage (es ++ later) w' →
      (w'.linux.heap l.arg).dataCached = true ∧
        w'.latest l.arg = some (w'.linux.heap l.arg).ret) := by
  have hinv := h.inv.linux
  have hcur := h.current
  have hlt : l.arg < w.linux.brk := hinv.below _ l (hinv.slot_of_found hf)
  have hcached : (w.latest l.arg).isSome → (w.linux.heap l.arg).dataCached = true := by
    intro hsome
    rw [hcur.held _ hlt] at hsome
    by_contra hno
    rw [if_neg hno] at hsome
    cases hsome
  refine ⟨fun honly => ?_, fun honce hsome => ?_, fun honly honce htype => ?_,
    fun wait out hout => hinv.request_eq_sent hout, fun hhit => ?_, fun hsome later w' h' => ?_⟩
  · rw [request_eq hf, if_neg]
    rintro ⟨-, hgo⟩
    rw [check_only honly] at hgo
    split_ifs at hgo
    · exact absurd (show RS_CALL_CACHE = 0 from hgo) (by decide)
    · exact absurd (show RS_CALL_CACHE_EMPTY = 0 from hgo) (by decide)
  · rw [request_eq hf, if_neg]
    rintro ⟨-, hgo⟩
    rw [check_callOnce honce, if_pos (hcached hsome)] at hgo
    exact absurd (show RS_CALL_CACHE = 0 from hgo) (by decide)
  · obtain ⟨packet, hpacket, hnames⟩ := callPacket_names hinv hf htype env
    refine ⟨packet, ?_, hnames⟩
    rw [request_eq hf, if_pos ⟨htype, by rw [check_other honly honce]⟩, hpacket]
    rfl
  · rcases Linux.checkLambdaCache_cases w.linux l with hgo | ⟨hcode, hc⟩ | hempty
    · rw [hgo] at hhit
      exact absurd hhit (by decide)
    · rw [hcode, hcur.held _ hlt, if_pos hc]
      exact ⟨rfl, rfl⟩
    · rw [hempty] at hhit
      exact absurd hhit (by decide)
  · have hrun : Runs.run (play o) (some w) later = some w' := by
      have hsplit := Runs.run_append (play o) (some (Watched.started garbage)) es later
      rw [show Runs.run (play o) (some (Watched.started garbage)) es = some w from h] at hsplit
      exact hsplit.symm.trans h'
    have hstay := latest_isSome_of_prefix (log_grows h.inv hrun) hsome
    have hlt' : l.arg < w'.linux.brk := by
      by_contra hge
      rw [h'.current.fresh _ (not_lt.mp hge)] at hstay
      cases hstay
    rw [h'.current.held _ hlt'] at hstay ⊢
    split_ifs at hstay ⊢ with hc
    · exact ⟨hc, rfl⟩
    · cases hstay

/-- An uncached integer lambda `"a"`, called by id. -/
theorem cache_policies_hold_registered :
    ∃ l, ((started zeroed).receive .little registersA).linux.found (.byId 0 RS_LAMBDA_INT) =
        some l ∧
      ∃ packet, ((started zeroed).receive .little registersA).linux.request {}
          (.byId 0 RS_LAMBDA_INT) = some [packet] ∧ Names packet l RS_LAMBDA_INT :=
  ⟨_, rfl, (@cache_policies_hold .little zeroed [.packet registersA] _ rfl {}
    (.byId 0 RS_LAMBDA_INT) _ rfl).2.2.1 (by decide) (by decide) rfl⟩

end Watched

end RS
