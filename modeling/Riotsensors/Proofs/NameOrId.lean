import Riotsensors.Proofs.CachePolicies
import Riotsensors.Proofs.Frames
import Riotsensors.Proofs.Replies

/-! A call by name and a call by the id that the name is found under: they take the same way
through the connector, and their packets make the board evaluate the same lambda. -/

namespace RS

open CMem

/-- The name in a record's field: up to its first NUL, or all of it. -/
def RsRegisteredLambda.fieldName {α : Type} (l : RsRegisteredLambda α) : List UInt8 := cstr l.name

/-- For shorter names than the field it is all the same whether the field alone is read. -/
theorem text_eq_iff_fieldName {α : Type} (l : RsRegisteredLambda α) {name : List UInt8}
    (h : name.length < MAX_LAMBDA_NAME_LENGTH) : l.text = name ↔ l.fieldName = name := by
  unfold RsRegisteredLambda.text RsRegisteredLambda.fieldName RsRegisteredLambda.nameMem
  by_cases hend : 0 ∈ l.name
  · rw [cstr_append_of_mem hend]
  · have htext : IsText l.name := fun b hb h0 => hend (h0 ▸ hb)
    have hlength := l.name_length
    rw [cstr_append_of_text htext, cstr_of_isText htext]
    refine iff_of_false (fun heq => ?_) fun heq => ?_
    · rw [← heq, List.length_append] at h
      omega
    · rw [← heq] at h
      omega

/-- The board has the lambdas of the Linux side under their ids and names. -/
def Linux.SameNames (s : Linux) (b : Board) : Prop :=
  ∀ i, (b.registry.slot i).map RsRegisteredLambda.fieldName =
    (s.registry.slot i).map RsRegisteredLambda.fieldName

variable {s : Linux} {b : Board} {l : RsRegisteredLambda ArgPtr}

theorem Linux.SameNames.text_iff (h : s.SameNames b) {name : List UInt8}
    (hname : name.length < MAX_LAMBDA_NAME_LENGTH) (i : ℕ) :
    (∃ m, b.registry.slot i = some m ∧ m.text = name) ↔
      ∃ m, s.registry.slot i = some m ∧ m.text = name := by
  have hi := h i
  constructor
  · rintro ⟨m, hm, htext⟩
    rw [hm, Option.map_some, eq_comm, Option.map_eq_some_iff] at hi
    obtain ⟨m', hm', hfield⟩ := hi
    refine ⟨m', hm', (text_eq_iff_fieldName m' hname).mpr ?_⟩
    rw [hfield]
    exact (text_eq_iff_fieldName m hname).mp htext
  · rintro ⟨m, hm, htext⟩
    rw [hm, Option.map_some, Option.map_eq_some_iff] at hi
    obtain ⟨m', hm', hfield⟩ := hi
    refine ⟨m', hm', (text_eq_iff_fieldName m' hname).mpr ?_⟩
    rw [hfield]
    exact (text_eq_iff_fieldName m hname).mp htext

/-- The first record of a name has the same id on both sides. -/
theorem Linux.SameNames.getByName (h : s.SameNames b) (hs : s.registry.WF) (hb : b.registry.WF)
    {name mem : List UInt8} (hf : getRegisteredLambdaByName s.registry name = some l)
    (hmem : cstr mem = l.text) (hshort : l.text.length < MAX_LAMBDA_NAME_LENGTH) :
    ∃ m, getRegisteredLambdaByName b.registry mem = some m ∧ m.id = l.id := by
  obtain ⟨hslot, htext, hfirst⟩ := hs.getByName_eq_some_iff.mp hf
  obtain ⟨m, hm, hmtext⟩ := (h.text_iff hshort l.id.toNat).mpr ⟨l, hslot, rfl⟩
  have hid : m.id.toNat = l.id.toNat := hb.ids _ m hm
  refine ⟨m, hb.getByName_eq_some_iff.mpr ⟨hid ▸ hm, hmtext.trans hmem.symm, ?_⟩,
    UInt8.toNat_inj.mp hid⟩
  intro j hj m' hm' htext'
  obtain ⟨k, hk, hktext⟩ := (h.text_iff hshort j).mp ⟨m', hm', htext'.trans hmem⟩
  exact hfirst j (hid ▸ hj) k hk (hktext.trans htext)

/-- A packet that names a lambda, by its name or by its id, makes the board call its id. -/
theorem callFor_of_names (h : s.SameNames b) (hs : s.registry.WF) (hb : b.registry.WF)
    {name : List UInt8} (hf : getRegisteredLambdaByName s.registry name = some l)
    {type : RsLambdaType} (hshort : l.text.length < MAX_LAMBDA_NAME_LENGTH ∨
      LambdaKind.ofType type = none) {packet : Packet} (hnames : Watched.Names packet l type)
    (env : Env) :
    b.callFor (.packet env packet) = (LambdaKind.ofType type).map fun kind => (kind, l.id) := by
  obtain ⟨target, hread, htarget⟩ := hnames env
  have hasks : (CallRequest.packet env packet).asks = some (target, type) := hread
  cases hkind : LambdaKind.ofType type with
  | none => simp [Board.callFor, hasks, hkind]
  | some kind =>
    have hlength := hshort.resolve_right (by rw [hkind]; exact Option.some_ne_none kind)
    have hresolve : b.resolve target = some l.id := by
      cases target with
      | id id => exact congrArg some htarget
      | name mem =>
        obtain ⟨m, hm, hid⟩ := h.getByName hs hb hf htarget hlength
        have hne : Board.getLambdaIdFromName b mem ≠ 255 := fun h255 => by
          rw [(Board.getLambdaIdFromName_eq_sentinel hb mem).mp h255] at hm
          cases hm
        rw [Board.resolve, if_neg hne, Board.getLambdaIdFromName, hm, ← hid]
    simp [Board.callFor, hasks, hkind, hresolve]

/-- Only a lambda of type 0 has a name that fills the field. -/
theorem Linux.Inv.short_or_untyped (h : s.Inv) {i : ℕ} (hl : s.registry.slot i = some l) :
    l.text.length < MAX_LAMBDA_NAME_LENGTH ∨ LambdaKind.ofType l.type = none := by
  rcases (h.short i l hl).lt_or_eq with hlt | hfull
  · exact Or.inl hlt
  · right
    have hnul := byteAt_strlen l.nameMem
    rw [hfull, Watched.byteAt_nameMem] at hnul
    rw [hnul]
    rfl

/-! ## The two calls -/

namespace Linux

/-- What a call returns, stores in `*result` and leaves behind. -/
def CallOutcome.effect (out : CallOutcome) : Int8 × Option GenericLambdaReturn × Linux :=
  (out.code, out.written, out.state)

/-- On every board with the lambdas of the Linux side the two packets lead to the same
evaluation, that of the lambda with the given id if the type is one, and are answered alike. -/
def SameRequest (s : Linux) (type : RsLambdaType) (id : LambdaId) (p p' : Packet) : Prop :=
  ∀ started ops b, Board.after started ops = some b → s.SameNames b → ∀ o env ev,
    b.callFor (.packet env p) = (LambdaKind.ofType type).map (fun kind => (kind, id)) ∧
    b.callFor (.packet env p') = (LambdaKind.ofType type).map (fun kind => (kind, id)) ∧
    Board.handleReceivedPacket o env ev b p = Board.handleReceivedPacket o env ev b p'

/-- The wait does not look at the packet. -/
theorem waitLambdaResult_effect (o : ByteOrder) (s : Linux) (l : RsRegisteredLambda ArgPtr)
    (w : Wait) (sent sent' : List Packet) :
    (waitLambdaResult o s l w sent).map CallOutcome.effect =
      (waitLambdaResult o s l w sent').map CallOutcome.effect := by
  cases hwait : timedWait o s l w with
  | none => rw [waitLambdaResult_of_destroyed hwait, waitLambdaResult_of_destroyed hwait]
  | some timedOut =>
    rw [waitLambdaResult_of_timedWait hwait, waitLambdaResult_of_timedWait hwait]
    cases (receiveAll o s w.packets).afterWait l timedOut with
    | none => rfl
    | some after => rfl

variable {c c' : Call}

/-- Two calls that find one record under one expected type do the same. -/
theorem Inv.call_effect (h : s.Inv) (hf : s.found c = some l) (hf' : s.found c' = some l)
    (htype : c.expectedType = c'.expectedType) (o : ByteOrder) (env env' : Env) (w : Wait) :
    (call o env s c w).map CallOutcome.effect = (call o env' s c' w).map CallOutcome.effect := by
  obtain ⟨packet, hpacket⟩ := h.callPacket_exists hf env
  obtain ⟨packet', hpacket'⟩ := h.callPacket_exists hf' env'
  rw [call_eq, call_eq, hf, hf', hpacket, hpacket', htype]
  unfold callLambda
  dsimp only
  split_ifs
  · rfl
  · rfl
  · exact waitLambdaResult_effect o s l w [packet] [packet']

/-- They send nothing, or one packet each for the same evaluation. -/
theorem Inv.call_sent (h : s.Inv) {name : List UInt8}
    (hname : getRegisteredLambdaByName s.registry name = some l) (hf : s.found c = some l)
    (hf' : s.found c' = some l) (htype : c.expectedType = c'.expectedType) {o : ByteOrder}
    {env env' : Env} {w : Wait} {out out' : CallOutcome} (hout : call o env s c w = some out)
    (hout' : call o env' s c' w = some out') :
    (out.sent = [] ∧ out'.sent = []) ∨
      ∃ p p', out.sent = [p] ∧ out'.sent = [p'] ∧ s.SameRequest c.expectedType l.id p p' := by
  have hwaits : s.waitsOn c = s.waitsOn c' := by rw [waitsOn, waitsOn, hf, hf', htype]
  cases hw : s.waitsOn c with
  | none =>
    obtain ⟨code, written, heq, -⟩ := call_of_not_waiting hw o env w
    obtain ⟨code', written', heq', -⟩ := call_of_not_waiting (hwaits ▸ hw) o env' w
    obtain rfl := Option.some.inj (heq.symm.trans hout)
    obtain rfl := Option.some.inj (heq'.symm.trans hout')
    exact Or.inl ⟨rfl, rfl⟩
  | some k =>
    obtain ⟨hk, hty, -⟩ := waitsOn_eq_some.mp hw
    obtain rfl := Option.some.inj (hk.symm.trans hf)
    obtain ⟨p, hp, heq⟩ := h.call_of_waiting hw o env w
    obtain ⟨p', hp', heq'⟩ := h.call_of_waiting (hwaits ▸ hw) o env' w
    obtain ⟨q, hq, hnames⟩ := Watched.callPacket_names h hf hty env
    obtain ⟨q', hq', hnames'⟩ := Watched.callPacket_names h hf' (hty.trans htype) env'
    obtain rfl := Option.some.inj (hp.symm.trans hq)
    obtain rfl := Option.some.inj (hp'.symm.trans hq')
    rw [heq] at hout
    rw [heq'] at hout'
    refine Or.inr ⟨p, p', waitLambdaResult_sent hout, waitLambdaResult_sent hout', ?_⟩
    intro started ops b hafter hsame o env ev
    have hb := (Board.Sound.after hafter).1.wf
    have hshort := h.short_or_untyped (h.slot_of_found hf)
    rw [hty] at hshort
    have hfor := callFor_of_names hsame h.wf hb hname hshort hnames env
    have hfor' := callFor_of_names hsame h.wf hb hname hshort (htype ▸ hnames') env
    refine ⟨hfor, hfor', ?_⟩
    rw [Board.handleReceivedPacket_callFor, Board.handleReceivedPacket_callFor, hfor, hfor']

end Linux

/-! ## Among other clients -/

/-- The same phase of another call. -/
def Phase.under (c : Call) : Phase → Phase
  | .idle => .idle
  | .ready p => .ready { p with call := c }
  | .sent p => .sent { p with call := c }
  | .waiting p => .waiting { p with call := c }
  | .resuming p timedOut => .resuming { p with call := c } timedOut
  | .returned r => .returned { r with call := c }
  | .undefined answered => .undefined answered

/-- The client is at the call, or has returned from it. -/
def Phase.Of (c : Call) : Phase → Prop
  | .idle => False
  | .ready p | .sent p | .waiting p | .resuming p _ => p.call = c
  | .returned r => r.call = c
  | .undefined _ => True

theorem Phase.onPacket_under (stored broadcast : Option ArgPtr) (c : Call) (phase : Phase) :
    (phase.under c).onPacket stored broadcast = (phase.onPacket stored broadcast).under c := by
  cases phase with
  | waiting p =>
    unfold Phase.under Phase.onPacket
    dsimp only
    split_ifs <;> rfl
  | _ => rfl

theorem Phase.Of.onPacket {c : Call} {phase : Phase} (h : phase.Of c)
    (stored broadcast : Option ArgPtr) : (phase.onPacket stored broadcast).Of c := by
  cases phase with
  | waiting p =>
    unfold Phase.onPacket
    dsimp only
    split_ifs <;> exact h
  | _ => exact h

/-- The client of a step. -/
def ThreadEvent.client : ThreadEvent → Option ℕ
  | .packet _ => none
  | .lookup i _ | .send i _ | .wait i | .expire i | .spurious i | .resume i | .respond i => some i

namespace Threads

variable {o : ByteOrder} {t : Threads} {i j : ℕ} {c c' : Call}

theorem setPhase_comm (t : Threads) (h : j ≠ i) (phase phase' : Phase) :
    (t.setPhase i phase).setPhase j phase' = (t.setPhase j phase').setPhase i phase := by
  unfold setPhase
  simp only [Function.update_comm h]

section Others

variable (h : j ≠ i) (phase : Phase)

include h

theorem clients_setPhase_of_ne : (t.setPhase i phase).clients j = t.clients j :=
  Function.update_of_ne h _ _

theorem lookup_setPhase_of_ne (c : Call) :
    (t.setPhase i phase).lookup j c = (t.lookup j c).setPhase i phase := by
  simp only [lookup, clients_setPhase_of_ne h, linux_setPhase, holder_setPhase]
  cases t.clients j with
  | idle =>
    cases t.holder with
    | some m => rfl
    | none =>
      dsimp only
      cases t.linux.found c with
      | none => exact setPhase_comm t h _ _
      | some lambda =>
        dsimp only
        by_cases htype : lambda.type = c.expectedType
        · rw [if_neg (not_not.mpr htype), if_neg (not_not.mpr htype)]
          by_cases hcheck : (Linux.checkLambdaCache t.linux lambda).1 = 0
          · simp only [ne_eq, hcheck, not_true_eq_false, if_false]
            exact setPhase_comm { t with holder := some j } h _ _
          · simp only [ne_eq, hcheck, not_false_eq_true, if_true]
            exact setPhase_comm t h _ _
        · rw [if_pos htype, if_pos htype]
          exact setPhase_comm t h _ _
  | _ => rfl

theorem send_setPhase_of_ne (env : Env) :
    (t.setPhase i phase).send j env = (t.send j env).setPhase i phase := by
  simp only [send, clients_setPhase_of_ne h]
  cases t.clients j with
  | ready p =>
    dsimp only
    cases Linux.callPacket env p.call with
    | none => exact setPhase_comm t h _ _
    | some packet => exact setPhase_comm t h _ _
  | _ => rfl

theorem wait_setPhase_of_ne :
    (t.setPhase i phase).wait j = (t.wait j).setPhase i phase := by
  simp only [Threads.wait, clients_setPhase_of_ne h, linux_setPhase]
  cases t.clients j with
  | sent p =>
    dsimp only
    by_cases hentry : (t.linux.entry p.lambda).isNone = true
    · simp only [hentry, if_true]
      exact setPhase_comm (t.record _) h _ _
    · simp only [hentry]
      exact setPhase_comm { t.record _ with holder := none } h _ _
  | _ => rfl

theorem expire_setPhase_of_ne :
    (t.setPhase i phase).expire j = (t.expire j).setPhase i phase := by
  simp only [expire, clients_setPhase_of_ne h, linux_setPhase]
  cases t.clients j with
  | waiting p =>
    dsimp only
    by_cases hentry : (t.linux.entry p.lambda).isNone = true
    · simp only [hentry, if_true]
      exact setPhase_comm (t.record _) h _ _
    · simp only [hentry]
      exact setPhase_comm (t.record _) h _ _
  | _ => rfl

theorem spurious_setPhase_of_ne :
    (t.setPhase i phase).spurious j = (t.spurious j).setPhase i phase := by
  simp only [spurious, clients_setPhase_of_ne h]
  cases t.clients j with
  | waiting p => exact setPhase_comm t h _ _
  | _ => rfl

theorem resume_setPhase_of_ne :
    (t.setPhase i phase).resume j = (t.resume j).setPhase i phase := by
  simp only [resume, clients_setPhase_of_ne h, linux_setPhase, holder_setPhase]
  cases t.clients j with
  | resuming p timedOut =>
    cases t.holder with
    | some m => rfl
    | none =>
      dsimp only
      have hreads : (t.setPhase i phase).readsCache p timedOut = t.readsCache p timedOut := rfl
      have hrecord : ∀ a, (if t.readsCache p timedOut then (t.setPhase i phase).record a
          else t.setPhase i phase) =
            (if t.readsCache p timedOut then t.record a else t).setPhase i phase := fun a => by
        split <;> rfl
      rw [hreads, hrecord]
      generalize (if t.readsCache p timedOut then t.record _ else t) = u
      cases t.linux.afterWait p.lambda timedOut with
      | none => exact setPhase_comm u h _ _
      | some after => exact setPhase_comm { u with linux := after.1 } h _ _
  | _ => rfl

theorem respond_setPhase_of_ne :
    (t.setPhase i phase).respond j = (t.respond j).setPhase i phase := by
  simp only [respond, clients_setPhase_of_ne h, linux_setPhase]
  cases t.clients j with
  | returned r =>
    dsimp only
    by_cases hcode : r.code ∈ SUCCESS_CODES
    · rw [if_pos hcode, if_pos hcode]
      exact setPhase_comm (t.record _) h _ _
    · rw [if_neg hcode, if_neg hcode]
      exact setPhase_comm t h _ _
  | _ => rfl

/-- Where a client stands does not matter to the others. -/
theorem step_setPhase_of_ne {e : ThreadEvent} (he : e.client = some j) :
    step o (t.setPhase i phase) e = (step o t e).setPhase i phase := by
  cases e with
  | packet d => cases he
  | lookup k c =>
    obtain rfl := Option.some.inj he
    exact lookup_setPhase_of_ne h phase c
  | send k env =>
    obtain rfl := Option.some.inj he
    exact send_setPhase_of_ne h phase env
  | wait k =>
    obtain rfl := Option.some.inj he
    exact wait_setPhase_of_ne h phase
  | expire k =>
    obtain rfl := Option.some.inj he
    exact expire_setPhase_of_ne h phase
  | spurious k =>
    obtain rfl := Option.some.inj he
    exact spurious_setPhase_of_ne h phase
  | resume k =>
    obtain rfl := Option.some.inj he
    exact resume_setPhase_of_ne h phase
  | respond k =>
    obtain rfl := Option.some.inj he
    exact respond_setPhase_of_ne h phase

end Others

theorem clients_step_of_ne {e : ThreadEvent} (he : e.client = some j) (h : j ≠ i) :
    (step o t e).clients i = t.clients i := by
  have hsame : t.setPhase i (t.clients i) = t := by
    unfold setPhase
    rw [Function.update_eq_self]
  have hstep := @step_setPhase_of_ne o t i j h (t.clients i) e he
  rw [hsame] at hstep
  rw [hstep, clients_setPhase, Function.update_self]

/-- The same state with the client at another call. -/
def withCall (t : Threads) (i : ℕ) (c : Call) : Threads := t.setPhase i ((t.clients i).under c)

@[simp] theorem clients_withCall (t : Threads) (i : ℕ) (c : Call) :
    (t.withCall i c).clients i = (t.clients i).under c := Function.update_self ..

/-- A client at the call goes on to a phase of the call. -/
theorem setPhase_withCall (t : Threads) (i : ℕ) (c' : Call) {phase : Phase} (h : phase.Of c) :
    (t.withCall i c').setPhase i (phase.under c') = (t.setPhase i phase).withCall i c' ∧
      ((t.setPhase i phase).clients i).Of c := by
  refine ⟨by simp [withCall, setPhase], ?_⟩
  rw [clients_setPhase, Function.update_self]
  exact h

theorem packet_withCall (o : ByteOrder) (t : Threads) (i : ℕ) (c : Call) (d : Linux.Delivery) :
    (t.withCall i c).packet o d = (t.packet o d).withCall i c := by
  unfold withCall setPhase packet
  simp only [Threads.mk.injEq, and_true, true_and]
  funext j
  by_cases hj : j = i
  · rw [hj, Function.update_self, Function.update_self, Phase.onPacket_under]
  · rw [Function.update_of_ne hj, Function.update_of_ne hj]

/-- The calls differ in their packets only, which stay inside their objects. -/
structure Swaps (c c' : Call) : Prop where
  packet : ∀ env, (Linux.callPacket env c).isSome
  packet' : ∀ env, (Linux.callPacket env c').isSome

section Own

variable (hof : (t.clients i).Of c)

include hof

theorem send_withCall (hswaps : Swaps c c') (env : Env) :
    (t.withCall i c').send i env = (t.send i env).withCall i c' ∧
      ((t.send i env).clients i).Of c := by
  simp only [send, clients_withCall]
  cases hphase : t.clients i with
  | ready p =>
    have hcall : p.call = c := by
      rwa [hphase] at hof
    obtain ⟨packet, hpacket⟩ := Option.isSome_iff_exists.mp (hswaps.packet env)
    obtain ⟨packet', hpacket'⟩ := Option.isSome_iff_exists.mp (hswaps.packet' env)
    simp only [Phase.under, hcall, hpacket, hpacket']
    exact setPhase_withCall t i c' (show (Phase.sent p).Of c from hcall)
  | _ => exact ⟨rfl, hof⟩

theorem wait_withCall :
    (t.withCall i c').wait i = (t.wait i).withCall i c' ∧ ((t.wait i).clients i).Of c := by
  simp only [Threads.wait, clients_withCall]
  cases hphase : t.clients i with
  | sent p =>
    have hcall : p.call = c := by
      rwa [hphase] at hof
    simp only [Phase.under, withCall, linux_setPhase]
    by_cases hentry : (t.linux.entry p.lambda).isNone = true
    · simp only [hentry, if_true]
      exact setPhase_withCall (t.record _) i c' (show (Phase.undefined p.answered).Of c from trivial)
    · simp only [hentry]
      exact setPhase_withCall { t.record _ with holder := none } i c'
        (show (Phase.waiting p).Of c from hcall)
  | _ => exact ⟨rfl, hof⟩

theorem expire_withCall :
    (t.withCall i c').expire i = (t.expire i).withCall i c' ∧
      ((t.expire i).clients i).Of c := by
  simp only [expire, clients_withCall]
  cases hphase : t.clients i with
  | waiting p =>
    have hcall : p.call = c := by
      rwa [hphase] at hof
    simp only [Phase.under, withCall, linux_setPhase]
    by_cases hentry : (t.linux.entry p.lambda).isNone = true
    · simp only [hentry, if_true]
      exact setPhase_withCall (t.record _) i c' (show (Phase.undefined p.answered).Of c from trivial)
    · simp only [hentry]
      exact setPhase_withCall (t.record _) i c' (show (Phase.resuming p true).Of c from hcall)
  | _ => exact ⟨rfl, hof⟩

theorem spurious_withCall :
    (t.withCall i c').spurious i = (t.spurious i).withCall i c' ∧
      ((t.spurious i).clients i).Of c := by
  simp only [spurious, clients_withCall]
  cases hphase : t.clients i with
  | waiting p =>
    have hcall : p.call = c := by
      rwa [hphase] at hof
    exact setPhase_withCall t i c' (show (Phase.resuming p false).Of c from hcall)
  | _ => exact ⟨rfl, hof⟩

theorem resume_withCall :
    (t.withCall i c').resume i = (t.resume i).withCall i c' ∧
      ((t.resume i).clients i).Of c := by
  have hholder : (t.withCall i c').holder = t.holder := rfl
  simp only [resume, clients_withCall, hholder]
  cases hphase : t.clients i with
  | resuming p timedOut =>
    have hcall : p.call = c := by
      rwa [hphase] at hof
    cases t.holder with
    | some m => exact ⟨rfl, hof⟩
    | none =>
      have hlinux : (t.withCall i c').linux = t.linux := rfl
      have hreads : (t.withCall i c').readsCache { p with call := c' } timedOut =
          t.readsCache p timedOut := rfl
      have hrecord : ∀ a, (if t.readsCache p timedOut then (t.withCall i c').record a
          else t.withCall i c') =
            (if t.readsCache p timedOut then t.record a else t).withCall i c' := fun a => by
        split <;> rfl
      simp only [Phase.under, hlinux, hreads, hrecord]
      generalize (if t.readsCache p timedOut then t.record _ else t) = u
      cases t.linux.afterWait p.lambda timedOut with
      | none => exact setPhase_withCall u i c' (show (Phase.undefined p.answered).Of c from trivial)
      | some after =>
        exact setPhase_withCall { u with linux := after.1 } i c'
          (show (Phase.returned ⟨p.call, some p.lambda, after.2.1, after.2.2, p.answered⟩).Of c
            from hcall)
  | _ => exact ⟨rfl, hof⟩

/-- On its way through the connector a call does not look at what it was made with, but to
send its packet. -/
theorem step_own_withCall (hswaps : Swaps c c') {e : ThreadEvent} (he : e.client = some i)
    (hne : e ≠ .respond i) :
    step o (t.withCall i c') e = (step o t e).withCall i c' ∧ ((step o t e).clients i).Of c := by
  cases e with
  | packet d => cases he
  | lookup k c'' =>
    obtain rfl := Option.some.inj he
    simp only [step, lookup, clients_withCall]
    cases hphase : t.clients k with
    | idle =>
      rw [hphase] at hof
      exact hof.elim
    | _ => exact ⟨rfl, hof⟩
  | send k env =>
    obtain rfl := Option.some.inj he
    exact send_withCall hof hswaps env
  | wait k =>
    obtain rfl := Option.some.inj he
    exact wait_withCall hof
  | expire k =>
    obtain rfl := Option.some.inj he
    exact expire_withCall hof
  | spurious k =>
    obtain rfl := Option.some.inj he
    exact spurious_withCall hof
  | resume k =>
    obtain rfl := Option.some.inj he
    exact resume_withCall hof
  | respond k =>
    obtain rfl := Option.some.inj he
    exact absurd rfl hne

end Own

theorem step_withCall (hswaps : Swaps c c') {e : ThreadEvent} (hne : e ≠ .respond i)
    (hof : (t.clients i).Of c) :
    step o (t.withCall i c') e = (step o t e).withCall i c' ∧ ((step o t e).clients i).Of c := by
  cases hclient : e.client with
  | none =>
    cases e with
    | packet d => exact ⟨packet_withCall o t i c' d, hof.onPacket _ _⟩
    | _ => cases hclient
  | some j =>
    by_cases hj : j = i
    · exact step_own_withCall hof hswaps (hj ▸ hclient) hne
    · have hstay := @clients_step_of_ne o t i j e hclient hj
      rw [withCall, withCall, step_setPhase_of_ne hj _ hclient, hstay]
      exact ⟨rfl, hof⟩

/-- So does a whole run, until the call is answered. -/
theorem run_withCall (hswaps : Swaps c c') {later : List ThreadEvent}
    (hlater : .respond i ∉ later) (hof : (t.clients i).Of c) :
    Runs.run (step o) (t.withCall i c') later = (Runs.run (step o) t later).withCall i c' := by
  induction later generalizing t with
  | nil => rfl
  | cons e later ih =>
    obtain ⟨hne, hrest⟩ := not_or.mp (mt List.mem_cons.mpr hlater)
    obtain ⟨hstep, hof'⟩ := @step_withCall o t i c c' hswaps e (Ne.symm hne) hof
    rw [Runs.run_cons, Runs.run_cons, hstep]
    exact ih hrest hof'

/-- Calls that find one record under one expected type start alike. -/
theorem lookup_withCall (hidle : t.clients i = .idle) (hfree : t.holder = none)
    {l : RsRegisteredLambda ArgPtr} (hf : t.linux.found c = some l)
    (hf' : t.linux.found c' = some l) (htype : c.expectedType = c'.expectedType) :
    t.lookup i c' = (t.lookup i c).withCall i c' ∧ ((t.lookup i c).clients i).Of c := by
  have hidle' : t.withCall i c' = t := by
    rw [withCall, hidle]
    change t.setPhase i .idle = t
    rw [← hidle]
    unfold setPhase
    rw [Function.update_eq_self]
  have hgo : ∀ (u : Threads) {phase : Phase}, u.withCall i c' = u → phase.Of c →
      u.setPhase i (phase.under c') = (u.setPhase i phase).withCall i c' ∧
        ((u.setPhase i phase).clients i).Of c := fun u phase hu h => by
    have hset := setPhase_withCall u i c' h
    rwa [hu] at hset
  unfold lookup
  rw [hidle, hfree, hf, hf', ← htype]
  dsimp only
  by_cases hty : l.type = c.expectedType
  · simp only [ne_eq, hty, not_true_eq_false, if_false]
    by_cases hcheck : (Linux.checkLambdaCache t.linux l).1 = 0
    · simp only [hcheck, not_true_eq_false, if_false]
      refine hgo { t with holder := some i } ?_
        (show (Phase.ready ⟨c, l, false, false⟩).Of c from rfl)
      exact congrArg (fun u : Threads => { u with holder := some i }) hidle'
    · simp only [hcheck, not_false_eq_true, if_true]
      exact hgo t hidle' (show (Phase.returned ⟨c, some l, _, _, false⟩).Of c from rfl)
  · simp only [ne_eq, hty, not_false_eq_true, if_true]
    exact hgo t hidle' (show (Phase.returned ⟨c, some l, _, _, false⟩).Of c from rfl)

/-- A call by name is the call by the id that the name is found under. It returns the same code,
stores the same result and leaves the same registry and cache; it sends nothing or one packet, as
the other does, and on a board with the same lambdas either packet leads to the same evaluation.
And for everything that happens beside it the two are one. -/
theorem call_by_name_eq_by_id {o : ByteOrder} {garbage : ArgPtr → RsLinuxRegisteredLambda}
    {es : List ThreadEvent} {t : Threads}
    (ht : Runs.run (step o) (start (Linux.started garbage)) es = t) {name : List UInt8}
    {l : RsRegisteredLambda ArgPtr}
    (hname : getRegisteredLambdaByName t.linux.registry name = some l) (type : RsLambdaType) :
    (∀ env env' w,
      (Linux.call o env t.linux (.byName name type) w).map Linux.CallOutcome.effect =
        (Linux.call o env' t.linux (.byId l.id type) w).map Linux.CallOutcome.effect) ∧
    (∀ env env' w out out', Linux.call o env t.linux (.byName name type) w = some out →
      Linux.call o env' t.linux (.byId l.id type) w = some out' →
      (out.sent = [] ∧ out'.sent = []) ∨ ∃ p p', out.sent = [p] ∧ out'.sent = [p'] ∧
        t.linux.SameRequest type l.id p p') ∧
    ∀ i later, t.clients i = .idle → t.holder = none → .respond i ∉ later →
      Runs.run (step o) t (.lookup i (.byId l.id type) :: later) =
        (Runs.run (step o) t (.lookup i (.byName name type) :: later)).withCall i
          (.byId l.id type) := by
  have hinv : t.linux.Inv := by
    rw [← ht]
    exact @Runs.run_inv_all _ _ (step o) (fun s => s.linux.Inv) (fun _ e h => inv_step h o e)
      (start (Linux.started garbage)) es (Linux.Inv.started garbage)
  have hf : t.linux.found (.byName name type) = some l := hname
  have hf' : t.linux.found (.byId l.id type) = some l :=
    (hinv.wf.getById l.id).trans (hinv.slot_of_found hf)
  refine ⟨fun env env' w => hinv.call_effect hf hf' rfl o env env' w,
    fun env env' w out out' hout hout' => hinv.call_sent hname hf hf' rfl hout hout',
    fun i later hidle hfree hlater => ?_⟩
  have hswaps : Swaps (.byName name type) (.byId l.id type) :=
    ⟨fun env => Option.isSome_iff_exists.mpr (hinv.callPacket_exists hf env),
      fun env => Option.isSome_iff_exists.mpr (hinv.callPacket_exists hf' env)⟩
  obtain ⟨hlookup, hof⟩ := lookup_withCall hidle hfree hf hf' rfl
  rw [Runs.run_cons, Runs.run_cons]
  change Runs.run (step o) (t.lookup i (.byId l.id type)) later = _
  rw [hlookup]
  exact run_withCall hswaps hlater hof

/-- `"a"` is registered, called by its name or its id 0, and answered. -/
theorem call_by_name_eq_by_id_a :
    ∃ t l, Runs.run (step .little) (start (Linux.started zeroed)) [.packet registersA] = t ∧
      getRegisteredLambdaByName t.linux.registry [97, 0] = some l ∧ l.id = 0 ∧
      Runs.run (step .little) t [.lookup 7 (.byId l.id RS_LAMBDA_INT), .send 7 {}, .wait 7,
          .packet answersFive, .resume 7] =
        (Runs.run (step .little) t [.lookup 7 (.byName [97, 0] RS_LAMBDA_INT), .send 7 {}, .wait 7,
          .packet answersFive, .resume 7]).withCall 7 (.byId l.id RS_LAMBDA_INT) :=
  ⟨_, _, rfl, rfl, rfl, (@call_by_name_eq_by_id .little zeroed [.packet registersA] _ rfl [97, 0]
    _ rfl RS_LAMBDA_INT).2.2 7 [.send 7 {}, .wait 7, .packet answersFive, .resume 7] rfl rfl
    (by simp)⟩

end Threads

end RS
