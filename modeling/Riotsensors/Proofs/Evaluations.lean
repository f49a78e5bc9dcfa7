import Riotsensors.Proofs.Entries

/-! What the board evaluates. Each evaluation for a packet is for a call of its own, in the order
of the calls, and is of the lambda and type that the call asked for. -/

namespace RS

open CMem

namespace World

variable {o : ByteOrder} {garbage : ArgPtr → RsLinuxRegisteredLambda} {w w' : World}

/-- The board reads the packet as the call: by its id or by its name, and with its type. -/
def Asks (packet : Packet) (c : Call) : Prop :=
  ∀ env, ∃ target, Board.readCall env packet = some (target, c.expectedType) ∧
    match c, target with
    | .byId id _, .id id' => id' = id
    | .byName name _, .name mem => cstr mem = cstr name
    | _, _ => False

theorem asks_of_callPacket {linux : Linux} (h : linux.Inv) {c : Call}
    {l : RsRegisteredLambda ArgPtr} (hf : linux.found c = some l) (htype : l.type = c.expectedType)
    {env : Env} {packet : Packet} (hpacket : Linux.callPacket env c = some packet) :
    Asks packet c := by
  obtain ⟨packet', hpacket', hnames⟩ := Watched.callPacket_names h hf htype env
  obtain rfl := Option.some.inj (hpacket.symm.trans hpacket')
  intro benv
  obtain ⟨target, hread, htarget⟩ := hnames benv
  refine ⟨target, hread, ?_⟩
  cases c with
  | byId id type =>
    obtain ⟨pkt, hpkt, hlen, htag, -⟩ := Linux.callByIdPacket_spec env id type
    obtain rfl := Option.some.inj (hpacket.symm.trans hpkt)
    have hlid : l.id = id := UInt8.toNat_inj.mp (h.wf.ids _ l ((h.wf.getById id).symm.trans hf))
    rw [Board.readCall, if_neg (by rw [hlen]; decide), if_pos htag,
      if_neg (not_not.mpr hlen)] at hread
    obtain ⟨rfl, -⟩ := Prod.mk.inj (Option.some.inj hread)
    exact htarget.trans hlid
  | byName name type =>
    obtain ⟨hslot, htext⟩ := h.wf.of_getByName hf
    have hshort : strlen name ≤ MAX_LAMBDA_NAME_LENGTH := by
      rw [strlen, ← htext]
      exact h.short _ _ hslot
    obtain ⟨pkt, hpkt, hlen, htag, -⟩ := Linux.callByNamePacket_spec hshort env type
    obtain rfl := Option.some.inj (hpacket.symm.trans hpkt)
    rw [Board.readCall, if_neg (by rw [hlen]; decide), if_neg (by rw [htag]; decide), if_pos htag,
      if_neg (not_not.mpr hlen)] at hread
    obtain ⟨rfl, -⟩ := Prod.mk.inj (Option.some.inj hread)
    exact htarget.trans htext

/-- The lambda that is evaluated for a packet is one that its call asks for. -/
theorem isFor_of_asks {b : Board} (hwf : b.registry.WF) {packet : Packet} {c : Call}
    (hasks : Asks packet c) {env : Env} {target : Target} {m : RsRegisteredLambda FuncPtr}
    (hread : Board.readCall env packet = some (target, m.type))
    (htarget : b.addressee target = some m) : m.IsFor c := by
  obtain ⟨target', hread', hsame⟩ := hasks env
  obtain ⟨rfl, htype⟩ := Prod.mk.inj (Option.some.inj (hread'.symm.trans hread))
  refine ⟨htype.symm, ?_⟩
  cases c with
  | byId id type =>
    cases target' with
    | id id' =>
      obtain rfl : id' = id := hsame
      exact UInt8.toNat_inj.mp (hwf.ids _ m ((hwf.getById id').symm.trans htarget))
    | name mem => exact hsame.elim
  | byName name type =>
    cases target' with
    | id id' => exact hsame.elim
    | name mem => exact (hwf.of_getByName htarget).2.trans hsame

/-- Every evaluation and every call packet under way goes back to a call of its own. -/
def Asked (w : World) : Prop :=
  Queue.Accounted (fun (r : Request) c => Asks r.packet c) RsRegisteredLambda.IsFor w.link.toBoard
    w.evaluated w.issued

theorem Asked.client {R : RsRegisteredLambda FuncPtr → RsRegisteredLambda ArgPtr → Prop}
    (h : w.Asked) (hinv : w.Inv o R garbage) (x : ClientStep) : (w.client o x).Asked := by
  obtain ⟨threads, hthreads, htruthful⟩ := hinv.threads
  simp only [World.client, hthreads]
  cases hposts : threads.posts x with
  | none =>
    simp only [Option.toList_none, List.map_nil, List.append_nil]
    exact h
  | some posted =>
    obtain ⟨p, packet⟩ := posted
    obtain ⟨i, env, -, hphase, hpacket⟩ := posts_eq_some hposts
    have hf := htruthful.safe.holds i
    have htype := htruthful.clients i
    rw [hphase] at hf htype
    exact h.push (asks_of_callPacket htruthful.safe.linux hf htype hpacket)

theorem Asked.serve {R : RsRegisteredLambda FuncPtr → RsRegisteredLambda ArgPtr → Prop}
    (h : w.Asked) (hinv : w.Inv o R garbage) {env : Env} {ev : Evaluators}
    (hstep : w.serve o env ev = some w') : w'.Asked := by
  unfold World.serve at hstep
  cases hqueue : w.link.toBoard with
  | nil =>
    rw [hqueue] at hstep
    rwa [← Option.some.inj hstep]
  | cons r rest =>
    simp only [hqueue] at hstep
    obtain ⟨served, hserved, hstep⟩ := Option.bind_eq_some_iff.mp hstep
    obtain ⟨link, hlink, hw'⟩ := Option.bind_eq_some_iff.mp hstep
    obtain rfl := Option.some.inj hw'
    have hrest : link.toBoard = rest := by
      simp only [Link.serve, hqueue, hserved, Option.bind_eq_bind, Option.bind_some,
        Option.pure_def, Option.some.injEq] at hlink
      rw [← hlink]
      rfl
    unfold Asked at h ⊢
    rw [hqueue] at h
    rw [hrest]
    rcases Board.served_cases hinv.board.wf hserved with
      ⟨hnone, -⟩ | ⟨target, m, _, hread, htarget, hinvoked, -⟩
    · rw [hnone, Option.toList_none, List.append_nil]
      exact h.drop
    · rw [hinvoked]
      exact h.serve fun c hasks => isFor_of_asks hinv.board.wf hasks hread htarget

/-- The board's own packets are no calls. -/
theorem Asked.of_eq (h : w.Asked) (htoBoard : w'.link.toBoard = w.link.toBoard)
    (hevaluated : w'.evaluated = w.evaluated) (hissued : w'.issued = w.issued) : w'.Asked := by
  unfold Asked
  rw [htoBoard, hevaluated, hissued]
  exact h

theorem requests_deliver (o : ByteOrder) (env : Env) (w : World) :
    (w.deliver o env).link.toBoard = w.link.toBoard ∧
      (w.deliver o env).evaluated = w.evaluated ∧ (w.deliver o env).issued = w.issued := by
  have hlink : (w.link.deliver o env).toBoard = w.link.toBoard := by
    unfold Link.deliver
    split
    · rfl
    · unfold Link.arrive
      split
      · rfl
      · rfl
  unfold World.deliver
  split
  · exact ⟨hlink, rfl, rfl⟩
  · exact ⟨rfl, rfl, rfl⟩

theorem Asked.step {R : RsRegisteredLambda FuncPtr → RsRegisteredLambda ArgPtr → Prop}
    (h : w.Asked) (hinv : w.Inv o R garbage) {e : WorldEvent}
    (hstep : World.step o (some w) e = some w') : w'.Asked := by
  cases e with
  | operate env op =>
    obtain ⟨link, hlink, hw'⟩ := Option.bind_eq_some_iff.mp hstep
    obtain ⟨_, -, hpost⟩ := Option.bind_eq_some_iff.mp hlink
    obtain rfl := Option.some.inj hw'
    exact h.of_eq (by rw [← Option.some.inj hpost]; rfl) rfl rfl
  | send env target result =>
    obtain ⟨_, -, hrest⟩ := Option.bind_eq_some_iff.mp (link_send hstep)
    have htoBoard : w'.link.toBoard = w.link.toBoard := by
      rw [← Option.some.inj hrest]
      rfl
    obtain ⟨_, -, hrest⟩ := Option.bind_eq_some_iff.mp hstep
    obtain ⟨link, -, hw'⟩ := Option.bind_eq_some_iff.mp hrest
    exact h.of_eq htoBoard (by rw [← Option.some.inj hw']) (by rw [← Option.some.inj hw'])
  | client x => exact Option.some.inj hstep ▸ h.client hinv x
  | deliver env =>
    obtain rfl := Option.some.inj hstep
    obtain ⟨htoBoard, hevaluated, hissued⟩ := requests_deliver o env w
    exact h.of_eq htoBoard hevaluated hissued
  | serve env ev => exact h.serve hinv hstep
  | loseToLinux i =>
    obtain rfl := Option.some.inj hstep
    exact h
  | loseToBoard i =>
    obtain rfl := Option.some.inj hstep
    exact h.eraseIdx i

/-- In every run, whatever is lost: the lambdas that the board evaluates for packets are, in
order, what different calls of the clients asked for, by id or name and by type. -/
theorem evaluations_are_asked {es : List WorldEvent}
    (hrun : Runs.run (step o) (some (start garbage)) es = some w) :
    List.SublistForall₂ RsRegisteredLambda.IsFor w.evaluated w.issued := by
  let Good (w : World) : Prop := w.Inv o (fun m l => m.id = l.id) garbage ∧ w.Asked
  have hstep : ∀ (c : Option World) (e : WorldEvent), (∀ w, c = some w → Good w) →
      ∀ w, step o c e = some w → Good w := by
    intro c e hgood w hw
    cases c with
    | none => cases hw
    | some w0 =>
      obtain ⟨hinv, hasked⟩ := hgood w0 rfl
      exact ⟨hinv.step (fun _ _ _ _ _ _ _ _ _ hid => hid) hw, hasked.step hinv hw⟩
  have hstart : ∀ w, some (start garbage) = some w → Good w := fun w hw =>
    Option.some.inj hw ▸ ⟨Inv.start o _ garbage, Queue.Accounted.nil _ _⟩
  exact (Runs.run_inv_all hstep es hstart w hrun).2.sublistForall₂

theorem evaluations_are_asked_seven :
    ∃ w l, Runs.run (step .little) (some (start zeroed)) answersSeven = some w ∧
      w.evaluated = [l] ∧ List.SublistForall₂ RsRegisteredLambda.IsFor [l] w.issued := by
  have hrun : ∃ w l, Runs.run (step .little) (some (start zeroed)) answersSeven = some w ∧
      w.evaluated = [l] := ⟨_, _, rfl, rfl⟩
  obtain ⟨w, l, hw, hl⟩ := hrun
  exact ⟨w, l, hw, hl, hl ▸ evaluations_are_asked hw⟩

end World

end RS
