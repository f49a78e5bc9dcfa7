import Riotsensors.Proofs.Provenance

/-! Whose values they are. As long as Linux registers nothing after it has missed a
registration, an id stands for one entry, by name, type and cache policy, on either side; then
a call gets values of the very lambda it names, in the type it expects. -/

namespace RS

open CMem

/-- What a number stands for: name, type and cache policy. -/
abbrev Table := List (List UInt8 × RsLambdaType × RsCacheType)

theorem Result.member_of_arrives {r : Result} {undef : UInt64} {ret : GenericLambdaReturn}
    (h : r.Arrives undef ret) : ret.member = some r.kind.type := by
  cases r with
  | int i =>
    obtain rfl : ret = .retI i := h
    rfl
  | double d =>
    obtain ⟨packed, -, rfl⟩ := h
    rfl
  | string s =>
    obtain ⟨block, rfl, -⟩ := h
    rfl

/-- The next registration that Linux takes up has the number that Linux gives it. -/
theorem Link.Inv.number {names : List (List UInt8)} {s : Link} (h : s.Inv names) {o : ByteOrder}
    {env : Env} (hkeeps : KeepsUp o (some s) (.deliver env)) {linux : Linux}
    (hlinux : s.linux = some linux) {p : Parcel} {rest : List Parcel}
    (hqueue : s.toLinux = p :: rest)
    (htaken : (Linux.receive o linux ⟨env, p.packet⟩).registry ≠ linux.registry) :
    p.origin = .registration linux.registry.lambdaCounter.toNat := by
  have hfits : p.Fits names := h.parcels p (hqueue ▸ List.mem_cons_self)
  rcases (h.linux linux hlinux).receive hfits o env with hsame | ⟨k, horigin, hcounter, -⟩
  · exact absurd hsame htaken
  · have hmissed : s.missed = false := by
      refine Bool.eq_false_iff.mpr fun ht => ?_
      have hknown := hkeeps ht
      simp only [Link.known, Link.deliver, hqueue, Link.arrive, hlinux, Option.map_some,
        Option.some.injEq, getNumberOfRegisteredLambdas] at hknown
      rw [hknown] at hcounter
      omega
    have horder := h.order hmissed
    rw [hqueue] at horder
    have hk := (horder.next (by rw [horigin]; rfl)).1
    rw [horigin, hk, Link.taken, hlinux]

namespace World

variable {o : ByteOrder} {garbage : ArgPtr → RsLinuxRegisteredLambda} {w w' : World} {table : Table}

/-- Every id that either side gave out stands for its entry in the table. -/
structure Tabled (o : ByteOrder) (table : Table) (w : World) : Prop where
  count : table.length = w.link.board.registry.lambdaCounter.toNat
  board : ∀ i l, w.link.board.registry.slot i = some l → table[i]? = some l.shared
  linux : ∀ linux, w.link.linux = some linux → ∀ i l, linux.registry.slot i = some l →
    table[i]? = some l.shared
  parcels : ∀ p ∈ w.link.toLinux, ∀ k, p.origin = .registration k → ∀ env mem type cache,
    Linux.readPacket o env p.packet = .registered mem type cache →
    strlen mem ≤ MAX_LAMBDA_NAME_LENGTH → table[k]? = some (cstr mem, type, cache)
  products : ∀ product ∈ w.produced,
    table[product.lambda.id.toNat]? = some product.lambda.shared

theorem Tabled.start (o : ByteOrder) (garbage : ArgPtr → RsLinuxRegisteredLambda) :
    (World.start garbage).Tabled o [] where
  count := rfl
  board i l hl := by
    change Registry.empty.slot i = some l at hl
    rw [Registry.slot_empty] at hl
    cases hl
  linux linux hlinux i l hl := by
    obtain rfl := Option.some.inj hlinux
    change Registry.empty.slot i = some l at hl
    rw [Registry.slot_empty] at hl
    cases hl
  parcels _ h := absurd h List.not_mem_nil
  products _ h := absurd h List.not_mem_nil

/-- The board operates: the table grows, and what is sent fits it. -/
theorem Tabled.operated (h : w.Tabled o table) {board : Board} {origin : Origin}
    {sent : List Packet} {table' : Table} (hpre : table <+: table')
    (hcount : table'.length = board.registry.lambdaCounter.toNat)
    (hboard : ∀ i l, board.registry.slot i = some l → table'[i]? = some l.shared)
    (hsent : ∀ packet ∈ sent, ∀ k, origin = .registration k → ∀ env mem type cache,
      Linux.readPacket o env packet = .registered mem type cache →
      strlen mem ≤ MAX_LAMBDA_NAME_LENGTH → table'[k]? = some (cstr mem, type, cache)) :
    Tabled o table' { w with link := Link.post { w.link with board } origin sent } where
  count := hcount
  board := hboard
  linux linux hlinux i l hl := getElem?_of_prefix hpre (h.linux linux hlinux i l hl)
  parcels p hp k horigin env mem type cache hread hlen := by
    rcases mem_post hp with hold | ⟨packet, hmem, rfl⟩
    · exact getElem?_of_prefix hpre (h.parcels p hold k horigin env mem type cache hread hlen)
    · exact hsent packet hmem k horigin env mem type cache hread hlen
  products product hmem := getElem?_of_prefix hpre (h.products product hmem)

/-- A registration is sent as it was entered. -/
theorem registered_sent {name : List UInt8} {kind : LambdaKind} {cache : RsCacheType} {sender : Env}
    {packet : Packet} (hpacket : Board.registeredPacket sender name kind.type cache = some packet)
    (hlen : strlen name ≤ MAX_LAMBDA_NAME_LENGTH) {env : Env} {mem : List UInt8}
    {type : RsLambdaType} {cache' : RsCacheType}
    (hread : Linux.readPacket o env packet = .registered mem type cache')
    (hmem : strlen mem ≤ MAX_LAMBDA_NAME_LENGTH) (block : List UInt8) (id : LambdaId)
    (lambda : FuncPtr) :
    (newRecord block id name kind.type cache lambda).shared = (cstr mem, type, cache') := by
  rcases hlen.lt_or_eq with hlt | hfull
  · obtain ⟨mem', hread', hname⟩ := Linux.readPacket_registered hpacket hlen (Or.inl hlt) o env
    obtain ⟨rfl, rfl, rfl⟩ := Message.registered.inj (hread'.symm.trans hread)
    rw [hname]
    exact congrArg (·, _) (newRecord_text_of_lt hlt block id _ _ lambda)
  · obtain ⟨mem', hread', hlong⟩ :=
      Linux.readPacket_registered_full hpacket hfull kind.type_ne_zero o env
    obtain ⟨rfl, -, -⟩ := Message.registered.inj (hread'.symm.trans hread)
    exact absurd hmem (not_le.mpr hlong)

theorem Tabled.operate {R : RsRegisteredLambda FuncPtr → RsRegisteredLambda ArgPtr → Prop}
    (h : w.Tabled o table) (hinv : w.Inv o R garbage) {env : Env} {op : BoardOp} {link : Link}
    (hstep : w.link.operate env op = some link) : ∃ table', Tabled o table' { w with link } := by
  obtain ⟨⟨board, code, sent⟩, hop, hlink⟩ := Option.bind_eq_some_iff.mp hstep
  obtain rfl := Option.some.inj hlink
  cases op with
  | register kind name lambda cache =>
    rw [Board.operate_register] at hop
    rcases Board.registerLambda_cases hinv.board.wf env name lambda kind.type cache with
      ⟨-, res, -, heq⟩ | ⟨block, -, hacc, -, sent', heq, hsends, hsilent⟩
    · rw [heq] at hop
      obtain ⟨rfl, hrest⟩ := Prod.mk.inj (Option.some.inj hop)
      obtain ⟨-, rfl⟩ := Prod.mk.inj hrest
      exact ⟨table, h.operated List.prefix_rfl h.count h.board fun _ hp => by cases hp⟩
    · rw [heq] at hop
      obtain ⟨rfl, hrest⟩ := Prod.mk.inj (Option.some.inj hop)
      obtain ⟨-, rfl⟩ := Prod.mk.inj hrest
      set record := newRecord block w.link.board.registry.lambdaCounter name kind.type cache lambda
      have hpre : table <+: table ++ [record.shared] := List.prefix_append _ _
      have hlast : (table ++ [record.shared])[w.link.board.registry.lambdaCounter.toNat]? =
          some record.shared := by
        rw [← h.count, List.getElem?_concat_length]
      refine ⟨table ++ [record.shared], h.operated hpre ?_ (fun i l hl => ?_)
        fun packet hmem k horigin env' mem type cache' hread hlen => ?_⟩
      · rw [List.length_append, h.count]
        exact (Registry.toNat_counter_push hacc.1 record).symm
      · change (w.link.board.registry.push record).slot i = some l at hl
        rw [Registry.slot_push hacc.1] at hl
        split_ifs at hl with hi
        · rw [hi, ← Option.some.inj hl]
          exact hlast
        · exact getElem?_of_prefix hpre (h.board i l hl)
      · obtain rfl : w.link.board.registry.lambdaCounter.toNat = k :=
          Origin.registration.inj horigin
        rcases lt_or_ge w.link.board.registry.lambdaCounter.toNat 128 with hlt | hge
        · obtain ⟨pkt, rfl, hpkt⟩ := hsends hlt hinv.up
          obtain rfl := List.mem_singleton.mp hmem
          rw [hlast]
          exact congrArg some (registered_sent hpkt hacc.2.2.1 hread hlen block _ lambda)
        · rw [hsilent hge] at hmem
          cases hmem
  | unregister id =>
    have hvacuous : ∀ packet ∈ sent, ∀ k, Origin.unregistration = .registration k →
        ∀ env mem type cache, Linux.readPacket o env packet = .registered mem type cache →
        strlen mem ≤ MAX_LAMBDA_NAME_LENGTH → table[k]? = some (cstr mem, type, cache) :=
      fun _ _ _ horigin => by cases horigin
    rw [Board.operate_unregister] at hop
    refine ⟨table, h.operated List.prefix_rfl ?_ (fun i l hl => h.board i l ?_) hvacuous⟩
    · rcases Board.unregisterLambda_state hop with rfl | rfl
      · exact h.count
      · rw [lambdaRegistryUnregister_counter]
        exact h.count
    · rcases Board.unregisterLambda_state hop with rfl | rfl
      · exact hl
      · rw [lambdaRegistryUnregister_slot hinv.board.wf] at hl
        split_ifs at hl
        exact hl

/-- What the board sends for a record that is live there bears no registration. -/
theorem Tabled.posted (h : w.Tabled o table) {link : Link} {origin : Origin} {sent : List Packet}
    (hboard : link.board = w.link.board) (hlinux : link.linux = w.link.linux)
    (htoLinux : link.toLinux = w.link.toLinux) (horigin : ∀ k, origin ≠ .registration k)
    {evaluated : List (RsRegisteredLambda FuncPtr)} {new : Option Product}
    (hnew : ∀ product, new = some product →
      w.link.board.registry.slot product.lambda.id.toNat = some product.lambda) :
    Tabled o table { w with
      link := link.post origin sent, evaluated, produced := w.produced ++ new.toList } where
  count := by
    change _ = link.board.registry.lambdaCounter.toNat
    rw [hboard]
    exact h.count
  board i l hl := by
    change link.board.registry.slot i = some l at hl
    rw [hboard] at hl
    exact h.board i l hl
  linux linux hl := by
    change link.linux = some linux at hl
    rw [hlinux] at hl
    exact h.linux linux hl
  parcels p hp k hk := by
    rcases mem_post hp with hold | ⟨packet, -, rfl⟩
    · rw [htoLinux] at hold
      exact h.parcels p hold k hk
    · exact absurd hk (horigin k)
  products product hmem := by
    rcases List.mem_append.mp hmem with hold | hadded
    · exact h.products product hold
    · exact h.board _ _ (hnew product (Option.mem_toList.mp hadded))

theorem Tabled.send (h : w.Tabled o table)
    {R : RsRegisteredLambda FuncPtr → RsRegisteredLambda ArgPtr → Prop}
    (hinv : w.Inv o R garbage) {env : Env} {target : Target} {result : Result}
    (hstep : w.send o env target result = some w') : w'.Tabled o table := by
  obtain ⟨⟨code, sent⟩, hsend, hstep⟩ := Option.bind_eq_some_iff.mp hstep
  obtain ⟨link, hlink, hw'⟩ := Option.bind_eq_some_iff.mp hstep
  obtain rfl := Option.some.inj hw'
  rw [Link.send, hsend] at hlink
  rw [← Option.some.inj hlink]
  refine h.posted rfl rfl rfl (fun _ hk => by cases hk) fun product hproduct => ?_
  obtain ⟨l, hl, rfl⟩ := Option.map_eq_some_iff.mp hproduct
  split_ifs at hl
  exact Board.slot_of_addressee hinv.board.wf hl

theorem Tabled.serve (h : w.Tabled o table)
    {R : RsRegisteredLambda FuncPtr → RsRegisteredLambda ArgPtr → Prop}
    (hinv : w.Inv o R garbage) {env : Env} {ev : Evaluators}
    (hstep : w.serve o env ev = some w') : w'.Tabled o table := by
  unfold World.serve at hstep
  cases hqueue : w.link.toBoard with
  | nil =>
    rw [hqueue] at hstep
    rwa [← Option.some.inj hstep]
  | cons r rest =>
    simp only [hqueue] at hstep
    obtain ⟨served, hserved, hstep⟩ := Option.bind_eq_some_iff.mp hstep
    obtain ⟨link, hlink, hw'⟩ := Option.bind_eq_some_iff.mp hstep
    obtain rfl := Option.some.inj hw'
    simp only [Link.serve, hqueue, hserved, Option.bind_eq_bind, Option.bind_some,
      Option.pure_def, Option.some.injEq] at hlink
    rw [← hlink]
    apply h.posted
    case hboard => rfl
    case hlinux => rfl
    case htoLinux => rfl
    case horigin =>
      intro k hk
      unfold Board.Served.origin at hk
      split at hk
      · cases hk
      · cases hk
    case hnew =>
      intro product hproduct
      rcases Board.served_cases hinv.board.wf hserved with
        ⟨hnone, -⟩ | ⟨target, l, r, -, htarget, hinvoked, hproduce, -⟩
      · rw [hnone] at hproduct
        cases hproduct
      · rw [hinvoked, Option.bind_some, hproduce] at hproduct
        rw [← Option.some.inj hproduct]
        exact Board.slot_of_addressee hinv.board.wf htarget

theorem Tabled.client (h : w.Tabled o table) (x : ClientStep) : (w.client o x).Tabled o table := by
  unfold World.client
  cases hthreads : w.threads with
  | none => exact h
  | some threads =>
    obtain ⟨hlinux, -⟩ := threads_eq_some hthreads
    have hregistry : (Threads.step o threads x.event).linux.registry = threads.linux.registry :=
      (Threads.alike_step o threads (fun d hd => by cases x <;> cases hd)).registry
    refine ⟨h.count, h.board, fun linux hl i l hslot => ?_, h.parcels, h.products⟩
    obtain rfl := Option.some.inj hl
    rw [hregistry] at hslot
    exact h.linux _ hlinux i l hslot

theorem Tabled.deliver (h : w.Tabled o table) {names : List (List UInt8)}
    (hlink : w.link.Inv names) {env : Env}
    (hkeeps : Link.KeepsUp o (some w.link) (.deliver env)) : (w.deliver o env).Tabled o table := by
  unfold World.deliver
  cases hthreads : w.threads with
  | none => exact h
  | some threads =>
    cases hqueue : w.link.toLinux with
    | nil => exact h
    | cons p rest =>
      obtain ⟨hlinux, -⟩ := threads_eq_some hthreads
      obtain ⟨hlinux', hboard, htoLinux⟩ := deliver_linux hlinux hqueue o env
      refine ⟨?_, fun i l hl => ?_, fun linux hl i l hslot => ?_, fun q hq => ?_, h.products⟩
      · rw [hboard]
        exact h.count
      · rw [hboard] at hl
        exact h.board i l hl
      · obtain rfl := Option.some.inj (hlinux'.symm.trans hl)
        have hwf := (hlink.linux _ hlinux).wf
        have hnumber := hlink.number hkeeps hlinux hqueue
        rw [Linux.receive_eq] at hslot hnumber
        rcases Linux.slot_act hwf hslot with hold |
          ⟨block, name, type, cache, -, hread, hacc, hi, hl⟩
        · exact h.linux _ hlinux i l hold
        · have hnew : threads.linux.registry.slot i = none := by
            rw [hi]
            exact hwf.vacant _ le_rfl
          have horigin := hnumber fun hsame => by
            rw [hsame, hnew] at hslot
            cases hslot
          have hentry := h.parcels p (hqueue ▸ List.mem_cons_self) _ horigin env name type cache
            hread hacc.2.2.1
          have hformed := Linux.readPacket_formed o env p.packet
          rw [hread] at hformed
          rw [hi, hentry, hl]
          exact congrArg some (congrArg (·, _)
            (Linux.text_of_formed hformed hacc.2.2.1 block _ _).symm)
      · rw [htoLinux] at hq
        exact h.parcels q (hqueue ▸ List.mem_cons_of_mem _ hq)

theorem Tabled.loseToLinux (h : w.Tabled o table) (i : ℕ) :
    Tabled o table { w with link := w.link.loseToLinux i } :=
  ⟨h.count, h.board, h.linux, fun p hp => h.parcels p ((List.eraseIdx_sublist _ _).subset hp),
    h.products⟩

theorem Tabled.loseToBoard (h : w.Tabled o table) (i : ℕ) :
    Tabled o table { w with link := w.link.loseToBoard i } :=
  ⟨h.count, h.board, h.linux, h.parcels, h.products⟩

/-- The packet of a call carries the number or the name of the record that the call found. -/
theorem request_fits {names : List (List UInt8)} {linux : Linux} (h : linux.Knows names) {c : Call}
    {l : RsRegisteredLambda ArgPtr} (hf : linux.found c = some l) {env : Env} {packet : Packet}
    (hpacket : Linux.callPacket env c = some packet) : Request.Fits names ⟨packet, l.text⟩ := by
  cases c with
  | byId id type =>
    exact Or.inl ⟨env, id, type, hpacket, h.named _ _ ((h.wf.getById id).symm.trans hf)⟩
  | byName name type =>
    obtain ⟨hslot, htext⟩ := h.wf.of_getByName hf
    have hshort := h.short _ _ hslot
    rw [htext] at hshort
    exact Or.inr ⟨env, name, type, hshort, hpacket, htext.symm⟩

theorem posts_eq_some {threads : Threads} {x : ClientStep} {p : Pending} {packet : Packet}
    (h : threads.posts x = some (p, packet)) :
    ∃ i env, x = .send i env ∧ threads.clients i = .ready p ∧
      Linux.callPacket env p.call = some packet := by
  cases x with
  | send i env =>
    simp only [Threads.posts] at h
    split at h
    next q hphase =>
      obtain ⟨packet', hpacket, heq⟩ := Option.map_eq_some_iff.mp h
      obtain ⟨rfl, rfl⟩ := Prod.mk.inj heq
      exact ⟨i, env, rfl, hphase, hpacket⟩
    next => cases h
  | _ => cases h

theorem link_client {names : List (List UInt8)} (hlink : w.link.Inv names)
    {R : RsRegisteredLambda FuncPtr → RsRegisteredLambda ArgPtr → Prop}
    (hinv : w.Inv o R garbage) (x : ClientStep) : (w.client o x).link.Inv names := by
  obtain ⟨threads, hthreads, htruthful⟩ := hinv.threads
  obtain ⟨hlinux, -⟩ := threads_eq_some hthreads
  have hknows := hlink.linux _ hlinux
  have hregistry : (Threads.step o threads x.event).linux.registry = threads.linux.registry :=
    (Threads.alike_step o threads (fun d hd => by cases x <;> cases hd)).registry
  simp only [World.client, hthreads]
  refine ⟨hlink.wf, hlink.up, hlink.count, hlink.named, fun linux hl => ?_, hlink.parcels,
    fun r hr => ?_, fun hm => ?_, hlink.log⟩
  · obtain rfl := Option.some.inj hl
    exact ⟨by rw [hregistry]; exact hknows.wf, by rw [hregistry]; exact hknows.named,
      by rw [hregistry]; exact hknows.short⟩
  · rcases List.mem_append.mp hr with hold | hnew
    · exact hlink.requests r hold
    · obtain ⟨⟨p, packet⟩, hposts, rfl⟩ := List.mem_map.mp hnew
      obtain ⟨i, env, rfl, hphase, hpacket⟩ := posts_eq_some (Option.mem_toList.mp hposts)
      have hf := htruthful.safe.holds i
      rw [hphase] at hf
      exact request_fits hknows hf hpacket
  · have horder := hlink.order hm
    simp only [Link.taken, hlinux] at horder
    simp only [Link.taken, hregistry]
    exact horder

/-- Linux keeps up with the registrations. -/
def KeepsUp (o : ByteOrder) : Option World → WorldEvent → Prop
  | some w, .deliver env => Link.KeepsUp o (some w.link) (.deliver env)
  | _, _ => True

instance (o : ByteOrder) : ∀ w e, Decidable (KeepsUp o w e)
  | some w, .deliver env =>
    inferInstanceAs (Decidable (Link.KeepsUp o (some w.link) (.deliver env)))
  | some _, .operate _ _ => isTrue trivial
  | some _, .send _ _ _ => isTrue trivial
  | some _, .client _ => isTrue trivial
  | some _, .serve _ _ => isTrue trivial
  | some _, .loseToLinux _ => isTrue trivial
  | some _, .loseToBoard _ => isTrue trivial
  | none, _ => isTrue trivial

/-- The records that a number stands for on either side. -/
def SameEntry (m : RsRegisteredLambda FuncPtr) (l : RsRegisteredLambda ArgPtr) : Prop :=
  m.id = l.id ∧ m.shared = l.shared

/-- A world whose two sides number the lambdas alike. -/
structure Numbered (o : ByteOrder) (garbage : ArgPtr → RsLinuxRegisteredLambda) (w : World) :
    Prop where
  inv : w.Inv o SameEntry garbage
  link : ∃ names, w.link.Inv names
  table : ∃ table, w.Tabled o table

theorem Numbered.start (o : ByteOrder) (garbage : ArgPtr → RsLinuxRegisteredLambda) :
    (World.start garbage).Numbered o garbage where
  inv := Inv.start o _ garbage
  link := ⟨[], Link.Inv.start.started garbage⟩
  table := ⟨[], Tabled.start o garbage⟩

/-- Produced under the same number means for the same entry. -/
theorem Numbered.brings (h : w.Numbered o garbage) : Brings SameEntry w := by
  intro linux i l hlinux hslot product hmem hid
  obtain ⟨names, hlink⟩ := h.link
  obtain ⟨table, htable⟩ := h.table
  have hentry := htable.products product hmem
  have hi : l.id.toNat = i := (hlink.linux linux hlinux).wf.ids i l hslot
  rw [hid, hi, htable.linux linux hlinux i l hslot] at hentry
  exact ⟨hid, (Option.some.inj hentry).symm⟩

theorem link_send {env : Env} {target : Target} {result : Result}
    (h : w.send o env target result = some w') :
    w.link.send o env target result = some w'.link := by
  obtain ⟨⟨code, sent⟩, -, hrest⟩ := Option.bind_eq_some_iff.mp h
  obtain ⟨link, hlink, hw'⟩ := Option.bind_eq_some_iff.mp hrest
  rw [hlink, ← Option.some.inj hw']

theorem link_serve {env : Env} {ev : Evaluators} (h : w.serve o env ev = some w') :
    w.link.serve o env ev = some w'.link := by
  unfold World.serve at h
  cases hqueue : w.link.toBoard with
  | nil =>
    rw [hqueue] at h
    rw [Link.serve, hqueue, ← Option.some.inj h]
  | cons r rest =>
    simp only [hqueue] at h
    obtain ⟨served, -, hrest⟩ := Option.bind_eq_some_iff.mp h
    obtain ⟨link, hlink, hw'⟩ := Option.bind_eq_some_iff.mp hrest
    rw [hlink, ← Option.some.inj hw']

theorem link_deliver (o : ByteOrder) (env : Env) (w : World) :
    (w.deliver o env).link = w.link.deliver o env ∨ (w.deliver o env).link = w.link := by
  unfold World.deliver
  split
  · exact Or.inl rfl
  · exact Or.inr rfl

theorem Numbered.step (h : w.Numbered o garbage) {e : WorldEvent} (hkeeps : KeepsUp o (some w) e)
    (hstep : World.step o (some w) e = some w') : w'.Numbered o garbage := by
  have hinv : w'.Inv o SameEntry garbage := h.inv.step (fun _ _ => h.brings) hstep
  obtain ⟨names, hlink⟩ := h.link
  obtain ⟨table, htable⟩ := h.table
  cases e with
  | operate env op =>
    obtain ⟨link, hop, hw'⟩ := Option.bind_eq_some_iff.mp hstep
    obtain rfl := Option.some.inj hw'
    exact ⟨hinv, hlink.operate hop, htable.operate h.inv hop⟩
  | send env target result =>
    exact ⟨hinv, ⟨names, hlink.send (link_send hstep)⟩, ⟨table, htable.send h.inv hstep⟩⟩
  | client x =>
    obtain rfl := Option.some.inj hstep
    exact ⟨hinv, ⟨names, link_client hlink h.inv x⟩, ⟨table, htable.client x⟩⟩
  | deliver env =>
    obtain rfl := Option.some.inj hstep
    refine ⟨hinv, ⟨names, ?_⟩, ⟨table, htable.deliver hlink hkeeps⟩⟩
    rcases link_deliver o env w with heq | heq
    · rw [heq]
      exact hlink.deliver hkeeps
    · rw [heq]
      exact hlink
  | serve env ev =>
    exact ⟨hinv, ⟨names, hlink.serve (link_serve hstep)⟩, ⟨table, htable.serve h.inv hstep⟩⟩
  | loseToLinux i =>
    obtain rfl := Option.some.inj hstep
    exact ⟨hinv, ⟨names, hlink.loseToLinux i⟩, ⟨table, htable.loseToLinux i⟩⟩
  | loseToBoard i =>
    obtain rfl := Option.some.inj hstep
    exact ⟨hinv, ⟨names, hlink.loseToBoard i⟩, ⟨table, htable.loseToBoard i⟩⟩

theorem numbered_of_run {es : List WorldEvent}
    (hrun : Runs.run (step o) (some (start garbage)) es = some w)
    (hkeeps : Runs.Meets (step o) (KeepsUp o) (some (start garbage)) es) :
    w.Numbered o garbage := by
  have hstep : ∀ (c : Option World) (e : WorldEvent), (∀ w, c = some w → w.Numbered o garbage) →
      KeepsUp o c e → ∀ w, step o c e = some w → w.Numbered o garbage := by
    intro c e hinv hC w hw
    cases c with
    | none => cases hw
    | some w0 => exact (hinv w0 rfl).step hC hw
  have hstart : ∀ w, some (start garbage) = some w → w.Numbered o garbage :=
    fun w hw => Option.some.inj hw ▸ Numbered.start o garbage
  exact Runs.along_of_inv hstep (fun _ hinv => hinv) hstart hkeeps es List.prefix_rfl w hrun

/-- In every run in which Linux registers nothing after it has missed a registration: a value
that a call hands out is, unless nothing was stored yet, of the type that the call expects, and
the board produced it for a lambda of the number, name, type and cache policy of the record that
the call asked for. -/
theorem values_of_the_entry {es : List WorldEvent}
    (hrun : Runs.run (step o) (some (start garbage)) es = some w)
    (hkeeps : Runs.Meets (step o) (KeepsUp o) (some (start garbage)) es) {i : ℕ} {r : Returned}
    (hphase : w.clients i = .returned r) {ret : GenericLambdaReturn} (hret : r.written = some ret) :
    ∃ l, r.lambda = some l ∧ l.IsFor r.call ∧ (ret = (garbage l.arg).ret ∨
      ret.member = some r.call.expectedType ∧ ∃ product ∈ w.produced,
        SameEntry product.lambda l ∧ ∃ undef, product.result.Arrives undef ret) := by
  have h := numbered_of_run hrun hkeeps
  obtain ⟨threads, hthreads, htruthful⟩ := h.inv.threads
  obtain ⟨-, -, hclients, -⟩ := threads_eq_some hthreads
  have htruth := htruthful.clients i
  rw [hclients, hphase] at htruth
  obtain ⟨l, hl, hfor, hvalue⟩ := htruth ret hret
  refine ⟨l, hl, hfor, hvalue.imp_right ?_⟩
  rintro ⟨product, hmem, hsame, undef, harrives⟩
  have htype : product.lambda.type = l.type := congrArg (fun entry => entry.2.1) hsame.2
  refine ⟨?_, product, hmem, hsame, undef, harrives⟩
  rw [Result.member_of_arrives harrives, h.inv.typed product hmem, htype, hfor.1]

theorem values_of_the_entry_seven :
    ∃ w r, Runs.run (step .little) (some (start zeroed)) answersSeven = some w ∧
      w.clients 0 = .returned r ∧ r.written = some (.retI 7) ∧
      ∃ l, r.lambda = some l ∧ l.IsFor r.call ∧ (.retI 7 = (zeroed l.arg).ret ∨
        GenericLambdaReturn.member (.retI 7) = some r.call.expectedType ∧
        ∃ product ∈ w.produced, SameEntry product.lambda l ∧
          ∃ undef, product.result.Arrives undef (.retI 7)) := by
  obtain ⟨w, r, hw, hr, hret⟩ := run_answersSeven
  have hkeeps : Runs.Meets (step .little) (KeepsUp .little) (some (start zeroed)) answersSeven := by
    decide +kernel
  exact ⟨w, r, hw, hr, hret, values_of_the_entry hw hkeeps hr hret⟩

end World

end RS
