import Riotsensors.Lib.Queue
import Riotsensors.Sanity.Flight

/-! Both sides number the lambdas on their own. While the registrations in flight continue
Linux's count, a number in a packet stands for the same name on either side. -/

namespace RS

open CMem

namespace Link

/-- How many registrations Linux has taken up. -/
def taken (s : Link) : ℕ :=
  match s.linux with
  | none => 0
  | some linux => linux.registry.lambdaCounter.toNat

/-- How many registrations the board has sent: ids from 128 on are not sent. -/
def announced (s : Link) : ℕ := min s.board.registry.lambdaCounter.toNat 128

/-- `names` lists the names under which the board gave out its numbers. -/
structure Inv (names : List (List UInt8)) (s : Link) : Prop where
  wf : s.board.registry.WF
  up : s.board.rsSptStarted = true
  count : names.length = s.board.registry.lambdaCounter.toNat
  named : s.board.registry.NamedBy names
  linux : ∀ linux, s.linux = some linux → linux.Knows names
  parcels : ∀ p ∈ s.toLinux, p.Fits names
  requests : ∀ r ∈ s.toBoard, r.Fits names
  order : s.missed = false →
    Queue.Consecutive (fun p : Parcel => p.origin.number) s.taken s.announced s.toLinux
  log : ∀ a ∈ s.log, a.1 = some a.2

variable {names : List (List UInt8)} {s s' : Link}

theorem Inv.start : Link.start.Inv [] where
  wf := Registry.WF.empty
  up := rfl
  count := rfl
  named := Registry.NamedBy.empty
  linux := fun _ h => by cases h
  parcels := fun _ h => absurd h List.not_mem_nil
  requests := fun _ h => absurd h List.not_mem_nil
  order := fun _ => Queue.Consecutive.nil 0
  log := fun _ h => absurd h List.not_mem_nil

@[simp] theorem post_nil (s : Link) (origin : Origin) : s.post origin [] = s := by
  simp only [post, List.map_nil, List.append_nil]

/-- Packets without a number are posted behind the others. -/
theorem Inv.post (h : s.Inv names) {origin : Origin} {sent : List Packet}
    (hfits : ∀ pkt ∈ sent, origin.Fits names pkt) (hnum : origin.number = none) :
    (s.post origin sent).Inv names where
  wf := h.wf
  up := h.up
  count := h.count
  named := h.named
  linux := h.linux
  parcels := fun p hp => by
    rcases List.mem_append.mp hp with hp | hp
    · exact h.parcels p hp
    · obtain ⟨pkt, hpkt, rfl⟩ := List.mem_map.mp hp
      exact hfits pkt hpkt
  requests := h.requests
  order := fun hm => (h.order hm).append fun p hp => by
    obtain ⟨pkt, -, rfl⟩ := List.mem_map.mp hp
    exact hnum
  log := h.log

/-! ## The board's operations -/

/-- A registration that takes effect enters its name under the next number, and is sent if
that number is below 128. -/
theorem Inv.register (h : s.Inv names) {env : Env} {mem name : List UInt8} {lambda : FuncPtr}
    {type : RsLambdaType} {cache : RsCacheType} (hacc : s.board.registry.Accepts name)
    (htype : type ≠ 0) {sent : List Packet}
    (hsends : s.board.registry.lambdaCounter.toNat < 128 →
      ∃ pkt, sent = [pkt] ∧ Board.registeredPacket env name type cache = some pkt)
    (hsilent : 128 ≤ s.board.registry.lambdaCounter.toNat → sent = []) :
    ∃ names', ({ s with board := s.board.pushed mem name lambda type cache }.post
      (.registration s.board.registry.lambdaCounter.toNat) sent).Inv names' := by
  set record := newRecord mem s.board.registry.lambdaCounter name type cache lambda
  have hpre : names <+: names ++ [record.text] := List.prefix_append _ _
  have hlast : (names ++ [record.text])[s.board.registry.lambdaCounter.toNat]? =
      some record.text := by
    rw [← h.count, List.getElem?_concat_length]
  have hcounter : (s.board.pushed mem name lambda type cache).registry.lambdaCounter.toNat =
      s.board.registry.lambdaCounter.toNat + 1 := Registry.toNat_counter_push hacc.1 record
  refine ⟨names ++ [record.text], ⟨h.wf.push hacc.1 rfl, h.up, ?_, ?_, ?_, ?_, ?_, ?_, h.log⟩⟩
  · rw [List.length_append, h.count]
    exact hcounter.symm
  · exact (h.named.mono hpre).push hacc.1 hlast
  · exact fun linux hl => (h.linux linux hl).mono hpre
  · intro p hp
    rcases List.mem_append.mp hp with hp | hp
    · exact (h.parcels p hp).mono hpre
    · obtain ⟨pkt, hpkt, rfl⟩ := List.mem_map.mp hp
      have hlt : s.board.registry.lambdaCounter.toNat < 128 := by
        by_contra hge
        rw [hsilent (not_lt.mp hge)] at hpkt
        cases hpkt
      obtain ⟨pkt', rfl, hbuilt⟩ := hsends hlt
      obtain rfl := List.mem_singleton.mp hpkt
      exact registered_fits hacc.2.2.1 htype hbuilt hlast
  · exact fun r hr => (h.requests r hr).mono hpre
  · intro hm
    have horder := h.order hm
    by_cases hlt : s.board.registry.lambdaCounter.toNat < 128
    · obtain ⟨pkt, rfl, -⟩ := hsends hlt
      have hold : s.announced = s.board.registry.lambdaCounter.toNat := min_eq_left hlt.le
      have hnew : ∀ q, (Link.post { s with board := s.board.pushed mem name lambda type cache }
          q [pkt]).announced = s.announced + 1 := fun q => by
        rw [hold]
        exact (congrArg (min · 128) hcounter).trans (min_eq_left hlt)
      rw [hnew]
      exact horder.push (by rw [hold]; rfl)
    · rw [hsilent (not_lt.mp hlt)]
      have hold : s.announced = 128 := min_eq_right (not_lt.mp hlt)
      have hnew : ∀ q, (Link.post { s with board := s.board.pushed mem name lambda type cache }
          q []).announced = s.announced := fun q => by
        rw [hold]
        exact (congrArg (min · 128) hcounter).trans (min_eq_right (by omega))
      rw [hnew]
      exact horder.append fun p hp => absurd hp List.not_mem_nil

/-- The board's part changes, and its counter does not. -/
theorem Inv.withBoard (h : s.Inv names) (board : Board) (hwf : board.registry.WF)
    (hup : board.rsSptStarted = true)
    (hcounter : board.registry.lambdaCounter = s.board.registry.lambdaCounter)
    (hnamed : board.registry.NamedBy names) : Inv names { s with board } where
  wf := hwf
  up := hup
  count := h.count.trans (congrArg UInt8.toNat hcounter.symm)
  named := hnamed
  linux := h.linux
  parcels := h.parcels
  requests := h.requests
  order := fun hm => by
    have hann : announced { s with board } = s.announced := by
      rw [announced, hcounter]
      rfl
    rw [hann]
    exact h.order hm
  log := h.log

theorem Inv.operate (h : s.Inv names) {env : Env} {op : BoardOp}
    (hstep : s.operate env op = some s') : ∃ names', s'.Inv names' := by
  unfold Link.operate at hstep
  obtain ⟨⟨board, res, sent⟩, hop, hs'⟩ := Option.bind_eq_some_iff.mp hstep
  obtain rfl := Option.some.inj hs'
  cases op with
  | register kind name lambda cache =>
    rw [Board.operate_register] at hop
    rcases Board.registerLambda_cases h.wf env name lambda kind.type cache with
      ⟨-, res', -, hop'⟩ | ⟨mem, -, hacc, -, sent', hop', hsends, hsilent⟩
    · obtain ⟨rfl, rfl, rfl⟩ : s.board = board ∧ res' = res ∧ [] = sent := by
        simpa using hop'.symm.trans hop
      refine ⟨names, ?_⟩
      rw [post_nil]
      exact h
    · obtain ⟨rfl, rfl, rfl⟩ : s.board.pushed mem name lambda kind.type cache = board ∧
          s.board.registry.lambdaCounter.toInt8 = res ∧ sent' = sent := by
        simpa using hop'.symm.trans hop
      exact h.register hacc kind.type_ne_zero (fun hlt => hsends hlt h.up) hsilent
  | unregister id =>
    rw [Board.operate_unregister] at hop
    cases hget : getRegisteredLambdaById s.board.registry id with
    | none =>
      obtain ⟨rfl, rfl, rfl⟩ : s.board = board ∧ RS_UNREGISTER_NOTFOUND = res ∧ [] = sent := by
        simpa [Board.unregisterLambda, hget] using hop
      refine ⟨names, ?_⟩
      rw [post_nil]
      exact h
    | some lambda =>
      rw [Board.unregisterLambda_of_live env hget h.up] at hop
      obtain ⟨packet, hpacket, hout⟩ := Option.map_eq_some_iff.mp hop
      obtain ⟨rfl, rfl, rfl⟩ : { s.board with registry :=
          (lambdaRegistryUnregister s.board.registry id).1 } = board ∧
          RS_UNREGISTER_SUCCESS = res ∧ [packet] = sent := by
        simpa using hout
      have hboard := h.withBoard
        { s.board with registry := (lambdaRegistryUnregister s.board.registry id).1 }
        (lambdaRegistryUnregister_wf h.wf id) h.up (lambdaRegistryUnregister_counter _ _)
        (h.named.unregister h.wf id)
      refine ⟨names, hboard.post (fun pkt hpkt => ?_) rfl⟩
      obtain rfl := List.mem_singleton.mp hpkt
      exact fun o env' => Linux.readPacket_unregistered hpacket o env'

/-! ## Results and calls -/

/-- Results that are sent for an id under the name of its record. -/
theorem Inv.post_sendResult (h : s.Inv names) {o : ByteOrder} {env : Env} {id : LambdaId}
    {r : Result} {code : Int8} {sent : List Packet} {name : List UInt8}
    (hsent : s.board.sendResult o env id r = some (code, sent))
    (hname : ∀ l, getRegisteredLambdaById s.board.registry id = some l → l.text = name) :
    (s.post (.result name) sent).Inv names := by
  refine h.post (fun pkt hpkt => ?_) rfl
  obtain ⟨l, hget, hres⟩ := Board.sendResult_isResult hsent hpkt
  have hslot : s.board.registry.slot id.toNat = some l := (h.wf.getById id).symm.trans hget
  refine ⟨l.id, hres, ?_⟩
  rw [h.wf.ids _ _ hslot, ← hname l hget]
  exact h.named _ _ hslot

theorem Inv.send (h : s.Inv names) {o : ByteOrder} {env : Env} {target : Target} {r : Result}
    (hstep : s.send o env target r = some s') : s'.Inv names := by
  unfold Link.send at hstep
  obtain ⟨⟨code, sent⟩, hsent, hs'⟩ := Option.bind_eq_some_iff.mp hstep
  obtain rfl := Option.some.inj hs'
  cases target with
  | id id =>
    refine h.post_sendResult hsent fun l hl => ?_
    rw [Board.addressee, hl]
    rfl
  | name name =>
    cases hget : getRegisteredLambdaByName s.board.registry name with
    | none =>
      have hnil : sent = [] := by
        simp only [Board.sendResultTo, Board.sendResultByName, hget] at hsent
        exact (Prod.mk.inj (Option.some.inj hsent)).2.symm
      rw [hnil, post_nil]
      exact h
    | some lambda =>
      simp only [Board.sendResultTo, Board.sendResultByName, hget] at hsent
      refine h.post_sendResult hsent fun l hl => ?_
      have hslot := (h.wf.of_getByName hget).1
      rw [h.wf.getById, hslot] at hl
      rw [Board.addressee, hget, ← Option.some.inj hl]
      rfl

theorem Inv.call (h : s.Inv names) {env : Env} {c : Call}
    (hstep : s.call env c = some s') : s'.Inv names := by
  rcases s with ⟨board, _ | linux, toLinux, toBoard, missed, log⟩
  case none =>
    obtain rfl := Option.some.inj hstep
    exact h
  case some =>
    obtain ⟨sent, hsent, hs'⟩ := Option.bind_eq_some_iff.mp hstep
    obtain rfl := Option.some.inj hs'
    refine ⟨h.wf, h.up, h.count, h.named, h.linux, h.parcels, fun r hr => ?_, h.order, h.log⟩
    rcases List.mem_append.mp hr with hr | hr
    · exact h.requests r hr
    · obtain ⟨pkt, hpkt, rfl⟩ := List.mem_map.mp hr
      obtain ⟨l, hl, hfits⟩ := (h.linux linux rfl).request hsent hpkt
      rw [hl]
      exact hfits

/-- Results for the live record under an id. -/
theorem Inv.post_results (h : s.Inv names) {lambda : RsRegisteredLambda FuncPtr} {i : ℕ}
    (hslot : s.board.registry.slot i = some lambda) {sent : List Packet}
    (hsent : ∀ pkt ∈ sent, IsResult lambda.id pkt) :
    (s.post (.result lambda.text) sent).Inv names :=
  h.post (fun pkt hpkt => ⟨lambda.id, hsent pkt hpkt, h.named _ _ (by
    rw [h.wf.ids i lambda hslot, hslot])⟩) rfl

theorem Inv.serve (h : s.Inv names) {o : ByteOrder} {env : Env} {ev : Evaluators}
    (hstep : s.serve o env ev = some s') : s'.Inv names := by
  unfold Link.serve at hstep
  cases hqueue : s.toBoard with
  | nil =>
    rw [hqueue] at hstep
    obtain rfl := Option.some.inj hstep
    exact h
  | cons r rest =>
    rw [hqueue] at hstep
    obtain ⟨served, hserved, hs'⟩ := Option.bind_eq_some_iff.mp hstep
    obtain rfl := Option.some.inj hs'
    have hmem : ∀ q ∈ r :: rest, q.Fits names := fun q hq => h.requests q (by rwa [hqueue])
    obtain ⟨⟨id, hans⟩, hname⟩ := Board.answers_of_fits h.wf h.named (hmem r (by simp)) hserved
    have hmid : Inv names { s with
        toBoard := rest
        log := s.log ++ (served.invoked.map RsRegisteredLambda.text).toList.map
          fun name => (some r.name, name) } := by
      refine ⟨h.wf, h.up, h.count, h.named, h.linux, h.parcels,
        fun q hq => hmem q (List.mem_cons_of_mem _ hq), h.order, fun a ha => ?_⟩
      rcases List.mem_append.mp ha with ha | ha
      · exact h.log a ha
      · obtain ⟨n, hn, rfl⟩ := List.mem_map.mp ha
        obtain ⟨l, hl, rfl⟩ := Option.map_eq_some_iff.mp (Option.mem_toList.mp hn)
        exact congrArg some (hname l hl).symm
    rcases hans with ⟨l, hl, hget, hsent⟩ | ⟨hnone, hsent⟩
    · rw [show served.origin = .result l.text by rw [Board.Served.origin, hl]]
      exact hmid.post_results ((h.wf.getById id).symm.trans hget) hsent
    · rw [show served.origin = .error by rw [Board.Served.origin, hnone]]
      exact hmid.post hsent rfl

/-! ## Linux's side -/

theorem Inv.started (h : s.Inv names) (garbage : ArgPtr → RsLinuxRegisteredLambda) :
    Inv names { s with linux := some (s.linux.getD (Linux.started garbage)) } := by
  rcases s with ⟨board, _ | linux, toLinux, toBoard, missed, log⟩
  case none =>
    refine ⟨h.wf, h.up, h.count, h.named, fun x hx => ?_, h.parcels, h.requests, h.order, h.log⟩
    rw [← Option.some.inj hx]
    exact Linux.Knows.started garbage
  case some => exact h

/-- A parcel is gone and nobody took it up. -/
theorem Inv.lost (h : s.Inv names) {i : ℕ} {missed : Bool}
    (hmissed : s.missed = true → missed = true)
    (hnum : missed = false → ∀ p, s.toLinux[i]? = some p → p.origin.number = none) :
    Inv names { s with toLinux := s.toLinux.eraseIdx i, missed } where
  wf := h.wf
  up := h.up
  count := h.count
  named := h.named
  linux := h.linux
  parcels := fun p hp => h.parcels p ((List.eraseIdx_sublist _ _).subset hp)
  requests := h.requests
  order := fun hm => by
    have hold : s.missed = false := Bool.eq_false_iff.mpr fun ht => by
      rw [hmissed ht] at hm
      cases hm
    exact (h.order hold).eraseIdx (hnum hm)
  log := h.log

theorem Inv.loseToLinux (h : s.Inv names) (i : ℕ) : (s.loseToLinux i).Inv names := by
  refine h.lost (fun ht => by rw [ht, Bool.true_or]) fun hm p hp => ?_
  have hany := (Bool.or_eq_false_iff.mp hm).2
  rw [hp] at hany
  simpa using hany

theorem Inv.loseToBoard (h : s.Inv names) (i : ℕ) : (s.loseToBoard i).Inv names where
  wf := h.wf
  up := h.up
  count := h.count
  named := h.named
  linux := h.linux
  parcels := h.parcels
  requests := fun r hr => h.requests r ((List.eraseIdx_sublist _ _).subset hr)
  order := h.order
  log := h.log

/-- What Linux stores went to a record of the name it was sent for. -/
theorem log_written {linux : Linux} (hk : linux.Knows names) {p : Parcel} (hfits : p.Fits names)
    {log : List (Option (List UInt8) × List UInt8)} (hlog : ∀ a ∈ log, a.1 = some a.2)
    (o : ByteOrder) (env : Env) :
    ∀ a ∈ log ++ (linux.written o ⟨env, p.packet⟩).toList.map fun l => (p.origin.name, l.text),
      a.1 = some a.2 := by
  intro a ha
  rcases List.mem_append.mp ha with ha | ha
  · exact hlog a ha
  · obtain ⟨l, hl, rfl⟩ := List.mem_map.mp ha
    exact hk.written hfits (Option.mem_toList.mp hl)

/-- The next parcel is handled, and Linux registers nothing after it has missed a
registration. -/
theorem Inv.deliver (h : s.Inv names) {o : ByteOrder} {env : Env}
    (hkeeps : KeepsUp o (some s) (.deliver env)) : (s.deliver o env).Inv names := by
  rcases s with ⟨board, _ | linux, _ | ⟨p, rest⟩, toBoard, missed, log⟩
  case none.nil => exact h
  case some.nil => exact h
  case none.cons =>
    refine @Inv.lost _ _ h 0 _ (fun ht => ?_) fun hm q hq => ?_
    · exact Bool.or_eq_true_iff.mpr (Or.inl ht)
    · obtain rfl := Option.some.inj hq
      simpa using (Bool.or_eq_false_iff.mp hm).2
  case some.cons =>
    have hfits : p.Fits names := h.parcels p List.mem_cons_self
    have hk : linux.Knows names := h.linux linux rfl
    have hrest : ∀ q ∈ rest, q.Fits names := fun q hq => h.parcels q (List.mem_cons_of_mem _ hq)
    have hlog := log_written hk hfits h.log o env
    rcases hk.receive hfits o env with hsame | ⟨k, horigin, hcounter, hnext⟩
    · refine ⟨h.wf, h.up, h.count, h.named, fun x hx => ?_, hrest, h.requests, fun hm => ?_, hlog⟩
      · rw [← Option.some.inj hx]
        exact ⟨by rw [hsame]; exact hk.wf, by rw [hsame]; exact hk.named,
          by rw [hsame]; exact hk.short⟩
      · obtain ⟨hold, hnum⟩ := Bool.or_eq_false_iff.mp hm
        have hnone : p.origin.number = none := by
          rw [hsame] at hnum
          simpa using hnum
        have htail := (h.order hold).tail hnone
        change Queue.Consecutive _
          (Linux.receive o linux ⟨env, p.packet⟩).registry.lambdaCounter.toNat _ _
        rw [hsame]
        exact htail
    · have hold : missed = false := Bool.eq_false_iff.mpr fun ht => by
        have hknown := Option.some.inj (hkeeps ht)
        have : (Linux.receive o linux ⟨env, p.packet⟩).registry.lambdaCounter.toNat =
            linux.registry.lambdaCounter.toNat := congrArg UInt8.toNat hknown
        omega
      have hnum : p.origin.number = some k := by rw [horigin]; rfl
      obtain ⟨rfl, htail⟩ := (h.order hold).next hnum
      refine ⟨h.wf, h.up, h.count, h.named, fun x hx => ?_, hrest, h.requests, fun _ => ?_, hlog⟩
      · rw [← Option.some.inj hx]
        exact hnext rfl
      · change Queue.Consecutive _
          (Linux.receive o linux ⟨env, p.packet⟩).registry.lambdaCounter.toNat _ _
        rw [hcounter]
        exact htail

/-! ## Runs -/

/-- A step in which Linux keeps up. -/
theorem step_inv {o : ByteOrder} (h : s.Inv names) {e : LinkEvent} (hkeeps : KeepsUp o (some s) e)
    (hstep : step o (some s) e = some s') : ∃ names', s'.Inv names' := by
  cases e with
  | start garbage => exact ⟨names, Option.some.inj hstep ▸ h.started garbage⟩
  | operate env op => exact h.operate hstep
  | send env target r => exact ⟨names, h.send hstep⟩
  | call env c => exact ⟨names, h.call hstep⟩
  | deliver env => exact ⟨names, Option.some.inj hstep ▸ h.deliver hkeeps⟩
  | serve env ev => exact ⟨names, h.serve hstep⟩
  | loseToLinux i => exact ⟨names, Option.some.inj hstep ▸ h.loseToLinux i⟩
  | loseToBoard i => exact ⟨names, Option.some.inj hstep ▸ h.loseToBoard i⟩

/-- In a run in which Linux registers no lambda after it has missed a registration, every
value that it stores and every lambda that the board evaluates for it is of the name meant. -/
theorem attributed_along (o : ByteOrder) (es : List LinkEvent)
    (hkeeps : Runs.Meets (step o) (KeepsUp o) (some start) es) :
    Runs.Along (step o) Attributed (some start) es := by
  let Good : Option Link → Prop := fun s => ∀ l, s = some l → ∃ names, l.Inv names
  refine @Runs.along_of_inv _ _ (step o) Good _ _ (fun s e hs hC l hl => ?_) (fun s hs => ?_) _ _
    ?_ hkeeps
  · cases s with
    | none => cases hl
    | some s =>
      obtain ⟨names, h⟩ := hs s rfl
      exact step_inv h hC hl
  · cases s with
    | none => trivial
    | some s =>
      obtain ⟨names, h⟩ := hs s rfl
      exact h.log
  · intro l hl
    rw [← Option.some.inj hl]
    exact ⟨[], Inv.start⟩

/-- Evaluates to 7. -/
def sevens : Evaluators := ⟨fun _ _ => 7, fun _ _ => 7, fun _ _ => []⟩

/-- Linux starts after `"a"` is registered, takes it up, and calls it; the registration of
`"b"` and a result are lost. -/
def takesUpA : List LinkEvent :=
  [.operate {} (.register .int [97] 1 RS_CACHE_NO_CACHE), .start zeroed, .deliver {},
    .call {} (.byId 0 RS_LAMBDA_INT), .serve {} sevens, .deliver {},
    .operate {} (.register .int [98] 1 RS_CACHE_NO_CACHE), .loseToLinux 0,
    .send {} (.id 1) (.int 7), .deliver {}, .send {} (.name [97]) (.int 7), .loseToLinux 0]

theorem attributed_along_takesUpA :
    Runs.Along (step .little) Attributed (some start) takesUpA :=
  attributed_along .little takesUpA (by decide +kernel)

/-- The registration of `"a"` is lost, that of `"b"` arrives, and then a result of `"a"`. -/
def missesA : List LinkEvent :=
  [.start zeroed, .operate {} (.register .int [97] 1 RS_CACHE_NO_CACHE), .loseToLinux 0,
    .operate {} (.register .int [98] 1 RS_CACHE_NO_CACHE), .deliver {},
    .send {} (.id 0) (.int 7), .deliver {}]

theorem value_of_a_is_stored_in_b :
    ¬ ∀ (o : ByteOrder) (es : List LinkEvent),
      Runs.Along (step o) Attributed (some start) es := by
  intro h
  exact absurd (h .little missesA missesA (List.prefix_refl _)) (by decide +kernel)

end Link

end RS
