import Riotsensors.Sanity.Board
import Riotsensors.Sanity.Link
import Riotsensors.Sanity.Refinement
import Riotsensors.Spec.System

/-! Both registries implement one directory as long as every step of the board can
be followed on the Linux side: ids are never sent, so each side has to take every
decision the same way. -/

namespace RS

open CMem

namespace System

/-- The operation reaches the Linux side: a registration that takes effect on the
board has a name shorter than its field, an id below 128 and memory on Linux, and
nothing live is unregistered. -/
def Followed : Option System → Exchange → Prop
  | none, _ => False
  | some s, ⟨.register _ name lambda cache, env, linux⟩ =>
    s.board.Registers env name lambda cache →
      strlen name < MAX_LAMBDA_NAME_LENGTH ∧ s.board.registry.lambdaCounter.toNat < 128 ∧
        linux.heap.isSome
  | some s, ⟨.unregister id, _, _⟩ => (getRegisteredLambdaById s.board.registry id).isNone

/-- Type and cache policy. -/
def terms {α : Type} (l : RsRegisteredLambda α) : RsLambdaType × RsCacheType := (l.type, l.cache)

/-- Both registries implement the same directory. -/
structure Inv (s : System) : Prop where
  board : s.board.registry.WF
  linux : s.linux.registry.WF
  same : s.board.registry.directory terms = s.linux.registry.directory terms
  up : s.board.rsSptStarted = true

theorem Inv.started (garbage : ArgPtr → RsLinuxRegisteredLambda) : (started garbage).Inv :=
  ⟨Registry.WF.empty, Registry.WF.empty, rfl, rfl⟩

theorem Inv.counter {s : System} (h : s.Inv) :
    s.board.registry.lambdaCounter = s.linux.registry.lambdaCounter := by
  have hnext := congrArg Directory.next h.same
  rw [Registry.next_directory, Registry.next_directory] at hnext
  exact UInt8.toNat_inj.mp hnext

theorem Inv.agree {s : System} (h : s.Inv) : s.Agree := by
  intro id
  have hb := h.board.getById_directory terms id
  have hl := h.linux.getById_directory terms id
  rw [h.same, ← hl] at hb
  exact hb

/-- Both registries take the same decision about a name that both read alike. -/
theorem Inv.accepts_iff {s : System} (h : s.Inv) {name mem : List UInt8}
    (hmem : cstr mem = cstr name) :
    s.linux.registry.Accepts mem ↔ s.board.registry.Accepts name := by
  have hlen : strlen mem = strlen name := congrArg List.length hmem
  unfold Registry.Accepts
  rw [← h.counter, hlen, hmem, h.linux.getByName_isNone_iff_directory terms,
    h.board.getByName_isNone_iff_directory terms, h.same, hmem]

/-- A step in which the board sends nothing. -/
theorem step_silent {o : ByteOrder} {s : System} {x : Exchange} {board : Board} {res : Int8}
    (h : s.board.operate x.board x.op = some (board, res, [])) :
    step o (some s) x = some ⟨board, s.linux⟩ := by
  simp [step, h, Linux.receiveAll]

/-- A step in which the board sends one packet. -/
theorem step_sends {o : ByteOrder} {s : System} {x : Exchange} {board : Board} {res : Int8}
    {packet : Packet} (h : s.board.operate x.board x.op = some (board, res, [packet])) :
    step o (some s) x = some ⟨board, Linux.receive o s.linux ⟨x.linux, packet⟩⟩ := by
  simp [step, h, Linux.receiveAll]

/-- A registration that Linux follows leaves both directories with the same new entry. -/
theorem Inv.registered {s : System} (h : s.Inv) {name lmem : List UInt8}
    (hacc : s.board.registry.Accepts name) (hlen : strlen name < MAX_LAMBDA_NAME_LENGTH)
    (hread : cstr lmem = cstr name) (mem lheap : List UInt8) (type : RsLambdaType)
    (cache : RsCacheType) (lambda : FuncPtr) :
    Inv ⟨s.board.pushed mem name lambda type cache,
      s.linux.enlist (some lheap) lmem type cache⟩ := by
  have hlacc := (h.accepts_iff hread).mpr hacc
  have hllen : strlen lmem < MAX_LAMBDA_NAME_LENGTH := by
    rw [strlen, hread]
    exact hlen
  refine ⟨h.board.push hacc.1 rfl, lambdaRegistryRegister_wf h.linux .., ?_, h.up⟩
  simp only [Board.pushed, Linux.enlist, lambdaRegistryRegister_of_accepts hlacc]
  rw [h.board.directory_push hacc.1 rfl, h.linux.directory_push hlacc.1 rfl,
    newRecord_text_of_lt hlen, newRecord_text_of_lt hllen, hread, h.same]
  rfl

/-- A step that Linux follows keeps the invariant. -/
theorem step_of_followed {o : ByteOrder} {s : System} (h : s.Inv) {x : Exchange}
    (hfollow : Followed (some s) x) : ∃ s', step o (some s) x = some s' ∧ s'.Inv := by
  rcases x with ⟨_ | id, env, linux⟩
  case register kind name lambda cache =>
    rcases Board.registerLambda_cases h.board env name lambda kind.type cache with
      ⟨-, res, -, hop⟩ | ⟨mem, hmem, hacc, hnull, sent, hop, hsends, -⟩
    · rw [← Board.operate_register] at hop
      exact ⟨s, step_silent hop, h⟩
    · obtain ⟨hlen, hlt, hheap⟩ := hfollow ⟨hnull, hacc, by rw [hmem]; rfl⟩
      obtain ⟨lheap, hlheap⟩ := Option.isSome_iff_exists.mp hheap
      obtain ⟨packet, rfl, hpacket⟩ := hsends hlt h.up
      obtain ⟨lmem, hmsg, htext⟩ :=
        Linux.readPacket_registered hpacket hacc.2.2.1 (Or.inl hlen) o linux
      rw [← Board.operate_register] at hop
      refine ⟨_, step_sends hop, ?_⟩
      rw [Linux.receive_eq, hmsg, hlheap]
      exact h.registered hacc hlen htext mem lheap kind.type cache lambda
  case unregister =>
    have hnone : getRegisteredLambdaById s.board.registry id = none :=
      Option.isNone_iff_eq_none.mp hfollow
    have hop : s.board.operate env (.unregister id) =
        some (s.board, RS_UNREGISTER_NOTFOUND, []) := by
      simp only [Board.operate, Board.unregisterLambda, hnone]
    exact ⟨s, step_silent hop, h⟩

/-- A new board record that Linux did not get breaks the agreement on its id. -/
theorem Inv.not_agree_of_missed {s : System} (h : s.Inv) {name : List UInt8}
    (hacc : s.board.registry.Accepts name) (mem : List UInt8) (type : RsLambdaType)
    (cache : RsCacheType) (lambda : FuncPtr) {linux : Linux}
    (hmissed : linux.registry = s.linux.registry) :
    ¬ Agree ⟨s.board.pushed mem name lambda type cache, linux⟩ := by
  intro hagree
  have hid := hagree s.board.registry.lambdaCounter
  simp only [Board.pushed, hmissed] at hid
  rw [(h.board.push hacc.1 rfl).getById, Registry.slot_push hacc.1, if_pos rfl, h.linux.getById,
    h.linux.vacant _ (by rw [h.counter])] at hid
  cases hid

/-- Linux refuses a name that fills its field, and any name when it has no memory. -/
theorem Inv.registry_of_missed {s : System} (h : s.Inv) {o : ByteOrder} {env linux : Env}
    {name : List UInt8} {type : RsLambdaType} {cache : RsCacheType} {packet : Packet}
    (hacc : s.board.registry.Accepts name)
    (hpacket : Board.registeredPacket env name type cache = some packet) (htype : type ≠ 0)
    (hmiss : ¬ (strlen name < MAX_LAMBDA_NAME_LENGTH ∧ linux.heap.isSome)) :
    (Linux.receive o s.linux ⟨linux, packet⟩).registry = s.linux.registry := by
  rw [Linux.receive_eq, Linux.registry_act]
  by_cases hlen : strlen name < MAX_LAMBDA_NAME_LENGTH
  · obtain ⟨mem, hmsg, -⟩ :=
      Linux.readPacket_registered hpacket hacc.2.2.1 (Or.inl hlen) o linux
    simp only [hmsg]
    exact (lambdaRegistryRegister_refused h.linux (fun hok => hmiss ⟨hlen, hok.2⟩) ..).1
  · have hfull : strlen name = MAX_LAMBDA_NAME_LENGTH := le_antisymm hacc.2.2.1 (not_lt.mp hlen)
    obtain ⟨mem, hmsg, hlong⟩ := Linux.readPacket_registered_full hpacket hfull htype o linux
    simp only [hmsg]
    exact (lambdaRegistryRegister_refused h.linux
      (fun hok => absurd hok.1.2.2.1 (not_le.mpr hlong)) ..).1

/-- A step that Linux does not follow breaks the agreement at once. -/
theorem not_agrees_of_missed {o : ByteOrder} {s : System} (h : s.Inv) {x : Exchange}
    (hfollow : ¬ Followed (some s) x) : ¬ Agrees (step o (some s) x) := by
  rcases x with ⟨_ | id, env, linux⟩
  case register kind name lambda cache =>
    simp only [Followed, Classical.not_imp] at hfollow
    obtain ⟨hreg, hmiss⟩ := hfollow
    rcases Board.registerLambda_cases h.board env name lambda kind.type cache with
      ⟨hrefused, -⟩ | ⟨mem, -, hacc, -, sent, hop, hsends, hsilent⟩
    · exact absurd hreg hrefused
    · rw [← Board.operate_register] at hop
      by_cases hlt : s.board.registry.lambdaCounter.toNat < 128
      · obtain ⟨packet, rfl, hpacket⟩ := hsends hlt h.up
        rw [step_sends hop]
        refine h.not_agree_of_missed hacc mem kind.type cache lambda ?_
        refine h.registry_of_missed hacc hpacket kind.type_ne_zero fun hboth => ?_
        exact hmiss ⟨hboth.1, hlt, hboth.2⟩
      · rw [hsilent (not_lt.mp hlt)] at hop
        rw [step_silent hop]
        exact h.not_agree_of_missed hacc mem kind.type cache lambda rfl
  case unregister =>
    simp only [Followed, Option.isNone_iff_eq_none] at hfollow
    obtain ⟨lambda, hget⟩ := Option.ne_none_iff_exists'.mp hfollow
    have hop := Board.unregisterLambda_of_live env hget h.up
    rw [← Board.operate_unregister] at hop
    cases hpacket : Board.unregisteredPacket env id lambda with
    | none =>
      rw [hpacket, Option.map_none] at hop
      simp only [System.step, Option.bind_eq_bind, Option.bind_some, hop]
      exact not_false
    | some packet =>
      rw [hpacket, Option.map_some] at hop
      rw [step_sends hop, Linux.receive_eq, Linux.readPacket_unregistered hpacket]
      intro hagree
      have hid := hagree id
      have hbefore := h.agree id
      rw [hget] at hbefore
      simp only [Linux.act, Linux.Handled.quiet, ← hbefore] at hid
      rw [(lambdaRegistryUnregister_wf h.board id).getById, lambdaRegistryUnregister_slot h.board,
        if_pos rfl] at hid
      cases hid

/-- A run that is still defined, with the invariant. -/
def Synced (c : Option System) : Prop := ∃ s, c = some s ∧ s.Inv

/-- The registries agree in every state of a run exactly when Linux follows every step. -/
theorem agree_along_iff (o : ByteOrder) (garbage : ArgPtr → RsLinuxRegisteredLambda)
    (xs : List Exchange) :
    Runs.Along (step o) Agrees (some (started garbage)) xs ↔
      Runs.Meets (step o) Followed (some (started garbage)) xs := by
  have hstart : Synced (some (started garbage)) := ⟨_, rfl, Inv.started garbage⟩
  refine Runs.along_iff_meets ?_ ?_ ?_ hstart xs
  · rintro c x ⟨s, rfl, hinv⟩ hfollow
    exact step_of_followed hinv hfollow
  · rintro c ⟨s, rfl, hinv⟩
    exact hinv.agree
  · rintro c x ⟨s, rfl, hinv⟩ hfollow
    exact not_agrees_of_missed hinv hfollow

/-- Register an integer lambda `"a"`, then unregister it. -/
def registerThenUnregister : List Exchange :=
  [⟨.register .int [97] 1 RS_CACHE_NO_CACHE, {}, {}⟩, ⟨.unregister 0, {}, {}⟩]

/-- Linux keeps the lambda. -/
theorem unregistration_is_not_followed :
    ¬ ∀ xs : List Exchange, Runs.Along (step .little) Agrees
      (some (started fun _ => ⟨false, 0, .unset⟩)) xs := by
  intro h
  have hid : Agree _ := h registerThenUnregister _ List.prefix_rfl
  exact absurd (hid 0) (by decide)

end System

end RS
