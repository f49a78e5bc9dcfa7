import Riotsensors.Proofs.Frames
import Riotsensors.Proofs.RestAnswers

/-! The four REST listings: one member for each live lambda, or for each of the requested type,
in the order of the ids, and as many of them as `count` says. -/

namespace RS

open CMem Json Loops

/-- A member of a listing: the id it is keyed by, the lambda, and what is written for it. -/
structure Member where
  id : ℕ
  lambda : RsRegisteredLambda ArgPtr
  value : Body

/-- The answer with the given members. -/
def listing (ms : List Member) : Body :=
  [.startObject, .key "lambdas", .startObject] ++
    ms.flatMap (fun m => .key (toString m.id) :: m.value) ++
    [.endObject, .key "count", .value (.int ms.length), .endObject]

namespace Linux

variable {s : Linux}

/-- The live lambdas with their ids, in ascending order. -/
def live (s : Linux) : List (ℕ × RsRegisteredLambda ArgPtr) :=
  (List.range MAX_LAMBDAS).filterMap fun i => (s.registry.slot i).map fun l => (i, l)

/-- The answers list the live lambdas, the ones by type those of the type. -/
structure Lists (s : Linux) (shows : RsRegisteredLambda ArgPtr → Body → Prop) (all : Option Body)
    (ofType : RsLambdaType → Option Body) (ms : List Member) : Prop where
  live : ms.map (fun m => (m.id, m.lambda)) = s.live
  shown : ∀ m ∈ ms, shows m.lambda m.value
  all : all = some (listing ms)
  ofType : ∀ type, ofType type = some (listing (ms.filter fun m => m.lambda.type = type))

/-- What the cache listings show: a `cached_result` for what is cached only. -/
def ShowsCache (s : Linux) (l : RsRegisteredLambda ArgPtr) (value : Body) : Prop :=
  printCacheEntry s l = some value ∧
    (.key "cached_result" ∈ value ↔ (s.heap l.arg).dataCached = true)

/-- The REST listings are exact and agree with each other. -/
structure ListsExactly (s : Linux) : Prop where
  list : ∃ ms, s.Lists (fun l value => printLambdaProperties l = some value)
    (assembleListRest s) (assembleListRestForType s) ms
  cache : ∃ ms, s.Lists s.ShowsCache (assembleCacheRest s) (assembleCacheRestForType s) ms

theorem mem_live {p : ℕ × RsRegisteredLambda ArgPtr} :
    p ∈ s.live ↔ s.registry.slot p.1 = some p.2 := by
  simp only [live, List.mem_filterMap, List.mem_range, Option.map_eq_some_iff]
  constructor
  · rintro ⟨i, -, l, hl, rfl⟩
    exact hl
  · intro h
    exact ⟨p.1, Registry.WF.lt_max h, p.2, h, rfl⟩

theorem length_live_le (s : Linux) : s.live.length ≤ 255 := by
  have hle := List.length_filterMap_le (fun i => (s.registry.slot i).map fun l => (i, l))
    (List.range MAX_LAMBDAS)
  rwa [List.length_range] at hle

/-- The loop meets every live lambda: beyond the counter there is none. -/
theorem map_snd_live (hwf : s.registry.WF) :
    (List.range (getNumberOfRegisteredLambdas s.registry).toNat).filterMap
      (fun i => getRegisteredLambdaById s.registry (UInt8.ofNat i)) = s.live.map Prod.snd := by
  have hcounter := (getNumberOfRegisteredLambdas s.registry).toNat_lt
  obtain ⟨k, hk⟩ : ∃ k, MAX_LAMBDAS = (getNumberOfRegisteredLambdas s.registry).toNat + k :=
    ⟨_, (Nat.add_sub_cancel' (Nat.le_of_lt_succ hcounter)).symm⟩
  have hslot : ∀ i ∈ List.range (getNumberOfRegisteredLambdas s.registry).toNat,
      getRegisteredLambdaById s.registry (UInt8.ofNat i) = s.registry.slot i := by
    intro i hi
    have hlt := List.mem_range.mp hi
    rw [hwf.getById, UInt8.toNat_ofNat', Nat.mod_eq_of_lt (by omega)]
  have hvacant : ((List.range k).map
      ((getNumberOfRegisteredLambdas s.registry).toNat + ·)).filterMap s.registry.slot = [] := by
    rw [List.filterMap_eq_nil_iff]
    intro i hi
    obtain ⟨j, -, rfl⟩ := List.mem_map.mp hi
    exact hwf.vacant _ (Nat.le_add_right _ _)
  have hsnd : s.live.map Prod.snd = (List.range MAX_LAMBDAS).filterMap s.registry.slot := by
    rw [live, List.map_filterMap]
    congr
    funext i
    cases s.registry.slot i with
    | none => rfl
    | some l => rfl
  rw [hsnd, hk, List.range_add, List.filterMap_append, hvacant, List.append_nil]
  exact List.filterMap_congr hslot

/-! ## The loop -/

variable {keep : RsRegisteredLambda ArgPtr → Bool} {print : RsRegisteredLambda ArgPtr → Option Body}

/-- The round for a lambda that is listed. -/
def memberRound (print : RsRegisteredLambda ArgPtr → Option Body) (acc : Body × LambdaId)
    (l : RsRegisteredLambda ArgPtr) : Option (Body × LambdaId) :=
  (print l).map fun value => (acc.1 ++ .key (toString l.id.toNat) :: value, acc.2 + 1)

/-- Holes and what the filter leaves out are passed over. -/
theorem forBelow_listRound (acc : Body × LambdaId) :
    forBelow (getNumberOfRegisteredLambdas s.registry) (listRound s keep print) 0 acc =
      (((List.range (getNumberOfRegisteredLambdas s.registry).toNat).filterMap fun i =>
        getRegisteredLambdaById s.registry (UInt8.ofNat i)).filter keep).foldlM
          (memberRound print) acc := by
  refine forBelow_eq_foldlM_filter (fun i acc hget => ?_) (fun i acc l hget hskip => ?_)
    (fun i acc l hget hkeep => ?_) acc
  · rw [listRound, hget]
  · rw [listRound, hget]
    simp only [hskip]
    rfl
  · rw [listRound, hget]
    simp only [hkeep, if_true, memberRound]
    cases print l <;> rfl

/-- Each lambda that is listed adds its member, and one to `count`. -/
theorem foldlM_memberRound {ls : List (RsRegisteredLambda ArgPtr)}
    (h : ∀ l ∈ ls, (print l).isSome) (acc : Body × LambdaId) :
    ls.foldlM (memberRound print) acc =
      some (acc.1 ++ ls.flatMap (fun l => .key (toString l.id.toNat) :: (print l).getD []),
        acc.2 + UInt8.ofNat ls.length) := by
  induction ls generalizing acc with
  | nil => simp
  | cons l ls ih =>
    obtain ⟨hl, hls⟩ := List.forall_mem_cons.mp h
    obtain ⟨value, hvalue⟩ := Option.isSome_iff_exists.mp hl
    rw [List.foldlM_cons, memberRound, hvalue, Option.map_some, Option.bind_eq_bind,
      Option.bind_some, ih hls, List.flatMap_cons, hvalue, Option.getD_some, List.append_assoc,
      List.length_cons, UInt8.ofNat_add, UInt8.add_assoc, UInt8.add_comm (UInt8.ofNat ls.length)]
    rfl

/-! ## The listings -/

/-- The member for a live lambda. -/
def member (print : RsRegisteredLambda ArgPtr → Option Body)
    (p : ℕ × RsRegisteredLambda ArgPtr) : Member :=
  ⟨p.1, p.2, (print p.2).getD []⟩

/-- If each lambda that is kept can be printed, the answer lists them. -/
theorem assembleRest_of_printed (hwf : s.registry.WF)
    (h : ∀ p ∈ s.live, keep p.2 = true → (print p.2).isSome) :
    assembleRest s keep print =
      some (listing ((s.live.map (member print)).filter fun m => keep m.lambda)) := by
  have hkept : (s.live.map Prod.snd).filter keep =
      (s.live.filter fun p => keep p.2).map Prod.snd := List.filter_map
  have hmembers : (s.live.map (member print)).filter (fun m => keep m.lambda) =
      (s.live.filter fun p => keep p.2).map (member print) := List.filter_map
  have hprinted : ∀ l ∈ (s.live.filter fun p => keep p.2).map Prod.snd, (print l).isSome := by
    intro l hl
    obtain ⟨p, hp, rfl⟩ := List.mem_map.mp hl
    obtain ⟨hlive, hkeep⟩ := List.mem_filter.mp hp
    exact h p hlive hkeep
  have hids : ∀ p ∈ s.live.filter fun p => keep p.2, p.2.id.toNat = p.1 := fun p hp =>
    hwf.ids p.1 p.2 (mem_live.mp (List.mem_filter.mp hp).1)
  have hlength : ((s.live.filter fun p => keep p.2).map Prod.snd).length < 256 := by
    rw [List.length_map]
    exact Nat.lt_succ_of_le ((List.length_filter_le _ _).trans (length_live_le s))
  have hentries : ((s.live.filter fun p => keep p.2).map Prod.snd).flatMap
      (fun l => Token.key (toString l.id.toNat) :: (print l).getD []) =
        ((s.live.filter fun p => keep p.2).map (member print)).flatMap
          fun m => .key (toString m.id) :: m.value := by
    rw [List.flatMap_map, List.flatMap_map]
    refine List.flatMap_congr fun p hp => ?_
    rw [hids p hp]
    rfl
  rw [assembleRest, forBelow_listRound, map_snd_live hwf, hkept, foldlM_memberRound hprinted,
    hentries, hmembers, Option.bind_eq_bind, Option.bind_some]
  dsimp only
  rw [UInt8.zero_add, UInt8.toNat_ofNat', Nat.mod_eq_of_lt hlength, List.nil_append,
    List.length_map, listing, List.length_map]
  rfl

/-- What can be printed for every live lambda is listed, for all of them and by type. -/
theorem lists_of_printed (hwf : s.registry.WF)
    {shows : RsRegisteredLambda ArgPtr → Body → Prop}
    (h : ∀ p ∈ s.live, ∃ value, print p.2 = some value ∧ shows p.2 value) :
    s.Lists shows (assembleRest s (fun _ => true) print)
      (fun type => assembleRest s (fun l => l.type == type) print) (s.live.map (member print)) := by
  have hprinted : ∀ p ∈ s.live, (print p.2).isSome := fun p hp => by
    obtain ⟨value, hvalue, -⟩ := h p hp
    exact Option.isSome_of_eq_some hvalue
  refine ⟨?_, ?_, ?_, fun type => ?_⟩
  · rw [List.map_map]
    exact List.map_id _
  · intro m hm
    obtain ⟨p, hp, rfl⟩ := List.mem_map.mp hm
    obtain ⟨value, hvalue, hshows⟩ := h p hp
    simpa only [member, hvalue, Option.getD_some] using hshows
  · rw [assembleRest_of_printed hwf fun p hp _ => hprinted p hp, List.filter_true]
  · exact assembleRest_of_printed hwf fun p hp _ => hprinted p hp

/-- Conversely every live lambda is shown. -/
theorem Lists.exists_shown {shows : RsRegisteredLambda ArgPtr → Body → Prop} {all : Option Body}
    {ofType : RsLambdaType → Option Body} {ms : List Member} (h : s.Lists shows all ofType ms)
    {i : ℕ} {l : RsRegisteredLambda ArgPtr} (hl : s.registry.slot i = some l) :
    ∃ value, shows l value := by
  have hlive : (i, l) ∈ ms.map fun m => (m.id, m.lambda) := h.live ▸ mem_live.mpr hl
  obtain ⟨m, hm, heq⟩ := List.mem_map.mp hlive
  obtain ⟨-, rfl⟩ := Prod.mk.inj heq
  exact ⟨m.value, h.shown m hm⟩

theorem not_mem_properties {l : RsRegisteredLambda ArgPtr} {ts : Body}
    (h : printLambdaProperties l = some ts) : Token.key "cached_result" ∉ ts := by
  simp only [printLambdaProperties, Option.bind_eq_bind, Option.bind_eq_some_iff] at h
  obtain ⟨type, -, cache, -, hts⟩ := h
  rw [← Option.some.inj hts]
  simp

/-- The entry has a `cached_result` exactly if one is cached. -/
theorem mem_cacheEntry_iff {l : RsRegisteredLambda ArgPtr} {value : Body}
    (h : printCacheEntry s l = some value) :
    Token.key "cached_result" ∈ value ↔ (s.heap l.arg).dataCached = true := by
  simp only [printCacheEntry, Option.bind_eq_bind, Option.bind_eq_some_iff] at h
  obtain ⟨properties, hproperties, content, hcontent, hvalue⟩ := h
  have hnot := not_mem_properties hproperties
  rw [← Option.some.inj hvalue]
  unfold printCacheContent at hcontent
  by_cases hdata : (s.heap l.arg).dataCached = true
  · rw [if_pos hdata] at hcontent
    obtain ⟨cached, hcached, hts⟩ := Option.bind_eq_some_iff.mp hcontent
    obtain ⟨result, -, rfl⟩ := Option.map_eq_some_iff.mp hcached
    rw [← Option.some.inj hts]
    simp [hdata]
  · rw [if_neg hdata] at hcontent
    rw [← Option.some.inj hcontent]
    simp [hdata, hnot]

/-- The listings are exact where what is live and what is cached can be printed, and there only. -/
theorem Inv.listsExactly_iff (hinv : s.Inv) : s.ListsExactly ↔ s.Presentable := by
  constructor
  · intro h i l hl
    obtain ⟨ms, hms⟩ := h.cache
    obtain ⟨value, hvalue, -⟩ := hms.exists_shown hl
    exact printCacheEntry_isSome_iff.mp (Option.isSome_of_eq_some hvalue)
  · intro h
    refine ⟨⟨_, lists_of_printed hinv.wf fun p hp => ?_⟩,
      ⟨_, lists_of_printed hinv.wf fun p hp => ?_⟩⟩
    · obtain ⟨value, hvalue, -⟩ := (h p.1 p.2 (mem_live.mp hp)).1.properties
      exact ⟨value, hvalue, hvalue⟩
    · obtain ⟨hknown, hret⟩ := h p.1 p.2 (mem_live.mp hp)
      obtain ⟨value, hvalue, -⟩ := hknown.cacheEntry hret
      exact ⟨value, hvalue, hvalue, mem_cacheEntry_iff hvalue⟩

end Linux

namespace Threads

variable {o : ByteOrder} {s : Threads}

/-- A packet brings what can be printed. -/
def Brings (o : ByteOrder) (s : Threads) : ThreadEvent → Prop
  | .packet d => s.linux.Presents d.env.heap (Linux.readPacket o d.env d.packet)
  | _ => True

structure Listed (s : Threads) : Prop where
  linux : s.linux.Inv
  presentable : s.linux.Presentable

theorem Listed.step (h : s.Listed) {e : ThreadEvent} (he : Brings o s e) :
    (Threads.step o s e).Listed := by
  refine ⟨inv_step h.linux o e, ?_⟩
  by_cases hpacket : ∃ d, e = .packet d
  · obtain ⟨d, rfl⟩ := hpacket
    change (s.packet o d).linux.Presentable
    rw [linux_packet]
    exact h.presentable.act h.linux he
  · exact h.presentable.of_alike h.linux (alike_step o s fun d hd => hpacket ⟨d, hd⟩)

/-- What cannot be printed is missing in the next listing. -/
theorem Listed.not_listsExactly (h : s.Listed) {e : ThreadEvent} (he : ¬ Brings o s e) :
    ¬ (Threads.step o s e).linux.ListsExactly := by
  intro hlists
  have hpres := (inv_step h.linux o e).listsExactly_iff.mp hlists
  cases e with
  | packet d =>
    have hwf := (inv_step h.linux o (.packet d)).wf
    change (s.packet o d).linux.registry.WF at hwf
    change (s.packet o d).linux.Presentable at hpres
    rw [linux_packet] at hwf hpres
    refine he (Linux.presents_of_printed h.linux (fun id l hl => ?_) fun id l hl hc => ?_)
    · rw [hwf.getById] at hl
      have hknown := (hpres _ l hl).1
      rw [stringifyRsLambdaType_isSome_iff, stringifyRsCacheType_isSome_iff]
      exact ⟨⟨hknown.type_pos, hknown.type_le⟩, hknown.cache_pos, hknown.cache_le⟩
    · rw [hwf.getById] at hl
      exact (hpres _ l hl).1.result ((hpres _ l hl).2 hc)
  | _ => exact he trivial

/-- The REST listings are exact in every state of a run exactly if every packet brings what can
be printed. -/
theorem lists_exactly_along_iff (o : ByteOrder) (garbage : ArgPtr → RsLinuxRegisteredLambda)
    (es : List ThreadEvent) :
    Runs.Along (step o) (fun s => s.linux.ListsExactly) (start (Linux.started garbage)) es ↔
      Runs.Meets (step o) (Brings o) (start (Linux.started garbage)) es := by
  have hstart : (start (Linux.started garbage)).Listed :=
    ⟨Linux.Inv.started garbage, by simp [Linux.Presentable, Threads.start, Linux.started]⟩
  exact Runs.along_iff_meets (fun _ _ h he => h.step he)
    (fun _ h => h.linux.listsExactly_iff.mpr h.presentable)
    (fun _ _ h he => h.not_listsExactly he) hstart es

/-- A lambda of type 0 is live, and there is no listing with it. -/
theorem untyped_lambda_not_listed :
    ¬ ∀ (o : ByteOrder) (garbage : ArgPtr → RsLinuxRegisteredLambda) (es : List ThreadEvent),
      Runs.Along (step o) (fun s => s.linux.ListsExactly) (start (Linux.started garbage)) es := by
  intro h
  obtain ⟨ms, hms⟩ := (h .little zeroed [.packet registersUntyped] _ (List.prefix_refl _)).list
  have hlive : ∃ l, (Runs.run (step .little) (start (Linux.started zeroed))
      [.packet registersUntyped]).linux.registry.slot 0 = some l ∧ l.type = 0 := ⟨_, rfl, rfl⟩
  obtain ⟨l, hl, htype⟩ := hlive
  obtain ⟨value, hvalue⟩ := hms.exists_shown hl
  have hknown := printLambdaProperties_isSome_iff.mp (Option.isSome_of_eq_some hvalue)
  have hpos := hknown.type_pos
  rw [htype] at hpos
  exact absurd hpos (by decide)

end Threads

end RS
