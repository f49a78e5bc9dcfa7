import Riotsensors.Spec.Rest

/-! When the REST answers can be assembled: a printed lambda needs a known type and a known
policy, a string result a stored string, and an error a known code. -/

namespace RS

open CMem Json Loops

/-- The type and the policy of a record are named constants. -/
structure RsRegisteredLambda.Known (l : RsRegisteredLambda ArgPtr) : Prop where
  type_pos : 1 ≤ l.type
  type_le : l.type ≤ 3
  cache_pos : 1 ≤ l.cache
  cache_le : l.cache ≤ 4

/-- `print_result` takes no pointer for a string that was not stored as one. -/
def RsRegisteredLambda.Prints (l : RsRegisteredLambda ArgPtr) (ret : GenericLambdaReturn) : Prop :=
  l.type = RS_LAMBDA_STRING → ret.member = some RS_LAMBDA_STRING

theorem stringifyRsLambdaType_isSome_iff (c : RsLambdaType) :
    (stringifyRsLambdaType c).isSome ↔ 1 ≤ c ∧ c ≤ 3 := by
  have hall : ∀ f : Fin 256, (stringifyRsLambdaType (UInt8.ofFin f)).isSome ↔
      1 ≤ UInt8.ofFin f ∧ UInt8.ofFin f ≤ 3 := by
    decide +kernel
  exact hall c.toFin

theorem stringifyRsCacheType_isSome_iff (c : RsCacheType) :
    (stringifyRsCacheType c).isSome ↔ 1 ≤ c ∧ c ≤ 4 := by
  have hall : ∀ f : Fin 256, (stringifyRsCacheType (UInt8.ofFin f)).isSome ↔
      1 ≤ UInt8.ofFin f ∧ UInt8.ofFin f ≤ 4 := by
    decide +kernel
  exact hall c.toFin

theorem stringifyRsCallResult_isSome_iff (c : Int8) :
    (stringifyRsCallResult c).isSome ↔ -5 ≤ c ∧ c ≤ 2 := by
  have hall : ∀ f : Fin 256, (stringifyRsCallResult (UInt8.ofFin f).toInt8).isSome ↔
      -5 ≤ (UInt8.ofFin f).toInt8 ∧ (UInt8.ofFin f).toInt8 ≤ 2 := by
    decide +kernel
  exact hall c.toUInt8.toFin

theorem exists_retS {ret : GenericLambdaReturn} (h : ret.member = some RS_LAMBDA_STRING) :
    ∃ block, ret = .retS block := by
  cases ret with
  | unset => cases h
  | retI i => exact absurd (Option.some.inj h) (by decide)
  | retD d => exact absurd (Option.some.inj h) (by decide)
  | retS block => exact ⟨block, rfl⟩

theorem writeResult_spec {type : RsLambdaType} (hpos : 1 ≤ type) (hle : type ≤ 3)
    {ret : GenericLambdaReturn}
    (h : type = RS_LAMBDA_STRING → ret.member = some RS_LAMBDA_STRING) :
    ∃ v, writeResult type ret = some [.value v] := by
  have hknown : ∀ f : Fin 256, 1 ≤ UInt8.ofFin f → UInt8.ofFin f ≤ 3 →
      UInt8.ofFin f = RS_LAMBDA_INT ∨ UInt8.ofFin f = RS_LAMBDA_DOUBLE ∨
        UInt8.ofFin f = RS_LAMBDA_STRING := by
    decide +kernel
  rcases hknown type.toFin hpos hle with hint | hdouble | hstring
  · obtain rfl : type = RS_LAMBDA_INT := hint
    cases ret <;> exact ⟨_, rfl⟩
  · obtain rfl : type = RS_LAMBDA_DOUBLE := hdouble
    cases ret <;> exact ⟨_, rfl⟩
  · obtain rfl : type = RS_LAMBDA_STRING := hstring
    obtain ⟨block, rfl⟩ := exists_retS (h rfl)
    exact ⟨_, rfl⟩

/-- What is no string is not written as one. -/
theorem writeResult_of_not_string {ret : GenericLambdaReturn}
    (h : ret.member ≠ some RS_LAMBDA_STRING) : writeResult RS_LAMBDA_STRING ret = none := by
  cases ret with
  | retS block => exact absurd rfl h
  | _ => rfl

variable {l : RsRegisteredLambda ArgPtr}

theorem RsRegisteredLambda.Known.properties (h : l.Known) :
    ∃ ts, printLambdaProperties l = some ts ∧ IsValue ts := by
  obtain ⟨type, htype⟩ := Option.isSome_iff_exists.mp
    ((stringifyRsLambdaType_isSome_iff _).mpr ⟨h.type_pos, h.type_le⟩)
  obtain ⟨cache, hcache⟩ := Option.isSome_iff_exists.mp
    ((stringifyRsCacheType_isSome_iff _).mpr ⟨h.cache_pos, h.cache_le⟩)
  rw [printLambdaProperties, htype, hcache]
  exact ⟨_, rfl, rfl⟩

theorem RsRegisteredLambda.Known.result (h : l.Known) {ret : GenericLambdaReturn}
    (hret : l.Prints ret) : ∃ v, writeResult l.type ret = some [.value v] :=
  writeResult_spec h.type_pos h.type_le hret

theorem RsRegisteredLambda.Known.cacheContent (h : l.Known) {s : Linux}
    (hret : (s.heap l.arg).dataCached = true → l.Prints (s.heap l.arg).ret) :
    ∃ ts, printCacheContent s l = some ts ∧ IsValue ts := by
  unfold printCacheContent
  by_cases hcached : (s.heap l.arg).dataCached = true
  · obtain ⟨v, hv⟩ := h.result (hret hcached)
    rw [if_pos hcached, hv]
    exact ⟨_, rfl, rfl⟩
  · rw [if_neg hcached]
    exact ⟨_, rfl, rfl⟩

theorem RsRegisteredLambda.Known.cacheEntry (h : l.Known) {s : Linux}
    (hret : (s.heap l.arg).dataCached = true → l.Prints (s.heap l.arg).ret) :
    ∃ ts, printCacheEntry s l = some ts ∧ IsValue ts := by
  obtain ⟨properties, hproperties, hvalue⟩ := h.properties
  obtain ⟨content, hcontent, hvalue'⟩ := h.cacheContent hret
  rw [printCacheEntry, hproperties, hcontent]
  refine ⟨_, rfl, ?_⟩
  simp [IsValue, hvalue.run_append, hvalue'.run_append]

theorem assembleCallSuccessRest_spec (h : l.Known) {ret : GenericLambdaReturn}
    (hret : l.Prints ret) (cacheRetrieved timeout : Bool) :
    ∃ ts, assembleCallSuccessRest (some l) cacheRetrieved timeout ret = some ts ∧ IsValue ts := by
  obtain ⟨properties, hproperties, hvalue⟩ := h.properties
  obtain ⟨v, hv⟩ := h.result hret
  rw [assembleCallSuccessRest, Option.bind_eq_bind, Option.bind_some, hproperties, hv]
  refine ⟨_, rfl, ?_⟩
  simp [IsValue, hvalue.run_append]

theorem assembleCallErrorRest_spec {lambda : Option (RsRegisteredLambda ArgPtr)}
    (hlambda : ∀ l, lambda = some l → l.Known) {error : Int8}
    (herror : (stringifyRsCallResult error).isSome) (id : ℤ) (name : JsonScalar) :
    ∃ ts, assembleCallErrorRest id name lambda error = some ts ∧ IsValue ts := by
  have hprinted : ∃ ts, printLambdaOrUnknown id name lambda = some ts ∧ IsValue ts := by
    cases lambda with
    | none => exact ⟨_, rfl, rfl⟩
    | some l => exact (hlambda l rfl).properties
  obtain ⟨properties, hproperties, hvalue⟩ := hprinted
  obtain ⟨string, hstring⟩ := Option.isSome_iff_exists.mp herror
  rw [assembleCallErrorRest, hproperties, hstring]
  refine ⟨_, rfl, ?_⟩
  simp [IsValue, hvalue.run_append]

/-- A listing can be assembled if each of its entries can. -/
theorem assembleRest_spec {s : Linux} {print : RsRegisteredLambda ArgPtr → Option Body}
    (hprint : ∀ id l, getRegisteredLambdaById s.registry id = some l →
      ∃ ts, print l = some ts ∧ IsValue ts) (keep : RsRegisteredLambda ArgPtr → Bool) :
    ∃ ts, assembleRest s keep print = some ts ∧ IsValue ts := by
  have hround : ∀ (i : LambdaId) (acc : Body × LambdaId),
      i < getNumberOfRegisteredLambdas s.registry → IsMembers acc.1 →
        ∃ acc', listRound s keep print i acc = some acc' ∧ IsMembers acc'.1 := by
    rintro i ⟨members, count⟩ - hmembers
    unfold listRound
    cases hget : getRegisteredLambdaById s.registry i with
    | none => exact ⟨_, rfl, hmembers⟩
    | some l =>
      cases hkeep : keep l with
      | false => exact ⟨_, by simp only [hkeep]; rfl, hmembers⟩
      | true =>
        obtain ⟨value, hvalue, hts⟩ := hprint i l hget
        exact ⟨_, by simp only [hkeep, hvalue]; rfl, hmembers.concat _ hts⟩
  have hstart : IsMembers (([], 0) : Body × LambdaId).1 := IsMembers.nil
  obtain ⟨acc, hloop, hmembers⟩ := forBelow_inv hround UInt8.zero_le hstart
  rw [assembleRest, hloop]
  refine ⟨_, rfl, ?_⟩
  simp [IsValue, hmembers.run_append]

/-! ## What cannot be assembled -/

/-- Without a string to print there is no answer. -/
theorem assembleCallSuccessRest_of_not_string (hl : l.type = RS_LAMBDA_STRING)
    {ret : GenericLambdaReturn} (hret : ret.member ≠ some RS_LAMBDA_STRING)
    (cacheRetrieved timeout : Bool) :
    assembleCallSuccessRest (some l) cacheRetrieved timeout ret = none := by
  unfold assembleCallSuccessRest
  rw [Option.bind_eq_bind, Option.bind_some, hl, writeResult_of_not_string hret]
  exact Option.bind_eq_none_iff.mpr fun _ _ => rfl

/-- Without a text for the code there is none either. -/
theorem assembleCallErrorRest_of_no_text {error : Int8} (h : stringifyRsCallResult error = none)
    (id : ℤ) (name : JsonScalar) (lambda : Option (RsRegisteredLambda ArgPtr)) :
    assembleCallErrorRest id name lambda error = none := by
  unfold assembleCallErrorRest
  rw [h]
  exact Option.bind_eq_none_iff.mpr fun _ _ => rfl

theorem printLambdaProperties_isSome_iff : (printLambdaProperties l).isSome ↔ l.Known := by
  constructor
  · intro h
    obtain ⟨ts, hts⟩ := Option.isSome_iff_exists.mp h
    simp only [printLambdaProperties, Option.bind_eq_bind, Option.bind_eq_some_iff] at hts
    obtain ⟨type, htype, cache, hcache, -⟩ := hts
    have htype' := (stringifyRsLambdaType_isSome_iff _).mp (Option.isSome_of_eq_some htype)
    have hcache' := (stringifyRsCacheType_isSome_iff _).mp (Option.isSome_of_eq_some hcache)
    exact ⟨htype'.1, htype'.2, hcache'.1, hcache'.2⟩
  · intro h
    obtain ⟨ts, hts, -⟩ := h.properties
    exact Option.isSome_of_eq_some hts

theorem assembleCallSuccessRest_known {cacheRetrieved timeout : Bool} {ret : GenericLambdaReturn}
    {body : Body} (h : assembleCallSuccessRest (some l) cacheRetrieved timeout ret = some body) :
    l.Known := by
  simp only [assembleCallSuccessRest, Option.bind_eq_bind, Option.bind_some,
    Option.bind_eq_some_iff] at h
  obtain ⟨properties, hproperties, -⟩ := h
  exact printLambdaProperties_isSome_iff.mp (Option.isSome_of_eq_some hproperties)

theorem assembleCallErrorRest_known {id : ℤ} {name : JsonScalar} {error : Int8} {body : Body}
    (h : assembleCallErrorRest id name (some l) error = some body) : l.Known := by
  simp only [assembleCallErrorRest, Option.bind_eq_bind, Option.bind_eq_some_iff] at h
  obtain ⟨properties, hproperties, -⟩ := h
  exact printLambdaProperties_isSome_iff.mp (Option.isSome_of_eq_some hproperties)

theorem printCacheContent_isSome_iff {s : Linux} (hl : l.Known) :
    (printCacheContent s l).isSome ↔
      ((s.heap l.arg).dataCached = true → l.Prints (s.heap l.arg).ret) := by
  constructor
  · intro h hcached hstring
    by_contra hret
    rw [printCacheContent, if_pos hcached, hstring, writeResult_of_not_string hret] at h
    cases h
  · intro h
    obtain ⟨ts, hts, -⟩ := hl.cacheContent h
    exact Option.isSome_of_eq_some hts

theorem printCacheEntry_isSome_iff {s : Linux} :
    (printCacheEntry s l).isSome ↔
      l.Known ∧ ((s.heap l.arg).dataCached = true → l.Prints (s.heap l.arg).ret) := by
  constructor
  · intro h
    obtain ⟨ts, hts⟩ := Option.isSome_iff_exists.mp h
    simp only [printCacheEntry, Option.bind_eq_bind, Option.bind_eq_some_iff] at hts
    obtain ⟨properties, hproperties, content, hcontent, -⟩ := hts
    have hl := printLambdaProperties_isSome_iff.mp (Option.isSome_of_eq_some hproperties)
    exact ⟨hl, (printCacheContent_isSome_iff hl).mp (Option.isSome_of_eq_some hcontent)⟩
  · rintro ⟨hl, hret⟩
    obtain ⟨ts, hts, -⟩ := hl.cacheEntry hret
    exact Option.isSome_of_eq_some hts

/-- A listing can be assembled exactly if all its entries can. -/
theorem assembleRest_isSome_iff (s : Linux) (keep : RsRegisteredLambda ArgPtr → Bool)
    (print : RsRegisteredLambda ArgPtr → Option Body) :
    (assembleRest s keep print).isSome ↔
      ∀ i l, i < getNumberOfRegisteredLambdas s.registry →
        getRegisteredLambdaById s.registry i = some l → keep l = true → (print l).isSome := by
  have hround : ∀ i acc, (listRound s keep print i acc).isSome ↔
      ∀ l, getRegisteredLambdaById s.registry i = some l → keep l = true → (print l).isSome := by
    rintro i ⟨members, count⟩
    unfold listRound
    cases hget : getRegisteredLambdaById s.registry i with
    | none => exact iff_of_true rfl fun l hl => by cases hl
    | some l =>
      cases hkeep : keep l with
      | false =>
        refine iff_of_true (by simp only [hkeep]; rfl) ?_
        rintro l' ⟨⟩ hkeep'
        exact absurd hkeep' (by simp [hkeep])
      | true =>
        simp only [hkeep, if_true]
        cases hprint : print l with
        | none => exact iff_of_false (by simp) fun h => by simpa [hprint] using h l rfl hkeep
        | some value =>
          refine iff_of_true rfl ?_
          rintro l' ⟨⟩ -
          rw [hprint]
          rfl
  have hloop := forBelow_isSome_iff (n := getNumberOfRegisteredLambdas s.registry) hround 0 ([], 0)
  have hsome : (assembleRest s keep print).isSome ↔
      (forBelow (getNumberOfRegisteredLambdas s.registry) (listRound s keep print) 0
        ([], 0)).isSome := by
    rw [assembleRest]
    cases forBelow (getNumberOfRegisteredLambdas s.registry) (listRound s keep print) 0 ([], 0) <;>
      rfl
  rw [hsome, hloop]
  constructor
  · intro h i l hi
    exact h i UInt8.zero_le hi l
  · intro h i _ hi l
    exact h i l hi

/-- A listing needs the types and the policies of the lambdas that it prints. -/
theorem isSome_handleList (s : Linux) (type : RsLambdaType) :
    (handleList s type).isSome ↔ ∀ i l, i < getNumberOfRegisteredLambdas s.registry →
      getRegisteredLambdaById s.registry i = some l → type = 0 ∨ l.type = type → l.Known := by
  unfold handleList
  by_cases htype : type = 0
  · simp [htype, assembleListRest, assembleRest_isSome_iff, printLambdaProperties_isSome_iff]
  · simp [htype, assembleListRestForType, assembleRest_isSome_iff,
      printLambdaProperties_isSome_iff]

theorem handleList_ok {s : Linux} {type : RsLambdaType} {code : HttpCode} {body : Body}
    (h : handleList s type = some (code, body)) : code = .ok := by
  unfold handleList at h
  split_ifs at h
  all_goals
    obtain ⟨body', -, hbody⟩ := Option.map_eq_some_iff.mp h
    exact (congrArg Prod.fst hbody).symm

end RS
