import Riotsensors.Proofs.QueryPieces
import Riotsensors.Spec.QueryBlocks

/-! `free_coap_query` gives back exactly what `split_query` took: after both the heap holds what
it held before, and nothing is freed twice or read once it is gone. -/

namespace RS.CoapUtils

open CMem

variable {heap₀ heap : Heap Block} {qs : List CoapQuery} {i : ℕ}

/-- The element under number `i`, where `n` elements start at `base`. -/
def nodeAt (base n i : ℕ) : Block :=
  .query (some (base + 3 * i + 1)) (some (base + 3 * i + 2))
    (if i + 1 < n then some (base + 3 * (i + 1)) else none)

/-- From number `i` on the parameters lie behind `heap₀`, and the ones before are gone. -/
structure Laid (heap₀ heap : Heap Block) (qs : List CoapQuery) (i : ℕ) : Prop where
  next : heap.next = heap₀.next + 3 * qs.length
  old : ∀ p < heap₀.next, heap.block p = heap₀.block p
  gone : ∀ p, heap₀.next ≤ p → p < heap₀.next + 3 * i → heap.block p = none
  node : ∀ j, i ≤ j → j < qs.length →
    heap.block (heap₀.next + 3 * j) = some (nodeAt heap₀.next qs.length j)
  key : ∀ j, i ≤ j → ∀ q, qs[j]? = some q →
    heap.block (heap₀.next + 3 * j + 1) = some (.text q.key)
  value : ∀ j, i ≤ j → ∀ q, qs[j]? = some q →
    heap.block (heap₀.next + 3 * j + 2) = some (.text q.value)

/-- The pointer to number `i`. -/
def place (base n i : ℕ) : Option ℕ := if i < n then some (base + 3 * i) else none

theorem Laid.nil (heap : Heap Block) : Laid heap heap [] 0 where
  next := rfl
  old _ _ := rfl
  gone p hge hlt := absurd hlt (not_lt.mpr hge)
  node j _ hj := absurd hj (Nat.not_lt_zero j)
  key j _ q hq := by cases hq
  value j _ q hq := by cases hq

/-- One round of the loop over an element with its two texts. -/
theorem freeCoapQuery_of_node {current key value : ℕ} {next : Option ℕ} {a b : Block}
    (hnode : heap.block current = some (.query (some key) (some value) next))
    (hkey : heap.block key = some a) (hvalue : heap.block value = some b) (hkv : value ≠ key)
    (hck : current ≠ key) (hcv : current ≠ value) :
    freeCoapQuery heap (some current) =
      freeCoapQuery (((heap.erase key).erase value).erase current) next := by
  have hvalue' : (heap.erase key).block value = some b := by
    rw [Heap.block_erase_of_ne hkv, hvalue]
  have hnode' : ((heap.erase key).erase value).block current =
      some (.query (some key) (some value) next) := by
    rw [Heap.block_erase_of_ne hcv, Heap.block_erase_of_ne hck, hnode]
  have hfree : ((heap.freeAt (some key)).bind fun heap => heap.freeAt (some value)).bind
      (fun heap => heap.free current) =
      some (((heap.erase key).erase value).erase current) := by
    rw [Heap.freeAt, Heap.free_of_live hkey, Option.bind_some, Heap.freeAt,
      Heap.free_of_live hvalue', Option.bind_some, Heap.free_of_live hnode']
  rw [freeCoapQuery]
  split
  next key' value' next' hnode'' =>
    obtain ⟨rfl, rfl, rfl⟩ := Block.query.inj (Option.some.inj (hnode''.symm.trans hnode))
    split
    next heap' heq =>
      obtain rfl := Option.some.inj (heq.symm.trans hfree)
      rfl
    next hnone =>
      rw [hfree] at hnone
      cases hnone
  next hother => exact absurd hnode (hother _ _ _)

/-- One round of the loop frees the three blocks of its element. -/
theorem Laid.free (h : Laid heap₀ heap qs i) (hi : i < qs.length) :
    ∃ heap', freeCoapQuery heap (place heap₀.next qs.length i) =
        freeCoapQuery heap' (place heap₀.next qs.length (i + 1)) ∧
      Laid heap₀ heap' qs (i + 1) := by
  obtain ⟨q, hq⟩ : ∃ q, qs[i]? = some q := ⟨qs[i], List.getElem?_eq_getElem hi⟩
  have hround := freeCoapQuery_of_node (h.node i le_rfl hi) (h.key i le_rfl q hq)
    (h.value i le_rfl q hq) (by omega) (by omega) (by omega)
  rw [place, if_pos hi]
  refine ⟨_, hround, ?_⟩
  -- three addresses are gone, and nothing else has changed
  have hself : ∀ p, p = heap₀.next + 3 * i ∨ p = heap₀.next + 3 * i + 1 ∨
      p = heap₀.next + 3 * i + 2 → (((heap.erase (heap₀.next + 3 * i + 1)).erase
        (heap₀.next + 3 * i + 2)).erase (heap₀.next + 3 * i)).block p = none := by
    rintro p (rfl | rfl | rfl)
    · exact Heap.block_erase_self ..
    · rw [Heap.block_erase_of_ne (by omega), Heap.block_erase_of_ne (by omega),
        Heap.block_erase_self]
    · rw [Heap.block_erase_of_ne (by omega), Heap.block_erase_self]
  have hother : ∀ p, p ≠ heap₀.next + 3 * i → p ≠ heap₀.next + 3 * i + 1 →
      p ≠ heap₀.next + 3 * i + 2 → (((heap.erase (heap₀.next + 3 * i + 1)).erase
        (heap₀.next + 3 * i + 2)).erase (heap₀.next + 3 * i)).block p = heap.block p := by
    intro p h₀ h₁ h₂
    rw [Heap.block_erase_of_ne h₀, Heap.block_erase_of_ne h₂, Heap.block_erase_of_ne h₁]
  refine ⟨h.next, fun p hp => ?_, fun p hge hlt => ?_, fun j hj hlt => ?_,
    fun j hj q hq => ?_, fun j hj q hq => ?_⟩
  · rw [hother p (by omega) (by omega) (by omega), h.old p hp]
  · by_cases hp : p < heap₀.next + 3 * i
    · rw [hother p (by omega) (by omega) (by omega), h.gone p hge hp]
    · exact hself p (by omega)
  · rw [hother _ (by omega) (by omega) (by omega), h.node j (by omega) hlt]
  · rw [hother _ (by omega) (by omega) (by omega), h.key j (by omega) q hq]
  · rw [hother _ (by omega) (by omega) (by omega), h.value j (by omega) q hq]

/-- The loop frees all that is left of the list. -/
theorem Laid.freeAll (h : Laid heap₀ heap qs i) (hi : i ≤ qs.length) :
    ∃ heap', freeCoapQuery heap (place heap₀.next qs.length i) = some heap' ∧
      heap'.block = heap₀.block := by
  induction hk : qs.length - i generalizing heap i with
  | zero =>
    obtain rfl : i = qs.length := by omega
    refine ⟨heap, ?_, ?_⟩
    · rw [place, if_neg (lt_irrefl _), freeCoapQuery]
    · funext p
      by_cases hp : p < heap₀.next
      · exact h.old p hp
      · rw [heap₀.fresh p (not_lt.mp hp)]
        by_cases hlt : p < heap₀.next + 3 * qs.length
        · exact h.gone p (not_lt.mp hp) hlt
        · exact heap.fresh p (by rw [h.next]; exact not_lt.mp hlt)
  | succ k ih =>
    obtain ⟨heap', hround, hnext⟩ := h.free (by omega)
    obtain ⟨heap'', hend, hblock⟩ := ih hnext (by omega) (by omega)
    exact ⟨heap'', hround.trans hend, hblock⟩

/-- The state of the loop of `split_query` after the parameters `qs`. -/
structure Split (heap₀ : Heap Block) (s : Splitting) (qs : List CoapQuery) : Prop where
  laid : Laid heap₀ s.heap qs 0
  first : s.first = place heap₀.next qs.length 0
  last : s.last = if qs = [] then none else some (heap₀.next + 3 * (qs.length - 1))
  num : s.num = UInt8.ofNat qs.length

/-- The three allocations for a parameter. -/
theorem exists_allocated (heap : Heap Block) (q : CoapQuery) :
    ∃ heap', (((heap.alloc (.query none none none)).alloc (.text q.key)).alloc
        (.text q.value)).store heap.next
          (.query (some (heap.next + 1)) (some (heap.next + 2)) none) = some heap' ∧
      heap'.next = heap.next + 3 ∧
      heap'.block heap.next = some (.query (some (heap.next + 1)) (some (heap.next + 2)) none) ∧
      heap'.block (heap.next + 1) = some (.text q.key) ∧
      heap'.block (heap.next + 2) = some (.text q.value) ∧
      ∀ p < heap.next, heap'.block p = heap.block p := by
  let heap₁ := heap.alloc (.query none none none)
  let heap₂ := heap₁.alloc (.text q.key)
  let heap₃ := heap₂.alloc (.text q.value)
  have hcurrent : heap₃.block heap.next = some (.query none none none) :=
    Heap.block_alloc (Heap.block_alloc (Heap.block_alloc_self heap _) _) _
  have hkey : heap₃.block (heap.next + 1) = some (.text q.key) :=
    Heap.block_alloc (Heap.block_alloc_self heap₁ _) _
  have hvalue : heap₃.block (heap.next + 2) = some (.text q.value) := Heap.block_alloc_self heap₂ _
  obtain ⟨heap', hstore, hnext, hself, hother⟩ := Heap.store_of_live hcurrent
    (.query (some (heap.next + 1)) (some (heap.next + 2)) none)
  refine ⟨heap', hstore, hnext, hself, ?_, ?_, fun p hp => ?_⟩
  · rw [hother _ (by omega), hkey]
  · rw [hother _ (by omega), hvalue]
  · have h₁ : p ≠ heap.next := hp.ne
    have h₂ : p ≠ heap₁.next := (Nat.lt_succ_of_lt hp).ne
    have h₃ : p ≠ heap₂.next := (Nat.lt_succ_of_lt (Nat.lt_succ_of_lt hp)).ne
    rw [hother p h₁, Heap.block_alloc_of_ne _ h₃, Heap.block_alloc_of_ne _ h₂,
      Heap.block_alloc_of_ne _ h₁]

/-- The list grows by one element at its end. -/
theorem Laid.snoc (h : Laid heap₀ heap qs 0) {heap' : Heap Block} {q : CoapQuery}
    (hnext : heap'.next = heap.next + 3)
    (hcurrent : heap'.block heap.next =
      some (.query (some (heap.next + 1)) (some (heap.next + 2)) none))
    (hkey : heap'.block (heap.next + 1) = some (.text q.key))
    (hvalue : heap'.block (heap.next + 2) = some (.text q.value))
    (hlast : ∀ j, j + 1 = qs.length → heap'.block (heap₀.next + 3 * j) =
      some (nodeAt heap₀.next (qs.length + 1) j))
    (hother : ∀ p < heap.next, (∀ j, j + 1 = qs.length → p ≠ heap₀.next + 3 * j) →
      heap'.block p = heap.block p) : Laid heap₀ heap' (qs ++ [q]) 0 := by
  have hbase := h.next
  have hlen : (qs ++ [q]).length = qs.length + 1 := by
    rw [List.length_append, List.length_singleton]
  have hget : ∀ j, j < qs.length → (qs ++ [q])[j]? = qs[j]? := fun j hj =>
    List.getElem?_append_left hj
  have hend : (qs ++ [q])[qs.length]? = some q := by
    rw [List.getElem?_append_right le_rfl, Nat.sub_self]
    rfl
  refine ⟨by omega, fun p hp => ?_, fun p hge hlt => absurd hlt (by omega), fun j _ hj => ?_,
    fun j _ q' hq' => ?_, fun j _ q' hq' => ?_⟩
  · rw [hother p (by omega) (by omega), h.old p hp]
  · rw [hlen]
    rcases Nat.lt_trichotomy (j + 1) qs.length with hlt | heq | hgt
    · rw [hother _ (by omega) (by omega), h.node j (Nat.zero_le j) (by omega), nodeAt, nodeAt,
        if_pos hlt, if_pos (by omega)]
    · exact hlast j heq
    · obtain rfl : j = qs.length := by omega
      rw [← hbase, hcurrent, nodeAt, if_neg (lt_irrefl _), ← hbase]
  · rcases Nat.lt_or_ge j qs.length with hlt | hge
    · rw [hget j hlt] at hq'
      rw [hother _ (by omega) (by omega), h.key j (Nat.zero_le j) q' hq']
    · have hjlt := (List.getElem?_eq_some_iff.mp hq').1
      obtain rfl : j = qs.length := by omega
      rw [hend] at hq'
      rw [← hbase, hkey, Option.some.inj hq']
  · rcases Nat.lt_or_ge j qs.length with hlt | hge
    · rw [hget j hlt] at hq'
      rw [hother _ (by omega) (by omega), h.value j (Nat.zero_le j) q' hq']
    · have hjlt := (List.getElem?_eq_some_iff.mp hq').1
      obtain rfl : j = qs.length := by omega
      rw [hend] at hq'
      rw [← hbase, hvalue, Option.some.inj hq']

theorem Split.append {s : Splitting} (h : Split heap₀ s qs) (q : CoapQuery) :
    ∃ s', s.append q = some s' ∧ Split heap₀ s' (qs ++ [q]) := by
  obtain ⟨heap', hstore, hnext, hcurrent, hkey, hvalue, hother⟩ := exists_allocated s.heap q
  have hbase := h.laid.next
  have hnum : s.num + 1 = UInt8.ofNat (qs ++ [q]).length := by
    rw [h.num, List.length_append, List.length_singleton]
    exact (UInt8.ofNat_add _ _).symm
  cases hlast : s.last with
  | none =>
    obtain rfl : qs = [] := by
      by_contra hne
      rw [h.last, if_neg hne] at hlast
      cases hlast
    refine ⟨⟨heap', s.num + 1, some s.heap.next, some s.heap.next⟩, ?_, ?_, ?_, ?_, hnum⟩
    · simp only [Splitting.append, Heap.next_alloc, hstore, hlast, Option.bind_eq_bind,
        Option.bind_some, Option.pure_def]
    · refine h.laid.snoc hnext hcurrent hkey hvalue (fun j hj => ?_) fun p hp _ => hother p hp
      cases hj
    · exact congrArg some hbase
    · exact congrArg some hbase
  | some last =>
    have hne : qs ≠ [] := by
      rintro rfl
      rw [h.last, if_pos rfl] at hlast
      cases hlast
    have hpos : 0 < qs.length := List.length_pos_of_ne_nil hne
    have hplace : s.last = some (heap₀.next + 3 * (qs.length - 1)) := by rw [h.last, if_neg hne]
    have hnode : heap'.block (heap₀.next + 3 * (qs.length - 1)) =
        some (nodeAt heap₀.next qs.length (qs.length - 1)) := by
      rw [hother _ (by omega), h.laid.node _ (Nat.zero_le _) (by omega)]
    obtain ⟨heap'', hlink, hnext'', hself'', hother''⟩ := Heap.store_of_live hnode
      (.query (some (heap₀.next + 3 * (qs.length - 1) + 1))
        (some (heap₀.next + 3 * (qs.length - 1) + 2)) (some s.heap.next))
    refine ⟨⟨heap'', s.num + 1, s.first, some s.heap.next⟩, ?_, ?_, ?_, ?_, hnum⟩
    · simp only [nodeAt] at hnode
      simp only [Splitting.append, Heap.next_alloc, hstore, hplace, hnode, hlink,
        Option.bind_eq_bind, Option.bind_some, Option.pure_def]
    · refine h.laid.snoc (hnext''.trans hnext) ?_ ?_ ?_ (fun j hj => ?_) fun p hp hne' => ?_
      · rw [hother'' _ (by omega), hcurrent]
      · rw [hother'' _ (by omega), hkey]
      · rw [hother'' _ (by omega), hvalue]
      · obtain rfl : j = qs.length - 1 := by omega
        rw [hself'', nodeAt, if_pos (by omega), hbase]
        congr 4
        omega
      · rw [hother'' p (hne' _ (by omega)), hother p hp]
    · rw [h.first, place, place, if_pos hpos, if_pos (by simp)]
    · rw [if_neg (by simp), hbase]
      simp

/-! ## The loop of `split_query` -/

variable {mem : Memory} {working : List UInt8} {save : ℕ}

theorem splitBlocksLoop_none {working' : List UInt8} {save' k : ℕ} {s : Splitting}
    (h : strtok AMPERSAND working save = some (working', save', none)) :
    splitBlocksLoop mem working save k s = some s := by
  rw [splitBlocksLoop]
  split
  next hnone =>
    rw [h] at hnone
    cases hnone
  next => rfl
  next w s' p hsome =>
    rw [h] at hsome
    cases hsome

theorem splitBlocksLoop_some {working' : List UInt8} {save' ptr k : ℕ} {s : Splitting}
    (h : strtok AMPERSAND working save = some (working', save', some ptr)) :
    splitBlocksLoop mem working save k s =
      ((newQuery mem k working' ptr).bind s.append).bind
        fun s' => splitBlocksLoop mem working' save' (k + 1) s' := by
  rw [splitBlocksLoop]
  split
  next hnone =>
    rw [h] at hnone
    cases hnone
  next w s' hsome =>
    rw [h] at hsome
    cases hsome
  next w s' p hsome =>
    rw [h] at hsome
    obtain ⟨rfl, rfl, rfl⟩ : working' = w ∧ save' = s' ∧ ptr = p := by simpa using hsome
    cases (newQuery mem k working' ptr).bind s.append with
    | none => rfl
    | some s' => rfl

theorem splitBlocksLoop_fails {k : ℕ} {s : Splitting}
    (h : strtok AMPERSAND working save = none) : splitBlocksLoop mem working save k s = none := by
  rw [splitBlocksLoop]
  split
  next => rfl
  next hnone => cases h.symm.trans hnone
  next hsome => cases h.symm.trans hsome

theorem splitLoop_fails {result : CoapQueries} (h : strtok AMPERSAND working save = none) :
    splitLoop mem working save result = none := by
  rw [splitLoop]
  split
  next => rfl
  next hnone => cases h.symm.trans hnone
  next hsome => cases h.symm.trans hsome

/-- The loop with its allocations does what the loop on values does. -/
theorem splitBlocksLoop_eq (mem : Memory) (working : List UInt8) (save : ℕ) {s : Splitting}
    (h : Split heap₀ s qs) :
    (splitLoop mem working save ⟨s.num, Chain.ofList qs⟩ = none ∧
      splitBlocksLoop mem working save qs.length s = none) ∨
    ∃ s' qs', splitLoop mem working save ⟨s.num, Chain.ofList qs⟩ =
        some ⟨s'.num, Chain.ofList qs'⟩ ∧
      splitBlocksLoop mem working save qs.length s = some s' ∧ Split heap₀ s' qs' := by
  -- each token ends behind the one before
  induction hk : working.length - save using Nat.strong_induction_on
    generalizing working save s qs with
  | _ k ih =>
    cases htok : strtok AMPERSAND working save with
    | none => exact .inl ⟨splitLoop_fails htok, splitBlocksLoop_fails htok⟩
    | some token =>
      obtain ⟨working', save', ptr⟩ := token
      cases ptr with
      | none => exact .inr ⟨s, qs, splitLoop_none htok, splitBlocksLoop_none htok, h⟩
      | some ptr =>
        rw [splitLoop_some htok, splitBlocksLoop_some htok]
        dsimp only
        rw [Chain.length_nodes_ofList]
        cases hq : newQuery mem qs.length working' ptr with
        | none => exact .inl ⟨rfl, rfl⟩
        | some q =>
          obtain ⟨s₁, hs₁, hsplit⟩ := h.append q
          have hnum : s.num + 1 = s₁.num := by
            rw [h.num, hsplit.num, List.length_append, List.length_singleton]
            exact (UInt8.ofNat_add _ _).symm
          have hlen : qs.length + 1 = (qs ++ [q]).length := by
            rw [List.length_append, List.length_singleton]
          have hadvances := strtok_advances htok
          simp only [Option.bind_some, hs₁, Chain.append_ofList, hnum, hlen]
          exact ih _ (by omega) _ _ hsplit rfl

theorem splitQueryBlocks_eq (mem : Memory) (heap : Heap Block) (query : List UInt8) :
    splitQueryBlocks mem heap query =
      splitBlocksLoop mem (query ++ [0]) 0 0 ⟨heap, 0, none, none⟩ := by
  have hcopy : memcpy (uninit (query.length + 1) mem.junk) query 0 query.length =
      some (query ++ (uninit (query.length + 1) mem.junk).drop query.length) := by
    have hroom : query.length ≤ (uninit (query.length + 1) mem.junk).length := by
      rw [length_uninit]
      omega
    have hall := memcpy_append hroom [] []
    rwa [List.append_nil, List.nil_append] at hall
  obtain ⟨b, hb⟩ : ∃ b, (uninit (query.length + 1) mem.junk).drop query.length = [b] :=
    List.length_eq_one_iff.mp (by rw [List.length_drop, length_uninit]; omega)
  simp only [splitQueryBlocks, hcopy, hb, Option.bind_eq_bind, Option.bind_some, poke_append_cons]

/-- The list can be read as long as it is not freed. -/
theorem Laid.read (h : Laid heap₀ heap qs 0) (hi : i ≤ qs.length) :
    readQueries heap (qs.length - i) (place heap₀.next qs.length i) = some (qs.drop i) := by
  induction hk : qs.length - i generalizing i with
  | zero =>
    obtain rfl : i = qs.length := by omega
    rw [place, if_neg (lt_irrefl _), List.drop_length]
    rfl
  | succ k ih =>
    have hlt : i < qs.length := by omega
    have hq : qs[i]? = some qs[i] := List.getElem?_eq_getElem hlt
    have hrest := ih (i := i + 1) (by omega) (by omega)
    rw [place] at hrest
    rw [place, if_pos hlt, readQueries, h.node i (Nat.zero_le i) hlt, nodeAt]
    dsimp only
    rw [h.key i (Nat.zero_le i) _ hq, h.value i (Nat.zero_le i) _ hq]
    dsimp only
    rw [hrest, Option.map_some, List.drop_eq_getElem_cons hlt]

/-- After `split_query` the list reads as the parameters, and `free_coap_query` leaves the heap as
it was. The allocations add no way to fail. -/
theorem freeCoapQuery_splitQuery (mem : Memory) (heap : Heap Block) (query : List UInt8) :
    (splitQueryBlocks mem heap query).isSome = (splitQuery mem query).isSome ∧
      ∀ s, splitQueryBlocks mem heap query = some s → ∃ qs heap',
        splitQuery mem query = some ⟨s.num, Chain.ofList qs⟩ ∧
        readQueries s.heap qs.length s.first = some qs ∧
        (∀ p < heap.next, s.heap.block p = heap.block p) ∧
        freeCoapQuery s.heap s.first = some heap' ∧ heap'.block = heap.block := by
  have hstart : Split heap ⟨heap, 0, none, none⟩ [] := ⟨Laid.nil heap, rfl, rfl, rfl⟩
  rw [splitQueryBlocks_eq, splitQuery_eq, ← Chain.ofList_nil]
  rcases splitBlocksLoop_eq mem (query ++ [0]) 0 hstart with
    ⟨hnone, hfails⟩ | ⟨s', qs, hvalues, hblocks, hsplit⟩
  · rw [List.length_nil] at hfails
    rw [hfails, hnone]
    refine ⟨rfl, fun s hs => ?_⟩
    cases hs
  · rw [List.length_nil] at hblocks
    rw [hblocks, hvalues]
    refine ⟨rfl, fun s hs => ?_⟩
    obtain rfl := Option.some.inj hs
    obtain ⟨heap', hfree, hblock⟩ := hsplit.laid.freeAll (Nat.zero_le _)
    have hread := hsplit.laid.read (Nat.zero_le _)
    rw [← hsplit.first, Nat.sub_zero, List.drop_zero] at hread
    rw [← hsplit.first] at hfree
    exact ⟨qs, heap', rfl, hread, hsplit.laid.old, hfree, hblock⟩

/-- The query `a&b`. -/
theorem freeCoapQuery_splitQuery_ab : ∃ s heap',
    splitQueryBlocks (Memory.exact []) Heap.empty (ascii "a&b") = some s ∧
      freeCoapQuery s.heap s.first = some heap' ∧ heap'.block = Heap.empty.block := by
  obtain ⟨hsome, hfree⟩ :=
    freeCoapQuery_splitQuery (Memory.exact []) Heap.empty (ascii "a&b")
  obtain ⟨new, -, hsplit⟩ := (splitQuery_spec (Memory.exact []) (ascii "a&b")).1
    (spared_of_notMem (by decide))
  rw [hsplit] at hsome
  obtain ⟨s, hs⟩ := Option.isSome_iff_exists.mp hsome
  obtain ⟨qs, heap', -, -, -, hfreed, hblock⟩ := hfree s hs
  exact ⟨s, heap', hs, hfreed, hblock⟩

end RS.CoapUtils
