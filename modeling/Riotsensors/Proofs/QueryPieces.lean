import Riotsensors.Proofs.QueryOptions
import Riotsensors.Spec.SplitQuery

/-! `split_query` against the pieces of the query between the `'&'`. -/

namespace RS.CoapUtils

open CMem

/-- What a key and a value read as. -/
def CoapQuery.texts (current : CoapQuery) : List UInt8 × List UInt8 :=
  (cstr current.key, cstr current.value)

/-- What they should read as. -/
def parameterOf (piece : List UInt8) : List UInt8 × List UInt8 := (keyOf piece, valueOf piece)

theorem keyOf_subset (piece : List UInt8) : keyOf piece ⊆ piece :=
  (List.takeWhile_prefix _).subset

theorem valueOf_subset (piece : List UInt8) : valueOf piece ⊆ piece := fun _ hc =>
  (List.dropWhile_suffix _).subset (List.mem_of_mem_drop hc)

theorem notMem_keyOf (piece : List UInt8) : EQUALS ∉ keyOf piece := fun h => by
  simpa using List.mem_takeWhile_imp h

/-! ## One parameter -/

section Parameter

variable {piece : List UInt8} (mem : Memory) (k : ℕ) (before rest : List UInt8)

theorem indexOfAt_piece (hs : IsText piece) :
    indexOfAt (before ++ (piece ++ 0 :: rest)) before.length EQUALS =
      some (if EQUALS ∈ piece then ((keyOf piece).length : ℤ) else -1) := by
  rw [indexOfAt]
  by_cases hmem : EQUALS ∈ piece
  · have hkey : IsText (keyOf piece) := fun c hc => hs c (keyOf_subset piece hc)
    have hfound := strchrAt_append_cons hkey (notMem_keyOf piece) before
      (valueOf piece ++ 0 :: rest)
    have hpiece : keyOf piece ++ EQUALS :: (valueOf piece ++ 0 :: rest) = piece ++ 0 :: rest := by
      conv_rhs => rw [split_of_mem hmem]
      rw [List.append_assoc, List.cons_append]
    rw [hpiece] at hfound
    rw [hfound, if_pos hmem]
    simp
  · rw [strchrAt_of_notMem hs hmem (by decide), if_neg hmem]
    rfl

/-- Without `'='` the blocks are large enough. -/
theorem newQuery_of_notMem (hs : IsText piece) (hmem : EQUALS ∉ piece) :
    ∃ current, newQuery mem k (before ++ (piece ++ 0 :: rest)) before.length = some current ∧
      current.texts = parameterOf piece := by
  have hcopy : memcpy (malloc mem k (piece.length + 1))
      (before ++ (piece ++ 0 :: rest) ++ mem.behind) before.length (piece.length + 1) =
        some (piece ++ [0] ++ (malloc mem k (piece.length + 1)).drop (piece.length + 1)) := by
    have happend : before ++ (piece ++ 0 :: rest) ++ mem.behind =
        before ++ (piece ++ [0] ++ (rest ++ mem.behind)) := by simp
    have hlen : piece.length + 1 = (piece ++ [0]).length := by simp
    rw [happend, hlen]
    exact memcpy_append (by rw [malloc, length_uninit]; omega) before (rest ++ mem.behind)
  obtain ⟨b, block, hblock⟩ : ∃ b block, malloc mem k 1 = b :: block :=
    List.exists_cons_of_ne_nil (List.ne_nil_of_length_pos (by rw [malloc, length_uninit]; omega))
  have hvalue : poke (malloc mem k 1) 0 [0] = some (0 :: block) := by
    rw [hblock]
    exact poke_append_cons [] b 0 block
  refine ⟨⟨piece ++ [0] ++ (malloc mem k (piece.length + 1)).drop (piece.length + 1), 0 :: block⟩,
    ?_, ?_⟩
  · rw [newQuery, strlenAt_append hs, indexOfAt_piece before rest hs, if_neg hmem]
    simp only [Option.bind_eq_bind, Option.bind_some, if_true, hcopy, hvalue]
    rfl
  · rw [CoapQuery.texts, parameterOf, keyOf_of_notMem hmem, valueOf_of_notMem hmem,
      List.append_assoc, List.singleton_append, cstr_append_zero hs, cstr_cons_zero]

/-- With `'='` the key's block is large enough, and the value is copied with its NUL and one byte
more into a block that has room for value and NUL. -/
theorem newQuery_of_mem (hs : IsText piece) (hmem : EQUALS ∈ piece) :
    ∃ key, cstr key = keyOf piece ∧
      newQuery mem k (before ++ (piece ++ 0 :: rest)) before.length = do
        let value ← memcpy (malloc mem k ((valueOf piece).length + 1))
          (before ++ keyOf piece ++ [EQUALS] ++ (valueOf piece ++ 0 :: (rest ++ mem.behind)))
          (before ++ keyOf piece ++ [EQUALS]).length ((valueOf piece).length + 2)
        let value ← poke value ((valueOf piece).length + 1) [0]
        return ⟨key, value⟩ := by
  have hkey : IsText (keyOf piece) := fun c hc => hs c (keyOf_subset piece hc)
  have hsplit := split_of_mem hmem
  have hworking : before ++ (piece ++ 0 :: rest) ++ mem.behind =
      before ++ keyOf piece ++ [EQUALS] ++ (valueOf piece ++ 0 :: (rest ++ mem.behind)) := by
    conv_lhs => rw [hsplit]
    simp
  have hlen : piece.length - (keyOf piece).length = (valueOf piece).length + 1 := by
    have hlength := congrArg List.length hsplit
    rw [List.length_append, List.length_cons] at hlength
    omega
  have hblock : (malloc mem k ((keyOf piece).length + 1)).length =
      (keyOf piece).length + 1 + mem.spare k := length_uninit _ _
  have hcopy : memcpy (malloc mem k ((keyOf piece).length + 1))
      (before ++ keyOf piece ++ [EQUALS] ++ (valueOf piece ++ 0 :: (rest ++ mem.behind)))
      before.length (keyOf piece).length =
        some (keyOf piece ++
          (malloc mem k ((keyOf piece).length + 1)).drop (keyOf piece).length) := by
    rw [List.append_assoc, List.append_assoc]
    exact memcpy_append (by omega) before _
  obtain ⟨b, block, hrest⟩ : ∃ b block,
      (malloc mem k ((keyOf piece).length + 1)).drop (keyOf piece).length = b :: block :=
    List.exists_cons_of_ne_nil
      (List.ne_nil_of_length_pos (by rw [List.length_drop, hblock]; omega))
  have hstart : before.length + (keyOf piece).length + 1 =
      (before ++ keyOf piece ++ [EQUALS]).length := by
    simp only [List.length_append, List.length_singleton]
  refine ⟨keyOf piece ++ 0 :: block, cstr_append_zero hkey block, ?_⟩
  have hfound : ((keyOf piece).length : ℤ) ≠ -1 := by omega
  rw [newQuery, strlenAt_append hs, indexOfAt_piece before rest hs, if_pos hmem]
  simp only [Option.bind_eq_bind, Option.bind_some, if_neg hfound, Int.toNat_natCast, hworking,
    hcopy, hrest, poke_append_cons, hlen, hstart]

/-- A byte behind the block of the value, and one behind the NUL of the token. -/
def HasRoom (mem : Memory) (k : ℕ) (rest : List UInt8) : Prop :=
  1 ≤ mem.spare k ∧ rest ++ mem.behind ≠ []

theorem newQuery_of_hasRoom (hs : IsText piece) (hroom : EQUALS ∈ piece → HasRoom mem k rest) :
    ∃ current, newQuery mem k (before ++ (piece ++ 0 :: rest)) before.length = some current ∧
      current.texts = parameterOf piece := by
  by_cases hmem : EQUALS ∈ piece
  · obtain ⟨hspare, hbehind⟩ := hroom hmem
    obtain ⟨c, after, hafter⟩ := List.exists_cons_of_ne_nil hbehind
    obtain ⟨key, hkey, hnew⟩ := newQuery_of_mem mem k before rest hs hmem
    have hvalue : IsText (valueOf piece) := fun d hd => hs d (valueOf_subset piece hd)
    have hlen : (valueOf piece ++ [0, c]).length = (valueOf piece).length + 2 := by simp
    have hnul : (valueOf piece ++ [0]).length = (valueOf piece).length + 1 := by simp
    have hblock : (valueOf piece ++ [0, c]).length ≤
        (malloc mem k ((valueOf piece).length + 1)).length := by
      rw [hlen, malloc, length_uninit]
      omega
    have hcopy := memcpy_append hblock (before ++ keyOf piece ++ [EQUALS]) after
    have hsource : valueOf piece ++ [0, c] ++ after = valueOf piece ++ 0 :: (c :: after) := by simp
    rw [hafter, ← hsource, ← hlen, hcopy, Option.bind_eq_bind, Option.bind_some] at hnew
    have hend : valueOf piece ++ [0, c] = valueOf piece ++ [0] ++ [c] := by simp
    rw [← hnul, hend, List.append_assoc (valueOf piece ++ [0]), List.singleton_append,
      poke_append_cons, Option.bind_some] at hnew
    refine ⟨_, hnew, ?_⟩
    rw [CoapQuery.texts, parameterOf, hkey, List.append_assoc, List.singleton_append,
      cstr_append_zero hvalue]
  · exact newQuery_of_notMem mem k before rest hs hmem

theorem newQuery_eq_none (hs : IsText piece) (hmem : EQUALS ∈ piece)
    (hroom : ¬ HasRoom mem k rest) :
    newQuery mem k (before ++ (piece ++ 0 :: rest)) before.length = none := by
  obtain ⟨key, -, hnew⟩ := newQuery_of_mem mem k before rest hs hmem
  have hcopy : memcpy (malloc mem k ((valueOf piece).length + 1))
      (before ++ keyOf piece ++ [EQUALS] ++ (valueOf piece ++ 0 :: (rest ++ mem.behind)))
      (before ++ keyOf piece ++ [EQUALS]).length ((valueOf piece).length + 2) = none := by
    rw [memcpy_eq_none, malloc, length_uninit]
    rw [HasRoom, not_and_or, not_not] at hroom
    rcases hroom with hspare | hbehind
    · right
      omega
    · left
      rw [hbehind]
      simp only [List.length_append, List.length_cons, List.length_nil]
      omega
  rw [hnew, hcopy]
  rfl

end Parameter

/-! ## All parameters -/

/-- A `'='` comes after the last `'&'`. -/
def EndsInPair (s : List UInt8) : Prop := ∃ piece, piece <:+ s ∧ AMPERSAND ∉ piece ∧ EQUALS ∈ piece

/-- There is room for the parameters from the `k`-th on, whose tokens end `tail` before the end of
`working`. -/
structure Fits (mem : Memory) (k : ℕ) (s tail : List UInt8) : Prop where
  spare : ∀ j piece, (pieces AMPERSAND s)[j]? = some piece → EQUALS ∈ piece → 1 ≤ mem.spare (k + j)
  behind : EndsInPair s → tail ++ mem.behind ≠ []

theorem endsInPair_append (front : List UInt8) {piece : List UInt8} (hfront : EQUALS ∉ front)
    (hpiece : AMPERSAND ∉ piece) : EndsInPair (front ++ piece) ↔ EQUALS ∈ piece := by
  constructor
  · rintro ⟨q, hsuffix, -, hmem⟩
    exact (List.mem_append.mp (hsuffix.subset hmem)).resolve_left hfront
  · exact fun hmem => ⟨piece, List.suffix_append front piece, hpiece, hmem⟩

theorem endsInPair_append_cons (front rest : List UInt8) :
    EndsInPair (front ++ AMPERSAND :: rest) ↔ EndsInPair rest := by
  constructor
  · rintro ⟨q, hsuffix, hq, hmem⟩
    rcases List.suffix_or_suffix_of_suffix hsuffix (List.suffix_append _ _) with hin | hout
    · rcases List.suffix_cons_iff.mp hin with rfl | hrest
      · exact absurd List.mem_cons_self hq
      · exact ⟨q, hrest, hq, hmem⟩
    · exact absurd (hout.subset List.mem_cons_self) hq
  · rintro ⟨q, hsuffix, hq, hmem⟩
    exact ⟨q, (hsuffix.trans (List.suffix_cons _ _)).trans (List.suffix_append _ _), hq, hmem⟩

theorem fits_replicate (mem : Memory) (k n : ℕ) (tail : List UInt8) :
    Fits mem k (List.replicate n AMPERSAND) tail := by
  constructor
  · intro j piece hpiece
    rw [pieces_replicate] at hpiece
    cases hpiece
  · rintro ⟨q, hsuffix, hq, hmem⟩
    exact absurd (List.eq_of_mem_replicate (hsuffix.subset hmem)) (by decide)

theorem fits_last {mem : Memory} {k n : ℕ} {piece tail : List UInt8} (hpiece : piece ≠ [])
    (hmem : AMPERSAND ∉ piece) :
    Fits mem k (List.replicate n AMPERSAND ++ piece) tail ↔
      (EQUALS ∈ piece → HasRoom mem k tail) := by
  have hpieces : pieces AMPERSAND (List.replicate n AMPERSAND ++ piece) = [piece] := by
    rw [pieces_replicate_append, pieces_of_notMem hmem hpiece]
  have hends := endsInPair_append (List.replicate n AMPERSAND)
    (fun h => absurd (List.eq_of_mem_replicate h) (by decide)) hmem
  constructor
  · intro hfits hequals
    exact ⟨hfits.spare 0 piece (by rw [hpieces]; rfl) hequals, hfits.behind (hends.mpr hequals)⟩
  · intro hroom
    constructor
    · intro j q hq hequals
      rw [hpieces, List.getElem?_singleton] at hq
      split_ifs at hq with hj
      obtain rfl := Option.some.inj hq
      rw [hj]
      exact (hroom hequals).1
    · exact fun h => (hroom (hends.mp h)).2

theorem fits_cons {mem : Memory} {k n : ℕ} {piece rest tail : List UInt8} (hpiece : piece ≠ [])
    (hmem : AMPERSAND ∉ piece) :
    Fits mem k (List.replicate n AMPERSAND ++ (piece ++ AMPERSAND :: rest)) tail ↔
      (EQUALS ∈ piece → 1 ≤ mem.spare k) ∧ Fits mem (k + 1) rest tail := by
  have hpieces : pieces AMPERSAND (List.replicate n AMPERSAND ++ (piece ++ AMPERSAND :: rest)) =
      piece :: pieces AMPERSAND rest := by
    rw [pieces_replicate_append, pieces_append_cons hmem, if_neg hpiece]
  have hends : EndsInPair (List.replicate n AMPERSAND ++ (piece ++ AMPERSAND :: rest)) ↔
      EndsInPair rest := by
    rw [← List.append_assoc]
    exact endsInPair_append_cons _ _
  constructor
  · intro hfits
    refine ⟨hfits.spare 0 piece (by rw [hpieces]; rfl), ⟨fun j q hq hequals => ?_,
      fun h => hfits.behind (hends.mpr h)⟩⟩
    have hspare := hfits.spare (j + 1) q (by rw [hpieces]; exact hq) hequals
    rwa [← Nat.add_assoc, Nat.add_right_comm] at hspare
  · rintro ⟨hfirst, hrest⟩
    refine ⟨fun j q hq hequals => ?_, fun h => hrest.behind (hends.mp h)⟩
    rw [hpieces] at hq
    cases j with
    | zero =>
      obtain rfl := Option.some.inj hq
      exact hfirst hequals
    | succ j =>
      have hspare := hrest.spare j q hq hequals
      rwa [Nat.add_right_comm, Nat.add_assoc] at hspare

section Loop

variable {mem : Memory} {working working' : List UInt8} {save save' : ℕ} {result : CoapQueries}

theorem splitLoop_none (h : strtok AMPERSAND working save = some (working', save', none)) :
    splitLoop mem working save result = some result := by
  rw [splitLoop]
  split
  next hfail => cases hfail.symm.trans h
  next => rfl
  next hsome => cases hsome.symm.trans h

theorem splitLoop_some {ptr : ℕ}
    (h : strtok AMPERSAND working save = some (working', save', some ptr)) :
    splitLoop mem working save result =
      (newQuery mem result.first.nodes.length working' ptr).bind fun current =>
        splitLoop mem working' save' ⟨result.num + 1, result.first.append current⟩ := by
  rw [splitLoop]
  split
  next hfail => cases hfail.symm.trans h
  next hnone => cases hnone.symm.trans h
  next hsome =>
    cases hsome.symm.trans h
    cases newQuery mem result.first.nodes.length working' ptr <;> rfl

/-- The loop's step for a piece that ends with the string or before a `'&'`. -/
theorem splitLoop_piece (mem : Memory) {piece : List UInt8} (hpiece : piece ≠ [])
    (hmem : AMPERSAND ∉ piece) (hs : IsText piece) {c : UInt8} (hc : c = AMPERSAND ∨ c = 0)
    (before after : List UInt8) (n : ℕ) (num : UInt8) (done : List CoapQuery) :
    splitLoop mem (before ++ (List.replicate n AMPERSAND ++ piece ++ c :: after)) before.length
        ⟨num, Chain.ofList done⟩ =
      (newQuery mem done.length (before ++ List.replicate n AMPERSAND ++ (piece ++ 0 :: after))
        (before ++ List.replicate n AMPERSAND).length).bind fun current =>
          splitLoop mem (before ++ List.replicate n AMPERSAND ++ (piece ++ 0 :: after))
            ((before ++ List.replicate n AMPERSAND ++ piece).length + if c = 0 then 0 else 1)
            ⟨num + 1, Chain.ofList (done ++ [current])⟩ := by
  have htoken := strtok_piece before after n hpiece hmem hs hc
  rw [List.append_assoc, splitLoop_some htoken, Chain.length_nodes_ofList]
  simp only [Chain.append_ofList, List.length_append, List.length_replicate, List.append_assoc,
    ← Nat.add_assoc]

/-- One parameter is appended for each piece, if all fit. -/
theorem splitLoop_spec (mem : Memory) (tail : List UInt8) {s : List UInt8} (hs : IsText s)
    (before : List UInt8) (done : List CoapQuery) (num : UInt8) :
    (Fits mem done.length s tail → ∃ new : List CoapQuery,
      new.map CoapQuery.texts = (pieces AMPERSAND s).map parameterOf ∧
        splitLoop mem (before ++ (s ++ 0 :: tail)) before.length ⟨num, Chain.ofList done⟩ =
          some ⟨num + UInt8.ofNat new.length, Chain.ofList (done ++ new)⟩) ∧
    (¬ Fits mem done.length s tail →
      splitLoop mem (before ++ (s ++ 0 :: tail)) before.length ⟨num, Chain.ofList done⟩ =
        none) := by
  induction s using pieces_induction AMPERSAND generalizing before done num with
  | none n =>
    refine ⟨fun _ => ⟨[], ?_, ?_⟩, fun h => absurd (fits_replicate mem done.length n tail) h⟩
    · rw [pieces_replicate]
      rfl
    · rw [splitLoop_none (strtok_replicate before tail n (by decide)), List.append_nil]
      simp
  | last n piece hpiece hmem =>
    have htext : IsText piece := fun c hc => hs c (List.mem_append_right _ hc)
    have hstep := splitLoop_piece mem hpiece hmem htext (.inr rfl) before tail n num done
    rw [if_pos rfl, Nat.add_zero, ← List.append_assoc (before ++ List.replicate n AMPERSAND)]
      at hstep
    rw [fits_last hpiece hmem, hstep, List.append_assoc (before ++ List.replicate n AMPERSAND)]
    constructor
    · intro hroom
      obtain ⟨current, hnew, htexts⟩ := newQuery_of_hasRoom mem done.length
        (before ++ List.replicate n AMPERSAND) tail htext hroom
      refine ⟨[current], ?_, ?_⟩
      · rw [pieces_replicate_append, pieces_of_notMem hmem hpiece, List.map_singleton,
          List.map_singleton, htexts]
      · have hend := strtok_replicate (before ++ List.replicate n AMPERSAND ++ piece) tail 0
          (by decide : AMPERSAND ≠ 0)
        rw [List.replicate_zero, List.nil_append, List.append_assoc _ piece] at hend
        rw [hnew, Option.bind_some, splitLoop_none hend]
        rfl
    · intro hroom
      rw [Classical.not_imp] at hroom
      rw [newQuery_eq_none mem done.length _ tail htext hroom.1 hroom.2]
      rfl
  | cons n piece rest hpiece hmem ih =>
    have htext : IsText piece := fun c hc => hs c (by simp [hc])
    have hrest : IsText rest := fun c hc => hs c (by simp [hc])
    have hstep := splitLoop_piece mem hpiece hmem htext (.inl rfl) before
      (rest ++ 0 :: tail) n num done
    have hroom : HasRoom mem done.length (rest ++ 0 :: tail) ↔ 1 ≤ mem.spare done.length := by
      simp [HasRoom]
    have hgoal : List.replicate n AMPERSAND ++ (piece ++ AMPERSAND :: rest) ++ 0 :: tail =
        List.replicate n AMPERSAND ++ piece ++ AMPERSAND :: (rest ++ 0 :: tail) := by simp
    have hobject : before ++ List.replicate n AMPERSAND ++ (piece ++ 0 :: (rest ++ 0 :: tail)) =
        before ++ List.replicate n AMPERSAND ++ piece ++ [0] ++ (rest ++ 0 :: tail) := by simp
    rw [fits_cons hpiece hmem, hgoal, hstep]
    by_cases hspare : EQUALS ∈ piece → 1 ≤ mem.spare done.length
    · obtain ⟨current, hnew, htexts⟩ := newQuery_of_hasRoom mem done.length
        (before ++ List.replicate n AMPERSAND) (rest ++ 0 :: tail) htext
        fun h => hroom.mpr (hspare h)
      have hdone : (done ++ [current]).length = done.length + 1 := List.length_append
      have hplace : (before ++ List.replicate n AMPERSAND ++ piece ++ [0]).length =
          (before ++ List.replicate n AMPERSAND ++ piece).length + 1 := List.length_append
      obtain ⟨hfits, hnone⟩ := ih hrest (before ++ List.replicate n AMPERSAND ++ piece ++ [0])
        (done ++ [current]) (num + 1)
      rw [hdone, hplace] at hfits hnone
      rw [and_iff_right hspare, hnew, Option.bind_some, if_neg (by decide), hobject]
      refine ⟨fun h => ?_, hnone⟩
      obtain ⟨new, hmap, hloop⟩ := hfits h
      refine ⟨current :: new, ?_, ?_⟩
      · rw [pieces_replicate_append, pieces_append_cons hmem, if_neg hpiece, List.map_cons,
          List.map_cons, htexts, hmap]
      · rw [hloop, List.length_cons, List.append_assoc done, List.singleton_append, UInt8.ofNat_add,
          UInt8.add_comm (UInt8.ofNat new.length), ← UInt8.add_assoc]
        rfl
    · rw [Classical.not_imp] at hspare
      refine ⟨fun h => absurd (h.1 hspare.1) hspare.2, fun _ => ?_⟩
      rw [newQuery_eq_none mem done.length _ _ htext hspare.1 (mt hroom.mp hspare.2)]
      rfl

end Loop

/-! ## The query -/

variable (mem : Memory) (query : List UInt8)

/-- The list that is built has the parameters of the pieces in their order, and its length is
counted. -/
def ComputesParameters : Prop :=
  ∃ result current, splitQuery mem query = some result ∧ result.first.toList = some current ∧
    current.map CoapQuery.texts = (pieces AMPERSAND (cstr query)).map parameterOf ∧
    result.num.toNat = current.length

/-- A copy with a NUL at its end, up to its first NUL. -/
theorem append_zero_eq : ∃ tail, (tail ≠ [] ↔ 0 ∈ query) ∧
    query ++ [0] = cstr query ++ 0 :: tail := by
  by_cases hnul : 0 ∈ query
  · obtain ⟨front, behind, hquery, hfront⟩ := List.eq_append_cons_of_mem hnul
    have htext : IsText front := fun c hc h0 => hfront (h0 ▸ hc)
    refine ⟨behind ++ [0], by simp [hnul], ?_⟩
    rw [hquery, cstr_append_zero htext]
    simp
  · have htext : IsText query := fun c hc h0 => hnul (h0 ▸ hc)
    exact ⟨[], by simp [hnul], by rw [cstr_of_isText htext]⟩

theorem splitQuery_eq :
    splitQuery mem query = splitLoop mem (query ++ [0]) 0 ⟨0, Chain.empty⟩ := by
  have hcopy : memcpy (uninit (query.length + 1) mem.junk) query 0 query.length =
      some (query ++ (uninit (query.length + 1) mem.junk).drop query.length) := by
    have hroom : query.length ≤ (uninit (query.length + 1) mem.junk).length := by
      rw [length_uninit]
      omega
    have hall := memcpy_append hroom [] []
    rwa [List.append_nil, List.nil_append] at hall
  obtain ⟨b, hb⟩ : ∃ b, (uninit (query.length + 1) mem.junk).drop query.length = [b] :=
    List.length_eq_one_iff.mp (by rw [List.length_drop, length_uninit]; omega)
  simp only [splitQuery, hcopy, hb, Option.bind_eq_bind, Option.bind_some, poke_append_cons]

/-- Every value block is followed by a spare byte, and `working` by a byte if its last token has
a value. -/
structure Spared : Prop where
  spare : ∀ k piece, (pieces AMPERSAND (cstr query))[k]? = some piece → EQUALS ∈ piece →
    1 ≤ mem.spare k
  behind : EndsInPair (cstr query) → 0 ∈ query ∨ mem.behind ≠ []

theorem splitQuery_spec :
    (Spared mem query → ∃ new : List CoapQuery,
      new.map CoapQuery.texts = (pieces AMPERSAND (cstr query)).map parameterOf ∧
        splitQuery mem query = some ⟨UInt8.ofNat new.length, Chain.ofList new⟩) ∧
    (¬ Spared mem query → splitQuery mem query = none) := by
  obtain ⟨tail, htail, hquery⟩ := append_zero_eq query
  obtain ⟨hfits, hnone⟩ := splitLoop_spec mem tail (cstr_isText query) [] [] 0
  have hspared : Spared mem query ↔ Fits mem 0 (cstr query) tail := by
    have hbehind : tail ++ mem.behind ≠ [] ↔ 0 ∈ query ∨ mem.behind ≠ [] := by
      rw [← htail, Ne, List.append_eq_nil_iff, not_and_or]
    constructor
    · intro h
      refine ⟨fun j piece hpiece hmem => ?_, fun hends => hbehind.mpr (h.behind hends)⟩
      rw [Nat.zero_add]
      exact h.spare j piece hpiece hmem
    · intro h
      refine ⟨fun j piece hpiece hmem => ?_, fun hends => hbehind.mp (h.behind hends)⟩
      have hspare := h.spare j piece hpiece hmem
      rwa [Nat.zero_add] at hspare
  rw [splitQuery_eq, hquery, hspared, ← Chain.ofList_nil]
  refine ⟨fun h => ?_, hnone⟩
  obtain ⟨new, hmap, hloop⟩ := hfits h
  refine ⟨new, hmap, ?_⟩
  rw [List.nil_append, UInt8.zero_add] at hloop
  exact hloop

variable {mem query}

theorem spared_of_notMem (h : EQUALS ∉ cstr query) : Spared mem query := by
  have hpieces := (mem_iff_mem_pieces (show EQUALS ≠ AMPERSAND by decide) (cstr query)).not.mp h
  refine ⟨fun k piece hk hmem => ?_, ?_⟩
  · exact absurd ⟨piece, List.mem_of_getElem? hk, hmem⟩ hpieces
  · rintro ⟨piece, hsuffix, -, hmem⟩
    exact absurd (hsuffix.subset hmem) h

/-- The list is right as soon as it is built; the count has eight bits. -/
theorem computesParameters_of_spared (h : Spared mem query) :
    ComputesParameters mem query ↔ (pieces AMPERSAND (cstr query)).length < 256 := by
  obtain ⟨new, hmap, hsplit⟩ := (splitQuery_spec mem query).1 h
  have hlen : (pieces AMPERSAND (cstr query)).length = new.length := by
    have hlength := congrArg List.length hmap
    rw [List.length_map, List.length_map] at hlength
    exact hlength.symm
  have hcount : (UInt8.ofNat new.length).toNat = new.length ↔ new.length < 256 := by
    rw [UInt8.toNat_ofNat']
    omega
  rw [hlen, ← hcount]
  constructor
  · rintro ⟨result, current, hresult, hlist, -, hnum⟩
    obtain rfl := Option.some.inj (hsplit.symm.trans hresult)
    obtain rfl := Option.some.inj ((Chain.toList_ofList new).symm.trans hlist)
    exact hnum
  · exact fun hnum => ⟨_, new, hsplit, Chain.toList_ofList new, hmap, hnum⟩

variable (mem query)

theorem computesParameters_iff :
    ComputesParameters mem query ↔
      Spared mem query ∧ (pieces AMPERSAND (cstr query)).length < 256 := by
  by_cases h : Spared mem query
  · rw [and_iff_right h]
    exact computesParameters_of_spared h
  · refine iff_of_false ?_ fun hboth => h hboth.1
    rintro ⟨result, current, hresult, -⟩
    cases ((splitQuery_spec mem query).2 h).symm.trans hresult

/-- The query `a&a&…a&` of 256 parameters. -/
theorem count_of_256_parameters :
    ¬ ∀ mem query, ComputesParameters mem query := by
  intro hall
  have hquery := hall (Memory.exact []) (List.replicate 256 (ascii "a&")).flatten
  have hequals : EQUALS ∉ cstr (List.replicate 256 (ascii "a&")).flatten := by decide +kernel
  rw [computesParameters_of_spared (spared_of_notMem hequals)] at hquery
  revert hquery
  decide +kernel

/-- With nothing around the objects, the function stays inside them unless there is a `'='`. -/
theorem splitQuery_isSome_iff (junk : List UInt8) :
    (splitQuery (Memory.exact junk) query).isSome ↔ EQUALS ∉ cstr query := by
  obtain ⟨hspared, hnone⟩ := splitQuery_spec (Memory.exact junk) query
  constructor
  · intro hsome hequals
    obtain ⟨piece, hpiece, hmem⟩ :=
      (mem_iff_mem_pieces (show EQUALS ≠ AMPERSAND by decide) _).mp hequals
    obtain ⟨k, hk⟩ := List.getElem?_of_mem hpiece
    rw [hnone fun h => absurd (h.spare k piece hk hmem) (Nat.not_succ_le_zero 0)] at hsome
    cases hsome
  · intro h
    obtain ⟨new, -, hsplit⟩ := hspared (spared_of_notMem h)
    rw [hsplit]
    rfl

/-- The value `test` and its NUL fill their block, and a second NUL comes behind it. -/
theorem splitQuery_of_simple_query :
    ¬ ∀ junk query, (splitQuery (Memory.exact junk) query).isSome := by
  intro hall
  have hquery := hall [] (ascii "name=test&key=test2")
  have hnot : ¬ Spared (Memory.exact []) (ascii "name=test&key=test2") := fun h =>
    absurd (h.spare 0 (ascii "name=test") (by decide +kernel) (by decide))
      (Nat.not_succ_le_zero 0)
  rw [(splitQuery_spec _ _).2 hnot] at hquery
  cases hquery

end RS.CoapUtils
