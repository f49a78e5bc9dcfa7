import Riotsensors.Spec.FrontEnds

/-! Query options and their bytes. The board searches for `'='` in a C string that an
option is not; Linux compares C strings where it counts lengths. -/

namespace RS

open CMem Numerals

/-- The bytes before the first `'='`. -/
def keyOf (option : List UInt8) : List UInt8 := option.takeWhile (· ≠ EQUALS)

/-- The bytes after the first `'='`, if there is one. -/
def valueOf (option : List UInt8) : List UInt8 := (option.dropWhile (· ≠ EQUALS)).drop 1

theorem keyOf_of_notMem {option : List UInt8} (h : EQUALS ∉ option) : keyOf option = option := by
  rw [keyOf, List.takeWhile_eq_self_iff]
  intro c hc
  simpa using fun heq : c = EQUALS => h (heq ▸ hc)

theorem valueOf_of_notMem {option : List UInt8} (h : EQUALS ∉ option) : valueOf option = [] := by
  have hall : option.dropWhile (· ≠ EQUALS) = [] := by
    rw [List.dropWhile_eq_nil_iff]
    intro c hc
    simpa using fun heq : c = EQUALS => h (heq ▸ hc)
  rw [valueOf, hall]
  rfl

/-- An option with `'='` is its key, the `'='` and its value. -/
theorem split_of_mem {option : List UInt8} (h : EQUALS ∈ option) :
    option = keyOf option ++ EQUALS :: valueOf option := by
  induction option with
  | nil => cases h
  | cons c option ih =>
    by_cases hc : c = EQUALS
    · rw [hc]
      rfl
    · have hrest := ih ((List.mem_cons.mp h).resolve_left (Ne.symm hc))
      have hkey : keyOf (c :: option) = c :: keyOf option := by simp [keyOf, hc]
      have hvalue : valueOf (c :: option) = valueOf option := by simp [valueOf, hc]
      rw [hkey, hvalue, List.cons_append, ← hrest]

theorem keyOf_append_of_mem {a : List UInt8} (h : EQUALS ∈ a) (b : List UInt8) :
    keyOf (a ++ b) = keyOf a := by
  rw [keyOf, List.takeWhile_append, if_neg]
  · rfl
  · intro hlen
    have hall := (List.takeWhile_prefix _).eq_of_length hlen
    rw [List.takeWhile_eq_self_iff] at hall
    simpa using hall EQUALS h

theorem keyOf_append_of_notMem {a : List UInt8} (h : EQUALS ∉ a) (b : List UInt8) :
    keyOf (a ++ b) = a ++ keyOf b := by
  rw [keyOf, List.takeWhile_append_of_pos, keyOf]
  intro c hc
  simpa using fun heq : c = EQUALS => h (heq ▸ hc)

theorem cstr_prefix (mem : List UInt8) : ∃ t, mem = cstr mem ++ t :=
  ⟨mem.dropWhile (· ≠ 0), (List.takeWhile_append_dropWhile).symm⟩

theorem find_eq (s : List UInt8) :
    find s EQUALS = if EQUALS ∈ s then some (keyOf s).length else none := rfl

theorem indexOf_eq (mem : List UInt8) :
    indexOf mem EQUALS = if EQUALS ∈ cstr mem then ((keyOf mem).length : ℤ) else -1 := by
  have hmem : EQUALS ∈ cstr mem ++ [0] ↔ EQUALS ∈ cstr mem := by
    rw [List.mem_append, or_iff_left]
    decide
  rw [indexOf, strchr, find_eq]
  by_cases h : EQUALS ∈ cstr mem
  · obtain ⟨t, ht⟩ := cstr_prefix mem
    have hkey : keyOf mem = keyOf (cstr mem) := by
      conv_lhs => rw [ht]
      exact keyOf_append_of_mem h t
    rw [if_pos (hmem.mpr h), if_pos h, keyOf_append_of_mem h, hkey]
  · rw [if_neg (fun hm => h (hmem.mp hm)), if_neg h]

namespace CoapOption

variable {m : DataModel} (opt : CoapOption m)

/-- The memory behind the option. -/
def rest : List UInt8 := opt.p.drop opt.len

theorem p_eq : opt.p = opt.bytes ++ opt.rest := (List.take_append_drop opt.len opt.p).symm

theorem length_bytes : opt.bytes.length = opt.len := by
  rw [bytes, List.length_take, min_eq_left opt.inside]

/-- The macro's key and value are the parts of the option, and no longer than it. -/
structure SplitsInside : Prop where
  key : (initializeCoapKeyValueFromOpt opt).key = keyOf opt.bytes
  value : (initializeCoapKeyValueFromOpt opt).value = valueOf opt.bytes
  keyLen_le : (initializeCoapKeyValueFromOpt opt).keyLen ≤ opt.len
  valLen_le : (initializeCoapKeyValueFromOpt opt).valLen ≤ opt.len

/-- The search for `'='` ends in the option if it should find one there, and finds none
behind it otherwise. -/
def SearchEnds : Prop :=
  if EQUALS ∈ opt.bytes then 0 ∉ keyOf opt.bytes else 0 ∈ opt.bytes ∨ EQUALS ∉ cstr opt.rest

variable {opt}

theorem searchEnds_iff : opt.SearchEnds ↔ (EQUALS ∈ cstr opt.p ↔ EQUALS ∈ opt.bytes) := by
  have hp := opt.p_eq
  unfold SearchEnds
  split_ifs with hmem
  · rw [iff_true_right hmem, hp]
    have hsplit := split_of_mem hmem
    have hkey : EQUALS ∉ keyOf opt.bytes := fun h => by
      simpa using List.mem_takeWhile_imp h
    constructor
    · intro hnul
      have htext : IsText (keyOf opt.bytes) := fun c hc h0 => hnul (h0 ▸ hc)
      rw [hsplit, List.append_assoc, cstr_append_of_text htext, List.cons_append,
        cstr_cons_of_ne (by decide)]
      simp
    · intro heq hnul
      rw [hsplit, List.append_assoc, cstr_append_of_mem hnul] at heq
      exact hkey ((List.takeWhile_prefix _).subset heq)
  · rw [iff_false_right hmem, hp]
    by_cases hnul : 0 ∈ opt.bytes
    · rw [cstr_append_of_mem hnul]
      exact iff_of_true (Or.inl hnul) fun h => hmem ((List.takeWhile_prefix _).subset h)
    · have htext : IsText opt.bytes := fun c hc h0 => hnul (h0 ▸ hc)
      rw [cstr_append_of_text htext, List.mem_append, or_iff_right hmem, or_iff_right hnul]

theorem peek_p {off n : ℕ} (h : off + n ≤ opt.len) :
    peek opt.p off n = (opt.bytes.drop off).take n := by
  rw [opt.p_eq]
  exact peek_append_of_le (by rw [length_bytes]; exact h) opt.rest

/-- `'='` stands in the option and is found: the difference of lengths does not wrap. -/
theorem splitsInside_of_found (h : EQUALS ∈ opt.bytes) (hfound : EQUALS ∈ cstr opt.p) :
    opt.SplitsInside := by
  have hsplit := split_of_mem h
  have hlen : opt.len = (keyOf opt.bytes).length + 1 + (valueOf opt.bytes).length := by
    have := congrArg List.length hsplit
    rw [length_bytes, List.length_append, List.length_cons] at this
    omega
  have hindex : indexOf opt.p EQUALS = ((keyOf opt.bytes).length : ℤ) := by
    rw [indexOf_eq, if_pos hfound, opt.p_eq, keyOf_append_of_mem h]
  have hkeyLen : (initializeCoapKeyValueFromOpt opt).keyLen = (keyOf opt.bytes).length := by
    simp only [initializeCoapKeyValueFromOpt, hindex]
    rw [if_neg (by omega), Int.toNat_natCast]
  have hsmall : (opt.len : ℤ) < 2 ^ m.sizeBits := by
    have hle := opt.inside.trans_lt opt.small
    have hpow : 2 ^ (m.sizeBits - 1) ≤ 2 ^ m.sizeBits := Nat.pow_le_pow_right (by omega) (by omega)
    exact_mod_cast hle.trans_le hpow
  have hvalLen : (initializeCoapKeyValueFromOpt opt).valLen = (valueOf opt.bytes).length := by
    simp only [initializeCoapKeyValueFromOpt, hindex]
    rw [if_neg (by omega), Int.emod_eq_of_lt (by omega) (by omega)]
    omega
  generalize hkey : keyOf opt.bytes = key at *
  generalize hvalue : valueOf opt.bytes = value at *
  constructor
  · change peek opt.p 0 (initializeCoapKeyValueFromOpt opt).keyLen = _
    rw [hkeyLen, peek_p (by omega)]
    conv_lhs => rw [hsplit]
    rw [List.drop_zero, List.take_left, hkey]
  · change peek opt.p ((initializeCoapKeyValueFromOpt opt).keyLen + 1)
      (initializeCoapKeyValueFromOpt opt).valLen = _
    rw [hkeyLen, hvalLen, peek_p (by omega)]
    conv_lhs => rw [hsplit]
    rw [← List.drop_drop, List.drop_left, List.drop_one, List.tail_cons, List.take_length,
      hvalue]
  · rw [hkeyLen]
    omega
  · rw [hvalLen]
    omega

/-- The search ran past the option: the difference of lengths wraps. -/
theorem not_splitsInside_of_found (h : EQUALS ∉ opt.bytes) (hfound : EQUALS ∈ cstr opt.p) :
    ¬ opt.SplitsInside := by
  have hkey : keyOf opt.p = opt.bytes ++ keyOf opt.rest := by
    rw [opt.p_eq, keyOf_append_of_notMem h]
  have hindex : indexOf opt.p EQUALS = ((opt.len + (keyOf opt.rest).length : ℕ) : ℤ) := by
    rw [indexOf_eq, if_pos hfound, hkey, List.length_append, length_bytes]
  have hmem : EQUALS ∈ opt.p := (List.takeWhile_prefix _).subset hfound
  have hlt : opt.len + (keyOf opt.rest).length < opt.p.length := by
    have := congrArg List.length (split_of_mem hmem)
    rw [List.length_append, List.length_cons, hkey, List.length_append, length_bytes] at this
    omega
  have hsmall := opt.small
  have hpow : 2 ^ m.sizeBits = 2 ^ (m.sizeBits - 1) + 2 ^ (m.sizeBits - 1) := by
    obtain ⟨w, hw⟩ : ∃ w, m.sizeBits = w + 1 := by
      refine ⟨m.sizeBits - 1, ?_⟩
      by_contra hzero
      rw [show m.sizeBits - 1 = 0 by omega] at hsmall
      omega
    rw [hw, Nat.add_sub_cancel, pow_succ]
    omega
  have hpow' : (2 : ℤ) ^ m.sizeBits = (2 ^ m.sizeBits : ℕ) := by norm_cast
  intro hsplits
  have hle := hsplits.valLen_le
  simp only [initializeCoapKeyValueFromOpt, hindex] at hle
  rw [if_neg (by omega), hpow', ← Int.add_emod_right, Int.emod_eq_of_lt (by omega) (by omega)] at hle
  omega

theorem splitsInside_iff : opt.SplitsInside ↔ opt.SearchEnds := by
  rw [searchEnds_iff]
  by_cases hfound : EQUALS ∈ cstr opt.p
  · rw [iff_true_left hfound]
    by_cases h : EQUALS ∈ opt.bytes
    · exact iff_of_true (splitsInside_of_found h hfound) h
    · exact iff_of_false (not_splitsInside_of_found h hfound) h
  · rw [iff_false_left hfound]
    have hindex : indexOf opt.p EQUALS = -1 := by rw [indexOf_eq, if_neg hfound]
    have hkey : (initializeCoapKeyValueFromOpt opt).key = opt.bytes := by
      simp only [initializeCoapKeyValueFromOpt, hindex, if_true]
      rw [peek_p (by omega), List.drop_zero, ← length_bytes, List.take_length]
    constructor
    · intro hsplits hmem
      have := split_of_mem hmem
      rw [← hsplits.key, hkey] at this
      simpa using congrArg List.length this
    · intro h
      refine ⟨hkey.trans (keyOf_of_notMem h).symm, ?_, ?_, ?_⟩
      · rw [valueOf_of_notMem h]
        simp only [initializeCoapKeyValueFromOpt, hindex, if_true]
        rfl
      · simp only [initializeCoapKeyValueFromOpt, hindex, if_true, le_refl]
      · simp only [initializeCoapKeyValueFromOpt, hindex, if_true]
        exact Nat.zero_le _

end CoapOption

/-- The board splits an option inside its own bytes exactly if the search for `'='` ends
there; then what lies behind the option makes no difference. -/
theorem splits_inside_iff (m : DataModel) :
    (∀ opt : CoapOption m, opt.SplitsInside ↔ opt.SearchEnds) ∧
      ∀ opt opt' : CoapOption m, opt.bytes = opt'.bytes → opt.SearchEnds → opt'.SearchEnds →
        initializeCoapKeyValueFromOpt opt = initializeCoapKeyValueFromOpt opt' := by
  refine ⟨fun opt => CoapOption.splitsInside_iff, fun opt opt' hbytes h h' => ?_⟩
  have hsplits := CoapOption.splitsInside_iff.mpr h
  have hsplits' := CoapOption.splitsInside_iff.mpr h'
  have hkey := hsplits.key.trans (hbytes ▸ hsplits'.key.symm)
  have hvalue := hsplits.value.trans (hbytes ▸ hsplits'.value.symm)
  have hkeyLen := congrArg List.length hkey
  have hvalLen := congrArg List.length hvalue
  have hlengths : ∀ opt : CoapOption m,
      (initializeCoapKeyValueFromOpt opt).key.length = (initializeCoapKeyValueFromOpt opt).keyLen ∧
        (initializeCoapKeyValueFromOpt opt).value.length =
          (initializeCoapKeyValueFromOpt opt).valLen :=
    fun opt => ⟨length_peek _ _ _, length_peek _ _ _⟩
  rw [(hlengths opt).1, (hlengths opt').1] at hkeyLen
  rw [(hlengths opt).2, (hlengths opt').2] at hvalLen
  generalize initializeCoapKeyValueFromOpt opt = kv at *
  generalize initializeCoapKeyValueFromOpt opt' = kv' at *
  rcases kv with ⟨keyLen, valLen, key, value⟩
  rcases kv' with ⟨keyLen', valLen', key', value'⟩
  simp only at hkey hvalue hkeyLen hvalLen
  rw [hkey, hvalue, hkeyLen, hvalLen]

/-- A board with types of 32 bits. -/
def DataModel.ilp32 : DataModel := ⟨32, 32, le_rfl⟩

/-- `id=5`, at the end of a datagram and before an option. -/
theorem splits_inside_id_5 :
    ∃ opt opt' : CoapOption .ilp32, opt.bytes = ascii "id=5" ∧ opt.p ≠ opt'.p ∧
      opt.SplitsInside ∧
      initializeCoapKeyValueFromOpt opt = initializeCoapKeyValueFromOpt opt' := by
  refine ⟨⟨ascii "id=5", 4, by decide, by decide⟩, ⟨ascii "id=5" ++ [6] ++ ascii "type=1", 4,
    by decide, by decide⟩, rfl, by decide, ((splits_inside_iff _).1 _).mpr ?_,
    (splits_inside_iff _).2 _ _ rfl ?_ ?_⟩
  all_goals
    rw [CoapOption.SearchEnds, if_pos (by decide)]
    decide

/-- `type` before the option `id=0`: the key reaches into it and the value's length wraps. -/
theorem type_without_value_is_split_behind :
    ∃ opt : CoapOption .ilp32, opt.bytes = ascii "type" ∧
      (initializeCoapKeyValueFromOpt opt).keyLen = 7 ∧
      (initializeCoapKeyValueFromOpt opt).valLen = 2 ^ 32 - 4 ∧ ¬ opt.SplitsInside := by
  refine ⟨⟨ascii "type" ++ [4] ++ ascii "id=0", 4, by decide, by decide⟩, rfl, by decide,
    by decide, fun h => ?_⟩
  exact absurd h.keyLen_le (by decide)

/-! ## Linux -/

/-- The names that the Linux server matches options against. -/
inductive QueryName where
  | type
  | id
  | name

def QueryName.text : QueryName → List UInt8
  | .type => ascii "type"
  | .id => ascii "id"
  | .name => ascii "name"

/-- The callback is called exactly for the name, with the value; nothing is thrown. -/
def MatchesExactly (name option : List UInt8) : Prop :=
  matchCoapOptAndExecute name option =
    .ok (if keyOf option = name then some (valueOf option) else none)

/-- The function returns. -/
def Returns {β : Type} (x : Except Exception β) : Prop := ∃ r, x = .ok r

theorem QueryName.isText (n : QueryName) : IsText n.text := by
  cases n <;> decide

theorem QueryName.equals_notMem (n : QueryName) : EQUALS ∉ n.text := by
  cases n <;> decide

theorem keyValue_eq (option : List UInt8) : keyValue option = keyOf option := by
  rw [keyValue, find_eq]
  by_cases h : EQUALS ∈ option
  · simp only [if_pos h]
    conv_lhs => arg 2; rw [split_of_mem h]
    exact List.take_left
  · simp only [if_neg h]
    exact (keyOf_of_notMem h).symm

theorem matchCoapOptAndExecute_eq {name : List UInt8} (hname : IsText name)
    (option : List UInt8) :
    matchCoapOptAndExecute name option =
      if name = cstr (keyOf option) then (substr option (name.length + 1)).map some
      else .ok none := by
  simp only [matchCoapOptAndExecute, keyValue_eq, strEq_iff, cstr_of_isText hname]

variable {name option : List UInt8}

/-- A key that reads as the name has the name at its front; more of it is behind a NUL. -/
theorem name_prefix_of_cstr (h : name = cstr (keyOf option)) :
    keyOf option = name ∨ name ++ [0] <+: keyOf option := by
  obtain ⟨t, ht⟩ := cstr_prefix (keyOf option)
  cases t with
  | nil => exact Or.inl (by rw [ht, List.append_nil, ← h])
  | cons c t =>
    have hc : c = 0 := by
      by_contra hne
      have hcstr := congrArg cstr ht
      rw [cstr_append_of_text (cstr_isText _), cstr_cons_of_ne hne] at hcstr
      have := congrArg List.length hcstr
      rw [List.length_append, List.length_cons] at this
      omega
    refine Or.inr ⟨t, ?_⟩
    rw [ht, ← h, hc, List.append_assoc]
    rfl

/-- What an option does: the bare name makes `substr` throw, the name before `'='` or a
NUL makes the callback called with what follows, and any other option is passed over. -/
theorem match_cases (hname : IsText name) (hequals : EQUALS ∉ name) (option : List UInt8) :
    (option = name ∧ matchCoapOptAndExecute name option = .error .outOfRange) ∨
    (∃ c value, option = name ++ c :: value ∧ (c = EQUALS ∨ c = 0) ∧
      matchCoapOptAndExecute name option = .ok (some value)) ∨
    (option ≠ name ∧ (∀ c value, c = EQUALS ∨ c = 0 → option ≠ name ++ c :: value) ∧
      matchCoapOptAndExecute name option = .ok none) := by
  rw [matchCoapOptAndExecute_eq hname]
  have hbare : keyOf name = name := keyOf_of_notMem hequals
  by_cases hkey : name = cstr (keyOf option)
  · rw [if_pos hkey]
    have hfound : option = name ∨ ∃ c value, option = name ++ c :: value ∧ (c = EQUALS ∨ c = 0) := by
      rcases name_prefix_of_cstr hkey with heq | hnul
      · by_cases hmem : EQUALS ∈ option
        · exact Or.inr ⟨EQUALS, valueOf option, heq ▸ split_of_mem hmem, Or.inl rfl⟩
        · exact Or.inl ((keyOf_of_notMem hmem).symm.trans heq)
      · obtain ⟨t, ht⟩ := hnul.trans (List.takeWhile_prefix _ : keyOf option <+: option)
        exact Or.inr ⟨0, t, by rw [← ht, List.append_assoc]; rfl, Or.inr rfl⟩
    rcases hfound with rfl | ⟨c, value, rfl, hc⟩
    · rw [substr, if_pos (Nat.lt_succ_self _)]
      exact Or.inl ⟨rfl, rfl⟩
    · refine Or.inr (Or.inl ⟨c, value, rfl, hc, ?_⟩)
      have hlen : ¬ (name ++ c :: value).length < name.length + 1 := by
        rw [List.length_append, List.length_cons]
        omega
      rw [substr, if_neg hlen, ← List.drop_drop, List.drop_left]
      rfl
  · rw [if_neg hkey]
    refine Or.inr (Or.inr ⟨?_, ?_, rfl⟩)
    · rintro rfl
      exact hkey (by rw [hbare, cstr_of_isText hname])
    · rintro c value hc rfl
      apply hkey
      rw [keyOf_append_of_notMem hequals, cstr_append_of_text hname]
      rcases hc with rfl | rfl
      · exact (List.append_nil name).symm
      · have h0 : keyOf (0 :: value) = 0 :: keyOf value := rfl
        rw [h0, cstr_cons_zero, List.append_nil]

theorem matchesExactly_iff (hname : IsText name) (hequals : EQUALS ∉ name) :
    MatchesExactly name option ↔ option ≠ name ∧ ¬ name ++ [0] <+: option := by
  unfold MatchesExactly
  rcases match_cases hname hequals option with
    ⟨rfl, hmatch⟩ | ⟨c, value, rfl, hc, hmatch⟩ | ⟨hbare, hother, hmatch⟩
  · rw [hmatch]
    exact iff_of_false (fun h => by cases h) fun h => h.1 rfl
  · have hlen : name ++ c :: value ≠ name := fun h => by
      simpa using congrArg List.length h
    rw [hmatch, and_iff_right hlen, List.prefix_append_right_inj, keyOf_append_of_notMem hequals]
    rcases hc with rfl | rfl
    · have hkey : keyOf (EQUALS :: value) = [] := rfl
      have hmem : EQUALS ∈ name ++ EQUALS :: value := by simp
      have hsplit := split_of_mem hmem
      rw [keyOf_append_of_notMem hequals, hkey, List.append_nil] at hsplit
      have hvalue : value = valueOf (name ++ EQUALS :: value) := by
        simpa using List.append_cancel_left hsplit
      rw [hkey, List.append_nil, if_pos rfl, ← hvalue]
      exact iff_of_true rfl fun h => absurd (List.cons_prefix_cons.mp h).1 (by decide)
    · have h0 : keyOf (0 :: value) = 0 :: keyOf value := rfl
      rw [h0, if_neg (fun h => by simpa using congrArg List.length h)]
      refine iff_of_false (fun h => by cases h) fun h => h ?_
      exact List.cons_prefix_cons.mpr ⟨rfl, List.nil_prefix⟩
  · rw [hmatch, if_neg]
    · refine iff_of_true rfl ⟨hbare, ?_⟩
      rintro ⟨t, ht⟩
      exact hother 0 t (Or.inr rfl) (by rw [← ht, List.append_assoc]; rfl)
    · intro hkey
      by_cases hmem : EQUALS ∈ option
      · exact hother EQUALS (valueOf option) (Or.inl rfl) (hkey ▸ split_of_mem hmem)
      · exact hbare ((keyOf_of_notMem hmem).symm.trans hkey)

/-! ## The handlers -/

/-- An `id` in the option, behind `'='` or a NUL, is in the range of `int`. -/
def IdInRange (option : List UInt8) : Prop :=
  ∀ c value n stop, option = ascii "id" ++ c :: value → c = EQUALS ∨ c = 0 →
    scan value = some (n, stop) → -2 ^ 31 ≤ n ∧ n < 2 ^ 31

theorem parseId_returns_iff (value : List UInt8) :
    Returns (CoapProvider.parseId value) ↔
      ∀ n stop, scan value = some (n, stop) → -2 ^ 31 ≤ n ∧ n < 2 ^ 31 := by
  unfold Returns CoapProvider.parseId stoi
  cases hscan : scan value with
  | none => simp
  | some found =>
    rcases found with ⟨n, stop⟩
    simp only [Option.some.injEq, Prod.mk.injEq]
    split_ifs with hrange
    · refine iff_of_true ⟨_, rfl⟩ ?_
      rintro _ _ ⟨rfl, rfl⟩
      exact hrange
    · refine iff_of_false ?_ fun h => hrange (h n stop ⟨rfl, rfl⟩)
      rintro ⟨r, hr⟩
      cases hr

variable {m : DataModel}

/-- The macro returns unless the option is the bare name, if what it goes on to returns. -/
theorem returns_tryMatch_iff {β : Type} (n : QueryName) (q : List UInt8)
    (lambda : List UInt8 → Except Exception β) (next : Except Exception β) :
    Returns (tryMatchCoapOptAndExecute n.text q lambda next) ↔
      q ≠ n.text ∧
        (∀ c value, q = n.text ++ c :: value → c = EQUALS ∨ c = 0 → Returns (lambda value)) ∧
        ((∀ c value, c = EQUALS ∨ c = 0 → q ≠ n.text ++ c :: value) → Returns next) := by
  unfold tryMatchCoapOptAndExecute
  rcases match_cases n.isText n.equals_notMem q with
    ⟨hbare, hmatch⟩ | ⟨c, value, hq, hc, hmatch⟩ | ⟨hbare, hother, hmatch⟩
  · rw [hmatch]
    refine iff_of_false ?_ fun h => h.1 hbare
    rintro ⟨r, hr⟩
    cases hr
  · have hbare : q ≠ n.text := fun h => by
      simpa using congrArg List.length (hq.symm.trans h)
    rw [hmatch, and_iff_right hbare, and_iff_left fun hno => absurd hq (hno c value hc)]
    constructor
    · intro hreturns c' value' hq' _
      have heq := List.append_cancel_left (hq.symm.trans hq')
      rwa [← (List.cons.inj heq).2]
    · intro h
      exact h c value hq hc
  · rw [hmatch, and_iff_right hbare]
    exact ⟨fun h => ⟨fun c value hq hc => absurd hq (hother c value hc), fun _ => h⟩,
      fun h => h.2 hother⟩

theorem returns_ok {β : Type} (r : β) : Returns (.ok r : Except Exception β) := ⟨r, rfl⟩

theorem returns_map {β γ : Type} (f : β → γ) (x : Except Exception β) :
    Returns (x.map f) ↔ Returns x := by
  cases x with
  | error e => exact iff_of_false (by rintro ⟨r, hr⟩; cases hr) (by rintro ⟨r, hr⟩; cases hr)
  | ok r => exact iff_of_true ⟨_, rfl⟩ ⟨_, rfl⟩

theorem parseTypeRound_returns_iff (type : RsLambdaType) (q : List UInt8) :
    Returns (parseTypeRound m type q) ↔ q ≠ ascii "type" := by
  rw [parseTypeRound, show ascii "type" = QueryName.text .type from rfl, returns_tryMatch_iff]
  exact and_iff_left ⟨fun _ _ _ _ => returns_ok _, fun _ => returns_ok _⟩

/-- An option that begins with another letter is passed over by the match for `type`. -/
theorem ne_type_of_head {q : List UInt8} (h : q.head? ≠ some 116) :
    ∀ c value, c = EQUALS ∨ c = 0 → q ≠ QueryName.text .type ++ c :: value := by
  rintro c value - rfl
  exact h rfl

theorem callByIdRound_returns_iff (s : CoapProvider.ById) (q : List UInt8) :
    Returns (CoapProvider.callByIdRound m s q) ↔
      q ≠ ascii "type" ∧ q ≠ ascii "id" ∧ IdInRange q := by
  rw [CoapProvider.callByIdRound, show ascii "type" = QueryName.text .type from rfl,
    show ascii "id" = QueryName.text .id from rfl, returns_tryMatch_iff, returns_tryMatch_iff]
  refine and_congr_right fun _ => ?_
  rw [and_iff_right fun _ _ _ _ => returns_ok _]
  constructor
  · intro h
    refine ⟨fun hq => (h (ne_type_of_head (by rw [hq]; decide))).1 hq,
      fun c value n stop hq hc hscan => ?_⟩
    have hid := (h (ne_type_of_head (by rw [hq]; simp [ascii]))).2.1 c value hq hc
    rw [returns_map, parseId_returns_iff] at hid
    exact hid n stop hscan
  · rintro ⟨hbare, hrange⟩ -
    refine ⟨hbare, fun c value hq hc => ?_, fun _ => returns_ok _⟩
    rw [returns_map, parseId_returns_iff]
    exact fun n stop hscan => hrange c value n stop hq hc hscan

theorem callByNameRound_returns_iff (s : CoapProvider.ByName) (q : List UInt8) :
    Returns (CoapProvider.callByNameRound m s q) ↔ q ≠ ascii "type" ∧ q ≠ ascii "name" := by
  rw [CoapProvider.callByNameRound, show ascii "type" = QueryName.text .type from rfl,
    show ascii "name" = QueryName.text .name from rfl, returns_tryMatch_iff, returns_tryMatch_iff]
  refine and_congr_right fun _ => ?_
  rw [and_iff_right fun _ _ _ _ => returns_ok _]
  constructor
  · intro h hq
    exact (h (ne_type_of_head (by rw [hq]; decide))).1 hq
  · intro hbare _
    exact ⟨hbare, fun _ _ _ _ => returns_ok _, fun _ => returns_ok _⟩

/-- On Linux an option is matched exactly unless it is the bare name or has a NUL behind the
name, and the handlers return unless an option is a bare name that they look for, or an id
is too large for `int`. -/
theorem matching_is_exact_iff (m : DataModel) :
    (∀ (n : QueryName) (option : List UInt8),
      MatchesExactly n.text option ↔ option ≠ n.text ∧ ¬ n.text ++ [0] <+: option) ∧
    (∀ request, Returns (coapParseType m request) ↔ ∀ q ∈ request, q ≠ ascii "type") ∧
    (∀ request, Returns (CoapProvider.handleCallById m request) ↔
      ∀ q ∈ request, q ≠ ascii "type" ∧ q ≠ ascii "id" ∧ IdInRange q) ∧
    ∀ request, Returns (CoapProvider.handleCallByName m request) ↔
      ∀ q ∈ request, q ≠ ascii "type" ∧ q ≠ ascii "name" := by
  refine ⟨fun n option => matchesExactly_iff n.isText n.equals_notMem, fun request => ?_,
    fun request => ?_, fun request => ?_⟩
  · exact Loops.foldlM_ok_iff parseTypeRound_returns_iff 0 request
  · rw [CoapProvider.handleCallById, returns_map]
    exact Loops.foldlM_ok_iff callByIdRound_returns_iff {} request
  · rw [CoapProvider.handleCallByName, returns_map]
    exact Loops.foldlM_ok_iff callByNameRound_returns_iff {} request

/-- `id` without a value throws, and `id`, a NUL and `x=1` is taken for the id `x=1`. -/
theorem bare_id_throws :
    matchCoapOptAndExecute (ascii "id") (ascii "id") = .error .outOfRange ∧
      ¬ MatchesExactly (ascii "id") (ascii "id") ∧
      ¬ MatchesExactly (ascii "id") (ascii "id" ++ [0] ++ ascii "x=1") ∧
      ¬ Returns (CoapProvider.handleCallById .ilp32 [ascii "type=1", ascii "id"]) := by
  have hexact := fun option => @matchesExactly_iff (ascii "id") option (by decide) (by decide)
  refine ⟨rfl, fun h => ((hexact _).mp h).1 rfl, fun h => ((hexact _).mp h).2 ?_, ?_⟩
  · exact List.prefix_append _ _
  · rintro ⟨r, hr⟩
    cases hr

end RS
