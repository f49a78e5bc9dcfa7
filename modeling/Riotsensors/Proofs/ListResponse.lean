import Riotsensors.Proofs.QueryOptions
import Riotsensors.Spec.CoapTexts

/-! The listing that the board's CoAP server prints into its two arrays. Each append goes through
`buf` and then to the end of `response`, so that the listing stays inside both exactly if it is
short enough as a whole and no entry is too long for `buf`. -/

namespace RS.Board

open CMem Loops Numerals Printf

variable {m : DataModel} {r : Registry FuncPtr} {type : RsLambdaType}

/-- The lambdas that are listed. -/
def listed (r : Registry FuncPtr) (type : RsLambdaType) : List (RsRegisteredLambda FuncPtr) :=
  ((List.range (getNumberOfRegisteredLambdas r).toNat).filterMap fun i =>
    getRegisteredLambdaById r (UInt8.ofNat i)).filter fun l => type = 0 ∨ l.type = type

/-- The length of an entry. -/
def entryLength (l : RsRegisteredLambda FuncPtr) : ℕ :=
  39 + 2 * (decimal l.id.toNat).length + l.text.length + (decimal l.type.toNat).length +
    (decimal l.cache.toNat).length

/-- The length of the whole listing. -/
def listLength (ls : List (RsRegisteredLambda FuncPtr)) : ℕ :=
  12 + (ls.map entryLength).sum + 11 + (decimal ls.length).length

def listEntry (l : RsRegisteredLambda FuncPtr) : List UInt8 :=
  printf listEntryFormat (listEntryArgs l)

def listHead : List UInt8 := ascii "\x7b\"lambdas\":\x7b"

def listTail (count : ℕ) : List UInt8 := printf listTailFormat [.unsigned count]

theorem listEntry_eq (l : RsRegisteredLambda FuncPtr) : listEntry l =
    ascii "\"" ++ (decimal l.id.toNat ++ (ascii "\": \x7b\"id\": " ++ (decimal l.id.toNat ++
      (ascii ",\"name\":\"" ++ (l.text ++ (ascii "\",\"type\":" ++ (decimal l.type.toNat ++
        (ascii ",\"cache\":" ++ (decimal l.cache.toNat ++ ascii "\x7d"))))))))) := rfl

theorem listTail_eq (count : ℕ) :
    listTail count = ascii "\x7d,\"count\":" ++ (decimal count ++ ascii "\x7d") := rfl

theorem length_listEntry (l : RsRegisteredLambda FuncPtr) :
    (listEntry l).length = entryLength l := by
  rw [listEntry_eq, entryLength]
  simp only [List.length_append, show (ascii "\"").length = 1 from rfl,
    show (ascii "\": \x7b\"id\": ").length = 10 from rfl,
    show (ascii ",\"name\":\"").length = 9 from rfl,
    show (ascii "\",\"type\":").length = 9 from rfl,
    show (ascii ",\"cache\":").length = 9 from rfl, show (ascii "\x7d").length = 1 from rfl]
  omega

theorem length_listTail (count : ℕ) : (listTail count).length = 11 + (decimal count).length := by
  rw [listTail_eq]
  simp only [List.length_append, show (ascii "\x7d,\"count\":").length = 10 from rfl,
    show (ascii "\x7d").length = 1 from rfl]
  omega

/-! ## One append -/

/-- The listing so far, and the room that is left for it. -/
structure ListState.Holds (s : ListState) (text : List UInt8) : Prop where
  rsp : cstr s.rsp = text
  size : s.rsp.length = MAX_RESPONSE_LEN
  buf : s.buf.length = BUF_SIZE
  room : text.length + s.len = MAX_RESPONSE_LEN
  short : text.length < MAX_RESPONSE_LEN
  sound : s.wrapped = false

variable {s : ListState} {text format : List UInt8} {args : List Arg}

/-- What fits both arrays is appended; anything else leaves one of them. -/
theorem ListState.Holds.append_cases (h : s.Holds text) (hformat : IsText format) (m : DataModel)
    (args : List Arg) :
    ((printf format args).length < BUF_SIZE ∧
      text.length + (printf format args).length < MAX_RESPONSE_LEN ∧
      ∃ s', s.append m format args = some s' ∧ s'.Holds (text ++ printf format args) ∧
        s'.count = s.count) ∨
    ¬ ((printf format args).length < BUF_SIZE ∧
      text.length + (printf format args).length < MAX_RESPONSE_LEN) ∧
      s.append m format args = none := by
  have hroom := h.room
  have hstrlen : strlen s.rsp = text.length := congrArg List.length h.rsp
  unfold ListState.append
  by_cases hbuf : (printf format args).length < BUF_SIZE
  · obtain ⟨buf, hprinted, hlength, hcstr⟩ := sprintf_spec hformat (h.buf ▸ hbuf)
    rw [hprinted, Option.bind_eq_bind, Option.bind_some]
    by_cases hrsp : text.length + (printf format args).length < MAX_RESPONSE_LEN
    · left
      have htake : (cstr buf).take s.len = printf format args := by
        rw [hcstr, List.take_of_length_le (by omega)]
      have hfits : strlen s.rsp + ((cstr buf).take s.len).length < s.rsp.length := by
        rw [htake, hstrlen, h.size]
        exact hrsp
      obtain ⟨rsp, hcat, hsize, htext⟩ := strncat_spec hfits
      rw [hcat]
      refine ⟨hbuf, hrsp, _, rfl, ?_, rfl⟩
      have hle : strlen buf ≤ s.len := by
        rw [strlen, hcstr]
        omega
      refine ⟨by rw [htext, htake, h.rsp], hsize.trans h.size, hlength.trans h.buf, ?_, ?_, ?_⟩
      · simp only [if_pos hle, List.length_append]
        rw [strlen, hcstr] at hle ⊢
        omega
      · rw [List.length_append]
        exact hrsp
      · simp [h.sound, hle]
    · right
      refine ⟨fun hfits => hrsp hfits.2, ?_⟩
      rw [strncat_eq_none.mpr, Option.bind_none]
      rw [hcstr, hstrlen, h.size, List.length_take]
      omega
  · right
    refine ⟨fun hfits => hbuf hfits.1, ?_⟩
    rw [sprintf_eq_none.mpr (by rw [h.buf]; omega)]
    rfl

/-! ## The loop -/

def entryRound (m : DataModel) (s : ListState) (l : RsRegisteredLambda FuncPtr) :
    Option ListState :=
  ({ s with count := s.count + 1 }).append m listEntryFormat (listEntryArgs l)

/-- Holes and lambdas of another type are passed over. -/
theorem forBelow_listRound (s : ListState) :
    forBelow (getNumberOfRegisteredLambdas r) (listRound m r type) 0 s =
      (listed r type).foldlM (entryRound m) s := by
  refine forBelow_eq_foldlM_filter (fun i s hget => ?_) (fun i s l hget hskip => ?_)
    (fun i s l hget hkeep => ?_) s
  · rw [listRound, hget]
  · rw [listRound, hget]
    exact if_pos (by simpa using hskip)
  · rw [listRound, hget]
    exact if_neg (by simpa [imp_iff_not_or] using hkeep)

theorem isText_listEntryFormat : IsText listEntryFormat := by decide

theorem isText_listTailFormat : IsText listTailFormat := by decide

/-- The entries are appended as long as they fit. -/
theorem ListState.Holds.foldlM_cases (h : s.Holds text) (m : DataModel)
    (ls : List (RsRegisteredLambda FuncPtr)) :
    ((∀ l ∈ ls, entryLength l < BUF_SIZE) ∧
      text.length + (ls.map entryLength).sum < MAX_RESPONSE_LEN ∧
      ∃ s', ls.foldlM (entryRound m) s = some s' ∧ s'.Holds (text ++ ls.flatMap listEntry) ∧
        s'.count = s.count + UInt8.ofNat ls.length) ∨
    ¬ ((∀ l ∈ ls, entryLength l < BUF_SIZE) ∧
      text.length + (ls.map entryLength).sum < MAX_RESPONSE_LEN) ∧
      ls.foldlM (entryRound m) s = none := by
  induction ls generalizing s text with
  | nil =>
    refine Or.inl ⟨by simp, by simpa using h.short, s, rfl, by simpa using h, ?_⟩
    simp
  | cons l ls ih =>
    have hcounted : ListState.Holds { s with count := s.count + 1 } text := ⟨h.rsp, h.size, h.buf,
      h.room, h.short, h.sound⟩
    rw [List.foldlM_cons, entryRound, List.map_cons, List.sum_cons, List.forall_mem_cons,
      ← length_listEntry l]
    rcases hcounted.append_cases isText_listEntryFormat m (listEntryArgs l) with
      ⟨hentry, hroom, s', hs', hholds, hcount⟩ | ⟨hno, hnone⟩
    · have hlength : (text ++ listEntry l).length + (ls.map entryLength).sum =
          text.length + ((listEntry l).length + (ls.map entryLength).sum) := by
        rw [List.length_append, Nat.add_assoc]
      rw [hs']
      rcases ih hholds with ⟨hall, hsum, s'', hs'', hholds', hcount'⟩ | ⟨hno, hnone⟩
      · refine Or.inl ⟨⟨hentry, hall⟩, by rw [← hlength]; exact hsum, s'', hs'', ?_, ?_⟩
        · rw [List.flatMap_cons, ← List.append_assoc]
          exact hholds'
        · rw [hcount', hcount, List.length_cons, UInt8.ofNat_add, UInt8.add_assoc,
            UInt8.add_comm (UInt8.ofNat ls.length)]
          rfl
      · refine Or.inr ⟨fun hfits => hno ⟨hfits.1.2, ?_⟩, hnone⟩
        rw [show text ++ printf listEntryFormat (listEntryArgs l) = text ++ listEntry l from rfl,
          hlength]
        exact hfits.2
    · rw [hnone]
      refine Or.inr ⟨fun hfits => hno ⟨hfits.1.1, ?_⟩, rfl⟩
      have hsum := hfits.2
      change text.length + (listEntry l).length < _
      omega

theorem length_listed_le : (listed r type).length ≤ 255 := by
  have hn := (getNumberOfRegisteredLambdas r).toNat_lt
  have hle := (List.length_filter_le (fun l => decide (type = 0 ∨ l.type = type)) _).trans
    (List.length_filterMap_le (fun i => getRegisteredLambdaById r (UInt8.ofNat i))
      (List.range (getNumberOfRegisteredLambdas r).toNat))
  rw [List.length_range] at hle
  exact hle.trans (by omega)

theorem toNat_count : (0 + UInt8.ofNat (listed r type).length).toNat = (listed r type).length := by
  have hle : (listed r type).length ≤ 255 := length_listed_le
  rw [UInt8.zero_add, UInt8.toNat_ofNat', Nat.mod_eq_of_lt (by omega)]

/-- The state before the loop. -/
theorem holds_listHead (junk : List UInt8) :
    ∃ rsp, strncat (List.replicate MAX_RESPONSE_LEN 0) (ascii "\x7b\"lambdas\":\x7b")
        MAX_RESPONSE_LEN = some rsp ∧
      ListState.Holds { rsp, buf := uninit BUF_SIZE junk, len := MAX_RESPONSE_LEN - 12 }
        listHead := by
  have hempty : cstr (List.replicate MAX_RESPONSE_LEN 0) = [] := rfl
  have hhead : (cstr (ascii "\x7b\"lambdas\":\x7b")).take MAX_RESPONSE_LEN = listHead := rfl
  have hfits : strlen (List.replicate MAX_RESPONSE_LEN 0) +
      ((cstr (ascii "\x7b\"lambdas\":\x7b")).take MAX_RESPONSE_LEN).length <
        (List.replicate MAX_RESPONSE_LEN (0 : UInt8)).length := by
    rw [hhead, strlen, hempty, List.length_replicate]
    decide
  obtain ⟨rsp, hrsp, hsize, hcstr⟩ := strncat_spec hfits
  rw [hempty, hhead, List.nil_append] at hcstr
  exact ⟨rsp, hrsp, hcstr, hsize.trans List.length_replicate, length_uninit _ _, rfl, by decide, rfl⟩

/-- The whole listing. -/
def listing (ls : List (RsRegisteredLambda FuncPtr)) : List UInt8 :=
  listHead ++ ls.flatMap listEntry ++ listTail ls.length

theorem length_listing (ls : List (RsRegisteredLambda FuncPtr)) :
    (listing ls).length = listLength ls := by
  have hentries : (ls.flatMap listEntry).length = (ls.map entryLength).sum := by
    rw [List.length_flatMap]
    simp only [length_listEntry]
  rw [listing, List.length_append, List.length_append, hentries, length_listTail, listLength,
    show listHead.length = 12 from rfl]
  omega

/-- The listing is printed if it fits, and else leaves one of the arrays. -/
theorem listText_cases (m : DataModel) (r : Registry FuncPtr) (type : RsLambdaType)
    (junk : List UInt8) :
    ((∀ l ∈ listed r type, entryLength l < BUF_SIZE) ∧
      listLength (listed r type) < MAX_RESPONSE_LEN ∧
      ∃ s, listText m r type junk = some s ∧ s.Holds (listing (listed r type))) ∨
    ¬ ((∀ l ∈ listed r type, entryLength l < BUF_SIZE) ∧
      listLength (listed r type) < MAX_RESPONSE_LEN) ∧ listText m r type junk = none := by
  obtain ⟨rsp, hrsp, hhead⟩ := holds_listHead junk
  rw [listText, hrsp, Option.bind_eq_bind, Option.bind_some, forBelow_listRound]
  have hentries : (listHead ++ (listed r type).flatMap listEntry).length +
      (listTail (listed r type).length).length = listLength (listed r type) := by
    rw [← List.length_append]
    exact length_listing _
  have hsumLe : listHead.length + ((listed r type).map entryLength).sum ≤
      listLength (listed r type) := by
    rw [listLength, show listHead.length = 12 from rfl]
    omega
  have htailBuf : (listTail (listed r type).length).length < BUF_SIZE := by
    have hle : (listed r type).length ≤ 255 := length_listed_le
    have hdigits := length_decimal_le (k := 3) (by norm_num) (n := (listed r type).length) (by omega)
    rw [length_listTail]
    exact Nat.lt_of_le_of_lt (Nat.add_le_add_left hdigits 11) (by decide)
  rcases hhead.foldlM_cases m (listed r type) with ⟨hall, -, s, hs, hholds, hcount⟩ | ⟨hno, hnone⟩
  · have htail : printf listTailFormat [.unsigned s.count.toNat] =
        listTail (listed r type).length := by
      rw [hcount]
      change printf listTailFormat [.unsigned (0 + UInt8.ofNat _).toNat] = _
      rw [toNat_count]
      rfl
    rw [hs, Option.bind_eq_bind, Option.bind_some]
    rcases hholds.append_cases isText_listTailFormat m [.unsigned s.count.toNat] with
      ⟨-, hroom, s', hs', hholds', -⟩ | ⟨hno, hnone⟩
    · rw [htail, hentries] at hroom
      rw [htail] at hholds'
      exact Or.inl ⟨hall, hroom, s', hs', hholds'⟩
    · rw [htail, hentries] at hno
      exact Or.inr ⟨fun hfits => hno ⟨htailBuf, hfits.2⟩, hnone⟩
  · rw [hnone]
    exact Or.inr ⟨fun hfits => hno ⟨hfits.1, Nat.lt_of_le_of_lt hsumLe hfits.2⟩, rfl⟩

/-- Nothing is written outside the two arrays, and `len` does not go below zero. -/
def ListInside (m : DataModel) (r : Registry FuncPtr) (type : RsLambdaType) (junk : List UInt8) :
    Prop :=
  ∃ s, listText m r type junk = some s ∧ s.wrapped = false

theorem inside_of_short (hentries : ∀ l ∈ listed r type, entryLength l < BUF_SIZE)
    (hlength : listLength (listed r type) < MAX_RESPONSE_LEN) {junk : List UInt8} :
    ListInside m r type junk := by
  rcases listText_cases m r type junk with ⟨-, -, s, hs, hholds⟩ | ⟨hno, -⟩
  · exact ⟨s, hs, hholds.sound⟩
  · exact absurd ⟨hentries, hlength⟩ hno

/-- The listing stays inside its arrays exactly if it has at most 499 characters and each of its
entries at most 199. -/
theorem list_inside_iff (m : DataModel) (r : Registry FuncPtr) (type : RsLambdaType)
    (junk : List UInt8) :
    ListInside m r type junk ↔
      (∀ l ∈ listed r type, entryLength l < BUF_SIZE) ∧
        listLength (listed r type) < MAX_RESPONSE_LEN := by
  constructor
  · rintro ⟨s, hs, -⟩
    rcases listText_cases m r type junk with ⟨hall, hroom, -⟩ | ⟨-, hnone⟩
    · exact ⟨hall, hroom⟩
    · rw [hnone] at hs
      cases hs
  · rintro ⟨hentries, hlength⟩
    exact inside_of_short hentries hlength

/-- The registrations of `"a"` to `"k"`. -/
def registersEleven : List (Env × BoardOp) :=
  (List.range 11).map fun i => ({}, .register .int [UInt8.ofNat (97 + i)] 1 RS_CACHE_NO_CACHE)

/-- Eleven lambdas with names of one character are too many. -/
theorem eleven_lambdas_overflow :
    ∃ b, Board.after true registersEleven = some b ∧ ¬ ListInside .ilp32 b.registry 0 [] := by
  have hlong : (Board.after true registersEleven).map
      (fun b => listLength (listed b.registry 0)) = some 511 := by
    decide +kernel
  obtain ⟨b, hb, hlength⟩ := Option.map_eq_some_iff.mp hlong
  refine ⟨b, hb, ?_⟩
  rintro ⟨s, hs, -⟩
  rcases listText_cases .ilp32 b.registry 0 [] with ⟨-, hroom, -⟩ | ⟨-, hnone⟩
  · rw [hlength] at hroom
    exact absurd hroom (by decide)
  · rw [hnone] at hs
    cases hs

end RS.Board
