import Mathlib.Data.List.TakeWhile
import Mathlib.Tactic

/-! C objects and C strings as byte lists. A pointer is modelled by the memory
it points at, from the addressed byte on; past the last modelled byte the
memory reads as NUL. An object is a byte list of fixed length, and a store
that leaves the object is an error, not a longer object. -/

namespace CMem

/-- The string that a `char *` into `mem` denotes: the bytes before the first NUL. -/
def cstr (mem : List UInt8) : List UInt8 := mem.takeWhile (· ≠ 0)

/-- `strlen` -/
def strlen (mem : List UInt8) : ℕ := (cstr mem).length

/-- `strcmp(a, b) == 0` -/
def strEq (a b : List UInt8) : Bool := cstr a == cstr b

/-- The offset of the first `c`, the way `std::string::find` gives it. -/
def find (s : List UInt8) (c : UInt8) : Option ℕ :=
  if c ∈ s then some (s.takeWhile (· ≠ c)).length else none

/-- `strchr`, as an offset: the terminator is part of the string. -/
def strchr (mem : List UInt8) (c : UInt8) : Option ℕ := find (cstr mem ++ [0]) c

/-- A byte of an object or of the memory behind it. -/
def byteAt (mem : List UInt8) (i : ℕ) : UInt8 := mem.getD i 0

/-- `n` bytes from offset `off`, the way `memcpy` reads them. -/
def peek (mem : List UInt8) (off n : ℕ) : List UInt8 :=
  (List.range n).map fun i => byteAt mem (off + i)

/-- One byte of an object. `none`: it lies outside. -/
def load (obj : List UInt8) (i : ℕ) : Option UInt8 := obj[i]?

/-- `n` bytes of an object from offset `off`. `none`: some of them lie outside. -/
def fetch (obj : List UInt8) (off n : ℕ) : Option (List UInt8) :=
  if off + n ≤ obj.length then some ((obj.drop off).take n) else none

/-- The string in a field. `none`: there is no NUL in it, the string is read on behind. -/
def textIn (field : List UInt8) : Option (List UInt8) :=
  if 0 ∈ field then some (cstr field) else none

/-- Store `bs` at offset `off`. `none`: a byte would fall outside the object. -/
def poke (obj : List UInt8) (off : ℕ) (bs : List UInt8) : Option (List UInt8) :=
  if off + bs.length ≤ obj.length then
    some (obj.take off ++ bs ++ obj.drop (off + bs.length))
  else none

/-- `strcpy(obj + off, src)`: the string and its terminator. -/
def strcpy (obj : List UInt8) (off : ℕ) (src : List UInt8) : Option (List UInt8) :=
  poke obj off (cstr src ++ [0])

/-- `strncat(obj, src, n)`: at most `n` bytes of the string behind that in the object, and a
terminator. -/
def strncat (obj src : List UInt8) (n : ℕ) : Option (List UInt8) :=
  poke obj (strlen obj) ((cstr src).take n ++ [0])

/-- The `n`-byte field at `dst` after `strcpy(dst, src)` on top of `junk`. What the
string writes past the field belongs to whatever follows it. -/
def strcpyField (n : ℕ) (junk src : List UInt8) : List UInt8 :=
  (List.range n).map fun i =>
    if i < strlen src then byteAt src i else if i = strlen src then 0 else byteAt junk i

/-- A fresh object of `n` bytes whose contents are whatever the memory held. -/
def uninit (n : ℕ) (junk : List UInt8) : List UInt8 := peek junk 0 n

/-- A text is a byte list that a C string can hold. -/
def IsText (s : List UInt8) : Prop := ∀ b ∈ s, b ≠ 0

instance (s : List UInt8) : Decidable (IsText s) := List.decidableBAll (fun b => b ≠ 0) s

theorem cstr_isText (mem : List UInt8) : IsText (cstr mem) := by
  intro b hb
  simpa using List.mem_takeWhile_imp hb

theorem cstr_append_of_text {s : List UInt8} (h : IsText s) (tail : List UInt8) :
    cstr (s ++ tail) = s ++ cstr tail := by
  have hs : ∀ b ∈ s, (decide (b ≠ 0)) = true := fun b hb => by simpa using h b hb
  rw [cstr, List.takeWhile_append_of_pos hs, cstr]

@[simp] theorem cstr_cons_zero (tail : List UInt8) : cstr (0 :: tail) = [] := by simp [cstr]

theorem cstr_cons_of_ne {b : UInt8} (h : b ≠ 0) (tail : List UInt8) :
    cstr (b :: tail) = b :: cstr tail := by simp [cstr, h]

/-- A C string is fixed by its bytes and its terminator, whatever follows. -/
theorem cstr_eq_of_bytes {s mem : List UInt8} (hs : IsText s)
    (hb : ∀ i, i ≤ s.length → byteAt mem i = byteAt (s ++ [0]) i) : cstr mem = s := by
  induction s generalizing mem with
  | nil =>
    have h0 := hb 0 le_rfl
    cases mem with
    | nil => rfl
    | cons m ms =>
      simp only [byteAt, List.nil_append, List.getD_cons_zero] at h0
      rw [h0, cstr_cons_zero]
  | cons b s ih =>
    have h0 := hb 0 (Nat.zero_le _)
    have hne : b ≠ 0 := hs b (by simp)
    cases mem with
    | nil => exact absurd h0.symm (by simpa [byteAt] using hne)
    | cons m ms =>
      simp only [byteAt, List.cons_append, List.getD_cons_zero] at h0
      subst h0
      rw [cstr_cons_of_ne hne, ih (fun c hc => hs c (by simp [hc]))]
      intro i hi
      simpa [byteAt] using hb (i + 1) (by simpa using hi)

/-- The converse reading: bytes of a memory inside its C string. -/
theorem byteAt_of_lt_strlen {mem : List UInt8} {i : ℕ} (hi : i < strlen mem) :
    byteAt mem i = byteAt (cstr mem) i := by
  obtain ⟨t, ht⟩ : ∃ t, mem = cstr mem ++ t :=
    ⟨mem.dropWhile (· ≠ 0), (List.takeWhile_append_dropWhile).symm⟩
  unfold strlen at hi
  conv_lhs => rw [ht]
  simp only [byteAt, List.getD_eq_getElem?_getD, List.getElem?_append_left hi]

theorem byteAt_strlen (mem : List UInt8) : byteAt mem (strlen mem) = 0 := by
  induction mem with
  | nil => rfl
  | cons b mem ih =>
    by_cases h : b = 0
    · subst h; simp [strlen, byteAt]
    · simp only [strlen, cstr_cons_of_ne h, List.length_cons, byteAt, List.getD_cons_succ]
      exact ih

theorem byteAt_ne_zero_of_lt {mem : List UInt8} {i : ℕ} (hi : i < strlen mem) :
    byteAt mem i ≠ 0 := by
  rw [byteAt_of_lt_strlen hi, byteAt, List.getD_eq_getElem?_getD,
    List.getElem?_eq_getElem hi, Option.getD_some]
  exact cstr_isText mem _ (List.getElem_mem hi)

/-- A string with `n` leading nonzero bytes is at least `n` long. -/
theorem le_strlen {mem : List UInt8} {n : ℕ} (h : ∀ i < n, byteAt mem i ≠ 0) :
    n ≤ strlen mem := by
  by_contra hlt
  exact h _ (not_le.mp hlt) (byteAt_strlen mem)

theorem strEq_iff {a b : List UInt8} : strEq a b = true ↔ cstr a = cstr b := by
  simp [strEq]

@[simp] theorem length_uninit (n : ℕ) (junk : List UInt8) : (uninit n junk).length = n := by
  simp [uninit, peek]

@[simp] theorem length_peek (mem : List UInt8) (off n : ℕ) : (peek mem off n).length = n := by
  simp [peek]

theorem poke_isSome {obj : List UInt8} {off : ℕ} {bs : List UInt8} :
    (poke obj off bs).isSome ↔ off + bs.length ≤ obj.length := by
  unfold poke
  split_ifs with h <;> simp [h]

theorem poke_eq_none {obj : List UInt8} {off : ℕ} {bs : List UInt8} :
    poke obj off bs = none ↔ obj.length < off + bs.length := by
  unfold poke
  split_ifs with h <;> simp [not_le.symm, h]

/-- What a store leaves: the object's length, the stored bytes, all others. -/
theorem poke_spec {obj obj' bs : List UInt8} {off : ℕ} (h : poke obj off bs = some obj') :
    obj'.length = obj.length ∧
      ∀ i, byteAt obj' i =
        if off ≤ i ∧ i < off + bs.length then byteAt bs (i - off) else byteAt obj i := by
  unfold poke at h
  split_ifs at h with hle
  obtain rfl := Option.some.inj h
  refine ⟨by simp; omega, fun i => ?_⟩
  have hto : (obj.take off).length = off := by simp; omega
  by_cases h1 : i < off
  · rw [if_neg (by omega)]
    simp only [byteAt, List.getD_eq_getElem?_getD]
    rw [List.append_assoc, List.getElem?_append_left (by omega), List.getElem?_take_of_lt h1]
  · by_cases h2 : i < off + bs.length
    · rw [if_pos ⟨by omega, h2⟩]
      simp only [byteAt, List.getD_eq_getElem?_getD]
      rw [List.append_assoc, List.getElem?_append_right (by omega), hto,
        List.getElem?_append_left (by omega)]
    · rw [if_neg (by omega)]
      simp only [byteAt, List.getD_eq_getElem?_getD]
      rw [List.getElem?_append_right (by simp; omega), List.getElem?_drop]
      congr 2
      simp; omega

/-- What a store has written. -/
theorem byteAt_poke {obj obj' bs : List UInt8} {off i : ℕ} (h : poke obj off bs = some obj')
    (hi : i < bs.length) : byteAt obj' (off + i) = byteAt bs i := by
  rw [(poke_spec h).2, if_pos (by omega), Nat.add_sub_cancel_left]

/-- A store that stays inside its object succeeds. -/
theorem poke_exists (obj : List UInt8) (off : ℕ) (bs : List UInt8)
    (h : off + bs.length ≤ obj.length) :
    ∃ obj', poke obj off bs = some obj' ∧ obj'.length = obj.length ∧
      ∀ i, byteAt obj' i =
        if off ≤ i ∧ i < off + bs.length then byteAt bs (i - off) else byteAt obj i := by
  obtain ⟨obj', hobj⟩ := Option.isSome_iff_exists.mp (poke_isSome.mpr h)
  exact ⟨obj', hobj, poke_spec hobj⟩

theorem strcpy_exists (obj : List UInt8) (off : ℕ) (src : List UInt8)
    (h : off + strlen src < obj.length) :
    ∃ obj', strcpy obj off src = some obj' ∧ obj'.length = obj.length ∧
      ∀ i, byteAt obj' i =
        if off ≤ i ∧ i ≤ off + strlen src then byteAt (cstr src ++ [0]) (i - off)
        else byteAt obj i := by
  have hlen : (cstr src ++ [0]).length = strlen src + 1 := by simp [strlen]
  obtain ⟨obj', hobj, hl, hb⟩ := poke_exists obj off (cstr src ++ [0]) (by omega)
  refine ⟨obj', hobj, hl, fun i => ?_⟩
  rw [hb i, hlen]
  congr 1
  simp only [eq_iff_iff]
  omega

/-- A copied string leaves the object exactly when string and NUL do not fit. -/
theorem strcpy_eq_none {obj src : List UInt8} {off : ℕ} :
    strcpy obj off src = none ↔ obj.length ≤ off + strlen src := by
  have hlen : (cstr src ++ [0]).length = strlen src + 1 := by simp [strlen]
  rw [strcpy, poke_eq_none, hlen]
  omega

theorem byteAt_peek {mem : List UInt8} {off n i : ℕ} (hi : i < n) :
    byteAt (peek mem off n) i = byteAt mem (off + i) := by
  simp [byteAt, peek, List.getD_eq_getElem?_getD, List.getElem?_range hi]

/-- Two byte lists of one length are equal when their bytes are. -/
theorem ext_byteAt {a b : List UInt8} (hl : a.length = b.length)
    (h : ∀ i < a.length, byteAt a i = byteAt b i) : a = b := by
  apply List.ext_getElem hl
  intro i h1 h2
  have := h i h1
  simpa [byteAt, List.getD_eq_getElem?_getD, h1, h2] using this

theorem byteAt_append_left {a b : List UInt8} {i : ℕ} (hi : i < a.length) :
    byteAt (a ++ b) i = byteAt a i := by
  simp only [byteAt, List.getD_eq_getElem?_getD, List.getElem?_append_left hi]

theorem byteAt_append_right {a b : List UInt8} {i : ℕ} (hi : a.length ≤ i) :
    byteAt (a ++ b) i = byteAt b (i - a.length) := by
  simp only [byteAt, List.getD_eq_getElem?_getD, List.getElem?_append_right hi]

theorem byteAt_drop (mem : List UInt8) (off i : ℕ) :
    byteAt (mem.drop off) i = byteAt mem (off + i) := by
  simp only [byteAt, List.getD_eq_getElem?_getD, List.getElem?_drop]

theorem byteAt_of_length_le {mem : List UInt8} {i : ℕ} (hi : mem.length ≤ i) :
    byteAt mem i = 0 := by
  simp [byteAt, List.getD_eq_getElem?_getD, hi]

@[simp] theorem length_strcpyField (n : ℕ) (junk src : List UInt8) :
    (strcpyField n junk src).length = n := by
  simp [strcpyField]

theorem byteAt_strcpyField {n i : ℕ} (junk src : List UInt8) (hi : i < n) :
    byteAt (strcpyField n junk src) i =
      if i < strlen src then byteAt src i else if i = strlen src then 0 else byteAt junk i := by
  simp only [byteAt, strcpyField, List.getD_eq_getElem?_getD, List.getElem?_map,
    List.getElem?_range hi, Option.map_some, Option.getD_some]

/-- A string shorter than its field is read back from it, whatever follows. -/
theorem cstr_strcpyField_of_lt {n : ℕ} {junk src : List UInt8} (h : strlen src < n)
    (rest : List UInt8) : cstr (strcpyField n junk src ++ rest) = cstr src := by
  apply cstr_eq_of_bytes (cstr_isText src)
  intro i hi
  change i ≤ strlen src at hi
  rw [byteAt_append_left (by simp; omega), byteAt_strcpyField _ _ (by omega)]
  rcases hi.lt_or_eq with hlt | rfl
  · rw [if_pos hlt, byteAt_of_lt_strlen hlt, byteAt_append_left hlt]
  · have hl : (cstr src).length ≤ strlen src := le_rfl
    rw [if_neg (lt_irrefl _), if_pos rfl, byteAt_append_right hl]
    simp [byteAt, strlen]

/-- A string that fills its field leaves no terminator in it. -/
theorem strcpyField_of_eq {n : ℕ} {junk src : List UInt8} (h : strlen src = n) :
    strcpyField n junk src = cstr src := by
  have hl : (strcpyField n junk src).length = (cstr src).length := by
    rw [length_strcpyField, ← h, strlen]
  apply ext_byteAt hl
  intro i hi
  rw [length_strcpyField] at hi
  rw [byteAt_strcpyField _ _ hi, if_pos (by omega), byteAt_of_lt_strlen (by omega)]

/-! ## Reads that stay inside their object -/

theorem load_of_lt {obj : List UInt8} {i : ℕ} (h : i < obj.length) :
    load obj i = some (byteAt obj i) := by
  simp [load, byteAt, List.getD_eq_getElem?_getD, h]

theorem fetch_all (obj : List UInt8) : fetch obj 0 obj.length = some obj := by
  simp [fetch]

/-- What lies behind an object is not seen by a read inside it. -/
theorem peek_append_of_le {obj : List UInt8} {off n : ℕ} (h : off + n ≤ obj.length)
    (beyond : List UInt8) : peek (obj ++ beyond) off n = (obj.drop off).take n := by
  have hlen : ((obj.drop off).take n).length = n := by simp; omega
  apply ext_byteAt (by rw [length_peek, hlen])
  intro i hi
  rw [length_peek] at hi
  rw [byteAt_peek hi, byteAt_append_left (by omega)]
  simp [byteAt, List.getD_eq_getElem?_getD, List.getElem?_take_of_lt hi]

theorem cstr_append_of_mem {field : List UInt8} (h : 0 ∈ field) (rest : List UInt8) :
    cstr (field ++ rest) = cstr field := by
  induction field with
  | nil => cases h
  | cons b field ih =>
    by_cases hb : b = 0
    · subst hb
      rw [List.cons_append, cstr_cons_zero, cstr_cons_zero]
    · have hmem : 0 ∈ field := (List.mem_cons.mp h).resolve_left (Ne.symm hb)
      rw [List.cons_append, cstr_cons_of_ne hb, cstr_cons_of_ne hb, ih hmem]

/-- A string is fixed by its bytes: its field and its copy are the same for all memory that
holds it. -/
theorem strcpyField_congr {a b : List UInt8} (h : cstr a = cstr b) (n : ℕ) (junk : List UInt8) :
    strcpyField n junk a = strcpyField n junk b := by
  have hlen : strlen a = strlen b := congrArg List.length h
  apply ext_byteAt (by simp)
  intro i hi
  rw [length_strcpyField] at hi
  rw [byteAt_strcpyField _ _ hi, byteAt_strcpyField _ _ hi, hlen]
  split_ifs with hlt
  · rw [byteAt_of_lt_strlen hlt, byteAt_of_lt_strlen (hlen ▸ hlt), h]
  · rfl
  · rfl

/-- The field of a string that is shorter than it holds its terminator. -/
theorem zero_mem_strcpyField {n : ℕ} {junk src : List UInt8} (h : strlen src < n) :
    0 ∈ strcpyField n junk src := by
  have hbyte := byteAt_strcpyField junk src h
  rw [if_neg (lt_irrefl _), if_pos rfl] at hbyte
  rw [← hbyte, byteAt, List.getD_eq_getElem?_getD,
    List.getElem?_eq_getElem (by rw [length_strcpyField]; exact h)]
  exact List.getElem_mem _

theorem strlen_lt_of_mem {field : List UInt8} (h : 0 ∈ field) : strlen field < field.length := by
  by_contra hge
  have heq : cstr field = field := List.IsPrefix.eq_of_length_le (List.takeWhile_prefix _)
    (not_lt.mp hge)
  rw [← heq] at h
  exact cstr_isText field 0 h rfl

/-! ## Strings that are built in place -/

theorem cstr_of_isText {s : List UInt8} (h : IsText s) : cstr s = s := by
  have happend := cstr_append_of_text h []
  rwa [List.append_nil, show cstr [] = [] from rfl, List.append_nil] at happend

theorem take_strlen (mem : List UInt8) : mem.take (strlen mem) = cstr mem :=
  (List.prefix_iff_eq_take.mp (List.takeWhile_prefix _)).symm

theorem cstr_append_zero {s : List UInt8} (h : IsText s) (rest : List UInt8) :
    cstr (s ++ 0 :: rest) = s := by
  rw [cstr_append_of_text h, cstr_cons_zero, List.append_nil]

/-- A text that is stored with a terminator at the start of a longer object is its string. -/
theorem poke_text {obj s : List UInt8} (hs : IsText s) (h : s.length < obj.length) :
    ∃ obj', poke obj 0 (s ++ [0]) = some obj' ∧ obj'.length = obj.length ∧ cstr obj' = s := by
  have hfits : 0 + (s ++ [0]).length ≤ obj.length := by
    rw [List.length_append, List.length_singleton]
    omega
  refine ⟨_, if_pos hfits, ?_, ?_⟩
  · simp only [List.length_append, List.length_take, List.length_drop, List.length_singleton] at *
    omega
  · rw [List.take_zero, List.nil_append, List.append_assoc, List.singleton_append,
      cstr_append_zero hs]

/-- The string goes on with what fits, and its object is as long as before. -/
theorem strncat_spec {obj src : List UInt8} {n : ℕ}
    (h : strlen obj + ((cstr src).take n).length < obj.length) :
    ∃ obj', strncat obj src n = some obj' ∧ obj'.length = obj.length ∧
      cstr obj' = cstr obj ++ (cstr src).take n := by
  have hfits : strlen obj + ((cstr src).take n ++ [0]).length ≤ obj.length := by
    rw [List.length_append, List.length_singleton]
    omega
  refine ⟨_, if_pos hfits, ?_, ?_⟩
  · simp only [List.length_append, List.length_take, List.length_drop, List.length_singleton] at *
    omega
  · have htext : IsText (cstr obj ++ (cstr src).take n) := by
      intro b hb
      rcases List.mem_append.mp hb with hb | hb
      · exact cstr_isText obj b hb
      · exact cstr_isText src b (List.mem_of_mem_take hb)
    rw [take_strlen, ← List.append_assoc, List.append_assoc, List.singleton_append,
      cstr_append_zero htext]

theorem strncat_eq_none {obj src : List UInt8} {n : ℕ} :
    strncat obj src n = none ↔ obj.length ≤ strlen obj + ((cstr src).take n).length := by
  rw [strncat, poke_eq_none, List.length_append, List.length_singleton]
  omega

end CMem
