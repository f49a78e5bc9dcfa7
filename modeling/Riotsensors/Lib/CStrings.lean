import Mathlib.Data.List.Basic
import Riotsensors.Lib.CMemory

/-! Functions of `<string.h>` on a string inside an object. A search that would leave the object
fails. -/

namespace CMem

/-- The first place from `i` on where `p` holds. `none`: there is none in the object. -/
def scan (p : UInt8 → Bool) (obj : List UInt8) (i : ℕ) : Option ℕ :=
  ((obj.drop i).findIdx? p).map (i + ·)

/-- `strlen(obj + i)` -/
def strlenAt (obj : List UInt8) (i : ℕ) : Option ℕ :=
  (scan (fun c => c = 0) obj i).map (· - i)

/-- `strchr(obj + i, c)`. `some none`: NULL. -/
def strchrAt (obj : List UInt8) (i : ℕ) (c : UInt8) : Option (Option ℕ) :=
  (scan (fun d => d = c ∨ d = 0) obj i).map fun j => if byteAt obj j = c then some j else none

/-- `memcpy(dst, obj + i, n)` -/
def memcpy (dst obj : List UInt8) (i n : ℕ) : Option (List UInt8) :=
  (fetch obj i n).bind fun bs => poke dst 0 bs

/-- `strtok` with one delimiter: the object, the place where the next call goes on, and the
token. `none` for it is NULL. -/
def strtok (delimiter : UInt8) (obj : List UInt8) (save : ℕ) :
    Option (List UInt8 × ℕ × Option ℕ) := do
  let start ← scan (fun c => c ≠ delimiter) obj save
  if byteAt obj start = 0 then some (obj, start, none)
  else
    let stop ← scan (fun c => c = delimiter ∨ c = 0) obj start
    if byteAt obj stop = 0 then some (obj, stop, some start)
    else some (obj.set stop 0, stop + 1, some start)

variable {p : UInt8 → Bool} {obj : List UInt8} {i j : ℕ}

theorem scan_spec (h : scan p obj i = some j) :
    i ≤ j ∧ j < obj.length ∧ p (byteAt obj j) = true := by
  obtain ⟨k, hk, rfl⟩ := Option.map_eq_some_iff.mp h
  obtain ⟨hlt, hp, -⟩ := List.findIdx?_eq_some_iff_getElem.mp hk
  rw [List.length_drop] at hlt
  refine ⟨Nat.le_add_right i k, by omega, ?_⟩
  rw [byteAt, List.getD_eq_getElem?_getD, List.getElem?_eq_getElem (by omega), Option.getD_some]
  rwa [List.getElem_drop] at hp

theorem byteAt_append_cons (before : List UInt8) (c : UInt8) (after : List UInt8) :
    byteAt (before ++ c :: after) before.length = c := by
  simp [byteAt]

/-- What is searched for comes after bytes that are not. -/
theorem scan_append {s : List UInt8} {c : UInt8} (hs : ∀ d ∈ s, p d = false) (hc : p c = true)
    (before after : List UInt8) :
    scan p (before ++ (s ++ c :: after)) before.length = some (before.length + s.length) := by
  have hfind : (s ++ c :: after).findIdx? p = some s.length := by
    rw [List.findIdx?_append, List.findIdx?_eq_none_iff.mpr hs, Option.none_or,
      List.findIdx?_cons, if_pos hc]
    simp
  rw [scan, List.drop_left, hfind, Option.map_some]

theorem strlenAt_append {s : List UInt8} (hs : IsText s) (before after : List UInt8) :
    strlenAt (before ++ (s ++ 0 :: after)) before.length = some s.length := by
  rw [strlenAt, scan_append (fun d hd => decide_eq_false (hs d hd)) (decide_eq_true rfl),
    Option.map_some, Nat.add_sub_cancel_left]

theorem strchrAt_of_notMem {s : List UInt8} (hs : IsText s) {c : UInt8} (hc : c ∉ s) (h0 : c ≠ 0)
    (before after : List UInt8) :
    strchrAt (before ++ (s ++ 0 :: after)) before.length c = some none := by
  have hmiss : ∀ d ∈ s, decide (d = c ∨ d = 0) = false := fun d hd => by
    have hne : d ≠ c := fun heq => hc (heq ▸ hd)
    simp [hne, hs d hd]
  have hbyte : byteAt (before ++ (s ++ 0 :: after)) (before.length + s.length) = 0 := by
    rw [← List.append_assoc, ← List.length_append]
    exact byteAt_append_cons _ _ _
  rw [strchrAt, scan_append hmiss (by simp), Option.map_some, hbyte, if_neg h0.symm]

theorem strchrAt_append_cons {s : List UInt8} (hs : IsText s) {c : UInt8} (hc : c ∉ s)
    (before after : List UInt8) :
    strchrAt (before ++ (s ++ c :: after)) before.length c =
      some (some (before.length + s.length)) := by
  have hmiss : ∀ d ∈ s, decide (d = c ∨ d = 0) = false := fun d hd => by
    have hne : d ≠ c := fun heq => hc (heq ▸ hd)
    simp [hne, hs d hd]
  have hbyte : byteAt (before ++ (s ++ c :: after)) (before.length + s.length) = c := by
    rw [← List.append_assoc, ← List.length_append]
    exact byteAt_append_cons _ _ _
  rw [strchrAt, scan_append hmiss (by simp), Option.map_some, hbyte, if_pos rfl]

/-- A token is not empty, so that every call gets further. -/
theorem strtok_advances {delimiter : UInt8} {obj' : List UInt8} {save save' start : ℕ}
    (h : strtok delimiter obj save = some (obj', save', some start)) :
    save < save' ∧ save' ≤ obj'.length ∧ obj'.length = obj.length := by
  unfold strtok at h
  obtain ⟨i, hi, h⟩ := Option.bind_eq_some_iff.mp h
  obtain ⟨hsave, -, hdelimiter⟩ := scan_spec hi
  split_ifs at h with h0
  · cases h
  obtain ⟨j, hj, h⟩ := Option.bind_eq_some_iff.mp h
  obtain ⟨hstart, hlt, hstop⟩ := scan_spec hj
  have hne : i ≠ j := by
    rintro rfl
    simp only [decide_eq_true_eq] at hdelimiter hstop
    exact hstop.elim hdelimiter h0
  split_ifs at h
  · obtain ⟨rfl, rfl, -⟩ : obj = obj' ∧ j = save' ∧ i = start := by simpa using h
    exact ⟨by omega, hlt.le, rfl⟩
  · obtain ⟨rfl, rfl, -⟩ : obj.set j 0 = obj' ∧ j + 1 = save' ∧ i = start := by simpa using h
    exact ⟨by omega, by rw [List.length_set]; omega, List.length_set⟩

/-! ## Copies -/

theorem fetch_append (before s after : List UInt8) :
    fetch (before ++ (s ++ after)) before.length s.length = some s := by
  rw [fetch, if_pos (by simp), List.drop_left, List.take_left]

/-- The bytes that are copied are the first ones of the block. -/
theorem memcpy_append {dst s : List UInt8} (h : s.length ≤ dst.length)
    (before after : List UInt8) :
    memcpy dst (before ++ (s ++ after)) before.length s.length = some (s ++ dst.drop s.length) := by
  rw [memcpy, fetch_append, Option.bind_some, poke, if_pos (by omega), List.take_zero,
    List.nil_append, Nat.zero_add]

/-- A copy that leaves either object fails. -/
theorem memcpy_eq_none {dst obj : List UInt8} {i n : ℕ} :
    memcpy dst obj i n = none ↔ obj.length < i + n ∨ dst.length < n := by
  by_cases hread : i + n ≤ obj.length
  · have hlen : ((obj.drop i).take n).length = n := by
      rw [List.length_take, List.length_drop]
      omega
    rw [memcpy, fetch, if_pos hread, Option.bind_some, poke_eq_none, hlen]
    omega
  · rw [memcpy, fetch, if_neg hread, Option.bind_none]
    simp only [true_iff]
    omega

theorem poke_append_cons (a : List UInt8) (b c : UInt8) (rest : List UInt8) :
    poke (a ++ b :: rest) a.length [c] = some (a ++ c :: rest) := by
  rw [poke, if_pos (by simp), List.take_left, List.length_singleton]
  simp

/-! ## Pieces -/

/-- What stands between the delimiters, without the empty pieces. -/
def pieces (delimiter : UInt8) (s : List UInt8) : List (List UInt8) :=
  (s.splitOn delimiter).filter (· ≠ [])

variable {delimiter : UInt8} {piece s : List UInt8}

@[simp] theorem pieces_nil : pieces delimiter [] = [] := rfl

theorem pieces_append_cons (h : delimiter ∉ piece) (s : List UInt8) :
    pieces delimiter (piece ++ delimiter :: s) =
      if piece = [] then pieces delimiter s else piece :: pieces delimiter s := by
  rw [pieces, List.splitOn_append_cons_self_of_not_mem h, List.filter_cons, pieces]
  by_cases hpiece : piece = [] <;> simp [hpiece]

theorem pieces_of_notMem (h : delimiter ∉ piece) (hpiece : piece ≠ []) :
    pieces delimiter piece = [piece] := by
  rw [pieces, List.splitOn_eq_singleton h]
  simp [hpiece]

theorem pieces_replicate_append (n : ℕ) (s : List UInt8) :
    pieces delimiter (List.replicate n delimiter ++ s) = pieces delimiter s := by
  induction n with
  | zero => rfl
  | succ n ih =>
    have hcons := pieces_append_cons (List.not_mem_nil (a := delimiter))
      (List.replicate n delimiter ++ s)
    rw [List.nil_append, if_pos rfl] at hcons
    rw [List.replicate_succ, List.cons_append, hcons, ih]

/-- Up to the end there are only delimiters, or they are followed by a piece, which ends the
string or is followed by a delimiter. -/
theorem pieces_cases (delimiter : UInt8) (s : List UInt8) :
    ∃ n, s = List.replicate n delimiter ∨ ∃ piece, piece ≠ [] ∧ delimiter ∉ piece ∧
      (s = List.replicate n delimiter ++ piece ∨
        ∃ rest, s = List.replicate n delimiter ++ (piece ++ delimiter :: rest)) := by
  have hskipped : s.takeWhile (· = delimiter) =
      List.replicate (s.takeWhile (· = delimiter)).length delimiter := by
    rw [List.eq_replicate_iff]
    exact ⟨rfl, fun c hc => by simpa using List.mem_takeWhile_imp hc⟩
  have hsplit := List.takeWhile_append_dropWhile (p := (· = delimiter)) (l := s)
  refine ⟨(s.takeWhile (· = delimiter)).length, ?_⟩
  rw [← hskipped]
  cases ht : s.dropWhile (· = delimiter) with
  | nil =>
    left
    rw [ht, List.append_nil] at hsplit
    exact hsplit.symm
  | cons c t =>
    right
    have hc : c ≠ delimiter := by
      have hhead := List.head?_dropWhile_not (· = delimiter) s
      rw [ht] at hhead
      simpa using hhead
    rw [ht] at hsplit
    refine ⟨(c :: t).takeWhile (· ≠ delimiter), by simp [hc], fun hmem => ?_, ?_⟩
    · simpa using List.mem_takeWhile_imp hmem
    · have hsplit' := List.takeWhile_append_dropWhile (p := (· ≠ delimiter)) (l := c :: t)
      cases hr : (c :: t).dropWhile (· ≠ delimiter) with
      | nil =>
        left
        rw [hr, List.append_nil] at hsplit'
        rw [hsplit', hsplit]
      | cons d rest =>
        right
        have hd : d = delimiter := by
          have hhead := List.head?_dropWhile_not (· ≠ delimiter) (c :: t)
          rw [hr] at hhead
          simpa using hhead
        refine ⟨rest, ?_⟩
        rw [hr, hd] at hsplit'
        rw [hsplit', hsplit]

/-- Induction over the pieces. -/
@[elab_as_elim]
theorem pieces_induction (delimiter : UInt8) {motive : List UInt8 → Prop}
    (none : ∀ n, motive (List.replicate n delimiter))
    (last : ∀ n piece, piece ≠ [] → delimiter ∉ piece →
      motive (List.replicate n delimiter ++ piece))
    (cons : ∀ n piece rest, piece ≠ [] → delimiter ∉ piece → motive rest →
      motive (List.replicate n delimiter ++ (piece ++ delimiter :: rest))) (s : List UInt8) :
    motive s := by
  induction hlen : s.length using Nat.strong_induction_on generalizing s with
  | _ m ih =>
    obtain ⟨n, rfl | ⟨piece, hpiece, hmem, rfl | ⟨rest, rfl⟩⟩⟩ := pieces_cases delimiter s
    · exact none n
    · exact last n piece hpiece hmem
    · refine cons n piece rest hpiece hmem (ih rest.length ?_ rest rfl)
      simp only [List.length_append, List.length_cons] at hlen
      omega

theorem pieces_replicate (n : ℕ) : pieces delimiter (List.replicate n delimiter) = [] := by
  have hnil : pieces delimiter (List.replicate n delimiter ++ []) = pieces delimiter [] :=
    pieces_replicate_append n []
  rwa [List.append_nil, pieces_nil] at hnil

/-- Every other byte is in a piece. -/
theorem mem_iff_mem_pieces {c : UInt8} (hc : c ≠ delimiter) (s : List UInt8) :
    c ∈ s ↔ ∃ piece ∈ pieces delimiter s, c ∈ piece := by
  induction s using pieces_induction delimiter with
  | none n =>
    rw [pieces_replicate]
    simp [hc]
  | last n piece hpiece hmem =>
    rw [pieces_replicate_append, pieces_of_notMem hmem hpiece]
    simp [hc]
  | cons n piece rest hpiece hmem ih =>
    rw [pieces_replicate_append, pieces_append_cons hmem, if_neg hpiece]
    simp [hc, ih]

/-! ## One token -/

section Tokens

variable (before after : List UInt8) (n : ℕ)

theorem scan_replicate {c : UInt8} (hc : c ≠ delimiter) (t : List UInt8) :
    scan (fun c => c ≠ delimiter) (before ++ (List.replicate n delimiter ++ c :: t))
      before.length = some (before.length + n) := by
  have hmiss : ∀ d ∈ List.replicate n delimiter, decide (d ≠ delimiter) = false := fun d hd => by
    simp [List.eq_of_mem_replicate hd]
  rw [scan_append hmiss (by simpa using hc), List.length_replicate]

/-- Behind the last piece there is no token. -/
theorem strtok_replicate (h0 : delimiter ≠ 0) :
    strtok delimiter (before ++ (List.replicate n delimiter ++ 0 :: after)) before.length =
      some (before ++ (List.replicate n delimiter ++ 0 :: after), before.length + n, none) := by
  have hbyte : byteAt (before ++ (List.replicate n delimiter ++ 0 :: after))
      (before.length + n) = 0 := by
    have hat := byteAt_append_cons (before ++ List.replicate n delimiter) 0 after
    rwa [List.append_assoc, List.length_append, List.length_replicate] at hat
  rw [strtok, scan_replicate before n h0.symm after, Option.bind_eq_bind, Option.bind_some,
    if_pos hbyte]

/-- The next token is the next piece. The byte behind it becomes a NUL, and the next call goes on
behind that, unless it is one already. -/
theorem strtok_piece (hpiece : piece ≠ []) (hmem : delimiter ∉ piece) (htext : IsText piece)
    {c : UInt8} (hc : c = delimiter ∨ c = 0) :
    strtok delimiter (before ++ (List.replicate n delimiter ++ (piece ++ c :: after)))
        before.length =
      some (before ++ (List.replicate n delimiter ++ (piece ++ 0 :: after)),
        before.length + n + piece.length + (if c = 0 then 0 else 1), some (before.length + n)) := by
  obtain ⟨b, t, rfl⟩ := List.exists_cons_of_ne_nil hpiece
  have hb : b ≠ delimiter := fun heq => hmem (heq ▸ List.mem_cons_self)
  have hstart := scan_replicate before n hb (t ++ c :: after)
  have hlength : (before ++ List.replicate n delimiter).length = before.length + n := by
    rw [List.length_append, List.length_replicate]
  have hbyte := byteAt_append_cons (before ++ List.replicate n delimiter) b (t ++ c :: after)
  have hmiss : ∀ d ∈ b :: t, decide (d = delimiter ∨ d = 0) = false := fun d hd => by
    have hne : d ≠ delimiter := fun heq => hmem (heq ▸ hd)
    simp [hne, htext d hd]
  have hstop := scan_append hmiss (by simpa using hc) (before ++ List.replicate n delimiter) after
  have hend := byteAt_append_cons (before ++ List.replicate n delimiter ++ b :: t) c after
  have hset : (before ++ List.replicate n delimiter ++ b :: t ++ c :: after).set
      (before ++ List.replicate n delimiter ++ b :: t).length 0 =
        before ++ List.replicate n delimiter ++ b :: t ++ 0 :: after := by
    rw [List.set_append_right _ _ le_rfl, Nat.sub_self, List.set_cons_zero]
  rw [hlength] at hbyte hstop
  rw [List.length_append, hlength] at hend hset
  simp only [List.append_assoc, List.cons_append] at hbyte hstop hend hset
  rw [strtok, List.cons_append, hstart, Option.bind_eq_bind, Option.bind_some, hbyte,
    if_neg (htext b List.mem_cons_self), hstop, Option.bind_some, hend]
  by_cases h0 : c = 0
  · rw [if_pos h0, if_pos h0, h0, Nat.add_zero, List.cons_append]
  · rw [if_neg h0, if_neg h0, hset, List.cons_append]

end Tokens

end CMem
