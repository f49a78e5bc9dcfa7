import Mathlib.Data.List.Basic
import Riotsensors.Lib.Numerals

/-! The tokens of a JSON text, read byte by byte. Arrays, fractions and exponents are left out:
a text with one is refused. -/

namespace JsonText

open Numerals

abbrev Bytes := List UInt8

inductive Token where
  | opening
  | closing
  | colon
  | comma
  | string (s : Bytes)
  | int (i : ℤ)
  | bool (b : Bool)
  | null
  deriving DecidableEq

/-! ## Strings -/

/-- What is owed of a UTF-8 character: a number of bytes, and the range of the next one. -/
structure Utf8Rest where
  owed : ℕ
  low : UInt8 := 0x80
  high : UInt8 := 0xBF

def Utf8Rest.step (s : Utf8Rest) (c : UInt8) : Option Utf8Rest :=
  if s.owed ≠ 0 then
    if s.low ≤ c ∧ c ≤ s.high then some { owed := s.owed - 1 } else none
  else if c ≤ 0x7F then some { owed := 0 }
  else if 0xC2 ≤ c ∧ c ≤ 0xDF then some { owed := 1 }
  else if c = 0xE0 then some { owed := 2, low := 0xA0 }
  else if c = 0xED then some { owed := 2, high := 0x9F }
  else if 0xE1 ≤ c ∧ c ≤ 0xEF then some { owed := 2 }
  else if c = 0xF0 then some { owed := 3, low := 0x90 }
  else if 0xF1 ≤ c ∧ c ≤ 0xF3 then some { owed := 3 }
  else if c = 0xF4 then some { owed := 3, high := 0x8F }
  else none

/-- The bytes are the UTF-8 of some text. -/
def utf8 (s : Bytes) : Bool :=
  match s.foldlM Utf8Rest.step { owed := 0 } with
  | some rest => rest.owed = 0
  | none => false

def hexDigit (c : UInt8) : Option ℕ :=
  if isdigit c then some (c.toNat - 48)
  else if 65 ≤ c ∧ c ≤ 70 then some (c.toNat - 55)
  else if 97 ≤ c ∧ c ≤ 102 then some (c.toNat - 87)
  else none

def hex4 (a b c d : UInt8) : Option ℕ := do
  let a ← hexDigit a
  let b ← hexDigit b
  let c ← hexDigit c
  let d ← hexDigit d
  return ((a * 16 + b) * 16 + c) * 16 + d

/-- The character of a code unit, or of two that are surrogates of one. -/
def charOf (u : ℕ) : Option Char := if h : u.isValidChar then some (Char.ofNatAux u h) else none

def charOfPair (u v : ℕ) : Option Char :=
  if 0xD800 ≤ u ∧ u < 0xDC00 ∧ 0xDC00 ≤ v ∧ v < 0xE000 then
    charOf (0x10000 + (u - 0xD800) * 0x400 + (v - 0xDC00))
  else none

/-- `"\"\\/bfnrt"` and what they stand for. -/
def escapes : List (UInt8 × UInt8) :=
  [(34, 34), (92, 92), (47, 47), (98, 8), (102, 12), (110, 10), (114, 13), (116, 9)]

/-- The bytes between the quotes of a string, decoded. -/
def unescape : Bytes → Option Bytes
  | [] => some []
  | 92 :: 117 :: a :: b :: c :: d :: rest =>
    match (hex4 a b c d).bind charOf with
    | some char => (unescape rest).map (String.utf8EncodeChar char ++ ·)
    | none =>
      match rest with
      | 92 :: 117 :: a' :: b' :: c' :: d' :: rest' =>
        match (hex4 a b c d).bind fun u => (hex4 a' b' c' d').bind (charOfPair u) with
        | some char => (unescape rest').map (String.utf8EncodeChar char ++ ·)
        | none => none
      | _ => none
  | [92] => none
  | 92 :: c :: rest =>
    match escapes.lookup c with
    | some byte => (unescape rest).map (byte :: ·)
    | none => none
  | c :: rest => (unescape rest).map (c :: ·)

/-- A string with the given bytes between its quotes. -/
def decode (raw : Bytes) : Option Bytes := if utf8 raw then unescape raw else none

/-! ## Numbers and literals -/

/-- No fraction, no exponent, no plus and no leading zero. -/
def number (w : Bytes) : Option ℤ :=
  let digits := if w.head? = some 45 then w.tail else w
  if w.head? = some 43 ∨ digits.head? = some 48 ∧ digits.length ≠ 1 then none else decimalOf w

/-- `"true"`, `"false"`, `"null"` or a number. -/
def word (w : Bytes) : Option Token :=
  if w = [116, 114, 117, 101] then some (.bool true)
  else if w = [102, 97, 108, 115, 101] then some (.bool false)
  else if w = [110, 117, 108, 108] then some .null
  else (number w).map .int

/-- What literals and numbers are made of. -/
def wordByte (c : UInt8) : Bool := isdigit c || c == 45 || (97 ≤ c && c ≤ 122)

/-! ## The scanner -/

inductive Mode where
  | between
  /-- In a string: the bytes since its quote, and whether the last one was a backslash that
  escapes the next. -/
  | string (raw : Bytes) (escaped : Bool)
  | word (w : Bytes)
  deriving DecidableEq

def start (c : UInt8) : Option (List Token × Mode) :=
  if c = 32 ∨ c = 9 ∨ c = 10 ∨ c = 13 then some ([], .between)
  else if c = 123 then some ([.opening], .between)
  else if c = 125 then some ([.closing], .between)
  else if c = 58 then some ([.colon], .between)
  else if c = 44 then some ([.comma], .between)
  else if c = 34 then some ([], .string [] false)
  else if wordByte c then some ([], .word [c])
  else none

def step : Mode → UInt8 → Option (List Token × Mode)
  | .between, c => start c
  | .word w, c =>
    if wordByte c then some ([], .word (w ++ [c]))
    else (word w).bind fun t => (start c).map fun next => (t :: next.1, next.2)
  | .string raw escaped, c =>
    if c < 32 then none
    else if escaped then some ([], .string (raw ++ [c]) false)
    else if c = 92 then some ([], .string (raw ++ [c]) true)
    else if c = 34 then (decode raw).map fun s => ([.string s], .between)
    else some ([], .string (raw ++ [c]) false)

/-- The tokens that the bytes complete, and what they leave open. -/
def scan : Mode → Bytes → Option (List Token × Mode)
  | mode, [] => some ([], mode)
  | mode, c :: cs => (step mode c).bind fun next =>
    (scan next.2 cs).map fun last => (next.1 ++ last.1, last.2)

def finish : Mode → Option (List Token)
  | .between => some []
  | .word w => (word w).map fun t => [t]
  | .string _ _ => none

/-- The tokens of a text. `none`: it is no sequence of tokens. -/
def lex (text : Bytes) : Option (List Token) :=
  (scan .between text).bind fun last => (finish last.2).map (last.1 ++ ·)

variable {mode mode' : Mode} {ts us : List Token} {cs ds raw s : Bytes}

theorem scan_append (mode : Mode) (cs ds : Bytes) :
    scan mode (cs ++ ds) = (scan mode cs).bind fun next =>
      (scan next.2 ds).map fun last => (next.1 ++ last.1, last.2) := by
  induction cs generalizing mode with
  | nil => simp [scan]
  | cons c cs ih =>
    rw [List.cons_append, scan, scan]
    cases step mode c with
    | none => rfl
    | some next =>
      rw [Option.bind_some, Option.bind_some, ih]
      cases scan next.2 cs with
      | none => rfl
      | some next' =>
        simp only [Option.bind_some, Option.map_some]
        cases scan next'.2 ds <;> simp

/-- Two parts of a text, one after the other. -/
theorem scan_append_of (h : scan mode cs = some (ts, mode')) (ds : Bytes) :
    scan mode (cs ++ ds) = (scan mode' ds).map fun last => (ts ++ last.1, last.2) := by
  rw [scan_append, h, Option.bind_some]

/-! ## Inside a string -/

/-- What may stand in a string as it is. -/
def Plain (s : Bytes) : Prop := (∀ c ∈ s, 32 ≤ c ∧ c ≠ 34 ∧ c ≠ 92) ∧ utf8 s = true

instance (s : Bytes) : Decidable (Plain s) :=
  @instDecidableAnd _ _ (List.decidableBAll _ s) inferInstance

/-- Without a backslash nothing is decoded; with one the bytes get fewer. -/
theorem unescape_cases (h : unescape raw = some s) :
    (92 ∉ raw ∧ s = raw) ∨ s.length < raw.length := by
  fun_induction unescape raw generalizing s with
  | case1 => exact Or.inl ⟨List.not_mem_nil, (Option.some.inj h).symm⟩
  | case2 a b c d rest char hchar ih =>
    obtain ⟨s', hs', rfl⟩ := Option.map_eq_some_iff.mp h
    have hsize := Char.utf8Size_le_four char
    have hle : s'.length ≤ rest.length := by
      rcases ih hs' with ⟨-, rfl⟩ | hlt
      · exact le_rfl
      · exact hlt.le
    right
    simp only [List.length_append, String.length_utf8EncodeChar, List.length_cons]
    omega
  | case3 a b c d hnone a' b' c' d' rest' char hchar ih =>
    obtain ⟨s', hs', rfl⟩ := Option.map_eq_some_iff.mp h
    have hsize := Char.utf8Size_le_four char
    have hle : s'.length ≤ rest'.length := by
      rcases ih hs' with ⟨-, rfl⟩ | hlt
      · exact le_rfl
      · exact hlt.le
    right
    simp only [List.length_append, String.length_utf8EncodeChar, List.length_cons]
    omega
  | case7 c rest hshort byte hbyte ih =>
    obtain ⟨s', hs', rfl⟩ := Option.map_eq_some_iff.mp h
    right
    rcases ih hs' with ⟨-, rfl⟩ | hlt
    · simp
    · simp only [List.length_cons]
      omega
  | case9 c rest hu hlast hother ih =>
    obtain ⟨s', hs', rfl⟩ := Option.map_eq_some_iff.mp h
    have hc : c ≠ 92 := by
      intro hc
      cases rest with
      | nil => exact hlast hc rfl
      | cons d rest => exact hother d rest hc rfl
    rcases ih hs' with ⟨hmem, rfl⟩ | hlt
    · left
      simp [hmem, Ne.symm hc]
    · right
      simpa using hlt
  | _ => cases h

theorem unescape_of_not_mem (h : 92 ∉ raw) : unescape raw = some raw := by
  induction raw with
  | nil => rfl
  | cons c raw ih =>
    have hc : c ≠ 92 := fun hc => h (hc ▸ List.mem_cons_self)
    have hraw : 92 ∉ raw := fun hraw => h (List.mem_cons_of_mem c hraw)
    rw [unescape, ih hraw]
    · rfl
    all_goals
      intros
      simp_all

theorem getLast?_cons_cases {c b : UInt8} {rest : Bytes} (h : (c :: rest).getLast? = some b) :
    c = b ∨ rest.getLast? = some b := by
  cases rest with
  | nil => exact Or.inl (by simpa using h)
  | cons d rest => exact Or.inr (by simpa using h)

theorem hex4_bind_of_last {a b c d : UInt8} (h : hexDigit d = none) {β : Type} (f : ℕ → Option β) :
    (hex4 a b c d).bind f = none := by
  unfold hex4
  rw [h]
  cases hexDigit a <;> cases hexDigit b <;> cases hexDigit c <;> rfl

/-- A byte that belongs to no escape stays the last one. -/
theorem getLast?_unescape {b : UInt8} (hhex : hexDigit b = none) (hescape : escapes.lookup b = none)
    (h : unescape raw = some s) (hb : raw.getLast? = some b) : s.getLast? = some b := by
  fun_induction unescape raw generalizing s with
  | case1 => cases hb
  | case2 a b' c d rest char hchar ih =>
    obtain ⟨s', hs', rfl⟩ := Option.map_eq_some_iff.mp h
    simp only [List.getLast?_cons_cons] at hb
    rcases getLast?_cons_cases hb with rfl | hrest
    · rw [hex4_bind_of_last hhex] at hchar
      cases hchar
    · rw [List.getLast?_append, ih hs' hrest, Option.some_or]
  | case3 a b' c d hnone a' b'' c' d' rest' char hchar ih =>
    obtain ⟨s', hs', rfl⟩ := Option.map_eq_some_iff.mp h
    simp only [List.getLast?_cons_cons] at hb
    rcases getLast?_cons_cases hb with rfl | hrest
    · obtain ⟨u, -, hu⟩ := Option.bind_eq_some_iff.mp hchar
      rw [hex4_bind_of_last hhex] at hu
      cases hu
    · rw [List.getLast?_append, ih hs' hrest, Option.some_or]
  | case7 c rest hshort byte hbyte ih =>
    obtain ⟨s', hs', rfl⟩ := Option.map_eq_some_iff.mp h
    simp only [List.getLast?_cons_cons] at hb
    rcases getLast?_cons_cases hb with rfl | hrest
    · rw [hescape] at hbyte
      cases hbyte
    · rw [← List.singleton_append, List.getLast?_append, ih hs' hrest, Option.some_or]
  | case9 c rest hu hlast hother ih =>
    obtain ⟨s', hs', rfl⟩ := Option.map_eq_some_iff.mp h
    cases rest with
    | nil =>
      obtain rfl := Option.some.inj hs'
      exact hb
    | cons d rest =>
      rw [← List.singleton_append, List.getLast?_append, ih hs' (by simpa using hb), Option.some_or]
  | _ => cases h

theorem step_string_cases {escaped : Bool} {c : UInt8} {next : List Token × Mode}
    (h : step (.string raw escaped) c = some next) :
    (∃ escaped', next = ([], .string (raw ++ [c]) escaped') ∧ (escaped' = true → c = 92)) ∨
    c = 34 ∧ escaped = false ∧ ∃ s, decode raw = some s ∧ next = ([.string s], .between) := by
  simp only [step] at h
  split_ifs at h with hlow hescaped hback hquote
  · exact Or.inl ⟨false, (Option.some.inj h).symm, fun he => by cases he⟩
  · exact Or.inl ⟨true, (Option.some.inj h).symm, fun _ => hback⟩
  · obtain ⟨s, hs, rfl⟩ := Option.map_eq_some_iff.mp h
    exact Or.inr ⟨hquote, by simpa using hescaped, s, hs, rfl⟩
  · exact Or.inl ⟨false, (Option.some.inj h).symm, fun he => by cases he⟩

/-- A string goes on to the end of the bytes, or the first quote that is not escaped ends it. -/
theorem scan_string_cases {escaped : Bool}
    (h : scan (.string raw escaped) cs = some (ts, mode')) :
    (∃ escaped', ts = [] ∧ mode' = .string (raw ++ cs) escaped' ∧
      (escaped' = true → (cs = [] ∧ escaped = true) ∨ cs.getLast? = some 92)) ∨
    ∃ before after s us, cs = before ++ 34 :: after ∧
      scan (.string raw escaped) before = some ([], .string (raw ++ before) false) ∧
      decode (raw ++ before) = some s ∧ scan .between after = some (us, mode') ∧
      ts = .string s :: us := by
  induction cs generalizing raw escaped ts with
  | nil =>
    obtain ⟨rfl, rfl⟩ := Prod.mk.inj (Option.some.inj h)
    exact Or.inl ⟨escaped, rfl, by rw [List.append_nil], fun he => Or.inl ⟨rfl, he⟩⟩
  | cons c cs ih =>
    obtain ⟨next, hstep, hrest⟩ := Option.bind_eq_some_iff.mp h
    obtain ⟨⟨us, mode''⟩, hscan, heq⟩ := Option.map_eq_some_iff.mp hrest
    obtain ⟨rfl, rfl⟩ := Prod.mk.inj heq
    rcases step_string_cases hstep with ⟨escaped', rfl, hback⟩ | ⟨rfl, rfl, s, hs, rfl⟩
    · rcases ih hscan with ⟨escaped'', hus, hmode, hlast⟩ |
        ⟨before, after, s, us', rfl, hbefore, hs, hafter, hus⟩
      · refine Or.inl ⟨escaped'', hus, by rw [hmode, List.append_assoc]; rfl, fun he => Or.inr ?_⟩
        rcases hlast he with ⟨rfl, he'⟩ | hlast
        · rw [hback he']
          rfl
        · rw [← List.singleton_append, List.getLast?_append, hlast, Option.some_or]
      · rw [List.append_assoc, List.singleton_append] at hbefore hs
        refine Or.inr ⟨c :: before, after, s, us', rfl, ?_, hs, hafter, hus⟩
        rw [scan, hstep, Option.bind_some, hbefore]
        rfl
    · rw [← List.append_nil raw] at hs
      exact Or.inr ⟨[], cs, s, us, rfl, by rw [scan, List.append_nil], hs, hscan, rfl⟩

/-- Bytes that leave a string open are no control characters, and a quote or a backslash among
them follows a backslash or is one. -/
theorem plain_of_scan_string {escaped : Bool}
    (h : scan (.string raw false) cs = some ([], .string s escaped)) (hback : 92 ∉ cs) :
    ∀ c ∈ cs, 32 ≤ c ∧ c ≠ 34 ∧ c ≠ 92 := by
  induction cs generalizing raw with
  | nil => exact fun c hc => absurd hc List.not_mem_nil
  | cons c cs ih =>
    obtain ⟨next, hstep, hrest⟩ := Option.bind_eq_some_iff.mp h
    obtain ⟨⟨us, mode''⟩, hscan, heq⟩ := Option.map_eq_some_iff.mp hrest
    obtain ⟨hnil, rfl⟩ := Prod.mk.inj heq
    have hc : c ≠ 92 := fun hc => hback (hc ▸ List.mem_cons_self)
    simp only [step, if_neg hc, if_neg Bool.false_ne_true] at hstep
    split_ifs at hstep with hlow hquote
    · obtain ⟨s', -, rfl⟩ := Option.map_eq_some_iff.mp hstep
      cases hnil
    · obtain rfl := Option.some.inj hstep
      obtain rfl : us = [] := hnil
      refine List.forall_mem_cons.mpr ⟨⟨UInt8.not_lt.mp hlow, hquote, hc⟩, ih hscan ?_⟩
      exact fun hmem => hback (List.mem_cons_of_mem c hmem)

theorem scan_plain (h : Plain cs) (raw : Bytes) :
    scan (.string raw false) cs = some ([], .string (raw ++ cs) false) := by
  have hplain := h.1
  clear h
  induction cs generalizing raw with
  | nil => rw [scan, List.append_nil]
  | cons c cs ih =>
    obtain ⟨⟨hlow, hquote, hback⟩, hcs⟩ := List.forall_mem_cons.mp hplain
    rw [scan, step, if_neg (UInt8.not_lt.mpr hlow), if_neg Bool.false_ne_true, if_neg hback,
      if_neg hquote, Option.bind_some, ih _ hcs, List.append_assoc]
    rfl

theorem decode_plain (h : Plain s) : decode s = some s := by
  rw [decode, if_pos h.2, unescape_of_not_mem fun hmem => (h.1 92 hmem).2.2 rfl]

/-! ## The rest of a text -/

/-- The tokens of the rest of a text. -/
def complete (mode : Mode) (text : Bytes) : Option (List Token) :=
  (scan mode text).bind fun last => (finish last.2).map (last.1 ++ ·)

theorem lex_eq_complete (text : Bytes) : lex text = complete .between text := rfl

theorem complete_append (h : scan mode cs = some (ts, mode')) (ds : Bytes) :
    complete mode (cs ++ ds) = (complete mode' ds).map (ts ++ ·) := by
  rw [complete, scan_append_of h, complete]
  cases scan mode' ds with
  | none => rfl
  | some last =>
    simp only [Option.map_some, Option.bind_some]
    cases finish last.2 <;> simp

/-- An open string is not ended by bytes that leave it open. -/
theorem open_of_scan_append {escaped : Bool}
    (h : scan (.string raw escaped) (cs ++ ds) = some ([], mode')) :
    ∃ escaped', (escaped' = true → cs = [] ∧ escaped = true ∨ cs.getLast? = some 92) ∧
      scan (.string (raw ++ cs) escaped') ds = some ([], mode') := by
  rw [scan_append] at h
  obtain ⟨⟨us, mode⟩, hscan, hrest⟩ := Option.bind_eq_some_iff.mp h
  obtain ⟨last, hlast, heq⟩ := Option.map_eq_some_iff.mp hrest
  obtain ⟨hnil, rfl⟩ := Prod.mk.inj heq
  rcases scan_string_cases hscan with ⟨escaped', rfl, rfl, hback⟩ | ⟨_, _, _, _, -, -, -, -, rfl⟩
  · refine ⟨escaped', hback, ?_⟩
    rw [List.nil_append] at hnil
    rw [hlast, ← hnil]
  · cases hnil

/-- A quote leaves a string open only if it is escaped. -/
theorem not_scan_quote : scan (.string raw false) (34 :: cs) ≠ some ([], mode') := by
  intro h
  obtain ⟨next, hstep, hrest⟩ := Option.bind_eq_some_iff.mp h
  obtain ⟨last, hlast, heq⟩ := Option.map_eq_some_iff.mp hrest
  simp only [step] at hstep
  obtain ⟨s, -, rfl⟩ := Option.map_eq_some_iff.mp hstep
  cases (Prod.mk.inj heq).1

/-- A string that goes on behind its quote, up to a comma, is not read as the bytes before it:
the quote follows a backslash, so that these end in one, and what is read ends in the comma. -/
theorem unescape_ne_of_open {more after : Bytes} {escaped : Bool}
    (hscan : scan (.string [] false) (cs ++ 34 :: more) = some ([], .string s escaped))
    (hmore : more ++ 34 :: after = 44 :: 34 :: ds) : unescape (cs ++ 34 :: more) ≠ some cs := by
  intro hread
  obtain ⟨quoted, hback, hopen⟩ := open_of_scan_append hscan
  cases quoted with
  | false => exact not_scan_quote hopen
  | true =>
    have hlast : cs.getLast? = some 92 := by
      rcases hback rfl with ⟨-, hfalse⟩ | hlast
      · cases hfalse
      · exact hlast
    cases more with
    | nil => cases hmore
    | cons c more =>
      obtain ⟨rfl, hrest⟩ := List.cons.inj hmore
      cases more with
      | nil =>
        have hcomma := getLast?_unescape (b := 44) (by decide) (by decide) hread (by simp)
        rw [hlast] at hcomma
        cases hcomma
      | cons d more =>
        obtain ⟨rfl, -⟩ := List.cons.inj hrest
        have hcomma : scan (.string ([] ++ cs) true) ([34, 44] ++ 34 :: more) =
          some ([], .string s escaped) := hopen
        obtain ⟨quoted', hback', hopen'⟩ := open_of_scan_append hcomma
        cases quoted' with
        | false => exact not_scan_quote hopen'
        | true =>
          rcases hback' rfl with ⟨hfalse, -⟩ | hfalse <;> cases hfalse

theorem complete_string_of_plain (h : Plain s) (ds : Bytes) :
    complete (.string [] false) (s ++ 34 :: ds) = (complete .between ds).map (.string s :: ·) := by
  have hstep : scan (.string s false) [34] = some ([.string s], .between) := by
    simp only [scan, step, decode_plain h]
    rfl
  rw [complete_append (scan_plain h []), ← List.singleton_append, List.nil_append,
    complete_append hstep]
  cases complete .between ds <;> rfl

/-- A string is read as its bytes exactly if these are plain. What follows it is to be such that
no string which goes on behind its end could stop without a comma. -/
theorem complete_string_iff (hds : 34 ∈ ds → ∃ rest, ds = 44 :: 34 :: rest) :
    complete (.string [] false) (cs ++ 34 :: ds) = some (.string cs :: ts) ↔
      Plain cs ∧ complete .between ds = some ts := by
  constructor
  · intro h
    obtain ⟨⟨us, mode'⟩, hscan, hfinish⟩ := Option.bind_eq_some_iff.mp h
    obtain ⟨last, hlast, heq⟩ := Option.map_eq_some_iff.mp hfinish
    rcases scan_string_cases hscan with ⟨escaped', -, hmode, -⟩ |
      ⟨before, after, s, us', hsplit, hbefore, hs, hafter, hus⟩
    · rw [hmode] at hlast
      cases hlast
    obtain ⟨hhead, htail⟩ := List.cons.inj ((congrArg (· ++ last) hus).symm.trans heq)
    obtain rfl := Token.string.inj hhead
    rw [List.nil_append] at hs hbefore
    obtain ⟨hutf8, hread⟩ : utf8 before = true ∧ unescape before = some s := by
      unfold decode at hs
      split_ifs at hs with hutf8
      exact ⟨hutf8, hs⟩
    obtain ⟨more, rfl⟩ : s <+: before := by
      refine List.prefix_of_prefix_length_le (List.prefix_append s (34 :: ds)) ?_ ?_
      · rw [hsplit]
        exact List.prefix_append _ _
      · rcases unescape_cases hread with ⟨-, heq⟩ | hlt
        · rw [heq]
        · exact hlt.le
    rw [List.append_assoc, List.append_cancel_left_eq] at hsplit
    cases more with
    | nil =>
      obtain ⟨-, rfl⟩ := List.cons.inj hsplit
      rw [List.append_nil] at *
      have hback : 92 ∉ s := by
        rcases unescape_cases hread with ⟨hback, -⟩ | hlt
        · exact hback
        · exact absurd hlt (lt_irrefl _)
      refine ⟨⟨plain_of_scan_string hbefore hback, hutf8⟩, ?_⟩
      rw [complete, hafter, Option.bind_some, hlast, ← htail]
      rfl
    | cons c more =>
      obtain ⟨rfl, hmore⟩ := List.cons.inj hsplit
      obtain ⟨rest, hrest⟩ := hds (hmore ▸ List.mem_append_right _ List.mem_cons_self)
      exact absurd hread (unescape_ne_of_open hbefore (hmore.symm.trans hrest))
  · rintro ⟨hplain, hrest⟩
    rw [complete_string_of_plain hplain, hrest]
    rfl

/-- A control character is refused in a string. -/
theorem complete_string_control {c : UInt8} (h : Plain s) (hc : c < 32) (ds : Bytes) :
    complete (.string [] false) (s ++ c :: ds) = none := by
  rw [complete_append (scan_plain h []), complete, scan, step, if_pos hc]
  rfl

/-! ## Numbers in a text -/

theorem scan_word (h : ∀ c ∈ cs, wordByte c = true) (w : Bytes) :
    scan (.word w) cs = some ([], .word (w ++ cs)) := by
  induction cs generalizing w with
  | nil => rw [scan, List.append_nil]
  | cons c cs ih =>
    obtain ⟨hc, hcs⟩ := List.forall_mem_cons.mp h
    rw [scan, step, if_pos hc, Option.bind_some, ih hcs, List.append_assoc]
    rfl

/-- A word ends where a byte of another kind follows. -/
theorem complete_word {w : Bytes} {t : Token} (hw : word w = some t)
    (hds : ∀ c rest, ds = c :: rest → wordByte c = false) :
    complete (.word w) ds = (complete .between ds).map (t :: ·) := by
  cases ds with
  | nil => simp [complete, scan, finish, hw]
  | cons c ds =>
    have hstep : step (.word w) c = (start c).map fun next => (t :: next.1, next.2) := by
      rw [step, if_neg (by simp [hds c ds rfl]), hw]
      rfl
    rw [complete, complete, scan, scan, hstep, step]
    cases start c with
    | none => rfl
    | some next =>
      simp only [Option.map_some, Option.bind_some]
      cases scan next.2 ds with
      | none => rfl
      | some last =>
        simp only [Option.map_some, Option.bind_some]
        cases finish last.2 <;> rfl

theorem start_of_wordByte {c : UInt8} (h : wordByte c = true) : start c = some ([], .word [c]) := by
  have hall : ∀ f : Fin 256, wordByte (UInt8.ofFin f) = true →
      start (UInt8.ofFin f) = some ([], .word [UInt8.ofFin f]) := by
    decide +kernel
  exact hall c.toFin h

theorem mem_integer {i : ℤ} {c : UInt8} (h : c ∈ integer i) : c = 45 ∨ isdigit c = true := by
  have hdigits := List.all_eq_true.mp (all_isdigit_decimal i.natAbs)
  unfold integer at h
  split_ifs at h
  · exact (List.mem_cons.mp h).imp_right (hdigits c)
  · exact Or.inr (hdigits c h)

theorem wordByte_of_mem_integer {i : ℤ} {c : UInt8} (h : c ∈ integer i) : wordByte c = true := by
  rcases mem_integer h with rfl | hdigit
  · rfl
  · simp [wordByte, hdigit]

theorem head?_decimal_ne {c : UInt8} (h : isdigit c = false) (n : ℕ) :
    (decimal n).head? ≠ some c := by
  intro hhead
  rw [List.all_eq_true.mp (all_isdigit_decimal n) c (List.mem_of_head? hhead)] at h
  cases h

/-- A printed number has no superfluous zero at its front. -/
theorem number_integer (i : ℤ) : number (integer i) = some i := by
  have hzero : ¬ ((decimal i.natAbs).head? = some 48 ∧ (decimal i.natAbs).length ≠ 1) := by
    rintro ⟨hhead, hlength⟩
    by_cases h0 : i.natAbs = 0
    · rw [h0] at hlength
      exact hlength rfl
    · exact head?_decimal h0 hhead
  have hread := decimalOf_integer i
  unfold integer at hread ⊢
  by_cases hneg : i < 0
  · rw [if_pos hneg] at hread ⊢
    simp only [number, List.head?_cons, List.tail_cons, if_true]
    rw [if_neg, hread]
    rintro (hplus | hrefused)
    · cases hplus
    · exact hzero hrefused
  · rw [if_neg hneg] at hread ⊢
    simp only [number, if_neg (head?_decimal_ne (c := 45) rfl _)]
    rw [if_neg, hread]
    rintro (hplus | hrefused)
    · exact head?_decimal_ne rfl _ hplus
    · exact hzero hrefused

theorem word_integer (i : ℤ) : word (integer i) = some (.int i) := by
  have hletter : ∀ c, c ≠ 45 → isdigit c = false → ∀ rest, integer i ≠ c :: rest := by
    intro c hminus hdigit rest heq
    rcases mem_integer (heq ▸ List.mem_cons_self : c ∈ integer i) with h | h
    · exact hminus h
    · rw [hdigit] at h
      cases h
  rw [word, if_neg (hletter _ (by decide) rfl _), if_neg (hletter _ (by decide) rfl _),
    if_neg (hletter _ (by decide) rfl _), number_integer]
  rfl

theorem integer_ne_nil (i : ℤ) : integer i ≠ [] := by
  unfold integer
  split_ifs
  · exact List.cons_ne_nil _ _
  · exact decimal_ne_nil _

/-- A printed number is read as itself. -/
theorem complete_integer (i : ℤ) (hds : ∀ c rest, ds = c :: rest → wordByte c = false) :
    complete .between (integer i ++ ds) = (complete .between ds).map (.int i :: ·) := by
  have hscan : scan .between (integer i) = some ([], .word (integer i)) := by
    have hbytes : ∀ c ∈ integer i, wordByte c = true := fun c => wordByte_of_mem_integer
    cases hint : integer i with
    | nil => exact absurd hint (integer_ne_nil i)
    | cons c cs =>
      rw [hint] at hbytes
      obtain ⟨hc, hcs⟩ := List.forall_mem_cons.mp hbytes
      rw [scan, step, start_of_wordByte hc, Option.bind_some, scan_word hcs]
      rfl
  rw [complete_append hscan, complete_word (word_integer i) hds]
  cases complete .between ds <;> rfl

/-- A printed number before a byte of another kind. -/
theorem complete_decimal (n : ℕ) {c : UInt8} (hc : wordByte c = false) (ds : Bytes) :
    complete .between (decimal n ++ c :: ds) = (complete .between (c :: ds)).map (.int n :: ·) := by
  have hint : integer n = decimal n := by
    rw [integer, if_neg (by omega), Int.natAbs_natCast]
  rw [← hint, complete_integer]
  rintro d rest heq
  rw [← (List.cons.inj heq).1]
  exact hc

/-! ## ASCII texts -/

theorem utf8_of_ascii (h : ∀ c ∈ s, c ≤ 0x7F) : utf8 s = true := by
  have hrun : ∀ s : Bytes, (∀ c ∈ s, c ≤ 0x7F) →
      s.foldlM Utf8Rest.step { owed := 0 } = some { owed := 0 } := by
    intro s h
    induction s with
    | nil => rfl
    | cons c s ih =>
      obtain ⟨hc, hs⟩ := List.forall_mem_cons.mp h
      have hstep : Utf8Rest.step { owed := 0 } c = some { owed := 0 } := by
        simp [Utf8Rest.step, hc]
      rw [List.foldlM_cons, hstep]
      exact ih hs
  rw [utf8, hrun s h]
  rfl

theorem plain_of_ascii (h : ∀ c ∈ s, 32 ≤ c ∧ c ≠ 34 ∧ c ≠ 92 ∧ c ≤ 0x7F) : Plain s :=
  ⟨fun c hc => ⟨(h c hc).1, (h c hc).2.1, (h c hc).2.2.1⟩, utf8_of_ascii fun c hc => (h c hc).2.2.2⟩

theorem plain_decimal (n : ℕ) : Plain (decimal n) := by
  have hall : ∀ f : Fin 256, isdigit (UInt8.ofFin f) = true →
      32 ≤ UInt8.ofFin f ∧ UInt8.ofFin f ≠ 34 ∧ UInt8.ofFin f ≠ 92 ∧ UInt8.ofFin f ≤ 0x7F := by
    decide +kernel
  exact plain_of_ascii fun c hc => hall c.toFin (List.all_eq_true.mp (all_isdigit_decimal n) c hc)

end JsonText
