import Mathlib.Data.Nat.Digits.Lemmas
import Riotsensors.Lib.CMemory

/-! Decimal integers in C strings: what `strtol` in base ten and `std::stoi` read, and
what `printf` writes for `%d` and `%u`. -/

namespace Numerals

open CMem

/-- `isspace` of the C locale -/
def isspace (c : UInt8) : Bool := c == 32 || (9 ≤ c && c ≤ 13)

def isdigit (c : UInt8) : Bool := 48 ≤ c && c ≤ 57

/-- The number that digits denote. -/
def value (digits : List UInt8) : ℕ := digits.foldl (fun n c => 10 * n + (c.toNat - 48)) 0

/-- The sign at the front, if there is one. -/
def signOf : List UInt8 → List UInt8
  | 43 :: _ => [43]
  | 45 :: _ => [45]
  | _ => []

/-- A number with its sign; 45 is `'-'`. -/
def signed (sign digits : List UInt8) : ℤ :=
  if sign = [45] then -(value digits : ℤ) else value digits

/-- The number that the whole text is: a sign or none, and digits. -/
def decimalOf (text : List UInt8) : Option ℤ :=
  let digits := text.drop (signOf text).length
  if digits ≠ [] ∧ digits.all isdigit then some (signed (signOf text) digits) else none

/-- The number at the front of a string, after blanks, and where it ends. -/
def scan (s : List UInt8) : Option (ℤ × ℕ) :=
  let rest := s.dropWhile isspace
  let sign := signOf rest
  let digits := (rest.drop sign.length).takeWhile isdigit
  if digits = [] then none
  else some (signed sign digits, (s.takeWhile isspace).length + sign.length + digits.length)

/-- The nearest value of a signed type of `w` bits. -/
def clamp (w : ℕ) (n : ℤ) : ℤ := max (-2 ^ (w - 1)) (min n (2 ^ (w - 1) - 1))

/-- `strtol(str, &endptr, 10)` for a `long` of `w` bits: the number, and the offset of
`endptr`. -/
def strtol (w : ℕ) (str : List UInt8) : ℤ × ℕ :=
  match scan str with
  | none => (0, 0)
  | some (n, stop) => (clamp w n, stop)

inductive Exception where
  | invalidArgument
  | outOfRange
  deriving DecidableEq

/-- `std::stoi` for an `int` of 32 bits. -/
def stoi (str : List UInt8) : Except Exception ℤ :=
  match scan str with
  | none => .error .invalidArgument
  | some (n, _) => if -2 ^ 31 ≤ n ∧ n < 2 ^ 31 then .ok n else .error .outOfRange

/-- What `%u` writes. -/
def decimal (n : ℕ) : List UInt8 :=
  if n = 0 then [48] else (Nat.digits 10 n).reverse.map fun d => UInt8.ofNat (48 + d)

/-- What `%d` writes. -/
def integer (i : ℤ) : List UInt8 := if i < 0 then 45 :: decimal i.natAbs else decimal i.natAbs

/-! ## Reading -/

theorem signOf_cases (s : List UInt8) :
    (∃ rest, s = 43 :: rest ∧ signOf s = [43]) ∨ (∃ rest, s = 45 :: rest ∧ signOf s = [45]) ∨
      signOf s = [] := by
  unfold signOf
  split
  · exact Or.inl ⟨_, rfl, rfl⟩
  · exact Or.inr (Or.inl ⟨_, rfl, rfl⟩)
  · exact Or.inr (Or.inr rfl)

/-- A sign stands at the front of its text. -/
theorem signOf_append_drop (s : List UInt8) : signOf s ++ s.drop (signOf s).length = s := by
  rcases signOf_cases s with ⟨rest, rfl, h⟩ | ⟨rest, rfl, h⟩ | h
  all_goals
    rw [h]
    rfl

theorem length_signOf_le (s : List UInt8) : (signOf s).length ≤ s.length := by
  conv_rhs => rw [← signOf_append_drop s]
  rw [List.length_append]
  omega

theorem takeWhile_cstr {p : UInt8 → Bool} (hp : p 0 = false) (s : List UInt8) :
    (cstr s).takeWhile p = s.takeWhile p := by
  rw [cstr, List.takeWhile_takeWhile]
  congr 1
  funext c
  by_cases hc : c = 0
  · rw [hc, hp]
    rfl
  · simp [hc]

theorem dropWhile_cstr {p : UInt8 → Bool} (hp : p 0 = false) (s : List UInt8) :
    (cstr s).dropWhile p = cstr (s.dropWhile p) := by
  induction s with
  | nil => rfl
  | cons c s ih =>
    by_cases hc : c = 0
    · rw [hc, cstr_cons_zero, List.dropWhile_cons, hp]
      rfl
    · rw [cstr_cons_of_ne hc, List.dropWhile_cons, List.dropWhile_cons]
      split_ifs
      · exact ih
      · rw [cstr_cons_of_ne hc]

theorem signOf_cstr (s : List UInt8) : signOf (cstr s) = signOf s := by
  cases s with
  | nil => rfl
  | cons c s =>
    by_cases hc : c = 0
    · rw [hc, cstr_cons_zero]
      rfl
    · rw [cstr_cons_of_ne hc]
      unfold signOf
      split <;> simp_all

/-- What follows the sign. -/
theorem drop_sign_cstr (s : List UInt8) :
    (cstr s).drop (signOf s).length = cstr (s.drop (signOf s).length) := by
  rcases signOf_cases s with ⟨rest, rfl, h⟩ | ⟨rest, rfl, h⟩ | h
  · rw [h, cstr_cons_of_ne (by decide)]
    rfl
  · rw [h, cstr_cons_of_ne (by decide)]
    rfl
  · rw [h]
    rfl

/-- The scan stops at the terminator. -/
theorem scan_cstr (s : List UInt8) : scan (cstr s) = scan s := by
  simp only [scan, dropWhile_cstr (show isspace 0 = false by decide), signOf_cstr, drop_sign_cstr,
    takeWhile_cstr (show isspace 0 = false by decide),
    takeWhile_cstr (show isdigit 0 = false by decide)]

/-- The scan reads the whole string exactly if the string is blanks and a number. -/
theorem scan_all_iff {s : List UInt8} {n : ℤ} :
    scan s = some (n, s.length) ↔ decimalOf (s.dropWhile isspace) = some n := by
  have hlen : (s.takeWhile isspace).length + (s.dropWhile isspace).length = s.length := by
    rw [← List.length_append, List.takeWhile_append_dropWhile]
  have hsign := length_signOf_le (s.dropWhile isspace)
  rw [scan, decimalOf]
  generalize s.dropWhile isspace = rest at *
  have hdrop : (rest.drop (signOf rest).length).length = rest.length - (signOf rest).length :=
    List.length_drop
  generalize hafter : rest.drop (signOf rest).length = after at *
  by_cases hall : after.all isdigit
  · have htake : after.takeWhile isdigit = after :=
      List.takeWhile_eq_self_iff.mpr (List.all_eq_true.mp hall)
    simp only [htake, hall, and_true, ne_eq]
    by_cases hnil : after = []
    · simp [hnil]
    · have hstop : (s.takeWhile isspace).length + (signOf rest).length + after.length = s.length := by
        omega
      simp [hnil, hstop]
  · have hshort : (after.takeWhile isdigit).length < after.length := by
      refine lt_of_le_of_ne (List.takeWhile_prefix _).length_le fun heq => hall ?_
      rw [List.all_eq_true, ← List.takeWhile_eq_self_iff]
      exact (List.takeWhile_prefix _).eq_of_length heq
    have hstop : (s.takeWhile isspace).length + (signOf rest).length +
        (after.takeWhile isdigit).length ≠ s.length := by omega
    by_cases hnil : after.takeWhile isdigit = []
    · simp [hnil, hall]
    · simp [hnil, hall, hstop]

theorem isdigit_iff {c : UInt8} : isdigit c ↔ 48 ≤ c.toNat ∧ c.toNat ≤ 57 := by
  have hall : ∀ f : Fin 256, isdigit (UInt8.ofFin f) ↔ 48 ≤ f.val ∧ f.val ≤ 57 := by
    decide +kernel
  exact hall c.toFin

/-- A decimal integer is a C string, and begins with no blank. -/
theorem text_of_decimalOf {t : List UInt8} {n : ℤ} (h : decimalOf t = some n) :
    cstr t = t ∧ t.dropWhile isspace = t := by
  simp only [decimalOf] at h
  split_ifs at h with hdigits
  obtain ⟨hne, hall⟩ := hdigits
  have hparts := signOf_append_drop t
  generalize t.drop (signOf t).length = digits at *
  have hdigit : ∀ c ∈ digits, 48 ≤ c.toNat ∧ c.toNat ≤ 57 := fun c hc =>
    isdigit_iff.mp (List.all_eq_true.mp hall c hc)
  have htext : IsText digits := by
    rintro c hc rfl
    exact absurd (hdigit 0 hc).1 (by decide)
  have hblank : ∀ c ∈ digits, isspace c = false := by
    intro c hc
    have hspace : ∀ f : Fin 256, 48 ≤ f.val → isspace (UInt8.ofFin f) = false := by
      decide +kernel
    exact hspace c.toFin (hdigit c hc).1
  have hcstr : cstr digits = digits := cstr_of_isText htext
  rcases signOf_cases t with ⟨rest, -, hsign⟩ | ⟨rest, -, hsign⟩ | hsign
  · rw [← hparts, hsign, List.singleton_append, cstr_cons_of_ne (by decide), hcstr]
    exact ⟨rfl, rfl⟩
  · rw [← hparts, hsign, List.singleton_append, cstr_cons_of_ne (by decide), hcstr]
    exact ⟨rfl, rfl⟩
  · rw [← hparts, hsign, List.nil_append]
    refine ⟨hcstr, ?_⟩
    cases digits with
    | nil => exact absurd rfl hne
    | cons c digits => rw [List.dropWhile_cons_of_neg (by simp [hblank c List.mem_cons_self])]

/-- A decimal integer is scanned to its end. -/
theorem scan_of_decimalOf {t : List UInt8} {n : ℤ} (h : decimalOf t = some n) :
    scan t = some (n, t.length) := by
  rw [scan_all_iff, (text_of_decimalOf h).2]
  exact h

/-- `strtol` reads to the terminator exactly if the string is empty or blanks and a number. -/
theorem strtol_all_iff {w : ℕ} {s : List UInt8} {num : ℤ} :
    strtol w s = (num, strlen s) ↔
      (cstr s = [] ∧ num = 0) ∨
        ∃ n, decimalOf ((cstr s).dropWhile isspace) = some n ∧ num = clamp w n := by
  have hall : ∀ n, scan s = some (n, strlen s) ↔
      decimalOf ((cstr s).dropWhile isspace) = some n := fun n => by
    rw [← scan_all_iff, scan_cstr]
    rfl
  have hempty : strlen s = 0 ↔ cstr s = [] := List.length_eq_zero_iff
  unfold strtol
  cases hscan : scan s with
  | none =>
    have hno : ∀ n, decimalOf ((cstr s).dropWhile isspace) ≠ some n := fun n hn => by
      rw [(hall n).mpr hn] at hscan
      cases hscan
    simp only [Prod.mk.injEq, hno, false_and, exists_false, or_false, ← hempty]
    rw [and_comm, eq_comm, @eq_comm _ num]
  | some found =>
    rcases found with ⟨n, stop⟩
    have hne : cstr s ≠ [] := by
      rintro hnil
      rw [← scan_cstr, hnil] at hscan
      cases hscan
    simp only [Prod.mk.injEq, hne, false_and, false_or]
    constructor
    · rintro ⟨rfl, rfl⟩
      exact ⟨n, (hall n).mp hscan, rfl⟩
    · rintro ⟨n', hn', rfl⟩
      rw [(hall n').mpr hn'] at hscan
      obtain ⟨rfl, rfl⟩ := Prod.mk.inj (Option.some.inj hscan)
      exact ⟨rfl, rfl⟩

/-! ## Printing -/

/-- `'0' + d` -/
def digit (d : ℕ) : UInt8 := UInt8.ofNat (48 + d)

theorem toNat_digit {d : ℕ} (h : d < 10) : (digit d).toNat = 48 + d := by
  rw [digit, UInt8.toNat_ofNat']
  omega

theorem decimal_of_lt {n : ℕ} (h : n < 10) : decimal n = [digit n] := by
  unfold decimal
  split_ifs with h0
  · rw [h0]
    rfl
  · rw [Nat.digits_of_lt 10 n h0 h]
    rfl

/-- The last digit, and the number before it. -/
theorem decimal_of_ge {n : ℕ} (h : 10 ≤ n) : decimal n = decimal (n / 10) ++ [digit (n % 10)] := by
  unfold decimal
  rw [if_neg (by omega), if_neg (by omega), Nat.digits_def' (by norm_num) (by omega),
    List.reverse_cons, List.map_append]
  rfl

theorem isdigit_digit {d : ℕ} (h : d < 10) : isdigit (digit d) = true := by
  rw [isdigit_iff, toNat_digit h]
  omega

theorem all_isdigit_decimal (n : ℕ) : (decimal n).all isdigit = true := by
  induction n using Nat.strong_induction_on with
  | _ n ih =>
    rcases Nat.lt_or_ge n 10 with hlt | hge
    · rw [decimal_of_lt hlt, List.all_cons, isdigit_digit hlt]
      rfl
    · rw [decimal_of_ge hge, List.all_append, ih (n / 10) (by omega), List.all_cons,
        isdigit_digit (Nat.mod_lt n (by norm_num))]
      rfl

theorem value_append_singleton (s : List UInt8) (c : UInt8) :
    value (s ++ [c]) = 10 * value s + (c.toNat - 48) := by
  rw [value, List.foldl_append]
  rfl

theorem value_decimal (n : ℕ) : value (decimal n) = n := by
  induction n using Nat.strong_induction_on with
  | _ n ih =>
    rcases Nat.lt_or_ge n 10 with hlt | hge
    · have hvalue := value_append_singleton [] (digit n)
      rw [List.nil_append, toNat_digit hlt] at hvalue
      rw [decimal_of_lt hlt, hvalue]
      change 10 * 0 + (48 + n - 48) = n
      omega
    · rw [decimal_of_ge hge, value_append_singleton, ih (n / 10) (by omega),
        toNat_digit (Nat.mod_lt n (by norm_num))]
      omega

theorem decimal_ne_nil (n : ℕ) : decimal n ≠ [] := by
  rcases Nat.lt_or_ge n 10 with hlt | hge
  · rw [decimal_of_lt hlt]
    exact List.cons_ne_nil _ _
  · rw [decimal_of_ge hge]
    simp

/-- There is no leading zero. -/
theorem head?_decimal {n : ℕ} (h : n ≠ 0) : (decimal n).head? ≠ some 48 := by
  induction n using Nat.strong_induction_on with
  | _ n ih =>
    rcases Nat.lt_or_ge n 10 with hlt | hge
    · rw [decimal_of_lt hlt, List.head?_cons, Ne, Option.some.injEq, ← UInt8.toNat_inj,
        toNat_digit hlt]
      change ¬ 48 + n = 48
      omega
    · rw [decimal_of_ge hge, List.head?_append_of_ne_nil _ (decimal_ne_nil _)]
      exact ih (n / 10) (by omega) (by omega)

theorem length_decimal_le {n k : ℕ} (hk : 0 < k) (h : n < 10 ^ k) : (decimal n).length ≤ k := by
  unfold decimal
  split_ifs with h0
  · exact hk
  · rw [List.length_map, List.length_reverse]
    exact Nat.digits_length_le_iff (by norm_num) _ |>.mpr h

theorem signOf_decimal (n : ℕ) : signOf (decimal n) = [] := by
  have hall := List.all_eq_true.mp (all_isdigit_decimal n)
  rcases signOf_cases (decimal n) with ⟨rest, hs, -⟩ | ⟨rest, hs, -⟩ | h
  · exact absurd (hall 43 (hs ▸ List.mem_cons_self)) (by decide)
  · exact absurd (hall 45 (hs ▸ List.mem_cons_self)) (by decide)
  · exact h

/-- A printed number reads as itself. -/
theorem decimalOf_integer (i : ℤ) : decimalOf (integer i) = some i := by
  unfold integer
  split_ifs with hneg
  · rw [decimalOf]
    change (if decimal i.natAbs ≠ [] ∧ (decimal i.natAbs).all isdigit = true then
      some (signed [45] (decimal i.natAbs)) else none) = some i
    rw [if_pos ⟨decimal_ne_nil _, all_isdigit_decimal _⟩, signed, if_pos rfl, value_decimal]
    congr 1
    omega
  · simp only [decimalOf, signOf_decimal, List.length_nil, List.drop_zero]
    rw [if_pos ⟨decimal_ne_nil _, all_isdigit_decimal _⟩, signed, if_neg (by decide), value_decimal]
    congr 1
    omega

/-- Digits are no NULs. -/
theorem isText_of_digits {s : List UInt8} (h : s.all isdigit = true) : IsText s := by
  rintro c hc rfl
  exact absurd (List.all_eq_true.mp h 0 hc) (by decide)

theorem isText_integer (i : ℤ) : IsText (integer i) := by
  unfold integer
  split_ifs
  · exact List.forall_mem_cons.mpr ⟨by decide, isText_of_digits (all_isdigit_decimal _)⟩
  · exact isText_of_digits (all_isdigit_decimal _)

end Numerals
