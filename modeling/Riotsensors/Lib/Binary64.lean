import Mathlib.Tactic
import Mathlib.Data.Rat.Floor
import Mathlib.Data.Nat.Log

/-! IEEE 754 binary64 patterns and the exact values they stand for. Finite
values are rationals, rounding is to nearest with ties to even, and the two
zeros have one value. -/

namespace Binary64

inductive Value where
  | fin (q : ℚ)
  | inf (neg : Bool)
  | nan
  deriving DecidableEq

namespace Value

def neg : Value → Value
  | fin q => fin (-q)
  | inf s => inf !s
  | nan => nan

/-- Halving an infinity gives the same infinity. -/
def half : Value → Value
  | fin q => fin (q / 2)
  | v => v

def double : Value → Value
  | fin q => fin (q * 2)
  | v => v

/-- Comparison with a finite bound; every comparison of NaN is false. -/
def lt : Value → ℚ → Bool
  | fin p, q => p < q
  | inf s, _ => s
  | nan, _ => false

def gt : Value → ℚ → Bool
  | fin p, q => q < p
  | inf s, _ => !s
  | nan, _ => false

def ge : Value → ℚ → Bool
  | fin p, q => q ≤ p
  | inf s, _ => !s
  | nan, _ => false

end Value

/-- The nearest integer, ties to even. -/
def rne (x : ℚ) : ℤ :=
  if x - ⌊x⌋ < 1 / 2 then ⌊x⌋
  else if 1 / 2 < x - ⌊x⌋ then ⌊x⌋ + 1
  else if ⌊x⌋ % 2 = 0 then ⌊x⌋ else ⌊x⌋ + 1

/-- The exponent of the leading bit of a positive rational. -/
def log2 (x : ℚ) : ℤ :=
  let e : ℤ := (Nat.log2 x.num.toNat : ℤ) - (Nat.log2 x.den : ℤ)
  if x < 2 ^ e then e - 1 else e

/-- The magnitude of the finite pattern `n`, its sign bit taken off. -/
def decodeMag (n : ℕ) : ℚ :=
  if n / 2 ^ 52 = 0 then (n % 2 ^ 52 : ℕ) * 2 ^ (-1074 : ℤ)
  else (2 ^ 52 + n % 2 ^ 52 : ℕ) * 2 ^ (((n / 2 ^ 52 : ℕ) : ℤ) - 1075)

/-- The exponent whose unit in the last place a positive magnitude is rounded to:
that of its leading bit, but not below the smallest normal exponent. -/
def scale (x : ℚ) : ℤ := max (log2 x) (-1022)

/-- The significand after rounding, in units of the last place. -/
def mantissa (x : ℚ) : ℕ := (rne (x / 2 ^ (scale x - 52))).toNat

/-- The pattern of a positive magnitude. A significand that rounds up to the next
power of two carries into the exponent by plain addition. -/
def encodeMag (x : ℚ) : ℕ :=
  min ((scale x + 1022).toNat * 2 ^ 52 + mantissa x) (2047 * 2 ^ 52)

def decode (x : UInt64) : Value :=
  let neg := 2 ^ 63 ≤ x.toNat
  let n := x.toNat % 2 ^ 63
  if 2047 * 2 ^ 52 < n then .nan
  else if n = 2047 * 2 ^ 52 then .inf neg
  else .fin (if neg then -decodeMag n else decodeMag n)

def encode : Value → UInt64
  | .fin q =>
    if q = 0 then 0
    else if 0 < q then UInt64.ofNat (encodeMag q)
    else UInt64.ofNat (2 ^ 63 + encodeMag (-q))
  | .inf neg => UInt64.ofNat ((if neg then 2 ^ 63 else 0) + 2047 * 2 ^ 52)
  | .nan => UInt64.ofNat (2047 * 2 ^ 52 + 2 ^ 51)

/-! ## Rounding -/

@[simp] theorem rne_intCast (n : ℤ) : rne (n : ℚ) = n := by
  simp [rne]

@[simp] theorem rne_natCast (n : ℕ) : rne (n : ℚ) = n := by
  simpa using rne_intCast (n : ℤ)

theorem floor_le_rne (x : ℚ) : ⌊x⌋ ≤ rne x := by
  unfold rne
  split_ifs <;> omega

theorem rne_le_floor_add_one (x : ℚ) : rne x ≤ ⌊x⌋ + 1 := by
  unfold rne
  split_ifs <;> omega

/-- An integer bound survives rounding. -/
theorem le_rne {n : ℤ} {x : ℚ} (h : (n : ℚ) ≤ x) : n ≤ rne x :=
  (Int.le_floor.mpr h).trans (floor_le_rne x)

theorem rne_le {n : ℤ} {x : ℚ} (h : x < n) : rne x ≤ n := by
  have := Int.floor_lt.mpr h
  have := rne_le_floor_add_one x
  omega

theorem rne_le_of_le {m : ℤ} {x : ℚ} (h : x ≤ m) : rne x ≤ m := by
  rcases h.lt_or_eq with hlt | rfl
  · exact rne_le hlt
  · exact (rne_intCast m).le

/-! ## The leading bit -/

theorem two_zpow_pos (e : ℤ) : (0 : ℚ) < 2 ^ e := zpow_pos two_pos e

theorem log2_spec {x : ℚ} (hx : 0 < x) : 2 ^ log2 x ≤ x ∧ x < 2 ^ (log2 x + 1) := by
  have hnum : 0 < x.num := Rat.num_pos.mpr hx
  obtain ⟨a, ha⟩ : ∃ a : ℕ, x.num = a := ⟨x.num.toNat, by omega⟩
  have ha0 : a ≠ 0 := by omega
  have hd0 : x.den ≠ 0 := x.den_nz
  have hxq : x = (a : ℚ) / x.den := by
    conv_lhs => rw [← Rat.num_div_den x, ha]
    simp
  have hdpos : (0 : ℚ) < x.den := by exact_mod_cast Nat.pos_of_ne_zero hd0
  have hal : (2 : ℚ) ^ (Nat.log2 a : ℤ) ≤ a := by exact_mod_cast Nat.log2_self_le ha0
  have hau : (a : ℚ) < 2 ^ ((Nat.log2 a : ℤ) + 1) := by exact_mod_cast Nat.lt_log2_self
  have hdl : (2 : ℚ) ^ (Nat.log2 x.den : ℤ) ≤ x.den := by exact_mod_cast Nat.log2_self_le hd0
  have hdu : (x.den : ℚ) < 2 ^ ((Nat.log2 x.den : ℤ) + 1) := by exact_mod_cast Nat.lt_log2_self
  set p : ℤ := (Nat.log2 a : ℤ)
  set q : ℤ := (Nat.log2 x.den : ℤ)
  have hlow : (2 : ℚ) ^ (p - q - 1) < x := by
    rw [hxq, lt_div_iff₀ hdpos]
    calc (2 : ℚ) ^ (p - q - 1) * x.den < 2 ^ (p - q - 1) * 2 ^ (q + 1) :=
          mul_lt_mul_of_pos_left hdu (two_zpow_pos _)
      _ = 2 ^ p := by rw [← zpow_add₀ two_ne_zero]; congr 1; ring
      _ ≤ a := hal
  have hhigh : x < 2 ^ (p - q + 1) := by
    rw [hxq, div_lt_iff₀ hdpos]
    calc (a : ℚ) < 2 ^ (p + 1) := hau
      _ = 2 ^ (p - q + 1) * 2 ^ q := by rw [← zpow_add₀ two_ne_zero]; congr 1; ring
      _ ≤ 2 ^ (p - q + 1) * x.den := mul_le_mul_of_nonneg_left hdl (two_zpow_pos _).le
  have he : log2 x = if x < 2 ^ (p - q) then p - q - 1 else p - q := by
    simp only [log2, ha, Int.toNat_natCast]
    rfl
  rw [he]
  split_ifs with h
  · exact ⟨hlow.le, by simpa using h⟩
  · exact ⟨not_lt.mp h, hhigh⟩

/-- The leading bit is the only exponent that brackets the number. -/
theorem log2_eq {x : ℚ} {e : ℤ} (hl : 2 ^ e ≤ x) (hu : x < 2 ^ (e + 1)) : log2 x = e := by
  have hx : 0 < x := lt_of_lt_of_le (two_zpow_pos e) hl
  obtain ⟨h1, h2⟩ := log2_spec hx
  have hlt : e < log2 x + 1 := (zpow_lt_zpow_iff_right₀ one_lt_two).mp (lt_of_le_of_lt hl h2)
  have hgt : log2 x < e + 1 := (zpow_lt_zpow_iff_right₀ one_lt_two).mp (lt_of_le_of_lt h1 hu)
  omega

theorem log2_natCast {n : ℕ} (h : n ≠ 0) : log2 (n : ℚ) = Nat.log2 n := by
  apply log2_eq
  · exact_mod_cast Nat.log2_self_le h
  · exact_mod_cast Nat.lt_log2_self

/-! ## Patterns and magnitudes -/

theorem decodeMag_subnormal {f : ℕ} (hf : f < 2 ^ 52) : decodeMag f = f * 2 ^ (-1074 : ℤ) := by
  simp only [decodeMag, Nat.div_eq_of_lt hf, Nat.mod_eq_of_lt hf, if_true]

theorem decodeMag_normal {e f : ℕ} (he : 1 ≤ e) (hf : f < 2 ^ 52) :
    decodeMag (e * 2 ^ 52 + f) = (2 ^ 52 + f : ℕ) * 2 ^ ((e : ℤ) - 1075) := by
  have hdiv : (e * 2 ^ 52 + f) / 2 ^ 52 = e := by omega
  have hmod : (e * 2 ^ 52 + f) % 2 ^ 52 = f := by omega
  rw [decodeMag, hdiv, hmod, if_neg (by omega)]

/-- Every positive pattern is `m` units of the last place of some scale. -/
theorem encodeMag_of_scaled {x : ℚ} {m : ℕ} {e : ℤ} (he : scale x = e)
    (hx : x = m * 2 ^ (e - 52)) :
    encodeMag x = min ((e + 1022).toNat * 2 ^ 52 + m) (2047 * 2 ^ 52) := by
  have hm : mantissa x = m := by
    rw [mantissa, he, hx, mul_div_assoc, div_self (two_zpow_pos _).ne', mul_one, rne_natCast]
    simp
  rw [encodeMag, he, hm]

theorem scale_of_lt {x : ℚ} (hpos : 0 < x) (hlt : x < 2 ^ (-1022 : ℤ)) : scale x = -1022 := by
  have hlog : log2 x < -1022 :=
    (zpow_lt_zpow_iff_right₀ one_lt_two).mp (lt_of_le_of_lt (log2_spec hpos).1 hlt)
  rw [scale]
  omega

theorem scale_subnormal {f : ℕ} (h0 : 0 < f) (hf : f < 2 ^ 52) :
    scale ((f : ℚ) * 2 ^ (-1074 : ℤ)) = -1022 := by
  have hpos : (0 : ℚ) < f * 2 ^ (-1074 : ℤ) := by
    have := two_zpow_pos (-1074)
    positivity
  have hlt : (f : ℚ) * 2 ^ (-1074 : ℤ) < 2 ^ (-1022 : ℤ) := by
    have hf' : (f : ℚ) < 2 ^ (52 : ℤ) := by exact_mod_cast hf
    calc (f : ℚ) * 2 ^ (-1074 : ℤ) < 2 ^ (52 : ℤ) * 2 ^ (-1074 : ℤ) :=
          mul_lt_mul_of_pos_right hf' (two_zpow_pos _)
      _ = 2 ^ (-1022 : ℤ) := by rw [← zpow_add₀ two_ne_zero]; norm_num
  exact scale_of_lt hpos hlt

theorem log2_normal {m : ℕ} {e : ℤ} (hl : 2 ^ 52 ≤ m) (hu : m < 2 ^ 53) :
    log2 ((m : ℚ) * 2 ^ (e - 52)) = e := by
  have hl' : (2 : ℚ) ^ (52 : ℤ) ≤ m := by exact_mod_cast hl
  have hu' : (m : ℚ) < 2 ^ (53 : ℤ) := by exact_mod_cast hu
  apply log2_eq
  · calc (2 : ℚ) ^ e = 2 ^ (52 : ℤ) * 2 ^ (e - 52) := by
          rw [← zpow_add₀ two_ne_zero]; congr 1; ring
      _ ≤ m * 2 ^ (e - 52) := mul_le_mul_of_nonneg_right hl' (two_zpow_pos _).le
  · calc (m : ℚ) * 2 ^ (e - 52) < 2 ^ (53 : ℤ) * 2 ^ (e - 52) :=
          mul_lt_mul_of_pos_right hu' (two_zpow_pos _)
      _ = 2 ^ (e + 1) := by rw [← zpow_add₀ two_ne_zero]; congr 1; ring

theorem encodeMag_subnormal {f : ℕ} (h0 : 0 < f) (hf : f < 2 ^ 52) :
    encodeMag ((f : ℚ) * 2 ^ (-1074 : ℤ)) = f := by
  rw [encodeMag_of_scaled (m := f) (scale_subnormal h0 hf) (by norm_num)]
  simp only [Int.reduceNeg, Int.reduceAdd, Int.toNat_zero, Nat.zero_mul, Nat.zero_add]
  omega

/-- A magnitude with a leading bit: past the largest exponent it is infinite. -/
theorem encodeMag_normal {e f : ℕ} (he : 1 ≤ e) (hf : f < 2 ^ 52) :
    encodeMag (((2 ^ 52 + f : ℕ) : ℚ) * 2 ^ ((e : ℤ) - 1075)) =
      min (e * 2 ^ 52 + f) (2047 * 2 ^ 52) := by
  have hscale : scale (((2 ^ 52 + f : ℕ) : ℚ) * 2 ^ ((e : ℤ) - 1075)) = (e : ℤ) - 1023 := by
    have hlog := log2_normal (m := 2 ^ 52 + f) (e := (e : ℤ) - 1023) (by omega) (by omega)
    rw [show (e : ℤ) - 1023 - 52 = e - 1075 by ring] at hlog
    rw [scale, hlog]
    omega
  rw [encodeMag_of_scaled hscale (by rw [show (e : ℤ) - 1023 - 52 = e - 1075 by ring])]
  have : ((e : ℤ) - 1023 + 1022).toNat = e - 1 := by omega
  rw [this]
  omega

theorem decodeMag_of_le {n : ℕ} (h : 2 ^ 52 ≤ n) :
    decodeMag n = (2 ^ 52 + n % 2 ^ 52 : ℕ) * 2 ^ (((n / 2 ^ 52 : ℕ) : ℤ) - 1075) := by
  rw [decodeMag, if_neg (by omega)]

theorem le_decodeMag {n e : ℕ} (he : 1 ≤ e) (h : e * 2 ^ 52 ≤ n) :
    2 ^ ((e : ℤ) - 1023) ≤ decodeMag n := by
  have hn : 2 ^ 52 ≤ n := by omega
  have hexp : (e : ℤ) - 1075 ≤ ((n / 2 ^ 52 : ℕ) : ℤ) - 1075 := by omega
  have hlead : ((2 : ℚ) ^ (52 : ℤ)) ≤ (2 ^ 52 + n % 2 ^ 52 : ℕ) := by
    exact_mod_cast Nat.le_add_right (2 ^ 52) (n % 2 ^ 52)
  rw [decodeMag_of_le hn]
  calc (2 : ℚ) ^ ((e : ℤ) - 1023) = 2 ^ (52 : ℤ) * 2 ^ ((e : ℤ) - 1075) := by
        rw [← zpow_add₀ two_ne_zero]; congr 1; ring
    _ ≤ _ := mul_le_mul hlead (zpow_le_zpow_right₀ one_le_two hexp) (two_zpow_pos _).le
          (Nat.cast_nonneg _)

theorem decodeMag_lt {n e : ℕ} (he : 1 ≤ e) (h : n < e * 2 ^ 52) :
    decodeMag n < 2 ^ ((e : ℤ) - 1023) := by
  rcases Nat.lt_or_ge n (2 ^ 52) with hsub | hn
  · have hn' : (n : ℚ) < 2 ^ (52 : ℤ) := by exact_mod_cast hsub
    rw [decodeMag_subnormal hsub]
    calc (n : ℚ) * 2 ^ (-1074 : ℤ) < 2 ^ (52 : ℤ) * 2 ^ (-1074 : ℤ) :=
          mul_lt_mul_of_pos_right hn' (two_zpow_pos _)
      _ = 2 ^ (-1022 : ℤ) := by rw [← zpow_add₀ two_ne_zero]; norm_num
      _ ≤ 2 ^ ((e : ℤ) - 1023) := zpow_le_zpow_right₀ one_le_two (by omega)
  · have hlead : ((2 ^ 52 + n % 2 ^ 52 : ℕ) : ℚ) < 2 ^ (53 : ℤ) := by
      have : 2 ^ 52 + n % 2 ^ 52 < 2 ^ 53 := by omega
      exact_mod_cast this
    rw [decodeMag_of_le hn]
    calc _ < (2 : ℚ) ^ (53 : ℤ) * 2 ^ (((n / 2 ^ 52 : ℕ) : ℤ) - 1075) :=
          mul_lt_mul_of_pos_right hlead (two_zpow_pos _)
      _ = 2 ^ (((n / 2 ^ 52 : ℕ) : ℤ) - 1022) := by rw [← zpow_add₀ two_ne_zero]; congr 1; ring
      _ ≤ 2 ^ ((e : ℤ) - 1023) := zpow_le_zpow_right₀ one_le_two (by omega)

theorem decodeMag_pos {n : ℕ} (h : 0 < n) : 0 < decodeMag n := by
  rcases Nat.lt_or_ge n (2 ^ 52) with hsub | hn
  · have := two_zpow_pos (-1074)
    rw [decodeMag_subnormal hsub]
    positivity
  · exact lt_of_lt_of_le (two_zpow_pos _) (le_decodeMag le_rfl (by omega))

/-- From `2 ^ (52 + k)` on there are multiples of `2 ^ k` only. -/
theorem decodeMag_multiple {n k : ℕ} (h : (1075 + k) * 2 ^ 52 ≤ n) :
    ∃ m : ℕ, decodeMag n = (2 ^ k * m : ℕ) := by
  obtain ⟨l, hl⟩ : ∃ l : ℕ, ((n / 2 ^ 52 : ℕ) : ℤ) - 1075 = (k + l : ℕ) :=
    ⟨n / 2 ^ 52 - 1075 - k, by omega⟩
  refine ⟨2 ^ l * (2 ^ 52 + n % 2 ^ 52), ?_⟩
  rw [decodeMag_of_le (by omega), hl, zpow_natCast]
  push_cast
  ring

/-- A finite magnitude is encoded as the pattern that it is read from. -/
theorem encodeMag_decodeMag {n : ℕ} (h0 : 0 < n) (hn : n < 2047 * 2 ^ 52) :
    encodeMag (decodeMag n) = n := by
  rcases Nat.lt_or_ge n (2 ^ 52) with hsub | hnormal
  · rw [decodeMag_subnormal hsub, encodeMag_subnormal h0 hsub]
  · rw [decodeMag_of_le hnormal,
      encodeMag_normal (by omega) (Nat.mod_lt n (show 0 < 2 ^ 52 by norm_num))]
    omega

theorem mantissa_le {x : ℚ} (hx : 0 < x) : mantissa x ≤ 2 ^ 53 := by
  have hlt : x / 2 ^ (scale x - 52) < ((2 ^ 53 : ℤ) : ℚ) := by
    rw [div_lt_iff₀ (two_zpow_pos _)]
    calc x < 2 ^ (log2 x + 1) := (log2_spec hx).2
      _ ≤ 2 ^ (scale x + 1) := by
          apply zpow_le_zpow_right₀ one_le_two
          have := le_max_left (log2 x) (-1022)
          unfold scale
          omega
      _ = ((2 ^ 53 : ℤ) : ℚ) * 2 ^ (scale x - 52) := by
          rw [show ((2 ^ 53 : ℤ) : ℚ) = 2 ^ (53 : ℤ) by norm_num, ← zpow_add₀ two_ne_zero]
          congr 1; ring
  have := rne_le hlt
  unfold mantissa
  omega

theorem le_mantissa {x : ℚ} (hx : 0 < x) (h : -1022 ≤ log2 x) : 2 ^ 52 ≤ mantissa x := by
  have hscale : scale x = log2 x := max_eq_left h
  have hle : ((2 ^ 52 : ℤ) : ℚ) ≤ x / 2 ^ (scale x - 52) := by
    rw [le_div_iff₀ (two_zpow_pos _), hscale]
    calc ((2 ^ 52 : ℤ) : ℚ) * 2 ^ (log2 x - 52) = 2 ^ log2 x := by
          rw [show ((2 ^ 52 : ℤ) : ℚ) = 2 ^ (52 : ℤ) by norm_num, ← zpow_add₀ two_ne_zero]
          congr 1; ring
      _ ≤ x := (log2_spec hx).1
  have := le_rne hle
  unfold mantissa
  omega

/-- What is read back after encoding: the magnitude rounded to its scale. -/
theorem decodeMag_encodeMag {x : ℚ} (hx : 0 < x) (hfin : encodeMag x < 2047 * 2 ^ 52) :
    decodeMag (encodeMag x) = mantissa x * 2 ^ (scale x - 52) := by
  have hs : -1022 ≤ scale x := le_max_right _ _
  have hm := mantissa_le hx
  obtain ⟨k, hk⟩ : ∃ k : ℕ, scale x + 1022 = k := ⟨(scale x + 1022).toNat, by omega⟩
  have henc : encodeMag x = k * 2 ^ 52 + mantissa x := by
    have hdef : encodeMag x = min (k * 2 ^ 52 + mantissa x) (2047 * 2 ^ 52) := by
      rw [encodeMag, hk, Int.toNat_natCast]
    omega
  rcases lt_or_ge (mantissa x) (2 ^ 52) with hsmall | hbig
  · -- a significand below the leading bit occurs at the smallest scale only
    have hk0 : k = 0 := by
      by_contra hne
      have hl : -1022 ≤ log2 x := by
        unfold scale at hk
        omega
      have := le_mantissa hx hl
      omega
    subst hk0
    rw [henc, Nat.zero_mul, Nat.zero_add, decodeMag_subnormal hsmall]
    congr 2
    omega
  · rcases hm.lt_or_eq with hlt | heq
    · obtain ⟨f, hf⟩ : ∃ f, mantissa x = 2 ^ 52 + f := ⟨mantissa x - 2 ^ 52, by omega⟩
      rw [henc, hf, show k * 2 ^ 52 + (2 ^ 52 + f) = (k + 1) * 2 ^ 52 + f by ring,
        decodeMag_normal (by omega) (by omega)]
      congr 2
      push_cast
      omega
    · -- the carry: the next exponent with fraction zero
      rw [henc, heq, show k * 2 ^ 52 + 2 ^ 53 = (k + 2) * 2 ^ 52 + 0 by ring,
        decodeMag_normal (by omega) (by norm_num)]
      have hexp : ((k + 2 : ℕ) : ℤ) - 1075 = scale x - 52 + 1 := by push_cast; omega
      rw [hexp, zpow_add_one₀ two_ne_zero]
      push_cast
      ring

/-! ## Whole numbers -/

/-- A whole number at the precision of a double: a multiple of the last place of its
53 leading bits. -/
def roundNat (n : ℕ) : ℕ :=
  (rne ((n : ℚ) / (2 ^ (Nat.log2 n - 52) : ℕ))).toNat * 2 ^ (Nat.log2 n - 52)

/-- Rounding does not pass a number that is itself representable there. -/
theorem le_roundNat {a n : ℕ} (hdvd : 2 ^ (Nat.log2 n - 52) ∣ a) (h : a ≤ n) :
    a ≤ roundNat n := by
  obtain ⟨k, rfl⟩ := hdvd
  have hpos : (0 : ℚ) < (2 ^ (Nat.log2 n - 52) : ℕ) := by positivity
  have hk : ((k : ℤ) : ℚ) ≤ (n : ℚ) / (2 ^ (Nat.log2 n - 52) : ℕ) := by
    rw [le_div_iff₀ hpos, mul_comm]
    exact_mod_cast h
  have := le_rne hk
  rw [roundNat, mul_comm]
  exact Nat.mul_le_mul_right _ (by omega)

theorem roundNat_le {b n : ℕ} (hdvd : 2 ^ (Nat.log2 n - 52) ∣ b) (h : n ≤ b) :
    roundNat n ≤ b := by
  obtain ⟨k, rfl⟩ := hdvd
  have hpos : (0 : ℚ) < (2 ^ (Nat.log2 n - 52) : ℕ) := by positivity
  have hk : (n : ℚ) / (2 ^ (Nat.log2 n - 52) : ℕ) ≤ ((k : ℤ) : ℚ) := by
    rw [div_le_iff₀ hpos, mul_comm]
    exact_mod_cast h
  have := rne_le_of_le hk
  rw [roundNat, mul_comm]
  exact Nat.mul_le_mul_left _ (by omega)

theorem dvd_roundNat (n : ℕ) : 2 ^ (Nat.log2 n - 52) ∣ roundNat n := Dvd.intro_left _ rfl

theorem roundNat_eq_self_iff {n : ℕ} : roundNat n = n ↔ 2 ^ (Nat.log2 n - 52) ∣ n := by
  constructor
  · intro h
    have := dvd_roundNat n
    rwa [h] at this
  · intro h
    exact le_antisymm (roundNat_le h le_rfl) (le_roundNat h le_rfl)

/-- A 64-bit number is rounded within its own multiples of `2 ^ 52`. -/
theorem roundNat_bounds {n : ℕ} (hn : n < 2 ^ 64) :
    n / 2 ^ 52 * 2 ^ 52 ≤ roundNat n ∧ roundNat n ≤ (n / 2 ^ 52 + 1) * 2 ^ 52 := by
  have hlog : Nat.log2 n ≤ 63 := by
    rcases Nat.eq_zero_or_pos n with rfl | h0
    · simp
    · have := (Nat.log2_lt h0.ne').mpr hn
      omega
  have hdvd : 2 ^ (Nat.log2 n - 52) ∣ 2 ^ 52 := pow_dvd_pow 2 (by omega)
  exact ⟨le_roundNat (hdvd.mul_left _) (by omega), roundNat_le (hdvd.mul_left _) (by omega)⟩

theorem decodeMag_encodeMag_natCast {n : ℕ} (h0 : n ≠ 0) (hn : n < 2 ^ 64) :
    decodeMag (encodeMag n) = roundNat n ∧ encodeMag n < 2047 * 2 ^ 52 := by
  have hpos : (0 : ℚ) < n := by exact_mod_cast Nat.pos_of_ne_zero h0
  have hlog : Nat.log2 n < 64 := (Nat.log2_lt h0).mpr hn
  have hscale : scale (n : ℚ) = Nat.log2 n := by
    rw [scale, log2_natCast h0]
    omega
  have hfin : encodeMag (n : ℚ) < 2047 * 2 ^ 52 := by
    have hm := mantissa_le hpos
    have hle : encodeMag (n : ℚ) ≤ (scale (n : ℚ) + 1022).toNat * 2 ^ 52 + mantissa n :=
      min_le_left _ _
    rw [hscale] at hle
    omega
  refine ⟨?_, hfin⟩
  rw [decodeMag_encodeMag hpos hfin, mantissa, hscale, roundNat]
  rcases le_total 52 (Nat.log2 n) with hbig | hsmall
  · have hexp : ((Nat.log2 n : ℤ) - 52) = ((Nat.log2 n - 52 : ℕ) : ℤ) := by omega
    rw [hexp, zpow_natCast]
    push_cast
    rfl
  · -- fewer than 53 bits: the number itself, in units below one
    obtain ⟨k, hk⟩ : ∃ k : ℕ, (Nat.log2 n : ℤ) - 52 = -(k : ℤ) := ⟨52 - Nat.log2 n, by omega⟩
    have hunits : (n : ℚ) / 2 ^ (-(k : ℤ)) = ((n * 2 ^ k : ℕ) : ℚ) := by
      rw [zpow_neg, div_inv_eq_mul, zpow_natCast]
      push_cast
      rfl
    rw [hk, hunits, rne_natCast, Int.toNat_natCast, Nat.sub_eq_zero_of_le hsmall]
    simp

/-! ## Whole patterns -/

/-- Sign and magnitude of a pattern. -/
def neg (x : UInt64) : Bool := 2 ^ 63 ≤ x.toNat

def mag (x : UInt64) : ℕ := x.toNat % 2 ^ 63

/-- A finite value, given by its pattern. -/
def Finite (x : UInt64) : Prop := mag x < 2047 * 2 ^ 52

instance (x : UInt64) : Decidable (Finite x) := by unfold Finite; infer_instance

def Infinite (x : UInt64) : Prop := mag x = 2047 * 2 ^ 52

instance (x : UInt64) : Decidable (Infinite x) := by unfold Infinite; infer_instance

/-- The exact value of a finite pattern. -/
def value (x : UInt64) : ℚ := if neg x then -decodeMag (mag x) else decodeMag (mag x)

def signBit (s : Bool) : ℕ := if s then 2 ^ 63 else 0

theorem signBit_cases (s : Bool) : signBit s = 0 ∨ signBit s = 2 ^ 63 := by
  cases s
  · exact Or.inl rfl
  · exact Or.inr rfl

theorem toNat_eq (x : UInt64) : x.toNat = signBit (neg x) + mag x := by
  have hx : x.toNat < 2 ^ 64 := x.toNat_lt
  unfold mag neg signBit
  split_ifs with h <;> simp only [decide_eq_true_eq] at h <;> omega

/-- The pattern of a sign and a magnitude. -/
def pattern (s : Bool) (n : ℕ) : UInt64 := UInt64.ofNat (signBit s + n)

theorem toNat_pattern (s : Bool) {n : ℕ} (hn : n < 2 ^ 63) :
    (pattern s n).toNat = signBit s + n := by
  rw [pattern, UInt64.toNat_ofNat']
  rcases signBit_cases s with h | h <;> omega

@[simp] theorem neg_pattern (s : Bool) {n : ℕ} (hn : n < 2 ^ 63) : neg (pattern s n) = s := by
  rw [neg, toNat_pattern s hn, signBit]
  cases s <;> simp only [Bool.false_eq_true, if_true, if_false, decide_eq_true_eq,
    decide_eq_false_iff_not] <;> omega

@[simp] theorem mag_pattern (s : Bool) {n : ℕ} (hn : n < 2 ^ 63) : mag (pattern s n) = n := by
  rw [mag, toNat_pattern s hn]
  rcases signBit_cases s with h | h <;> omega

/-- Every pattern is that of its own sign and magnitude. -/
theorem pattern_neg_mag (x : UInt64) : pattern (neg x) (mag x) = x := by
  rw [pattern, ← toNat_eq, UInt64.ofNat_toNat]

theorem encode_signed (s : Bool) {x : ℚ} (hx : 0 < x) :
    encode (.fin (if s then -x else x)) = pattern s (encodeMag x) := by
  cases s with
  | false =>
    have hne : x ≠ 0 := hx.ne'
    simp [encode, pattern, signBit, hx, hne]
  | true =>
    have hne : -x ≠ 0 := by linarith
    have hlt : ¬ 0 < -x := by linarith
    simp only [encode, pattern, signBit, if_true, hne, hlt, if_false, neg_neg]

theorem decode_finite {x : UInt64} (h : Finite x) : decode x = .fin (value x) := by
  unfold Finite mag at h
  have h1 : ¬ 2047 * 2 ^ 52 < x.toNat % 2 ^ 63 := by omega
  have h2 : ¬ x.toNat % 2 ^ 63 = 2047 * 2 ^ 52 := by omega
  simp only [decode, h1, h2, if_false, value, neg, mag, decide_eq_true_eq]

theorem decode_infinite {x : UInt64} (h : Infinite x) : decode x = .inf (neg x) := by
  unfold Infinite mag at h
  simp only [decode, h, lt_irrefl, if_false, if_true, neg]

theorem decode_nan {x : UInt64} (h : 2047 * 2 ^ 52 < mag x) : decode x = .nan := by
  unfold mag at h
  simp only [decode, h, if_true]

theorem decode_pattern (s : Bool) {n : ℕ} (hn : n < 2047 * 2 ^ 52) :
    decode (pattern s n) = .fin (if s then -decodeMag n else decodeMag n) := by
  have hmag : mag (pattern s n) = n := mag_pattern s (by omega)
  rw [decode_finite (by rw [Finite, hmag]; exact hn), value, neg_pattern s (by omega), hmag]

/-- A finite value other than zero has one pattern. -/
theorem encode_decode {x : UInt64} (h : Finite x) (h0 : mag x ≠ 0) : encode (decode x) = x := by
  rw [decode_finite h, value, encode_signed _ (decodeMag_pos (Nat.pos_of_ne_zero h0)),
    encodeMag_decodeMag (Nat.pos_of_ne_zero h0) h, pattern_neg_mag]

theorem finite_of_decode {x : UInt64} {q : ℚ} (h : decode x = .fin q) : Finite x ∧ value x = q := by
  rcases Nat.lt_trichotomy (mag x) (2047 * 2 ^ 52) with hfin | hinf | hnan
  · rw [decode_finite hfin] at h
    exact ⟨hfin, Value.fin.inj h⟩
  · rw [decode_infinite hinf] at h
    cases h
  · rw [decode_nan hnan] at h
    cases h

theorem eq_of_decode_eq {x y : UInt64} {q : ℚ} (hx : decode x = .fin q) (hy : decode y = .fin q)
    (hq : q ≠ 0) : x = y := by
  have hback : ∀ {z : UInt64}, decode z = .fin q → encode (.fin q) = z := fun {z} hz => by
    obtain ⟨hfin, hval⟩ := finite_of_decode hz
    rw [← hz]
    apply encode_decode hfin
    intro h0
    rw [value, h0, decodeMag_subnormal (by norm_num)] at hval
    simp only [Nat.cast_zero, zero_mul, neg_zero, ite_self] at hval
    exact hq hval.symm
  rw [← hback hx, ← hback hy]

theorem decodeMag_of_decode {x : UInt64} {q : ℚ} (h : decode x = .fin q) (hq : 0 < q) :
    neg x = false ∧ decodeMag (mag x) = q := by
  obtain ⟨-, hval⟩ := finite_of_decode h
  have hnonneg : 0 ≤ decodeMag (mag x) := by
    rcases Nat.eq_zero_or_pos (mag x) with h0 | h0
    · rw [h0, decodeMag_subnormal (by norm_num)]
      simp
    · exact (decodeMag_pos h0).le
  unfold value at hval
  cases hneg : neg x with
  | false => exact ⟨rfl, by simpa [hneg] using hval⟩
  | true =>
    rw [hneg, if_pos rfl] at hval
    linarith

/-- From `2 ^ (52 + k)` on a double is a multiple of `2 ^ k`. -/
theorem multiple_of_decode {x : UInt64} {q : ℚ} (h : decode x = .fin q) (k : ℕ)
    (hq : 2 ^ (52 + k) ≤ q) : ∃ m : ℕ, q = (2 ^ k * m : ℕ) := by
  obtain ⟨-, rfl⟩ := decodeMag_of_decode h (lt_of_lt_of_le (by positivity) hq)
  apply decodeMag_multiple
  by_contra hlt
  have hsmall := decodeMag_lt (show 1 ≤ 1075 + k by omega) (not_le.mp hlt)
  have hexp : ((1075 + k : ℕ) : ℤ) - 1023 = (52 + k : ℕ) := by push_cast; ring
  rw [hexp, zpow_natCast] at hsmall
  exact absurd hq (not_le.mpr hsmall)

/-- A whole number of a 64-bit integer is stored as its rounding. -/
theorem decode_encode_natCast {n : ℕ} (hn : n < 2 ^ 64) :
    decode (encode (.fin n)) = .fin (roundNat n) := by
  rcases Nat.eq_zero_or_pos n with rfl | h0
  · decide +kernel
  · obtain ⟨hmag, hfin⟩ := decodeMag_encodeMag_natCast h0.ne' hn
    have henc := encode_signed false (show (0 : ℚ) < n by exact_mod_cast h0)
    simp only [Bool.false_eq_true, if_false] at henc
    rw [henc, decode_pattern false hfin, hmag]
    rfl

end Binary64
