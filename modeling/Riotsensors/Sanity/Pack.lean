import Riotsensors.Spec.Packets

/-! What the double conversion computes: the packed bits of every finite double, and
the value that any 64 bits are unpacked to. -/

namespace RS

open Binary64

/-! ## Packing -/

theorem normDown_of_lt {y : ℚ} (h2 : y < 2) (fuel : ℕ) (shift : ℤ) :
    normDown (fuel + 1) (.fin y) shift = some (.fin y, shift) := by
  rw [normDown, if_neg]
  simpa [Value.ge] using h2

theorem normDown_spec {y : ℚ} (h1 : 1 ≤ y) (h2 : y < 2) {fuel k : ℕ} (hk : k < fuel) (shift : ℤ) :
    normDown fuel (.fin (y * 2 ^ k)) shift = some (.fin y, shift + k) := by
  induction k generalizing fuel shift with
  | zero =>
    obtain ⟨fuel, rfl⟩ : ∃ n, fuel = n + 1 := ⟨fuel - 1, by omega⟩
    simpa using normDown_of_lt h2 fuel shift
  | succ k ih =>
    obtain ⟨fuel, rfl⟩ : ∃ n, fuel = n + 1 := ⟨fuel - 1, by omega⟩
    have hpow : (1 : ℚ) ≤ 2 ^ k := one_le_pow₀ one_le_two
    have hge : (2 : ℚ) ≤ y * 2 ^ (k + 1) := by
      rw [pow_succ]
      nlinarith
    have hhalf : (Value.fin (y * 2 ^ (k + 1))).half = .fin (y * 2 ^ k) := by
      rw [Value.half, pow_succ, ← mul_assoc, mul_div_assoc, div_self two_ne_zero, mul_one]
    rw [normDown, if_pos (by simpa [Value.ge] using hge), hhalf, ih (by omega)]
    push_cast
    ring_nf

theorem normUp_of_le {y : ℚ} (h1 : 1 ≤ y) (fuel : ℕ) (shift : ℤ) :
    normUp (fuel + 1) (.fin y) shift = some (.fin y, shift) := by
  rw [normUp, if_neg]
  simpa [Value.lt] using h1

theorem normUp_spec {y : ℚ} (h1 : 1 ≤ y) (h2 : y < 2) {fuel k : ℕ} (hk : k < fuel) (shift : ℤ) :
    normUp fuel (.fin (y / 2 ^ k)) shift = some (.fin y, shift - k) := by
  induction k generalizing fuel shift with
  | zero =>
    obtain ⟨fuel, rfl⟩ : ∃ n, fuel = n + 1 := ⟨fuel - 1, by omega⟩
    simpa using normUp_of_le h1 fuel shift
  | succ k ih =>
    obtain ⟨fuel, rfl⟩ : ∃ n, fuel = n + 1 := ⟨fuel - 1, by omega⟩
    have hpow : (1 : ℚ) ≤ 2 ^ k := one_le_pow₀ one_le_two
    have hlt : y / 2 ^ (k + 1) < 1 := by
      rw [div_lt_one (by positivity), pow_succ]
      linarith
    have hdouble : (Value.fin (y / 2 ^ (k + 1))).double = .fin (y / 2 ^ k) := by
      rw [Value.double, pow_succ]
      field_simp
    rw [normUp, if_pos (by simpa [Value.lt] using hlt), hdouble, ih (by omega)]
    push_cast
    ring_nf

/-- Both loops together find the leading bit. -/
theorem normalise {y : ℚ} (h1 : 1 ≤ y) (h2 : y < 2) {e : ℤ} {fuel : ℕ} (hfuel : e.natAbs < fuel) :
    ∃ fnorm shift, normDown fuel (.fin (y * 2 ^ e)) 0 = some (fnorm, shift) ∧
      normUp fuel fnorm shift = some (.fin y, e) := by
  obtain ⟨k, rfl | rfl⟩ : ∃ k : ℕ, e = k ∨ e = -k := ⟨e.natAbs, by omega⟩
  · refine ⟨.fin y, k, ?_, ?_⟩
    · simpa using normDown_spec h1 h2 (k := k) (by omega) 0
    · obtain ⟨fuel, rfl⟩ : ∃ n, fuel = n + 1 := ⟨fuel - 1, by omega⟩
      exact normUp_of_le h1 fuel k
  · have hpos : y * 2 ^ (-(k : ℤ)) = y / 2 ^ k := by rw [zpow_neg, zpow_natCast, div_eq_mul_inv]
    have hlt : y / 2 ^ k < 2 := by
      have hpow : (1 : ℚ) ≤ 2 ^ k := one_le_pow₀ one_le_two
      rw [div_lt_iff₀ (by positivity)]
      linarith
    refine ⟨.fin (y / 2 ^ k), 0, ?_, ?_⟩
    · obtain ⟨fuel, rfl⟩ : ∃ n, fuel = n + 1 := ⟨fuel - 1, by omega⟩
      rw [hpos]
      exact normDown_of_lt hlt fuel 0
    · simpa using normUp_spec h1 h2 (k := k) (by omega) 0

/-- The half unit that is added to the scale never reaches the next whole number. -/
theorem significand_eq {f : ℕ} (hf : f < 2 ^ 52) :
    ⌊(1 + (f : ℚ) / 2 ^ 52 - 1) * (2 ^ 52 + 1 / 2)⌋ = (f : ℤ) := by
  have hf' : (f : ℚ) < 2 ^ 52 := by exact_mod_cast hf
  have h0 : (0 : ℚ) ≤ f := Nat.cast_nonneg f
  have heq : (1 + (f : ℚ) / 2 ^ 52 - 1) * (2 ^ 52 + 1 / 2) = f + f / 2 ^ 53 := by ring
  have hsmall : (f : ℚ) / 2 ^ 53 < 1 := by
    rw [div_lt_one (by positivity)]
    linarith
  rw [heq, Int.floor_eq_iff]
  push_cast
  constructor
  · have : (0 : ℚ) ≤ f / 2 ^ 53 := by positivity
    linarith
  · linarith

theorem packNormal_spec (s : Bool) {f : ℕ} (hf : f < 2 ^ 52) {e : ℤ} (he : e.natAbs < PACK_FUEL) :
    packNormal PACK_FUEL (if s then 1 else 0) (.fin ((1 + (f : ℚ) / 2 ^ 52) * 2 ^ e)) 64 11 =
      some (packBits (if s then 1 else 0) (e + 1023) f 64 11) := by
  have hf' : (f : ℚ) < 2 ^ 52 := by exact_mod_cast hf
  have h1 : (1 : ℚ) ≤ 1 + (f : ℚ) / 2 ^ 52 := by
    have : (0 : ℚ) ≤ f / 2 ^ 52 := by positivity
    linarith
  have h2 : 1 + (f : ℚ) / 2 ^ 52 < 2 := by
    have : (f : ℚ) / 2 ^ 52 < 1 := by rwa [div_lt_one (by positivity)]
    linarith
  obtain ⟨fnorm, shift, hdown, hup⟩ := normalise h1 h2 he
  have hsig := significand_eq hf
  simp only [packNormal, hdown, hup, Option.bind_eq_bind, Option.bind_some, Nat.reduceSub]
  rw [hsig]
  rfl

theorem pack754_spec (s : Bool) {f : ℕ} (hf : f < 2 ^ 52) {e : ℤ} (he : e.natAbs < PACK_FUEL)
    {x : ℚ} (hx : x = (1 + (f : ℚ) / 2 ^ 52) * 2 ^ e) :
    pack754 (.fin (if s then -x else x)) 64 11 =
      some (packBits (if s then 1 else 0) (e + 1023) f 64 11) := by
  have hpos : 0 < x := by
    have := two_zpow_pos e
    rw [hx]
    positivity
  have hpack := packNormal_spec s hf he
  rw [← hx] at hpack
  cases s with
  | false =>
    have hlt : ¬ x < 0 := by linarith
    simpa [pack754, pack754Fuel, Value.lt, Value.gt, hlt, hpos] using hpack
  | true =>
    simpa [pack754, pack754Fuel, Value.lt, Value.neg, hpos] using hpack

theorem toNat_ofInt (z : ℤ) : (UInt64.ofInt z).toNat = (z % 2 ^ 64).toNat := by
  rw [UInt64.ofInt, UInt64.toNat_ofNat']
  omega

theorem toNat_packBits (s : Bool) (e : ℤ) {f : ℕ} (hf : f < 2 ^ 52) :
    (packBits (if s then 1 else 0) e f 64 11).toNat =
      signBit s ||| 2 ^ 52 * (e % 2 ^ 12).toNat ||| f := by
  have hsign : (UInt64.ofInt ((if s then 1 else 0) * 2 ^ (64 - 1))).toNat = signBit s := by
    cases s <;> rfl
  have hexp : (UInt64.ofInt (e * 2 ^ (64 - 11 - 1))).toNat = 2 ^ 52 * (e % 2 ^ 12).toNat := by
    rw [toNat_ofInt]
    omega
  have hfrac : (UInt64.ofInt (f : ℤ)).toNat = f := by
    rw [toNat_ofInt]
    omega
  rw [packBits, UInt64.toNat_or, UInt64.toNat_or, hsign, hexp, hfrac]

/-- Fields that do not overlap are added. -/
theorem packBits_of_nonneg (s : Bool) {e f : ℕ} (he : e < 2 ^ 11) (hf : f < 2 ^ 52) :
    packBits (if s then 1 else 0) e f 64 11 = pattern s (e * 2 ^ 52 + f) := by
  apply UInt64.toNat_inj.mp
  have hmod : ((e : ℤ) % 2 ^ 12).toNat = e := by omega
  rw [toNat_packBits s e hf, toNat_pattern s (by omega), hmod, Nat.or_assoc,
    ← Nat.two_pow_add_eq_or_of_lt hf]
  cases s with
  | false => simp [signBit, mul_comm]
  | true =>
    have hlow : 2 ^ 52 * e + f < 2 ^ 63 := by omega
    have hor := Nat.two_pow_add_eq_or_of_lt hlow 1
    rw [mul_one] at hor
    simp only [signBit, if_true]
    rw [← hor, mul_comm e]

/-- A negative exponent fills the sign bit and the leading exponent bits. -/
theorem le_packBits_of_neg (s : Bool) {k f : ℕ} (h1 : 1 ≤ k) (hk : k ≤ 51) (hf : f < 2 ^ 52) :
    2 ^ 64 - 51 * 2 ^ 52 ≤ (packBits (if s then 1 else 0) (-(k : ℤ)) f 64 11).toNat := by
  have hmod : (-(k : ℤ) % 2 ^ 12).toNat = 4096 - k := by omega
  rw [toNat_packBits s _ hf, hmod]
  calc 2 ^ 64 - 51 * 2 ^ 52 ≤ 2 ^ 52 * (4096 - k) := by omega
    _ ≤ signBit s ||| 2 ^ 52 * (4096 - k) := Nat.right_le_or
    _ ≤ signBit s ||| 2 ^ 52 * (4096 - k) ||| f := Nat.left_le_or

/-! ### The packed bits of a finite double -/

theorem pack754_zero (s : Bool) : pack754 (decode (pattern s 0)) 64 11 = some 0 := by
  cases s <;> decide +kernel

/-- A normal double is packed to its own pattern. -/
theorem pack754_normal (s : Bool) {n : ℕ} (h1 : 2 ^ 52 ≤ n) (hn : n < 2047 * 2 ^ 52) :
    pack754 (decode (pattern s n)) 64 11 = some (pattern s n) := by
  obtain ⟨e, f, hf, rfl⟩ : ∃ e f, f < 2 ^ 52 ∧ n = e * 2 ^ 52 + f :=
    ⟨n / 2 ^ 52, n % 2 ^ 52, Nat.mod_lt _ (by norm_num), by omega⟩
  have hval : decodeMag (e * 2 ^ 52 + f) = (1 + (f : ℚ) / 2 ^ 52) * 2 ^ ((e : ℤ) - 1023) := by
    rw [decodeMag_normal (by omega) hf,
      show (e : ℤ) - 1023 = e - 1075 + (52 : ℕ) by push_cast; ring,
      zpow_add₀ two_ne_zero, zpow_natCast]
    push_cast
    ring
  rw [decode_pattern s hn, pack754_spec s hf (by change _ < 1100; omega) hval,
    show (e : ℤ) - 1023 + 1023 = (e : ℕ) by ring, packBits_of_nonneg s (by omega) hf]

/-- A subnormal double in terms of its leading bit. -/
theorem decodeMag_subnormal_leading {n k f : ℕ} (hn : n < 2 ^ 52)
    (hf : n * 2 ^ (k + 1) = 2 ^ 52 + f) :
    decodeMag n = (1 + (f : ℚ) / 2 ^ 52) * 2 ^ (-1023 - (k : ℤ)) := by
  have hf' : (n : ℚ) * 2 ^ (k + 1) = 2 ^ 52 + f := by exact_mod_cast hf
  have hsplit : (1 : ℚ) + (f : ℚ) / 2 ^ 52 = n * 2 ^ (k + 1) / 2 ^ 52 := by
    rw [hf']
    ring
  have hexp : (-1074 : ℤ) = ((k + 1 : ℕ) : ℤ) + -(52 : ℕ) + (-1023 - (k : ℤ)) := by
    push_cast
    ring
  rw [decodeMag_subnormal hn, hsplit, hexp, zpow_add₀ two_ne_zero, zpow_add₀ two_ne_zero,
    zpow_neg, zpow_natCast, zpow_natCast]
  ring

theorem pack754_subnormal (s : Bool) {n k f : ℕ} (hn : n < 2 ^ 52) (hk : k ≤ 51)
    (hf : f < 2 ^ 52) (hlead : n * 2 ^ (k + 1) = 2 ^ 52 + f) :
    pack754 (decode (pattern s n)) 64 11 =
      some (packBits (if s then 1 else 0) (-(k : ℤ)) f 64 11) := by
  have hval := decodeMag_subnormal_leading hn hlead
  rw [decode_pattern s (by omega), pack754_spec s hf (by change _ < 1100; omega) hval,
    show -1023 - (k : ℤ) + 1023 = -(k : ℤ) by ring]

/-- With the leading bit in the first place below a normal double, the exponent is zero. -/
theorem pack754_upper_subnormal (s : Bool) {n : ℕ} (h1 : 2 ^ 51 ≤ n) (hn : n < 2 ^ 52) :
    pack754 (decode (pattern s n)) 64 11 = some (pattern s (2 * n - 2 ^ 52)) := by
  have hbits := packBits_of_nonneg s (show 0 < 2 ^ 11 by norm_num)
    (show 2 * n - 2 ^ 52 < 2 ^ 52 by omega)
  have hlead : n * 2 ^ (0 + 1) = 2 ^ 52 + (2 * n - 2 ^ 52) := by omega
  have hpack := pack754_subnormal s hn (Nat.zero_le 51) (by omega) hlead
  rwa [show -((0 : ℕ) : ℤ) = ((0 : ℕ) : ℤ) from rfl, hbits, Nat.zero_mul, Nat.zero_add] at hpack

/-- The bits below the leading one of a subnormal double, shifted up to the fraction. -/
theorem subnormal_leading {n : ℕ} (h0 : 0 < n) (hn : n < 2 ^ 52) :
    2 ^ 52 ≤ n * 2 ^ (51 - Nat.log2 n + 1) ∧ n * 2 ^ (51 - Nat.log2 n + 1) < 2 ^ 53 := by
  have hlog : Nat.log2 n < 52 := (Nat.log2_lt h0.ne').mpr hn
  have hk : Nat.log2 n + (51 - Nat.log2 n + 1) = 52 := by omega
  constructor
  · calc 2 ^ 52 = 2 ^ Nat.log2 n * 2 ^ (51 - Nat.log2 n + 1) := by rw [← pow_add, hk]
      _ ≤ n * 2 ^ (51 - Nat.log2 n + 1) := Nat.mul_le_mul_right _ (Nat.log2_self_le h0.ne')
  · calc n * 2 ^ (51 - Nat.log2 n + 1) < 2 ^ (Nat.log2 n + 1) * 2 ^ (51 - Nat.log2 n + 1) :=
          Nat.mul_lt_mul_of_lt_of_le Nat.lt_log2_self le_rfl (by positivity)
      _ = 2 ^ 53 := by rw [← pow_add]; congr 1; omega

/-- The bits that `pack754` makes of a double: its own ones if it is normal; below, the
fraction from the leading bit on and an exponent that is not positive. -/
def packedBits (d : RsDouble) : UInt64 :=
  let n := mag d
  if n = 0 ∨ 2047 * 2 ^ 52 ≤ n then 0
  else if 2 ^ 52 ≤ n then d
  else
    let k := 51 - Nat.log2 n
    let f := n * 2 ^ (k + 1) - 2 ^ 52
    packBits (if neg d then 1 else 0) (-(k : ℤ)) (f : ℕ) 64 11

theorem pack754_eq {d : RsDouble} (h : ¬ Binary64.Infinite d) :
    pack754 (decode d) 64 11 = some (packedBits d) := by
  unfold Binary64.Infinite at h
  rcases Nat.lt_or_ge (2047 * 2 ^ 52) (mag d) with hnan | hfin
  · rw [decode_nan hnan, packedBits, if_pos (Or.inr hnan.le)]
    rfl
  obtain ⟨s, n, hn, rfl⟩ : ∃ s n, n < 2047 * 2 ^ 52 ∧ d = pattern s n :=
    ⟨neg d, mag d, by omega, (pattern_neg_mag d).symm⟩
  simp only [packedBits, mag_pattern s (show n < 2 ^ 63 by omega),
    neg_pattern s (show n < 2 ^ 63 by omega)]
  rcases Nat.eq_zero_or_pos n with rfl | h0
  · rw [pack754_zero, if_pos (Or.inl rfl)]
  rw [if_neg (by omega)]
  rcases Nat.lt_or_ge n (2 ^ 52) with hsub | hnormal
  · obtain ⟨hlow, hhigh⟩ := subnormal_leading h0 hsub
    have hpack := pack754_subnormal s hsub (k := 51 - Nat.log2 n) (by omega)
      (f := n * 2 ^ (51 - Nat.log2 n + 1) - 2 ^ 52) (by omega) (by omega)
    rw [if_neg (by omega), hpack]
  · rw [if_pos hnormal, pack754_normal s hnormal hn]

/-- Further down the exponent is negative. -/
theorem pack754_lower_subnormal (s : Bool) {n : ℕ} (h0 : 0 < n) (hn : n < 2 ^ 51) :
    ∃ i : UInt64, pack754 (decode (pattern s n)) 64 11 = some i ∧
      2 ^ 64 - 51 * 2 ^ 52 ≤ i.toNat := by
  have hlog : Nat.log2 n < 51 := (Nat.log2_lt h0.ne').mpr hn
  obtain ⟨hlow, hhigh⟩ := subnormal_leading h0 (show n < 2 ^ 52 by omega)
  exact ⟨_, pack754_subnormal s (k := 51 - Nat.log2 n) (by omega) (by omega)
      (f := n * 2 ^ (51 - Nat.log2 n + 1) - 2 ^ 52) (by omega) (by omega),
    le_packBits_of_neg s (by omega) (by omega) (by omega)⟩

theorem normDown_inf (fuel : ℕ) (shift : ℤ) : normDown fuel (.inf false) shift = none := by
  induction fuel generalizing shift with
  | zero => rfl
  | succ fuel ih => exact ih (shift + 1)

/-- No budget suffices for an infinity. -/
theorem pack754Fuel_inf (fuel : ℕ) (s : Bool) (bits expbits : ℕ) :
    pack754Fuel fuel (.inf s) bits expbits = none := by
  cases s <;> simp [pack754Fuel, packNormal, Value.lt, Value.gt, Value.neg, normDown_inf]

/-- Packing ends for every double but the infinities. -/
theorem packResult_eq_none_iff (d : RsDouble) :
    packResult d = none ↔ Binary64.Infinite d := by
  rw [packResult, Option.map_eq_none_iff]
  by_cases h : Binary64.Infinite d
  · rw [decode_infinite h]
    exact iff_of_true (pack754Fuel_inf _ _ _ _) h
  · rw [pack754_eq h]
    exact iff_of_false (by simp) h

/-! ## Unpacking -/

theorem scaleUp_eq (n : ℕ) (q : ℚ) : scaleUp n q = q * 2 ^ n := by
  induction n generalizing q with
  | zero => simp [scaleUp]
  | succ n ih =>
    rw [scaleUp, ih, pow_succ]
    ring

theorem scaleDown_eq (n : ℕ) (q : ℚ) : scaleDown n q = q / 2 ^ n := by
  induction n generalizing q with
  | zero => simp [scaleDown]
  | succ n ih =>
    rw [scaleDown, ih, pow_succ]
    field_simp

/-- Of the two loops one does nothing. -/
theorem scale_eq (shift : ℤ) (q : ℚ) :
    scaleDown (-shift).toNat (scaleUp shift.toNat q) = q * 2 ^ shift := by
  rw [scaleUp_eq, scaleDown_eq]
  obtain ⟨k, rfl | rfl⟩ : ∃ k : ℕ, shift = k ∨ shift = -k := ⟨shift.natAbs, by omega⟩
  · simp
  · simp [zpow_neg, div_eq_mul_inv]

/-- The magnitude unpacked from the low 63 bits. The exponent zero is read like any
other one. -/
def unpackMag (n : ℕ) : ℚ := (2 ^ 52 + n % 2 ^ 52 : ℕ) * 2 ^ (((n / 2 ^ 52 : ℕ) : ℤ) - 1075)

theorem unpackMag_pos (n : ℕ) : 0 < unpackMag n := by
  have := two_zpow_pos (((n / 2 ^ 52 : ℕ) : ℤ) - 1075)
  unfold unpackMag
  positivity

theorem unpack754_eq {s : Bool} {n : ℕ} (hn : n < 2 ^ 63) (h0 : pattern s n ≠ 0) :
    unpack754 (pattern s n) 64 11 = if s then -unpackMag n else unpackMag n := by
  have hnat := toNat_pattern s hn
  have hfrac : (pattern s n).toNat &&& (2 ^ 52 - 1) = n % 2 ^ 52 := by
    rw [Nat.and_two_pow_sub_one_eq_mod, hnat]
    rcases signBit_cases s with h | h <;> omega
  have hexp : ((pattern s n).toNat >>> 52) &&& (2 ^ 11 - 1) = n / 2 ^ 52 := by
    rw [Nat.and_two_pow_sub_one_eq_mod, Nat.shiftRight_eq_div_pow, hnat]
    rcases signBit_cases s with h | h <;> omega
  have hsign : ((pattern s n).toNat >>> 63) &&& 1 = if s then 1 else 0 := by
    rw [Nat.and_one_is_mod, Nat.shiftRight_eq_div_pow, hnat]
    cases s <;> simp only [signBit, Bool.false_eq_true, if_true, if_false] <;> omega
  have hmag : ((n % 2 ^ 52 : ℕ) / 2 ^ 52 + 1 : ℚ) * 2 ^ (((n / 2 ^ 52 : ℕ) : ℤ) - 1023) =
      unpackMag n := by
    rw [unpackMag, show ((n / 2 ^ 52 : ℕ) : ℤ) - 1023 = ((n / 2 ^ 52 : ℕ) : ℤ) - 1075 + (52 : ℕ) by
      push_cast; ring, zpow_add₀ two_ne_zero, zpow_natCast]
    push_cast
    ring
  rw [unpack754, if_neg h0]
  simp only [Nat.reduceSub, scale_eq]
  rw [hfrac, hexp, hsign, show ((2 : ℤ) ^ 10 - 1) = 1023 by norm_num, hmag]
  cases s <;> simp

/-- Read back as a double, the unpacked bits of a normal double are themselves. -/
theorem encode_unpack754 (s : Bool) {n : ℕ} (h1 : 2 ^ 52 ≤ n) (hn : n < 2 ^ 63) :
    encode (.fin (unpack754 (pattern s n) 64 11)) = pattern s (min n (2047 * 2 ^ 52)) := by
  have h0 : pattern s n ≠ 0 := fun h => by
    have := mag_pattern s hn
    rw [h] at this
    change 0 = n at this
    omega
  have henc := encodeMag_normal (show 1 ≤ n / 2 ^ 52 by omega) (Nat.mod_lt n (show 0 < 2 ^ 52 by
    norm_num))
  rw [unpack754_eq hn h0, encode_signed s (unpackMag_pos n), unpackMag, henc]
  congr 2
  omega

/-- Bits with exponent zero are unpacked as if they had the leading bit of a normal
double, one place down. -/
theorem encode_unpack754_subnormal (s : Bool) {m : ℕ} (hm : 2 * m < 2 ^ 52)
    (h0 : pattern s (2 * m) ≠ 0) :
    encode (.fin (unpack754 (pattern s (2 * m)) 64 11)) = pattern s (2 ^ 51 + m) := by
  have hval : unpackMag (2 * m) = ((2 ^ 51 + m : ℕ) : ℚ) * 2 ^ (-1074 : ℤ) := by
    rw [unpackMag, Nat.mod_eq_of_lt hm, Nat.div_eq_of_lt hm,
      show ((0 : ℕ) : ℤ) - 1075 = -1 + -1074 by norm_num, zpow_add₀ two_ne_zero]
    generalize (2 : ℚ) ^ (-1074 : ℤ) = unit
    push_cast
    ring
  rw [unpack754_eq (by omega) h0, encode_signed s (unpackMag_pos _), hval,
    encodeMag_subnormal (by omega) (by omega)]

/-- With exponent zero, an odd last bit is rounded either way. -/
theorem encode_unpack754_low (s : Bool) {n : ℕ} (hn : n < 2 ^ 52) (h0 : pattern s n ≠ 0) :
    ∃ g, encode (.fin (unpack754 (pattern s n) 64 11)) = pattern s g ∧
      2 ^ 51 + n / 2 ≤ g ∧ g ≤ 2 ^ 51 + n / 2 + 1 := by
  have hval : unpackMag n = (2 ^ 52 + n : ℕ) * 2 ^ (-1075 : ℤ) := by
    rw [unpackMag, Nat.mod_eq_of_lt hn, Nat.div_eq_of_lt hn]
    rfl
  have hscale : scale (unpackMag n) = -1022 := by
    have hlead : ((2 ^ 52 + n : ℕ) : ℚ) < 2 ^ (53 : ℤ) := by
      have : 2 ^ 52 + n < 2 ^ 53 := by omega
      exact_mod_cast this
    apply scale_of_lt (unpackMag_pos n)
    calc unpackMag n < 2 ^ (53 : ℤ) * 2 ^ (-1075 : ℤ) := by
          rw [hval]; exact mul_lt_mul_of_pos_right hlead (two_zpow_pos _)
      _ = 2 ^ (-1022 : ℤ) := by rw [← zpow_add₀ two_ne_zero]; norm_num
  have hunits : unpackMag n / 2 ^ (scale (unpackMag n) - 52) = ((2 ^ 52 + n : ℕ) : ℚ) / 2 := by
    rw [hscale, hval, show (-1022 : ℤ) - 52 = -1075 + 1 by norm_num, zpow_add_one₀ two_ne_zero]
    have := (two_zpow_pos (-1075)).ne'
    field_simp
  have hfloor : ⌊((2 ^ 52 + n : ℕ) : ℚ) / 2⌋ = ((2 ^ 51 + n / 2 : ℕ) : ℤ) := by
    have hdiv := Rat.floor_natCast_div_natCast (2 ^ 52 + n) 2
    rw [Nat.cast_two] at hdiv
    rw [hdiv]
    omega
  have hlow := floor_le_rne (((2 ^ 52 + n : ℕ) : ℚ) / 2)
  have hhigh := rne_le_floor_add_one (((2 ^ 52 + n : ℕ) : ℚ) / 2)
  have henc : encodeMag (unpackMag n) = (rne (((2 ^ 52 + n : ℕ) : ℚ) / 2)).toNat := by
    rw [encodeMag, mantissa, hunits, hscale]
    generalize rne (((2 ^ 52 + n : ℕ) : ℚ) / 2) = c at hlow hhigh ⊢
    omega
  refine ⟨encodeMag (unpackMag n), ?_, ?_, ?_⟩
  · rw [unpack754_eq (by omega) h0, encode_signed s (unpackMag_pos _)]
  · omega
  · omega

/-- The double that any 64 bits are unpacked to, by its sign and its magnitude. -/
theorem encode_unpack754_spec {i : UInt64} (h0 : i ≠ 0) :
    ∃ g, encode (.fin (unpack754 i 64 11)) = pattern (neg i) g ∧ g < 2 ^ 63 ∧ 2 ^ 51 ≤ g ∧
      (2 ^ 52 ≤ mag i → g = min (mag i) (2047 * 2 ^ 52)) ∧
      (mag i < 2 ^ 52 → 2 ^ 51 + mag i / 2 ≤ g ∧ g ≤ 2 ^ 51 + mag i / 2 + 1 ∧
        (mag i % 2 = 0 → g = 2 ^ 51 + mag i / 2)) := by
  obtain ⟨s, n, hn, rfl⟩ : ∃ s n, n < 2 ^ 63 ∧ i = pattern s n :=
    ⟨neg i, mag i, Nat.mod_lt _ (by norm_num), (pattern_neg_mag i).symm⟩
  rw [mag_pattern s hn, neg_pattern s hn]
  rcases Nat.lt_or_ge n (2 ^ 52) with hsub | hnormal
  · rcases Nat.mod_two_eq_zero_or_one n with heven | hodd
    · obtain ⟨m, rfl⟩ : ∃ m, n = 2 * m := ⟨n / 2, by omega⟩
      exact ⟨_, encode_unpack754_subnormal s hsub h0, by omega, by omega, by omega, by omega⟩
    · obtain ⟨g, hg, hlow, hhigh⟩ := encode_unpack754_low s hsub h0
      exact ⟨g, hg, by omega, by omega, by omega, by omega⟩
  · exact ⟨_, encode_unpack754 s hnormal hn, by omega, by omega, fun _ => rfl, by omega⟩

/-! ## Through the double field -/

/-- The receiver unpacks the rounding of the packed bits. -/
theorem unpackResult_doubleOfUInt64 (undef i : UInt64) :
    unpackResult undef (doubleOfUInt64 i) =
      encode (.fin (unpack754 (if roundNat i.toNat < 2 ^ 64 then UInt64.ofNat (roundNat i.toNat)
        else undef) 64 11)) := by
  have hrange : (-1 : ℚ) < roundNat i.toNat ∧ (roundNat i.toNat : ℚ) < 2 ^ 64 ↔
      roundNat i.toNat < 2 ^ 64 := by
    constructor
    · intro h
      exact_mod_cast h.2
    · intro h
      exact ⟨by linarith [Nat.cast_nonneg (α := ℚ) (roundNat i.toNat)], by exact_mod_cast h⟩
  rw [unpackResult, doubleOfUInt64, uint64OfDouble, decode_encode_natCast i.toNat_lt]
  simp only [hrange, Int.floor_natCast, Int.toNat_natCast]

end RS
