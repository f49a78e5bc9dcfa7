import Riotsensors.Sanity.Pack
import Riotsensors.Sanity.Packets

/-! Double results: the packed bits are stored in the double field as a number, so that
they keep 53 significant bits of 64. -/

namespace RS

open CMem Binary64

/-- The packet comes back with its result, the sign of a zero apart, and with every other
byte, whatever the machine answers to a conversion out of range. -/
def DoubleSurvives (o : ByteOrder) (pkt : Packet) : Prop :=
  ∀ undef, ∃ wire, htonRsPacketLambdaResultDouble o pkt = some wire ∧
    (getDouble o (ntohRsPacketLambdaResultDouble o undef wire) RESULT = getDouble o pkt RESULT ∨
      getDouble o pkt RESULT = pattern true 0 ∧
        getDouble o (ntohRsPacketLambdaResultDouble o undef wire) RESULT = 0) ∧
    (ntohRsPacketLambdaResultDouble o undef wire).length = pkt.length ∧
    ∀ i < RESULT, byteAt (ntohRsPacketLambdaResultDouble o undef wire) i = byteAt pkt i

/-- The number has at most 53 significant bits. -/
def Fits53 (n : ℕ) : Prop := 2 ^ (Nat.log2 n - 52) ∣ n

/-- The double is zero, or normal with a pattern of at most 53 significant bits, or in the
upper half of the subnormal range: there the smallest positive one is packed to zero, and
a negative one must leave the low bits of its fraction free. -/
def PacksExactly (d : RsDouble) : Prop :=
  mag d = 0 ∨ (2 ^ 52 ≤ mag d ∧ Fits53 d.toNat) ∨
    (2 ^ 51 ≤ mag d ∧ mag d < 2 ^ 52 ∧ d.toNat ≠ 2 ^ 51 ∧ (neg d = true → 2 ^ 10 ∣ mag d))

instance (n : ℕ) : Decidable (Fits53 n) := by unfold Fits53; infer_instance

instance (d : RsDouble) : Decidable (PacksExactly d) := by unfold PacksExactly; infer_instance

/-! ## The result alone -/

/-- A normal double survives exactly when the double field can hold its pattern. -/
theorem unpackResult_normal (s : Bool) {n : ℕ} (h1 : 2 ^ 52 ≤ n) (hn : n < 2047 * 2 ^ 52)
    (undef : UInt64) :
    unpackResult undef (doubleOfUInt64 (pattern s n)) = pattern s n ↔
      Fits53 (pattern s n).toNat := by
  have hnat := toNat_pattern s (show n < 2 ^ 63 by omega)
  obtain ⟨hlow, hhigh⟩ := roundNat_bounds (pattern s n).toNat_lt
  rw [Fits53, ← roundNat_eq_self_iff, unpackResult_doubleOfUInt64]
  rw [hnat] at hlow hhigh ⊢
  -- rounding stays between the smallest normal and the infinity of the sign
  have hsign := signBit_cases s
  obtain ⟨m, hm, hm1, hm2⟩ : ∃ m, roundNat (signBit s + n) = signBit s + m ∧
      2 ^ 52 ≤ m ∧ m ≤ 2047 * 2 ^ 52 :=
    ⟨roundNat (signBit s + n) - signBit s, by omega, by omega, by omega⟩
  have hlt : signBit s + m < 2 ^ 64 := by omega
  have hback : UInt64.ofNat (signBit s + m) = pattern s m := rfl
  rw [hm, if_pos hlt, hback, encode_unpack754 s hm1 (by omega), Nat.min_eq_left hm2]
  constructor
  · intro h
    have := congrArg mag h
    rw [mag_pattern s (by omega), mag_pattern s (by omega)] at this
    omega
  · intro h
    rw [show m = n by omega]

theorem log2_of_top {n : ℕ} (h1 : 2 ^ 63 ≤ n) (h2 : n < 2 ^ 64) : Nat.log2 n = 63 :=
  (Nat.log2_eq_iff (by omega)).mpr ⟨h1, h2⟩

/-- In the upper half of the subnormal range a positive double survives unless its packed
bits are zero. -/
theorem unpackResult_upper_pos {m : ℕ} (hm : m < 2 ^ 51) (undef : UInt64) :
    unpackResult undef (doubleOfUInt64 (pattern false (2 * m))) = pattern false (2 ^ 51 + m) ↔
      m ≠ 0 := by
  have hnat : (pattern false (2 * m)).toNat = 2 * m := by
    rw [toNat_pattern false (by omega)]
    exact Nat.zero_add _
  have hround : roundNat (2 * m) = 2 * m := by
    rw [roundNat_eq_self_iff]
    rcases Nat.eq_zero_or_pos m with rfl | h0
    · exact dvd_zero _
    · have hlog : Nat.log2 (2 * m) < 52 := (Nat.log2_lt (by omega)).mpr (by omega)
      rw [Nat.sub_eq_zero_of_le hlog.le, pow_zero]
      exact one_dvd _
  have hback : UInt64.ofNat (2 * m) = pattern false (2 * m) := by
    rw [← hnat, UInt64.ofNat_toNat, hnat]
  rw [unpackResult_doubleOfUInt64, hnat, hround, if_pos (by omega), hback]
  rcases Nat.eq_zero_or_pos m with rfl | h0
  · simp only [ne_eq, not_true_eq_false, iff_false]
    decide +kernel
  · have hne : pattern false (2 * m) ≠ 0 := fun h => by
      have := congrArg UInt64.toNat h
      rw [hnat] at this
      change 2 * m = 0 at this
      omega
    rw [encode_unpack754_subnormal false (by omega) hne]
    exact iff_of_true rfl h0.ne'

/-- A negative one loses the bits below the 53 leading ones of its packed pattern. -/
theorem unpackResult_upper_neg {m : ℕ} (hm : m < 2 ^ 51) (undef : UInt64) :
    unpackResult undef (doubleOfUInt64 (pattern true (2 * m))) = pattern true (2 ^ 51 + m) ↔
      2 ^ 10 ∣ m := by
  have hnat : (pattern true (2 * m)).toNat = 2 ^ 63 + 2 * m := toNat_pattern true (by omega)
  have hlog := log2_of_top (show 2 ^ 63 ≤ 2 ^ 63 + 2 * m by omega) (by omega)
  have hdvd := dvd_roundNat (2 ^ 63 + 2 * m)
  have hself := @roundNat_eq_self_iff (2 ^ 63 + 2 * m)
  rw [hlog] at hdvd hself
  obtain ⟨hlow, hhigh⟩ := roundNat_bounds (show 2 ^ 63 + 2 * m < 2 ^ 64 by omega)
  obtain ⟨r, hr, hr2⟩ : ∃ r, roundNat (2 ^ 63 + 2 * m) = 2 ^ 63 + 2 * r ∧ r ≤ 2 ^ 51 := by
    obtain ⟨c, hc⟩ := hdvd
    exact ⟨2 ^ 10 * c - 2 ^ 62, by omega, by omega⟩
  have hback : UInt64.ofNat (2 ^ 63 + 2 * r) = pattern true (2 * r) := rfl
  have hgot : encode (.fin (unpack754 (pattern true (2 * r)) 64 11)) =
      pattern true (2 ^ 51 + r) := by
    rcases hr2.lt_or_eq with hlt | rfl
    · apply encode_unpack754_subnormal true (by omega)
      intro h
      have := congrArg neg h
      rw [neg_pattern true (by omega)] at this
      exact absurd this (by decide)
    · -- rounded up to the smallest normal double
      exact encode_unpack754 true (by norm_num) (by norm_num)
  rw [unpackResult_doubleOfUInt64, hnat, hr, if_pos (by omega), hback, hgot]
  rw [hr] at hself
  constructor
  · intro h
    have := congrArg mag h
    rw [mag_pattern true (by omega), mag_pattern true (by omega)] at this
    have := hself.mp (by omega)
    omega
  · intro h
    have := hself.mpr (by omega)
    rw [show r = m by omega]

/-- Below, the packed exponent is negative, and what is unpacked is huge or zero. -/
theorem unpackResult_lower {i : UInt64} (hi : 2 ^ 64 - 51 * 2 ^ 52 ≤ i.toNat) (s : Bool) {n : ℕ}
    (h0 : 0 < n) (hn : n < 2 ^ 51) : unpackResult 0 (doubleOfUInt64 i) ≠ pattern s n := by
  have hlt := i.toNat_lt
  obtain ⟨hlow, hhigh⟩ := roundNat_bounds hlt
  rw [unpackResult_doubleOfUInt64]
  split_ifs with hin
  · obtain ⟨m, hm, hm1, hm2⟩ : ∃ m, roundNat i.toNat = 2 ^ 63 + m ∧ 2 ^ 52 ≤ m ∧ m < 2 ^ 63 :=
      ⟨roundNat i.toNat - 2 ^ 63, by omega, by omega, by omega⟩
    have hback : UInt64.ofNat (2 ^ 63 + m) = pattern true m := rfl
    rw [hm, hback, encode_unpack754 true hm1 hm2]
    intro h
    have := congrArg mag h
    rw [mag_pattern true (by omega), mag_pattern s (by omega)] at this
    omega
  · intro h
    have := congrArg mag h
    rw [mag_pattern s (by omega)] at this
    change 0 = n at this
    omega

/-- The conversions of the field on their own. -/
def ResultSurvives (d : RsDouble) : Prop :=
  ∀ undef, ∃ wire, packResult d = some wire ∧
    (unpackResult undef wire = d ∨ d = pattern true 0 ∧ unpackResult undef wire = 0)

theorem resultSurvives_zero (s : Bool) : ResultSurvives (pattern s 0) := by
  intro undef
  have hzero : unpackResult undef (doubleOfUInt64 0) = 0 := by
    have hround : roundNat 0 = 0 := roundNat_eq_self_iff.mpr (dvd_zero _)
    rw [unpackResult_doubleOfUInt64, UInt64.toNat_zero, hround, if_pos (by norm_num)]
    decide +kernel
  refine ⟨doubleOfUInt64 0, by rw [packResult, pack754_zero]; rfl, ?_⟩
  cases s with
  | false => exact Or.inl hzero
  | true => exact Or.inr ⟨rfl, hzero⟩

theorem resultSurvives_of_packed {s : Bool} {n : ℕ} {i : UInt64} (h0 : 0 < n) (hn : n < 2 ^ 63)
    (hpack : pack754 (decode (pattern s n)) 64 11 = some i) :
    ResultSurvives (pattern s n) ↔
      ∀ undef, unpackResult undef (doubleOfUInt64 i) = pattern s n := by
  have hnz : pattern s n ≠ pattern true 0 := fun h => by
    have := congrArg mag h
    rw [mag_pattern s hn, mag_pattern true (by norm_num)] at this
    omega
  simp only [ResultSurvives, packResult, hpack, Option.map_some, Option.some.injEq,
    exists_eq_left', hnz, false_and, or_false]

theorem resultSurvives_iff {d : RsDouble} (hfin : Binary64.Finite d) :
    ResultSurvives d ↔ PacksExactly d := by
  obtain ⟨s, n, hn, rfl⟩ : ∃ s n, n < 2047 * 2 ^ 52 ∧ d = pattern s n :=
    ⟨neg d, mag d, hfin, (pattern_neg_mag d).symm⟩
  have hnat := toNat_pattern s (show n < 2 ^ 63 by omega)
  have hsign := signBit_cases s
  rw [PacksExactly, mag_pattern s (by omega), neg_pattern s (by omega)]
  rcases Nat.eq_zero_or_pos n with rfl | h0
  · exact iff_of_true (resultSurvives_zero s) (Or.inl rfl)
  rcases lt_or_ge n (2 ^ 51) with hlow | hup
  · -- leading bit below the upper half of the subnormal range
    obtain ⟨i, hpack, hi⟩ := pack754_lower_subnormal s h0 hlow
    rw [resultSurvives_of_packed h0 (by omega) hpack]
    refine iff_of_false (fun h => unpackResult_lower hi s h0 hlow (h 0)) ?_
    omega
  rcases lt_or_ge n (2 ^ 52) with hsub | hnormal
  · obtain ⟨m, rfl⟩ : ∃ m, n = 2 ^ 51 + m := ⟨n - 2 ^ 51, by omega⟩
    have hpack := pack754_upper_subnormal s hup hsub
    rw [show 2 * (2 ^ 51 + m) - 2 ^ 52 = 2 * m by omega] at hpack
    rw [resultSurvives_of_packed h0 (by omega) hpack]
    rw [hnat]
    cases s with
    | false =>
      simp only [unpackResult_upper_pos (show m < 2 ^ 51 by omega), forall_const]
      have hzero : signBit false = 0 := rfl
      rw [hzero]
      simp only [Bool.false_eq_true, false_implies, and_true]
      omega
    | true =>
      simp only [unpackResult_upper_neg (show m < 2 ^ 51 by omega), forall_const]
      have htop : signBit true = 2 ^ 63 := rfl
      rw [htop]
      omega
  · rw [resultSurvives_of_packed h0 (by omega) (pack754_normal s hnormal hn)]
    simp only [unpackResult_normal s hnormal hn, forall_const]
    constructor
    · intro h
      exact Or.inr (Or.inl ⟨hnormal, h⟩)
    · rintro (h | h | h)
      · omega
      · exact h.2
      · omega

/-! ## The packet -/

/-- Both conversions assign the result and nothing else. -/
theorem doubleSurvives_iff_result (o : ByteOrder) {pkt : Packet}
    (hlen : pkt.length = SIZEOF_RS_PACKET_LAMBDA_RESULT_DOUBLE) :
    DoubleSurvives o pkt ↔ ResultSurvives (getDouble o pkt RESULT) := by
  have hfield : ∀ d : RsDouble, (setField pkt RESULT (o.write 8 d.toNat)).length =
      SIZEOF_RS_PACKET_LAMBDA_RESULT_DOUBLE := fun d => by rw [length_setField, hlen]
  simp only [DoubleSurvives, ResultSurvives, htonRsPacketLambdaResultDouble,
    htonRsPacketLambdaResult, htonRsPacketBase, ntohRsPacketLambdaResultDouble,
    ntohRsPacketLambdaResult, ntohRsPacketBase, Option.map_eq_some_iff]
  refine forall_congr' fun undef => ⟨?_, ?_⟩
  · rintro ⟨_, ⟨wire, hwire, rfl⟩, hres, -, -⟩
    rw [getDouble_setField o hlen, getDouble_setField o (hfield wire)] at hres
    exact ⟨wire, hwire, hres⟩
  · rintro ⟨wire, hwire, hres⟩
    refine ⟨_, ⟨wire, hwire, rfl⟩, ?_, ?_, ?_⟩
    · rw [getDouble_setField o hlen, getDouble_setField o (hfield wire)]
      exact hres
    · rw [length_setField, length_setField]
    · intro i hi
      rw [byteAt_setField_of_lt hi, byteAt_setField_of_lt hi]

/-- Of all finite doubles, those that the double field can carry in packed form survive. -/
theorem double_survives_iff (o : ByteOrder) {pkt : Packet}
    (hlen : pkt.length = SIZEOF_RS_PACKET_LAMBDA_RESULT_DOUBLE)
    (hfin : Binary64.Finite (getDouble o pkt RESULT)) :
    DoubleSurvives o pkt ↔ PacksExactly (getDouble o pkt RESULT) := by
  rw [doubleSurvives_iff_result o hlen, resultSurvives_iff hfin]

/-- A result packet of zero bytes up to the result. -/
def doublePacket (d : RsDouble) : Packet :=
  List.replicate 14 0 ++ ByteOrder.little.write 8 d.toNat

theorem double_survives_iff_forty_two :
    DoubleSurvives .little (doublePacket 0x4045000000000000) ↔
      PacksExactly (getDouble .little (doublePacket 0x4045000000000000) RESULT) :=
  double_survives_iff .little (by decide) (by decide)

/-- The pattern of 0.1 has more than 53 significant bits. -/
theorem one_tenth_does_not_survive :
    ¬ ∀ (o : ByteOrder) (pkt : Packet), pkt.length = SIZEOF_RS_PACKET_LAMBDA_RESULT_DOUBLE →
      Binary64.Finite (getDouble o pkt RESULT) → DoubleSurvives o pkt := by
  intro h
  have hlen : (doublePacket 0x3FB999999999999A).length = SIZEOF_RS_PACKET_LAMBDA_RESULT_DOUBLE := by
    decide
  have hfin : Binary64.Finite (getDouble .little (doublePacket 0x3FB999999999999A) RESULT) := by
    decide
  have hsurvives := h .little _ hlen hfin
  rw [doubleSurvives_iff_result .little hlen, resultSurvives_iff hfin] at hsurvives
  exact absurd hsurvives (by decide)

end RS
