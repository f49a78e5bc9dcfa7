import Riotsensors.Sanity.Pack
import Riotsensors.Sanity.Wire

/-! Which packets read alike on hosts of either byte order. Bytes do, and the length of a
string, which is converted; the integer and the double are sent as they lie in memory. -/

namespace RS

open CMem Binary64

/-- A double with its bytes in the opposite order. -/
def swapDouble (d : RsDouble) : RsDouble := UInt64.ofNat (ByteOrder.swapped 8 d.toNat)

/-- The stored number is unpacked to the infinity of this sign. -/
def UnpacksToInfinity (s : Bool) (d : RsDouble) : Prop :=
  neg (uint64OfDouble 0 d) = s ∧ 2047 * 2 ^ 52 ≤ mag (uint64OfDouble 0 d)

instance (s : Bool) (d : RsDouble) : Decidable (UnpacksToInfinity s d) := by
  unfold UnpacksToInfinity; infer_instance

/-- The bytes are a palindrome, or both readings are beyond the largest double. -/
def StoredAlike (d : RsDouble) : Prop :=
  swapDouble d = d ∨ ∃ s, UnpacksToInfinity s d ∧ UnpacksToInfinity s (swapDouble d)

/-- The hosts have one byte order, or the integer is the same in both. Of a double the number
of its packed bits is stored, which only exists if the packing ends. -/
def ReadsAlike (o o' : ByteOrder) : Fields → Prop
  | .lambdaResultInt _ result =>
    o = o' ∨ ByteOrder.swapped 4 result.toUInt32.toNat = result.toUInt32.toNat
  | .lambdaResultDouble _ result =>
    ¬ Binary64.Infinite result ∧ (o = o' ∨ StoredAlike (doubleOfUInt64 (packedBits result)))
  | _ => True

/-! ## The stored number -/

theorem uint64OfDouble_cases (d : RsDouble) :
    (∃ q : ℚ, decode d = .fin q ∧ q < 2 ^ 64 ∧
      ∀ undef, uint64OfDouble undef d = UInt64.ofNat ⌊q⌋.toNat) ∨
    ∀ undef, uint64OfDouble undef d = undef := by
  unfold uint64OfDouble
  cases decode d with
  | nan => exact Or.inr fun _ => rfl
  | inf s => exact Or.inr fun _ => rfl
  | fin q =>
    by_cases hq : -1 < q ∧ q < 2 ^ 64
    · exact Or.inl ⟨q, rfl, hq.2, fun _ => if_pos hq⟩
    · exact Or.inr fun _ => if_neg hq

theorem unpackResult_infinity {s : Bool} {d : RsDouble} (h : UnpacksToInfinity s d)
    (undef : UInt64) : unpackResult undef d = pattern s (2047 * 2 ^ 52) := by
  obtain ⟨hneg, hmag⟩ := h
  have hundef : uint64OfDouble undef d = uint64OfDouble 0 d := by
    rcases uint64OfDouble_cases d with ⟨q, -, -, hq⟩ | hout
    · rw [hq, hq]
    · rw [hout 0] at hmag
      exact absurd hmag (by decide)
  have hback := encode_unpack754 s (n := mag (uint64OfDouble 0 d)) (by omega)
    (Nat.mod_lt _ (by norm_num))
  rw [← hneg, pattern_neg_mag, hneg, Nat.min_eq_right hmag] at hback
  rw [unpackResult, hundef, hback]

/-- Unpacked bits are zero for zero only. -/
theorem encode_unpack754_ne_zero {i : UInt64} (h0 : i ≠ 0) :
    encode (.fin (unpack754 i 64 11)) ≠ 0 := by
  obtain ⟨g, hg, hlt, hlow, -⟩ := encode_unpack754_spec h0
  intro h
  have hmag := mag_pattern (neg i) hlt
  rw [← hg, h] at hmag
  change 0 = g at hmag
  omega

theorem encode_unpack754_zero : encode (.fin (unpack754 0 64 11)) = 0 := by decide +kernel

/-- A number of 64 bits, as it is stored: its leading bit gives the exponent. -/
theorem mag_doubleOfUInt64 {n : ℕ} (h0 : 0 < n) (hn : n < 2 ^ 52) :
    encodeMag n = (1022 + Nat.log2 n) * 2 ^ 52 + n * 2 ^ (52 - Nat.log2 n) := by
  have hlog : Nat.log2 n < 52 := (Nat.log2_lt h0.ne').mpr hn
  have hscale : scale (n : ℚ) = Nat.log2 n := by
    rw [scale, log2_natCast h0.ne']
    omega
  have hunits : (n : ℚ) = (n * 2 ^ (52 - Nat.log2 n) : ℕ) * 2 ^ ((Nat.log2 n : ℤ) - 52) := by
    have hsplit : ((Nat.log2 n : ℤ) - 52) = -((52 - Nat.log2 n : ℕ) : ℤ) := by omega
    rw [hsplit, zpow_neg, zpow_natCast]
    push_cast
    field_simp
  have hhigh : n * 2 ^ (52 - Nat.log2 n) < 2 ^ 53 := by
    calc n * 2 ^ (52 - Nat.log2 n) < 2 ^ (Nat.log2 n + 1) * 2 ^ (52 - Nat.log2 n) :=
          Nat.mul_lt_mul_of_lt_of_le Nat.lt_log2_self le_rfl (by positivity)
      _ = 2 ^ 53 := by rw [← pow_add]; congr 1; omega
  rw [encodeMag_of_scaled hscale hunits]
  have hexp : ((Nat.log2 n : ℤ) + 1022).toNat = 1022 + Nat.log2 n := by omega
  rw [hexp, Nat.min_eq_left (by omega)]

/-- The last byte of a stored number is free where the number has few bits. -/
theorem last_byte_doubleOfUInt64 {n a j : ℕ} (hna : n < 2 ^ a) (haj : a + j ≤ 53) (hj : j ≤ 8) :
    2 ^ j ∣ n * 2 ^ (52 - Nat.log2 n) % 256 := by
  have hlog : Nat.log2 n + j ≤ 52 := by
    rcases Nat.eq_zero_or_pos n with rfl | h0
    · simp; omega
    · have := (Nat.log2_lt h0.ne').mpr hna
      omega
  have hdvd : 2 ^ j ∣ n * 2 ^ (52 - Nat.log2 n) :=
    Dvd.dvd.mul_left (pow_dvd_pow 2 (by omega)) n
  exact (Nat.dvd_mod_iff (show 2 ^ j ∣ 256 from pow_dvd_pow 2 hj)).mpr hdvd

theorem toNat_swapDouble (d : RsDouble) :
    (swapDouble d).toNat = ByteOrder.swapped 8 d.toNat ∧
      (swapDouble d).toNat / 2 ^ 56 = d.toNat % 256 := by
  have hlt := ByteOrder.swapped_lt 8 d.toNat
  have hswap : (swapDouble d).toNat = ByteOrder.swapped 8 d.toNat := by
    rw [swapDouble, UInt64.toNat_ofNat']
    exact Nat.mod_eq_of_lt hlt
  refine ⟨hswap, ?_⟩
  rw [hswap]
  exact ByteOrder.swapped_div 7 d.toNat

/-- The double of a whole number, by its sign and magnitude. -/
theorem mag_of_decode_natCast {d : RsDouble} {n : ℕ} (h0 : 0 < n) (hd : decode d = .fin n) :
    neg d = false ∧ mag d = encodeMag n := by
  obtain ⟨hneg, hval⟩ := decodeMag_of_decode hd (by exact_mod_cast h0)
  refine ⟨hneg, ?_⟩
  rw [← hval, encodeMag_decodeMag]
  · exact Nat.pos_of_ne_zero fun h => by
      rw [h, decodeMag_subnormal (by norm_num)] at hval
      simp only [Nat.cast_zero, zero_mul] at hval
      have : n = 0 := by exact_mod_cast hval.symm
      omega
  · exact (finite_of_decode hd).1

/-- A number below `2 ^ 52` leaves the last bits of its double free. Swapped they lead, and
what is read is below one, too large, or well below the number. -/
theorem swapDouble_of_small {d : RsDouble} {n : ℕ} {q : ℚ} (h0 : 0 < n) (hn : n < 2 ^ 52)
    (hd : decode d = .fin n) (hq : decode (swapDouble d) = .fin q) (h1 : 1 ≤ q)
    (hlt : q < 2 ^ 64) : (2 ^ 46 ≤ n ∧ q < 2 ^ 17) ∨ (2 ^ 51 ≤ n ∧ q < 2 ^ 49) := by
  obtain ⟨hneg, hval⟩ := decodeMag_of_decode hq (by linarith)
  -- the byte that leads after swapping
  obtain ⟨hdneg, hmag⟩ := mag_of_decode_natCast h0 hd
  have hlast : d.toNat % 256 = n * 2 ^ (52 - Nat.log2 n) % 256 := by
    rw [toNat_eq d, hdneg, hmag, mag_doubleOfUInt64 h0 hn]
    simp only [signBit, Bool.false_eq_true, if_false]
    omega
  have hlead := (toNat_swapDouble d).2
  have hnat : (swapDouble d).toNat = mag (swapDouble d) := by
    rw [toNat_eq, hneg]
    exact Nat.zero_add _
  rw [hlast, hnat] at hlead
  -- its range
  have hge : 1023 * 2 ^ 52 ≤ mag (swapDouble d) := by
    by_contra hlow
    have := decodeMag_lt (show 1 ≤ 1023 by norm_num) (not_le.mp hlow)
    rw [hval] at this
    norm_num at this
    linarith
  have hle : mag (swapDouble d) < 1087 * 2 ^ 52 := by
    by_contra hhigh
    have := le_decodeMag (show 1 ≤ 1087 by norm_num) (not_lt.mp hhigh)
    rw [hval] at this
    norm_num at this
    linarith
  have heven := last_byte_doubleOfUInt64 hn (j := 1) (by norm_num) (by norm_num)
  rcases Nat.lt_or_ge (mag (swapDouble d)) (1040 * 2 ^ 52) with hlow | hlow
  · left
    constructor
    · by_contra hfew
      have := last_byte_doubleOfUInt64 (not_le.mp hfew) (j := 7) (by norm_num) (by norm_num)
      omega
    · have := decodeMag_lt (show 1 ≤ 1040 by norm_num) hlow
      rw [hval] at this
      norm_num at this
      linarith
  · right
    have hlt' : mag (swapDouble d) < 1072 * 2 ^ 52 := by omega
    constructor
    · by_contra hfew
      have := last_byte_doubleOfUInt64 (not_le.mp hfew) (j := 2) (by norm_num) (by norm_num)
      omega
    · have := decodeMag_lt (show 1 ≤ 1072 by norm_num) hlt'
      rw [hval] at this
      norm_num at this
      linarith

/-- Unpacking tells any two numbers apart that are in range and not next to each other. -/
theorem encode_unpack754_eq {i j : UInt64} (hi0 : i ≠ 0) (hj0 : j ≠ 0)
    (h : encode (.fin (unpack754 i 64 11)) = encode (.fin (unpack754 j 64 11))) :
    neg i = neg j ∧ ((2047 * 2 ^ 52 ≤ mag i ∧ 2047 * 2 ^ 52 ≤ mag j) ∨
      (mag i ≤ mag j + 3 ∧ (mag i % 2 = 0 → mag j % 2 = 0 → mag i = mag j) ∧
        (2 ^ 52 ≤ mag i → mag i = mag j ∨ mag i = 2 ^ 52))) := by
  obtain ⟨g, hg, hg63, hg51, hgnorm, hgsub⟩ := encode_unpack754_spec hi0
  obtain ⟨g', hg', hg63', hg51', hgnorm', hgsub'⟩ := encode_unpack754_spec hj0
  rw [hg, hg'] at h
  have hsign := congrArg neg h
  have hmag := congrArg mag h
  rw [neg_pattern _ hg63, neg_pattern _ hg63'] at hsign
  rw [mag_pattern _ hg63, mag_pattern _ hg63'] at hmag
  refine ⟨hsign, ?_⟩
  omega

theorem ofNat_ne_zero {n : ℕ} (h0 : n ≠ 0) (hn : n < 2 ^ 64) : UInt64.ofNat n ≠ 0 := by
  intro h
  have := congrArg UInt64.toNat h
  rw [UInt64.toNat_ofNat', Nat.mod_eq_of_lt hn] at this
  exact h0 this

/-- The integer part of a double from one on. From `2 ^ 52` on it is the double itself. -/
theorem floor_of_decode {d : RsDouble} {q : ℚ} (hq : decode d = .fin q) (h1 : 1 ≤ q) :
    ∃ m : ℕ, ⌊q⌋ = m ∧ m ≠ 0 ∧ (∀ k : ℕ, q < 2 ^ k → m < 2 ^ k) ∧
      ∀ k : ℕ, 2 ^ (52 + k) ≤ m → q = m ∧ 2 ^ k ∣ m := by
  have hone : 1 ≤ ⌊q⌋ := Int.le_floor.mpr (by simpa using h1)
  obtain ⟨m, hm⟩ : ∃ m : ℕ, ⌊q⌋ = m := ⟨⌊q⌋.toNat, by omega⟩
  refine ⟨m, hm, by omega, fun k hk => ?_, fun k hk => ?_⟩
  · have hfloor := Int.floor_lt.mpr (show q < ((2 ^ k : ℤ) : ℚ) by exact_mod_cast hk)
    rw [hm] at hfloor
    exact_mod_cast hfloor
  · have hle := Int.floor_le q
    rw [hm] at hle
    obtain ⟨c, hc⟩ := multiple_of_decode hq k (le_trans (by exact_mod_cast hk) hle)
    rw [hc, Int.floor_natCast, Int.natCast_inj] at hm
    rw [← hm]
    exact ⟨hc, dvd_mul_right _ _⟩

/-- The swapped bytes of the double of `2 ^ 52` are read as less than one. -/
theorem swapDouble_of_two_pow {d : RsDouble} (hd : decode d = .fin (2 ^ 52 : ℕ)) {q : ℚ}
    (hq : decode (swapDouble d) = .fin q) : q < 1 := by
  by_contra h1
  have hconst : d = 0x4330000000000000 := by
    refine eq_of_decode_eq hd ?_ (by norm_num)
    decide +kernel
  have hsub : mag (swapDouble d) < 1023 * 2 ^ 52 := by
    rw [hconst]
    decide +kernel
  have hval := decodeMag_lt (by norm_num) hsub
  rw [(decodeMag_of_decode hq (by linarith)).2] at hval
  norm_num at hval
  linarith

/-- A number that is unpacked like the one read from its swapped bytes is that one, except
beyond the largest double. -/
theorem unpacked_alike {d : RsDouble} {n : ℕ} {q : ℚ} (h0 : n ≠ 0) (hn : n < 2 ^ 64)
    (hround : 2 ^ 63 ≤ n → 2 ∣ n) (hd : decode d = .fin n)
    (hq : decode (swapDouble d) = .fin q) (h1 : 1 ≤ q) (hlt : q < 2 ^ 64)
    (h : encode (.fin (unpack754 (UInt64.ofNat n) 64 11)) =
      encode (.fin (unpack754 (UInt64.ofNat ⌊q⌋.toNat) 64 11))) :
    q = n ∨ neg (UInt64.ofNat n) = neg (UInt64.ofNat ⌊q⌋.toNat) ∧
      2047 * 2 ^ 52 ≤ mag (UInt64.ofNat n) ∧ 2047 * 2 ^ 52 ≤ mag (UInt64.ofNat ⌊q⌋.toNat) := by
  obtain ⟨m, hm, hm0, hmlt, hwhole⟩ := floor_of_decode hq h1
  rw [hm, Int.toNat_natCast] at h ⊢
  have hm64 := hmlt 64 hlt
  obtain ⟨hsign, hcases⟩ := encode_unpack754_eq (ofNat_ne_zero h0 hn) (ofNat_ne_zero hm0 hm64) h
  have hnsplit := toNat_eq (UInt64.ofNat n)
  have hmsplit := toNat_eq (UInt64.ofNat m)
  rw [UInt64.toNat_ofNat', Nat.mod_eq_of_lt hn] at hnsplit
  rw [UInt64.toNat_ofNat', Nat.mod_eq_of_lt hm64, ← hsign] at hmsplit
  rcases hcases with hover | ⟨hclose, heven, hexact⟩
  · exact Or.inr ⟨hsign, hover⟩
  left
  have hsame : mag (UInt64.ofNat n) = mag (UInt64.ofNat m) → 2 ^ 52 ≤ m → q = n := by
    intro hmag hbig
    rw [(hwhole 0 hbig).1, show m = n by omega]
  cases hs : neg (UInt64.ofNat n) with
  | true =>
    -- from `2 ^ 63` on both numbers are even
    rw [hs, signBit, if_pos rfl] at hnsplit hmsplit
    have hneven := hround (by omega)
    obtain ⟨-, hmeven⟩ := hwhole 1 (by omega)
    exact hsame (by omega) (by omega)
  | false =>
    rw [hs, signBit, if_neg Bool.false_ne_true, Nat.zero_add] at hnsplit hmsplit
    rcases Nat.lt_or_ge n (2 ^ 52) with hsmall | hbig
    · -- the double of a small number is read well below it
      rcases swapDouble_of_small (Nat.pos_of_ne_zero h0) hsmall hd hq h1 hlt with
        ⟨hlow, hq'⟩ | ⟨hlow, hq'⟩
      · have := hmlt 17 hq'
        omega
      · have := hmlt 49 hq'
        omega
    rcases hexact (by omega) with hmag | htwo
    · exact hsame hmag (by omega)
    · obtain rfl : n = 2 ^ 52 := by omega
      exact absurd (swapDouble_of_two_pow hd hq) (not_lt.mpr h1)

/-- What a 64-bit number is stored as. -/
theorem stored_cases (i : UInt64) :
    decode (doubleOfUInt64 i) = .fin (roundNat i.toNat) ∧ roundNat i.toNat ≤ 2 ^ 64 ∧
      (i ≠ 0 → roundNat i.toNat ≠ 0) ∧ (2 ^ 63 ≤ roundNat i.toNat → 2 ∣ roundNat i.toNat) := by
  have hi := i.toNat_lt
  obtain ⟨-, hhigh⟩ := roundNat_bounds hi
  refine ⟨decode_encode_natCast hi, by omega, ?_, fun hbig => ?_⟩
  · intro h0 hzero
    have hne : i.toNat ≠ 0 := fun h => h0 (UInt64.toNat_inj.mp h)
    have hlead := le_roundNat (pow_dvd_pow 2 (Nat.sub_le _ _)) (Nat.log2_self_le hne)
    have := Nat.two_pow_pos (Nat.log2 i.toNat)
    omega
  · rcases Nat.lt_or_ge i.toNat (2 ^ 63) with hlt | hge
    · have : roundNat i.toNat = 2 ^ 63 := by omega
      omega
    · have hlog : Nat.log2 i.toNat = 63 := (Nat.log2_eq_iff (by omega)).mpr ⟨hge, hi⟩
      have hdvd := dvd_roundNat i.toNat
      rw [hlog] at hdvd
      omega

theorem storedAlike_iff (i : UInt64) :
    (∀ undef, unpackResult undef (swapDouble (doubleOfUInt64 i)) =
      unpackResult undef (doubleOfUInt64 i)) ↔ StoredAlike (doubleOfUInt64 i) := by
  obtain ⟨hd, hle, hne, hround⟩ := stored_cases i
  constructor
  · intro h
    rcases eq_or_ne i 0 with rfl | h0
    · left
      decide +kernel
    have hn0 := hne h0
    rcases hle.lt_or_eq with hlt | htop
    · have hcode : ∀ undef, uint64OfDouble undef (doubleOfUInt64 i) =
          UInt64.ofNat (roundNat i.toNat) := fun undef => by
        have hcast : (roundNat i.toNat : ℚ) < 2 ^ 64 := by exact_mod_cast hlt
        have hpos : (-1 : ℚ) < roundNat i.toNat := by
          linarith [Nat.cast_nonneg (α := ℚ) (roundNat i.toNat)]
        simp only [uint64OfDouble, hd, hpos, hcast, and_self, if_true, Int.floor_natCast,
          Int.toNat_natCast]
      have hnonzero := encode_unpack754_ne_zero (ofNat_ne_zero hn0 hlt)
      simp only [unpackResult, hcode] at h
      -- the other reading is a number from one on
      rcases uint64OfDouble_cases (swapDouble (doubleOfUInt64 i)) with ⟨q, hq, hq64, hread⟩ | hout
      · simp only [hread] at h
        have h1 : 1 ≤ q := by
          by_contra hlow
          have hfloor : ⌊q⌋ < 1 := Int.floor_lt.mpr (by simpa using hlow)
          have hzero := h 0
          rw [Int.toNat_of_nonpos (by omega)] at hzero
          exact hnonzero (hzero.symm.trans encode_unpack754_zero)
        rcases unpacked_alike hn0 hlt hround hd hq h1 hq64 (h 0).symm with rfl | ⟨hs, hover⟩
        · left
          exact eq_of_decode_eq hq hd (by exact_mod_cast hn0)
        · right
          refine ⟨neg (UInt64.ofNat (roundNat i.toNat)), ?_, ?_⟩
          · rw [UnpacksToInfinity, hcode]
            exact ⟨rfl, hover.1⟩
          · rw [UnpacksToInfinity, hread]
            exact ⟨hs.symm, hover.2⟩
      · have hzero := h 0
        rw [hout] at hzero
        exact absurd (hzero.symm.trans encode_unpack754_zero) hnonzero
    · -- rounded up out of range: the machine's answer tells the two readings apart
      have hconst : doubleOfUInt64 i = 0x43F0000000000000 := by
        rw [htop] at hd
        refine eq_of_decode_eq hd ?_ (by norm_num)
        decide +kernel
      have hone := h 1
      rw [hconst, unpackResult, unpackResult,
        show uint64OfDouble 1 (swapDouble 0x43F0000000000000) = 0 by decide +kernel,
        show uint64OfDouble 1 0x43F0000000000000 = 1 by decide +kernel,
        encode_unpack754_zero] at hone
      exact absurd hone.symm (encode_unpack754_ne_zero (by decide))
  · rintro (h | ⟨s, hd, hswap⟩) undef
    · rw [h]
    · rw [unpackResult_infinity hd, unpackResult_infinity hswap]

/-! ## Whole packets -/

theorem read_write_double (o o' : ByteOrder) (d : RsDouble) :
    UInt64.ofNat (o'.read (o.write 8 d.toNat)) = if o = o' then d else swapDouble d := by
  by_cases h : o = o'
  · have hlt : d.toNat < 256 ^ 8 := d.toNat_lt
    rw [if_pos h, h, ByteOrder.read_write, Nat.mod_eq_of_lt hlt, UInt64.ofNat_toNat]
  · rw [if_neg h, ByteOrder.read_write_of_ne h, swapDouble]

theorem packResult_eq {d : RsDouble} (h : ¬ Binary64.Infinite d) :
    packResult d = some (doubleOfUInt64 (packedBits d)) := by
  rw [packResult, pack754_eq h, Option.map_some]

theorem sameValues_double_iff (o o' : ByteOrder) (base : ResultBase) (d : RsDouble) :
    SameValues o o' (.lambdaResultDouble base d) ↔
      ReadsAlike o o' (.lambdaResultDouble base d) := by
  have hwire : ∀ o' undef, ¬ Binary64.Infinite d →
      transfer o o' undef (.lambdaResultDouble base d) =
        some (.lambdaResultDouble base (unpackResult undef
          (if o = o' then doubleOfUInt64 (packedBits d)
            else swapDouble (doubleOfUInt64 (packedBits d))))) := by
    intro o' undef hfin
    rw [transfer_lambdaResultDouble, packResult_eq hfin, Option.map_some, read_write_double]
  constructor
  · intro h
    have hfin : ¬ Binary64.Infinite d := fun hinf => by
      obtain ⟨g, hg, -⟩ := h 0
      rw [transfer_lambdaResultDouble, (packResult_eq_none_iff d).mpr hinf] at hg
      cases hg
    refine ⟨hfin, or_iff_not_imp_left.mpr fun ho => (storedAlike_iff _).mp fun undef => ?_⟩
    obtain ⟨g, hg, -, hback⟩ := h undef
    rw [hwire o' undef hfin, if_neg ho] at hg
    rw [hwire o undef hfin, if_pos rfl, ← hg] at hback
    exact (Fields.lambdaResultDouble.inj (Option.some.inj hback)).2.symm
  · rintro ⟨hfin, halike⟩ undef
    refine ⟨_, hwire o' undef hfin, ⟨_, rfl⟩, ?_⟩
    rw [hwire o undef hfin, if_pos rfl]
    by_cases ho : o = o'
    · rw [if_pos ho]
    · rw [if_neg ho, (storedAlike_iff _).mpr (halike.resolve_left ho)]

theorem sameValues_int_iff (o o' : ByteOrder) (base : ResultBase) (result : RsInt) :
    SameValues o o' (.lambdaResultInt base result) ↔
      ReadsAlike o o' (.lambdaResultInt base result) := by
  have hlt : result.toUInt32.toNat < 256 ^ 4 := result.toUInt32.toNat_lt
  have hread : (UInt32.ofNat (o'.read (o.write 4 result.toUInt32.toNat))).toInt32 = result ↔
      o'.read (o.write 4 result.toUInt32.toNat) = result.toUInt32.toNat := by
    have hbound : o'.read (o.write 4 result.toUInt32.toNat) < 256 ^ 4 := by
      by_cases ho : o = o'
      · rwa [ho, ByteOrder.read_write, Nat.mod_eq_of_lt hlt]
      · rw [ByteOrder.read_write_of_ne ho]
        exact ByteOrder.swapped_lt 4 _
    constructor
    · intro h
      have hback := congrArg (fun r : RsInt => r.toUInt32.toNat) h
      simp only [UInt32.toUInt32_toInt32, UInt32.toNat_ofNat'] at hback
      omega
    · intro h
      rw [h, UInt32.ofNat_toNat]
      simp
  simp only [SameValues, transfer_lambdaResultInt, Option.some.injEq, exists_eq_left',
    Fields.lambdaResultInt.injEq, true_and, forall_const, hread, ReadsAlike]
  by_cases ho : o = o'
  · rw [ho, ByteOrder.read_write, Nat.mod_eq_of_lt hlt]
    exact iff_of_true rfl (Or.inl rfl)
  · rw [ByteOrder.read_write_of_ne ho]
    exact ⟨Or.inr, fun h => h.resolve_left ho⟩

/-- Neither the integer nor the number that a double is stored as is converted. -/
theorem same_values_iff (o o' : ByteOrder) (f : Fields) :
    SameValues o o' f ↔ ReadsAlike o o' f := by
  have hsame : (∀ undef, transfer o o' undef f = some f) →
      f.kind ≠ .lambdaResultDouble → SameValues o o' f := by
    intro h hk undef
    refine ⟨f, h undef, ?_⟩
    cases f with
    | lambdaResultDouble => exact absurd rfl hk
    | _ => rfl
  cases f with
  | lambdaResultInt base result => exact sameValues_int_iff o o' base result
  | lambdaResultDouble base d => exact sameValues_double_iff o o' base d
  | lambdaResultString base length result =>
    exact iff_of_true (hsame (fun undef => transfer_lambdaResultString o o' undef base length result)
      (fun h => nomatch h)) trivial
  | _ =>
    exact iff_of_true (hsame (fun undef => transfer_bytes o o' undef
      ⟨by simp [Fields.kind], by simp [Fields.kind], by simp [Fields.kind]⟩)
      (by simp [Fields.kind])) trivial

/-- The result base of a lambda without a name. -/
def someBase : ResultBase := ⟨RS_PACKET_RESULT_INT, 0, fun _ => 0⟩

/-- A big-endian receiver reads the result 1 as 16777216. -/
theorem one_is_read_as_another :
    ¬ ∀ (o o' : ByteOrder) (f : Fields), SameValues o o' f := by
  intro h
  have halike := (sameValues_int_iff .little .big someBase 1).mp (h .little .big _)
  have hno : ¬ (ByteOrder.little = ByteOrder.big ∨ ByteOrder.swapped 4 1 = 1) := by decide
  exact hno halike

end RS
