import Riotsensors.Lib.Binary64
import Riotsensors.Spec.Constants

/-! Double conversion for the wire (`ieee754_network.c`), in exact arithmetic.
A loop that may run forever takes an iteration budget and gives `none` when the
budget runs out. -/

namespace RS

open Binary64

abbrev LongDouble := Binary64.Value

/-- `while (fnorm >= 2.0)` -/
def normDown : ℕ → LongDouble → ℤ → Option (LongDouble × ℤ)
  | 0, _, _ => none
  | fuel + 1, fnorm, shift =>
    if fnorm.ge 2 then normDown fuel fnorm.half (shift + 1) else some (fnorm, shift)

/-- `while (fnorm < 1.0)` -/
def normUp : ℕ → LongDouble → ℤ → Option (LongDouble × ℤ)
  | 0, _, _ => none
  | fuel + 1, fnorm, shift =>
    if fnorm.lt 1 then normUp fuel fnorm.double (shift - 1) else some (fnorm, shift)

/-- The final expression of `pack754`: `<<` on a `long long` multiplies modulo 2^64. -/
def packBits (sign exp significand : ℤ) (bits expbits : ℕ) : UInt64 :=
  UInt64.ofInt (sign * 2 ^ (bits - 1)) ||| UInt64.ofInt (exp * 2 ^ (bits - expbits - 1)) |||
    UInt64.ofInt significand

/-- `pack754` from the normalisation on. The loops leave a finite `fnorm` behind,
or they do not end. -/
def packNormal (fuel : ℕ) (sign : ℤ) (fnorm : LongDouble) (bits expbits : ℕ) : Option UInt64 := do
  let (fnorm, shift) ← normDown fuel fnorm 0
  let (fnorm, shift) ← normUp fuel fnorm shift
  match fnorm with
  | .fin q =>
    -- the product is not negative, so the conversion to `long long` is the floor
    let significand := ⌊(q - 1) * (2 ^ (bits - expbits - 1) + 1 / 2)⌋
    let exp := shift + (2 ^ (expbits - 1) - 1)
    some (packBits sign exp significand bits expbits)
  | _ => none

/-- `pack754` with a budget for each of its loops. -/
def pack754Fuel (fuel : ℕ) (f : LongDouble) (bits expbits : ℕ) : Option UInt64 :=
  if f.lt 0 then packNormal fuel 1 f.neg bits expbits
  else if f.gt 0 then packNormal fuel 0 f bits expbits
  else some 0

/-- More iterations than any finite double takes. -/
abbrev PACK_FUEL : ℕ := 1100

def pack754 (f : LongDouble) (bits expbits : ℕ) : Option UInt64 :=
  pack754Fuel PACK_FUEL f bits expbits

/-- `while (shift > 0)` -/
def scaleUp : ℕ → ℚ → ℚ
  | 0, result => result
  | shift + 1, result => scaleUp shift (result * 2)

/-- `while (shift < 0)` -/
def scaleDown : ℕ → ℚ → ℚ
  | 0, result => result
  | shift + 1, result => scaleDown shift (result / 2)

def unpack754 (i : UInt64) (bits expbits : ℕ) : ℚ :=
  if i = 0 then 0
  else
    let significandbits := bits - expbits - 1
    let result : ℚ := (i.toNat &&& (2 ^ significandbits - 1) : ℕ) / 2 ^ significandbits + 1
    let bias : ℤ := 2 ^ (expbits - 1) - 1
    -- the unsigned difference wraps and is read back as a `long long`
    let shift : ℤ := ((i.toNat >>> significandbits) &&& (2 ^ expbits - 1) : ℕ) - bias
    let result := scaleDown (-shift).toNat (scaleUp shift.toNat result)
    if (i.toNat >>> (bits - 1)) &&& 1 = 1 then result * -1 else result * 1

/-- The conversion of a `uint64_t` to `double`. -/
def doubleOfUInt64 (i : UInt64) : RsDouble := encode (.fin i.toNat)

/-- The conversion of a `double` to `uint64_t`. Outside the range of the target
it is undefined; `undef` is what the machine answers there. -/
def uint64OfDouble (undef : UInt64) (d : RsDouble) : UInt64 :=
  match decode d with
  | .fin q => if -1 < q ∧ q < 2 ^ 64 then UInt64.ofNat ⌊q⌋.toNat else undef
  | _ => undef

/-- `pkt->result = pack754_64(pkt->result)` -/
def packResult (d : RsDouble) : Option RsDouble := (pack754 (decode d) 64 11).map doubleOfUInt64

/-- `pkt->result = (rs_double_t) unpack754_64((uint64_t) pkt->result)` -/
def unpackResult (undef : UInt64) (d : RsDouble) : RsDouble :=
  encode (.fin (unpack754 (uint64OfDouble undef d) 64 11))

end RS
