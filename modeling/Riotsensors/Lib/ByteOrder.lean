import Mathlib.Tactic

/-! Fixed-width unsigned numbers as byte strings of either order, and the
16-bit network conversions of a host of either order. -/

inductive ByteOrder where
  | little
  | big
  deriving DecidableEq, Repr

namespace ByteOrder

/-- The `k` low bytes of `n`, least significant first. -/
def leBytes : ℕ → ℕ → List UInt8
  | 0, _ => []
  | k + 1, n => UInt8.ofNat n :: leBytes k (n / 256)

def leNat : List UInt8 → ℕ
  | [] => 0
  | b :: bs => b.toNat + 256 * leNat bs

/-- How a host of order `o` lays out a `k`-byte number. -/
def write (o : ByteOrder) (k n : ℕ) : List UInt8 :=
  match o with
  | little => leBytes k n
  | big => (leBytes k n).reverse

def read (o : ByteOrder) (bs : List UInt8) : ℕ :=
  match o with
  | little => leNat bs
  | big => leNat bs.reverse

@[simp] theorem length_leBytes (k n : ℕ) : (leBytes k n).length = k := by
  induction k generalizing n with
  | zero => rfl
  | succ k ih => simp [leBytes, ih]

@[simp] theorem length_write (o : ByteOrder) (k n : ℕ) : (o.write k n).length = k := by
  cases o <;> simp [write]

theorem leNat_leBytes (k n : ℕ) : leNat (leBytes k n) = n % 256 ^ k := by
  induction k generalizing n with
  | zero => simp [leBytes, leNat, Nat.mod_one]
  | succ k ih =>
    have hb : (UInt8.ofNat n).toNat = n % 256 := by simp
    rw [leBytes, leNat, ih, hb, pow_succ', Nat.mod_mul]

/-- Writing and reading in one order keeps the low `k` bytes. -/
theorem read_write (o : ByteOrder) (k n : ℕ) : o.read (o.write k n) = n % 256 ^ k := by
  cases o <;> simp [read, write, leNat_leBytes]

theorem leNat_append (a b : List UInt8) : leNat (a ++ b) = leNat a + 256 ^ a.length * leNat b := by
  induction a with
  | nil => simp [leNat]
  | cons c a ih =>
    rw [List.cons_append, leNat, ih, leNat, List.length_cons, pow_succ']
    ring

/-- The low `k` bytes of a number in the opposite order. -/
def swapped (k n : ℕ) : ℕ := leNat (leBytes k n).reverse

theorem swapped_succ (k n : ℕ) : swapped (k + 1) n = swapped k (n / 256) + 256 ^ k * (n % 256) := by
  have hb : (UInt8.ofNat n).toNat = n % 256 := by simp
  rw [swapped, leBytes, List.reverse_cons, leNat_append, List.length_reverse, length_leBytes,
    leNat, leNat, hb, Nat.mul_zero, Nat.add_zero]
  rfl

theorem swapped_lt (k n : ℕ) : swapped k n < 256 ^ k := by
  induction k generalizing n with
  | zero => exact Nat.one_pos
  | succ k ih =>
    have hlow := ih (n / 256)
    have hhigh : 256 ^ k * (n % 256) ≤ 256 ^ k * 255 := Nat.mul_le_mul_left _ (by omega)
    rw [swapped_succ, pow_succ]
    omega

/-- The last byte comes first. -/
theorem swapped_div (k n : ℕ) : swapped (k + 1) n / 256 ^ k = n % 256 := by
  rw [swapped_succ, Nat.add_mul_div_left _ _ (by positivity), Nat.div_eq_of_lt (swapped_lt k _),
    Nat.zero_add]

/-- Writing in one order and reading in the other swaps the bytes. -/
theorem read_write_of_ne {o o' : ByteOrder} (h : o ≠ o') (k n : ℕ) :
    o'.read (o.write k n) = swapped k n := by
  cases o <;> cases o'
  · exact absurd rfl h
  · rfl
  · rfl
  · exact absurd rfl h

/-- `htons` on a host of order `o`: network order is big-endian, so a
little-endian host swaps the two bytes. -/
def htons (o : ByteOrder) (x : UInt16) : UInt16 :=
  match o with
  | little => UInt16.ofNat (x.toNat % 256 * 256 + x.toNat / 256)
  | big => x

/-- `ntohs` -/
def ntohs (o : ByteOrder) (x : UInt16) : UInt16 := htons o x

theorem ntohs_htons (o : ByteOrder) (x : UInt16) : ntohs o (htons o x) = x := by
  cases o with
  | big => rfl
  | little =>
    have hx : x.toNat < 65536 := x.toNat_lt
    apply UInt16.toNat_inj.mp
    have hb : (x.toNat % 256 * 256 + x.toNat / 256) % 65536
        = x.toNat % 256 * 256 + x.toNat / 256 := by omega
    have hlow : (x.toNat % 256 * 256 + x.toNat / 256) % 256 = x.toNat / 256 := by omega
    have hhigh : (x.toNat % 256 * 256 + x.toNat / 256) / 256 = x.toNat % 256 := by omega
    have hback : x.toNat / 256 * 256 + x.toNat % 256 = x.toNat := by omega
    simp only [ntohs, htons, UInt16.toNat_ofNat', Nat.reducePow, hb, hlow, hhigh, hback]
    exact Nat.mod_eq_of_lt hx

/-- Two bytes in network order, read on any host. -/
theorem toNat_ntohs_read (o : ByteOrder) (a b : UInt8) :
    (o.ntohs (UInt16.ofNat (o.read [a, b]))).toNat = 256 * a.toNat + b.toNat := by
  have ha : a.toNat < 256 := a.toNat_lt
  have hb : b.toNat < 256 := b.toNat_lt
  cases o with
  | big =>
    have hread : big.read [a, b] = b.toNat + 256 * (a.toNat + 256 * 0) := rfl
    rw [hread, ntohs, htons, UInt16.toNat_ofNat']
    omega
  | little =>
    have hread : little.read [a, b] = a.toNat + 256 * (b.toNat + 256 * 0) := rfl
    have hmod : (a.toNat + 256 * (b.toNat + 256 * 0)) % 65536 = a.toNat + 256 * b.toNat := by omega
    have hlow : (a.toNat + 256 * b.toNat) % 256 = a.toNat := by omega
    have hhigh : (a.toNat + 256 * b.toNat) / 256 = b.toNat := by omega
    simp only [hread, ntohs, htons, UInt16.toNat_ofNat', Nat.reducePow, hmod, hlow, hhigh]
    omega

end ByteOrder
