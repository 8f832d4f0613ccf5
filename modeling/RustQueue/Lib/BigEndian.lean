import RustQueue.Lib.Saturating

/-!
# Big-endian words

`toBytes w n` writes the low `w` bytes of a natural number, most significant first, and
`ofBytes` reads them back.  `ofInt` and `toInt` pass between an integer and its two's
complement word of `w` bytes.

* `ofBytes_toBytes`: reading returns the number modulo `256 ^ w`, so a number that fits is
  read back exactly;
* `toBytes_ofBytes`: writing a number that was read returns its bytes;
* `toInt_ofInt`: an integer in the signed range of `w` bytes survives the round trip.

`IsU64` and `IsI64` are the ranges of the 64-bit words.
-/

namespace RustQueue.Lib

/-- The `w` low bytes of a number, most significant first. -/
def toBytes : ℕ → ℕ → List UInt8
  | 0, _ => []
  | w + 1, n => UInt8.ofNat (n / 256 ^ w) :: toBytes w n

/-- The number with the given bytes, most significant first. -/
def ofBytes : List UInt8 → ℕ
  | [] => 0
  | b :: bytes => b.toNat * 256 ^ bytes.length + ofBytes bytes

@[simp] theorem length_toBytes (w n : ℕ) : (toBytes w n).length = w := by
  induction w with
  | zero => rfl
  | succ w ih => rw [toBytes, List.length_cons, ih]

theorem ofBytes_toBytes (w n : ℕ) : ofBytes (toBytes w n) = n % 256 ^ w := by
  induction w with
  | zero => simp [toBytes, ofBytes, Nat.mod_one]
  | succ w ih =>
    have hsplit : n % 256 ^ (w + 1) = n % 256 ^ w + 256 ^ w * (n / 256 ^ w % 256) :=
      Nat.mod_pow_succ
    rw [toBytes, ofBytes, ih, length_toBytes, UInt8.toNat_ofNat', hsplit, Nat.add_comm,
      Nat.mul_comm]

theorem ofBytes_toBytes_of_lt {w n : ℕ} (h : n < 256 ^ w) : ofBytes (toBytes w n) = n := by
  rw [ofBytes_toBytes, Nat.mod_eq_of_lt h]

variable (bytes : List UInt8)

theorem ofBytes_lt : ofBytes bytes < 256 ^ bytes.length := by
  induction bytes with
  | nil => simp [ofBytes]
  | cons b bytes ih =>
    have hb : b.toNat + 1 ≤ 256 := b.toNat_lt
    rw [ofBytes, List.length_cons, pow_succ]
    calc b.toNat * 256 ^ bytes.length + ofBytes bytes
        < b.toNat * 256 ^ bytes.length + 256 ^ bytes.length := Nat.add_lt_add_left ih _
      _ = (b.toNat + 1) * 256 ^ bytes.length := by ring
      _ ≤ 256 ^ bytes.length * 256 := by
        rw [Nat.mul_comm]
        exact Nat.mul_le_mul_left _ hb

/-- Only the low bytes are written. -/
theorem toBytes_mul_add (w k n : ℕ) : toBytes w (k * 256 ^ w + n) = toBytes w n := by
  induction w generalizing k n with
  | zero => rfl
  | succ w ih =>
    have hbyte : UInt8.ofNat ((k * 256 ^ (w + 1) + n) / 256 ^ w) = UInt8.ofNat (n / 256 ^ w) := by
      have hdiv : (k * 256 ^ (w + 1) + n) / 256 ^ w = k * 256 + n / 256 ^ w := by
        rw [show k * 256 ^ (w + 1) + n = n + 256 ^ w * (k * 256) by ring,
          Nat.add_mul_div_left _ _ (by positivity), Nat.add_comm]
      rw [hdiv, ← UInt8.toNat_inj, UInt8.toNat_ofNat', UInt8.toNat_ofNat']
      omega
    rw [toBytes, toBytes, hbyte]
    congr 1
    rw [show k * 256 ^ (w + 1) + n = (k * 256) * 256 ^ w + n by ring]
    exact ih _ _

/-- Bytes that were read are written again. -/
theorem toBytes_ofBytes : toBytes bytes.length (ofBytes bytes) = bytes := by
  induction bytes with
  | nil => rfl
  | cons b bytes ih =>
    have hlt := ofBytes_lt bytes
    have hbyte : (b.toNat * 256 ^ bytes.length + ofBytes bytes) / 256 ^ bytes.length = b.toNat := by
      rw [Nat.mul_comm, Nat.mul_add_div (by positivity), Nat.div_eq_of_lt hlt, Nat.add_zero]
    rw [List.length_cons, ofBytes, toBytes, hbyte, toBytes_mul_add, ih, UInt8.ofNat_toNat]

theorem toBytes_ofBytes_of_length {bytes : List UInt8} {w : ℕ} (h : bytes.length = w) :
    toBytes w (ofBytes bytes) = bytes := by
  rw [← h, toBytes_ofBytes]

/-- The two's complement word of an integer. -/
def ofInt (w : ℕ) (z : ℤ) : ℕ := (z % (256 ^ w : ℕ)).toNat

/-- The integer with the given two's complement word. -/
def toInt (w n : ℕ) : ℤ := Int.bmod n (256 ^ w)

theorem ofInt_lt (w : ℕ) (z : ℤ) : ofInt w z < 256 ^ w := by
  have hpos : (0 : ℤ) < (256 ^ w : ℕ) := by positivity
  have hlt := Int.emod_lt_of_pos z hpos
  have hnonneg := Int.emod_nonneg z hpos.ne'
  unfold ofInt
  omega

theorem toInt_ofInt {w : ℕ} {z : ℤ} (hlow : -((256 ^ w : ℕ) / 2 : ℤ) ≤ z)
    (hhigh : z < ((256 ^ w : ℕ) + 1) / 2) : toInt w (ofInt w z) = z := by
  have hnonneg : 0 ≤ z % (256 ^ w : ℕ) := Int.emod_nonneg z (by positivity)
  rw [toInt, ofInt, Int.toNat_of_nonneg hnonneg, Int.emod_bmod]
  exact Int.bmod_eq_of_le hlow hhigh

/-! ### The words of fixed formats -/

/-- The bytes from one offset to another. -/
def slice (first last : ℕ) : List UInt8 := (bytes.take last).drop first

theorem length_slice {bytes : List UInt8} {first last : ℕ} (h : last ≤ bytes.length) :
    (slice bytes first last).length = last - first := by
  rw [slice, List.length_drop, List.length_take, min_eq_left h]

/-- Slices one behind the other. -/
theorem slice_append_slice {first middle last : ℕ} (h : first ≤ middle) (h' : middle ≤ last) :
    slice bytes first middle ++ slice bytes middle last = slice bytes first last := by
  have htake : bytes.take middle = (bytes.take last).take middle := by
    rw [List.take_take, min_eq_left h']
  rw [slice, slice, slice, htake]
  set whole := bytes.take last
  by_cases hlong : middle ≤ whole.length
  · have hsplit : (whole.take middle ++ whole.drop middle).drop first =
        (whole.take middle).drop first ++ whole.drop middle :=
      List.drop_append_of_le_length (by rw [List.length_take]; omega)
    rw [List.take_append_drop] at hsplit
    exact hsplit.symm
  · rw [List.drop_of_length_le (show whole.length ≤ middle by omega), List.append_nil,
      List.take_of_length_le (show whole.length ≤ middle by omega)]

/-- A value of an unsigned 64-bit word. -/
def IsU64 (n : ℕ) : Prop := n ≤ u64Max

/-- A value of a signed 64-bit word. -/
def IsI64 (z : ℤ) : Prop := -(2 ^ 63) ≤ z ∧ z < 2 ^ 63

theorem ofBytes_toBytes_u64 {n : ℕ} (h : IsU64 n) : ofBytes (toBytes 8 n) = n := by
  refine ofBytes_toBytes_of_lt ?_
  have : u64Max < 256 ^ 8 := by decide
  exact lt_of_le_of_lt h this

theorem ofBytes_toBytes_u16 {n : ℕ} (h : n ≤ u16Max) : ofBytes (toBytes 2 n) = n := by
  refine ofBytes_toBytes_of_lt ?_
  have : u16Max < 256 ^ 2 := by decide
  exact lt_of_le_of_lt h this

theorem ofBytes_toBytes_u32 (n : UInt32) : ofBytes (toBytes 4 n.toNat) = n.toNat :=
  ofBytes_toBytes_of_lt n.toNat_lt

theorem toInt_ofBytes_i64 {z : ℤ} (h : IsI64 z) :
    toInt 8 (ofBytes (toBytes 8 (ofInt 8 z))) = z := by
  obtain ⟨hlow, hhigh⟩ := h
  rw [ofBytes_toBytes_of_lt (ofInt_lt 8 z)]
  refine toInt_ofInt ?_ ?_
  · norm_num
    omega
  · norm_num
    omega

end RustQueue.Lib
