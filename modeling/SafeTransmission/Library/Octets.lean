import SafeTransmission.Library.Outcome

/-!
# Numbers in octets

Bit tests and shifts as they stand in C, turned into `/`, `%` and `<`, and
numbers as big-endian octet strings.

`beNat` reads an octet string as a number and `beBytes k` writes a number into
`k` octets, most significant first; little-endian memory is the reverse.  Both
loops of the code, `v |= *p++; v <<= 8` and `*p++ = v >> 8 * (i - 1)`, are
instances.
-/

namespace SafeTransmission

/-! ## Masks -/

theorem and_31 (n : ℕ) : n &&& 0x1F = n % 32 :=
  Nat.and_two_pow_sub_one_eq_mod n 5

theorem and_127 (n : ℕ) : n &&& 0x7F = n % 128 :=
  Nat.and_two_pow_sub_one_eq_mod n 7

theorem and_128_eq_zero {n : ℕ} (hn : n < 256) : n &&& 0x80 = 0 ↔ n < 128 := by
  have hbit : n &&& 0x80 = (n / 128 % 2) * 128 := by
    rw [show (0x80 : ℕ) = 2 ^ 7 from rfl, Nat.and_two_pow, Nat.toNat_testBit]
  omega

theorem UInt8.and_128_eq_zero (b : UInt8) : b.toNat &&& 0x80 = 0 ↔ b.toNat < 128 :=
  SafeTransmission.and_128_eq_zero b.toNat_lt

theorem shiftLeft_or (v : ℕ) (b : UInt8) : v <<< 8 ||| b.toNat = v * 256 + b.toNat := by
  rw [← Nat.shiftLeft_add_eq_or_of_lt b.toNat_lt, Nat.shiftLeft_eq]

/-! ## Big-endian numbers -/

/-- The number that an octet string denotes, most significant octet first. -/
def beNat (bs : Bytes) : ℕ :=
  bs.foldl (fun v b => v * 256 + b.toNat) 0

/-- The `k` low octets of `n`, most significant first. -/
def beBytes : ℕ → ℕ → Bytes
  | 0, _ => []
  | k + 1, n => UInt8.ofNat (n >>> (8 * k)) :: beBytes k n

@[simp] theorem beNat_nil : beNat [] = 0 := rfl

@[simp] theorem beNat_singleton (b : UInt8) : beNat [b] = b.toNat := by
  simp [beNat]

theorem beNat_append_singleton (bs : Bytes) (b : UInt8) :
    beNat (bs ++ [b]) = beNat bs * 256 + b.toNat := by
  simp [beNat]

private theorem foldl_beNat (bs : Bytes) :
    ∀ v : ℕ, bs.foldl (fun v b => v * 256 + b.toNat) v = v * 256 ^ bs.length + beNat bs := by
  unfold beNat
  induction bs with
  | nil => simp
  | cons b bs ih =>
      intro v
      simp only [List.foldl_cons, List.length_cons, zero_mul, zero_add]
      rw [ih, ih b.toNat]
      ring

theorem beNat_cons (b : UInt8) (bs : Bytes) :
    beNat (b :: bs) = b.toNat * 256 ^ bs.length + beNat bs := by
  have := foldl_beNat bs b.toNat
  simpa [beNat] using this

@[simp] theorem beNat_zero_cons (bs : Bytes) : beNat (0 :: bs) = beNat bs := by
  simp [beNat_cons]

theorem beNat_lt (bs : Bytes) : beNat bs < 256 ^ bs.length := by
  induction bs with
  | nil => simp
  | cons b bs ih =>
      have hb : b.toNat < 256 := b.toNat_lt
      rw [beNat_cons, List.length_cons, pow_succ]
      nlinarith

@[simp] theorem length_beBytes (k n : ℕ) : (beBytes k n).length = k := by
  induction k with
  | zero => rfl
  | succ k ih => simp [beBytes, ih]

theorem beNat_beBytes (k n : ℕ) : beNat (beBytes k n) = n % 256 ^ k := by
  induction k with
  | zero => simp [beBytes, Nat.mod_one]
  | succ k ih =>
      have hbyte : (UInt8.ofNat (n >>> (8 * k))).toNat = n / 256 ^ k % 256 := by
        rw [UInt8.toNat_ofNat', Nat.shiftRight_eq_div_pow, pow_mul, show (2 : ℕ) ^ 8 = 256 from rfl]
      rw [beBytes, beNat_cons, ih, length_beBytes, hbyte, pow_succ, Nat.mod_mul, add_comm, mul_comm]

theorem beNat_beBytes_of_lt {k n : ℕ} (h : n < 256 ^ k) : beNat (beBytes k n) = n := by
  rw [beNat_beBytes, Nat.mod_eq_of_lt h]

/-- The low octets do not see what is added above them. -/
private theorem beBytes_mul_add (v m : ℕ) {k n : ℕ} (hk : k ≤ n) :
    beBytes k (v * 256 ^ n + m) = beBytes k m := by
  induction k with
  | zero => rfl
  | succ k ih =>
      obtain ⟨d, rfl⟩ := Nat.exists_eq_add_of_lt (Nat.lt_of_succ_le hk)
      have hdiv : (v * 256 ^ (k + d + 1) + m) / 256 ^ k % 256 = m / 256 ^ k % 256 := by
        rw [show v * 256 ^ (k + d + 1) = 256 ^ k * (256 * (v * 256 ^ d)) by ring, add_comm,
          Nat.add_mul_div_left _ _ (by positivity), Nat.add_mul_mod_self_left]
      rw [beBytes, beBytes, ih (Nat.le_of_succ_le hk)]
      congr 1
      apply UInt8.toNat_inj.mp
      rw [UInt8.toNat_ofNat', UInt8.toNat_ofNat', Nat.shiftRight_eq_div_pow,
        Nat.shiftRight_eq_div_pow, pow_mul]
      exact hdiv

theorem beBytes_beNat (bs : Bytes) : beBytes bs.length (beNat bs) = bs := by
  induction bs with
  | nil => rfl
  | cons b bs ih =>
      have hb : b.toNat < 256 := b.toNat_lt
      have hhead : (b.toNat * 256 ^ bs.length + beNat bs) / 256 ^ bs.length = b.toNat := by
        rw [add_comm, Nat.add_mul_div_right _ _ (Nat.pow_pos (by norm_num)),
          Nat.div_eq_of_lt (beNat_lt bs), zero_add]
      rw [List.length_cons, beBytes, beNat_cons, beBytes_mul_add _ _ le_rfl, ih]
      congr 1
      apply UInt8.toNat_inj.mp
      rw [UInt8.toNat_ofNat', Nat.shiftRight_eq_div_pow, pow_mul]
      norm_num only
      rw [hhead, Nat.mod_eq_of_lt hb]

theorem eq_of_beNat_eq {bs cs : Bytes} (hlen : bs.length = cs.length) (h : beNat bs = beNat cs) :
    bs = cs := by
  rw [← beBytes_beNat bs, ← beBytes_beNat cs, hlen, h]

/-! ## Signed integers of 32 bits -/

/-- The `int` that the low 32 bits of an integer denote. -/
def toInt32 (v : ℤ) : ℤ :=
  v.bmod (2 ^ 32)

theorem toInt32_of_range {v : ℤ} (hlow : -2 ^ 31 ≤ v) (hhigh : v < 2 ^ 31) : toInt32 v = v := by
  unfold toInt32
  rw [Int.bmod_eq_of_le] <;> omega

theorem toInt32_emod (v : ℤ) : toInt32 (v % 2 ^ 32) = toInt32 v := by
  unfold toInt32
  exact Int.emod_bmod v (2 ^ 32)

theorem toInt32_range (v : ℤ) : -2 ^ 31 ≤ toInt32 v ∧ toInt32 v < 2 ^ 31 := by
  unfold toInt32
  have hlow := Int.le_bmod (x := v) (m := 2 ^ 32) (by norm_num)
  have hhigh := Int.bmod_lt (x := v) (m := 2 ^ 32) (by norm_num)
  norm_num at hlow hhigh ⊢
  omega

theorem toInt32_toInt32 (v : ℤ) : toInt32 (toInt32 v) = toInt32 v :=
  toInt32_of_range (toInt32_range v).1 (toInt32_range v).2

end SafeTransmission
