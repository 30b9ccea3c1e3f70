import SafeTransmission.Library.Octets

/-!
# C objects as byte blocks

A `CObject n` is the memory of a C structure or array of `n` bytes.  Its members
are offsets into the block, so a `memcpy` that is longer than its member runs on
into the next member, exactly as in memory, and only a write past the whole
block is undefined.  An `int` member is stored least significant byte first.

C strings are read from a pointer, that is from the bytes up to the end of the
block: `cString p` stops at the first NUL.
-/

namespace SafeTransmission

/-! ## C strings -/

/-- The characters before the first NUL. -/
def cString (p : Bytes) : Bytes :=
  p.takeWhile (· ≠ 0)

/-- `strlen(p)`; the search for the NUL must not leave the block. -/
def strlen (p : Bytes) : Outcome ℕ :=
  if 0 ∈ p then .ok (cString p).length else .fault .readOutOfBounds

/-- The bytes that `strcpy` copies from `p`: the string and its NUL. -/
def cStringZ (p : Bytes) : Outcome Bytes :=
  if 0 ∈ p then .ok (cString p ++ [0]) else .fault .readOutOfBounds

/-- `strcmp(p, q)`. -/
def strcmp : Bytes → Bytes → Outcome ℤ
  | a :: p, b :: q =>
      if a ≠ b then .ok (a.toNat - b.toNat)
      else if a = 0 then .ok 0
      else strcmp p q
  | _, _ => .fault .readOutOfBounds

theorem zero_notMem_cString (p : Bytes) : 0 ∉ cString p := by
  intro h
  simpa using List.mem_takeWhile_imp h

theorem cString_append {s : Bytes} (hs : 0 ∉ s) (p : Bytes) :
    cString (s ++ p) = s ++ cString p := by
  refine List.takeWhile_append_of_pos fun b hb => ?_
  simpa using ne_of_mem_of_not_mem hb hs

@[simp] theorem cString_zero_cons (p : Bytes) : cString (0 :: p) = [] := by
  simp [cString]

theorem cString_terminated {s : Bytes} (hs : 0 ∉ s) (p : Bytes) :
    cString (s ++ 0 :: p) = s := by
  rw [cString_append hs, cString_zero_cons, List.append_nil]

/-- A block with a NUL is its string, the NUL and a rest. -/
theorem exists_eq_cString_append {p : Bytes} (hp : 0 ∈ p) :
    ∃ rest, p = cString p ++ 0 :: rest := by
  obtain ⟨s, rest, rfl, hs⟩ := List.eq_append_cons_of_mem hp
  exact ⟨rest, by rw [cString_terminated hs]⟩

theorem length_cString_lt {p : Bytes} (hp : 0 ∈ p) : (cString p).length < p.length := by
  obtain ⟨rest, hrest⟩ := exists_eq_cString_append hp
  have := congrArg List.length hrest
  simp only [List.length_append, List.length_cons] at this
  omega

/-- A string that ends inside the first `k` bytes does not see the others. -/
theorem cString_take {p : Bytes} {k : ℕ} (hp : 0 ∈ p.take k) : cString (p.take k) = cString p := by
  obtain ⟨rest, hrest⟩ := exists_eq_cString_append hp
  conv_rhs => rw [← List.take_append_drop k p, hrest, List.append_assoc]
  exact (cString_terminated (zero_notMem_cString _) _).symm

theorem cString_cons {b : UInt8} (hb : b ≠ 0) (p : Bytes) : cString (b :: p) = b :: cString p := by
  simp [cString, hb]

theorem strcmp_eq {p q : Bytes} (hp : 0 ∈ p) (hq : 0 ∈ q) :
    ∃ v, strcmp p q = .ok v ∧ (v = 0 ↔ cString p = cString q) := by
  induction p generalizing q with
  | nil => simp at hp
  | cons a p ih =>
      cases q with
      | nil => simp at hq
      | cons b q =>
          rw [strcmp]
          by_cases hab : a = b
          · subst hab
            rw [if_neg (not_not.mpr rfl)]
            by_cases ha : a = 0
            · exact ⟨0, by rw [if_pos ha], by simp [ha]⟩
            · have hp' := (List.mem_cons.mp hp).resolve_left (Ne.symm ha)
              have hq' := (List.mem_cons.mp hq).resolve_left (Ne.symm ha)
              obtain ⟨v, hv, hzero⟩ := ih hp' hq'
              exact ⟨v, by rw [if_neg ha, hv], by simp [hzero, cString_cons ha]⟩
          · refine ⟨_, if_pos hab, ?_⟩
            have hne : (a.toNat : ℤ) - b.toNat ≠ 0 := fun h =>
              hab (UInt8.toNat_inj.mp (by omega))
            refine iff_of_false hne fun heq => ?_
            by_cases ha : a = 0
            · rw [ha, cString_zero_cons, cString_cons fun hb => hab (ha.trans hb.symm)] at heq
              cases heq
            · by_cases hb : b = 0
              · rw [hb, cString_zero_cons, cString_cons ha] at heq
                cases heq
              · rw [cString_cons ha, cString_cons hb] at heq
                exact hab (List.cons_eq_cons.mp heq).1

/-! ## Writing into a block -/

/-- The block after `d` is written at `off`. -/
def overwrite (block : Bytes) (off : ℕ) (d : Bytes) : Bytes :=
  block.take off ++ d ++ block.drop (off + d.length)

theorem length_overwrite {block d : Bytes} {off : ℕ} (h : off + d.length ≤ block.length) :
    (overwrite block off d).length = block.length := by
  simp [overwrite]
  omega

/-- What a pointer into the block points at after a write at or after it. -/
theorem drop_overwrite {block d : Bytes} {off k : ℕ} (hk : k ≤ off) (hoff : off ≤ block.length) :
    (overwrite block off d).drop k = overwrite (block.drop k) (off - k) d := by
  unfold overwrite
  rw [List.append_assoc, List.append_assoc, List.drop_append_of_le_length (by simp; omega),
    List.drop_take, List.drop_drop, show k + (off - k + d.length) = off + d.length by omega]

@[simp] theorem overwrite_zero (block d : Bytes) :
    overwrite block 0 d = d ++ block.drop d.length := by
  simp [overwrite]

theorem take_overwrite {block d : Bytes} {off k : ℕ} (hk : k ≤ off) (hoff : off ≤ block.length) :
    (overwrite block off d).take k = block.take k := by
  unfold overwrite
  rw [List.append_assoc, List.take_append_of_le_length (by simp; omega), List.take_take,
    Nat.min_eq_left hk]

theorem drop_overwrite_of_le {block d : Bytes} {off k : ℕ} (hk : off + d.length ≤ k)
    (hoff : off ≤ block.length) : (overwrite block off d).drop k = block.drop k := by
  unfold overwrite
  rw [List.drop_append, List.drop_eq_nil_of_le (by simp; omega), List.nil_append, List.drop_drop]
  congr 1
  simp
  omega

/-! ## Objects -/

/-- The type of a member. -/
inductive MemberKind where
  | int
  | chars
deriving DecidableEq, Repr

/-- A member of a structure: its type, its offset and its size. -/
structure Member where
  kind : MemberKind
  off : ℕ
  cap : ℕ
deriving DecidableEq, Repr

/-- The memory of a C object of `n` bytes. -/
@[ext] structure CObject (n : ℕ) where
  bytes : Bytes
  length_eq : bytes.length = n
deriving DecidableEq, Repr

namespace CObject

variable {n : ℕ}

/-- `memset(&o, 0, sizeof o)`. -/
def zero (n : ℕ) : CObject n :=
  ⟨List.replicate n 0, List.length_replicate⟩

/-- The object behind `memset(p, 0, k)`, where `p` points at it and `k` may run past it. -/
def zeroFirst (o : CObject n) (k : ℕ) : CObject n :=
  ⟨List.replicate (min k n) 0 ++ o.bytes.drop k, by simp [o.length_eq]; omega⟩

theorem zeroFirst_of_le {k : ℕ} (hk : n ≤ k) (o : CObject n) : o.zeroFirst k = zero n := by
  unfold zeroFirst zero
  ext1
  dsimp only
  rw [Nat.min_eq_right hk, List.drop_eq_nil_of_le (o.length_eq.trans_le hk), List.append_nil]

/-- The pointer to the member at offset `off`. -/
def ptr (o : CObject n) (off : ℕ) : Bytes :=
  o.bytes.drop off

/-- The `cap` bytes of the array member at offset `off`. -/
def chars (o : CObject n) (off cap : ℕ) : Bytes :=
  (o.ptr off).take cap

/-- The C string that starts at offset `off`. -/
def str (o : CObject n) (off : ℕ) : Bytes :=
  cString (o.ptr off)

/-- The `int` member at offset `off`. -/
def int (o : CObject n) (off : ℕ) : ℤ :=
  toInt32 (beNat (o.chars off 4).reverse)

/-- Copy `d` to offset `off`. -/
def store (o : CObject n) (off : ℕ) (d : Bytes) : Outcome (CObject n) :=
  if h : off + d.length ≤ n then
    .ok ⟨overwrite o.bytes off d, by rw [length_overwrite (by rw [o.length_eq]; exact h), o.length_eq]⟩
  else
    .fault .writeOutOfBounds

/-- `strcpy` of the string at `p` to offset `off`. -/
def strcpy (o : CObject n) (off : ℕ) (p : Bytes) : Outcome (CObject n) := do
  let text ← cStringZ p
  o.store off text

end CObject

/-- The four bytes of an `int` in memory. -/
def intBytes (v : ℤ) : Bytes :=
  (beBytes 4 (v % 2 ^ 32).toNat).reverse

/-- The eight bytes of a 64-bit `unsigned long` in memory. -/
def longBytes (v : ℕ) : Bytes :=
  (beBytes 8 v).reverse

@[simp] theorem length_intBytes (v : ℤ) : (intBytes v).length = 4 := by simp [intBytes]

@[simp] theorem length_longBytes (v : ℕ) : (longBytes v).length = 8 := by simp [longBytes]

/-- The low half of an `unsigned long` is an `int`. -/
theorem take_longBytes (v : ℕ) : (longBytes v).take 4 = intBytes v := by
  have hmod : ((v : ℤ) % 2 ^ 32).toNat = v % 2 ^ 32 := by omega
  have hbyte : ∀ k < 4, UInt8.ofNat (v >>> (8 * k)) = UInt8.ofNat ((v % 2 ^ 32) >>> (8 * k)) := by
    intro k hk
    apply UInt8.toNat_inj.mp
    rw [UInt8.toNat_ofNat', UInt8.toNat_ofNat', Nat.shiftRight_eq_div_pow, Nat.shiftRight_eq_div_pow]
    interval_cases k <;> omega
  simp only [longBytes, intBytes, beBytes, hmod, ← hbyte 0 (by norm_num), ← hbyte 1 (by norm_num),
    ← hbyte 2 (by norm_num), ← hbyte 3 (by norm_num)]
  rfl

theorem toInt32_intBytes (v : ℤ) : toInt32 (beNat (intBytes v).reverse) = toInt32 v := by
  have hnonneg : 0 ≤ v % 2 ^ 32 := Int.emod_nonneg _ (by norm_num)
  have hlt : v % 2 ^ 32 < 2 ^ 32 := Int.emod_lt_of_pos _ (by norm_num)
  rw [intBytes, List.reverse_reverse, beNat_beBytes_of_lt (by norm_num; omega),
    Int.toNat_of_nonneg hnonneg, toInt32_emod]

theorem eq_intBytes {b : Bytes} (hlen : b.length = 4) {v : ℤ} (h : toInt32 (beNat b.reverse) = v) :
    b = intBytes v := by
  have hlt := beNat_lt b.reverse
  rw [List.length_reverse, hlen] at hlt
  have hmod : v % 2 ^ 32 = (beNat b.reverse : ℤ) := by
    calc
      v % 2 ^ 32 = (beNat b.reverse : ℤ).bmod (2 ^ 32) % (2 ^ 32 : ℕ) := by rw [← h, toInt32]; rfl
      _ = (beNat b.reverse : ℤ) % (2 ^ 32 : ℕ) := Int.bmod_emod
      _ = beNat b.reverse := Int.emod_eq_of_lt (Int.natCast_nonneg _) (by exact_mod_cast hlt)
  have hbytes := beBytes_beNat b.reverse
  rw [List.length_reverse, hlen] at hbytes
  rw [intBytes, hmod, Int.toNat_natCast, hbytes, List.reverse_reverse]

namespace CObject

variable {n : ℕ} {o o' : CObject n} {d : Bytes} {off k cap : ℕ}

theorem store_eq_ok : o.store off d = .ok o' ↔
    off + d.length ≤ n ∧ o'.bytes = overwrite o.bytes off d := by
  unfold store
  split
  · rename_i h
    simp only [Outcome.ok.injEq, h, true_and]
    exact ⟨fun h => h ▸ rfl, fun h => CObject.ext h.symm⟩
  · rename_i h
    simp [h]

theorem exists_store (o : CObject n) (h : off + d.length ≤ n) : ∃ o', o.store off d = .ok o' := by
  unfold store
  rw [dif_pos h]
  exact ⟨_, rfl⟩

theorem strcpy_eq {p : Bytes} (hp : 0 ∈ p) (o : CObject n) (off : ℕ) :
    o.strcpy off p = o.store off (cString p ++ [0]) := by
  rw [strcpy, cStringZ, if_pos hp, Outcome.ok_bind]

theorem store_nil (o : CObject n) (h : off ≤ n) : o.store off [] = .ok o := by
  rw [store_eq_ok]
  exact ⟨by simpa using h, by simp [overwrite]⟩

theorem length_ptr (o : CObject n) (off : ℕ) : (o.ptr off).length = n - off := by
  simp [ptr, o.length_eq]

theorem length_chars (o : CObject n) (h : off + cap ≤ n) : (o.chars off cap).length = cap := by
  simp [chars, length_ptr]
  omega

/-- A string that ends inside its array is read from the array alone. -/
theorem str_eq (h : 0 ∈ o.chars off cap) : o.str off = cString (o.chars off cap) :=
  (cString_take h).symm

theorem ptr_store_self (h : o.store off d = .ok o') :
    o'.ptr off = d ++ o.ptr (off + d.length) := by
  obtain ⟨hle, hbytes⟩ := store_eq_ok.mp h
  have hoff : off ≤ o.bytes.length := by rw [o.length_eq]; omega
  rw [ptr, hbytes, drop_overwrite le_rfl hoff, Nat.sub_self, overwrite_zero, List.drop_drop, ptr]

theorem take_ptr_store (h : o.store off d = .ok o') (hk : k ≤ off) :
    (o'.ptr k).take (off - k) = (o.ptr k).take (off - k) := by
  obtain ⟨hle, hbytes⟩ := store_eq_ok.mp h
  have hoff : off ≤ o.bytes.length := by rw [o.length_eq]; omega
  rw [ptr, hbytes, drop_overwrite hk hoff, take_overwrite le_rfl (by simp; omega), ptr]

theorem chars_store_of_apart (h : o.store off d = .ok o')
    (hk : k + cap ≤ off ∨ off + d.length ≤ k) : o'.chars k cap = o.chars k cap := by
  rcases hk with hk | hk
  · have := congrArg (List.take cap) (take_ptr_store h (k := k) (by omega))
    rwa [List.take_take, List.take_take, Nat.min_eq_left (by omega)] at this
  · obtain ⟨hle, hbytes⟩ := store_eq_ok.mp h
    have hoff : off ≤ o.bytes.length := by rw [o.length_eq]; omega
    rw [chars, chars, ptr, ptr, hbytes, drop_overwrite_of_le hk hoff]

/-- The member written to: the new bytes, and behind them what was there. -/
theorem chars_store_self (h : o.store off d = .ok o') (hd : d.length ≤ cap) :
    o'.chars off cap = d ++ (o.chars off cap).drop d.length := by
  rw [chars, ptr_store_self h, List.take_append, List.take_of_length_le hd, chars, List.drop_take,
    ptr, ptr, List.drop_drop]

/-! ## Members that hold given bytes -/

/-- The object has the bytes `d` from offset `off` on. -/
def Holds (o : CObject n) (off : ℕ) (d : Bytes) : Prop :=
  o.chars off d.length = d

theorem holds_store_self (h : o.store off d = .ok o') : o'.Holds off d := by
  rw [Holds, chars, ptr_store_self h, List.take_left]

theorem Holds.of_apart (hd : o.Holds k d) {e : Bytes} (h : o.store off e = .ok o')
    (hk : k + d.length ≤ off ∨ off + e.length ≤ k) : o'.Holds k d := by
  rw [Holds, chars_store_of_apart h hk]
  exact hd

theorem Holds.take (h : o.Holds off d) (k : ℕ) : o.Holds off (d.take k) := by
  have htake : (o.ptr off).take d.length = d := h
  rw [Holds, chars, List.length_take, ← List.take_take, htake]

/-- A stored string with its NUL reads back, whatever is behind it. -/
theorem Holds.str_eq {s : Bytes} (h : o.Holds off (s ++ [0])) (hs : 0 ∉ s) : o.str off = s := by
  have htake : (o.ptr off).take (s ++ [0] : Bytes).length = s ++ [0] := h
  have hsplit : o.ptr off = s ++ 0 :: (o.ptr off).drop (s ++ [0] : Bytes).length := by
    conv_lhs => rw [← List.take_append_drop (s ++ [0] : Bytes).length (o.ptr off)]
    rw [htake, List.append_assoc, List.singleton_append]
  rw [str, hsplit, cString_terminated hs]

theorem Holds.zero_mem {s : Bytes} (h : o.Holds off (s ++ [0])) (hcap : s.length < cap) :
    0 ∈ o.chars off cap := by
  have htake : (o.ptr off).take (s ++ [0] : Bytes).length = s ++ [0] := h
  have hmem : (0 : UInt8) ∈ (o.chars off cap).take (s ++ [0] : Bytes).length := by
    rw [chars, List.take_take, Nat.min_eq_left (by simp; omega), htake]
    simp
  exact List.mem_of_mem_take hmem

theorem Holds.int_eq {v : ℤ} (h : o.Holds off (intBytes v)) : o.int off = toInt32 v := by
  rw [Holds, length_intBytes] at h
  rw [int, h, toInt32_intBytes]

/-! ## Comparing strings -/

/-- `strcmp(o.m, p) == 0 && strcmp(o.m', p') == 0`. -/
def bothEqual (o : CObject n) (m m' : Member) (p p' : Bytes) : Outcome Bool := do
  let first ← strcmp (o.ptr m.off) p
  if first = 0 then do
    let second ← strcmp (o.ptr m'.off) p'
    .ok (second = 0)
  else .ok false

theorem bothEqual_eq {m m' : Member} {p p' : Bytes} (hm : 0 ∈ o.chars m.off m.cap)
    (hm' : 0 ∈ o.chars m'.off m'.cap) (hp : 0 ∈ p) (hp' : 0 ∈ p') :
    o.bothEqual m m' p p' =
      .ok (decide ((o.str m.off, o.str m'.off) = (cString p, cString p'))) := by
  obtain ⟨v, hv, hzero⟩ := strcmp_eq (List.mem_of_mem_take hm) hp
  obtain ⟨v', hv', hzero'⟩ := strcmp_eq (List.mem_of_mem_take hm') hp'
  unfold bothEqual
  simp only [hv, hv', Outcome.ok_bind, Prod.mk.injEq, str, ← hzero, ← hzero']
  by_cases h : v = 0 <;> simp [h]

end CObject

end SafeTransmission
