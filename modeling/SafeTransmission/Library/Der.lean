import SafeTransmission.Library.Octets

/-!
# Shortest forms of integers and lengths

The distinguished encoding rules allow one octet string for each non-negative
integer, the shortest whose top bit is clear, and one for each length.  Both are
determined by the number they denote.
-/

namespace SafeTransmission

/-- The shortest octets of a non-negative two's complement integer. -/
def MinimalNat : Bytes → Prop
  | [] => False
  | [b] => b.toNat < 128
  | b :: b' :: _ => b.toNat < 128 ∧ (b = 0 → 128 ≤ b'.toNat)

instance : DecidablePred MinimalNat
  | [] => inferInstanceAs (Decidable False)
  | [b] => inferInstanceAs (Decidable (b.toNat < 128))
  | b :: b' :: _ => inferInstanceAs (Decidable (b.toNat < 128 ∧ (b = 0 → 128 ≤ b'.toNat)))

/-- The shortest octets behind the first of a length from 128 on. -/
def MinimalTail : Bytes → Prop
  | [] => False
  | [b] => 128 ≤ b.toNat
  | b :: _ :: _ => b ≠ 0

/-- The shortest length octets for `n`. -/
inductive MinimalLength : Bytes → ℕ → Prop where
  | short {b : UInt8} (hb : b.toNat < 128) : MinimalLength [b] b.toNat
  | long {b : UInt8} {bs : Bytes} (hbs : MinimalTail bs) (hb : b.toNat = 128 + bs.length) :
      MinimalLength (b :: bs) (beNat bs)

/-- `e` is the identifier octet, the shortest length octets, and the contents. -/
def DerElement (ident : UInt8) (contents e : Bytes) : Prop :=
  ∃ l, MinimalLength l contents.length ∧ e = ident :: (l ++ contents)

theorem minimalNat_cons_cons {b b' : UInt8} {r : Bytes} :
    MinimalNat (b :: b' :: r) ↔ b.toNat < 128 ∧ (b = 0 → 128 ≤ b'.toNat) := Iff.rfl

theorem MinimalNat.ne_nil {c : Bytes} (h : MinimalNat c) : c ≠ [] := by
  rintro rfl
  exact h

theorem MinimalNat.beNat_lt {c : Bytes} (h : MinimalNat c) : beNat c * 2 < 256 ^ c.length := by
  cases c with
  | nil => exact absurd rfl h.ne_nil
  | cons b r =>
      have hb : b.toNat < 128 := by
        cases r with
        | nil => exact h
        | cons b' r => exact h.1
      have hr := SafeTransmission.beNat_lt r
      rw [beNat_cons, List.length_cons, pow_succ]
      nlinarith

/-- One octet less would not do. -/
theorem MinimalNat.le_beNat {c : Bytes} (h : MinimalNat c) (hc : 2 ≤ c.length) :
    256 ^ (c.length - 1) ≤ beNat c * 2 := by
  match c, h with
  | [b], _ => simp at hc
  | b :: b' :: r, ⟨_, hzero⟩ =>
      simp only [List.length_cons, Nat.add_sub_cancel, beNat_cons]
      by_cases hb : b = 0
      · have hb' := hzero hb
        simp only [hb, pow_succ]
        nlinarith [Nat.zero_le (beNat r), Nat.pow_pos (n := r.length) (show 0 < 256 by norm_num)]
      · have hpos : 1 ≤ b.toNat := Nat.one_le_iff_ne_zero.mpr fun hz => hb (UInt8.toNat_inj.mp hz)
        nlinarith [Nat.zero_le (b'.toNat * 256 ^ r.length + beNat r),
          Nat.pow_pos (n := r.length + 1) (show 0 < 256 by norm_num)]

theorem MinimalNat.eq_of_beNat_eq {c c' : Bytes} (h : MinimalNat c) (h' : MinimalNat c')
    (heq : beNat c = beNat c') : c = c' := by
  have hle : ∀ {c c' : Bytes}, MinimalNat c → MinimalNat c' → beNat c = beNat c' →
      c'.length ≤ c.length := by
    intro c c' h h' heq
    by_contra hlt
    have hpos : 0 < c.length := List.length_pos_of_ne_nil h.ne_nil
    have hpow : 256 ^ c.length ≤ 256 ^ (c'.length - 1) :=
      Nat.pow_le_pow_right (by norm_num) (by omega)
    have hlow := h'.le_beNat (by omega)
    have hhigh := h.beNat_lt
    omega
  exact SafeTransmission.eq_of_beNat_eq (le_antisymm (hle h' h heq.symm) (hle h h' heq)) heq

theorem MinimalTail.le_beNat {bs : Bytes} (h : MinimalTail bs) :
    128 ≤ beNat bs ∧ 256 ^ (bs.length - 1) ≤ beNat bs := by
  match bs, h with
  | [b], hb =>
      have hb : 128 ≤ b.toNat := hb
      simp only [beNat_singleton, List.length_singleton, Nat.sub_self, pow_zero]
      omega
  | b :: b' :: r, hb =>
      have hpos : 1 ≤ b.toNat := Nat.one_le_iff_ne_zero.mpr fun hz => hb (UInt8.toNat_inj.mp hz)
      have hpow : 256 ≤ 256 ^ (r.length + 1) := Nat.le_self_pow (by omega) 256
      have hbig : 256 ^ (r.length + 1) ≤ beNat (b :: b' :: r) := by
        rw [beNat_cons, List.length_cons]
        nlinarith
      exact ⟨by omega, by simpa using hbig⟩

/-- No octets for the same number are fewer. -/
theorem MinimalTail.length_le {bs bs' : Bytes} (h : MinimalTail bs) (heq : beNat bs' = beNat bs) :
    bs.length ≤ bs'.length := by
  by_contra hlt
  have hpow : 256 ^ bs'.length ≤ 256 ^ (bs.length - 1) :=
    Nat.pow_le_pow_right (by norm_num) (by omega)
  have hlow := h.le_beNat.2
  have hhigh := SafeTransmission.beNat_lt bs'
  omega

/-- The first of the octets of a number that needs no more of them. -/
private theorem toNat_firstOctet {k n : ℕ} (hlt : n < 256 ^ (k + 1)) :
    (UInt8.ofNat (n >>> (8 * k))).toNat = n / 256 ^ k := by
  have h256 : n / 256 ^ k < 256 := Nat.div_lt_of_lt_mul (by rwa [← pow_succ])
  rw [UInt8.toNat_ofNat', Nat.shiftRight_eq_div_pow, pow_mul, show (2 : ℕ) ^ 8 = 256 from rfl,
    Nat.mod_eq_of_lt h256]

/-- As many octets as `n` needs are the shortest. -/
theorem minimalTail_beBytes {k n : ℕ} (hpos : 1 ≤ k) (h128 : 128 ≤ n) (hlt : n < 256 ^ k)
    (hlow : 2 ≤ k → 256 ^ (k - 1) ≤ n) : MinimalTail (beBytes k n) := by
  match k with
  | 1 =>
      have hnat : (UInt8.ofNat (n >>> 0)).toNat = n := by
        rw [UInt8.toNat_ofNat', Nat.shiftRight_zero, Nat.mod_eq_of_lt (by simpa using hlt)]
      change 128 ≤ (UInt8.ofNat (n >>> 0)).toNat
      rwa [hnat]
  | k + 2 =>
      have hlow : 256 ^ (k + 1) ≤ n := hlow (by omega)
      have hone : 1 ≤ n / 256 ^ (k + 1) := (Nat.one_le_div_iff (by positivity)).mpr hlow
      intro hzero
      have hnat := congrArg UInt8.toNat hzero
      rw [toNat_firstOctet hlt, UInt8.toNat_zero] at hnat
      omega

/-- As many octets as `n` needs, behind a zero octet where the top bit is set, are
the shortest integer. -/
theorem minimalNat_beBytes {k n : ℕ} (hpos : 1 ≤ k) (hlt : n < 256 ^ k)
    (hlow : 2 ≤ k → 256 ^ (k - 1) ≤ n) :
    MinimalNat ((if 128 * 256 ^ (k - 1) ≤ n then [0] else []) ++ beBytes k n) := by
  obtain ⟨k, rfl⟩ := Nat.exists_eq_add_of_le' hpos
  rw [Nat.add_sub_cancel] at hlow ⊢
  have hfirst := toNat_firstOctet hlt
  have htop : 128 * 256 ^ k ≤ n ↔ 128 ≤ n / 256 ^ k := (Nat.le_div_iff_mul_le (by positivity)).symm
  split
  · rename_i h
    have hset : 128 ≤ (UInt8.ofNat (n >>> (8 * k))).toNat := by
      rw [hfirst]
      exact htop.mp h
    rw [beBytes, List.singleton_append, minimalNat_cons_cons]
    exact ⟨by decide, fun _ => hset⟩
  · rename_i h
    have hclear : (UInt8.ofNat (n >>> (8 * k))).toNat < 128 := by
      rw [hfirst]
      exact not_le.mp fun hle => h (htop.mpr hle)
    cases k with
    | zero => exact hclear
    | succ k =>
        rw [beBytes, beBytes, List.nil_append, minimalNat_cons_cons]
        refine ⟨hclear, fun hzero => absurd (congrArg UInt8.toNat hzero) ?_⟩
        have hone := (Nat.one_le_div_iff (by positivity)).mpr (hlow (by omega))
        rw [hfirst, UInt8.toNat_zero]
        omega

theorem MinimalLength.unique {l l' : Bytes} {n : ℕ} (h : MinimalLength l n)
    (h' : MinimalLength l' n) : l = l' := by
  generalize hn : n = n' at h'
  cases h with
  | @short b hb =>
      cases h' with
      | @short b' hb' => rw [UInt8.toNat_inj.mp hn]
      | @long b' bs' hbs' hb' =>
          have := hbs'.le_beNat.1
          omega
  | @long b bs hbs hb =>
      cases h' with
      | @short b' hb' =>
          have := hbs.le_beNat.1
          omega
      | @long b' bs' hbs' hb' =>
          have hlen : bs.length = bs'.length :=
            le_antisymm (hbs.length_le hn.symm) (hbs'.length_le hn)
          rw [SafeTransmission.eq_of_beNat_eq hlen hn] at hb ⊢
          rw [UInt8.toNat_inj.mp (hb.trans hb'.symm)]

theorem DerElement.unique {ident : UInt8} {contents e e' : Bytes} (h : DerElement ident contents e)
    (h' : DerElement ident contents e') : e = e' := by
  obtain ⟨l, hl, rfl⟩ := h
  obtain ⟨l', hl', rfl⟩ := h'
  rw [hl.unique hl']

end SafeTransmission
