import SafeTransmission.Asn1.BaseASN1

/-!
# Which tag and length octets the readers accept

`TagOctets` and `LenOctets` say which octets `DER_ItAsn1_Low_GetTagInfo` and
`DER_ItAsn1_Low_GetLengthInfo` take for a tag and for a definite length, and what
they report.  For each reader there is one theorem that it accepts such octets
in front of anything, and one that it accepts nothing else.

Two quirks of the readers show up in the grammar.

* In a multi-octet tag the continuation bit is read the wrong way round: the
  octets up to the last have the top bit clear, and the last has it set.
* The length octet `0x80` reports a size of one octet but moves the pointer over
  two, and takes the second as the length (`Announces.octet80`).

## Strategy

* `shiftInLoop` is the loop of both readers: with enough octets it gives their number
  (`shiftIn_octets`), with too few it leaves the block (`shiftIn_short`).
* The grammar is shown to be accepted by cases on its rules, and the readers are inverted by cases
  on their branches.
-/

namespace SafeTransmission

open Outcome

/-! ## The octet loop -/

section OctetLoop

variable {w : ℕ}

/-- In an accumulator whose low octet is zero, `|` is `+`. -/
private theorem or_octet (hw : 8 ≤ w) (u : ℕ) (b : UInt8) :
    (256 * u % 2 ^ w) ||| b.toNat = (256 * u + b.toNat) % 2 ^ w := by
  obtain ⟨k, rfl⟩ := Nat.exists_eq_add_of_le hw
  have hpow : (2 : ℕ) ^ (8 + k) = 256 * 2 ^ k := by rw [pow_add]; norm_num
  have hb : b.toNat < 256 := b.toNat_lt
  have hmod : 256 * u % 2 ^ (8 + k) = (u % 2 ^ k) <<< 8 := by
    rw [hpow, Nat.mul_mod_mul_left, Nat.shiftLeft_eq, mul_comm]
  rw [hmod, shiftLeft_or, hpow, Nat.mod_mul, Nat.mul_add_mod, Nat.mod_eq_of_lt hb,
    show (256 * u + b.toNat) / 256 = u by omega]
  ring

theorem shiftInLoop_append (hw : 8 ≤ w) (a p : Bytes) (u : ℕ) :
    shiftInLoop w a.length (a ++ p) (256 * u % 2 ^ w) =
      ok (256 * (u * 256 ^ a.length + beNat a) % 2 ^ w, p) := by
  induction a generalizing u with
  | nil => simp [shiftInLoop]
  | cons b a ih =>
      have hstep : ((256 * u % 2 ^ w ||| b.toNat) <<< 8) % 2 ^ w =
          256 * (256 * u + b.toNat) % 2 ^ w := by
        rw [or_octet hw, Nat.shiftLeft_eq, mul_comm, Nat.mul_mod_mod]
      simp only [List.length_cons, List.cons_append, shiftInLoop, deref_cons, ok_bind,
        List.tail_cons, hstep, ih, beNat_cons]
      congr 3
      ring

theorem shiftInLoop_short {k : ℕ} {p : Bytes} (h : p.length < k) (v : ℕ) :
    shiftInLoop w k p v = fault .readOutOfBounds := by
  induction k generalizing p v with
  | zero => omega
  | succ k ih =>
      cases p with
      | nil => rfl
      | cons b p => exact ih (by simpa using h) _

theorem shiftIn_octets (hw : 8 ≤ w) {bs : Bytes} (hbs : bs ≠ []) (p : Bytes) :
    (do
      let (v, q) ← shiftInLoop w (bs.length - 1) (bs ++ p) 0
      let b ← deref q
      ok (v ||| b.toNat, q.tail)) = ok (beNat bs % 2 ^ w, p) := by
  obtain ⟨a, b, rfl⟩ := List.eq_nil_or_concat' bs |>.resolve_left hbs
  have hloop := shiftInLoop_append hw a (b :: p) 0
  simp only [mul_zero, Nat.zero_mod, zero_mul, zero_add] at hloop
  simp only [List.length_append, List.length_singleton, Nat.add_sub_cancel, List.append_assoc,
    List.singleton_append, hloop, ok_bind, deref_cons, List.tail_cons, or_octet hw,
    beNat_append_singleton, mul_comm (beNat a) 256]

theorem shiftIn_short (hw : 8 ≤ w) {α : Type} {k : ℕ} {p : Bytes} (h : p.length < k)
    (next : ℕ × Bytes → UInt8 → Outcome α) :
    (do
      let x ← shiftInLoop w (k - 1) p 0
      let b ← deref x.2
      next x b) = fault .readOutOfBounds := by
  rcases Nat.lt_or_ge p.length (k - 1) with hlt | hge
  · rw [shiftInLoop_short hlt]
    rfl
  · have hloop := shiftInLoop_append hw p [] 0
    rw [List.append_nil, show p.length = k - 1 by omega, mul_zero, Nat.zero_mod] at hloop
    rw [hloop]
    rfl

end OctetLoop

/-! ## Tags -/

/-- One round of the tag loop. -/
def tagShift (w v : ℕ) (b : UInt8) : ℕ :=
  ((v ||| (b.toNat &&& firstNotIdMask)) <<< 8) % 2 ^ w

/-- The octets that are read as a tag, and the tag value. -/
inductive TagOctets (w : ℕ) : Bytes → ℕ → Prop where
  | low {b : UInt8} (hlow : b.toNat % 32 ≠ 31) (hb : b.toNat < 128) :
      TagOctets w [b] (b.toNat % 32)
  | context {b : UInt8} (hlow : b.toNat % 32 ≠ 31) (hb : 128 ≤ b.toNat) :
      TagOctets w [b] b.toNat
  | high {b last : UInt8} {mids : Bytes} (hlow : b.toNat % 32 = 31)
      (hmids : ∀ m ∈ mids, m.toNat < 128) (hlast : 128 ≤ last.toNat) :
      TagOctets w (b :: (mids ++ [last]))
        (tagShift w (mids.foldl (tagShift w) 0) last ||| last.toNat)

section Tags

variable {w : ℕ}

private theorem getTagInfoLoop_append {mids : Bytes} (hmids : ∀ m ∈ mids, m.toNat < 128)
    {last : UInt8} (hlast : 128 ≤ last.toNat) (p : Bytes) (v s : ℕ) :
    getTagInfoLoop w (mids ++ last :: p) v s =
      ok ⟨tagShift w (mids.foldl (tagShift w) v) last ||| last.toNat, s + mids.length + 2, p⟩ := by
  induction mids generalizing v s with
  | nil =>
      have hbit : ¬ last.toNat &&& firstYesIdMask = 0 := by
        rw [UInt8.and_128_eq_zero]
        omega
      simp [getTagInfoLoop, hbit, tagShift]
  | cons m mids ih =>
      have hbit : m.toNat &&& firstYesIdMask = 0 := by
        rw [UInt8.and_128_eq_zero]
        exact hmids m (List.mem_cons_self ..)
      simp only [List.cons_append, getTagInfoLoop, hbit, if_true]
      rw [ih fun m' hm' => hmids m' (List.mem_cons_of_mem _ hm')]
      simp only [List.length_cons, List.foldl_cons, tagShift]
      congr 2
      omega

private theorem getTagInfoLoop_inv {p : Bytes} {v s : ℕ} {f : Head}
    (h : getTagInfoLoop w p v s = ok f) :
    ∃ mids last, p = mids ++ last :: f.rest ∧ (∀ m ∈ mids, m.toNat < 128) ∧ 128 ≤ last.toNat := by
  induction p generalizing v s with
  | nil => simp [getTagInfoLoop] at h
  | cons b p ih =>
      rw [getTagInfoLoop] at h
      by_cases hb : b.toNat < 128
      · rw [if_pos (by rwa [UInt8.and_128_eq_zero])] at h
        obtain ⟨mids, last, rfl, hmids, hlast⟩ := ih h
        exact ⟨b :: mids, last, rfl, List.forall_mem_cons.mpr ⟨hb, hmids⟩, hlast⟩
      · rw [if_neg (by rwa [UInt8.and_128_eq_zero])] at h
        simp only [ok.injEq] at h
        subst h
        exact ⟨[], b, rfl, by simp, not_lt.mp hb⟩

/-- Tag octets are read over whatever follows, and the size reported is theirs. -/
theorem getTagInfo_append {ident : Bytes} {tag : ℕ} (h : TagOctets w ident tag) (p : Bytes) :
    derItAsn1LowGetTagInfo w (ident ++ p) = ok ⟨tag, ident.length, p⟩ := by
  cases h with
  | @low b hlow hb =>
      have hbit : b.toNat &&& contextSpecific = 0 := by rwa [UInt8.and_128_eq_zero]
      have hmask : b.toNat &&& shortIdMask ≠ shortIdMask := by rwa [and_31]
      simp only [derItAsn1LowGetTagInfo, List.singleton_append, deref_cons, ok_bind,
        if_pos hmask, if_neg (not_not.mpr hbit), List.tail_cons, List.length_singleton]
      rw [and_31]
  | @context b hlow hb =>
      have hbit : b.toNat &&& contextSpecific ≠ 0 := by
        rw [ne_eq, UInt8.and_128_eq_zero]
        omega
      have hmask : b.toNat &&& shortIdMask ≠ shortIdMask := by rwa [and_31]
      simp only [derItAsn1LowGetTagInfo, List.singleton_append, deref_cons, ok_bind,
        if_pos hmask, if_pos hbit, List.tail_cons, List.length_singleton]
  | @high b last mids hlow hmids hlast =>
      have hmask : ¬ b.toNat &&& shortIdMask ≠ shortIdMask := by rw [and_31, hlow]; simp
      simp only [derItAsn1LowGetTagInfo, List.cons_append, List.append_assoc, deref_cons, ok_bind,
        if_neg hmask, List.tail_cons, List.nil_append, getTagInfoLoop_append hmids hlast]
      simp

theorem getTagInfo_inv {p : Bytes} {f : Head} (h : derItAsn1LowGetTagInfo w p = ok f) :
    ∃ ident, p = ident ++ f.rest ∧ TagOctets w ident f.value ∧ f.size = ident.length := by
  have hok : ∀ {ident tag} rest, TagOctets w ident tag → p = ident ++ rest →
      ∃ ident, p = ident ++ f.rest ∧ TagOctets w ident f.value ∧ f.size = ident.length := by
    intro ident tag rest htag hp
    rw [hp, getTagInfo_append htag, ok.injEq] at h
    subst h
    exact ⟨ident, hp, htag, rfl⟩
  cases p with
  | nil => simp [derItAsn1LowGetTagInfo] at h
  | cons b p =>
      by_cases hlow : b.toNat % 32 = 31
      · have hloop : getTagInfoLoop w p 0 0 = ok f := by
          simpa [derItAsn1LowGetTagInfo, and_31, hlow] using h
        obtain ⟨mids, last, hp, hmids, hlast⟩ := getTagInfoLoop_inv hloop
        exact hok f.rest (.high hlow hmids hlast) (by rw [hp]; simp)
      · by_cases hb : b.toNat < 128
        · exact hok p (.low hlow hb) (List.singleton_append ..).symm
        · exact hok p (.context hlow (not_lt.mp hb)) (List.singleton_append ..).symm

theorem TagOctets.length_pos {ident : Bytes} {tag : ℕ} (h : TagOctets w ident tag) :
    0 < ident.length := by
  cases h <;> simp

/-- A tag whose low octet is below 128 is a single octet with the top bit clear. -/
theorem TagOctets.of_mod_lt (hw : 8 ≤ w) {ident : Bytes} {tag : ℕ} (h : TagOctets w ident tag)
    (htag : tag % 256 < 128) : ∃ b : UInt8, ident = [b] ∧ b.toNat < 128 ∧ tag = b.toNat % 32 := by
  cases h with
  | @low b hlow hb => exact ⟨b, rfl, hb, rfl⟩
  | @context b hlow hb =>
      have hlt : b.toNat < 256 := b.toNat_lt
      omega
  | @high b last mids hlow hmids hlast =>
      exfalso
      have hlt : last.toNat < 256 := last.toNat_lt
      obtain ⟨u, hu⟩ : ∃ u, tagShift w (mids.foldl (tagShift w) 0) last = 256 * u % 2 ^ w :=
        ⟨_, by rw [tagShift, Nat.shiftLeft_eq, mul_comm]⟩
      obtain ⟨k, rfl⟩ := Nat.exists_eq_add_of_le hw
      rw [hu, or_octet hw, show (2 : ℕ) ^ (8 + k) = 256 * 2 ^ k by rw [pow_add]; norm_num,
        Nat.mod_mul_right_mod] at htag
      omega

end Tags

/-! ## Lengths -/

/-- The definite forms of length octets that are read, and the length. -/
inductive LenOctets : Bytes → ℕ → Prop where
  | short {b : UInt8} (hb : b.toNat < 128) : LenOctets [b] b.toNat
  | long {b : UInt8} {bs : Bytes} (hpos : 1 ≤ bs.length) (hle : bs.length ≤ 4)
      (hb : b.toNat = 128 + bs.length) : LenOctets (b :: bs) (beNat bs)

/-- `Announces l p n`: in front of `p`, the octets `l` are read as the length `n`
and reported with the size of `l`. -/
inductive Announces : Bytes → Bytes → ℕ → Prop where
  | definite {l p : Bytes} {n : ℕ} (h : LenOctets l n) : Announces l p n
  | octet80 (n : UInt8) (p : Bytes) : Announces [0x80] (n :: p) n.toNat

theorem LenOctets.lt {l : Bytes} {n : ℕ} (h : LenOctets l n) : n < 2 ^ 32 := by
  cases h with
  | short hb => omega
  | @long b bs hpos hle hb =>
      calc beNat bs < 256 ^ bs.length := beNat_lt bs
        _ ≤ 256 ^ 4 := Nat.pow_le_pow_right (by norm_num) hle
        _ = 2 ^ 32 := by norm_num

theorem Announces.or {l p : Bytes} {n : ℕ} (h : Announces l p n) :
    LenOctets l n ∨ l = [0x80] ∧ ∃ b q, p = b :: q ∧ n = b.toNat := by
  cases h with
  | definite h => exact Or.inl h
  | octet80 b q => exact Or.inr ⟨rfl, b, q, rfl, rfl⟩

theorem Announces.lt {l p : Bytes} {n : ℕ} (h : Announces l p n) : n < 2 ^ 32 := by
  cases h with
  | definite h => exact h.lt
  | octet80 n p => exact n.toNat_lt.trans (by norm_num)

theorem LenOctets.ne_octet80 {l : Bytes} {n : ℕ} (h : LenOctets l n) : l ≠ [0x80] := by
  rintro rfl
  cases h with
  | short hb => simp at hb
  | long hpos hle hb => simp at hpos

section Lengths

variable {w : ℕ}

/-- Definite length octets are read over whatever follows. -/
theorem getLengthInfo_append (hw : 32 ≤ w) {l : Bytes} {n : ℕ} (h : LenOctets l n) (p : Bytes) :
    derItAsn1LowGetLengthInfo w (l ++ p) = ok ⟨n, l.length, p⟩ := by
  have hn : n < 2 ^ w := h.lt.trans_le (Nat.pow_le_pow_right (by norm_num) hw)
  cases h with
  | @short b hb =>
      have hbit : b.toNat &&& firstYesIdMask = 0 := by rwa [UInt8.and_128_eq_zero]
      simp only [derItAsn1LowGetLengthInfo, List.singleton_append, deref_cons, ok_bind, if_pos hbit,
        and_127, Nat.mod_eq_of_lt hb, List.tail_cons, List.length_singleton]
  | @long b bs hpos hle hb =>
      have hbit : ¬ b.toNat &&& firstYesIdMask = 0 := by
        rw [UInt8.and_128_eq_zero]
        omega
      have hsize : b.toNat &&& firstNotIdMask = bs.length := by rw [and_127]; omega
      have hread := shiftIn_octets (w := w) (by omega) (List.ne_nil_of_length_pos hpos) p
      obtain ⟨⟨v, q⟩, hloop, hlast⟩ := bind_eq_ok.mp hread
      obtain ⟨c, hc, hval⟩ := bind_eq_ok.mp hlast
      simp only [ok.injEq, Prod.mk.injEq, Nat.mod_eq_of_lt hn] at hval
      simp only [derItAsn1LowGetLengthInfo, List.cons_append, deref_cons, ok_bind, if_neg hbit,
        List.tail_cons, hsize, if_neg (not_lt.mpr hle), hloop, hc, hval, List.length_cons]

/-- The length octet `0x80` swallows the octet behind it. -/
theorem getLengthInfo_octet80 (n : UInt8) (p : Bytes) :
    derItAsn1LowGetLengthInfo w (0x80 :: n :: p) = ok ⟨n.toNat, 1, p⟩ := by
  have hbit : ¬ (0x80 : UInt8).toNat &&& firstYesIdMask = 0 := by decide
  have hsize : (0x80 : UInt8).toNat &&& firstNotIdMask = 0 := rfl
  simp only [derItAsn1LowGetLengthInfo, deref_cons, ok_bind, if_neg hbit, hsize]
  simp [shiftInLoop]

theorem getLengthInfo_inv (hw : 32 ≤ w) {p : Bytes} {f : Head}
    (h : derItAsn1LowGetLengthInfo w p = ok f) :
    (∃ l, p = l ++ f.rest ∧ LenOctets l f.value ∧ f.size = l.length) ∨
      ∃ n : UInt8, p = 0x80 :: n :: f.rest ∧ f.value = n.toNat ∧ f.size = 1 := by
  have hok : ∀ {l n} rest, LenOctets l n → p = l ++ rest →
      ∃ l, p = l ++ f.rest ∧ LenOctets l f.value ∧ f.size = l.length := by
    intro l n rest hlen hp
    rw [hp, getLengthInfo_append hw hlen, ok.injEq] at h
    subst h
    exact ⟨l, hp, hlen, rfl⟩
  cases p with
  | nil => simp [derItAsn1LowGetLengthInfo] at h
  | cons b p =>
      by_cases hb : b.toNat < 128
      · exact Or.inl (hok p (.short hb) (List.singleton_append ..).symm)
      · have hbit : ¬ b.toNat &&& firstYesIdMask = 0 := by rwa [UInt8.and_128_eq_zero]
        have hlt : b.toNat < 256 := b.toNat_lt
        simp only [derItAsn1LowGetLengthInfo, deref_cons, ok_bind, if_neg hbit, and_127,
          List.tail_cons] at h
        by_cases hfour : b.toNat % 128 ≤ 4
        · rw [if_neg (not_lt.mpr hfour)] at h
          by_cases hzero : b.toNat % 128 = 0
          · -- `cSizeOf = 0`
            have hb80 : b = 0x80 := UInt8.toNat_inj.mp (by simp; omega)
            simp only [hzero, Nat.zero_sub, shiftInLoop, ok_bind] at h
            cases p with
            | nil => simp at h
            | cons n p =>
                simp only [deref_cons, ok_bind] at h
                obtain rfl := ok.inj h
                exact Or.inr ⟨n, by rw [hb80]; rfl, by simp, rfl⟩
          · -- a long form, with enough octets or too few
            by_cases hshort : p.length < b.toNat % 128
            · have hfault := shiftIn_short (w := w) (by omega) hshort fun x c =>
                ok (⟨x.1 ||| c.toNat, b.toNat % 128 + 1, x.2.tail⟩ : Head)
              exact absurd (h.symm.trans hfault) (by simp)
            · refine Or.inl (hok (l := b :: p.take (b.toNat % 128)) (n := beNat _)
                (p.drop (b.toNat % 128)) (.long ?_ ?_ ?_) ?_)
              · simp; omega
              · simp; omega
              · simp; omega
              · simp
        · rw [if_pos (not_le.mp hfour)] at h
          simp at h

theorem announces_of_getLengthInfo (hw : 32 ≤ w) {p : Bytes} {f : Head}
    (h : derItAsn1LowGetLengthInfo w p = ok f) :
    ∃ l q, p = l ++ q ∧ Announces l q f.value ∧ f.size = l.length := by
  rcases getLengthInfo_inv hw h with ⟨l, hp, hlen, hsize⟩ | ⟨n, hp, hvalue, hsize⟩
  · exact ⟨l, f.rest, hp, .definite hlen, hsize⟩
  · exact ⟨[0x80], n :: f.rest, hp, hvalue ▸ .octet80 n f.rest, hsize⟩

/-- The two ways in which length octets are read. -/
theorem getLengthInfo_announces (hw : 32 ≤ w) {l p : Bytes} {n : ℕ} (h : Announces l p n) :
    ∃ rest, derItAsn1LowGetLengthInfo w (l ++ p) = ok ⟨n, l.length, rest⟩ := by
  cases h with
  | definite h => exact ⟨p, getLengthInfo_append hw h p⟩
  | octet80 n p => exact ⟨p, getLengthInfo_octet80 n p⟩

end Lengths

end SafeTransmission
