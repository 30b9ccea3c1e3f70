import SafeTransmission.Asn1.Heads

/-!
# What one round of the element loop does

An `ElementHead` is what the two readers take from the front of a byte string: tag
octets, length octets, and the tag and the length they stand for.  From the size that
they add up to follows what `readElement` does (`Begins.readElement`), for both widths of
`unsigned long` and without a bound on the input.

Where there is no head, either a length with more than four octets is refused (`Refused`),
or the readers leave the input (`readElement_of_noHead`).
-/

namespace SafeTransmission

open Outcome

/-- The head of an element. -/
structure ElementHead where
  ident : Bytes
  lenOctets : Bytes
  tag : ℕ
  length : ℕ
deriving DecidableEq, Repr

namespace ElementHead

/-- The size of the element, before it is cut to `unsigned long`. -/
def size (e : ElementHead) : ℕ :=
  e.ident.length + e.lenOctets.length + e.length

/-- The number of octets that the readers look at.  Behind `0x80` it is one more than they
report. -/
def octets (e : ElementHead) : ℕ :=
  e.ident.length + e.lenOctets.length + if e.lenOctets = [0x80] then 1 else 0

/-- The readers find the head in front of `p`. -/
structure Begins (w : ℕ) (e : ElementHead) (p : Bytes) : Prop where
  tagOctets : TagOctets w e.ident e.tag
  announces : ∃ q, p = e.ident ++ (e.lenOctets ++ q) ∧ Announces e.lenOctets q e.length

variable {w : ℕ} {e e' : ElementHead} {p : Bytes}

theorem Begins.length_lt (h : e.Begins w p) : e.length < 2 ^ 32 := by
  obtain ⟨q, -, hannounce⟩ := h.announces
  exact hannounce.lt

theorem Begins.lenOctets_ne_nil (h : e.Begins w p) : e.lenOctets ≠ [] := by
  obtain ⟨q, -, hannounce⟩ := h.announces
  rcases hannounce.or with hlen | ⟨h80, -⟩
  · intro hnil
    rw [hnil] at hlen
    cases hlen
  · simp [h80]

theorem Begins.two_le (h : e.Begins w p) : 2 ≤ e.ident.length + e.lenOctets.length := by
  have hident := h.tagOctets.length_pos
  have hlen := List.length_pos_of_ne_nil h.lenOctets_ne_nil
  omega

theorem Begins.octets_le (h : e.Begins w p) : e.octets ≤ p.length := by
  obtain ⟨q, hp, hannounce⟩ := h.announces
  rw [hp, octets, List.length_append, List.length_append]
  rcases hannounce.or with hlen | ⟨h80, b, r, hq, -⟩
  · rw [if_neg hlen.ne_octet80]
    omega
  · rw [if_pos h80, hq, List.length_cons]
    omega

theorem Begins.getTagInfo (h : e.Begins w p) :
    derItAsn1LowGetTagInfo w p = ok ⟨e.tag, e.ident.length, p.drop e.ident.length⟩ := by
  obtain ⟨q, hp, -⟩ := h.announces
  rw [hp, getTagInfo_append h.tagOctets, List.drop_left]

theorem Begins.getLengthInfo (hw : 32 ≤ w) (h : e.Begins w p) :
    derItAsn1LowGetLengthInfo w (p.drop e.ident.length) =
      ok ⟨e.length, e.lenOctets.length, p.drop e.octets⟩ := by
  obtain ⟨q, hp, hannounce⟩ := h.announces
  rw [hp, List.drop_left, octets]
  rcases hannounce.or with hlen | ⟨h80, b, r, hq, hb⟩
  · rw [getLengthInfo_append hw hlen, if_neg hlen.ne_octet80, add_zero, ← List.append_assoc,
      ← List.length_append, List.drop_left]
  · have hdrop : (e.ident ++ 0x80 :: b :: r).drop (e.ident.length + ([0x80] : Bytes).length + 1) = r := by
      simp [List.drop_append, add_assoc]
    rw [h80, hq, if_pos rfl, hb, List.singleton_append, getLengthInfo_octet80, hdrop]
    rfl

theorem begins_of_reads (hw : 32 ≤ w) {tag len : Head} (htag : derItAsn1LowGetTagInfo w p = ok tag)
    (hlen : derItAsn1LowGetLengthInfo w tag.rest = ok len) : ∃ e : ElementHead, e.Begins w p := by
  obtain ⟨ident, hident, htagOctets, -⟩ := getTagInfo_inv htag
  obtain ⟨l, q, hl, hannounce, -⟩ := announces_of_getLengthInfo hw hlen
  exact ⟨⟨ident, l, tag.value, len.value⟩, htagOctets, q, by rw [hident, hl], hannounce⟩

theorem Begins.unique (hw : 32 ≤ w) (h : e.Begins w p) (h' : e'.Begins w p) : e = e' := by
  have htag := h.getTagInfo.symm.trans h'.getTagInfo
  rw [ok.injEq, Head.mk.injEq] at htag
  have hlen := h.getLengthInfo hw
  rw [htag.2.1, h'.getLengthInfo hw, ok.injEq, Head.mk.injEq] at hlen
  obtain ⟨q, hp, -⟩ := h.announces
  obtain ⟨q', hp', -⟩ := h'.announces
  obtain ⟨hident, hrest⟩ := List.append_inj (hp.symm.trans hp') htag.2.1
  obtain ⟨hlenOctets, -⟩ := List.append_inj hrest hlen.2.1.symm
  cases e
  cases e'
  simp_all

/-- It does not matter what follows a head. -/
theorem Begins.append (h : e.Begins w p) (r : Bytes) : e.Begins w (p ++ r) := by
  obtain ⟨q, hp, hannounce⟩ := h.announces
  refine ⟨h.tagOctets, q ++ r, by rw [hp]; simp, ?_⟩
  generalize e.lenOctets = l at hannounce
  generalize e.length = n at hannounce
  cases hannounce with
  | definite hlen => exact .definite hlen
  | octet80 b q => exact .octet80 b (q ++ r)

theorem Begins.take (h : e.Begins w p) {k : ℕ} (hk : e.octets ≤ k) : e.Begins w (p.take k) := by
  obtain ⟨q, hp, hannounce⟩ := h.announces
  have hoctets : e.ident.length + e.lenOctets.length ≤ e.octets := Nat.le_add_right _ _
  refine ⟨h.tagOctets, q.take (k - (e.ident.length + e.lenOctets.length)), ?_, ?_⟩
  · rw [hp, ← List.append_assoc, List.take_append, List.take_of_length_le (by simp; omega)]
    simp
  · rcases hannounce.or with hlen | ⟨h80, b, r, hq, hb⟩
    · exact .definite hlen
    · rw [octets, if_pos h80] at hk
      obtain ⟨j, hj⟩ := Nat.exists_eq_add_of_lt (show e.ident.length + e.lenOctets.length < k by omega)
      rw [Nat.sub_eq_of_eq_add' (hj.trans (add_assoc ..))]
      rw [hq, h80, hb, List.take_succ_cons]
      exact .octet80 b _

end ElementHead

/-- Behind the tag octets stands a length octet that announces more than four. -/
def Refused (w : ℕ) (p : Bytes) : Prop :=
  ∃ ident tag b q, TagOctets w ident tag ∧ p = ident ++ b :: q ∧ 132 < b.toNat

section Readers

variable {w : ℕ} {p : Bytes}

theorem getTagInfoLoop_cases (p : Bytes) (v s : ℕ) :
    (∃ f, getTagInfoLoop w p v s = ok f) ∨ getTagInfoLoop w p v s = fault .readOutOfBounds := by
  induction p generalizing v s with
  | nil => exact Or.inr rfl
  | cons b p ih =>
      rw [getTagInfoLoop]
      split
      · exact ih _ _
      · exact Or.inl ⟨_, rfl⟩

theorem getTagInfo_cases (p : Bytes) : (∃ f, derItAsn1LowGetTagInfo w p = ok f) ∨
    derItAsn1LowGetTagInfo w p = fault .readOutOfBounds := by
  cases p with
  | nil => exact Or.inr rfl
  | cons b p =>
      rw [derItAsn1LowGetTagInfo, deref_cons, ok_bind]
      split
      · split
        · exact Or.inl ⟨_, rfl⟩
        · exact Or.inl ⟨_, rfl⟩
      · exact getTagInfoLoop_cases _ _ _

theorem shiftInLoop_cases (k : ℕ) (p : Bytes) (v : ℕ) :
    (∃ x, shiftInLoop w k p v = ok x) ∨ shiftInLoop w k p v = fault .readOutOfBounds := by
  induction k generalizing p v with
  | zero => exact Or.inl ⟨_, rfl⟩
  | succ k ih =>
      cases p with
      | nil => exact Or.inr rfl
      | cons b p => exact ih p _

/-- The length reader returns zero, refuses a length with more than four octets, or leaves
the input. -/
theorem getLengthInfo_cases (p : Bytes) : (∃ f, derItAsn1LowGetLengthInfo w p = ok f) ∨
    (∃ b q, p = b :: q ∧ 132 < b.toNat ∧
      derItAsn1LowGetLengthInfo w p = err DerErrType.lengthErr) ∨
    derItAsn1LowGetLengthInfo w p = fault .readOutOfBounds := by
  cases p with
  | nil => exact Or.inr (Or.inr rfl)
  | cons b p =>
      rw [derItAsn1LowGetLengthInfo, deref_cons, ok_bind]
      split
      · exact Or.inl ⟨_, rfl⟩
      · rename_i hlong
        rw [UInt8.and_128_eq_zero] at hlong
        have hlt : b.toNat < 256 := b.toNat_lt
        dsimp only
        split
        · rename_i hmore
          rw [and_127] at hmore
          exact Or.inr (Or.inl ⟨b, p, rfl, by omega, rfl⟩)
        · rcases shiftInLoop_cases (w := w) ((b.toNat &&& firstNotIdMask) - 1) p 0 with ⟨x, hx⟩ | hx
          · rw [List.tail_cons, hx, ok_bind]
            cases x.2 with
            | nil => exact Or.inr (Or.inr rfl)
            | cons c q => exact Or.inl ⟨_, rfl⟩
          · rw [List.tail_cons, hx]
            exact Or.inr (Or.inr rfl)

theorem getLengthInfo_of_refused {b : UInt8} {q : Bytes} (hb : 132 < b.toNat) :
    derItAsn1LowGetLengthInfo w (b :: q) = err DerErrType.lengthErr := by
  have hlt : b.toNat < 256 := b.toNat_lt
  have hlong : ¬ b.toNat &&& firstYesIdMask = 0 := by
    rw [UInt8.and_128_eq_zero]
    omega
  have hmore : b.toNat &&& firstNotIdMask > 4 := by
    rw [and_127]
    omega
  rw [derItAsn1LowGetLengthInfo, deref_cons, ok_bind, if_neg hlong]
  dsimp only
  rw [if_pos hmore]

/-! ## One element -/

/-- An element with a head is refused if its size is half of `unsigned long` or more; else as
many octets are copied, if they are there. -/
theorem ElementHead.Begins.readElement (hw : 32 ≤ w) {e : ElementHead} (h : e.Begins w p) :
    readElement w p =
      if 2 ^ (w - 1) ≤ e.size % 2 ^ w then err DerErrType.memoryErr
      else if e.size % 2 ^ w ≤ p.length then
        ok ⟨p.take (e.size % 2 ^ w), e.size % 2 ^ w, 0, e.tag⟩
      else fault .readOutOfBounds := by
  rw [SafeTransmission.readElement, h.getTagInfo, ok_bind]
  dsimp only
  rw [h.getLengthInfo hw]
  dsimp only
  rw [← ElementHead.size]
  split
  · rfl
  · rw [memcpy]
    split
    · rfl
    · rfl

/-- On a refused length the pointer to the previous length is freed again. -/
theorem readElement_of_refused (h : Refused w p) : readElement w p = fault .doubleFree := by
  obtain ⟨ident, tag, b, q, htag, rfl, hb⟩ := h
  rw [readElement, getTagInfo_append htag, ok_bind]
  dsimp only
  rw [getLengthInfo_of_refused hb]

theorem refused_or_begins (w : ℕ) (p : Bytes) : Refused w p ∨ (∃ e : ElementHead, e.Begins w p) ∨
    (∀ e : ElementHead, ¬ e.Begins w p) ∧ ¬ Refused w p := by
  by_cases hrefused : Refused w p
  · exact Or.inl hrefused
  · by_cases hhead : ∃ e : ElementHead, e.Begins w p
    · exact Or.inr (Or.inl hhead)
    · exact Or.inr (Or.inr ⟨not_exists.mp hhead, hrefused⟩)

/-- Without a head, and without a refused length, the readers leave the input. -/
theorem reads_of_noHead (hw : 32 ≤ w) (hhead : ∀ e : ElementHead, ¬ e.Begins w p)
    (hrefused : ¬ Refused w p) : derItAsn1LowGetTagInfo w p = fault .readOutOfBounds ∨
      ∃ tag, derItAsn1LowGetTagInfo w p = ok tag ∧
        derItAsn1LowGetLengthInfo w tag.rest = fault .readOutOfBounds := by
  rcases getTagInfo_cases (w := w) p with ⟨tag, htag⟩ | htag
  · obtain ⟨ident, hident, htagOctets, -⟩ := getTagInfo_inv htag
    rcases getLengthInfo_cases (w := w) tag.rest with ⟨len, hlen⟩ | ⟨b, q, hq, hb, -⟩ | hlen
    · obtain ⟨e, he⟩ := ElementHead.begins_of_reads hw htag hlen
      exact absurd he (hhead e)
    · exact absurd ⟨ident, tag.value, b, q, htagOctets, by rw [hident, hq], hb⟩ hrefused
    · exact Or.inr ⟨tag, htag, hlen⟩
  · exact Or.inl htag

theorem readElement_of_noHead (hw : 32 ≤ w) (hhead : ∀ e : ElementHead, ¬ e.Begins w p)
    (hrefused : ¬ Refused w p) : readElement w p = fault .readOutOfBounds := by
  rw [readElement]
  rcases reads_of_noHead hw hhead hrefused with htag | ⟨tag, htag, hlen⟩
  · rw [htag, fault_bind]
  · rw [htag, ok_bind]
    dsimp only
    rw [hlen]

end Readers

end SafeTransmission
