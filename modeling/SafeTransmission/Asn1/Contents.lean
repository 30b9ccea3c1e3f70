import SafeTransmission.Asn1.Elements

/-!
# What an element holds

The integer reader and the string readers run on the nodes that the element loop
made.  `Tlv.HoldsInteger` and `Tlv.HoldsString` say what they find there.  No
reader looks at the tag to see whether the element is of its kind: any element
with contents octets is an integer, and any element but an empty BIT STRING and
an INTEGER that ends too early is a string.

An element behind the length octet `0x80` (`Announces.octet80`) lost its first
contents octet to the length.  It holds no integer, and a string only in one
case.

## Strategy

Each reader is calculated on the node of an element (`Reads.readInteger_cases`,
`Reads.readTlv_cases`): with the octets that are there it gives the value, with one octet less than
announced it leaves the node (`charToInt_short`), and an empty BIT STRING is refused with a code.
-/

namespace SafeTransmission

open Outcome

/-- The contents octets that a string reader copies: without the octet of unused
bits of a BIT STRING, and without the sign octet of an INTEGER. -/
def stringContents (tag : ℕ) (contents : Bytes) : Option Bytes :=
  if tag = DerTag.bitString then
    match contents with
    | [] => none
    | _ :: s => some s
  else if tag = DerTag.integer then
    match contents with
    | [] => none
    | [b] => if b = 0 then none else some [b]
    | b :: b' :: s => if b = 0 ∧ 128 ≤ b'.toNat then some (b' :: s) else some contents
  else
    some contents

namespace Tlv

/-- The element is read as the string `s`. -/
inductive HoldsString (t : Tlv) : Bytes → Prop where
  | definite {s : Bytes} (hlen : LenOctets t.lenOctets t.contents.length)
      (hs : stringContents t.tag t.contents = some s) : HoldsString t s
  | octet80 (hlen : t.lenOctets = [0x80]) (htag : t.tag = DerTag.bitString)
      (hcontents : t.contents = [1]) : HoldsString t []

/-- The element is read as the number `n`, before it is cut to `unsigned long`. -/
structure HoldsInteger (t : Tlv) (n : ℕ) : Prop where
  lenOctets : LenOctets t.lenOctets t.contents.length
  contents_ne_nil : t.contents ≠ []
  value : n = beNat t.contents

/-- The element is a BIT STRING without even the octet of unused bits. -/
structure EmptyBitString (t : Tlv) : Prop where
  lenOctets : LenOctets t.lenOctets t.contents.length
  tag : t.tag = DerTag.bitString
  contents : t.contents = []

variable {w : ℕ} {t : Tlv} {rest : Bytes}

theorem HoldsString.unique {s s' : Bytes} (h : t.HoldsString s) (h' : t.HoldsString s') :
    s = s' := by
  cases h with
  | definite hlen hs =>
      cases h' with
      | definite _ hs' => exact Option.some.inj (hs.symm.trans hs')
      | octet80 h80 _ _ => exact absurd h80 hlen.ne_octet80
  | octet80 h80 _ _ =>
      cases h' with
      | definite hlen _ => exact absurd h80 hlen.ne_octet80
      | octet80 _ _ _ => rfl

theorem EmptyBitString.not_holdsString (h : t.EmptyBitString) (s : Bytes) : ¬ t.HoldsString s := by
  intro hold
  cases hold with
  | definite _ hs => simp [stringContents, h.tag, h.contents] at hs
  | octet80 _ _ hone => simp [h.contents] at hone

/-! ## The head of a node -/

theorem Reads.getTagInfo (h : t.Reads w rest) :
    derItAsn1LowGetTagInfo w t.node.pData = ok ⟨t.tag, t.ident.length, t.lenOctets ++ t.contents⟩ :=
  getTagInfo_append h.tagOctets _

/-- The length of an element is read from its node again; but the octet behind
`0x80` is missing there if it belongs to the next element. -/
theorem Reads.getLengthInfo (hw : 32 ≤ w) (h : t.Reads w rest) :
    LenOctets t.lenOctets t.contents.length ∧
        derItAsn1LowGetLengthInfo w (t.lenOctets ++ t.contents) =
          ok ⟨t.contents.length, t.lenOctets.length, t.contents⟩ ∨
      t.lenOctets = [0x80] ∧ t.contents = [] ∧
        derItAsn1LowGetLengthInfo w (t.lenOctets ++ t.contents) = fault .readOutOfBounds ∨
      t.lenOctets = [0x80] ∧ ∃ b p, t.contents = b :: p ∧ b.toNat = t.contents.length ∧
        derItAsn1LowGetLengthInfo w (t.lenOctets ++ t.contents) =
          ok ⟨t.contents.length, t.lenOctets.length, p⟩ := by
  rcases h.announces.or with hlen | ⟨h80, b, q, hq, hb⟩
  · exact Or.inl ⟨hlen, getLengthInfo_append hw hlen _⟩
  · rw [h80]
    cases hc : t.contents with
    | nil => exact Or.inr (Or.inl ⟨rfl, rfl, rfl⟩)
    | cons c p =>
        rw [hc, List.cons_append, List.cons_eq_cons] at hq
        rw [hc] at hb
        refine Or.inr (Or.inr ⟨rfl, c, p, rfl, by rw [hq.1]; exact hb.symm, ?_⟩)
        rw [List.singleton_append, getLengthInfo_octet80, hq.1, ← hb]
        rfl

/-! ## Integers -/

theorem charToInt_octets (hw : 8 ≤ w) {bs : Bytes} (hbs : bs ≠ []) :
    derItAsn1LowCharToInt w bs bs.length = ok (beNat bs % 2 ^ w) := by
  have hread : ∀ {bs : Bytes}, bs ≠ [] → (do
      let read ← shiftInLoop w (bs.length - 1) bs 0
      let b ← deref read.2
      ok (read.1 ||| b.toNat)) = ok (beNat bs % 2 ^ w) := by
    intro bs hbs
    have h := shiftIn_octets hw hbs []
    rw [List.append_nil] at h
    obtain ⟨⟨v, q⟩, hloop, h⟩ := bind_eq_ok.mp h
    obtain ⟨b, hb, h⟩ := bind_eq_ok.mp h
    simp only [ok.injEq, Prod.mk.injEq] at h
    simp only [hloop, ok_bind, hb, h.1]
  cases bs with
  | nil => exact absurd rfl hbs
  | cons b bs =>
      by_cases hzero : b = 0 ∧ (b :: bs).length > 1
      · have hne : bs ≠ [] := by
          rintro rfl
          simp at hzero
        simp only [derItAsn1LowCharToInt, deref_cons, ok_bind, if_pos hzero]
        rw [hzero.1, beNat_zero_cons, ← hread hne]
        rfl
      · simp only [derItAsn1LowCharToInt, deref_cons, ok_bind, if_neg hzero]
        exact hread (List.cons_ne_nil b bs)

theorem charToInt_short (hw : 8 ≤ w) {p : Bytes} {n : ℕ} (h : p.length < n) :
    derItAsn1LowCharToInt w p n = fault .readOutOfBounds := by
  cases p with
  | nil => rfl
  | cons b p =>
      by_cases hzero : b = 0 ∧ n > 1
      · simp only [derItAsn1LowCharToInt, deref_cons, ok_bind, if_pos hzero]
        exact shiftIn_short hw (by simp at h ⊢; omega) fun x b => ok (x.1 ||| b.toNat)
      · simp only [derItAsn1LowCharToInt, deref_cons, ok_bind, if_neg hzero]
        exact shiftIn_short hw h fun x b => ok (x.1 ||| b.toNat)

/-- `DER_ItAsn1_ReadInteger` on a node: the number, or undefined; never a code. -/
theorem Reads.readInteger_cases (hw : 32 ≤ w) (h : t.Reads w rest) :
    (∃ n, t.HoldsInteger n ∧ derItAsn1ReadInteger w t.node = ok (n % 2 ^ w)) ∨
      (∀ n, ¬ t.HoldsInteger n) ∧ derItAsn1ReadInteger w t.node = fault .readOutOfBounds := by
  unfold derItAsn1ReadInteger
  rw [h.getTagInfo, ok_bind]
  rcases h.getLengthInfo hw with ⟨hlen, hinfo⟩ | ⟨h80, -, hinfo⟩ | ⟨h80, b, p, hc, hb, hinfo⟩
  · rw [hinfo, ok_bind]
    by_cases hnil : t.contents = []
    · refine Or.inr ⟨fun n hn => hn.contents_ne_nil hnil, ?_⟩
      rw [hnil]
      rfl
    · exact Or.inl ⟨_, ⟨hlen, hnil, rfl⟩, charToInt_octets (by omega) hnil⟩
  · refine Or.inr ⟨fun n hn => hn.lenOctets.ne_octet80 h80, ?_⟩
    rw [hinfo]
    rfl
  · refine Or.inr ⟨fun n hn => hn.lenOctets.ne_octet80 h80, ?_⟩
    rw [hinfo, ok_bind]
    exact charToInt_short (by omega) (by simp [hc])

/-! ## Strings -/

/-- A string node filled with `n` octets from `p`. -/
private def copied (tag : ℕ) (p : Bytes) (n : ℕ) : Outcome AnyBuf := do
  let s ← memcpy p n
  ok { pData := s, dataLen := n, unusedBits := 0, dataType := tag }

/-- What is left of a string reader when the head has been read: from where and
how many octets it copies. -/
private def copyContents (tag : ℕ) (p : Bytes) (n : ℕ) : Outcome AnyBuf :=
  if tag = DerTag.bitString then
    if n = 0 then err DerErrType.memoryErr else copied tag p.tail (n - 1)
  else if tag = DerTag.integer then do
    let b ← deref p
    if b = 0 then do
      let b' ← deref p.tail
      if b'.toNat < 128 then copied tag p n else copied tag p.tail (n - 1)
    else
      copied tag p n
  else
    copied tag p n

private theorem readTlv_eq (hw : 34 ≤ w) (h : t.Reads w rest) (hlt : t.bytes.length < 2 ^ 31)
    {p : Bytes} (hp : p.length ≤ t.contents.length)
    (hinfo : derItAsn1LowGetLengthInfo w (t.lenOctets ++ t.contents) =
      ok ⟨t.contents.length, t.lenOctets.length, p⟩) :
    readTlv w t.node = copyContents t.tag p t.contents.length := by
  have hpow : (2 : ℕ) ^ 33 ≤ 2 ^ (w - 1) := Nat.pow_le_pow_right (by norm_num) (by omega)
  have htwice : (2 : ℕ) ^ w = 2 * 2 ^ (w - 1) := by
    rw [← pow_succ', Nat.sub_add_cancel (by omega)]
  have hlength := t.length_bytes
  have hsum : (t.ident.length + (t.contents.length + t.lenOctets.length)) % 2 ^ w =
      t.bytes.length := by rw [Nat.mod_eq_of_lt (by omega)]; omega
  have hdrop : ∀ {n : ℕ}, n ≠ 0 → n < 2 ^ 31 → (n + (2 ^ w - 1)) % 2 ^ w = n - 1 := by
    intro n hn hlt
    rw [show n + (2 ^ w - 1) = n - 1 + 2 ^ w by omega, Nat.add_mod_right, Nat.mod_eq_of_lt (by omega)]
  have hsmall : ∀ {n : ℕ}, n < 2 ^ 31 → ¬ 2 ^ (w - 1) ≤ n := by
    intro n hn
    omega
  unfold readTlv derItAsn1LowReadTagAndLength
  rw [h.getTagInfo, ok_bind]
  simp only [hinfo, hsum, node_dataLen, node_dataType, node_unusedBits]
  rw [if_neg (not_not.mpr rfl)]
  by_cases hbits : t.tag = DerTag.bitString
  · have hint : ¬ DerTag.bitString = DerTag.integer := by decide
    simp only [copyContents, hbits, reduceIte, hint, ok_bind]
    by_cases hn : t.contents.length = 0
    · have hwrap : (0 + (2 ^ w - 1)) % 2 ^ w = 2 ^ w - 1 := by
        rw [zero_add, Nat.mod_eq_of_lt (by omega)]
      simp only [Bool.false_eq_true, reduceIte, hn, hwrap]
      rw [if_pos (by omega)]
      rfl
    · simp [hdrop hn (by omega), hsmall (n := t.contents.length - 1) (by omega), hn, copied]
  · by_cases hint : t.tag = DerTag.integer
    · have hbits' : ¬ DerTag.integer = DerTag.bitString := by decide
      simp only [copyContents, hint, reduceIte, hbits']
      cases p with
      | nil => rfl
      | cons b p =>
          rw [List.length_cons] at hp
          by_cases hb : b = 0
          · cases p with
            | nil => simp [hb]
            | cons b' p =>
                by_cases hb' : b'.toNat < 128
                · have hbit : b'.toNat &&& firstYesIdMask = 0 := by rwa [UInt8.and_128_eq_zero]
                  simp [hb, hb', hbit, hsmall (n := t.contents.length) (by omega), copied]
                · have hbit : ¬ b'.toNat &&& firstYesIdMask = 0 := by rwa [UInt8.and_128_eq_zero]
                  simp [hb, hb', hbit, hdrop (n := t.contents.length) (by omega) (by omega),
                    hsmall (n := t.contents.length - 1) (by omega), copied]
          · simp [hb, hsmall (n := t.contents.length) (by omega), copied]
    · simp [copyContents, hbits, hint, hsmall (n := t.contents.length) (by omega), copied]

private theorem copyContents_eq (tag : ℕ) (c : Bytes) : copyContents tag c c.length =
    match stringContents tag c with
    | some s => ok ⟨s, s.length, 0, tag⟩
    | none => if tag = DerTag.bitString then err DerErrType.memoryErr
        else fault .readOutOfBounds := by
  unfold copyContents stringContents
  by_cases hbits : tag = DerTag.bitString
  · cases c with
    | nil => simp [hbits]
    | cons u s => simp [hbits, copied, memcpy_self]
  · by_cases hint : tag = DerTag.integer
    · match c with
      | [] => simp [hint]
      | [b] => by_cases hb : b = 0 <;> simp [hint, hb, copied, memcpy]
      | b :: b' :: s =>
          by_cases hb : b = 0
          · by_cases hb' : b'.toNat < 128
            · simp [hint, hb, hb', not_le.mpr hb', copied, memcpy]
            · simp [hint, hb, hb', not_lt.mp hb', copied, memcpy]
          · simp [hint, hb, copied, memcpy]
    · simp [hbits, hint, copied, memcpy_self]

/-- A string reader on a node: the string, or the code that the memory could not be
allocated, or undefined. -/
theorem Reads.readTlv_cases (hw : 34 ≤ w) (h : t.Reads w rest) (hlt : t.bytes.length < 2 ^ 31) :
    (∃ s, t.HoldsString s ∧ readTlv w t.node = ok ⟨s, s.length, 0, t.tag⟩) ∨
      (∀ s, ¬ t.HoldsString s) ∧
        (t.EmptyBitString ∧ readTlv w t.node = err DerErrType.memoryErr ∨
          ¬ t.EmptyBitString ∧ readTlv w t.node = fault .readOutOfBounds) := by
  -- definite length octets, or `0x80` with or without an octet behind it
  rcases h.getLengthInfo (by omega) with ⟨hlen, hinfo⟩ | ⟨h80, hnil, hinfo⟩ | ⟨h80, b, p, hc, hb, hinfo⟩
  · rw [readTlv_eq hw h hlt le_rfl hinfo, copyContents_eq]
    cases hs : stringContents t.tag t.contents with
    | some s => exact Or.inl ⟨s, .definite hlen hs, rfl⟩
    | none =>
        refine Or.inr ⟨fun s hold => ?_, ?_⟩
        · cases hold with
          | definite _ hs' => simp [hs] at hs'
          | octet80 h80 _ _ => exact hlen.ne_octet80 h80
        · by_cases hbits : t.tag = DerTag.bitString
          · have hnil : t.contents = [] := by
              cases hc : t.contents with
              | nil => rfl
              | cons u s => simp [stringContents, hbits, hc] at hs
            exact Or.inl ⟨⟨hlen, hbits, hnil⟩, by simp [hbits]⟩
          · exact Or.inr ⟨fun he => hbits he.tag, by simp [hbits]⟩
  · have hfault : readTlv w t.node = fault .readOutOfBounds := by
      unfold readTlv derItAsn1LowReadTagAndLength
      rw [h.getTagInfo, ok_bind]
      simp only [hinfo, fault_bind]
    refine Or.inr ⟨fun s hold => ?_, Or.inr ⟨fun he => he.lenOctets.ne_octet80 h80, hfault⟩⟩
    cases hold with
    | definite hlen _ => exact hlen.ne_octet80 h80
    | octet80 _ _ hone => simp [hnil] at hone
  · have hne : ¬ t.EmptyBitString := fun he => he.lenOctets.ne_octet80 h80
    have hcp : ∀ {k : ℕ} {q : Bytes}, q.length < k → copied t.tag q k = fault .readOutOfBounds := by
      intro k q hq
      rw [copied, memcpy_of_lt hq]
      rfl
    rw [readTlv_eq hw h hlt (by simp [hc]) hinfo, copyContents]
    -- the one element for which the octet that is lost does no harm
    by_cases hone : t.tag = DerTag.bitString ∧ t.contents = [1]
    · obtain rfl : p = [] := by simpa [hc] using (List.cons_eq_cons.mp (hc ▸ hone.2)).2
      refine Or.inl ⟨[], .octet80 h80 hone.1 hone.2, ?_⟩
      simp [hone.1, hc, copied, memcpy]
    · refine Or.inr ⟨fun s hold => ?_, Or.inr ⟨hne, ?_⟩⟩
      · cases hold with
        | definite hlen _ => exact hlen.ne_octet80 h80
        | octet80 _ htag hcontents => exact hone ⟨htag, hcontents⟩
      · have hshort : p.length < t.contents.length := by simp [hc]
        by_cases hbits : t.tag = DerTag.bitString
        · have hp : p ≠ [] := by
            rintro rfl
            have hb1 : b = 1 := UInt8.toNat_inj.mp (by rw [hb, hc]; rfl)
            exact hone ⟨hbits, by rw [hc, hb1]⟩
          have hpos := List.length_pos_of_ne_nil hp
          rw [if_pos hbits, if_neg (by omega), hcp (by simp [hc]; omega)]
        · rw [if_neg hbits]
          split
          · cases p with
            | nil => rfl
            | cons d p =>
                rw [deref_cons, ok_bind, List.tail_cons]
                split
                · cases p with
                  | nil => rfl
                  | cons d' p =>
                      rw [deref_cons, ok_bind]
                      split
                      · exact hcp hshort
                      · exact hcp (by simp [hc])
                · exact hcp hshort
          · exact hcp hshort

end Tlv

end SafeTransmission
