import SafeTransmission.Asn1.Heads

/-!
# Which byte strings are sequences

`DER_ItAsn1_ReadSequence` accepts a byte string exactly if it is a sequence head
with a definite length, followed by that many octets which split into elements
(`readSequence_inv`, `readSequence_of_isSequence`).  The nodes it returns are the elements, one
node each.

Everything is for byte strings shorter than `2 ^ 31`, the longest that an `int`
length can announce, and for an `unsigned long` in which the sum of three such
sizes cannot wrap.

## Strategy

Each part has two directions: what is an element is split off, and nothing else is
(`readElement_reads`, `readElement_inv`).  The loop is an induction on the list of elements one way
(`readElements_of_splits`), and on the number of octets that are left the other way
(`readElements_inv`).
-/

namespace SafeTransmission

open Outcome

/-- An element as it stands in the input: its tag octets, length octets and
contents, and the tag that is read from the tag octets. -/
structure Tlv where
  ident : Bytes
  lenOctets : Bytes
  contents : Bytes
  tag : ℕ
deriving DecidableEq, Repr

namespace Tlv

/-- All octets of an element. -/
def bytes (t : Tlv) : Bytes :=
  t.ident ++ (t.lenOctets ++ t.contents)

/-- The node that the element loop makes of an element. -/
def node (t : Tlv) : AnyBuf :=
  { pData := t.bytes, dataLen := t.bytes.length, unusedBits := 0, dataType := t.tag }

/-- The octets of the element are read as its tag and its length in front of `rest`. -/
structure Reads (w : ℕ) (t : Tlv) (rest : Bytes) : Prop where
  tagOctets : TagOctets w t.ident t.tag
  announces : Announces t.lenOctets (t.contents ++ rest) t.contents.length

@[simp] theorem node_dataLen (t : Tlv) : t.node.dataLen = t.bytes.length := rfl

@[simp] theorem node_unusedBits (t : Tlv) : t.node.unusedBits = 0 := rfl

@[simp] theorem node_dataType (t : Tlv) : t.node.dataType = t.tag := rfl

theorem length_bytes (t : Tlv) :
    t.bytes.length = t.ident.length + (t.lenOctets.length + t.contents.length) := by
  simp [bytes]

variable {w : ℕ} {t : Tlv} {rest : Bytes}

theorem Reads.length_pos (h : t.Reads w rest) : 0 < t.bytes.length := by
  have := h.tagOctets.length_pos
  rw [length_bytes]
  omega

end Tlv

/-- `p` is the elements `ts`, one after the other. -/
inductive Splits (w : ℕ) : Bytes → List Tlv → Prop where
  | nil : Splits w [] []
  | cons {t : Tlv} {rest : Bytes} {ts : List Tlv} (hread : t.Reads w rest)
      (hrest : Splits w rest ts) : Splits w (t.bytes ++ rest) (t :: ts)

theorem Splits.cons_inv {w : ℕ} {p : Bytes} {t : Tlv} {ts : List Tlv} (h : Splits w p (t :: ts)) :
    ∃ rest, p = t.bytes ++ rest ∧ t.Reads w rest ∧ Splits w rest ts := by
  cases h with
  | cons hread hrest => exact ⟨_, rfl, hread, hrest⟩

/-- `b` is a sequence head with a definite length, and `ts`. -/
inductive IsSequence (w : ℕ) : Bytes → List Tlv → Prop where
  | intro {ident : UInt8} {lenOctets content : Bytes} {ts : List Tlv}
      (hident : ident.toNat < 128) (htag : ident.toNat % 32 = DerTag.sequence)
      (hlen : LenOctets lenOctets content.length) (hsplit : Splits w content ts) :
      IsSequence w (ident :: (lenOctets ++ content)) ts

section Elements

variable {w : ℕ}

/-! ## One element -/

theorem readElement_reads (hw : 34 ≤ w) {t : Tlv} {rest : Bytes} (h : t.Reads w rest)
    (hlt : t.bytes.length < 2 ^ 31) : readElement w (t.bytes ++ rest) = ok t.node := by
  have hpow : (2 : ℕ) ^ 31 ≤ 2 ^ (w - 1) := Nat.pow_le_pow_right (by norm_num) (by omega)
  have hpow' : (2 : ℕ) ^ (w - 1) ≤ 2 ^ w := Nat.pow_le_pow_right (by norm_num) (by omega)
  have hshape : t.bytes ++ rest = t.ident ++ (t.lenOctets ++ (t.contents ++ rest)) := by
    simp [Tlv.bytes]
  obtain ⟨q, hq⟩ := getLengthInfo_announces (w := w) (by omega) h.announces
  have hsum : (t.ident.length + t.lenOctets.length + t.contents.length) % 2 ^ w =
      t.bytes.length := by
    rw [Nat.mod_eq_of_lt (by rw [Tlv.length_bytes] at hlt; omega), Tlv.length_bytes]
    omega
  have hsmall : ¬ 2 ^ (w - 1) ≤ t.bytes.length := by omega
  have htag : derItAsn1LowGetTagInfo w (t.bytes ++ rest) =
      ok ⟨t.tag, t.ident.length, t.lenOctets ++ (t.contents ++ rest)⟩ := by
    rw [hshape, getTagInfo_append h.tagOctets]
  simp only [readElement, htag, ok_bind, hq, hsum, if_neg hsmall, memcpy_append rfl rest]
  rfl

/-- It splits off nothing else. -/
theorem readElement_inv (hw : 34 ≤ w) {p : Bytes} (hp : p.length < 2 ^ 31) {node : AnyBuf}
    (h : readElement w p = ok node) :
    ∃ (t : Tlv) (rest : Bytes), p = t.bytes ++ rest ∧ t.Reads w rest ∧ node = t.node := by
  obtain ⟨f, htag, h⟩ := bind_eq_ok.mp h
  obtain ⟨ident, hident, htagOctets, hsize⟩ := getTagInfo_inv htag
  cases hlen : derItAsn1LowGetLengthInfo w f.rest with
  | err code => simp [hlen] at h
  | fault kind => simp [hlen] at h
  | ok g =>
      obtain ⟨l, q, hl, hannounce, hgsize⟩ := announces_of_getLengthInfo (by omega) hlen
      have hplen : p.length = ident.length + (l.length + q.length) := by simp [hident, hl]
      have hvalue : g.value < 2 ^ 32 := hannounce.lt
      have hpow : (2 : ℕ) ^ 34 ≤ 2 ^ w := Nat.pow_le_pow_right (by norm_num) hw
      have hsum : (f.size + g.size + g.value) % 2 ^ w = ident.length + l.length + g.value := by
        rw [hsize, hgsize, Nat.mod_eq_of_lt (by omega)]
      simp only [hlen, hsum] at h
      split at h
      · simp at h
      · obtain ⟨data, hdata, hnode⟩ := bind_eq_ok.mp h
        obtain ⟨hle, rfl⟩ := memcpy_eq_ok.mp hdata
        obtain ⟨c, rest, rfl, hc⟩ : ∃ c rest, q = c ++ rest ∧ c.length = g.value :=
          ⟨q.take g.value, q.drop g.value, (List.take_append_drop ..).symm, by simp; omega⟩
        let t : Tlv := ⟨ident, l, c, f.value⟩
        have hp : p = t.bytes ++ rest := by simp [t, Tlv.bytes, hident, hl]
        have hlength : ident.length + l.length + g.value = t.bytes.length := by
          simp [t, Tlv.length_bytes, hc, add_assoc]
        have htake : p.take t.bytes.length = t.bytes := by rw [hp, List.take_left]
        refine ⟨t, rest, hp, ⟨htagOctets, hc ▸ hannounce⟩, ?_⟩
        rw [← ok.inj hnode, hlength, htake]
        rfl

/-! ## All elements -/

theorem readElements_stop {fuel : ℕ} {p : Bytes} {total : ℤ} (h : ¬ total > 0) :
    readElements w fuel p total = ok ([], total) := by
  cases fuel <;> simp [readElements, h]

theorem readElements_round {fuel : ℕ} {p : Bytes} {total : ℤ} (h : total > 0) :
    readElements w (fuel + 1) p total = (do
      let node ← readElement w p
      let (nodes, left) ←
        readElements w fuel (p.drop node.dataLen) (toInt32 (total - node.dataLen))
      ok (node :: nodes, left)) := by
  rw [readElements, if_pos h]

/-- The element loop runs through a byte string that splits, and stops at its end. -/
theorem readElements_of_splits (hw : 34 ≤ w) {p : Bytes} {ts : List Tlv} (h : Splits w p ts)
    (hp : p.length < 2 ^ 31) {fuel : ℕ} (hfuel : p.length ≤ fuel) :
    readElements w fuel p p.length = ok (ts.map Tlv.node, 0) := by
  induction h generalizing fuel with
  | nil => exact readElements_stop (by simp)
  | @cons t rest ts hread hrest ih =>
      have hlen : (t.bytes ++ rest).length = t.bytes.length + rest.length := List.length_append
      have hpos := hread.length_pos
      obtain ⟨fuel, rfl⟩ : ∃ k, fuel = k + 1 := ⟨fuel - 1, by omega⟩
      have hleft : toInt32 (((t.bytes ++ rest).length : ℤ) - t.node.dataLen) = rest.length := by
        rw [Tlv.node_dataLen, toInt32_of_range] <;> omega
      rw [readElements_round (by omega), readElement_reads hw hread (by omega), ok_bind, hleft,
        Tlv.node_dataLen, List.drop_left, ih (by omega) (by omega)]
      rfl

/-- If the loop stops at zero, the elements are all there is to read and all that
was announced. -/
theorem readElements_inv (hw : 34 ≤ w) {fuel : ℕ} {p : Bytes} {total : ℤ} {nodes : List AnyBuf}
    (hp : (p.length : ℤ) ≤ total) (htotal : total < 2 ^ 31)
    (h : readElements w fuel p total = ok (nodes, 0)) :
    total = p.length ∧ ∃ ts, Splits w p ts ∧ nodes = ts.map Tlv.node := by
  by_cases hpos : total > 0
  · cases fuel with
    | zero => simp [readElements, hpos] at h
    | succ fuel =>
        rw [readElements_round hpos] at h
        obtain ⟨node, hnode, h⟩ := bind_eq_ok.mp h
        obtain ⟨⟨nodes', left⟩, hmore, h⟩ := bind_eq_ok.mp h
        simp only [ok.injEq, Prod.mk.injEq] at h
        obtain ⟨rfl, rfl⟩ := h
        obtain ⟨t, rest, rfl, hread, rfl⟩ := readElement_inv hw (by omega) hnode
        have hlen : (t.bytes ++ rest).length = t.bytes.length + rest.length := List.length_append
        rw [Tlv.node_dataLen, List.drop_left, toInt32_of_range (by omega) (by omega)] at hmore
        obtain ⟨hrest, ts, hsplits, rfl⟩ := readElements_inv hw (by omega) (by omega) hmore
        exact ⟨by omega, t :: ts, .cons hread hsplits, rfl⟩
  · rw [readElements_stop hpos, ok.injEq, Prod.mk.injEq] at h
    obtain ⟨rfl, rfl⟩ := h
    obtain rfl : p = [] := List.eq_nil_of_length_eq_zero (by omega)
    exact ⟨rfl, [], .nil, rfl⟩

/-! ## The sequence -/

/-- A node that holds a byte string as `DER_ITCAST_String_To_AnyBuf` makes it. -/
def ofBytes (b : Bytes) : AnyBuf :=
  { pData := b, dataLen := b.length, unusedBits := b.length % 8, dataType := DerTag.stringPrintable }

theorem stringToAnyBuf_self (b : Bytes) : derItcastStringToAnyBuf b b.length = ok (ofBytes b) := by
  simp [derItcastStringToAnyBuf, memcpy_self, ofBytes]

/-- A sequence is accepted, and its elements are the nodes. -/
theorem readSequence_of_isSequence (hw : 34 ≤ w) {b : Bytes} {ts : List Tlv}
    (h : IsSequence w b ts) (hb : b.length < 2 ^ 31) :
    derItAsn1ReadSequence w (ofBytes b) = ok (ts.map Tlv.node) := by
  obtain @⟨ident, l, content, _, hident, htag, hlen, hsplit⟩ := h
  have hlength : (ident :: (l ++ content)).length = 1 + l.length + content.length := by
    simp; omega
  have hpow : (2 : ℕ) ^ 31 ≤ 2 ^ w := Nat.pow_le_pow_right (by norm_num) (by omega)
  have hsize : (1 + l.length + content.length) % 2 ^ w = 1 + l.length + content.length :=
    Nat.mod_eq_of_lt (by omega)
  have htagInfo : derItAsn1LowGetTagInfo w (ident :: (l ++ content)) =
      ok ⟨DerTag.sequence, 1, l ++ content⟩ := by
    rw [← htag]
    exact getTagInfo_append (.low (by rw [htag]; decide) hident) (l ++ content)
  have htotal : toInt32 content.length = content.length := toInt32_of_range (by omega) (by omega)
  have htag256 : ¬ DerTag.sequence % 256 ≠ DerTag.sequence := by decide
  have hloop := readElements_of_splits hw hsplit (by omega) (le_refl content.length)
  simp only [derItAsn1ReadSequence, ofBytes, htagInfo]
  rw [ok_bind, if_neg htag256, getLengthInfo_append (w := w) (by omega) hlen, ok_bind]
  simp only [hlength, hsize, htotal, Int.toNat_natCast, hloop]
  rw [if_neg (not_not.mpr rfl)]
  rfl

theorem readSequence_inv (hw : 34 ≤ w) {b : Bytes} (hb : b.length < 2 ^ 31) {nodes : List AnyBuf}
    (h : derItAsn1ReadSequence w (ofBytes b) = ok nodes) :
    ∃ ts, IsSequence w b ts ∧ nodes = ts.map Tlv.node := by
  obtain ⟨f, htagInfo, h⟩ := bind_eq_ok.mp h
  obtain ⟨ident, hident, htagOctets, hsize⟩ := getTagInfo_inv htagInfo
  by_cases htag : f.value % 256 = DerTag.sequence
  · rw [if_neg (not_not.mpr htag)] at h
    obtain ⟨o, rfl, ho, hvalue⟩ := htagOctets.of_mod_lt (by omega) (by rw [htag]; decide)
    obtain ⟨g, hlenInfo, h⟩ := bind_eq_ok.mp h
    have hpow : (2 : ℕ) ^ 34 ≤ 2 ^ w := Nat.pow_le_pow_right (by norm_num) hw
    replace hident : b = o :: f.rest := hident
    by_cases hdataLen : b.length = (f.size + g.size + g.value) % 2 ^ w
    · rw [ofBytes, if_neg (not_not.mpr hdataLen)] at h
      obtain ⟨⟨nodes', left⟩, hloop, h⟩ := bind_eq_ok.mp h
      by_cases hleft : left = 0
      · subst hleft
        obtain rfl : nodes' = nodes := by simpa using h
        have hblen : b.length = 1 + f.rest.length := by simp [hident]; omega
        obtain ⟨l, q, hl, hannounce, hgsize⟩ := announces_of_getLengthInfo (by omega) hlenInfo
        have hlength : f.rest.length = g.size + q.length := by simp [hl, hgsize]
        have hvalueLt : g.value < 2 ^ 32 := hannounce.lt
        -- the sum does not wrap, so the announced length is that of the rest
        have hsum : b.length = 1 + g.size + g.value := by
          have hwrap : (1 + g.size + g.value) % 2 ^ w = 1 + g.size + g.value :=
            Nat.mod_eq_of_lt (by omega)
          rw [← hwrap, hdataLen, hsize, List.length_singleton]
        rw [toInt32_of_range (by omega) (by omega), Int.toNat_natCast] at hloop
        rcases getLengthInfo_inv (by omega) hlenInfo with ⟨l, hl, hlen, hgsize⟩ | ⟨n, hn, hgv, hgs⟩
        · have hrest : g.rest.length = g.value := by simp [hl] at hblen; omega
          obtain ⟨-, ts, hsplit, rfl⟩ := readElements_inv hw (by omega) (by omega) hloop
          refine ⟨ts, ?_, rfl⟩
          rw [hident, hl]
          exact .intro ho (by omega) (hrest ▸ hlen) hsplit
        · -- one octet fewer follows than is announced
          exfalso
          have hrest : g.rest.length + 1 = g.value := by simp [hn] at hblen; omega
          have hall := (readElements_inv hw (by omega) (by omega) hloop).1
          omega
      · simp [hleft] at h
    · rw [ofBytes, if_pos hdataLen] at h
      simp at h
  · rw [if_pos htag] at h
    simp at h

end Elements

end SafeTransmission
