import SafeTransmission.Asn1.Contents
import SafeTransmission.Library.Der

/-!
# What the writers produce

The integer writer, the string writers and `DER_ItAsn1_WriteSequence` produce
octets that the readers take apart again: `integerElement` and `taggedElement`
are the elements, `sequenceOctets` is the sequence.

Lengths are written in their shortest form, except 65535, which gets three
octets where two would do; integers are written in their shortest form always.

## Strategy

* `writtenLength` and `integerContents` are the octets as values.  The writers are calculated once
  (`writtenLength_cases`, `intToChar_eq`), and everything else is about the values.
* `Tlv.Definite` is an element with a length in four octets at most.  Every node that is written
  carries one (`Carries`), and the readers take it apart again (`Tlv.Definite.reads`).
* A sequence is the element whose contents are those of its nodes (`writeSequence_eq`).
-/

namespace SafeTransmission

open Outcome

/-! ## Length octets -/

/-- The length octets that are written for `n`. -/
def writtenLength (n : ℕ) : Bytes :=
  lengthOctets n (derItAsn1LowCountLengthOfSize n)

theorem countLengthOfSize_le {n : ℕ} (hn : n < 2 ^ 32) : derItAsn1LowCountLengthOfSize n ≤ 5 := by
  unfold derItAsn1LowCountLengthOfSize
  split_ifs <;> omega

/-- `n` is written on its own, or in at most four octets behind their number. -/
theorem writtenLength_cases {n : ℕ} (hn : n < 2 ^ 32) :
    n < 128 ∧ writtenLength n = [UInt8.ofNat n] ∧ derItAsn1LowCountLengthOfSize n = 1 ∨
      ∃ k, 1 ≤ k ∧ k ≤ 4 ∧ 128 ≤ n ∧ n < 256 ^ k ∧ (n ≠ 65535 → 2 ≤ k → 256 ^ (k - 1) ≤ n) ∧
        writtenLength n = UInt8.ofNat (128 + k) :: beBytes k n ∧
        derItAsn1LowCountLengthOfSize n = k + 1 := by
  have hk : ∀ k, 1 ≤ k → k ≤ 4 → derItAsn1LowCountLengthOfSize n = k + 1 →
      writtenLength n = UInt8.ofNat (128 + k) :: beBytes k n := by
    intro k hpos hle hcount
    have hor : firstYesIdMask ||| k = 128 + k := by
      interval_cases k <;> rfl
    rw [writtenLength, hcount, lengthOctets, if_neg (by omega), Nat.add_sub_cancel, hor]
  by_cases h1 : n ≤ 0x7F
  · have hcount : derItAsn1LowCountLengthOfSize n = 1 := by
      simp [derItAsn1LowCountLengthOfSize, h1]
    exact Or.inl ⟨by omega, by rw [writtenLength, hcount, lengthOctets, if_pos rfl], hcount⟩
  · right
    by_cases h2 : n ≤ 0xFF
    · have hcount : derItAsn1LowCountLengthOfSize n = 1 + 1 := by
        simp [derItAsn1LowCountLengthOfSize, h1, h2]
      exact ⟨1, le_rfl, by norm_num, by omega, by omega, by omega, hk 1 le_rfl (by norm_num) hcount,
        hcount⟩
    · by_cases h3 : n < 0xFFFF
      · have hcount : derItAsn1LowCountLengthOfSize n = 2 + 1 := by
          simp [derItAsn1LowCountLengthOfSize, h1, h2, h3]
        exact ⟨2, by norm_num, by norm_num, by omega, by omega, fun _ _ => by omega,
          hk 2 (by norm_num) (by norm_num) hcount, hcount⟩
      · by_cases h4 : n ≤ 0xFFFFFF
        · have hcount : derItAsn1LowCountLengthOfSize n = 3 + 1 := by
            simp [derItAsn1LowCountLengthOfSize, h1, h2, h3, h4]
          exact ⟨3, by norm_num, by norm_num, by omega, by omega, fun _ _ => by omega,
            hk 3 (by norm_num) (by norm_num) hcount, hcount⟩
        · have hcount : derItAsn1LowCountLengthOfSize n = 4 + 1 := by
            simp [derItAsn1LowCountLengthOfSize, h1, h2, h3, h4]
            omega
          exact ⟨4, by norm_num, by norm_num, by omega, by omega, fun _ _ => by omega,
            hk 4 (by norm_num) (by norm_num) hcount, hcount⟩

theorem length_writtenLength {n : ℕ} (hn : n < 2 ^ 32) :
    (writtenLength n).length = derItAsn1LowCountLengthOfSize n := by
  rcases writtenLength_cases hn with ⟨-, hl, hcount⟩ | ⟨k, -, -, -, -, -, hl, hcount⟩
  · rw [hl, hcount, List.length_singleton]
  · rw [hl, hcount, List.length_cons, length_beBytes]

/-- A length that does not fit into four octets is not counted. -/
theorem lt_countLengthOfSize {n : ℕ} (hn : 2 ^ 32 ≤ n) : 5 < derItAsn1LowCountLengthOfSize n := by
  have hcount : derItAsn1LowCountLengthOfSize n = DerErrType.lengthErr.toNat := by
    unfold derItAsn1LowCountLengthOfSize
    rw [if_neg (by omega), if_neg (by omega), if_neg (by omega), if_neg (by omega),
      if_neg (by omega)]
  rw [hcount]
  decide

theorem size_mod {w n : ℕ} (hw : 34 ≤ w) (hn : n < 2 ^ 32) :
    (n + 1 + derItAsn1LowCountLengthOfSize n) % 2 ^ w = n + 1 + (writtenLength n).length := by
  have hcount := countLengthOfSize_le hn
  have hpow : (2 : ℕ) ^ 34 ≤ 2 ^ w := Nat.pow_le_pow_right (by norm_num) hw
  rw [length_writtenLength hn, Nat.mod_eq_of_lt (by omega)]

theorem lenOctets_writtenLength {n : ℕ} (hn : n < 2 ^ 32) : LenOctets (writtenLength n) n := by
  rcases writtenLength_cases hn with ⟨hlt, hl, -⟩ | ⟨k, hpos, hle, -, hlt, -, hl, -⟩
  · rw [hl]
    have hnat : (UInt8.ofNat n).toNat = n := by rw [UInt8.toNat_ofNat']; omega
    have h := LenOctets.short (b := UInt8.ofNat n) (by omega)
    rwa [hnat] at h
  · rw [hl]
    have h : LenOctets (UInt8.ofNat (128 + k) :: beBytes k n) (beNat (beBytes k n)) :=
      .long (by rwa [length_beBytes]) (by rwa [length_beBytes])
        (by rw [length_beBytes, UInt8.toNat_ofNat']; omega)
    rwa [beNat_beBytes_of_lt hlt] at h

/-- A written length is the shortest, but for 65535. -/
theorem minimalLength_writtenLength {n : ℕ} (hn : n < 2 ^ 32) (hne : n ≠ 65535) :
    MinimalLength (writtenLength n) n := by
  rcases writtenLength_cases hn with ⟨hlt, hl, -⟩ | ⟨k, hpos, hle, h128, hlt, hlow, hl, -⟩
  · rw [hl]
    have hnat : (UInt8.ofNat n).toNat = n := by rw [UInt8.toNat_ofNat']; omega
    have h := MinimalLength.short (b := UInt8.ofNat n) (by omega)
    rwa [hnat] at h
  · rw [hl]
    have h := MinimalLength.long (b := UInt8.ofNat (128 + k))
      (minimalTail_beBytes hpos h128 hlt (hlow hne))
      (by rw [length_beBytes, UInt8.toNat_ofNat']; omega)
    rwa [beNat_beBytes_of_lt hlt] at h

/-! ## Integers -/

/-- The contents octets that are written for `n`. -/
def integerContents (n : ℕ) : Bytes :=
  match derItAsn1LowIntToChar n with
  | ok c => c
  | _ => []

/-- The element that is written for `n`. -/
def integerElement (n : ℕ) : Tlv :=
  { ident := [2], lenOctets := [UInt8.ofNat (integerContents n).length]
    contents := integerContents n, tag := DerTag.integer }

/-- The number of octets that a number needs is looked up in four ranges. -/
private theorem intToChar_cases {n : ℕ} (hn : n < 2 ^ 32) :
    ∃ k, 1 ≤ k ∧ k ≤ 4 ∧ n < 256 ^ k ∧ (2 ≤ k → 256 ^ (k - 1) ≤ n) ∧
      derItAsn1LowIntToChar n =
        ok ((if 128 * 256 ^ (k - 1) ≤ n then [0] else []) ++ beBytes k n) := by
  unfold derItAsn1LowIntToChar
  rw [if_neg (by omega)]
  split
  · exact ⟨4, by norm_num, le_rfl, by omega, fun _ => by omega, rfl⟩
  · split
    · exact ⟨3, by norm_num, by norm_num, by omega, fun _ => by omega, rfl⟩
    · split
      · exact ⟨2, by norm_num, by norm_num, by omega, fun _ => by omega, rfl⟩
      · exact ⟨1, le_rfl, by norm_num, by omega, fun h => absurd h (by norm_num), rfl⟩

/-- Up to 32 bits a number is written in its shortest form. -/
theorem intToChar_eq {n : ℕ} (hn : n < 2 ^ 32) :
    derItAsn1LowIntToChar n = ok (integerContents n) ∧ MinimalNat (integerContents n) ∧
      beNat (integerContents n) = n ∧ (integerContents n).length ≤ 5 := by
  obtain ⟨k, hpos, hle, hlt, hlow, hchar⟩ := intToChar_cases hn
  have hcontents : integerContents n =
      (if 128 * 256 ^ (k - 1) ≤ n then [0] else []) ++ beBytes k n := by
    rw [integerContents, hchar]
  rw [hcontents]
  refine ⟨hchar, minimalNat_beBytes hpos hlt hlow, ?_, ?_⟩
  · split
    · rw [List.singleton_append, beNat_zero_cons, beNat_beBytes_of_lt hlt]
    · rw [List.nil_append, beNat_beBytes_of_lt hlt]
  · split <;> simp <;> omega

theorem intToChar_of_le {n : ℕ} (hn : 2 ^ 32 ≤ n) :
    derItAsn1LowIntToChar n = err DerErrType.dataRangeErr := by
  rw [derItAsn1LowIntToChar, if_pos (by omega)]

/-! ## Elements -/

/-- An element whose length is in a definite form, so that it does not matter what
follows it. -/
structure Tlv.Definite (w : ℕ) (t : Tlv) : Prop where
  tagOctets : TagOctets w t.ident t.tag
  lenOctets : LenOctets t.lenOctets t.contents.length

theorem Tlv.Definite.reads {w : ℕ} {t : Tlv} (h : t.Definite w) (rest : Bytes) : t.Reads w rest :=
  ⟨h.tagOctets, .definite h.lenOctets⟩

/-- The node has the octets of the element; its other fields are not looked at when
it is copied into a sequence. -/
structure Carries (node : AnyBuf) (t : Tlv) : Prop where
  pData : node.pData = t.bytes
  dataLen : node.dataLen = t.bytes.length

theorem carries_node (t : Tlv) : Carries t.node t := ⟨rfl, rfl⟩

/-- The element that is written for a string under the tag octet `c`. -/
def taggedElement (c : UInt8) (s : Bytes) : Tlv :=
  { ident := [c], lenOctets := writtenLength s.length, contents := s, tag := c.toNat }

/-- The element that is written for a BIT STRING. -/
def bitsElement (unusedBits : ℕ) (s : Bytes) : Tlv :=
  { ident := [3], lenOctets := writtenLength (s.length + 1)
    contents := UInt8.ofNat unusedBits :: s, tag := DerTag.bitString }

/-- The element that is written for a PrintableString. -/
def printableElement (s : Bytes) : Tlv :=
  { ident := [19], lenOctets := writtenLength s.length, contents := s, tag := DerTag.stringPrintable }

/-- The element that is written for a BIT STRING. -/
def bitStringElement (s : Bytes) : Tlv :=
  { ident := [3], lenOctets := writtenLength (s.length + 1)
    contents := UInt8.ofNat (s.length % 8) :: s, tag := DerTag.bitString }

section Elements

variable {w n : ℕ} {c : UInt8} {s : Bytes} {pIn : AnyBuf}

theorem definite_integerElement (hn : n < 2 ^ 32) : (integerElement n).Definite w := by
  obtain ⟨-, -, -, hlen⟩ := intToChar_eq hn
  refine ⟨.low (b := 2) (by decide) (by decide), ?_⟩
  have hnat : (UInt8.ofNat (integerContents n).length).toNat = (integerContents n).length := by
    rw [UInt8.toNat_ofNat']
    omega
  have h := LenOctets.short (b := UInt8.ofNat (integerContents n).length) (by omega)
  rwa [hnat] at h

theorem definite_taggedElement (hc : c = 19 ∨ c = 30) (hs : s.length < 2 ^ 32) :
    (taggedElement c s).Definite w := by
  refine ⟨?_, lenOctets_writtenLength hs⟩
  rcases hc with rfl | rfl
  · exact .low (b := 19) (by decide) (by decide)
  · exact .low (b := 30) (by decide) (by decide)

theorem definite_bitsElement (unusedBits : ℕ) (hs : s.length + 1 < 2 ^ 32) :
    (bitsElement unusedBits s).Definite w :=
  ⟨.low (b := 3) (by decide) (by decide), lenOctets_writtenLength hs⟩

theorem definite_printableElement (hs : s.length < 2 ^ 32) : (printableElement s).Definite w :=
  definite_taggedElement (Or.inl rfl) hs

theorem definite_bitStringElement (hs : s.length + 1 < 2 ^ 32) : (bitStringElement s).Definite w :=
  definite_bitsElement _ hs

theorem holdsInteger_integerElement (hn : n < 2 ^ 32) : (integerElement n).HoldsInteger n := by
  obtain ⟨-, hmin, hvalue, -⟩ := intToChar_eq hn
  exact ⟨(definite_integerElement (w := 64) hn).lenOctets, hmin.ne_nil, hvalue.symm⟩

theorem holdsString_printableElement (hs : s.length < 2 ^ 32) :
    (printableElement s).HoldsString s :=
  .definite (definite_printableElement (w := 64) hs).lenOctets rfl

theorem holdsString_bitStringElement (hs : s.length + 1 < 2 ^ 32) :
    (bitStringElement s).HoldsString s :=
  .definite (definite_bitStringElement (w := 64) hs).lenOctets rfl

theorem writeInteger_node (hn : n < 2 ^ 32) :
    derItAsn1WriteInteger n = ok (integerElement n).node := by
  have hsize : (integerContents n).length + 2 = (integerElement n).bytes.length := by
    rw [Tlv.length_bytes]
    simp only [integerElement, List.length_singleton]
    omega
  rw [derItAsn1WriteInteger, (intToChar_eq hn).1, ok_bind, hsize]
  rfl

theorem writeInteger_eq (hn : n < 2 ^ 32) :
    ∃ node, derItAsn1WriteInteger n = ok node ∧ Carries node (integerElement n) :=
  ⟨_, writeInteger_node hn, carries_node _⟩

theorem writeInteger_of_le (hn : 2 ^ 32 ≤ n) :
    derItAsn1WriteInteger n = err DerErrType.dataRangeErr := by
  rw [derItAsn1WriteInteger, intToChar_of_le hn, err_bind]

theorem writeTagAndLength_string (hw : 34 ≤ w) (hc : c = 19 ∨ c = 30) (pIn : AnyBuf) :
    derItAsn1LowWriteTagAndLength w pIn c =
      if 2 ^ 32 ≤ pIn.dataLen then err DerErrType.lengthErr
      else ok ⟨c :: writtenLength pIn.dataLen, pIn.dataLen + 1 + (writtenLength pIn.dataLen).length,
        0, c.toNat⟩ := by
  have hident : (if c.toNat &&& contextSpecific ≠ 0 then c.toNat else c.toNat &&& shortIdMask) =
      c.toNat := by
    rcases hc with rfl | rfl <;> rfl
  have hbits : c.toNat ≠ DerTag.bitString := by
    rcases hc with rfl | rfl <;> decide
  have hinteger : c.toNat ≠ DerTag.integer := by
    rcases hc with rfl | rfl <;> decide
  simp only [derItAsn1LowWriteTagAndLength, hident]
  rw [if_pos ⟨hbits, hinteger⟩, ok_bind]
  split
  · rename_i hmany
    rw [if_pos (not_lt.mp fun hlt => hmany.not_ge (countLengthOfSize_le hlt))]
  · rename_i hfew
    have hlt : ¬ 2 ^ 32 ≤ pIn.dataLen := fun hge => hfew (lt_countLengthOfSize hge)
    rw [ok_bind, if_neg hlt, size_mod hw (not_le.mp hlt)]
    rfl

theorem writeTagAndLength_bitString (hw : 34 ≤ w) (hfit : pIn.dataLen + 1 < 2 ^ w) :
    derItAsn1LowWriteTagAndLength w pIn 3 =
      if 2 ^ 32 ≤ pIn.dataLen + 1 then err DerErrType.lengthErr
      else ok ⟨3 :: (writtenLength (pIn.dataLen + 1) ++ [UInt8.ofNat pIn.unusedBits]),
        pIn.dataLen + 1 + 1 + (writtenLength (pIn.dataLen + 1)).length, pIn.unusedBits, 3⟩ := by
  have h3 : (3 : UInt8).toNat = DerTag.bitString := rfl
  have hident : (if DerTag.bitString &&& contextSpecific ≠ 0 then DerTag.bitString
      else DerTag.bitString &&& shortIdMask) = DerTag.bitString := rfl
  have hcond : ¬ (DerTag.bitString ≠ DerTag.bitString ∧ DerTag.bitString ≠ DerTag.integer) := by decide
  have hinteger : ¬ DerTag.bitString = DerTag.integer := by decide
  simp only [derItAsn1LowWriteTagAndLength, h3, hident, Nat.mod_eq_of_lt hfit]
  rw [if_neg hcond, if_neg hinteger, ok_bind]
  split
  · rename_i hmany
    rw [if_pos (not_lt.mp fun hlt => hmany.not_ge (countLengthOfSize_le hlt))]
  · rename_i hfew
    have hlt : ¬ 2 ^ 32 ≤ pIn.dataLen + 1 := fun hge => hfew (lt_countLengthOfSize hge)
    rw [if_pos trivial, ok_bind, if_pos trivial, if_neg hlt, size_mod hw (not_le.mp hlt)]
    rfl

/-- A string is written as its element, if it has a length and can be copied. -/
theorem writeTlv_string (hw : 34 ≤ w) (hc : c = 19 ∨ c = 30) (pIn : AnyBuf) :
    writeTlv w c pIn =
      if 2 ^ 32 ≤ pIn.dataLen then err DerErrType.lengthErr
      else memcpy pIn.pData pIn.dataLen >>= fun s => ok (taggedElement c s).node := by
  rw [writeTlv, writeTagAndLength_string hw hc]
  split
  · rfl
  · rw [ok_bind]
    apply memcpy_bind_congr
    intro s hlen
    rw [Tlv.node, Tlv.length_bytes, Tlv.bytes, taggedElement]
    dsimp only
    rw [hlen, List.length_singleton]
    congr 2
    omega

/-- A BIT STRING is written as its element, if it has a length and can be copied. -/
theorem writeBitString_cases (hw : 34 ≤ w) (hfit : pIn.dataLen + 1 < 2 ^ w) :
    derItAsn1WriteBitString w pIn =
      if 2 ^ 32 ≤ pIn.dataLen + 1 then err DerErrType.lengthErr
      else memcpy pIn.pData pIn.dataLen >>= fun s =>
        ok { (bitsElement pIn.unusedBits s).node with unusedBits := pIn.unusedBits } := by
  rw [derItAsn1WriteBitString, writeTlv, writeTagAndLength_bitString hw hfit]
  split
  · rfl
  · rw [ok_bind]
    apply memcpy_bind_congr
    intro s hlen
    rw [Tlv.node, Tlv.length_bytes, Tlv.bytes, bitsElement]
    dsimp only
    simp only [List.length_cons, List.length_nil, hlen]
    congr 2
    · simp
    · omega

theorem writeCharString_ofBytes (hw : 34 ≤ w) (hs : s.length < 2 ^ 31) :
    derItAsn1WriteCharString w (ofBytes s) = ok (printableElement s).node := by
  have hlong : ¬ 2 ^ 32 ≤ s.length := by omega
  rw [derItAsn1WriteCharString, writeTlv_string hw (Or.inl rfl), ofBytes, if_neg hlong, memcpy_self]
  rfl

theorem writeCharString_eq (hw : 34 ≤ w) (hs : s.length < 2 ^ 31) :
    ∃ node, derItAsn1WriteCharString w ⟨s, s.length, s.length % 8, DerTag.stringPrintable⟩ = ok node ∧
      Carries node (printableElement s) :=
  ⟨_, writeCharString_ofBytes hw hs, carries_node _⟩

theorem writeBitString_ofBytes (hw : 34 ≤ w) (hs : s.length < 2 ^ 31) :
    derItAsn1WriteBitString w (ofBytes s) =
      ok { (bitStringElement s).node with unusedBits := s.length % 8 } := by
  have hpow : (2 : ℕ) ^ 34 ≤ 2 ^ w := Nat.pow_le_pow_right (by norm_num) hw
  have hlong : ¬ 2 ^ 32 ≤ s.length + 1 := by omega
  rw [ofBytes, writeBitString_cases hw (by change s.length + 1 < 2 ^ w; omega), if_neg hlong,
    memcpy_self]
  rfl

theorem writeBitString_eq (hw : 34 ≤ w) (hs : s.length + 1 < 2 ^ 31) :
    ∃ node, derItAsn1WriteBitString w ⟨s, s.length, s.length % 8, DerTag.stringPrintable⟩ = ok node ∧
      Carries node (bitStringElement s) :=
  ⟨_, writeBitString_ofBytes hw (by omega), rfl, rfl⟩

end Elements

/-! ## Sequences -/

/-- The element that is written for a sequence. -/
def sequenceElement (contents : Bytes) : Tlv :=
  { ident := [0x30], lenOctets := writtenLength contents.length, contents := contents
    tag := DerTag.sequence }

theorem definite_sequenceElement {w : ℕ} {body : Bytes} (hbody : body.length < 2 ^ 32) :
    (sequenceElement body).Definite w :=
  ⟨.low (b := 0x30) (by decide) (by decide), lenOctets_writtenLength hbody⟩

/-- The octets that are written for a sequence of elements. -/
def sequenceOctets (ts : List Tlv) : Bytes :=
  0x30 :: (writtenLength (ts.flatMap Tlv.bytes).length ++ ts.flatMap Tlv.bytes)

theorem length_sequenceOctets (ts : List Tlv) (hlt : (ts.flatMap Tlv.bytes).length < 2 ^ 32) :
    (sequenceOctets ts).length ≤ (ts.flatMap Tlv.bytes).length + 6 := by
  have hcount := countLengthOfSize_le hlt
  simp only [sequenceOctets, List.length_cons, List.length_append, length_writtenLength hlt]
  omega

theorem copyNodes_eq {nodes : List AnyBuf} {ts : List Tlv} (h : List.Forall₂ Carries nodes ts) :
    copyNodes nodes = ok (ts.flatMap Tlv.bytes) ∧
      (nodes.map AnyBuf.dataLen).sum = (ts.flatMap Tlv.bytes).length := by
  induction h with
  | nil => exact ⟨rfl, rfl⟩
  | @cons node t nodes ts hnode _ ih =>
      constructor
      · rw [copyNodes, hnode.pData, hnode.dataLen, memcpy_self, ok_bind, ih.1]
        rfl
      · simp [hnode.dataLen, ih.2]

theorem length_copyNodes {nodes : List AnyBuf} {body : Bytes} (h : copyNodes nodes = ok body) :
    body.length = (nodes.map AnyBuf.dataLen).sum := by
  induction nodes generalizing body with
  | nil =>
      obtain rfl := ok.inj h
      rfl
  | cons node nodes ih =>
      obtain ⟨data, hdata, h⟩ := bind_eq_ok.mp h
      obtain ⟨more, hmore, h⟩ := bind_eq_ok.mp h
      obtain ⟨hle, rfl⟩ := memcpy_eq_ok.mp hdata
      obtain rfl := ok.inj h
      rw [List.length_append, List.length_take_of_le hle, ih hmore, List.map_cons, List.sum_cons]

/-- `DER_ItAsn1_WriteSequence` writes the element of the octets that it copies. -/
theorem writeSequence_of_copy {w : ℕ} (hw : 34 ≤ w) {nodes : List AnyBuf} {body : Bytes}
    (h : copyNodes nodes = ok body) (hbody : body.length < 2 ^ 32) :
    derItAsn1WriteSequence w nodes = ok (sequenceElement body).node := by
  have hpow : (2 : ℕ) ^ 34 ≤ 2 ^ w := Nat.pow_le_pow_right (by norm_num) hw
  have hmod : body.length % 2 ^ w = body.length := Nat.mod_eq_of_lt (by omega)
  have hsize : (body.length + 1 + derItAsn1LowCountLengthOfSize body.length) % 2 ^ w =
      (sequenceElement body).bytes.length := by
    rw [size_mod hw hbody, Tlv.length_bytes]
    simp only [sequenceElement, List.length_singleton]
    omega
  rw [derItAsn1WriteSequence, ← length_copyNodes h, hmod, h, ok_bind, hsize]
  rfl

theorem writeSequence_eq {w : ℕ} (hw : 34 ≤ w) {nodes : List AnyBuf} {ts : List Tlv}
    (h : List.Forall₂ Carries nodes ts) (hlt : (ts.flatMap Tlv.bytes).length < 2 ^ 31) :
    ∃ node, derItAsn1WriteSequence w nodes = ok node ∧ node.pData = sequenceOctets ts ∧
      node.dataLen = (sequenceOctets ts).length :=
  ⟨_, writeSequence_of_copy hw (copyNodes_eq h).1 (by omega), rfl, rfl⟩

theorem splits_flatMap {w : ℕ} {ts : List Tlv} (h : ∀ t ∈ ts, t.Definite w) :
    Splits w (ts.flatMap Tlv.bytes) ts := by
  induction ts with
  | nil => exact .nil
  | cons t ts ih =>
      rw [List.flatMap_cons]
      exact .cons ((h t List.mem_cons_self).reads _) (ih fun t' ht' => h t' (List.mem_cons_of_mem _ ht'))

theorem isSequence_sequenceOctets {w : ℕ} {ts : List Tlv} (h : ∀ t ∈ ts, t.Definite w)
    (hlt : (ts.flatMap Tlv.bytes).length < 2 ^ 31) : IsSequence w (sequenceOctets ts) ts :=
  .intro (by decide) (by decide) (lenOctets_writtenLength (by omega)) (splits_flatMap h)

/-! ## Distinguished encodings of elements -/

theorem derElement_integerElement {v : ℕ} (hv : v < 2 ^ 32) :
    DerElement 0x02 (integerContents v) (integerElement v).bytes := by
  obtain ⟨-, -, -, hlen⟩ := intToChar_eq hv
  refine ⟨_, ?_, rfl⟩
  have hnat : (UInt8.ofNat (integerContents v).length).toNat = (integerContents v).length := by
    rw [UInt8.toNat_ofNat']
    omega
  have h := MinimalLength.short (b := UInt8.ofNat (integerContents v).length) (by omega)
  rwa [hnat] at h

theorem derElement_printableElement {s : Bytes} (hs : s.length < 65535) :
    DerElement 0x13 s (printableElement s).bytes :=
  ⟨_, minimalLength_writtenLength (by omega) (by omega), rfl⟩

theorem derElement_sequenceOctets {ts : List Tlv} (hts : (ts.flatMap Tlv.bytes).length < 65535) :
    DerElement 0x30 (ts.flatMap Tlv.bytes) (sequenceOctets ts) :=
  ⟨_, minimalLength_writtenLength (by omega) (by omega), rfl⟩

/-- The elements of a number and of PrintableStrings. -/
def messageElements (number : ℕ) (strings : List Bytes) : List Tlv :=
  integerElement number :: strings.map printableElement

theorem isSequence_messageElements {w number : ℕ} {strings : List Bytes} (hnumber : number < 2 ^ 32)
    (hstrings : ∀ s ∈ strings, s.length < 2 ^ 32)
    (hlt : ((messageElements number strings).flatMap Tlv.bytes).length < 2 ^ 31) :
    IsSequence w (sequenceOctets (messageElements number strings)) (messageElements number strings) := by
  refine isSequence_sequenceOctets ?_ hlt
  refine List.forall_mem_cons.mpr ⟨definite_integerElement hnumber, fun t ht => ?_⟩
  obtain ⟨s, hs, rfl⟩ := List.mem_map.mp ht
  exact definite_printableElement (hstrings s hs)

end SafeTransmission
