import SafeTransmission.Asn1.Blocks
import SafeTransmission.Asn1.Encoders
import SafeTransmission.Asn1.ReadSequence
import SafeTransmission.Asn1.Rounds

/-!
# Strings, encoded and decoded

`EncodeChar` and `EncodeUnsignedChar` fill the block that they allocate, and the decoders
give the string back from the node that was filled (`decode_encode`).  The x64 target is
meant: the longest strings need a block of `2 ^ 31` octets, which 32 bits do not allow.

Whether `DER_ItAsn1_Low_ReadTagAndLength` takes the octet of unused bits off is decided by
the `dataType` of the node, which `DER_ITCAST_String_To_AnyBuf` does not set to the tag of
the octets.  A BIT STRING that comes out of such a node has that octet in front of it
(`decodeUnsignedChar_iff`).

## Strategy

* `Tlv.Definite.readTlv_whole` and `Tlv.Definite.readTlv_bitString` are the reader on the two kinds
  of nodes.
* A node has its `dataType` from where it comes (`NodeOrigin`): the encoder, the element loop, or
  `DER_ITCAST_String_To_AnyBuf`.  `Obtained` describes the three.
-/

namespace SafeTransmission

open Outcome

section Readers

variable {w : ℕ} {t : Tlv}

theorem Tlv.Definite.readTagAndLength (hw : 34 ≤ w) (ht : t.Definite w)
    (htag : t.tag ≠ DerTag.integer) (hlength : t.bytes.length < 2 ^ 34) (unusedBits dataType : ℕ) :
    derItAsn1LowReadTagAndLength w ⟨t.bytes, t.bytes.length, unusedBits, dataType⟩ =
      if dataType = DerTag.bitString then
        if 2 ^ (w - 1) ≤ (t.contents.length + (2 ^ w - 1)) % 2 ^ w then err DerErrType.memoryErr
        else ok (⟨[], (t.contents.length + (2 ^ w - 1)) % 2 ^ w, unusedBits, t.tag⟩, t.contents.tail)
      else ok (⟨[], t.contents.length, 0, t.tag⟩, t.contents) := by
  have hpow : (2 : ℕ) ^ 34 ≤ 2 ^ w := Nat.pow_le_pow_right (by norm_num) hw
  have hhalf : (2 : ℕ) ^ 33 ≤ 2 ^ (w - 1) := Nat.pow_le_pow_right (by norm_num) (by omega)
  have hinfo : derItAsn1LowGetTagInfo w t.bytes =
      ok ⟨t.tag, t.ident.length, t.lenOctets ++ t.contents⟩ :=
    getTagInfo_append ht.tagOctets _
  have hlen : derItAsn1LowGetLengthInfo w (t.lenOctets ++ t.contents) =
      ok ⟨t.contents.length, t.lenOctets.length, t.contents⟩ :=
    getLengthInfo_append (by omega) ht.lenOctets _
  have hlt := ht.lenOctets.lt
  have hsum : (t.ident.length + (t.contents.length + t.lenOctets.length)) % 2 ^ w =
      t.bytes.length := by
    rw [Tlv.length_bytes] at hlength ⊢
    rw [Nat.mod_eq_of_lt (by omega)]
    omega
  rw [derItAsn1LowReadTagAndLength, hinfo, ok_bind]
  dsimp only
  rw [hlen]
  dsimp only
  rw [hsum, if_neg (not_not.mpr rfl), if_neg htag]
  by_cases htype : dataType = DerTag.bitString
  · rw [if_pos htype, if_pos htype, if_pos htype]
    rfl
  · rw [if_neg htype, if_neg htype, if_neg htype]
    have hsmall : ¬ 2 ^ (w - 1) ≤ t.contents.length := by omega
    exact if_neg hsmall

/-- From a node that is not marked as a BIT STRING all contents are read. -/
theorem Tlv.Definite.readTlv_whole (hw : 34 ≤ w) (ht : t.Definite w) (htag : t.tag ≠ DerTag.integer)
    (hlength : t.bytes.length < 2 ^ 34) (unusedBits : ℕ) {dataType : ℕ}
    (htype : dataType ≠ DerTag.bitString) :
    readTlv w ⟨t.bytes, t.bytes.length, unusedBits, dataType⟩ =
      ok ⟨t.contents, t.contents.length, 0, t.tag⟩ := by
  rw [readTlv, ht.readTagAndLength hw htag hlength, if_neg htype, ok_bind]
  dsimp only
  rw [memcpy_self]
  rfl

/-- From a node that is, the first octet of the contents is left out. -/
theorem Tlv.Definite.readTlv_bitString (hw : 34 ≤ w) (ht : t.Definite w)
    (htag : t.tag ≠ DerTag.integer) (hlength : t.bytes.length < 2 ^ 34) {b : UInt8} {s : Bytes}
    (hcontents : t.contents = b :: s) (unusedBits : ℕ) :
    readTlv w ⟨t.bytes, t.bytes.length, unusedBits, DerTag.bitString⟩ =
      ok ⟨s, s.length, unusedBits, t.tag⟩ := by
  have hhalf : (2 : ℕ) ^ 33 ≤ 2 ^ (w - 1) := Nat.pow_le_pow_right (by norm_num) (by omega)
  have hpow : (2 : ℕ) ^ 34 ≤ 2 ^ w := Nat.pow_le_pow_right (by norm_num) hw
  have hlt := ht.lenOctets.lt
  rw [hcontents, List.length_cons] at hlt
  have hdec : (s.length + 1 + (2 ^ w - 1)) % 2 ^ w = s.length := by
    rw [show s.length + 1 + (2 ^ w - 1) = s.length + 2 ^ w by omega, Nat.add_mod_right,
      Nat.mod_eq_of_lt (by omega)]
  rw [readTlv, ht.readTagAndLength hw htag hlength, if_pos rfl, hcontents, List.length_cons, hdec,
    if_neg (by omega), ok_bind, List.tail_cons]
  dsimp only
  rw [memcpy_self]
  rfl

end Readers

/-! ## The decoders -/

/-- What a decoder gives out for a string: a null pointer for the empty one, else the string with
a NUL behind it, and its length. -/
def decoded (s : Bytes) : Bytes × ℤ :=
  (if s = [] then [] else s ++ [0], s.length)

section Decoders

variable {w : ℕ} {s : Bytes}

theorem decoded_ne {s' : Bytes} (h : s.length ≠ s'.length) : decoded s ≠ decoded s' := by
  intro heq
  have hlen : (s.length : ℤ) = s'.length := congrArg Prod.snd heq
  exact h (Int.ofNat_inj.mp hlen)

theorem decodeString_ok (hw : 34 ≤ w) (hs : s.length < 2 ^ 31) (unusedBits dataType : ℕ) :
    decodeString w (ok ⟨s, s.length, unusedBits, dataType⟩) = ok (decoded s) := by
  have hhalf : (2 : ℕ) ^ 33 ≤ 2 ^ (w - 1) := Nat.pow_le_pow_right (by norm_num) (by omega)
  have hint : toInt32 (s.length : ℤ) = s.length := by
    rw [toInt32_of_range] <;> omega
  rw [decodeString]
  dsimp only
  by_cases hnil : s = []
  · subst hnil
    rfl
  · have hpos := List.length_pos_of_ne_nil hnil
    rw [if_neg hpos.ne', if_neg (by omega), memcpy_self, ok_bind, hint, decoded, if_neg hnil]

theorem length_printableElement_le (hs : s.length < 2 ^ 31) :
    (printableElement s).bytes.length ≤ s.length + 6 := by
  have hcount := countLengthOfSize_le (n := s.length) (by omega)
  have hlen := length_writtenLength (n := s.length) (by omega)
  rw [Tlv.length_bytes]
  change 1 + ((writtenLength s.length).length + s.length) ≤ s.length + 6
  omega

theorem length_bitStringElement_le (hs : s.length < 2 ^ 31) :
    (bitStringElement s).bytes.length ≤ s.length + 7 := by
  have hcount := countLengthOfSize_le (n := s.length + 1) (by omega)
  have hlen := length_writtenLength (n := s.length + 1) (by omega)
  rw [Tlv.length_bytes]
  change 1 + ((writtenLength (s.length + 1)).length + (s.length + 1)) ≤ s.length + 7
  omega

theorem decodeChar_printableElement (hw : 34 ≤ w) (hs : s.length < 2 ^ 31) :
    decodeChar w (printableElement s).node = ok (decoded s) := by
  have hlength := length_printableElement_le hs
  have hread := (definite_printableElement (w := w) (s := s) (by omega)).readTlv_whole hw
    (show DerTag.stringPrintable ≠ DerTag.integer by decide) (by omega) 0
    (show DerTag.stringPrintable ≠ DerTag.bitString by decide)
  rw [decodeChar, derItAsn1ReadPrintableString, Tlv.node]
  exact (congrArg (decodeString w) hread).trans (decodeString_ok hw hs _ _)

theorem decodeUnsignedChar_bitString (hw : 34 ≤ w) (hs : s.length < 2 ^ 31) (unusedBits : ℕ) :
    decodeUnsignedChar w ⟨(bitStringElement s).bytes, (bitStringElement s).bytes.length, unusedBits,
      DerTag.bitString⟩ = ok (decoded s) := by
  have hlength := length_bitStringElement_le hs
  have hread := (definite_bitStringElement (w := w) (s := s) (by omega)).readTlv_bitString hw
    (show DerTag.bitString ≠ DerTag.integer by decide) (by omega) rfl unusedBits
  rw [decodeUnsignedChar, derItAsn1ReadBitString, hread, decodeString_ok hw hs]

/-- From any other node the octet of unused bits comes with the string. -/
theorem decodeUnsignedChar_other (hw : 34 ≤ w) (hs : s.length + 1 < 2 ^ 31)
    (unusedBits : ℕ) {dataType : ℕ} (htype : dataType ≠ DerTag.bitString) :
    decodeUnsignedChar w ⟨(bitStringElement s).bytes, (bitStringElement s).bytes.length, unusedBits,
      dataType⟩ = ok (decoded (UInt8.ofNat (s.length % 8) :: s)) := by
  have hlength := length_bitStringElement_le (s := s) (by omega)
  have hread := (definite_bitStringElement (w := w) (s := s) (by omega)).readTlv_whole hw
    (show DerTag.bitString ≠ DerTag.integer by decide) (by omega) unusedBits htype
  have hcontents : (bitStringElement s).contents.length < 2 ^ 31 := hs
  rw [decodeUnsignedChar, derItAsn1ReadBitString, hread, decodeString_ok hw hcontents]
  rfl

end Decoders

/-- A string is encoded into a block that it fills, and decoded from the node. -/
theorem decode_encode {s : Bytes} (hs : s.length ≤ 2 ^ 31 - 7) :
    (∃ node, InBlock.encodeChar Platform.x64.ulongBits s s.length = ok node ∧ node.Exact ∧
      encodeChar Platform.x64.ulongBits s s.length = ok node.anyBuf ∧
      decodeChar Platform.x64.ulongBits node.anyBuf = ok (decoded s)) ∧
    ∃ node, InBlock.encodeUnsignedChar Platform.x64.ulongBits s s.length = ok node ∧ node.Exact ∧
      encodeUnsignedChar Platform.x64.ulongBits s s.length = ok node.anyBuf ∧
      decodeUnsignedChar Platform.x64.ulongBits node.anyBuf = ok (decoded s) := by
  have hw : 34 ≤ Platform.x64.ulongBits := by decide
  have hchar := encodeChar_eq hw (show s.length < 2 ^ 31 by omega)
  have hunsigned := encodeUnsignedChar_eq hw (show s.length < 2 ^ 31 by omega)
  constructor
  · exact ⟨_, InBlock.encodeChar_of_ok hchar le_rfl, InBlock.exact_ofAnyBuf le_rfl rfl, hchar,
      decodeChar_printableElement hw (by omega)⟩
  · exact ⟨_, InBlock.encodeUnsignedChar_of_ok hunsigned le_rfl, InBlock.exact_ofAnyBuf le_rfl rfl,
      hunsigned, decodeUnsignedChar_bitString hw (by omega) _⟩

/-- A string with a NUL inside. -/
theorem decode_encode_nul :
    (∃ node, InBlock.encodeChar Platform.x64.ulongBits [65, 0, 66] 3 = ok node ∧ node.Exact ∧
      encodeChar Platform.x64.ulongBits [65, 0, 66] 3 = ok node.anyBuf ∧
      decodeChar Platform.x64.ulongBits node.anyBuf = ok (decoded [65, 0, 66])) ∧
    ∃ node, InBlock.encodeUnsignedChar Platform.x64.ulongBits [65, 0, 66] 3 = ok node ∧ node.Exact ∧
      encodeUnsignedChar Platform.x64.ulongBits [65, 0, 66] 3 = ok node.anyBuf ∧
      decodeUnsignedChar Platform.x64.ulongBits node.anyBuf = ok (decoded [65, 0, 66]) :=
  decode_encode (s := [65, 0, 66]) (by decide)

/-! ## Where a node comes from -/

/-- How a node is obtained that holds the octets of an encoded string. -/
inductive NodeOrigin where
  | encoder
  | splitOff
  | transmitted
deriving DecidableEq, Repr

/-- The node of `EncodeUnsignedChar`, a node with its octets that `DER_ItAsn1_ReadSequence` has
split off any sequence, or the node that is made of its octets when they were transmitted. -/
inductive Obtained (w : ℕ) (s : Bytes) : NodeOrigin → AnyBuf → Prop where
  | encoder {node : AnyBuf} (h : encodeUnsignedChar w s s.length = ok node) :
      Obtained w s .encoder node
  | splitOff {own pDerSequence node : AnyBuf} {nodes : List AnyBuf}
      (hown : encodeUnsignedChar w s s.length = ok own)
      (h : derItAsn1ReadSequence w pDerSequence = ok nodes) (hmem : node ∈ nodes)
      (hoctets : node.pData = own.pData) : Obtained w s .splitOff node
  | transmitted {own node : AnyBuf} (hown : encodeUnsignedChar w s s.length = ok own)
      (hint : own.pData.length < 2 ^ 31)
      (h : derItcastStringToAnyBuf own.pData own.pData.length = ok node) :
      Obtained w s .transmitted node

section Origins

variable {w : ℕ} {s : Bytes}

/-- Every node of the element loop is the element at some place. -/
theorem exists_place_of_mem (hw : 32 ≤ w) {fuel : ℕ} {p : Bytes} {total left : ℤ}
    {nodes : List AnyBuf} (h : readElements w fuel p total = ok (nodes, left)) {node : AnyBuf}
    (hmem : node ∈ nodes) : ∃ (q : Bytes) (e : ElementHead), e.Begins w q ∧ node = e.node w q ∧
      e.size % 2 ^ w ≤ q.length := by
  induction fuel generalizing p total nodes with
  | zero =>
      rw [readElements] at h
      split at h
      · cases h
      · cases h
        cases hmem
  | succ fuel ih =>
      rw [readElements] at h
      split at h
      · obtain ⟨first, hfirst, h⟩ := bind_eq_ok.mp h
        obtain ⟨⟨rest, left'⟩, hrest, h⟩ := bind_eq_ok.mp h
        cases h
        rcases List.mem_cons.mp hmem with rfl | hmem
        · obtain ⟨e, he, hle, rfl⟩ := begins_of_readElement hw hfirst
          exact ⟨p, e, he, rfl, hle⟩
        · exact ih hrest hmem
      · cases h
        cases hmem

/-- A node that was split off and begins with the tag octet of a BIT STRING is marked as one, and
is as long as it says. -/
theorem splitOff_fields (hw : 32 ≤ w) {pDerSequence node : AnyBuf} {nodes : List AnyBuf}
    (h : derItAsn1ReadSequence w pDerSequence = ok nodes) (hmem : node ∈ nodes) {r : Bytes}
    (hoctets : node.pData = 3 :: r) :
    node = ⟨3 :: r, (3 :: r).length, 0, DerTag.bitString⟩ := by
  obtain ⟨tag, -, h⟩ := bind_eq_ok.mp h
  split at h
  · cases h
  · obtain ⟨len, -, h⟩ := bind_eq_ok.mp h
    split at h
    · cases h
    · obtain ⟨⟨nodes', left⟩, hloop, h⟩ := bind_eq_ok.mp h
      dsimp only at h
      split at h
      · cases h
      · obtain rfl := ok.inj h
        obtain ⟨q, e, he, rfl, hle⟩ := exists_place_of_mem hw hloop hmem
        have htake : q.take (e.size % 2 ^ w) = 3 :: r := hoctets
        have hq : q = 3 :: (r ++ q.drop (e.size % 2 ^ w)) := by
          rw [← List.cons_append, ← htake, List.take_append_drop]
        have htag := he.getTagInfo
        rw [hq, ← List.singleton_append, getTagInfo_append (.low (b := 3) (by decide) (by decide)),
          ok.injEq, Head.mk.injEq] at htag
        have hsize : e.size % 2 ^ w = (3 :: r).length := by
          rw [← htake, List.length_take_of_le hle]
        rw [ElementHead.node, htake, hsize, ← htag.1]
        rfl

end Origins

/-- `DecodeUnsignedChar` gives the string back unless the node was made of transmitted octets. -/
theorem decodeUnsignedChar_iff {s : Bytes} (hs : s.length < 2 ^ 31) {origin : NodeOrigin} {node : AnyBuf}
    (h : Obtained Platform.x64.ulongBits s origin node) :
    decodeUnsignedChar Platform.x64.ulongBits node = ok (decoded s) ↔ origin ≠ .transmitted := by
  have hw : 34 ≤ Platform.x64.ulongBits := by decide
  have hencode := encodeUnsignedChar_eq hw hs
  cases h with
  | encoder h =>
      obtain rfl := ok.inj (hencode.symm.trans h)
      exact iff_of_true (decodeUnsignedChar_bitString hw hs _) (by decide)
  | splitOff hown h hmem hoctets =>
      obtain rfl := ok.inj (hencode.symm.trans hown)
      obtain rfl := splitOff_fields (by omega) h hmem hoctets
      exact iff_of_true (decodeUnsignedChar_bitString hw hs _) (by decide)
  | transmitted hown hint h =>
      obtain rfl := ok.inj (hencode.symm.trans hown)
      obtain rfl := ok.inj ((stringToAnyBuf_self _).symm.trans h)
      have hlong : s.length + 1 < 2 ^ 31 := by
        have hlength : (bitStringElement s).bytes.length = _ := Tlv.length_bytes _
        have hcontents : (bitStringElement s).contents.length = s.length + 1 := rfl
        have hint : (bitStringElement s).bytes.length < 2 ^ 31 := hint
        omega
      refine iff_of_false ?_ (by simp)
      intro hdecode
      have hwhole := decodeUnsignedChar_other hw hlong ((bitStringElement s).bytes.length % 8)
        (show DerTag.stringPrintable ≠ DerTag.bitString by decide)
      exact decoded_ne (by simp) (ok.inj (hwhole.symm.trans hdecode))

/-- The encoder's own node for "A". -/
theorem decodeUnsignedChar_iff_own :
    decodeUnsignedChar Platform.x64.ulongBits ⟨[3, 2, 1, 65], 4, 1, DerTag.bitString⟩ =
      ok (decoded [65]) :=
  (decodeUnsignedChar_iff (s := [65]) (by decide) (.encoder (by decide +kernel))).mpr (by decide)

/-- From the transmitted octets of "A" the decoder reads the octet 1 and "A". -/
theorem not_decodeUnsignedChar_transmitted :
    ¬ ∀ origin node, Obtained Platform.x64.ulongBits [65] origin node →
      decodeUnsignedChar Platform.x64.ulongBits node = ok (decoded [65]) := by
  intro hall
  have hobtained : Obtained Platform.x64.ulongBits [65] .transmitted
      ⟨[3, 2, 1, 65], 4, 4, DerTag.stringPrintable⟩ :=
    @Obtained.transmitted _ _ ⟨[3, 2, 1, 65], 4, 1, DerTag.bitString⟩ _ (by decide +kernel) (by decide)
      (by decide +kernel)
  have hread : decodeUnsignedChar Platform.x64.ulongBits
      ⟨[3, 2, 1, 65], 4, 4, DerTag.stringPrintable⟩ = ok (decoded [1, 65]) := by
    decide +kernel
  have hdecode := hall _ _ hobtained
  rw [hread] at hdecode
  exact absurd (ok.inj hdecode) (by decide)

end SafeTransmission
