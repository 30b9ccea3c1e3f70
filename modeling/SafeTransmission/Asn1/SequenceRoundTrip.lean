import SafeTransmission.Asn1.Bounds
import SafeTransmission.Asn1.Encoders

/-!
# What is written as a sequence is read back

Every node that a writer produces holds one element with a definite length, also a node
that `DER_ItAsn1_WriteSequence` has produced (`Produced.exists_element`).  A sequence of
such nodes is therefore split at the places where they were put together, whatever their
contents are (`readSequence_writeSequence`).  This is for the x64 target: with 32 bits a
block of `2 ^ 31` octets, which the longest of these sequences need, is not allocated.
-/

namespace SafeTransmission

open Outcome

/-- The nodes that the writers produce.  The octets that are written are in memory, where no
block has `2 ^ (w - 1)` of them. -/
inductive Produced (w : ℕ) : AnyBuf → Prop where
  | integer {n : ℕ} {node : AnyBuf} (h : derItAsn1WriteInteger n = ok node) : Produced w node
  | charString {pIn node : AnyBuf} (h : derItAsn1WriteCharString w pIn = ok node) : Produced w node
  | bmpString {pIn node : AnyBuf} (h : derItAsn1WriteBmpString w pIn = ok node) : Produced w node
  | printableString {pIn node : AnyBuf} (h : derItAsn1WritePrintableString w pIn = ok node) :
      Produced w node
  | bitString {pIn node : AnyBuf} (hmemory : pIn.pData.length < 2 ^ (w - 1))
      (h : derItAsn1WriteBitString w pIn = ok node) : Produced w node
  | encodeChar {s : Bytes} {len : ℤ} {node : AnyBuf} (h : encodeChar w s len = ok node) :
      Produced w node
  | encodeUnsignedChar {s : Bytes} {len : ℤ} {node : AnyBuf} (hmemory : s.length < 2 ^ (w - 1))
      (h : encodeUnsignedChar w s len = ok node) : Produced w node
  | null : Produced w derItAsn1WriteNull
  | sequence {nodes : List AnyBuf} {node : AnyBuf} (hnodes : ∀ part ∈ nodes, Produced w part)
      (hmemory : (nodes.map AnyBuf.dataLen).sum < 2 ^ (w - 1))
      (h : derItAsn1WriteSequence w nodes = ok node) : Produced w node

/-- Two nodes with the same octets and the same type. -/
structure SameElement (node node' : AnyBuf) : Prop where
  pData : node.pData = node'.pData
  dataLen : node.dataLen = node'.dataLen
  dataType : node.dataType = node'.dataType

/-- The element of `DER_ItAsn1_WriteNull`. -/
def nullElement : Tlv :=
  { ident := [5], lenOctets := [0], contents := [], tag := 5 }

/-- The head of an element. -/
def Tlv.head (t : Tlv) : ElementHead :=
  { ident := t.ident, lenOctets := t.lenOctets, tag := t.tag, length := t.contents.length }

section Sequences

variable {w n : ℕ} {nodes : List AnyBuf} {node : AnyBuf} {body : Bytes} {ts : List Tlv} {t : Tlv}

theorem SameElement.refl (node : AnyBuf) : SameElement node node := ⟨rfl, rfl, rfl⟩

theorem SameElement.carries (h : SameElement node t.node) : Carries node t :=
  ⟨h.pData, h.dataLen⟩

/-! ## What the writers produce -/

theorem definite_nullElement : nullElement.Definite w :=
  ⟨.low (b := 5) (by decide) (by decide), .short (b := 0) (by decide)⟩

/-- A sequence that was written into a node of less than 2 ^ 31 octets is an element. -/
theorem element_of_writeSequence (hw : 34 ≤ w)
    (hmemory : (nodes.map AnyBuf.dataLen).sum < 2 ^ (w - 1))
    (h : derItAsn1WriteSequence w nodes = ok node) (hlt : node.dataLen < 2 ^ 31) :
    ∃ body, body.length < 2 ^ 32 ∧ node = (sequenceElement body).node := by
  obtain ⟨body, hcopy, hnode⟩ := bind_eq_ok.mp h
  have hpow : (2 : ℕ) ^ 34 ≤ 2 ^ w := Nat.pow_le_pow_right (by norm_num) hw
  have hhalf : (2 : ℕ) ^ w = 2 * 2 ^ (w - 1) := by
    rw [← pow_succ']
    congr 1
    omega
  have hbody : body.length < 2 ^ 32 := by
    by_contra hge
    -- the size is then counted with the error code, and does not wrap
    rw [← length_copyNodes hcopy] at hnode hmemory
    have hmod : body.length % 2 ^ w = body.length := Nat.mod_eq_of_lt (by omega)
    have hcount : derItAsn1LowCountLengthOfSize body.length = DerErrType.lengthErr.toNat := by
      unfold derItAsn1LowCountLengthOfSize
      rw [if_neg (by omega), if_neg (by omega), if_neg (by omega), if_neg (by omega),
        if_neg (by omega)]
    have h201 : DerErrType.lengthErr.toNat = 201 := rfl
    have hsize : node.dataLen = (body.length + 1 + 201) % 2 ^ w := by
      rw [← ok.inj hnode, hmod, hcount, h201]
    rw [Nat.mod_eq_of_lt (by omega)] at hsize
    omega
  exact ⟨body, hbody, (ok.inj ((writeSequence_of_copy hw hcopy hbody).symm.trans h)).symm⟩

theorem element_of_writeTlv (hw : 34 ≤ w) {c : UInt8} (hc : c = 19 ∨ c = 30) {pIn : AnyBuf}
    (h : writeTlv w c pIn = ok node) : ∃ t : Tlv, t.Definite w ∧ SameElement node t.node := by
  rw [writeTlv_string hw hc] at h
  split at h
  · cases h
  · obtain ⟨s, hs, hnode⟩ := bind_eq_ok.mp h
    obtain ⟨hle, rfl⟩ := memcpy_eq_ok.mp hs
    obtain rfl := ok.inj hnode
    exact ⟨_, definite_taggedElement hc (by rw [List.length_take_of_le hle]; omega), .refl _⟩

theorem element_of_writePrintableString (hw : 34 ≤ w) {pIn : AnyBuf}
    (h : derItAsn1WritePrintableString w pIn = ok node) :
    ∃ t : Tlv, t.Definite w ∧ SameElement node t.node := by
  rw [derItAsn1WritePrintableString] at h
  split at h
  · exact element_of_writeTlv hw (Or.inr rfl) h
  · exact element_of_writeTlv hw (Or.inl rfl) h

theorem element_of_writeBitString (hw : 34 ≤ w) {pIn : AnyBuf}
    (hmemory : pIn.pData.length < 2 ^ (w - 1)) (h : derItAsn1WriteBitString w pIn = ok node) :
    ∃ t : Tlv, t.Definite w ∧ SameElement node t.node := by
  have hpow : (2 : ℕ) ^ 33 ≤ 2 ^ (w - 1) := Nat.pow_le_pow_right (by norm_num) (by omega)
  have hhalf : (2 : ℕ) ^ w = 2 * 2 ^ (w - 1) := by
    rw [← pow_succ']
    congr 1
    omega
  have hle : pIn.dataLen ≤ pIn.pData.length := by
    obtain ⟨pMid, -, hcopy⟩ := bind_eq_ok.mp h
    obtain ⟨data, hdata, -⟩ := bind_eq_ok.mp hcopy
    exact (memcpy_eq_ok.mp hdata).1
  rw [writeBitString_cases hw (by omega)] at h
  split at h
  · cases h
  · obtain ⟨s, hs, hnode⟩ := bind_eq_ok.mp h
    obtain ⟨-, rfl⟩ := memcpy_eq_ok.mp hs
    obtain rfl := ok.inj hnode
    exact ⟨_, definite_bitsElement pIn.unusedBits (by rw [List.length_take_of_le hle]; omega),
      rfl, rfl, rfl⟩

/-- A node that a writer has produced holds an element, if it has less than 2 ^ 31 octets. -/
theorem Produced.exists_element (hw : 34 ≤ w) (h : Produced w node) (hlt : node.dataLen < 2 ^ 31) :
    ∃ t : Tlv, t.Definite w ∧ SameElement node t.node := by
  cases h with
  | @integer n _ h =>
      by_cases hn : n < 2 ^ 32
      · obtain rfl := ok.inj ((writeInteger_node hn).symm.trans h)
        exact ⟨_, definite_integerElement hn, .refl _⟩
      · rw [writeInteger_of_le (not_lt.mp hn)] at h
        cases h
  | charString h => exact element_of_writeTlv hw (Or.inl rfl) h
  | bmpString h => exact element_of_writeTlv hw (Or.inr rfl) h
  | printableString h => exact element_of_writePrintableString hw h
  | bitString hmemory h => exact element_of_writeBitString hw hmemory h
  | encodeChar h =>
      rw [SafeTransmission.encodeChar] at h
      split at h
      · cases h
      · obtain ⟨pTmp, -, h⟩ := bind_eq_ok.mp h
        split at h
        · rename_i hwrite
          obtain rfl := ok.inj h
          exact element_of_writePrintableString hw hwrite
        · cases h
        · cases h
  | encodeUnsignedChar hmemory h =>
      rw [SafeTransmission.encodeUnsignedChar] at h
      split at h
      · cases h
      · obtain ⟨pTmp, htmp, h⟩ := bind_eq_ok.mp h
        obtain ⟨data, hdata, htmp⟩ := bind_eq_ok.mp htmp
        obtain ⟨hle, rfl⟩ := memcpy_eq_ok.mp hdata
        obtain rfl := ok.inj htmp
        split at h
        · rename_i hwrite
          obtain rfl := ok.inj h
          refine element_of_writeBitString hw ?_ hwrite
          rw [List.length_take_of_le hle]
          omega
        · cases h
        · cases h
  | null => exact ⟨nullElement, definite_nullElement, rfl, rfl, rfl⟩
  | sequence _ hmemory h =>
      obtain ⟨body, hbody, rfl⟩ := element_of_writeSequence hw hmemory h hlt
      exact ⟨_, definite_sequenceElement hbody, .refl _⟩

theorem exists_elements (hw : 34 ≤ w) (hnodes : ∀ node ∈ nodes, Produced w node)
    (htotal : (nodes.map AnyBuf.dataLen).sum < 2 ^ 31) :
    ∃ ts : List Tlv, (∀ t ∈ ts, t.Definite w) ∧
      List.Forall₂ (fun node t => SameElement node t.node) nodes ts := by
  induction nodes with
  | nil => exact ⟨[], by simp, .nil⟩
  | cons node nodes ih =>
      rw [List.map_cons, List.sum_cons] at htotal
      obtain ⟨hnode, hnodes⟩ := List.forall_mem_cons.mp hnodes
      obtain ⟨t, ht, hsame⟩ := hnode.exists_element hw (by omega)
      obtain ⟨ts, hts, hrest⟩ := ih hnodes (by omega)
      exact ⟨t :: ts, List.forall_mem_cons.mpr ⟨ht, hts⟩, .cons hsame hrest⟩

/-! ## Reading them back -/

theorem Tlv.Reads.begins {rest : Bytes} (h : t.Reads w rest) :
    t.head.Begins w (t.bytes ++ rest) := by
  refine ⟨h.tagOctets, t.contents ++ rest, ?_, h.announces⟩
  simp only [Tlv.bytes, Tlv.head, List.append_assoc]

theorem Tlv.size_head (t : Tlv) : t.head.size = t.bytes.length := by
  rw [Tlv.length_bytes, ← add_assoc]
  rfl

theorem readSequence_sequenceElement (hw : 34 ≤ w) (hsplits : Splits w body ts)
    (hbody : body.length < 2 ^ 31) :
    derItAsn1ReadSequence w (sequenceElement body).node = ok (ts.map Tlv.node) := by
  have hpow : (2 : ℕ) ^ 34 ≤ 2 ^ w := Nat.pow_le_pow_right (by norm_num) hw
  have hdefinite : (sequenceElement body).Definite w := definite_sequenceElement (by omega)
  have hbegins := (hdefinite.reads []).begins
  rw [List.append_nil] at hbegins
  have htag : (sequenceElement body).head.tag % 256 = DerTag.sequence := rfl
  have hlength : (sequenceElement body).bytes.length = 1 + ((writtenLength body.length).length +
      body.length) := Tlv.length_bytes _
  have hfive := countLengthOfSize_le (n := body.length) (by omega)
  rw [← length_writtenLength (by omega)] at hfive
  have hsize : (sequenceElement body).bytes.length = (sequenceElement body).head.size % 2 ^ w := by
    rw [Tlv.size_head, Nat.mod_eq_of_lt (by omega)]
  have hdrop : (sequenceElement body).bytes.drop (sequenceElement body).head.octets = body := by
    have hne := (lenOctets_writtenLength (n := body.length) (by omega)).ne_octet80
    have hoctets : (sequenceElement body).head.octets = 1 + (writtenLength body.length).length := by
      change 1 + (writtenLength body.length).length +
        (if writtenLength body.length = [0x80] then 1 else 0) = _
      rw [if_neg hne, add_zero]
    rw [hoctets, Nat.add_comm]
    change (writtenLength body.length ++ body).drop (writtenLength body.length).length = body
    rw [List.drop_left]
  have htotal : toInt32 ((sequenceElement body).head.length : ℤ) = body.length := by
    change toInt32 (body.length : ℤ) = body.length
    rw [toInt32_of_range] <;> omega
  rw [Tlv.node, readSequence_of_begins (by omega) hbegins, if_neg (not_not.mpr htag),
    if_neg (not_not.mpr hsize), hdrop, htotal, Int.toNat_natCast,
    readElements_of_splits hw hsplits hbody le_rfl]
  rfl

end Sequences

/-- A list of nodes that writers have produced, less than 2 ^ 31 octets in all, is read back from
the sequence that is written for it: a doubly linked list of as many nodes in the same order,
with the same octets and types. -/
theorem readSequence_writeSequence {nodes : List AnyBuf}
    (hnodes : ∀ node ∈ nodes, Produced Platform.x64.ulongBits node)
    (htotal : (nodes.map AnyBuf.dataLen).sum < 2 ^ 31) :
    ∃ der, derItAsn1WriteSequence Platform.x64.ulongBits nodes = ok der ∧
      ∃ ppSequence heap last read,
        Linked.derItAsn1ReadSequence Platform.x64.ulongBits der = ok (ppSequence, heap) ∧
        NodeHeap.IsList heap ppSequence last read ∧ List.Forall₂ SameElement nodes read := by
  have hw : 34 ≤ Platform.x64.ulongBits := by decide
  obtain ⟨ts, hts, hsame⟩ := exists_elements hw hnodes htotal
  obtain ⟨hcopy, hsum⟩ := copyNodes_eq (hsame.imp fun _ _ => SameElement.carries)
  have hbody : (ts.flatMap Tlv.bytes).length < 2 ^ 31 := hsum ▸ htotal
  have hread := readSequence_sequenceElement hw (splits_flatMap hts) hbody
  obtain ⟨⟨ppSequence, heap⟩, hlinked, ⟨last, hlist⟩, -⟩ :=
    (Linked.readSequence_refines _ _).exists_of_abstract_ok hread
  exact ⟨_, writeSequence_of_copy hw hcopy (by omega), ppSequence, heap, last, ts.map Tlv.node,
    hlinked, hlist, List.forall₂_map_right_iff.mpr hsame⟩

/-- The number 5, a null element and, as a sequence of its own, the string "a". -/
theorem readSequence_writeSequence_nested :
    ∃ der, derItAsn1WriteSequence Platform.x64.ulongBits
        [⟨[2, 1, 5], 3, 0, 2⟩, derItAsn1WriteNull, ⟨[0x30, 3, 19, 1, 97], 5, 0, 16⟩] = ok der ∧
      ∃ ppSequence heap last read,
        Linked.derItAsn1ReadSequence Platform.x64.ulongBits der = ok (ppSequence, heap) ∧
        NodeHeap.IsList heap ppSequence last read ∧
        List.Forall₂ SameElement
          [⟨[2, 1, 5], 3, 0, 2⟩, derItAsn1WriteNull, ⟨[0x30, 3, 19, 1, 97], 5, 0, 16⟩] read := by
  have hstring : Produced Platform.x64.ulongBits ⟨[19, 1, 97], 3, 0, 19⟩ :=
    @Produced.encodeChar _ [97] 1 _ (by decide +kernel)
  have hsequence : Produced Platform.x64.ulongBits ⟨[0x30, 3, 19, 1, 97], 5, 0, 16⟩ :=
    @Produced.sequence _ [⟨[19, 1, 97], 3, 0, 19⟩] _ (by simpa using hstring) (by decide)
      (by decide +kernel)
  refine readSequence_writeSequence ?_ (by decide)
  intro node hnode
  simp only [List.mem_cons, List.not_mem_nil, or_false] at hnode
  rcases hnode with rfl | rfl | rfl
  · exact .integer (n := 5) (by decide)
  · exact .null
  · exact hsequence

end SafeTransmission
