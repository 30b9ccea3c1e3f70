import SafeTransmission.Asn1.SequenceRoundTrip
import SafeTransmission.Asn1.Splitting

/-!
# Writing again what was read

`DER_ItAsn1_ReadSequence` accepts a sequence in many forms: its tag in one octet or in several, its
length with leading zeros, or with the length octet `0x80`, behind which one more octet is
skipped.  `DER_ItAsn1_WriteSequence` has one form for each contents.

Whatever sequence was accepted, its nodes are written as a sequence from which the same list is read
again, also where the nodes are not elements of their own.  The octets are those of the input
exactly if the input was in the form that is written (`readSequence_rewrites`).  Like the way from
the writers to the reader, this is for the x64 target.
-/

namespace SafeTransmission

open Outcome

section Nodes

variable {w : ℕ} {p body : Bytes} {total left : ℤ} {nodes : List AnyBuf}

theorem dataLen_of_readElements (hw : 32 ≤ w) {fuel : ℕ}
    (h : readElements w fuel p total = ok (nodes, left)) :
    ∀ node ∈ nodes, node.dataLen = node.pData.length := by
  induction fuel generalizing p total nodes with
  | zero =>
      rw [readElements] at h
      split at h
      · cases h
      · cases h
        exact fun node hmem => absurd hmem List.not_mem_nil
  | succ fuel ih =>
      rw [readElements] at h
      split at h
      · obtain ⟨node, hread, hmore⟩ := bind_eq_ok.mp h
        obtain ⟨⟨nodes', left'⟩, hrest, hend⟩ := bind_eq_ok.mp hmore
        obtain ⟨rfl, rfl⟩ := Prod.mk.inj (ok.inj hend)
        obtain ⟨e, -, hle, rfl⟩ := begins_of_readElement hw hread
        refine List.forall_mem_cons.mpr ⟨?_, ih hrest⟩
        rw [ElementHead.node, List.length_take_of_le hle]
      · cases h
        exact fun node hmem => absurd hmem List.not_mem_nil

theorem copyNodes_pData (h : ∀ node ∈ nodes, node.dataLen = node.pData.length) :
    copyNodes nodes = ok (nodes.flatMap AnyBuf.pData) := by
  induction nodes with
  | nil => rfl
  | cons node nodes ih =>
      obtain ⟨hnode, hnodes⟩ := List.forall_mem_cons.mp h
      rw [copyNodes, hnode, memcpy_eq_ok.mpr ⟨le_rfl, rfl⟩, ok_bind, ih hnodes, ok_bind,
        List.take_length, List.flatMap_cons]

end Nodes

namespace Linked

section Contents

variable {w : ℕ} {b body : Bytes} {unusedBits dataType : ℕ} {ppSequence : Option ℕ}
  {nodes : NodeHeap AnyBuf}

theorem start_sequenceElement (hw : 34 ≤ w) (hbody : body.length < 2 ^ 31) :
    ElementLoop.start w (sequenceElement body).node =
      ok ⟨body, toInt32 body.length, true, none, none, []⟩ := by
  have hpow : (2 : ℕ) ^ 34 ≤ 2 ^ w := Nat.pow_le_pow_right (by norm_num) hw
  have hdefinite : (sequenceElement body).Definite w := definite_sequenceElement (by omega)
  have hbegins := (hdefinite.reads []).begins
  rw [List.append_nil] at hbegins
  have hoctets : (sequenceElement body).head.octets = 1 + (writtenLength body.length).length := by
    have hne := (lenOctets_writtenLength (n := body.length) (by omega)).ne_octet80
    calc (sequenceElement body).head.octets
        = 1 + (writtenLength body.length).length +
            if writtenLength body.length = [0x80] then 1 else 0 := rfl
      _ = 1 + (writtenLength body.length).length := by rw [if_neg hne, add_zero]
  have hdrop : (sequenceElement body).bytes.drop (sequenceElement body).head.octets = body := by
    calc (sequenceElement body).bytes.drop (sequenceElement body).head.octets
        = (writtenLength body.length ++ body).drop (writtenLength body.length).length := by
          rw [hoctets, Nat.add_comm]
          rfl
      _ = body := List.drop_left
  have hsize : (sequenceElement body).head.size % 2 ^ w = (sequenceElement body).bytes.length := by
    have hfive := countLengthOfSize_le (n := body.length) (by omega)
    rw [← length_writtenLength (by omega)] at hfive
    have hlength : (sequenceElement body).bytes.length = 1 + ((writtenLength body.length).length +
        body.length) := Tlv.length_bytes _
    rw [Tlv.size_head, Nat.mod_eq_of_lt (by omega)]
  refine (ElementLoop.start_eq_ok (by omega)).mpr ⟨_, hbegins, rfl, hsize, ?_⟩
  rw [hdrop]
  rfl

/-- A sequence that was accepted: its nodes are what stands behind its head. -/
theorem contents_of_readSequence (hw : 32 ≤ w)
    (h : derItAsn1ReadSequence w ⟨b, b.length, unusedBits, dataType⟩ = ok (ppSequence, nodes)) :
    ∃ e : ElementHead, e.Begins w b ∧ ∃ last vs, nodes.IsList ppSequence last vs ∧
      vs.flatMap AnyBuf.pData = b.drop e.octets ∧ (b.drop e.octets).length = e.length ∧
      e.length < 2 ^ 31 ∧ (∀ node ∈ vs, node.dataLen = node.pData.length) ∧
      ElementLoop.start w ⟨b, b.length, unusedBits, dataType⟩ =
        ok ⟨b.drop e.octets, toInt32 e.length, true, none, none, []⟩ := by
  obtain ⟨e, he, htag, hsize, hlt, last, vs, hlist, hloop⟩ := loop_of_readSequence hw h
  have hstart : ElementLoop.start w ⟨b, b.length, unusedBits, dataType⟩ =
      ok ⟨b.drop e.octets, toInt32 e.length, true, none, none, []⟩ :=
    (ElementLoop.start_eq_ok hw).mpr ⟨e, he, htag, hsize, rfl⟩
  have hfit := length_contents_le hsize
  have hfull := dataLen_of_readElements hw hloop
  obtain ⟨⟨rest, hsplit, hrest⟩, -⟩ := readElements_eq_ok hw (by omega) (by omega) hloop
  obtain rfl : rest = [] := List.eq_nil_of_length_eq_zero (by omega)
  rw [List.append_nil] at hsplit
  rw [List.length_nil] at hrest
  exact ⟨e, he, last, vs, hlist, hsplit.symm, by omega, hlt, hfull, hstart⟩

end Contents

/-- The nodes of a sequence that was accepted are written as a sequence from which the same list is
read.  It is the one that was accepted exactly if that was in the form that is written. -/
theorem readSequence_rewrites {b : Bytes} {unusedBits dataType : ℕ} {ppSequence : Option ℕ}
    {nodes : NodeHeap AnyBuf}
    (h : derItAsn1ReadSequence Platform.x64.ulongBits ⟨b, b.length, unusedBits, dataType⟩ =
      ok (ppSequence, nodes)) :
    ∃ last vs der, nodes.IsList ppSequence last vs ∧
      derItAsn1WriteSequence Platform.x64.ulongBits vs = ok der ∧
      derItAsn1ReadSequence Platform.x64.ulongBits der = ok (ppSequence, nodes) ∧
      (der.pData = b ↔ ∃ body : Bytes, body.length < 2 ^ 31 ∧ b = (sequenceElement body).bytes) := by
  have hw : 34 ≤ Platform.x64.ulongBits := by decide
  obtain ⟨e, he, last, vs, hlist, hcontents, hlen, hlt, hfull, hstart⟩ :=
    contents_of_readSequence (by omega) h
  have hbody : (b.drop e.octets).length < 2 ^ 31 := by omega
  have hcopy := copyNodes_pData hfull
  rw [hcontents] at hcopy
  refine ⟨last, vs, (sequenceElement (b.drop e.octets)).node, hlist,
    writeSequence_of_copy hw hcopy (by omega), ?_, ?_⟩
  · rw [derItAsn1ReadSequence, hstart] at h
    rw [derItAsn1ReadSequence, start_sequenceElement hw hbody, hlen]
    exact h
  · constructor
    · intro hsame
      exact ⟨_, hbody, hsame.symm⟩
    · rintro ⟨body, hlt', rfl⟩
      -- the head of a written sequence ends where its contents begin
      have hsame := hstart.symm.trans (start_sequenceElement hw hlt')
      have hdrop : (sequenceElement body).bytes.drop e.octets = body :=
        congrArg ElementLoop.pMidData (ok.inj hsame)
      rw [hdrop]
      rfl

/-- The number 5 in a sequence with a length octet too many. -/
theorem readSequence_rewrites_longLength : ∃ last vs der,
    NodeHeap.IsList [⟨⟨[2, 1, 5], 3, 0, 2⟩, none, none⟩] (some 0) last vs ∧
      derItAsn1WriteSequence Platform.x64.ulongBits vs = ok der ∧
      derItAsn1ReadSequence Platform.x64.ulongBits der =
        ok (some 0, [⟨⟨[2, 1, 5], 3, 0, 2⟩, none, none⟩]) ∧
      (der.pData = [0x30, 0x81, 3, 2, 1, 5] ↔
        ∃ body : Bytes, body.length < 2 ^ 31 ∧
          [0x30, 0x81, 3, 2, 1, 5] = (sequenceElement body).bytes) := by
  have hread : derItAsn1ReadSequence Platform.x64.ulongBits ⟨[0x30, 0x81, 3, 2, 1, 5], 6, 0, 16⟩ =
      ok (some 0, [⟨⟨[2, 1, 5], 3, 0, 2⟩, none, none⟩]) := by
    decide +kernel
  exact readSequence_rewrites hread

end Linked

end SafeTransmission
