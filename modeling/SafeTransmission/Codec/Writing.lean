import SafeTransmission.Asn1.Writers
import SafeTransmission.Codec.Messages

/-!
# What `msgEncode` writes

Each member of a message becomes one element (`memberElement`), if it can be
written: an integer must not be negative, and a string must end inside the
message.  `msgEncode` puts the elements of the members into a sequence
(`msgEncode_eq`).

## Strategy

* `Written` says that a list of nodes carries certain elements, and that the last node is the
  current one.  Each writer adds one node to it (`Written.writeNextNodeInt`,
  `Written.writeNextNodeStr`), and `writeMembers_eq` is the induction.
* A negative integer is refused by its writer and nobody notices: at the head nothing is encoded
  (`msgEncode_of_neg_head`), at the end one element is missing (`msgEncode_of_neg_last`).
-/

namespace SafeTransmission

open Outcome

/-- The contents of the element that is made of a string: with its NUL, but
without the octet of unused bits. -/
def stringElement (g : Generation) (s : Bytes) : Tlv :=
  match g with
  | .seckey => printableElement s
  | .op => bitStringElement s

theorem length_stringElement (g : Generation) {s : Bytes} (hs : s.length + 1 < 2 ^ 32) :
    (stringElement g s).bytes.length ≤ s.length + 7 := by
  have hcount := countLengthOfSize_le (n := s.length) (by omega)
  have hcount' := countLengthOfSize_le hs
  cases g with
  | seckey =>
      simp only [stringElement, printableElement, Tlv.length_bytes, List.length_singleton,
        length_writtenLength (n := s.length) (by omega)]
      omega
  | op =>
      simp only [stringElement, bitStringElement, Tlv.length_bytes, List.length_cons,
        List.length_nil, length_writtenLength hs]
      omega

/-- The element that is written for a member. -/
def memberElement {n : ℕ} (g : Generation) (msg : CObject n) (m : Member) : Tlv :=
  match m.kind with
  | .int => integerElement (msg.int m.off).toNat
  | .chars => stringElement g (msg.str m.off ++ [0])

/-- The member can be written. -/
def Writable {n : ℕ} (msg : CObject n) (m : Member) : Prop :=
  match m.kind with
  | .int => 0 ≤ msg.int m.off
  | .chars => 0 ∈ msg.ptr m.off

instance {n : ℕ} (msg : CObject n) (m : Member) : Decidable (Writable msg m) :=
  match h : m.kind with
  | .int => decidable_of_iff (0 ≤ msg.int m.off) (by rw [Writable, h])
  | .chars => decidable_of_iff (0 ∈ msg.ptr m.off) (by rw [Writable, h])

/-! ## One member -/

theorem ulongOfInt_of_nonneg {v : ℤ} (hlow : 0 ≤ v) (hhigh : v < 2 ^ 31) :
    ulongOfInt v = v.toNat := by
  rw [ulongOfInt, Int.emod_eq_of_lt hlow (hhigh.trans (by norm_num))]

theorem ulongOfInt_of_neg {v : ℤ} (hlow : -2 ^ 31 ≤ v) (hneg : v < 0) : 2 ^ 32 ≤ ulongOfInt v := by
  unfold ulongOfInt longBits
  omega

theorem CObject.int_toNat_lt {n : ℕ} (o : CObject n) (off : ℕ) : (o.int off).toNat < 2 ^ 32 := by
  have hlt : ∀ {v : ℤ}, v < 2 ^ 31 → v.toNat < 2 ^ 32 := by omega
  exact hlt (toInt32_range _).2

theorem writeInteger_member {n : ℕ} {msg : CObject n} {off : ℕ} (h : 0 ≤ msg.int off) :
    ∃ node, derItAsn1WriteInteger (ulongOfInt (msg.int off)) = ok node ∧
      Carries node (integerElement (msg.int off).toNat) := by
  have hlt : msg.int off < 2 ^ 31 := (toInt32_range _).2
  rw [ulongOfInt_of_nonneg h hlt]
  exact writeInteger_eq (msg.int_toNat_lt off)

theorem memcpy_cString {p : Bytes} (hp : 0 ∈ p) :
    memcpy p ((cString p).length + 1) = ok (cString p ++ [0]) := by
  obtain ⟨rest, hrest⟩ := exists_eq_cString_append hp
  have hsplit : p = (cString p ++ [0]) ++ rest := by
    rw [List.append_assoc, List.singleton_append]
    exact hrest
  conv_lhs => arg 1; rw [hsplit]
  exact memcpy_append (by simp) rest

theorem stringNode_eq (g : Generation) {p : Bytes} (hp : 0 ∈ p) (hlt : p.length < 2 ^ 30) :
    ∃ node, SequenceASN1.stringNode g p ((cString p).length + 1) = ok node ∧
      Carries node (stringElement g (cString p ++ [0])) := by
  have hlen := length_cString_lt hp
  have hnode : derItcastStringToAnyBuf p ((cString p).length + 1) =
      ok ⟨cString p ++ [0], (cString p ++ [0]).length, (cString p ++ [0]).length % 8,
        DerTag.stringPrintable⟩ := by
    have hnat : ((cString p).length + 1 : ℤ).toNat = (cString p).length + 1 := by omega
    simp [derItcastStringToAnyBuf, hnat, memcpy_cString hp]
  have hlength : (cString p ++ [0]).length + 1 < 2 ^ 31 := by simp; omega
  cases g with
  | seckey =>
      obtain ⟨node, hwrite, hcarries⟩ :=
        writeCharString_eq (w := longBits) (s := cString p ++ [0]) (by norm_num) (by omega)
      have hguard : ¬ (p = [] ∧ ((cString p).length + 1 : ℤ) ≠ 0 ∨
          p ≠ [] ∧ ((cString p).length + 1 : ℤ) = 0) := by
        rintro (⟨rfl, -⟩ | ⟨-, hzero⟩)
        · simp at hp
        · omega
      refine ⟨node, ?_, hcarries⟩
      rw [SequenceASN1.stringNode, encodeChar, if_neg hguard, hnode, ok_bind,
        derItAsn1WritePrintableString, if_neg (show ¬ DerTag.stringPrintable = DerTag.stringBmp by decide),
        hwrite]
  | op =>
      obtain ⟨node, hwrite, hcarries⟩ :=
        writeBitString_eq (w := longBits) (s := cString p ++ [0]) (by norm_num) hlength
      exact ⟨node, by rw [SequenceASN1.stringNode, hnode, ok_bind, hwrite], hcarries⟩

namespace SequenceASN1

/-- The nodes written so far carry the elements, and `m_next` is at the last one. -/
structure Written (s : SequenceASN1) (ts : List Tlv) : Prop where
  carries : List.Forall₂ Carries s.mHeader ts
  mNext : ∃ i, s.mNext = some i ∧ i + 1 = s.mHeader.length

theorem written_singleton {node : AnyBuf} {t : Tlv} (h : Carries node t) :
    Written ⟨[node], some 0⟩ [t] :=
  ⟨.cons h .nil, 0, rfl, rfl⟩

/-- A node linked behind the last one carries the next element. -/
theorem Written.link {s : SequenceASN1} {ts : List Tlv} (hs : s.Written ts) {node : AnyBuf} {t : Tlv}
    (h : Carries node t) : ∃ s', s.link node = ok s' ∧ s'.Written (ts ++ [t]) := by
  obtain ⟨i, hi, hlast⟩ := hs.mNext
  refine ⟨_, by rw [SequenceASN1.link, hi], ?_, i + 1, rfl, ?_⟩
  · rw [hlast, List.take_length]
    exact List.rel_append hs.carries (.cons h .nil)
  · simp [hlast]

section Writers

variable {g : Generation} {s : SequenceASN1} {v : ℤ} {p : Bytes} {len : ℤ} {node : AnyBuf} {t : Tlv}
  {ts : List Tlv}

theorem Written.writeHeadNodeInt (h : derItAsn1WriteInteger (ulongOfInt v) = ok node)
    (hcarries : Carries node t) : ∃ s', s.writeHeadNodeInt g v = ok (0, s') ∧ s'.Written [t] :=
  ⟨_, by rw [SequenceASN1.writeHeadNodeInt.eq_def, h], written_singleton hcarries⟩

theorem Written.writeHeadNodeStr (h : stringNode g p len = ok node) (hcarries : Carries node t) :
    ∃ s', s.writeHeadNodeStr g p len = ok (0, s') ∧ s'.Written [t] :=
  ⟨_, by rw [SequenceASN1.writeHeadNodeStr.eq_def, h], written_singleton hcarries⟩

theorem Written.writeNextNodeInt (hs : s.Written ts)
    (h : derItAsn1WriteInteger (ulongOfInt v) = ok node) (hcarries : Carries node t) :
    ∃ s', s.writeNextNodeInt g v = ok (0, s') ∧ s'.Written (ts ++ [t]) := by
  obtain ⟨s', hlink, hs'⟩ := hs.link hcarries
  exact ⟨s', by simp [SequenceASN1.writeNextNodeInt, h, hlink], hs'⟩

theorem Written.writeNextNodeStr (hs : s.Written ts) (h : stringNode g p len = ok node)
    (hcarries : Carries node t) :
    ∃ s', s.writeNextNodeStr g p len = ok (0, s') ∧ s'.Written (ts ++ [t]) := by
  obtain ⟨s', hlink, hs'⟩ := hs.link hcarries
  exact ⟨s', by simp [SequenceASN1.writeNextNodeStr, h, hlink], hs'⟩

/-- A refused integer leaves a new object without a header. -/
theorem writeHeadNodeInt_err {code : ℤ} (h : derItAsn1WriteInteger (ulongOfInt v) = err code) :
    ∃ ret, empty.writeHeadNodeInt g v = ok (ret, empty) := by
  cases g with
  | seckey => exact ⟨-1, by rw [writeHeadNodeInt.eq_def, h]⟩
  | op => exact ⟨0, by rw [writeHeadNodeInt.eq_def, h]; rfl⟩

/-- Without a header there is no node to link the next one to. -/
theorem writeNextNodeStr_empty (h : stringNode g p len = ok node) :
    empty.writeNextNodeStr g p len = fault .nullDeref := by
  rw [writeNextNodeStr.eq_def, h]
  rfl

/-- A refused integer adds no node. -/
theorem Written.writeNextNodeInt_err {code : ℤ} (hs : s.Written ts)
    (h : derItAsn1WriteInteger (ulongOfInt v) = err code) :
    ∃ ret s', s.writeNextNodeInt g v = ok (ret, s') ∧ s'.mHeader = s.mHeader := by
  obtain ⟨i, hi, -⟩ := hs.mNext
  cases g with
  | seckey => exact ⟨-1, s, by rw [SequenceASN1.writeNextNodeInt.eq_def, h], rfl⟩
  | op =>
      exact ⟨0, { s with mNext := s.pointerTo (i + 1) },
        by simp [SequenceASN1.writeNextNodeInt.eq_def, h, advance, hi], rfl⟩

end Writers

end SequenceASN1

namespace Codec

variable {n : ℕ} {g : Generation} {msg : CObject n} {m : Member}

open SequenceASN1

theorem writeMember_first (hn : n < 2 ^ 30) (h : Writable msg m) (s : SequenceASN1) :
    ∃ s', writeMember g msg true m s = ok (0, s') ∧ s'.Written [memberElement g msg m] := by
  unfold Writable at h
  unfold writeMember memberElement
  cases hkind : m.kind with
  | int =>
      rw [hkind] at h
      obtain ⟨node, hnode, hcarries⟩ := writeInteger_member h
      simp only [reduceIte]
      exact Written.writeHeadNodeInt hnode hcarries
  | chars =>
      rw [hkind] at h
      have hlength := msg.length_ptr m.off
      obtain ⟨node, hnode, hcarries⟩ := stringNode_eq g h (by omega)
      simp only [strlen, if_pos h, ok_bind]
      exact Written.writeHeadNodeStr hnode hcarries

theorem writeMember_next (hn : n < 2 ^ 30) (h : Writable msg m) {s : SequenceASN1} {ts : List Tlv}
    (hs : s.Written ts) :
    ∃ s', writeMember g msg false m s = ok (0, s') ∧ s'.Written (ts ++ [memberElement g msg m]) := by
  unfold Writable at h
  unfold writeMember memberElement
  cases hkind : m.kind with
  | int =>
      rw [hkind] at h
      obtain ⟨node, hnode, hcarries⟩ := writeInteger_member h
      simp only [Bool.false_eq_true, reduceIte]
      exact hs.writeNextNodeInt hnode hcarries
  | chars =>
      rw [hkind] at h
      have hlength := msg.length_ptr m.off
      obtain ⟨node, hnode, hcarries⟩ := stringNode_eq g h (by omega)
      simp only [strlen, if_pos h, ok_bind]
      exact hs.writeNextNodeStr hnode hcarries

/-! ## All members -/

theorem writeMembers_next (hn : n < 2 ^ 30) {ms : List Member} (h : ∀ m ∈ ms, Writable msg m)
    {s : SequenceASN1} {ts : List Tlv} (hs : s.Written ts) :
    ∃ s', writeMembers g msg false ms s = ok s' ∧ s'.Written (ts ++ ms.map (memberElement g msg)) := by
  induction ms generalizing s ts with
  | nil => exact ⟨s, rfl, by simpa using hs⟩
  | cons m ms ih =>
      obtain ⟨s₁, hwrite, hs₁⟩ := writeMember_next (g := g) hn (h m List.mem_cons_self) hs
      obtain ⟨s', hrest, hs'⟩ := ih (fun m' hm' => h m' (List.mem_cons_of_mem _ hm')) hs₁
      exact ⟨s', by simp only [writeMembers, hwrite, ok_bind, hrest], by simpa using hs'⟩

theorem writeMembers_eq (hn : n < 2 ^ 30) {ms : List Member} (hne : ms ≠ [])
    (h : ∀ m ∈ ms, Writable msg m) (s : SequenceASN1) :
    ∃ s', writeMembers g msg true ms s = ok s' ∧ s'.Written (ms.map (memberElement g msg)) := by
  cases ms with
  | nil => exact absurd rfl hne
  | cons m ms =>
      obtain ⟨s₁, hwrite, hs₁⟩ := writeMember_first (g := g) hn (h m List.mem_cons_self) s
      obtain ⟨s', hrest, hs'⟩ := writeMembers_next hn (fun m' hm' => h m' (List.mem_cons_of_mem _ hm')) hs₁
      exact ⟨s', by simp only [writeMembers, hwrite, ok_bind, hrest], hs'⟩

theorem packSequence_eq {s : SequenceASN1} {ts : List Tlv} (hs : List.Forall₂ Carries s.mHeader ts)
    (hlt : (ts.flatMap Tlv.bytes).length < 2 ^ 30) :
    s.packSequence g = ok (sequenceOctets ts, ((sequenceOctets ts).length : ℤ)) := by
  obtain ⟨node, hnode, hdata, hlen⟩ := writeSequence_eq (w := longBits) (by norm_num) hs (by omega)
  have hlength := length_sequenceOctets ts (by omega)
  have hint : toInt32 node.dataLen = (sequenceOctets ts).length := by
    rw [hlen, toInt32_of_range (by omega) (by omega)]
  simp only [packSequence, hnode, ok_bind, hint]
  cases g with
  | seckey => simp only [hdata]
  | op => simp only [hdata, hlen, memcpy_self, ok_bind]

theorem length_str_le {off : ℕ} (h : 0 ∈ msg.ptr off) : (msg.str off ++ [0]).length ≤ n := by
  have hstr := length_cString_lt h
  have hptr := msg.length_ptr off
  simp only [CObject.str, List.length_append, List.length_singleton]
  omega

theorem length_memberElement (hn : n < 2 ^ 30) (h : Writable msg m) :
    (memberElement g msg m).bytes.length ≤ n + 16 := by
  unfold Writable at h
  unfold memberElement
  cases hkind : m.kind with
  | int =>
      have hlen := (intToChar_eq (msg.int_toNat_lt m.off)).2.2.2
      simp only [integerElement, Tlv.length_bytes, List.length_singleton]
      exact le_trans (by omega) (Nat.le_add_left 16 n)
  | chars =>
      rw [hkind] at h
      have hs := length_str_le h
      exact (length_stringElement g (by omega)).trans (by omega)

theorem length_elements_le {ms : List Member} (hn : n < 2 ^ 30) (h : ∀ m ∈ ms, Writable msg m) :
    ((ms.map (memberElement g msg)).flatMap Tlv.bytes).length ≤ ms.length * (n + 16) := by
  rw [List.length_flatMap, List.map_map]
  refine (List.sum_le_card_nsmul _ (n + 16) fun k hk => ?_).trans (by simp)
  obtain ⟨m, hm, rfl⟩ := List.mem_map.mp hk
  exact length_memberElement hn (h m hm)

/-- The octets that `msgEncode` produces for the members `ms`. -/
def encoded (g : Generation) (ms : List Member) (msg : CObject n) : Bytes :=
  sequenceOctets (ms.map (memberElement g msg))

/-- `msgEncode` writes the sequence of the elements of its members. -/
theorem msgEncode_eq {ms : List Member} (hne : ms ≠ []) (hsize : ms.length * (n + 16) < 2 ^ 30)
    (h : ∀ m ∈ ms, Writable msg m) (s : SequenceASN1) :
    msgEncode ms g ⟨s, msg⟩ = ok (encoded g ms msg, ((encoded g ms msg).length : ℤ)) := by
  have hpos : 1 ≤ ms.length := List.length_pos_of_ne_nil hne
  have hn : n < 2 ^ 30 := by nlinarith
  obtain ⟨s', hwrite, hs'⟩ := writeMembers_eq (g := g) hn hne h s
  have hlength := length_elements_le (g := g) hn h
  simp only [msgEncode, hwrite, ok_bind]
  exact packSequence_eq hs'.carries (by omega)

/-! ## A negative integer -/

theorem writeInteger_neg {off : ℕ} (h : msg.int off < 0) :
    derItAsn1WriteInteger (ulongOfInt (msg.int off)) = err DerErrType.dataRangeErr :=
  writeInteger_of_le (ulongOfInt_of_neg (toInt32_range _).1 h)

/-- A message that begins with a negative integer is not encoded: there is no header
to link the next element to. -/
theorem msgEncode_of_neg_head {m' : Member} {ms : List Member} (hn : n < 2 ^ 30)
    (hint : m.kind = .int) (hneg : msg.int m.off < 0) (hchars : m'.kind = .chars)
    (h : Writable msg m') : msgEncode (m :: m' :: ms) g ⟨.empty, msg⟩ = fault .nullDeref := by
  rw [Writable, hchars] at h
  have hlength := msg.length_ptr m'.off
  obtain ⟨node, hnode, -⟩ := stringNode_eq g h (by omega)
  obtain ⟨ret, hhead⟩ := writeHeadNodeInt_err (g := g) (writeInteger_neg hneg)
  have hfirst : writeMember g msg true m .empty = ok (ret, .empty) := by
    simp only [writeMember, hint, reduceIte]
    exact hhead
  have hsecond : writeMember g msg false m' .empty = fault .nullDeref := by
    simp only [writeMember, hchars, strlen, if_pos h, ok_bind]
    exact writeNextNodeStr_empty hnode
  simp only [msgEncode, writeMembers, hfirst, hsecond, ok_bind, fault_bind]

theorem writeMembers_append (ms ms' : List Member) (first : Bool) (s : SequenceASN1) :
    writeMembers g msg first (ms ++ ms') s = (do
      let s ← writeMembers g msg first ms s
      writeMembers g msg (first && ms.isEmpty) ms' s) := by
  induction ms generalizing first s with
  | nil => simp [writeMembers]
  | cons m ms ih =>
      simp only [List.cons_append, writeMembers, List.isEmpty_cons, Bool.and_false]
      cases writeMember g msg first m s with
      | ok out => simp only [ok_bind, ih, Bool.false_and]
      | err code => rfl
      | fault kind => rfl

/-- The element of a negative integer at the end is left out. -/
theorem msgEncode_of_neg_last {ms : List Member} (hne : ms ≠ [])
    (hsize : ms.length * (n + 16) < 2 ^ 30) (h : ∀ m ∈ ms, Writable msg m) (hint : m.kind = .int)
    (hneg : msg.int m.off < 0) (s : SequenceASN1) :
    msgEncode (ms ++ [m]) g ⟨s, msg⟩ = ok (encoded g ms msg, ((encoded g ms msg).length : ℤ)) := by
  have hpos : 1 ≤ ms.length := List.length_pos_of_ne_nil hne
  have hn : n < 2 ^ 30 := by nlinarith
  obtain ⟨s', hwrite, hs'⟩ := writeMembers_eq (g := g) hn hne h s
  obtain ⟨ret, s'', hnext, hheader⟩ := hs'.writeNextNodeInt_err (g := g) (writeInteger_neg hneg)
  have hlast : writeMember g msg false m s' = ok (ret, s'') := by
    simp only [writeMember, hint, Bool.false_eq_true, reduceIte]
    exact hnext
  have hempty : ms.isEmpty = false := by simpa using hne
  have hlength := length_elements_le (g := g) hn h
  simp only [msgEncode, writeMembers_append, hwrite, ok_bind, hempty, Bool.and_false, writeMembers,
    hlast]
  exact packSequence_eq (hheader ▸ hs'.carries) (by omega)

end Codec

end SafeTransmission
