import SafeTransmission.Asn1.Contents
import SafeTransmission.Codec.Layout

/-!
# What `msgDecode` makes of a sequence

The readers of `SequenceASN1` walk along the node list through `m_next`.  Seen
from the nodes that are still ahead (`remaining`), each of them takes one node
and stores its value, and `msgDecode` stores the values of the first nodes into
the members in turn (`readMembers_eq`, `msgDecode_eq`).

`Supplies` pairs members, nodes and values; the nodes of a sequence supply what
its elements hold (`supplies_node_iff`).
-/

namespace SafeTransmission

open Outcome

/-- The bytes that the reader for a member stores for a node. -/
def nodeValue (g : Generation) (kind : MemberKind) (node : AnyBuf) : Outcome Bytes :=
  match kind with
  | .int => do
      let number ← derItAsn1ReadInteger longBits node
      ok (SequenceASN1.storedInt g number)
  | .chars => do
      let temp ← SequenceASN1.readString g node
      memcpy temp.pData temp.dataLen

/-- `R` holds between the members, as many of the `xs`, and the values. -/
inductive Supplies {α : Type} (R : MemberKind → α → Bytes → Prop) :
    List Member → List α → List Bytes → Prop where
  | nil (xs : List α) : Supplies R [] xs []
  | cons {m : Member} {ms : List Member} {x : α} {xs : List α} {d : Bytes} {ds : List Bytes}
      (h : R m.kind x d) (hrest : Supplies R ms xs ds) : Supplies R (m :: ms) (x :: xs) (d :: ds)

/-- The values are what the readers store for the nodes. -/
abbrev NodesSupply (g : Generation) : List Member → List AnyBuf → List Bytes → Prop :=
  Supplies fun kind node d => nodeValue g kind node = ok d

namespace SequenceASN1

/-! ## The nodes ahead -/

/-- The nodes from `m_next` on. -/
def remaining (s : SequenceASN1) : List AnyBuf :=
  match s.mNext with
  | none => []
  | some i => s.mHeader.drop i

/-- The nodes that the next reader sees: a head reader starts over. -/
def ahead (s : SequenceASN1) (first : Bool) : List AnyBuf :=
  if first then s.mHeader else s.remaining

variable {s : SequenceASN1} {node : AnyBuf} {rest : List AnyBuf} {g : Generation}

theorem remaining_pointerTo (s : SequenceASN1) (i : ℕ) :
    remaining { s with mNext := s.pointerTo i } = s.mHeader.drop i := by
  unfold remaining pointerTo
  by_cases h : i < s.mHeader.length
  · simp [h]
  · simp [h, List.drop_eq_nil_of_le (not_lt.mp h)]

theorem current_of_remaining (h : s.remaining = node :: rest) : s.current = ok node := by
  unfold remaining at h
  unfold current
  cases hnext : s.mNext with
  | none => simp [hnext] at h
  | some i =>
      simp only [hnext] at h
      have hnode : s.mHeader[i]? = some node := by
        rw [← List.head?_drop, h, List.head?_cons]
      simp [hnode]

theorem current_of_remaining_nil (h : s.remaining = []) : s.current = fault .nullDeref := by
  unfold remaining at h
  unfold current
  cases hnext : s.mNext with
  | none => rfl
  | some i =>
      simp only [hnext] at h
      have hnode : s.mHeader[i]? = none := by
        rw [← List.head?_drop, h, List.head?_nil]
      simp [hnode]

theorem advance_of_remaining (h : s.remaining = node :: rest) :
    ∃ s', s.advance = ok s' ∧ s'.remaining = rest := by
  unfold advance
  cases hnext : s.mNext with
  | none => simp [remaining, hnext] at h
  | some i =>
      refine ⟨_, rfl, ?_⟩
      rw [remaining_pointerTo, ← List.drop_drop]
      simp only [remaining, hnext] at h
      rw [h, List.drop_one, List.tail_cons]

end SequenceASN1

namespace Codec

variable {g : Generation} {n : ℕ}

/-! ## The readers -/

theorem readMember_eq {first : Bool} {m : Member} {s : SequenceASN1} {node : AnyBuf}
    {rest : List AnyBuf} {d : Bytes} (hahead : s.ahead first = node :: rest)
    (hvalue : nodeValue g m.kind node = ok d) :
    ∃ s', readMember g first m s = ok ⟨0, d, s'⟩ ∧ s'.remaining = rest := by
  cases first with
  | true =>
      replace hahead : s.mHeader = node :: rest := hahead
      refine ⟨{ s with mNext := s.pointerTo 1 }, ?_, ?_⟩
      · unfold readMember
        cases hkind : m.kind with
        | int =>
            rw [hkind, nodeValue] at hvalue
            obtain ⟨number, hnumber, hd⟩ := bind_eq_ok.mp hvalue
            simp only [reduceIte, SequenceASN1.readHeadNodeInt, hahead, hnumber, ← ok.inj hd]
        | chars =>
            rw [hkind, nodeValue] at hvalue
            obtain ⟨temp, htemp, hd⟩ := bind_eq_ok.mp hvalue
            simp only [reduceIte, SequenceASN1.readHeadNodeStr, hahead, htemp, hd, ok_bind]
      · rw [SequenceASN1.remaining_pointerTo, hahead, List.drop_one, List.tail_cons]
  | false =>
      replace hahead : s.remaining = node :: rest := hahead
      obtain ⟨s', hadvance, hs'⟩ := SequenceASN1.advance_of_remaining hahead
      refine ⟨s', ?_, hs'⟩
      unfold readMember
      cases hkind : m.kind with
      | int =>
          rw [hkind, nodeValue] at hvalue
          obtain ⟨number, hnumber, hd⟩ := bind_eq_ok.mp hvalue
          simp [SequenceASN1.readNextNodeInt, SequenceASN1.current_of_remaining hahead, hnumber,
            hadvance, ← ok.inj hd]
      | chars =>
          rw [hkind, nodeValue] at hvalue
          obtain ⟨temp, htemp, hd⟩ := bind_eq_ok.mp hvalue
          simp [SequenceASN1.readNextNodeStr, SequenceASN1.current_of_remaining hahead, htemp,
            hadvance, hd]

theorem readMember_of_fault {first : Bool} {m : Member} {s : SequenceASN1} {node : AnyBuf}
    {rest : List AnyBuf} {kind : Fault} (hahead : s.ahead first = node :: rest)
    (hvalue : nodeValue g m.kind node = fault kind) : readMember g first m s = fault kind := by
  unfold readMember
  cases first with
  | true =>
      replace hahead : s.mHeader = node :: rest := hahead
      cases hkind : m.kind with
      | int =>
          rw [hkind, nodeValue] at hvalue
          cases hread : derItAsn1ReadInteger longBits node <;> rw [hread] at hvalue <;>
            simp_all [SequenceASN1.readHeadNodeInt]
      | chars =>
          rw [hkind, nodeValue] at hvalue
          cases hread : SequenceASN1.readString g node <;> rw [hread] at hvalue <;>
            simp_all [SequenceASN1.readHeadNodeStr]
  | false =>
      have hcurrent := SequenceASN1.current_of_remaining hahead
      cases hkind : m.kind with
      | int =>
          rw [hkind, nodeValue] at hvalue
          cases hread : derItAsn1ReadInteger longBits node <;> rw [hread] at hvalue <;>
            simp_all [SequenceASN1.readNextNodeInt]
      | chars =>
          rw [hkind, nodeValue] at hvalue
          cases hread : SequenceASN1.readString g node <;> rw [hread] at hvalue <;>
            simp_all [SequenceASN1.readNextNodeStr]

theorem readMember_of_nil {first : Bool} {m : Member} {s : SequenceASN1}
    (hahead : s.ahead first = []) : readMember g first m s = fault .nullDeref := by
  unfold readMember
  cases first with
  | true =>
      replace hahead : s.mHeader = [] := hahead
      cases m.kind <;> simp [SequenceASN1.readHeadNodeInt, SequenceASN1.readHeadNodeStr, hahead]
  | false =>
      have hcurrent := SequenceASN1.current_of_remaining_nil hahead
      cases m.kind <;> simp [SequenceASN1.readNextNodeInt, SequenceASN1.readNextNodeStr, hcurrent]

/-- The readers store the values of the nodes ahead, and go on behind them. -/
theorem readMembers_append {ms : List Member} {nodes : List AnyBuf} {ds : List Bytes}
    (hsupply : NodesSupply g ms nodes ds) (ms' : List Member) {first : Bool} {s : SequenceASN1}
    (hahead : s.ahead first = nodes) :
    ∃ s', s'.ahead (first && ms.isEmpty) = nodes.drop ms.length ∧
      ∀ msg : CObject n, readMembers g first (ms ++ ms') s msg = (do
        let msg ← storeAll ms ds msg
        let (msg, reads) ← readMembers g (first && ms.isEmpty) ms' s' msg
        ok (msg, ds.map (0, ·) ++ reads)) := by
  induction hsupply generalizing first s with
  | nil nodes =>
      refine ⟨s, by simpa using hahead, fun msg => ?_⟩
      simp only [List.nil_append, storeAll, ok_bind, List.isEmpty_nil, Bool.and_true, List.map_nil]
      cases readMembers g first ms' s msg <;> rfl
  | @cons m ms node rest d ds hvalue hrest ih =>
      obtain ⟨s₁, hread, hs₁⟩ := readMember_eq hahead hvalue
      have hs₁ : s₁.ahead false = rest := hs₁
      obtain ⟨s', hs', hmore⟩ := ih hs₁
      refine ⟨s', by simpa using hs', fun msg => ?_⟩
      simp only [Bool.false_and] at hmore
      simp only [List.cons_append, readMembers, hread, ok_bind, storeAll, List.isEmpty_cons,
        Bool.and_false]
      cases msg.store m.off d with
      | err code => rfl
      | fault kind => rfl
      | ok msg₁ =>
          simp only [ok_bind, hmore]
          cases storeAll ms ds msg₁ with
          | err code => rfl
          | fault kind => rfl
          | ok msg₂ =>
              simp only [ok_bind]
              cases readMembers g false ms' s' msg₂ <;> rfl

theorem readMembers_eq {ms : List Member} {nodes : List AnyBuf} {ds : List Bytes}
    (hsupply : NodesSupply g ms nodes ds) {first : Bool} {s : SequenceASN1}
    (hahead : s.ahead first = nodes) (msg : CObject n) :
    readMembers g first ms s msg = (do
      let msg ← storeAll ms ds msg
      ok (msg, ds.map (0, ·))) := by
  obtain ⟨s', -, hread⟩ := readMembers_append (n := n) hsupply [] hahead
  rw [List.append_nil] at hread
  rw [hread]
  simp only [readMembers, ok_bind, List.append_nil]

theorem unpackSequence_of_nodes {b : Bytes} {nodes : List AnyBuf}
    (h : derItAsn1ReadSequence longBits (ofBytes b) = ok nodes) :
    SequenceASN1.empty.unpackSequence b b.length = ok ⟨nodes, none⟩ := by
  simp only [SequenceASN1.unpackSequence, stringToAnyBuf_self, ok_bind, h]
  rfl

/-- `msgDecode` of a codec without nodes stores the values of the nodes it finds. -/
theorem msgDecode_eq {ms : List Member} {nodes : List AnyBuf} {ds : List Bytes} {b : Bytes}
    (h : derItAsn1ReadSequence longBits (ofBytes b) = ok nodes) (hsupply : NodesSupply g ms nodes ds)
    (msg : CObject n) :
    msgDecode ms g ⟨.empty, msg⟩ b b.length = (do
      let msg ← storeAll ms ds msg
      ok ⟨some msg, ds.map (0, ·)⟩) := by
  have hahead : (⟨nodes, none⟩ : SequenceASN1).ahead true = nodes := rfl
  simp only [msgDecode, unpackSequence_of_nodes h, ok_bind,
    readMembers_eq hsupply hahead]
  cases storeAll ms ds msg <;> rfl

end Codec

/-! ## Elements instead of nodes -/

/-- What the reader for a member makes of an element. -/
def Tlv.Gives (g : Generation) (kind : MemberKind) (t : Tlv) (d : Bytes) : Prop :=
  match kind with
  | .int => ∃ number, t.HoldsInteger number ∧ d = SequenceASN1.storedInt g (number % 2 ^ longBits)
  | .chars => t.HoldsString d

/-- The values are what the readers make of the elements. -/
abbrev ElementsSupply (g : Generation) : List Member → List Tlv → List Bytes → Prop :=
  Supplies (Tlv.Gives g)

theorem Tlv.Reads.nodeValue_iff {g : Generation} {kind : MemberKind} {t : Tlv} {rest d : Bytes}
    (h : t.Reads longBits rest) (hlt : t.bytes.length < 2 ^ 31) :
    nodeValue g kind t.node = ok d ↔ t.Gives g kind d := by
  cases kind with
  | int =>
      rcases h.readInteger_cases (by norm_num) with ⟨number, hnumber, hread⟩ | ⟨hnot, hread⟩
      · simp only [nodeValue, hread, ok_bind, ok.injEq, Tlv.Gives]
        constructor
        · rintro rfl
          exact ⟨number, hnumber, rfl⟩
        · rintro ⟨number', hnumber', rfl⟩
          rw [hnumber.value, hnumber'.value]
      · simp only [nodeValue, hread, fault_bind, Tlv.Gives]
        simp [hnot]
  | chars =>
      have hread : ∀ node, SequenceASN1.readString g node = readTlv longBits node := by
        cases g <;> exact fun _ => rfl
      simp only [nodeValue, hread, Tlv.Gives]
      rcases h.readTlv_cases (by norm_num) hlt with ⟨s, hs, hread⟩ | ⟨hnot, hread⟩
      · rw [hread, ok_bind, memcpy_self, ok.injEq]
        constructor
        · rintro rfl
          exact hs
        · exact hs.unique
      · rcases hread with ⟨-, hread⟩ | ⟨-, hread⟩ <;> simp [hread, hnot]

/-- The nodes of elements that stand one after the other supply what the elements hold. -/
theorem supplies_node_iff {g : Generation} {ms : List Member} {p : Bytes} {ts : List Tlv}
    {ds : List Bytes} (hsplit : Splits longBits p ts) (hp : p.length < 2 ^ 31) :
    NodesSupply g ms (ts.map Tlv.node) ds ↔ ElementsSupply g ms ts ds := by
  induction hsplit generalizing ms ds with
  | nil =>
      constructor <;>
        · intro h
          cases h
          exact .nil _
  | @cons t rest ts hread hrest ih =>
      rw [List.length_append] at hp
      have hvalue : ∀ kind d, nodeValue g kind t.node = ok d ↔ t.Gives g kind d :=
        fun _ _ => hread.nodeValue_iff (by omega)
      constructor
      · intro h
        cases h with
        | nil => exact .nil _
        | cons h hmore => exact .cons ((hvalue _ _).mp h) ((ih (by omega)).mp hmore)
      · intro h
        cases h with
        | nil => exact .nil _
        | cons h hmore => exact .cons ((hvalue _ _).mpr h) ((ih (by omega)).mpr hmore)

theorem IsSequence.exists_splits {w : ℕ} {b : Bytes} {ts : List Tlv} (h : IsSequence w b ts) :
    ∃ p, p.length < b.length ∧ Splits w p ts := by
  obtain @⟨ident, l, content, _, -, -, -, hsplit⟩ := h
  exact ⟨content, by simp, hsplit⟩

/-- `msgDecode` of a codec without nodes stores what the elements of a sequence hold. -/
theorem Codec.msgDecode_of_elements {g : Generation} {n : ℕ} {ms : List Member} {b : Bytes}
    {ts : List Tlv} {ds : List Bytes} (hseq : IsSequence longBits b ts) (hb : b.length < 2 ^ 31)
    (hsupply : ElementsSupply g ms ts ds) (msg : CObject n) :
    msgDecode ms g ⟨.empty, msg⟩ b b.length = (do
      let msg ← storeAll ms ds msg
      ok ⟨some msg, ds.map (0, ·)⟩) := by
  obtain ⟨p, hp, hsplit⟩ := hseq.exists_splits
  exact msgDecode_eq (readSequence_of_isSequence (by norm_num) hseq hb)
    ((supplies_node_iff hsplit (by omega)).mpr hsupply) msg

/-- `msgDecode` of a sequence with an element too few follows a null pointer, unless
a copy left the message before. -/
theorem Codec.msgDecode_of_missing {g : Generation} {n : ℕ} {ms : List Member} {m : Member}
    {b : Bytes} {ts : List Tlv} {ds : List Bytes} (hseq : IsSequence longBits b ts)
    (hb : b.length < 2 ^ 31) (hsupply : ElementsSupply g ms ts ds) (hlen : ts.length = ms.length)
    (msg : CObject n) (d : Decoded n) :
    msgDecode (ms ++ [m]) g ⟨.empty, msg⟩ b b.length ≠ ok d := by
  obtain ⟨p, hp, hsplit⟩ := hseq.exists_splits
  have hnodes := readSequence_of_isSequence (w := longBits) (by norm_num) hseq hb
  have hahead : (⟨ts.map Tlv.node, none⟩ : SequenceASN1).ahead true = ts.map Tlv.node := rfl
  obtain ⟨s', hs', hread⟩ := readMembers_append (n := n)
    ((supplies_node_iff hsplit (by omega)).mpr hsupply) [m] hahead
  rw [List.drop_eq_nil_of_le (by simp [hlen])] at hs'
  simp only [msgDecode, unpackSequence_of_nodes hnodes, ok_bind, hread, readMembers,
    readMember_of_nil hs', fault_bind]
  cases storeAll ms ds msg <;> simp

end SafeTransmission
