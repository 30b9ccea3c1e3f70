import SafeTransmission.Codec.Malformed

/-!
# How many bytes are copied

No reader is told how large its destination is: `readNextNode(char*)` copies as
many bytes as the element holds.  `Delivers` gives the codes and the bytes for a
sequence of elements, and decoding keeps inside the fields exactly if these fit
(`fieldsContained_iff`).

A string reader that fails stays at its node, so after an empty BIT STRING all
further string readers fail as well, and nothing more is copied.

## Strategy

* `readMembers_of_delivers` and `delivers_of_readMembers` translate between the readers and
  `Delivers`, which knows nothing of nodes.
* Behind an empty BIT STRING there are no more bytes (`readMembers_stopped`).
* What is in the message is what was copied (`storeAll_of_readMembers`), so the condition is that all
  of it fits into the members (`Fits`).
-/

namespace SafeTransmission

open Outcome

/-- What the `seckey` readers make of the elements: their codes and the bytes they
copy. -/
inductive Delivers : List Member → List Tlv → List (ℤ × Bytes) → Prop where
  | nil (ts : List Tlv) : Delivers [] ts []
  | int {m : Member} {ms : List Member} {t : Tlv} {ts : List Tlv} {number : ℕ}
      {reads : List (ℤ × Bytes)} (hkind : m.kind = .int) (h : t.HoldsInteger number)
      (hrest : Delivers ms ts reads) :
      Delivers (m :: ms) (t :: ts) ((0, intBytes (number % 2 ^ longBits : ℕ)) :: reads)
  | chars {m : Member} {ms : List Member} {t : Tlv} {ts : List Tlv} {s : Bytes}
      {reads : List (ℤ × Bytes)} (hkind : m.kind = .chars) (h : t.HoldsString s)
      (hrest : Delivers ms ts reads) : Delivers (m :: ms) (t :: ts) ((0, s) :: reads)
  | stopped {m : Member} {ms : List Member} {t : Tlv} {ts : List Tlv} (h : t.EmptyBitString)
      (hkind : ∀ m' ∈ m :: ms, m'.kind = .chars) :
      Delivers (m :: ms) (t :: ts) ((m :: ms).map fun _ => (-1, []))

/-- Both readers fail on the node of an empty BIT STRING, the string reader with a code. -/
theorem Tlv.Reads.emptyBitString {t : Tlv} {rest : Bytes} (h : t.Reads longBits rest)
    (hlt : t.bytes.length < 2 ^ 31) (hempty : t.EmptyBitString) :
    SequenceASN1.readString .seckey t.node = err DerErrType.memoryErr ∧
      derItAsn1ReadInteger longBits t.node = fault .readOutOfBounds := by
  constructor
  · rcases h.readTlv_cases (by norm_num) hlt with ⟨s, hs, -⟩ | ⟨-, ⟨-, hread⟩ | ⟨hnot, -⟩⟩
    · exact absurd hs (hempty.not_holdsString s)
    · exact hread
    · exact absurd hempty hnot
  · rcases h.readInteger_cases (by norm_num) with ⟨number, hnumber, -⟩ | ⟨-, hread⟩
    · exact absurd hempty.contents hnumber.contents_ne_nil
    · exact hread

namespace Codec

variable {n : ℕ} {ms : List Member} {msg msg' : CObject n}

theorem storeAll_of_readMembers {g : Generation} {first : Bool} {s : SequenceASN1}
    {reads : List (ℤ × Bytes)} (h : readMembers g first ms s msg = ok (msg', reads)) :
    storeAll ms (reads.map Prod.snd) msg = ok msg' := by
  induction ms generalizing first s msg reads with
  | nil =>
      simp only [readMembers, ok.injEq, Prod.mk.injEq] at h
      rw [h.1]
      cases reads <;> rfl
  | cons m ms ih =>
      obtain ⟨step, -, h⟩ := bind_eq_ok.mp h
      obtain ⟨msg₁, hstore, h⟩ := bind_eq_ok.mp h
      obtain ⟨⟨msg₂, reads₂⟩, hmore, h⟩ := bind_eq_ok.mp h
      simp only [ok.injEq, Prod.mk.injEq] at h
      obtain ⟨rfl, rfl⟩ := h
      simp only [List.map_cons, storeAll, hstore, ok_bind]
      exact ih hmore

theorem readMembers_cons {g : Generation} {first : Bool} {m : Member} {s s' : SequenceASN1}
    {ret : ℤ} {d : Bytes} {reads : List (ℤ × Bytes)}
    (hread : readMember g first m s = ok ⟨ret, d, s'⟩) :
    readMembers g first (m :: ms) s msg = ok (msg', reads) ↔
      ∃ msg₁ reads', msg.store m.off d = ok msg₁ ∧
        readMembers g false ms s' msg₁ = ok (msg', reads') ∧ reads = (ret, d) :: reads' := by
  simp only [readMembers, hread, ok_bind, bind_eq_ok, Prod.exists, ok.injEq, Prod.mk.injEq]
  constructor
  · rintro ⟨msg₁, hstore, msg₂, reads', hmore, rfl, rfl⟩
    exact ⟨msg₁, reads', hstore, hmore, rfl⟩
  · rintro ⟨msg₁, reads', hstore, hmore, rfl⟩
    exact ⟨msg₁, hstore, msg', reads', hmore, rfl, rfl⟩

/-- At a node that the string reader fails on, all further readers fail. -/
theorem readMembers_stopped {s : SequenceASN1} {node : AnyBuf} {rest : List AnyBuf} {code : ℤ}
    (hahead : s.remaining = node :: rest)
    (hstring : SequenceASN1.readString .seckey node = err code)
    (hint : derItAsn1ReadInteger longBits node = fault .readOutOfBounds)
    {reads : List (ℤ × Bytes)} (hinside : ∀ m ∈ ms, m.off ≤ n) :
    readMembers .seckey false ms s msg = ok (msg', reads) ↔
      (∀ m ∈ ms, m.kind = .chars) ∧ msg' = msg ∧ reads = ms.map fun _ => (-1, []) := by
  have hcurrent := SequenceASN1.current_of_remaining hahead
  induction ms generalizing reads with
  | nil => simp [readMembers, eq_comm]
  | cons m ms ih =>
      cases hkind : m.kind with
      | int =>
          have hread : readMember .seckey false m s = fault .readOutOfBounds := by
            simp [readMember, hkind, SequenceASN1.readNextNodeInt, hcurrent, hint]
          simp [readMembers, hread, hkind]
      | chars =>
          have hread : readMember .seckey false m s = ok ⟨-1, [], s⟩ := by
            simp [readMember, hkind, SequenceASN1.readNextNodeStr, hcurrent, hstring]
          rw [readMembers_cons hread, msg.store_nil (hinside m List.mem_cons_self)]
          have hrest : ∀ m' ∈ ms, m'.off ≤ n := fun m' hm' => hinside m' (List.mem_cons_of_mem _ hm')
          constructor
          · rintro ⟨msg₁, reads', hstore, hmore, rfl⟩
            obtain rfl := ok.inj hstore
            obtain ⟨hchars, rfl, rfl⟩ := (ih hrest).mp hmore
            exact ⟨List.forall_mem_cons.mpr ⟨hkind, hchars⟩, rfl, rfl⟩
          · rintro ⟨hchars, rfl, rfl⟩
            exact ⟨_, _, rfl, (ih hrest).mpr ⟨(List.forall_mem_cons.mp hchars).2, rfl, rfl⟩, rfl⟩

theorem storeAll_nils (hinside : ∀ m ∈ ms, m.off ≤ n) (msg : CObject n) :
    storeAll ms (ms.map fun _ => []) msg = ok msg := by
  induction ms with
  | nil => rfl
  | cons m ms ih =>
      rw [List.map_cons, storeAll, msg.store_nil (hinside m List.mem_cons_self), ok_bind,
        ih fun m' hm' => hinside m' (List.mem_cons_of_mem _ hm')]

theorem readMember_of_gives {first : Bool} {m : Member} {s : SequenceASN1} {t : Tlv} {rest : Bytes}
    {nodes : List AnyBuf} {d : Bytes} (hs : s.ahead first = t.node :: nodes)
    (hread : t.Reads longBits rest) (hlt : t.bytes.length < 2 ^ 31) (h : t.Gives .seckey m.kind d) :
    ∃ s', readMember .seckey first m s = ok ⟨0, d, s'⟩ ∧ s'.ahead false = nodes :=
  readMember_eq hs ((hread.nodeValue_iff hlt).mpr h)

theorem readMembers_of_delivers {ts : List Tlv} {reads : List (ℤ × Bytes)}
    (h : Delivers ms ts reads) {p : Bytes} (hsplit : Splits longBits p ts) (hp : p.length < 2 ^ 31)
    (hinside : ∀ m ∈ ms, m.off ≤ n) {first : Bool}
    (hfirst : first = true → ∀ m ∈ ms.head?, m.kind = .int) {s : SequenceASN1}
    (hs : s.ahead first = ts.map Tlv.node) {msg : CObject n}
    (hstore : storeAll ms (reads.map Prod.snd) msg = ok msg') :
    readMembers .seckey first ms s msg = ok (msg', reads) := by
  induction h generalizing p first s msg with
  | nil ts =>
      obtain rfl := ok.inj hstore
      rfl
  | @int m ms t ts number reads hkind hnumber hrest ih =>
      obtain ⟨rest, rfl, hread, hmore⟩ := hsplit.cons_inv
      rw [List.length_append] at hp
      obtain ⟨s', hmember, hs'⟩ := readMember_of_gives (m := m) hs hread (by omega)
        (by rw [hkind]; exact ⟨number, hnumber, rfl⟩)
      obtain ⟨msg₁, hstore₁, hstore⟩ := bind_eq_ok.mp hstore
      refine (readMembers_cons hmember).mpr ⟨msg₁, reads, hstore₁, ?_, rfl⟩
      exact ih hmore (by omega) (fun m' hm' => hinside m' (List.mem_cons_of_mem _ hm')) (by simp) hs'
        hstore
  | @chars m ms t ts str reads hkind hstr hrest ih =>
      obtain ⟨rest, rfl, hread, hmore⟩ := hsplit.cons_inv
      rw [List.length_append] at hp
      obtain ⟨s', hmember, hs'⟩ := readMember_of_gives (m := m) hs hread (by omega)
        (by rw [hkind]; exact hstr)
      obtain ⟨msg₁, hstore₁, hstore⟩ := bind_eq_ok.mp hstore
      refine (readMembers_cons hmember).mpr ⟨msg₁, reads, hstore₁, ?_, rfl⟩
      exact ih hmore (by omega) (fun m' hm' => hinside m' (List.mem_cons_of_mem _ hm')) (by simp) hs'
        hstore
  | @stopped m ms t ts hempty hkind =>
      obtain ⟨rest, rfl, hread, hmore⟩ := hsplit.cons_inv
      rw [List.length_append] at hp
      cases first with
      | true =>
          have hint := hfirst rfl m rfl
          rw [hkind m List.mem_cons_self] at hint
          cases hint
      | false =>
          obtain ⟨hstring, hint⟩ := hread.emptyBitString (by omega) hempty
          refine (readMembers_stopped hs hstring hint hinside).mpr ⟨hkind, ?_, rfl⟩
          rw [List.map_map] at hstore
          exact (ok.inj (hstore.symm.trans (storeAll_nils hinside msg)))

theorem delivers_of_readMembers {ts : List Tlv} {p : Bytes} (hsplit : Splits longBits p ts)
    (hp : p.length < 2 ^ 31) (hlen : ms.length ≤ ts.length) (hinside : ∀ m ∈ ms, m.off ≤ n)
    {first : Bool} (hfirst : first = true → ∀ m ∈ ms.head?, m.kind = .int) {s : SequenceASN1}
    (hs : s.ahead first = ts.map Tlv.node) {msg : CObject n} {reads : List (ℤ × Bytes)}
    (h : readMembers .seckey first ms s msg = ok (msg', reads)) : Delivers ms ts reads := by
  induction ms generalizing ts p first s msg reads with
  | nil =>
      simp only [readMembers, ok.injEq, Prod.mk.injEq] at h
      rw [← h.2]
      exact .nil ts
  | cons m ms ih =>
      obtain ⟨t, ts, rfl⟩ := List.exists_cons_of_length_pos (l := ts) (by simp at hlen; omega)
      obtain ⟨rest, rfl, hread, hmore⟩ := hsplit.cons_inv
      rw [List.length_append] at hp
      have hlt : t.bytes.length < 2 ^ 31 := by omega
      have hrest : ∀ {d : Bytes}, t.Gives .seckey m.kind d →
          ∃ reads', Delivers ms ts reads' ∧ reads = (0, d) :: reads' := by
        intro d hgives
        obtain ⟨s', hmember, hs'⟩ := readMember_of_gives hs hread hlt hgives
        obtain ⟨msg₁, reads', -, hmore', rfl⟩ := (readMembers_cons hmember).mp h
        exact ⟨reads', ih hmore (by omega) (by simpa using hlen)
          (fun m' hm' => hinside m' (List.mem_cons_of_mem _ hm')) (by simp) hs' hmore', rfl⟩
      -- no reader has left its node, as the call has returned
      have hnofault : ∀ {kind : Fault}, nodeValue .seckey m.kind t.node ≠ fault kind := by
        intro kind hvalue
        simp [readMembers, readMember_of_fault hs hvalue] at h
      cases hkind : m.kind with
      | int =>
          rw [hkind] at hrest hnofault
          rcases hread.readInteger_cases (by norm_num) with ⟨number, hnumber, -⟩ | ⟨-, hfault⟩
          · obtain ⟨reads', hdeliver, rfl⟩ := hrest ⟨number, hnumber, rfl⟩
            exact .int hkind hnumber hdeliver
          · exact absurd (by rw [nodeValue, hfault]; rfl) hnofault
      | chars =>
          rw [hkind] at hrest hnofault
          rcases hread.readTlv_cases (by norm_num) hlt with ⟨str, hstr, -⟩ | ⟨-, ⟨hempty, -⟩ | ⟨-, hfault⟩⟩
          · obtain ⟨reads', hdeliver, rfl⟩ := hrest hstr
            exact .chars hkind hstr hdeliver
          · cases first with
            | true =>
                have hint := hfirst rfl m rfl
                rw [hkind] at hint
                cases hint
            | false =>
                -- the readers stop here
                obtain ⟨hstring, hint⟩ := hread.emptyBitString hlt hempty
                obtain ⟨hchars, -, rfl⟩ := (readMembers_stopped hs hstring hint hinside).mp h
                exact .stopped hempty hchars
          · exact absurd (by rw [nodeValue]; exact congrArg (· >>= _) hfault) hnofault

/-- Decoding `b` copies no more bytes into a field than it has, leaves all strings with
a NUL inside their arrays, and no copy changes what another field received. -/
def FieldsContained (ms : List Member) (c : Codec n) (b : Bytes) : Prop :=
  ∃ d msg', msgDecode ms .seckey c b b.length = ok d ∧ d.result = some msg' ∧
    List.Forall₂ (fun m r => r.2.length ≤ m.cap ∧ msg'.Holds m.off r.2) ms d.reads ∧
    Terminated ms msg'

/-- What the elements deliver fits into the fields of `msg`: it is not longer than the
field, and there is a NUL in it or behind it in the field. -/
def Fits (msg : CObject n) (ms : List Member) (ts : List Tlv) : Prop :=
  ∃ reads, Delivers ms ts reads ∧ List.Forall₂ (fun m r => r.2.length ≤ m.cap ∧
    (m.kind = .chars → 0 ∈ r.2 ++ (msg.chars m.off m.cap).drop r.2.length)) ms reads

/-- Decoding a sequence of enough elements keeps inside the fields exactly if what the
elements deliver fits. -/
theorem fieldsContained_iff (hlayout : Layout n ms) (hhead : ∀ m ∈ ms.head?, m.kind = .int)
    {b : Bytes} {ts : List Tlv} (hseq : IsSequence longBits b ts) (hb : b.length < 2 ^ 31)
    (hlen : ms.length ≤ ts.length) (msg : CObject n) :
    FieldsContained ms ⟨.empty, msg⟩ b ↔ Fits msg ms ts := by
  obtain ⟨p, hp, hsplit⟩ := hseq.exists_splits
  have hnodes := readSequence_of_isSequence (w := longBits) (by norm_num) hseq hb
  have hinside : ∀ m ∈ ms, m.off ≤ n := fun m hm => by
    have := hlayout.inside m hm
    omega
  have hahead : SequenceASN1.ahead ⟨ts.map Tlv.node, none⟩ true = ts.map Tlv.node := rfl
  -- decoding is nothing but the readers on the nodes of the sequence
  have hdecode : ∀ {msg' : CObject n} {reads : List (ℤ × Bytes)},
      msgDecode ms .seckey ⟨.empty, msg⟩ b b.length = ok ⟨some msg', reads⟩ ↔
        readMembers .seckey true ms ⟨ts.map Tlv.node, none⟩ msg = ok (msg', reads) := by
    intro msg' reads
    simp only [msgDecode, unpackSequence_of_nodes hnodes, ok_bind]
    cases readMembers .seckey true ms ⟨ts.map Tlv.node, none⟩ msg <;> simp [Prod.ext_iff]
  constructor
  · rintro ⟨⟨result, reads⟩, msg', hd, hresult, hcopied, hterm⟩
    obtain rfl : result = some msg' := hresult
    have hread := hdecode.mp hd
    refine ⟨reads, delivers_of_readMembers hsplit (by omega) hlen hinside (fun _ => hhead) hahead
      hread, ?_⟩
    have hcap : List.Forall₂ (fun m d => d.length ≤ m.cap) ms (reads.map Prod.snd) :=
      List.forall₂_map_right_iff.mpr (hcopied.imp fun _ _ h => h.1)
    have hchars := List.forall₂_map_right_iff.mp
      (storeAll_chars hlayout hcap (fun _ _ => rfl) (storeAll_of_readMembers hread))
    refine List.Forall₂.mp (fun m r h hchars => ⟨h.2.1, fun hkind => ?_⟩)
      ((List.forall₂_and_left _ _).mpr ⟨hterm, hcopied⟩) hchars
    rw [← hchars]
    exact h.1 hkind
  · rintro ⟨reads, hdeliver, hfit⟩
    have hcap : List.Forall₂ (fun m d => d.length ≤ m.cap) ms (reads.map Prod.snd) :=
      List.forall₂_map_right_iff.mpr (hfit.imp fun _ _ h => h.1)
    obtain ⟨msg', hstore, hholds⟩ := storeAll_spec hlayout hcap msg
    have hread := readMembers_of_delivers hdeliver hsplit (by omega) hinside (fun _ => hhead) hahead
      hstore
    have hchars := List.forall₂_map_right_iff.mp
      (storeAll_chars hlayout hcap (fun _ _ => rfl) hstore)
    refine ⟨⟨some msg', reads⟩, msg', hdecode.mpr hread, rfl, ?_, ?_⟩
    · exact List.Forall₂.mp (fun _ _ h hholds => ⟨h.1, hholds⟩) hfit
        (List.forall₂_map_right_iff.mp hholds)
    · refine ((List.forall₂_and_left ms reads).mp
        (List.Forall₂.mp (fun m r h hchars => ⟨fun hkind => ?_, h⟩) hfit hchars)).1
      rw [hchars]
      exact h.2 hkind

end Codec

open Codec

/-- Both decoders of the `seckey` version, on a sequence of five elements.  The arrays of
a request are zero before decoding, those of a response hold what the memory held. -/
theorem msgDecode_fieldsContained_iff {b : Bytes} {ts : List Tlv}
    (hseq : IsSequence longBits b ts) (hfive : ts.length = 5) (hb : b.length < 2 ^ 31) :
    (∀ memory, FieldsContained RequestMsg.members (RequestCodec.new .seckey memory) b ↔
      Fits (RequestMsg.declared .seckey memory) RequestMsg.members ts) ∧
    ∀ memory, FieldsContained RespondMsg.members (RespondCodec.new memory) b ↔
      Fits memory RespondMsg.members ts :=
  ⟨fun _ => fieldsContained_iff RequestMsg.layout (by decide) hseq hb hfive.ge _,
    fun _ => fieldsContained_iff RespondMsg.layout (by decide) hseq hb hfive.ge _⟩

/-- Empty strings with their NUL stay inside the fields of a request. -/
theorem msgDecode_fieldsContained_emptyStrings :
    FieldsContained RequestMsg.members (RequestCodec.new .seckey (.zero 160))
      (sequenceOctets (messageElements 1 [[0], [0], [0], [0]])) := by
  have hholds : (printableElement [0]).HoldsString [0] := holdsString_printableElement (by decide)
  have hseq := @isSequence_messageElements longBits 1 [[0], [0], [0], [0]] (by norm_num) (by decide)
    (by decide)
  have hfits : Fits (RequestMsg.declared .seckey (.zero 160)) RequestMsg.members
      (messageElements 1 [[0], [0], [0], [0]]) := by
    refine ⟨_, .int rfl (holdsInteger_integerElement (by norm_num)) (.chars rfl hholds
      (.chars rfl hholds (.chars rfl hholds (.chars rfl hholds (.nil []))))), ?_⟩
    refine .cons ⟨(length_intBytes _).le, fun h => ?_⟩ ?_
    · cases h
    · exact .cons ⟨by decide, by simp⟩ (.cons ⟨by decide, by simp⟩
        (.cons ⟨by decide, by simp⟩ (.cons ⟨by decide, by simp⟩ .nil)))
  exact ((msgDecode_fieldsContained_iff hseq rfl (by decide)).1 (.zero 160)).mpr hfits

/-- A client id of 13 characters without a NUL runs over its field. -/
theorem msgDecode_longClientId_not_fieldsContained :
    IsSequence longBits (sequenceOctets (messageElements 1 [List.replicate 13 0x41, [0], [0], [0]]))
        (messageElements 1 [List.replicate 13 0x41, [0], [0], [0]]) ∧
      ¬ FieldsContained RequestMsg.members (RequestCodec.new .seckey (.zero 160))
        (sequenceOctets (messageElements 1 [List.replicate 13 0x41, [0], [0], [0]])) := by
  have hseq := @isSequence_messageElements longBits 1 [List.replicate 13 0x41, [0], [0], [0]]
    (by norm_num) (by decide) (by decide)
  have hlong : (printableElement (List.replicate 13 0x41)).HoldsString (List.replicate 13 0x41) :=
    holdsString_printableElement (by decide)
  refine ⟨hseq, fun hcontained => ?_⟩
  obtain ⟨reads, hdeliver, hfit⟩ :=
    (fieldsContained_iff RequestMsg.layout (by decide) hseq (by decide) (by decide) _).mp hcontained
  cases hdeliver with
  | chars hkind => cases hkind
  | stopped _ hkind => cases hkind RequestMsg.cmdType (by decide)
  | int _ _ hrest =>
      obtain ⟨-, hfit⟩ := List.forall₂_cons.mp hfit
      cases hrest with
      | int hkind => cases hkind
      | stopped hempty _ => exact hempty.not_holdsString _ hlong
      | chars _ hs _ =>
          obtain ⟨⟨hle, -⟩, -⟩ := List.forall₂_cons.mp hfit
          rw [hs.unique hlong] at hle
          exact absurd hle (by decide)

end SafeTransmission
