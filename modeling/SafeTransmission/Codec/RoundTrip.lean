import SafeTransmission.Codec.Reading
import SafeTransmission.Codec.Writing

/-!
# Decoding what was encoded

A message whose members can be written is decoded by either version of the code
into the values of its members, in the order of the members (`msgDecode_encoded`).
What that does to the fields depends on the widths: the `op` version stores eight
bytes into an `int`.

For requests the spill hits `clientId` before that field is read, and all four
pairings of the versions round trip.  For responses of the `seckey` version the
round trip needs both integers non-negative: a negative `int` is refused by the
integer writer, its element is missing, and nobody notices.

## Strategy

* `memberValue` is what a reader stores for the element of a member.  All of them together give back
  the message (`msgDecode_encoded`).
* `Encodable` and `Conveys` say that a codec has the values of a message, and that octets carry
  them, up to what is behind the ends of the strings (`Same`).  They are what the other modules use.
* For the responses there is one lemma for each way to fail: `msgEncode_of_neg_rv`,
  `msgDecode_of_neg_seckeyid` and `msgDecode_op`.
-/

namespace SafeTransmission

open Outcome

namespace Codec

variable {n : ℕ} {g g' : Generation} {msg : CObject n}

/-! ## Elements and their values -/

theorem take_storedInt (g : Generation) (v : ℕ) :
    (SequenceASN1.storedInt g v).take 4 = intBytes v := by
  cases g with
  | seckey => exact List.take_of_length_le (length_intBytes v).le
  | op => exact take_longBytes v

theorem length_storedInt_le (g : Generation) (v : ℕ) :
    (SequenceASN1.storedInt g v).length ≤ 8 := by
  cases g with
  | seckey => exact (length_intBytes v).le.trans (by norm_num)
  | op => exact (length_longBytes v).le

/-- What a reader stores for a member that was written. -/
def memberValue (g : Generation) (msg : CObject n) (m : Member) : Bytes :=
  match m.kind with
  | .int => SequenceASN1.storedInt g (msg.int m.off).toNat
  | .chars => msg.str m.off ++ [0]

theorem definite_memberElement {m : Member} (hn : n < 2 ^ 30) (h : Writable msg m) :
    (memberElement g msg m).Definite longBits := by
  unfold Writable at h
  unfold memberElement
  cases hkind : m.kind with
  | int => exact definite_integerElement (msg.int_toNat_lt m.off)
  | chars =>
      rw [hkind] at h
      have hlen := length_str_le h
      cases g with
      | seckey => exact definite_printableElement (by omega)
      | op => exact definite_bitStringElement (by omega)

theorem gives_memberElement {m : Member} (hn : n < 2 ^ 30) (h : Writable msg m) :
    (memberElement g msg m).Gives g' m.kind (memberValue g' msg m) := by
  unfold Writable at h
  unfold memberElement memberValue
  cases hkind : m.kind with
  | int =>
      have hlt := msg.int_toNat_lt m.off
      refine ⟨_, holdsInteger_integerElement hlt, ?_⟩
      rw [Nat.mod_eq_of_lt (hlt.trans (by norm_num))]
  | chars =>
      rw [hkind] at h
      have hlen := length_str_le h
      cases g with
      | seckey => exact holdsString_printableElement (by omega)
      | op => exact holdsString_bitStringElement (by omega)

theorem elementsSupply_map {ms : List Member} (hn : n < 2 ^ 30) (h : ∀ m ∈ ms, Writable msg m) :
    ElementsSupply g' ms (ms.map (memberElement g msg)) (ms.map (memberValue g' msg)) := by
  induction ms with
  | nil => exact .nil _
  | cons m ms ih =>
      exact .cons (gives_memberElement hn (h m List.mem_cons_self))
        (ih fun m' hm' => h m' (List.mem_cons_of_mem _ hm'))

theorem length_encoded_lt {ms : List Member} (hn : n < 2 ^ 30)
    (hsize : ms.length * (n + 16) < 2 ^ 30) (h : ∀ m ∈ ms, Writable msg m) :
    (encoded g ms msg).length < 2 ^ 30 + 6 := by
  have hlength := length_elements_le (g := g) hn h
  have htotal := length_sequenceOctets (ms.map (memberElement g msg)) (by omega)
  rw [encoded]
  omega

theorem isSequence_encoded {ms : List Member} (hn : n < 2 ^ 30)
    (hsize : ms.length * (n + 16) < 2 ^ 30) (h : ∀ m ∈ ms, Writable msg m) :
    IsSequence longBits (encoded g ms msg) (ms.map (memberElement g msg)) := by
  have hlength := length_elements_le (g := g) hn h
  refine isSequence_sequenceOctets (fun t ht => ?_) (by omega)
  obtain ⟨m, hm, rfl⟩ := List.mem_map.mp ht
  exact definite_memberElement hn (h m hm)

theorem msgDecode_encoded {ms : List Member} (hn : n < 2 ^ 30)
    (hsize : ms.length * (n + 16) < 2 ^ 30) (h : ∀ m ∈ ms, Writable msg m) (dst : CObject n) :
    msgDecode ms g' ⟨.empty, dst⟩ (encoded g ms msg) (encoded g ms msg).length = (do
      let dst ← storeAll ms (ms.map (memberValue g' msg)) dst
      ok ⟨some dst, (ms.map (memberValue g' msg)).map (0, ·)⟩) := by
  have hlt := length_encoded_lt (g := g) hn hsize h
  exact msgDecode_of_elements (isSequence_encoded hn hsize h) (by omega) (elementsSupply_map hn h) dst

/-! ## Fields -/

/-- Both messages have the same value in the member. -/
def SameValue (msg msg' : CObject n) (m : Member) : Prop :=
  match m.kind with
  | .int => msg'.int m.off = msg.int m.off
  | .chars => msg'.str m.off = msg.str m.off

theorem sameValue_self (msg : CObject n) (m : Member) : SameValue msg msg m := by
  unfold SameValue
  split <;> rfl

theorem SameValue.trans {msg msg' msg'' : CObject n} {m : Member} (h : SameValue msg msg' m)
    (h' : SameValue msg' msg'' m) : SameValue msg msg'' m := by
  unfold SameValue at *
  cases hkind : m.kind with
  | int =>
      rw [hkind] at h h'
      exact Eq.trans h' h
  | chars =>
      rw [hkind] at h h'
      exact Eq.trans h' h

theorem writable_of_terminated {ms : List Member} (hterm : Terminated ms msg)
    (hint : ∀ m ∈ ms, m.kind = .int → 0 ≤ msg.int m.off) : ∀ m ∈ ms, Writable msg m := by
  intro m hm
  unfold Writable
  cases hkind : m.kind with
  | int => exact hint m hm hkind
  | chars => exact List.mem_of_mem_take (hterm m hm hkind)

theorem zero_mem_ptr {off cap : ℕ} (h : 0 ∈ msg.chars off cap) : 0 ∈ msg.ptr off :=
  List.mem_of_mem_take h

theorem length_str_le_cap {off cap : ℕ} (h : 0 ∈ msg.chars off cap) :
    (msg.str off ++ [0]).length ≤ cap := by
  have hlt := length_cString_lt h
  have hle : (msg.chars off cap).length ≤ cap := by simp [CObject.chars]
  rw [msg.str_eq h]
  simp only [List.length_append, List.length_singleton]
  omega

theorem length_copiedValue_le {m : Member} (hint : m.kind = .int → m.cap = 4)
    (hterm : m.kind = .chars → 0 ∈ msg.chars m.off m.cap) : (copiedValue msg m).length ≤ m.cap := by
  unfold copiedValue
  cases hkind : m.kind with
  | int => simp [hint hkind]
  | chars => exact length_str_le_cap (hterm hkind)

/-- A message that holds the copied values of another has its values, and its
strings end inside their arrays. -/
theorem sameValue_of_holds {ms : List Member} {msg' : CObject n} (hterm : Terminated ms msg)
    (h : ∀ m ∈ ms, msg'.Holds m.off (copiedValue msg m)) :
    (∀ m ∈ ms, SameValue msg msg' m) ∧ Terminated ms msg' := by
  refine ⟨fun m hm => ?_, fun m hm hkind => ?_⟩
  · have hholds := h m hm
    unfold SameValue
    unfold copiedValue at hholds
    cases hkind : m.kind with
    | int =>
        rw [hkind] at hholds
        rw [hholds.int_eq, CObject.int, toInt32_toInt32]
    | chars =>
        rw [hkind] at hholds
        exact hholds.str_eq (zero_notMem_cString _)
  · have hholds := h m hm
    have hlen := length_str_le_cap (hterm m hm hkind)
    rw [List.length_append, List.length_singleton] at hlen
    rw [copiedValue, hkind] at hholds
    exact hholds.zero_mem hlen

theorem forall_of_forall₂_map {α β : Type} {R : α → β → Prop} {f : α → β} {xs : List α}
    (h : List.Forall₂ R xs (xs.map f)) : ∀ x ∈ xs, R x (f x) := by
  rw [List.forall₂_map_right_iff, List.forall₂_same] at h
  exact h

theorem storeAll_copiedValue {ms : List Member} (hlayout : Layout n ms)
    (hint : ∀ m ∈ ms, m.kind = .int → m.cap = 4) (hterm : Terminated ms msg) (dst : CObject n) :
    ∃ msg', storeAll ms (ms.map (copiedValue msg)) dst = ok msg' ∧
      (∀ m ∈ ms, SameValue msg msg' m) ∧ Terminated ms msg' := by
  have hcap : List.Forall₂ (fun m d => d.length ≤ m.cap) ms (ms.map (copiedValue msg)) := by
    rw [List.forall₂_map_right_iff, List.forall₂_same]
    exact fun m hm => length_copiedValue_le (hint m hm) (hterm m hm)
  obtain ⟨msg', hstore, hholds⟩ := storeAll_spec hlayout hcap dst
  exact ⟨msg', hstore, sameValue_of_holds hterm (forall_of_forall₂_map hholds)⟩

theorem memberValue_seckey {m : Member} (h : Writable msg m) :
    memberValue .seckey msg m = copiedValue msg m := by
  unfold Writable at h
  unfold memberValue copiedValue
  cases hkind : m.kind with
  | int =>
      rw [hkind] at h
      simp only [SequenceASN1.storedInt, Int.toNat_of_nonneg h]
  | chars => rfl

/-- The readers of both versions, on an integer in front of strings: the eight bytes
of the `op` version are cut back to four by the strings that follow. -/
theorem storeAll_memberValue {m : Member} {ms : List Member} (hlayout : Layout n (m :: ms))
    (hkind : m.kind = .int) (hfour : m.cap = 4) (hroom : m.off + 8 ≤ n)
    (hchars : ∀ m' ∈ ms, m'.kind = .chars) (hterm : Terminated (m :: ms) msg)
    (hnonneg : 0 ≤ msg.int m.off) (g : Generation) (dst : CObject n) :
    ∃ msg', storeAll (m :: ms) ((m :: ms).map (memberValue g msg)) dst = ok msg' ∧
      (∀ m' ∈ m :: ms, SameValue msg msg' m') ∧ Terminated (m :: ms) msg' := by
  have hvalues : ms.map (memberValue g msg) = ms.map (copiedValue msg) := by
    refine List.map_congr_left fun m' hm' => ?_
    simp only [memberValue, copiedValue, hchars m' hm']
  have htail : Terminated ms msg := fun m' hm' => hterm m' (List.mem_cons_of_mem _ hm')
  have hcap : List.Forall₂ (fun m d => d.length ≤ m.cap) ms (ms.map (copiedValue msg)) := by
    rw [List.forall₂_map_right_iff, List.forall₂_same]
    refine fun m' hm' => length_copiedValue_le (fun h => ?_) (htail m' hm')
    rw [hchars m' hm'] at h
    cases h
  have hfirst : ∃ k, copiedValue msg m = (memberValue g msg m).take k :=
    ⟨4, by simp only [memberValue, copiedValue, hkind, take_storedInt, Int.toNat_of_nonneg hnonneg]⟩
  have hlength : (memberValue g msg m).length ≤ 8 := by
    simp only [memberValue, hkind, length_storedInt_le]
  obtain ⟨msg', hstore, hholds⟩ := storeAll_cons_spec hlayout (by omega) hfirst
    (length_copiedValue_le (fun _ => hfour) (hterm m List.mem_cons_self)) hcap
    (storeAll_spec (tail_layout hlayout) hcap) dst
  refine ⟨msg', by rw [List.map_cons, hvalues, hstore], sameValue_of_holds hterm ?_⟩
  exact forall_of_forall₂_map (f := copiedValue msg) hholds

/-! ## Messages in octets -/

/-- A message that can be put into the octets: terminated strings, and no negative integer. -/
structure Encodable (ms : List Member) (msg : CObject n) : Prop where
  terminated : Terminated ms msg
  nonneg : ∀ m ∈ ms, m.kind = .int → 0 ≤ msg.int m.off

/-- The octets `b`, wherever they lie in memory, are decoded by a fresh codec of the
`seckey` version into the values of the message. -/
structure Conveys (ms : List Member) (b : Bytes) (msg : CObject n) : Prop where
  ne_nil : b ≠ []
  length_lt : b.length < 2 ^ 31 - 4
  decoded : ∀ (dst : CObject n) (behind : Bytes), ∃ d msg',
    msgDecode ms .seckey ⟨.empty, dst⟩ (b ++ behind) b.length = ok d ∧ d.result = some msg' ∧
      (∀ m ∈ ms, SameValue msg msg' m) ∧ Terminated ms msg'

/-- `msgDecode` copies the octets that it is given the length of. -/
theorem msgDecode_append (ms : List Member) (g : Generation) (c : Codec n) (b behind : Bytes) :
    msgDecode ms g c (b ++ behind) b.length = msgDecode ms g c b b.length := by
  have hcopy : derItcastStringToAnyBuf (b ++ behind) b.length = derItcastStringToAnyBuf b b.length := by
    simp only [derItcastStringToAnyBuf, Int.toNat_natCast, memcpy_append rfl, memcpy_self]
  simp only [msgDecode, SequenceASN1.unpackSequence, hcopy]

/-- What `msgEncode` of the `seckey` version writes conveys the message. -/
theorem conveys_encoded {ms : List Member} (hlayout : Layout n ms)
    (hint : ∀ m ∈ ms, m.kind = .int → m.cap = 4) (hsize : ms.length * (n + 16) < 2 ^ 30)
    (hn : n < 2 ^ 30) (h : Encodable ms msg) : Conveys ms (encoded .seckey ms msg) msg where
  ne_nil := List.cons_ne_nil _ _
  length_lt := by
    have hlt := length_encoded_lt (g := .seckey) hn hsize
      (writable_of_terminated h.terminated h.nonneg)
    omega
  decoded dst behind := by
    have hwritable := writable_of_terminated h.terminated h.nonneg
    have hvalues : ms.map (memberValue .seckey msg) = ms.map (copiedValue msg) :=
      List.map_congr_left fun m hm => memberValue_seckey (hwritable m hm)
    obtain ⟨msg', hstore, hsame, hterm'⟩ := storeAll_copiedValue hlayout hint h.terminated dst
    refine ⟨⟨some msg', (ms.map (copiedValue msg)).map (0, ·)⟩, msg', ?_, rfl, hsame, hterm'⟩
    rw [msgDecode_append, msgDecode_encoded hn hsize hwritable, hvalues, hstore]
    rfl

theorem Encodable.of_same {ms : List Member} {msg' : CObject n} (h : Encodable ms msg)
    (hsame : ∀ m ∈ ms, SameValue msg msg' m) (hterm : Terminated ms msg') : Encodable ms msg' where
  terminated := hterm
  nonneg m hm hkind := by
    have hvalue := hsame m hm
    unfold SameValue at hvalue
    rw [hkind] at hvalue
    rw [hvalue]
    exact h.nonneg m hm hkind

theorem Conveys.of_same {ms : List Member} {msg' : CObject n} {b : Bytes} (h : Conveys ms b msg')
    (hsame : ∀ m ∈ ms, SameValue msg msg' m) : Conveys ms b msg where
  ne_nil := h.ne_nil
  length_lt := h.length_lt
  decoded dst behind := by
    obtain ⟨d, msg'', hdecode, hresult, hsame', hterm⟩ := h.decoded dst behind
    exact ⟨d, msg'', hdecode, hresult, fun m hm => (hsame m hm).trans (hsame' m hm), hterm⟩

theorem Encodable.conveys_copy {ms : List Member} {mMsg : CObject n} (h : Encodable ms msg)
    (hne : ms ≠ []) (hlayout : Layout n ms) (hint : ∀ m ∈ ms, m.kind = .int → m.cap = 4)
    (hsize : ms.length * (n + 16) < 2 ^ 30) (hn : n < 2 ^ 30)
    (hsame : ∀ m ∈ ms, SameValue msg mMsg m) (hterm : Terminated ms mMsg) :
    ∃ b, msgEncode ms .seckey ⟨.empty, mMsg⟩ = ok (b, (b.length : ℤ)) ∧ Conveys ms b msg := by
  have hmMsg := h.of_same hsame hterm
  exact ⟨_, msgEncode_eq hne hsize (writable_of_terminated hterm hmMsg.nonneg) .empty,
    (conveys_encoded hlayout hint hsize hn hmMsg).of_same hsame⟩

end Codec

/-! ## Requests -/

namespace RequestMsg

/-- The two requests have the same `cmdType` and the same strings. -/
structure Same (msg msg' : RequestMsg) : Prop where
  cmdType : msg'.int cmdType.off = msg.int cmdType.off
  clientId : msg'.str clientId.off = msg.str clientId.off
  authCode : msg'.str authCode.off = msg.str authCode.off
  serverId : msg'.str serverId.off = msg.str serverId.off
  r1 : msg'.str r1.off = msg.str r1.off

theorem eq_cmdType {m : Member} (hm : m ∈ members) (hkind : m.kind = .int) : m = cmdType :=
  (show ∀ m ∈ members, m.kind = .int → m = cmdType by decide) m hm hkind

theorem same_of_members {msg msg' : RequestMsg} (h : ∀ m ∈ members, Codec.SameValue msg msg' m) :
    Same msg msg' :=
  ⟨h cmdType (by decide), h clientId (by decide), h authCode (by decide), h serverId (by decide),
    h r1 (by decide)⟩

end RequestMsg

namespace RequestCodec

open Codec RequestMsg

theorem ofMsg_eq (g : Generation) (memory : RequestMsg) {msg : RequestMsg}
    (hterm : Terminated members msg) :
    ∃ c, ofMsg g memory msg = ok c ∧ c.seq = .empty ∧
      (∀ m ∈ members, SameValue msg c.mMsg m) ∧ Terminated members c.mMsg := by
  cases g with
  | op => exact ⟨⟨.empty, msg⟩, rfl, rfl, fun m _ => sameValue_self msg m, hterm⟩
  | seckey =>
      obtain ⟨mMsg, hstore, hsame, hterm'⟩ := storeAll_copiedValue layout (by decide) hterm
        (declared .seckey memory)
      refine ⟨⟨.empty, mMsg⟩, ?_, rfl, hsame, hterm'⟩
      rw [ofMsg, copyMembers_eq fun m hm hkind => zero_mem_ptr (hterm m hm hkind), hstore]
      rfl

/-- The `seckey` version encodes a request into octets that convey it. -/
theorem exists_conveys (memory : RequestMsg) {msg : RequestMsg} (h : Encodable members msg) :
    ∃ c b, ofMsg .seckey memory msg = ok c ∧ msgEncode .seckey c = ok (b, (b.length : ℤ)) ∧
      Conveys members b msg := by
  obtain ⟨⟨seq, mMsg⟩, hofMsg, rfl, hsame, hterm⟩ := ofMsg_eq .seckey memory h.terminated
  obtain ⟨b, hencode, hconveys⟩ :=
    h.conveys_copy (by decide) layout (by decide) (by decide) (by norm_num) hsame hterm
  exact ⟨_, b, hofMsg, hencode, hconveys⟩

/-- Every request with terminated strings and a non-negative `cmdType` is decoded by
either version as it was encoded by either version. -/
theorem request_roundTrip (gEncode gDecode : Generation) (memory memory' : RequestMsg)
    {msg : RequestMsg} (hterm : Terminated members msg) (hcmd : 0 ≤ msg.int cmdType.off) :
    ∃ c b d msg', ofMsg gEncode memory msg = ok c ∧
      msgEncode gEncode c = ok (b, (b.length : ℤ)) ∧
      msgDecode gDecode (new gDecode memory') b b.length = ok d ∧
      d.result = some msg' ∧ Same msg msg' := by
  obtain ⟨⟨seq, mMsg⟩, hofMsg, rfl, hsame, hterm'⟩ := ofMsg_eq gEncode memory hterm
  have hcmd' : 0 ≤ mMsg.int cmdType.off := (hsame cmdType (by decide)).symm ▸ hcmd
  have hwritable : ∀ m ∈ members, Writable mMsg m := by
    refine writable_of_terminated hterm' fun m hm hkind => ?_
    obtain rfl := eq_cmdType hm hkind
    exact hcmd'
  obtain ⟨msg', hstore, hsame', -⟩ := storeAll_memberValue layout rfl rfl (by decide) (by decide)
    hterm' hcmd' gDecode (declared gDecode memory')
  have hdecode : msgDecode gDecode (new gDecode memory') (encoded gEncode members mMsg)
      (encoded gEncode members mMsg).length =
        ok ⟨some msg', (members.map (memberValue gDecode mMsg)).map (0, ·)⟩ := by
    rw [msgDecode, new, msgDecode_encoded (by norm_num) (by decide) hwritable, members, hstore]
    rfl
  exact ⟨_, _, _, msg', hofMsg, msgEncode_eq (by decide) (by decide) hwritable .empty, hdecode, rfl,
    same_of_members fun m hm => (hsame m hm).trans (hsame' m hm)⟩

/-- A key agreement request with the client id `22`. -/
def keyRequest : RequestMsg :=
  ⟨intBytes 1 ++ ([0x32, 0x32] ++ List.replicate 154 0), by simp⟩

theorem request_roundTrip_keyRequest :
    ∃ c b d msg', ofMsg .seckey (.zero 160) keyRequest = ok c ∧
      msgEncode .seckey c = ok (b, (b.length : ℤ)) ∧
      msgDecode .op (new .op (.zero 160)) b b.length = ok d ∧
      d.result = some msg' ∧ Same keyRequest msg' :=
  request_roundTrip .seckey .op (.zero 160) (.zero 160) (by decide +kernel) (by decide +kernel)

end RequestCodec

/-! ## Responses -/

namespace RespondMsg

/-- The two responses have the same integers and the same strings. -/
structure Same (msg msg' : RespondMsg) : Prop where
  rv : msg'.int rv.off = msg.int rv.off
  clientId : msg'.str clientId.off = msg.str clientId.off
  serverId : msg'.str serverId.off = msg.str serverId.off
  r2 : msg'.str r2.off = msg.str r2.off
  seckeyid : msg'.int seckeyid.off = msg.int seckeyid.off

theorem eq_rv_or_seckeyid {m : Member} (hm : m ∈ members) (hkind : m.kind = .int) :
    m = rv ∨ m = seckeyid :=
  (show ∀ m ∈ members, m.kind = .int → m = rv ∨ m = seckeyid by decide) m hm hkind

theorem same_of_members {msg msg' : RespondMsg} (h : ∀ m ∈ members, Codec.SameValue msg msg' m) :
    Same msg msg' :=
  ⟨h rv (by decide), h clientId (by decide), h serverId (by decide), h r2 (by decide),
    h seckeyid (by decide)⟩

end RespondMsg

namespace RespondCodec

open Codec RespondMsg

/-- `msg` is encoded, and what is decoded in a fresh codec is `msg` again. -/
def RoundTrips (g : Generation) (msg : RespondMsg) : Prop :=
  ∀ memory memory' : RespondMsg, ∃ c b d msg',
    ofMsg g memory msg = ok c ∧ msgEncode g c = ok (b, (b.length : ℤ)) ∧
      msgDecode g (new memory') b b.length = ok d ∧ d.result = some msg' ∧ Same msg msg'

theorem ofMsg_eq (g : Generation) (memory : RespondMsg) {msg : RespondMsg}
    (hterm : Terminated members msg) :
    ∃ c, ofMsg g memory msg = ok c ∧ c.seq = .empty ∧
      (∀ m ∈ members, SameValue msg c.mMsg m) ∧ Terminated members c.mMsg := by
  cases g with
  | op => exact ⟨⟨.empty, msg⟩, rfl, rfl, fun m _ => sameValue_self msg m, hterm⟩
  | seckey =>
      -- `seckeyid` is copied second, and is the last member
      have hperm : ∀ m ∈ members, m ∈ [rv, seckeyid, clientId, serverId, r2] := by decide
      have hperm' : ∀ m ∈ [rv, seckeyid, clientId, serverId, r2], m ∈ members := by decide
      have hterm' : Terminated [rv, seckeyid, clientId, serverId, r2] msg :=
        fun m hm => hterm m (hperm' m hm)
      obtain ⟨mMsg, hstore, hsame, hterm''⟩ :=
        storeAll_copiedValue ⟨by decide, by decide⟩ (by decide) hterm' memory
      refine ⟨⟨.empty, mMsg⟩, ?_, rfl, fun m hm => hsame m (hperm m hm),
        fun m hm => hterm'' m (hperm m hm)⟩
      rw [ofMsg, copyMembers_eq fun m hm hkind => zero_mem_ptr (hterm' m hm hkind), hstore]
      rfl

/-- The `seckey` version encodes a response into octets that convey it. -/
theorem exists_conveys (memory : RespondMsg) {msg : RespondMsg} (h : Encodable members msg) :
    ∃ c b, ofMsg .seckey memory msg = ok c ∧ msgEncode .seckey c = ok (b, (b.length : ℤ)) ∧
      Conveys members b msg := by
  obtain ⟨⟨seq, mMsg⟩, hofMsg, rfl, hsame, hterm⟩ := ofMsg_eq .seckey memory h.terminated
  obtain ⟨b, hencode, hconveys⟩ :=
    h.conveys_copy (by decide) layout (by decide) (by decide) (by norm_num) hsame hterm
  exact ⟨_, b, hofMsg, hencode, hconveys⟩

/-- With both integers non-negative the `seckey` version round trips. -/
theorem roundTrips_of_nonneg {msg : RespondMsg} (hterm : Terminated members msg)
    (hrv : 0 ≤ msg.int rv.off) (hid : 0 ≤ msg.int seckeyid.off) : RoundTrips .seckey msg := by
  intro memory memory'
  have hencodable : Encodable members msg := by
    refine ⟨hterm, fun m hm hkind => ?_⟩
    rcases eq_rv_or_seckeyid hm hkind with rfl | rfl
    · exact hrv
    · exact hid
  obtain ⟨c, b, hofMsg, hencode, hconveys⟩ := exists_conveys memory hencodable
  obtain ⟨d, msg', hdecode, hresult, hsame, -⟩ := hconveys.decoded memory' []
  rw [List.append_nil] at hdecode
  exact ⟨c, b, d, msg', hofMsg, hencode, hdecode, hresult, same_of_members hsame⟩

section Failures

variable {g : Generation} {mMsg : RespondMsg} (hterm : Terminated members mMsg)
include hterm

theorem writable_strings : ∀ m ∈ [clientId, serverId, r2], Writable mMsg m := by
  have hmem : ∀ m ∈ [clientId, serverId, r2], m ∈ members ∧ m.kind = .chars := by decide
  refine writable_of_terminated (fun m hm => hterm m (hmem m hm).1) fun m hm hkind => ?_
  rw [(hmem m hm).2] at hkind
  cases hkind

theorem msgEncode_of_neg_rv (hneg : mMsg.int rv.off < 0) :
    msgEncode g ⟨.empty, mMsg⟩ = fault .nullDeref :=
  msgEncode_of_neg_head (by norm_num) rfl hneg rfl (writable_strings hterm clientId (by decide))

/-- Without `seckeyid` four elements are encoded, and the fifth is missed on decoding. -/
theorem msgDecode_of_neg_seckeyid (hrv : 0 ≤ mMsg.int rv.off) (hneg : mMsg.int seckeyid.off < 0)
    {b : Bytes} (hencode : msgEncode g ⟨.empty, mMsg⟩ = ok (b, (b.length : ℤ)))
    (memory : RespondMsg) (d : Decoded 96) : msgDecode g (new memory) b b.length ≠ ok d := by
  have hwritable : ∀ m ∈ [rv, clientId, serverId, r2], Writable mMsg m := by
    intro m hm
    rcases List.mem_cons.mp hm with rfl | hm
    · exact hrv
    · exact writable_strings hterm m hm
  have hb : msgEncode g ⟨.empty, mMsg⟩ = ok (encoded g [rv, clientId, serverId, r2] mMsg,
      ((encoded g [rv, clientId, serverId, r2] mMsg).length : ℤ)) :=
    msgEncode_of_neg_last (by decide) (by decide) hwritable rfl hneg .empty
  obtain rfl := (Prod.mk.inj (ok.inj (hencode.symm.trans hb))).1
  have hlt := length_encoded_lt (g := g) (by norm_num) (by decide) hwritable
  exact msgDecode_of_missing (isSequence_encoded (by norm_num) (by decide) hwritable) (by omega)
    (elementsSupply_map (by norm_num) hwritable) (by simp) _ d

/-- The `op` version stores eight bytes into the last four of the message. -/
theorem msgDecode_op (hrv : 0 ≤ mMsg.int rv.off) (hid : 0 ≤ mMsg.int seckeyid.off)
    {b : Bytes} (hencode : msgEncode .op ⟨.empty, mMsg⟩ = ok (b, (b.length : ℤ)))
    (memory : RespondMsg) (d : Decoded 96) : msgDecode .op (new memory) b b.length ≠ ok d := by
  have hwritable : ∀ m ∈ members, Writable mMsg m := by
    refine writable_of_terminated hterm fun m hm hkind => ?_
    rcases eq_rv_or_seckeyid hm hkind with rfl | rfl
    · exact hrv
    · exact hid
  have hb : msgEncode .op ⟨.empty, mMsg⟩ =
      ok (encoded .op members mMsg, ((encoded .op members mMsg).length : ℤ)) :=
    msgEncode_eq (by decide) (by decide) hwritable .empty
  obtain rfl := (Prod.mk.inj (ok.inj (hencode.symm.trans hb))).1
  rw [msgDecode, new, msgDecode_encoded (by norm_num) (by decide) hwritable]
  intro hdecode
  obtain ⟨msg', hstore, -⟩ := bind_eq_ok.mp hdecode
  have hmem : (seckeyid, memberValue .op mMsg seckeyid) ∈
      members.zip (members.map (memberValue .op mMsg)) := by
    rw [List.zip_map_right, members]
    simp
  have hinside := storeAll_inside hstore _ hmem
  simp only [memberValue, seckeyid, SequenceASN1.storedInt, length_longBytes] at hinside
  omega

end Failures

theorem RoundTrips.nonneg_rv {g : Generation} {msg : RespondMsg} (hterm : Terminated members msg)
    (h : RoundTrips g msg) : 0 ≤ msg.int rv.off := by
  obtain ⟨c, b, -, -, hofMsg, hencode, -⟩ := h (.zero 96) (.zero 96)
  obtain ⟨⟨seq, mMsg⟩, hofMsg', rfl, hsame, hterm'⟩ := ofMsg_eq g (.zero 96) hterm
  obtain rfl := ok.inj (hofMsg.symm.trans hofMsg')
  have hrv : mMsg.int rv.off = msg.int rv.off := hsame rv (by decide)
  rw [← hrv]
  by_contra hneg
  rw [msgEncode_of_neg_rv hterm' (not_le.mp hneg)] at hencode
  cases hencode

theorem RoundTrips.seckey_nonneg {g : Generation} {msg : RespondMsg}
    (hterm : Terminated members msg) (h : RoundTrips g msg) :
    g = .seckey ∧ 0 ≤ msg.int seckeyid.off := by
  obtain ⟨c, b, d, msg', hofMsg, hencode, hdecode, -, -⟩ := h (.zero 96) (.zero 96)
  obtain ⟨⟨seq, mMsg⟩, hofMsg', rfl, hsame, hterm'⟩ := ofMsg_eq g (.zero 96) hterm
  obtain rfl := ok.inj (hofMsg.symm.trans hofMsg')
  have hrv : mMsg.int rv.off = msg.int rv.off := hsame rv (by decide)
  have hrv' : 0 ≤ mMsg.int rv.off := by
    rw [hrv]
    exact h.nonneg_rv hterm
  have hid' : 0 ≤ mMsg.int seckeyid.off := by
    by_contra hneg
    exact msgDecode_of_neg_seckeyid hterm' hrv' (not_le.mp hneg) hencode _ d hdecode
  have hid : mMsg.int seckeyid.off = msg.int seckeyid.off := hsame seckeyid (by decide)
  rw [← hid]
  refine ⟨?_, hid'⟩
  cases g with
  | seckey => rfl
  | op => exact absurd hdecode (msgDecode_op hterm' hrv' hid' hencode _ d)

/-- A response round trips exactly in the `seckey` version and with both integers
non-negative. -/
theorem respond_roundTrips_iff (g : Generation) {msg : RespondMsg} (hterm : Terminated members msg) :
    RoundTrips g msg ↔ g = .seckey ∧ 0 ≤ msg.int rv.off ∧ 0 ≤ msg.int seckeyid.off := by
  constructor
  · intro h
    obtain ⟨hg, hid⟩ := h.seckey_nonneg hterm
    exact ⟨hg, h.nonneg_rv hterm, hid⟩
  · rintro ⟨rfl, hrv, hid⟩
    exact roundTrips_of_nonneg hterm hrv hid

/-- A response with the given integers and empty strings. -/
def withIntegers (rv seckeyid : ℤ) : RespondMsg :=
  ⟨intBytes rv ++ (List.replicate 88 0 ++ intBytes seckeyid), by simp⟩

theorem respond_roundTrips_success : RoundTrips .seckey (withIntegers 0 100) :=
  (respond_roundTrips_iff .seckey (by decide +kernel)).mpr ⟨rfl, by decide +kernel, by decide +kernel⟩

/-- The answer `rv = -1` of a server that reports a failure. -/
theorem respond_failure_not_roundTrips :
    Terminated members (withIntegers (-1) 0) ∧ ¬ RoundTrips .seckey (withIntegers (-1) 0) := by
  have hterm : Terminated members (withIntegers (-1) 0) := by decide +kernel
  have hrv : ¬ 0 ≤ (withIntegers (-1) 0).int rv.off := by decide +kernel
  exact ⟨hterm, fun h => hrv (h.nonneg_rv hterm)⟩

end RespondCodec

end SafeTransmission
