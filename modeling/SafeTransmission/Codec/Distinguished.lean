import SafeTransmission.Codec.Malformed
import SafeTransmission.Codec.RoundTrip

/-!
# Which inputs are encoded as they came

The readers look at no tag but that of the sequence, take lengths and integers in
any form, skip what follows the NUL of a string and the fifth element, and let a
long string run on into the next field.  Encoding a decoded request again
therefore gives the distinguished encoding of its values, which need not be the
octets that were decoded.  It is, exactly for the octets that are a
distinguished encoding already (`request_reencodes_iff`).

## Strategy

* The fields of a request lie one behind the other (`Contiguous`), so the strings that were stored
  are seen in the fields as strings that may run on (`storeAll_strings`).
* Only strings that end inside the object are encoded again (`writable_of_writeMembers`).
* Then the octets are those of the same values in distinguished form (`distinguished_iff`), and
  there is one such form for each value.
-/

namespace SafeTransmission

open Outcome

namespace Codec

variable {n : ℕ}

/-! ## Strings in adjacent fields -/

/-- Each member begins where the one before it ends. -/
def Contiguous : List Member → Prop
  | m :: m' :: ms => m.off + m.cap = m'.off ∧ Contiguous (m' :: ms)
  | _ => True

/-- A string for each member: it ends inside its member, or its characters behind the
member are the next string; the last one ends inside the object of `n` bytes. -/
inductive RunOn (n : ℕ) : List Member → List Bytes → Prop where
  | nil : RunOn n [] []
  | last {m : Member} {s : Bytes} (hroom : m.off + s.length < n) : RunOn n [m] [s]
  | cons {m m' : Member} {ms : List Member} {s s' : Bytes} {ss : List Bytes}
      (hnext : s.length < m.cap ∨ s.drop m.cap = s') (hrest : RunOn n (m' :: ms) (s' :: ss)) :
      RunOn n (m :: m' :: ms) (s :: s' :: ss)

theorem Contiguous.le_off {m : Member} {ms : List Member} (h : Contiguous (m :: ms)) :
    ∀ m' ∈ ms, m.off + m.cap ≤ m'.off := by
  induction ms generalizing m with
  | nil => simp
  | cons m' ms ih =>
      have hnext := ih h.2
      refine List.forall_mem_cons.mpr ⟨h.1.le, fun m'' hm'' => ?_⟩
      have := hnext m'' hm''
      have := h.1
      omega

theorem chars_storeAll_of_le {ms : List Member} {ds : List Bytes} {msg msg' : CObject n}
    (h : storeAll ms ds msg = ok msg') {k cap : ℕ} (hk : ∀ m ∈ ms, k + cap ≤ m.off) :
    msg'.chars k cap = msg.chars k cap := by
  induction ms generalizing ds msg with
  | nil => rw [← ok.inj h]
  | cons m ms ih =>
      cases ds with
      | nil => rw [← ok.inj h]
      | cons d ds =>
          obtain ⟨msg₁, hstore, hrest⟩ := bind_eq_ok.mp h
          rw [ih hrest fun m' hm' => hk m' (List.mem_cons_of_mem _ hm'),
            CObject.chars_store_of_apart hstore (Or.inl (hk m List.mem_cons_self))]

theorem ptr_eq_chars_append (msg : CObject n) (off cap : ℕ) :
    msg.ptr off = msg.chars off cap ++ msg.ptr (off + cap) := by
  rw [CObject.chars, CObject.ptr, CObject.ptr, ← List.drop_drop, List.take_append_drop]

/-- The string in a field that `s` and its NUL were stored into, when only the bytes
behind the field changed since. -/
theorem str_of_chars_store {msg msg₁ msg' : CObject n} {off cap : ℕ} {s : Bytes} (hs : 0 ∉ s)
    (hstore : msg.store off (s ++ [0]) = ok msg₁)
    (hkept : msg'.chars off cap = msg₁.chars off cap) :
    msg'.str off = if s.length < cap then s else s.take cap ++ msg'.str (off + cap) := by
  have hchars : msg'.chars off cap = (s ++ (0 :: msg.ptr (off + (s ++ [0]).length))).take cap := by
    rw [hkept, CObject.chars, CObject.ptr_store_self hstore, List.append_assoc,
      List.singleton_append]
  split
  · rename_i hlt
    obtain ⟨k, rfl⟩ : ∃ k, cap = s.length + (k + 1) := ⟨cap - s.length - 1, by omega⟩
    rw [List.take_length_add_append, List.take_succ_cons] at hchars
    rw [CObject.str, ptr_eq_chars_append, hchars, List.append_assoc, List.cons_append]
    exact cString_terminated hs _
  · rename_i hge
    rw [List.take_append_of_le_length (not_lt.mp hge)] at hchars
    rw [CObject.str, ptr_eq_chars_append, hchars]
    exact cString_append (fun h => hs (List.mem_of_mem_take h)) _

/-- Strings that are stored into adjacent members are what the members hold exactly
if they run on into each other. -/
theorem storeAll_strings {ms : List Member} {ss : List Bytes} {msg msg' : CObject n}
    (hcont : Contiguous ms) (hlen : ms.length = ss.length) (hss : ∀ s ∈ ss, 0 ∉ s)
    (h : storeAll ms (ss.map (· ++ [0])) msg = ok msg') :
    (∀ m ∈ ms, 0 ∈ msg'.ptr m.off) ∧
      ((ms.map fun m => msg'.str m.off) = ss ↔ RunOn n ms ss) := by
  induction ms generalizing ss msg with
  | nil =>
      obtain rfl := List.length_eq_zero_iff.mp hlen.symm
      exact ⟨by simp, by simp [RunOn.nil]⟩
  | cons m ms ih =>
      obtain ⟨s, ss, rfl⟩ := List.exists_cons_of_length_eq_add_one hlen.symm
      obtain ⟨msg₁, hstore, hrest⟩ := bind_eq_ok.mp h
      obtain ⟨hs, hss⟩ := List.forall_mem_cons.mp hss
      have hkept := chars_storeAll_of_le hrest hcont.le_off
      have hstr := str_of_chars_store hs hstore hkept
      cases ms with
      | nil =>
          obtain rfl : ss = [] := List.length_eq_zero_iff.mp (by simpa using hlen.symm)
          obtain rfl := ok.inj hrest
          have hroom := (CObject.store_eq_ok.mp hstore).1
          have hself := CObject.holds_store_self hstore
          rw [List.length_append, List.length_singleton] at hroom
          refine ⟨?_, ?_⟩
          · rw [List.forall_mem_singleton, CObject.ptr_store_self hstore]
            simp
          · rw [List.map_singleton, hself.str_eq hs]
            exact ⟨fun _ => .last (by omega), fun _ => rfl⟩
      | cons m' ms =>
          obtain ⟨s', ss, rfl⟩ := List.exists_cons_of_length_eq_add_one
            (show ss.length = ms.length + 1 by simpa using hlen.symm)
          obtain ⟨hzero, hiff⟩ := ih hcont.2 (by simpa using hlen) hss hrest
          refine ⟨List.forall_mem_cons.mpr ⟨?_, hzero⟩, ?_⟩
          · -- the string may run on into the next member, which ends
            rw [ptr_eq_chars_append _ _ m.cap, hcont.1]
            exact List.mem_append_right _ (hzero m' List.mem_cons_self)
          · rw [hcont.1] at hstr
            constructor
            · intro hstrs
              obtain ⟨hfirst, hmore⟩ := List.cons_eq_cons.mp hstrs
              have hfirst : msg'.str m.off = s := hfirst
              have hsecond : msg'.str m'.off = s' := (List.cons_eq_cons.mp hmore).1
              refine .cons ?_ (hiff.mp hmore)
              rw [← hsecond]
              -- either it ends in its array, or it goes on with the next string
              split at hstr
              · exact Or.inl ‹_›
              · right
                conv_lhs => rw [← hfirst, hstr]
                exact List.drop_left' (by simp; omega)
            · rintro (_ | _ | ⟨hnext, hmore⟩)
              have htail := hiff.mpr hmore
              have hsecond : msg'.str m'.off = s' := (List.cons_eq_cons.mp htail).1
              rw [List.map_cons, htail, hstr, hsecond]
              split
              · rfl
              · rw [← hnext.resolve_left ‹_›, List.take_append_drop]

theorem RunOn.length_eq {ms : List Member} {ss : List Bytes} (h : RunOn n ms ss) :
    ms.length = ss.length := by
  induction h with
  | nil => rfl
  | last _ => rfl
  | cons _ _ ih => simpa using ih

theorem RunOn.off_add_length_lt {ms : List Member} {ss : List Bytes} (h : RunOn n ms ss)
    (hcont : Contiguous ms) (hinside : ∀ m ∈ ms, m.off + m.cap ≤ n) :
    ∀ p ∈ ms.zip ss, p.1.off + p.2.length < n := by
  induction h with
  | nil => simp
  | last hroom => simpa using hroom
  | @cons m m' ms s s' ss hnext _ ih =>
      have hrest := ih hcont.2 fun m hm => hinside m (List.mem_cons_of_mem _ hm)
      have hsecond : m'.off + s'.length < n := hrest (m', s') (by simp)
      have hadjacent := hcont.1
      have hroom := hinside m' (by simp)
      rw [List.zip_cons_cons, List.forall_mem_cons]
      refine ⟨?_, hrest⟩
      change m.off + s.length < n
      rcases hnext with hlt | rfl
      · omega
      · rw [List.length_drop] at hsecond
        omega

theorem RunOn.length_lt {ms : List Member} {ss : List Bytes} (h : RunOn n ms ss)
    (hcont : Contiguous ms) (hinside : ∀ m ∈ ms, m.off + m.cap ≤ n) : ∀ s ∈ ss, s.length < n := by
  intro s hs
  rw [← List.map_snd_zip h.length_eq.ge] at hs
  obtain ⟨p, hp, rfl⟩ := List.mem_map.mp hs
  have := h.off_add_length_lt hcont hinside p hp
  omega

/-- Only strings that end inside the object are written. -/
theorem writable_of_writeMembers {g : Generation} {msg : CObject n} {ms : List Member} {first : Bool}
    {s s' : SequenceASN1} (h : writeMembers g msg first ms s = ok s') :
    ∀ m ∈ ms, m.kind = .chars → Writable msg m := by
  induction ms generalizing first s with
  | nil => simp
  | cons m ms ih =>
      obtain ⟨step, hwrite, hrest⟩ := bind_eq_ok.mp h
      refine List.forall_mem_cons.mpr ⟨fun hkind => ?_, ih hrest⟩
      unfold writeMember at hwrite
      simp only [hkind] at hwrite
      obtain ⟨len, hlen, -⟩ := bind_eq_ok.mp hwrite
      unfold strlen at hlen
      unfold Writable
      rw [hkind]
      by_contra hzero
      rw [if_neg hzero] at hlen
      cases hlen

theorem elementsSupply_printableElement {ms : List Member} {ss : List Bytes}
    (hkind : ∀ m ∈ ms, m.kind = .chars) (hlen : ms.length = ss.length)
    (hss : ∀ s ∈ ss, s.length < 2 ^ 32) :
    ElementsSupply .seckey ms (ss.map printableElement) ss := by
  induction ms generalizing ss with
  | nil =>
      obtain rfl := List.length_eq_zero_iff.mp hlen.symm
      exact .nil []
  | cons m ms ih =>
      obtain ⟨s, ss, rfl⟩ := List.exists_cons_of_length_eq_add_one hlen.symm
      obtain ⟨hs, hss⟩ := List.forall_mem_cons.mp hss
      refine .cons ?_ (ih (fun m' hm' => hkind m' (List.mem_cons_of_mem _ hm')) (by simpa using hlen) hss)
      rw [hkind m List.mem_cons_self]
      exact holdsString_printableElement hs

theorem msgDecode_messageElements {m : Member} {ms : List Member} {v : ℕ} {ss : List Bytes}
    (hint : m.kind = .int) (hchars : ∀ m ∈ ms, m.kind = .chars) (hlen : ms.length = ss.length)
    (hv : v < 2 ^ 32) (hss : ∀ s ∈ ss, s.length < 2 ^ 32)
    (hlt : ((messageElements v ss).flatMap Tlv.bytes).length < 2 ^ 30) (msg : CObject n) :
    msgDecode (m :: ms) .seckey ⟨.empty, msg⟩ (sequenceOctets (messageElements v ss))
      (sequenceOctets (messageElements v ss)).length = (do
        let msg ← storeAll (m :: ms) (intBytes v :: ss) msg
        ok ⟨some msg, (intBytes v :: ss).map (0, ·)⟩) := by
  have htotal := length_sequenceOctets (messageElements v ss) (by omega)
  have hseq := isSequence_messageElements (w := longBits) hv hss (by omega)
  refine msgDecode_of_elements hseq (by omega) (.cons ?_ (elementsSupply_printableElement hchars hlen hss)) msg
  rw [hint]
  refine ⟨v, holdsInteger_integerElement hv, ?_⟩
  rw [Nat.mod_eq_of_lt (hv.trans (by norm_num))]
  rfl

end Codec

namespace RequestMsg

/-- The string members, in their order. -/
def strings : List Member := [clientId, authCode, serverId, r1]

theorem contiguous_strings : Codec.Contiguous strings :=
  ⟨rfl, rfl, rfl, trivial⟩

/-- `b` is the distinguished encoding of a request: a sequence of exactly five
elements, an integer in its shortest form that is an `int`, and four PrintableStrings
with a NUL at the end and nowhere else, all lengths in their shortest form.  The
strings fit into the fields, or run on into what the next field holds. -/
inductive Distinguished : Bytes → Prop where
  | intro {number e b : Bytes} {ss es : List Bytes} (hnumber : MinimalNat number)
      (hint : beNat number < 2 ^ 31) (hzero : ∀ s ∈ ss, 0 ∉ s) (hfit : Codec.RunOn 160 strings ss)
      (he : DerElement 0x02 number e)
      (hes : List.Forall₂ (fun s e => DerElement 0x13 (s ++ [0]) e) ss es)
      (hb : DerElement 0x30 (e ++ es.flatten) b) : Distinguished b

theorem length_lt_of_runOn {ss : List Bytes} (h : Codec.RunOn 160 strings ss) :
    ss.length = 4 ∧ ∀ s ∈ ss, s.length < 160 :=
  ⟨h.length_eq.symm, h.length_lt contiguous_strings (by decide)⟩

theorem length_messageElements_lt {v : ℕ} {ss : List Bytes} (hv : v < 2 ^ 31)
    (hfit : Codec.RunOn 160 strings ss) :
    ((messageElements v (ss.map (· ++ [0]))).flatMap Tlv.bytes).length < 65535 := by
  obtain ⟨hcount, hlen⟩ := length_lt_of_runOn hfit
  have hbytes : ∀ t ∈ messageElements v (ss.map (· ++ [0])), t.bytes.length ≤ 200 := by
    refine List.forall_mem_cons.mpr ⟨?_, fun t ht => ?_⟩
    · obtain ⟨-, -, -, hnumber⟩ := intToChar_eq (n := v) (by omega)
      simp only [integerElement, Tlv.length_bytes, List.length_singleton]
      omega
    · obtain ⟨s, hs, rfl⟩ : ∃ s ∈ ss, printableElement (s ++ [0]) = t := by simpa using ht
      have hs := hlen s hs
      have helement := length_stringElement .seckey (s := s ++ [0]) (by simp; omega)
      simp only [stringElement, List.length_append, List.length_singleton] at helement
      omega
  have hsum := List.sum_le_card_nsmul _ 200 fun k hk => by
    obtain ⟨t, ht, rfl⟩ := List.mem_map.mp hk
    exact hbytes t ht
  rw [List.length_flatMap]
  refine hsum.trans_lt ?_
  simp [messageElements, hcount]

/-- The distinguished encodings are what the writers produce for an `int` and four
strings. -/
theorem distinguished_iff {b : Bytes} : Distinguished b ↔
    ∃ v ss, v < 2 ^ 31 ∧ (∀ s ∈ ss, 0 ∉ s) ∧ Codec.RunOn 160 strings ss ∧
      b = sequenceOctets (messageElements v (ss.map (· ++ [0]))) := by
  have helements : ∀ {v : ℕ} {ss : List Bytes}, (messageElements v (ss.map (· ++ [0]))).flatMap Tlv.bytes =
      (integerElement v).bytes ++ (ss.map fun s => (printableElement (s ++ [0])).bytes).flatten := by
    intro v ss
    simp [messageElements, List.flatMap_def, Function.comp_def]
  have hstrings : ∀ {ss : List Bytes}, Codec.RunOn 160 strings ss →
      List.Forall₂ (fun s e => DerElement 0x13 (s ++ [0]) e) ss
        (ss.map fun s => (printableElement (s ++ [0])).bytes) := by
    intro ss hfit
    rw [List.forall₂_map_right_iff, List.forall₂_same]
    intro s hs
    have := (length_lt_of_runOn hfit).2 s hs
    exact derElement_printableElement (by simp; omega)
  constructor
  · rintro @⟨number, e, b, ss, es, hnumber, hint, hzero, hfit, he, hes, hb⟩
    obtain ⟨-, hmin, hvalue, -⟩ := intToChar_eq (n := beNat number) (by omega)
    refine ⟨beNat number, ss, hint, hzero, hfit, ?_⟩
    rw [hnumber.eq_of_beNat_eq hmin hvalue.symm] at he
    obtain rfl := he.unique (derElement_integerElement (by omega))
    obtain rfl := List.right_unique_forall₂' (fun _ _ _ h h' => h.unique h') hes (hstrings hfit)
    rw [← helements] at hb
    exact hb.unique (derElement_sequenceOctets (length_messageElements_lt hint hfit))
  · rintro ⟨v, ss, hv, hzero, hfit, rfl⟩
    obtain ⟨-, hmin, hvalue, -⟩ := intToChar_eq (n := v) (by omega)
    refine .intro hmin (by omega) hzero hfit (derElement_integerElement (by omega)) (hstrings hfit) ?_
    rw [← helements]
    exact derElement_sequenceOctets (length_messageElements_lt hv hfit)

theorem elements_eq (msg : RequestMsg) : members.map (memberElement .seckey msg) =
    messageElements (msg.int cmdType.off).toNat
      ((strings.map fun m => msg.str m.off).map (· ++ [0])) := rfl

end RequestMsg

namespace RequestCodec

open Codec RequestMsg

theorem writable_of_msgEncode {msg : RequestMsg} {out : Bytes × ℤ}
    (h : msgEncode .seckey ⟨.empty, msg⟩ = ok out) : ∀ m ∈ members, Writable msg m := by
  obtain ⟨s, hwrite, -⟩ := bind_eq_ok.mp h
  have hchars := writable_of_writeMembers hwrite
  intro m hm
  cases hkind : m.kind with
  | chars => exact hchars m hm hkind
  | int =>
      obtain rfl := eq_cmdType hm hkind
      by_contra hneg
      have hfault : Codec.msgEncode members .seckey ⟨.empty, msg⟩ = fault .nullDeref :=
        msgEncode_of_neg_head (by norm_num) rfl (not_le.mp hneg) rfl (hchars clientId (by decide) rfl)
      rw [msgEncode, hfault] at h
      cases h

/-- What is decoded from a number and strings that run on into each other. -/
theorem msgDecode_distinguished {v : ℕ} {ss : List Bytes} (hv : v < 2 ^ 31)
    (hfit : RunOn 160 strings ss) (memory : RequestMsg) :
    msgDecode .seckey (new .seckey memory) (sequenceOctets (messageElements v (ss.map (· ++ [0]))))
      (sequenceOctets (messageElements v (ss.map (· ++ [0])))).length = (do
        let msg ← storeAll members (intBytes v :: ss.map (· ++ [0])) (declared .seckey memory)
        ok ⟨some msg, (intBytes v :: ss.map (· ++ [0])).map (0, ·)⟩) := by
  obtain ⟨hcount, hlen⟩ := length_lt_of_runOn hfit
  refine Codec.msgDecode_messageElements rfl (by decide) (by simp [hcount]) (by omega) ?_
    ((length_messageElements_lt hv hfit).trans (by norm_num)) _
  refine List.forall_mem_map.mpr fun s hs => ?_
  rw [List.length_append, List.length_singleton]
  have := hlen s hs
  omega

/-- Encoding a decoded request gives the octets that were decoded exactly if these
are a distinguished encoding. -/
theorem request_reencodes_iff {b : Bytes} (hb : b.length < 2 ^ 31) {memory msg : RequestMsg}
    {d : Decoded 160} (hdecode : msgDecode .seckey (new .seckey memory) b b.length = ok d)
    (hresult : d.result = some msg) :
    msgEncode .seckey ⟨.empty, msg⟩ = ok (b, (b.length : ℤ)) ↔ Distinguished b := by
  constructor
  · intro hencode
    -- what was encoded is distinguished, and it is `b`
    have hwritable := writable_of_msgEncode hencode
    have henc := msgEncode_eq (g := .seckey) (by decide) (by decide) hwritable .empty
    obtain rfl := (Prod.mk.inj (ok.inj (hencode.symm.trans henc))).1
    rw [msgDecode, new, msgDecode_encoded (by norm_num) (by decide) hwritable] at hdecode
    obtain ⟨msg', hstore, hd⟩ := bind_eq_ok.mp hdecode
    obtain rfl : msg' = msg := by
      rw [← ok.inj hd] at hresult
      exact Option.some.inj hresult
    obtain ⟨msg₁, -, hstrings⟩ := bind_eq_ok.mp hstore
    have hzero : ∀ s ∈ strings.map fun m => msg'.str m.off, 0 ∉ s :=
      List.forall_mem_map.mpr fun m _ => zero_notMem_cString _
    have hfit := (storeAll_strings contiguous_strings (by simp) hzero hstrings).2.mp rfl
    have hlt : ∀ {v : ℤ}, v < 2 ^ 31 → v.toNat < 2 ^ 31 := by omega
    exact distinguished_iff.mpr ⟨_, _, hlt (toInt32_range _).2, hzero, hfit, rfl⟩
  · intro hdist
    -- what is decoded are the values of `b`, and they are encoded in the same form
    obtain ⟨v, ss, hv, hzero, hfit, rfl⟩ := distinguished_iff.mp hdist
    rw [msgDecode_distinguished hv hfit] at hdecode
    obtain ⟨msg', hstore, hd⟩ := bind_eq_ok.mp hdecode
    obtain rfl : msg' = msg := by
      rw [← ok.inj hd] at hresult
      exact Option.some.inj hresult
    obtain ⟨msg₁, hnumber, hstrings⟩ := bind_eq_ok.mp hstore
    obtain ⟨hptr, hstr⟩ := storeAll_strings contiguous_strings hfit.length_eq hzero
      hstrings
    have hstr := hstr.mpr hfit
    have hint : msg'.int cmdType.off = v := by
      have hheld : msg'.Holds cmdType.off (intBytes v) := by
        rw [CObject.Holds, length_intBytes, chars_storeAll_of_le hstrings (by decide)]
        exact CObject.holds_store_self hnumber
      rw [hheld.int_eq, toInt32_of_range (by omega) (by omega)]
    have hwritable : ∀ m ∈ members, Writable msg' m := by
      refine List.forall_mem_cons.mpr ⟨?_, fun m hm => ?_⟩
      · change 0 ≤ msg'.int cmdType.off
        rw [hint]
        exact Int.natCast_nonneg v
      · unfold Writable
        rw [(show ∀ m ∈ strings, m.kind = .chars by decide) m hm]
        exact hptr m hm
    have hencoded : encoded .seckey members msg' =
        sequenceOctets (messageElements v (ss.map (· ++ [0]))) := by
      rw [encoded, elements_eq, hint, hstr, Int.toNat_natCast]
    rw [msgEncode, msgEncode_eq (by decide) (by decide) hwritable, hencoded]

/-- A number and four empty strings. -/
def emptyStrings : Bytes :=
  sequenceOctets (messageElements 1 [[0], [0], [0], [0]])

/-- The request with the number one and empty strings. -/
def emptyStringsRequest : RequestMsg :=
  ⟨intBytes 1 ++ List.replicate 156 0, by simp⟩

theorem distinguished_emptyStrings : Distinguished emptyStrings :=
  have hdecode : msgDecode .seckey (new .seckey (.zero 160)) emptyStrings emptyStrings.length =
      ok ⟨some emptyStringsRequest, [(0, intBytes 1), (0, [0]), (0, [0]), (0, [0]), (0, [0])]⟩ := by
    decide +kernel
  (request_reencodes_iff (by decide) hdecode rfl).mp (by decide +kernel)

/-- The same elements behind the identifier `0x10` are decoded without an error, but
encoded with the identifier `0x30`. -/
theorem request_identifier10_not_reencoded :
    ∃ d, msgDecode .seckey (new .seckey (.zero 160)) (0x10 :: emptyStrings.tail)
        (0x10 :: emptyStrings.tail : Bytes).length = ok d ∧
      FilledFromNodes .seckey members (0x10 :: emptyStrings.tail) d ∧
      d.result = some emptyStringsRequest ∧
      msgEncode .seckey ⟨.empty, emptyStringsRequest⟩ ≠
        ok (0x10 :: emptyStrings.tail, ((0x10 :: emptyStrings.tail : Bytes).length : ℤ)) := by
  refine ⟨⟨some emptyStringsRequest, [(0, intBytes 1), (0, [0]), (0, [0]), (0, [0]), (0, [0])]⟩,
    by decide +kernel, ?_, rfl, by decide +kernel⟩
  refine ⟨(messageElements 1 [[0], [0], [0], [0]]).map Tlv.node, [intBytes 1, [0], [0], [0], [0]],
    by decide +kernel, ?_, rfl⟩
  have hstring : nodeValue .seckey .chars (printableElement [0]).node = ok [0] := by decide +kernel
  exact .cons (by decide +kernel)
    (.cons hstring (.cons hstring (.cons hstring (.cons hstring (.nil [])))))

end RequestCodec

end SafeTransmission
