import SafeTransmission.Op.Building

/-!
# What requests show of the memory before them

`reqmsg` is not initialised.  Two runs that differ only in what the memory held before send the
same bytes, and exactly the drawn characters, if and only if the byte behind `r1` was a NUL both
times (`noLeak_iff_ends`).
-/

namespace SafeTransmission

open Outcome Codec

/-! ## What is encoded -/

namespace Codec

section Encodings

variable {n : ℕ} {g : Generation} {ms ms' : List Member} {msg msg' : CObject n}

/-- Messages whose members are encoded as the same elements are encoded as the same octets. -/
theorem encoded_congr (h : ∀ m ∈ ms, memberElement g msg m = memberElement g msg' m) :
    encoded g ms msg = encoded g ms msg' := by
  rw [encoded, encoded, List.map_congr_left h]

theorem nodes_eq_of_encoded (hn : n < 2 ^ 30) (hsize : ms.length * (n + 16) < 2 ^ 30)
    (hsize' : ms'.length * (n + 16) < 2 ^ 30) (h : ∀ m ∈ ms, Writable msg m)
    (h' : ∀ m ∈ ms', Writable msg' m) (heq : encoded g ms msg = encoded g ms' msg') :
    (ms.map (memberElement g msg)).map Tlv.node = (ms'.map (memberElement g msg')).map Tlv.node := by
  have hlt := length_encoded_lt (g := g) hn hsize h
  have hread := readSequence_of_isSequence (by norm_num) (isSequence_encoded (g := g) hn hsize h)
    (by omega)
  have hlt' := length_encoded_lt (g := g) hn hsize' h'
  have hread' := readSequence_of_isSequence (by norm_num) (isSequence_encoded (g := g) hn hsize' h')
    (by omega)
  rw [heq] at hread
  exact ok.inj (hread.symm.trans hread')

theorem int_eq_of_node (hn : n < 2 ^ 30) {m : Member} (hint : m.kind = .int) (h : Writable msg m)
    (h' : Writable msg' m) (heq : (memberElement g msg m).node = (memberElement g msg' m).node) :
    msg.int m.off = msg'.int m.off := by
  have hread : ∀ {o : CObject n}, Writable o m →
      nodeValue .seckey m.kind (memberElement g o m).node = ok (memberValue .seckey o m) := by
    intro o ho
    have hlen := length_memberElement (g := g) hn ho
    refine ((definite_memberElement hn ho).reads []).nodeValue_iff (by omega) |>.mpr ?_
    exact gives_memberElement hn ho
  have hvalue : ∀ {o : CObject n}, Writable o m → toInt32 (o.int m.off).toNat = o.int m.off := by
    intro o ho
    rw [Writable, hint] at ho
    rw [Int.toNat_of_nonneg ho]
    exact toInt32_toInt32 _
  have hsame : memberValue .seckey msg m = memberValue .seckey msg' m := by
    have hfirst := hread h
    rw [heq] at hfirst
    exact ok.inj (hfirst.symm.trans (hread h'))
  rw [memberValue, memberValue, hint] at hsame
  have hbytes : intBytes (msg.int m.off).toNat = intBytes (msg'.int m.off).toNat := hsame
  calc
    msg.int m.off = toInt32 (msg.int m.off).toNat := (hvalue h).symm
    _ = toInt32 (beNat (intBytes (msg.int m.off).toNat).reverse) := (toInt32_intBytes _).symm
    _ = toInt32 (beNat (intBytes (msg'.int m.off).toNat).reverse) := by rw [hbytes]
    _ = toInt32 (msg'.int m.off).toNat := toInt32_intBytes _
    _ = msg'.int m.off := hvalue h'

/-- A message that begins with a negative number is not encoded, whatever the string behind it. -/
theorem msgEncode_ne_ok_of_neg_head {m m' : Member} (hn : n < 2 ^ 30) (hint : m.kind = .int)
    (hneg : msg.int m.off < 0) (hchars : m'.kind = .chars) (ms : List Member) (e : Bytes × ℤ) :
    msgEncode (m :: m' :: ms) g ⟨.empty, msg⟩ ≠ ok e := by
  by_cases hends : Writable msg m'
  · rw [msgEncode_of_neg_head hn hint hneg hchars hends]
    intro hok
    cases hok
  · rw [Writable, hchars] at hends
    have hnul : 0 ∉ msg.ptr m'.off := hends
    obtain ⟨ret, hhead⟩ := SequenceASN1.writeHeadNodeInt_err (g := g) (writeInteger_neg hneg)
    have hfirst : writeMember g msg true m .empty = ok (ret, .empty) := by
      simp only [writeMember, hint, reduceIte]
      exact hhead
    have hsecond : writeMember g msg false m' .empty = fault .readOutOfBounds := by
      simp only [writeMember, hchars, strlen, if_neg hnul, fault_bind]
    simp only [msgEncode, writeMembers, hfirst, hsecond, ok_bind, fault_bind]
    intro hok
    cases hok

end Encodings

end Codec

namespace CObject

variable {n : ℕ} {o : CObject n} {off : ℕ} {d : Bytes}

theorem Holds.drop (h : o.Holds off d) (k : ℕ) :
    o.Holds (off + k) (d.drop k) := by
  have htake : (o.bytes.drop off).take d.length = d := h
  rw [Holds, chars, ptr, List.length_drop, ← List.drop_drop, ← List.drop_take, htake]

theorem zero_mem_ptr_of_le {k : ℕ} (hle : off ≤ k) (h : 0 ∈ o.ptr k) : 0 ∈ o.ptr off := by
  obtain ⟨j, rfl⟩ := Nat.exists_eq_add_of_le hle
  rw [ptr, ← List.drop_drop] at h
  exact List.mem_of_mem_drop h

/-- A string that is exactly what was stored has its NUL behind it. -/
theorem Holds.zero_behind (h : o.Holds off d) (hzero : 0 ∉ d) (hstr : o.str off = d)
    (hlt : off + d.length < n) : o.Holds (off + d.length) [0] := by
  have htake : (o.ptr off).take d.length = d := h
  have hdrop : (o.ptr off).drop d.length = o.ptr (off + d.length) := by
    rw [ptr, ptr, List.drop_drop]
  have hsplit : o.ptr off = d ++ o.ptr (off + d.length) := by
    conv_lhs => rw [← List.take_append_drop d.length (o.ptr off), htake, hdrop]
  have hrest : cString (o.ptr (off + d.length)) = [] := by
    rw [str, hsplit, cString_append hzero] at hstr
    exact List.append_right_eq_self.mp hstr
  have hlen := o.length_ptr (off + d.length)
  cases hptr : o.ptr (off + d.length) with
  | nil =>
      rw [hptr, List.length_nil] at hlen
      omega
  | cons b rest =>
      rw [hptr] at hrest
      by_cases hb : b = 0
      · rw [Holds, chars, hptr, hb]
        rfl
      · rw [cString_cons hb] at hrest
        cases hrest

end CObject

/-! ## The client -/

namespace Clientop

section Requests

variable {h : Md5Hex} {render : Bytes → Bytes} (hrender : h.Renders render) {c : Clientop}
  (hc : c.Terminated) {rand : ℕ → ℕ} {memory : RequestMsg}
include hrender hc

/-- What is drawn is in `r1`, and the byte behind it is that of the memory. -/
theorem request_keeps {reqmsg : RequestMsg} (hrequest : c.request h rand memory = ok reqmsg) :
    reqmsg.Holds RequestMsg.r1.off (drawn 10 0x30 rand) ∧
      reqmsg.chars (RequestMsg.r1.off + drawnChars) 1 =
        memory.chars (RequestMsg.r1.off + drawnChars) 1 := by
  have hclient : (c.cinfo.str clientId.off).length < 12 := length_str_lt hc.clientId
  have hserver : (c.cinfo.str serverId.off).length < 12 := length_str_lt hc.serverId
  obtain ⟨msg₁, hstore₁, hrequest⟩ := bind_eq_ok.mp hrequest
  obtain ⟨msg₂, hstore₂, hrequest⟩ := bind_eq_ok.mp hrequest
  obtain ⟨msg₃, hstore₃, hrequest⟩ := bind_eq_ok.mp hrequest
  obtain ⟨msg₄, hstore₄, hrequest⟩ := bind_eq_ok.mp hrequest
  obtain ⟨data, -, hprint⟩ := bind_eq_ok.mp hrequest
  rw [CObject.strcpy_eq (zero_mem_ptr hc.clientId), ← CObject.str] at hstore₂
  rw [CObject.strcpy_eq (zero_mem_ptr hc.serverId), ← CObject.str] at hstore₃
  obtain ⟨reqmsg', hprint', -, hkept⟩ := hrender.print_eq msg₄ RequestMsg.authCode.off data (by decide)
  obtain rfl := ok.inj (hprint'.symm.trans hprint)
  constructor
  · refine (CObject.holds_store_self hstore₄).of_chars_eq (hkept _ _ (Or.inr ?_))
    decide
  · rw [hkept _ _ (Or.inr (by decide)), CObject.chars_store_of_apart hstore₄ (Or.inr ?_),
      CObject.chars_store_of_apart hstore₃ (Or.inr ?_), CObject.chars_store_of_apart hstore₂ (Or.inr ?_),
      CObject.chars_store_of_apart hstore₁ (Or.inr (by decide))]
    · rfl
    · rw [List.length_append, List.length_singleton, RequestMsg.clientId, RequestMsg.r1]
      dsimp only
      omega
    · rw [List.length_append, List.length_singleton, RequestMsg.serverId, RequestMsg.r1]
      dsimp only
      omega
    · rw [length_drawn]

/-- A request with exactly the drawn characters was built where the byte behind them was a NUL. -/
theorem ends_of_request {reqmsg : RequestMsg} (hrequest : c.request h rand memory = ok reqmsg)
    (hr1 : reqmsg.str RequestMsg.r1.off = drawn 10 0x30 rand) :
    memory.Holds (RequestMsg.r1.off + drawnChars) [0] := by
  obtain ⟨hdrawn, hbehind⟩ := request_keeps hrender hc hrequest
  have hnul := hdrawn.zero_behind (zero_notMem_digits rand) hr1 (by rw [length_drawn]; decide)
  rw [length_drawn, CObject.Holds, List.length_singleton, hbehind] at hnul
  exact hnul

/-- A request is encoded by its ids, its code and its random string alone. -/
theorem encodeRequest_eq (hends : memory.Holds (RequestMsg.r1.off + drawnChars) [0]) :
    ∃ reqmsg, c.encodeRequest h rand memory = ok (reqmsg, encoded .op RequestMsg.members reqmsg,
        ((encoded .op RequestMsg.members reqmsg).length : ℤ)) ∧
      IsRequest render c (drawn 10 0x30 rand) reqmsg := by
  obtain ⟨reqmsg, hrequest, hreq⟩ := request_eq hc hrender hends rand
  have hwritable : ∀ m ∈ RequestMsg.members, Writable reqmsg m := by
    refine writable_of_terminated hreq.terminated fun m hm hkind => ?_
    rw [RequestMsg.eq_cmdType hm hkind, hreq.cmdType]
    decide
  refine ⟨reqmsg, ?_, hreq⟩
  rw [encodeRequest, hrequest, ok_bind, RequestCodec.ofMsg, ok_bind, RequestCodec.msgEncode,
    msgEncode_eq (by decide) (by decide) hwritable, ok_bind]

end Requests

theorem IsRequest.encoded_eq {render : Bytes → Bytes} {c : Clientop} {random : Bytes}
    {reqmsg reqmsg' : RequestMsg} (h : IsRequest render c random reqmsg)
    (h' : IsRequest render c random reqmsg') :
    encoded .op RequestMsg.members reqmsg = encoded .op RequestMsg.members reqmsg' := by
  refine encoded_congr fun m hm => ?_
  simp only [RequestMsg.members, List.mem_cons, List.not_mem_nil, or_false] at hm
  rcases hm with rfl | rfl | rfl | rfl | rfl
  · exact congrArg (fun v : ℤ => integerElement v.toNat) (h.cmdType.trans h'.cmdType.symm)
  · exact congrArg (fun s => stringElement .op (s ++ [0])) (h.clientId.trans h'.clientId.symm)
  · exact congrArg (fun s => stringElement .op (s ++ [0])) (h.authCode.trans h'.authCode.symm)
  · exact congrArg (fun s => stringElement .op (s ++ [0])) (h.serverId.trans h'.serverId.symm)
  · exact congrArg (fun s => stringElement .op (s ++ [0])) (h.r1.trans h'.r1.symm)

/-- The requests from two memories are sent as the same bytes, with exactly the drawn characters. -/
def NoLeak (h : Md5Hex) (c : Clientop) (rand : ℕ → ℕ) (memory memory' : RequestMsg) : Prop :=
  ∃ reqmsg reqmsg' sent, c.encodeRequest h rand memory = ok (reqmsg, sent) ∧
    c.encodeRequest h rand memory' = ok (reqmsg', sent) ∧
    reqmsg.str RequestMsg.r1.off = drawn 10 0x30 rand ∧
    reqmsg'.str RequestMsg.r1.off = drawn 10 0x30 rand

theorem noLeak_iff_ends (md5 : Bytes → Vector UInt8 16) {c : Clientop} (hc : c.Terminated)
    (rand : ℕ → ℕ) (memory memory' : RequestMsg) : c.NoLeak (.signed md5) rand memory memory' ↔
      memory.Holds (RequestMsg.r1.off + drawnChars) [0] ∧
        memory'.Holds (RequestMsg.r1.off + drawnChars) [0] := by
  have hrender := Md5Hex.renders_signed md5
  constructor
  · rintro ⟨reqmsg, reqmsg', sent, hencode, hencode', hr1, hr1'⟩
    obtain ⟨msg, hrequest, hencode⟩ := bind_eq_ok.mp hencode
    obtain ⟨msg', hrequest', hencode'⟩ := bind_eq_ok.mp hencode'
    obtain ⟨_, -, hencode⟩ := bind_eq_ok.mp hencode
    obtain ⟨_, -, hencode⟩ := bind_eq_ok.mp hencode
    obtain ⟨_, -, hencode'⟩ := bind_eq_ok.mp hencode'
    obtain ⟨_, -, hencode'⟩ := bind_eq_ok.mp hencode'
    obtain ⟨rfl, -⟩ := Prod.mk.inj (ok.inj hencode)
    obtain ⟨rfl, -⟩ := Prod.mk.inj (ok.inj hencode')
    exact ⟨ends_of_request hrender hc hrequest hr1, ends_of_request hrender hc hrequest' hr1'⟩
  · rintro ⟨hends, hends'⟩
    obtain ⟨reqmsg, hencode, hreq⟩ := @encodeRequest_eq _ _ hrender c hc rand memory hends
    obtain ⟨reqmsg', hencode', hreq'⟩ := @encodeRequest_eq _ _ hrender c hc rand memory' hends'
    rw [← hreq.encoded_eq hreq'] at hencode'
    exact ⟨reqmsg, reqmsg', _, hencode, hencode', hreq.r1, hreq'.r1⟩

end Clientop

end SafeTransmission
