import SafeTransmission.Agreement.Replies
import SafeTransmission.Op.Composing

/-!
# Requests and replies of `clientop` and `serverop`

Where the byte behind the drawn characters is a NUL, the client builds a request with its ids,
exactly these characters and the digest of its data (`request_eq`), and the server answers an
accepted one with its own characters (`respond_eq`).  Both sides then make the key from the same
two strings.
-/

namespace SafeTransmission

open Outcome Codec

instance {n : ℕ} (o : CObject n) (off : ℕ) (d : Bytes) : Decidable (o.Holds off d) :=
  inferInstanceAs (Decidable (_ = _))

/-- What keeps the bytes of a place keeps what the place holds. -/
theorem CObject.Holds.of_chars_eq {n : ℕ} {o o' : CObject n} {off : ℕ} {d : Bytes} (hd : o.Holds off d)
    (hchars : o'.chars off d.length = o.chars off d.length) : o'.Holds off d := by
  rw [Holds, hchars]
  exact hd

theorem exists_key {n : ℕ} {o : CObject n} {m : Member} (hends : 0 ∈ o.chars m.off m.cap)
    (hcap : m.cap ≤ 34) (memory : CObject 34) :
    ∃ key, memory.strcpy 0 (o.ptr m.off) = ok key ∧ 0 ∈ key.ptr 0 ∧ key.str 0 = o.str m.off := by
  have hlen := length_str_lt hends
  have hfits : 0 + (o.str m.off ++ [0]).length ≤ 34 := by
    rw [List.length_append, List.length_singleton]
    omega
  obtain ⟨key, hstore⟩ := memory.exists_store hfits
  have hheld := CObject.holds_store_self hstore
  have hzero := zero_notMem_str o m.off
  refine ⟨key, ?_, zero_mem_ptr (hheld.zero_mem hlen), hheld.str_eq hzero⟩
  rw [CObject.strcpy_eq (zero_mem_ptr hends), ← CObject.str, hstore]

/-! ## Requests -/

namespace Clientop

/-- The ids and the key of a client end inside their arrays. -/
structure Terminated (c : Clientop) : Prop where
  clientId : 0 ∈ c.cinfo.chars clientId.off clientId.cap
  serverId : 0 ∈ c.cinfo.chars serverId.off serverId.cap
  key : 0 ∈ c.key.ptr 0

/-- The text of which the client makes its code for a random string. -/
def codeData (c : Clientop) (random : Bytes) : Bytes :=
  c.cinfo.str clientId.off ++ (c.cinfo.str serverId.off ++ random) ++ c.key.str 0

/-- A request of the client, with a code for the random string. -/
structure IsRequest (render : Bytes → Bytes) (c : Clientop) (random : Bytes) (reqmsg : RequestMsg) :
    Prop where
  terminated : Codec.Terminated RequestMsg.members reqmsg
  cmdType : reqmsg.int RequestMsg.cmdType.off = 1
  clientId : reqmsg.str RequestMsg.clientId.off = c.cinfo.str clientId.off
  serverId : reqmsg.str RequestMsg.serverId.off = c.cinfo.str serverId.off
  r1 : reqmsg.str RequestMsg.r1.off = random
  authCode : reqmsg.str RequestMsg.authCode.off = render (c.codeData random)

theorem zero_notMem_digits (rand : ℕ → ℕ) : 0 ∉ drawn 10 0x30 rand :=
  zero_notMem_drawn (by norm_num) (by norm_num) (by norm_num) rand

theorem length_key_lt {key : CObject 34} (hkey : 0 ∈ key.ptr 0) : (key.str 0).length < 34 := by
  have hlt := length_cString_lt hkey
  rwa [CObject.length_ptr] at hlt

/-- The first `drawnChars` bytes of `r1`. -/
def r1Drawn : Member := ⟨.chars, RequestMsg.r1.off, drawnChars⟩

/-- What is in `reqmsg` in front of the code: the command, the ids and the random string. -/
structure Filled (c : Clientop) (random : Bytes) (msg : RequestMsg) : Prop where
  cmdType : msg.Holds RequestMsg.cmdType.off (intBytes 1)
  clientId : msg.Holds RequestMsg.clientId.off (c.cinfo.str clientId.off ++ [0])
  serverId : msg.Holds RequestMsg.serverId.off (c.cinfo.str serverId.off ++ [0])
  r1 : msg.Holds RequestMsg.r1.off (random ++ [0])

section Requests

variable {c : Clientop} (hc : c.Terminated) {memory : RequestMsg}
include hc

/-- The four stores, if the byte behind `r1` is a NUL. -/
theorem exists_filled (hends : memory.Holds (RequestMsg.r1.off + drawnChars) [0]) (rand : ℕ → ℕ) :
    ∃ msg₁ msg₂ msg₃ msg, memory.store RequestMsg.cmdType.off (intBytes 1) = ok msg₁ ∧
      msg₁.store RequestMsg.clientId.off (c.cinfo.str clientId.off ++ [0]) = ok msg₂ ∧
      msg₂.store RequestMsg.serverId.off (c.cinfo.str serverId.off ++ [0]) = ok msg₃ ∧
      msg₃.store RequestMsg.r1.off (drawn 10 0x30 rand) = ok msg ∧
      Filled c (drawn 10 0x30 rand) msg := by
  have hclient : (c.cinfo.str clientId.off).length < 12 := length_str_lt hc.clientId
  have hserver : (c.cinfo.str serverId.off).length < 12 := length_str_lt hc.serverId
  have hlen : (drawn 10 0x30 rand).length = 30 := length_drawn ..
  have hlayout : Layout 160 [RequestMsg.cmdType, RequestMsg.clientId, RequestMsg.serverId, r1Drawn] :=
    ⟨by decide, by decide⟩
  have hcap : List.Forall₂ (fun m d => d.length ≤ m.cap)
      [RequestMsg.cmdType, RequestMsg.clientId, RequestMsg.serverId, r1Drawn]
      [intBytes 1, c.cinfo.str clientId.off ++ [0], c.cinfo.str serverId.off ++ [0],
        drawn 10 0x30 rand] := by
    simp [RequestMsg.cmdType, RequestMsg.clientId, RequestMsg.serverId, r1Drawn, hlen, drawnChars]
    omega
  obtain ⟨msg, hstore, hholds⟩ := storeAll_spec hlayout hcap memory
  have hnul := storeAll_holds_of_apart hcap hstore (by decide) hends
  simp only [List.forall₂_cons, List.Forall₂.nil, and_true] at hholds
  obtain ⟨hcmdType, hclientId, hserverId, hr1⟩ := hholds
  simp only [storeAll_cons_eq_ok, storeAll_singleton] at hstore
  obtain ⟨msg₁, hstore₁, msg₂, hstore₂, msg₃, hstore₃, hstore₄⟩ := hstore
  -- the drawn characters, and the NUL that was there
  have hr1Ends : msg.Holds RequestMsg.r1.off (drawn 10 0x30 rand ++ [0]) :=
    hr1.append (by rwa [hlen])
  exact ⟨msg₁, msg₂, msg₃, msg, hstore₁, hstore₂, hstore₃, hstore₄,
    ⟨hcmdType, hclientId, hserverId, hr1Ends⟩⟩

section Filled

variable {random : Bytes} (hrandom : 0 ∉ random) (hlen : random.length = 30) {msg : RequestMsg}
  (hfilled : Filled c random msg)
include hrandom hlen hfilled

theorem authData_filled : authData (msg.ptr RequestMsg.clientId.off)
    (msg.ptr RequestMsg.serverId.off) (msg.ptr RequestMsg.r1.off) (c.key.ptr 0) =
      ok (c.codeData random) := by
  have hclient : (c.cinfo.str clientId.off).length < 12 := length_str_lt hc.clientId
  have hserver : (c.cinfo.str serverId.off).length < 12 := length_str_lt hc.serverId
  have hkey := length_key_lt hc.key
  obtain ⟨hclientMem, hclientStr⟩ := hfilled.clientId.string (zero_notMem_str _ _) hclient
  obtain ⟨hserverMem, hserverStr⟩ := hfilled.serverId.string (zero_notMem_str _ _) hserver
  obtain ⟨hr1Mem, hr1Str⟩ := @CObject.Holds.string _ msg random RequestMsg.r1 hfilled.r1 hrandom
    (by rw [hlen]; decide)
  refine authData_eq_ok.mpr ⟨zero_mem_ptr hclientMem, zero_mem_ptr hserverMem, zero_mem_ptr hr1Mem,
    hc.key, ?_, ?_⟩
  · rw [← CObject.str, ← CObject.str, ← CObject.str, ← CObject.str, hclientStr, hserverStr, hr1Str]
    omega
  · rw [← CObject.str, ← CObject.str, ← CObject.str, ← CObject.str, hclientStr, hserverStr, hr1Str]
    rfl

theorem isRequest_filled {h : Md5Hex} {render : Bytes → Bytes} (hrender : h.Renders render) :
    ∃ reqmsg, h.print msg RequestMsg.authCode.off (c.codeData random) = ok reqmsg ∧
      IsRequest render c random reqmsg := by
  obtain ⟨reqmsg, hprint, hcode, hkept⟩ := hrender.print_eq msg RequestMsg.authCode.off
    (c.codeData random) (by decide)
  have hclient : (c.cinfo.str clientId.off).length < 12 := length_str_lt hc.clientId
  have hserver : (c.cinfo.str serverId.off).length < 12 := length_str_lt hc.serverId
  have hafter : ∀ {m : Member} {text : Bytes}, msg.Holds m.off (text ++ [0]) →
      m.off + (text ++ [0]).length ≤ RequestMsg.authCode.off ∨ RequestMsg.authCode.off + 39 ≤ m.off →
      0 ∉ text → text.length < m.cap → 0 ∈ reqmsg.chars m.off m.cap ∧ reqmsg.str m.off = text :=
    fun hheld hapart htext hfits => (hheld.of_chars_eq (hkept _ _ hapart)).string htext hfits
  have hclientEnd := hafter hfilled.clientId (Or.inl (by
    rw [List.length_append, List.length_singleton]
    exact Nat.add_le_add_left hclient 4)) (zero_notMem_str _ _) hclient
  have hserverEnd := hafter hfilled.serverId (Or.inr (by decide)) (zero_notMem_str _ _) hserver
  have hr1End := @hafter RequestMsg.r1 random hfilled.r1 (Or.inr (by decide)) hrandom
    (by rw [hlen]; decide)
  have hcodeEnd := hcode.string (m := RequestMsg.authCode) (hrender.zero_notMem _)
    ((hrender.length_le _).trans_lt (by decide))
  have hterm : Codec.Terminated RequestMsg.members reqmsg := by
    intro m hm hkind
    simp only [RequestMsg.members, List.mem_cons, List.not_mem_nil, or_false] at hm
    rcases hm with rfl | rfl | rfl | rfl | rfl
    · cases hkind
    · exact hclientEnd.1
    · exact hcodeEnd.1
    · exact hserverEnd.1
    · exact hr1End.1
  have hcmd := hfilled.cmdType.of_chars_eq (hkept _ _ (Or.inl (by decide)))
  exact ⟨reqmsg, hprint,
    ⟨hterm, hcmd.int_eq, hclientEnd.2, hserverEnd.2, hr1End.2, hcodeEnd.2⟩⟩

end Filled

theorem request_eq {h : Md5Hex} {render : Bytes → Bytes} (hrender : h.Renders render)
    (hends : memory.Holds (RequestMsg.r1.off + drawnChars) [0]) (rand : ℕ → ℕ) :
    ∃ reqmsg, c.request h rand memory = ok reqmsg ∧
      IsRequest render c (drawn 10 0x30 rand) reqmsg := by
  have hdigits := zero_notMem_digits rand
  have hlen : (drawn 10 0x30 rand).length = 30 := length_drawn ..
  obtain ⟨msg₁, msg₂, msg₃, msg, hstore₁, hstore₂, hstore₃, hstore₄, hfilled⟩ :=
    exists_filled hc hends rand
  have hdata := authData_filled hc hdigits hlen hfilled
  obtain ⟨reqmsg, hprint, hreq⟩ := isRequest_filled hc hdigits hlen hfilled hrender
  have hdeclared : RequestMsg.declared .op memory = memory := rfl
  refine ⟨reqmsg, ?_, hreq⟩
  rw [request, hdeclared, hstore₁, ok_bind, CObject.strcpy_eq (zero_mem_ptr hc.clientId),
    ← CObject.str, hstore₂, ok_bind, CObject.strcpy_eq (zero_mem_ptr hc.serverId), ← CObject.str,
    hstore₃, ok_bind, hstore₄, ok_bind, hdata, ok_bind, hprint]

end Requests

end Clientop

/-! ## Replies -/

namespace Serverop

/-- The id and the key of a server end inside their arrays. -/
structure Terminated (sop : Serverop) : Prop where
  serverID : 0 ∈ sop.sinfo.chars ServerInfo.serverID.off ServerInfo.serverID.cap
  key : 0 ∈ sop.key.ptr 0

/-- The text of which the server computes the code of a request. -/
def codeData (sop : Serverop) (reqmsg : RequestMsg) : Bytes :=
  reqmsg.str RequestMsg.clientId.off ++
    (reqmsg.str RequestMsg.serverId.off ++ reqmsg.str RequestMsg.r1.off) ++ sop.key.str 0

section Replies

variable {f : HexText} {sop : Serverop} {reqmsg : RequestMsg}

/-- The digits that were printed into an array for 34 characters. -/
theorem str_printed {data : Bytes} {o : CObject 34}
    (hprint : (Md5Hex.ofText f).print (.zero 34) 0 data = ok o) :
    0 ∈ o.ptr 0 ∧ o.str 0 = f.text data := by
  have hheld := CObject.holds_store_self hprint
  have hlen : (f.text data).length < 34 := by
    rw [f.length_eq]
    norm_num
  exact ⟨zero_mem_ptr (hheld.zero_mem hlen), hheld.str_eq (f.zero_notMem data)⟩

theorem exists_printed (f : HexText) (data : Bytes) :
    ∃ o, (Md5Hex.ofText f).print (.zero 34) 0 data = ok o ∧ 0 ∈ o.ptr 0 ∧ o.str 0 = f.text data := by
  have hfits : 0 + (f.text data ++ [0]).length ≤ 34 := by
    rw [List.length_append, f.length_eq]
    norm_num
  obtain ⟨o, hprint⟩ := (CObject.zero 34).exists_store hfits
  exact ⟨o, hprint, str_printed hprint⟩

theorem check_eq (f : HexText) (hsop : sop.Terminated)
    (hreq : Codec.Terminated RequestMsg.members reqmsg) : sop.check (.ofText f) reqmsg =
      ok (if reqmsg.str RequestMsg.authCode.off ≠ f.text (sop.codeData reqmsg) then -1
        else if sop.sinfo.str ServerInfo.serverID.off ≠ reqmsg.str RequestMsg.serverId.off then -2
        else 0) := by
  have hclient := hreq RequestMsg.clientId (by decide) rfl
  have hserver := hreq RequestMsg.serverId (by decide) rfl
  have hr1 := hreq RequestMsg.r1 (by decide) rfl
  have hauth := zero_mem_ptr (hreq RequestMsg.authCode (by decide) rfl)
  have hclientLen : (reqmsg.str RequestMsg.clientId.off).length < 12 := length_str_lt hclient
  have hserverLen : (reqmsg.str RequestMsg.serverId.off).length < 12 := length_str_lt hserver
  have hr1Len : (reqmsg.str RequestMsg.r1.off).length < 64 := length_str_lt hr1
  have hkeyLen := Clientop.length_key_lt hsop.key
  have hdata : authData (reqmsg.ptr RequestMsg.clientId.off) (reqmsg.ptr RequestMsg.serverId.off)
      (reqmsg.ptr RequestMsg.r1.off) (sop.key.ptr 0) = ok (sop.codeData reqmsg) := by
    refine authData_eq_ok.mpr ⟨zero_mem_ptr hclient, zero_mem_ptr hserver, zero_mem_ptr hr1, hsop.key,
      ?_, rfl⟩
    rw [← CObject.str, ← CObject.str, ← CObject.str, ← CObject.str]
    omega
  obtain ⟨authcd, hprint, hends, hdigits⟩ := exists_printed f (sop.codeData reqmsg)
  obtain ⟨differs, hdiffers, hcode⟩ := strcmp_eq hauth hends
  obtain ⟨other, hother, hid⟩ := strcmp_eq (zero_mem_ptr hsop.serverID) (zero_mem_ptr hserver)
  rw [← CObject.str, ← CObject.str, hdigits] at hcode
  rw [← CObject.str, ← CObject.str] at hid
  rw [check, authCode, hdata, ok_bind, hprint, ok_bind, verdict, hdiffers, ok_bind]
  by_cases hsame : reqmsg.str RequestMsg.authCode.off = f.text (sop.codeData reqmsg)
  · rw [if_neg (not_not.mpr (hcode.mpr hsame)), if_neg (not_not.mpr hsame), hother, ok_bind]
    by_cases hown : sop.sinfo.str ServerInfo.serverID.off = reqmsg.str RequestMsg.serverId.off
    · rw [if_neg (not_not.mpr (hid.mpr hown)), if_neg (not_not.mpr hown)]
    · rw [if_pos (hid.not.mpr hown), if_pos hown]
  · rw [if_pos (hcode.not.mpr hsame), if_pos hsame]

end Replies

end Serverop

end SafeTransmission
