import SafeTransmission.Agreement.Operations
import SafeTransmission.Codec.RoundTrip

/-!
# What the programs put into their messages

The request, the response and the record for the shared memory are built with one
store after the other into memory with any content.  As long as the ids end inside
their arrays nothing runs over, and the messages are determined by the strings:
`IsRequest`, `IsResponse` and `IsKeyRecord` say how.  Encoding and decoding keeps the
first two (`IsRequest.of_same`, `IsResponse.of_same`).
-/

namespace SafeTransmission

open Outcome Codec

/-- A string in its member: it ends there, and reads back. -/
theorem CObject.Holds.string {n : ℕ} {o : CObject n} {text : Bytes} {m : Member}
    (h : o.Holds m.off (text ++ [0])) (htext : 0 ∉ text) (hcap : text.length < m.cap) :
    0 ∈ o.chars m.off m.cap ∧ o.str m.off = text :=
  ⟨h.zero_mem hcap, h.str_eq htext⟩

theorem CObject.str_of_store {n : ℕ} {o o' : CObject n} {off k cap : ℕ} {d : Bytes}
    (h : o.store off d = ok o') (hapart : k + cap ≤ off ∨ off + d.length ≤ k)
    (hstring : 0 ∈ o'.chars k cap) : 0 ∈ o.ptr k ∧ cString (o.ptr k) = o'.str k := by
  have hchars := CObject.chars_store_of_apart h hapart
  have hmem : 0 ∈ o.chars k cap := hchars ▸ hstring
  refine ⟨zero_mem_ptr hmem, ?_⟩
  rw [← CObject.str, CObject.str_eq hmem, CObject.str_eq hstring, hchars]

theorem length_str_lt {n : ℕ} {o : CObject n} {off cap : ℕ} (h : 0 ∈ o.chars off cap) :
    (o.str off).length < cap := by
  have hle := length_str_le_cap h
  rw [List.length_append, List.length_singleton] at hle
  omega

theorem zero_notMem_str {n : ℕ} (o : CObject n) (off : ℕ) : 0 ∉ o.str off :=
  zero_notMem_cString _

theorem zero_mem_chars_of_lt {n : ℕ} {o : CObject n} {off cap : ℕ} (hends : 0 ∈ o.ptr off)
    (hlen : (o.str off).length < cap) : 0 ∈ o.chars off cap := by
  obtain ⟨rest, hrest⟩ := exists_eq_cString_append hends
  rw [CObject.chars, hrest, ← CObject.str, List.take_append, List.mem_append]
  obtain ⟨k, hk⟩ := Nat.exists_eq_add_of_lt hlen
  refine Or.inr ?_
  rw [hk, Nat.add_assoc, Nat.add_sub_cancel_left, List.take_succ_cons]
  exact List.mem_cons_self

/-! ## Requests -/

/-- A request for a key, with an authentication code for the random string and the ids. -/
structure IsRequest (h : Hashes) (client server random : Bytes) (msg : RequestMsg) : Prop where
  terminated : Terminated RequestMsg.members msg
  cmdType : msg.int RequestMsg.cmdType.off = RequestCodec.newOrUpdate
  clientId : msg.str RequestMsg.clientId.off = client
  serverId : msg.str RequestMsg.serverId.off = server
  r1 : msg.str RequestMsg.r1.off = random
  authCode : msg.str RequestMsg.authCode.off = codeText h client server random

section Requests

variable {h : Hashes} {client server random : Bytes} {msg msg' : RequestMsg}

theorem IsRequest.encodable (hmsg : IsRequest h client server random msg) :
    Encodable RequestMsg.members msg where
  terminated := hmsg.terminated
  nonneg m hm hkind := by
    rw [RequestMsg.eq_cmdType hm hkind, hmsg.cmdType]
    decide

theorem IsRequest.of_same (hmsg : IsRequest h client server random msg)
    (hsame : ∀ m ∈ RequestMsg.members, SameValue msg msg' m)
    (hterm : Terminated RequestMsg.members msg') : IsRequest h client server random msg' := by
  have hfields := RequestMsg.same_of_members hsame
  exact {
    terminated := hterm
    cmdType := hfields.cmdType.trans hmsg.cmdType
    clientId := hfields.clientId.trans hmsg.clientId
    serverId := hfields.serverId.trans hmsg.serverId
    r1 := hfields.r1.trans hmsg.r1
    authCode := hfields.authCode.trans hmsg.authCode }

/-- The strings of a request, where the functions of the server read them. -/
theorem IsRequest.zero_mem (hmsg : IsRequest h client server random msg) {m : Member}
    (hm : m ∈ RequestMsg.members) (hkind : m.kind = .chars) : 0 ∈ msg.ptr m.off :=
  zero_mem_ptr (hmsg.terminated m hm hkind)

end Requests

/-- The ids of a client end inside their arrays. -/
structure ClientInfo.IdsTerminated (mInfo : ClientInfo) : Prop where
  clinetID : 0 ∈ mInfo.chars clinetID.off clinetID.cap
  serverID : 0 ∈ mInfo.chars serverID.off serverID.cap

section Client

open RequestMsg

variable {mInfo : ClientInfo} (hids : mInfo.IdsTerminated)
include hids

theorem ClientOperation.request_eq (h : Hashes) (rand : ℕ → ℕ) (memory : RequestMsg) :
    ∃ msg, ClientOperation.request h mInfo rand memory = ok msg ∧
      IsRequest h (mInfo.str ClientInfo.clinetID.off) (mInfo.str ClientInfo.serverID.off)
        (randText 63 rand) msg := by
  have hclient : (mInfo.str ClientInfo.clinetID.off).length < 12 := length_str_lt hids.clinetID
  have hserver : (mInfo.str ClientInfo.serverID.off).length < 12 := length_str_lt hids.serverID
  have hclientZero := zero_notMem_str mInfo ClientInfo.clinetID.off
  have hserverZero := zero_notMem_str mInfo ClientInfo.serverID.off
  generalize hclientText : mInfo.str ClientInfo.clinetID.off = clientText at *
  generalize hserverText : mInfo.str ClientInfo.serverID.off = serverText at *
  have hrandom := zero_notMem_randText 63 rand
  have hdigits := length_codeText h clientText serverText (randText 63 rand)
  have hlayout : Layout 160 [clientId, serverId, cmdType, r1, authCode] := ⟨by decide, by decide⟩
  have hcap : List.Forall₂ (fun m d => d.length ≤ m.cap) [clientId, serverId, cmdType, r1, authCode]
      [clientText ++ [0], serverText ++ [0], intBytes RequestCodec.newOrUpdate,
        randText 63 rand ++ [0], codeText h clientText serverText (randText 63 rand) ++ [0]] := by
    simp [clientId, serverId, cmdType, r1, authCode, hdigits]
    omega
  obtain ⟨msg, hstore, hholds⟩ := storeAll_spec hlayout hcap (declared .seckey memory)
  simp only [List.forall₂_cons, List.Forall₂.nil, and_true] at hholds
  obtain ⟨hclientId, hserverId, hcmdType, hr1, hauthCode⟩ := hholds
  obtain ⟨hclientMem, hclientStr⟩ := hclientId.string hclientZero hclient
  obtain ⟨hserverMem, hserverStr⟩ := hserverId.string hserverZero hserver
  obtain ⟨hr1Mem, hr1Str⟩ := hr1.string hrandom (by simp [r1])
  obtain ⟨hcodeMem, hcodeStr⟩ := hauthCode.string (zero_notMem_codeText h _ _ _)
    (by simp [hdigits, authCode])
  refine ⟨msg, ?_, ?_⟩
  · -- the code is computed from the strings that were stored before it
    simp only [storeAll_cons_eq_ok, storeAll_singleton] at hstore
    obtain ⟨msg₁, hstore₁, msg₂, hstore₂, msg₃, hstore₃, msg₄, hstore₄, hstore₅⟩ := hstore
    have hapart : ∀ m ∈ [clientId, serverId, r1], m.off + m.cap ≤ authCode.off ∨
        authCode.off + (codeText h clientText serverText (randText 63 rand) ++ [0]).length ≤ m.off := by
      rw [List.length_append, hdigits]
      decide
    obtain ⟨hclientEnds, hclientRead⟩ :=
      CObject.str_of_store hstore₅ (hapart clientId (by decide)) hclientMem
    obtain ⟨hserverEnds, hserverRead⟩ :=
      CObject.str_of_store hstore₅ (hapart serverId (by decide)) hserverMem
    obtain ⟨hr1Ends, hr1Read⟩ := CObject.str_of_store hstore₅ (hapart r1 (by decide)) hr1Mem
    have hcode := authenticationCode_eq (h := h) hclientEnds hserverEnds hr1Ends
      (by rw [hclientRead, hserverRead, hclientStr, hserverStr]; omega)
    rw [hclientRead, hserverRead, hr1Read, hclientStr, hserverStr, hr1Str] at hcode
    have hrand : getRandString r1.cap rand = randText 63 rand ++ [0] := rfl
    rw [ClientOperation.request]
    rw [CObject.strcpy_eq (zero_mem_ptr hids.clinetID), ← CObject.str, hclientText, hstore₁, ok_bind,
      CObject.strcpy_eq (zero_mem_ptr hids.serverID), ← CObject.str, hserverText, hstore₂, ok_bind,
      hstore₃, ok_bind, hrand, hstore₄, ok_bind, hcode, ok_bind, CObject.strcpy_eq (by simp),
      cString_terminated (zero_notMem_codeText h _ _ _), hstore₅]
  · have hterm : Terminated members msg := by
      intro m hm hkind
      simp only [members, List.mem_cons, List.not_mem_nil, or_false] at hm
      rcases hm with rfl | rfl | rfl | rfl | rfl
      · cases hkind
      · exact hclientMem
      · exact hcodeMem
      · exact hserverMem
      · exact hr1Mem
    exact ⟨hterm, hcmdType.int_eq, hclientStr, hserverStr, hr1Str, hcodeStr⟩

end Client

/-! ## Responses -/

/-- A response that reports a success and carries a random string. -/
structure IsResponse (client server random : Bytes) (msg : RespondMsg) : Prop where
  terminated : Terminated RespondMsg.members msg
  rv : msg.int RespondMsg.rv.off = 0
  clientId : msg.str RespondMsg.clientId.off = client
  serverId : msg.str RespondMsg.serverId.off = server
  r2 : msg.str RespondMsg.r2.off = random
  seckeyid : msg.int RespondMsg.seckeyid.off = 100

section Responses

variable {client server random : Bytes} {msg msg' : RespondMsg}

theorem IsResponse.encodable (hmsg : IsResponse client server random msg) :
    Encodable RespondMsg.members msg where
  terminated := hmsg.terminated
  nonneg m hm hkind := by
    rcases RespondMsg.eq_rv_or_seckeyid hm hkind with rfl | rfl
    · rw [hmsg.rv]
    · rw [hmsg.seckeyid]
      decide

theorem IsResponse.of_same (hmsg : IsResponse client server random msg)
    (hsame : ∀ m ∈ RespondMsg.members, SameValue msg msg' m)
    (hterm : Terminated RespondMsg.members msg') : IsResponse client server random msg' := by
  have hfields := RespondMsg.same_of_members hsame
  exact {
    terminated := hterm
    rv := hfields.rv.trans hmsg.rv
    clientId := hfields.clientId.trans hmsg.clientId
    serverId := hfields.serverId.trans hmsg.serverId
    r2 := hfields.r2.trans hmsg.r2
    seckeyid := hfields.seckeyid.trans hmsg.seckeyid }

end Responses

section Server

open RespondMsg

variable {mInfo : ServerInfo} {reqmsg : RequestMsg}

/-- The server stores `r2`, and then builds a response around it. -/
theorem ServerOperation.respond_eq
    (hserver : 0 ∈ mInfo.chars ServerInfo.serverID.off ServerInfo.serverID.cap)
    (hclient : 0 ∈ reqmsg.chars RequestMsg.clientId.off RequestMsg.clientId.cap) (rand : ℕ → ℕ)
    (memory : RespondMsg) :
    ∃ resMsg₁ resMsg, memory.store r2.off (getRandString r2.cap rand) = ok resMsg₁ ∧
      resMsg₁.Holds r2.off (randText 63 rand ++ [0]) ∧
      ServerOperation.respond mInfo reqmsg resMsg₁ = ok resMsg ∧
      IsResponse (reqmsg.str RequestMsg.clientId.off) (mInfo.str ServerInfo.serverID.off)
        (randText 63 rand) resMsg := by
  have hclientLen : (reqmsg.str RequestMsg.clientId.off).length < 12 := length_str_lt hclient
  have hserverLen : (mInfo.str ServerInfo.serverID.off).length < 12 := length_str_lt hserver
  have hclientZero := zero_notMem_str reqmsg RequestMsg.clientId.off
  have hserverZero := zero_notMem_str mInfo ServerInfo.serverID.off
  have hrandom := zero_notMem_randText 63 rand
  generalize hclientText : reqmsg.str RequestMsg.clientId.off = clientText at *
  generalize hserverText : mInfo.str ServerInfo.serverID.off = serverText at *
  have hlayout : Layout 96 [r2, clientId, rv, seckeyid, serverId] := ⟨by decide, by decide⟩
  have hcap : List.Forall₂ (fun m d => d.length ≤ m.cap) [r2, clientId, rv, seckeyid, serverId]
      [randText 63 rand ++ [0], clientText ++ [0], intBytes 0, intBytes 100, serverText ++ [0]] := by
    simp [r2, clientId, rv, seckeyid, serverId]
    omega
  obtain ⟨msg, hstore, hholds⟩ := storeAll_spec hlayout hcap memory
  simp only [List.forall₂_cons, List.Forall₂.nil, and_true] at hholds
  obtain ⟨hr2, hclientId, hrv, hseckeyid, hserverId⟩ := hholds
  obtain ⟨hr2Mem, hr2Str⟩ := hr2.string hrandom (by simp [r2])
  obtain ⟨hclientMem', hclientStr⟩ := hclientId.string hclientZero hclientLen
  obtain ⟨hserverMem', hserverStr⟩ := hserverId.string hserverZero hserverLen
  simp only [storeAll_cons_eq_ok, storeAll_singleton] at hstore
  obtain ⟨msg₁, hstore₁, msg₂, hstore₂, msg₃, hstore₃, msg₄, hstore₄, hstore₅⟩ := hstore
  refine ⟨msg₁, msg, hstore₁, CObject.holds_store_self hstore₁, ?_, ?_⟩
  · rw [ServerOperation.respond, CObject.strcpy_eq (zero_mem_ptr hclient), ← CObject.str,
      hclientText, hstore₂, ok_bind, hstore₃, ok_bind, hstore₄, ok_bind,
      CObject.strcpy_eq (zero_mem_ptr hserver), ← CObject.str, hserverText, hstore₅]
  · have hterm : Terminated members msg := by
      intro m hm hkind
      simp only [members, List.mem_cons, List.not_mem_nil, or_false] at hm
      rcases hm with rfl | rfl | rfl | rfl | rfl
      · cases hkind
      · exact hclientMem'
      · exact hserverMem'
      · exact hr2Mem
      · cases hkind
    exact ⟨hterm, hrv.int_eq, hclientStr, hserverStr, hr2Str, hseckeyid.int_eq⟩

end Server

/-! ## Records -/

/-- A usable record with a key for the ids. -/
structure IsKeyRecord (client server : Bytes) (seckeyid : ℤ) (seckey : Bytes)
    (info : NodeSHMInfo) : Prop where
  terminated : info.IdsTerminated
  status : info.int NodeSHMInfo.status.off = 0
  seckeyID : info.int NodeSHMInfo.seckeyID.off = toInt32 seckeyid
  ids : info.ids = (client, server)
  seckey : info.str NodeSHMInfo.seckey.off = seckey

section Records

open NodeSHMInfo

variable {mInfo : ClientInfo} (hids : mInfo.IdsTerminated) {text : Bytes} (htext : 0 ∉ text)
  (hlen : text.length < 128)
include hids htext hlen

theorem ClientOperation.keyRecord_eq (v : ℤ) (memory : NodeSHMInfo) :
    ∃ info, ClientOperation.keyRecord mInfo v (text ++ [0]) memory = ok info ∧
      IsKeyRecord (mInfo.str ClientInfo.clinetID.off) (mInfo.str ClientInfo.serverID.off) v text
        info := by
  have hclientLen : (mInfo.str ClientInfo.clinetID.off).length < 12 := length_str_lt hids.clinetID
  have hserverLen : (mInfo.str ClientInfo.serverID.off).length < 12 := length_str_lt hids.serverID
  have hclientZero := zero_notMem_str mInfo ClientInfo.clinetID.off
  have hserverZero := zero_notMem_str mInfo ClientInfo.serverID.off
  generalize hclientText : mInfo.str ClientInfo.clinetID.off = clientText at *
  generalize hserverText : mInfo.str ClientInfo.serverID.off = serverText at *
  have hlayout : Layout 160 [status, seckeyID, clientID, serverID, seckey] := ⟨by decide, by decide⟩
  have hcap : List.Forall₂ (fun m d => d.length ≤ m.cap) [status, seckeyID, clientID, serverID, seckey]
      [intBytes 0, intBytes v, clientText ++ [0], serverText ++ [0], text ++ [0]] := by
    simp [status, seckeyID, clientID, serverID, seckey]
    omega
  obtain ⟨info, hstore, hholds⟩ := storeAll_spec hlayout hcap memory
  simp only [List.forall₂_cons, List.Forall₂.nil, and_true] at hholds
  obtain ⟨hstatus, hseckeyID, hclientID, hserverID, hseckey⟩ := hholds
  obtain ⟨hclientMem, hclientStr⟩ := hclientID.string hclientZero hclientLen
  obtain ⟨hserverMem, hserverStr⟩ := hserverID.string hserverZero hserverLen
  refine ⟨info, ?_, ⟨⟨hclientMem, hserverMem⟩, hstatus.int_eq, hseckeyID.int_eq, ?_,
    hseckey.str_eq htext⟩⟩
  · simp only [storeAll_cons_eq_ok, storeAll_singleton] at hstore
    obtain ⟨info₁, hstore₁, info₂, hstore₂, info₃, hstore₃, info₄, hstore₄, hstore₅⟩ := hstore
    rw [ClientOperation.keyRecord, hstore₁, ok_bind, hstore₂, ok_bind,
      CObject.strcpy_eq (zero_mem_ptr hids.clinetID), ← CObject.str, hclientText, hstore₃, ok_bind,
      CObject.strcpy_eq (zero_mem_ptr hids.serverID), ← CObject.str, hserverText, hstore₄, ok_bind,
      CObject.strcpy_eq (by simp), cString_terminated htext, hstore₅]
  · rw [NodeSHMInfo.ids, hclientStr, hserverStr]

end Records

end SafeTransmission
