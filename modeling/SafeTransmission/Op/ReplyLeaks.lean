import SafeTransmission.Op.Leaks
import SafeTransmission.Op.Negotiations

/-!
# What replies show of the memory before them

`resmsg` is made with `new`, which writes nothing, and `seckeyid` is never assigned.  Two runs
that differ only in what the memory held before send the same bytes, with exactly the drawn
characters, if and only if the request is accepted, the byte behind `r2` is a NUL both times, what
was in `seckeyid` is the same number or is left out both times, and the arrays are large enough for
the key.  A reply to a request that is refused begins with a negative number, which is not encoded:
there is no reply at all.

`noLeak_iff` puts this together with the requests.

## Strategy

* `Stored` is the reply in memory behind the four stores.  What is behind `r2` is what was there
  before, unless the client id runs over it (`Stored.chars_of_le`, `Stored.holds_behind`).
* So the string in `r2` ends behind the drawn characters or not, as the memory says
  (`Stored.ends_iff`), and where it ends, everything but `seckeyid` is the same in both runs
  (`encoded_eq_of_sameSeckeyid`).
* The same bytes have the same last element, and an integer is seen from its element
  (`sameSeckeyid_of_encoded`).
* `exists_new_key_iff` says when the key fits into its array.
-/

namespace SafeTransmission

open Outcome Codec

namespace Serverop

/-- The reply of an accepted request is in memory: its id, the result, the client id, and what is
drawn, one after the other. -/
def Stored (sop : Serverop) (rand : ℕ → ℕ) (reqmsg : RequestMsg) (memory resmsg : RespondMsg) :
    Prop :=
  ∃ msg₁ msg₂ msg₃, memory.store RespondMsg.serverId.off
      (sop.sinfo.str ServerInfo.serverID.off ++ [0]) = ok msg₁ ∧
    msg₁.store RespondMsg.rv.off (intBytes 0) = ok msg₂ ∧
    msg₂.store RespondMsg.clientId.off (reqmsg.str RequestMsg.clientId.off ++ [0]) = ok msg₃ ∧
    msg₃.store RespondMsg.r2.off (drawn 26 0x61 rand) = ok resmsg

/-- The byte behind `r2` becomes a NUL: it was one, or the client id ends there. -/
def R2Ends (reqmsg : RequestMsg) (memory : RespondMsg) : Prop :=
  (reqmsg.str RequestMsg.clientId.off).length = 54 ∨
    (reqmsg.str RequestMsg.clientId.off).length < 54 ∧
      memory.Holds (RespondMsg.r2.off + drawnChars) [0]

/-- The client id that is sent: a long one runs into what is drawn. -/
def sentClientId (client random : Bytes) : Bytes :=
  if client.length < 24 then client else client.take 24 ++ random

/-- The server id that is sent: a long client id has run over it. -/
def sentServerId (client server random : Bytes) : Bytes :=
  if client.length < 12 then server else (sentClientId client random).drop 12

section Replies

variable {sop : Serverop} {rand : ℕ → ℕ} {reqmsg : RequestMsg} {memory resmsg : RespondMsg}

theorem zero_notMem_letters (rand : ℕ → ℕ) : 0 ∉ drawn 26 0x61 rand :=
  zero_notMem_drawn (by norm_num) (by norm_num) (by norm_num) rand

theorem verdict_cases {authcd : CObject 34} {rv : ℤ} (h : sop.verdict reqmsg authcd = ok rv) :
    rv = 0 ∨ rv = -1 ∨ rv = -2 := by
  obtain ⟨differs, -, h⟩ := bind_eq_ok.mp h
  split at h
  · exact Or.inr (Or.inl (ok.inj h).symm)
  · obtain ⟨other, -, h⟩ := bind_eq_ok.mp h
    split at h
    · exact Or.inr (Or.inr (ok.inj h).symm)
    · exact Or.inl (ok.inj h).symm

theorem zero_mem_of_check {h : Md5Hex} {rv : ℤ} (hcheck : sop.check h reqmsg = ok rv) :
    0 ∈ reqmsg.ptr RequestMsg.clientId.off ∧ 0 ∈ reqmsg.ptr RequestMsg.r1.off := by
  obtain ⟨authcd, hcode, -⟩ := bind_eq_ok.mp hcheck
  obtain ⟨data, hdata, -⟩ := bind_eq_ok.mp hcode
  obtain ⟨hclient, -, hr1, -⟩ := authData_eq_ok.mp hdata
  exact ⟨hclient, hr1⟩

theorem respond_eq_ok {h : Md5Hex} {size : ℕ} (hsop : sop.Terminated)
    (hcheck : sop.check h reqmsg = ok 0) {sop' : Serverop} :
    sop.respond h size rand memory reqmsg = ok (resmsg, sop') ↔
      sop.Stored rand reqmsg memory resmsg ∧ ∃ text key,
        compose size (reqmsg.ptr RequestMsg.r1.off) (resmsg.ptr RespondMsg.r2.off) = ok text ∧
        h.print (.zero 34) 0 text = ok key ∧ sop' = { sop with key := key } := by
  obtain ⟨hclient, -⟩ := zero_mem_of_check hcheck
  obtain ⟨authcd, hcode, hverdict⟩ := bind_eq_ok.mp hcheck
  have hclientCopy : ∀ o : RespondMsg, o.strcpy RespondMsg.clientId.off
      (reqmsg.ptr RequestMsg.clientId.off) =
        o.store RespondMsg.clientId.off (reqmsg.str RequestMsg.clientId.off ++ [0]) :=
    fun o => CObject.strcpy_eq hclient o _
  have hserverCopy : ∀ o : RespondMsg, o.strcpy RespondMsg.serverId.off
      (sop.sinfo.ptr ServerInfo.serverID.off) =
        o.store RespondMsg.serverId.off (sop.sinfo.str ServerInfo.serverID.off ++ [0]) :=
    fun o => CObject.strcpy_eq (zero_mem_ptr hsop.serverID) o _
  rw [respond, hcode, ok_bind]
  simp only [hserverCopy, hverdict, ok_bind, if_pos, accept, hclientCopy, bind_eq_ok, ok.injEq,
    Prod.mk.injEq]
  constructor
  · rintro ⟨msg₁, hstore₁, msg₂, hstore₂, msg₃, hstore₃, msg₄, hstore₄, text, htext, key, hkey, rfl, rfl⟩
    exact ⟨⟨msg₁, msg₂, msg₃, hstore₁, hstore₂, hstore₃, hstore₄⟩, text, key, htext, hkey, rfl⟩
  · rintro ⟨⟨msg₁, msg₂, msg₃, hstore₁, hstore₂, hstore₃, hstore₄⟩, text, key, htext, hkey, rfl⟩
    exact ⟨msg₁, hstore₁, msg₂, hstore₂, msg₃, hstore₃, resmsg, hstore₄, text, htext, key, hkey, rfl, rfl⟩

theorem exists_stored (hsop : sop.Terminated)
    (hclient : (reqmsg.str RequestMsg.clientId.off).length < 92) (rand : ℕ → ℕ) (memory : RespondMsg) :
    ∃ resmsg, sop.Stored rand reqmsg memory resmsg := by
  have hserver : (sop.sinfo.str ServerInfo.serverID.off).length < 12 := length_str_lt hsop.serverID
  obtain ⟨msg₁, hstore₁⟩ := memory.exists_store
    (show RespondMsg.serverId.off + (sop.sinfo.str ServerInfo.serverID.off ++ [0]).length ≤ 96 by
      rw [List.length_append, List.length_singleton, RespondMsg.serverId]; dsimp only; omega)
  obtain ⟨msg₂, hstore₂⟩ := msg₁.exists_store
    (show RespondMsg.rv.off + (intBytes 0).length ≤ 96 by decide)
  obtain ⟨msg₃, hstore₃⟩ := msg₂.exists_store
    (show RespondMsg.clientId.off + (reqmsg.str RequestMsg.clientId.off ++ [0]).length ≤ 96 by
      rw [List.length_append, List.length_singleton, RespondMsg.clientId]; dsimp only; omega)
  obtain ⟨resmsg, hstore₄⟩ := msg₃.exists_store
    (show RespondMsg.r2.off + (drawn 26 0x61 rand).length ≤ 96 by rw [length_drawn]; decide)
  exact ⟨resmsg, msg₁, msg₂, msg₃, hstore₁, hstore₂, hstore₃, hstore₄⟩

section Stored

variable (hsop : sop.Terminated) (hstored : sop.Stored rand reqmsg memory resmsg)

include hstored in
theorem Stored.holds : resmsg.Holds RespondMsg.r2.off (drawn 26 0x61 rand) ∧
    resmsg.Holds RespondMsg.clientId.off ((reqmsg.str RequestMsg.clientId.off ++ [0]).take 24) ∧
    resmsg.int RespondMsg.rv.off = 0 := by
  obtain ⟨msg₁, msg₂, msg₃, -, hstore₂, hstore₃, hstore₄⟩ := hstored
  refine ⟨CObject.holds_store_self hstore₄, ?_, ?_⟩
  · refine ((CObject.holds_store_self hstore₃).take 24).of_apart hstore₄ (Or.inl ?_)
    have hle := List.length_take_le 24 (reqmsg.str RequestMsg.clientId.off ++ [0])
    rw [RespondMsg.clientId, RespondMsg.r2]
    dsimp only
    omega
  · have hrv := (CObject.holds_store_self hstore₂).of_apart hstore₃ (Or.inl (by decide))
    exact (hrv.of_apart hstore₄ (Or.inl (by decide))).int_eq

include hsop hstored in
/-- What is behind `r2` is that of the memory, unless the client id runs over it. -/
theorem Stored.chars_of_le {k cap : ℕ} (hk : RespondMsg.r2.off + drawnChars ≤ k)
    (hclient : RespondMsg.clientId.off + (reqmsg.str RequestMsg.clientId.off).length < k) :
    resmsg.chars k cap = memory.chars k cap := by
  have hserver : (sop.sinfo.str ServerInfo.serverID.off).length < 12 := length_str_lt hsop.serverID
  have hk' : 58 ≤ k := hk
  obtain ⟨msg₁, msg₂, msg₃, hstore₁, hstore₂, hstore₃, hstore₄⟩ := hstored
  rw [CObject.chars_store_of_apart hstore₄ (Or.inr (by rwa [length_drawn])),
    CObject.chars_store_of_apart hstore₃ (Or.inr (by
      rw [List.length_append, List.length_singleton]; omega)),
    CObject.chars_store_of_apart hstore₂ (Or.inr (by
      rw [length_intBytes, RespondMsg.rv]; dsimp only; omega)),
    CObject.chars_store_of_apart hstore₁ (Or.inr (by
      rw [List.length_append, List.length_singleton, RespondMsg.serverId]; dsimp only; omega))]

include hstored in
/-- A long client id reaches behind `r2`. -/
theorem Stored.holds_behind :
    resmsg.Holds (RespondMsg.r2.off + drawnChars)
      ((reqmsg.str RequestMsg.clientId.off ++ [0]).drop 54) := by
  obtain ⟨msg₁, msg₂, msg₃, -, -, hstore₃, hstore₄⟩ := hstored
  have hheld := (CObject.holds_store_self hstore₃).drop 54
  exact hheld.of_apart hstore₄ (Or.inr (by rw [length_drawn]; decide))

include hsop hstored in
/-- The byte behind `r2` is a NUL exactly if it was one, or the client id ends there. -/
theorem Stored.ends_iff : resmsg.Holds (RespondMsg.r2.off + drawnChars) [0] ↔ R2Ends reqmsg memory := by
  have hoff : RespondMsg.clientId.off = 4 := rfl
  have hbehind : RespondMsg.r2.off + drawnChars = 58 := rfl
  rcases lt_trichotomy (reqmsg.str RequestMsg.clientId.off).length 54 with hlt | heq | hgt
  · have hkept : resmsg.chars (RespondMsg.r2.off + drawnChars) 1 =
        memory.chars (RespondMsg.r2.off + drawnChars) 1 :=
      Stored.chars_of_le hsop hstored le_rfl (by omega)
    rw [R2Ends, CObject.Holds, List.length_singleton, hkept]
    exact ⟨fun h => Or.inr ⟨hlt, h⟩, fun h => (h.resolve_left hlt.ne).2⟩
  · have hheld := Stored.holds_behind hstored
    rw [List.drop_append, List.drop_eq_nil_of_le heq.le, heq] at hheld
    exact iff_of_true hheld (Or.inl heq)
  · have hheld := Stored.holds_behind hstored
    rw [List.drop_append_of_le_length hgt.le, List.drop_eq_getElem_cons hgt] at hheld
    refine iff_of_false (fun hnul => ?_) ?_
    · have hfirst : resmsg.Holds (RespondMsg.r2.off + drawnChars)
          [(reqmsg.str RequestMsg.clientId.off)[54]] := hheld.take 1
      have hsame := List.cons.inj (Eq.trans (Eq.symm hfirst) hnul)
      exact zero_notMem_str reqmsg RequestMsg.clientId.off (hsame.1 ▸ List.getElem_mem hgt)
    · rintro (heq | ⟨hlt, -⟩)
      · omega
      · omega

include hstored in
theorem Stored.holds_sent (hends : resmsg.Holds (RespondMsg.r2.off + drawnChars) [0]) :
    resmsg.Holds RespondMsg.r2.off (drawn 26 0x61 rand ++ [0]) ∧
      resmsg.Holds RespondMsg.clientId.off
        (sentClientId (reqmsg.str RequestMsg.clientId.off) (drawn 26 0x61 rand) ++ [0]) := by
  obtain ⟨hdrawn, hclient, -⟩ := hstored.holds
  have hletters := hdrawn.append (by rwa [length_drawn])
  refine ⟨hletters, ?_⟩
  rw [sentClientId]
  split
  · rename_i hshort
    rwa [List.take_of_length_le] at hclient
    rw [List.length_append, List.length_singleton]
    omega
  · rename_i hlong
    rw [List.take_append_of_le_length (by omega)] at hclient
    rw [List.append_assoc]
    refine hclient.append ?_
    rw [List.length_take_of_le (by omega)]
    exact hletters

include hsop hstored in
theorem Stored.strings (hends : resmsg.Holds (RespondMsg.r2.off + drawnChars) [0]) :
    resmsg.str RespondMsg.clientId.off =
        sentClientId (reqmsg.str RequestMsg.clientId.off) (drawn 26 0x61 rand) ∧
      resmsg.str RespondMsg.serverId.off = sentServerId (reqmsg.str RequestMsg.clientId.off)
        (sop.sinfo.str ServerInfo.serverID.off) (drawn 26 0x61 rand) ∧
      resmsg.str RespondMsg.r2.off = drawn 26 0x61 rand := by
  have hserver : (sop.sinfo.str ServerInfo.serverID.off).length < 12 := length_str_lt hsop.serverID
  have hletters := zero_notMem_letters rand
  have hclientZero := zero_notMem_str reqmsg RequestMsg.clientId.off
  obtain ⟨hr2, hclient⟩ := Stored.holds_sent hstored hends
  have hsentZero : 0 ∉ sentClientId (reqmsg.str RequestMsg.clientId.off) (drawn 26 0x61 rand) := by
    rw [sentClientId]
    split
    · exact hclientZero
    · intro hmem
      rcases List.mem_append.mp hmem with hmem | hmem
      · exact hclientZero (List.mem_of_mem_take hmem)
      · exact hletters hmem
  refine ⟨hclient.str_eq hsentZero, ?_, hr2.str_eq hletters⟩
  rw [sentServerId]
  split
  · -- the client id ends in its array, and leaves the server id alone
    rename_i hshort
    obtain ⟨msg₁, msg₂, msg₃, hstore₁, hstore₂, hstore₃, hstore₄⟩ := hstored
    have hheld := (CObject.holds_store_self hstore₁).of_apart hstore₂ (Or.inr (by decide))
    have hheld₃ := hheld.of_apart hstore₃ (Or.inr (by
      rw [List.length_append, List.length_singleton, RespondMsg.clientId, RespondMsg.serverId]
      dsimp only
      omega))
    have hheld₄ := hheld₃.of_apart hstore₄ (Or.inl (by
      rw [List.length_append, List.length_singleton, RespondMsg.serverId, RespondMsg.r2]
      dsimp only
      omega))
    exact hheld₄.str_eq (zero_notMem_str sop.sinfo ServerInfo.serverID.off)
  · -- the server id is what the client id has left there
    rename_i hlong
    have hsentLen : 12 ≤
        (sentClientId (reqmsg.str RequestMsg.clientId.off) (drawn 26 0x61 rand)).length := by
      rw [sentClientId]
      split
      · omega
      · rw [List.length_append, List.length_take_of_le (by omega)]
        omega
    have hheld := hclient.drop 12
    rw [List.drop_append_of_le_length hsentLen] at hheld
    exact CObject.Holds.str_eq hheld fun hmem => hsentZero (List.mem_of_mem_drop hmem)

/-! ## What is sent -/

/-- The members of a reply with the result 0 that are sent: a negative `seckeyid` is not. -/
def sentMembers (resmsg : RespondMsg) : List Member :=
  if resmsg.int RespondMsg.seckeyid.off < 0 then
    [RespondMsg.rv, RespondMsg.clientId, RespondMsg.serverId, RespondMsg.r2]
  else RespondMsg.members

theorem mem_members_of_mem_sent {m : Member} (hm : m ∈ sentMembers resmsg) :
    m ∈ RespondMsg.members := by
  rw [sentMembers] at hm
  split at hm
  · have hall : ∀ m ∈ [RespondMsg.rv, RespondMsg.clientId, RespondMsg.serverId, RespondMsg.r2],
        m ∈ RespondMsg.members := by decide
    exact hall m hm
  · exact hm

/-- What is sent of a reply can be encoded if the result and the strings can. -/
theorem writable_sent (hrv : 0 ≤ resmsg.int RespondMsg.rv.off)
    (hchars : ∀ m ∈ RespondMsg.members, m.kind = .chars → Writable resmsg m) :
    ∀ m ∈ sentMembers resmsg, Writable resmsg m := by
  intro m hm
  have hmember := mem_members_of_mem_sent hm
  cases hkind : m.kind with
  | chars => exact hchars m hmember hkind
  | int =>
      rw [Writable, hkind]
      rcases RespondMsg.eq_rv_or_seckeyid hmember hkind with rfl | rfl
      · exact hrv
      · rw [sentMembers] at hm
        split at hm
        · exact absurd hm (by decide)
        · rename_i hid
          exact not_lt.mp hid

theorem msgEncode_of_writable (hwritable : ∀ m ∈ sentMembers resmsg, Writable resmsg m) :
    RespondCodec.msgEncode .op ⟨.empty, resmsg⟩ = ok (encoded .op (sentMembers resmsg) resmsg,
      ((encoded .op (sentMembers resmsg) resmsg).length : ℤ)) := by
  rw [sentMembers] at *
  split
  · rename_i hneg
    rw [if_pos hneg] at hwritable
    exact msgEncode_of_neg_last (by decide) (by decide) hwritable rfl hneg .empty
  · rename_i hid
    rw [if_neg hid] at hwritable
    exact Codec.msgEncode_eq (by decide) (by decide) hwritable .empty

include hstored in
theorem Stored.writable (hends : resmsg.Holds (RespondMsg.r2.off + drawnChars) [0]) :
    ∀ m ∈ sentMembers resmsg, Writable resmsg m := by
  obtain ⟨-, -, hrv⟩ := hstored.holds
  obtain ⟨hr2, -⟩ := Stored.holds_sent hstored hends
  have hnul : 0 ∈ resmsg.ptr RespondMsg.r2.off :=
    zero_mem_ptr (hr2.zero_mem (Nat.lt_succ_self _))
  refine writable_sent hrv.ge fun m hmember hkind => ?_
  have hoff : ∀ m ∈ RespondMsg.members, m.kind = .chars → m.off ≤ RespondMsg.r2.off := by decide
  rw [Writable, hkind]
  exact CObject.zero_mem_ptr_of_le (hoff m hmember hkind) hnul

include hstored in
theorem Stored.msgEncode_eq (hends : resmsg.Holds (RespondMsg.r2.off + drawnChars) [0]) :
    RespondCodec.msgEncode .op ⟨.empty, resmsg⟩ = ok (encoded .op (sentMembers resmsg) resmsg,
      ((encoded .op (sentMembers resmsg) resmsg).length : ℤ)) :=
  msgEncode_of_writable (Stored.writable hstored hends)

end Stored

/-! ## Refused requests -/

theorem rv_neg_of_respond {h : Md5Hex} {size : ℕ} (hcheck : sop.check h reqmsg ≠ ok 0)
    {sop' : Serverop} (hrespond : sop.respond h size rand memory reqmsg = ok (resmsg, sop')) :
    resmsg.int RespondMsg.rv.off < 0 := by
  obtain ⟨authcd, hcode, hrespond⟩ := bind_eq_ok.mp hrespond
  obtain ⟨msg₁, -, hrespond⟩ := bind_eq_ok.mp hrespond
  obtain ⟨rv, hverdict, hrespond⟩ := bind_eq_ok.mp hrespond
  obtain ⟨msg₂, hstore, hrespond⟩ := bind_eq_ok.mp hrespond
  have hrefused : rv ≠ 0 := by
    rintro rfl
    rw [check, hcode, ok_bind] at hcheck
    exact hcheck hverdict
  rw [if_neg hrefused, ok.injEq, Prod.mk.injEq] at hrespond
  obtain ⟨rfl, -⟩ := hrespond
  rw [(CObject.holds_store_self hstore).int_eq]
  rcases verdict_cases hverdict with rfl | rfl | rfl
  · exact absurd rfl hrefused
  · decide
  · decide

theorem check_of_secMngArrange {h : Md5Hex} {size : ℕ} {reply : RespondMsg × (Bytes × ℤ) × Serverop}
    (hreply : sop.secMngArrange h size rand memory reqmsg = ok reply) : sop.check h reqmsg = ok 0 := by
  by_contra hcheck
  obtain ⟨⟨resmsg, sop'⟩, hrespond, hreply⟩ := bind_eq_ok.mp hreply
  obtain ⟨codec, hcodec, hreply⟩ := bind_eq_ok.mp hreply
  obtain ⟨encoded, hencode, -⟩ := bind_eq_ok.mp hreply
  obtain rfl := ok.inj hcodec
  exact msgEncode_ne_ok_of_neg_head (by norm_num) rfl (rv_neg_of_respond hcheck hrespond) rfl _ _ hencode

/-! ## Two replies -/

/-- What was in `seckeyid` is sent as the same number, or not at all. -/
def SameSeckeyid (memory memory' : RespondMsg) : Prop :=
  memory.int RespondMsg.seckeyid.off = memory'.int RespondMsg.seckeyid.off ∨
    memory.int RespondMsg.seckeyid.off < 0 ∧ memory'.int RespondMsg.seckeyid.off < 0

section TwoReplies

variable {memory' resmsg' : RespondMsg} (hstored : sop.Stored rand reqmsg memory resmsg)
  (hstored' : sop.Stored rand reqmsg memory' resmsg')
  (hends : resmsg.Holds (RespondMsg.r2.off + drawnChars) [0])
  (hends' : resmsg'.Holds (RespondMsg.r2.off + drawnChars) [0])
include hstored hstored' hends hends'

/-- The same bytes have the same number of elements, and the same last one. -/
theorem sameSeckeyid_of_encoded
    (heq : encoded .op (sentMembers resmsg) resmsg = encoded .op (sentMembers resmsg') resmsg') :
    SameSeckeyid resmsg resmsg' := by
  have hwritable := Stored.writable hstored hends
  have hwritable' := Stored.writable hstored' hends'
  have hsize : ∀ o : RespondMsg, (sentMembers o).length * (96 + 16) < 2 ^ 30 := by
    intro o
    rw [sentMembers]
    split <;> decide
  have hnodes := nodes_eq_of_encoded (by norm_num) (hsize _) (hsize _) hwritable hwritable' heq
  have hcount : (sentMembers resmsg).length = (sentMembers resmsg').length := by
    simpa only [List.length_map] using congrArg List.length hnodes
  rw [sentMembers, sentMembers] at hnodes hcount
  rw [sentMembers] at hwritable hwritable'
  rw [SameSeckeyid]
  -- a negative number is not sent, so the nodes differ in number if one of them is
  split at hnodes
  · rename_i hneg
    split at hnodes
    · rename_i hneg'
      exact Or.inr ⟨hneg, hneg'⟩
    · rename_i hid'
      rw [if_pos hneg, if_neg hid'] at hcount
      exact absurd hcount (by decide)
  · rename_i hid
    split at hnodes
    · rename_i hneg'
      rw [if_neg hid, if_pos hneg'] at hcount
      exact absurd hcount (by decide)
    · rename_i hid'
      rw [if_neg hid] at hwritable
      rw [if_neg hid'] at hwritable'
      simp only [RespondMsg.members, List.map_cons, List.map_nil, List.cons.injEq] at hnodes
      obtain ⟨-, -, -, -, hlast, -⟩ := hnodes
      exact Or.inl (int_eq_of_node (by norm_num) rfl (hwritable _ (by decide))
        (hwritable' _ (by decide)) hlast)

/-- Everything else in the two replies is the same. -/
theorem encoded_eq_of_sameSeckeyid (hsop : sop.Terminated) (hsame : SameSeckeyid resmsg resmsg') :
    encoded .op (sentMembers resmsg) resmsg = encoded .op (sentMembers resmsg') resmsg' := by
  have hmembers : sentMembers resmsg = sentMembers resmsg' := by
    have hsign : resmsg.int RespondMsg.seckeyid.off < 0 ↔
        resmsg'.int RespondMsg.seckeyid.off < 0 := by
      rcases hsame with heq | ⟨hneg, hneg'⟩
      · rw [heq]
      · exact iff_of_true hneg hneg'
    simp only [sentMembers, hsign]
  rw [← hmembers]
  obtain ⟨-, -, hrv⟩ := hstored.holds
  obtain ⟨-, -, hrv'⟩ := hstored'.holds
  obtain ⟨hclient, hserver, hr2⟩ := Stored.strings hsop hstored hends
  obtain ⟨hclient', hserver', hr2'⟩ := Stored.strings hsop hstored' hends'
  refine encoded_congr fun m hm => ?_
  have hmember := mem_members_of_mem_sent hm
  simp only [RespondMsg.members, List.mem_cons, List.not_mem_nil, or_false] at hmember
  rcases hmember with rfl | rfl | rfl | rfl | rfl
  · exact congrArg (fun v : ℤ => integerElement v.toNat) (hrv.trans hrv'.symm)
  · exact congrArg (fun s => stringElement .op (s ++ [0])) (hclient.trans hclient'.symm)
  · exact congrArg (fun s => stringElement .op (s ++ [0])) (hserver.trans hserver'.symm)
  · exact congrArg (fun s => stringElement .op (s ++ [0])) (hr2.trans hr2'.symm)
  · have hid : resmsg.int RespondMsg.seckeyid.off = resmsg'.int RespondMsg.seckeyid.off := by
      rcases hsame with heq | ⟨hneg, -⟩
      · exact heq
      · rw [sentMembers, if_pos hneg] at hm
        exact absurd hm (by decide)
    exact congrArg (fun v : ℤ => integerElement v.toNat) hid

end TwoReplies

/-! ## The new key -/

/-- The arrays are large enough for the new key: `r1r2` for both random strings, and `Key` for the
digits of their digest. -/
def KeyFits (md5 : Bytes → Vector UInt8 16) (rand : ℕ → ℕ) (reqmsg : RequestMsg) : Prop :=
  ((reqmsg.str RequestMsg.r1.off).length + drawnChars) * 2 ≤ composeSize ∧
    ∀ b ∈ (md5 (interleaved (reqmsg.str RequestMsg.r1.off) (drawn 26 0x61 rand))).toList.drop 13,
      b < 0x80

/-- Eight digits run over the end of `Key` in the last three turns. -/
theorem exists_printed_key_iff (md5 : Bytes → Vector UInt8 16) (text : Bytes) :
    (∃ key, (Md5Hex.signed md5).print (.zero 34) 0 text = ok key) ↔
      ∀ b ∈ (md5 text).toList.drop 13, b < 0x80 := by
  have hlen : (md5 text).toList.length = 16 := Vector.length_toList
  refine exists_printLoop_iff.trans ⟨fun hall b hb => ?_, fun hall i b hi => ?_⟩
  · obtain ⟨i, hi⟩ := List.mem_iff_getElem?.mp hb
    rw [List.getElem?_drop] at hi
    have hfits := hall (13 + i) b hi
    rw [length_signedOctet] at hfits
    by_contra hhigh
    rw [if_neg hhigh] at hfits
    omega
  · have hlt : i < 16 := hlen ▸ (List.getElem?_eq_some_iff.mp hi).1
    rw [length_signedOctet]
    split
    · omega
    · rename_i hhigh
      have hearly : i < 13 := by
        by_contra hlate
        refine hhigh (hall b (List.mem_iff_getElem?.mpr ⟨i - 13, ?_⟩))
        rwa [List.getElem?_drop, Nat.add_sub_cancel' (not_lt.mp hlate)]
      omega

theorem exists_new_key_iff (md5 : Bytes → Vector UInt8 16) {resmsg : RespondMsg}
    (hr1 : 0 ∈ reqmsg.ptr RequestMsg.r1.off)
    (hr2 : resmsg.Holds RespondMsg.r2.off (drawn 26 0x61 rand ++ [0])) :
    (∃ text key, compose composeSize (reqmsg.ptr RequestMsg.r1.off)
        (resmsg.ptr RespondMsg.r2.off) = ok text ∧
      (Md5Hex.signed md5).print (.zero 34) 0 text = ok key) ↔ KeyFits md5 rand reqmsg := by
  have hstr : cString (resmsg.ptr RespondMsg.r2.off) = drawn 26 0x61 rand :=
    hr2.str_eq (zero_notMem_letters rand)
  have hends : 0 ∈ resmsg.ptr RespondMsg.r2.off := zero_mem_ptr (hr2.zero_mem (Nat.lt_succ_self _))
  have hlen1 : (reqmsg.ptr RequestMsg.r1.off).length = 67 := reqmsg.length_ptr _
  have hlen2 : (resmsg.ptr RespondMsg.r2.off).length = 68 := resmsg.length_ptr _
  have hcompose : ∀ text, compose composeSize (reqmsg.ptr RequestMsg.r1.off)
      (resmsg.ptr RespondMsg.r2.off) = ok text ↔
        ((reqmsg.str RequestMsg.r1.off).length + drawnChars) * 2 ≤ composeSize ∧
          text = interleaved (reqmsg.str RequestMsg.r1.off) (drawn 26 0x61 rand) := by
    intro text
    rw [compose_eq_ok (by decide), hstr, length_drawn, ← CObject.str, hlen1, hlen2]
    have hsize : composeSize = 64 := rfl
    constructor
    · rintro ⟨-, -, -, hfits, htext⟩
      exact ⟨hfits, htext⟩
    · rintro ⟨hfits, htext⟩
      exact ⟨hr1, hends, by omega, hfits, htext⟩
  rw [KeyFits, ← exists_printed_key_iff]
  constructor
  · rintro ⟨text, key, htext, hkey⟩
    obtain ⟨hfits, rfl⟩ := (hcompose text).mp htext
    exact ⟨hfits, key, hkey⟩
  · rintro ⟨hfits, key, hkey⟩
    exact ⟨_, key, (hcompose _).mpr ⟨hfits, rfl⟩, hkey⟩

/-! ## Two runs -/

/-- The replies from two memories are sent as the same bytes, and what is drawn for an accepted
request as exactly these characters. -/
def NoLeak (h : Md5Hex) (sop : Serverop) (rand : ℕ → ℕ) (reqmsg : RequestMsg)
    (memory memory' : RespondMsg) : Prop :=
  ∃ reply reply', sop.secMngArrange h composeSize rand memory reqmsg = ok reply ∧
    sop.secMngArrange h composeSize rand memory' reqmsg = ok reply' ∧ reply.2.1 = reply'.2.1 ∧
    (sop.check h reqmsg = ok 0 → reply.1.str RespondMsg.r2.off = drawn 26 0x61 rand ∧
      reply'.1.str RespondMsg.r2.off = drawn 26 0x61 rand)

/-- The reply to an accepted request is what is stored, encoded. -/
theorem secMngArrange_eq_ok {h : Md5Hex} {size : ℕ} (hsop : sop.Terminated)
    (hcheck : sop.check h reqmsg = ok 0) {reply : RespondMsg × (Bytes × ℤ) × Serverop} :
    sop.secMngArrange h size rand memory reqmsg = ok reply ↔
      (sop.Stored rand reqmsg memory reply.1 ∧ ∃ text key,
        compose size (reqmsg.ptr RequestMsg.r1.off) (reply.1.ptr RespondMsg.r2.off) = ok text ∧
        h.print (.zero 34) 0 text = ok key ∧ reply.2.2 = { sop with key := key }) ∧
      RespondCodec.msgEncode .op ⟨.empty, reply.1⟩ = ok reply.2.1 := by
  have hofMsg : ∀ o : RespondMsg, RespondCodec.ofMsg .op memory o = ok ⟨.empty, o⟩ := fun _ => rfl
  obtain ⟨resmsg, sent, sop'⟩ := reply
  rw [← respond_eq_ok hsop hcheck, secMngArrange, bind_eq_ok]
  constructor
  · rintro ⟨⟨resmsg', sop''⟩, hrespond, hreply⟩
    dsimp only at hreply
    rw [hofMsg, ok_bind] at hreply
    obtain ⟨sent', hencode, hreply⟩ := bind_eq_ok.mp hreply
    rw [ok.injEq, Prod.mk.injEq, Prod.mk.injEq] at hreply
    obtain ⟨rfl, rfl, rfl⟩ := hreply
    exact ⟨hrespond, hencode⟩
  · rintro ⟨hrespond, hencode⟩
    refine ⟨(resmsg, sop'), hrespond, ?_⟩
    dsimp only
    rw [hofMsg, ok_bind, hencode, ok_bind]

/-- What a reply with exactly the drawn characters shows of its memory. -/
theorem Stored.ends_of_str (hsop : sop.Terminated) (hstored : sop.Stored rand reqmsg memory resmsg)
    (hr2 : resmsg.str RespondMsg.r2.off = drawn 26 0x61 rand) :
    resmsg.Holds (RespondMsg.r2.off + drawnChars) [0] ∧ R2Ends reqmsg memory := by
  obtain ⟨hdrawn, -⟩ := hstored.holds
  have hnul := hdrawn.zero_behind (zero_notMem_letters rand) hr2 (by rw [length_drawn]; decide)
  rw [length_drawn] at hnul
  exact ⟨hnul, (Stored.ends_iff hsop hstored).mp hnul⟩

theorem Stored.seckeyid_eq (hsop : sop.Terminated) (hstored : sop.Stored rand reqmsg memory resmsg)
    (hends : R2Ends reqmsg memory) :
    resmsg.int RespondMsg.seckeyid.off = memory.int RespondMsg.seckeyid.off := by
  have hle : (reqmsg.str RequestMsg.clientId.off).length ≤ 54 := hends.elim Eq.le fun h => h.1.le
  have hchars : resmsg.chars RespondMsg.seckeyid.off 4 = memory.chars RespondMsg.seckeyid.off 4 :=
    Stored.chars_of_le hsop hstored (by decide) (by
      rw [RespondMsg.clientId, RespondMsg.seckeyid]; dsimp only; omega)
  rw [CObject.int, hchars, CObject.int]

theorem noLeak_iff_accepted (md5 : Bytes → Vector UInt8 16) (hsop : sop.Terminated) (rand : ℕ → ℕ)
    (reqmsg : RequestMsg) (memory memory' : RespondMsg) :
    sop.NoLeak (.signed md5) rand reqmsg memory memory' ↔
      sop.check (.signed md5) reqmsg = ok 0 ∧ KeyFits md5 rand reqmsg ∧ R2Ends reqmsg memory ∧
        R2Ends reqmsg memory' ∧ SameSeckeyid memory memory' := by
  constructor
  · rintro ⟨reply, reply', hreply, hreply', hsent, hdrawn⟩
    -- there are replies, so the request was accepted, and both end in `r2`
    have hcheck := check_of_secMngArrange hreply
    obtain ⟨hr2, hr2'⟩ := hdrawn hcheck
    obtain ⟨⟨hstored, text, key, htext, hkey, -⟩, hencode⟩ := (secMngArrange_eq_ok hsop hcheck).mp hreply
    obtain ⟨⟨hstored', -⟩, hencode'⟩ := (secMngArrange_eq_ok hsop hcheck).mp hreply'
    obtain ⟨hnul, hends⟩ := Stored.ends_of_str hsop hstored hr2
    obtain ⟨hnul', hends'⟩ := Stored.ends_of_str hsop hstored' hr2'
    have hfits := (exists_new_key_iff md5 (zero_mem_of_check hcheck).2
      (Stored.holds_sent hstored hnul).1).mp ⟨text, key, htext, hkey⟩
    rw [Stored.msgEncode_eq hstored hnul] at hencode
    rw [Stored.msgEncode_eq hstored' hnul', ← hsent, ← hencode, ok.injEq, Prod.mk.injEq] at hencode'
    have hsame := sameSeckeyid_of_encoded hstored hstored' hnul hnul' hencode'.1.symm
    rw [SameSeckeyid, Stored.seckeyid_eq hsop hstored hends, Stored.seckeyid_eq hsop hstored' hends']
      at hsame
    exact ⟨hcheck, hfits, hends, hends', hsame⟩
  · rintro ⟨hcheck, hfits, hends, hends', hsame⟩
    -- each run gives a reply, whatever the memory
    have hreply : ∀ {memory : RespondMsg}, R2Ends reqmsg memory →
        ∃ resmsg key, sop.Stored rand reqmsg memory resmsg ∧
          resmsg.Holds (RespondMsg.r2.off + drawnChars) [0] ∧
          sop.secMngArrange (.signed md5) composeSize rand memory reqmsg =
            ok (resmsg, (encoded .op (sentMembers resmsg) resmsg,
              ((encoded .op (sentMembers resmsg) resmsg).length : ℤ)), { sop with key := key }) := by
      intro memory hends
      have hle : (reqmsg.str RequestMsg.clientId.off).length ≤ 54 := hends.elim Eq.le fun h => h.1.le
      obtain ⟨resmsg, hstored⟩ : ∃ resmsg, sop.Stored rand reqmsg memory resmsg :=
        exists_stored hsop (by omega) rand memory
      have hnul := (Stored.ends_iff hsop hstored).mpr hends
      obtain ⟨text, key, htext, hkey⟩ := (exists_new_key_iff md5 (zero_mem_of_check hcheck).2
        (Stored.holds_sent hstored hnul).1).mpr hfits
      exact ⟨resmsg, key, hstored, hnul, (secMngArrange_eq_ok hsop hcheck).mpr
        ⟨⟨hstored, text, key, htext, hkey, rfl⟩, Stored.msgEncode_eq hstored hnul⟩⟩
    obtain ⟨resmsg, key, hstored, hnul, hreply₁⟩ := hreply hends
    obtain ⟨resmsg', key', hstored', hnul', hreply₂⟩ := hreply hends'
    have hsame' : SameSeckeyid resmsg resmsg' := by
      rw [SameSeckeyid, Stored.seckeyid_eq hsop hstored hends, Stored.seckeyid_eq hsop hstored' hends']
      exact hsame
    refine ⟨_, _, hreply₁, hreply₂, ?_, fun _ => ?_⟩
    · rw [encoded_eq_of_sameSeckeyid hstored hstored' hnul hnul' hsop hsame']
    · exact ⟨(Stored.strings hsop hstored hnul).2.2, (Stored.strings hsop hstored' hnul').2.2⟩

end Replies

/-- Nothing of the memory is shown by a request exactly if the byte behind `r1` was a NUL, and by a
reply exactly if the request is accepted, its key can be made, the byte behind `r2` becomes a NUL
and `seckeyid` was the same. -/
theorem noLeak_iff (md5 : Bytes → Vector UInt8 16) {c : Clientop} {sop : Serverop}
    (hc : c.Terminated) (hsop : sop.Terminated) (clientRand serverRand : ℕ → ℕ) (reqmsg : RequestMsg)
    (reqMemory reqMemory' : RequestMsg) (resMemory resMemory' : RespondMsg) :
    (c.NoLeak (.signed md5) clientRand reqMemory reqMemory' ↔
        reqMemory.Holds (RequestMsg.r1.off + drawnChars) [0] ∧
          reqMemory'.Holds (RequestMsg.r1.off + drawnChars) [0]) ∧
      (sop.NoLeak (.signed md5) serverRand reqmsg resMemory resMemory' ↔
        sop.check (.signed md5) reqmsg = ok 0 ∧ KeyFits md5 serverRand reqmsg ∧
          R2Ends reqmsg resMemory ∧ R2Ends reqmsg resMemory' ∧ SameSeckeyid resMemory resMemory') :=
  ⟨Clientop.noLeak_iff_ends md5 hc clientRand reqMemory reqMemory',
    noLeak_iff_accepted md5 hsop serverRand reqmsg resMemory resMemory'⟩

/-- A digest that is the same for every text. -/
def sameDigest (_text : Bytes) : Vector UInt8 16 :=
  Vector.replicate 16 0

/-- The server `1111`, as it is constructed. -/
def serverop1111 : Serverop :=
  ⟨Clientop.server1111, Clientop.client1111.key⟩

/-- A request of the client `1111` with one random character, and the code of its strings. -/
def request1111 : RequestMsg :=
  ⟨intBytes 1 ++ (List.replicate 4 0x31 ++ List.replicate 8 0) ++
    (List.replicate 32 0x30 ++ List.replicate 33 0) ++ (List.replicate 4 0x31 ++ List.replicate 8 0) ++
    0x37 :: List.replicate 66 0, by simp⟩

/-- Other memory with a NUL behind `r1`. -/
def usedRequest : RequestMsg :=
  ⟨List.replicate 123 0x78 ++ 0 :: List.replicate 36 0x78, by simp⟩

/-- Other memory with a NUL behind `r2`, and nothing in `seckeyid`. -/
def usedRespond : RespondMsg :=
  ⟨List.replicate 58 0x78 ++ 0 :: List.replicate 33 0x78 ++ List.replicate 4 0, by simp⟩

/-- A request and its reply, from zeroed memory and from memory that was used. -/
theorem noLeak_used :
    Clientop.client1111.NoLeak (.signed sameDigest) id (.zero 160) usedRequest ∧
      serverop1111.check (.signed sameDigest) request1111 = ok 0 ∧
      serverop1111.NoLeak (.signed sameDigest) id request1111 (.zero 96) usedRespond := by
  have hcheck : serverop1111.check (.signed sameDigest) request1111 = ok 0 := by decide +kernel
  have hfits : KeyFits sameDigest id request1111 := by
    refine ⟨by decide +kernel, fun b hb => ?_⟩
    have hzero : b = 0 := List.eq_of_mem_replicate (List.mem_of_mem_drop hb)
    rw [hzero]
    decide
  have hc : Clientop.client1111.Terminated := ⟨by decide +kernel, by decide +kernel, by decide +kernel⟩
  have hsop : serverop1111.Terminated := ⟨by decide +kernel, by decide +kernel⟩
  have hnone := noLeak_iff sameDigest hc hsop id id request1111 (.zero 160) usedRequest (.zero 96)
    usedRespond
  refine ⟨hnone.1.mpr ⟨by decide +kernel, by decide +kernel⟩, hcheck, hnone.2.mpr ⟨hcheck, hfits, ?_⟩⟩
  exact ⟨Or.inr ⟨by decide +kernel, by decide +kernel⟩, Or.inr ⟨by decide +kernel, by decide +kernel⟩,
    Or.inl (by decide +kernel)⟩

/-- Memory that holds an `x` behind `r1`. -/
def dirty : RequestMsg :=
  ⟨List.replicate 123 0 ++ 0x78 :: List.replicate 36 0, by simp⟩

/-- The `x` is sent behind the random string. -/
theorem not_noLeak_dirty : ¬Clientop.client1111.NoLeak (.signed sameDigest) id (.zero 160) dirty := by
  intro hnone
  have hends := (Clientop.noLeak_iff_ends sameDigest
    ⟨by decide +kernel, by decide +kernel, by decide +kernel⟩ id (.zero 160) dirty).mp hnone
  exact absurd hends.2 (by decide +kernel)

end Serverop

end SafeTransmission
