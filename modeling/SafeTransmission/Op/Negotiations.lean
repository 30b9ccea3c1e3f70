import SafeTransmission.Library.Runs
import SafeTransmission.Op.Building

/-!
# Negotiations of one client

The client keeps the key of a negotiation in its object and makes the next code with it.  The
server makes an object for every request, and the constructor gives it the server id as its
key.  The first negotiation is accepted, since the client starts with the server id too, and
both sides make the same key (`negotiate_eq`).  Behind it the keys differ, and the next code is
wrong (`rv_of_key_ne`).

The keys are in step after every negotiation of a run exactly if there is none, and every
negotiation is accepted exactly if there is at most one (`inStep_iff`).

The messages of a negotiation are delivered as they are.

## Strategy

* `respond_eq` goes through the reply to an accepted request, and `negotiate_eq` through a whole
  negotiation of a client whose key is the server id.
* A new key of 32 digits is not the server id, so the next code is made of other data
  (`rv_of_key_ne`), and without a collision the server refuses it.
-/

namespace SafeTransmission

open Outcome Codec

/-! ## Replies -/

namespace Serverop

/-- An acceptance of the request, with a random string. -/
structure IsReply (sop : Serverop) (reqmsg : RequestMsg) (random : Bytes) (resmsg : RespondMsg) :
    Prop where
  rv : resmsg.int RespondMsg.rv.off = 0
  clientId_ends : 0 ∈ resmsg.chars RespondMsg.clientId.off RespondMsg.clientId.cap
  clientId : resmsg.str RespondMsg.clientId.off = reqmsg.str RequestMsg.clientId.off
  serverId_ends : 0 ∈ resmsg.chars RespondMsg.serverId.off RespondMsg.serverId.cap
  serverId : resmsg.str RespondMsg.serverId.off = sop.sinfo.str ServerInfo.serverID.off
  r2_ends : 0 ∈ resmsg.chars RespondMsg.r2.off RespondMsg.r2.cap
  r2 : resmsg.str RespondMsg.r2.off = random

/-- The first `drawnChars` bytes of `r2`. -/
def r2Drawn : Member := ⟨.chars, RespondMsg.r2.off, drawnChars⟩

theorem compose_drawn {size : ℕ} (hsize : 120 ≤ size) {reqmsg : RequestMsg} {resmsg : RespondMsg}
    (hr1 : 0 ∈ reqmsg.chars RequestMsg.r1.off RequestMsg.r1.cap)
    (hr2 : 0 ∈ resmsg.chars RespondMsg.r2.off RespondMsg.r2.cap)
    (hlen1 : (reqmsg.str RequestMsg.r1.off).length = drawnChars)
    (hlen2 : (resmsg.str RespondMsg.r2.off).length = drawnChars) :
    compose size (reqmsg.ptr RequestMsg.r1.off) (resmsg.ptr RespondMsg.r2.off) =
      ok (interleaved (reqmsg.str RequestMsg.r1.off) (resmsg.str RespondMsg.r2.off)) := by
  have hsum : (cString (reqmsg.ptr RequestMsg.r1.off)).length +
      (cString (resmsg.ptr RespondMsg.r2.off)).length = 60 := by
    rw [← CObject.str, ← CObject.str, hlen1, hlen2]
    rfl
  refine (compose_eq_ok (by omega)).mpr ⟨zero_mem_ptr hr1, zero_mem_ptr hr2, ⟨?_, ?_⟩, ?_, rfl⟩
  · rw [hsum, CObject.length_ptr]
    decide
  · rw [hsum, CObject.length_ptr]
    decide
  · omega

section Replies

variable {f : HexText} {size : ℕ} {sop : Serverop} {reqmsg : RequestMsg} {memory : RespondMsg}

theorem respond_eq (hsize : 120 ≤ size) (hsop : sop.Terminated)
    (hreq : Codec.Terminated RequestMsg.members reqmsg)
    (hr1 : (reqmsg.str RequestMsg.r1.off).length = drawnChars)
    (hends : memory.Holds (RespondMsg.r2.off + drawnChars) [0])
    (hcheck : sop.check (.ofText f) reqmsg = ok 0) (rand : ℕ → ℕ) :
    ∃ resmsg sop', sop.respond (.ofText f) size rand memory reqmsg = ok (resmsg, sop') ∧
      IsReply sop reqmsg (drawn 26 0x61 rand) resmsg := by
  have hclientMem := hreq RequestMsg.clientId (by decide) rfl
  have hclient : (reqmsg.str RequestMsg.clientId.off).length < 12 := length_str_lt hclientMem
  have hserver : (sop.sinfo.str ServerInfo.serverID.off).length < 12 := length_str_lt hsop.serverID
  have hclientZero := zero_notMem_str reqmsg RequestMsg.clientId.off
  have hserverZero := zero_notMem_str sop.sinfo ServerInfo.serverID.off
  have hletters : 0 ∉ drawn 26 0x61 rand :=
    zero_notMem_drawn (by norm_num) (by norm_num) (by norm_num) rand
  have hlen : (drawn 26 0x61 rand).length = 30 := length_drawn ..
  have hlayout : Layout 96 [RespondMsg.serverId, RespondMsg.rv, RespondMsg.clientId, r2Drawn] :=
    ⟨by decide, by decide⟩
  have hcap : List.Forall₂ (fun m d => d.length ≤ m.cap)
      [RespondMsg.serverId, RespondMsg.rv, RespondMsg.clientId, r2Drawn]
      [sop.sinfo.str ServerInfo.serverID.off ++ [0], intBytes 0,
        reqmsg.str RequestMsg.clientId.off ++ [0], drawn 26 0x61 rand] := by
    simp [RespondMsg.serverId, RespondMsg.rv, RespondMsg.clientId, r2Drawn, hlen, drawnChars]
    omega
  obtain ⟨resmsg, hstore, hholds⟩ := storeAll_spec hlayout hcap memory
  have hnul := storeAll_holds_of_apart hcap hstore (by decide) hends
  simp only [List.forall₂_cons, List.Forall₂.nil, and_true] at hholds
  obtain ⟨hserverId, hrv, hclientId, hr2⟩ := hholds
  -- the drawn characters, and the NUL that was there
  have hr2Ends : resmsg.Holds RespondMsg.r2.off (drawn 26 0x61 rand ++ [0]) := hr2.append (by rwa [hlen])
  obtain ⟨hclientEnd, hclientStr⟩ := hclientId.string hclientZero hclient
  obtain ⟨hserverEnd, hserverStr⟩ := hserverId.string hserverZero hserver
  obtain ⟨hr2End, hr2Str⟩ := @CObject.Holds.string _ resmsg (drawn 26 0x61 rand) RespondMsg.r2 hr2Ends
    hletters (by rw [hlen]; decide)
  have hcompose := compose_drawn hsize (hreq RequestMsg.r1 (by decide) rfl) hr2End hr1
    (by rw [hr2Str, length_drawn])
  obtain ⟨key, hprint, -, -⟩ := exists_printed f
    (interleaved (reqmsg.str RequestMsg.r1.off) (resmsg.str RespondMsg.r2.off))
  refine ⟨resmsg, { sop with key := key }, ?_,
    ⟨hrv.int_eq, hclientEnd, hclientStr, hserverEnd, hserverStr, hr2End, hr2Str⟩⟩
  simp only [storeAll_cons_eq_ok, storeAll_singleton] at hstore
  obtain ⟨msg₁, hstore₁, msg₂, hstore₂, msg₃, hstore₃, hstore₄⟩ := hstore
  have hr2Store : msg₃.store RespondMsg.r2.off (drawn 26 0x61 rand) = ok resmsg := hstore₄
  obtain ⟨authcd, hcode, hverdict⟩ := bind_eq_ok.mp hcheck
  rw [respond, hcode, ok_bind, CObject.strcpy_eq (zero_mem_ptr hsop.serverID), ← CObject.str, hstore₁,
    ok_bind, hverdict, ok_bind, hstore₂, ok_bind, if_pos rfl, accept,
    CObject.strcpy_eq (zero_mem_ptr hclientMem), ← CObject.str, hstore₃, ok_bind, hr2Store, ok_bind,
    hcompose, ok_bind, hprint, ok_bind]

theorem rv_of_respond {rv : ℤ} (hcheck : sop.check (.ofText f) reqmsg = ok rv) (hrv : rv ≠ 0)
    {rand : ℕ → ℕ} {resmsg : RespondMsg} {sop' : Serverop}
    (hrespond : sop.respond (.ofText f) size rand memory reqmsg = ok (resmsg, sop')) :
    resmsg.int RespondMsg.rv.off = toInt32 rv := by
  obtain ⟨authcd, hcode, hverdict⟩ := bind_eq_ok.mp hcheck
  rw [respond, hcode, ok_bind] at hrespond
  obtain ⟨resmsg₁, -, hrespond⟩ := bind_eq_ok.mp hrespond
  rw [hverdict, ok_bind] at hrespond
  obtain ⟨resmsg₂, hstore, hrespond⟩ := bind_eq_ok.mp hrespond
  rw [if_neg hrv] at hrespond
  obtain ⟨rfl, -⟩ := Prod.mk.inj (ok.inj hrespond)
  exact (CObject.holds_store_self hstore).int_eq

end Replies

end Serverop

/-! ## Negotiations -/

/-- A negotiation: the random numbers of both sides, and the memory for the two messages and for
the key of the server, in which the random strings end behind what is drawn. -/
structure Negotiation where
  clientRand : ℕ → ℕ
  serverRand : ℕ → ℕ
  reqMemory : RequestMsg
  resMemory : RespondMsg
  keyMemory : CObject 34
  r1_ends : reqMemory.Holds (RequestMsg.r1.off + drawnChars) [0]
  r2_ends : resMemory.Holds (RespondMsg.r2.off + drawnChars) [0]

namespace Clientop

/-- `keyMngArrange` of the client, with `working` of the server in between: the reply, and the
client behind it. -/
def negotiate (h : Md5Hex) (size : ℕ) (sinfo : ServerInfo) (c : Clientop) (x : Negotiation) :
    Outcome (RespondMsg × Clientop) := do
  let reqmsg ← c.request h x.clientRand x.reqMemory
  let sop ← Serverop.new sinfo x.keyMemory
  let (resmsg, _) ← sop.respond h size x.serverRand x.resMemory reqmsg
  let c ← c.accept h size reqmsg resmsg
  ok (resmsg, c)

/-- A negotiation as a step of the client. -/
def negotiation (h : Md5Hex) (size : ℕ) (sinfo : ServerInfo) (c : Clientop) (x : Negotiation) :
    Outcome Clientop := do
  let result ← c.negotiate h size sinfo x
  ok result.2

/-- The negotiation is accepted. -/
def Accepted (h : Md5Hex) (size : ℕ) (sinfo : ServerInfo) (c : Clientop) (x : Negotiation) : Prop :=
  ∃ resmsg c', c.negotiate h size sinfo x = ok (resmsg, c') ∧ resmsg.int RespondMsg.rv.off = 0

/-- The negotiation is accepted, and the key for the next request to the server is that of the
client. -/
def InStep (h : Md5Hex) (size : ℕ) (sinfo : ServerInfo) (c : Clientop) (x : Negotiation) : Prop :=
  ∃ resmsg c', c.negotiate h size sinfo x = ok (resmsg, c') ∧ resmsg.int RespondMsg.rv.off = 0 ∧
    ∀ memory, ∃ sop, Serverop.new sinfo memory = ok sop ∧ sop.key.str 0 = c'.key.str 0

/-- The code of the client and the one that the server computes with its id as the key do not
collide. -/
def NoCollision (f : HexText) (sinfo : ServerInfo) (c : Clientop) (x : Negotiation) : Prop :=
  ∀ sop, Serverop.new sinfo x.keyMemory = ok sop →
    ∀ reqmsg, c.request (.ofText f) x.clientRand x.reqMemory = ok reqmsg →
      f.text (c.codeData (drawn 10 0x30 x.clientRand)) = f.text (sop.codeData reqmsg) →
        c.codeData (drawn 10 0x30 x.clientRand) = sop.codeData reqmsg

section Negotiations

variable {f : HexText} {size : ℕ} {sinfo : ServerInfo} {c : Clientop} {x : Negotiation}
  (hsize : 120 ≤ size)
  (hserver : 0 ∈ sinfo.chars ServerInfo.serverID.off ServerInfo.serverID.cap)
  (hc : c.Terminated) (hsame : c.cinfo.str serverId.off = sinfo.str ServerInfo.serverID.off)

include hserver in
theorem exists_new (memory : CObject 34) : ∃ sop, Serverop.new sinfo memory = ok sop ∧
    sop.Terminated ∧ sop.sinfo = sinfo ∧ sop.key.str 0 = sinfo.str ServerInfo.serverID.off := by
  obtain ⟨key, hcopy, hends, htext⟩ := exists_key hserver (by decide) memory
  refine ⟨⟨sinfo, key⟩, ?_, ⟨hserver, hends⟩, rfl, htext⟩
  rw [Serverop.new, hcopy, ok_bind]

include hserver hc hsame in
/-- The request of a client, the object that handles it, and the data of both codes. -/
theorem exists_request (f : HexText) (x : Negotiation) : ∃ reqmsg sop,
    c.request (.ofText f) x.clientRand x.reqMemory = ok reqmsg ∧
      IsRequest f.text c (drawn 10 0x30 x.clientRand) reqmsg ∧
      Serverop.new sinfo x.keyMemory = ok sop ∧ sop.Terminated ∧ sop.sinfo = sinfo ∧
      sop.key.str 0 = sinfo.str ServerInfo.serverID.off ∧
      (c.codeData (drawn 10 0x30 x.clientRand) = sop.codeData reqmsg ↔
        c.key.str 0 = sop.key.str 0) ∧
      sop.check (.ofText f) reqmsg = ok (if f.text (c.codeData (drawn 10 0x30 x.clientRand)) =
        f.text (sop.codeData reqmsg) then 0 else -1) := by
  obtain ⟨reqmsg, hrequest, hreq⟩ := request_eq hc (Md5Hex.renders_ofText f) x.r1_ends x.clientRand
  obtain ⟨sop, hnew, hsop, hsinfo, hkey⟩ := exists_new hserver x.keyMemory
  refine ⟨reqmsg, sop, hrequest, hreq, hnew, hsop, hsinfo, hkey, ?_, ?_⟩
  · rw [codeData, Serverop.codeData, hreq.clientId, hreq.serverId, hreq.r1, List.append_right_inj]
  · have hown : sop.sinfo.str ServerInfo.serverID.off = reqmsg.str RequestMsg.serverId.off := by
      rw [hsinfo, hreq.serverId, hsame]
    rw [Serverop.check_eq f hsop hreq.terminated, hreq.authCode, if_neg (not_not.mpr hown), ite_not]

include hsize hserver hc hsame in
/-- A client with the server id as its key is accepted, and makes a new key of 32 digits. -/
theorem negotiate_eq (hkey : c.key.str 0 = sinfo.str ServerInfo.serverID.off) :
    ∃ resmsg key, c.negotiate (.ofText f) size sinfo x = ok (resmsg, ⟨c.cinfo, key⟩) ∧
      resmsg.int RespondMsg.rv.off = 0 ∧ 0 ∈ key.ptr 0 ∧
      key.str 0 = f.text (interleaved (drawn 10 0x30 x.clientRand) (drawn 26 0x61 x.serverRand)) := by
  obtain ⟨reqmsg, sop, hrequest, hreq, hnew, hsop, hsinfo, hkey', hdata, hcheck⟩ :=
    exists_request hserver hc hsame f x
  rw [hdata.mpr (hkey.trans hkey'.symm), if_pos rfl] at hcheck
  have hr1 := hreq.terminated RequestMsg.r1 (by decide) rfl
  have hr1Len : (reqmsg.str RequestMsg.r1.off).length = drawnChars := by
    rw [hreq.r1, length_drawn]
  obtain ⟨resmsg, sop', hrespond, hreply⟩ := Serverop.respond_eq hsize hsop hreq.terminated hr1Len
    x.r2_ends hcheck x.serverRand
  have hr2Len : (resmsg.str RespondMsg.r2.off).length = drawnChars := by
    rw [hreply.r2, length_drawn]
  have hcompose := Serverop.compose_drawn hsize hr1 hreply.r2_ends hr1Len hr2Len
  rw [hreq.r1, hreply.r2] at hcompose
  obtain ⟨key, hprint, hends, htext⟩ := Serverop.exists_printed f
    (interleaved (drawn 10 0x30 x.clientRand) (drawn 26 0x61 x.serverRand))
  have hown : resmsg.bothEqual RespondMsg.clientId RespondMsg.serverId (c.cinfo.ptr clientId.off)
      (c.cinfo.ptr serverId.off) = ok true := by
    rw [CObject.bothEqual_eq hreply.clientId_ends hreply.serverId_ends (zero_mem_ptr hc.clientId)
      (zero_mem_ptr hc.serverId), hreply.clientId, hreply.serverId, hreq.clientId, hsinfo, ← hsame]
    exact congrArg ok (decide_eq_true rfl)
  refine ⟨resmsg, key, ?_, hreply.rv, hends, htext⟩
  rw [negotiate, hrequest, ok_bind, hnew, ok_bind, hrespond, ok_bind]
  dsimp only
  rw [accept, hown, ok_bind, if_pos ⟨rfl, hreply.rv⟩, hcompose, ok_bind, hprint, ok_bind, ok_bind]

include hserver hc hsame in
theorem rv_of_key_ne (hcollision : NoCollision f sinfo c x)
    (hkey : c.key.str 0 ≠ sinfo.str ServerInfo.serverID.off) : ¬Accepted (.ofText f) size sinfo c x := by
  rintro ⟨resmsg, c', hrun, hrv⟩
  obtain ⟨reqmsg, sop, hrequest, -, hnew, -, -, hkey', hdata, hcheck⟩ :=
    exists_request hserver hc hsame f x
  have hdiffer : ¬f.text (c.codeData (drawn 10 0x30 x.clientRand)) = f.text (sop.codeData reqmsg) :=
    fun hcodes => hkey ((hdata.mp (hcollision sop hnew reqmsg hrequest hcodes)).trans hkey')
  rw [if_neg hdiffer] at hcheck
  rw [negotiate, hrequest, ok_bind, hnew, ok_bind] at hrun
  obtain ⟨⟨resmsg', sop'⟩, hrespond, hrun⟩ := bind_eq_ok.mp hrun
  obtain ⟨c'', -, hrun⟩ := bind_eq_ok.mp hrun
  obtain ⟨rfl, -⟩ := Prod.mk.inj (ok.inj hrun)
  rw [Serverop.rv_of_respond hcheck (by decide) hrespond] at hrv
  exact absurd hrv (by decide)

include hsize hserver hc hsame in
/-- The first negotiation as a step: the client has another key than the server id behind it. -/
theorem negotiation_eq (f : HexText) (x : Negotiation)
    (hkey : c.key.str 0 = sinfo.str ServerInfo.serverID.off) :
    ∃ resmsg key, c.negotiate (.ofText f) size sinfo x = ok (resmsg, ⟨c.cinfo, key⟩) ∧
      c.negotiation (.ofText f) size sinfo x = ok ⟨c.cinfo, key⟩ ∧
      resmsg.int RespondMsg.rv.off = 0 ∧ 0 ∈ key.ptr 0 ∧
      key.str 0 ≠ sinfo.str ServerInfo.serverID.off := by
  obtain ⟨resmsg, key, hrun, hrv, hends, htext⟩ := @negotiate_eq f size sinfo c x hsize hserver hc hsame
    hkey
  have hserverLen : (sinfo.str ServerInfo.serverID.off).length < 12 := length_str_lt hserver
  refine ⟨resmsg, key, hrun, by rw [negotiation, hrun, ok_bind], hrv, hends, fun heq => ?_⟩
  rw [← heq, htext, f.length_eq] at hserverLen
  exact absurd hserverLen (by decide)

include hserver in
theorem not_inStep {resmsg : RespondMsg} {c' : Clientop} {h : Md5Hex}
    (hrun : c.negotiate h size sinfo x = ok (resmsg, c'))
    (hkey : c'.key.str 0 ≠ sinfo.str ServerInfo.serverID.off) : ¬InStep h size sinfo c x := by
  rintro ⟨resmsg', c'', hrun', -, hnext⟩
  obtain ⟨-, rfl⟩ := Prod.mk.inj (ok.inj (hrun.symm.trans hrun'))
  obtain ⟨sop, hnew, hsop⟩ := hnext (.zero 34)
  obtain ⟨sop', hnew', -, -, hid⟩ := exists_new hserver (.zero 34)
  obtain rfl := ok.inj (hnew.symm.trans hnew')
  exact hkey (hsop.symm.trans hid)

end Negotiations

/-- The keys are in step behind every negotiation of a run exactly if there is none, and all
negotiations of a run are accepted exactly if there is at most one. -/
theorem inStep_iff {f : HexText} {size : ℕ} (hsize : 120 ≤ size) {sinfo : ServerInfo}
    (hserver : 0 ∈ sinfo.chars ServerInfo.serverID.off ServerInfo.serverID.cap)
    {cinfo : CObject 108} (hclientId : 0 ∈ cinfo.chars clientId.off clientId.cap)
    (hserverId : 0 ∈ cinfo.chars serverId.off serverId.cap)
    (hsame : cinfo.str serverId.off = sinfo.str ServerInfo.serverID.off) {memory : CObject 34}
    {c : Clientop} (hnew : new cinfo memory = ok c) (xs : List Negotiation)
    (hcollision : EachStep (negotiation (.ofText f) size sinfo) (NoCollision f sinfo) xs c) :
    (EachStep (negotiation (.ofText f) size sinfo) (InStep (.ofText f) size sinfo) xs c ↔ xs = []) ∧
      (EachStep (negotiation (.ofText f) size sinfo) (Accepted (.ofText f) size sinfo) xs c ↔
        xs.length ≤ 1) := by
  obtain ⟨key, hcopy, hends, htext⟩ := exists_key hserverId (by decide) memory
  rw [new, hcopy, ok_bind] at hnew
  obtain rfl := ok.inj hnew
  have hc : Terminated ⟨cinfo, key⟩ := ⟨hclientId, hserverId, hends⟩
  cases xs with
  | nil => exact ⟨iff_of_true trivial rfl, iff_of_true trivial (Nat.zero_le 1)⟩
  | cons x xs =>
      obtain ⟨resmsg, key', hrun, hstep, hrv, hends', hother⟩ :=
        negotiation_eq hsize hserver hc hsame f x (htext.trans hsame)
      constructor
      · exact iff_of_false (fun heach => not_inStep hserver hrun hother heach.1) (List.cons_ne_nil x xs)
      · cases xs with
        | nil => exact iff_of_true ⟨⟨resmsg, _, hrun, hrv⟩, fun _ _ => trivial⟩ le_rfl
        | cons y xs =>
            -- the second negotiation is made with the key of the first one
            refine iff_of_false (fun heach => ?_) (by simp)
            have hrefused := @rv_of_key_ne f size sinfo ⟨cinfo, key'⟩ y hserver
              ⟨hclientId, hserverId, hends'⟩ hsame (hcollision.2 _ hstep).1 hother
            exact hrefused (heach.2 _ hstep).1

/-- The client as its constructor leaves it. -/
def client1111 : Clientop :=
  ⟨⟨List.replicate 4 0x31 ++ List.replicate 42 0 ++ List.replicate 4 0x31 ++ List.replicate 58 0,
    by simp⟩, ⟨List.replicate 4 0x31 ++ List.replicate 30 0, by simp⟩⟩

/-- The server of `main`. -/
def server1111 : ServerInfo :=
  ⟨List.replicate 4 0x31 ++ List.replicate 92 0, by simp⟩

/-- A negotiation in memory that was zeroed. -/
def plain : Negotiation :=
  ⟨fun i => i, fun i => i, .zero 160, .zero 96, .zero 34, by decide, by decide⟩

/-- The client behind one negotiation. -/
def behindPlain : Clientop :=
  ⟨client1111.cinfo, ⟨lastBytes.text (interleaved (drawn 10 0x30 fun i => i) (drawn 26 0x61 fun i => i)) ++
    [0, 0], by simp [lastBytes.length_eq]⟩⟩

theorem negotiation_plain :
    client1111.negotiation (.ofText lastBytes) 120 server1111 plain = ok behindPlain := by
  decide +kernel

/-- A test of a negotiation for a collision of its two codes. -/
def testCollision (f : HexText) (sinfo : ServerInfo) (c : Clientop) (x : Negotiation) : Bool :=
  match Serverop.new sinfo x.keyMemory, c.request (.ofText f) x.clientRand x.reqMemory with
  | ok sop, ok reqmsg =>
      decide (f.text (c.codeData (drawn 10 0x30 x.clientRand)) = f.text (sop.codeData reqmsg) →
        c.codeData (drawn 10 0x30 x.clientRand) = sop.codeData reqmsg)
  | _, _ => true

theorem noCollision_of_test {f : HexText} {sinfo : ServerInfo} (c : Clientop) (x : Negotiation)
    (htest : testCollision f sinfo c x = true) : NoCollision f sinfo c x := by
  intro sop hnew reqmsg hrequest
  rw [testCollision, hnew, hrequest] at htest
  exact of_decide_eq_true htest

theorem inStep_iff_twice :
    (EachStep (negotiation (.ofText lastBytes) 120 server1111)
        (InStep (.ofText lastBytes) 120 server1111) [plain, plain] client1111 ↔ [plain, plain] = []) ∧
      (EachStep (negotiation (.ofText lastBytes) 120 server1111)
          (Accepted (.ofText lastBytes) 120 server1111) [plain, plain] client1111 ↔
        [plain, plain].length ≤ 1) := by
  have hnew : new client1111.cinfo (.zero 34) = ok client1111 := by decide +kernel
  exact inStep_iff le_rfl (by decide +kernel) (by decide +kernel) (by decide +kernel)
    (by decide +kernel) hnew [plain, plain] (.of_test noCollision_of_test (by decide +kernel))

/-- The second negotiation is refused. -/
theorem not_inStep_twice : ¬EachStep (negotiation (.ofText lastBytes) 120 server1111)
    (InStep (.ofText lastBytes) 120 server1111) [plain, plain] client1111 := by
  rintro ⟨-, hsecond⟩
  obtain ⟨⟨resmsg, c', hrun, hrv, -⟩, -⟩ := hsecond behindPlain negotiation_plain
  have hrefused := @rv_of_key_ne lastBytes 120 server1111 behindPlain plain (by decide +kernel)
    ⟨by decide +kernel, by decide +kernel, by decide +kernel⟩ (by decide +kernel)
    (noCollision_of_test behindPlain plain (by decide +kernel)) (by decide +kernel)
  exact hrefused ⟨resmsg, c', hrun, hrv⟩

end Clientop

end SafeTransmission
