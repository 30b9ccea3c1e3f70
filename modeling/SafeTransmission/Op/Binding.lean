import SafeTransmission.Library.Concatenation
import SafeTransmission.Op.Building

/-!
# What an authentication code of `clientop` binds

The digest is made of the client id, the server id, `r1` and the key, with nothing in between.
A piece of text that begins like the server id can therefore move over it from `r1` to the
client id, and the digest stays the same.

A code determines the client id and `r1` of the requests that it gets accepted exactly if no
such piece has moved (`binds_iff`).
-/

namespace SafeTransmission

open Outcome

namespace Serverop

/-- The server accepts the request. -/
def Accepts (h : Md5Hex) (sop : Serverop) (reqmsg : RequestMsg) : Prop :=
  sop.check h reqmsg = ok 0

instance (h : Md5Hex) (sop : Serverop) (reqmsg : RequestMsg) : Decidable (sop.Accepts h reqmsg) :=
  inferInstanceAs (Decidable (_ = _))

section Codes

variable {f : HexText} {sop : Serverop} {reqmsg a b : RequestMsg}

/-- A request that is accepted carries the code of its own strings, and the id of the server. -/
theorem of_accepts (haccepts : sop.Accepts (.ofText f) reqmsg) :
    reqmsg.str RequestMsg.authCode.off = f.text (sop.codeData reqmsg) ∧
      reqmsg.str RequestMsg.serverId.off = sop.sinfo.str ServerInfo.serverID.off := by
  obtain ⟨authcd, hcode, hverdict⟩ := bind_eq_ok.mp haccepts
  obtain ⟨data, hdata, hprint⟩ := bind_eq_ok.mp hcode
  obtain ⟨-, -, -, -, -, rfl⟩ := authData_eq_ok.mp hdata
  obtain ⟨-, hdigits⟩ := str_printed hprint
  obtain ⟨differs, hdiffers, hverdict⟩ := bind_eq_ok.mp hverdict
  split at hverdict
  · cases hverdict
  · rename_i hsame
    obtain rfl := not_not.mp hsame
    obtain ⟨other, hother, hverdict⟩ := bind_eq_ok.mp hverdict
    split at hverdict
    · cases hverdict
    · rename_i hown
      obtain rfl := not_not.mp hown
      obtain ⟨-, -, hcodes⟩ := strcmp_eq_ok_zero.mp hdiffers
      obtain ⟨-, -, hids⟩ := strcmp_eq_ok_zero.mp hother
      exact ⟨hcodes.trans hdigits, hids.symm⟩

/-- MD5 and its digits do not collide on the data of the two requests. -/
def NoCollision (f : HexText) (sop : Serverop) (a b : RequestMsg) : Prop :=
  f.text (sop.codeData a) = f.text (sop.codeData b) → sop.codeData a = sop.codeData b

/-- Requests with one code are for one client, and have one `r1`. -/
def Binds (a b : RequestMsg) : Prop :=
  a.str RequestMsg.authCode.off = b.str RequestMsg.authCode.off →
    a.str RequestMsg.clientId.off = b.str RequestMsg.clientId.off ∧
      a.str RequestMsg.r1.off = b.str RequestMsg.r1.off

/-- A piece of the `r1` of the one request has moved over the server id to the client id of the
other one. -/
def Shifted (sop : Serverop) (a b : RequestMsg) : Prop :=
  MovesOverMiddle (sop.sinfo.str ServerInfo.serverID.off) (a.str RequestMsg.clientId.off)
      (a.str RequestMsg.r1.off) (b.str RequestMsg.clientId.off) (b.str RequestMsg.r1.off) ∨
    MovesOverMiddle (sop.sinfo.str ServerInfo.serverID.off) (b.str RequestMsg.clientId.off)
      (b.str RequestMsg.r1.off) (a.str RequestMsg.clientId.off) (a.str RequestMsg.r1.off)

/-- Where both `r1` have one length, as those that `clientop` draws, nothing has moved. -/
theorem not_shifted_of_length_eq
    (hlen : (a.str RequestMsg.r1.off).length = (b.str RequestMsg.r1.off).length) :
    ¬Shifted sop a b := by
  rintro (⟨t, hne, -, hmiddle⟩ | ⟨t, hne, -, hmiddle⟩)
  all_goals
    have hpos := List.length_pos_of_ne_nil hne
    have hsum := congrArg List.length hmiddle
    simp only [List.length_append] at hsum
    omega

theorem codeData_eq_iff (ha : a.str RequestMsg.serverId.off = sop.sinfo.str ServerInfo.serverID.off)
    (hb : b.str RequestMsg.serverId.off = sop.sinfo.str ServerInfo.serverID.off) :
    sop.codeData a = sop.codeData b ↔
      a.str RequestMsg.clientId.off = b.str RequestMsg.clientId.off ∧
          a.str RequestMsg.r1.off = b.str RequestMsg.r1.off ∨ Shifted sop a b := by
  rw [codeData, codeData, ha, hb, List.append_left_inj, append_middle_eq_iff, Shifted]

/-- Two requests that the server accepts with one key are bound by their code exactly if no piece
has moved over the server id. -/
theorem binds_iff (ha : sop.Accepts (.ofText f) a) (hb : sop.Accepts (.ofText f) b)
    (hcollision : NoCollision f sop a b) : Binds a b ↔ ¬Shifted sop a b := by
  obtain ⟨hcodeA, hserverA⟩ := of_accepts ha
  obtain ⟨hcodeB, hserverB⟩ := of_accepts hb
  rw [Binds, hcodeA, hcodeB]
  constructor
  · intro hbinds hshifted
    obtain ⟨hclient, -⟩ := hbinds (congrArg f.text ((codeData_eq_iff hserverA hserverB).mpr
      (Or.inr hshifted)))
    rcases hshifted with hmoves | hmoves
    · exact absurd hmoves.length_lt (by rw [hclient]; exact lt_irrefl _)
    · exact absurd hmoves.length_lt (by rw [hclient]; exact lt_irrefl _)
  · intro hshifted hcodes
    exact ((codeData_eq_iff hserverA hserverB).mp (hcollision hcodes)).resolve_right hshifted

end Codes

/-- The server `2`, as it is constructed. -/
def two : Serverop :=
  ⟨ServerOperation.serverTwo, ⟨0x32 :: List.replicate 33 0, by simp⟩⟩

/-- A request with the code of the text `122r2`. -/
def claim122r2 (clientId r1 : Bytes) (hclient : clientId.length ≤ 12) (hr1 : r1.length ≤ 67) :
    RequestMsg :=
  ⟨intBytes 1 ++ (clientId ++ List.replicate (12 - clientId.length) 0) ++
    (lastBytes.text [0x31, 0x32, 0x32, 0x72, 0x32] ++ List.replicate 33 0) ++
    (0x32 :: List.replicate 11 0) ++ (r1 ++ List.replicate (67 - r1.length) 0), by
      simp [lastBytes.length_eq]
      omega⟩

/-- The client `1` with the random string `2r`. -/
def clientOne : RequestMsg :=
  claim122r2 [0x31] [0x32, 0x72] (by decide) (by decide)

/-- The client `12` with the random string `r`. -/
def clientTwelve : RequestMsg :=
  claim122r2 [0x31, 0x32] [0x72] (by decide) (by decide)

theorem binds_iff_oneTwelve : Binds clientOne clientTwelve ↔ ¬Shifted two clientOne clientTwelve :=
  binds_iff (f := lastBytes) (by decide +kernel) (by decide +kernel) fun _ => by decide +kernel

/-- Both are accepted with one code. -/
theorem not_binds_oneTwelve : two.Accepts (.ofText lastBytes) clientOne ∧
    two.Accepts (.ofText lastBytes) clientTwelve ∧ ¬Binds clientOne clientTwelve := by
  refine ⟨by decide +kernel, by decide +kernel, fun hbinds => ?_⟩
  obtain ⟨hclient, -⟩ := hbinds (by decide +kernel)
  revert hclient
  decide +kernel

end Serverop

end SafeTransmission
