import SafeTransmission.Agreement.Replies
import SafeTransmission.Library.Concatenation

/-!
# The key of an authentication code and the two parties

The authentication code is made under the key `#clientId@serverId#`.  The ids may hold any
character, also `@`, and so the key does not say where the one id ends.

Two pairs of ids have the same key exactly if they are the same or one is `Ambiguous` with the
other: a piece of text and its `@` have moved from one id to the other (`identified_iff`).  A
code made for the one pair then verifies at the server of the other pair, for the client of
that pair.
-/

namespace SafeTransmission

open Outcome

/-- An id of a client or a server, as it fits into its array of twelve bytes. -/
structure PartyId where
  text : Bytes
  zero_notMem : 0 ∉ text
  length_le : text.length ≤ 11
deriving DecidableEq

/-- A client and a server. -/
structure Parties where
  client : PartyId
  server : PartyId
deriving DecidableEq

namespace Parties

/-- `sprintf(seckey, "#%s@%s#", …)` of `secKeyAgree`, with the ids of both. -/
def seckey (p : Parties) : Outcome Bytes :=
  sprintf 1024 (0x23 :: p.client.text ++ 0x40 :: p.server.text ++ [0x23])

/-- The key under which the code of both is made. -/
def key (p : Parties) : Bytes :=
  0x23 :: p.client.text ++ 0x40 :: p.server.text ++ [0x23]

/-- The request names the client, and the code in it was made for `p` with the random string
`random`, before the request got to the server of `q`. -/
structure Presented (h : Hashes) (p q : Parties) (random : Bytes) (mInfo : ServerInfo)
    (reqmsg : RequestMsg) : Prop where
  serverEnds : 0 ∈ mInfo.chars ServerInfo.serverID.off ServerInfo.serverID.cap
  server : mInfo.str ServerInfo.serverID.off = q.server.text
  client : reqmsg.str RequestMsg.clientId.off = q.client.text
  authCode : reqmsg.str RequestMsg.authCode.off = codeText h p.client.text p.server.text random

/-- No collision of the HMAC between the code that was made and the one that is computed. -/
def NoCollision (h : Hashes) (p q : Parties) (random : Bytes) (reqmsg : RequestMsg) : Prop :=
  h.hmacMd5 p.key random = h.hmacMd5 q.key (reqmsg.str RequestMsg.r1.off) → p.key = q.key

/-- The key string tells the two pairs apart, and a code made for `p` verifies at the server of
`q` for the client of `q` only if these are the parties that it was made for. -/
def Identified (p q : Parties) : Prop :=
  (p.seckey = q.seckey → p = q) ∧
  ∀ h random mInfo reqmsg, Presented h p q random mInfo reqmsg → NoCollision h p q random reqmsg →
    ServerOperation.Authentic h mInfo reqmsg → p = q

/-- A piece and its `@` have moved from the id of the one server to that of the other client. -/
def Ambiguous (p q : Parties) : Prop :=
  MovesOverSep 0x40 p.client.text p.server.text q.client.text q.server.text ∨
    MovesOverSep 0x40 q.client.text q.server.text p.client.text p.server.text

variable {p q : Parties}

theorem ext_text (hclient : p.client.text = q.client.text) (hserver : p.server.text = q.server.text) :
    p = q := by
  obtain ⟨⟨c, _, _⟩, ⟨s, _, _⟩⟩ := p
  obtain ⟨⟨c', _, _⟩, ⟨s', _, _⟩⟩ := q
  obtain rfl : c = c' := hclient
  obtain rfl : s = s' := hserver
  rfl

theorem seckey_eq (p : Parties) : p.seckey = ok (p.key ++ [0]) := by
  have hclient := p.client.length_le
  have hserver := p.server.length_le
  have hfits : p.key.length < 1024 := by
    simp only [key, List.cons_append, List.length_cons, List.length_append, List.length_nil]
    omega
  rw [seckey, sprintf, ← key, if_pos hfits]

theorem key_eq_iff : p.key = q.key ↔ p = q ∨ Ambiguous p q := by
  have hparts : p.key = q.key ↔ p.client.text ++ 0x40 :: p.server.text =
      q.client.text ++ 0x40 :: q.server.text := by
    rw [key, key, List.append_left_inj, List.cons_append, List.cons_append, List.cons_inj_right]
  rw [hparts, append_sep_eq_iff, Ambiguous]
  refine or_congr_left ⟨fun htexts => ext_text htexts.1 htexts.2, ?_⟩
  rintro rfl
  exact ⟨rfl, rfl⟩

theorem Ambiguous.ne (h : Ambiguous p q) : p ≠ q := by
  rintro rfl
  rcases h with hmoves | hmoves <;> exact absurd hmoves.length_lt (lt_irrefl _)

/-- Where no client id has an `@`, no pair is ambiguous. -/
theorem not_ambiguous_of_notMem (hp : 0x40 ∉ p.client.text) (hq : 0x40 ∉ q.client.text) :
    ¬Ambiguous p q := by
  -- the text that moves ends with the `@` that separated it
  rintro (⟨moved, hclient, -⟩ | ⟨moved, hclient, -⟩)
  · exact hq (by rw [hclient]; simp)
  · exact hp (by rw [hclient]; simp)

/-- A code that verifies was made under the key of the pair. -/
theorem key_eq_of_authentic {h : Hashes} {random : Bytes} {mInfo : ServerInfo} {reqmsg : RequestMsg}
    (hpresented : Presented h p q random mInfo reqmsg) (hcollision : NoCollision h p q random reqmsg)
    (hauth : ServerOperation.Authentic h mInfo reqmsg) : p.key = q.key := by
  obtain ⟨-, -, hcode⟩ := (ServerOperation.authentic_iff hpresented.serverEnds).mp hauth
  rw [hpresented.authCode, hpresented.client, hpresented.server] at hcode
  exact hcollision (Vector.toList_inj.mp (hexText_inj hcode))

/-- The key identifies the parties exactly if no piece with an `@` has moved from one id to
the other. -/
theorem identified_iff (p q : Parties) : Identified p q ↔ ¬Ambiguous p q := by
  constructor
  · rintro ⟨hkey, -⟩ hambiguous
    refine hambiguous.ne (hkey ?_)
    rw [seckey_eq, seckey_eq, key_eq_iff.mpr (Or.inr hambiguous)]
  · intro hclear
    have heq : p.key = q.key → p = q := fun hkey => (key_eq_iff.mp hkey).resolve_right hclear
    refine ⟨fun hkey => heq ?_, ?_⟩
    · rw [seckey_eq, seckey_eq] at hkey
      exact List.append_cancel_right (ok.inj hkey)
    · intro h random mInfo reqmsg hpresented hcollision hauth
      exact heq (key_eq_of_authentic hpresented hcollision hauth)

/-- The client `a@b` of the server `c`. -/
def atClient : Parties :=
  ⟨⟨[0x61, 0x40, 0x62], by decide, by decide⟩, ⟨[0x63], by decide, by decide⟩⟩

/-- The client `a` of the server `b@c`. -/
def atServer : Parties :=
  ⟨⟨[0x61], by decide, by decide⟩, ⟨[0x62, 0x40, 0x63], by decide, by decide⟩⟩

/-- Both have the key `#a@b@c#`. -/
theorem not_identified_at : ¬Identified atClient atServer := by
  rintro ⟨hkey, -⟩
  exact absurd (hkey (by decide)) (by decide)

end Parties

end SafeTransmission
