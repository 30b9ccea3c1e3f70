import SafeTransmission.Agreement.Operations

/-!
# `clientop` and `serverop`

The second pair of programs negotiates a key like the first one, with MD5 throughout.  The
authentication code is the digest of the client id, the server id, `r1` and the key of the
last negotiation, one after the other; the first key is the server id.  The new key is the
digest of `r1` and `r2`, character by character in turn.

Neither program ends the random strings with a NUL, and the reply is built in memory of which
some members are never written.  The client keeps its key in its object, while the server makes
an object for every request.

The digest is printed with `%02x` from an array of `char`, which is signed, so that an octet
from `0x80` on gives eight digits.  MD5 and the printing are parameters.  So is the size of the
array in which `r1` and `r2` are put together, which is `composeSize` in the code.
-/

namespace SafeTransmission

open Outcome

/-! ## Digests -/

/-- MD5 of a text, and the loop of `sprintf` calls that prints the digest into an object from
an offset on. -/
structure Md5Hex where
  print {n : ℕ} (o : CObject n) (off : ℕ) (text : Bytes) : Outcome (CObject n)

/-- `%02x` of a `char`. -/
def signedOctet (b : UInt8) : Bytes :=
  if b < 0x80 then hexOctet b else List.replicate 6 0x66 ++ hexOctet b

/-- The loop `sprintf(&p[i * 2], "%02x", tmp[i])`. -/
def printLoop {n : ℕ} : ℕ → Bytes → CObject n → Outcome (CObject n)
  | _, [], o => ok o
  | off, b :: md, o => do
      let o ← o.store off (signedOctet b ++ [0])
      printLoop (off + 2) md o

/-- The digests of the programs. -/
def Md5Hex.signed (md5 : Bytes → Vector UInt8 16) : Md5Hex where
  print o off text := printLoop off (md5 text).toList o

/-- A function that gives the 32 digits of a digest. -/
structure HexText where
  text : Bytes → Bytes
  zero_notMem (data : Bytes) : 0 ∉ text data
  length_eq (data : Bytes) : (text data).length = 32

/-- Digests that are printed by such a function. -/
def Md5Hex.ofText (f : HexText) : Md5Hex where
  print o off data := o.store off (f.text data ++ [0])

/-! ## Strings -/

/-- `strcat` to the text in an array of `cap` bytes. -/
def strcat (cap : ℕ) (text p : Bytes) : Outcome Bytes := do
  let s ← stringAt p
  if text.length + s.length < cap then ok (text ++ s) else fault .writeOutOfBounds

/-- `data`, from which both programs make the authentication code. -/
def authData (clientId serverId r1 key : Bytes) : Outcome Bytes := do
  let data ← strcat 128 [] clientId
  let data ← strcat 128 data serverId
  let data ← strcat 128 data r1
  strcat 128 data key

/-- `p[i]`. -/
def byteAt (p : Bytes) (i : ℕ) : Outcome UInt8 :=
  match p[i]? with
  | some b => ok b
  | none => fault .readOutOfBounds

/-- The loop over `r1r2[i * 2]` and `r1r2[i * 2 + 1]`, with `n` turns to go. -/
def composeLoop {size : ℕ} (r1 r2 : Bytes) : ℕ → ℕ → CObject size → Outcome (CObject size)
  | _, 0, r1r2 => ok r1r2
  | i, n + 1, r1r2 => do
      let a ← byteAt r1 i
      let r1r2 ← r1r2.store (i * 2) [a]
      let b ← byteAt r2 i
      let r1r2 ← r1r2.store (i * 2 + 1) [b]
      composeLoop r1 r2 (i + 1) n r1r2

/-- The size of `r1r2`. -/
def composeSize : ℕ := 64

/-- The string in `r1r2`, an array of `size` bytes. -/
def compose (size : ℕ) (r1 r2 : Bytes) : Outcome Bytes := do
  let len1 ← strlen r1
  let len2 ← strlen r2
  let r1r2 ← composeLoop r1 r2 0 (len1 + len2) (.zero size)
  stringAt (r1r2.ptr 0)

/-- The number of characters that are drawn for `r1` and `r2`. -/
def drawnChars : ℕ := 30

/-- The characters `rand() % span + first`. -/
def drawn (span first : ℕ) (rand : ℕ → ℕ) : Bytes :=
  (List.range drawnChars).map fun i => UInt8.ofNat (rand i % span + first)

/-! ## The client -/

/-- `clientop`: its `cinfo`, and `Key`. -/
structure Clientop where
  cinfo : CObject 108
  key : CObject 34
deriving DecidableEq

namespace Clientop

def clientId : Member := ⟨.chars, 0, 12⟩

def serverId : Member := ⟨.chars, 46, 12⟩

/-- The end of the constructor, when the ids are written. -/
def new (cinfo : CObject 108) (memory : CObject 34) : Outcome Clientop := do
  let key ← memory.strcpy 0 (cinfo.ptr serverId.off)
  ok ⟨cinfo, key⟩

/-- `reqmsg`, on the stack. -/
def request (h : Md5Hex) (c : Clientop) (rand : ℕ → ℕ) (memory : RequestMsg) :
    Outcome RequestMsg := do
  let reqmsg := RequestMsg.declared .op memory
  let reqmsg ← reqmsg.store RequestMsg.cmdType.off (intBytes 1)
  let reqmsg ← reqmsg.strcpy RequestMsg.clientId.off (c.cinfo.ptr clientId.off)
  let reqmsg ← reqmsg.strcpy RequestMsg.serverId.off (c.cinfo.ptr serverId.off)
  let reqmsg ← reqmsg.store RequestMsg.r1.off (drawn 10 0x30 rand)
  let data ← authData (reqmsg.ptr RequestMsg.clientId.off) (reqmsg.ptr RequestMsg.serverId.off)
    (reqmsg.ptr RequestMsg.r1.off) (c.key.ptr 0)
  h.print reqmsg RequestMsg.authCode.off data

/-- The request, and `codData` and `eDatalen` for `senddata`. -/
def encodeRequest (h : Md5Hex) (c : Clientop) (rand : ℕ → ℕ) (memory : RequestMsg) :
    Outcome (RequestMsg × Bytes × ℤ) := do
  let reqmsg ← c.request h rand memory
  -- the constructor copies the whole message over its own memory
  let codec ← RequestCodec.ofMsg .op memory reqmsg
  let encoded ← RequestCodec.msgEncode .op codec
  ok (reqmsg, encoded)

/-- The end of `keyMngArrange`, with the decoded reply. -/
def accept (h : Md5Hex) (size : ℕ) (c : Clientop) (reqmsg : RequestMsg) (resmsg : RespondMsg) :
    Outcome Clientop := do
  let own ← resmsg.bothEqual RespondMsg.clientId RespondMsg.serverId (c.cinfo.ptr clientId.off)
    (c.cinfo.ptr serverId.off)
  if own ∧ resmsg.int RespondMsg.rv.off = 0 then do
    let text ← compose size (reqmsg.ptr RequestMsg.r1.off) (resmsg.ptr RespondMsg.r2.off)
    let key ← h.print (.zero 34) 0 text
    ok { c with key := key }
  else ok c

/-- `clientop::keyMngArrange`: what it returns, and the object it leaves.  `answer` is what
`recvdata` gives for what was sent. -/
def keyMngArrange (h : Md5Hex) (size : ℕ) (c : Clientop) (rand : ℕ → ℕ) (memory : RequestMsg)
    (resMemory : RespondMsg) (answer : Bytes → ℤ → Bytes × ℤ) : Outcome (ℤ × Clientop) := do
  let (reqmsg, codData, eDatalen) ← c.encodeRequest h rand memory
  let (codData, eDatalen) := answer codData eDatalen
  if eDatalen = 0 then ok (0, c)
  else if eDatalen = -1 then ok (-1, c)
  else do
    let decoded ← RespondCodec.msgDecode .op (RespondCodec.new resMemory) codData eDatalen
    match decoded.result with
    | none => fault .nullDeref
    | some resmsg => do
        let c ← c.accept h size reqmsg resmsg
        ok (0, c)

end Clientop

/-! ## The server -/

/-- `serverop`: its `sinfo`, and `Key`. -/
structure Serverop where
  sinfo : ServerInfo
  key : CObject 34
deriving DecidableEq

namespace Serverop

/-- The constructor, which `working` calls for every request. -/
def new (sinfo : ServerInfo) (memory : CObject 34) : Outcome Serverop := do
  let key ← memory.strcpy 0 (sinfo.ptr ServerInfo.serverID.off)
  ok ⟨sinfo, key⟩

/-- `authcd`, the code that the server computes for a request. -/
def authCode (h : Md5Hex) (sop : Serverop) (reqmsg : RequestMsg) : Outcome (CObject 34) := do
  let data ← authData (reqmsg.ptr RequestMsg.clientId.off) (reqmsg.ptr RequestMsg.serverId.off)
    (reqmsg.ptr RequestMsg.r1.off) (sop.key.ptr 0)
  h.print (.zero 34) 0 data

/-- The two tests of a request: `-1` for a wrong code, `-2` for another server, else `0`. -/
def verdict (sop : Serverop) (reqmsg : RequestMsg) (authcd : CObject 34) : Outcome ℤ := do
  let differs ← strcmp (reqmsg.ptr RequestMsg.authCode.off) (authcd.ptr 0)
  if differs ≠ 0 then ok (-1)
  else do
    let other ← strcmp (sop.sinfo.ptr ServerInfo.serverID.off) (reqmsg.ptr RequestMsg.serverId.off)
    if other ≠ 0 then ok (-2) else ok 0

/-- The result of both tests. -/
def check (h : Md5Hex) (sop : Serverop) (reqmsg : RequestMsg) : Outcome ℤ := do
  let authcd ← sop.authCode h reqmsg
  sop.verdict reqmsg authcd

/-- What `secMngArrange` does with a request that it accepts: the reply, and the new key. -/
def accept (h : Md5Hex) (size : ℕ) (sop : Serverop) (rand : ℕ → ℕ) (reqmsg : RequestMsg)
    (resmsg : RespondMsg) : Outcome (RespondMsg × Serverop) := do
  let resmsg ← resmsg.strcpy RespondMsg.clientId.off (reqmsg.ptr RequestMsg.clientId.off)
  let resmsg ← resmsg.store RespondMsg.r2.off (drawn 26 0x61 rand)
  let text ← compose size (reqmsg.ptr RequestMsg.r1.off) (resmsg.ptr RespondMsg.r2.off)
  let key ← h.print (.zero 34) 0 text
  ok (resmsg, { sop with key := key })

/-- `resmsg`, on the heap, and the object behind the loop. -/
def respond (h : Md5Hex) (size : ℕ) (sop : Serverop) (rand : ℕ → ℕ) (memory : RespondMsg)
    (reqmsg : RequestMsg) : Outcome (RespondMsg × Serverop) := do
  let authcd ← sop.authCode h reqmsg
  let resmsg ← memory.strcpy RespondMsg.serverId.off (sop.sinfo.ptr ServerInfo.serverID.off)
  let rv ← sop.verdict reqmsg authcd
  let resmsg ← resmsg.store RespondMsg.rv.off (intBytes rv)
  if rv = 0 then sop.accept h size rand reqmsg resmsg
  else ok (resmsg, sop)

/-- `serverop::secMngArrange`: the reply, `*coddata` and `*codlen`, and the object it leaves. -/
def secMngArrange (h : Md5Hex) (size : ℕ) (sop : Serverop) (rand : ℕ → ℕ) (memory : RespondMsg)
    (reqmsg : RequestMsg) : Outcome (RespondMsg × (Bytes × ℤ) × Serverop) := do
  let (resmsg, sop) ← sop.respond h size rand memory reqmsg
  -- the constructor copies the whole message over its own memory
  let codec ← RespondCodec.ofMsg .op memory resmsg
  let encoded ← RespondCodec.msgEncode .op codec
  ok (resmsg, encoded, sop)

end Serverop

end SafeTransmission
