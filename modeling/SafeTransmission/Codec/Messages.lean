import SafeTransmission.Codec.SequenceASN1
import SafeTransmission.Library.CObject

/-!
# The messages and their codecs

`RequestMsg` and `RespondMsg` are C structures, hence blocks of memory with
members at the offsets that the compiler gives them.  Both codecs write and read
their members one by one, the first through `writeHeadNode`/`readHeadNode` and
the others through `writeNextNode`/`readNextNode`, and throw the return codes
away; `msgEncode` and `msgDecode` are therefore one definition over the list of
members, which each codec instantiates with its own.

`msgDecode` always returns the address of its message.  The return codes that it
discards and the bytes that it copies are kept in `Decoded.reads`.
-/

namespace SafeTransmission

open Outcome

/-- A codec object: the sequence it inherits and its `m_msg`. -/
structure Codec (n : ℕ) where
  seq : SequenceASN1
  mMsg : CObject n
deriving DecidableEq, Repr

namespace Codec

variable {n : ℕ}

/-- One call of `writeHeadNode` (`first`) or `writeNextNode` with a member. -/
def writeMember (g : Generation) (msg : CObject n) (first : Bool) (m : Member) (s : SequenceASN1) :
    Outcome (ℤ × SequenceASN1) :=
  match m.kind with
  | .int =>
      if first then s.writeHeadNodeInt g (msg.int m.off) else s.writeNextNodeInt g (msg.int m.off)
  | .chars => do
      let len ← strlen (msg.ptr m.off)
      if first then s.writeHeadNodeStr g (msg.ptr m.off) (len + 1)
      else s.writeNextNodeStr g (msg.ptr m.off) (len + 1)

/-- The calls of `writeHeadNode` and `writeNextNode`, codes ignored. -/
def writeMembers (g : Generation) (msg : CObject n) :
    Bool → List Member → SequenceASN1 → Outcome SequenceASN1
  | _, [], s => ok s
  | first, m :: ms, s => do
      let (_, s) ← writeMember g msg first m s
      writeMembers g msg false ms s

/-- `msgEncode`: `*outData` and `len`. -/
def msgEncode (members : List Member) (g : Generation) (c : Codec n) : Outcome (Bytes × ℤ) := do
  let s ← writeMembers g c.mMsg true members c.seq
  s.packSequence g

/-- One call of `readHeadNode` (`first`) or `readNextNode` for a member. -/
def readMember (g : Generation) (first : Bool) (m : Member) (s : SequenceASN1) :
    Outcome SequenceASN1.ReadStep :=
  match m.kind with
  | .int => if first then s.readHeadNodeInt g else s.readNextNodeInt g
  | .chars => if first then s.readHeadNodeStr g else s.readNextNodeStr g

/-- The calls of `readHeadNode` and `readNextNode`: the message they leave, and
the code and the copied bytes of each call. -/
def readMembers (g : Generation) :
    Bool → List Member → SequenceASN1 → CObject n → Outcome (CObject n × List (ℤ × Bytes))
  | _, [], _, msg => ok (msg, [])
  | first, m :: ms, s, msg => do
      let step ← readMember g first m s
      let msg ← msg.store m.off step.stored
      let (msg, reads) ← readMembers g false ms step.seq msg
      ok (msg, (step.ret, step.stored) :: reads)

/-- The result of `msgDecode`: what it returns, null as `none`, and the calls it made. -/
structure Decoded (n : ℕ) where
  result : Option (CObject n)
  reads : List (ℤ × Bytes)
deriving DecidableEq, Repr

/-- `msgDecode`. -/
def msgDecode (members : List Member) (g : Generation) (c : Codec n) (inData : Bytes) (inLen : ℤ) :
    Outcome (Decoded n) := do
  let s ← c.seq.unpackSequence inData inLen
  let (msg, reads) ← readMembers g true members s c.mMsg
  ok ⟨some msg, reads⟩

/-- The assignments `m_msg.x = msg->x` and `strcpy(m_msg.x, msg->x)`. -/
def copyMembers (src : CObject n) : List Member → CObject n → Outcome (CObject n)
  | [], dst => ok dst
  | m :: ms, dst => do
      let d ← match m.kind with
        | .int => ok (intBytes (src.int m.off))
        | .chars => cStringZ (src.ptr m.off)
      let dst ← dst.store m.off d
      copyMembers src ms dst

end Codec

/-! ## `RequestMsg` -/

/-- `RequestMsg`: 157 bytes of members and 3 of padding. -/
abbrev RequestMsg := CObject 160

namespace RequestMsg

def cmdType : Member := ⟨.int, 0, 4⟩

def clientId : Member := ⟨.chars, 4, 12⟩

def authCode : Member := ⟨.chars, 16, 65⟩

def serverId : Member := ⟨.chars, 81, 12⟩

def r1 : Member := ⟨.chars, 93, 64⟩

/-- The members in the order in which they are declared, encoded and decoded. -/
def members : List Member := [cmdType, clientId, authCode, serverId, r1]

/-- A message as it is declared.  The `seckey` version zeroes the arrays; all
other bytes keep what the memory held. -/
def declared (g : Generation) (memory : RequestMsg) : RequestMsg :=
  match g with
  | .seckey => ⟨overwrite memory.bytes 4 (List.replicate 153 0), by
      rw [length_overwrite (by simp [memory.length_eq]), memory.length_eq]⟩
  | .op => memory

end RequestMsg

namespace RequestCodec

/-- `RequestCodec()`, in memory that held `memory`. -/
def new (g : Generation) (memory : RequestMsg) : Codec 160 :=
  ⟨.empty, RequestMsg.declared g memory⟩

/-- `RequestCodec(RequestMsg*)`. -/
def ofMsg (g : Generation) (memory msg : RequestMsg) : Outcome (Codec 160) :=
  match g with
  | .seckey => do
      let mMsg ← Codec.copyMembers msg RequestMsg.members (RequestMsg.declared .seckey memory)
      ok ⟨.empty, mMsg⟩
  | .op => ok ⟨.empty, msg⟩

/-- `RequestCodec::msgEncode`. -/
def msgEncode (g : Generation) (c : Codec 160) : Outcome (Bytes × ℤ) :=
  Codec.msgEncode RequestMsg.members g c

/-- `RequestCodec::msgDecode`. -/
def msgDecode (g : Generation) (c : Codec 160) (inData : Bytes) (inLen : ℤ) :
    Outcome (Codec.Decoded 160) :=
  Codec.msgDecode RequestMsg.members g c inData inLen

end RequestCodec

/-! ## `RespondMsg` -/

/-- `RespondMsg`. -/
abbrev RespondMsg := CObject 96

namespace RespondMsg

def rv : Member := ⟨.int, 0, 4⟩

def clientId : Member := ⟨.chars, 4, 12⟩

def serverId : Member := ⟨.chars, 16, 12⟩

def r2 : Member := ⟨.chars, 28, 64⟩

def seckeyid : Member := ⟨.int, 92, 4⟩

/-- The members in the order in which they are declared, encoded and decoded. -/
def members : List Member := [rv, clientId, serverId, r2, seckeyid]

end RespondMsg

namespace RespondCodec

/-- `RespondCodec()`, in memory that held `memory`. -/
def new (memory : RespondMsg) : Codec 96 :=
  ⟨.empty, memory⟩

/-- `RespondCodec(RespondMsg*)`. -/
def ofMsg (g : Generation) (memory msg : RespondMsg) : Outcome (Codec 96) :=
  match g with
  | .seckey => do
      let mMsg ← Codec.copyMembers msg
        [RespondMsg.rv, RespondMsg.seckeyid, RespondMsg.clientId, RespondMsg.serverId, RespondMsg.r2]
        memory
      ok ⟨.empty, mMsg⟩
  | .op => ok ⟨.empty, msg⟩

/-- `RespondCodec::msgEncode`. -/
def msgEncode (g : Generation) (c : Codec 96) : Outcome (Bytes × ℤ) :=
  Codec.msgEncode RespondMsg.members g c

/-- `RespondCodec::msgDecode`. -/
def msgDecode (g : Generation) (c : Codec 96) (inData : Bytes) (inLen : ℤ) :
    Outcome (Codec.Decoded 96) :=
  Codec.msgDecode RespondMsg.members g c inData inLen

end RespondCodec

end SafeTransmission
