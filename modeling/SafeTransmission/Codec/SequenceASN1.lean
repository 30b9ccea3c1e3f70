import SafeTransmission.Asn1.BaseASN1

/-!
# `SequenceASN1`: nodes are appended, packed, unpacked and read one by one

The class exists twice.  `ClientSeckey` and `ServerSeckey` share one version,
which writes strings as PrintableString elements; `clientop` and `serverop` share
the other, which writes them as BIT STRING elements and ignores more return
codes.  `Generation` selects the version, and every function shows both bodies
where they differ.

The list pointers are an index into the list of nodes: `mNext` is `none` for a
null `m_next`.  All functions return the code the C function returns next to the
new object, since their callers go on whatever the code is.
-/

namespace SafeTransmission

open Outcome

/-- The two versions of the code. -/
inductive Generation where
  /-- `ClientSeckey` and `ServerSeckey`. -/
  | seckey
  /-- `clientop` and `serverop`. -/
  | op
deriving DecidableEq, Repr

/-- `unsigned long` of the x64 configuration. -/
abbrev longBits : ℕ := 64

/-- The conversion of an `int` to `ITCAST_UINT32`. -/
def ulongOfInt (v : ℤ) : ℕ :=
  (v % 2 ^ longBits).toNat

/-- `SequenceASN1`.  Its `m_temp` lives no longer than one call, except where a
comment says so. -/
structure SequenceASN1 where
  mHeader : List AnyBuf
  mNext : Option ℕ
deriving DecidableEq, Repr

namespace SequenceASN1

/-- The object as it is constructed. -/
def empty : SequenceASN1 := ⟨[], none⟩

/-- The node `m_next` points at. -/
def current (s : SequenceASN1) : Outcome AnyBuf :=
  match s.mNext.bind (s.mHeader[·]?) with
  | some node => ok node
  | none => fault .nullDeref

/-- The pointer to node `i`, null behind the last one. -/
def pointerTo (s : SequenceASN1) (i : ℕ) : Option ℕ :=
  if i < s.mHeader.length then some i else none

/-- `m_next = m_next->next`. -/
def advance (s : SequenceASN1) : Outcome SequenceASN1 :=
  match s.mNext with
  | some i => ok { s with mNext := s.pointerTo (i + 1) }
  | none => fault .nullDeref

/-- `m_next->next = node; m_next = m_next->next`. -/
def link (s : SequenceASN1) (node : AnyBuf) : Outcome SequenceASN1 :=
  match s.mNext with
  | some i => ok ⟨s.mHeader.take (i + 1) ++ [node], some (i + 1)⟩
  | none => fault .nullDeref

/-! ## Writing -/

/-- `writeHeadNode(int)`. -/
def writeHeadNodeInt (g : Generation) (s : SequenceASN1) (iValue : ℤ) :
    Outcome (ℤ × SequenceASN1) :=
  match derItAsn1WriteInteger (ulongOfInt iValue), g with
  | ok node, _ => ok (0, ⟨[node], some 0⟩)
  | err _, .seckey => ok (-1, s)
  | err _, .op => ok (0, { s with mNext := s.pointerTo 0 })
  | fault kind, _ => fault kind

/-- The node both versions make of a string: a PrintableString or a BIT STRING. -/
def stringNode (g : Generation) (sValue : Bytes) (len : ℤ) : Outcome AnyBuf :=
  match g with
  | .seckey => encodeChar longBits sValue len
  | .op => do
      let temp ← derItcastStringToAnyBuf sValue len
      derItAsn1WriteBitString longBits temp

/-- `writeHeadNode(char*, int)`. -/
def writeHeadNodeStr (g : Generation) (s : SequenceASN1) (sValue : Bytes) (len : ℤ) :
    Outcome (ℤ × SequenceASN1) :=
  match stringNode g sValue len, g with
  | ok node, _ => ok (0, ⟨[node], some 0⟩)
  | err _, .seckey => ok (-1, s)
  | err _, .op => ok (0, { s with mNext := s.pointerTo 0 })
  | fault kind, _ => fault kind

/-- `writeNextNode(int)`. -/
def writeNextNodeInt (g : Generation) (s : SequenceASN1) (iValue : ℤ) :
    Outcome (ℤ × SequenceASN1) :=
  match derItAsn1WriteInteger (ulongOfInt iValue), g with
  | ok node, _ => do
      let s ← s.link node
      ok (0, s)
  | err _, .seckey => ok (-1, s)
  | err _, .op => do
      let s ← s.advance
      ok (0, s)
  | fault kind, _ => fault kind

/-- `writeNextNode(char*, int)`. -/
def writeNextNodeStr (g : Generation) (s : SequenceASN1) (sValue : Bytes) (len : ℤ) :
    Outcome (ℤ × SequenceASN1) :=
  match stringNode g sValue len, g with
  | ok node, _ => do
      let s ← s.link node
      ok (0, s)
  | err _, .seckey => ok (-1, s)
  | err _, .op => do
      let s ← s.advance
      ok (0, s)
  | fault kind, _ => fault kind

/-- `packSequence`: `*outData` and `outLen`. -/
def packSequence (g : Generation) (s : SequenceASN1) : Outcome (Bytes × ℤ) := do
  let temp ← derItAsn1WriteSequence longBits s.mHeader
  let data ←
    match g with
    | .seckey => ok temp.pData
    | .op => memcpy temp.pData temp.dataLen
  ok (data, toInt32 temp.dataLen)

/-! ## Reading -/

/-- `unpackSequence`.  It returns zero whatever the two calls return; a sequence
that was rejected leaves `m_header` as it was. -/
def unpackSequence (s : SequenceASN1) (inData : Bytes) (inLen : ℤ) : Outcome SequenceASN1 := do
  let temp ← derItcastStringToAnyBuf inData inLen
  match derItAsn1ReadSequence longBits temp with
  | ok nodes => ok { s with mHeader := nodes }
  | err _ => ok s
  | fault kind => fault kind

/-- What a reader does: the code it returns, the bytes it stores at the address it
was given, and the object it leaves. -/
structure ReadStep where
  ret : ℤ
  stored : Bytes
  seq : SequenceASN1
deriving DecidableEq, Repr

/-- The bytes that an integer reader stores at the address of an `int`.  The `op`
version passes the address on as that of an `unsigned long`. -/
def storedInt : Generation → ℕ → Bytes
  | .seckey, number => intBytes number
  | .op, number => longBytes number

/-- `readHeadNode(int&)`. -/
def readHeadNodeInt (g : Generation) (s : SequenceASN1) : Outcome ReadStep :=
  match s.mHeader with
  | [] => fault .nullDeref
  | node :: _ =>
      match derItAsn1ReadInteger longBits node, g with
      | ok number, _ => ok ⟨0, storedInt g number, { s with mNext := s.pointerTo 1 }⟩
      | err _, .seckey => ok ⟨-1, [], s⟩
      | err _, .op => ok ⟨0, [], { s with mNext := s.pointerTo 1 }⟩
      | fault kind, _ => fault kind

/-- `readNextNode(int&)`.  Neither version looks at the return code; the first
stores its initial zero, the second nothing. -/
def readNextNodeInt (g : Generation) (s : SequenceASN1) : Outcome ReadStep := do
  let node ← s.current
  match derItAsn1ReadInteger longBits node, g with
  | ok number, _ => do
      let s ← s.advance
      ok ⟨0, storedInt g number, s⟩
  | err _, .seckey => do
      let s ← s.advance
      ok ⟨0, intBytes 0, s⟩
  | err _, .op => do
      let s ← s.advance
      ok ⟨0, [], s⟩
  | fault kind, _ => fault kind

/-- The string reader of both versions. -/
def readString : Generation → AnyBuf → Outcome AnyBuf
  | .seckey, node => derItAsn1ReadPrintableString longBits node
  | .op, node => derItAsn1ReadBitString longBits node

/-- `readHeadNode(char*)`.  The return code is not looked at; `m_temp` then still
points at the node that was freed before. -/
def readHeadNodeStr (g : Generation) (s : SequenceASN1) : Outcome ReadStep :=
  match s.mHeader with
  | [] => fault .nullDeref
  | node :: _ =>
      match readString g node with
      | ok temp => do
          let data ← memcpy temp.pData temp.dataLen
          ok ⟨0, data, { s with mNext := s.pointerTo 1 }⟩
      | err _ => fault .useAfterFree
      | fault kind => fault kind

/-- `readNextNode(char*)`.  The `op` version does not look at the return code;
`m_temp` then still points at the node that was freed before. -/
def readNextNodeStr (g : Generation) (s : SequenceASN1) : Outcome ReadStep := do
  let node ← s.current
  match readString g node, g with
  | ok temp, _ => do
      let data ← memcpy temp.pData temp.dataLen
      let s ← s.advance
      ok ⟨0, data, s⟩
  | err _, .seckey => ok ⟨-1, [], s⟩
  | err _, .op => fault .useAfterFree
  | fault kind, _ => fault kind

end SequenceASN1

end SafeTransmission
