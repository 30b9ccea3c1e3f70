import SafeTransmission.Library.CObject

/-!
# `BaseASN1`: reading and writing tags, lengths and contents

`BaseASN1.cpp` as both generations of the program use it (the five copies in the
repository are one file).  A node `ITCAST_ANYBUF` is an `AnyBuf`; the `next` and
`prev` pointers of a sequence are the order of a list of nodes, and a null list
pointer is the empty list.

A pointer into a node's data is the bytes from there to the end of the node's
allocation, so `*p` and `memcpy` fault exactly where the C code would leave the
allocation.  `w` is the width of `unsigned long`, which the code calls
`ITCAST_UINT32`: 64 for the x64 configuration and 32 for x86 and ARM.

Allocation succeeds, except that no block can have `2 ^ (w - 1)` bytes or more.
-/

namespace SafeTransmission

open Outcome

/-- `ITCAST_ANYBUF`, without the two list pointers and the unread `memoryType`. -/
structure AnyBuf where
  pData : Bytes
  dataLen : ℕ
  unusedBits : ℕ
  dataType : ℕ
deriving DecidableEq, Repr

/-! ## Constants -/

namespace DerErrType

/-- `MemoryErr`. -/
def memoryErr : ℤ := 200

/-- `LengthErr`. -/
def lengthErr : ℤ := 201

/-- `LengthNotEqual`. -/
def lengthNotEqual : ℤ := 202

/-- `DataRangeErr`. -/
def dataRangeErr : ℤ := 203

/-- `InvalidTag`. -/
def invalidTag : ℤ := 204

end DerErrType

/-- `DER_INPUTDATA_ERR`. -/
def derInputdataErr : ℤ := 106

namespace DerTag

/-- `ITCAST_DER_ID_INTEGER`. -/
abbrev integer : ℕ := 2

/-- `ITCAST_DER_ID_BITSTRING`. -/
abbrev bitString : ℕ := 3

/-- `ITCAST_DER_ID_SEQUENCE`. -/
abbrev sequence : ℕ := 16

/-- `ITCAST_DER_ID_STRING_PRINTABLE`. -/
abbrev stringPrintable : ℕ := 19

/-- `ITCAST_DER_ID_STRING_BMP`. -/
abbrev stringBmp : ℕ := 30

end DerTag

/-- `ITCAST_DER_SHORT_ID_MASK`. -/
abbrev shortIdMask : ℕ := 0x1F

/-- `ITCAST_DER_FIRST_NOT_ID_MASK`. -/
abbrev firstNotIdMask : ℕ := 0x7F

/-- `ITCAST_DER_FIRST_YES_ID_MASK`. -/
abbrev firstYesIdMask : ℕ := 0x80

/-- `ITCAST_DER_CONTEXT_SPECIFIC`. -/
abbrev contextSpecific : ℕ := 0x80

/-! ## Reading tag and length octets -/

/-- What a read of tag or length octets sets: the value, the size it reports, and
the pointer as it was moved. -/
structure Head where
  value : ℕ
  size : ℕ
  rest : Bytes
deriving DecidableEq, Repr

variable (w : ℕ)

/-- The `do` loop of `DER_ItAsn1_Low_GetTagInfo`, on the octets after the first. -/
def getTagInfoLoop : Bytes → ℕ → ℕ → Outcome Head
  | [], _, _ => fault .readOutOfBounds
  | b :: rest, value, size =>
      let value := ((value ||| (b.toNat &&& firstNotIdMask)) <<< 8) % 2 ^ w
      if b.toNat &&& firstYesIdMask = 0 then getTagInfoLoop rest value (size + 1)
      else ok ⟨value ||| b.toNat, size + 2, rest⟩

/-- `DER_ItAsn1_Low_GetTagInfo`. -/
def derItAsn1LowGetTagInfo (p : Bytes) : Outcome Head := do
  let b ← deref p
  if b.toNat &&& shortIdMask ≠ shortIdMask then
    if b.toNat &&& contextSpecific ≠ 0 then
      ok ⟨b.toNat, 1, p.tail⟩
    else
      ok ⟨b.toNat &&& shortIdMask, 1, p.tail⟩
  else
    getTagInfoLoop w p.tail 0 0

/-- `v |= *p++; v <<= 8`, `k` times: the loop of `DER_ItAsn1_Low_GetLengthInfo`
and of `DER_ItAsn1_Low_CharToInt`. -/
def shiftInLoop : ℕ → Bytes → ℕ → Outcome (ℕ × Bytes)
  | 0, p, v => ok (v, p)
  | k + 1, p, v => do
      let b ← deref p
      shiftInLoop k p.tail (((v ||| b.toNat) <<< 8) % 2 ^ w)

/-- `DER_ItAsn1_Low_GetLengthInfo`. -/
def derItAsn1LowGetLengthInfo (p : Bytes) : Outcome Head := do
  let b ← deref p
  if b.toNat &&& firstYesIdMask = 0 then
    ok ⟨b.toNat &&& firstNotIdMask, 1, p.tail⟩
  else
    let cSizeOf := b.toNat &&& firstNotIdMask
    if cSizeOf > 4 then
      err DerErrType.lengthErr
    else
      -- with `cSizeOf = 0` no octet is shifted in, but one is still read
      let (v, p) ← shiftInLoop w (cSizeOf - 1) p.tail 0
      let b ← deref p
      ok ⟨v ||| b.toNat, cSizeOf + 1, p.tail⟩

/-! ## Integers -/

/-- `DER_ItAsn1_Low_IntToChar`: the contents octets of an integer. -/
def derItAsn1LowIntToChar (iValue : ℕ) : Outcome Bytes :=
  if iValue > 0xFFFFFFFF then
    err DerErrType.dataRangeErr
  else if iValue > 0xFFFFFF then
    ok ((if iValue ≥ 0x80000000 then [0] else [] : Bytes) ++
      [UInt8.ofNat (iValue >>> 24), UInt8.ofNat (iValue >>> 16), UInt8.ofNat (iValue >>> 8),
        UInt8.ofNat iValue])
  else if iValue > 0xFFFF then
    ok ((if iValue ≥ 0x800000 then [0] else [] : Bytes) ++
      [UInt8.ofNat (iValue >>> 16), UInt8.ofNat (iValue >>> 8), UInt8.ofNat iValue])
  else if iValue > 0xFF then
    ok ((if iValue ≥ 0x8000 then [0] else [] : Bytes) ++
      [UInt8.ofNat (iValue >>> 8), UInt8.ofNat iValue])
  else
    ok ((if iValue ≥ 0x80 then [0] else [] : Bytes) ++ [UInt8.ofNat iValue])

/-- `DER_ItAsn1_Low_CharToInt`. -/
def derItAsn1LowCharToInt (aData : Bytes) (lLength : ℕ) : Outcome ℕ := do
  let b ← deref aData
  let (aData, lLength) := if b = 0 ∧ lLength > 1 then (aData.tail, lLength - 1) else (aData, lLength)
  let (lIntMid, aData) ← shiftInLoop w (lLength - 1) aData 0
  let b ← deref aData
  ok (lIntMid ||| b.toNat)

/-- `DER_ItAsn1_WriteInteger`. -/
def derItAsn1WriteInteger (integer : ℕ) : Outcome AnyBuf := do
  let data ← derItAsn1LowIntToChar integer
  ok { pData := 2 :: UInt8.ofNat data.length :: data
       dataLen := data.length + 2
       unusedBits := 0
       dataType := 2 &&& shortIdMask }

/-- `DER_ItAsn1_ReadInteger`. -/
def derItAsn1ReadInteger (pDerInteger : AnyBuf) : Outcome ℕ := do
  let tag ← derItAsn1LowGetTagInfo w pDerInteger.pData
  let len ← derItAsn1LowGetLengthInfo w tag.rest
  derItAsn1LowCharToInt w len.rest len.value

/-! ## Writing tag and length octets -/

/-- `DER_ItAsn1_Low_Count_LengthOfSize`. -/
def derItAsn1LowCountLengthOfSize (iLength : ℕ) : ℕ :=
  if iLength ≤ 0x7F then 1
  else if iLength ≤ 0xFF then 2
  else if iLength < 0xFFFF then 3
  else if iLength ≤ 0xFFFFFF then 4
  else if iLength ≤ 0xFFFFFFFF then 5
  else DerErrType.lengthErr.toNat

/-- The length octets that `DER_ItAsn1_Low_WriteTagAndLength` and
`DER_ItAsn1_WriteSequence` write for a length and its counted size. -/
def lengthOctets (length sizeOf : ℕ) : Bytes :=
  if sizeOf = 1 then [UInt8.ofNat length]
  else UInt8.ofNat (firstYesIdMask ||| (sizeOf - 1)) :: beBytes (sizeOf - 1) length

/-- `DER_ItAsn1_Low_WriteTagAndLength`.  The node comes back with the octets
written so far in `pData`; every caller then copies the contents behind them. -/
def derItAsn1LowWriteTagAndLength (pAnyIn : AnyBuf) (cTag : UInt8) : Outcome AnyBuf := do
  let iMidSize ←
    if cTag.toNat ≠ DerTag.bitString ∧ cTag.toNat ≠ DerTag.integer then
      ok pAnyIn.dataLen
    else if cTag.toNat = DerTag.integer then do
      let b ← deref pAnyIn.pData
      ok (if b.toNat &&& firstYesIdMask = 0 then pAnyIn.dataLen else (pAnyIn.dataLen + 1) % 2 ^ w)
    else
      ok ((pAnyIn.dataLen + 1) % 2 ^ w)
  let iMidSizeOf := derItAsn1LowCountLengthOfSize iMidSize
  if iMidSizeOf > 5 then
    err DerErrType.lengthErr
  else
    let cIdentifier :=
      if cTag.toNat &&& contextSpecific ≠ 0 then cTag.toNat else cTag.toNat &&& shortIdMask
    let head := cTag :: lengthOctets iMidSize iMidSizeOf
    let head ←
      if cIdentifier = DerTag.bitString then
        ok (head ++ [UInt8.ofNat pAnyIn.unusedBits])
      else if cIdentifier = DerTag.integer then do
        let b ← deref pAnyIn.pData
        ok (if b.toNat &&& firstYesIdMask = 0 then head else head ++ [0])
      else
        ok head
    ok { pData := head
         dataLen := (iMidSize + 1 + iMidSizeOf) % 2 ^ w
         unusedBits := if cIdentifier = DerTag.bitString then pAnyIn.unusedBits else 0
         dataType := cIdentifier }

/-- The body that `DER_ItAsn1_WriteBitString`, `DER_ItAsn1_WriteCharString` and
`DER_ItAsn1_WriteBmpString` share: tag and length, then the contents. -/
def writeTlv (cTag : UInt8) (pIn : AnyBuf) : Outcome AnyBuf := do
  let pMid ← derItAsn1LowWriteTagAndLength w pIn cTag
  let data ← memcpy pIn.pData pIn.dataLen
  ok { pMid with pData := pMid.pData ++ data }

/-- `DER_ItAsn1_WriteBitString`. -/
def derItAsn1WriteBitString (pBitString : AnyBuf) : Outcome AnyBuf :=
  writeTlv w 3 pBitString

/-- `DER_ItAsn1_WriteCharString`. -/
def derItAsn1WriteCharString (pCharString : AnyBuf) : Outcome AnyBuf :=
  writeTlv w 19 pCharString

/-- `DER_ItAsn1_WriteBmpString`. -/
def derItAsn1WriteBmpString (pBmpString : AnyBuf) : Outcome AnyBuf :=
  writeTlv w 30 pBmpString

/-- `DER_ItAsn1_WritePrintableString`. -/
def derItAsn1WritePrintableString (pPrintString : AnyBuf) : Outcome AnyBuf :=
  if pPrintString.dataType = DerTag.stringBmp then derItAsn1WriteBmpString w pPrintString
  else derItAsn1WriteCharString w pPrintString

/-! ## Reading strings -/

/-- `DER_ItAsn1_Low_ReadTagAndLength`: the node whose contents are still to be
copied, and the pointer they are copied from. -/
def derItAsn1LowReadTagAndLength (pAnyIn : AnyBuf) : Outcome (AnyBuf × Bytes) := do
  let tag ← derItAsn1LowGetTagInfo w pAnyIn.pData
  match derItAsn1LowGetLengthInfo w tag.rest with
  | fault kind => fault kind
  -- the return code is not looked at, and `pMidSizeOf` is still null when it is added
  | err _ => fault .nullDeref
  | ok len =>
      if (tag.size + (len.value + len.size)) % 2 ^ w ≠ pAnyIn.dataLen then
        err DerErrType.lengthNotEqual
      else do
        -- the node's own `dataType` decides here, not the tag that was just read
        let (p, size) :=
          if pAnyIn.dataType = DerTag.bitString then
            (len.rest.tail, (len.value + (2 ^ w - 1)) % 2 ^ w)
          else
            (len.rest, len.value)
        let signOctet ←
          if tag.value = DerTag.integer then do
            let b ← deref p
            if b = 0 then do
              let b' ← deref p.tail
              ok (decide (b'.toNat &&& firstYesIdMask ≠ 0))
            else
              ok false
          else
            ok false
        let (p, size) := if signOctet then (p.tail, (size + (2 ^ w - 1)) % 2 ^ w) else (p, size)
        if 2 ^ (w - 1) ≤ size then
          err DerErrType.memoryErr
        else
          ok ({ pData := []
                dataLen := size
                unusedBits := if pAnyIn.dataType = DerTag.bitString then pAnyIn.unusedBits else 0
                dataType := tag.value }, p)

/-- The body that `DER_ItAsn1_ReadBitString` and `DER_ItAsn1_ReadPrintableString`
share: tag and length, then the contents. -/
def readTlv (pDer : AnyBuf) : Outcome AnyBuf := do
  let (pMid, p) ← derItAsn1LowReadTagAndLength w pDer
  let data ← memcpy p pMid.dataLen
  ok { pMid with pData := data }

/-- `DER_ItAsn1_ReadBitString`. -/
def derItAsn1ReadBitString (pDerBitString : AnyBuf) : Outcome AnyBuf :=
  readTlv w pDerBitString

/-- `DER_ItAsn1_ReadPrintableString`. -/
def derItAsn1ReadPrintableString (pDerPrintString : AnyBuf) : Outcome AnyBuf :=
  readTlv w pDerPrintString

/-! ## Null -/

/-- `DER_ItAsn1_WriteNull`. -/
def derItAsn1WriteNull : AnyBuf :=
  { pData := [5, 0], dataLen := 2, unusedBits := 0, dataType := 5 &&& shortIdMask }

/-! ## Sequences -/

/-- The copy loop of `DER_ItAsn1_WriteSequence`. -/
def copyNodes : List AnyBuf → Outcome Bytes
  | [] => ok []
  | node :: rest => do
      let data ← memcpy node.pData node.dataLen
      let more ← copyNodes rest
      ok (data ++ more)

/-- `DER_ItAsn1_WriteSequence`. -/
def derItAsn1WriteSequence (nodes : List AnyBuf) : Outcome AnyBuf := do
  let lMidLength := (nodes.map AnyBuf.dataLen).sum % 2 ^ w
  let lSizeOf := derItAsn1LowCountLengthOfSize lMidLength
  let body ← copyNodes nodes
  ok { pData := 0x30 :: (lengthOctets lMidLength lSizeOf ++ body)
       dataLen := (lMidLength + 1 + lSizeOf) % 2 ^ w
       unusedBits := 0
       dataType := 0x30 &&& shortIdMask }

/-- One round of the element loop of `DER_ItAsn1_ReadSequence`: the node split off
at `pMidData`. -/
def readElement (pMidData : Bytes) : Outcome AnyBuf := do
  let tag ← derItAsn1LowGetTagInfo w pMidData
  match derItAsn1LowGetLengthInfo w tag.rest with
  | fault kind => fault kind
  -- `pLengthValue` is freed on this path, as it was after the previous round
  | err _ => fault .doubleFree
  | ok len =>
      let lMidLength := (tag.size + len.size + len.value) % 2 ^ w
      if 2 ^ (w - 1) ≤ lMidLength then
        err DerErrType.memoryErr
      else do
        let data ← memcpy pMidData lMidLength
        ok { pData := data, dataLen := lMidLength, unusedBits := 0, dataType := tag.value }

/-- The element loop of `DER_ItAsn1_ReadSequence`, with the nodes it appends and
the final `lTotalLength`.  `fuel` bounds the number of rounds. -/
def readElements : ℕ → Bytes → ℤ → Outcome (List AnyBuf × ℤ)
  | fuel, pMidData, lTotalLength =>
      if lTotalLength > 0 then
        match fuel with
        | 0 => fault .diverges
        | fuel + 1 => do
            let node ← readElement w pMidData
            let (nodes, total) ←
              readElements fuel (pMidData.drop node.dataLen) (toInt32 (lTotalLength - node.dataLen))
            ok (node :: nodes, total)
      else
        ok ([], lTotalLength)

/-- `DER_ItAsn1_ReadSequence`. -/
def derItAsn1ReadSequence (pDerSequence : AnyBuf) : Outcome (List AnyBuf) := do
  let tag ← derItAsn1LowGetTagInfo w pDerSequence.pData
  if tag.value % 256 ≠ DerTag.sequence then
    err DerErrType.invalidTag
  else do
    let len ← derItAsn1LowGetLengthInfo w tag.rest
    if pDerSequence.dataLen ≠ (tag.size + len.size + len.value) % 2 ^ w then
      err DerErrType.lengthNotEqual
    else do
      let lTotalLength := toInt32 len.value
      let (nodes, lTotalLength) ← readElements w lTotalLength.toNat len.rest lTotalLength
      if lTotalLength ≠ 0 then err DerErrType.lengthErr else ok nodes

/-! ## Strings as nodes -/

/-- `DER_ITCAST_String_To_AnyBuf`. -/
def derItcastStringToAnyBuf (strOrigin : Bytes) (strOriginLen : ℤ) : Outcome AnyBuf := do
  let data ← memcpy strOrigin strOriginLen.toNat
  ok { pData := data
       dataLen := strOriginLen.toNat
       unusedBits := strOriginLen.toNat % 8
       dataType := DerTag.stringPrintable }

/-- `EncodeChar`. -/
def encodeChar (pData : Bytes) (dataLen : ℤ) : Outcome AnyBuf :=
  if pData = [] ∧ dataLen ≠ 0 ∨ pData ≠ [] ∧ dataLen = 0 then
    err derInputdataErr
  else do
    let pTmp ← derItcastStringToAnyBuf pData dataLen
    match derItAsn1WritePrintableString w pTmp with
    | ok pHeadBuf => ok pHeadBuf
    | err _ => err (-1)
    | fault kind => fault kind

/-- `EncodeUnsignedChar`.  The code of the writer is passed on for the null pointer only. -/
def encodeUnsignedChar (pData : Bytes) (dataLen : ℤ) : Outcome AnyBuf :=
  if pData = [] ∧ dataLen ≠ 0 ∨ pData ≠ [] ∧ dataLen = 0 then
    err derInputdataErr
  else do
    let pTmp ← derItcastStringToAnyBuf pData dataLen
    match derItAsn1WriteBitString w pTmp with
    | ok pHeadBuf => ok pHeadBuf
    | err code => err (if pData = [] then code else -1)
    | fault kind => fault kind

/-- The body that `DecodeChar` and `DecodeUnsignedChar` share behind their reader: `*Data`, with
a NUL behind the string, and `*pDataLen`. -/
def decodeString (read : Outcome AnyBuf) : Outcome (Bytes × ℤ) :=
  match read with
  | ok pTmp =>
      if pTmp.dataLen = 0 then ok ([], 0)
      else if 2 ^ (w - 1) ≤ pTmp.dataLen + 1 then err (-1)
      else do
        let data ← memcpy pTmp.pData pTmp.dataLen
        ok (data ++ [0], toInt32 pTmp.dataLen)
  | err _ => err (-1)
  | fault kind => fault kind

/-- `DecodeChar`. -/
def decodeChar (inBuf : AnyBuf) : Outcome (Bytes × ℤ) :=
  decodeString w (derItAsn1ReadPrintableString w inBuf)

/-- `DecodeUnsignedChar`. -/
def decodeUnsignedChar (inBuf : AnyBuf) : Outcome (Bytes × ℤ) :=
  decodeString w (derItAsn1ReadBitString w inBuf)

end SafeTransmission
