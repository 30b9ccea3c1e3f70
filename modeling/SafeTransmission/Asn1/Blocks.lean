import SafeTransmission.Asn1.Lengths
import SafeTransmission.Library.Block

/-!
# The blocks that the string writers fill

`DER_ItAsn1_Low_WriteTagAndLength` allocates a block for the whole element, writes the
octets in front of the contents, and gives its pointer to the caller, which copies the
contents behind them.  Here the writers work on such a block (`InBlock`).  They stay inside
it, and end like the writers that only return the octets, whenever these octets are no more
than the size that was computed for them (`writeTlv_of_ok`, `encodeChar_of_ok`).
-/

namespace SafeTransmission

open Outcome

namespace InBlock

/-- An `ITCAST_ANYBUF` with the block that its `pData` points at. -/
structure BlockNode where
  block : Block
  dataLen : ℕ
  unusedBits : ℕ
  dataType : ℕ

/-- The node, as its bytes. -/
def BlockNode.anyBuf (node : BlockNode) : AnyBuf :=
  ⟨node.block.written, node.dataLen, node.unusedBits, node.dataType⟩

/-- The node whose block has `dataLen` bytes and holds `pData`. -/
def ofAnyBuf (node : AnyBuf) (hfits : node.pData.length ≤ node.dataLen) : BlockNode :=
  ⟨⟨node.dataLen, node.pData, hfits⟩, node.dataLen, node.unusedBits, node.dataType⟩

/-- All bytes of the block are written, and `dataLen` is its size. -/
structure BlockNode.Exact (node : BlockNode) : Prop where
  full : node.block.Full
  dataLen : node.dataLen = node.block.size

variable (w : ℕ)

/-- What `DER_ItAsn1_Low_WriteTagAndLength` does when it has counted the contents. -/
def writeCounted (pAnyIn : AnyBuf) (cTag : UInt8) (iMidSize : ℕ) : Outcome BlockNode := do
  let iMidSizeOf := derItAsn1LowCountLengthOfSize iMidSize
  if iMidSizeOf > 5 then
    err DerErrType.lengthErr
  else
    let size := (iMidSize + 1 + iMidSizeOf) % 2 ^ w
    let cIdentifier :=
      if cTag.toNat &&& contextSpecific ≠ 0 then cTag.toNat else cTag.toNat &&& shortIdMask
    let pMidValue ← (Block.alloc size).write [cTag]
    let pMidValue ← pMidValue.write (lengthOctets iMidSize iMidSizeOf)
    let pMidValue ←
      if cIdentifier = DerTag.bitString then
        pMidValue.write [UInt8.ofNat pAnyIn.unusedBits]
      else if cIdentifier = DerTag.integer then do
        let b ← deref pAnyIn.pData
        if b.toNat &&& firstYesIdMask = 0 then ok pMidValue else pMidValue.write [0]
      else
        ok pMidValue
    ok { block := pMidValue
         dataLen := size
         unusedBits := if cIdentifier = DerTag.bitString then pAnyIn.unusedBits else 0
         dataType := cIdentifier }

/-- `DER_ItAsn1_Low_WriteTagAndLength`. -/
def derItAsn1LowWriteTagAndLength (pAnyIn : AnyBuf) (cTag : UInt8) : Outcome BlockNode := do
  let iMidSize ←
    if cTag.toNat ≠ DerTag.bitString ∧ cTag.toNat ≠ DerTag.integer then
      ok pAnyIn.dataLen
    else if cTag.toNat = DerTag.integer then do
      let b ← deref pAnyIn.pData
      ok (if b.toNat &&& firstYesIdMask = 0 then pAnyIn.dataLen else (pAnyIn.dataLen + 1) % 2 ^ w)
    else
      ok ((pAnyIn.dataLen + 1) % 2 ^ w)
  writeCounted w pAnyIn cTag iMidSize

/-- The body that the string writers share. -/
def writeTlv (cTag : UInt8) (pIn : AnyBuf) : Outcome BlockNode := do
  let pMid ← derItAsn1LowWriteTagAndLength w pIn cTag
  let data ← memcpy pIn.pData pIn.dataLen
  let block ← pMid.block.write data
  ok { pMid with block := block }

/-- `DER_ItAsn1_WritePrintableString`. -/
def derItAsn1WritePrintableString (pPrintString : AnyBuf) : Outcome BlockNode :=
  if pPrintString.dataType = DerTag.stringBmp then writeTlv w 30 pPrintString
  else writeTlv w 19 pPrintString

/-- `EncodeChar`. -/
def encodeChar (pData : Bytes) (dataLen : ℤ) : Outcome BlockNode :=
  if pData = [] ∧ dataLen ≠ 0 ∨ pData ≠ [] ∧ dataLen = 0 then
    err derInputdataErr
  else do
    let pTmp ← derItcastStringToAnyBuf pData dataLen
    match derItAsn1WritePrintableString w pTmp with
    | ok pHeadBuf => ok pHeadBuf
    | err _ => err (-1)
    | fault kind => fault kind

/-- `EncodeUnsignedChar`. -/
def encodeUnsignedChar (pData : Bytes) (dataLen : ℤ) : Outcome BlockNode :=
  if pData = [] ∧ dataLen ≠ 0 ∨ pData ≠ [] ∧ dataLen = 0 then
    err derInputdataErr
  else do
    let pTmp ← derItcastStringToAnyBuf pData dataLen
    match writeTlv w 3 pTmp with
    | ok pHeadBuf => ok pHeadBuf
    | err code => err (if pData = [] then code else -1)
    | fault kind => fault kind

section Runs

variable {w : ℕ} {pAnyIn pIn node pMid : AnyBuf} {cTag : UInt8}

/-- The octets in front of the contents, if they fit into the size that was computed. -/
theorem writeCounted_of_ok {n : ℕ} (h : SafeTransmission.writeCounted w pAnyIn cTag n = ok pMid)
    (hfits : pMid.pData.length ≤ pMid.dataLen) :
    writeCounted w pAnyIn cTag n = ok (ofAnyBuf pMid hfits) := by
  rw [SafeTransmission.writeCounted] at h
  rw [writeCounted]
  dsimp only at h ⊢
  generalize (if cTag.toNat &&& contextSpecific ≠ 0 then cTag.toNat else cTag.toNat &&& shortIdMask) =
    cIdentifier at h ⊢
  by_cases hcount : derItAsn1LowCountLengthOfSize n > 5
  · rw [if_pos hcount] at h
    cases h
  · rw [if_neg hcount] at h ⊢
    rw [← Outcome.bind_bind, Block.write_write, List.singleton_append]
    -- the tag and the length are written in every case
    have hhead : ∀ {rest : Bytes}, (cTag :: lengthOctets n (derItAsn1LowCountLengthOfSize n) ++
        rest).length ≤ (n + 1 + derItAsn1LowCountLengthOfSize n) % 2 ^ w →
          (cTag :: lengthOctets n (derItAsn1LowCountLengthOfSize n)).length ≤
            (n + 1 + derItAsn1LowCountLengthOfSize n) % 2 ^ w := by
      intro rest hrest
      rw [List.length_append] at hrest
      omega
    by_cases hbits : cIdentifier = DerTag.bitString
    · rw [if_pos hbits, ok_bind] at h
      obtain rfl := ok.inj h
      rw [Block.write_alloc (hhead hfits), ok_bind, if_pos hbits, Block.write_of_le hfits]
      rfl
    · rw [if_neg hbits] at h
      by_cases hinteger : cIdentifier = DerTag.integer
      · rw [if_pos hinteger] at h
        obtain ⟨b, hb, h⟩ := bind_eq_ok.mp h
        by_cases hclear : b.toNat &&& firstYesIdMask = 0
        · rw [ok_bind, if_pos hclear] at h
          obtain rfl := ok.inj h
          rw [Block.write_alloc hfits, ok_bind, if_neg hbits, if_pos hinteger, hb, ok_bind,
            if_pos hclear]
          rfl
        · rw [ok_bind, if_neg hclear] at h
          obtain rfl := ok.inj h
          rw [Block.write_alloc (hhead hfits), ok_bind, if_neg hbits, if_pos hinteger, hb, ok_bind,
            if_neg hclear, Block.write_of_le hfits]
          rfl
      · rw [if_neg hinteger, ok_bind] at h
        obtain rfl := ok.inj h
        rw [Block.write_alloc hfits, ok_bind, if_neg hbits, if_neg hinteger]
        rfl

theorem writeTagAndLength_of_ok
    (h : SafeTransmission.derItAsn1LowWriteTagAndLength w pAnyIn cTag = ok pMid)
    (hfits : pMid.pData.length ≤ pMid.dataLen) :
    derItAsn1LowWriteTagAndLength w pAnyIn cTag = ok (ofAnyBuf pMid hfits) := by
  rw [SafeTransmission.derItAsn1LowWriteTagAndLength] at h
  rw [derItAsn1LowWriteTagAndLength]
  by_cases hother : cTag.toNat ≠ DerTag.bitString ∧ cTag.toNat ≠ DerTag.integer
  · rw [if_pos hother, ok_bind] at h ⊢
    exact writeCounted_of_ok h hfits
  · rw [if_neg hother] at h ⊢
    by_cases hinteger : cTag.toNat = DerTag.integer
    · rw [if_pos hinteger] at h ⊢
      obtain ⟨b, hb, h⟩ := bind_eq_ok.mp h
      rw [hb, ok_bind]
      exact writeCounted_of_ok h hfits
    · rw [if_neg hinteger, ok_bind] at h ⊢
      exact writeCounted_of_ok h hfits

/-- A string writer stays in its block, if the block has room for the octets that are written. -/
theorem writeTlv_of_ok (h : SafeTransmission.writeTlv w cTag pIn = ok node)
    (hfits : node.pData.length ≤ node.dataLen) :
    writeTlv w cTag pIn = ok (ofAnyBuf node hfits) := by
  obtain ⟨pMid, hmid, h⟩ := bind_eq_ok.mp h
  obtain ⟨data, hdata, h⟩ := bind_eq_ok.mp h
  obtain rfl := ok.inj h
  have hmidFits : pMid.pData.length ≤ pMid.dataLen := by
    have hall : (pMid.pData ++ data).length ≤ pMid.dataLen := hfits
    rw [List.length_append] at hall
    omega
  rw [writeTlv, writeTagAndLength_of_ok hmid hmidFits, ok_bind, hdata, ok_bind, ofAnyBuf,
    Block.write_of_le hfits]
  rfl

theorem encodeChar_of_ok {s : Bytes} {len : ℤ} (h : SafeTransmission.encodeChar w s len = ok node)
    (hfits : node.pData.length ≤ node.dataLen) :
    encodeChar w s len = ok (ofAnyBuf node hfits) := by
  rw [SafeTransmission.encodeChar] at h
  rw [encodeChar]
  split at h
  · cases h
  · rename_i harg
    obtain ⟨pTmp, htmp, h⟩ := bind_eq_ok.mp h
    rw [if_neg harg, htmp, ok_bind]
    have hwrite : SafeTransmission.derItAsn1WritePrintableString w pTmp = ok node := by
      split at h
      · rwa [← ok.inj h]
      · cases h
      · cases h
    have hblock : derItAsn1WritePrintableString w pTmp = ok (ofAnyBuf node hfits) := by
      rw [SafeTransmission.derItAsn1WritePrintableString] at hwrite
      rw [derItAsn1WritePrintableString]
      split at hwrite
      · rename_i hbmp
        rw [if_pos hbmp]
        exact writeTlv_of_ok hwrite hfits
      · rename_i hbmp
        rw [if_neg hbmp]
        exact writeTlv_of_ok hwrite hfits
    rw [hblock]

theorem encodeUnsignedChar_of_ok {s : Bytes} {len : ℤ}
    (h : SafeTransmission.encodeUnsignedChar w s len = ok node)
    (hfits : node.pData.length ≤ node.dataLen) :
    encodeUnsignedChar w s len = ok (ofAnyBuf node hfits) := by
  rw [SafeTransmission.encodeUnsignedChar] at h
  rw [encodeUnsignedChar]
  split at h
  · cases h
  · rename_i harg
    obtain ⟨pTmp, htmp, h⟩ := bind_eq_ok.mp h
    rw [if_neg harg, htmp, ok_bind]
    have hwrite : derItAsn1WriteBitString w pTmp = ok node := by
      split at h
      · rwa [← ok.inj h]
      · cases h
      · cases h
    rw [writeTlv_of_ok hwrite hfits]

theorem exact_ofAnyBuf (hfits : node.pData.length ≤ node.dataLen)
    (hlength : node.pData.length = node.dataLen) : (ofAnyBuf node hfits).Exact :=
  ⟨hlength, rfl⟩

end Runs

end InBlock

end SafeTransmission
