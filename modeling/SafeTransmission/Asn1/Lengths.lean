import SafeTransmission.Asn1.ReadSequence
import SafeTransmission.Asn1.Writers

/-!
# The lengths that are written

`DER_ItAsn1_Low_WriteTagAndLength` and `DER_ItAsn1_WriteSequence` count the length octets
with one cascade of thresholds.  It asks for `< 0xFFFF` where it means `<= 0xFFFF`, so that
65535 gets three octets behind the first where two would do; every other length is written
in its one distinguished form (`writesLength_iff`).  All of them are read back.
-/

namespace SafeTransmission

open Outcome

/-- The length of the contents under the tag octet `cTag`: a BIT STRING gets an octet in front,
and an integer whose top bit is set. -/
def contentsLength (cTag : UInt8) (pAnyIn : AnyBuf) : ℕ :=
  if cTag.toNat = DerTag.bitString then pAnyIn.dataLen + 1
  else if cTag.toNat = DerTag.integer ∧ 128 ≤ (pAnyIn.pData.headD 0).toNat then pAnyIn.dataLen + 1
  else pAnyIn.dataLen

/-- The octets behind the tag begin with the one distinguished form of the length `length`, and
`DER_ItAsn1_Low_GetLengthInfo` reads it back, whatever follows. -/
def BeginsWithLength (w : ℕ) (octets : Bytes) (length : ℕ) : Prop :=
  ∃ l rest, octets = l ++ rest ∧ MinimalLength l length ∧
    ∀ more, derItAsn1LowGetLengthInfo w (octets ++ more) = ok ⟨length, l.length, rest ++ more⟩

/-- Both writers write the length `length` so. -/
structure WritesLength (w length : ℕ) : Prop where
  tagAndLength : ∀ pAnyIn cTag node, contentsLength cTag pAnyIn = length →
    derItAsn1LowWriteTagAndLength w pAnyIn cTag = ok node →
      ∃ octets, node.pData = cTag :: octets ∧ BeginsWithLength w octets length
  sequence : ∀ nodes node, (nodes.map AnyBuf.dataLen).sum = length →
    derItAsn1WriteSequence w nodes = ok node →
      ∃ octets, node.pData = 0x30 :: octets ∧ BeginsWithLength w octets length

/-- What `DER_ItAsn1_Low_WriteTagAndLength` does when it has counted the contents. -/
def writeCounted (w : ℕ) (pAnyIn : AnyBuf) (cTag : UInt8) (iMidSize : ℕ) : Outcome AnyBuf := do
  let iMidSizeOf := derItAsn1LowCountLengthOfSize iMidSize
  if iMidSizeOf > 5 then
    err DerErrType.lengthErr
  else
    let cIdentifier :=
      if cTag.toNat &&& contextSpecific ≠ 0 then cTag.toNat else cTag.toNat &&& shortIdMask
    let head := cTag :: lengthOctets iMidSize iMidSizeOf
    let head ←
      if cIdentifier = DerTag.bitString then
        ok (head ++ [UInt8.ofNat pAnyIn.unusedBits])
      else if cIdentifier = DerTag.integer then do
        let b ← deref pAnyIn.pData
        ok (if b.toNat &&& firstYesIdMask = 0 then head else head ++ [0])
      else
        ok head
    ok { pData := head
         dataLen := (iMidSize + 1 + iMidSizeOf) % 2 ^ w
         unusedBits := if cIdentifier = DerTag.bitString then pAnyIn.unusedBits else 0
         dataType := cIdentifier }

section Lengths

variable {w length : ℕ} {pAnyIn node : AnyBuf} {cTag : UInt8}

/-- 65535 is not written in its shortest form. -/
theorem not_minimalLength_writtenLength : ¬ MinimalLength (writtenLength 0xFFFF) 0xFFFF := by
  intro h
  have hshortest : MinimalLength [0x82, 0xFF, 0xFF] 0xFFFF :=
    @MinimalLength.long 0x82 [0xFF, 0xFF] (show (0xFF : UInt8) ≠ 0 by decide) (by decide)
  exact absurd (h.unique hshortest) (by decide)

/-- A written length is the distinguished one, but for 65535. -/
theorem beginsWithLength_iff (hw : 32 ≤ w) (hlength : length < 2 ^ 32) (rest : Bytes) :
    BeginsWithLength w (writtenLength length ++ rest) length ↔ length ≠ 0xFFFF := by
  have hread : ∀ more, derItAsn1LowGetLengthInfo w (writtenLength length ++ rest ++ more) =
      ok ⟨length, (writtenLength length).length, rest ++ more⟩ := by
    intro more
    rw [List.append_assoc]
    exact getLengthInfo_append hw (lenOctets_writtenLength hlength) _
  constructor
  · rintro ⟨l, rest', heq, hminimal, hread'⟩ rfl
    have hinfo := (hread []).symm.trans (hread' [])
    rw [ok.injEq, Head.mk.injEq] at hinfo
    obtain ⟨rfl, -⟩ := List.append_inj heq hinfo.2.1
    exact not_minimalLength_writtenLength hminimal
  · intro hne
    exact ⟨_, rest, rfl, minimalLength_writtenLength hlength hne, hread⟩

theorem writeTagAndLength_counted (hfit : contentsLength cTag pAnyIn < 2 ^ w)
    (h : derItAsn1LowWriteTagAndLength w pAnyIn cTag = ok node) :
    writeCounted w pAnyIn cTag (contentsLength cTag pAnyIn) = ok node := by
  rw [contentsLength] at hfit ⊢
  rw [derItAsn1LowWriteTagAndLength] at h
  by_cases hbits : cTag.toNat = DerTag.bitString
  · have hinteger : ¬ cTag.toNat = DerTag.integer := by
      rw [hbits]
      decide
    rw [if_pos hbits] at hfit ⊢
    rw [if_neg fun hother => hother.1 hbits, if_neg hinteger, ok_bind, Nat.mod_eq_of_lt hfit] at h
    exact h
  · rw [if_neg hbits] at hfit ⊢
    by_cases hinteger : cTag.toNat = DerTag.integer
    · rw [if_neg fun hother => hother.2 hinteger, if_pos hinteger] at h
      obtain ⟨b, hb, h⟩ := bind_eq_ok.mp h
      have htop : (pAnyIn.pData.headD 0) = b := by
        cases hdata : pAnyIn.pData with
        | nil =>
            rw [hdata] at hb
            cases hb
        | cons b' r =>
            rw [hdata] at hb
            exact ok.inj hb
      replace h : writeCounted w pAnyIn cTag (if b.toNat &&& firstYesIdMask = 0 then pAnyIn.dataLen
          else (pAnyIn.dataLen + 1) % 2 ^ w) = ok node := h
      rw [htop] at hfit ⊢
      by_cases hclear : b.toNat < 128
      · rw [if_neg fun hset => absurd hclear (not_lt.mpr hset.2)]
        rwa [if_pos ((UInt8.and_128_eq_zero b).mpr hclear)] at h
      · rw [if_pos ⟨hinteger, not_lt.mp hclear⟩] at hfit ⊢
        rwa [if_neg fun hbit => hclear ((UInt8.and_128_eq_zero b).mp hbit),
          Nat.mod_eq_of_lt hfit] at h
    · rw [if_pos ⟨hbits, hinteger⟩, ok_bind] at h
      rw [if_neg fun hset => hinteger hset.1]
      exact h

/-- Behind the tag the counted length is written. -/
theorem writeCounted_octets {n : ℕ} (h : writeCounted w pAnyIn cTag n = ok node) :
    ∃ rest, node.pData = cTag :: (writtenLength n ++ rest) := by
  have hhead : ∀ {rest : Bytes} {dataLen unusedBits dataType : ℕ},
      ok ⟨cTag :: (writtenLength n ++ rest), dataLen, unusedBits, dataType⟩ = ok node →
        ∃ rest, node.pData = cTag :: (writtenLength n ++ rest) := by
    rintro rest _ _ _ hnode
    exact ⟨rest, by rw [← ok.inj hnode]⟩
  rw [writeCounted] at h
  dsimp only at h
  generalize (if cTag.toNat &&& contextSpecific ≠ 0 then cTag.toNat else cTag.toNat &&& shortIdMask) =
    cIdentifier at h
  split at h
  · cases h
  · split at h
    · exact hhead h
    · split at h
      · obtain ⟨b, -, h⟩ := bind_eq_ok.mp h
        rw [ok_bind] at h
        split at h
        · exact @hhead [] _ _ _ (by rw [List.append_nil]; exact h)
        · exact hhead h
      · exact @hhead [] _ _ _ (by rw [List.append_nil]; exact h)

theorem writeSequence_octets {nodes : List AnyBuf} {node : AnyBuf}
    (hfit : (nodes.map AnyBuf.dataLen).sum < 2 ^ w) (h : derItAsn1WriteSequence w nodes = ok node) :
    ∃ rest, node.pData = 0x30 :: (writtenLength (nodes.map AnyBuf.dataLen).sum ++ rest) := by
  obtain ⟨body, -, hnode⟩ := bind_eq_ok.mp h
  rw [Nat.mod_eq_of_lt hfit] at hnode
  obtain rfl := ok.inj hnode
  exact ⟨body, rfl⟩

/-- 65535 octets of a string are written, but not in the distinguished form. -/
theorem not_writesLength (hw : 34 ≤ w) : ¬ WritesLength w 0xFFFF := by
  intro h
  obtain ⟨octets, hoctets, hbegins⟩ := h.tagAndLength ⟨List.replicate 0xFFFF 0, 0xFFFF, 7, DerTag.stringPrintable⟩
    19 _ rfl
    (writeTagAndLength_string hw (Or.inl rfl) _)
  obtain rfl := List.tail_eq_of_cons_eq hoctets.symm
  rw [← List.append_nil (writtenLength 0xFFFF), beginsWithLength_iff (by omega) (by norm_num)] at hbegins
  exact hbegins rfl

theorem writesLength_of_ne (hw : 34 ≤ w) (hlength : length < 2 ^ 32) (hne : length ≠ 0xFFFF) :
    WritesLength w length := by
  have hpow : (2 : ℕ) ^ 34 ≤ 2 ^ w := Nat.pow_le_pow_right (by norm_num) hw
  constructor
  · rintro pAnyIn cTag node rfl h
    obtain ⟨rest, hrest⟩ := writeCounted_octets (writeTagAndLength_counted (by omega) h)
    exact ⟨_, hrest, (beginsWithLength_iff (by omega) hlength rest).mpr hne⟩
  · rintro nodes node rfl h
    obtain ⟨rest, hrest⟩ := writeSequence_octets (by omega) h
    exact ⟨_, hrest, (beginsWithLength_iff (by omega) hlength rest).mpr hne⟩

end Lengths

/-- The lengths that both writers write in the one distinguished form. -/
theorem writesLength_iff {length : ℕ} (hlength : length ≤ 0xFFFFFFFF) :
    WritesLength Platform.x64.ulongBits length ↔ length ≠ 0xFFFF := by
  have hw : 34 ≤ Platform.x64.ulongBits := by decide
  constructor
  · rintro h rfl
    exact not_writesLength hw h
  · exact writesLength_of_ne hw (by omega)

/-- A length from the second class. -/
theorem writesLength_iff_200 : WritesLength Platform.x64.ulongBits 200 :=
  (writesLength_iff (by decide)).mpr (by decide)

/-- A string of 65535 octets gets the length octets `83 00 FF FF`. -/
theorem not_writesLength_65535 : ¬ WritesLength Platform.x64.ulongBits 0xFFFF :=
  not_writesLength (by decide)

end SafeTransmission
