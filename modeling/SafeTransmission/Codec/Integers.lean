import SafeTransmission.Asn1.ElementHeads
import SafeTransmission.Asn1.Writers
import SafeTransmission.Codec.SequenceASN1
import SafeTransmission.Library.Ber

/-!
# Integers, written and read

`DER_ItAsn1_WriteInteger` writes a number of up to 32 bits in its one distinguished
encoding, which is read back, and refuses a wider one (`writeInteger_derInteger`).

The readers trust what they are given.  `DER_ItAsn1_ReadInteger` throws the tag away, takes
the contents for a number without a sign, and keeps its low 64 bits; empty contents make it
read behind the node.  `readNextNode` keeps the low 32 bits of that, and for a length that
was refused it gives out its initial zero (`integerReaders_sound_iff`).
-/

namespace SafeTransmission

open Outcome

/-! ## Writing -/

/-- `e` is the one distinguished encoding of `v`, with a single length octet. -/
structure OnlyDerInteger (v : ℤ) (e : Bytes) : Prop where
  derInteger : DerInteger v e
  unique : ∀ e', DerInteger v e' → e' = e
  lengthOctet : ∃ contents, contents.length < 128 ∧ e = 2 :: UInt8.ofNat contents.length :: contents

section Writing

variable {n : ℕ}

theorem onlyDerInteger_integerElement (hn : n < 2 ^ 32) :
    OnlyDerInteger n (integerElement n).bytes := by
  obtain ⟨-, hmin, hvalue, hlen⟩ := intToChar_eq hn
  obtain ⟨hminInt, hpos⟩ := minimalNat_iff.mp hmin
  have hder : DerInteger n (integerElement n).bytes := by
    refine ⟨integerContents n, hminInt, ?_, derElement_integerElement hn⟩
    rw [beInt_of_nonneg hpos, hvalue]
  exact ⟨hder, fun e' he' => he'.unique (Int.natCast_nonneg n) hder, integerContents n, by omega, rfl⟩

theorem readInteger_integerElement (hn : n < 2 ^ 32) :
    derItAsn1ReadInteger longBits (integerElement n).node = ok n := by
  have hreads := (definite_integerElement (w := longBits) hn).reads []
  rcases hreads.readInteger_cases (by norm_num) with ⟨m, hm, hread⟩ | ⟨hnone, -⟩
  · obtain rfl : m = n := hm.value.trans (intToChar_eq hn).2.2.1
    rw [hread, Nat.mod_eq_of_lt (hn.trans (by norm_num))]
  · exact absurd (holdsInteger_integerElement hn) (hnone n)

end Writing

/-- Up to 32 bits a number is written in its one distinguished encoding and read back; a wider
one is refused, and the output parameter stays as it was `before`. -/
theorem writeInteger_derInteger (v : ℕ) (before : AnyBuf) :
    if v ≤ 0xFFFFFFFF then
      ∃ node, (derItAsn1WriteInteger v).returned before = ok (0, node) ∧
        OnlyDerInteger v node.pData ∧ node.dataLen = node.pData.length ∧
        derItAsn1ReadInteger longBits node = ok v
    else (derItAsn1WriteInteger v).returned before = ok (DerErrType.dataRangeErr, before) := by
  split
  · rename_i hv
    have hn : v < 2 ^ 32 := by omega
    refine ⟨(integerElement v).node, ?_, onlyDerInteger_integerElement hn, rfl,
      readInteger_integerElement hn⟩
    rw [writeInteger_node hn]
    rfl
  · rename_i hv
    rw [writeInteger_of_le (by omega)]
    rfl

/-! ## Reading -/

/-- An element with a one-octet tag, as a node. -/
def elementNode (tag : UInt8) (l contents : Bytes) (unusedBits dataType : ℕ) : AnyBuf :=
  ⟨tag :: (l ++ contents), (tag :: (l ++ contents)).length, unusedBits, dataType⟩

/-- The element is an INTEGER that is not negative and takes up to `bits` bits. -/
structure HoldsNumber (bits : ℕ) (tag : UInt8) (contents : Bytes) : Prop where
  tag : tag = 2
  ne_nil : contents ≠ []
  nonneg : 0 ≤ beInt contents
  lt : beInt contents < 2 ^ bits

/-- `DER_ItAsn1_ReadInteger` has read inside the node, and has reported an error or returned the
number that the element holds. -/
def SoundInteger (tag : UInt8) (contents : Bytes) : Outcome ℕ → Prop
  | ok v => HoldsNumber longBits tag contents ∧ (v : ℤ) = beInt contents
  | err _ => True
  | fault _ => False

/-- The same for `readNextNode(int&)`, which stores an `int`. -/
def SoundInt (tag : UInt8) (contents : Bytes) : Outcome SequenceASN1.ReadStep → Prop
  | ok step => step.ret = 0 → HoldsNumber 31 tag contents ∧ step.stored = intBytes (beInt contents)
  | err _ => True
  | fault _ => False

section Reading

variable {tag : UInt8} {l contents : Bytes} {s : SequenceASN1} {node : AnyBuf}

theorem exists_tagOctets (htag : tag.toNat % 32 ≠ 31) : ∃ value, TagOctets longBits [tag] value := by
  by_cases hcontext : tag.toNat < 128
  · exact ⟨_, .low htag hcontext⟩
  · exact ⟨_, .context htag (not_lt.mp hcontext)⟩

/-- A length with more than four octets behind the first is refused. -/
theorem getLengthInfo_definite {n : ℕ} (hl : DefiniteLength l n) (p : Bytes) :
    derItAsn1LowGetLengthInfo longBits (l ++ p) =
      if l.length ≤ 5 then ok ⟨n, l.length, p⟩ else err DerErrType.lengthErr := by
  cases hl with
  | @short b hb =>
      rw [if_pos (by simp), getLengthInfo_append (by norm_num) (.short hb)]
  | @long b bs hpos hle hb =>
      rw [List.length_cons]
      split
      · rename_i hfew
        rw [getLengthInfo_append (by norm_num) (.long hpos (by omega) hb), List.length_cons]
      · rename_i hmany
        rw [List.cons_append, getLengthInfo_of_refused (by omega)]

theorem readInteger_elementNode (htag : tag.toNat % 32 ≠ 31)
    (hl : DefiniteLength l contents.length) (unusedBits dataType : ℕ) :
    derItAsn1ReadInteger longBits (elementNode tag l contents unusedBits dataType) =
      if l.length ≤ 5 then
        if contents = [] then fault .readOutOfBounds else ok (beNat contents % 2 ^ longBits)
      else err DerErrType.lengthErr := by
  obtain ⟨value, htagOctets⟩ := exists_tagOctets htag
  have hinfo : derItAsn1LowGetTagInfo longBits (tag :: (l ++ contents)) =
      ok ⟨value, 1, l ++ contents⟩ := getTagInfo_append htagOctets (l ++ contents)
  rw [derItAsn1ReadInteger, elementNode, hinfo, ok_bind, getLengthInfo_definite hl]
  split
  · rw [ok_bind]
    split
    · rename_i hnil
      rw [hnil]
      rfl
    · rename_i hne
      exact Tlv.charToInt_octets (by norm_num) hne
  · rfl

theorem HoldsNumber.beNat_mod {bits : ℕ} (h : HoldsNumber bits tag contents) {wide : ℕ}
    (hwide : bits ≤ wide) : ((beNat contents % 2 ^ wide : ℕ) : ℤ) = beInt contents := by
  have hlt := h.lt
  have hpow : (2 : ℕ) ^ bits ≤ 2 ^ wide := Nat.pow_le_pow_right (by norm_num) hwide
  rw [beInt_of_nonneg h.nonneg] at hlt ⊢
  have hnat : beNat contents < 2 ^ bits := by exact_mod_cast hlt
  rw [Nat.mod_eq_of_lt (hnat.trans_le hpow)]

/-- `DER_ItAsn1_ReadInteger` is sound on an INTEGER that fits, and where it refuses the length. -/
theorem soundInteger_iff (htag : tag.toNat % 32 ≠ 31) (hl : DefiniteLength l contents.length)
    (unusedBits dataType : ℕ) :
    SoundInteger tag contents
        (derItAsn1ReadInteger longBits (elementNode tag l contents unusedBits dataType)) ↔
      5 < l.length ∨ HoldsNumber longBits tag contents := by
  rw [readInteger_elementNode htag hl]
  by_cases hfew : l.length ≤ 5
  · rw [if_pos hfew, or_iff_right (not_lt.mpr hfew)]
    by_cases hnil : contents = []
    · rw [if_pos hnil]
      exact ⟨False.elim, fun h => h.ne_nil hnil⟩
    · rw [if_neg hnil]
      exact ⟨fun h => h.1, fun h => ⟨h, h.beNat_mod le_rfl⟩⟩
  · rw [if_neg hfew]
    exact iff_of_true trivial (Or.inl (not_le.mp hfew))

/-- `readNextNode(int&)` always returns zero, and stores what it was given, or zero. -/
theorem readNextNodeInt_seckey (hs : s.current = ok node) :
    ∃ s', s.readNextNodeInt .seckey = match derItAsn1ReadInteger longBits node with
      | ok number => ok ⟨0, intBytes number, s'⟩
      | err _ => ok ⟨0, intBytes 0, s'⟩
      | fault kind => fault kind := by
  obtain ⟨i, hi⟩ : ∃ i, s.mNext = some i := by
    rw [SequenceASN1.current] at hs
    cases hnext : s.mNext with
    | none =>
        rw [hnext] at hs
        cases hs
    | some i => exact ⟨i, rfl⟩
  refine ⟨{ s with mNext := s.pointerTo (i + 1) }, ?_⟩
  have hadvance : s.advance = ok { s with mNext := s.pointerTo (i + 1) } := by
    rw [SequenceASN1.advance, hi]
  rw [SequenceASN1.readNextNodeInt, hs, ok_bind]
  cases derItAsn1ReadInteger longBits node with
  | ok number =>
      dsimp only
      rw [hadvance]
      rfl
  | err code =>
      dsimp only
      rw [hadvance]
      rfl
  | fault kind => rfl

/-- `readNextNode(int&)` is sound on an INTEGER that fits into an `int`; one with a length that
is refused has to be zero. -/
theorem soundInt_iff (htag : tag.toNat % 32 ≠ 31) (hl : DefiniteLength l contents.length)
    (unusedBits dataType : ℕ) (hs : s.current = ok (elementNode tag l contents unusedBits dataType)) :
    SoundInt tag contents (s.readNextNodeInt .seckey) ↔
      HoldsNumber 31 tag contents ∧ (5 < l.length → beInt contents = 0) := by
  obtain ⟨s', hread⟩ := readNextNodeInt_seckey hs
  rw [hread, readInteger_elementNode htag hl]
  by_cases hfew : l.length ≤ 5
  · rw [if_pos hfew, and_iff_left fun hmany => absurd hmany (not_lt.mpr hfew)]
    by_cases hnil : contents = []
    · rw [if_pos hnil]
      exact ⟨False.elim, fun h => h.ne_nil hnil⟩
    · rw [if_neg hnil]
      refine ⟨fun h => (h rfl).1, fun h _ => ⟨h, ?_⟩⟩
      rw [h.beNat_mod (by norm_num)]
  · rw [if_neg hfew]
    constructor
    · intro h
      obtain ⟨hnumber, hstored⟩ := h rfl
      refine ⟨hnumber, fun _ => ?_⟩
      have hint := toInt32_intBytes (beInt contents)
      rw [← hstored, toInt32_intBytes] at hint
      have hlow := hnumber.nonneg
      have hhigh := hnumber.lt
      rwa [toInt32_of_range (by omega) (by omega), toInt32_of_range (by omega) (by omega),
        eq_comm] at hint
    · rintro ⟨hnumber, hzero⟩ _
      exact ⟨hnumber, by rw [hzero (not_le.mp hfew)]⟩

end Reading

/-- When the integer readers are sound on an element with a one-octet tag and a definite length. -/
theorem integerReaders_sound_iff {tag : UInt8} {l contents : Bytes} (htag : tag.toNat % 32 ≠ 31)
    (hl : DefiniteLength l contents.length) (unusedBits dataType : ℕ) {s : SequenceASN1}
    (hs : s.current = ok (elementNode tag l contents unusedBits dataType)) :
    (SoundInteger tag contents
        (derItAsn1ReadInteger longBits (elementNode tag l contents unusedBits dataType)) ↔
      5 < l.length ∨ HoldsNumber longBits tag contents) ∧
    (SoundInt tag contents (s.readNextNodeInt .seckey) ↔
      HoldsNumber 31 tag contents ∧ (5 < l.length → beInt contents = 0)) :=
  ⟨soundInteger_iff htag hl unusedBits dataType, soundInt_iff htag hl unusedBits dataType hs⟩

/-- The number 5. -/
theorem integerReaders_sound_five :
    (SoundInteger 2 [5] (derItAsn1ReadInteger longBits (elementNode 2 [1] [5] 0 2)) ↔
      5 < 1 ∨ HoldsNumber longBits 2 [5]) ∧
    (SoundInt 2 [5] (SequenceASN1.readNextNodeInt .seckey ⟨[elementNode 2 [1] [5] 0 2], some 0⟩) ↔
      HoldsNumber 31 2 [5] ∧ (5 < 1 → beInt [5] = 0)) :=
  @integerReaders_sound_iff 2 [1] [5] (by decide) (.short (b := 1) (by decide)) 0 2 _ rfl

/-- The integer −1 is read as 255. -/
theorem not_soundInteger_negative :
    ¬ SoundInteger 2 [0xFF] (derItAsn1ReadInteger longBits (elementNode 2 [1] [0xFF] 0 2)) := by
  have hread : derItAsn1ReadInteger longBits (elementNode 2 [1] [0xFF] 0 2) = ok 255 := by
    decide +kernel
  rw [hread]
  rintro ⟨hnumber, -⟩
  exact absurd hnumber.nonneg (by decide)

end SafeTransmission
