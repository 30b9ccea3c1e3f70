import SafeTransmission.Asn1.Encoders
import SafeTransmission.Codec.SequenceASN1
import SafeTransmission.Library.Ber

/-!
# What the written BIT STRING elements denote

`DER_ITCAST_String_To_AnyBuf` sets the number of unused bits to the number of octets modulo
eight.  A decoder that follows the encoding rules therefore drops that many bits from the
end, and gets all bits exactly of the strings whose length is a multiple of eight
(`writesBits_iff`).  This program's own readers skip the octet.
-/

namespace SafeTransmission

open Outcome

/-- `EncodeUnsignedChar`, and the string writers of the `op` version of `SequenceASN1`, write the
string as a BIT STRING of its bits. -/
structure WritesBits (s : Bytes) : Prop where
  encodeUnsignedChar : ∀ node, encodeUnsignedChar longBits s s.length = ok node →
    DenotesBits node.pData (bitsOf s)
  writeHeadNode : ∀ (seq seq' : SequenceASN1) (ret : ℤ),
    seq.writeHeadNodeStr .op s s.length = ok (ret, seq') →
      ∃ node, seq'.current = ok node ∧ DenotesBits node.pData (bitsOf s)
  writeNextNode : ∀ (seq seq' : SequenceASN1) (last : AnyBuf) (ret : ℤ), seq.current = ok last →
    seq.writeNextNodeStr .op s s.length = ok (ret, seq') →
      ∃ node, seq'.current = ok node ∧ DenotesBits node.pData (bitsOf s)

section BitStrings

variable {s : Bytes}

theorem LenOctets.definiteLength {l : Bytes} {n : ℕ} (h : LenOctets l n) : DefiniteLength l n := by
  cases h with
  | short hb => exact .short hb
  | long hpos hle hb => exact .long hpos (by omega) hb

/-- The element of a string denotes its bits exactly if its length is a multiple of eight. -/
theorem denotesBits_bitStringElement (hs : s.length < 2 ^ 31) :
    DenotesBits (bitStringElement s).bytes (bitsOf s) ↔ s.length % 8 = 0 := by
  have hlen : DefiniteLength (writtenLength (s.length + 1))
      (UInt8.ofNat (s.length % 8) :: s).length :=
    (lenOctets_writtenLength (n := s.length + 1) (by omega)).definiteLength
  have hunused : UInt8.ofNat (s.length % 8) = 0 ↔ s.length % 8 = 0 := by
    rw [← UInt8.toNat_inj, UInt8.toNat_ofNat', UInt8.toNat_zero]
    omega
  calc DenotesBits (bitStringElement s).bytes (bitsOf s)
      ↔ bitString (UInt8.ofNat (s.length % 8) :: s) = some (bitsOf s) := denotesBits_iff hlen
    _ ↔ UInt8.ofNat (s.length % 8) = 0 := bitString_eq_some_iff
    _ ↔ s.length % 8 = 0 := hunused

theorem stringNode_op (hs : s.length < 2 ^ 31) :
    SequenceASN1.stringNode .op s s.length =
      ok { (bitStringElement s).node with unusedBits := s.length % 8 } := by
  rw [SequenceASN1.stringNode, stringToAnyBuf_self]
  exact writeBitString_ofBytes (by norm_num) hs

theorem current_link {seq seq' : SequenceASN1} {last node : AnyBuf} (hlast : seq.current = ok last)
    (h : seq.link node = ok seq') : seq'.current = ok node := by
  obtain ⟨nodes, next⟩ := seq
  cases next with
  | none => cases h
  | some i =>
      obtain rfl := ok.inj h
      have hi : i < nodes.length := by
        by_contra hge
        rw [SequenceASN1.current] at hlast
        simp only [Option.bind_some, List.getElem?_eq_none (not_lt.mp hge)] at hlast
        cases hlast
      have hlength : (nodes.take (i + 1)).length = i + 1 := List.length_take_of_le hi
      simp [SequenceASN1.current, hlength]

theorem writesBits_of_mod (hs : s.length < 2 ^ 31) (hmod : s.length % 8 = 0) : WritesBits s := by
  have hdenotes := (denotesBits_bitStringElement hs).mpr hmod
  constructor
  · intro node h
    obtain rfl := ok.inj ((encodeUnsignedChar_eq (by norm_num) hs).symm.trans h)
    exact hdenotes
  · intro seq seq' ret h
    rw [SequenceASN1.writeHeadNodeStr.eq_def, stringNode_op hs] at h
    cases h
    exact ⟨_, rfl, hdenotes⟩
  · intro seq seq' last ret hlast h
    rw [SequenceASN1.writeNextNodeStr.eq_def, stringNode_op hs] at h
    obtain ⟨seq'', hlink, h⟩ := bind_eq_ok.mp h
    cases h
    exact ⟨_, current_link hlast hlink, hdenotes⟩

end BitStrings

/-- The strings that are written with all their bits. -/
theorem writesBits_iff {s : Bytes} (hs : s.length < 2 ^ 31) : WritesBits s ↔ s.length % 8 = 0 := by
  constructor
  · intro h
    exact (denotesBits_bitStringElement hs).mp
      (h.encodeUnsignedChar _ (encodeUnsignedChar_eq (by norm_num) hs))
  · exact writesBits_of_mod hs

/-- A string of eight octets. -/
theorem writesBits_eight : WritesBits [1, 2, 3, 4, 5, 6, 7, 8] :=
  (writesBits_iff (by decide)).mpr (by decide)

/-- Of the string "A" a decoder gets seven bits. -/
theorem not_writesBits_one : ¬ WritesBits [65] := by
  intro h
  have hdenotes := h.encodeUnsignedChar _ (encodeUnsignedChar_eq (by norm_num) (by decide))
  exact absurd ((denotesBits_bitStringElement (by decide)).mp hdenotes) (by decide)

end SafeTransmission
