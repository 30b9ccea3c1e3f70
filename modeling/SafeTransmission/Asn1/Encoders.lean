import SafeTransmission.Asn1.Writers

/-!
# `EncodeChar` and `EncodeUnsignedChar`
-/

namespace SafeTransmission

open Outcome

section Encoders

variable {w : ℕ} {s : Bytes}

theorem encodeChar_eq (hw : 34 ≤ w) (hs : s.length < 2 ^ 31) :
    encodeChar w s s.length = ok (printableElement s).node := by
  have harg : ¬ (s = [] ∧ (s.length : ℤ) ≠ 0 ∨ s ≠ [] ∧ (s.length : ℤ) = 0) := by
    cases s with
    | nil => simp
    | cons b s => simp; omega
  have hchar : ¬ (ofBytes s).dataType = DerTag.stringBmp := by
    change ¬ DerTag.stringPrintable = DerTag.stringBmp
    decide
  rw [encodeChar, if_neg harg, stringToAnyBuf_self, ok_bind, derItAsn1WritePrintableString,
    if_neg hchar, writeCharString_ofBytes hw hs]

theorem encodeUnsignedChar_eq (hw : 34 ≤ w) (hs : s.length < 2 ^ 31) :
    encodeUnsignedChar w s s.length =
      ok { (bitStringElement s).node with unusedBits := s.length % 8 } := by
  have harg : ¬ (s = [] ∧ (s.length : ℤ) ≠ 0 ∨ s ≠ [] ∧ (s.length : ℤ) = 0) := by
    cases s with
    | nil => simp
    | cons b s => simp; omega
  rw [encodeUnsignedChar, if_neg harg, stringToAnyBuf_self, ok_bind, writeBitString_ofBytes hw hs]

end Encoders

end SafeTransmission
