import SafeTransmission.Asn1.ReadSequence
import SafeTransmission.Asn1.Heads
import SafeTransmission.Library.Ber

/-!
# Which identifiers of the standard are read

A tag number up to 30 is in the only identifier octet.  A larger one is in the octets behind it,
seven bits in each, where the top bit is set in all but the last.  The `do` loop of
`DER_ItAsn1_Low_GetTagInfo` ends behind the first octet that has it.  So it never ends where such an
identifier does, and reads identifiers of the standard exactly up to 30 (`readsIdentifiers_iff`).
-/

namespace SafeTransmission

open Outcome

/-- In front of `contents` the identifier octets are read, and nothing else. -/
def Consumed (w : ℕ) (id : Identifier) (contents : Bytes) : Prop :=
  ∃ tag, derItAsn1LowGetTagInfo w (id.octets ++ contents) = ok ⟨tag, id.octets.length, contents⟩

/-- Two identifiers are read as they are, and with different values if their numbers are different
and fit. -/
structure ReadsIdentifiers (w : ℕ) (id id' : Identifier) (contents contents' : Bytes) : Prop where
  consumed : Consumed w id contents
  consumed' : Consumed w id' contents'
  distinct : id.number ≠ id'.number → id.number < 2 ^ w → id'.number < 2 ^ w → ∀ f f',
    derItAsn1LowGetTagInfo w (id.octets ++ contents) = ok f →
      derItAsn1LowGetTagInfo w (id'.octets ++ contents') = ok f' → f.value ≠ f'.value

section Identifiers

variable {w tag : ℕ} {id id' : Identifier} {contents contents' : Bytes}

/-- The value that a small number is read as: with its class if this has the top bit. -/
def smallTag (id : Identifier) : ℕ :=
  if (id.lead id.number).toNat < 128 then id.number else (id.lead id.number).toNat

theorem tagOctets_octets (hnumber : id.number ≤ 30) : TagOctets w id.octets (smallTag id) := by
  have hmod := id.lead_mod (show id.number < 32 by omega)
  have hlow : (id.lead id.number).toNat % 32 ≠ 31 := by omega
  rw [Identifier.octets, if_pos hnumber, smallTag]
  split
  · rename_i hb
    have hread : TagOctets w [id.lead id.number] ((id.lead id.number).toNat % 32) := .low hlow hb
    rwa [hmod] at hread
  · rename_i hb
    exact .context hlow (not_lt.mp hb)

/-- The loop does not end behind an octet whose top bit is clear. -/
theorem number_le_of_tagOctets (h : TagOctets w id.octets tag) : id.number ≤ 30 := by
  by_contra hnumber
  generalize hoctets : id.octets = octets at h
  rw [Identifier.octets, if_neg hnumber, Identifier.subsequentOctets] at hoctets
  have hmod := id.lead_mod (show 31 < 32 by norm_num)
  cases h with
  | low hlow hb =>
      obtain ⟨rfl, -⟩ := List.cons.inj hoctets
      exact hlow hmod
  | context hlow hb =>
      obtain ⟨rfl, -⟩ := List.cons.inj hoctets
      exact hlow hmod
  | high hlow hmids hlast =>
      obtain ⟨-, htail⟩ := List.cons.inj hoctets
      obtain ⟨-, hsame⟩ := List.append_inj' htail rfl
      obtain ⟨rfl, -⟩ := List.cons.inj hsame
      exact absurd (Identifier.toNat_last_lt id.number) (not_lt.mpr hlast)

theorem consumed_iff : Consumed w id contents ↔ id.number ≤ 30 := by
  constructor
  · rintro ⟨tag, hread⟩
    obtain ⟨ident, hsplit, htag, -⟩ := getTagInfo_inv hread
    obtain rfl := List.append_cancel_right hsplit
    exact number_le_of_tagOctets htag
  · intro hnumber
    exact ⟨_, getTagInfo_append (tagOctets_octets hnumber) contents⟩

theorem smallTag_mod (hnumber : id.number ≤ 30) : smallTag id % 32 = id.number := by
  have hmod := id.lead_mod (show id.number < 32 by omega)
  rw [smallTag]
  split
  · omega
  · exact hmod

end Identifiers

/-- Identifiers are read as they are exactly if both numbers are at most 30. -/
theorem readsIdentifiers_iff (platform : Platform) (id id' : Identifier)
    (contents contents' : Bytes) :
    ReadsIdentifiers platform.ulongBits id id' contents contents' ↔
      id.number ≤ 30 ∧ id'.number ≤ 30 := by
  constructor
  · rintro ⟨hconsumed, hconsumed', -⟩
    exact ⟨consumed_iff.mp hconsumed, consumed_iff.mp hconsumed'⟩
  · rintro ⟨hnumber, hnumber'⟩
    refine ⟨consumed_iff.mpr hnumber, consumed_iff.mpr hnumber', ?_⟩
    intro hne _ _ f f' hread hread' hvalue
    rw [getTagInfo_append (tagOctets_octets hnumber), ok.injEq] at hread
    rw [getTagInfo_append (tagOctets_octets hnumber'), ok.injEq] at hread'
    subst hread hread'
    have hsame : smallTag id = smallTag id' := hvalue
    rw [← smallTag_mod hnumber, ← smallTag_mod hnumber', hsame] at hne
    exact hne rfl

/-- The context-specific tag 201, with three identifier octets. -/
def tag201 : Identifier :=
  ⟨.contextSpecificClass, true, 201⟩

/-- Two octets are read, and the third is left for the length. -/
theorem not_readsIdentifiers_tag201 :
    ¬ReadsIdentifiers Platform.x64.ulongBits tag201 tag201 [1, 0] [1, 0] := by
  rintro ⟨⟨tag, hread⟩, -, -⟩
  have htwo : derItAsn1LowGetTagInfo 64 (tag201.octets ++ [1, 0]) =
      ok ⟨0x181, 2, [0x49, 1, 0]⟩ := by
    decide +kernel
  cases hread.symm.trans htwo

end SafeTransmission
