import SafeTransmission.Asn1.Writers
import SafeTransmission.Codec.Reading

/-!
# Decoding whatever arrives

`unpackSequence` throws away the code of `DER_ItAsn1_ReadSequence`, and neither
`msgDecode` nor its caller looks at the codes of the readers.  `msgDecode` has a
null pointer to report a failure with, but it never returns one.  It fills a
message from decoded nodes exactly if the input is `Fillable`; every other input
makes it follow a null pointer, leave a block of memory, or go on with a field
that was not filled.
-/

namespace SafeTransmission

open Outcome

namespace Codec

variable {n : ℕ} {g : Generation} {ms : List Member} {b : Bytes}

/-- The message was filled from nodes of the sequence in `b`, one node for each
member, and each of them was decoded without an error. -/
def FilledFromNodes (g : Generation) (ms : List Member) (b : Bytes) (d : Decoded n) : Prop :=
  ∃ nodes ds, derItAsn1ReadSequence longBits (ofBytes b) = ok nodes ∧ NodesSupply g ms nodes ds ∧
    d.reads = ds.map (0, ·)

/-- `msgDecode` of `b` fills all members from decoded nodes, or returns null. -/
def FillsOrReports (g : Generation) (ms : List Member) (c : Codec n) (b : Bytes) : Prop :=
  ∃ d, msgDecode ms g c b b.length = ok d ∧ (d.result = none ∨ FilledFromNodes g ms b d)

/-- `b` is a sequence with at least as many elements as there are members, which hold
values of the right kind, and no value reaches from its member over the end of
the message. -/
def Fillable (n : ℕ) (g : Generation) (ms : List Member) (b : Bytes) : Prop :=
  ∃ ts ds, IsSequence longBits b ts ∧ ElementsSupply g ms ts ds ∧
    ∀ p ∈ ms.zip ds, p.1.off + p.2.length ≤ n

/-- `msgDecode` has no way to report a failure. -/
theorem msgDecode_result {c : Codec n} {d : Decoded n} {inLen : ℤ}
    (h : msgDecode ms g c b inLen = ok d) : ∃ msg, d.result = some msg := by
  obtain ⟨s, -, h⟩ := bind_eq_ok.mp h
  obtain ⟨⟨msg, reads⟩, -, h⟩ := bind_eq_ok.mp h
  exact ⟨msg, by rw [← ok.inj h]⟩

/-- `msgDecode` of a fresh codec fills its message from decoded nodes, or reports a
failure, exactly if the input is fillable. -/
theorem fillsOrReports_iff (hb : b.length < 2 ^ 31) (msg : CObject n) :
    FillsOrReports g ms ⟨.empty, msg⟩ b ↔ Fillable n g ms b := by
  constructor
  · rintro ⟨d, hdecode, hnone | ⟨nodes, ds, hnodes, hsupply, -⟩⟩
    · obtain ⟨msg', hresult⟩ := msgDecode_result hdecode
      rw [hnone] at hresult
      cases hresult
    · obtain ⟨ts, hseq, rfl⟩ := readSequence_inv (by norm_num) hb hnodes
      obtain ⟨p, hp, hsplit⟩ := hseq.exists_splits
      rw [msgDecode_eq hnodes hsupply] at hdecode
      obtain ⟨msg', hstore, -⟩ := bind_eq_ok.mp hdecode
      exact ⟨ts, ds, hseq, (supplies_node_iff hsplit (by omega)).mp hsupply, storeAll_inside hstore⟩
  · rintro ⟨ts, ds, hseq, hsupply, hinside⟩
    obtain ⟨p, hp, hsplit⟩ := hseq.exists_splits
    have hnodes := readSequence_of_isSequence (w := longBits) (by norm_num) hseq hb
    have hsupply' := (supplies_node_iff hsplit (by omega)).mpr hsupply
    obtain ⟨msg', hstore⟩ := storeAll_of_inside hinside msg
    refine ⟨⟨some msg', ds.map (0, ·)⟩, ?_, Or.inr ⟨_, ds, hnodes, hsupply', rfl⟩⟩
    rw [msgDecode_eq hnodes hsupply', hstore]
    rfl

end Codec

/-- Both decoders of the `seckey` version, on whatever arrives. -/
theorem msgDecode_fillsOrReports_iff {b : Bytes} (hb : b.length < 2 ^ 31) :
    (∀ memory, Codec.FillsOrReports .seckey RequestMsg.members (RequestCodec.new .seckey memory) b ↔
      Codec.Fillable 160 .seckey RequestMsg.members b) ∧
    ∀ memory, Codec.FillsOrReports .seckey RespondMsg.members (RespondCodec.new memory) b ↔
      Codec.Fillable 96 .seckey RespondMsg.members b :=
  ⟨fun _ => Codec.fillsOrReports_iff hb _, fun _ => Codec.fillsOrReports_iff hb _⟩

/-- A number and four empty strings fill a request. -/
theorem msgDecode_fills_emptyStrings :
    Codec.FillsOrReports .seckey RequestMsg.members (RequestCodec.new .seckey (.zero 160))
      (sequenceOctets (messageElements 1 [[0], [0], [0], [0]])) := by
  have hholds : (printableElement [0]).HoldsString [0] := holdsString_printableElement (by decide)
  have hseq := @isSequence_messageElements longBits 1 [[0], [0], [0], [0]] (by norm_num) (by decide)
    (by decide)
  refine ((msgDecode_fillsOrReports_iff (by decide)).1 _).mpr
    ⟨_, [intBytes 1, [0], [0], [0], [0]], hseq, ?_, by decide⟩
  exact .cons ⟨1, holdsInteger_integerElement (by norm_num), rfl⟩
    (.cons hholds (.cons hholds (.cons hholds (.cons hholds (.nil [])))))

/-- A SET instead of a SEQUENCE is rejected, and the missing header is followed. -/
theorem msgDecode_set_not_fillsOrReports :
    ¬ Codec.FillsOrReports .seckey RequestMsg.members (RequestCodec.new .seckey (.zero 160))
      [0x31, 0x00] := by
  rintro ⟨d, hdecode, -⟩
  have hfault : Codec.msgDecode RequestMsg.members .seckey (RequestCodec.new .seckey (.zero 160))
      [0x31, 0x00] ([0x31, 0x00] : Bytes).length = fault .nullDeref := by decide +kernel
  rw [hfault] at hdecode
  cases hdecode

end SafeTransmission
