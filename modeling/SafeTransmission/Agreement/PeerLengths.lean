import SafeTransmission.Agreement.TcpSocket

/-!
# Lengths that the peer chooses

The header of a frame comes from the peer, and any four octets can come.  `recvMsg`
reads them as an `int`, allocates one byte more, and hands the length to `readn`,
where it is converted to `size_t`.

This ends well for every header and every stream (`guarded`):

* for a length and a terminator below `2 ^ 31` the block is large enough
  (`guarded_of_length`);
* for other lengths there is no block of so many bytes (`range_of_block`);
* `-1` is left.  Its block has no bytes, and `readn` is to fill it with `2 ^ 64 - 1` of them,
  but no `read` takes such a count (`readn_minus_one`).
-/

namespace SafeTransmission.TcpSocket

open Outcome

/-- The header is no length, or leaves no room for the terminator. -/
def BadHeader (header : Bytes) : Prop :=
  toInt32 (beNat header) < 0 ∨ toInt32 (toInt32 (beNat header) + 1) < 0

/-- What `recvMsg` is to do with whatever the peer sends. -/
structure Guarded (s : TcpSocket) (timeout : ℕ) : Prop where
  /-- No byte is stored outside a block. -/
  inside : s.recvMsgServer timeout ≠ fault .writeOutOfBounds
  /-- With zero come the bytes that were read, and their number. -/
  payload : ∀ received, s.recvMsgServer timeout = ok received → received.ret = 0 →
    ∃ header b, header.length = 4 ∧ received.output = some (b ++ [0], (b.length : ℤ)) ∧
      carried s.incoming = header ++ b ++ carried received.socket.incoming
  /-- A bad header, once it is read, makes the call fail. -/
  rejected : (s.readTimeout timeout).1 = none → ∀ header rest, header.length = 4 →
    carried s.incoming = header ++ rest → BadHeader header →
    ∃ received, s.recvMsgServer timeout = ok received ∧ received.ret ≠ 0 ∧ received.output = none

variable {s : TcpSocket} {timeout : ℕ}

/-! ## Ways that a call ends -/

theorem guarded_of_refused {ret : ℤ} {s' : TcpSocket}
    (hreceive : s.receive timeout = ok ⟨ret, none, s'⟩) (hret : ret ≠ 0) : s.Guarded timeout where
  inside := by
    rw [recvMsgServer, hreceive]
    simp
  payload := by
    intro received hreceive' hzero
    obtain rfl : _ = received := by simpa [recvMsgServer, hreceive] using hreceive'
    exact absurd hzero hret
  rejected := fun _ _ _ _ _ _ => ⟨_, hreceive, hret, rfl⟩

/-- While `recvMsg` waits for the rest of a message it has stored nothing wrong. -/
theorem guarded_of_diverges (hreceive : s.receive timeout = fault .diverges)
    (hheader : ∀ header rest, header.length = 4 → carried s.incoming = header ++ rest →
      ¬BadHeader header) : s.Guarded timeout where
  inside := by
    rw [recvMsgServer, hreceive]
    simp
  payload := by
    intro received hreceive'
    rw [recvMsgServer, hreceive] at hreceive'
    cases hreceive'
  rejected := fun _ header rest hlen hcarried hbad => absurd hbad (hheader header rest hlen hcarried)

theorem guarded_of_received {header b : Bytes} {s' : TcpSocket}
    (hreceive : s.receive timeout = ok ⟨0, some (b ++ [0], b.length), s'⟩) (hlen : header.length = 4)
    (hcarried : carried s.incoming = header ++ b ++ carried s'.incoming)
    (hgood : ¬BadHeader header) : s.Guarded timeout where
  inside := by
    rw [recvMsgServer, hreceive]
    simp
  payload := by
    intro received hreceive' _
    obtain rfl : _ = received := by simpa [recvMsgServer, hreceive] using hreceive'
    exact ⟨header, b, hlen, rfl, hcarried⟩
  rejected := by
    intro _ header' rest hlen' hcarried' hbad
    -- the four octets that were read are the header
    have hheader : header = header' := by
      rw [List.append_assoc] at hcarried
      exact (List.append_inj (hcarried.symm.trans hcarried') (hlen.trans hlen'.symm)).1
    exact absurd (hheader ▸ hbad) hgood

/-! ## The header -/

theorem eq_of_toInt32_eq {header : Bytes} (hlen : header.length = 4)
    (h : toInt32 (beNat header) = -1) : header = [255, 255, 255, 255] := by
  have hlt : beNat header < 2 ^ 32 := by
    have := beNat_lt header
    rw [hlen] at this
    omega
  refine eq_of_beNat_eq hlen ?_
  rw [show beNat [255, 255, 255, 255] = 2 ^ 32 - 1 from by decide]
  by_contra hne
  rcases Nat.lt_or_ge (beNat header) (2 ^ 31) with hlow | hhigh
  · rw [toInt32_of_range (by omega) (by omega)] at h
    omega
  · have hwrap : toInt32 (beNat header) = (beNat header : ℤ) - 2 ^ 32 := by
      rw [← toInt32_emod, ← Int.sub_emod_right, toInt32_emod]
      exact toInt32_of_range (by omega) (by omega)
    omega

/-- There is no block for a negative length, `-1` apart, nor for the largest one. -/
theorem range_of_block {header : Bytes} (hsize : ¬toInt32 (toInt32 (beNat header) + 1) < 0) :
    -1 ≤ toInt32 (beNat header) ∧ toInt32 (beNat header) < 2 ^ 31 - 1 := by
  obtain ⟨hlow, hhigh⟩ := toInt32_range (beNat header)
  generalize toInt32 (beNat header) = n at *
  by_contra hrange
  apply hsize
  rcases lt_or_ge n (-1) with hneg | hpos
  · rw [toInt32_of_range (by omega) (by omega)]
    omega
  · obtain rfl : n = 2 ^ 31 - 1 := by omega
    decide

theorem readn_header {s : TcpSocket} {header rest : Bytes} (hlen : header.length = 4)
    (hcarried : carried s.incoming = header ++ rest) :
    ∃ incoming, s.readn 4 4 = ok (4, header, { s with incoming := incoming }) ∧
      carried incoming = rest ∧ ending incoming = ending s.incoming :=
  readn_eq hlen (by norm_num) hcarried le_rfl

theorem readTimeout_of_none (hwait : (s.readTimeout timeout).1 = none) :
    ∃ readable, s.readTimeout timeout = (none, { s with readable := readable }) := by
  obtain ⟨readable, hkept⟩ := readTimeout_snd s timeout
  exact ⟨readable, Prod.ext hwait hkept⟩

/-! ## When the promise is kept -/

theorem guarded_of_short_header {s₁ : TcpSocket} (hwait : s.readTimeout timeout = (none, s₁))
    (hincoming : s₁.incoming = s.incoming) (hshort : (carried s.incoming).length < 4) :
    s.Guarded timeout := by
  have hread := @readn_of_lt s₁ 4 4 4 (by rfl) (by decide) (by rwa [hincoming])
    (by rw [hincoming]; exact hshort.le)
  cases hending : ending s₁.incoming with
  | silent =>
      rw [hending] at hread
      refine guarded_of_diverges (receive_of_header_fault hwait hread) ?_
      intro header rest hlen hcarried
      rw [hcarried, List.length_append] at hshort
      omega
  | closed =>
      obtain ⟨incoming, hread⟩ := @readn_of_closed s₁ 4 4 (by rwa [hincoming]) (by norm_num) le_rfl
        hending
      refine guarded_of_refused (receive_of_short_header hwait hread (Int.natCast_nonneg _) ?_)
        (by decide)
      rw [hincoming]
      exact_mod_cast hshort
  | failed errno =>
      rw [hending] at hread
      obtain ⟨incoming, hread⟩ := hread
      exact guarded_of_refused (receive_of_header_failed hwait hread) (by decide)

theorem guarded_of_length {s₁ s₂ : TcpSocket} {header : Bytes} {n : ℕ}
    (hwait : s.readTimeout timeout = (none, s₁)) (hheader : s₁.readn 4 4 = ok (4, header, s₂))
    (hlen : header.length = 4) (hcarried : carried s.incoming = header ++ carried s₂.incoming)
    (hn : toInt32 (beNat header) = n) (hlt : n < 2 ^ 31 - 1) : s.Guarded timeout := by
  have hblock : ¬toInt32 ((n : ℤ) + 1) < 0 := malloc_of_lt (by omega) (by omega)
  have hgood : ¬BadHeader header := by
    unfold BadHeader
    rw [hn]
    rintro (hneg | hneg)
    · omega
    · exact hblock hneg
  have hroom : ((n : ℤ) + 1).toNat = n + 1 := by omega
  have hreceive := receive_of_header hwait hheader hn hblock
  rw [hroom] at hreceive
  -- fewer bytes than announced: the way the stream ends decides
  rcases Nat.lt_or_ge (carried s₂.incoming).length n with hshort | hlong
  · have hsize : n ≤ ssizeMax := by
      rw [ssizeMax]
      omega
    have hread := @readn_of_lt s₂ (n + 1) n n (by omega) hsize hshort (by omega)
    cases hending : ending s₂.incoming with
    | silent =>
        rw [hending] at hread
        refine guarded_of_diverges (by rw [hreceive, hread, fault_bind]) ?_
        intro header' rest hlen' hcarried'
        rwa [(List.append_inj (hcarried'.symm.trans hcarried) (hlen'.trans hlen.symm)).1]
    | closed =>
        obtain ⟨incoming, hread⟩ := @readn_of_closed s₂ n (n + 1) hshort (by omega) (Nat.le_succ n)
          hending
        rw [← hroom] at hread
        exact guarded_of_refused (receive_of_short_body hwait hheader hn (by omega) hread
          (Int.natCast_nonneg _) (by exact_mod_cast hshort)) (by decide)
    | failed errno =>
        rw [hending] at hread
        obtain ⟨incoming, hread⟩ := hread
        have hfailed : s.receive timeout = ok ⟨-1, none, { s₂ with incoming := incoming }⟩ := by
          rw [hreceive, hread, ok_bind]
          rfl
        exact guarded_of_refused hfailed (by decide)
  · have hsplit : carried s₂.incoming =
        (carried s₂.incoming).take n ++ (carried s₂.incoming).drop n := (List.take_append_drop _ _).symm
    have htake : ((carried s₂.incoming).take n).length = n := List.length_take_of_le hlong
    obtain ⟨incoming, hread, hrest, -⟩ := @readn_eq s₂ n _ _ htake (by omega) hsplit (n + 1)
      (Nat.le_succ n)
    rw [← hroom] at hread
    have hzero := receive_of_reads hwait hheader hn (Int.natCast_nonneg n) (by omega) hread
    have hreceived : s.receive timeout = ok ⟨0, some ((carried s₂.incoming).take n ++ [0],
        (((carried s₂.incoming).take n).length : ℤ)), { s₂ with incoming := incoming }⟩ := by
      rw [htake]
      exact hzero
    refine guarded_of_received hreceived hlen ?_ hgood
    rw [hrest, List.append_assoc, ← hsplit, hcarried]

/-! ## The length `-1` -/

/-- No `read` takes the count that `-1` is converted to. -/
theorem readn_minus_one (s : TcpSocket) (room : ℕ) : s.readn room (-1) = ok (-1, [], s) := by
  have hrefused : ssizeMax < ((-1 : ℤ) % 2 ^ 64).toNat := by decide
  rw [readn, readBlock_of_refused hrefused, ok_bind]

/-- There is a block, but no byte is read into it. -/
theorem receive_of_minus_one {s₁ s₂ : TcpSocket} (hwait : s.readTimeout timeout = (none, s₁))
    (hheader : s₁.readn 4 4 = ok (4, [255, 255, 255, 255], s₂)) :
    s.receive timeout = ok ⟨-1, none, s₂⟩ := by
  rw [receive_of_header hwait hheader (by decide) (malloc_of_lt le_rfl (by norm_num)),
    readn_minus_one, ok_bind]
  rfl

/-- `recvMsg` keeps its promise for every stream, whatever the answers of `select`. -/
theorem guarded (s : TcpSocket) (timeout : ℕ) : s.Guarded timeout := by
  cases hready : (s.readTimeout timeout).1 with
  | some errno =>
      have hexpired : s.receive timeout = ok ⟨timeoutError, none, (s.readTimeout timeout).2⟩ := by
        rw [receive, show s.readTimeout timeout = (some errno, (s.readTimeout timeout).2) from
          Prod.ext hready rfl]
      exact guarded_of_refused hexpired (by decide)
  | none =>
      obtain ⟨readable, hwait⟩ := readTimeout_of_none hready
      rcases Nat.lt_or_ge (carried s.incoming).length 4 with hshort | hlong
      · exact guarded_of_short_header hwait rfl hshort
      · obtain ⟨header, rest, hcarried, hlen⟩ :
            ∃ header rest, carried s.incoming = header ++ rest ∧ header.length = 4 :=
          ⟨_, _, (List.take_append_drop 4 _).symm, List.length_take_of_le hlong⟩
        obtain ⟨incoming, hheader, hcarried', -⟩ :=
          @readn_header { s with readable := readable } header rest hlen hcarried
        by_cases hblock : toInt32 (toInt32 (beNat header) + 1) < 0
        · exact guarded_of_refused (receive_of_no_block hwait hheader hblock) (by decide)
        · obtain ⟨hlow, hhigh⟩ := range_of_block hblock
          rcases hlow.eq_or_lt with hone | hpos
          · -- the length is `-1`, and the next `read` is refused
            obtain rfl := eq_of_toInt32_eq hlen hone.symm
            exact guarded_of_refused (receive_of_minus_one hwait hheader) (by decide)
          · obtain ⟨n, hn⟩ := Int.eq_ofNat_of_zero_le hpos
            rw [hn] at hhigh
            exact guarded_of_length hwait hheader hlen (by rw [hcarried, hcarried']) hn (by omega)

/-- The header `-1` and a byte behind it. -/
example : (⟨[], [], [.bytes 255 [255, 255, 255, 65], .closed], [], [], true⟩ :
    TcpSocket).recvMsgServer 5 =
      ok ⟨-1, none, ⟨[], [], [.bytes 65 [], .closed], [], [], true⟩⟩ := by
  decide +kernel

end SafeTransmission.TcpSocket
