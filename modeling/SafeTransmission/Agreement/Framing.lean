import SafeTransmission.Agreement.TcpSocket

/-!
# Messages in a row

Messages that are sent one after another come out one after another, however the
stream is cut into pieces (`recvMsg_sendMsg`).  What is left to be read after each
message are the frames of the later ones, so a message is neither cut nor run
together with the next.  Where the stream ends inside a frame, `recvMsg` says so and
returns nothing.
-/

namespace SafeTransmission.TcpSocket

open Outcome

/-- `sendMsg` for one message after the other, and what the calls return. -/
def sendAll (s : TcpSocket) (timeout : ℕ) : List Bytes → Outcome (List ℤ × TcpSocket)
  | [] => ok ([], s)
  | b :: payloads => do
      let (ret, s) ← s.sendMsg b b.length timeout
      let (rets, s) ← s.sendAll timeout payloads
      ok (ret :: rets, s)

/-- `recvMsg` as often as is said, and what the calls return and assign. -/
def recvAll (s : TcpSocket) (timeout : ℕ) : ℕ → Outcome (List (ℤ × Option (Bytes × ℤ)) × TcpSocket)
  | 0 => ok ([], s)
  | count + 1 => do
      let received ← s.recvMsgServer timeout
      let (answers, s) ← received.socket.recvAll timeout count
      ok ((received.ret, received.output) :: answers, s)

/-- What `recvMsg` returns and assigns for a message: a copy with a terminator. -/
def delivered (b : Bytes) : ℤ × Option (Bytes × ℤ) :=
  (0, some (b ++ [0], b.length))

/-- Nothing fails at the socket, and no time runs out. -/
structure Reliable (s : TcpSocket) : Prop where
  readable : ∀ a ∈ s.readable, a.Transient
  writable : ∀ a ∈ s.writable, a.Transient
  writes : ∀ a ∈ s.writes, a.Transient

variable {s : TcpSocket}

/-! ## Sending -/

theorem sendAll_eq {payloads : List Bytes}
    (hpayloads : ∀ b ∈ payloads, 1 ≤ b.length ∧ b.length ≤ 2 ^ 31 - 5) (hs : s.Reliable)
    (timeout : ℕ) :
    ∃ s', s.sendAll timeout payloads = ok (payloads.map fun _ => 0, s') ∧
      s'.sent = s.sent ++ payloads.flatMap frame := by
  induction payloads generalizing s with
  | nil => exact ⟨s, rfl, by simp⟩
  | cons b payloads ih =>
      obtain ⟨hpos, hlen⟩ := hpayloads b List.mem_cons_self
      have hne : b ≠ [] := List.ne_nil_of_length_pos hpos
      obtain ⟨writable, writes, hsend, hwritable, hwrites⟩ :=
        sendMsg_eq hne (by omega) hs.writable hs.writes timeout
      -- what comes after the first message starts behind its frame
      obtain ⟨s', hlater, hsent⟩ := ih (fun c hc => hpayloads c (List.mem_cons_of_mem _ hc))
        (⟨hs.readable, hwritable, hwrites⟩ : Reliable { s with
          writable := writable, writes := writes, sent := s.sent ++ frame b })
      refine ⟨s', ?_, ?_⟩
      · rw [sendAll, hsend, ok_bind]
        dsimp only
        rw [hlater]
        rfl
      · rw [hsent, List.flatMap_cons, List.append_assoc]

/-! ## Receiving -/

/-- Each call takes one frame off the stream. -/
theorem recvAll_eq {payloads : List Bytes} (hpayloads : ∀ b ∈ payloads, b.length ≤ 2 ^ 31 - 5)
    (hs : s.Reliable) {rest : Bytes} (hcarried : carried s.incoming = payloads.flatMap frame ++ rest)
    (timeout : ℕ) :
    ∃ s', s.recvAll timeout payloads.length = ok (payloads.map delivered, s') ∧ s'.Reliable ∧
      carried s'.incoming = rest ∧ ending s'.incoming = ending s.incoming := by
  induction payloads generalizing s with
  | nil => exact ⟨s, rfl, hs, hcarried, rfl⟩
  | cons b payloads ih =>
      have hlen := hpayloads b List.mem_cons_self
      rw [List.flatMap_cons, List.append_assoc] at hcarried
      obtain ⟨readable, incoming, hreceive, hcarried₁, hending₁, hreadable⟩ :=
        receive_eq (by omega) hs.readable hcarried timeout
      obtain ⟨s', hlater, hs', hcarried', hending'⟩ :=
        ih (fun c hc => hpayloads c (List.mem_cons_of_mem _ hc))
          (⟨hreadable, hs.writable, hs.writes⟩ : Reliable { s with
            readable := readable, incoming := incoming }) hcarried₁
      refine ⟨s', ?_, hs', hcarried', hending'.trans hending₁⟩
      rw [List.length_cons, recvAll, recvMsgServer, hreceive, ok_bind]
      dsimp only
      rw [hlater]
      rfl

theorem recvAll_add (timeout : ℕ) {i j : ℕ} {answers₁ answers₂ : List (ℤ × Option (Bytes × ℤ))}
    {s₁ s₂ : TcpSocket} (h₁ : s.recvAll timeout i = ok (answers₁, s₁))
    (h₂ : s₁.recvAll timeout j = ok (answers₂, s₂)) :
    s.recvAll timeout (i + j) = ok (answers₁ ++ answers₂, s₂) := by
  induction i generalizing s answers₁ with
  | zero =>
      obtain ⟨rfl, rfl⟩ : [] = answers₁ ∧ s = s₁ := by simpa [recvAll] using h₁
      rw [Nat.zero_add, h₂, List.nil_append]
  | succ i ih =>
      rw [recvAll] at h₁
      obtain ⟨received, hreceive, h₁⟩ := bind_eq_ok.mp h₁
      obtain ⟨⟨answers, s'⟩, hlater, h₁⟩ := bind_eq_ok.mp h₁
      obtain ⟨rfl, rfl⟩ : (received.ret, received.output) :: answers = answers₁ ∧ s' = s₁ := by
        simpa using h₁
      rw [Nat.add_right_comm, recvAll, hreceive, ok_bind, ih hlater]
      rfl

/-- Where the stream ends inside a frame, `recvMsg` returns nothing. -/
theorem receive_of_truncated {b p : Bytes} (hlen : b.length ≤ 2 ^ 31 - 5)
    (hs : s.Reliable) (hp : p <+: frame b) (hshort : p.length < (frame b).length)
    (hcarried : carried s.incoming = p) (hending : ending s.incoming = .closed) (timeout : ℕ) :
    ∃ s', s.receive timeout = ok ⟨peerCloseError, none, s'⟩ := by
  obtain ⟨readable, hwait, -⟩ := readTimeout_eq hs.readable timeout
  rcases Nat.lt_or_ge p.length 4 with hheader | hheader
  · obtain ⟨incoming, hread⟩ := @readn_of_closed { s with readable := readable } 4 4
      (by rw [hcarried]; exact hheader) (by norm_num) le_rfl hending
    exact ⟨_, receive_of_short_header hwait hread (Int.natCast_nonneg _) (by rw [hcarried]; omega)⟩
  · -- the header is complete, and `q` is what there is of the message
    obtain ⟨q, rfl⟩ : beBytes 4 b.length <+: p :=
      List.prefix_of_prefix_length_le (List.prefix_append _ b) hp (by rw [length_beBytes]; exact hheader)
    rw [frame, List.length_append, List.length_append] at hshort
    obtain ⟨incoming₁, hread, hcarried₁, hending₁⟩ :=
      @readn_eq { s with readable := readable } 4 _ q (length_beBytes 4 b.length) (by norm_num)
        hcarried 4 le_rfl
    obtain ⟨incoming, hbody⟩ :=
      @readn_of_closed { s with readable := readable, incoming := incoming₁ } b.length (b.length + 1)
        (by rw [hcarried₁]; omega) (by omega) (Nat.le_succ _) (hending₁.trans hending)
    have hn : toInt32 (beNat (beBytes 4 b.length)) = b.length := by
      rw [beNat_beBytes_of_lt (by norm_num; omega), toInt32_of_range (by omega) (by omega)]
    have hroom : ((b.length : ℤ) + 1).toNat = b.length + 1 := by omega
    rw [← hroom] at hbody
    exact ⟨_, receive_of_short_body hwait hread hn (by omega) hbody (Int.natCast_nonneg _)
      (by rw [hcarried₁]; omega)⟩

/-- Messages of any admissible length come out as they were sent, in order and one for
each call, and the end of the stream inside a frame is told from the end of a message. -/
theorem recvMsg_sendMsg {payloads : List Bytes}
    (hpayloads : ∀ b ∈ payloads, 1 ≤ b.length ∧ b.length ≤ 2 ^ 31 - 5) (hs : s.Reliable)
    (timeout : ℕ) :
    ∃ s', s.sendAll timeout payloads = ok (payloads.map fun _ => 0, s') ∧
      s'.sent = s.sent ++ payloads.flatMap frame ∧
      ∀ r : TcpSocket, r.Reliable → ∀ timeout',
        -- all frames arrive, and perhaps more
        (∀ rest, carried r.incoming = payloads.flatMap frame ++ rest → ∀ i ≤ payloads.length,
          ∃ r', r.recvAll timeout' i = ok ((payloads.take i).map delivered, r') ∧
            carried r'.incoming = (payloads.drop i).flatMap frame ++ rest) ∧
        -- the stream ends behind some of the messages, inside the frame of `b`
        ∀ done, done <+: payloads → ∀ b : Bytes, b.length ≤ 2 ^ 31 - 5 → ∀ p, p <+: frame b →
          p.length < (frame b).length → carried r.incoming = done.flatMap frame ++ p →
          ending r.incoming = .closed →
          ∃ r', r.recvAll timeout' (done.length + 1) =
            ok (done.map delivered ++ [(peerCloseError, none)], r') := by
  obtain ⟨s', hsend, hsent⟩ := sendAll_eq hpayloads hs timeout
  refine ⟨s', hsend, hsent, fun r hr timeout' => ⟨?_, ?_⟩⟩
  · intro rest hcarried i hi
    have htake : ∀ b ∈ payloads.take i, b.length ≤ 2 ^ 31 - 5 := fun b hb =>
      (hpayloads b (List.mem_of_mem_take hb)).2
    have hsplit : carried r.incoming =
        (payloads.take i).flatMap frame ++ ((payloads.drop i).flatMap frame ++ rest) := by
      rw [hcarried, ← List.append_assoc, ← List.flatMap_append, List.take_append_drop]
    obtain ⟨r', hrecv, -, hrest, -⟩ := recvAll_eq htake hr hsplit timeout'
    rw [List.length_take_of_le hi] at hrecv
    exact ⟨r', hrecv, hrest⟩
  · intro done hdone b hb p hp hshort hcarried hending
    obtain ⟨r₁, hrecv, hr₁, hrest, hending₁⟩ := recvAll_eq
      (fun c hc => (hpayloads c (hdone.subset hc)).2) hr hcarried timeout'
    obtain ⟨r', hlast⟩ := receive_of_truncated hb hr₁ hp hshort hrest (hending₁.trans hending) timeout'
    have hone : r₁.recvAll timeout' 1 = ok ([(peerCloseError, none)], r') := by
      rw [recvAll, recvMsgServer, hlast]
      rfl
    exact ⟨r', recvAll_add timeout' hrecv hone⟩

/-- Two messages that come byte by byte, and the first octets of a third. -/
theorem recvMsg_sendMsg_twoMessages :
    ∃ s', (⟨[], [.failed .eintr], [], [.failed .eintr, .accepted 0, .accepted 3], [], true⟩ :
        TcpSocket).sendAll 5 [[104, 105], [0]] = ok ([0, 0], s') ∧
      s'.sent = [[104, 105], [0]].flatMap frame ∧
      ∃ r', (⟨[.failed .eintr], [], ((s'.sent ++ [0, 0]).map fun c => .bytes c []) ++ [.closed], [],
          [], true⟩ : TcpSocket).recvAll 5 3 =
        ok ([delivered [104, 105], delivered [0], (peerCloseError, none)], r') := by
  obtain ⟨s', hsend, hsent, hrecv⟩ := @recvMsg_sendMsg
    ⟨[], [.failed .eintr], [], [.failed .eintr, .accepted 0, .accepted 3], [], true⟩
    [[104, 105], [0]] (by simp)
    ⟨by simp, by simp [Selected.Transient], by simp [Acceptance.Transient]⟩ 5
  have hstream : s'.sent = [[104, 105], [0]].flatMap frame := hsent
  obtain ⟨r', hlast⟩ := (hrecv ⟨[.failed .eintr], [],
    ((s'.sent ++ [0, 0]).map fun c => .bytes c []) ++ [.closed], [], [], true⟩
    ⟨by simp [Selected.Transient], by simp, by simp⟩ 5).2
    [[104, 105], [0]] (List.prefix_refl _) [7] (by simp) [0, 0] (by decide) (by decide)
    (by rw [carried_map_bytes, hstream]; simp [carried]) (by rw [ending_map_bytes]; rfl)
  exact ⟨s', hsend, hsent, r', hlast⟩

end SafeTransmission.TcpSocket
