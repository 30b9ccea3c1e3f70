import SafeTransmission.Op.Operations
import SafeTransmission.Library.ShortReads

/-!
# The end of a stream inside a frame

A client may close its connection before all bytes of a frame have come.  `recvdata` has to
return `0` then, to take the descriptor out of the epoll instance and to close it, and nothing may
use the descriptor behind that, because its number can belong to the next client.

The first `recv`, which asks for the length, does all this when it returns `0`.  The loop over the
payload closes the descriptor too, but goes on with the next byte, and returns the length.  A
length that has not come as a whole is filled up with zeros; if it is zero, an empty reply is sent,
and the descriptor is closed only if that fails.  So the descriptor is released as it should be
exactly if the first `recv` comes to the end of the stream, or finds zeros only while nothing can be
sent any more (`releases_iff`).

Each use of the descriptor is recorded.  There is one call of `working` here; the tasks of other
events are in `Server.Recvdata`.  A `send` that fails returns -1, as it does for a connection that
was reset; where the kernel sends `SIGPIPE` instead, the signal has to be ignored.
-/

namespace SafeTransmission

open Outcome

/-! ## The descriptor -/

/-- What is done with a descriptor. -/
inductive FdUse where
  | recv
  | send
  /-- `epoll_ctl` with `EPOLL_CTL_DEL`. -/
  | remove
  | close
deriving DecidableEq, Repr

/-- It is removed once and closed once, and not used behind that. -/
structure ReleasedOnce (uses : List FdUse) : Prop where
  removed : uses.count .remove = 1
  closed : uses.count .close = 1
  unused : uses.getLast? = some .close

/-- The descriptor of a client that closes the connection. -/
structure ClosingFd where
  /-- What has arrived and is not read. -/
  pending : Bytes
  /-- What arrives in front of each `recv` that follows.  Then the stream ends. -/
  coming : List Bytes
  /-- Nothing can be sent to the client any more. -/
  sendFails : Bool
  /-- The server has not closed it. -/
  fdOpen : Bool
  uses : List FdUse
deriving DecidableEq, Repr

namespace ClosingFd

/-- `epoll_ctl(epfd,EPOLL_CTL_DEL,fd,0)` and `close(fd)`. -/
def release (s : ClosingFd) : ClosingFd :=
  { s with fdOpen := false, uses := s.uses ++ [.remove, .close] }

/-- What the next `recv` finds. -/
def there (s : ClosingFd) : Bytes :=
  s.pending ++ s.coming.headD []

/-- `recv` for `n` bytes into zeroed memory: what it returns, the memory, and the descriptor. -/
def recv (s : ClosingFd) (n : ℕ) : ℤ × Bytes × ClosingFd :=
  if s.fdOpen = false then (-1, List.replicate n 0, { s with uses := s.uses ++ [.recv] })
  else
    let ret : ℤ :=
      if s.there = [] then (if s.coming = [] then 0 else -1) else (s.there.take n).length
    (ret, zeroPadded n s.there, { s with
      pending := s.there.drop n
      coming := s.coming.tail
      uses := s.uses ++ [.recv] })

/-- `Epoll::senddata`. -/
def senddata (s : ClosingFd) (data : Bytes) (len : ℤ) : Outcome (ℤ × ClosingFd) :=
  -- a negative size is too large for `malloc`, and `memset` gets a null pointer
  if toInt32 (len + 4) < 0 then fault .nullDeref
  -- the length takes four bytes in any case
  else if toInt32 (len + 4) < 4 then fault .writeOutOfBounds
  else if (data.length : ℤ) < len then fault .readOutOfBounds
  else
    let s := { s with uses := s.uses ++ [.send] }
    if s.sendFails = true ∨ s.fdOpen = false then ok (-1, s.release) else ok (0, s)

/-- The loop of `recvdata` with `n` rounds to go: the bytes, and the descriptor. -/
def recvLoop : ℕ → ClosingFd → Bytes × ClosingFd
  | 0, s => ([], s)
  | n + 1, s =>
      let (ret, byte, s) := s.recv 1
      let s := if ret = 0 then s.release else s
      let (rest, s) := recvLoop n s
      (byte ++ rest, s)

/-- The empty reply of `recvdata` to the length zero.  What `senddata` returns is thrown away. -/
def replyBlank (s : ClosingFd) (len : ℤ) : Outcome ClosingFd :=
  if len = 0 then do
    let (_, s) ← s.senddata [] 0
    ok s
  else ok s

/-- `recvdata` behind the test of the first `recv`. -/
def recvPayload (s : ClosingFd) (len : ℤ) : Outcome (ℤ × Bytes × ClosingFd) := do
  let s ← s.replyBlank len
  if len < 0 then fault .nullDeref
  else
    let (tbuf, s) := recvLoop len.toNat s
    ok (len, tbuf, s)

/-- `Epoll::recvdata`: what it returns, `*buf`, and the descriptor. -/
def recvdata (s : ClosingFd) : Outcome (ℤ × Bytes × ClosingFd) :=
  let (ret, clen, s) := s.recv 4
  if ret = 0 then ok (0, [], s.release)
  else s.recvPayload (toInt32 (beNat clen.reverse))

/-- `working`, behind the constructor of `sop`. -/
def working (h : Md5Hex) (sop : Serverop) (rand : ℕ → ℕ) (reqMemory : RequestMsg)
    (resMemory : RespondMsg) (s : ClosingFd) : Outcome ClosingFd := do
  let (len, buf, s) ← s.recvdata
  if len = 0 then ok s
  else do
    let decoded ← RequestCodec.msgDecode .op (RequestCodec.new .op reqMemory) buf len
    match decoded.result with
    | none => fault .nullDeref
    | some reqmsg =>
        if reqmsg.int RequestMsg.cmdType.off = 1 then do
          let (_, (data, reslen), _) ← sop.secMngArrange h composeSize rand resMemory reqmsg
          let (_, s) ← s.senddata data reslen
          ok s
        -- `reslen` was never assigned
        else fault .uninitialised

end ClosingFd

/-! ## Streams that end inside a frame -/

/-- A connection that ends inside a frame: the four bytes of the length, as many bytes as
they say, and what of all this arrives, and when. -/
structure CutStream where
  clen : Vector UInt8 4
  data : Bytes
  length_eq : data.length = (toInt32 (beNat clen.toList.reverse)).toNat
  pending : Bytes
  coming : List Bytes
  cut : pending ++ coming.flatten <+: clen.toList ++ data
  short : pending ++ coming.flatten ≠ clen.toList ++ data
  sendFails : Bool

/-- The descriptor when `working` is called. -/
def CutStream.fd (x : CutStream) : ClosingFd :=
  ⟨x.pending, x.coming, x.sendFails, true, []⟩

/-- Nothing is delivered, and the descriptor is released once and not used behind that, by
`recvdata` and by `working`. -/
structure Releases (h : Md5Hex) (sop : Serverop) (rand : ℕ → ℕ) (reqMemory : RequestMsg)
    (resMemory : RespondMsg) (x : CutStream) : Prop where
  recvdata : ∃ buf s, x.fd.recvdata = ok (0, buf, s) ∧ ReleasedOnce s.uses
  working : ∃ s, x.fd.working h sop rand reqMemory resMemory = ok s ∧ ReleasedOnce s.uses

section Releases

variable {s s' : ClosingFd} {x : CutStream}

theorem lengthRead_eq_zero_iff {there : Bytes} :
    toInt32 (beNat (zeroPadded 4 there).reverse) = 0 ↔ ∀ b ∈ there.take 4, b = 0 := by
  have hzero : intBytes 0 = List.replicate 4 0 := by decide
  constructor
  · intro hlen b hb
    have hbytes := eq_intBytes (length_zeroPadded 4 there) hlen
    rw [hzero] at hbytes
    have hmem : b ∈ zeroPadded 4 there := List.mem_append_left _ hb
    rw [hbytes] at hmem
    exact List.eq_of_mem_replicate hmem
  · intro hzeros
    have hbytes : zeroPadded 4 there = List.replicate 4 0 := by
      refine List.eq_replicate_iff.mpr ⟨length_zeroPadded 4 there, fun b hb => ?_⟩
      rcases List.mem_append.mp hb with hread | hpadding
      · exact hzeros b hread
      · exact List.eq_of_mem_replicate hpadding
    rw [hbytes]
    decide

/-- What the first `recv` leaves. -/
def CutStream.afterLength (x : CutStream) : ClosingFd :=
  ⟨x.fd.there.drop 4, x.coming.tail, x.sendFails, true, [.recv]⟩

/-- The first `recv` comes to the end of the stream if nothing has arrived, and nothing will. -/
theorem fst_recv_eq_zero_iff (x : CutStream) :
    (x.fd.recv 4).1 = 0 ↔ x.pending = [] ∧ x.coming = [] := by
  have hopen : x.fd.fdOpen = true := rfl
  have hcoming : x.fd.coming = x.coming := rfl
  rw [ClosingFd.recv, hopen, if_neg (by decide)]
  dsimp only
  by_cases hthere : x.fd.there = []
  · obtain ⟨hpending, -⟩ := List.append_eq_nil_iff.mp hthere
    rw [if_pos hthere, hcoming]
    split
    · rename_i hnone
      exact iff_of_true rfl ⟨hpending, hnone⟩
    · rename_i hmore
      exact iff_of_false (by decide) fun hend => hmore hend.2
  · have hpos := List.length_pos_of_ne_nil hthere
    rw [if_neg hthere]
    refine iff_of_false ?_ fun hend => hthere ?_
    · rw [List.length_take]
      omega
    · unfold ClosingFd.there CutStream.fd
      dsimp only
      rw [hend.1, hend.2]
      rfl

theorem recvdata_eq (x : CutStream) : x.fd.recvdata =
    if x.pending = [] ∧ x.coming = [] then ok (0, [], x.afterLength.release)
    else x.afterLength.recvPayload (toInt32 (beNat (zeroPadded 4 x.fd.there).reverse)) := by
  unfold ClosingFd.recvdata
  dsimp only
  simp only [fst_recv_eq_zero_iff]
  rfl

/-- An empty reply, which closes the descriptor if it cannot be sent. -/
theorem recvPayload_zero (s : ClosingFd) : s.recvPayload 0 = ok (0, [],
    if s.sendFails = true ∨ s.fdOpen = false then
      ClosingFd.release { s with uses := s.uses ++ [.send] }
    else { s with uses := s.uses ++ [.send] }) := by
  rw [ClosingFd.recvPayload, ClosingFd.replyBlank, if_pos rfl, ClosingFd.senddata,
    if_neg (by decide), if_neg (by decide), if_neg (by decide)]
  dsimp only
  split
  · rfl
  · rfl

theorem len_eq_zero_of_recvPayload {len : ℤ} {buf : Bytes}
    (h : s.recvPayload len = ok (0, buf, s')) : len = 0 := by
  obtain ⟨s₁, -, h⟩ := bind_eq_ok.mp h
  split at h
  · cases h
  · exact (Prod.mk.inj (ok.inj h)).1

theorem working_eq_of_recvdata {buf : Bytes} (h : s.recvdata = ok (0, buf, s')) (md5 : Md5Hex)
    (sop : Serverop) (rand : ℕ → ℕ) (reqMemory : RequestMsg) (resMemory : RespondMsg) :
    s.working md5 sop rand reqMemory resMemory = ok s' := by
  rw [ClosingFd.working, h, ok_bind]
  exact if_pos rfl

end Releases

/-- Nothing is delivered and the descriptor is released once exactly if the first `recv` comes to
the end of the stream, or if it finds zeros only and the empty reply cannot be sent. -/
theorem releases_iff (h : Md5Hex) (sop : Serverop) (rand : ℕ → ℕ) (reqMemory : RequestMsg)
    (resMemory : RespondMsg) (x : CutStream) :
    Releases h sop rand reqMemory resMemory x ↔ (x.pending = [] ∧ x.coming = []) ∨
      (x.sendFails = true ∧ ∀ b ∈ (x.pending ++ x.coming.headD []).take 4, b = 0) := by
  constructor
  · rintro ⟨⟨buf, s, hrecv, hremoved, -⟩, -⟩
    rw [recvdata_eq] at hrecv
    split at hrecv
    · rename_i hend
      exact Or.inl hend
    · have hzero := len_eq_zero_of_recvPayload hrecv
      refine Or.inr ⟨?_, lengthRead_eq_zero_iff.mp hzero⟩
      rw [hzero, recvPayload_zero] at hrecv
      obtain ⟨-, -, rfl⟩ : (0 : ℤ) = 0 ∧ ([] : Bytes) = buf ∧ _ = s := by
        simpa only [ok.injEq, Prod.mk.injEq] using hrecv
      split at hremoved
      · rename_i hfails
        exact hfails.resolve_right Bool.noConfusion
      · -- a reply was sent, and the descriptor stays open
        cases hremoved
  · intro hreleases
    obtain ⟨buf, s, hrecv, hreleased⟩ :
        ∃ buf s, x.fd.recvdata = ok (0, buf, s) ∧ ReleasedOnce s.uses := by
      rw [recvdata_eq]
      split
      · exact ⟨_, _, rfl, by constructor <;> rfl⟩
      · rename_i hmore
        obtain ⟨hfails, hzeros⟩ := hreleases.resolve_left hmore
        have hlen : toInt32 (beNat (zeroPadded 4 x.fd.there).reverse) = 0 :=
          lengthRead_eq_zero_iff.mpr hzeros
        have hcannot : x.afterLength.sendFails = true := hfails
        rw [hlen, recvPayload_zero, if_pos (Or.inl hcannot)]
        exact ⟨_, _, rfl, by constructor <;> rfl⟩
    exact ⟨⟨buf, s, hrecv, hreleased⟩, s, working_eq_of_recvdata hrecv .., hreleased⟩

/-- The length 1, and the end of the stream. -/
def headOnly : CutStream where
  clen := #v[1, 0, 0, 0]
  data := [7]
  length_eq := by decide +kernel
  pending := [1, 0, 0, 0]
  coming := []
  cut := ⟨[7], rfl⟩
  short := by decide
  sendFails := false

/-- The descriptor is closed, and the zeroed byte returned for the payload. -/
theorem not_releases_headOnly :
    ¬Releases (.signed fun _ => .replicate 16 0) ⟨.zero 96, .zero 34⟩ (fun _ => 0) (.zero 160)
      (.zero 96) headOnly := by
  rintro ⟨⟨buf, s, hrecv, -⟩, -⟩
  have hone : headOnly.fd.recvdata =
      ok (1, [0], ⟨[], [], false, false, [.recv, .recv, .remove, .close]⟩) := by
    decide +kernel
  cases hone.symm.trans hrecv

end SafeTransmission
