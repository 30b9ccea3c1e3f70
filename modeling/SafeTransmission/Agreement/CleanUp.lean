import SafeTransmission.Agreement.PeerLengths
import SafeTransmission.Agreement.Replies

/-!
# What a worker leaves behind

A worker looks its socket up in `m_listSocket`, serves the client, and in the end
closes the socket, removes its entry and deletes the socket.  The clean-up stands behind
`sendMsg`, at the only end of the function.

The return code of `recvMsg` is thrown away.  When no message has come, `recvBuf` is null
and `recvLen` has no value, and the worker decodes them nevertheless.  The worker gets to
its end exactly if a message came, is decoded, and is a request that the server can answer
(`cleansUp_iff`).

* What `recvMsg` assigns has come in a frame (`TcpSocket.receive_inv`), so a request that is
  decoded was received (`exists_received`).
* A request with the right code is answered (`exists_secKeyAgree`), even if its client id runs
  over the fields behind it, as these are stored later; the number of the key, which is stored
  last but one, ends every string (`zero_mem_of_seckeyid`).
* A client id that runs over the end of the response is what remains
  (`clientId_lt_of_secKeyAgree`).

A `write` that fails returns -1.  This is so for a connection that was reset; where the kernel
sends `SIGPIPE` instead, the signal has to be ignored, which the program does not do.
-/

namespace SafeTransmission

open Outcome Codec

/-! ## Messages that have come -/

namespace TcpSocket

variable {s s' : TcpSocket} {timeout : ℕ}

theorem readn_inv {n room : ℕ} {ret : ℤ} {b : Bytes} (hroom : n ≤ room) (hn : n < 2 ^ 31)
    (hread : s.readn room n = ok (ret, b, s')) (hret : (n : ℤ) ≤ ret) :
    b.length = n ∧ carried s.incoming = b ++ carried s'.incoming := by
  rcases Nat.lt_or_ge (carried s.incoming).length n with hshort | hlong
  · have hsize : n ≤ ssizeMax := by
      rw [ssizeMax]
      omega
    have hstop := @readn_of_lt s room n n (by omega) hsize hshort (by omega)
    cases hending : ending s.incoming with
    | silent =>
        rw [hending] at hstop
        dsimp only at hstop
        rw [hstop] at hread
        cases hread
    | closed =>
        obtain ⟨incoming, hclosed⟩ := readn_of_closed hshort hn hroom hending
        obtain ⟨hlen, -⟩ := Prod.mk.inj (ok.inj (hclosed.symm.trans hread))
        omega
    | failed errno =>
        rw [hending] at hstop
        obtain ⟨incoming, hfailed⟩ := hstop
        obtain ⟨hfail, -⟩ := Prod.mk.inj (ok.inj (hfailed.symm.trans hread))
        omega
  · obtain ⟨incoming, hall, hrest, -⟩ := @readn_eq s n ((carried s.incoming).take n)
      ((carried s.incoming).drop n) (List.length_take_of_le hlong) (by omega)
      (List.take_append_drop _ _).symm room hroom
    obtain ⟨-, hsame⟩ := Prod.mk.inj (ok.inj (hall.symm.trans hread))
    obtain ⟨rfl, rfl⟩ := Prod.mk.inj hsame
    refine ⟨List.length_take_of_le hlong, ?_⟩
    rw [hrest, List.take_append_drop]

/-- What `recvMsg` assigns has come in a frame. -/
theorem receive_inv {recvBuf : Bytes} {recvLen : ℤ} {received : Received}
    (hreceive : s.receive timeout = ok received) (houtput : received.output = some (recvBuf, recvLen)) :
    received.ret = 0 ∧ ∃ header b, recvBuf = b ++ [0] ∧ recvLen = b.length ∧ header.length = 4 ∧
      carried s.incoming = header ++ b ++ carried received.socket.incoming := by
  obtain ⟨readable, hkept⟩ := readTimeout_snd s timeout
  rw [receive] at hreceive
  split at hreceive
  · cases hreceive
    cases houtput
  · rename_i s₁ hwait
    rw [hwait] at hkept
    dsimp only at hkept
    obtain ⟨⟨ret, netdatalen, s₂⟩, hheader, hreceive⟩ := bind_eq_ok.mp hreceive
    dsimp only at hreceive
    split_ifs at hreceive with hfailed hshort hblock hneg
    · cases hreceive
      cases houtput
    · cases hreceive
      cases houtput
    · cases hreceive
      cases houtput
    · obtain ⟨⟨ret', tmpBuf, s₃⟩, -, hreceive⟩ := bind_eq_ok.mp hreceive
      dsimp only at hreceive
      split_ifs at hreceive
      · cases hreceive
        cases houtput
      · cases hreceive
        cases houtput
    · -- the header is there, and there is a block for the message
      obtain ⟨hlen, hcarried⟩ := readn_inv le_rfl (by norm_num) hheader (by omega)
      obtain ⟨⟨ret', tmpBuf, s₃⟩, hbody, hreceive⟩ := bind_eq_ok.mp hreceive
      obtain ⟨-, hhigh⟩ := range_of_block hblock
      generalize toInt32 (beNat netdatalen) = n at *
      dsimp only at hreceive
      split_ifs at hreceive with hfailed' hshort'
      · cases hreceive
        cases houtput
      · cases hreceive
        cases houtput
      · -- the only way out with an assignment
        obtain ⟨k, rfl⟩ := Int.eq_ofNat_of_zero_le (not_lt.mp hneg)
        obtain ⟨hlen', hcarried'⟩ := readn_inv (by omega) (by omega) hbody (by omega)
        cases hreceive
        cases houtput
        refine ⟨rfl, netdatalen, tmpBuf, rfl, by rw [hlen'], hlen, ?_⟩
        rw [hkept] at hcarried
        rw [hcarried, hcarried', List.append_assoc]

end TcpSocket

/-! ## Requests that are answered -/

namespace ServerOperation

section Answers

variable {h : Hashes} {mInfo : ServerInfo} {reqmsg : RequestMsg} {memory : ServerMemory}
  {rand : ℕ → ℕ}

theorem length_cString_append_le (text rest : Bytes) :
    (cString (text ++ 0 :: rest)).length ≤ text.length := by
  rw [cString, List.takeWhile_append]
  split
  · simp
  · exact (List.takeWhile_sublist _).length_le

theorem zero_mem_of_seckeyid {resMsg : RespondMsg}
    (hseckeyid : resMsg.Holds RespondMsg.seckeyid.off (intBytes 100)) {off : ℕ}
    (hoff : off ≤ RespondMsg.seckeyid.off) :
    0 ∈ resMsg.ptr off ∧ off + (resMsg.str off).length ≤ 93 := by
  have hoff' : off ≤ 92 := hoff
  -- the number `100` is one octet and three NULs
  have hbytes : (resMsg.ptr 92).take 4 = [100, 0, 0, 0] := hseckeyid
  have htail : (resMsg.ptr off).drop (92 - off) = 100 :: 0 :: (resMsg.ptr 92).drop 2 := by
    have hsplit := List.take_append_drop 2 (resMsg.ptr 92)
    rw [show (resMsg.ptr 92).take 2 = ((resMsg.ptr 92).take 4).take 2 by rw [List.take_take]; rfl,
      hbytes] at hsplit
    rw [CObject.ptr, List.drop_drop, Nat.add_sub_cancel' hoff', ← CObject.ptr, ← hsplit]
    rfl
  have hptr : resMsg.ptr off =
      ((resMsg.ptr off).take (92 - off) ++ [100]) ++ 0 :: (resMsg.ptr 92).drop 2 := by
    rw [List.append_assoc, List.singleton_append, ← htail, List.take_append_drop]
  have hlen : ((resMsg.ptr off).take (92 - off) ++ [100]).length ≤ 93 - off := by
    rw [List.length_append, List.length_singleton]
    have := List.length_take_le (92 - off) (resMsg.ptr off)
    omega
  have hstr := length_cString_append_le ((resMsg.ptr off).take (92 - off) ++ [100])
    ((resMsg.ptr 92).drop 2)
  rw [← hptr, ← CObject.str] at hstr
  refine ⟨?_, by omega⟩
  rw [hptr]
  simp

theorem int_nonneg_of_chars {n : ℕ} {o : CObject n} {off : ℕ} (h : o.chars (off + 2) 2 = [0, 0]) :
    0 ≤ o.int off := by
  have hsplit : o.chars off 4 = o.chars off 2 ++ [0, 0] := by
    rw [← h, CObject.chars, CObject.chars, CObject.chars, CObject.ptr, CObject.ptr, ← List.drop_drop,
      ← List.take_add]
  have hlow : beNat (o.chars off 2).reverse < 256 ^ (o.chars off 2).reverse.length := beNat_lt _
  have hlen : (o.chars off 2).reverse.length ≤ 2 := by
    simp [CObject.chars]
  have hpow : 256 ^ (o.chars off 2).reverse.length ≤ 256 ^ 2 := Nat.pow_le_pow_right (by norm_num) hlen
  have hvalue : beNat (o.chars off 4).reverse = beNat (o.chars off 2).reverse := by
    rw [hsplit, List.reverse_append]
    rfl
  rw [CObject.int, hvalue, toInt32_of_range (by omega) (by omega)]
  omega

theorem exists_encoded {resMsg : RespondMsg} (hrv : resMsg.int RespondMsg.rv.off = 0)
    (hseckeyid : resMsg.Holds RespondMsg.seckeyid.off (intBytes 100)) (memory : RespondMsg) :
    ∃ c b, RespondCodec.ofMsg .seckey memory resMsg = ok c ∧
      RespondCodec.msgEncode .seckey c = ok (b, (b.length : ℤ)) := by
  obtain ⟨hclientEnds, hclientLen⟩ :=
    zero_mem_of_seckeyid hseckeyid (show RespondMsg.clientId.off ≤ _ by decide)
  obtain ⟨hserverEnds, hserverLen⟩ :=
    zero_mem_of_seckeyid hseckeyid (show RespondMsg.serverId.off ≤ _ by decide)
  obtain ⟨hr2Ends, hr2Len⟩ := zero_mem_of_seckeyid hseckeyid (show RespondMsg.r2.off ≤ _ by decide)
  have hid : resMsg.int RespondMsg.seckeyid.off = 100 := hseckeyid.int_eq
  -- every string ends in front of the upper octets of the number for the key
  have hfits : ∀ {off : ℕ}, off + (resMsg.str off).length ≤ 93 →
      off + (resMsg.str off ++ [0]).length ≤ RespondMsg.seckeyid.off + 2 := by
    intro off hlen
    rw [List.length_append, List.length_singleton]
    exact Nat.succ_le_succ hlen
  obtain ⟨msg₁, hstore₁⟩ := memory.exists_store
    (show RespondMsg.rv.off + (intBytes 0).length ≤ 96 by decide)
  obtain ⟨msg₂, hstore₂⟩ := msg₁.exists_store
    (show RespondMsg.seckeyid.off + (intBytes 100).length ≤ 96 by decide)
  obtain ⟨msg₃, hstore₃⟩ := msg₂.exists_store ((hfits hclientLen).trans (by decide))
  obtain ⟨msg₄, hstore₄⟩ := msg₃.exists_store ((hfits hserverLen).trans (by decide))
  obtain ⟨msg₅, hstore₅⟩ := msg₄.exists_store ((hfits hr2Len).trans (by decide))
  have hofMsg : RespondCodec.ofMsg .seckey memory resMsg = ok ⟨.empty, msg₅⟩ := by
    have hcopy : ∀ m ∈ [RespondMsg.rv, RespondMsg.seckeyid, RespondMsg.clientId, RespondMsg.serverId,
        RespondMsg.r2], m.kind = .chars → 0 ∈ resMsg.ptr m.off := by
      intro m hm hkind
      simp only [List.mem_cons, List.not_mem_nil, or_false] at hm
      rcases hm with rfl | rfl | rfl | rfl | rfl
      · cases hkind
      · cases hkind
      · exact hclientEnds
      · exact hserverEnds
      · exact hr2Ends
    have hvalues : [RespondMsg.rv, RespondMsg.seckeyid, RespondMsg.clientId, RespondMsg.serverId,
        RespondMsg.r2].map (copiedValue resMsg) = [intBytes (resMsg.int RespondMsg.rv.off),
        intBytes (resMsg.int RespondMsg.seckeyid.off), resMsg.str RespondMsg.clientId.off ++ [0],
        resMsg.str RespondMsg.serverId.off ++ [0], resMsg.str RespondMsg.r2.off ++ [0]] := rfl
    rw [RespondCodec.ofMsg, copyMembers_eq hcopy, hvalues, hrv, hid]
    simp only [storeAll, hstore₁, hstore₂, hstore₃, hstore₄, hstore₅, ok_bind]
  have hr2Mem : 0 ∈ msg₅.ptr RespondMsg.r2.off := by
    rw [CObject.ptr_store_self hstore₅]
    simp
  have hrv₅ : msg₅.int RespondMsg.rv.off = 0 :=
    ((((CObject.holds_store_self hstore₁).of_apart hstore₂ (Or.inl (by decide))).of_apart hstore₃
      (Or.inl (by decide))).of_apart hstore₄ (Or.inl (by decide))).of_apart hstore₅
      (Or.inl (by decide)) |>.int_eq
  have hid₅ : 0 ≤ msg₅.int RespondMsg.seckeyid.off := by
    have hupper : msg₂.chars (RespondMsg.seckeyid.off + 2) 2 = [0, 0] := by
      have hbytes : (msg₂.ptr RespondMsg.seckeyid.off).take 4 = intBytes 100 :=
        CObject.holds_store_self hstore₂
      have hdrop := congrArg (List.drop 2) hbytes
      rw [List.drop_take, CObject.ptr, List.drop_drop] at hdrop
      exact hdrop
    refine int_nonneg_of_chars ?_
    rw [CObject.chars_store_of_apart hstore₅ (Or.inr (hfits hr2Len)),
      CObject.chars_store_of_apart hstore₄ (Or.inr (hfits hserverLen)),
      CObject.chars_store_of_apart hstore₃ (Or.inr (hfits hclientLen)), hupper]
  refine ⟨⟨.empty, msg₅⟩, _, hofMsg, msgEncode_eq (by decide) (by decide) ?_ .empty⟩
  intro m hm
  simp only [RespondMsg.members, List.mem_cons, List.not_mem_nil, or_false] at hm
  rcases hm with rfl | rfl | rfl | rfl | rfl
  · exact hrv₅.ge
  · exact zero_mem_ptr_of_le (by decide) hr2Mem
  · exact zero_mem_ptr_of_le (by decide) hr2Mem
  · exact hr2Mem
  · exact hid₅

/-- The server answers a request with the right code, unless its client id runs over the end of
the response. -/
theorem exists_secKeyAgree
    (hserver : 0 ∈ mInfo.chars ServerInfo.serverID.off ServerInfo.serverID.cap)
    (hauth : Authentic h mInfo reqmsg)
    (hclient : (reqmsg.str RequestMsg.clientId.off).length < 92) :
    ∃ agreement, secKeyAgree h memory rand mInfo reqmsg = ok (0, some agreement) ∧
      agreement.outLen = agreement.outData.length := by
  obtain ⟨hclientEnds, hr1Ends, -⟩ := (authentic_iff hserver).mp hauth
  obtain ⟨md1, hcode, hcmp⟩ := hauth
  have hserverLen : (mInfo.str ServerInfo.serverID.off).length < 12 := length_str_lt hserver
  have hr2Fits : RespondMsg.r2.off + (getRandString RespondMsg.r2.cap rand).length ≤ 96 := by
    simp [getRandString, RespondMsg.r2]
  obtain ⟨resMsg₁, hstore₁⟩ := memory.resMsg.exists_store hr2Fits
  have hkey := agreedKey_of_holds_r2 (h := h) hr1Ends (CObject.holds_store_self hstore₁)
  -- the response: the client id may run over the fields behind it, and they are stored later
  have hclientFits : RespondMsg.clientId.off +
      (reqmsg.str RequestMsg.clientId.off ++ [0]).length ≤ 96 := by
    rw [List.length_append, List.length_singleton, RespondMsg.clientId]
    dsimp only
    omega
  have hserverFits : RespondMsg.serverId.off + (mInfo.str ServerInfo.serverID.off ++ [0]).length ≤
      RespondMsg.seckeyid.off := by
    rw [List.length_append, List.length_singleton, RespondMsg.serverId, RespondMsg.seckeyid]
    dsimp only
    omega
  obtain ⟨resMsg₂, hstore₂⟩ := resMsg₁.exists_store hclientFits
  obtain ⟨resMsg₃, hstore₃⟩ := resMsg₂.exists_store
    (show RespondMsg.rv.off + (intBytes 0).length ≤ 96 by decide)
  obtain ⟨resMsg₄, hstore₄⟩ := resMsg₃.exists_store
    (show RespondMsg.seckeyid.off + (intBytes 100).length ≤ 96 by decide)
  obtain ⟨resMsg₅, hstore₅⟩ := resMsg₄.exists_store (hserverFits.trans (by decide))
  have hrespond : respond mInfo reqmsg resMsg₁ = ok resMsg₅ := by
    rw [respond, CObject.strcpy_eq hclientEnds, ← CObject.str, hstore₂, ok_bind, hstore₃, ok_bind,
      hstore₄, ok_bind, CObject.strcpy_eq (zero_mem_ptr hserver), ← CObject.str, hstore₅]
  have hrv : resMsg₅.int RespondMsg.rv.off = 0 :=
    ((CObject.holds_store_self hstore₃).of_apart hstore₄ (Or.inl (by decide))).of_apart hstore₅
      (Or.inl (by decide)) |>.int_eq
  have hseckeyid : resMsg₅.Holds RespondMsg.seckeyid.off (intBytes 100) :=
    (CObject.holds_store_self hstore₄).of_apart hstore₅ (Or.inr hserverFits)
  obtain ⟨c, b, hofMsg, hencode⟩ := exists_encoded hrv hseckeyid memory.respondCodec
  refine ⟨⟨b, b.length, resMsg₅, cString (keyText h (reqmsg.str RequestMsg.r1.off)
    (randText 63 rand) ++ [0])⟩, ?_, rfl⟩
  rw [secKeyAgree, hcode, ok_bind, hcmp, ok_bind, if_neg (not_not.mpr rfl), hstore₁, ok_bind, hkey,
    ok_bind, hrespond, ok_bind, hofMsg, ok_bind, hencode, ok_bind]

/-- The client id of a request that was answered fits into the rest of the response. -/
theorem clientId_lt_of_secKeyAgree
    (hserver : 0 ∈ mInfo.chars ServerInfo.serverID.off ServerInfo.serverID.cap) {ret : ℤ}
    {agreement : Agreement} (hagree : secKeyAgree h memory rand mInfo reqmsg = ok (ret, some agreement)) :
    (reqmsg.str RequestMsg.clientId.off).length < 92 := by
  obtain ⟨resMsg, hrespond⟩ := respond_of_secKeyAgree hagree
  obtain ⟨resMsg₁, -, hstore, -⟩ := clientId_of_respond hserver hrespond
  have hinside := (CObject.store_eq_ok.mp hstore).1
  rw [List.length_append, List.length_singleton] at hinside
  have hoff : RespondMsg.clientId.off = 4 := rfl
  omega

end Answers

/-! ## The worker and the table -/

/-- A request that the worker decodes was made from a message that has come. -/
theorem exists_received {memory : RequestMsg} {socket : TcpSocket} {request : RequestMsg × TcpSocket}
    (hreceive : receiveRequest memory socket = ok request) :
    ∃ received header b, socket.recvMsgServer TcpSocket.timeoutSeconds = ok received ∧
      received.ret = 0 ∧ received.output = some (b ++ [0], (b.length : ℤ)) ∧ header.length = 4 ∧
      carried socket.incoming = header ++ b ++ carried received.socket.incoming := by
  obtain ⟨received, hrecv, hreceive⟩ := bind_eq_ok.mp hreceive
  cases houtput : received.output with
  | none =>
      rw [houtput] at hreceive
      cases hreceive
  | some output =>
      obtain ⟨hret, header, b, hbuf, hlen, hheader, hcarried⟩ := TcpSocket.receive_inv hrecv houtput
      exact ⟨received, header, b, hrecv, hret, by rw [houtput, ← hbuf, ← hlen], hheader, hcarried⟩

/-- The sockets of a `ServerOperation`: its table, the objects by their numbers, and which of
them were closed and deleted. -/
structure Sockets where
  mListSocket : ℕ → Option (Option ℕ)
  objects : ℕ → TcpSocket
  closed : List ℕ
  deleted : List ℕ

/-- `working` of the thread `threadID`, on the table. -/
def workingOn (h : Hashes) (memory : ServerMemory) (rand : ℕ → ℕ) (mInfo : ServerInfo) (threadID : ℕ)
    (sop : Sockets) : Outcome (WorkerEnd × Sockets) :=
  match sop.mListSocket threadID with
  -- `operator[]` inserts a null pointer for an id without an entry
  | none | some none => fault .nullDeref
  | some (some socket) =>
      if socket ∈ sop.deleted then fault .useAfterFree
      else do
        let e ← working h memory rand mInfo (sop.objects socket)
        let sop := { sop with
          objects := Function.update sop.objects socket e.socket, closed := sop.closed ++ [socket] }
        let sop := { sop with mListSocket := Function.update sop.mListSocket threadID none }
        ok (e, { sop with deleted := sop.deleted ++ [socket] })

/-- The worker decodes a message that has come, and leaves the table without its entry and its
socket closed and deleted once. -/
def CleansUp (h : Hashes) (memory : ServerMemory) (rand : ℕ → ℕ) (mInfo : ServerInfo)
    (threadID socket : ℕ) (sop : Sockets) : Prop :=
  ∃ e sop', workingOn h memory rand mInfo threadID sop = ok (e, sop') ∧
    (∃ received header b, (sop.objects socket).recvMsgServer TcpSocket.timeoutSeconds = ok received ∧
      received.ret = 0 ∧ received.output = some (b ++ [0], (b.length : ℤ)) ∧ header.length = 4 ∧
      carried (sop.objects socket).incoming = header ++ b ++ carried received.socket.incoming) ∧
    e.socket.connected = false ∧ sop'.closed = sop.closed ++ [socket] ∧
    sop'.deleted = sop.deleted ++ [socket] ∧ sop'.mListSocket threadID = none ∧
    ∀ other ≠ threadID, sop'.mListSocket other = sop.mListSocket other

/-- The worker cleans up exactly if `recvMsg` returns zero, and the message is a request for a
key with the right code and a client id that does not run over the end of the response. -/
theorem cleansUp_iff (h : Hashes) (memory : ServerMemory) (rand : ℕ → ℕ) {mInfo : ServerInfo}
    {threadID socket : ℕ} {sop : Sockets}
    (hserver : 0 ∈ mInfo.chars ServerInfo.serverID.off ServerInfo.serverID.cap)
    (hentry : sop.mListSocket threadID = some (some socket)) (hlive : socket ∉ sop.deleted) :
    CleansUp h memory rand mInfo threadID socket sop ↔
      ∃ request, receiveRequest memory.requestCodec (sop.objects socket) = ok request ∧
        request.1.int RequestMsg.cmdType.off = RequestCodec.newOrUpdate ∧
        Authentic h mInfo request.1 ∧ (request.1.str RequestMsg.clientId.off).length < 92 := by
  -- the worker finds its socket, and the rest depends on `working`
  have hon : workingOn h memory rand mInfo threadID sop = (do
      let e ← working h memory rand mInfo (sop.objects socket)
      ok (e, ⟨Function.update sop.mListSocket threadID none,
        Function.update sop.objects socket e.socket, sop.closed ++ [socket],
        sop.deleted ++ [socket]⟩)) := by
    rw [workingOn, hentry]
    dsimp only
    rw [if_neg hlive]
  constructor
  · rintro ⟨e, sop', hworking, -⟩
    rw [hon] at hworking
    obtain ⟨e', hend, -⟩ := bind_eq_ok.mp hworking
    obtain ⟨request, agreement, hreceive, hhandle, -⟩ := handle_of_working hend
    obtain ⟨hcmd, hagree⟩ := secKeyAgree_of_handle hhandle
    exact ⟨request, hreceive, hcmd, authentic_of_secKeyAgree hagree,
      clientId_lt_of_secKeyAgree hserver hagree⟩
  · rintro ⟨request, hreceive, hcmd, hauth, hclient⟩
    obtain ⟨agreement, hagree, hlen⟩ := @exists_secKeyAgree h mInfo request.1 memory rand hserver hauth
      hclient
    have hhandle : handle h memory rand mInfo request.1 = ok (0, some agreement) := by
      rw [handle, if_pos hcmd, hagree]
    obtain ⟨s, hend, hclosed⟩ := exists_working hreceive hhandle hlen
    rw [hend, ok_bind] at hon
    refine ⟨_, _, hon, exists_received hreceive, hclosed, rfl, rfl, ?_, ?_⟩
    · exact Function.update_self ..
    · intro other hother
      exact Function.update_of_ne hother ..

/-- The table with the worker `7`, whose socket has the number 0. -/
def oneSocket (socket : TcpSocket) : Sockets :=
  ⟨fun threadID => if threadID = 7 then some (some 0) else none, fun _ => socket, [], []⟩

theorem cleansUp_iff_newOrUpdate : CleansUp zeroHashes ⟨.zero 160, .zero 96, .zero 96⟩ (fun i => i)
    serverTwo 7 0 (oneSocket (commandSocket 1)) := by
  have hserver : 0 ∈ serverTwo.chars ServerInfo.serverID.off ServerInfo.serverID.cap := by
    decide +kernel
  have hauth : Authentic zeroHashes serverTwo (command 1) :=
    (authentic_iff hserver).mpr ⟨by decide +kernel, by decide +kernel, by decide +kernel⟩
  exact (cleansUp_iff zeroHashes ⟨.zero 160, .zero 96, .zero 96⟩ (fun i => i) hserver rfl
    List.not_mem_nil).mpr ⟨_, receiveRequest_newOrUpdate, by decide +kernel, hauth, by decide +kernel⟩

/-- A peer that connects and closes. -/
def closedSocket : TcpSocket :=
  ⟨[], [], [.closed], [], [], true⟩

/-- `recvMsg` returns `PeerCloseError`, and the worker decodes what was never received. -/
theorem not_cleansUp_closed : ¬CleansUp zeroHashes ⟨.zero 160, .zero 96, .zero 96⟩ (fun i => i)
    serverTwo 7 0 (oneSocket closedSocket) := by
  rintro ⟨e, sop', hworking, -⟩
  have hentry : (oneSocket closedSocket).mListSocket 7 = some (some 0) := rfl
  have hlive : 0 ∉ (oneSocket closedSocket).deleted := List.not_mem_nil
  rw [workingOn, hentry] at hworking
  dsimp only at hworking
  rw [if_neg hlive] at hworking
  obtain ⟨e', hend, -⟩ := bind_eq_ok.mp hworking
  obtain ⟨request, agreement, hreceive, -⟩ := handle_of_working hend
  have hnothing : receiveRequest (.zero 160) closedSocket = fault .uninitialised := by
    decide +kernel
  have hfault := hnothing.symm.trans hreceive
  cases hfault

end ServerOperation

end SafeTransmission
