import SafeTransmission.Agreement.Building

/-!
# What the worker answers

The worker declares `outData` and `outLen` without a value.  Of the commands only
`NewOrUpdate` reaches `secKeyAgree`, which assigns them, and only behind the test of the
authentication code.  `sendMsg` is called in any case.

A request whose code is the one that the server computes is `Authentic`; the server
then builds a response (`secKeyAgree_of_authentic`).  With every other request nothing
is assigned, and the worker has no reply to send (`replies_iff`).

## Strategy

* `working_eq_parts` cuts `working` into receiving, handling and replying.
* `authentic_iff` reads the test of the code as a comparison of strings, and
  `secKeyAgree_of_authentic` goes through the stores of the response.
* The other direction goes back from an agreement to its request (`secKeyAgree_of_handle`,
  `authentic_of_secKeyAgree`, `clientId_ends_of_secKeyAgree`).
-/

namespace SafeTransmission

open Outcome Codec

namespace ServerOperation

/-! ## The test of the authentication code -/

/-- The request carries the authentication code that the server computes for it. -/
def Authentic (h : Hashes) (mInfo : ServerInfo) (reqmsg : RequestMsg) : Prop :=
  ∃ md1, authenticationCode h (reqmsg.ptr RequestMsg.clientId.off)
      (mInfo.ptr ServerInfo.serverID.off) (reqmsg.ptr RequestMsg.r1.off) = ok md1 ∧
    strcmp (reqmsg.ptr RequestMsg.authCode.off) md1 = ok 0

section Tests

variable {h : Hashes} {mInfo : ServerInfo} {reqmsg : RequestMsg}

/-- A string that ends at some place behind `off` ends behind every place before. -/
theorem zero_mem_ptr_of_le {n : ℕ} {o : CObject n} {off k : ℕ} (hle : off ≤ k) (h : 0 ∈ o.ptr k) :
    0 ∈ o.ptr off := by
  have hdrop : o.ptr k = (o.ptr off).drop (k - off) := by
    rw [CObject.ptr, CObject.ptr, List.drop_drop, Nat.add_sub_cancel' hle]
  rw [hdrop] at h
  exact List.mem_of_mem_drop h

/-- The test compares strings, provided that those that the code is made from end. -/
theorem authentic_iff (hserver : 0 ∈ mInfo.chars ServerInfo.serverID.off ServerInfo.serverID.cap) :
    Authentic h mInfo reqmsg ↔
      0 ∈ reqmsg.ptr RequestMsg.clientId.off ∧ 0 ∈ reqmsg.ptr RequestMsg.r1.off ∧
        reqmsg.str RequestMsg.authCode.off = codeText h (reqmsg.str RequestMsg.clientId.off)
          (mInfo.str ServerInfo.serverID.off) (reqmsg.str RequestMsg.r1.off) := by
  by_cases hclient : 0 ∈ reqmsg.ptr RequestMsg.clientId.off
  · by_cases hr1 : 0 ∈ reqmsg.ptr RequestMsg.r1.off
    · have hserverLen : (mInfo.str ServerInfo.serverID.off).length < 12 := length_str_lt hserver
      have hclientLen : (reqmsg.str RequestMsg.clientId.off).length < 156 := by
        have hlt := length_cString_lt hclient
        rwa [CObject.length_ptr] at hlt
      have hcode := authenticationCode_eq (h := h) hclient (zero_mem_ptr hserver) hr1
        (by rw [← CObject.str, ← CObject.str]; omega)
      have hauth : 0 ∈ reqmsg.ptr RequestMsg.authCode.off := zero_mem_ptr_of_le (by decide) hr1
      obtain ⟨v, hcmp, hzero⟩ := strcmp_eq hauth (q := codeText h (reqmsg.str RequestMsg.clientId.off)
        (mInfo.str ServerInfo.serverID.off) (reqmsg.str RequestMsg.r1.off) ++ [0]) (by simp)
      rw [cString_terminated (zero_notMem_codeText h _ _ _), ← CObject.str] at hzero
      simp only [Authentic, hcode, ok.injEq, exists_eq_left', ← hzero, hclient, hr1, true_and]
      rw [← CObject.str, ← CObject.str, ← CObject.str, hcmp, ok.injEq]
    · refine iff_of_false ?_ fun hstrings => hr1 hstrings.2.1
      rintro ⟨md1, hcode, -⟩
      obtain ⟨clientId, -, hcode⟩ := bind_eq_ok.mp hcode
      obtain ⟨serverId, -, hcode⟩ := bind_eq_ok.mp hcode
      obtain ⟨seckey, -, hcode⟩ := bind_eq_ok.mp hcode
      rw [stringAt, if_neg hr1, fault_bind] at hcode
      cases hcode
  · refine iff_of_false ?_ fun hstrings => hclient hstrings.1
    rintro ⟨md1, hcode, -⟩
    rw [authenticationCode, stringAt, if_neg hclient, fault_bind] at hcode
    cases hcode

/-- Without the code that the server computes, or without strings to compute it from,
the server makes no agreement. -/
theorem authentic_of_secKeyAgree {memory : ServerMemory} {rand : ℕ → ℕ} {ret : ℤ}
    {agreement : Agreement} (hagree : secKeyAgree h memory rand mInfo reqmsg = ok (ret, some agreement)) :
    Authentic h mInfo reqmsg := by
  rw [secKeyAgree] at hagree
  obtain ⟨md1, hcode, hagree⟩ := bind_eq_ok.mp hagree
  obtain ⟨differs, hcmp, hagree⟩ := bind_eq_ok.mp hagree
  by_cases hzero : differs = 0
  · exact ⟨md1, hcode, hzero ▸ hcmp⟩
  · rw [if_pos hzero] at hagree
    cases hagree

end Tests

/-! ## The response -/

theorem length_lt_of_store {n : ℕ} {o o' : CObject n} {off cap : ℕ} {text : Bytes}
    (hstore : o.store off (text ++ [0]) = ok o') (htext : 0 ∉ text) (hends : 0 ∈ o'.chars off cap) :
    text.length < cap := by
  by_contra hle
  have htake : o'.chars off cap = text.take cap := by
    rw [CObject.chars, CObject.ptr_store_self hstore, List.append_assoc,
      List.take_append_of_le_length (Nat.le_of_not_lt hle)]
  rw [htake] at hends
  exact htext (List.mem_of_mem_take hends)

/-- What the worker makes of a request with the id of the server. -/
structure Answers (h : Hashes) (client server random random' : Bytes) (agreement : Agreement) :
    Prop where
  outLen : agreement.outLen = agreement.outData.length
  conveys : Conveys RespondMsg.members agreement.outData agreement.resMsg
  response : IsResponse client server random' agreement.resMsg
  seckey : agreement.seckey = keyText h random random'

section Responses

variable {h : Hashes} {mInfo : ServerInfo} {reqmsg : RequestMsg}

theorem agreedKey_of_holds_r2 {resMsg : RespondMsg} {rand : ℕ → ℕ}
    (hr1 : 0 ∈ reqmsg.ptr RequestMsg.r1.off)
    (hr2 : resMsg.Holds RespondMsg.r2.off (randText 63 rand ++ [0])) :
    agreedKey h (reqmsg.ptr RequestMsg.r1.off) (resMsg.ptr RespondMsg.r2.off) =
      ok (keyText h (reqmsg.str RequestMsg.r1.off) (randText 63 rand) ++ [0]) := by
  have hr1Len : (cString (reqmsg.ptr RequestMsg.r1.off)).length < 67 := by
    have hlt := length_cString_lt hr1
    rwa [CObject.length_ptr] at hlt
  obtain ⟨hr2Mem, hr2Str⟩ := hr2.string (m := RespondMsg.r2) (zero_notMem_randText 63 rand)
    (by simp [RespondMsg.r2])
  have hr2Str' : cString (resMsg.ptr RespondMsg.r2.off) = randText 63 rand := hr2Str
  have hkey := agreedKey_eq (h := h) hr1 (zero_mem_ptr hr2Mem)
    (by rw [hr2Str', length_randText]; omega)
  rwa [hr2Str', ← CObject.str] at hkey

/-- The server answers a request with the right code, if the client id fits into the response. -/
theorem secKeyAgree_of_authentic
    (hserver : 0 ∈ mInfo.chars ServerInfo.serverID.off ServerInfo.serverID.cap)
    (hauth : Authentic h mInfo reqmsg)
    (hclient : 0 ∈ reqmsg.chars RequestMsg.clientId.off RequestMsg.clientId.cap)
    (memory : ServerMemory) (rand : ℕ → ℕ) :
    ∃ agreement, secKeyAgree h memory rand mInfo reqmsg = ok (0, some agreement) ∧
      Answers h (reqmsg.str RequestMsg.clientId.off) (mInfo.str ServerInfo.serverID.off)
        (reqmsg.str RequestMsg.r1.off) (randText 63 rand) agreement := by
  obtain ⟨-, hr1Ends, -⟩ := (authentic_iff hserver).mp hauth
  obtain ⟨md1, hcode, hcmp⟩ := hauth
  -- the response, and the key made from both random strings
  obtain ⟨resMsg₁, resMsg, hr2, hr2Holds, hrespond, hresponse⟩ :=
    respond_eq hserver hclient rand memory.resMsg
  have hkey := agreedKey_of_holds_r2 (h := h) hr1Ends hr2Holds
  obtain ⟨c, b, hofMsg, hencode, hconveys⟩ :=
    RespondCodec.exists_conveys memory.respondCodec hresponse.encodable
  refine ⟨⟨b, b.length, resMsg, keyText h (reqmsg.str RequestMsg.r1.off) (randText 63 rand)⟩, ?_,
    ⟨rfl, hconveys, hresponse, rfl⟩⟩
  rw [secKeyAgree, hcode, ok_bind, hcmp, ok_bind, if_neg (not_not.mpr rfl), hr2, ok_bind, hkey, ok_bind,
    hrespond, ok_bind, hofMsg, ok_bind, hencode, ok_bind]
  dsimp only
  rw [cString_terminated (zero_notMem_keyText h _ _)]

theorem respond_of_secKeyAgree {memory : ServerMemory} {rand : ℕ → ℕ} {ret : ℤ} {agreement : Agreement}
    (hagree : secKeyAgree h memory rand mInfo reqmsg = ok (ret, some agreement)) :
    ∃ resMsg, respond mInfo reqmsg resMsg = ok agreement.resMsg := by
  rw [secKeyAgree] at hagree
  obtain ⟨md1, -, hagree⟩ := bind_eq_ok.mp hagree
  obtain ⟨differs, -, hagree⟩ := bind_eq_ok.mp hagree
  by_cases hzero : differs = 0
  · rw [if_neg (not_not.mpr hzero)] at hagree
    obtain ⟨resMsg₁, -, hagree⟩ := bind_eq_ok.mp hagree
    obtain ⟨tmpBuf1, -, hagree⟩ := bind_eq_ok.mp hagree
    obtain ⟨resMsg, hrespond, hagree⟩ := bind_eq_ok.mp hagree
    obtain ⟨codec, -, hagree⟩ := bind_eq_ok.mp hagree
    obtain ⟨⟨outData, outLen⟩, -, hagree⟩ := bind_eq_ok.mp hagree
    cases hagree
    exact ⟨resMsg₁, hrespond⟩
  · rw [if_pos hzero] at hagree
    cases hagree

/-- What `respond` stores behind the client id does not reach into it. -/
theorem clientId_of_respond
    (hserver : 0 ∈ mInfo.chars ServerInfo.serverID.off ServerInfo.serverID.cap) {resMsg resMsg' : RespondMsg}
    (hrespond : respond mInfo reqmsg resMsg = ok resMsg') :
    ∃ resMsg₁, 0 ∈ reqmsg.ptr RequestMsg.clientId.off ∧
      resMsg.store RespondMsg.clientId.off (reqmsg.str RequestMsg.clientId.off ++ [0]) = ok resMsg₁ ∧
      resMsg'.chars RespondMsg.clientId.off RespondMsg.clientId.cap =
        resMsg₁.chars RespondMsg.clientId.off RespondMsg.clientId.cap := by
  have hserverLen : (mInfo.str ServerInfo.serverID.off).length < 12 := length_str_lt hserver
  rw [respond, CObject.strcpy] at hrespond
  obtain ⟨resMsg₁, hclientId, hrespond⟩ := bind_eq_ok.mp hrespond
  obtain ⟨resMsg₂, hrv, hrespond⟩ := bind_eq_ok.mp hrespond
  obtain ⟨resMsg₃, hseckeyid, hserverId⟩ := bind_eq_ok.mp hrespond
  obtain ⟨text, htext, hclientId⟩ := bind_eq_ok.mp hclientId
  rw [CObject.strcpy_eq (zero_mem_ptr hserver), ← CObject.str] at hserverId
  have hends : 0 ∈ reqmsg.ptr RequestMsg.clientId.off := by
    by_contra hnone
    rw [cStringZ, if_neg hnone] at htext
    cases htext
  rw [cStringZ, if_pos hends] at htext
  obtain rfl := ok.inj htext
  refine ⟨resMsg₁, hends, hclientId, ?_⟩
  rw [CObject.chars_store_of_apart hserverId (Or.inl (by decide)),
    CObject.chars_store_of_apart hseckeyid (Or.inl (by decide)),
    CObject.chars_store_of_apart hrv (Or.inr (by decide))]

/-- The client id of a response ends in its array only if that of the request does. -/
theorem clientId_ends_of_secKeyAgree
    (hserver : 0 ∈ mInfo.chars ServerInfo.serverID.off ServerInfo.serverID.cap)
    {memory : ServerMemory} {rand : ℕ → ℕ} {ret : ℤ} {agreement : Agreement}
    (hagree : secKeyAgree h memory rand mInfo reqmsg = ok (ret, some agreement))
    (hterm : Terminated RespondMsg.members agreement.resMsg) :
    0 ∈ reqmsg.chars RequestMsg.clientId.off RequestMsg.clientId.cap := by
  obtain ⟨resMsg, hrespond⟩ := respond_of_secKeyAgree hagree
  obtain ⟨resMsg₁, hends, hstore, hsame⟩ := clientId_of_respond hserver hrespond
  have hmem := hterm RespondMsg.clientId (by decide) rfl
  rw [hsame] at hmem
  have hlen := length_lt_of_store hstore (zero_notMem_str reqmsg _) hmem
  exact zero_mem_chars_of_lt hends hlen

end Responses

/-! ## The parts of `working` -/

/-- What `working` does in front of the `switch`: the request, and the socket behind it. -/
def receiveRequest (memory : RequestMsg) (socket : TcpSocket) : Outcome (RequestMsg × TcpSocket) := do
  let received ← socket.recvMsgServer TcpSocket.timeoutSeconds
  match received.output with
  | none => fault .uninitialised
  | some (recvBuf, recvLen) => do
      let decoded ← RequestCodec.msgDecode .seckey (RequestCodec.new .seckey memory) recvBuf recvLen
      match decoded.result with
      | none => fault .nullDeref
      | some reqmsg => ok (reqmsg, received.socket)

/-- The `switch`: the result of `secKeyAgree`, or nothing. -/
def handle (h : Hashes) (memory : ServerMemory) (rand : ℕ → ℕ) (mInfo : ServerInfo)
    (reqmsg : RequestMsg) : Outcome (ℤ × Option Agreement) :=
  if reqmsg.int RequestMsg.cmdType.off = RequestCodec.newOrUpdate then
    secKeyAgree h memory rand mInfo reqmsg
  else ok (0, none)

/-- What `working` does behind the `switch`, as far as the socket is concerned. -/
def reply (socket : TcpSocket) : ℤ × Option Agreement → Outcome WorkerEnd
  | (_, none) => fault .uninitialised
  | (ret, some agreement) => do
      let (_, socket) ← socket.sendMsg agreement.outData agreement.outLen TcpSocket.timeoutSeconds
      ok ⟨(ret, some agreement), socket.disConnect⟩

section Worker

variable {h : Hashes} {memory : ServerMemory} {rand : ℕ → ℕ} {mInfo : ServerInfo}
  {socket s : TcpSocket} {reqmsg : RequestMsg}

theorem working_eq_parts (h : Hashes) (memory : ServerMemory) (rand : ℕ → ℕ) (mInfo : ServerInfo)
    (socket : TcpSocket) : working h memory rand mInfo socket = (do
      let request ← receiveRequest memory.requestCodec socket
      let result ← handle h memory rand mInfo request.1
      reply request.2 result) := by
  rw [working, receiveRequest]
  cases socket.recvMsgServer TcpSocket.timeoutSeconds with
  | err code => simp only [err_bind]
  | fault kind => simp only [fault_bind]
  | ok received =>
      rw [ok_bind, ok_bind]
      cases received.output with
      | none => simp only [fault_bind]
      | some output =>
          dsimp only
          cases RequestCodec.msgDecode .seckey (RequestCodec.new .seckey memory.requestCodec)
            output.1 output.2 with
          | err code => simp only [err_bind]
          | fault kind => simp only [fault_bind]
          | ok decoded =>
              rw [ok_bind, ok_bind]
              cases decoded.result with
              | none => simp only [fault_bind]
              | some reqmsg =>
                  dsimp only
                  rw [ok_bind, handle]
                  split
                  · refine congrArg _ (funext fun result => ?_)
                    obtain ⟨ret, agreement⟩ := result
                    cases agreement with
                    | none => rfl
                    | some agreement => rfl
                  · rfl

/-- Only the command `NewOrUpdate` leads to an agreement. -/
theorem secKeyAgree_of_handle {ret : ℤ} {agreement : Agreement}
    (hhandle : handle h memory rand mInfo reqmsg = ok (ret, some agreement)) :
    reqmsg.int RequestMsg.cmdType.off = RequestCodec.newOrUpdate ∧
      secKeyAgree h memory rand mInfo reqmsg = ok (ret, some agreement) := by
  rw [handle] at hhandle
  split at hhandle
  · rename_i hcmd
    exact ⟨hcmd, hhandle⟩
  · cases hhandle

theorem handle_of_working {e : WorkerEnd} (hworking : working h memory rand mInfo socket = ok e) :
    ∃ request agreement, receiveRequest memory.requestCodec socket = ok request ∧
      handle h memory rand mInfo request.1 = ok (e.agreement.1, some agreement) ∧
      e.agreement.2 = some agreement := by
  rw [working_eq_parts] at hworking
  obtain ⟨request, hreceive, hworking⟩ := bind_eq_ok.mp hworking
  obtain ⟨⟨ret, result⟩, hhandle, hworking⟩ := bind_eq_ok.mp hworking
  cases result with
  | none => cases hworking
  | some agreement =>
      obtain ⟨sent, -, hworking⟩ := bind_eq_ok.mp hworking
      cases hworking
      exact ⟨request, agreement, hreceive, hhandle, rfl⟩

theorem exists_working (hreceive : receiveRequest memory.requestCodec socket = ok (reqmsg, s)) {ret : ℤ}
    {agreement : Agreement} (hhandle : handle h memory rand mInfo reqmsg = ok (ret, some agreement))
    (hlen : agreement.outLen = agreement.outData.length) :
    ∃ s', working h memory rand mInfo socket = ok ⟨(ret, some agreement), s'⟩ ∧
      s'.connected = false := by
  obtain ⟨sent, hsend⟩ := s.exists_sendMsg agreement.outData TcpSocket.timeoutSeconds
  rw [← hlen] at hsend
  refine ⟨sent.2.disConnect, ?_, rfl⟩
  rw [working_eq_parts, hreceive, ok_bind, hhandle, ok_bind, reply, hsend, ok_bind]

end Worker

/-! ## Replies -/

/-- The values of a response. -/
structure ResponseFields where
  rv : ℤ
  clientId : Bytes
  serverId : Bytes
  r2 : Bytes
  seckeyid : ℤ

/-- The response has the values, and its strings end. -/
structure HasFields (fields : ResponseFields) (resMsg : RespondMsg) : Prop where
  terminated : Terminated RespondMsg.members resMsg
  rv : resMsg.int RespondMsg.rv.off = fields.rv
  clientId : resMsg.str RespondMsg.clientId.off = fields.clientId
  serverId : resMsg.str RespondMsg.serverId.off = fields.serverId
  r2 : resMsg.str RespondMsg.r2.off = fields.r2
  seckeyid : resMsg.int RespondMsg.seckeyid.off = fields.seckeyid

/-- The worker passes the encoding of a response to `sendMsg` that has all its fields, the same
whatever the memory of the response held, and `rv` is zero exactly if the request asks for a key
and its code is right. -/
def Replies (h : Hashes) (memory : RequestMsg) (rand : ℕ → ℕ) (mInfo : ServerInfo)
    (socket : TcpSocket) (reqmsg : RequestMsg) : Prop :=
  ∃ fields : ResponseFields,
    (fields.rv = 0 ↔ reqmsg.int RequestMsg.cmdType.off = RequestCodec.newOrUpdate ∧
      Authentic h mInfo reqmsg) ∧
    ∀ resMsg respondCodec, ∃ ret agreement s,
      working h ⟨memory, resMsg, respondCodec⟩ rand mInfo socket = ok ⟨(ret, some agreement), s⟩ ∧
      agreement.outLen = agreement.outData.length ∧
      Conveys RespondMsg.members agreement.outData agreement.resMsg ∧
      HasFields fields agreement.resMsg

/-- The worker replies to a request exactly if it asks for a key, its code is right and its client
id ends in its array. -/
theorem replies_iff {h : Hashes} {memory : RequestMsg} {rand : ℕ → ℕ} {mInfo : ServerInfo}
    {socket s' : TcpSocket} {reqmsg : RequestMsg}
    (hserver : 0 ∈ mInfo.chars ServerInfo.serverID.off ServerInfo.serverID.cap)
    (hreceive : receiveRequest memory socket = ok (reqmsg, s')) :
    Replies h memory rand mInfo socket reqmsg ↔
      reqmsg.int RequestMsg.cmdType.off = RequestCodec.newOrUpdate ∧ Authentic h mInfo reqmsg ∧
        0 ∈ reqmsg.chars RequestMsg.clientId.off RequestMsg.clientId.cap := by
  constructor
  · rintro ⟨fields, -, hreplies⟩
    obtain ⟨ret, agreement, s, hworking, -, -, hfields⟩ := hreplies (.zero 96) (.zero 96)
    obtain ⟨request, agreement', hreceive', hhandle, hsome⟩ := handle_of_working hworking
    obtain rfl : request = (reqmsg, s') := ok.inj (hreceive'.symm.trans hreceive)
    obtain rfl : agreement = agreement' := Option.some.inj hsome
    obtain ⟨hcmd, hagree⟩ := secKeyAgree_of_handle hhandle
    exact ⟨hcmd, authentic_of_secKeyAgree hagree,
      clientId_ends_of_secKeyAgree hserver hagree hfields.terminated⟩
  · rintro ⟨hcmd, hauth, hclient⟩
    refine ⟨⟨0, reqmsg.str RequestMsg.clientId.off, mInfo.str ServerInfo.serverID.off,
      randText 63 rand, 100⟩, iff_of_true rfl ⟨hcmd, hauth⟩, ?_⟩
    intro resMsg respondCodec
    obtain ⟨agreement, hagree, hanswers⟩ :=
      secKeyAgree_of_authentic hserver hauth hclient ⟨memory, resMsg, respondCodec⟩ rand
    have hhandle : handle h ⟨memory, resMsg, respondCodec⟩ rand mInfo reqmsg =
        ok (0, some agreement) := by
      rw [handle, if_pos hcmd, hagree]
    obtain ⟨s, hworking, -⟩ := @exists_working h ⟨memory, resMsg, respondCodec⟩ rand mInfo socket s'
      reqmsg hreceive 0 agreement hhandle hanswers.outLen
    have hres := hanswers.response
    exact ⟨0, agreement, s, hworking, hanswers.outLen, hanswers.conveys,
      ⟨hres.terminated, hres.rv, hres.clientId, hres.serverId, hres.r2, hres.seckeyid⟩⟩

/-- Hash functions that give zeros. -/
def zeroHashes : Hashes :=
  ⟨fun _ _ => .replicate 16 0, fun _ => .replicate 20 0⟩

/-- The server `2`. -/
def serverTwo : ServerInfo :=
  ⟨[0x32] ++ List.replicate 95 0, by simp⟩

/-- A command of the client `1` for the server `2`, with 32 digits `0` as its code. -/
def command (cmdType : ℕ) : RequestMsg :=
  ⟨intBytes cmdType ++ (0x31 :: List.replicate 11 0) ++
    (List.replicate 32 0x30 ++ List.replicate 33 0) ++ (0x32 :: List.replicate 11 0) ++
    0x72 :: List.replicate 66 0, by simp⟩

/-- The command arrives byte by byte. -/
def commandSocket (cmdType : ℕ) : TcpSocket :=
  ⟨[], [], (TcpSocket.frame (sequenceOctets (messageElements cmdType
    [[0x31, 0], List.replicate 32 0x30 ++ [0], [0x32, 0], [0x72, 0]]))).map (.bytes · []), [], [], true⟩

theorem receiveRequest_newOrUpdate : receiveRequest (.zero 160) (commandSocket 1) =
    ok (command 1, { commandSocket 1 with incoming := [] }) := by decide +kernel

theorem receiveRequest_check : receiveRequest (.zero 160) (commandSocket 2) =
    ok (command 2, { commandSocket 2 with incoming := [] }) := by decide +kernel

theorem replies_iff_newOrUpdate :
    Replies zeroHashes (.zero 160) (fun i => i) serverTwo (commandSocket 1) (command 1) := by
  have hserver : 0 ∈ serverTwo.chars ServerInfo.serverID.off ServerInfo.serverID.cap := by
    decide +kernel
  have hauth : Authentic zeroHashes serverTwo (command 1) :=
    (authentic_iff hserver).mpr ⟨by decide +kernel, by decide +kernel, by decide +kernel⟩
  exact (replies_iff hserver receiveRequest_newOrUpdate).mpr
    ⟨by decide +kernel, hauth, by decide +kernel⟩

/-- A command `Check` gets no reply: nothing has assigned `outData` and `outLen`. -/
theorem not_replies_check :
    ¬ Replies zeroHashes (.zero 160) (fun i => i) serverTwo (commandSocket 2) (command 2) := by
  rintro ⟨fields, -, hreplies⟩
  obtain ⟨ret, agreement, s, hworking, -⟩ := hreplies (.zero 96) (.zero 96)
  obtain ⟨request, agreement', hreceive, hhandle, -⟩ := handle_of_working hworking
  obtain rfl := ok.inj (hreceive.symm.trans receiveRequest_check)
  have hcmd : ¬(command 2).int RequestMsg.cmdType.off = RequestCodec.newOrUpdate := by decide +kernel
  rw [handle, if_neg hcmd] at hhandle
  cases hhandle

end ServerOperation

end SafeTransmission
