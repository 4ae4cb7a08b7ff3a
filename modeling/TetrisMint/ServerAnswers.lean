import TetrisMint.BoardTraffic
import TetrisMint.NameArrays
import TetrisMint.RequestMatching

/-! What the server answers to each message of a client that one recv returns alone. -/
namespace TetrisMint

open CStrings FallibleRun

/-- The sockets of the members of a party, in order. The announcement leaves out descriptor 0. -/
def announced (party : ℕ) (s : Server) : List ℤ :=
  (((ttetrisPartyGetPlayers party s).filterMap (s.players[·]?)).filter fun p => p.fd ≠ 0).map Player.fd

/-- A body that the decoder turns into these names, if it finds a zero for each NUL. -/
def Decodes (body : Bytes) (names : List Bytes) : Prop :=
  ∀ heap, NulsZero heap names →
    ∃ arr, stringArrayDeserialize heap ⟨body.length, body⟩ = .ok arr ∧ HoldsNames arr names

section Bodies

theorem messageNbytes_body {bytes bytes' : Bytes} {id : ℤ} {messageType : UInt8}
    (h : messageNbytes bytes id messageType = messageNbytes bytes' id messageType) :
    bytes = bytes' := by
  have hfront (b : Bytes) : (headerFields (id % 2 ^ 16).toNat b.length messageType ++
      headerPadding).length = messageHeaderSize := by
    rw [List.length_append, length_headerFields]
    rfl
  have hbody := congrArg (List.drop messageHeaderSize) h
  rwa [messageNbytes, messageNbytes, List.drop_left' (hfront _), List.drop_left' (hfront _)] at hbody

variable {names : List Bytes} (hnames : ∀ name ∈ names, IsName name)

include hnames in
theorem decodes_nameBlob (hsize : wireSize names < 2 ^ 30) (fresh : Fresh) :
    Decodes (nameBlob fresh names).bytes names :=
  fun _ hheap => deserialize_names hnames hsize hheap _ _

include hnames in
/-- The message of an array of names. -/
theorem sendStringArray_names {arr : StringArray} (h : HoldsNames arr names) {fresh : Fresh}
    {requestId : ℤ} {messageType : UInt8} {payload : Bytes}
    (hsent : sendStringArray fresh arr requestId messageType = .ok payload) :
    wireSize names < 2 ^ 30 ∧ payload = messageNbytes (nameBlob fresh names).bytes requestId messageType := by
  obtain ⟨blob, hblob, hsent⟩ := bind_eq_ok.mp hsent
  obtain ⟨hsize, rfl⟩ := (serialize_names fresh hnames h).mp hblob
  refine ⟨hsize, ?_⟩
  have hfull : (nameBlob fresh names).length = (nameBlob fresh names).bytes.length :=
    (length_nameBlob fresh names).symm
  rw [messageBlob, hfull, bytesAt, if_pos le_rfl, List.take_length, access_some, ok_bind,
    Except.ok.injEq] at hsent
  exact hsent.symm

end Bodies

section Replies

variable {env : ServerEnv} {mem : WireMemory} {fd : ℤ} {header : MessageHeader} {n : ℕ}
  {rs : ReadState} {answers : List (ℤ × Bytes)}

theorem replies_register (htype : header.messageType = msgTypeRegister)
    (h : Traffic.replies mem fd header n rs = .ok answers) :
    answers = [(fd, Message.encode ⟨msgTypeRegisterSuccess, header.requestId, []⟩)] := by
  have hother : header.messageType ≠ msgTypeStartGame := by
    rw [htype]
    decide
  rw [Traffic.replies, if_neg hother, if_pos htype] at h
  exact (Except.ok.inj h).symm

theorem replies_list (hnames : ∀ p ∈ rs.server.players, IsName p.name)
    (htype : header.messageType = msgTypeList)
    (h : Traffic.replies mem fd header n rs = .ok answers) :
    ∃ body, answers = [(fd, Message.encode ⟨msgTypeListResponse, header.requestId, body⟩)] ∧
      (NulsZero (mem.items n) (playerNames true rs.server) →
        body = (nameBlob (mem.blob n) (playerNames true rs.server)).bytes ∧
          Decodes body (playerNames true rs.server)) := by
  have hother : header.messageType ≠ msgTypeStartGame ∧ header.messageType ≠ msgTypeRegister := by
    rw [htype]
    decide
  rw [Traffic.replies, if_neg hother.1, if_neg hother.2, if_pos htype] at h
  simp only [sendOnlineUsers, bind_eq_ok] at h
  obtain ⟨payload, ⟨arr, harr, hpayload⟩, h⟩ := h
  obtain ⟨body, hbody⟩ := Traffic.sendStringArray_message hpayload
  refine ⟨body, by rw [← Except.ok.inj h, hbody]; rfl, fun hzero => ?_⟩
  -- the array holds the names, because set_item has found zeros
  have hlisted := listed_names hnames true
  obtain ⟨hmax, hstrings⟩ := (playerNamesArray_eq_ok hnames true).2 arr harr
  have hholds : HoldsNames arr (playerNames true rs.server) := by
    refine ⟨hmax, ?_, ?_⟩
    · simp only [playerNamesArray, bind_eq_ok] at harr
      obtain ⟨⟨arr₀, count⟩, hset, harr⟩ := harr
      have hsized := congrArg List.length hstrings
      rw [List.length_map, length_storedItems, arr.sized, ← Except.ok.inj harr] at hsized
      change (count : ℤ).toNat = _ at hsized
      rw [← Except.ok.inj harr]
      change (count : ℤ) = _
      rw [← hsized, Int.toNat_natCast]
    · rw [hstrings, storedItems_of_nulsZero hzero, List.map_map]
      rfl
  obtain ⟨hsize, hnamed⟩ := sendStringArray_names hlisted hholds hpayload
  obtain rfl := messageNbytes_body (hbody.symm.trans hnamed)
  exact ⟨rfl, decodes_nameBlob hlisted hsize _⟩

/-- The members of a party all get the same announcement. -/
theorem replies_start (hinv : ServerInv rs.server) (hnames : ∀ p ∈ rs.server.players, IsName p.name)
    (htype : header.messageType = msgTypeStartGame)
    (h : Traffic.replies mem fd header n rs = .ok answers) :
    ∃ i p, rs.player = some i ∧ rs.server.players[i]? = some p ∧
      (p.party = none → answers = []) ∧
      ∀ party, p.party = some party → ∃ body, answers = (announced party rs.server).map
          (fun fd => (fd, Message.encode ⟨msgTypeGameStarted, 0, body⟩)) ∧
        (NulsZero (mem.items n) (partyNames party rs.server) →
          Decodes body (partyNames party rs.server)) := by
  rw [Traffic.replies, if_pos htype] at h
  simp only [bind_eq_ok, deref_eq_ok] at h
  obtain ⟨i, hi, p, hp, h⟩ := h
  refine ⟨i, p, hi, hp, ?_, ?_⟩
  · intro hnone
    rw [hnone] at h
    exact (Except.ok.inj h).symm
  · intro party hparty
    rw [hparty] at h
    simp only [tellPartyThatTheGameStarted, memberNames_eq_build hinv, bind_eq_ok] at h
    obtain ⟨arr, harr, payload, hpayload, h⟩ := h
    obtain ⟨body, hbody⟩ := Traffic.sendStringArray_message hpayload
    refine ⟨body, ?_, fun hzero => ?_⟩
    · rw [← Except.ok.inj h, announced, List.map_map, hbody]
      rfl
    -- the names are short enough to be stored as they are
    have hmembers := member_names hnames party
    obtain ⟨hmax, hlength, hstrings⟩ := (buildStringArray_eq_ok fun n hn => (hmembers n hn).1).2 arr harr
    have hholds : HoldsNames arr (partyNames party rs.server) := by
      refine ⟨hmax, hlength, ?_⟩
      rw [hstrings, storedItems_of_nulsZero hzero, List.map_map]
      rfl
    obtain ⟨hsize, hnamed⟩ := sendStringArray_names hmembers hholds hpayload
    obtain rfl := messageNbytes_body (hbody.symm.trans hnamed)
    exact decodes_nameBlob hmembers hsize _

theorem replies_other (htype : header.messageType ≠ msgTypeStartGame ∧
    header.messageType ≠ msgTypeRegister ∧ header.messageType ≠ msgTypeList)
    (h : Traffic.replies mem fd header n rs = .ok answers) : answers = [] := by
  rw [Traffic.replies, if_neg htype.1, if_neg htype.2.1, if_neg htype.2.2] at h
  exact (Except.ok.inj h).symm

end Replies

section Messages

variable (env : ServerEnv) {mem : WireMemory} {w w' : Traffic} {msg : Message} {fd : ℕ} {stale : Fresh}

/-- A message that one recv returns alone: it is handled, answered, and the boards go out. -/
theorem Traffic.readFromClient_single (hmsg : ClientMessage msg) (fd : ℕ) (stale : Fresh)
    (w : Traffic) : Traffic.readFromClient env mem fd stale msg.encode w = (do
      let rs ← TetrisMint.handleMessage env fd msg.header
        ⟨w.server, getPlayerFromFd fd w.server, none⟩ msg.body
      let answers ← Traffic.replies mem fd msg.header w.sent.length rs
      Traffic.finishRead mem ⟨rs, w.sent ++ answers⟩) := by
  have hsize : 0 < msg.encode.length := by
    rw [length_encode, Message.size, messageHeaderSize]
    omega
  have hne : msg.encode ≠ [] := List.ne_nil_of_length_pos hsize
  have hheader : readHeader (recvBuffer stale msg.encode) 0 = some msg.header :=
    readHeader_encode hmsg.fits _
  have hbody : (recvBuffer stale msg.encode).drop (0 + messageHeaderSize) =
      msg.body ++ (malloc stale maxMsg).drop msg.encode.length := by
    rw [Nat.zero_add, recvBuffer, drop_encode hmsg.fits]
  -- after one iteration the cursor is at the end of the chunk
  have hend : ¬0 + messageHeaderSize + msg.header.contentLength < msg.encode.length := by
    rw [length_encode, Message.size, msg.header_contentLength]
    omega
  obtain ⟨fuel, hfuel⟩ := Nat.exists_eq_add_of_lt hsize
  rw [Traffic.readFromClient, if_neg hne, Traffic.clientLoop, if_pos hsize, hheader, access_some,
    ok_bind, hbody, Traffic.handleMessage, handleMessage_append env hmsg]
  cases TetrisMint.handleMessage env fd msg.header ⟨w.server, getPlayerFromFd fd w.server, none⟩
      msg.body with
  | error e => rfl
  | ok rs =>
    rw [ok_bind, ok_bind]
    cases Traffic.replies mem fd msg.header w.sent.length rs with
    | error e => rfl
    | ok answers =>
      rw [ok_bind, ok_bind, ok_bind]
      conv_lhs => rw [hfuel, Traffic.clientLoop, ← hfuel]
      rw [if_neg hend, ok_bind]

theorem readFromClient_message (hmsg : ClientMessage msg)
    (h : Traffic.readFromClient env mem fd stale msg.encode w = .ok w') : ∃ rs answers,
      handleMessage env fd msg.header ⟨w.server, getPlayerFromFd fd w.server, none⟩ msg.body = .ok rs ∧
      Traffic.replies mem fd msg.header w.sent.length rs = .ok answers ∧
      Traffic.finishRead mem ⟨rs, w.sent ++ answers⟩ = .ok w' := by
  rw [Traffic.readFromClient_single env hmsg] at h
  obtain ⟨rs, hrs, h⟩ := bind_eq_ok.mp h
  obtain ⟨answers, hanswers, h⟩ := bind_eq_ok.mp h
  exact ⟨rs, answers, hrs, hanswers, h⟩

/-- The list is asked for without changing anything. -/
theorem handleMessage_list (htype : msg.messageType = msgTypeList) {rs rs' : ReadState}
    (h : handleMessage env fd msg.header rs msg.body = .ok rs') : rs'.server = rs.server := by
  have hdistinct : msgTypeList ≠ msgTypeRegister ∧ msgTypeList ≠ msgTypeStartGame ∧
      msgTypeList ≠ msgTypeOpponent := by decide
  rcases handleMessage_cases env h with ⟨hregister, -⟩ | ⟨-, -, -, hswitch⟩
  · exact absurd (htype.symm.trans hregister) hdistinct.1
  · have hnone : engineOp msgTypeList msg.body = .ok none := rfl
    rw [serverSwitch, Message.header_messageType, htype, if_neg hdistinct.2.1,
      if_neg hdistinct.2.2, hnone, ok_bind] at hswitch
    exact (Except.ok.inj hswitch).symm

/-- What send_player hands to send is a BOARD. -/
theorem sendPlayer_board {fd : ℤ} {player : ℕ} (h : Traffic.sendPlayer mem fd player w = .ok w') :
    ∃ boards, w'.sent = w.sent ++ boards ∧
      ∀ board ∈ boards, ∃ body, board.2 = Message.encode ⟨msgTypeBoard, 0, body⟩ := by
  rw [Traffic.sendPlayer] at h
  split_ifs at h
  · exact ⟨[], by rw [Except.ok.inj h, List.append_nil], fun board hmem => absurd hmem (by simp)⟩
  · simp only [bind_eq_ok] at h
    obtain ⟨p, -, ⟨q, blob⟩, -, payload, hpayload, h⟩ := h
    simp only [messageBlob, bind_eq_ok] at hpayload
    obtain ⟨bytes, -, hpayload⟩ := hpayload
    refine ⟨[(fd, payload)], by rw [← Except.ok.inj h], ?_⟩
    intro board hmem
    rw [List.mem_singleton.mp hmem]
    exact ⟨bytes, (Except.ok.inj hpayload).symm⟩

theorem finishRead_boards {v : ReadTraffic} (h : Traffic.finishRead mem v = .ok w') :
    ∃ boards, w'.sent = v.sent ++ boards ∧
      ∀ board ∈ boards, ∃ body, board.2 = Message.encode ⟨msgTypeBoard, 0, body⟩ := by
  rw [Traffic.finishRead] at h
  split at h
  · rw [← Except.ok.inj h]
    exact ⟨[], (List.append_nil _).symm, fun board hmem => absurd hmem (by simp)⟩
  · obtain ⟨p, -, hrun⟩ := bind_eq_ok.mp h
    -- each receiver adds at most one more
    refine @invariant_run _ _ _ (Traffic.sendBoard mem _) (fun u => ∃ boards, u.sent = v.sent ++ boards ∧
      ∀ board ∈ boards, ∃ body, board.2 = Message.encode ⟨msgTypeBoard, 0, body⟩) ?_ _ w' _ ?_ hrun
    · rintro u receiver u' ⟨boards, hsent, hboards⟩ hu
      obtain ⟨r, -, hu⟩ := bind_eq_ok.mp hu
      obtain ⟨more, hmore, hboard⟩ := sendPlayer_board hu
      refine ⟨boards ++ more, by rw [hmore, hsent, List.append_assoc], ?_⟩
      exact List.forall_mem_append.mpr ⟨hboards, hboard⟩
    · exact ⟨[], (List.append_nil _).symm, fun board hmem => absurd hmem (by simp)⟩

/-- The server's messages after a client's message that one recv returns alone. The names are in
them if `built`, what set_item found, had a zero for each NUL. -/
structure Answered (built : ℕ → Fresh) (s : Server) (fd : ℕ) (msg : Message)
    (answers : List (ℤ × Bytes)) : Prop where
  /-- REGISTER and LIST are answered once, with the id of the request. -/
  request : msg.messageType = msgTypeRegister ∨ msg.messageType = msgTypeList →
    ∃ names answer, serverAnswer msg.encode names = some answer ∧ answers = [((fd : ℤ), answer.encode)] ∧
      (msg.messageType = msgTypeList → NulsZero built (playerNames true s) →
        Decodes answer.body (playerNames true s))
  /-- START_GAME is announced to the whole party of the sender. -/
  start : msg.messageType = msgTypeStartGame → ∃ i p, getPlayerFromFd fd s = some i ∧
    s.players[i]? = some p ∧ (p.party = none → answers = []) ∧
    ∀ party, p.party = some party → ∃ body, answers = (announced party s).map
        (fun fd => (fd, Message.encode ⟨msgTypeGameStarted, 0, body⟩)) ∧
      (NulsZero built (partyNames party s) → Decodes body (partyNames party s))
  /-- Nothing else is answered. -/
  other : msg.messageType ≠ msgTypeRegister → msg.messageType ≠ msgTypeList →
    msg.messageType ≠ msgTypeStartGame → answers = []

theorem serverAnswer_encode (hfits : msg.Fits) (names : Bytes) : serverAnswer msg.encode names =
    if msg.messageType = msgTypeRegister then some ⟨msgTypeRegisterSuccess, msg.requestId, []⟩
    else if msg.messageType = msgTypeList then some ⟨msgTypeListResponse, msg.requestId, names⟩
    else none := by
  have hheader := readHeader_encode hfits []
  rw [List.append_nil] at hheader
  rw [serverAnswer, hheader]
  rfl

theorem readFromClient_answered (hinv : ServerInv w.server)
    (hnames : ∀ p ∈ w.server.players, IsName p.name) (hmsg : ClientMessage msg)
    (h : Traffic.readFromClient env mem fd stale msg.encode w = .ok w') :
    ∃ answers boards, w'.sent = w.sent ++ (answers ++ boards) ∧
      Answered (mem.items w.sent.length) w.server fd msg answers ∧
      ∀ board ∈ boards, ∃ body, board.2 = Message.encode ⟨msgTypeBoard, 0, body⟩ := by
  obtain ⟨rs, answers, hrs, hanswers, hfinish⟩ := readFromClient_message env hmsg h
  obtain ⟨boards, hsent, hboards⟩ := finishRead_boards hfinish
  refine ⟨answers, boards, by rw [hsent, List.append_assoc], ?_, hboards⟩
  have hdistinct : msgTypeList ≠ msgTypeRegister ∧ msgTypeStartGame ≠ msgTypeRegister ∧
      msgTypeList ≠ msgTypeStartGame ∧ msgTypeList ≠ msgTypeOpponent := by decide
  constructor
  · rintro (htype | htype)
    · refine ⟨[], ⟨msgTypeRegisterSuccess, msg.requestId, []⟩, ?_, replies_register htype hanswers, ?_⟩
      · rw [serverAnswer_encode hmsg.fits, if_pos htype]
      · exact fun hlist => absurd (hlist.symm.trans htype) hdistinct.1
    · have hsame : rs.server = w.server := handleMessage_list env htype hrs
      obtain ⟨body, hbody, hdecodes⟩ := replies_list (hsame ▸ hnames) htype hanswers
      rw [hsame] at hdecodes
      refine ⟨body, ⟨msgTypeListResponse, msg.requestId, body⟩, ?_, hbody,
        fun _ hzero => (hdecodes hzero).2⟩
      rw [serverAnswer_encode hmsg.fits, if_neg (htype.symm ▸ hdistinct.1), if_pos htype]
  · intro htype
    rcases handleMessage_cases env hrs with ⟨hregister, -⟩ | ⟨-, hplayer, -, hswitch⟩
    · exact absurd (htype.symm.trans hregister) hdistinct.2.1
    · -- the clocks have started, and the players and parties are as they were
      rw [serverSwitch, Message.header_messageType, if_pos htype] at hswitch
      obtain ⟨i, p, hi, hp, hstarted⟩ := startGame_eq_ok.mp hswitch
      have hrsInv := startGame_inv hinv hswitch
      have hplayers : rs.server.players = w.server.players := by rw [hstarted]
      have hparties : rs.server.parties = w.server.parties := by rw [hstarted]
      obtain ⟨j, q, hj, hq, hnone, hparty⟩ :=
        replies_start hrsInv (hplayers ▸ hnames) htype hanswers
      refine ⟨j, q, hplayer.symm.trans hj, hplayers ▸ hq, hnone, ?_⟩
      simpa only [announced, partyNames, ttetrisPartyGetPlayers, hplayers, hparties] using hparty
  · intro hregister hlist hstart
    exact replies_other ⟨hstart, hregister, hlist⟩ hanswers

end Messages

end TetrisMint
