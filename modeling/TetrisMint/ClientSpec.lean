import TetrisMint.ClientConn
import TetrisMint.Segments

namespace TetrisMint

open CStrings FallibleRun Segments

/-- A message as the encoders of the server build it: a BOARD holds a name and a
view, a GAME_STARTED holds a string array that decodes within the body. -/
structure ServerMessage (heap : ℕ → Fresh) (msg : Message) : Prop where
  fits : msg.Fits
  known : msg.messageType = msgTypeBoard ∨ msg.messageType = msgTypeListResponse ∨
    msg.messageType = msgTypeRegisterSuccess ∨ msg.messageType = msgTypeGameStarted
  board : msg.messageType = msgTypeBoard → ∃ name view, msg.body = name ++ 0 :: view ∧
    0 ∉ name ∧ name.length ≤ playerNameMaxChars ∧ view.length = gameViewDataSize
  gameStarted : msg.messageType = msgTypeGameStarted →
    ∃ arr, stringArrayDeserialize heap ⟨msg.body.length, msg.body⟩ = .ok arr

/-- Messages about a game come only to a client that has a player. -/
def PlayerReady (client : NetClient) (msg : Message) : Prop :=
  msg.messageType = msgTypeBoard ∨ msg.messageType = msgTypeGameStarted →
    client.player.isSome = true

variable {heap : ℕ → Fresh}

/-- The two answers need no decoding and no player. -/
theorem answer_serverMessage {msg : Message} (hfits : msg.Fits)
    (htype : msg.messageType = msgTypeRegisterSuccess ∨ msg.messageType = msgTypeListResponse) :
    ServerMessage heap msg ∧ ∀ client, PlayerReady client msg := by
  have hboard : msg.messageType ≠ msgTypeBoard := by
    obtain h | h := htype
    · rw [h]
      decide
    · rw [h]
      decide
  have hstarted : msg.messageType ≠ msgTypeGameStarted := by
    obtain h | h := htype
    · rw [h]
      decide
    · rw [h]
      decide
  refine ⟨⟨hfits, ?_, fun h => absurd h hboard, fun h => absurd h hstarted⟩, ?_⟩
  · obtain h | h := htype
    · exact Or.inr (Or.inr (Or.inl h))
    · exact Or.inr (Or.inl h)
  · exact fun _ h => absurd h (not_or.mpr ⟨hboard, hstarted⟩)

theorem readGameViewData_spec {name view rest : Bytes} (hname : 0 ∉ name)
    (hlen : name.length ≤ playerNameMaxChars) (hview : view.length = gameViewDataSize) :
    readGameViewData (name ++ 0 :: view ++ rest) = .ok view := by
  have hstr : strnlen (name ++ 0 :: view ++ rest) playerNameMaxChars = some name.length := by
    rw [List.append_assoc, List.cons_append]
    exact strnlen_terminated hname _ _ hlen
  have hdrop : (name ++ 0 :: view ++ rest).drop (name.length + 1) = view ++ rest := by
    -- the view starts right behind the NUL of the name
    have hfront : name ++ 0 :: view ++ rest = (name ++ [0]) ++ (view ++ rest) := by simp
    rw [hfront]
    apply List.drop_left'
    rw [List.length_append, List.length_singleton]
  have hfit : gameViewDataSize ≤ (view ++ rest).length := by
    rw [List.length_append]
    omega
  simp only [readGameViewData, hstr, access_some, bind, Except.bind, hdrop, bytesAt, if_pos hfit]
  rw [← hview, List.take_left]

/-- The switch handles every message of the server and keeps the open requests. -/
theorem clientSwitch_spec {msg : Message} (hmsg : ServerMessage heap msg) {client : NetClient}
    (hready : PlayerReady client msg) (rest : Bytes) :
    ∃ client', clientSwitch heap msg.header (msg.body ++ rest) client = .ok (some client') ∧
      client'.player.isSome = client.player.isSome ∧
      client'.openRequests = client.openRequests := by
  have hplayer (h : msg.messageType = msgTypeBoard ∨ msg.messageType = msgTypeGameStarted) :
      ∃ player, client.player = some player := Option.isSome_iff_exists.mp (hready h)
  rw [clientSwitch]
  change ∃ client', (if msg.messageType = msgTypeGameStarted then _ else _) = _ ∧ _
  split_ifs with hstarted hboard hsilent
  · obtain ⟨player, hp⟩ := hplayer (Or.inr hstarted)
    obtain ⟨arr, harr⟩ := hmsg.gameStarted hstarted
    -- the names are decoded in the buffer, where more bytes follow them
    have hdec := @stringArrayDeserialize_append heap msg.body rest msg.body.length
      msg.header.contentLength arr harr
    simp only [hdec, hp, bind, Except.bind]
    exact ⟨_, rfl, rfl, rfl⟩
  · obtain ⟨player, hp⟩ := hplayer (Or.inl hboard)
    obtain ⟨name, view, hbody, hname, hlen, hview⟩ := hmsg.board hboard
    simp only [hp, hbody, readGameViewData_spec hname hlen hview, bind, Except.bind]
    exact ⟨_, rfl, rfl, rfl⟩
  · exact ⟨client, rfl, rfl, rfl⟩
  · obtain h | h | h | h := hmsg.known
    · exact absurd h hboard
    · exact absurd (Or.inr h) hsilent
    · exact absurd (Or.inl h) hsilent
    · exact absurd h hstarted

/-- A request after an answer: with the answer's id it gets the copy and is complete. -/
def NetRequest.answered (requestId : ℕ) (copy : Bytes) (request : NetRequest) : NetRequest :=
  if request.id = (requestId : ℤ) then { request with cursor := some copy, complete := true }
  else request

/-- The open requests after a message; id 0 answers none of them. -/
def answeredRequests (requestId : ℕ) (copy : Bytes) (requests : List NetRequest) :
    List NetRequest :=
  if requestId = 0 then requests else requests.map (NetRequest.answered requestId copy)

theorem completeRequests_eq {header : MessageHeader} {cursor : Bytes}
    (hlen : header.contentLength ≤ cursor.length) (requests : List NetRequest) :
    completeRequests header cursor requests = .ok (requests.map
      (NetRequest.answered header.requestId (cursor.take header.contentLength))) := by
  induction requests with
  | nil => rfl
  | cons request requests ih =>
    rw [completeRequests, List.map_cons, NetRequest.answered]
    split_ifs with hid
    · simp only [bytesAt, if_pos hlen, access_some, ih, bind, Except.bind]
    · simp only [ih, bind, Except.bind]

theorem answerRequests_eq {header : MessageHeader} {cursor : Bytes}
    (hlen : header.contentLength ≤ cursor.length) (client : NetClient) :
    answerRequests header cursor client = .ok { client with
      openRequests := answeredRequests header.requestId (cursor.take header.contentLength)
        client.openRequests } := by
  rw [answerRequests, answeredRequests]
  by_cases hid : header.requestId = 0
  · simp only [hid, ne_eq, not_true_eq_false, ↓reduceIte]
  · simp only [hid, ne_eq, not_false_eq_true, ↓reduceIte, completeRequests_eq hlen, bind,
      Except.bind]

section Loop

variable {buffer : Bytes} {nbytes : ℕ}

/-- The bytes that the reader looks at of a message: its header fields and its body. -/
def Message.needed (msg : Message) : ℕ :=
  if msg.body = [] then headerFieldsSize else msg.size

/-- What the loop does with a message that stands whole at the cursor. -/
theorem readLoop_message {msg : Message} (hmsg : ServerMessage heap msg) {client : NetClient}
    (hready : PlayerReady client msg) {cursor : ℕ} {rest : Bytes} (hcursor : cursor < nbytes)
    (hfields : (buffer.drop cursor).take headerFieldsSize =
      headerFields msg.requestId msg.body.length msg.messageType)
    (hbody : buffer.drop (cursor + messageHeaderSize) = msg.body ++ rest) (fuel : ℕ) :
    ∃ client', client'.player.isSome = client.player.isSome ∧
      client'.openRequests = answeredRequests msg.requestId msg.body client.openRequests ∧
      readLoop heap buffer nbytes (fuel + 1) cursor client =
        (readLoop heap buffer nbytes fuel (cursor + msg.size) client').map
          fun p => (p.1, (cursor, msg) :: p.2) := by
  have hheader : readHeader buffer cursor = some msg.header :=
    (readHeader_eq_some_iff hmsg.fits.1 hmsg.fits.2).mpr hfields
  have hmagic : leField buffer cursor 4 = some msgMagicNumber :=
    (readHeader_eq_some.mp hheader).1
  obtain ⟨client₁, hswitch, hplayer₁, hopen₁⟩ := clientSwitch_spec hmsg hready rest
  have hlen : msg.header.contentLength ≤ (msg.body ++ rest).length := by
    rw [List.length_append]
    exact Nat.le_add_right ..
  have htake : (msg.body ++ rest).take msg.header.contentLength = msg.body := List.take_left
  let client' : NetClient :=
    { client₁ with openRequests := answeredRequests msg.requestId msg.body client.openRequests }
  -- an open request with the id of the message gets its body
  have hanswer : answerRequests msg.header (msg.body ++ rest) client₁ = .ok client' := by
    rw [answerRequests_eq hlen, htake, hopen₁]
    rfl
  refine ⟨client', hplayer₁, rfl, ?_⟩
  rw [readLoop, if_pos hcursor]
  simp only [hmagic, hheader, access_some, hbody, hswitch, hanswer, bind, Except.bind, ne_eq,
    not_true_eq_false, ↓reduceIte, htake]
  have hnext : cursor + messageHeaderSize + msg.header.contentLength = cursor + msg.size :=
    Nat.add_assoc ..
  rw [hnext]
  cases readLoop heap buffer nbytes fuel (cursor + msg.size) client' with
  | error e => rfl
  | ok p => rfl

/-- A round of the loop that handles something handles the message at the cursor. -/
theorem readLoop_cases {fuel cursor : ℕ} {client client' : NetClient}
    {handled : List (ℕ × Message)}
    (h : readLoop heap buffer nbytes (fuel + 1) cursor client = .ok (client', handled)) :
    handled = [] ∨
      ∃ msg client₁ later, cursor < nbytes ∧
        (∃ len, readHeader buffer cursor =
          some ⟨msgMagicNumber, msg.requestId, len, msg.messageType⟩ ∧
          msg.body = (buffer.drop (cursor + messageHeaderSize)).take len ∧
          readLoop heap buffer nbytes fuel (cursor + messageHeaderSize + len) client₁ =
            .ok (client', later)) ∧
        handled = (cursor, msg) :: later := by
  rw [readLoop] at h
  split_ifs at h with hcursor
  · obtain ⟨magicNumber, hmagic, h⟩ := bind_eq_ok.mp h
    split_ifs at h with hfeed
    · -- no magic number: the rest of the chunk is given up
      left
      rw [Except.ok.injEq, Prod.mk.injEq] at h
      exact h.2.symm
    · obtain ⟨header, hheader, h⟩ := bind_eq_ok.mp h
      obtain ⟨acted, -, h⟩ := bind_eq_ok.mp h
      rw [access_eq_ok] at hmagic hheader
      cases acted with
      | none =>
        -- a message of unknown type: likewise
        left
        rw [Except.ok.injEq, Prod.mk.injEq] at h
        exact h.2.symm
      | some client₀ =>
        right
        obtain ⟨client₁, -, h⟩ := bind_eq_ok.mp h
        obtain ⟨p, hloop, h⟩ := bind_eq_ok.mp h
        rw [Except.ok.injEq, Prod.mk.injEq] at h
        obtain ⟨hclient, hhandled⟩ := h
        have hnumber : header.magicNumber = msgMagicNumber := by
          have hfirst := (readHeader_eq_some.mp hheader).1
          rw [hmagic, Option.some.injEq] at hfirst
          rw [← hfirst]
          exact not_not.mp hfeed
        refine ⟨⟨header.messageType, header.requestId, (buffer.drop
          (cursor + messageHeaderSize)).take header.contentLength⟩, client₁, p.2, hcursor,
          ⟨header.contentLength, ?_, rfl, ?_⟩, hhandled.symm⟩
        · rw [← hnumber]
          exact hheader
        · rw [hloop, ← hclient]
  · left
    rw [Except.ok.injEq, Prod.mk.injEq] at h
    exact h.2.symm

/-- Whatever the loop handles has its header and its body in the buffer, and the
first message stands at the cursor. -/
theorem readLoop_handled {fuel cursor : ℕ} {client client' : NetClient}
    {handled : List (ℕ × Message)}
    (h : readLoop heap buffer nbytes fuel cursor client = .ok (client', handled)) :
    (∀ s msg, (s, msg) ∈ handled → cursor ≤ s ∧ s < nbytes ∧
      ∃ len, readHeader buffer s = some ⟨msgMagicNumber, msg.requestId, len, msg.messageType⟩ ∧
        msg.body = (buffer.drop (s + messageHeaderSize)).take len) ∧
    (handled ≠ [] → ∃ msg, (cursor, msg) ∈ handled) := by
  induction fuel generalizing cursor client handled with
  | zero => exact absurd h (by simp [readLoop])
  | succ fuel ih =>
    -- the first message stands at the cursor, and the others further on
    obtain rfl | ⟨first, client₁, later, hcursor, ⟨len, hread, hbody, hloop⟩, rfl⟩ :=
      readLoop_cases h
    · refine ⟨fun s msg hmem => absurd hmem (by simp), fun hne => absurd rfl hne⟩
    · refine ⟨?_, fun _ => ⟨first, List.mem_cons_self ..⟩⟩
      intro s msg hmem
      rw [List.mem_cons, Prod.mk.injEq] at hmem
      obtain ⟨rfl, rfl⟩ | hlater := hmem
      · exact ⟨le_refl _, hcursor, len, hread, hbody⟩
      · obtain ⟨hlow, hhigh, hfound⟩ := (ih hloop).1 s msg hlater
        exact ⟨by omega, hhigh, hfound⟩

end Loop

/-- A message that one recv returns alone is handled, and only the open requests
with its id change. -/
theorem readFromServer_single {msg : Message} (hmsg : ServerMessage heap msg) {client : NetClient}
    (hready : PlayerReady client msg) (stale : Fresh) :
    ∃ client', readFromServer heap stale client msg.encode = .ok (client', [(0, msg)]) ∧
      client'.openRequests = answeredRequests msg.requestId msg.body client.openRequests := by
  have hfields : ((recvBuffer stale msg.encode).drop 0).take headerFieldsSize =
      headerFields msg.requestId msg.body.length msg.messageType := by
    rw [List.drop_zero, recvBuffer, take_encode hmsg.fits]
  have hbody : (recvBuffer stale msg.encode).drop (0 + messageHeaderSize) =
      msg.body ++ (malloc stale maxMsg).drop msg.encode.length := by
    rw [Nat.zero_add, recvBuffer, drop_encode hmsg.fits]
  have hsize : 0 < msg.encode.length := by
    rw [length_encode, Message.size, messageHeaderSize]
    omega
  obtain ⟨client', -, hopen, hstep⟩ := readLoop_message hmsg hready hsize hfields hbody
    msg.encode.length
  refine ⟨client', ?_, hopen⟩
  rw [readFromServer, hstep, Nat.zero_add]
  -- the cursor is at the end of the chunk now
  obtain ⟨fuel, hfuel⟩ := Nat.exists_eq_add_of_lt hsize
  rw [Nat.zero_add] at hfuel
  have hend : ¬msg.size < fuel + 1 := by
    rw [← hfuel, length_encode]
    exact lt_irrefl _
  rw [hfuel, readLoop, if_neg hend]
  rfl

/-- What one call does with one message: its action, and then its answer to a request. -/
theorem readFromServer_message {msg : Message} (hfits : msg.Fits) {client client₁ : NetClient}
    (stale : Fresh) (hswitch : clientSwitch heap msg.header
      (msg.body ++ (malloc stale maxMsg).drop msg.encode.length) client = .ok (some client₁)) :
    readFromServer heap stale client msg.encode = .ok ({ client₁ with
      openRequests := answeredRequests msg.requestId msg.body client₁.openRequests }, [(0, msg)]) := by
  have hheader : readHeader (recvBuffer stale msg.encode) 0 = some msg.header := readHeader_encode hfits _
  have hmagic : leField (recvBuffer stale msg.encode) 0 4 = some msgMagicNumber :=
    (readHeader_eq_some.mp hheader).1
  have hbody : (recvBuffer stale msg.encode).drop (0 + messageHeaderSize) =
      msg.body ++ (malloc stale maxMsg).drop msg.encode.length := by
    rw [Nat.zero_add, recvBuffer, drop_encode hfits]
  have hlen : msg.header.contentLength ≤
      (msg.body ++ (malloc stale maxMsg).drop msg.encode.length).length := by
    rw [List.length_append]
    exact Nat.le_add_right ..
  have htake : (msg.body ++ (malloc stale maxMsg).drop msg.encode.length).take
      msg.header.contentLength = msg.body := List.take_left
  have hsize : 0 < msg.encode.length := by
    rw [length_encode, Message.size, messageHeaderSize]
    omega
  rw [readFromServer, readLoop, if_pos hsize]
  simp only [hmagic, hheader, access_some, hbody, hswitch, answerRequests_eq hlen, htake, bind,
    Except.bind, ne_eq, not_true_eq_false, ↓reduceIte]
  -- the loop ends behind the message
  have hend : ¬0 + messageHeaderSize + msg.header.contentLength < msg.encode.length := by
    rw [length_encode, Message.size, Message.header_contentLength]
    omega
  obtain ⟨fuel, hfuel⟩ := Nat.exists_eq_add_of_lt hsize
  rw [Nat.zero_add] at hfuel
  rw [hfuel] at hend ⊢
  rw [readLoop, if_neg hend]
  rfl

end TetrisMint
