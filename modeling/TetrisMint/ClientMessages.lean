import TetrisMint.ServerInvariant
import TetrisMint.StringArrayRoundTrip

/-! The messages of the clients, and what read_from_client does with a message
that one recv returns alone. -/
namespace TetrisMint

open CStrings FallibleRun

def clientMessageTypes : List UInt8 :=
  [msgTypeRegister, msgTypeOpponent, msgTypeStartGame, msgTypeRotate, msgTypeTranslate,
    msgTypeLower, msgTypeDrop, msgTypeSwapHold, msgTypeList]

/-- A message as the clients build it: a name ends in a NUL, a direction is given
as a character, and the array of opponents decodes within the body. -/
structure ClientMessage (msg : Message) : Prop where
  fits : msg.Fits
  sized : msg.size ≤ maxMsg
  known : msg.messageType ∈ clientMessageTypes
  register : msg.messageType = msgTypeRegister → 0 ∈ msg.body
  direction : msg.messageType = msgTypeRotate ∨ msg.messageType = msgTypeTranslate → msg.body ≠ []
  opponent : msg.messageType = msgTypeOpponent →
    ∀ heap, ∃ names, stringArrayDeserialize heap ⟨msg.body.length, msg.body⟩ = .ok names

section Senders

/-- LOWER, DROP, SWAP_HOLD, LIST and START_GAME have no body. -/
def bareMessage (messageType : UInt8) (requestId : ℕ) : Message := ⟨messageType, requestId, []⟩

/-- What tetris_send_message makes of a text, for ROTATE and TRANSLATE. -/
def textMessage (messageType : UInt8) (requestId : ℕ) (text : Bytes) : Message :=
  ⟨messageType, requestId, text ++ [0]⟩

/-- The sixteen bytes that tetris_register copies with strncpy. -/
def registerMessage (requestId : ℕ) (username : Bytes) : Message :=
  ⟨msgTypeRegister, requestId, username ++ List.replicate (16 - username.length) 0⟩

/-- What tetris_opponent sends when every name was serialized with its NUL; `gap`
is the rest of the blob. -/
def opponentMessage (requestId : ℕ) (maxStringLength : ℤ) (usernames : List Bytes) (gap : Bytes) :
    Message :=
  ⟨msgTypeOpponent, requestId, wireHeader (stringArrayCreate usernames.length maxStringLength) ++
    itemBytes (usernames.map fun s => (s, 0)) ++ gap⟩

variable {requestId : ℕ} (hid : requestId < 2 ^ 16)

include hid in
theorem bareMessage_wellFormed {messageType : UInt8} (htype : messageType ∈ [msgTypeStartGame,
    msgTypeLower, msgTypeDrop, msgTypeSwapHold, msgTypeList]) :
    ClientMessage (bareMessage messageType requestId) := by
  have hother : messageType ∈ clientMessageTypes ∧ messageType ≠ msgTypeRegister ∧
      (messageType ≠ msgTypeRotate ∧ messageType ≠ msgTypeTranslate) ∧
        messageType ≠ msgTypeOpponent := by
    simp only [List.mem_cons, List.not_mem_nil, or_false] at htype
    obtain rfl | rfl | rfl | rfl | rfl := htype <;> decide
  obtain ⟨hknown, hregister, ⟨hrotate, htranslate⟩, hopponent⟩ := hother
  exact ⟨⟨hid, by simp [bareMessage]⟩, by simp [Message.size, bareMessage, messageHeaderSize, maxMsg],
    hknown, fun h => absurd h hregister, fun h => absurd h (not_or.mpr ⟨hrotate, htranslate⟩),
    fun h => absurd h hopponent⟩

include hid in
theorem textMessage_wellFormed {messageType : UInt8} {text : Bytes}
    (htype : messageType = msgTypeRotate ∨ messageType = msgTypeTranslate)
    (hsize : messageHeaderSize + text.length < maxMsg) :
    ClientMessage (textMessage messageType requestId text) := by
  have hother : messageType ∈ clientMessageTypes ∧ messageType ≠ msgTypeRegister ∧
      messageType ≠ msgTypeOpponent := by
    obtain rfl | rfl := htype <;> decide
  obtain ⟨hknown, hregister, hopponent⟩ := hother
  have hlen : (textMessage messageType requestId text).body.length = text.length + 1 := by
    rw [textMessage, List.length_append, List.length_singleton]
  rw [maxMsg] at hsize
  exact ⟨⟨hid, by omega⟩, by rw [Message.size, maxMsg]; omega, hknown, fun h => absurd h hregister,
    fun _ => by simp [textMessage], fun h => absurd h hopponent⟩

include hid in
theorem registerMessage_wellFormed {username : Bytes} (hname : username.length ≤ playerNameMaxChars) :
    ClientMessage (registerMessage requestId username) := by
  rw [playerNameMaxChars] at hname
  have hlen : (registerMessage requestId username).body.length = 16 := by
    rw [registerMessage, List.length_append, List.length_replicate]
    omega
  have hnul : 0 ∈ (registerMessage requestId username).body := by
    rw [registerMessage, List.mem_append, List.mem_replicate]
    exact Or.inr ⟨by omega, rfl⟩
  have hother : msgTypeRegister ∈ clientMessageTypes ∧
      ¬(msgTypeRegister = msgTypeRotate ∨ msgTypeRegister = msgTypeTranslate) ∧
        msgTypeRegister ≠ msgTypeOpponent := by decide
  exact ⟨⟨hid, by omega⟩, by rw [Message.size, hlen]; decide, hother.1, fun _ => hnul,
    fun h => absurd h hother.2.1, fun h => absurd h hother.2.2⟩

include hid in
/-- A serialized array of names decodes within its own bytes, whatever memory the
decoder gets. -/
theorem opponentMessage_wellFormed {maxStringLength : ℤ} {usernames : List Bytes} {gap : Bytes}
    (hmax : IsInt maxStringLength)
    (hnames : ∀ s ∈ usernames, 0 ∉ s ∧ (s.length : ℤ) ≤ maxStringLength)
    (hsize : (opponentMessage requestId maxStringLength usernames gap).size ≤ maxMsg) :
    ClientMessage (opponentMessage requestId maxStringLength usernames gap) := by
  have hother : msgTypeOpponent ∈ clientMessageTypes ∧ msgTypeOpponent ≠ msgTypeRegister ∧
      ¬(msgTypeOpponent = msgTypeRotate ∨ msgTypeOpponent = msgTypeTranslate) := by decide
  have hfits : (opponentMessage requestId maxStringLength usernames gap).body.length < 2 ^ 16 := by
    rw [Message.size, maxMsg] at hsize
    omega
  refine ⟨⟨hid, hfits⟩, hsize, hother.1, fun h => absurd h hother.2.1,
    fun h => absurd h hother.2.2, ?_⟩
  intro _ heap
  -- the names take as many bytes as the list of stored items with zero NULs
  have hitems : (itemBytes (usernames.map fun s => (s, 0))).length =
      (usernames.map fun s => s.length + 1).sum := by
    rw [← length_itemBytes_storedItems (fun _ _ => 0) 0, storedItems_zero]
  have hbody : wireHeaderSize + (usernames.map fun s => s.length + 1).sum < 2 ^ 16 := by
    simp only [opponentMessage, List.length_append, hitems, wireHeader, length_intBytes] at hfits
    rw [wireHeaderSize]
    omega
  -- each name takes a byte at least, so the message bounds their number as well
  have hcount : usernames.length ≤ (usernames.map fun s => s.length + 1).sum := by
    have hone := List.length_le_sum_of_one_le (usernames.map fun s => s.length + 1) (by simp)
    rwa [List.length_map] at hone
  have hlength : IsInt (usernames.length : ℤ) := by
    rw [IsInt]
    omega
  rw [opponentMessage, @stringArrayDeserialize_eq (stringArrayCreate usernames.length maxStringLength)
    heap _ _ hmax hlength (List.append_assoc ..), ← length_wireHeader]
  apply deserializeStrings_returns heap rfl
  · intro s hs
    obtain ⟨h0, hlen⟩ := hnames s hs
    have hone : s.length + 1 ≤ (usernames.map fun s => s.length + 1).sum :=
      List.le_sum_of_mem (List.mem_map.mpr ⟨s, hs, rfl⟩)
    refine ⟨h0, ?_, by rw [intMax]; omega⟩
    rw [stringArrayCreate, sizeOfInt_of_nonneg hmax (by omega)]
    omega
  · rw [stringArrayCreate, List.length_replicate, Nat.zero_add]
    exact Int.toNat_natCast _

end Senders

section Dispatch

variable (env : ServerEnv) {msg : Message}

/-- What a case of the switch reads of the buffer, given the bytes from the cursor on. It
fails where a read leaves these bytes. -/
def bodyRead (heap : ℕ → Fresh) (header : MessageHeader) (body : Bytes) : Except Fault Unit :=
  if header.messageType = msgTypeRegister then do
    let _ ← access (sscanfWord 15 body)
    .ok ()
  else if header.messageType = msgTypeOpponent then do
    let _ ← stringArrayDeserialize heap ⟨header.contentLength, body⟩
    .ok ()
  else do
    let _ ← engineOp header.messageType body
    .ok ()

theorem engineOp_append {messageType : UInt8} {body : Bytes} (rest : Bytes)
    (h : messageType = msgTypeRotate ∨ messageType = msgTypeTranslate → body ≠ []) :
    engineOp messageType (body ++ rest) = engineOp messageType body := by
  have hhead (hne : body ≠ []) : (body ++ rest).head? = body.head? :=
    List.head?_append_of_ne_nil body hne
  rw [engineOp, engineOp]
  split_ifs with hrotate htranslate
  · rw [hhead (h (Or.inl hrotate))]
  · rw [hhead (h (Or.inr htranslate))]
  · rfl
  · rfl
  · rfl
  · rfl

theorem engineOp_returns_iff (messageType : UInt8) (body : Bytes) :
    (∃ op, engineOp messageType body = .ok op) ↔
      (messageType = msgTypeRotate ∨ messageType = msgTypeTranslate → body ≠ []) := by
  unfold engineOp
  split_ifs with hrotate htranslate hlower hdrop hswap
  · cases body with
    | nil => simp [hrotate, access, bind, Except.bind]
    | cons b body => simp [access, bind, Except.bind]
  · cases body with
    | nil => simp [htranslate, access, bind, Except.bind]
    | cons b body => simp [access, bind, Except.bind]
  · simp [hrotate, htranslate]
  · simp [hrotate, htranslate]
  · simp [hrotate, htranslate]
  · simp [hrotate, htranslate]

/-- Handling a message reads nothing behind a body that holds what is read of it. -/
theorem handleMessage_append_of_read {header : MessageHeader} {rs : ReadState} {body : Bytes} {u : Unit}
    (h : bodyRead (env.heap rs.server.parties.length) header body = .ok u) (fd : ℤ) (rest : Bytes) :
    handleMessage env fd header rs (body ++ rest) = handleMessage env fd header rs body := by
  rw [handleMessage, handleMessage]
  rw [bodyRead] at h
  split_ifs at h ⊢ with hregister hopponent
  · obtain ⟨word, hword, -⟩ := bind_eq_ok.mp h
    rw [access_eq_ok] at hword
    rw [registerPlayer, registerPlayer, hword, sscanfWord_append hword]
  · have hstart : header.messageType ≠ msgTypeStartGame := by
      rw [hopponent]
      decide
    obtain ⟨names, hnames, -⟩ := bind_eq_ok.mp h
    rw [serverSwitch, serverSwitch, if_neg hstart, if_neg hstart, if_pos hopponent, if_pos hopponent,
      inviteOpponents, inviteOpponents, stringArrayDeserialize_append rest hnames, hnames]
  · -- a direction is the first byte of the body
    obtain ⟨op, hop, -⟩ := bind_eq_ok.mp h
    have hbody := (engineOp_returns_iff header.messageType body).mp ⟨op, hop⟩
    rw [serverSwitch, serverSwitch, engineOp_append rest hbody, if_neg hopponent, if_neg hopponent]

/-- Every case finds what it reads in the body of a client's message. -/
theorem ClientMessage.read (hmsg : ClientMessage msg) (heap : ℕ → Fresh) :
    bodyRead heap msg.header msg.body = .ok () := by
  rw [bodyRead, msg.header_messageType]
  split_ifs with hregister hopponent
  · obtain ⟨word, hword⟩ := sscanfWord_of_mem (hmsg.register hregister) 15
    rw [hword, access_some, ok_bind]
  · obtain ⟨names, hnames⟩ := hmsg.opponent hopponent heap
    rw [msg.header_contentLength, hnames, ok_bind]
  · obtain ⟨op, hop⟩ := (engineOp_returns_iff msg.messageType msg.body).mpr hmsg.direction
    rw [hop, ok_bind]

/-- Handling a client's message reads nothing behind its body. -/
theorem handleMessage_append (hmsg : ClientMessage msg) (fd : ℤ) (rs : ReadState) (rest : Bytes) :
    handleMessage env fd msg.header rs (msg.body ++ rest) =
      handleMessage env fd msg.header rs msg.body :=
  handleMessage_append_of_read env (hmsg.read _) fd rest

/-- A message that one recv returns alone is handled with its own header and
body, whatever lies behind it. -/
theorem readFromClient_single (hmsg : ClientMessage msg) (fd : ℕ) (stale : Fresh) (s : Server) :
    readFromClient env fd stale msg.encode s = (do
      let rs ← handleMessage env fd msg.header ⟨s, getPlayerFromFd fd s, none⟩ msg.body
      finishRead env rs) := by
  have hsize : 0 < msg.encode.length := by
    rw [length_encode, Message.size, messageHeaderSize]
    omega
  have hne : msg.encode ≠ [] := List.ne_nil_of_length_pos hsize
  have hheader : readHeader (recvBuffer stale msg.encode) 0 = some msg.header :=
    readHeader_encode hmsg.fits _
  have hbody : (recvBuffer stale msg.encode).drop (0 + messageHeaderSize) =
      msg.body ++ (malloc stale maxMsg).drop msg.encode.length := by
    rw [Nat.zero_add, recvBuffer, drop_encode hmsg.fits]
  -- after one iteration the cursor is at the end of the chunk
  have hend : ¬0 + messageHeaderSize + msg.header.contentLength < msg.encode.length := by
    rw [length_encode, Message.size, msg.header_contentLength]
    omega
  obtain ⟨fuel, hfuel⟩ := Nat.exists_eq_add_of_lt hsize
  rw [readFromClient, if_neg hne, clientLoop, if_pos hsize, hheader, access_some, ok_bind, hbody,
    handleMessage_append env hmsg]
  cases handleMessage env fd msg.header ⟨s, getPlayerFromFd fd s, none⟩ msg.body with
  | error e => rfl
  | ok rs =>
    rw [ok_bind, ok_bind]
    conv_lhs => rw [hfuel, clientLoop, ← hfuel]
    rw [if_neg hend, ok_bind]

end Dispatch

/-- What reaches the server when no two messages share a chunk: a message that one
recv returns alone, or the waking of a clock. -/
inductive Delivery
  | message (fd : ℕ) (stale : Fresh) (msg : Message) (wellFormed : ClientMessage msg)
  | tick (clock : ℕ) (fails : ℕ → Bool)

def Delivery.event : Delivery → ServerEvent
  | .message fd stale msg _ => .recv fd stale msg.encode
  | .tick clock fails => .tick clock fails

def deliver (env : ServerEnv) (s : Server) (d : Delivery) : Except Fault Server :=
  serverStep env s d.event

section Deliveries

variable {env : ServerEnv} {s t : Server}

/-- The one thing that a delivered message did; the boards that were sent after it
leave all seats alone. -/
theorem deliver_message_cases {fd : ℕ} {stale : Fresh} {msg : Message} {wf : ClientMessage msg}
    (h : deliver env s (.message fd stale msg wf) = .ok t) : ∃ u, SameSeats u t ∧
      (msg.messageType = msgTypeRegister ∧ (∃ name, u = (playerCreate env fd name s).1) ∨
        msg.messageType = msgTypeStartGame ∧ startGame (getPlayerFromFd fd s) s = .ok u ∨
        msg.messageType = msgTypeOpponent ∧
          inviteOpponents env msg.header msg.body (getPlayerFromFd fd s) s = .ok u ∨
        msg.messageType ≠ msgTypeStartGame ∧ msg.messageType ≠ msgTypeOpponent ∧ SameSeats s u) := by
  change readFromClient env fd stale msg.encode s = .ok t at h
  rw [readFromClient_single env wf, bind_eq_ok] at h
  obtain ⟨rs, hrs, h⟩ := h
  refine ⟨rs.server, sameSeats_of_unshadowed (finishRead_unshadowed env h), ?_⟩
  -- the boards come last, and they leave the seats as the message has made them
  rcases handleMessage_cases env hrs with ⟨htype, hregister⟩ | ⟨-, -, -, hswitch⟩
  · obtain ⟨word, name, -, -, rfl⟩ := (registerPlayer_eq_ok env).mp hregister
    exact Or.inl ⟨htype, name, rfl⟩
  · rcases serverSwitch_cases env hswitch with hstart | hopponent | ⟨hs, ho, heq | ⟨op, i, -, hcall⟩⟩
    · exact Or.inr (Or.inl hstart)
    · exact Or.inr (Or.inr (Or.inl hopponent))
    · exact Or.inr (Or.inr (Or.inr ⟨hs, ho, heq ▸ sameSeats_refl s⟩))
    · exact Or.inr (Or.inr (Or.inr ⟨hs, ho, (callEngine_seats env hcall).1⟩))

/-- A clock that wakes changes games and sockets, and may end. -/
theorem deliver_tick {clock : ℕ} {fails : ℕ → Bool}
    (h : deliver env s (.tick clock fails) = .ok t) :
    t.players.map Player.party = s.players.map Player.party ∧ t.parties = s.parties ∧
      t.clocks.Sublist s.clocks := by
  change serverStep env s (.tick clock fails) = .ok t at h
  rw [serverStep] at h
  cases hclock : s.clocks[clock]? with
  | none =>
    rw [hclock] at h
    rw [Except.ok.inj h]
    exact ⟨rfl, rfl, List.Sublist.refl _⟩
  | some player =>
    rw [hclock] at h
    obtain ⟨⟨u, running⟩, hu, h⟩ := bind_eq_ok.mp h
    have hseats := playerClock_seats env hu
    cases running with
    | true =>
      rw [← Except.ok.inj h]
      exact ⟨hseats.backPointers, hseats.parties, hseats.clocks ▸ List.Sublist.refl _⟩
    | false =>
      rw [← Except.ok.inj h]
      exact ⟨hseats.backPointers, hseats.parties, hseats.clocks ▸ List.eraseIdx_sublist _ _⟩

end Deliveries

/-- All pieces are heroes, and fresh memory is zero. -/
def heroEnv : ServerEnv := ⟨fun seed => (5, seed), fun _ => 0, fun _ _ _ => 0⟩

/-- Two players who have registered. -/
def registerBoth : List Delivery :=
  [.message 4 (fun _ => 0) (registerMessage 1 [65])
      (registerMessage_wellFormed (by decide) (by decide)),
    .message 5 (fun _ => 0) (registerMessage 1 [66])
      (registerMessage_wellFormed (by decide) (by decide))]

/-- The client at socket `fd` invites the player with the given name. -/
def invitation (fd : ℕ) (name : UInt8) (hname : name ≠ 0) : Delivery :=
  .message fd (fun _ => 0) (opponentMessage 3 15 [[name]] [])
    (opponentMessage_wellFormed (by decide) (by decide) (by simpa using hname.symm)
      (by change 22 ≤ 2048; decide))

end TetrisMint
