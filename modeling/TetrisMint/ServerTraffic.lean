import TetrisMint.MessageSizes
import TetrisMint.PlayerGames

/-! What the server hands to send: the answers, the announcements and the boards, each with its
socket, in the order in which they go out. -/
namespace TetrisMint

open CStrings FallibleRun

/-- The memory that the messages of the server find: for each the items of its array and its blob. -/
structure WireMemory where
  items : ℕ → ℕ → Fresh
  blob : ℕ → Fresh

/-- The server and the payloads that it has sent. -/
structure Traffic where
  server : Server
  sent : List (ℤ × Bytes)

/-- The local variables of read_from_client and the payloads. -/
structure ReadTraffic where
  state : ReadState
  sent : List (ℤ × Bytes)

namespace Traffic

section Sending

variable (mem : WireMemory)

/-- send_player, with the BOARD message. -/
def sendPlayer (fd : ℤ) (player : ℕ) (w : Traffic) : Except Fault Traffic :=
  if fd < 0 then .ok w
  else do
    let p ← deref w.server.players[player]?
    let (p, blob) ← serializeState (mem.blob w.sent.length) p
    let payload ← messageBlob blob 0 msgTypeBoard
    .ok ⟨{ w.server with players := w.server.players.set player p }, w.sent ++ [(fd, payload)]⟩

def sendBoard (player : ℕ) (w : Traffic) (receiver : ℕ) : Except Fault Traffic := do
  let r ← deref w.server.players[receiver]?
  sendPlayer mem r.fd player w

def sendBoards (player : ℕ) (w : Traffic) : Except Fault Traffic := do
  let p ← deref w.server.players[player]?
  run (sendBoard mem player) w (boardReceivers player p w.server)

def clockSendBoard (fails : ℕ → Bool) (player : ℕ) (w : Traffic) (receiver : ℕ × ℕ) :
    Except Fault Traffic := do
  let r ← deref w.server.players[receiver.1]?
  let w ← sendPlayer mem r.fd player w
  if r.fd < 0 ∨ fails receiver.2 then
    .ok { w with server := { w.server with
      players := w.server.players.modify receiver.1 fun p => { p with fd := -1 } } }
  else .ok w

/-- What answers a message of a client that has been handled. `n` payloads were sent before. -/
def replies (fd : ℤ) (header : MessageHeader) (n : ℕ) (rs : ReadState) :
    Except Fault (List (ℤ × Bytes)) :=
  if header.messageType = msgTypeStartGame then do
    let p ← deref rs.server.players[← deref rs.player]?
    match p.party with
    | none => .ok []
    | some party => tellPartyThatTheGameStarted (mem.items n) (mem.blob n) party rs.server
  else if header.messageType = msgTypeRegister then
    .ok [(fd, messageNbytes [] header.requestId msgTypeRegisterSuccess)]
  else if header.messageType = msgTypeList then do
    let payload ← sendOnlineUsers (mem.items n) (mem.blob n) header.requestId rs.server
    .ok [(fd, payload)]
  else .ok []

end Sending

section Server

variable (env : ServerEnv) (mem : WireMemory)

def playerClock (fails : ℕ → Bool) (player : ℕ) (w : Traffic) : Except Fault (Traffic × Bool) := do
  let s ← callEngine env (.lower 1) player w.server
  let p ← deref s.players[player]?
  let w ← run (clockSendBoard mem fails player) { w with server := s } (boardReceivers player p s).zipIdx
  let p ← deref w.server.players[player]?
  .ok (w, gameOver p.contents.board = 0)

def handleMessage (fd : ℤ) (header : MessageHeader) (w : ReadTraffic) (cursor : Bytes) :
    Except Fault ReadTraffic := do
  let rs ← TetrisMint.handleMessage env fd header w.state cursor
  let answers ← replies mem fd header w.sent.length rs
  .ok ⟨rs, w.sent ++ answers⟩

def clientLoop (fd : ℤ) (buffer : Bytes) (nbytes : ℕ) :
    ℕ → ℕ → ReadTraffic → Except Fault ReadTraffic
  | 0, _, _ => .error .nonterminating
  | fuel + 1, cursor, w =>
    if cursor < nbytes then do
      let header ← access (readHeader buffer 0)
      let w ← handleMessage env mem fd header w (buffer.drop (cursor + messageHeaderSize))
      clientLoop fd buffer nbytes fuel (cursor + messageHeaderSize + header.contentLength) w
    else .ok w

def finishRead (w : ReadTraffic) : Except Fault Traffic :=
  match w.state.player with
  | none => .ok ⟨w.state.server, w.sent⟩
  | some player => sendBoards mem player ⟨w.state.server, w.sent⟩

def readFromClient (fd : ℕ) (stale : Fresh) (chunk : Bytes) (w : Traffic) : Except Fault Traffic :=
  if chunk = [] then .ok w
  else do
    let v ← clientLoop env mem fd (recvBuffer stale chunk) chunk.length (chunk.length + 1) 0
      ⟨⟨w.server, getPlayerFromFd fd w.server, none⟩, w.sent⟩
    finishRead mem v

/-- A chunk and a turn of a clock are one step each, with everything that they send; two that
overlap, which nothing in the server prevents, are left open. -/
def serverStep (w : Traffic) : ServerEvent → Except Fault Traffic
  | .recv fd stale chunk => readFromClient env mem fd stale chunk w
  | .tick clock fails =>
    match w.server.clocks[clock]? with
    | none => .ok w
    | some player => do
      let (w, running) ← playerClock env mem fails player w
      .ok (if running then w
        else { w with server := { w.server with clocks := w.server.clocks.eraseIdx clock } })

end Server

section Projection

variable (env : ServerEnv) {mem : WireMemory} {w w' : Traffic} {player : ℕ}

theorem sendPlayer_server {fd : ℤ} (h : sendPlayer mem fd player w = .ok w') :
    TetrisMint.sendPlayer env fd player w.server = .ok w'.server := by
  rw [sendPlayer] at h
  rw [TetrisMint.sendPlayer]
  split_ifs at h ⊢
  · exact congrArg (Except.ok ∘ server) (Except.ok.inj h)
  · simp only [bind_eq_ok, deref_eq_ok] at h
    obtain ⟨p, hp, ⟨q, blob⟩, hq, payload, -, h⟩ := h
    -- the blob shows the view, and the view has drawn the shadow
    simp only [serializeState, bind_eq_ok] at hq
    obtain ⟨⟨contents, view⟩, hview, len, -, bytes, -, bytes', -, bytes'', -, hq⟩ := hq
    rw [Except.ok.injEq, Prod.mk.injEq] at hq
    rw [← Except.ok.inj h, ← hq.1]
    apply (callEngine_eq_ok env).mpr
    refine ⟨p, contents, hp, ?_, rfl⟩
    rw [engineStep, Op.call, hview]
    rfl

theorem sendBoards_server (h : sendBoards mem player w = .ok w') :
    TetrisMint.sendBoards env player w.server = .ok w'.server := by
  obtain ⟨p, hp, hrun⟩ := bind_eq_ok.mp h
  apply bind_eq_ok.mpr
  refine ⟨p, hp, ?_⟩
  apply run_abs (sendBoard mem player) server _ hrun
  intro u receiver v hv
  obtain ⟨r, hr, hv⟩ := bind_eq_ok.mp hv
  exact bind_eq_ok.mpr ⟨r, hr, sendPlayer_server env hv⟩

theorem clockSendBoard_server {fails : ℕ → Bool} {receiver : ℕ × ℕ}
    (h : clockSendBoard mem fails player w receiver = .ok w') :
    TetrisMint.clockSendBoard env fails player w.server receiver = .ok w'.server := by
  obtain ⟨r, hr, h⟩ := bind_eq_ok.mp h
  obtain ⟨v, hv, h⟩ := bind_eq_ok.mp h
  apply bind_eq_ok.mpr
  refine ⟨r, hr, bind_eq_ok.mpr ⟨v.server, sendPlayer_server env hv, ?_⟩⟩
  split_ifs at h ⊢
  · rw [← Except.ok.inj h]
  · rw [← Except.ok.inj h]

theorem playerClock_server {fails : ℕ → Bool} {running : Bool}
    (h : playerClock env mem fails player w = .ok (w', running)) :
    TetrisMint.playerClock env fails player w.server = .ok (w'.server, running) := by
  simp only [playerClock, bind_eq_ok, Except.ok.injEq, Prod.mk.injEq] at h
  obtain ⟨s, hs, p, hp, v, hrun, q, hq, rfl, rfl⟩ := h
  simp only [TetrisMint.playerClock, bind_eq_ok]
  refine ⟨s, hs, p, hp, v.server, ?_, q, hq, rfl⟩
  exact run_abs (clockSendBoard mem fails player) server
    (fun _ _ _ hv => clockSendBoard_server env hv) hrun

theorem clientLoop_state {fd : ℤ} {buffer : Bytes} {nbytes fuel cursor : ℕ} {v v' : ReadTraffic}
    (h : clientLoop env mem fd buffer nbytes fuel cursor v = .ok v') :
    TetrisMint.clientLoop env fd buffer nbytes fuel cursor v.state = .ok v'.state := by
  induction fuel generalizing cursor v with
  | zero => exact absurd h (by simp [clientLoop])
  | succ fuel ih =>
    rw [clientLoop] at h
    rw [TetrisMint.clientLoop]
    split_ifs at h ⊢
    · obtain ⟨header, hheader, h⟩ := bind_eq_ok.mp h
      obtain ⟨u, hu, h⟩ := bind_eq_ok.mp h
      obtain ⟨rs, hrs, hu⟩ := bind_eq_ok.mp hu
      obtain ⟨answers, -, hu⟩ := bind_eq_ok.mp hu
      have hlater := ih h
      rw [← Except.ok.inj hu] at hlater
      exact bind_eq_ok.mpr ⟨header, hheader, bind_eq_ok.mpr ⟨rs, hrs, hlater⟩⟩
    · rw [← Except.ok.inj h]

theorem finishRead_server {v : ReadTraffic} (h : finishRead mem v = .ok w') :
    TetrisMint.finishRead env v.state = .ok w'.server := by
  rw [finishRead] at h
  rw [TetrisMint.finishRead]
  cases hplayer : v.state.player with
  | none =>
    rw [hplayer] at h
    exact congrArg (Except.ok ∘ server) (Except.ok.inj h)
  | some player =>
    rw [hplayer] at h
    exact sendBoards_server env h

/-- The server with its messages is the server. -/
theorem serverStep_server {event : ServerEvent} (h : serverStep env mem w event = .ok w') :
    TetrisMint.serverStep env w.server event = .ok w'.server := by
  cases event with
  | recv fd stale chunk =>
    rw [serverStep, readFromClient] at h
    rw [TetrisMint.serverStep, TetrisMint.readFromClient]
    split_ifs at h ⊢
    · rw [← Except.ok.inj h]
    · obtain ⟨v, hv, h⟩ := bind_eq_ok.mp h
      exact bind_eq_ok.mpr ⟨v.state, clientLoop_state env hv, finishRead_server env h⟩
  | tick clock fails =>
    rw [serverStep] at h
    rw [TetrisMint.serverStep]
    cases hclock : w.server.clocks[clock]? with
    | none =>
      rw [hclock] at h
      exact congrArg (Except.ok ∘ server) (Except.ok.inj h)
    | some player =>
      rw [hclock] at h
      obtain ⟨⟨v, running⟩, hv, h⟩ := bind_eq_ok.mp h
      apply bind_eq_ok.mpr
      refine ⟨(v.server, running), playerClock_server env hv, ?_⟩
      rw [← Except.ok.inj h]
      cases running <;> rfl

theorem run_server {events : List ServerEvent} (h : run (serverStep env mem) w events = .ok w') :
    run (TetrisMint.serverStep env) w.server events = .ok w'.server :=
  run_abs (serverStep env mem) server (fun _ _ _ ht => serverStep_server env ht) h

end Projection

end Traffic

end TetrisMint
