import TetrisMint.Engine
import TetrisMint.Message

/-! The server of `server.c`, `player.c` and `party.c`: the registry of players,
their parties, the running clocks, and the reader of a client's messages. -/
namespace TetrisMint

open CStrings FallibleRun

/-- A player. Pointers to players and to parties are indices into the lists of the server. -/
structure Player where
  name : Bytes
  party : Option ℕ
  fd : ℤ
  contents : GameContents
deriving DecidableEq

structure Server where
  /-- `player_list`, to which players are only ever appended. -/
  players : List Player
  /-- The player lists of all parties that were created. -/
  parties : List (List ℕ)
  /-- The running threads of player_clock, each with its player. -/
  clocks : List ℕ
deriving DecidableEq

/-- What the server takes from outside: `rand_r`, the time at which each player's
game is seeded, and the memory in which each party's names are decoded. -/
structure ServerEnv where
  randR : RandR
  time : ℕ → BitVec 32
  heap : ℕ → ℕ → Fresh

def serverInit : Server := ⟨[], [], []⟩

/-- Follow a pointer. -/
def deref {α : Type} : Option α → Except Fault α
  | some a => .ok a
  | none => .error .nullDereference

@[simp] theorem deref_some {α : Type} (a : α) : deref (some a) = .ok a := rfl

theorem deref_eq_ok {α : Type} {o : Option α} {a : α} : deref o = .ok a ↔ o = some a := by
  cases o with
  | none => simp [deref]
  | some b => simp [deref]

def getPlayerFromFd (fd : ℤ) (s : Server) : Option ℕ := s.players.findIdx? fun p => p.fd = fd

/-- The first player of the list from `index` on whose name strcmp finds equal. -/
def playerGetByName (name : Bytes) : ℕ → List Player → Except Fault (Option ℕ)
  | _, [] => .ok none
  | index, p :: ps => do
    if ← access (strEq (p.name ++ [0]) name) then .ok (some index)
    else playerGetByName name (index + 1) ps

def ttetrisPartyCreate (s : Server) : Server × ℕ :=
  ({ s with parties := s.parties ++ [[]] }, s.parties.length)

def ttetrisPartyPlayerAdd (party player : ℕ) (s : Server) : Server :=
  { s with
    parties := s.parties.modify party (· ++ [player])
    players := s.players.modify player fun p => { p with party := some party } }

def ttetrisPartyGetPlayers (party : ℕ) (s : Server) : List ℕ := s.parties.getD party []

/-- Start a clock thread. Nothing records that the player already has one. -/
def playerGameStart (player : ℕ) (s : Server) : Server := { s with clocks := s.clocks ++ [player] }

def ttetrisPartyStart (party : ℕ) (s : Server) : Server :=
  (ttetrisPartyGetPlayers party s).foldl (fun s player => playerGameStart player s) s

/-- The players whose sockets a board of `player` is sent to, in order. -/
def boardReceivers (player : ℕ) (p : Player) (s : Server) : List ℕ :=
  match p.party with
  | some party => ttetrisPartyGetPlayers party s
  | none => [player]

section Environment

variable (env : ServerEnv)

def playerCreate (fd : ℤ) (name : Bytes) (s : Server) : Server × ℕ :=
  ({ s with players := s.players ++ [
      { name := name
        party := none
        fd := fd
        contents := newSeededGame env.randR (env.time s.players.length) }] },
    s.players.length)

/-- A call into the engine for the game of a player. -/
def callEngine (op : Op) (player : ℕ) (s : Server) : Except Fault Server := do
  let p ← deref s.players[player]?
  let contents ← engineStep env.randR p.contents op
  .ok { s with players := s.players.set player { p with contents := contents } }

/-- Render the player's game and send it, unless the socket is closed. -/
def sendPlayer (fd : ℤ) (player : ℕ) (s : Server) : Except Fault Server :=
  if fd < 0 then .ok s else callEngine env .view player s

def sendBoard (player : ℕ) (s : Server) (receiver : ℕ) : Except Fault Server := do
  let r ← deref s.players[receiver]?
  sendPlayer env r.fd player s

/-- What read_from_client sends after the last message of a chunk. -/
def sendBoards (player : ℕ) (s : Server) : Except Fault Server := do
  let p ← deref s.players[player]?
  run (sendBoard env player) s (boardReceivers player p s)

/-- The clock's way of sending a board: a receiver for which it fails loses its socket. -/
def clockSendBoard (fails : ℕ → Bool) (player : ℕ) (s : Server) (receiver : ℕ × ℕ) :
    Except Fault Server := do
  let r ← deref s.players[receiver.1]?
  -- the board is rendered even when the send fails afterwards
  let s ← sendPlayer env r.fd player s
  if r.fd < 0 ∨ fails receiver.2 then
    .ok { s with players := s.players.modify receiver.1 fun p => { p with fd := -1 } }
  else .ok s

/-- One turn of the loop of player_clock, and whether the loop goes on. The send
to the `n`-th receiver fails when `fails n` holds. -/
def playerClock (fails : ℕ → Bool) (player : ℕ) (s : Server) : Except Fault (Server × Bool) := do
  let s ← callEngine env (.lower 1) player s
  let p ← deref s.players[player]?
  let s ← run (clockSendBoard env fails player) s (boardReceivers player p s).zipIdx
  -- the loop goes on while the player's own game is not over
  let p ← deref s.players[player]?
  .ok (s, gameOver p.contents.board = 0)

/-- Add the players with the given names, up to the first name that is not found. -/
def addOpponents (party : ℕ) : List (Option Bytes) → Server → Except Fault Server
  | [], s => .ok s
  | name :: names, s => do
    let name ← deref name
    match ← playerGetByName name 0 s.players with
    | none => .ok s
    | some opponent => addOpponents party names (ttetrisPartyPlayerAdd party opponent s)

/-- The case of MSG_TYPE_OPPONENT. The Blob is allocated with the size of a pointer;
malloc rounds that up to enough for it. -/
def inviteOpponents (header : MessageHeader) (cursor : Bytes) (player : Option ℕ) (s : Server) :
    Except Fault Server := do
  let names ← stringArrayDeserialize (env.heap s.parties.length) ⟨header.contentLength, cursor⟩
  let player ← deref player
  let (s, party) := ttetrisPartyCreate s
  addOpponents party names.strings (ttetrisPartyPlayerAdd party player s)

/-- A char that is passed where an int is expected. -/
def intOfChar (b : UInt8) : ℤ := if b.toNat < 128 then b.toNat else b.toNat - 256

/-- The call into the engine that a message of some type asks for. -/
def engineOp (messageType : UInt8) (cursor : Bytes) : Except Fault (Option Op) :=
  if messageType = msgTypeRotate then do
    let b ← access cursor.head?
    .ok (some (.rotate (intOfChar b)))
  else if messageType = msgTypeTranslate then do
    let b ← access cursor.head?
    .ok (some (if b ≠ 0 then .translateLeft else .translateRight))
  else if messageType = msgTypeLower then .ok (some (.lower 0))
  else if messageType = msgTypeDrop then .ok (some .hardDrop)
  else if messageType = msgTypeSwapHold then .ok (some .swapHold)
  else .ok none

/-- The case of MSG_TYPE_START_GAME. -/
def startGame (player : Option ℕ) (s : Server) : Except Fault Server := do
  let p ← deref s.players[← deref player]?
  match p.party with
  | none => .ok s
  | some party => .ok (ttetrisPartyStart party s)

/-- The cases of the switch that leave the local variables of read_from_client
alone. `cursor` is the memory from the cursor on; replies are not part of the state. -/
def serverSwitch (header : MessageHeader) (cursor : Bytes) (player : Option ℕ) (s : Server) :
    Except Fault Server :=
  if header.messageType = msgTypeStartGame then startGame player s
  else if header.messageType = msgTypeOpponent then inviteOpponents env header cursor player s
  else do
    match ← engineOp header.messageType cursor with
    | some op => callEngine env op (← deref player) s
    -- LIST is only answered, and an unknown type is only logged
    | none => .ok s

/-- The server and the local variables of read_from_client. Before the first
name is scanned the buffer `name` is not initialised. -/
structure ReadState where
  server : Server
  player : Option ℕ
  name : Option Bytes
deriving DecidableEq

/-- The case of MSG_TYPE_REGISTER. A name that is blank leaves the buffer as it is. -/
def registerPlayer (fd : ℤ) (cursor : Bytes) (rs : ReadState) : Except Fault ReadState := do
  let word ← access (sscanfWord 15 cursor)
  -- sscanf stores nothing when it finds no word
  match if word = [] then rs.name else some word with
  | none => .error .uninitialised
  | some name =>
    let (server, player) := playerCreate env fd name rs.server
    .ok ⟨server, some player, some name⟩

def handleMessage (fd : ℤ) (header : MessageHeader) (rs : ReadState) (cursor : Bytes) :
    Except Fault ReadState :=
  if header.messageType = msgTypeRegister then registerPlayer env fd cursor rs
  else do
    let server ← serverSwitch env header cursor rs.player rs.server
    .ok { rs with server := server }

/-- The loop over one chunk. As in the source the header is the one at the start
of the buffer in every iteration. -/
def clientLoop (fd : ℤ) (buffer : Bytes) (nbytes : ℕ) :
    ℕ → ℕ → ReadState → Except Fault ReadState
  | 0, _, _ => .error .nonterminating
  | fuel + 1, cursor, rs =>
    if cursor < nbytes then do
      let header ← access (readHeader buffer 0)
      let rs ← handleMessage env fd header rs (buffer.drop (cursor + messageHeaderSize))
      clientLoop fd buffer nbytes fuel (cursor + messageHeaderSize + header.contentLength) rs
    else .ok rs

/-- What follows the loop: the boards go out when there is a player. -/
def finishRead (rs : ReadState) : Except Fault Server :=
  match rs.player with
  | none => .ok rs.server
  | some player => sendBoards env player rs.server

/-- One call of read_from_client for which recv returns `chunk`; the empty one is the end of file. -/
def readFromClient (fd : ℕ) (stale : Fresh) (chunk : Bytes) (s : Server) : Except Fault Server :=
  if chunk = [] then .ok s
  else do
    let rs ← clientLoop env fd (recvBuffer stale chunk) chunk.length (chunk.length + 1) 0
      ⟨s, getPlayerFromFd fd s, none⟩
    finishRead env rs

/-- What can happen to the server: a chunk that its main loop reads, or a turn of a clock. -/
inductive ServerEvent
  /-- recv returns `chunk` for the socket `fd`; behind it the buffer holds what was there. -/
  | recv (fd : ℕ) (stale : Fresh) (chunk : Bytes)
  /-- The clock at an index of the running ones wakes up. -/
  | tick (clock : ℕ) (fails : ℕ → Bool)

/-- One event after the other. The threads of the clocks share the players and their games with the
main loop, and nothing locks them; a chunk and a turn of a clock are one step each here, so what
becomes of the server when two of them overlap is left open. -/
def serverStep (s : Server) : ServerEvent → Except Fault Server
  | .recv fd stale chunk => readFromClient env fd stale chunk s
  | .tick clock fails =>
    match s.clocks[clock]? with
    | none => .ok s
    | some player => do
      let (s, running) ← playerClock env fails player s
      .ok (if running then s else { s with clocks := s.clocks.eraseIdx clock })

end Environment

end TetrisMint
