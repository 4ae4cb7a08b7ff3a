import TetrisMint.Message

namespace TetrisMint

open CStrings

/-- An int that is stored in a short. -/
def shortOfInt (v : ℤ) : ℤ := if v % 2 ^ 16 < 2 ^ 15 then v % 2 ^ 16 else v % 2 ^ 16 - 2 ^ 16

structure NetRequest where
  id : ℤ
  cursor : Option Bytes
  complete : Bool
deriving DecidableEq

/-- What the connection writes of the player that the client registers. -/
structure LocalPlayer where
  view : Bytes
  gameStarted : Bool
deriving DecidableEq

structure NetClient where
  player : Option LocalPlayer
  openRequests : List NetRequest
deriving DecidableEq

def netClientInit : NetClient := ⟨none, []⟩

/-- Number a request, remember it and send it. -/
def ttetrisNetRequest (client : NetClient) (bytes : Bytes) (messageType : UInt8) :
    NetClient × Bytes :=
  let request : NetRequest :=
    { id := shortOfInt (client.openRequests.length + 1), cursor := none, complete := false }
  ({ client with openRequests := client.openRequests ++ [request] },
    messageNbytes bytes request.id messageType)

/-- Four ints and a board of ints. -/
def gameViewDataSize : ℕ := 4 * 4 + 4 * (boardHeight * boardWidth)

/-- The view that follows the name in a message. -/
def readGameViewData (buffer : Bytes) : Except Fault Bytes := do
  let nameLength ← access (strnlen buffer playerNameMaxChars)
  access (bytesAt (buffer.drop (nameLength + 1)) gameViewDataSize)

/-- The action for an incoming message whose body starts `cursor`. There is none
for a message of unknown type, and the chunk is given up. Drawing is not part of the state. -/
def clientSwitch (heap : ℕ → Fresh) (header : MessageHeader) (cursor : Bytes)
    (client : NetClient) : Except Fault (Option NetClient) :=
  if header.messageType = msgTypeGameStarted then do
    let _ ← stringArrayDeserialize heap ⟨header.contentLength, cursor⟩
    match client.player with
    | none => .error .nullDereference
    | some player => .ok (some { client with player := some { player with gameStarted := true } })
  else if header.messageType = msgTypeBoard then
    match client.player with
    | none => .error .nullDereference
    | some player => do
      let view ← readGameViewData cursor
      .ok (some { client with player := some { player with view := view } })
  else if header.messageType = msgTypeRegisterSuccess ∨
      header.messageType = msgTypeListResponse then .ok (some client)
  else .ok none

/-- The walk over the open requests: each one with the header's id gets a copy of the body. -/
def completeRequests (header : MessageHeader) (cursor : Bytes) :
    List NetRequest → Except Fault (List NetRequest)
  | [] => .ok []
  | request :: requests =>
    if request.id = header.requestId then do
      let copy ← access (bytesAt cursor header.contentLength)
      let requests ← completeRequests header cursor requests
      .ok ({ request with cursor := some copy, complete := true } :: requests)
    else do
      let requests ← completeRequests header cursor requests
      .ok (request :: requests)

def answerRequests (header : MessageHeader) (cursor : Bytes) (client : NetClient) :
    Except Fault NetClient :=
  -- request id 0 marks a message that answers nothing
  if header.requestId ≠ 0 then do
    let requests ← completeRequests header cursor client.openRequests
    .ok { client with openRequests := requests }
  else .ok client

/-- The loop over one chunk. Besides the client it returns the messages that were
handled, each with the place of its header in the buffer. -/
def readLoop (heap : ℕ → Fresh) (buffer : Bytes) (nbytes : ℕ) :
    ℕ → ℕ → NetClient → Except Fault (NetClient × List (ℕ × Message))
  | 0, _, _ => .error .nonterminating
  | fuel + 1, cursor, client =>
    if cursor < nbytes then do
      let magicNumber ← access (leField buffer cursor 4)
      if magicNumber ≠ msgMagicNumber then .ok (client, [])
      else
        let header ← access (readHeader buffer cursor)
        let body := buffer.drop (cursor + messageHeaderSize)
        match ← clientSwitch heap header body client with
        | none => .ok (client, [])
        | some client =>
          let client ← answerRequests header body client
          let (client, handled) ← readLoop heap buffer nbytes fuel
            (cursor + messageHeaderSize + header.contentLength) client
          .ok (client, (cursor, ⟨header.messageType, header.requestId,
            body.take header.contentLength⟩) :: handled)
    else .ok (client, [])

/-- One call of read_from_server for which recv returns `chunk`. -/
def readFromServer (heap : ℕ → Fresh) (stale : Fresh) (client : NetClient) (chunk : Bytes) :
    Except Fault (NetClient × List (ℕ × Message)) :=
  readLoop heap (recvBuffer stale chunk) chunk.length (chunk.length + 1) 0 client

/-- Successive calls. A chunk and the memory behind it are known by the offset
of the chunk in the stream, and so is every message that is handled. -/
def tetrisThread (heap : ℕ → Fresh) (stale : ℕ → Fresh) :
    ℕ → NetClient → List Bytes → Except Fault (NetClient × List (ℕ × Message))
  | _, client, [] => .ok (client, [])
  | off, client, chunk :: chunks => do
    let (client, handled) ← readFromServer heap (stale off) client chunk
    let (client, later) ← tetrisThread heap stale (off + chunk.length) client chunks
    .ok (client, handled.map (fun p => (off + p.1, p.2)) ++ later)

end TetrisMint
