import TetrisMint.ClientMessages

/-! Several messages in one chunk. When read_from_client does with them what it
would do with the same messages one recv at a time. -/
namespace TetrisMint

open CStrings FallibleRun

/-- The cursors at which the loop finds a body, and the cursor that it ends with. -/
def bodyCursors (contentLength nbytes : ℕ) : ℕ → ℕ → List ℕ × ℕ
  | 0, cursor => ([], cursor)
  | fuel + 1, cursor =>
    if cursor < nbytes then
      let r := bodyCursors contentLength nbytes fuel (cursor + messageHeaderSize + contentLength)
      ((cursor + messageHeaderSize) :: r.1, r.2)
    else ([], cursor)

def messageAt (header : MessageHeader) (buffer : Bytes) (cursor : ℕ) : Message :=
  ⟨header.messageType, header.requestId, (buffer.drop cursor).take header.contentLength⟩

/-- The messages that the loop dispatches, and the cursor that it ends with. -/
def dispatched (buffer : Bytes) (nbytes : ℕ) : Option (List Message × ℕ) :=
  (readHeader buffer 0).map fun header =>
    let r := bodyCursors header.contentLength nbytes (nbytes + 1) 0
    (r.1.map (messageAt header buffer), r.2)

/-- The messages, each returned alone by one recv. -/
def readOneByOne (env : ServerEnv) (fd : ℕ) (s : Server) (calls : List (Fresh × Message)) :
    Except Fault Server :=
  run (fun s call => readFromClient env fd call.1 call.2.encode s) s calls

/-- Whatever the buffer holds behind a chunk, the merged chunk dispatches each
message once and leaves the server as the single messages do, but for shadow blocks. -/
def SameAsOneByOne (env : ServerEnv) (s : Server) (fd : ℕ) (msgs : List Message) : Prop :=
  ∀ stale, dispatched (recvBuffer stale (encodeAll msgs)) (encodeAll msgs).length =
      some (msgs, (encodeAll msgs).length) ∧
    ∀ calls : List (Fresh × Message), calls.map Prod.snd = msgs →
      (readFromClient env fd stale (encodeAll msgs) s).map Server.unshadowed =
        (readOneByOne env fd s calls).map Server.unshadowed

/-- A name of which sscanf finds nothing. -/
def BlankName (msg : Message) : Prop := sscanfWord 15 msg.body = some []

section Loop

variable (env : ServerEnv) {buffer : Bytes} {nbytes : ℕ}

/-- The loop handles the bodies at these cursors, all under the first header. -/
theorem clientLoop_eq_run (fd : ℤ) {header : MessageHeader}
    (hheader : readHeader buffer 0 = some header) {fuel cursor : ℕ} (hpos : 0 < fuel)
    (hfuel : nbytes < cursor + fuel) (rs : ReadState) :
    clientLoop env fd buffer nbytes fuel cursor rs =
      run (fun rs cursor => handleMessage env fd header rs (buffer.drop cursor)) rs
        (bodyCursors header.contentLength nbytes fuel cursor).1 := by
  induction fuel generalizing cursor rs with
  | zero => exact absurd hpos (lt_irrefl 0)
  | succ fuel ih =>
    rw [clientLoop, bodyCursors]
    split_ifs with hcursor
    · rw [hheader, access_some, ok_bind, run]
      cases handleMessage env fd header rs (buffer.drop (cursor + messageHeaderSize)) with
      | error e => rfl
      | ok rs' =>
        have hstep : 0 < messageHeaderSize := by decide
        rw [ok_bind]
        exact ih (by omega) (by omega) rs'
    · rfl

/-- One call that receives something, as a run over the bodies. -/
theorem readFromClient_eq_run (fd : ℕ) {stale : Fresh} {chunk : Bytes} {header : MessageHeader}
    (hne : chunk ≠ []) (hheader : readHeader (recvBuffer stale chunk) 0 = some header) (s : Server) :
    readFromClient env fd stale chunk s = (do
      let rs ← run (fun rs cursor => handleMessage env fd header rs ((recvBuffer stale chunk).drop cursor))
        ⟨s, getPlayerFromFd fd s, none⟩
        (bodyCursors header.contentLength chunk.length (chunk.length + 1) 0).1
      finishRead env rs) := by
  rw [readFromClient, if_neg hne, clientLoop_eq_run env fd hheader (Nat.succ_pos _) (by omega)]

/-- No body reaches behind the last cursor. -/
theorem bodyCursors_le (contentLength fuel cursor : ℕ) :
    cursor ≤ (bodyCursors contentLength nbytes fuel cursor).2 ∧
      ∀ c ∈ (bodyCursors contentLength nbytes fuel cursor).1,
        c + contentLength ≤ (bodyCursors contentLength nbytes fuel cursor).2 := by
  induction fuel generalizing cursor with
  | zero => exact ⟨le_refl _, by simp [bodyCursors]⟩
  | succ fuel ih =>
    obtain ⟨hend, hbodies⟩ := ih (cursor + messageHeaderSize + contentLength)
    rw [bodyCursors]
    split_ifs
    · refine ⟨by dsimp only; omega, ?_⟩
      rw [List.forall_mem_cons]
      exact ⟨hend, hbodies⟩
    · exact ⟨le_refl _, by simp⟩

/-- Over messages with bodies of one length the loop finds exactly their bodies. -/
theorem bodyCursors_uniform {len : ℕ} {msgs : List Message}
    (hmsgs : ∀ msg ∈ msgs, msg.Fits ∧ msg.body.length = len) {fuel cursor : ℕ} {rest : Bytes}
    (hbuffer : buffer.drop cursor = encodeAll msgs ++ rest)
    (hend : nbytes = cursor + (encodeAll msgs).length) (hpos : 0 < fuel)
    (hfuel : nbytes < cursor + fuel) :
    (bodyCursors len nbytes fuel cursor).2 = nbytes ∧
      List.Forall₂ (fun msg c => ∃ behind, buffer.drop c = msg.body ++ behind) msgs
        (bodyCursors len nbytes fuel cursor).1 := by
  induction msgs generalizing fuel cursor with
  | nil =>
    obtain ⟨fuel, rfl⟩ := Nat.exists_eq_add_of_lt hpos
    have hcursor : ¬cursor < nbytes := by
      rw [hend]
      simp [encodeAll]
    rw [Nat.zero_add, bodyCursors, if_neg hcursor]
    refine ⟨?_, List.Forall₂.nil⟩
    rw [hend]
    simp [encodeAll]
  | cons msg msgs ih =>
    obtain ⟨fuel, rfl⟩ := Nat.exists_eq_add_of_lt hpos
    obtain ⟨hfits, hlen⟩ := hmsgs msg (List.mem_cons_self ..)
    have hsplit : encodeAll (msg :: msgs) = msg.encode ++ encodeAll msgs := rfl
    have hsize : msg.encode.length = messageHeaderSize + len := by
      rw [length_encode, Message.size, hlen]
    rw [hsplit, List.append_assoc] at hbuffer
    rw [hsplit, List.length_append, hsize, messageHeaderSize] at hend
    have hbody : buffer.drop (cursor + messageHeaderSize) =
        msg.body ++ (encodeAll msgs ++ rest) := by
      rw [← List.drop_drop, hbuffer, drop_encode hfits]
    have hnext : buffer.drop (cursor + messageHeaderSize + len) = encodeAll msgs ++ rest := by
      rw [← List.drop_drop, hbody, ← hlen, List.drop_left]
    have hcursor : cursor < nbytes := by omega
    -- the first body is found, and the next turn starts at the next message
    rw [Nat.zero_add, bodyCursors, if_pos hcursor]
    obtain ⟨hlast, hrest⟩ := @ih (fun m hm => hmsgs m (List.mem_cons_of_mem _ hm)) fuel
      (cursor + messageHeaderSize + len) hnext (by rw [messageHeaderSize]; omega) (by omega)
      (by rw [messageHeaderSize]; omega)
    exact ⟨hlast, List.Forall₂.cons ⟨_, hbody⟩ hrest⟩

end Loop

section Dispatch

variable {fd : ℕ} {msgs : List Message} {stale : Fresh}

theorem length_recvBuffer (stale : Fresh) (chunk : Bytes) :
    chunk.length ≤ (recvBuffer stale chunk).length := by
  rw [recvBuffer, List.length_append]
  exact Nat.le_add_right _ _

/-- A chunk whose messages are all dispatched holds messages with one header. -/
theorem header_of_dispatched (h : dispatched (recvBuffer stale (encodeAll msgs))
      (encodeAll msgs).length = some (msgs, (encodeAll msgs).length)) :
    ∃ header : MessageHeader, ∀ msg ∈ msgs, msg.header =
      ⟨msgMagicNumber, header.requestId, header.contentLength, header.messageType⟩ := by
  obtain ⟨header, -, h⟩ := Option.map_eq_some_iff.mp h
  rw [Prod.mk.injEq] at h
  obtain ⟨hmsgs, hend⟩ := h
  refine ⟨header, fun msg hmsg => ?_⟩
  rw [← hmsgs] at hmsg
  obtain ⟨c, hc, rfl⟩ := List.mem_map.mp hmsg
  -- the last cursor is the end of the chunk, so every body is as long as the header says
  have hbody := (bodyCursors_le header.contentLength ((encodeAll msgs).length + 1) 0).2 c hc
  rw [hend] at hbody
  have hbuffer := length_recvBuffer stale (encodeAll msgs)
  have hlen : (messageAt header (recvBuffer stale (encodeAll msgs)) c).body.length =
      header.contentLength := by
    rw [messageAt, List.length_take, List.length_drop]
    omega
  rw [Message.header, hlen]
  rfl

end Dispatch

section Uniform

variable {first : Message} {msgs : List Message}
  (hmsgs : ∀ msg ∈ first :: msgs, ClientMessage msg)
  (hheader : ∀ msg ∈ first :: msgs, msg.header = first.header) (stale : Fresh)

include hmsgs in
theorem readHeader_first :
    readHeader (recvBuffer stale (encodeAll (first :: msgs))) 0 = some first.header := by
  have hsplit : recvBuffer stale (encodeAll (first :: msgs)) = first.encode ++ (encodeAll msgs ++
      (malloc stale maxMsg).drop (encodeAll (first :: msgs)).length) := by
    rw [recvBuffer, ← List.append_assoc]
    rfl
  rw [hsplit]
  exact readHeader_encode (hmsgs first (List.mem_cons_self ..)).fits _

include hmsgs hheader in
theorem bodyCursors_first :
    (bodyCursors first.header.contentLength (encodeAll (first :: msgs)).length
        ((encodeAll (first :: msgs)).length + 1) 0).2 = (encodeAll (first :: msgs)).length ∧
      List.Forall₂ (fun msg c => (ClientMessage msg ∧ msg.header = first.header) ∧ ∃ behind,
          (recvBuffer stale (encodeAll (first :: msgs))).drop c = msg.body ++ behind) (first :: msgs)
        (bodyCursors first.header.contentLength (encodeAll (first :: msgs)).length
          ((encodeAll (first :: msgs)).length + 1) 0).1 := by
  have hlen (msg : Message) (hmsg : msg ∈ first :: msgs) :
      msg.Fits ∧ msg.body.length = first.header.contentLength :=
    ⟨(hmsgs msg hmsg).fits, congrArg MessageHeader.contentLength (hheader msg hmsg)⟩
  rw [List.forall₂_and_left]
  suffices hcursors : _ ∧ _ from
    ⟨hcursors.1, fun msg hmsg => ⟨hmsgs msg hmsg, hheader msg hmsg⟩, hcursors.2⟩
  apply bodyCursors_uniform hlen
  · rw [List.drop_zero, recvBuffer]
  · rw [Nat.zero_add]
  · exact Nat.succ_pos _
  · omega

include hmsgs hheader in
/-- Under one header each message of the chunk is dispatched. -/
theorem dispatched_uniform :
    dispatched (recvBuffer stale (encodeAll (first :: msgs))) (encodeAll (first :: msgs)).length =
      some (first :: msgs, (encodeAll (first :: msgs)).length) := by
  obtain ⟨hend, hbodies⟩ := bodyCursors_first hmsgs hheader stale
  have hmap : first :: msgs = (bodyCursors first.header.contentLength
      (encodeAll (first :: msgs)).length ((encodeAll (first :: msgs)).length + 1) 0).1.map
        (messageAt first.header (recvBuffer stale (encodeAll (first :: msgs)))) := by
    rw [← List.forall₂_eq_eq_eq, List.forall₂_map_right_iff]
    apply List.Forall₂.imp _ hbodies
    rintro msg c ⟨⟨-, heq⟩, behind, hdrop⟩
    rw [messageAt, hdrop, ← heq, msg.header_contentLength, List.take_left]
    rfl
  rw [dispatched, readHeader_first hmsgs, Option.map_some]
  simp only [hend, ← hmap]

include hmsgs hheader in
/-- Under one header the loop handles each message as if it stood alone. -/
theorem clientLoop_uniform (env : ServerEnv) (fd : ℤ) (rs : ReadState) :
    clientLoop env fd (recvBuffer stale (encodeAll (first :: msgs)))
        (encodeAll (first :: msgs)).length ((encodeAll (first :: msgs)).length + 1) 0 rs =
      run (fun rs msg => handleMessage env fd msg.header rs msg.body) rs (first :: msgs) := by
  rw [clientLoop_eq_run env fd (readHeader_first hmsgs stale) (Nat.succ_pos _) (by omega)]
  symm
  apply run_congr
  apply List.Forall₂.imp _ (bodyCursors_first hmsgs hheader stale).2
  rintro msg c ⟨⟨hmsg, heq⟩, behind, hdrop⟩ rs
  -- each message is handled under the first header, which is also its own
  rw [hdrop, ← heq, handleMessage_append env hmsg]

end Uniform

section Alone

variable (env : ServerEnv) (fd : ℕ) {s : Server} {msg : Message}

/-- A message handled on its own, without the boards that follow it. -/
def handleAlone (s : Server) (msg : Message) : Except Fault Server :=
  (handleMessage env fd msg.header ⟨s, getPlayerFromFd fd s, none⟩ msg.body).map ReadState.server

theorem handleAlone_unshadowed (s : Server) (msg : Message) :
    handleAlone env fd s.unshadowed msg = (handleAlone env fd s msg).map Server.unshadowed := by
  have hstart : (⟨s.unshadowed, getPlayerFromFd fd s, none⟩ : ReadState) =
      ReadState.unshadowed ⟨s, getPlayerFromFd fd s, none⟩ := rfl
  rw [handleAlone, handleAlone, getPlayerFromFd_unshadowed, hstart, handleMessage_unshadowed]
  cases handleMessage env fd msg.header ⟨s, getPlayerFromFd fd s, none⟩ msg.body with
  | error e => rfl
  | ok rs => rfl

theorem finishRead_map {rs : ReadState} (hrs : ReadInv rs) :
    (finishRead env rs).map Server.unshadowed = .ok rs.server.unshadowed := by
  -- the boards can be sent, and sending them changes shadow blocks only
  obtain ⟨t, ht⟩ := finishRead_returns env hrs
  rw [ht, ← finishRead_unshadowed env ht]
  rfl

theorem readFromClient_alone (hs : ServerInv s) (hmsg : ClientMessage msg) (stale : Fresh) :
    (readFromClient env fd stale msg.encode s).map Server.unshadowed =
      handleAlone env fd s.unshadowed msg := by
  rw [readFromClient_single env hmsg, handleAlone_unshadowed, handleAlone]
  cases hrs : handleMessage env fd msg.header ⟨s, getPlayerFromFd fd s, none⟩ msg.body with
  | error e => rfl
  | ok rs => exact finishRead_map env (handleMessage_inv env (readInv_start hs fd) hrs)

/-- One recv for each message is the run of the messages on their own. -/
theorem readOneByOne_eq (hs : ServerInv s) {calls : List (Fresh × Message)}
    (hcalls : ∀ call ∈ calls, ClientMessage call.2) :
    (readOneByOne env fd s calls).map Server.unshadowed =
      run (handleAlone env fd) s.unshadowed (calls.map Prod.snd) := by
  have hsnd : run (handleAlone env fd) s.unshadowed (calls.map Prod.snd) =
      run (fun s call => handleAlone env fd s call.2) s.unshadowed calls := by
    apply run_congr
    rw [List.forall₂_map_left_iff, List.forall₂_same]
    exact fun _ _ _ => rfl
  rw [hsnd, readOneByOne]
  -- the simulation drops the shadow blocks after each recv
  apply run_map _ Server.unshadowed _ _ hs
  · exact fun u call hcall hu => readFromClient_alone env fd hu (hcalls call hcall) call.1
  · exact fun u call _ t hu ht => readFromClient_inv env hu ht

variable {fd} {rs : ReadState}

/-- In the middle of a chunk a message does what it does on its own when the local
variables are those of a new call, or are not used. -/
theorem handleMessage_alone (hname : msg.messageType = msgTypeRegister → ¬BlankName msg)
    (hplayer : msg.messageType ≠ msgTypeRegister → rs.player = getPlayerFromFd fd rs.server) :
    (handleMessage env fd msg.header rs msg.body).map ReadState.server =
      handleAlone env fd rs.server msg := by
  rw [handleAlone, handleMessage, handleMessage]
  split_ifs with hregister
  · rw [registerPlayer, registerPlayer]
    cases hword : sscanfWord 15 msg.body with
    | none => rfl
    | some word =>
      have hne : word ≠ [] := by
        rintro rfl
        exact hname hregister hword
      simp only [access_some, ok_bind, if_neg hne]
  · rw [← hplayer hregister]
    cases serverSwitch env msg.header msg.body rs.player rs.server with
    | error e => rfl
    | ok server => rfl

/-- The local pointer stays the one that a new call would look up. -/
theorem handleMessage_player {rs' : ReadState} (hregister : msg.messageType ≠ msgTypeRegister)
    (hplayer : rs.player = getPlayerFromFd fd rs.server)
    (h : handleMessage env fd msg.header rs msg.body = .ok rs') :
    rs'.player = getPlayerFromFd fd rs'.server := by
  rcases handleMessage_cases env h with ⟨htype, -⟩ | ⟨-, hsame, -, hswitch⟩
  · exact absurd htype hregister
  · rw [hsame, hplayer, getPlayerFromFd_congr fd (serverSwitch_fds env hswitch)]

/-- Messages of one type, none of them a blank REGISTER, are handled in one call
as each is on its own. -/
theorem run_handleMessage_eq (s : Server) {first : Message} {msgs : List Message}
    (htype : ∀ msg ∈ msgs, msg.messageType = first.messageType)
    (hname : ∀ msg ∈ msgs, msg.messageType = msgTypeRegister → ¬BlankName msg) :
    (run (fun rs msg => handleMessage env fd msg.header rs msg.body)
        ⟨s, getPlayerFromFd fd s, none⟩ msgs).map (fun rs => rs.server.unshadowed) =
      run (handleAlone env fd) s.unshadowed msgs := by
  -- the invariant: unless players register, the local pointer is the one of a new call
  refine @run_map _ _ _ (fun rs (msg : Message) => handleMessage env fd msg.header rs msg.body) _
    (handleAlone env fd) (fun rs => rs.server.unshadowed)
    (fun rs => first.messageType ≠ msgTypeRegister → rs.player = getPlayerFromFd fd rs.server)
    msgs ?_ ?_ ⟨s, getPlayerFromFd fd s, none⟩ fun _ => rfl
  · intro rs msg hmsg hplayer
    rw [handleAlone_unshadowed, ← handleMessage_alone env (hname msg hmsg) (htype msg hmsg ▸ hplayer)]
    cases handleMessage env fd msg.header rs msg.body with
    | error e => rfl
    | ok rs' => rfl
  · intro rs msg hmsg rs' hplayer h hregister
    exact handleMessage_player env (htype msg hmsg ▸ hregister) (hplayer hregister) h

/-- With the buffer `name` never written, a blank REGISTER reads it uninitialised. -/
theorem handleMessage_blank (hregister : msg.messageType = msgTypeRegister) (hblank : BlankName msg)
    (hname : rs.name = none) (fd : ℤ) :
    handleMessage env fd msg.header rs msg.body = .error .uninitialised := by
  rw [handleMessage, msg.header_messageType, if_pos hregister, registerPlayer, hblank, access_some,
    ok_bind, if_pos rfl, hname]

/-- With a name in the buffer every REGISTER returns, and there is one after a
REGISTER that is not blank. -/
theorem handleMessage_named (hmsg : ClientMessage msg) (hregister : msg.messageType = msgTypeRegister)
    (hname : rs.name.isSome ∨ ¬BlankName msg) (fd : ℤ) :
    ∃ rs', handleMessage env fd msg.header rs msg.body = .ok rs' ∧ rs'.name.isSome := by
  obtain ⟨word, hbody⟩ := sscanfWord_of_mem (hmsg.register hregister) 15
  obtain ⟨name, hchoice⟩ : ∃ name, (if word = [] then rs.name else some word) = some name := by
    rcases hname with hsome | hnamed
    · obtain ⟨name, hrs⟩ := Option.isSome_iff_exists.mp hsome
      split_ifs
      · exact ⟨name, hrs⟩
      · exact ⟨word, rfl⟩
    · have hne : word ≠ [] := by
        rintro rfl
        exact hnamed hbody
      exact ⟨word, if_neg hne⟩
  refine ⟨⟨(playerCreate env fd name rs.server).1, some rs.server.players.length, some name⟩, ?_, rfl⟩
  rw [handleMessage, msg.header_messageType, if_pos hregister]
  exact (registerPlayer_eq_ok env).mpr ⟨word, name, hbody, hchoice, rfl⟩

end Alone

/-- All messages have the same type, request id and body length. -/
def OneHeader (msgs : List Message) : Prop :=
  ∀ msg ∈ msgs, ∀ msg' ∈ msgs, msg.header = msg'.header

/-- When some REGISTER has a blank name, the first message has one. -/
def BlankFirst (msgs : List Message) : Prop :=
  ∀ msg ∈ msgs, msg.messageType = msgTypeRegister → BlankName msg →
    ∀ first ∈ msgs.head?, BlankName first

section Chunk

variable (env : ServerEnv) (fd : ℕ) {s : Server} {first : Message} {msgs : List Message}

theorem readFromClient_uniform (hs : ServerInv s) (hmsgs : ∀ msg ∈ first :: msgs, ClientMessage msg)
    (hheader : ∀ msg ∈ first :: msgs, msg.header = first.header) (stale : Fresh) :
    (readFromClient env fd stale (encodeAll (first :: msgs)) s).map Server.unshadowed =
      (run (fun rs msg => handleMessage env fd msg.header rs msg.body)
        ⟨s, getPlayerFromFd fd s, none⟩ (first :: msgs)).map fun rs => rs.server.unshadowed := by
  have hne : encodeAll (first :: msgs) ≠ [] := by
    apply List.ne_nil_of_length_pos
    change 0 < (first.encode ++ encodeAll msgs).length
    rw [List.length_append, length_encode, Message.size, messageHeaderSize]
    omega
  rw [readFromClient, if_neg hne, clientLoop_uniform hmsgs hheader stale env]
  cases hrun : run (fun rs msg => handleMessage env fd msg.header rs msg.body)
      ⟨s, getPlayerFromFd fd s, none⟩ (first :: msgs) with
  | error e => rfl
  | ok rs =>
    -- after the last message the boards can be sent
    have hinv : ReadInv rs := invariant_run
      (fun rs (msg : Message) => handleMessage env fd msg.header rs msg.body)
      (fun _ _ _ hrs h => handleMessage_inv env hrs h) (readInv_start hs fd) hrun
    exact finishRead_map env hinv

theorem readHeader_returns {m : Bytes} (h : headerFieldsSize ≤ m.length) :
    ∃ header, readHeader m 0 = some header := by
  rw [headerFieldsSize] at h
  refine ⟨⟨leNat ((m.drop 0).take 4), leNat ((m.drop 4).take 2), leNat ((m.drop 6).take 2),
    m[8]⟩, ?_⟩
  rw [readHeader_eq_some, leField, leField, leField, if_pos (by omega), if_pos (by omega),
    if_pos (by omega)]
  exact ⟨rfl, rfl, rfl, List.getElem?_eq_getElem (by omega)⟩

/-- There is always a header to read, if need be from what the buffer held before. -/
theorem readHeader_recvBuffer (stale : Fresh) (chunk : Bytes) :
    ∃ header, readHeader (recvBuffer stale chunk) 0 = some header := by
  apply readHeader_returns
  rw [recvBuffer, List.length_append, List.length_drop, length_malloc, headerFieldsSize, maxMsg]
  omega

theorem sameAsOneByOne_nil : SameAsOneByOne env s fd [] := by
  intro stale
  constructor
  · obtain ⟨header, hheader⟩ := readHeader_recvBuffer stale []
    change dispatched (recvBuffer stale []) 0 = some ([], 0)
    rw [dispatched, hheader]
    rfl
  · intro calls hcalls
    rw [List.map_eq_nil_iff.mp hcalls]
    rfl

theorem sameAsOneByOne_of_oneHeader (hs : ServerInv s)
    (hmsgs : ∀ msg ∈ first :: msgs, ClientMessage msg) (hheader : OneHeader (first :: msgs))
    (hblank : BlankFirst (first :: msgs)) : SameAsOneByOne env s fd (first :: msgs) := by
  have hfirst (msg : Message) (hmsg : msg ∈ first :: msgs) : msg.header = first.header :=
    hheader msg hmsg first (List.mem_cons_self ..)
  have htype (msg : Message) (hmsg : msg ∈ first :: msgs) : msg.messageType = first.messageType :=
    congrArg MessageHeader.messageType (hfirst msg hmsg)
  intro stale
  refine ⟨dispatched_uniform hmsgs hfirst stale, ?_⟩
  intro calls hcalls
  have hsingle : ∀ call ∈ calls, ClientMessage call.2 := by
    intro call hcall
    exact hmsgs call.2 (hcalls ▸ List.mem_map_of_mem hcall)
  rw [readFromClient_uniform env fd hs hmsgs hfirst, readOneByOne_eq env fd hs hsingle, hcalls]
  by_cases hname : ∀ msg ∈ first :: msgs, msg.messageType = msgTypeRegister → ¬BlankName msg
  · exact run_handleMessage_eq env s htype hname
  · -- the first name is blank, and both readers stop there
    push Not at hname
    obtain ⟨msg, hmsg, hregister, hmsgblank⟩ := hname
    have hfirstblank : BlankName first := hblank msg hmsg hregister hmsgblank first rfl
    have hfirsttype : first.messageType = msgTypeRegister := (htype msg hmsg).symm.trans hregister
    rw [run, run, handleAlone, handleMessage_blank env hfirsttype hfirstblank rfl,
      handleMessage_blank env hfirsttype hfirstblank rfl]
    rfl

theorem oneHeader_of_same (h : SameAsOneByOne env s fd msgs) : OneHeader msgs := by
  -- what is dispatched has the one header that the loop has read
  obtain ⟨header, hheader⟩ := header_of_dispatched (h fun _ => 0).1
  intro msg hmsg msg' hmsg'
  rw [hheader msg hmsg, hheader msg' hmsg']

theorem blankFirst_of_same (hs : ServerInv s) (hmsgs : ∀ msg ∈ first :: msgs, ClientMessage msg)
    (hheader : OneHeader (first :: msgs)) (h : SameAsOneByOne env s fd (first :: msgs)) :
    BlankFirst (first :: msgs) := by
  intro msg hmsg hregister hmsgblank first' hfirst'
  obtain rfl : first = first' := Option.some.inj hfirst'
  by_contra hnamed
  have htype (m : Message) (hm : m ∈ first :: msgs) : m.messageType = msgTypeRegister :=
    (congrArg MessageHeader.messageType (hheader m hm msg hmsg)).trans hregister
  -- the merged chunk returns, since the first name stays in the buffer
  obtain ⟨rs₁, hrs₁, hsome⟩ : ∃ rs₁, handleMessage env fd first.header
      ⟨s, getPlayerFromFd fd s, none⟩ first.body = .ok rs₁ ∧ rs₁.name.isSome :=
    handleMessage_named env (hmsgs first (List.mem_cons_self ..)) (htype first (List.mem_cons_self ..))
      (Or.inr hnamed) fd
  -- from then on every REGISTER finds a name
  obtain ⟨rs₂, hrs₂, -⟩ := @run_returns _ _ _
    (fun rs (msg : Message) => handleMessage env fd msg.header rs msg.body)
    (fun rs => rs.name.isSome) msgs
    (fun rs m hm hname => handleMessage_named env (hmsgs m (List.mem_cons_of_mem _ hm))
      (htype m (List.mem_cons_of_mem _ hm)) (Or.inl hname) fd) rs₁ hsome
  have hmerged := readFromClient_uniform env fd hs hmsgs
    (fun m hm => hheader m hm first (List.mem_cons_self ..)) fun _ => 0
  rw [run_cons_ok _ msgs hrs₁, hrs₂] at hmerged
  -- but alone the blank message is refused
  have hsingle := (h fun _ => 0).2 ((first :: msgs).map fun m => (fun _ => 0, m))
    (by rw [List.map_map]; exact List.map_id _)
  rw [hmerged] at hsingle
  obtain ⟨t, ht⟩ : ∃ t, readOneByOne env fd s ((first :: msgs).map fun m => (fun _ => 0, m)) =
      .ok t := by
    cases hread : readOneByOne env fd s ((first :: msgs).map fun m => (fun _ => 0, m)) with
    | error e =>
      rw [hread] at hsingle
      exact absurd hsingle (by simp [Except.map])
    | ok t => exact ⟨t, rfl⟩
  obtain ⟨s', t', hstep⟩ := step_returns_of_run _ ht (List.mem_map_of_mem hmsg)
  rw [readFromClient_single env (hmsgs msg hmsg), handleMessage_blank env hregister hmsgblank rfl]
    at hstep
  exact absurd hstep (by simp)

/-- A chunk of client messages does what the messages do one recv at a time
exactly when all of them have the same header and none of them is a REGISTER with
a blank name, or the first is. -/
theorem merged_chunk_same_iff {events : List ServerEvent}
    (hs : run (serverStep env) serverInit events = .ok s)
    (hmsgs : ∀ msg ∈ msgs, ClientMessage msg) :
    SameAsOneByOne env s fd msgs ↔ OneHeader msgs ∧ BlankFirst msgs := by
  have hinv := server_invariant env hs
  cases msgs with
  | nil =>
    have hnone : OneHeader [] ∧ BlankFirst [] := by
      constructor <;> intro msg hmsg <;> exact absurd hmsg (by simp)
    exact ⟨fun _ => hnone, fun _ => sameAsOneByOne_nil env fd⟩
  | cons first msgs =>
    constructor
    · intro h
      have hheader := oneHeader_of_same env fd h
      exact ⟨hheader, blankFirst_of_same env fd hinv hmsgs hheader h⟩
    · rintro ⟨hheader, hblank⟩
      exact sameAsOneByOne_of_oneHeader env fd hinv hmsgs hheader hblank

end Chunk

/-- Two START_GAME messages in one chunk. -/
theorem merged_chunk_same_two_starts : ∃ s,
    run (serverStep heroEnv) serverInit
        ((registerBoth ++ [invitation 4 66 (by decide)]).map Delivery.event) = .ok s ∧
      SameAsOneByOne heroEnv s 4
        [bareMessage msgTypeStartGame 0, bareMessage msgTypeStartGame 0] := by
  obtain ⟨s, hs, -⟩ : ∃ s, run (serverStep heroEnv) serverInit
      ((registerBoth ++ [invitation 4 66 (by decide)]).map Delivery.event) = .ok s ∧
        s.clocks = [] := by
    apply exists_ok_of_map Server.clocks
    decide +kernel
  have hwf : ∀ msg ∈ [bareMessage msgTypeStartGame 0, bareMessage msgTypeStartGame 0],
      ClientMessage msg := by
    intro msg hmsg
    have heq : msg = bareMessage msgTypeStartGame 0 := by simpa using hmsg
    rw [heq]
    exact bareMessage_wellFormed (by decide) (by decide)
  refine ⟨s, hs, (merged_chunk_same_iff heroEnv 4 hs hwf).mpr ⟨by rw [OneHeader]; decide, ?_⟩⟩
  intro msg hmsg hregister
  have heq : msg = bareMessage msgTypeStartGame 0 := by simpa using hmsg
  rw [heq] at hregister
  exact absurd hregister (by decide)

/-- OPPONENT and START_GAME in one chunk, as the lobby of the client sends them:
the second message is taken for another OPPONENT, and no clock is started. -/
theorem merged_opponent_start_not_started : ∃ s,
    run (serverStep heroEnv) serverInit (registerBoth.map Delivery.event) = .ok s ∧
      (∀ msg ∈ [opponentMessage 3 15 [[66]] [], bareMessage msgTypeStartGame 0],
        ClientMessage msg) ∧
      ¬SameAsOneByOne heroEnv s 4
        [opponentMessage 3 15 [[66]] [], bareMessage msgTypeStartGame 0] := by
  obtain ⟨s, hs, hfacts⟩ : ∃ s, run (serverStep heroEnv) serverInit
      (registerBoth.map Delivery.event) = .ok s ∧
        ((readFromClient heroEnv 4 (fun _ => 0)
            (encodeAll [opponentMessage 3 15 [[66]] [], bareMessage msgTypeStartGame 0])
            s).toOption.map Server.clocks,
          (readOneByOne heroEnv 4 s [(fun _ => 0, opponentMessage 3 15 [[66]] []),
            (fun _ => 0, bareMessage msgTypeStartGame 0)]).toOption.map Server.clocks) =
          (some [], some [0, 1]) := by
    apply exists_ok_of_map (fun s => ((readFromClient heroEnv 4 (fun _ => 0)
        (encodeAll [opponentMessage 3 15 [[66]] [], bareMessage msgTypeStartGame 0])
        s).toOption.map Server.clocks,
      (readOneByOne heroEnv 4 s [(fun _ => 0, opponentMessage 3 15 [[66]] []),
        (fun _ => 0, bareMessage msgTypeStartGame 0)]).toOption.map Server.clocks))
    decide +kernel
  simp only [Prod.mk.injEq] at hfacts
  obtain ⟨hmerged, hsingle⟩ := hfacts
  refine ⟨s, hs, ?_, ?_⟩
  · intro msg hmsg
    obtain rfl | rfl : msg = opponentMessage 3 15 [[66]] [] ∨ msg = bareMessage msgTypeStartGame 0 := by
      simpa using hmsg
    · exact opponentMessage_wellFormed (by decide) (by decide) (by decide) (by decide)
    · exact bareMessage_wellFormed (by decide) (by decide)
  · intro hsame
    have hclocks (x : Except Fault Server) :
        (x.map Server.unshadowed).toOption.map Server.clocks = x.toOption.map Server.clocks := by
      cases x <;> rfl
    have heq := congrArg (fun x => x.toOption.map Server.clocks)
      ((hsame fun _ => 0).2 [(fun _ => 0, opponentMessage 3 15 [[66]] []),
        (fun _ => 0, bareMessage msgTypeStartGame 0)] rfl)
    simp only [hclocks] at heq
    rw [hmerged, hsingle] at heq
    exact absurd heq (by decide)

end TetrisMint
