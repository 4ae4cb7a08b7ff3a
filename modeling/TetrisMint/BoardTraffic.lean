import TetrisMint.ClientSpec
import TetrisMint.ServerTraffic

/-! The boards that the server sends: whose game they show, in which state, and who gets them. -/
namespace TetrisMint

open CStrings FallibleRun

/-- A game is drawn as a view. -/
def Draws (gc : GameContents) (view : GameViewData) : Prop :=
  ∃ contents, generateGameViewData gc = .ok (contents, view)

/-- The BOARD message of a view. -/
def boardPayload (name : Bytes) (view : GameViewData) : Bytes :=
  messageNbytes (name.take playerNameMaxChars ++ 0 :: viewBytes view) 0 msgTypeBoard

/-- A player has the name, and his game is drawn as the view. -/
def Showing (player : ℕ) (name : Bytes) (view : GameViewData) (s : Server) : Prop :=
  ∃ p, s.players[player]? = some p ∧ p.name = name ∧ Draws p.contents view

/-- The sockets of some players, without the closed ones. -/
def openSockets (s : Server) (l : List ℕ) : List ℤ :=
  ((l.filterMap (s.players[·]?)).map Player.fd).filter (0 ≤ ·)

/-- One payload goes to the open sockets of some players: to each of them, and to none more
often than its player is listed. -/
structure BoardsSent (s : Server) (receivers : List ℕ) (payload : Bytes)
    (boards : List (ℤ × Bytes)) : Prop where
  payloads : ∀ board ∈ boards, board.2 = payload
  sockets : (boards.map Prod.fst).Sublist (openSockets s receivers)
  reached : ∀ fd ∈ openSockets s receivers, fd ∈ boards.map Prod.fst

/-- The player whose boards go out at the end of an event. -/
def speaker (s t : Server) : ServerEvent → Option ℕ
  | .recv fd _ chunk =>
    if chunk = [] then none
    else if t.players.length = s.players.length then getPlayerFromFd fd s
    else some (t.players.length - 1)
  | .tick clock _ => s.clocks[clock]?

section Drawing

variable {gc gc' : GameContents} {view : GameViewData}

theorem draws_unshadowed : Draws gc.unshadowed view ↔ Draws gc view := by
  have hsame : generateGameViewData gc.unshadowed = generateGameViewData gc := by
    have hdrop : dropBlock gc.unshadowed gc.unshadowed.activeBlock = dropBlock gc gc.activeBlock := rfl
    rw [generateGameViewData, generateGameViewData, generateShadowBlock, generateShadowBlock, hdrop]
    cases dropBlock gc gc.activeBlock with
    | error e => rfl
    | ok block => rfl
  rw [Draws, Draws, hsame]

theorem draws_congr (h : gc'.unshadowed = gc.unshadowed) : Draws gc' view ↔ Draws gc view := by
  rw [← draws_unshadowed, h, draws_unshadowed]

variable {s t : Server} {player : ℕ} {name : Bytes}

theorem Showing.congr (h : t.unshadowed = s.unshadowed) (hs : Showing player name view s) :
    Showing player name view t := by
  obtain ⟨p, hp, hname, hdraws⟩ := hs
  have hget : t.players[player]?.map Player.unshadowed = some p.unshadowed := by
    rw [← getElem?_unshadowed, h, getElem?_unshadowed, hp, Option.map_some]
  obtain ⟨q, hq, hqp⟩ := Option.map_eq_some_iff.mp hget
  have hcontents : q.contents.unshadowed = p.contents.unshadowed := congrArg Player.contents hqp
  have hnames : q.unshadowed.name = p.unshadowed.name := congrArg Player.name hqp
  exact ⟨q, hq, hnames.trans hname, (draws_congr hcontents).mpr hdraws⟩

theorem openSockets_cons {r : Player} {receiver : ℕ} (hr : s.players[receiver]? = some r) (l : List ℕ) :
    openSockets s (receiver :: l) = (if r.fd < 0 then [] else [r.fd]) ++ openSockets s l := by
  rw [openSockets, List.filterMap_cons_some hr, List.map_cons]
  by_cases hclosed : r.fd < 0
  · rw [if_pos hclosed, List.filter_cons_of_neg (by simpa using hclosed)]
    rfl
  · rw [if_neg hclosed, List.filter_cons_of_pos (by simpa using hclosed)]
    rfl

theorem openSockets_congr (h : t.keys = s.keys) (l : List ℕ) : openSockets t l = openSockets s l := by
  have hfd (u : Server) (i : ℕ) : u.players[i]?.map Player.fd = u.keys[i]?.map Prod.fst := by
    rw [Server.keys, List.getElem?_map, Option.map_map]
    rfl
  rw [openSockets, openSockets, List.map_filterMap, List.map_filterMap]
  congr 2
  funext i
  rw [hfd, hfd, h]

end Drawing

namespace Traffic

section Boards

variable (env : ServerEnv) {mem : WireMemory} {w w' : Traffic} {player : ℕ} {name : Bytes}
  {view : GameViewData}

include env

theorem sendPlayer_unshadowed {fd : ℤ} (h : sendPlayer mem fd player w = .ok w') :
    w'.server.unshadowed = w.server.unshadowed :=
  TetrisMint.sendPlayer_unshadowed env (sendPlayer_server env h)

omit env in
/-- What send_player hands to send. -/
theorem sendPlayer_sent {fd : ℤ} (h0 : 0 ∉ name) (hs : Showing player name view w.server)
    (h : sendPlayer mem fd player w = .ok w') :
    w'.sent = w.sent ++ if fd < 0 then [] else [(fd, boardPayload name view)] := by
  obtain ⟨p, hp, rfl, contents, hview⟩ := hs
  rw [sendPlayer] at h
  split_ifs at h ⊢
  · rw [← Except.ok.inj h, List.append_nil]
  · have hlength : (p.name.take playerNameMaxChars ++ 0 :: viewBytes view).length =
        gameViewDataSize + (p.name.take playerNameMaxChars).length + 1 := by
      simp only [List.length_append, List.length_cons, length_viewBytes]
      omega
    simp only [hp, deref_some, ok_bind, serializeState_eq h0 hview, messageBlob, bytesAt] at h
    rw [if_pos hlength.ge, List.take_of_length_le hlength.le, access_some, ok_bind] at h
    rw [← Except.ok.inj h, boardPayload]

theorem sendBoards_sent (h0 : 0 ∉ name) {receivers : List ℕ} (hs : Showing player name view w.server)
    (h : run (sendBoard mem player) w receivers = .ok w') :
    w'.sent = w.sent ++ (openSockets w.server receivers).map fun fd => (fd, boardPayload name view) := by
  induction receivers generalizing w with
  | nil =>
    rw [run_nil, Except.ok.injEq] at h
    rw [h]
    exact (List.append_nil _).symm
  | cons receiver receivers ih =>
    obtain ⟨u, hu, h⟩ := (run_cons_eq_ok _).mp h
    obtain ⟨r, hr, hu⟩ := bind_eq_ok.mp hu
    have hsame := sendPlayer_unshadowed env hu
    rw [ih (hs.congr hsame) h, sendPlayer_sent h0 hs hu, openSockets_congr (keys_of_unshadowed hsame),
      openSockets_cons (deref_eq_ok.mp hr), List.map_append, List.append_assoc]
    split_ifs <;> rfl

/-- Along the turns of a clock's loop a socket is the first one still, or it is closed and has
had its board. -/
def Sockets (s : Server) (done : List ℤ) (t : Server) : Prop :=
  ∀ (i : ℕ) (q : Player), t.players[i]? = some q → ∃ p, s.players[i]? = some p ∧
    (q.fd = p.fd ∨ q.fd < 0 ∧ (0 ≤ p.fd → p.fd ∈ done))

theorem clockSendBoard_step {fails : ℕ → Bool} {receiver : ℕ × ℕ} {s : Server} {done : List ℤ}
    (h0 : 0 ∉ name) (hs : Showing player name view w.server) (hsockets : Sockets s done w.server)
    (h : clockSendBoard mem fails player w receiver = .ok w') :
    ∃ p fds, s.players[receiver.1]? = some p ∧
      w'.sent = w.sent ++ fds.map (fun fd => (fd, boardPayload name view)) ∧
      fds.Sublist (if p.fd < 0 then [] else [p.fd]) ∧ (0 ≤ p.fd → p.fd ∈ done ++ fds) ∧
      Showing player name view w'.server ∧ Sockets s (done ++ fds) w'.server := by
  obtain ⟨r, hr, h⟩ := bind_eq_ok.mp h
  obtain ⟨u, hu, h⟩ := bind_eq_ok.mp h
  obtain ⟨p, hp, hfd⟩ := hsockets receiver.1 r (deref_eq_ok.mp hr)
  have hsame := sendPlayer_unshadowed env hu
  have hsent := sendPlayer_sent h0 hs hu
  have hshown := hs.congr hsame
  -- nothing is closed before the send has been tried
  have hu : Sockets s done u.server := by
    intro i q hq
    have hkey : w.server.keys[i]? = some q.key := by
      rw [← keys_of_unshadowed hsame]
      exact keys_getElem? hq
    obtain ⟨q', hq', hkey⟩ := exists_player hkey
    have hfd : q'.fd = q.fd := congrArg Prod.fst hkey
    rw [← hfd]
    exact hsockets i q' hq'
  refine ⟨p, if r.fd < 0 then [] else [r.fd], hp, ?_⟩
  have hfds : (if r.fd < 0 then [] else [r.fd]).Sublist (if p.fd < 0 then [] else [p.fd]) ∧
      (0 ≤ p.fd → p.fd ∈ done ++ if r.fd < 0 then [] else [r.fd]) := by
    rcases hfd with hfd | ⟨hclosed, hdone⟩
    · rw [hfd]
      refine ⟨List.Sublist.refl _, ?_⟩
      intro hopen
      rw [if_neg (not_lt.mpr hopen)]
      exact List.mem_append_right _ (List.mem_singleton.mpr rfl)
    · rw [if_pos hclosed]
      exact ⟨List.nil_sublist _, fun hopen => List.mem_append_left _ (hdone hopen)⟩
  have hmore : Sockets s (done ++ if r.fd < 0 then [] else [r.fd]) u.server := by
    intro i q hq
    obtain ⟨q', hq', hfd⟩ := hu i q hq
    exact ⟨q', hq', hfd.imp_right fun h => ⟨h.1, fun hopen => List.mem_append_left _ (h.2 hopen)⟩⟩
  have hpayloads : w.sent ++ (if r.fd < 0 then [] else [(r.fd, boardPayload name view)]) =
      w.sent ++ (if r.fd < 0 then [] else [r.fd]).map fun fd => (fd, boardPayload name view) := by
    split_ifs <;> rfl
  rw [hpayloads] at hsent
  split_ifs at h with hlost
  · rw [← Except.ok.inj h]
    refine ⟨hsent, hfds.1, hfds.2, ?_, ?_⟩
    · obtain ⟨q, hq, hname, hdraws⟩ := hshown
      rw [Showing, List.getElem?_modify, hq]
      split_ifs
      · exact ⟨_, rfl, hname, hdraws⟩
      · exact ⟨q, rfl, hname, hdraws⟩
    · intro i q hq
      simp only [List.getElem?_modify] at hq
      obtain ⟨q', hq', rfl⟩ := Option.map_eq_some_iff.mp hq
      by_cases hi : receiver.1 = i
      · subst hi
        refine ⟨p, hp, Or.inr ⟨?_, hfds.2⟩⟩
        rw [if_pos rfl]
        change (-1 : ℤ) < 0
        decide
      · rw [if_neg hi]
        exact hmore i q' hq'
  · rw [← Except.ok.inj h]
    exact ⟨hsent, hfds.1, hfds.2, hshown, hmore⟩

theorem clockSendBoards_sent {fails : ℕ → Bool} {receivers : List (ℕ × ℕ)} {s : Server}
    {done : List ℤ} (h0 : 0 ∉ name) (hs : Showing player name view w.server)
    (hsockets : Sockets s done w.server) (h : run (clockSendBoard mem fails player) w receivers = .ok w') :
    ∃ fds, w'.sent = w.sent ++ fds.map (fun fd => (fd, boardPayload name view)) ∧
      fds.Sublist (openSockets s (receivers.map Prod.fst)) ∧
      (∀ fd ∈ openSockets s (receivers.map Prod.fst), fd ∈ done ++ fds) ∧
      Showing player name view w'.server := by
  induction receivers generalizing w done with
  | nil =>
    rw [run_nil, Except.ok.injEq] at h
    subst h
    exact ⟨[], (List.append_nil _).symm, List.nil_sublist _, by simp [openSockets], hs⟩
  | cons receiver receivers ih =>
    obtain ⟨u, hu, h⟩ := (run_cons_eq_ok _).mp h
    obtain ⟨p, fds, hp, hsent, hsub, hreached, hshown, hmore⟩ :=
      clockSendBoard_step env h0 hs hsockets hu
    obtain ⟨fds', hsent', hsub', hreached', hshown'⟩ := ih hshown hmore h
    refine ⟨fds ++ fds', ?_, ?_, ?_, hshown'⟩
    · rw [hsent', hsent, List.map_append, List.append_assoc]
    · rw [List.map_cons, openSockets_cons hp]
      exact hsub.append hsub'
    · intro fd hfd
      rw [List.map_cons, openSockets_cons hp] at hfd
      rw [← List.append_assoc]
      rcases List.mem_append.mp hfd with hfirst | hlater
      · -- the first receiver gets its board unless its socket was closed
        split_ifs at hfirst with hclosed
        · exact absurd hfirst (by simp)
        · rw [List.mem_singleton.mp hfirst]
          exact List.mem_append_left _ (hreached (not_lt.mp hclosed))
      · exact hreached' fd hlater

end Boards

section Events

variable (env : ServerEnv) {mem : WireMemory} {w w' : Traffic}

/-- None of the answers is a BOARD. -/
def Answers (answers : List (ℤ × Bytes)) : Prop :=
  ∀ answer ∈ answers, ∃ bytes id messageType, answer.2 = messageNbytes bytes id messageType ∧
    messageType ∈ [msgTypeGameStarted, msgTypeRegisterSuccess, msgTypeListResponse]

theorem Answers.append {answers answers' : List (ℤ × Bytes)} (h : Answers answers)
    (h' : Answers answers') : Answers (answers ++ answers') := List.forall_mem_append.mpr ⟨h, h'⟩

theorem sendStringArray_message {fresh : Fresh} {arr : StringArray} {id : ℤ} {messageType : UInt8}
    {payload : Bytes} (h : sendStringArray fresh arr id messageType = .ok payload) :
    ∃ bytes, payload = messageNbytes bytes id messageType := by
  obtain ⟨blob, -, h⟩ := bind_eq_ok.mp h
  obtain ⟨bytes, -, h⟩ := bind_eq_ok.mp h
  exact ⟨bytes, (Except.ok.inj h).symm⟩

theorem replies_answers {fd : ℤ} {header : MessageHeader} {n : ℕ} {rs : ReadState}
    {answers : List (ℤ × Bytes)} (h : replies mem fd header n rs = .ok answers) : Answers answers := by
  rw [replies] at h
  split_ifs at h
  · simp only [bind_eq_ok] at h
    obtain ⟨player, -, p, -, h⟩ := h
    split at h
    · rw [← Except.ok.inj h]
      exact fun answer hmem => absurd hmem (by simp)
    · simp only [tellPartyThatTheGameStarted, bind_eq_ok] at h
      obtain ⟨arr, -, payload, hpayload, h⟩ := h
      obtain ⟨bytes, hbytes⟩ := sendStringArray_message hpayload
      rw [← Except.ok.inj h]
      intro answer hmem
      obtain ⟨p, -, rfl⟩ := List.mem_map.mp hmem
      exact ⟨bytes, 0, msgTypeGameStarted, hbytes, by decide⟩
  · rw [← Except.ok.inj h]
    intro answer hmem
    rw [List.mem_singleton.mp hmem]
    exact ⟨[], header.requestId, msgTypeRegisterSuccess, rfl, by decide⟩
  · simp only [sendOnlineUsers, bind_eq_ok] at h
    obtain ⟨payload, ⟨arr, -, hpayload⟩, h⟩ := h
    obtain ⟨bytes, hbytes⟩ := sendStringArray_message hpayload
    rw [← Except.ok.inj h]
    intro answer hmem
    rw [List.mem_singleton.mp hmem]
    exact ⟨bytes, header.requestId, msgTypeListResponse, hbytes, by decide⟩
  · rw [← Except.ok.inj h]
    exact fun answer hmem => absurd hmem (by simp)

/-- The current player of read_from_client is the one it has found, until it registers one. -/
structure Current (rs rs' : ReadState) : Prop where
  length : rs.server.players.length ≤ rs'.server.players.length
  player : rs'.player = if rs'.server.players.length = rs.server.players.length then rs.player
    else some (rs'.server.players.length - 1)

theorem handleMessage_current {fd : ℤ} {header : MessageHeader} {cursor : Bytes} {rs rs' : ReadState}
    (h : TetrisMint.handleMessage env fd header rs cursor = .ok rs') :
    Current rs rs' := by
  have hlength {s t : TetrisMint.Server} (hkeys : t.keys = s.keys) : t.players.length = s.players.length := by
    have hcount := congrArg List.length hkeys
    rwa [TetrisMint.Server.keys, TetrisMint.Server.keys, List.length_map, List.length_map] at hcount
  rcases handleMessage_cases env h with ⟨-, hregister⟩ | ⟨-, hplayer, -, hswitch⟩
  · obtain ⟨word, name, -, -, rfl⟩ := (registerPlayer_eq_ok env).mp hregister
    have hone : (playerCreate env fd name rs.server).1.players.length = rs.server.players.length + 1 := by
      rw [playerCreate, List.length_append, List.length_singleton]
    have hmore : (playerCreate env fd name rs.server).1.players.length ≠ rs.server.players.length :=
      hone ▸ Nat.succ_ne_self _
    constructor
    · exact hone ▸ Nat.le_succ _
    · apply Eq.symm
      apply (if_neg hmore).trans
      rw [hone, Nat.add_sub_cancel]
  · have hsame := hlength (serverSwitch_keys env hswitch)
    exact ⟨hsame.ge, by rw [if_pos hsame, hplayer]⟩

/-- What the loop of read_from_client sends are answers. -/
theorem clientLoop_sent {fd : ℤ} {buffer : Bytes} {nbytes fuel cursor : ℕ} {v v' : ReadTraffic}
    (h : clientLoop env mem fd buffer nbytes fuel cursor v = .ok v') :
    ∃ answers, Answers answers ∧ v'.sent = v.sent ++ answers ∧ Current v.state v'.state := by
  induction fuel generalizing cursor v with
  | zero => exact absurd h (by simp [clientLoop])
  | succ fuel ih =>
    rw [clientLoop] at h
    split_ifs at h
    · obtain ⟨header, -, h⟩ := bind_eq_ok.mp h
      obtain ⟨u, hu, h⟩ := bind_eq_ok.mp h
      obtain ⟨rs, hrs, hu⟩ := bind_eq_ok.mp hu
      obtain ⟨answers, hanswers, hu⟩ := bind_eq_ok.mp hu
      obtain ⟨later, hlater, hsent, hcurrent⟩ := ih h
      rw [← Except.ok.inj hu] at hsent hcurrent
      have hfirst := handleMessage_current env hrs
      refine ⟨answers ++ later, (replies_answers hanswers).append hlater, ?_, ?_⟩
      · rw [hsent, List.append_assoc]
      · constructor
        · exact hfirst.length.trans hcurrent.length
        · rw [hcurrent.player, hfirst.player]
          have h₁ := hfirst.length
          have h₂ := hcurrent.length
          simp only at h₁ h₂ ⊢
          -- once somebody is registered, the last one counts
          split_ifs with hlater hfirst hboth hboth
          · rfl
          · exact absurd (hlater.trans hfirst) hboth
          · exact absurd (le_antisymm (hlater ▸ hboth.le) h₁) hfirst
          · rw [hlater]
          · omega
          · rfl
    · refine ⟨[], fun answer hmem => absurd hmem (by simp), ?_, ?_⟩
      · rw [Except.ok.inj h, List.append_nil]
      · rw [Except.ok.inj h]
        exact ⟨le_refl _, (if_pos rfl).symm⟩

end Events

end Traffic

section Client

variable {name : Bytes} {view : GameViewData}

/-- The body of a BOARD message as the client should see it. -/
def boardBody (name : Bytes) (view : GameViewData) : Bytes :=
  name.take playerNameMaxChars ++ 0 :: viewBytes view

theorem boardPayload_encode (name : Bytes) (view : GameViewData) :
    boardPayload name view = Message.encode ⟨msgTypeBoard, 0, boardBody name view⟩ := rfl

theorem length_boardBody_le (name : Bytes) (view : GameViewData) :
    (boardBody name view).length ≤ gameViewDataSize + 16 := by
  have hname : (name.take playerNameMaxChars).length ≤ 15 := List.length_take_le _ _
  rw [boardBody, List.length_append, List.length_cons, length_viewBytes]
  omega

/-- A client that receives the payload alone has the view, and nothing else has changed. -/
theorem board_received (h0 : 0 ∉ name) (heap : ℕ → Fresh) (stale : Fresh) {client : NetClient}
    {player : LocalPlayer} (hplayer : client.player = some player) :
    readFromServer heap stale client (boardPayload name view) =
      .ok ({ client with player := some { player with view := viewBytes view } },
        [(0, ⟨msgTypeBoard, 0, boardBody name view⟩)]) := by
  let msg : Message := ⟨msgTypeBoard, 0, boardBody name view⟩
  have hfits : msg.Fits := by
    have hlen := length_boardBody_le name view
    have hview : gameViewDataSize = 976 := rfl
    constructor
    · exact Nat.two_pow_pos 16
    · change (boardBody name view).length < 2 ^ 16
      omega
  have hread (rest : Bytes) : readGameViewData (msg.body ++ rest) = .ok (viewBytes view) := by
    apply readGameViewData_spec _ (List.length_take_le _ _) (length_viewBytes view)
    exact fun h => h0 (List.mem_of_mem_take h)
  have hswitch (rest : Bytes) : clientSwitch heap msg.header (msg.body ++ rest) client =
      .ok (some { client with player := some { player with view := viewBytes view } }) := by
    have htype : msgTypeBoard ≠ msgTypeGameStarted := by decide
    rw [clientSwitch, Message.header_messageType, if_neg htype, if_pos rfl, hplayer]
    simp only [hread, ok_bind]
  rw [boardPayload_encode, readFromServer_message hfits stale (hswitch _)]
  -- a board carries the id 0, which answers nothing
  rfl

end Client

section Runs

variable (env : ServerEnv) (mem : WireMemory) {w w' : Traffic}

/-- The sockets to which the boards of an event go are those of the state before the boards: a clock
closes some of them on its way. -/
def socketsOf (s t : Server) : ServerEvent → Server
  | .recv _ _ _ => t
  | .tick _ _ => s

/-- The boards of one event. -/
structure EventBoards (s t : Server) (event : ServerEvent) (boards : List (ℤ × Bytes)) : Prop where
  silent : speaker s t event = none → boards = []
  shown : ∀ player, speaker s t event = some player → ∃ p view, t.players[player]? = some p ∧
    Draws p.contents view ∧ 0 ∉ p.name ∧
    BoardsSent (socketsOf s t event) (boardReceivers player p t) (boardPayload p.name view) boards

theorem boardReceivers_of_seats {s t : Server} (h : SameSeats s t) {player : ℕ} {p q : Player}
    (hp : s.players[player]? = some p) (hq : t.players[player]? = some q) :
    boardReceivers player q t = boardReceivers player p s := by
  have hget : (t.players.map Player.party)[player]? = (s.players.map Player.party)[player]? := by
    rw [h.backPointers]
  rw [List.getElem?_map, List.getElem?_map, hp, hq, Option.map_some, Option.map_some,
    Option.some.injEq] at hget
  simp only [boardReceivers, hget, ttetrisPartyGetPlayers, h.parties]

theorem boardsSent_of {s : Server} {receivers : List ℕ} {payload : Bytes} {fds : List ℤ}
    (hsub : fds.Sublist (openSockets s receivers)) (hreached : ∀ fd ∈ openSockets s receivers, fd ∈ fds) :
    BoardsSent s receivers payload (fds.map fun fd => (fd, payload)) := by
  have hfst : (fds.map fun fd => (fd, payload)).map Prod.fst = fds := by
    rw [List.map_map]
    exact List.map_id _
  constructor
  · intro board hmem
    obtain ⟨fd, -, rfl⟩ := List.mem_map.mp hmem
    rfl
  · rwa [hfst]
  · rwa [hfst]

theorem readFromClient_boards {fd : ℕ} {stale : Fresh} {chunk : Bytes}
    (hinv : ServerInv w'.server) (hnames : ∀ p ∈ w'.server.players, IsName p.name)
    (h : Traffic.readFromClient env mem fd stale chunk w = .ok w') :
    ∃ answers boards, w'.sent = w.sent ++ (answers ++ boards) ∧ Traffic.Answers answers ∧
      EventBoards w.server w'.server (.recv fd stale chunk) boards := by
  rw [Traffic.readFromClient] at h
  split_ifs at h with hchunk
  · refine ⟨[], [], ?_, fun answer hmem => absurd hmem (by simp), ⟨fun _ => rfl, ?_⟩⟩
    · rw [← Except.ok.inj h, List.append_nil, List.append_nil]
    · intro player hspeaker
      rw [speaker, if_pos hchunk] at hspeaker
      exact absurd hspeaker (by simp)
  · obtain ⟨v, hv, h⟩ := bind_eq_ok.mp h
    obtain ⟨answers, hanswers, hsent, hcurrent⟩ := Traffic.clientLoop_sent env hv
    have hsame := finishRead_unshadowed env (Traffic.finishRead_server env h)
    have hseats := sameSeats_of_unshadowed hsame
    have hspeaker : speaker w.server w'.server (.recv fd stale chunk) = v.state.player := by
      rw [speaker, if_neg hchunk, hseats.length, hcurrent.player]
    rw [Traffic.finishRead] at h
    cases hplayer : v.state.player with
    | none =>
      rw [hplayer] at h hspeaker
      refine ⟨answers, [], ?_, hanswers, ⟨fun _ => rfl, ?_⟩⟩
      · rw [← Except.ok.inj h, List.append_nil, ← hsent]
      · intro player hsome
        exact absurd (hspeaker.symm.trans hsome) (by simp)
    | some player =>
      rw [hplayer] at h hspeaker
      obtain ⟨p, hp, hrun⟩ := bind_eq_ok.mp h
      -- the boards have only drawn shadow blocks, so the state behind them is the one they show
      obtain ⟨q, hq⟩ : ∃ q, w'.server.players[player]? = some q := by
        apply Exists.intro
        apply List.getElem?_eq_getElem
        rw [hseats.length]
        exact (List.getElem?_eq_some_iff.mp (deref_eq_ok.mp hp)).1
      obtain ⟨⟨contents, view⟩, hview⟩ := view_returns (hinv.games q (List.mem_of_getElem? hq))
      have h0 := (hnames q (List.mem_of_getElem? hq)).1
      have hshowing : Showing player q.name view v.state.server :=
        Showing.congr hsame.symm ⟨q, hq, rfl, contents, hview⟩
      have hboards := Traffic.sendBoards_sent env h0 hshowing hrun
      rw [← boardReceivers_of_seats hseats (deref_eq_ok.mp hp) hq,
        ← openSockets_congr (keys_of_unshadowed hsame)] at hboards
      refine ⟨answers, (openSockets w'.server (boardReceivers player q w'.server)).map fun fd =>
        (fd, boardPayload q.name view), ?_, hanswers, ?_, ?_⟩
      · rw [hboards, hsent, List.append_assoc]
      · exact fun hnone => absurd (hspeaker.symm.trans hnone) (by simp)
      · intro player' hsome
        rw [hspeaker, Option.some.injEq] at hsome
        subst hsome
        refine ⟨q, view, hq, ⟨contents, hview⟩, h0, ?_⟩
        exact boardsSent_of (List.Sublist.refl _) fun fd hfd => hfd

theorem playerClock_boards {fails : ℕ → Bool} {player : ℕ} {running : Bool} {v : Traffic}
    (hinv : ServerInv w.server) (hnames : ∀ p ∈ w.server.players, IsName p.name)
    (h : Traffic.playerClock env mem fails player w = .ok (v, running)) :
    ∃ boards p view, v.sent = w.sent ++ boards ∧ v.server.players[player]? = some p ∧
      Draws p.contents view ∧ 0 ∉ p.name ∧
      BoardsSent w.server (boardReceivers player p v.server) (boardPayload p.name view) boards := by
  simp only [Traffic.playerClock, bind_eq_ok, Except.ok.injEq, Prod.mk.injEq] at h
  obtain ⟨s, hs, p, hp, v', hrun, q', -, rfl, -⟩ := h
  have hkeys := callEngine_keys env hs
  have hp := deref_eq_ok.mp hp
  obtain ⟨⟨contents, view⟩, hview⟩ :=
    view_returns ((callEngine_inv env hinv hs).games p (List.mem_of_getElem? hp))
  have h0 : 0 ∉ p.name := by
    obtain ⟨r, hr, hkey⟩ := exists_player (hkeys ▸ keys_getElem? hp)
    have hname : r.name = p.name := congrArg Prod.snd hkey
    exact hname ▸ (hnames r (List.mem_of_getElem? hr)).1
  -- lowering the block has closed no socket
  have hsockets : Traffic.Sockets w.server [] s := by
    intro i q hq
    obtain ⟨r, hr, hkey⟩ := exists_player (hkeys ▸ keys_getElem? hq)
    exact ⟨r, hr, Or.inl (congrArg Prod.fst hkey).symm⟩
  obtain ⟨fds, hsent, hsub, hreached, q, hq, hname, hdraws⟩ :=
    Traffic.clockSendBoards_sent env h0 ⟨p, hp, rfl, contents, hview⟩ hsockets hrun
  have hseats : SameSeats s v'.server :=
    @invariant_run _ _ _ (Traffic.clockSendBoard mem fails player) (fun u => SameSeats s u.server)
      (fun _ _ _ hu ht => hu.trans (clockSendBoard_seats env (Traffic.clockSendBoard_server env ht)))
      _ v' _ (sameSeats_refl s) hrun
  rw [List.zipIdx_map_fst, ← boardReceivers_of_seats hseats hp hq] at hsub hreached
  refine ⟨_, q, view, hsent, hq, hdraws, hname ▸ h0, ?_⟩
  rw [hname]
  exact boardsSent_of hsub hreached

theorem serverStep_boards {event : ServerEvent} (hinv : ServerInv w.server)
    (hnames : ∀ p ∈ w.server.players, IsName p.name) (hinv' : ServerInv w'.server)
    (hnames' : ∀ p ∈ w'.server.players, IsName p.name)
    (h : Traffic.serverStep env mem w event = .ok w') :
    ∃ answers boards, w'.sent = w.sent ++ (answers ++ boards) ∧ Traffic.Answers answers ∧
      EventBoards w.server w'.server event boards := by
  cases event with
  | recv fd stale chunk => exact readFromClient_boards env mem hinv' hnames' h
  | tick clock fails =>
    rw [Traffic.serverStep] at h
    have hspeaker : speaker w.server w'.server (.tick clock fails) = w.server.clocks[clock]? := rfl
    cases hclock : w.server.clocks[clock]? with
    | none =>
      rw [hclock] at h hspeaker
      refine ⟨[], [], ?_, fun answer hmem => absurd hmem (by simp), ⟨fun _ => rfl, ?_⟩⟩
      · rw [← Except.ok.inj h, List.append_nil, List.append_nil]
      · intro player hsome
        exact absurd (hspeaker.symm.trans hsome) (by simp)
    | some player =>
      rw [hclock] at h hspeaker
      obtain ⟨⟨v, running⟩, hv, h⟩ := bind_eq_ok.mp h
      obtain ⟨boards, p, view, hsent, hp, hdraws, h0, hboards⟩ :=
        playerClock_boards env mem hinv hnames hv
      -- the end of the thread is seen in the clocks only
      have hplayers : w'.server.players = v.server.players ∧ w'.server.parties = v.server.parties ∧
          w'.sent = v.sent := by
        rw [← Except.ok.inj h]
        cases running
        · exact ⟨rfl, rfl, rfl⟩
        · exact ⟨rfl, rfl, rfl⟩
      refine ⟨[], boards, ?_, fun answer hmem => absurd hmem (by simp),
        ⟨fun hnone => absurd (hspeaker.symm.trans hnone) (by simp), ?_⟩⟩
      · rw [hplayers.2.2, hsent, List.nil_append]
      · intro player' hsome
        rw [hspeaker, Option.some.injEq] at hsome
        subst hsome
        have hreceivers : boardReceivers player p w'.server = boardReceivers player p v.server := by
          simp only [boardReceivers, ttetrisPartyGetPlayers, hplayers.2.1]
        refine ⟨p, view, by rw [hplayers.1, hp], hdraws, h0, ?_⟩
        rw [hreceivers]
        exact hboards

end Runs

/-- Memory that is always zero. -/
def zeroMemory : WireMemory := ⟨fun _ _ _ => 0, fun _ _ => 0⟩

/-- Two players who have started a game together. -/
def startedGame : List ServerEvent :=
  (registerBoth ++ [invitation 4 66 (by decide), startRequest 4]).map Delivery.event

end TetrisMint
