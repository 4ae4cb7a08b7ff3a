import TetrisMint.ClientConn
import TetrisMint.ClientMessages

/-! The keyboard loop of `controller.c` over a control set, with the control set of
`offline.c` and the one of `client_conn.c`, whose messages go to the server. -/
namespace TetrisMint

open CStrings FallibleRun

structure ControlKeybindings where
  hardDrop : ℤ
  softDrop : ℤ
  translateLeft : ℤ
  translateRight : ℤ
  rotateClockwise : ℤ
  rotateCounterclockwise : ℤ
  swap : ℤ
  quit : ℤ

/-- The methods of a control set over the object that their context points to. -/
structure TetrisControlSet (σ : Type) where
  translate : ℤ → σ → Except Fault σ
  lower : σ → Except Fault σ
  rotate : ℤ → σ → Except Fault σ
  drop : σ → Except Fault σ
  swapHold : σ → Except Fault σ

section Keyboard

variable {σ τ : Type}

/-- The body of the keyboard loop. Where keys clash the first comparison decides. -/
def pressKey (controls : TetrisControlSet σ) (keybindings : ControlKeybindings) (ch : ℤ) (s : σ) :
    Except Fault σ :=
  if ch = keybindings.translateLeft then controls.translate 0 s
  else if ch = keybindings.translateRight then controls.translate 1 s
  else if ch = keybindings.rotateCounterclockwise then controls.rotate 0 s
  else if ch = keybindings.rotateClockwise then controls.rotate 1 s
  else if ch = keybindings.softDrop then controls.lower s
  else if ch = keybindings.hardDrop then controls.drop s
  else if ch = keybindings.swap then controls.swapHold s
  else .ok s

/-- The loop over the keys that getch returns, up to the one that quits. -/
def keyboardInputLoop (controls : TetrisControlSet σ) (keybindings : ControlKeybindings) :
    List ℤ → σ → Except Fault σ
  | [], s => .ok s
  | ch :: chs, s =>
    if ch = keybindings.quit then .ok s
    else do
      let s ← pressKey controls keybindings ch s
      keyboardInputLoop controls keybindings chs s

/-- Each method keeps the relation, for the arguments the keyboard gives it. -/
structure SameControls (R : σ → τ → Prop) (c : TetrisControlSet σ) (d : TetrisControlSet τ) :
    Prop where
  translate : ∀ x, x = 0 ∨ x = 1 → ∀ s t, R s t → Agree R (c.translate x s) (d.translate x t)
  lower : ∀ s t, R s t → Agree R (c.lower s) (d.lower t)
  rotate : ∀ x, x = 0 ∨ x = 1 → ∀ s t, R s t → Agree R (c.rotate x s) (d.rotate x t)
  drop : ∀ s t, R s t → Agree R (c.drop s) (d.drop t)
  swapHold : ∀ s t, R s t → Agree R (c.swapHold s) (d.swapHold t)

variable {R : σ → τ → Prop} {c : TetrisControlSet σ} {d : TetrisControlSet τ}

theorem pressKey_agree (h : SameControls R c d) (keybindings : ControlKeybindings) (ch : ℤ) {s : σ}
    {t : τ} (hR : R s t) : Agree R (pressKey c keybindings ch s) (pressKey d keybindings ch t) := by
  unfold pressKey
  split_ifs
  · exact h.translate 0 (Or.inl rfl) s t hR
  · exact h.translate 1 (Or.inr rfl) s t hR
  · exact h.rotate 0 (Or.inl rfl) s t hR
  · exact h.rotate 1 (Or.inr rfl) s t hR
  · exact h.lower s t hR
  · exact h.drop s t hR
  · exact h.swapHold s t hR
  · exact .ok hR

/-- Control sets whose methods agree are played alike, whatever the keys are bound to. -/
theorem keyboardInputLoop_agree (h : SameControls R c d) (keybindings : ControlKeybindings)
    (chs : List ℤ) {s : σ} {t : τ} (hR : R s t) :
    Agree R (keyboardInputLoop c keybindings chs s) (keyboardInputLoop d keybindings chs t) := by
  induction chs generalizing s t with
  | nil => exact .ok hR
  | cons ch chs ih =>
    unfold keyboardInputLoop
    split_ifs
    · exact .ok hR
    · apply (pressKey_agree h keybindings ch hR).bind
      intro s' t' hR'
      exact ih hR'

end Keyboard

section Offline

variable (randR : RandR)

/-- An engine call for the local player with the rendering that follows it. -/
def offlineCall (op : Op) (gc : GameContents) : Except Fault GameContents := do
  let gc ← engineStep randR gc op
  engineStep randR gc .view

def offlineTranslate (x : ℤ) (gc : GameContents) : Except Fault GameContents :=
  if x ≠ 0 then offlineCall randR .translateLeft gc else offlineCall randR .translateRight gc

def offlineLower (gc : GameContents) : Except Fault GameContents := offlineCall randR (.lower 0) gc

def offlineRotate (theta : ℤ) (gc : GameContents) : Except Fault GameContents :=
  offlineCall randR (.rotate theta) gc

def offlineDrop (gc : GameContents) : Except Fault GameContents := offlineCall randR .hardDrop gc

def offlineSwapHold (gc : GameContents) : Except Fault GameContents := offlineCall randR .swapHold gc

def offlineControlSet : TetrisControlSet GameContents where
  translate := offlineTranslate randR
  lower := offlineLower randR
  rotate := offlineRotate randR
  drop := offlineDrop randR
  swapHold := offlineSwapHold randR

end Offline

section Tcp

/-- The body is a string, which is sent with its NUL. The length is a uint16_t. -/
def tetrisSendMessage (client : NetClient) (body : Bytes) (messageType : UInt8) :
    Except Fault (NetClient × Bytes) := do
  let length ← access (strlen body)
  let bytes ← access (bytesAt body ((length + 1) % 2 ^ 16))
  .ok (ttetrisNetRequest client bytes messageType)

/-- What sprintf stores for "%c": the character, be it NUL itself, and a NUL. -/
def sprintfChar (b : UInt8) : Bytes := [b, 0]

def tetrisTranslate (x : ℤ) (client : NetClient) : Except Fault (NetClient × Bytes) :=
  let xdir : UInt8 := if x > 0 then 1 else 0
  tetrisSendMessage client (sprintfChar xdir) msgTypeTranslate

def tetrisLower (client : NetClient) : Except Fault (NetClient × Bytes) :=
  .ok (ttetrisNetRequest client [] msgTypeLower)

def tetrisRotate (theta : ℤ) (client : NetClient) : Except Fault (NetClient × Bytes) :=
  let dir : UInt8 := if theta > 0 then 1 else 0
  tetrisSendMessage client (sprintfChar dir) msgTypeRotate

def tetrisDrop (client : NetClient) : Except Fault (NetClient × Bytes) :=
  .ok (ttetrisNetRequest client [] msgTypeDrop)

def tetrisSwapHold (client : NetClient) : Except Fault (NetClient × Bytes) :=
  .ok (ttetrisNetRequest client [] msgTypeSwapHold)

/-- A client that plays online, and the server that it is connected to. -/
structure Online where
  client : NetClient
  server : Server

variable (env : ServerEnv) (fd : ℕ) (stale : ℕ → Fresh)

/-- Send a message; one recv of the server returns it alone. What the buffer held
before may be different for each request. -/
def throughServer (send : NetClient → Except Fault (NetClient × Bytes)) (o : Online) :
    Except Fault Online := do
  let (client, payload) ← send o.client
  let server ← readFromClient env fd (stale client.openRequests.length) payload o.server
  .ok ⟨client, server⟩

def tcpControlSet : TetrisControlSet Online where
  translate := fun x => throughServer env fd stale (tetrisTranslate x)
  lower := throughServer env fd stale tetrisLower
  rotate := fun theta => throughServer env fd stale (tetrisRotate theta)
  drop := throughServer env fd stale tetrisDrop
  swapHold := throughServer env fd stale tetrisSwapHold

end Tcp

section Agreement

variable (env : ServerEnv) {fd : ℕ} (stale : ℕ → Fresh) {player : ℕ}

/-- The registered player's game is that of the local one, the shadow block apart. -/
structure SameGame (fd player : ℕ) (o : Online) (gc : GameContents) : Prop where
  inv : ServerInv o.server
  registered : getPlayerFromFd fd o.server = some player
  contents : ∃ p, o.server.players[player]? = some p ∧ p.contents.unshadowed = gc.unshadowed

/-- What the client sends for a request is a message; its number fits the header. -/
theorem ttetrisNetRequest_encode (client : NetClient) (bytes : Bytes) (messageType : UInt8) :
    ∃ id < 2 ^ 16, (ttetrisNetRequest client bytes messageType).2 =
      (Message.mk messageType id bytes).encode := by
  have hrequest (id : ℤ) : messageNbytes bytes id messageType =
      (Message.mk messageType (id % 2 ^ 16).toNat bytes).encode := by
    have hid : (((id % 2 ^ 16).toNat : ℤ) % 2 ^ 16).toNat = (id % 2 ^ 16).toNat := by omega
    rw [Message.encode, messageNbytes, messageNbytes, hid]
  refine ⟨_, ?_, hrequest _⟩
  omega

theorem offlineCall_view {op : Op} {gc gc' : GameContents} (hi : EngineInv gc)
    (h : engineStep env.randR gc op = .ok gc') :
    ∃ drawn, offlineCall env.randR op gc = .ok drawn ∧ drawn.unshadowed = gc'.unshadowed := by
  obtain ⟨r, hr⟩ := view_returns (engineStep_inv env.randR hi h)
  have hview : engineStep env.randR gc' .view = .ok r.1 := by
    rw [engineStep, Op.call, hr]
    rfl
  refine ⟨r.1, ?_, view_unshadowed hview⟩
  rw [offlineCall, h]
  exact hview

/-- After the call and the boards the player is still found, with the game of the call. -/
theorem sameGame_sent {o : Online} {gc drawn : GameContents} {p : Player} {op : Op}
    {server sent : Server} {client : NetClient} (h : SameGame fd player o gc)
    (hcall : callEngine env op player o.server = .ok server)
    (hp : server.players[player]? = some p) (hdrawn : p.contents.unshadowed = drawn.unshadowed)
    (hsent : sent.unshadowed = server.unshadowed) : SameGame fd player ⟨client, sent⟩ drawn where
  inv := serverInv_of_unshadowed hsent (callEngine_inv env h.inv hcall)
  registered := by
    calc getPlayerFromFd fd sent
        = getPlayerFromFd fd sent.unshadowed := (getPlayerFromFd_unshadowed sent fd).symm
      _ = getPlayerFromFd fd server.unshadowed := by rw [hsent]
      _ = getPlayerFromFd fd server := getPlayerFromFd_unshadowed server fd
      _ = getPlayerFromFd fd o.server := getPlayerFromFd_congr fd (callEngine_seats env hcall).2
      _ = some player := h.registered
  contents := by
    have hget : sent.players[player]?.map Player.unshadowed = some p.unshadowed := by
      rw [← getElem?_unshadowed, hsent, getElem?_unshadowed, hp, Option.map_some]
    obtain ⟨q, hq, hqp⟩ := Option.map_eq_some_iff.mp hget
    exact ⟨q, hq, (congrArg Player.contents hqp).trans hdrawn⟩

-- what the functions that send such a message have in common
variable {send : NetClient → Except Fault (NetClient × Bytes)} {op : Op} {messageType : UInt8}
  {body : Bytes} (hsend : ∀ client, send client = .ok (ttetrisNetRequest client body messageType))
  (hmsg : ∀ id < 2 ^ 16, ClientMessage ⟨messageType, id, body⟩)
  (hacts : messageType ≠ msgTypeRegister ∧ messageType ≠ msgTypeStartGame ∧
    messageType ≠ msgTypeOpponent)
  (hop : engineOp messageType body = .ok (some op))

include hsend hmsg hacts hop in
/-- A message for the engine that recv returns alone calls the engine and sends the boards. -/
theorem throughServer_eq {o : Online}
    (hplayer : getPlayerFromFd fd o.server = some player) :
    ∃ client, throughServer env fd stale send o = (do
      let server ← callEngine env op player o.server
      let server ← finishRead env ⟨server, some player, none⟩
      .ok ⟨client, server⟩) := by
  obtain ⟨id, hid, hpayload⟩ := ttetrisNetRequest_encode o.client body messageType
  obtain ⟨hregister, hstart, hopponent⟩ := hacts
  rw [throughServer, hsend, ok_bind]
  cases hrequest : ttetrisNetRequest o.client body messageType with
  | mk client payload =>
    rw [hrequest] at hpayload
    simp only at hpayload
    refine ⟨client, ?_⟩
    simp only [hpayload, readFromClient_single env (hmsg id hid), hplayer, handleMessage,
      Message.header_messageType, if_neg hregister, serverSwitch, if_neg hstart, if_neg hopponent,
      hop, ok_bind, deref_some]
    cases callEngine env op player o.server with
    | error e => rfl
    | ok server => rfl

include hsend hmsg hacts hop in
/-- A message for the engine acts as the call it asks for does offline. -/
theorem throughServer_agree (o : Online) (gc : GameContents) (h : SameGame fd player o gc) :
    Agree (SameGame fd player) (throughServer env fd stale send o) (offlineCall env.randR op gc) := by
  obtain ⟨client, heq⟩ := throughServer_eq env stale hsend hmsg hacts hop h.registered
  obtain ⟨p, hp, hcontents⟩ := h.contents
  have hi := h.inv.games p (List.mem_of_getElem? hp)
  have hne := engineOp_ne_view hop
  -- the engine does not look at the shadow block in which the games may differ
  have hengine : Agree (fun a b => GameContents.unshadowed a = GameContents.unshadowed b)
      (engineStep env.randR p.contents op) (engineStep env.randR gc op) := by
    apply Agree.of_map
    rw [← engineStep_unshadowed env.randR p.contents hne,
      ← engineStep_unshadowed env.randR gc hne, hcontents]
  rw [heq]
  rcases hengine.error_or_ok with ⟨e, hx, hy⟩ | ⟨contents, gc', hx, hy, hsame⟩
  · have hcall : callEngine env op player o.server = .error e := by
      rw [callEngine, hp, deref_some, ok_bind, hx]
      rfl
    rw [hcall, error_bind, offlineCall, hy]
    exact .error _
  · let server : Server :=
      { o.server with players := o.server.players.set player { p with contents := contents } }
    have hcall : callEngine env op player o.server = .ok server :=
      (callEngine_eq_ok env).mpr ⟨p, contents, hp, hx, rfl⟩
    have hlt := (List.getElem?_eq_some_iff.mp hp).1
    have hinv : ReadInv ⟨server, some player, none⟩ := by
      refine ⟨callEngine_inv env h.inv hcall, ?_⟩
      intro j hj
      rw [← Option.some.inj hj, List.length_set]
      exact hlt
    obtain ⟨sent, hsent⟩ := finishRead_returns env hinv
    have hgc : EngineInv gc := by
      rw [← engineInv_unshadowed, ← hcontents, engineInv_unshadowed]
      exact hi
    obtain ⟨drawn, hdrawn, hview⟩ := offlineCall_view env hgc hy
    have hget : server.players[player]? = some { p with contents := contents } :=
      List.getElem?_set_self hlt
    have hgame : SameGame fd player ⟨client, sent⟩ drawn :=
      sameGame_sent env h hcall hget (hsame.trans hview.symm) (finishRead_unshadowed env hsent)
    rw [hcall, ok_bind, hsent, ok_bind, hdrawn]
    exact .ok hgame

/-- The two control sets play alike: every message asks for the engine call that
the offline method makes. -/
theorem sameControls :
    SameControls (SameGame fd player) (tcpControlSet env fd stale) (offlineControlSet env.randR) where
  translate := by
    intro x hx o gc h
    rcases hx with rfl | rfl
    · exact throughServer_agree env stale (fun _ => rfl)
        (fun id hid => @textMessage_wellFormed id hid msgTypeTranslate [] (Or.inr rfl) (by decide))
        (by decide) rfl o gc h
    · exact throughServer_agree env stale (fun _ => rfl)
        (fun id hid => @textMessage_wellFormed id hid msgTypeTranslate [1] (Or.inr rfl) (by decide))
        (by decide) rfl o gc h
  lower := throughServer_agree env stale (fun _ => rfl)
    (fun id hid => bareMessage_wellFormed hid (by decide)) (by decide) rfl
  rotate := by
    intro x hx o gc h
    rcases hx with rfl | rfl
    · exact throughServer_agree env stale (fun _ => rfl)
        (fun id hid => @textMessage_wellFormed id hid msgTypeRotate [] (Or.inl rfl) (by decide))
        (by decide) rfl o gc h
    · exact throughServer_agree env stale (fun _ => rfl)
        (fun id hid => @textMessage_wellFormed id hid msgTypeRotate [1] (Or.inl rfl) (by decide))
        (by decide) rfl o gc h
  drop := throughServer_agree env stale (fun _ => rfl)
    (fun id hid => bareMessage_wellFormed hid (by decide)) (by decide) rfl
  swapHold := throughServer_agree env stale (fun _ => rfl)
    (fun id hid => bareMessage_wellFormed hid (by decide)) (by decide) rfl

end Agreement

/-- Playing online leaves the game of a registered player as playing the same keys
offline does from the same contents, whatever the keys are bound to: both end with
the same board, pose, pieces, seed, counters and score, or both get stuck alike. -/
theorem online_play_eq_offline (env : ServerEnv) (events : List ServerEvent) (s : Server)
    (hrun : run (serverStep env) serverInit events = .ok s) (fd player : ℕ) (p : Player)
    (hregistered : getPlayerFromFd fd s = some player) (hp : s.players[player]? = some p)
    (client : NetClient) (stale : ℕ → Fresh) (keybindings : ControlKeybindings) (chs : List ℤ) :
    Agree (fun o gc => ∃ q, o.server.players[player]? = some q ∧
        q.contents.unshadowed = gc.unshadowed)
      (keyboardInputLoop (tcpControlSet env fd stale) keybindings chs ⟨client, s⟩)
      (keyboardInputLoop (offlineControlSet env.randR) keybindings chs p.contents) := by
  have hstart : SameGame fd player ⟨client, s⟩ p.contents :=
    ⟨server_invariant env hrun, hregistered, p, hp, rfl⟩
  apply (keyboardInputLoop_agree (sameControls env stale) keybindings chs hstart).mono
  intro o gc h
  exact h.contents

def wasdKeybindings : ControlKeybindings := ⟨119, 115, 97, 100, 101, 113, 99, 27⟩

/-- A registered player moves left, turns the piece and drops it. -/
theorem online_play_eq_offline_three_keys :
    ∃ s p, run (serverStep heroEnv) serverInit
        [.recv 4 (fun _ => 0) (registerMessage 1 [65]).encode] = .ok s ∧ s.players[0]? = some p ∧
      Agree (fun o gc => ∃ q, o.server.players[0]? = some q ∧ q.contents.unshadowed = gc.unshadowed)
        (keyboardInputLoop (tcpControlSet heroEnv 4 fun _ _ => 0) wasdKeybindings [97, 101, 119, 27]
          ⟨netClientInit, s⟩)
        (keyboardInputLoop (offlineControlSet heroEnv.randR) wasdKeybindings [97, 101, 119, 27]
          p.contents) := by
  obtain ⟨s, hs, hfound⟩ : ∃ s, run (serverStep heroEnv) serverInit
      [.recv 4 (fun _ => 0) (registerMessage 1 [65]).encode] = .ok s ∧
        (getPlayerFromFd 4 s, s.players.length) = (some 0, 1) := by
    apply exists_ok_of_map fun s : Server => (getPlayerFromFd 4 s, s.players.length)
    decide +kernel
  rw [Prod.mk.injEq] at hfound
  have hlt : 0 < s.players.length := by omega
  have hp : s.players[0]? = some s.players[0] := List.getElem?_eq_getElem hlt
  exact ⟨s, _, hs, hp, online_play_eq_offline heroEnv _ s hs 4 0 _ hfound.1 hp netClientInit _ _ _⟩

end TetrisMint
