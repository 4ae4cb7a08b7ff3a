import TetrisMint.BoardTraffic
import TetrisMint.Screen
import TetrisMint.Segmentation

/-! From the games on the server to the screens of the clients. -/
namespace TetrisMint

open CStrings FallibleRun Segments

/-- The payloads that go to one socket, in their order. -/
def payloadsTo (fd : ℤ) (sent : List (ℤ × Bytes)) : List Bytes :=
  (sent.filter fun x => x.1 = fd).map Prod.snd

/-- The type that stands in the header of a payload. -/
def payloadType (payload : Bytes) : Option UInt8 := payload[8]?

/-- What `read_game_view_data` asks the renderer for, at a message from the server. -/
def drawnEvents (msg : Message) : List ScreenEvent :=
  if msg.messageType = msgTypeBoard then
    match boardName msg.body, readGameViewData msg.body with
    | .ok name, .ok bytes => (gameViewDataOf bytes).toList.map (.view name)
    | _, _ => []
  else []

section

variable (resizeTerm : TerminalSize → Canvas → ℤ × ℤ) (heap : ℕ → Fresh)

/-- One call of read_from_server with the screen: what the buffer held, and the chunk. -/
def clientRead (c : NetClient × Screen) (input : Fresh × Bytes) : Except Fault (NetClient × Screen) := do
  let (client, handled) ← readFromServer heap input.1 c.1 input.2
  let screen ← run (Screen.screenStep resizeTerm) c.2 (handled.flatMap fun m => drawnEvents m.2)
  .ok (client, screen)

end

/-- A name and a view under it, as the server sends them. -/
structure SentView where
  name : Bytes
  view : GameViewData
  text : 0 ∉ name
  cells : ∀ y x, IsInt (view.board.cell y x)

def SentView.message (v : SentView) : Message := ⟨msgTypeBoard, 0, boardBody v.name v.view⟩

def SentView.payload (v : SentView) : Bytes := boardPayload v.name v.view

/-- What the client draws of it. -/
def SentView.event (v : SentView) : ScreenEvent := .view (v.name.take playerNameMaxChars) v.view.stored

section Reading

variable {heap : ℕ → Fresh}

theorem payloadType_messageNbytes (bytes : Bytes) (id : ℤ) (messageType : UInt8) :
    payloadType (messageNbytes bytes id messageType) = some messageType := by
  have hlength := length_headerFields (id % 2 ^ 16).toNat bytes.length messageType
  rw [payloadType, messageNbytes, List.append_assoc, List.getElem?_append_left (by rw [hlength]; decide),
    headerFields]
  simp [length_leBytes]

theorem SentView.prefix_text (v : SentView) : 0 ∉ v.name.take playerNameMaxChars :=
  fun h => v.text (List.mem_of_mem_take h)

theorem SentView.serverMessage (v : SentView) : ServerMessage heap v.message := by
  have hlength := length_boardBody_le v.name v.view
  have hsize : gameViewDataSize = 976 := rfl
  refine ⟨⟨Nat.two_pow_pos 16, ?_⟩, Or.inl rfl, fun _ => ?_, fun h => ?_⟩
  · change (boardBody v.name v.view).length < 2 ^ 16
    omega
  · exact ⟨_, _, rfl, v.prefix_text, List.length_take_le _ _, length_viewBytes v.view⟩
  · have hother : msgTypeBoard ≠ msgTypeGameStarted := by decide
    exact absurd h hother

theorem SentView.drawnEvents_message (v : SentView) : drawnEvents v.message = [v.event] := by
  obtain ⟨hname, hview⟩ := @readGameViewData_eq _ v.prefix_text (List.length_take_le _ _) v.view
  have hbody : v.message.body = v.name.take playerNameMaxChars ++ 0 :: viewBytes v.view := rfl
  have htype : v.message.messageType = msgTypeBoard := rfl
  rw [drawnEvents, if_pos htype, hbody, hname, hview]
  simp only [gameViewDataOf_viewBytes v.cells]
  rfl

theorem placed_map_snd {α : Type} (size : α → ℕ) (off : ℕ) (xs : List α) :
    (placed size off xs).map Prod.snd = xs := by
  induction xs generalizing off with
  | nil => rfl
  | cons x xs ih => rw [placed, List.map_cons, ih]

/-- Some messages that one recv returns together are all handled. -/
theorem readFromServer_group {msgs : List Message} {client : NetClient}
    (hmsgs : ∀ msg ∈ msgs, ServerMessage heap msg ∧ PlayerReady client msg) (stale : Fresh) :
    ∃ client' handled, readFromServer heap stale client (encodeAll msgs) = .ok (client', handled) ∧
      handled.map Prod.snd = msgs ∧ client'.player.isSome = client.player.isSome := by
  have hbuffer : (encodeAll msgs).length ≤ (recvBuffer stale (encodeAll msgs)).length := by
    rw [recvBuffer, List.length_append]
    exact Nat.le_add_right _ _
  have hagree : ((recvBuffer stale (encodeAll msgs)).drop 0).take ((encodeAll msgs).length - 0) =
      (encodeAll msgs).take ((encodeAll msgs).length - 0) := by
    rw [List.drop_zero, Nat.sub_zero, recvBuffer, List.take_left, List.take_length]
  have hwhole (s : ℕ) (msg : Message) (hmem : (s, msg) ∈ placed Message.size 0 msgs)
      (_ : s < (encodeAll msgs).length) : s + msg.needed ≤ (encodeAll msgs).length := by
    have hbound := (placed_bounds _ hmem).2
    have hneeded := (needed_le_size msg).2
    rw [length_encodeAll]
    omega
  obtain ⟨client', hplayer, hloop⟩ := @readLoop_good heap _ _ msgs ((encodeAll msgs).length + 1) 0 client
    hmsgs hbuffer hagree hwhole (Nat.succ_pos _) (by omega)
  refine ⟨client', _, hloop, ?_, hplayer⟩
  -- every message starts inside of the chunk, so none is left out
  have hall : (placed Message.size 0 msgs).filter (fun p => decide (p.1 < (encodeAll msgs).length)) =
      placed Message.size 0 msgs := by
    rw [List.filter_eq_self]
    rintro ⟨s, msg⟩ hmem
    have hbound := (placed_bounds _ hmem).2
    have hpos := size_pos msg
    apply decide_eq_true
    rw [length_encodeAll]
    simp only
    omega
  rw [hall, placed_map_snd]

variable (heap) (resizeTerm : TerminalSize → Canvas → ℤ × ℤ) {names : List Bytes} {client : NetClient}
  {s : Screen} {a : Shown}

/-- Some views that one recv returns together are drawn in their order. -/
theorem clientRead_group (hplayer : client.player.isSome = true) (h : ScreenInv names s)
    (hshown : a.Matches names s) (stale : Fresh) (group : List SentView) :
    ∃ client' t, clientRead resizeTerm heap (client, s) (stale, (group.map SentView.payload).flatten) =
        .ok (client', t) ∧ client'.player.isSome = true ∧ ScreenInv names t ∧
      ((group.map SentView.event).foldl (shownStep names) a).Matches names t := by
  have hmsgs (msg : Message) (hmem : msg ∈ group.map SentView.message) :
      ServerMessage heap msg ∧ PlayerReady client msg := by
    obtain ⟨v, -, rfl⟩ := List.mem_map.mp hmem
    exact ⟨v.serverMessage, fun _ => hplayer⟩
  have hchunk : (group.map SentView.payload).flatten = encodeAll (group.map SentView.message) := by
    rw [encodeAll, List.map_map]
    rfl
  obtain ⟨client', handled, hread, hhandled, hplayer'⟩ := readFromServer_group hmsgs stale
  have hdrawn : (handled.flatMap fun m => drawnEvents m.2) = group.map SentView.event := by
    calc (handled.flatMap fun m => drawnEvents m.2)
        = (handled.map Prod.snd).flatMap drawnEvents := (List.flatMap_map ..).symm
      _ = (group.map SentView.message).flatMap drawnEvents := by rw [hhandled]
      _ = group.flatMap fun v => [v.event] := by
        rw [List.flatMap_map]
        simp only [SentView.drawnEvents_message]
      _ = group.map SentView.event := List.map_eq_flatMap.symm
  obtain ⟨t, ht, hinv, hmatches⟩ := screenRun_shows resizeTerm h hshown (group.map SentView.event)
  refine ⟨client', t, ?_, hplayer'.trans hplayer, hinv, hmatches⟩
  rw [clientRead, hchunk, hread, ok_bind]
  simp only [hdrawn, ht, ok_bind]

/-- However the views are spread over the chunks, they are drawn in their order. -/
theorem clientReads_views (hplayer : client.player.isSome = true) (h : ScreenInv names s)
    (hshown : a.Matches names s) (groups : List (List SentView)) {inputs : List (Fresh × Bytes)}
    (hinputs : inputs.map Prod.snd = groups.map fun group => (group.map SentView.payload).flatten) :
    ∃ client' t, run (clientRead resizeTerm heap) (client, s) inputs = .ok (client', t) ∧
      ScreenInv names t ∧
        ((groups.flatten.map SentView.event).foldl (shownStep names) a).Matches names t := by
  induction groups generalizing client s a inputs with
  | nil =>
    rw [List.map_eq_nil_iff.mp hinputs]
    exact ⟨client, s, rfl, h, hshown⟩
  | cons group groups ih =>
    obtain ⟨⟨stale, chunk⟩, later, rfl, hchunk, hlater⟩ := List.map_eq_cons_iff.mp hinputs
    simp only at hchunk
    subst hchunk
    obtain ⟨client₁, u, hu, hplayer₁, hinv, hmatches⟩ :=
      clientRead_group heap resizeTerm hplayer h hshown stale group
    obtain ⟨client', t, ht, htInv, hlast⟩ := ih hplayer₁ hinv hmatches hlater
    refine ⟨client', t, (run_cons_ok _ _ hu).trans ht, htInv, ?_⟩
    rw [List.flatten_cons, List.map_append, List.foldl_append]
    exact hlast

end Reading

section Latest

variable {names : List Bytes} {a : Shown}

theorem shownStep_large (hlarge : terminalTooSmall a.size names.length = false) (v : SentView) :
    shownStep names a v.event = ⟨a.size, false, shownView names (v.name.take playerNameMaxChars) v.view.stored
      (if a.resized then names.map fun _ => none else a.views)⟩ := by
  rw [SentView.event, shownStep, hlarge, if_neg Bool.false_ne_true]

theorem length_shownView (name : Bytes) (view : GameViewData) (views : List (Option GameViewData)) :
    (shownView names name view views).length = views.length := by
  rw [shownView]
  split
  · exact List.length_set ..
  · rfl

/-- A view under another name goes to another board. -/
theorem shownView_other {i : ℕ} {name name' : Bytes} (hi : names.findIdx? (· = name) = some i)
    (hne : name' ≠ name) (view : GameViewData) (views : List (Option GameViewData)) :
    (shownView names name' view views)[i]? = views[i]? := by
  rw [shownView]
  split
  · rename_i j hj
    obtain ⟨hlt, hname, -⟩ := List.findIdx?_eq_some_iff_getElem.mp hi
    obtain ⟨hlt', hname', -⟩ := List.findIdx?_eq_some_iff_getElem.mp hj
    apply List.getElem?_set_ne
    rintro rfl
    exact hne ((of_decide_eq_true hname').symm.trans (of_decide_eq_true hname))
  · rfl

theorem shown_kept {i : ℕ} {name : Bytes} (hi : names.findIdx? (· = name) = some i) (after : List SentView)
    (hlarge : terminalTooSmall a.size names.length = false) (hresized : a.resized = false)
    (hafter : ∀ u ∈ after, u.name.take playerNameMaxChars ≠ name) :
    ((after.map SentView.event).foldl (shownStep names) a).views[i]? = a.views[i]? := by
  induction after generalizing a with
  | nil => rfl
  | cons u after ih =>
    rw [List.forall_mem_cons] at hafter
    rw [List.map_cons, List.foldl_cons, shownStep_large hlarge, hresized, if_neg Bool.false_ne_true]
    rw [ih (a := ⟨a.size, false, _⟩) hlarge rfl hafter.2]
    exact shownView_other hi hafter.1 _ _

/-- The latest view under a name stays while others come. -/
theorem shown_last {i : ℕ} {v : SentView} (hlarge : terminalTooSmall a.size names.length = false)
    (hlength : a.views.length = names.length)
    (hi : names.findIdx? (· = v.name.take playerNameMaxChars) = some i) (before after : List SentView)
    (hafter : ∀ u ∈ after, u.name.take playerNameMaxChars ≠ v.name.take playerNameMaxChars) :
    (((before ++ v :: after).map SentView.event).foldl (shownStep names) a).views[i]? =
      some (some v.view.stored) := by
  have hwiped : (if a.resized then names.map fun _ => none else a.views).length = names.length := by
    split_ifs
    · exact List.length_map _
    · exact hlength
  induction before generalizing a with
  | nil =>
    rw [List.nil_append, List.map_cons, List.foldl_cons, shownStep_large hlarge]
    rw [shown_kept (a := ⟨a.size, false, _⟩) hi after hlarge rfl hafter]
    have hlt : i < names.length := (List.findIdx?_eq_some_iff_getElem.mp hi).1
    simp only [shownView, hi]
    exact List.getElem?_set_self (hwiped ▸ hlt)
  | cons u before ih =>
    rw [List.cons_append, List.map_cons, List.foldl_cons, shownStep_large hlarge]
    have hlength' := (@length_shownView names (u.name.take playerNameMaxChars) u.view.stored
      (if a.resized then names.map fun _ => none else a.views)).trans hwiped
    exact ih (a := ⟨a.size, false, _⟩) hlarge hlength' hlength'

end Latest

/-- Nothing but boards goes to the socket. -/
def BoardsOnly (fd : ℤ) (sent : List (ℤ × Bytes)) : Prop :=
  ∀ payload ∈ payloadsTo fd sent, payloadType payload = some msgTypeBoard

section Serving

variable (env : ServerEnv) (mem : WireMemory) {w w' : Traffic} {fd : ℤ}

theorem payloadsTo_append (fd : ℤ) (sent sent' : List (ℤ × Bytes)) :
    payloadsTo fd (sent ++ sent') = payloadsTo fd sent ++ payloadsTo fd sent' := by
  rw [payloadsTo, List.filter_append, List.map_append]
  rfl

theorem BoardsOnly.of_append {sent sent' : List (ℤ × Bytes)} (h : BoardsOnly fd (sent ++ sent')) :
    BoardsOnly fd sent ∧ BoardsOnly fd sent' := by
  rw [BoardsOnly, payloadsTo_append, List.forall_mem_append] at h
  exact h

/-- A state of the server with what it has sent. -/
def Reached (w : Traffic) : Prop := ∃ events, run (Traffic.serverStep env mem) ⟨serverInit, []⟩ events = .ok w

variable {env mem}

theorem Reached.run {events : List ServerEvent} (hw : Reached env mem w)
    (h : FallibleRun.run (Traffic.serverStep env mem) w events = .ok w') : Reached env mem w' := by
  obtain ⟨before, hbefore⟩ := hw
  exact ⟨before ++ events, (run_append_ok _ _ hbefore).trans h⟩

theorem Reached.step {event : ServerEvent} (hw : Reached env mem w)
    (h : Traffic.serverStep env mem w event = .ok w') : Reached env mem w' :=
  hw.run ((run_cons_ok _ [] h).trans (run_nil _ _))

theorem reached_facts (hw : Reached env mem w) :
    ServerInv w.server ∧ ∀ p ∈ w.server.players, IsName p.name := by
  obtain ⟨events, hrun⟩ := hw
  have hserver := Traffic.run_server env hrun
  exact ⟨server_invariant env hserver, server_names env hserver⟩

variable (env mem fd)

/-- The views of the current player that an event brings to a socket. -/
theorem event_views {event : ServerEvent} (hw : Reached env mem w)
    (h : Traffic.serverStep env mem w event = .ok w') :
    ∃ sent, w'.sent = w.sent ++ sent ∧ (BoardsOnly fd sent → ∃ views : List SentView,
      payloadsTo fd sent = views.map SentView.payload ∧
      ∀ v ∈ views, ∃ player p, speaker w.server w'.server event = some player ∧
        w'.server.players[player]? = some p ∧ p.name = v.name ∧ Draws p.contents v.view) := by
  obtain ⟨hinv, hnames⟩ := reached_facts hw
  obtain ⟨hinv', hnames'⟩ := reached_facts (hw.step h)
  obtain ⟨answers, boards, hsent, hanswers, hboards⟩ := serverStep_boards env mem hinv hnames hinv' hnames' h
  refine ⟨answers ++ boards, hsent, ?_⟩
  intro honly
  -- the answers have other types
  have hnone : payloadsTo fd answers = [] := by
    apply List.eq_nil_iff_forall_not_mem.mpr
    intro payload hpayload
    have htype := honly.of_append.1 payload hpayload
    obtain ⟨answer, hanswer, rfl⟩ := List.mem_map.mp hpayload
    obtain ⟨bytes, id, messageType, heq, hother⟩ := hanswers answer (List.mem_of_mem_filter hanswer)
    rw [heq, payloadType_messageNbytes, Option.some.injEq] at htype
    rw [htype] at hother
    exact absurd hother (by decide)
  rw [payloadsTo_append, hnone, List.nil_append]
  cases hspeaker : speaker w.server w'.server event with
  | none =>
    rw [hboards.silent hspeaker]
    exact ⟨[], rfl, fun v hv => absurd hv (by simp)⟩
  | some player =>
    obtain ⟨p, view, hp, hdraws, h0, hboard⟩ := hboards.shown player hspeaker
    obtain ⟨contents, hview⟩ := id hdraws
    let v : SentView := ⟨p.name, view, h0, view_cells (hinv'.games p (List.mem_of_getElem? hp)) hview⟩
    refine ⟨List.replicate (payloadsTo fd boards).length v, ?_, ?_⟩
    · rw [List.map_replicate]
      apply List.eq_replicate_of_mem
      intro payload hpayload
      obtain ⟨board, hmem, rfl⟩ := List.mem_map.mp hpayload
      exact hboard.payloads board (List.mem_of_mem_filter hmem)
    · intro v' hv'
      rw [List.eq_of_mem_replicate hv']
      exact ⟨player, p, rfl, hp, rfl, hdraws⟩

theorem run_views {events : List ServerEvent} (hw : Reached env mem w)
    (h : run (Traffic.serverStep env mem) w events = .ok w') :
    ∃ sent, w'.sent = w.sent ++ sent ∧ (BoardsOnly fd sent → ∃ views : List SentView,
      payloadsTo fd sent = views.map SentView.payload) := by
  induction events generalizing w with
  | nil =>
    rw [run_nil, Except.ok.injEq] at h
    rw [h]
    exact ⟨[], (List.append_nil _).symm, fun _ => ⟨[], rfl⟩⟩
  | cons event events ih =>
    obtain ⟨u, hu, hlater⟩ := (run_cons_eq_ok _).mp h
    obtain ⟨sent, hsent, hviews⟩ := event_views env mem fd hw hu
    obtain ⟨sent', hsent', hviews'⟩ := ih (hw.step hu) hlater
    refine ⟨sent ++ sent', by rw [hsent', hsent, List.append_assoc], ?_⟩
    intro honly
    obtain ⟨views, heq, -⟩ := hviews honly.of_append.1
    obtain ⟨views', heq'⟩ := hviews' honly.of_append.2
    exact ⟨views ++ views', by rw [payloadsTo_append, heq, heq', List.map_append]⟩

end Serving

/-- Payloads that are boards, cut into groups, are views cut into groups. -/
theorem groups_of_views {groups : List (List Bytes)} {views : List SentView}
    (h : groups.flatten = views.map SentView.payload) :
    ∃ parts : List (List SentView), parts.flatten = views ∧
      groups = parts.map (List.map SentView.payload) := by
  induction groups generalizing views with
  | nil =>
    rw [List.flatten_nil, eq_comm, List.map_eq_nil_iff] at h
    exact ⟨[], h.symm, rfl⟩
  | cons group groups ih =>
    rw [List.flatten_cons] at h
    obtain ⟨part, later, rfl, hpart, hlater⟩ := List.map_eq_append_iff.mp h.symm
    obtain ⟨parts, hparts, rfl⟩ := ih hlater.symm
    exact ⟨part :: parts, by rw [List.flatten_cons, hparts], by rw [List.map_cons, hpart]⟩

section Games

variable (env : ServerEnv) {mem : WireMemory} {w u u' w' : Traffic} {fd : ℤ}

/-- What is seen of a game: the socket has got a view of it, and nobody else's under the same name
since. -/
theorem latest_view {events mid rest : List ServerEvent} {event : ServerEvent}
    (hrun : run (Traffic.serverStep env mem) ⟨serverInit, []⟩ events = .ok w)
    (hmid : run (Traffic.serverStep env mem) w mid = .ok u)
    (hstep : Traffic.serverStep env mem u event = .ok u')
    (hrest : run (Traffic.serverStep env mem) u' rest = .ok w')
    (honly : BoardsOnly fd (w'.sent.drop w.sent.length))
    (hsome : payloadsTo fd (u'.sent.drop u.sent.length) ≠ []) :
    ∃ before v after player p, payloadsTo fd (w'.sent.drop w.sent.length) =
        (before ++ v :: after).map SentView.payload ∧
      payloadsTo fd (w'.sent.drop u'.sent.length) = after.map SentView.payload ∧
      speaker u.server u'.server event = some player ∧ u'.server.players[player]? = some p ∧
      p.name = v.name ∧ Draws p.contents v.view := by
  have hw : Reached env mem w := ⟨events, hrun⟩
  have hu := hw.run hmid
  have hu' := hu.step hstep
  -- the payloads fall into those before the event, its own, and those after it
  obtain ⟨sent₁, hsent₁, hviews₁⟩ := run_views env mem fd hw hmid
  obtain ⟨sent₂, hsent₂, hviews₂⟩ := event_views env mem fd hu hstep
  obtain ⟨sent₃, hsent₃, hviews₃⟩ := run_views env mem fd hu' hrest
  have hall : w'.sent.drop w.sent.length = sent₁ ++ (sent₂ ++ sent₃) := by
    rw [hsent₃, hsent₂, hsent₁, List.append_assoc, List.append_assoc, List.drop_left]
  have hevent : u'.sent.drop u.sent.length = sent₂ := by rw [hsent₂, List.drop_left]
  have hlater : w'.sent.drop u'.sent.length = sent₃ := by rw [hsent₃, List.drop_left]
  rw [hall] at honly ⊢
  rw [hevent] at hsome
  rw [hlater]
  obtain ⟨honly₁, honly⟩ := honly.of_append
  obtain ⟨views₁, heq₁⟩ := hviews₁ honly₁
  obtain ⟨views₂, heq₂, hshown⟩ := hviews₂ honly.of_append.1
  obtain ⟨views₃, heq₃⟩ := hviews₃ honly.of_append.2
  -- the event has sent something, and the last view it has sent is the one that stays
  obtain ⟨before, v, rfl⟩ : ∃ before v, views₂ = before ++ [v] := by
    rcases List.eq_nil_or_concat views₂ with rfl | ⟨before, v, hlast⟩
    · exact absurd heq₂ hsome
    · exact ⟨before, v, hlast.trans (List.concat_eq_append ..)⟩
  obtain ⟨player, p, hspeaker, hp, hname, hdraws⟩ := hshown v (by simp)
  refine ⟨views₁ ++ before, v, views₃, player, p, ?_, heq₃, hspeaker, hp, hname, hdraws⟩
  rw [payloadsTo_append, payloadsTo_append, heq₁, heq₂, heq₃]
  simp only [List.map_append, List.map_cons, List.map_nil, List.append_assoc, List.cons_append,
    List.nil_append]

end Games

end TetrisMint
