import TetrisMint.GameClocks
import TetrisMint.IdleGame
import TetrisMint.PlayerKeys

/-! The games on the server, each of which belongs to one player: what the messages and clocks
ask the engine for in a player's name, and that nothing else changes his game. -/
namespace TetrisMint

open CStrings FallibleRun

/-- The game of a player, without the shadow block. -/
def Server.game (s : Server) (i : ℕ) : Option GameContents :=
  s.players[i]?.map fun p => p.contents.unshadowed

/-- The calls into the engine that the loop of read_from_client makes for one chunk. -/
def chunkCalls (header : MessageHeader) (buffer : Bytes) (nbytes : ℕ) : ℕ → ℕ → List Op
  | 0, _ => []
  | fuel + 1, cursor =>
    if cursor < nbytes then
      (engineOp header.messageType (buffer.drop (cursor + messageHeaderSize))).toOption.join.toList ++
        chunkCalls header buffer nbytes fuel (cursor + messageHeaderSize + header.contentLength)
    else []

/-- The calls that the messages of one chunk ask for. -/
def receivedCalls (stale : Fresh) (chunk : Bytes) : List Op :=
  (readHeader (recvBuffer stale chunk) 0).elim [] fun header =>
    chunkCalls header (recvBuffer stale chunk) chunk.length (chunk.length + 1) 0

/-- What one event asks the engine for in the name of a player: a chunk from the descriptor by
which get_player_from_fd finds him, whoever is on it, or the waking of his own clock. -/
def eventCalls (i : ℕ) (s : Server) : ServerEvent → List Op
  | .recv fd stale chunk => if getPlayerFromFd fd s = some i then receivedCalls stale chunk else []
  | .tick clock _ => if s.clocks[clock]? = some i then [.lower 1] else []

/-- What is asked for in the name of a player along a run of the server. -/
def playerCalls (env : ServerEnv) (i : ℕ) (s : Server) (events : List ServerEvent) : List Op :=
  collect (serverStep env) (eventCalls i) s events

section Steps

variable (env : ServerEnv) {s t : Server} {i : ℕ} {gc : GameContents}

theorem game_of_unshadowed (h : t.unshadowed = s.unshadowed) (i : ℕ) : t.game i = s.game i := by
  have hgame (u : Server) : u.game i = u.unshadowed.players[i]?.map Player.contents := by
    rw [Server.game, getElem?_unshadowed, Option.map_map]
    rfl
  rw [hgame, hgame, h]

/-- What keeps the contents of all players keeps the games. -/
theorem game_of_contents (h : t.players.map Player.contents = s.players.map Player.contents) (i : ℕ) :
    t.game i = s.game i := by
  have hgame (u : Server) : u.game i = (u.players.map Player.contents)[i]?.map GameContents.unshadowed := by
    rw [Server.game, List.getElem?_map, Option.map_map]
    rfl
  rw [hgame, hgame, h]

/-- A call into the engine changes the game of its own player. -/
theorem callEngine_game {op : Op} {player : ℕ} (hop : op ≠ .view)
    (h : callEngine env op player s = .ok t) :
    (∀ j, j ≠ player → t.game j = s.game j) ∧
      ∃ gc gc', s.game player = some gc ∧ engineStep env.randR gc op = .ok gc' ∧
        t.game player = some gc' := by
  obtain ⟨p, contents, hp, hcall, rfl⟩ := (callEngine_eq_ok env).mp h
  have hlt := (List.getElem?_eq_some_iff.mp hp).1
  constructor
  · intro j hj
    rw [Server.game, Server.game, List.getElem?_set_ne hj.symm]
  · refine ⟨p.contents.unshadowed, contents.unshadowed, ?_, ?_, ?_⟩
    · rw [Server.game, hp, Option.map_some]
    · rw [engineStep_unshadowed env.randR p.contents hop, hcall]
      rfl
    · rw [Server.game, List.getElem?_set_self hlt, Option.map_some]

/-- The games after some calls that a player has made and no others. -/
def Plays (i : ℕ) (s t : Server) (calls : List Op) : Prop :=
  ∀ gc, s.game i = some gc → ∃ gc', run (engineStep env.randR) gc calls = .ok gc' ∧ t.game i = some gc'

theorem plays_of_same (h : t.game i = s.game i) : Plays env i s t [] := by
  intro gc hgc
  exact ⟨gc, rfl, h.trans hgc⟩

theorem Plays.trans {u : Server} {calls calls' : List Op} (h : Plays env i s t calls)
    (h' : Plays env i t u calls') : Plays env i s u (calls ++ calls') := by
  intro gc hgc
  obtain ⟨gc₁, hrun, hgc₁⟩ := h gc hgc
  obtain ⟨gc₂, hrun', hgc₂⟩ := h' gc₁ hgc₁
  exact ⟨gc₂, by rw [run_append_ok _ _ hrun, hrun'], hgc₂⟩

theorem callEngine_plays {op : Op} {player : ℕ} (hop : op ≠ .view)
    (h : callEngine env op player s = .ok t) (i : ℕ) :
    Plays env i s t (if player = i then [op] else []) := by
  obtain ⟨hothers, gc, gc', hgc, hstep, hgc'⟩ := callEngine_game env hop h
  split_ifs with hplayer
  · subst hplayer
    intro gc₁ hgc₁
    rw [hgc, Option.some.injEq] at hgc₁
    subst hgc₁
    exact ⟨gc', by rw [run_cons_ok _ _ hstep, run_nil], hgc'⟩
  · exact plays_of_same env (hothers i (Ne.symm hplayer))

variable {header : MessageHeader} {cursor : Bytes} {player : Option ℕ}

/-- A message that asks the engine for nothing makes no call, whosever it is. -/
theorem plays_of_none {i : ℕ} (h : Plays env i s t []) : Plays env i s t (if player = some i then
    (Except.ok none : Except Fault (Option Op)).toOption.join.toList else []) := by
  split_ifs
  · exact h
  · exact h

/-- A message that is handled makes the call it asks for, in the game of its player. -/
theorem serverSwitch_plays (h : serverSwitch env header cursor player s = .ok t) (i : ℕ) :
    Plays env i s t (if player = some i then
      (engineOp header.messageType cursor).toOption.join.toList else []) := by
  have hnone (htype : header.messageType = msgTypeStartGame ∨ header.messageType = msgTypeOpponent) :
      engineOp header.messageType cursor = .ok none := by
    rcases htype with h | h <;> rw [h] <;> rfl
  rw [serverSwitch] at h
  split_ifs at h with hstart hopponent
  · rw [hnone (Or.inl hstart)]
    obtain ⟨j, p, -, -, rfl⟩ := startGame_eq_ok.mp h
    -- the clocks are started, and the games go on as they are
    exact plays_of_none env (plays_of_same env rfl)
  · rw [hnone (Or.inr hopponent)]
    obtain ⟨names, j, l, -, -, -, rfl⟩ := inviteOpponents_eq_ok.mp h
    exact plays_of_none env (plays_of_same env
      (game_of_contents (formParty_map Player.contents (j :: l) s fun _ _ => rfl) i))
  · obtain ⟨op, hop, h⟩ := bind_eq_ok.mp h
    rw [hop]
    cases op with
    | none =>
      rw [← Except.ok.inj h]
      exact plays_of_none env (plays_of_same env rfl)
    | some op =>
      obtain ⟨j, hj, hcall⟩ := bind_eq_ok.mp h
      rw [deref_eq_ok.mp hj]
      have hplays := callEngine_plays env (engineOp_ne_view hop) hcall i
      simp only [Option.some.injEq]
      exact hplays

/-- Players that are created change no game, and get new ones. -/
structure Created (s t : Server) : Prop where
  kept : ∀ i, s.game i ≠ none → t.game i = s.game i
  fresh : ∀ i gc, s.game i = none → t.game i = some gc → gc = newSeededGame env.randR (env.time i)

theorem created_refl (s : Server) : Created env s s :=
  ⟨fun _ _ => rfl, fun i gc hnone hsome => absurd (hnone.symm.trans hsome) (by simp)⟩

theorem Created.trans {u : Server} (h : Created env s t) (h' : Created env t u) : Created env s u where
  kept := by
    intro i hi
    have hkept := h.kept i hi
    rw [h'.kept i (hkept ▸ hi), hkept]
  fresh := by
    intro i gc hnone hsome
    cases ht : t.game i with
    | none => exact h'.fresh i gc ht hsome
    | some gc₁ =>
      rw [h'.kept i (by simp [ht]), ht, Option.some.injEq] at hsome
      exact hsome ▸ h.fresh i gc₁ hnone ht

theorem playerCreate_created (fd : ℤ) (name : Bytes) (s : Server) :
    Created env s (playerCreate env fd name s).1 where
  kept := by
    intro i hi
    have hlt : i < s.players.length := by
      by_contra hge
      exact hi (by rw [Server.game, List.getElem?_eq_none (not_lt.mp hge), Option.map_none])
    rw [Server.game, Server.game, playerCreate, List.getElem?_append_left hlt]
  fresh := by
    intro i gc hnone hsome
    have hge : s.players.length ≤ i := by
      rw [Server.game, Option.map_eq_none_iff, List.getElem?_eq_none_iff] at hnone
      exact hnone
    rw [Server.game, playerCreate, List.getElem?_append_right hge] at hsome
    -- the only index behind the old players is that of the new one
    obtain ⟨p, hp, rfl⟩ := Option.map_eq_some_iff.mp hsome
    obtain ⟨hlt, rfl⟩ := List.getElem?_eq_some_iff.mp hp
    have hi : i = s.players.length := by
      rw [List.length_singleton] at hlt
      omega
    subst hi
    simp only [Nat.sub_self, List.getElem_cons_zero]
    rfl

theorem clientLoop_created {fd : ℤ} {buffer : Bytes} {nbytes fuel offset : ℕ} {rs rs' : ReadState}
    (hheader : readHeader buffer 0 = some header) (htype : header.messageType = msgTypeRegister)
    (h : clientLoop env fd buffer nbytes fuel offset rs = .ok rs') :
    Created env rs.server rs'.server := by
  induction fuel generalizing offset rs with
  | zero => exact absurd h (by simp [clientLoop])
  | succ fuel ih =>
    rw [clientLoop] at h
    split_ifs at h
    · simp only [hheader, access_some, ok_bind, bind_eq_ok] at h
      obtain ⟨rs₁, h₁, h⟩ := h
      rcases handleMessage_cases env h₁ with ⟨-, hregister⟩ | ⟨hother, -⟩
      · obtain ⟨word, name, -, -, rfl⟩ := (registerPlayer_eq_ok env).mp hregister
        exact (playerCreate_created env fd name rs.server).trans env (ih h)
      · exact absurd htype hother
    · exact Except.ok.inj h ▸ created_refl env rs.server

/-- A loop over messages that do not register makes the calls they ask for. -/
theorem clientLoop_plays {fd : ℤ} {buffer : Bytes} {nbytes fuel offset : ℕ} {rs rs' : ReadState}
    (hheader : readHeader buffer 0 = some header) (htype : header.messageType ≠ msgTypeRegister)
    (h : clientLoop env fd buffer nbytes fuel offset rs = .ok rs') (i : ℕ) :
    Plays env i rs.server rs'.server
      (if rs.player = some i then chunkCalls header buffer nbytes fuel offset else []) := by
  induction fuel generalizing offset rs with
  | zero => exact absurd h (by simp [clientLoop])
  | succ fuel ih =>
    rw [clientLoop] at h
    rw [chunkCalls]
    split_ifs at h with hmore
    · simp only [hheader, access_some, ok_bind, bind_eq_ok] at h
      obtain ⟨rs₁, h₁, h⟩ := h
      rcases handleMessage_cases env h₁ with ⟨hregister, -⟩ | ⟨-, hsame, -, hswitch⟩
      · exact absurd hregister htype
      · have hboth := (serverSwitch_plays env hswitch i).trans env (ih h)
        rw [hsame] at hboth
        rw [if_pos hmore]
        split_ifs at hboth ⊢
        · exact hboth
        · exact hboth
    · rw [if_neg hmore, ite_self]
      exact Except.ok.inj h ▸ plays_of_same env rfl

theorem chunkCalls_register (htype : header.messageType = msgTypeRegister) (buffer : Bytes)
    (nbytes fuel offset : ℕ) : chunkCalls header buffer nbytes fuel offset = [] := by
  induction fuel generalizing offset with
  | zero => rfl
  | succ fuel ih =>
    have hnone (cursor : Bytes) : engineOp header.messageType cursor = .ok none := by
      rw [htype]
      rfl
    rw [chunkCalls, hnone, ih]
    split_ifs <;> rfl

/-- One event: every player's game goes on with the calls of that player, and a new player
gets a new game. -/
structure EventPlays (s t : Server) (event : ServerEvent) : Prop where
  plays : ∀ i, Plays env i s t (eventCalls i s event)
  fresh : ∀ i gc, s.game i = none → t.game i = some gc → gc = newSeededGame env.randR (env.time i)

theorem game_eq_none_iff : s.game i = none ↔ s.players.length ≤ i := by
  rw [Server.game, Option.map_eq_none_iff, List.getElem?_eq_none_iff]

theorem game_none_of_length (h : t.players.length = s.players.length) (hnone : s.game i = none) :
    t.game i = none := by
  rw [game_eq_none_iff] at hnone ⊢
  exact h ▸ hnone

/-- No socket and no clock is that of a player who is not there. -/
theorem eventCalls_nil (hs : ServerInv s) (hnone : s.game i = none) (event : ServerEvent) :
    eventCalls i s event = [] := by
  rw [game_eq_none_iff] at hnone
  cases event with
  | recv fd stale chunk =>
    rw [eventCalls, if_neg]
    intro hfound
    obtain ⟨hlt, -⟩ := List.findIdx?_eq_some_iff_getElem.mp hfound
    omega
  | tick clock fails =>
    rw [eventCalls, if_neg]
    intro hclock
    have := hs.threads i (List.mem_of_getElem? hclock)
    omega

theorem readFromClient_plays {fd : ℕ} {stale : Fresh} {chunk : Bytes}
    (h : readFromClient env fd stale chunk s = .ok t) : EventPlays env s t (.recv fd stale chunk) := by
  by_cases hchunk : chunk = []
  · rw [readFromClient, if_pos hchunk] at h
    have hcalls (i : ℕ) : eventCalls i s (.recv fd stale chunk) = [] := by
      have hloop (header : MessageHeader) :
          chunkCalls header (recvBuffer stale chunk) chunk.length (chunk.length + 1) 0 = [] := by
        rw [chunkCalls, if_neg (by rw [hchunk]; exact Nat.not_lt_zero _)]
      rw [eventCalls, receivedCalls]
      cases readHeader (recvBuffer stale chunk) 0 with
      | none => rw [Option.elim_none, ite_self]
      | some header => rw [Option.elim_some, hloop, ite_self]
    rw [← Except.ok.inj h]
    refine ⟨fun i => hcalls i ▸ plays_of_same env rfl, ?_⟩
    intro i gc hnone hsome
    exact absurd (hnone.symm.trans hsome) (by simp)
  · obtain ⟨rs, hloop, hfinish⟩ : ∃ rs, clientLoop env fd (recvBuffer stale chunk) chunk.length
        (chunk.length + 1) 0 ⟨s, getPlayerFromFd fd s, none⟩ = .ok rs ∧ finishRead env rs = .ok t := by
      rw [readFromClient, if_neg hchunk] at h
      exact bind_eq_ok.mp h
    have hsent (i : ℕ) : t.game i = rs.server.game i :=
      game_of_unshadowed (finishRead_unshadowed env hfinish) i
    obtain ⟨header, hheader⟩ : ∃ header, readHeader (recvBuffer stale chunk) 0 = some header := by
      rw [clientLoop, if_pos (List.length_pos_of_ne_nil hchunk)] at hloop
      simp only [bind_eq_ok, access_eq_ok] at hloop
      obtain ⟨header, hheader, -⟩ := hloop
      exact ⟨header, hheader⟩
    have hcalls (i : ℕ) : eventCalls i s (.recv fd stale chunk) =
        if getPlayerFromFd fd s = some i then
          chunkCalls header (recvBuffer stale chunk) chunk.length (chunk.length + 1) 0 else [] := by
      rw [eventCalls, receivedCalls, hheader, Option.elim_some]
    by_cases htype : header.messageType = msgTypeRegister
    · -- a chunk that registers asks for no calls
      have hcreated := clientLoop_created env hheader htype hloop
      have hnone (i : ℕ) : eventCalls i s (.recv fd stale chunk) = [] := by
        rw [hcalls, chunkCalls_register htype, ite_self]
      constructor
      · intro i gc hgc
        refine ⟨gc, by rw [hnone, run_nil], ?_⟩
        rw [hsent, hcreated.kept i (by simp [hgc]), hgc]
      · intro i gc hold hnew
        exact hcreated.fresh i gc hold (hsent i ▸ hnew)
    · constructor
      · intro i
        rw [hcalls]
        intro gc hgc
        obtain ⟨gc', hrun, hgc'⟩ := clientLoop_plays env hheader htype hloop i gc hgc
        exact ⟨gc', hrun, (hsent i).trans hgc'⟩
      · intro i gc hold hnew
        -- nobody registers, so there is no game where there was none
        have hlen : rs.server.players.length = s.players.length := by
          have hkeys := congrArg List.length (clientLoop_keys env hheader htype hloop)
          rwa [Server.keys, Server.keys, List.length_map, List.length_map] at hkeys
        rw [hsent, game_none_of_length hlen hold] at hnew
        exact absurd hnew (by simp)

/-- A turn of a clock lowers the block of its own player. -/
theorem playerClock_plays {fails : ℕ → Bool} {player : ℕ} {running : Bool}
    (h : playerClock env fails player s = .ok (t, running)) (i : ℕ) :
    Plays env i s t (if player = i then [.lower 1] else []) := by
  simp only [playerClock, bind_eq_ok, Except.ok.injEq, Prod.mk.injEq] at h
  obtain ⟨u, hu, p, -, v, hv, q, -, rfl, -⟩ := h
  have hsent : v.game i = u.game i := by
    have hstep (v : Server) (receiver : ℕ × ℕ) (w : Server) (hv : v.game i = u.game i)
        (hw : clockSendBoard env fails player v receiver = .ok w) : w.game i = u.game i := by
      simp only [clockSendBoard, bind_eq_ok] at hw
      obtain ⟨r, -, x, hx, hw⟩ := hw
      have hdrawn := game_of_unshadowed (sendPlayer_unshadowed env hx) i
      split_ifs at hw
      · have hsame := @map_modify_player _ Player.contents (fun p => { p with fd := -1 })
          (fun _ => rfl) x receiver.1
        rw [← Except.ok.inj hw, game_of_contents hsame, hdrawn, hv]
      · rw [← Except.ok.inj hw, hdrawn, hv]
    exact @invariant_run _ _ _ (clockSendBoard env fails player) (fun v => v.game i = u.game i) hstep
      u v _ rfl hv
  intro gc hgc
  obtain ⟨gc', hrun, hgc'⟩ := callEngine_plays env (by simp) hu i gc hgc
  exact ⟨gc', hrun, hsent.trans hgc'⟩

theorem serverStep_plays {event : ServerEvent}
    (h : serverStep env s event = .ok t) : EventPlays env s t event := by
  cases event with
  | recv fd stale chunk => exact readFromClient_plays env h
  | tick clock fails =>
    rw [serverStep] at h
    cases hclock : s.clocks[clock]? with
    | none =>
      rw [hclock] at h
      rw [← Except.ok.inj h]
      refine ⟨fun i => ?_, fun i gc hnone hsome => absurd (hnone.symm.trans hsome) (by simp)⟩
      rw [eventCalls, hclock, if_neg (by simp)]
      exact plays_of_same env rfl
    | some player =>
      rw [hclock] at h
      obtain ⟨⟨u, running⟩, hu, h⟩ := bind_eq_ok.mp h
      -- the clock itself may end, which is no matter of the games
      have hgame (i : ℕ) : t.game i = u.game i := by
        rw [← Except.ok.inj h]
        split_ifs <;> rfl
      have hlen : u.players.length = s.players.length := (playerClock_seats env hu).length
      constructor
      · intro i gc hgc
        have hplays := playerClock_plays env hu i gc hgc
        rw [eventCalls, hclock]
        simp only [Option.some.injEq]
        rwa [hgame]
      · intro i gc hnone hsome
        rw [hgame, game_none_of_length hlen hnone] at hsome
        exact absurd hsome (by simp)

theorem playerCalls_plays {events : List ServerEvent} {u : Server} (hs : ServerInv s)
    (h : run (serverStep env) s events = .ok u) (i : ℕ) :
    Plays env i s u (playerCalls env i s events) ∧
      ∀ gc, s.game i = none → u.game i = some gc →
        run (engineStep env.randR) (newSeededGame env.randR (env.time i))
          (playerCalls env i s events) = .ok gc := by
  induction events generalizing s with
  | nil =>
    rw [run_nil, Except.ok.injEq] at h
    subst h
    exact ⟨plays_of_same env rfl, fun gc hnone hsome => absurd (hnone.symm.trans hsome) (by simp)⟩
  | cons event events ih =>
    obtain ⟨t, ht, hrun⟩ := (run_cons_eq_ok _).mp h
    have hevent := serverStep_plays env ht
    obtain ⟨hplays, hfresh⟩ := ih (serverStep_inv env hs ht) hrun
    have hcalls : playerCalls env i s (event :: events) =
        eventCalls i s event ++ playerCalls env i t events := collect_cons _ _ ht
    rw [hcalls]
    refine ⟨(hevent.plays i).trans env hplays, ?_⟩
    intro gc hnone hsome
    rw [eventCalls_nil hs hnone, List.nil_append]
    cases hgame : t.game i with
    | none => exact hfresh gc hgame hsome
    | some gc₁ =>
      -- the event created the player
      have hnew := hevent.fresh i gc₁ hnone hgame
      subst hnew
      obtain ⟨gc', hcalls', hgc'⟩ := hplays _ hgame
      rw [hcalls', Option.some.inj (hgc'.symm.trans hsome)]

end Steps

section Clocks

variable (env : ServerEnv) {s u : Server} {i : ℕ} {p : Player}

/-- Only the clocks force a block down. -/
theorem engineOp_ne_forced {messageType : UInt8} {cursor : Bytes} {op : Op}
    (h : engineOp messageType cursor = .ok (some op)) : op ≠ .lower 1 := by
  simp only [engineOp] at h
  split_ifs at h
  · obtain ⟨b, -, h⟩ := bind_eq_ok.mp h
    rw [← Option.some.inj (Except.ok.inj h)]
    exact Op.noConfusion
  · obtain ⟨b, -, h⟩ := bind_eq_ok.mp h
    rw [← Option.some.inj (Except.ok.inj h)]
    split_ifs <;> exact Op.noConfusion
  · rw [← Option.some.inj (Except.ok.inj h)]
    decide
  · rw [← Option.some.inj (Except.ok.inj h)]
    exact Op.noConfusion
  · rw [← Option.some.inj (Except.ok.inj h)]
    exact Op.noConfusion
  · exact absurd (Except.ok.inj h) (Option.some_ne_none op).symm

theorem not_mem_chunkCalls (header : MessageHeader) (buffer : Bytes) (nbytes fuel offset : ℕ) :
    .lower 1 ∉ chunkCalls header buffer nbytes fuel offset := by
  induction fuel generalizing offset with
  | zero => simp [chunkCalls]
  | succ fuel ih =>
    rw [chunkCalls]
    split_ifs
    · rw [List.mem_append, not_or]
      refine ⟨?_, ih _⟩
      cases hop : engineOp header.messageType (buffer.drop (offset + messageHeaderSize)) with
      | error e => simp [Except.toOption]
      | ok op =>
        cases op with
        | none => simp [Except.toOption]
        | some op =>
          have hne := engineOp_ne_forced hop
          simp [Except.toOption, hne.symm]
    · simp

/-- Where a player asks for nothing, an event makes no call for him or the one of a clock. -/
theorem eventCalls_unplayed {event : ServerEvent}
    (h : ∀ op ∈ eventCalls i s event, op = .lower 1) :
    eventCalls i s event = [] ∨ eventCalls i s event = [.lower 1] := by
  cases event with
  | recv fd stale chunk =>
    left
    apply List.eq_nil_iff_forall_not_mem.mpr
    intro op hop
    -- no message asks for the forced call of a clock
    have hforced : .lower 1 ∈ eventCalls i s (.recv fd stale chunk) := h op hop ▸ hop
    rw [eventCalls, receivedCalls] at hforced
    split_ifs at hforced
    · cases hheader : readHeader (recvBuffer stale chunk) 0 with
      | none =>
        rw [hheader] at hforced
        exact absurd hforced (by simp)
      | some header =>
        rw [hheader] at hforced
        exact not_mem_chunkCalls header _ _ _ _ hforced
    · exact absurd hforced (by simp)
  | tick clock fails =>
    rw [eventCalls]
    split_ifs
    · exact Or.inr rfl
    · exact Or.inl rfl

theorem unplayed_measure {gc : GameContents} {more : List ServerEvent}
    (hmore : run (serverStep env) s more = .ok u)
    (hcalls : ∀ op ∈ playerCalls env i s more, op = .lower 1)
    (hlive : ∀ t gc, Visits (serverStep env) s more t → t.game i = some gc → gameOver gc.board = 0)
    (hgc : s.game i = some gc) (hi : EngineInv gc) :
    (playerCalls env i s more).length ≤ idleMeasure gc := by
  induction more generalizing s gc with
  | nil => exact Nat.zero_le _
  | cons event more ih =>
    obtain ⟨t, ht, hrun⟩ := (run_cons_eq_ok _).mp hmore
    have hsplit : playerCalls env i s (event :: more) =
        eventCalls i s event ++ playerCalls env i t more := collect_cons _ _ ht
    rw [hsplit, List.forall_mem_append] at hcalls
    obtain ⟨gc', hplayed, hgc'⟩ := (serverStep_plays env ht).plays i gc hgc
    have hlater (v : Server) (gc : GameContents) (hv : Visits (serverStep env) t more v)
        (hv' : v.game i = some gc) : gameOver gc.board = 0 :=
      hlive v gc ((visits_cons _).mpr (Or.inr ⟨t, ht, hv⟩)) hv'
    have hover := hlater t gc' (visits_start _ t more) hgc'
    rw [hsplit]
    rcases eventCalls_unplayed hcalls.1 with hnone | hone
    · rw [hnone, run_nil, Except.ok.injEq] at hplayed
      rw [hnone, List.nil_append]
      exact ih hrun hcalls.2 hlater (hplayed ▸ hgc') hi
    · -- a clock wakes: the game is still on, so there are fewer turns left
      have hstart := hlive s gc (visits_start _ s _) hgc
      obtain ⟨gc'', hstep, hless⟩ := straight_idle env.randR hi hstart
        (Or.inr ⟨1, rfl⟩ : Op.lower 1 = .hardDrop ∨ ∃ forced, Op.lower 1 = .lower forced)
      rw [hone, run_cons_ok _ _ hstep, run_nil, Except.ok.injEq] at hplayed
      subst hplayed
      obtain ⟨hinv, hmeasure⟩ := hless.resolve_left (not_not.mpr hover)
      have hrest := ih hrun hcalls.2 hlater hgc' hinv
      rw [hone, List.length_append, List.length_singleton]
      omega

/-- While a game is on and nothing but clocks calls the engine in it, the clocks wake less than
3079 times. -/
theorem unplayed_calls_bounded {events more : List ServerEvent}
    (hrun : run (serverStep env) serverInit events = .ok s) (hp : s.players[i]? = some p)
    (hmore : run (serverStep env) s more = .ok u)
    (hcalls : ∀ op ∈ playerCalls env i s more, op = .lower 1)
    (hlive : ∀ t q, Visits (serverStep env) s more t → t.players[i]? = some q →
      gameOver q.contents.board = 0) :
    (playerCalls env i s more).length < idleBound := by
  -- the game is reached by the calls in its player's name, which bounds its measure
  have hgc : s.game i = some p.contents.unshadowed := by rw [Server.game, hp, Option.map_some]
  have hgame := (playerCalls_plays env serverInit_inv hrun i).2 _ rfl hgc
  have hi := reachable_inv env.randR ⟨_, _, hgame⟩
  have hmeasure := unplayed_measure env hmore hcalls (by
    intro t gc ht hgc
    obtain ⟨q, hq, rfl⟩ := Option.map_eq_some_iff.mp hgc
    exact hlive t q ht hq) hgc hi
  exact lt_of_le_of_lt hmeasure (idleMeasure_lt hi (autoLowerCount_nonneg env.randR hgame))

end Clocks

end TetrisMint
