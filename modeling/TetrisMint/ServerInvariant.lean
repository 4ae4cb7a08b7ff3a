import TetrisMint.CullTermination
import TetrisMint.ShadowBlocks

/-! The invariant of the server over all events: no pointer dangles, and every
game is in a state that the engine can be in. -/
namespace TetrisMint

open FallibleRun

theorem engineInv_unshadowed (gc : GameContents) : EngineInv gc.unshadowed ↔ EngineInv gc := by
  constructor
  · rintro ⟨h₁, h₂, h₃, h₄, h₅, h₆, h₇⟩
    exact ⟨h₁, h₂, h₃, h₄, h₅, h₆, h₇⟩
  · rintro ⟨h₁, h₂, h₃, h₄, h₅, h₆, h₇⟩
    exact ⟨h₁, h₂, h₃, h₄, h₅, h₆, h₇⟩

/-- What holds of the server between any two events. -/
structure ServerInv (s : Server) : Prop where
  games : ∀ p ∈ s.players, EngineInv p.contents
  members : ∀ l ∈ s.parties, ∀ i ∈ l, i < s.players.length
  backPointers : ∀ p ∈ s.players, ∀ k, p.party = some k → k < s.parties.length
  threads : ∀ i ∈ s.clocks, i < s.players.length

/-- Where the seats are the same, only the games can break the invariant. -/
theorem SameSeats.inv {s t : Server} (h : SameSeats s t) (hs : ServerInv s)
    (hgames : ∀ p ∈ t.players, EngineInv p.contents) : ServerInv t where
  games := hgames
  members := by
    rw [h.parties, h.length]
    exact hs.members
  backPointers := by
    intro p hp k hk
    have hmem : some k ∈ s.players.map Player.party := by
      rw [← h.backPointers]
      exact List.mem_map.mpr ⟨p, hp, hk⟩
    obtain ⟨q, hq, hqk⟩ := List.mem_map.mp hmem
    rw [h.parties]
    exact hs.backPointers q hq k hqk
  threads := by
    rw [h.clocks, h.length]
    exact hs.threads

/-- The invariant does not look at shadow blocks. -/
theorem serverInv_of_unshadowed {s t : Server} (h : t.unshadowed = s.unshadowed)
    (hs : ServerInv s) : ServerInv t := by
  apply (sameSeats_of_unshadowed h).inv hs
  intro p hp
  have hmem : p.unshadowed ∈ s.unshadowed.players := by
    rw [← h]
    exact List.mem_map.mpr ⟨p, hp, rfl⟩
  obtain ⟨q, hq, hqp⟩ := List.mem_map.mp hmem
  have hcontents : q.contents.unshadowed = p.contents.unshadowed := congrArg Player.contents hqp
  rw [← engineInv_unshadowed, ← hcontents, engineInv_unshadowed]
  exact hs.games q hq

section Operations

variable (env : ServerEnv) {s t : Server} {player : ℕ}

theorem callEngine_inv {op : Op} (hs : ServerInv s) (h : callEngine env op player s = .ok t) :
    ServerInv t := by
  apply (callEngine_seats env h).1.inv hs
  obtain ⟨p, contents, hp, hc, rfl⟩ := (callEngine_eq_ok env).mp h
  intro q hq
  rcases List.mem_or_eq_of_mem_set hq with hold | rfl
  · exact hs.games q hold
  · exact engineStep_inv env.randR (hs.games p (List.mem_of_getElem? hp)) hc

theorem ttetrisPartyGetPlayers_lt (hs : ServerInv s) (party : ℕ) :
    ∀ i ∈ ttetrisPartyGetPlayers party s, i < s.players.length := by
  intro i hi
  rw [ttetrisPartyGetPlayers, List.getD_eq_getElem?_getD] at hi
  cases hl : s.parties[party]? with
  | none =>
    rw [hl] at hi
    exact absurd hi (by simp)
  | some l =>
    rw [hl] at hi
    exact hs.members l (List.mem_of_getElem? hl) i hi

theorem boardReceivers_lt (hs : ServerInv s) {p : Player} (hp : s.players[player]? = some p) :
    ∀ i ∈ boardReceivers player p s, i < s.players.length := by
  intro i hi
  rw [boardReceivers] at hi
  split at hi
  · exact ttetrisPartyGetPlayers_lt hs _ i hi
  · rw [List.mem_singleton] at hi
    exact hi ▸ (List.getElem?_eq_some_iff.mp hp).1

/-- A game that can be in play can be drawn. -/
theorem sendPlayer_returns (hs : ServerInv s) (hp : player < s.players.length) (fd : ℤ) :
    ∃ t, sendPlayer env fd player s = .ok t := by
  rw [sendPlayer]
  split_ifs with hclosed
  · exact ⟨s, rfl⟩
  · have hget := List.getElem?_eq_getElem hp
    obtain ⟨r, hview⟩ := view_returns (hs.games _ (List.mem_of_getElem? hget))
    refine ⟨_, (callEngine_eq_ok env).mpr ⟨_, r.1, hget, ?_, rfl⟩⟩
    rw [engineStep, Op.call, hview]
    rfl

theorem sendBoards_returns (hs : ServerInv s) (hp : player < s.players.length) :
    ∃ t, sendBoards env player s = .ok t := by
  have hget := List.getElem?_eq_getElem hp
  have hreceivers := boardReceivers_lt hs hget
  obtain ⟨t, ht, -⟩ := @run_returns _ _ _ (sendBoard env player)
    (fun u => u.unshadowed = s.unshadowed) (boardReceivers player s.players[player] s)
    (by
      intro u receiver hmem hu
      have hlen := (sameSeats_of_unshadowed hu).length
      -- the receivers were looked up before the boards went out, and no player is removed
      have hr : receiver < u.players.length := hlen ▸ hreceivers receiver hmem
      obtain ⟨v, hv⟩ := sendPlayer_returns env (serverInv_of_unshadowed hu hs) (hlen ▸ hp)
        u.players[receiver].fd
      refine ⟨v, ?_, (sendPlayer_unshadowed env hv).trans hu⟩
      rw [sendBoard, List.getElem?_eq_getElem hr]
      exact hv) s rfl
  exact ⟨t, by rw [sendBoards, hget]; exact ht⟩

theorem playerCreate_inv (hs : ServerInv s) (fd : ℤ) (name : Bytes) :
    ServerInv (playerCreate env fd name s).1 where
  games := by
    intro p hp
    rcases List.mem_append.mp hp with hold | hnew
    · exact hs.games p hold
    · rw [List.mem_singleton.mp hnew]
      exact newSeededGame_inv env.randR _
  members := by
    intro l hl i hi
    have := hs.members l hl i hi
    rw [playerCreate, List.length_append]
    omega
  backPointers := by
    intro p hp k hk
    rcases List.mem_append.mp hp with hold | hnew
    · exact hs.backPointers p hold k hk
    · rw [List.mem_singleton.mp hnew] at hk
      exact absurd hk (by simp)
  threads := by
    intro i hi
    have := hs.threads i hi
    rw [playerCreate, List.length_append]
    omega

theorem startGame_inv {sender : Option ℕ} (hs : ServerInv s) (h : startGame sender s = .ok t) :
    ServerInv t := by
  obtain ⟨i, p, -, -, rfl⟩ := startGame_eq_ok.mp h
  refine ⟨hs.games, hs.members, hs.backPointers, ?_⟩
  intro j hj
  rcases List.mem_append.mp hj with hold | hnew
  · exact hs.threads j hold
  · cases hparty : p.party with
    | none =>
      rw [hparty] at hnew
      exact absurd hnew (by simp)
    | some k =>
      rw [hparty] at hnew
      exact ttetrisPartyGetPlayers_lt hs k j hnew

theorem formParty_length (l : List ℕ) (s : Server) :
    (formParty l s).players.length = s.players.length := by
  have hlen := congrArg List.length (formParty_map Player.name l s fun _ _ => rfl)
  rwa [List.length_map, List.length_map] at hlen

theorem formParty_inv (hs : ServerInv s) {l : List ℕ} (hl : ∀ i ∈ l, i < s.players.length) :
    ServerInv (formParty l s) where
  games := by
    intro p hp
    have hmem : p.contents ∈ s.players.map Player.contents := by
      rw [← formParty_map Player.contents l s fun _ _ => rfl]
      exact List.mem_map.mpr ⟨p, hp, rfl⟩
    obtain ⟨q, hq, hqp⟩ := List.mem_map.mp hmem
    exact hqp ▸ hs.games q hq
  members := by
    intro l' hl' i hi
    rw [formParty_parties] at hl'
    rw [formParty_length]
    rcases List.mem_append.mp hl' with hold | hnew
    · exact hs.members l' hold i hi
    · rw [List.mem_singleton.mp hnew] at hi
      exact hl i hi
  backPointers := by
    intro p hp k hk
    obtain ⟨j, hj⟩ := List.mem_iff_getElem?.mp hp
    rw [formParty_players, Option.map_eq_some_iff] at hj
    obtain ⟨q, hq, rfl⟩ := hj
    rw [formParty_parties, List.length_append, List.length_singleton]
    split_ifs at hk with hmem
    · -- a member of the new party points to the list that comes last
      have heq := Option.some.inj hk
      omega
    · have := hs.backPointers q (List.mem_of_getElem? hq) k hk
      omega
  threads := by
    rw [formParty_clocks, formParty_length]
    exact hs.threads

theorem clockSendBoard_inv {fails : ℕ → Bool} {receiver : ℕ × ℕ} (hs : ServerInv s)
    (h : clockSendBoard env fails player s receiver = .ok t) : ServerInv t := by
  apply (clockSendBoard_seats env h).inv hs
  simp only [clockSendBoard, bind_eq_ok] at h
  obtain ⟨r, -, u, hu, h⟩ := h
  have hsent := serverInv_of_unshadowed (sendPlayer_unshadowed env hu) hs
  split_ifs at h
  · rw [← Except.ok.inj h]
    intro p hp
    obtain ⟨j, hj⟩ := List.mem_iff_getElem?.mp hp
    rw [List.getElem?_modify, Option.map_eq_map, Option.map_eq_some_iff] at hj
    obtain ⟨q, hq, rfl⟩ := hj
    have hgame := hsent.games q (List.mem_of_getElem? hq)
    split_ifs <;> exact hgame
  · exact Except.ok.inj h ▸ hsent.games

theorem playerClock_inv {fails : ℕ → Bool} {running : Bool} (hs : ServerInv s)
    (h : playerClock env fails player s = .ok (t, running)) : ServerInv t := by
  simp only [playerClock, bind_eq_ok, Except.ok.injEq, Prod.mk.injEq] at h
  -- first the engine lowers the block, then the boards go out
  obtain ⟨u, hu, p, -, v, hv, q, -, rfl, -⟩ := h
  exact invariant_run (clockSendBoard env fails player)
    (fun _ _ _ hi ht => clockSendBoard_inv env hi ht) (callEngine_inv env hs hu) hv

end Operations

section Events

variable (env : ServerEnv) {s t : Server}

/-- The local pointer of read_from_client is NULL or points to a player. -/
structure ReadInv (rs : ReadState) : Prop where
  server : ServerInv rs.server
  player : ∀ i, rs.player = some i → i < rs.server.players.length

theorem readInv_start (hs : ServerInv s) (fd : ℤ) :
    ReadInv ⟨s, getPlayerFromFd fd s, none⟩ := by
  refine ⟨hs, ?_⟩
  intro i hi
  obtain ⟨hlt, -⟩ := List.findIdx?_eq_some_iff_getElem.mp hi
  exact hlt

theorem finishRead_returns {rs : ReadState} (hrs : ReadInv rs) : ∃ t, finishRead env rs = .ok t := by
  rw [finishRead]
  cases hplayer : rs.player with
  | none => exact ⟨rs.server, rfl⟩
  | some player => exact sendBoards_returns env hrs.server (hrs.player player hplayer)

theorem serverSwitch_inv {header : MessageHeader} {cursor : Bytes} {player : Option ℕ}
    (hs : ServerInv s) (hp : ∀ i, player = some i → i < s.players.length)
    (h : serverSwitch env header cursor player s = .ok t) : ServerInv t := by
  rcases serverSwitch_cases env h with ⟨-, h⟩ | ⟨-, h⟩ | ⟨-, -, rfl | ⟨op, i, -, h⟩⟩
  · exact startGame_inv hs h
  · obtain ⟨names, i, l, -, hi, hl, rfl⟩ := inviteOpponents_eq_ok.mp h
    apply formParty_inv hs
    rw [List.forall_mem_cons]
    exact ⟨hp i hi, invitedPlayers_lt hl⟩
  · exact hs
  · exact callEngine_inv env hs h

/-- Whatever header and body a message has, handling it keeps the invariant. -/
theorem handleMessage_inv {fd : ℤ} {header : MessageHeader} {cursor : Bytes} {rs rs' : ReadState}
    (hrs : ReadInv rs) (h : handleMessage env fd header rs cursor = .ok rs') : ReadInv rs' := by
  rcases handleMessage_cases env h with ⟨-, h⟩ | ⟨-, hplayer, -, h⟩
  · obtain ⟨word, name, -, -, rfl⟩ := (registerPlayer_eq_ok env).mp h
    refine ⟨playerCreate_inv env hrs.server fd name, ?_⟩
    intro i hi
    rw [← Option.some.inj hi, playerCreate, List.length_append, List.length_singleton]
    exact Nat.lt_succ_self _
  · refine ⟨serverSwitch_inv env hrs.server hrs.player h, ?_⟩
    intro i hi
    -- no other message appends players, so the pointer stays valid
    have hlen := congrArg List.length (serverSwitch_fds env h)
    rw [List.length_map, List.length_map] at hlen
    rw [hlen]
    exact hrs.player i (hplayer ▸ hi)

theorem clientLoop_inv {fd : ℤ} {buffer : Bytes} {nbytes fuel cursor : ℕ} {rs rs' : ReadState}
    (hrs : ReadInv rs) (h : clientLoop env fd buffer nbytes fuel cursor rs = .ok rs') :
    ReadInv rs' := by
  induction fuel generalizing cursor rs with
  | zero => exact absurd h (by simp [clientLoop])
  | succ fuel ih =>
    rw [clientLoop] at h
    split_ifs at h
    · simp only [bind_eq_ok] at h
      obtain ⟨header, -, rs₁, h₁, h⟩ := h
      exact ih (handleMessage_inv env hrs h₁) h
    · exact Except.ok.inj h ▸ hrs

theorem readFromClient_inv {fd : ℕ} {stale : Fresh} {chunk : Bytes} (hs : ServerInv s)
    (h : readFromClient env fd stale chunk s = .ok t) : ServerInv t := by
  rw [readFromClient] at h
  split_ifs at h
  · exact Except.ok.inj h ▸ hs
  · obtain ⟨rs, hrs, h⟩ := bind_eq_ok.mp h
    have hinv := clientLoop_inv env (readInv_start hs fd) hrs
    exact serverInv_of_unshadowed (finishRead_unshadowed env h) hinv.server

theorem serverStep_inv {event : ServerEvent} (hs : ServerInv s)
    (h : serverStep env s event = .ok t) : ServerInv t := by
  cases event with
  | recv fd stale chunk => exact readFromClient_inv env hs h
  | tick clock fails =>
    rw [serverStep] at h
    cases hclock : s.clocks[clock]? with
    | none =>
      rw [hclock] at h
      exact Except.ok.inj h ▸ hs
    | some player =>
      rw [hclock] at h
      obtain ⟨⟨u, running⟩, hu, h⟩ := bind_eq_ok.mp h
      have hinv := playerClock_inv env hs hu
      cases running with
      | true => exact Except.ok.inj h ▸ hinv
      | false =>
        rw [← Except.ok.inj h]
        -- a thread that ends leaves the other clocks
        refine ⟨hinv.games, hinv.members, hinv.backPointers, ?_⟩
        exact fun i hi => hinv.threads i (List.mem_of_mem_eraseIdx hi)

theorem serverInit_inv : ServerInv serverInit where
  games := by simp [serverInit]
  members := by simp [serverInit]
  backPointers := by simp [serverInit]
  threads := by simp [serverInit]

/-- The invariant in every state that events lead to, whatever bytes the clients send. -/
theorem server_invariant {events : List ServerEvent}
    (h : run (serverStep env) serverInit events = .ok s) : ServerInv s :=
  invariant_run (serverStep env) (fun _ _ _ hi ht => serverStep_inv env hi ht) serverInit_inv h

end Events

end TetrisMint
