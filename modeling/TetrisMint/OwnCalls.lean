import TetrisMint.PlayerGames
import TetrisMint.PlayerRegistry

/-! Whose calls they are: while descriptors and names identify the players, the calls in a player's
name are those of the connection that registered him and of his own clocks. -/
namespace TetrisMint

open FallibleRun

/-- What the whole server hands on to its players in a step. -/
def handedOn (g : GameServer) : GameEvent → List ServerEvent
  | .main reply =>
    match g.loop.dataAt reply with
    | some (fd, _, stale, chunk) => [.recv fd stale chunk]
    | none => []
  | .tick clock fails => if g.loop.point = .exited then [] else [.tick clock fails]

/-- The player is online, and the connection is the one that registered him. -/
def Owns (g : GameServer) (c i : ℕ) : Prop :=
  g.registeredBy[i]? = some c ∧ ∃ p ∈ g.server.players[i]?, p.fd ≠ -1

instance (g : GameServer) (c i : ℕ) : Decidable (Owns g c i) :=
  inferInstanceAs (Decidable (_ ∧ _))

/-- What a step asks the engine for on a player's own behalf: a chunk from the connection that
registered him, while he is online, or the waking of his own clock. -/
def connectionCalls (i : ℕ) (g : GameServer) : GameEvent → List Op
  | .main reply =>
    match g.loop.dataAt reply with
    | some (_, c, stale, chunk) => if Owns g c i then receivedCalls stale chunk else []
    | none => []
  | .tick clock _ =>
    if g.loop.point = .exited then []
    else if g.server.clocks[clock]? = some i then [.lower 1] else []

/-- What a player's own connection and clocks ask the engine for along a run. -/
def ownCalls (env : ServerEnv) (i : ℕ) (g : GameServer) (events : List GameEvent) : List Op :=
  collect (gameStep env) (connectionCalls i) g events

section Steps

variable (env : ServerEnv) {g g' : GameServer}

theorem length_handedOn (g : GameServer) (event : GameEvent) : (handedOn g event).length ≤ 1 := by
  cases event with
  | main reply =>
    rw [handedOn]
    cases g.loop.dataAt reply <;> simp
  | tick clock fails =>
    rw [handedOn]
    split_ifs <;> simp

/-- A step of the whole server is a step of its players, or none. -/
theorem gameStep_server (g : GameServer) (event : GameEvent) (g' : GameServer)
    (h : gameStep env g event = .ok g') :
    run (serverStep env) g.server (handedOn g event) = .ok g'.server := by
  cases event with
  | main reply =>
    simp only [gameStep] at h
    rw [handedOn]
    cases hdata : g.loop.dataAt reply with
    | none =>
      rw [hdata] at h
      rw [← Except.ok.inj h]
      rfl
    | some data =>
      obtain ⟨fd, c, stale, chunk⟩ := data
      rw [hdata] at h
      obtain ⟨server, hserver, h⟩ := bind_eq_ok.mp h
      rw [← Except.ok.inj h]
      exact run_cons_ok _ _ hserver
  | tick clock fails =>
    simp only [gameStep] at h
    rw [handedOn]
    split_ifs at h ⊢
    · rw [← Except.ok.inj h]
      rfl
    · obtain ⟨server, hserver, h⟩ := bind_eq_ok.mp h
      rw [← Except.ok.inj h]
      exact run_cons_ok _ _ hserver

/-- While descriptors identify the players, the lookup finds the owner of the connection. -/
theorem connectionCalls_eq {event : GameEvent} (i : ℕ) (hok : RegistryOk g)
    (h : gameStep env g event = .ok g') :
    playerCalls env i g.server (handedOn g event) = connectionCalls i g event := by
  have hone (e : ServerEvent) (t : Server) (he : serverStep env g.server e = .ok t) :
      playerCalls env i g.server [e] = eventCalls i g.server e := by
    rw [playerCalls, collect_cons _ _ he, collect, List.append_nil]
  have hserver := gameStep_server env g event g' h
  cases event with
  | main reply =>
    rw [connectionCalls]
    rw [handedOn] at hserver ⊢
    cases hdata : g.loop.dataAt reply with
    | none => rfl
    | some data =>
      -- the chunk comes on a descriptor that finds the player exactly if the connection is his
      obtain ⟨fd, c, stale, chunk⟩ := data
      rw [hdata] at hserver
      obtain ⟨t, ht, -⟩ := (run_cons_eq_ok _).mp hserver
      have howner : getPlayerFromFd fd g.server = some i ↔ Owns g c i :=
        hok.fromFd fd c (dataAt_eq_some hdata).1 i
      simp only [hone _ t ht, eventCalls, howner]
  | tick clock fails =>
    rw [connectionCalls]
    rw [handedOn] at hserver ⊢
    split_ifs at hserver ⊢ with hexited hclock
    · rfl
    all_goals
      obtain ⟨t, ht, -⟩ := (run_cons_eq_ok _).mp hserver
      rw [hone _ t ht, eventCalls]
      simp [hclock]

/-- The calls in a player's name are his own, as long as the registry is right. -/
theorem playerCalls_eq_ownCalls {events : List GameEvent} (i : ℕ) (hi : RegistryInv g)
    (halong : Along (gameStep env) RegistryStep g events)
    (h : run (gameStep env) g events = .ok g') :
    playerCalls env i g.server (collect (gameStep env) handedOn g events) = ownCalls env i g events := by
  rw [playerCalls, collect_collect (gameStep env) GameServer.server (gameStep_server env) h]
  apply collect_congr (gameStep env) _ _ hi halong h
  · exact fun g event g' hi hP h => gameStep_inv hi hP h
  · exact fun g event g' hi h => connectionCalls_eq env i hi.ok h

end Steps

section Runs

variable (env : ServerEnv) (inherited : ℕ) {g : GameServer} {i : ℕ} {p : Player}
  {events : List GameEvent}

end Runs

/-- Two clients connect and register. The first one drops a piece, and the second one puts his away. -/
def twoGames : List GameEvent :=
  mainTurn [3] [some (registerMessage 1 [65]).encode] ++
  mainTurn [3] [none, some (registerMessage 1 [66]).encode] ++
  mainTurn [4, 5] [some (bareMessage msgTypeDrop 2).encode, some (bareMessage msgTypeSwapHold 2).encode]

section Clocks

variable (env : ServerEnv) (inherited : ℕ) {g u : GameServer} {i : ℕ} {p : Player}
  {events more : List GameEvent}

end Clocks

/-- Three turns of a clock, with a drop of the other player and a turn of his clock among them. -/
def threeTurns : List GameEvent :=
  [.tick 0 fun _ => false, .tick 1 fun _ => false] ++
  mainTurn [5] [none, some (bareMessage msgTypeDrop 2).encode] ++
  [.tick 0 fun _ => false, .tick 0 fun _ => false]

/-- The game of the first player is on. -/
def firstOn (g : GameServer) : Bool := g.server.players[0]?.any fun p => gameOver p.contents.board = 0

/-- The step leaves it on. -/
def KeepsFirstOn (g : GameServer) (event : GameEvent) : Prop :=
  (gameStep heroEnv g event).toOption.all firstOn = true

instance (g : GameServer) (event : GameEvent) : Decidable (KeepsFirstOn g event) :=
  inferInstanceAs (Decidable (_ = true))

end TetrisMint
