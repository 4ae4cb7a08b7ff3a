import TetrisMint.ClientMessages

/-! The clock threads of the players. When no player has two of them. -/
namespace TetrisMint

open FallibleRun

/-- Each player has at most one running clock. -/
def AtMostOneClock (s : Server) : Prop := ∀ i, s.clocks.count i ≤ 1

/-- The players for whom a START_GAME message starts a clock: the party of its sender. -/
def startedPlayers (fd : ℕ) (s : Server) : List ℕ :=
  match (getPlayerFromFd fd s).bind fun i => s.players[i]?.bind Player.party with
  | some party => ttetrisPartyGetPlayers party s
  | none => []

/-- A START_GAME message starts the clocks of different players that have none. -/
def StartsIdle (s : Server) : Delivery → Prop
  | .message fd _ msg _ => msg.messageType = msgTypeStartGame →
      (startedPlayers fd s).Nodup ∧ ∀ i ∈ startedPlayers fd s, i ∉ s.clocks
  | .tick _ _ => True

section Deliveries

variable {env : ServerEnv} {s t : Server} {fd : ℕ} {stale : Fresh} {msg : Message}
  {wf : ClientMessage msg}

theorem deliver_start (htype : msg.messageType = msgTypeStartGame)
    (h : deliver env s (.message fd stale msg wf) = .ok t) :
    t.clocks = s.clocks ++ startedPlayers fd s := by
  obtain ⟨u, hseats, ⟨hother, -⟩ | ⟨-, hstart⟩ | ⟨hother, -⟩ | ⟨hother, -⟩⟩ :=
    deliver_message_cases h
  · exact absurd (htype.symm.trans hother) (by decide)
  · obtain ⟨i, p, hi, hp, rfl⟩ := startGame_eq_ok.mp hstart
    -- the party is the one of the sender, if he is in one
    have hstarted : startedPlayers fd s = p.party.elim [] fun k => ttetrisPartyGetPlayers k s := by
      rw [startedPlayers, hi, Option.bind_some, hp, Option.bind_some]
      cases p.party <;> rfl
    rw [hseats.clocks, hstarted]
  · exact absurd (htype.symm.trans hother) (by decide)
  · exact absurd htype hother

/-- No other message starts a clock. -/
theorem deliver_clocks (htype : msg.messageType ≠ msgTypeStartGame)
    (h : deliver env s (.message fd stale msg wf) = .ok t) : t.clocks = s.clocks := by
  obtain ⟨u, hseats, ⟨-, name, rfl⟩ | ⟨hstart, -⟩ | ⟨-, hinvite⟩ | ⟨-, -, hsame⟩⟩ :=
    deliver_message_cases h
  · exact hseats.clocks
  · exact absurd hstart htype
  · obtain ⟨names, i, l, -, -, -, rfl⟩ := inviteOpponents_eq_ok.mp hinvite
    rw [hseats.clocks, formParty_clocks]
  · exact hseats.clocks.trans hsame.clocks

end Deliveries

theorem deliver_oneClock_iff {env : ServerEnv} {s t : Server} {d : Delivery}
    (hs : AtMostOneClock s) (h : deliver env s d = .ok t) :
    AtMostOneClock t ↔ StartsIdle s d := by
  simp only [AtMostOneClock, ← List.nodup_iff_count_le_one] at hs ⊢
  cases d with
  | message fd stale msg wf =>
    by_cases htype : msg.messageType = msgTypeStartGame
    · rw [deliver_start htype h, List.nodup_append]
      constructor
      · rintro ⟨-, hnodup, hdisjoint⟩ _
        exact ⟨hnodup, fun i hi hrunning => hdisjoint i hrunning i hi rfl⟩
      · intro hidle
        obtain ⟨hnodup, hfresh⟩ := hidle htype
        refine ⟨hs, hnodup, ?_⟩
        rintro i hi j hj rfl
        exact hfresh i hj hi
    · rw [deliver_clocks htype h]
      exact ⟨fun _ hstart => absurd hstart htype, fun _ => hs⟩
  | tick clock fails =>
    -- a clock that wakes can only end
    obtain ⟨-, -, hclocks⟩ := deliver_tick h
    exact ⟨fun _ => trivial, fun _ => hclocks.nodup hs⟩

/-- From the start of the server, each player has at most one running clock in
every state of a run exactly when every START_GAME message starts the clocks of
different players that have none. -/
theorem one_clock_per_player_iff (env : ServerEnv) {ds : List Delivery} {u : Server}
    (h : run (deliver env) serverInit ds = .ok u) :
    (∀ t, Visits (deliver env) serverInit ds t → AtMostOneClock t) ↔
      Along (deliver env) StartsIdle serverInit ds := by
  apply visits_iff_along (deliver env) (fun _ _ _ hs ht => deliver_oneClock_iff hs ht) _ h
  simp [AtMostOneClock, serverInit]

/-- The client at socket `fd` asks to start the game. -/
def startRequest (fd : ℕ) : Delivery :=
  .message fd (fun _ => 0) (bareMessage msgTypeStartGame 0)
    (bareMessage_wellFormed (by decide) (by decide))

/-- One member of a new party asks to start. -/
theorem one_clock_per_player_started : ∃ u,
    run (deliver heroEnv) serverInit
        (registerBoth ++ [invitation 4 66 (by decide), startRequest 4]) = .ok u ∧
      ∀ t, Visits (deliver heroEnv) serverInit
        (registerBoth ++ [invitation 4 66 (by decide), startRequest 4]) t → AtMostOneClock t := by
  obtain ⟨u, hu, -⟩ : ∃ u, run (deliver heroEnv) serverInit
      (registerBoth ++ [invitation 4 66 (by decide), startRequest 4]) = .ok u ∧
        u.clocks = [0, 1] := by
    apply exists_ok_of_map Server.clocks
    decide +kernel
  refine ⟨u, hu, (one_clock_per_player_iff heroEnv hu).mpr ?_⟩
  -- what the last step finds
  obtain ⟨s, hs, hfacts⟩ : ∃ s, run (deliver heroEnv) serverInit
      (registerBoth ++ [invitation 4 66 (by decide)]) = .ok s ∧
        (startedPlayers 4 s, s.clocks) = ([0, 1], []) := by
    apply exists_ok_of_map (fun s => (startedPlayers 4 s, s.clocks))
    decide +kernel
  simp only [Prod.mk.injEq] at hfacts
  refine ⟨fun h => absurd h (by decide), fun s₁ h₁ => ⟨fun h => absurd h (by decide), fun s₂ h₂ =>
    ⟨fun h => absurd h (by decide), fun s₃ h₃ => ⟨fun _ => ?_, fun _ _ => trivial⟩⟩⟩⟩
  have hsame : s₃ = s := by
    rw [registerBoth, List.cons_append, run_cons_ok _ _ h₁, List.cons_append, run_cons_ok _ _ h₂,
      List.nil_append, run_cons_ok _ _ h₃, run_nil, Except.ok.injEq] at hs
    exact hs
  rw [hsame, hfacts.1, hfacts.2]
  decide

/-- Two members of one party ask to start: each of them has two clocks then. -/
theorem two_starts_two_clocks : ∃ s,
    run (deliver heroEnv) serverInit
        (registerBoth ++ [invitation 4 66 (by decide), startRequest 4, startRequest 5]) = .ok s ∧
      ¬AtMostOneClock s := by
  obtain ⟨s, hs, hclocks⟩ : ∃ s, run (deliver heroEnv) serverInit
      (registerBoth ++ [invitation 4 66 (by decide), startRequest 4, startRequest 5]) = .ok s ∧
        s.clocks = [0, 1, 0, 1] := by
    apply exists_ok_of_map Server.clocks
    decide +kernel
  refine ⟨s, hs, fun hone => ?_⟩
  have htwo := hone 0
  rw [hclocks] at htwo
  exact absurd htwo (by decide)

end TetrisMint
