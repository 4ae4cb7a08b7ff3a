import TetrisMint.Lobby

/-! From the lobby to the game: the players who were listed are found when the invitation comes,
whatever has happened in between, and the whole party hears that the game has started. -/
namespace TetrisMint

open CStrings FallibleRun FirstMatch

section Registry

variable (env : ServerEnv) {s t : Server}

/-- Players are only ever appended, and nobody is renamed. -/
theorem serverStep_names {event : ServerEvent} (h : serverStep env s event = .ok t) :
    s.players.map Player.name <+: t.players.map Player.name := by
  have hnames (u : Server) : u.players.map Player.name = u.keys.map Prod.snd := by
    rw [Server.keys, List.map_map]
    rfl
  rw [hnames s, hnames t]
  cases event with
  | recv fd stale chunk =>
    by_cases hchunk : chunk = []
    · rw [serverStep, readFromClient, if_pos hchunk] at h
      rw [Except.ok.inj h]
    · obtain ⟨header, -, ⟨-, hkeys⟩ | ⟨-, name, names, -, hkeys, -⟩⟩ := readFromClient_keys env hchunk h
      · rw [hkeys]
      · rw [hkeys, List.map_append]
        exact List.prefix_append _ _
  | tick clock fails =>
    have hresets := serverStep_tick_resets env h
    -- a clock may close sockets, but it renames nobody
    have hsame : t.keys.map Prod.snd = s.keys.map Prod.snd := by
      apply List.ext_getElem
      · rw [List.length_map, List.length_map, hresets.length]
      · intro i hi hi'
        rw [List.length_map] at hi hi'
        obtain ⟨x, hx, hname, -⟩ := hresets.entry i _ (List.getElem?_eq_getElem hi)
        rw [List.getElem?_eq_getElem hi', Option.some.injEq] at hx
        rw [List.getElem_map, List.getElem_map, hname, hx]
    rw [hsame]

theorem names_kept {events : List ServerEvent} (hrun : run (serverStep env) s events = .ok t) :
    s.players.map Player.name <+: t.players.map Player.name :=
  @invariant_run _ _ _ (serverStep env)
    (fun u => s.players.map Player.name <+: u.players.map Player.name)
    (fun _ _ _ hu ht => hu.trans (serverStep_names env ht)) s t events (List.prefix_refl _) hrun

/-- Names that are registered are all found, each as the first player who has it. -/
theorem invitedPlayers_names {players : List Player} (htexts : ∀ p ∈ players, 0 ∉ p.name)
    {names : List Bytes} (h : ∀ name ∈ names, name ∈ players.map Player.name) : ∃ found,
      invitedPlayers players (names.map fun name => some (name ++ [0])) = .ok found ∧
      List.Forall₂ (fun name j => lookup Player.name name players = some j) names found := by
  induction names with
  | nil => exact ⟨[], rfl, .nil⟩
  | cons name names ih =>
    rw [List.forall_mem_cons] at h
    obtain ⟨p, hp, rfl⟩ := List.mem_map.mp h.1
    obtain ⟨j, hj⟩ := exists_lookup Player.name hp
    obtain ⟨found, hfound, hall⟩ := ih h.2
    refine ⟨j :: found, ?_, .cons hj hall⟩
    rw [List.map_cons, invitedPlayers, deref_some, ok_bind, playerGetByName_eq (htexts p hp) htexts, hj,
      ok_bind]
    simp only [Option.map_some, Nat.add_zero, hfound, ok_bind]

end Registry

/-- A game has been started: the player `i` and the first players with the given names are the
newest party and nobody else has changed his, each of them has got a clock, and all their sockets
have got one announcement, which decodes to their names if there was a zero for each NUL. -/
def GameStarted (mem : WireMemory) (s t u : Traffic) (i : ℕ) (names : List Bytes) : Prop :=
  ∃ p found answers boards body, s.server.players[i]? = some p ∧
    List.Forall₂ (fun name j => lookup Player.name name s.server.players = some j) names found ∧
    t.server.parties = s.server.parties ++ [i :: found] ∧
    (∀ j, partyOf j t.server =
      if j ∈ i :: found then some s.server.parties.length else partyOf j s.server) ∧
    u.server.clocks = s.server.clocks ++ i :: found ∧
    u.sent = t.sent ++ (answers ++ boards) ∧
    answers = (announced s.server.parties.length t.server).map
      (fun fd => (fd, Message.encode ⟨msgTypeGameStarted, 0, body⟩)) ∧
    (NulsZero (mem.items t.sent.length) (p.name :: names) → Decodes body (p.name :: names))

section Start

variable (env : ServerEnv) {mem : WireMemory} {w₀ w₁ w₂ w₃ : Traffic} {fd i : ℕ}

/-- An invitation of registered players is followed to the letter. -/
theorem invitation_forms_party {names : List Bytes} {gap : Bytes} {id : ℕ} {s t : Server} {stale : Fresh}
    (htexts : ∀ p ∈ s.players, 0 ∉ p.name) (hnames : ∀ name ∈ names, IsName name)
    (hregistered : ∀ name ∈ names, name ∈ s.players.map Player.name)
    (hmsg : ClientMessage (opponentMessage id playerNameMaxChars names gap))
    (hheap : NulsZero (env.heap s.parties.length) names)
    (hplayer : getPlayerFromFd fd s = some i)
    (h : readFromClient env fd stale (opponentMessage id playerNameMaxChars names gap).encode s = .ok t) :
    ∃ found, List.Forall₂ (fun name j => lookup Player.name name s.players = some j) names found ∧
      (∀ j ∈ i :: found, j < s.players.length) ∧ SameSeats (formParty (i :: found) s) t := by
  have hdeliver : deliver env s (.message fd stale _ hmsg) = .ok t := h
  obtain ⟨l, hl, hvalid, hseats⟩ := deliver_opponent rfl hdeliver
  -- the length of a message has 16 bits, so the names are short enough for the decoder
  have hsize : wireSize names < 2 ^ 30 := by
    have hfits := hmsg.fits.2
    have hbody : (opponentMessage id playerNameMaxChars names gap).body = nameBytes names ++ gap := rfl
    rw [hbody, List.length_append, length_nameBytes] at hfits
    omega
  obtain ⟨arr, harr, hholds⟩ := deserialize_names hnames hsize hheap
    (opponentMessage id playerNameMaxChars names gap).body.length gap
  obtain ⟨found, hfound, hall⟩ := invitedPlayers_names htexts hregistered
  have hjoining : joiningPlayers env fd (opponentMessage id playerNameMaxChars names gap) s =
      .ok (i :: found) := by
    apply bind_eq_ok.mpr
    refine ⟨arr, harr, ?_⟩
    rw [hplayer, deref_some, ok_bind, hholds.strings, hfound, ok_bind]
  rw [hl, Except.ok.injEq] at hjoining
  subst hjoining
  exact ⟨found, hall, hvalid, hseats⟩

theorem names_of_found {players : List Player} {names : List Bytes} {found : List ℕ}
    (hall : List.Forall₂ (fun name j => lookup Player.name name players = some j) names found) :
    (found.filterMap fun j => players[j]?.map Player.name) = names := by
  induction hall with
  | nil => rfl
  | cons hj _ ih =>
    obtain ⟨⟨q, hq, hqname⟩, -⟩ := (lookup_eq_some_iff Player.name).mp hj
    rw [List.filterMap_cons_some (by rw [hq, Option.map_some]), hqname, ih]

/-- The players of a new party have the names they were looked up with. -/
theorem partyNames_new {s t : Server} {p : Player} {found : List ℕ} {names : List Bytes}
    (hseats : SameSeats (formParty (i :: found) s) t) (hp : s.players[i]? = some p)
    (hall : List.Forall₂ (fun name j => lookup Player.name name s.players = some j) names found) :
    partyNames s.parties.length t = p.name :: names := by
  have hmembers : ttetrisPartyGetPlayers s.parties.length t = i :: found := by
    rw [ttetrisPartyGetPlayers, hseats.parties, formParty_parties, List.getD_eq_getElem?_getD,
      List.getElem?_concat_length, Option.getD_some]
  have hkept : t.players.map Player.name = s.players.map Player.name := by
    rw [hseats.names]
    exact formParty_map Player.name _ s fun _ _ => rfl
  have hname (j : ℕ) : t.players[j]?.map Player.name = s.players[j]?.map Player.name := by
    rw [← List.getElem?_map, hkept, List.getElem?_map]
  have hfound := names_of_found hall
  rw [partyNames, hmembers, List.map_filterMap]
  simp only [hname]
  rw [List.filterMap_cons_some (by rw [hp, Option.map_some]), hfound]

/-- The invitation and the start, as the lobby sends them one after the other. -/
theorem invitation_starts_game {names : List Bytes} {gap : Bytes} {id : ℕ} {stale stale' : Fresh}
    (hinv : ServerInv w₁.server) (htexts : ∀ p ∈ w₁.server.players, IsName p.name)
    (hnames : ∀ name ∈ names, IsName name)
    (hregistered : ∀ name ∈ names, name ∈ w₁.server.players.map Player.name)
    (hmsg : ClientMessage (opponentMessage id playerNameMaxChars names gap))
    (hheap : NulsZero (env.heap w₁.server.parties.length) names)
    (hplayer : getPlayerFromFd fd w₁.server = some i)
    (hinvite : Traffic.serverStep env mem w₁
      (.recv fd stale (opponentMessage id playerNameMaxChars names gap).encode) = .ok w₂)
    (hstart : Traffic.serverStep env mem w₂ (.recv fd stale' tetrisTellServerToStart) = .ok w₃) :
    GameStarted mem w₁ w₂ w₃ i names := by
  have hserver := Traffic.serverStep_server env hinvite
  obtain ⟨found, hall, hvalid, hseats⟩ := invitation_forms_party env
    (fun p hp => (htexts p hp).1) hnames hregistered hmsg hheap hplayer hserver
  obtain ⟨p, hp⟩ : ∃ p, w₁.server.players[i]? = some p :=
    ⟨_, List.getElem?_eq_getElem (hvalid i (List.mem_cons_self ..))⟩
  have hinv₂ := serverStep_inv env hinv hserver
  have htexts₂ : ∀ q ∈ w₂.server.players, IsName q.name := by
    intro q hq
    have hkeys : ∀ x ∈ w₁.server.keys, IsName x.2 := by
      intro x hx
      obtain ⟨r, hr, rfl⟩ := List.mem_map.mp hx
      exact htexts r hr
    exact serverStep_isName env hkeys hserver q.key (mem_keys hq)
  -- the sender is the same player still, and the new party is his
  have hplayer₂ : getPlayerFromFd fd w₂.server = some i := by
    have hne : (opponentMessage id playerNameMaxChars names gap).encode ≠ [] := by
      apply List.ne_nil_of_length_pos
      rw [length_encode, Message.size, messageHeaderSize]
      omega
    have hheader := readHeader_encode hmsg.fits
    obtain ⟨header, hread, ⟨-, hkeys⟩ | ⟨hregister, -⟩⟩ := readFromClient_keys env hne hserver
    · rw [getPlayerFromFd_keys, hkeys, ← getPlayerFromFd_keys, hplayer]
    · rw [recvBuffer, hheader, Option.some.injEq] at hread
      rw [← hread] at hregister
      have htype : msgTypeOpponent = msgTypeRegister := hregister
      exact absurd htype (by decide)
  have hparty : partyOf i w₂.server = some w₁.server.parties.length := by
    rw [partyOf_congr hseats.backPointers, partyOf_formParty hvalid, if_pos (List.mem_cons_self ..)]
  have hbare : ClientMessage (bareMessage msgTypeStartGame 0) :=
    bareMessage_wellFormed (by decide) (by decide)
  have hencode : tetrisTellServerToStart = (bareMessage msgTypeStartGame 0).encode := rfl
  rw [hencode] at hstart
  obtain ⟨answers, boards, hsent, hanswered, -⟩ :=
    readFromClient_answered env hinv₂ htexts₂ hbare hstart
  obtain ⟨i', q, hi', hq, -, hannounced⟩ := hanswered.start rfl
  rw [hplayer₂, Option.some.injEq] at hi'
  subst hi'
  rw [partyOf, hq, Option.bind_some] at hparty
  obtain ⟨body, hanswers, hdecodes⟩ := hannounced _ hparty
  rw [partyNames_new hseats hp hall] at hdecodes
  -- the message to start appends a clock for every member
  have hclocks : w₃.server.clocks = w₁.server.clocks ++ i :: found := by
    have hdeliver : deliver env w₂.server (.message fd stale' _ hbare) = .ok w₃.server :=
      Traffic.serverStep_server env hstart
    obtain ⟨u, hsame, ⟨hother, -⟩ | ⟨-, hu⟩ | ⟨hother, -⟩ | ⟨hother, -⟩⟩ := deliver_message_cases hdeliver
    · exact absurd hother (by decide)
    · obtain ⟨j, r, hj, hr, rfl⟩ := startGame_eq_ok.mp hu
      rw [hplayer₂, Option.some.injEq] at hj
      subst hj
      rw [hq, Option.some.injEq] at hr
      subst hr
      rw [hsame.clocks, hparty, Option.elim_some, hseats.clocks, formParty_clocks,
        ttetrisPartyGetPlayers, hseats.parties, formParty_parties, List.getD_eq_getElem?_getD,
        List.getElem?_concat_length, Option.getD_some]
    · exact absurd hother (by decide)
    · exact absurd rfl hother
  refine ⟨p, found, answers, boards, body, hp, hall, ?_, ?_, hclocks, hsent, hanswers, hdecodes⟩
  · rw [hseats.parties, formParty_parties]
  · intro j
    rw [partyOf_congr hseats.backPointers, partyOf_formParty hvalid]

/-- The answer to the request for the list, as it goes out. -/
theorem list_answered {client : NetClient} (hfew : client.openRequests.length < 32767) {stale : Fresh}
    (hnames : ∀ p ∈ w₀.server.players, IsName p.name)
    (hzero : NulsZero (mem.items w₀.sent.length) (playerNames true w₀.server))
    (h : Traffic.serverStep env mem w₀ (.recv fd stale (tetrisList client).2) = .ok w₁) :
    ∃ n boards, w₁.sent = w₀.sent ++ ((fd : ℤ), Message.encode
      ⟨msgTypeListResponse, client.openRequests.length + 1,
        (nameBlob (mem.blob n) (playerNames true w₀.server)).bytes⟩) :: boards := by
  rw [tetrisList_eq hfew] at h
  have hmsg : ClientMessage (bareMessage msgTypeList (client.openRequests.length + 1)) :=
    bareMessage_wellFormed (by omega) (by decide)
  obtain ⟨rs, answers, hrs, hanswers, hfinish⟩ := readFromClient_message env hmsg h
  have hsame : rs.server = w₀.server := handleMessage_list env rfl hrs
  obtain ⟨body, rfl, hnamed⟩ := replies_list (hsame ▸ hnames) rfl hanswers
  rw [hsame] at hnamed
  obtain ⟨rfl, -⟩ := hnamed hzero
  obtain ⟨boards, hsent, -⟩ := finishRead_boards hfinish
  refine ⟨w₀.sent.length, boards, ?_⟩
  rw [hsent, List.append_assoc]
  rfl

end Start

end TetrisMint
