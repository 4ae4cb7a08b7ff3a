import TetrisMint.Server

/-! What each operation of the server does: which parts of the state it leaves
alone, and the state it returns in. -/
namespace TetrisMint

open CStrings FallibleRun

/-- Names, parties and clocks are as they were. -/
structure SameSeats (s t : Server) : Prop where
  names : t.players.map Player.name = s.players.map Player.name
  backPointers : t.players.map Player.party = s.players.map Player.party
  parties : t.parties = s.parties
  clocks : t.clocks = s.clocks

theorem sameSeats_refl (s : Server) : SameSeats s s := ⟨rfl, rfl, rfl, rfl⟩

theorem SameSeats.trans {s t u : Server} (h : SameSeats s t) (h' : SameSeats t u) :
    SameSeats s u where
  names := h'.names.trans h.names
  backPointers := h'.backPointers.trans h.backPointers
  parties := h'.parties.trans h.parties
  clocks := h'.clocks.trans h.clocks

theorem SameSeats.length {s t : Server} (h : SameSeats s t) :
    t.players.length = s.players.length := by
  have hlen := congrArg List.length h.names
  rwa [List.length_map, List.length_map] at hlen

/-- Replacing a player by one with the same image leaves the images alone. -/
theorem map_set_player {β : Type} (f : Player → β) {s : Server} {i : ℕ} {p q : Player}
    (hp : s.players[i]? = some p) (hf : f q = f p) :
    (s.players.set i q).map f = s.players.map f := by
  apply List.ext_getElem?
  intro j
  rw [List.getElem?_map, List.getElem?_map, List.getElem?_set]
  split_ifs with hij hlt
  · rw [← hij, hp, Option.map_some, Option.map_some, hf]
  · rw [← hij, List.getElem?_eq_none (by omega)]
  · rfl

theorem map_modify_player {β : Type} (f : Player → β) {g : Player → Player}
    (hf : ∀ p, f (g p) = f p) {s : Server} {i : ℕ} :
    (s.players.modify i g).map f = s.players.map f := by
  apply List.ext_getElem?
  intro j
  rw [List.getElem?_map, List.getElem?_map, List.getElem?_modify]
  cases s.players[j]? with
  | none => rfl
  | some p =>
    simp only [Option.map_eq_map, Option.map_some]
    split_ifs
    · rw [hf]
    · rfl

section Engine

variable (env : ServerEnv) {s t : Server} {player : ℕ}

theorem callEngine_eq_ok {op : Op} : callEngine env op player s = .ok t ↔
    ∃ p contents, s.players[player]? = some p ∧ engineStep env.randR p.contents op = .ok contents ∧
      t = { s with players := s.players.set player { p with contents := contents } } := by
  simp only [callEngine, bind_eq_ok, deref_eq_ok, Except.ok.injEq]
  constructor
  · rintro ⟨p, hp, contents, hc, rfl⟩
    exact ⟨p, contents, hp, hc, rfl⟩
  · rintro ⟨p, contents, hp, hc, rfl⟩
    exact ⟨p, hp, contents, hc, rfl⟩

theorem callEngine_seats {op : Op} (h : callEngine env op player s = .ok t) :
    SameSeats s t ∧ t.players.map Player.fd = s.players.map Player.fd := by
  obtain ⟨p, contents, hp, -, rfl⟩ := (callEngine_eq_ok env).mp h
  refine ⟨⟨?_, ?_, rfl, rfl⟩, ?_⟩
  · exact map_set_player Player.name hp rfl
  · exact map_set_player Player.party hp rfl
  · exact map_set_player Player.fd hp rfl

end Engine

section Parties

theorem ttetrisPartyStart_eq (party : ℕ) (s : Server) : ttetrisPartyStart party s =
    { s with clocks := s.clocks ++ ttetrisPartyGetPlayers party s } := by
  -- each turn appends one clock, whoever has one already
  have hfold (l : List ℕ) (u : Server) :
      l.foldl (fun s player => playerGameStart player s) u = { u with clocks := u.clocks ++ l } := by
    induction l generalizing u with
    | nil => rw [List.foldl_nil, List.append_nil]
    | cons player l ih =>
      rw [List.foldl_cons, ih, playerGameStart, List.append_assoc, List.singleton_append]
  exact hfold _ s

theorem startGame_eq_ok {player : Option ℕ} {s t : Server} : startGame player s = .ok t ↔
    ∃ i p, player = some i ∧ s.players[i]? = some p ∧
      t = { s with clocks := s.clocks ++ (p.party.elim [] fun k => ttetrisPartyGetPlayers k s) } := by
  simp only [startGame, bind_eq_ok, deref_eq_ok]
  constructor
  · rintro ⟨i, hi, p, hp, h⟩
    refine ⟨i, p, hi, hp, ?_⟩
    cases hparty : p.party with
    | none =>
      rw [hparty] at h
      rw [Option.elim_none, List.append_nil]
      exact (Except.ok.inj h).symm
    | some k =>
      rw [hparty] at h
      rw [Option.elim_some, ← ttetrisPartyStart_eq]
      exact (Except.ok.inj h).symm
  · rintro ⟨i, p, hi, hp, rfl⟩
    refine ⟨i, hi, p, hp, ?_⟩
    cases p.party with
    | none => rw [Option.elim_none, List.append_nil]
    | some k => rw [Option.elim_some, ← ttetrisPartyStart_eq]

/-- Looking a player up reads the names only. -/
theorem playerGetByName_congr (name : Bytes) (index : ℕ) {ps qs : List Player}
    (h : ps.map Player.name = qs.map Player.name) :
    playerGetByName name index ps = playerGetByName name index qs := by
  induction ps generalizing qs index with
  | nil =>
    rw [List.map_nil, eq_comm, List.map_eq_nil_iff] at h
    rw [h]
  | cons p ps ih =>
    cases qs with
    | nil => exact absurd h (by simp)
    | cons q qs =>
      rw [List.map_cons, List.map_cons, List.cons.injEq] at h
      rw [playerGetByName, playerGetByName, h.1, ih (index + 1) h.2]

theorem playerGetByName_lt {name : Bytes} {index i : ℕ} {ps : List Player}
    (h : playerGetByName name index ps = .ok (some i)) : i < index + ps.length := by
  induction ps generalizing index with
  | nil => exact absurd h (by simp [playerGetByName])
  | cons p ps ih =>
    simp only [playerGetByName, bind_eq_ok] at h
    obtain ⟨found, -, h⟩ := h
    rw [List.length_cons]
    split_ifs at h
    · have heq := Option.some.inj (Except.ok.inj h)
      omega
    · have := ih h
      omega

/-- The players that a list of names invites: those that are found, up to the
first name that is not. -/
def invitedPlayers (players : List Player) : List (Option Bytes) → Except Fault (List ℕ)
  | [] => .ok []
  | name :: names => do
    let name ← deref name
    match ← playerGetByName name 0 players with
    | none => .ok []
    | some opponent => do
      let opponents ← invitedPlayers players names
      .ok (opponent :: opponents)

theorem invitedPlayers_congr (names : List (Option Bytes)) {ps qs : List Player}
    (h : ps.map Player.name = qs.map Player.name) :
    invitedPlayers ps names = invitedPlayers qs names := by
  induction names with
  | nil => rfl
  | cons name names ih =>
    simp only [invitedPlayers, ih, playerGetByName_congr _ 0 h]

theorem invitedPlayers_lt {players : List Player} {names : List (Option Bytes)} {l : List ℕ}
    (h : invitedPlayers players names = .ok l) : ∀ i ∈ l, i < players.length := by
  induction names generalizing l with
  | nil => simp [← Except.ok.inj h]
  | cons name names ih =>
    simp only [invitedPlayers, bind_eq_ok] at h
    obtain ⟨item, -, found, hfound, h⟩ := h
    cases found with
    | none => simp [← Except.ok.inj h]
    | some opponent =>
      obtain ⟨opponents, hrest, h⟩ := bind_eq_ok.mp h
      rw [← Except.ok.inj h, List.forall_mem_cons]
      refine ⟨?_, ih hrest⟩
      have := playerGetByName_lt hfound
      omega

/-- Add several players to a party, one after the other. -/
def partyPlayersAdd (party : ℕ) (l : List ℕ) (s : Server) : Server :=
  l.foldl (fun s player => ttetrisPartyPlayerAdd party player s) s

theorem partyPlayersAdd_cons (party i : ℕ) (l : List ℕ) (s : Server) :
    partyPlayersAdd party (i :: l) s = partyPlayersAdd party l (ttetrisPartyPlayerAdd party i s) :=
  List.foldl_cons ..

theorem partyPlayersAdd_parties (party : ℕ) (l : List ℕ) (s : Server) :
    (partyPlayersAdd party l s).parties = s.parties.modify party (· ++ l) := by
  induction l generalizing s with
  | nil =>
    simp only [partyPlayersAdd, List.foldl_nil, List.append_nil]
    exact (List.modify_id _ _).symm
  | cons i l ih =>
    rw [partyPlayersAdd_cons, ih, ttetrisPartyPlayerAdd, List.modify_modify_eq]
    congr 1
    funext members
    simp

/-- Who is added gets the new back pointer; nothing else of a player changes. -/
theorem partyPlayersAdd_players (party : ℕ) (l : List ℕ) (s : Server) (j : ℕ) :
    (partyPlayersAdd party l s).players[j]? =
      s.players[j]?.map fun p => if j ∈ l then { p with party := some party } else p := by
  induction l generalizing s with
  | nil => simp [partyPlayersAdd]
  | cons i l ih =>
    rw [partyPlayersAdd_cons, ih, ttetrisPartyPlayerAdd, List.getElem?_modify]
    cases s.players[j]? with
    | none => rfl
    | some p =>
      simp only [Option.map_eq_map, Option.map_some, List.mem_cons, Option.some.injEq]
      by_cases hij : i = j
      · simp [hij]
      · simp [hij, Ne.symm hij]

theorem partyPlayersAdd_map {β : Type} (f : Player → β) (party : ℕ) (l : List ℕ) (s : Server)
    (hf : ∀ p : Player, f { p with party := some party } = f p) :
    (partyPlayersAdd party l s).players.map f = s.players.map f := by
  apply List.ext_getElem?
  intro j
  rw [List.getElem?_map, List.getElem?_map, partyPlayersAdd_players]
  cases s.players[j]? with
  | none => rfl
  | some p =>
    simp only [Option.map_some, Option.some.injEq]
    split_ifs
    · rw [hf]
    · rfl

theorem partyPlayersAdd_clocks (party : ℕ) (l : List ℕ) (s : Server) :
    (partyPlayersAdd party l s).clocks = s.clocks := by
  induction l generalizing s with
  | nil => rfl
  | cons i l ih =>
    rw [partyPlayersAdd_cons, ih]
    rfl

/-- The loop adds the players that the names invite. -/
theorem addOpponents_eq (party : ℕ) (names : List (Option Bytes)) (s : Server) :
    addOpponents party names s =
      (invitedPlayers s.players names).map fun l => partyPlayersAdd party l s := by
  induction names generalizing s with
  | nil => rfl
  | cons name names ih =>
    rw [addOpponents, invitedPlayers]
    cases deref name with
    | error e => rfl
    | ok item =>
      rw [ok_bind, ok_bind]
      cases playerGetByName item 0 s.players with
      | error e => rfl
      | ok found =>
        rw [ok_bind, ok_bind]
        cases found with
        | none => rfl
        | some opponent =>
          -- adding a player renames nobody, so the names left invite the same players
          have hnames : (ttetrisPartyPlayerAdd party opponent s).players.map Player.name =
              s.players.map Player.name :=
            partyPlayersAdd_map Player.name party [opponent] s fun _ => rfl
          simp only [ih, invitedPlayers_congr names hnames]
          cases invitedPlayers s.players names with
          | error e => rfl
          | ok l => rfl

/-- The server after a new party of the players `l` is formed. -/
def formParty (l : List ℕ) (s : Server) : Server :=
  partyPlayersAdd s.parties.length l { s with parties := s.parties ++ [[]] }

@[simp] theorem formParty_parties (l : List ℕ) (s : Server) :
    (formParty l s).parties = s.parties ++ [l] := by
  rw [formParty, partyPlayersAdd_parties, List.modify_eq_take_drop, List.take_left, List.drop_left]
  rfl

theorem formParty_players (l : List ℕ) (s : Server) (j : ℕ) : (formParty l s).players[j]? =
    s.players[j]?.map fun p => if j ∈ l then { p with party := some s.parties.length } else p :=
  partyPlayersAdd_players _ _ _ j

theorem formParty_map {β : Type} (f : Player → β) (l : List ℕ) (s : Server)
    (hf : ∀ (p : Player) k, f { p with party := some k } = f p) :
    (formParty l s).players.map f = s.players.map f :=
  partyPlayersAdd_map f _ _ _ fun p => hf p _

@[simp] theorem formParty_clocks (l : List ℕ) (s : Server) : (formParty l s).clocks = s.clocks :=
  partyPlayersAdd_clocks _ _ _

theorem inviteOpponents_eq (env : ServerEnv) (header : MessageHeader) (cursor : Bytes)
    (player : Option ℕ) (s : Server) : inviteOpponents env header cursor player s = (do
      let names ← stringArrayDeserialize (env.heap s.parties.length) ⟨header.contentLength, cursor⟩
      let i ← deref player
      let l ← invitedPlayers s.players names.strings
      .ok (formParty (i :: l) s)) := by
  rw [inviteOpponents]
  cases stringArrayDeserialize (env.heap s.parties.length) ⟨header.contentLength, cursor⟩ with
  | error e => rfl
  | ok names =>
    rw [ok_bind, ok_bind]
    cases player with
    | none => rfl
    | some i =>
      simp only [deref_some, ok_bind, ttetrisPartyCreate, addOpponents_eq]
      have hnames : (ttetrisPartyPlayerAdd s.parties.length i
          { s with parties := s.parties ++ [[]] }).players.map Player.name =
            s.players.map Player.name :=
        partyPlayersAdd_map Player.name s.parties.length [i] _ fun _ => rfl
      rw [invitedPlayers_congr names.strings hnames]
      cases invitedPlayers s.players names.strings with
      | error e => rfl
      | ok l => rfl

theorem inviteOpponents_eq_ok {env : ServerEnv} {header : MessageHeader} {cursor : Bytes}
    {player : Option ℕ} {s t : Server} : inviteOpponents env header cursor player s = .ok t ↔
      ∃ names i l, stringArrayDeserialize (env.heap s.parties.length)
          ⟨header.contentLength, cursor⟩ = .ok names ∧ player = some i ∧
        invitedPlayers s.players names.strings = .ok l ∧ t = formParty (i :: l) s := by
  simp only [inviteOpponents_eq, bind_eq_ok, deref_eq_ok, Except.ok.injEq]
  constructor
  · rintro ⟨names, hnames, i, hi, l, hl, rfl⟩
    exact ⟨names, i, l, hnames, hi, hl, rfl⟩
  · rintro ⟨names, i, l, hnames, hi, hl, rfl⟩
    exact ⟨names, hnames, i, hi, l, hl, rfl⟩

end Parties

section Switch

variable (env : ServerEnv) {s t : Server} {header : MessageHeader} {cursor : Bytes}
  {player : Option ℕ}

theorem engineOp_ne_view {messageType : UInt8} {op : Op}
    (h : engineOp messageType cursor = .ok (some op)) : op ≠ .view := by
  simp only [engineOp] at h
  split_ifs at h
  · obtain ⟨b, -, h⟩ := bind_eq_ok.mp h
    rw [← Option.some.inj (Except.ok.inj h)]
    exact Op.noConfusion
  · obtain ⟨b, -, h⟩ := bind_eq_ok.mp h
    rw [← Option.some.inj (Except.ok.inj h)]
    split_ifs <;> exact Op.noConfusion
  · rw [← Option.some.inj (Except.ok.inj h)]
    exact Op.noConfusion
  · rw [← Option.some.inj (Except.ok.inj h)]
    exact Op.noConfusion
  · rw [← Option.some.inj (Except.ok.inj h)]
    exact Op.noConfusion
  · exact absurd (Except.ok.inj h) (Option.some_ne_none op).symm

/-- What a case of the switch that returns has done. -/
theorem serverSwitch_cases (h : serverSwitch env header cursor player s = .ok t) :
    header.messageType = msgTypeStartGame ∧ startGame player s = .ok t ∨
      header.messageType = msgTypeOpponent ∧ inviteOpponents env header cursor player s = .ok t ∨
      header.messageType ≠ msgTypeStartGame ∧ header.messageType ≠ msgTypeOpponent ∧
        (t = s ∨ ∃ op i, player = some i ∧ callEngine env op i s = .ok t) := by
  rw [serverSwitch] at h
  split_ifs at h with hstart hopponent
  · exact Or.inl ⟨hstart, h⟩
  · exact Or.inr (Or.inl ⟨hopponent, h⟩)
  · -- every other type is a call into the engine or nothing at all
    refine Or.inr (Or.inr ⟨hstart, hopponent, ?_⟩)
    obtain ⟨op, -, h⟩ := bind_eq_ok.mp h
    cases op with
    | none => exact Or.inl (Except.ok.inj h).symm
    | some op =>
      obtain ⟨i, hi, h⟩ := bind_eq_ok.mp h
      exact Or.inr ⟨op, i, deref_eq_ok.mp hi, h⟩

/-- Sockets are only ever assigned by REGISTER and by the clocks. -/
theorem serverSwitch_fds (h : serverSwitch env header cursor player s = .ok t) :
    t.players.map Player.fd = s.players.map Player.fd := by
  rcases serverSwitch_cases env h with ⟨-, h⟩ | ⟨-, h⟩ | ⟨-, -, rfl | ⟨op, i, -, h⟩⟩
  · obtain ⟨i, p, -, -, rfl⟩ := startGame_eq_ok.mp h
    rfl
  · obtain ⟨names, i, l, -, -, -, rfl⟩ := inviteOpponents_eq_ok.mp h
    exact formParty_map Player.fd _ _ fun _ _ => rfl
  · rfl
  · exact (callEngine_seats env h).2

theorem registerPlayer_eq_ok {fd : ℤ} {rs rs' : ReadState} :
    registerPlayer env fd cursor rs = .ok rs' ↔
      ∃ word name, sscanfWord 15 cursor = some word ∧
        (if word = [] then rs.name else some word) = some name ∧
        rs' = ⟨(playerCreate env fd name rs.server).1, some rs.server.players.length, some name⟩ := by
  simp only [registerPlayer, bind_eq_ok, access_eq_ok]
  constructor
  · rintro ⟨word, hword, h⟩
    cases hname : (if word = [] then rs.name else some word) with
    | none =>
      rw [hname] at h
      exact absurd h (by simp)
    | some name =>
      rw [hname] at h
      exact ⟨word, name, hword, hname, (Except.ok.inj h).symm⟩
  · rintro ⟨word, name, hword, hname, rfl⟩
    refine ⟨word, hword, ?_⟩
    rw [hname]
    rfl

/-- A message either registers a player or acts for the current one. -/
theorem handleMessage_cases {fd : ℤ} {rs rs' : ReadState}
    (h : handleMessage env fd header rs cursor = .ok rs') :
    header.messageType = msgTypeRegister ∧ registerPlayer env fd cursor rs = .ok rs' ∨
      header.messageType ≠ msgTypeRegister ∧ rs'.player = rs.player ∧ rs'.name = rs.name ∧
        serverSwitch env header cursor rs.player rs.server = .ok rs'.server := by
  rw [handleMessage] at h
  split_ifs at h with hregister
  · exact Or.inl ⟨hregister, h⟩
  · obtain ⟨server, hserver, h⟩ := bind_eq_ok.mp h
    rw [← Except.ok.inj h]
    exact Or.inr ⟨hregister, rfl, rfl, hserver⟩

theorem getPlayerFromFd_congr (fd : ℤ) (h : t.players.map Player.fd = s.players.map Player.fd) :
    getPlayerFromFd fd t = getPlayerFromFd fd s := by
  -- the search compares sockets only
  have hfind (u : Server) : getPlayerFromFd fd u =
      (u.players.map Player.fd).findIdx? fun x => x = fd := by
    rw [List.findIdx?_map]
    rfl
  rw [hfind, hfind, h]

end Switch

end TetrisMint
