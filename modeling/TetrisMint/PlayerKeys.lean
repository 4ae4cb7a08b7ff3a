import TetrisMint.ClientMessages
import TetrisMint.FirstMatch

/-! What the server's lookups see of its players, their descriptors and names, and
what each operation does to it. -/
namespace TetrisMint

open CStrings FallibleRun FirstMatch

/-- Whether player_names lists the player. -/
def Player.listed (excludeInGame : Bool) (p : Player) : Bool :=
  p.fd ≠ -1 && !(excludeInGame && p.party.isSome)

def playerNames (excludeInGame : Bool) (s : Server) : List Bytes :=
  (s.players.filter (Player.listed excludeInGame)).map Player.name

/-- The descriptor and the name, by which players are looked up. -/
def Player.key (p : Player) : ℤ × Bytes := (p.fd, p.name)

def Server.keys (s : Server) : List (ℤ × Bytes) := s.players.map Player.key

section Keys

variable (env : ServerEnv) {s t : Server} {player : ℕ} {header : MessageHeader} {cursor : Bytes}

theorem callEngine_keys {op : Op} (h : callEngine env op player s = .ok t) : t.keys = s.keys := by
  obtain ⟨p, contents, hp, -, rfl⟩ := (callEngine_eq_ok env).mp h
  exact map_set_player Player.key hp rfl

/-- Only REGISTER and the clocks change descriptors or names. -/
theorem serverSwitch_keys {sender : Option ℕ}
    (h : serverSwitch env header cursor sender s = .ok t) : t.keys = s.keys := by
  rcases serverSwitch_cases env h with ⟨-, h⟩ | ⟨-, h⟩ | ⟨-, -, rfl | ⟨op, i, -, h⟩⟩
  · obtain ⟨i, p, -, -, rfl⟩ := startGame_eq_ok.mp h
    rfl
  · obtain ⟨names, i, l, -, -, -, rfl⟩ := inviteOpponents_eq_ok.mp h
    exact formParty_map Player.key _ _ fun _ _ => rfl
  · rfl
  · exact callEngine_keys env h

theorem keys_of_unshadowed (h : t.unshadowed = s.unshadowed) : t.keys = s.keys := by
  have hkeys (u : Server) : u.unshadowed.keys = u.keys := List.map_map ..
  rw [← hkeys t, h, hkeys s]

theorem playerCreate_keys (fd : ℤ) (name : Bytes) (s : Server) :
    (playerCreate env fd name s).1.keys = s.keys ++ [(fd, name)] := List.map_append ..

/-- A chunk whose header is not that of REGISTER registers nobody. -/
theorem clientLoop_keys {fd : ℤ} {buffer : Bytes} {nbytes fuel cursor : ℕ} {rs rs' : ReadState}
    (hheader : readHeader buffer 0 = some header) (htype : header.messageType ≠ msgTypeRegister)
    (h : clientLoop env fd buffer nbytes fuel cursor rs = .ok rs') :
    rs'.server.keys = rs.server.keys := by
  induction fuel generalizing cursor rs with
  | zero => exact absurd h (by simp [clientLoop])
  | succ fuel ih =>
    rw [clientLoop] at h
    split_ifs at h
    · simp only [hheader, access_some, ok_bind, bind_eq_ok] at h
      obtain ⟨rs₁, h₁, h⟩ := h
      rcases handleMessage_cases env h₁ with ⟨hregister, -⟩ | ⟨-, -, -, hswitch⟩
      · exact absurd hregister htype
      · exact (ih h).trans (serverSwitch_keys env hswitch)
    · rw [Except.ok.inj h]

/-- With the header of REGISTER each turn of the loop appends a player for the descriptor. -/
theorem clientLoop_turn {fd : ℤ} {buffer : Bytes} {nbytes fuel cursor : ℕ} {rs rs' : ReadState}
    (hheader : readHeader buffer 0 = some header) (htype : header.messageType = msgTypeRegister)
    (hmore : cursor < nbytes)
    (h : clientLoop env fd buffer nbytes (fuel + 1) cursor rs = .ok rs') :
    ∃ word name rs₁, sscanfWord 15 (buffer.drop (cursor + messageHeaderSize)) = some word ∧
      (if word = [] then rs.name else some word) = some name ∧ rs₁.name = some name ∧
      rs₁.server.keys = rs.server.keys ++ [(fd, name)] ∧
      clientLoop env fd buffer nbytes fuel
        (cursor + messageHeaderSize + header.contentLength) rs₁ = .ok rs' := by
  rw [clientLoop, if_pos hmore] at h
  simp only [hheader, access_some, ok_bind, bind_eq_ok] at h
  obtain ⟨rs₁, h₁, h⟩ := h
  rcases handleMessage_cases env h₁ with ⟨-, hregister⟩ | ⟨hother, -⟩
  · obtain ⟨word, name, hword, hname, rfl⟩ := (registerPlayer_eq_ok env).mp hregister
    exact ⟨word, name, _, hword, hname, rfl, playerCreate_keys env fd name _, h⟩
  · exact absurd htype hother

/-- A name as sscanf stores it: a text that leaves room for its NUL. -/
def IsName (name : Bytes) : Prop := 0 ∉ name ∧ name.length ≤ playerNameMaxChars

theorem isName_registered {rs : ReadState} {word name : Bytes}
    (hrs : ∀ name, rs.name = some name → IsName name) (hword : sscanfWord 15 cursor = some word)
    (hname : (if word = [] then rs.name else some word) = some name) : IsName name := by
  split_ifs at hname
  · exact hrs name hname
  · exact Option.some.inj hname ▸ ⟨zero_not_mem_sscanfWord hword, length_sscanfWord hword⟩

theorem clientLoop_register {fd : ℤ} {buffer : Bytes} {nbytes fuel cursor : ℕ} {rs rs' : ReadState}
    (hheader : readHeader buffer 0 = some header) (htype : header.messageType = msgTypeRegister)
    (hrs : ∀ name, rs.name = some name → IsName name)
    (h : clientLoop env fd buffer nbytes fuel cursor rs = .ok rs') :
    ∃ names : List Bytes, rs'.server.keys = rs.server.keys ++ names.map (Prod.mk fd) ∧
      (∀ name ∈ names, IsName name) ∧ (names = [] ↔ nbytes ≤ cursor) := by
  induction fuel generalizing cursor rs with
  | zero => exact absurd h (by simp [clientLoop])
  | succ fuel ih =>
    by_cases hmore : cursor < nbytes
    · -- one name is registered in this turn, the others in the turns behind it
      obtain ⟨word, name, rs₁, hword, hname, hrs₁, hkeys, hloop⟩ :=
        clientLoop_turn env hheader htype hmore h
      have hname₀ := isName_registered hrs hword hname
      obtain ⟨names, hnames, hall, -⟩ :=
        ih (fun n hn => Option.some.inj (hrs₁.symm.trans hn) ▸ hname₀) hloop
      refine ⟨name :: names, ?_, List.forall_mem_cons.mpr ⟨hname₀, hall⟩, ?_⟩
      · rw [hnames, hkeys, List.append_assoc]
        rfl
      · exact ⟨fun h => absurd h (by simp), fun h => absurd h (not_le.mpr hmore)⟩
    · rw [clientLoop, if_neg hmore] at h
      refine ⟨[], ?_, by simp, by simpa using hmore⟩
      rw [Except.ok.inj h, List.map_nil, List.append_nil]

/-- What one call of read_from_client does to the registry. -/
theorem readFromClient_keys {fd : ℕ} {stale : Fresh} {chunk : Bytes} (hchunk : chunk ≠ [])
    (h : readFromClient env fd stale chunk s = .ok t) :
    ∃ header, readHeader (recvBuffer stale chunk) 0 = some header ∧
      (header.messageType ≠ msgTypeRegister ∧ t.keys = s.keys ∨
        header.messageType = msgTypeRegister ∧ ∃ (name : Bytes) (names : List Bytes),
          sscanfWord 15 ((recvBuffer stale chunk).drop messageHeaderSize) = some name ∧
          t.keys = s.keys ++ (name :: names).map (Prod.mk (fd : ℤ)) ∧
          (∀ n ∈ name :: names, IsName n) ∧
          (names = [] ↔ chunk.length ≤ messageHeaderSize + header.contentLength)) := by
  rw [readFromClient, if_neg hchunk] at h
  obtain ⟨rs, hloop, hfinish⟩ := bind_eq_ok.mp h
  have hsent : t.keys = rs.server.keys := keys_of_unshadowed (finishRead_unshadowed env hfinish)
  have hmore : 0 < chunk.length := List.length_pos_of_ne_nil hchunk
  obtain ⟨header, hheader⟩ : ∃ header, readHeader (recvBuffer stale chunk) 0 = some header := by
    rw [clientLoop, if_pos hmore] at hloop
    simp only [bind_eq_ok, access_eq_ok] at hloop
    obtain ⟨header, hheader, -⟩ := hloop
    exact ⟨header, hheader⟩
  refine ⟨header, hheader, ?_⟩
  rw [hsent]
  by_cases htype : header.messageType = msgTypeRegister
  · refine Or.inr ⟨htype, ?_⟩
    obtain ⟨word, name, rs₁, hword, hname, hrs₁, hkeys, hloop⟩ :=
      clientLoop_turn env hheader htype hmore hloop
    have hname₀ := isName_registered (by simp) hword hname
    obtain ⟨names, hnames, hall, hone⟩ := clientLoop_register env hheader htype
      (fun n hn => Option.some.inj (hrs₁.symm.trans hn) ▸ hname₀) hloop
    -- the buffer has no name of an earlier message to fall back on
    have hstored : word = name := by
      split_ifs at hname
      exact Option.some.inj hname
    rw [Nat.zero_add] at hword hone
    refine ⟨name, names, hstored ▸ hword, ?_, List.forall_mem_cons.mpr ⟨hname₀, hall⟩, hone⟩
    rw [hnames, hkeys, List.append_assoc]
    rfl
  · exact Or.inl ⟨htype, clientLoop_keys env hheader htype hloop⟩

/-- Descriptors are reset to -1, and nothing else happens to the registry. -/
structure Resets (ks ls : List (ℤ × Bytes)) : Prop where
  length : ls.length = ks.length
  entry : ∀ (i : ℕ) (y : ℤ × Bytes), ls[i]? = some y →
    ∃ x : ℤ × Bytes, ks[i]? = some x ∧ y.2 = x.2 ∧ (y.1 = x.1 ∨ y.1 = -1)

theorem resets_refl (ks : List (ℤ × Bytes)) : Resets ks ks :=
  ⟨rfl, fun _ y hy => ⟨y, hy, rfl, Or.inl rfl⟩⟩

theorem Resets.trans {ks ls ms : List (ℤ × Bytes)} (h : Resets ks ls) (h' : Resets ls ms) :
    Resets ks ms := by
  refine ⟨h'.length.trans h.length, ?_⟩
  intro i z hz
  obtain ⟨y, hy, hname', hfd'⟩ := h'.entry i z hz
  obtain ⟨x, hx, hname, hfd⟩ := h.entry i y hy
  refine ⟨x, hx, hname'.trans hname, ?_⟩
  rcases hfd' with hsame | hreset
  · rw [hsame]
    exact hfd
  · exact Or.inr hreset

theorem clockSendBoard_resets {fails : ℕ → Bool} {receiver : ℕ × ℕ}
    (h : clockSendBoard env fails player s receiver = .ok t) : Resets s.keys t.keys := by
  simp only [clockSendBoard, bind_eq_ok] at h
  obtain ⟨r, -, u, hu, h⟩ := h
  have hsent : u.keys = s.keys := keys_of_unshadowed (sendPlayer_unshadowed env hu)
  rw [← hsent]
  split_ifs at h with hlost
  · -- a send that fails resets the descriptor of its receiver
    rw [← Except.ok.inj h]
    refine ⟨by simp [Server.keys], ?_⟩
    intro i y hy
    simp only [Server.keys, List.getElem?_map, List.getElem?_modify] at hy ⊢
    cases hp : u.players[i]? with
    | none => exact absurd hy (by simp [hp])
    | some p =>
      refine ⟨p.key, rfl, ?_⟩
      rw [hp, Option.map_eq_map, Option.map_some, Option.map_some, Option.some_inj] at hy
      rw [← hy]
      split_ifs
      · exact ⟨rfl, Or.inr rfl⟩
      · exact ⟨rfl, Or.inl rfl⟩
  · rw [Except.ok.inj h]
    exact resets_refl _

theorem serverStep_tick_resets {clock : ℕ} {fails : ℕ → Bool}
    (h : serverStep env s (.tick clock fails) = .ok t) : Resets s.keys t.keys := by
  simp only [serverStep] at h
  cases hclock : s.clocks[clock]? with
  | none =>
    rw [hclock] at h
    rw [Except.ok.inj h]
    exact resets_refl _
  | some player =>
    rw [hclock] at h
    obtain ⟨⟨u, running⟩, hu, h⟩ := bind_eq_ok.mp h
    have hkeys : t.keys = u.keys := by
      rw [← Except.ok.inj h]
      split_ifs <;> rfl
    rw [hkeys]
    simp only [playerClock, bind_eq_ok, Except.ok.injEq, Prod.mk.injEq] at hu
    obtain ⟨v, hv, p, -, w, hw, q, -, rfl, -⟩ := hu
    have hlowered : Resets s.keys v.keys := callEngine_keys env hv ▸ resets_refl _
    -- the boards go out receiver by receiver
    have hsend (v : Server) (receiver : ℕ × ℕ) (w : Server) (hv : Resets s.keys v.keys)
        (hw : clockSendBoard env fails player v receiver = .ok w) : Resets s.keys w.keys :=
      hv.trans (clockSendBoard_resets env hw)
    exact invariant_run (clockSendBoard env fails player) hsend hlowered hw

/-- Every name of the registry has been scanned from a message. -/
theorem serverStep_isName {event : ServerEvent} (hs : ∀ x ∈ s.keys, IsName x.2)
    (h : serverStep env s event = .ok t) : ∀ x ∈ t.keys, IsName x.2 := by
  cases event with
  | recv fd stale chunk =>
    by_cases hchunk : chunk = []
    · rw [serverStep, readFromClient, if_pos hchunk] at h
      exact Except.ok.inj h ▸ hs
    · obtain ⟨header, -, ⟨-, hkeys⟩ | ⟨-, name, names, -, hkeys, hnames, -⟩⟩ :=
        readFromClient_keys env hchunk h
      · exact hkeys ▸ hs
      · intro x hx
        rw [hkeys] at hx
        rcases List.mem_append.mp hx with hold | hnew
        · exact hs x hold
        · obtain ⟨n, hn, rfl⟩ := List.mem_map.mp hnew
          exact hnames n hn
  | tick clock fails =>
    -- a clock registers nobody and renames nobody
    intro y hy
    obtain ⟨i, hi⟩ := List.mem_iff_getElem?.mp hy
    obtain ⟨x, hx, hname, -⟩ := (serverStep_tick_resets env h).entry i y hi
    rw [hname]
    exact hs x (List.mem_of_getElem? hx)

theorem server_names {events : List ServerEvent} (hrun : run (serverStep env) serverInit events = .ok s) :
    ∀ p ∈ s.players, IsName p.name := by
  have hkeys : ∀ x ∈ s.keys, IsName x.2 :=
    @invariant_run _ _ _ (serverStep env) (fun s => ∀ x ∈ s.keys, IsName x.2)
      (fun _ _ _ hs h => serverStep_isName env hs h) serverInit s events (by simp [Server.keys, serverInit])
      hrun
  intro p hp
  exact hkeys p.key (List.mem_map.mpr ⟨p, hp, rfl⟩)

end Keys

section Lookups

variable {s : Server}

theorem keys_getElem? {s : Server} {i : ℕ} {p : Player} (hp : s.players[i]? = some p) :
    s.keys[i]? = some p.key := by
  rw [Server.keys, List.getElem?_map, hp, Option.map_some]

theorem mem_keys {s : Server} {p : Player} (hp : p ∈ s.players) : p.key ∈ s.keys :=
  List.mem_map.mpr ⟨p, hp, rfl⟩

theorem exists_player {s : Server} {i : ℕ} {x : ℤ × Bytes} (hx : s.keys[i]? = some x) :
    ∃ p, s.players[i]? = some p ∧ p.key = x := by
  rw [Server.keys, List.getElem?_map] at hx
  exact Option.map_eq_some_iff.mp hx

theorem getPlayerFromFd_keys (fd : ℤ) (s : Server) :
    getPlayerFromFd fd s = lookup Prod.fst fd s.keys := by
  rw [lookup, Server.keys, List.findIdx?_map]
  rfl

/-- strcmp compares whole names when all of them are texts. -/
theorem playerGetByName_eq {name : Bytes} (hname : 0 ∉ name) {ps : List Player}
    (hps : ∀ p ∈ ps, 0 ∉ p.name) (index : ℕ) : playerGetByName (name ++ [0]) index ps =
      .ok ((lookup Player.name name ps).map (· + index)) := by
  induction ps generalizing index with
  | nil => rfl
  | cons p ps ih =>
    rw [List.forall_mem_cons] at hps
    rw [playerGetByName, strEq_terminated hps.1 hname, access_some, ok_bind, lookup_cons]
    by_cases h : p.name = name
    · rw [if_pos (decide_eq_true h), if_pos h, Option.map_some, Nat.zero_add]
    · rw [if_neg (by simp [h]), if_neg h, ih hps.2, Option.map_map]
      congr 2
      funext i
      exact (Nat.add_right_comm i 1 index).symm ▸ rfl

theorem mem_playerNames {excludeInGame : Bool} {name : Bytes} :
    name ∈ playerNames excludeInGame s ↔
      ∃ p ∈ s.players, p.listed excludeInGame = true ∧ p.name = name := by
  simp only [playerNames, List.mem_map, List.mem_filter, and_assoc]

end Lookups

end TetrisMint
