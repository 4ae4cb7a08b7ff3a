import TetrisMint.BlobLeak
import TetrisMint.BoardMessages
import TetrisMint.PlayerKeys
import TetrisMint.Registration
import TetrisMint.StringArrayRoundTrip

/-! The sizes of the messages that the server builds from names, against the buffer of
their reader. -/
namespace TetrisMint

open CStrings Doubling FallibleRun

section Senders

variable (heap : ℕ → Fresh) (fresh : Fresh)

/-- The loop of player_names, and how many names it has set. -/
def setPlayerNames (excludeInGame : Bool) :
    List Player → ℕ → StringArray → Except Fault (StringArray × ℕ)
  | [], index, arr => .ok (arr, index)
  | p :: ps, index, arr =>
    if p.listed excludeInGame then do
      let arr ← stringArraySetItem (heap index) arr index (p.name ++ [0])
      setPlayerNames excludeInGame ps (index + 1) arr
    else setPlayerNames excludeInGame ps index arr

def playerNamesArray (excludeInGame : Bool) (s : Server) : Except Fault StringArray := do
  let (arr, count) ← setPlayerNames heap excludeInGame s.players 0
    (stringArrayCreate s.players.length playerNameMaxChars)
  .ok (stringArrayResize arr count)

def sendOnlineUsers (requestId : ℤ) (s : Server) : Except Fault Bytes := do
  let arr ← playerNamesArray heap true s
  sendStringArray fresh arr requestId msgTypeListResponse

/-- The loop over the members of a party that sets their names. -/
def setMemberNames (players : List Player) : List ℕ → ℕ → StringArray → Except Fault StringArray
  | [], _, arr => .ok arr
  | member :: members, index, arr => do
    let p ← deref players[member]?
    let arr ← stringArraySetItem (heap index) arr index (p.name ++ [0])
    setMemberNames players members (index + 1) arr

/-- The messages that go out, each with its socket. -/
def tellPartyThatTheGameStarted (party : ℕ) (s : Server) : Except Fault (List (ℤ × Bytes)) := do
  let members := ttetrisPartyGetPlayers party s
  let arr ← setMemberNames heap s.players members 0
    (stringArrayCreate members.length playerNameMaxChars)
  let payload ← sendStringArray fresh arr 0 msgTypeGameStarted
  let receivers := (members.filterMap (s.players[·]?)).filter fun p => p.fd ≠ 0
  .ok (receivers.map fun p => (p.fd, payload))

/-- The BOARD message of a player. -/
def boardMessage (p : Player) : Except Fault Bytes := do
  let (_, blob) ← serializeState fresh p
  messageBlob blob 0 msgTypeBoard

def partyNames (party : ℕ) (s : Server) : List Bytes :=
  ((ttetrisPartyGetPlayers party s).filterMap (s.players[·]?)).map Player.name

end Senders

/-- The header counts the bytes of the body, and one recv of the reader can hold the message. -/
def FitsWire (payload : Bytes) : Prop :=
  ∃ header, readHeader payload 0 = some header ∧
    messageHeaderSize + header.contentLength = payload.length ∧ payload.length ≤ maxMsg

section Sizes

theorem length_messageNbytes (bytes : Bytes) (requestId : ℤ) (messageType : UInt8) :
    (messageNbytes bytes requestId messageType).length = messageHeaderSize + bytes.length := by
  simp only [messageNbytes, List.length_append, length_headerFields]
  rfl

/-- Only the size decides: a body that the reader can hold is counted right. -/
theorem fitsWire_iff (bytes : Bytes) (requestId : ℤ) (messageType : UInt8) :
    FitsWire (messageNbytes bytes requestId messageType) ↔ messageHeaderSize + bytes.length ≤ maxMsg := by
  rw [FitsWire, length_messageNbytes]
  constructor
  · rintro ⟨header, -, -, hsize⟩
    exact hsize
  · intro hsize
    let msg : Message := ⟨messageType, (requestId % 2 ^ 16).toNat, bytes⟩
    have hfits : msg.Fits := by
      constructor
      · change (requestId % 2 ^ 16).toNat < 2 ^ 16
        omega
      · change bytes.length < 2 ^ 16
        rw [messageHeaderSize, maxMsg] at hsize
        omega
    have hencode : messageNbytes bytes requestId messageType = msg.encode := by
      have hid : (((requestId % 2 ^ 16).toNat : ℤ) % 2 ^ 16).toNat = (requestId % 2 ^ 16).toNat := by omega
      rw [Message.encode, messageNbytes, messageNbytes, hid]
    have hheader := readHeader_encode hfits []
    rw [List.append_nil, ← hencode] at hheader
    exact ⟨msg.header, hheader, rfl, hsize⟩

/-- The doubled blob of an array fits up to 1024 bytes. -/
theorem blobSize_fits (used : ℕ) : messageHeaderSize + blobSize used ≤ maxMsg ↔ used < 1024 := by
  have hsmall : blobSize used ≤ 1024 ↔ used < 1024 := @capacity_le_iff 128 used 3 (by decide)
  rw [messageHeaderSize, maxMsg]
  constructor
  · intro hsize
    by_contra hlarge
    -- the next capacity is all of MAXMSG, with no room for the header
    have hnext : blobSize 1024 = 2048 := @capacity_eq 128 1024 3 (by decide) (by decide) (by decide)
    have hmono : blobSize 1024 ≤ blobSize used := capacity_mono (by omega)
    omega
  · intro hless
    have := hsmall.mpr hless
    omega

end Sizes

section Names

variable {heap : ℕ → Fresh} {fresh : Fresh} {names : List Bytes} {arr : StringArray}
  {requestId : ℤ} {messageType : UInt8}

theorem storedNames_bound (hnames : ∀ name ∈ names, IsName name) : ∀ item ∈ storedItems heap 0 names,
    0 ∉ item.1 ∧ item.1.length ≤ sizeOfInt playerNameMaxChars := by
  intro item hitem
  have hbound : ∀ name ∈ names, 0 ∉ name ∧ (name.length : ℤ) ≤ playerNameMaxChars := by
    intro name hname
    obtain ⟨h0, hlen⟩ := hnames name hname
    exact ⟨h0, by exact_mod_cast hlen⟩
  exact (storedItems_bound (by decide) hbound item hitem).2

/-- An array of names that the encoder can read is sent as a blob whose length the names decide. -/
theorem sendNames_eq_ok (hnames : ∀ name ∈ names, IsName name)
    (hmax : arr.maxStringLength = playerNameMaxChars)
    (harr : arr.strings = (storedItems heap 0 names).map fun p => some p.bytes) {payload : Bytes} :
    sendStringArray fresh arr requestId messageType = .ok payload ↔
      ((∀ item ∈ storedItems heap 0 names, Readable playerNameMaxChars item) ∧
        wireSize names < 2 ^ 30) ∧
      payload = messageNbytes (writtenBlob fresh (blobSize (wireSize names))
        (wireHeader arr ++ itemBytes (storedItems heap 0 names))).bytes requestId messageType := by
  have hsize : wireHeaderSize + (itemBytes (storedItems heap 0 names)).length = wireSize names := by
    rw [length_itemBytes_storedItems, wireSize]
  have hroom : (wireHeader arr ++ itemBytes (storedItems heap 0 names)).length ≤
      blobSize (wireSize names) := by
    rw [List.length_append, length_wireHeader, hsize]
    exact (@lt_capacity 128 _ (by decide)).le
  have hserialize (blob : Blob) := @serializeItems_eq_ok fresh arr _ blob
    (by rw [hmax]; exact storedNames_bound hnames) harr
  rw [hsize, hmax] at hserialize
  simp only [sendStringArray, bind_eq_ok, hserialize]
  constructor
  · rintro ⟨blob, ⟨hfit, rfl⟩, hsent⟩
    rw [messageBlob_written fresh hroom, Except.ok.injEq] at hsent
    exact ⟨hfit, hsent.symm⟩
  · rintro ⟨hfit, rfl⟩
    exact ⟨_, ⟨hfit, rfl⟩, messageBlob_written fresh hroom requestId messageType⟩

/-- Whether a list of names fits. -/
theorem names_fit_iff (hnames : ∀ name ∈ names, IsName name)
    (hmax : arr.maxStringLength = playerNameMaxChars)
    (harr : arr.strings = (storedItems heap 0 names).map fun p => some p.bytes) {payload : Bytes}
    (hsent : sendStringArray fresh arr requestId messageType = .ok payload) :
    FitsWire payload ↔ wireSize names < 1024 := by
  obtain ⟨-, rfl⟩ := (sendNames_eq_ok hnames hmax harr).mp hsent
  have hroom : (wireHeader arr ++ itemBytes (storedItems heap 0 names)).length ≤
      blobSize (wireSize names) := by
    rw [List.length_append, length_wireHeader, length_itemBytes_storedItems]
    exact (@lt_capacity 128 _ (by decide)).le
  rw [fitsWire_iff, length_writtenBlob fresh hroom, blobSize_fits]

/-- Where set_item finds zeroed memory, names that fit a blob are sent. -/
theorem names_sent (hnames : ∀ name ∈ names, IsName name)
    (hmax : arr.maxStringLength = playerNameMaxChars)
    (harr : arr.strings = (storedItems (fun _ _ => 0) 0 names).map fun p => some p.bytes)
    (hsize : wireSize names < 2 ^ 30) :
    ∃ payload, sendStringArray fresh arr requestId messageType = .ok payload := by
  refine ⟨_, (sendNames_eq_ok hnames hmax harr).mpr ⟨⟨?_, hsize⟩, rfl⟩⟩
  intro item hitem
  rw [storedItems_zero] at hitem
  obtain ⟨name, -, rfl⟩ := List.mem_map.mp hitem
  exact Or.inl rfl

/-- The loop of player_names sets the names of the players that it does not skip. -/
theorem setPlayerNames_eq (excludeInGame : Bool) (ps : List Player) (index : ℕ) (arr : StringArray) :
    setPlayerNames heap excludeInGame ps index arr =
      (setItems heap ((ps.filter (Player.listed excludeInGame)).map Player.name) index arr).map
        fun arr => (arr, index + (ps.filter (Player.listed excludeInGame)).length) := by
  induction ps generalizing index arr with
  | nil => rfl
  | cons p ps ih =>
    rw [setPlayerNames]
    by_cases hlisted : p.listed excludeInGame = true
    · rw [if_pos hlisted, List.filter_cons_of_pos hlisted, List.map_cons, setItems, List.length_cons]
      cases stringArraySetItem (heap index) arr index (p.name ++ [0]) with
      | error e => rfl
      | ok arr =>
        rw [ok_bind, ok_bind, ih, Nat.add_assoc, Nat.add_comm 1]
    · rw [if_neg hlisted, List.filter_cons_of_neg hlisted, ih]

theorem listed_names {s : Server} (hnames : ∀ p ∈ s.players, IsName p.name) (excludeInGame : Bool) :
    ∀ name ∈ playerNames excludeInGame s, IsName name := by
  intro name hmem
  obtain ⟨p, hp, -, rfl⟩ := mem_playerNames.mp hmem
  exact hnames p hp

theorem playerNamesArray_eq_ok {s : Server} (hnames : ∀ p ∈ s.players, IsName p.name)
    (excludeInGame : Bool) : (∃ arr, playerNamesArray heap excludeInGame s = .ok arr) ∧
      ∀ arr, playerNamesArray heap excludeInGame s = .ok arr →
        arr.maxStringLength = playerNameMaxChars ∧
        arr.strings = (storedItems heap 0 (playerNames excludeInGame s)).map fun p => some p.bytes := by
  let names := playerNames excludeInGame s
  have hcount : (s.players.filter (Player.listed excludeInGame)).length = names.length :=
    (List.length_map _).symm
  have hle : names.length ≤ s.players.length := by
    rw [← hcount]
    exact List.length_filter_le _ _
  have hname : ∀ name ∈ names, IsName name := listed_names hnames excludeInGame
  -- the pointers behind the names stay NULL until the array is cut
  have hnull : (stringArrayCreate s.players.length playerNameMaxChars).strings =
      [] ++ List.replicate names.length none ++
        List.replicate (s.players.length - names.length) none := by
    change List.replicate (s.players.length : ℤ).toNat none = _
    rw [List.nil_append, List.replicate_append_replicate, Int.toNat_natCast, Nat.add_sub_of_le hle]
  obtain ⟨hreturns, hset⟩ :=
    @setItems_eq_ok heap names 0 _ [] _ (fun name h => (hname name h).1) rfl hnull
  have hloop : setPlayerNames heap excludeInGame s.players 0
      (stringArrayCreate s.players.length playerNameMaxChars) =
        (setItems heap names 0 (stringArrayCreate s.players.length playerNameMaxChars)).map
          fun arr => (arr, names.length) := by
    rw [setPlayerNames_eq, Nat.zero_add, hcount]
    rfl
  constructor
  · obtain ⟨arr, harr⟩ := hreturns fun name h => lt_of_le_of_lt (hname name h).2 (by decide)
    exact ⟨stringArrayResize arr names.length, by rw [playerNamesArray, hloop, harr]; rfl⟩
  · intro arr' h
    rw [playerNamesArray, hloop] at h
    cases harr : setItems heap names 0 (stringArrayCreate s.players.length playerNameMaxChars) with
    | error e =>
      rw [harr] at h
      exact absurd h (by simp [Except.map, bind, Except.bind])
    | ok arr =>
      rw [harr] at h
      obtain ⟨hmax, -, hstrings⟩ := hset arr harr
      rw [List.nil_append] at hstrings
      have hresize : stringArrayResize arr names.length = arr' := Except.ok.inj h
      rw [← hresize]
      refine ⟨hmax, ?_⟩
      -- the resize keeps the names and nothing else
      have hlen : ((storedItems heap 0 names).map fun p => some p.bytes).length = names.length := by
        rw [List.length_map, length_storedItems]
      change arr.strings.take (names.length : ℤ).toNat ++
        List.replicate ((names.length : ℤ).toNat - arr.strings.length) none = _
      rw [Int.toNat_natCast, hstrings, List.take_left' hlen, List.length_append, hlen,
        Nat.sub_eq_zero_of_le (Nat.le_add_right _ _), List.replicate_zero, List.append_nil]

/-- The loop over the members sets their names. -/
theorem setMemberNames_eq {players : List Player} {members : List ℕ}
    (hmembers : ∀ i ∈ members, i < players.length) (index : ℕ) (arr : StringArray) :
    setMemberNames heap players members index arr =
      setItems heap ((members.filterMap (players[·]?)).map Player.name) index arr := by
  induction members generalizing index arr with
  | nil => rfl
  | cons member members ih =>
    obtain ⟨hlt, hrest⟩ := List.forall_mem_cons.mp hmembers
    have hget := List.getElem?_eq_getElem hlt
    rw [setMemberNames, hget, deref_some, ok_bind, List.filterMap_cons_some hget, List.map_cons, setItems]
    cases stringArraySetItem (heap index) arr index (players[member].name ++ [0]) with
    | error e => rfl
    | ok arr => exact ih hrest (index + 1) arr

theorem memberNames_eq_build {s : Server} (hs : ServerInv s) (party : ℕ) :
    setMemberNames heap s.players (ttetrisPartyGetPlayers party s) 0
        (stringArrayCreate (ttetrisPartyGetPlayers party s).length playerNameMaxChars) =
      buildStringArray heap playerNameMaxChars (partyNames party s) := by
  have hmembers := ttetrisPartyGetPlayers_lt hs party
  have hcount (members : List ℕ) (h : ∀ i ∈ members, i < s.players.length) :
      (members.filterMap (s.players[·]?)).length = members.length := by
    induction members with
    | nil => rfl
    | cons member members ih =>
      obtain ⟨hlt, hrest⟩ := List.forall_mem_cons.mp h
      rw [List.filterMap_cons_some (List.getElem?_eq_getElem hlt), List.length_cons, ih hrest,
        List.length_cons]
  rw [setMemberNames_eq hmembers, buildStringArray, partyNames, List.length_map, hcount _ hmembers]

end Names

section Reachable

variable {s : Server}

theorem board_fits {p : Player} (hi : EngineInv p.contents) (h0 : 0 ∉ p.name) (fresh : Fresh) :
    ∃ payload, boardMessage fresh p = .ok payload ∧ FitsWire payload := by
  obtain ⟨⟨contents, view⟩, hview⟩ := view_returns hi
  have hlength : (p.name.take playerNameMaxChars ++ 0 :: viewBytes view).length =
      gameViewDataSize + (p.name.take playerNameMaxChars).length + 1 := by
    simp only [List.length_append, List.length_cons, length_viewBytes]
    omega
  have hname : (p.name.take playerNameMaxChars).length ≤ playerNameMaxChars := List.length_take_le _ _
  refine ⟨messageNbytes (p.name.take playerNameMaxChars ++ 0 :: viewBytes view) 0 msgTypeBoard, ?_, ?_⟩
  · rw [boardMessage, serializeState_eq h0 hview, ok_bind]
    simp only [messageBlob, bytesAt]
    rw [if_pos hlength.ge, List.take_of_length_le hlength.le, access_some, ok_bind]
  · have hview : gameViewDataSize = 976 := rfl
    have hmax : playerNameMaxChars = 15 := rfl
    rw [fitsWire_iff, hlength, messageHeaderSize, maxMsg]
    omega

theorem listResponse_fits_iff (hnames : ∀ p ∈ s.players, IsName p.name) {heap : ℕ → Fresh}
    {fresh : Fresh} {requestId : ℤ} {payload : Bytes}
    (h : sendOnlineUsers heap fresh requestId s = .ok payload) :
    FitsWire payload ↔ wireSize (playerNames true s) < 1024 := by
  obtain ⟨arr, harr, hsent⟩ := bind_eq_ok.mp h
  obtain ⟨hmax, hstrings⟩ := (playerNamesArray_eq_ok hnames true).2 arr harr
  exact names_fit_iff (listed_names hnames true) hmax hstrings hsent

theorem listResponse_sent (hnames : ∀ p ∈ s.players, IsName p.name)
    (hsize : wireSize (playerNames true s) < 2 ^ 30) (fresh : Fresh) (requestId : ℤ) :
    ∃ payload, sendOnlineUsers (fun _ _ => 0) fresh requestId s = .ok payload := by
  obtain ⟨⟨arr, harr⟩, hbuilt⟩ := @playerNamesArray_eq_ok (fun _ _ => 0) s hnames true
  obtain ⟨hmax, hstrings⟩ := hbuilt arr harr
  obtain ⟨payload, hsent⟩ := names_sent (listed_names hnames true) hmax hstrings hsize
  exact ⟨payload, bind_eq_ok.mpr ⟨arr, harr, hsent⟩⟩

theorem member_names (hnames : ∀ p ∈ s.players, IsName p.name) (party : ℕ) :
    ∀ name ∈ partyNames party s, IsName name := by
  intro name hmem
  obtain ⟨p, hp, rfl⟩ := List.mem_map.mp hmem
  obtain ⟨i, -, hget⟩ := List.mem_filterMap.mp hp
  exact hnames p (List.mem_of_getElem? hget)

theorem gameStarted_fits_iff (hi : ServerInv s) (hnames : ∀ p ∈ s.players, IsName p.name)
    {heap : ℕ → Fresh} {fresh : Fresh} {party : ℕ} {sent : List (ℤ × Bytes)}
    (h : tellPartyThatTheGameStarted heap fresh party s = .ok sent) :
    ∀ msg ∈ sent, (FitsWire msg.2 ↔ wireSize (partyNames party s) < 1024) := by
  have hmembers := member_names hnames party
  rw [tellPartyThatTheGameStarted, memberNames_eq_build hi] at h
  obtain ⟨arr, harr, h⟩ := bind_eq_ok.mp h
  obtain ⟨payload, hsent, h⟩ := bind_eq_ok.mp h
  obtain ⟨hmax, -, hstrings⟩ := (buildStringArray_eq_ok fun n hn => (hmembers n hn).1).2 arr harr
  intro msg hmsg
  rw [← Except.ok.inj h] at hmsg
  obtain ⟨p, -, rfl⟩ := List.mem_map.mp hmsg
  exact names_fit_iff hmembers hmax hstrings hsent

theorem gameStarted_sent (hi : ServerInv s) (hnames : ∀ p ∈ s.players, IsName p.name) {party : ℕ}
    (hsize : wireSize (partyNames party s) < 2 ^ 30) (fresh : Fresh) :
    ∃ sent, tellPartyThatTheGameStarted (fun _ _ => 0) fresh party s = .ok sent := by
  have hmembers := member_names hnames party
  obtain ⟨hreturns, hbuilt⟩ := @buildStringArray_eq_ok (fun _ _ => 0) playerNameMaxChars
    (partyNames party s) fun n hn => (hmembers n hn).1
  obtain ⟨arr, harr⟩ := hreturns fun n hn => length_lt_intMax hn hsize
  obtain ⟨hmax, -, hstrings⟩ := hbuilt arr harr
  obtain ⟨payload, hsent⟩ := @names_sent fresh (partyNames party s) arr 0 msgTypeGameStarted
    hmembers hmax hstrings hsize
  rw [tellPartyThatTheGameStarted, memberNames_eq_build hi]
  exact ⟨_, bind_eq_ok.mpr ⟨arr, harr, bind_eq_ok.mpr ⟨payload, hsent, rfl⟩⟩⟩

end Reachable

section Registrations

variable {s t : Server}

/-- The list of names does not look at shadow blocks. -/
theorem playerNames_of_unshadowed (h : t.unshadowed = s.unshadowed) (excludeInGame : Bool) :
    playerNames excludeInGame t = playerNames excludeInGame s := by
  have hnames (u : Server) : playerNames excludeInGame u.unshadowed = playerNames excludeInGame u := by
    rw [playerNames, Server.unshadowed, List.filter_map, List.map_map]
    rfl
  rw [← hnames t, h, hnames s]

/-- One client after the other registers with the same name. -/
def registrations (name : Bytes) (fds : List ℕ) : List ServerEvent :=
  fds.map fun fd => .recv fd (fun _ => 0) (registerMessage 1 name).encode

theorem run_registrations (env : ServerEnv) {name : Bytes} (hname : ∀ b ∈ name, b ≠ 0 ∧ isSpace b = false)
    (hne : name ≠ []) (hlen : name.length ≤ playerNameMaxChars) (fds : List ℕ) (s : Server) :
    ∃ t, run (serverStep env) s (registrations name fds) = .ok t ∧
      playerNames true t = playerNames true s ++ List.replicate fds.length name := by
  induction fds generalizing s with
  | nil => exact ⟨s, rfl, (List.append_nil _).symm⟩
  | cons fd fds ih =>
    obtain ⟨u, hread, hcreated⟩ := @register_text env fd 1 (by decide) (fun _ => 0) s name hname hne hlen
    obtain ⟨t, hrun, hnames⟩ := ih u
    have hlisted : playerNames true u = playerNames true s ++ [name] := by
      have hfd : (fd : ℤ) ≠ -1 := by omega
      rw [playerNames_of_unshadowed hcreated, playerNames, playerCreate, List.filter_append,
        List.map_append, List.filter_cons_of_pos (by simp [Player.listed, hfd])]
      rfl
    refine ⟨t, (run_cons_ok _ _ hread).trans hrun, ?_⟩
    rw [hnames, hlisted, List.append_assoc, List.length_cons, List.replicate_succ]
    rfl

end Registrations

/-- In every state that the server can reach: a BOARD message is always sent and fits the wire,
and a LIST_RESPONSE or GAME_STARTED message that is sent fits it exactly when its names with
their NULs and the eight bytes before them take less than 1024 bytes. -/
theorem messages_fit_iff (env : ServerEnv) {events : List ServerEvent} {s : Server}
    (hrun : run (serverStep env) serverInit events = .ok s) :
    (∀ p ∈ s.players, ∀ fresh, ∃ payload, boardMessage fresh p = .ok payload ∧ FitsWire payload) ∧
      (∀ heap fresh requestId payload, sendOnlineUsers heap fresh requestId s = .ok payload →
        (FitsWire payload ↔ wireSize (playerNames true s) < 1024)) ∧
      (∀ heap fresh party sent, tellPartyThatTheGameStarted heap fresh party s = .ok sent →
        ∀ msg ∈ sent, (FitsWire msg.2 ↔ wireSize (partyNames party s) < 1024)) ∧
      (∀ fresh requestId, wireSize (playerNames true s) < 2 ^ 30 →
        ∃ payload, sendOnlineUsers (fun _ _ => 0) fresh requestId s = .ok payload) ∧
      ∀ fresh party, wireSize (partyNames party s) < 2 ^ 30 →
        ∃ sent, tellPartyThatTheGameStarted (fun _ _ => 0) fresh party s = .ok sent := by
  have hi := server_invariant env hrun
  have hnames := server_names env hrun
  refine ⟨?_, ?_, ?_, ?_, ?_⟩
  · intro p hp fresh
    exact board_fits (hi.games p hp) (hnames p hp).1 fresh
  · intro heap fresh requestId payload h
    exact listResponse_fits_iff hnames h
  · intro heap fresh party sent h
    exact gameStarted_fits_iff hi hnames h
  · intro fresh requestId hsize
    exact listResponse_sent hnames hsize fresh requestId
  · intro fresh party hsize
    exact gameStarted_sent hi hnames hsize fresh

/-- Two players are listed. -/
theorem messages_fit_two_players : ∃ s,
    run (serverStep heroEnv) serverInit (registrations [65] [4, 5]) = .ok s ∧
      ∃ payload, sendOnlineUsers (fun _ _ => 0) (fun _ => 0) 1 s = .ok payload ∧ FitsWire payload := by
  obtain ⟨s, hrun, hnames⟩ := @run_registrations heroEnv [65] (List.forall_mem_singleton.mpr (by decide))
    (by decide) (by decide) [4, 5] serverInit
  obtain ⟨-, hfits, -, hsent, -⟩ := messages_fit_iff heroEnv hrun
  have hsize : wireSize (playerNames true s) < 1024 := by
    rw [hnames]
    decide
  obtain ⟨payload, hpayload⟩ := hsent (fun _ => 0) 1 (hsize.trans (by decide))
  exact ⟨s, hrun, payload, hpayload, (hfits _ _ _ _ hpayload).mpr hsize⟩

/-- With sixty-four players of fifteen letters the list is sent in 2060 bytes. -/
theorem list_exceeds_wire : ∃ s,
    run (serverStep heroEnv) serverInit
        (registrations (List.replicate 15 65) ((List.range 64).map (· + 4))) = .ok s ∧
      ∃ payload, sendOnlineUsers (fun _ _ => 0) (fun _ => 0) 1 s = .ok payload ∧ ¬FitsWire payload := by
  have hletters : ∀ b ∈ List.replicate 15 (65 : UInt8), b ≠ 0 ∧ isSpace b = false := by
    intro b hb
    rw [List.eq_of_mem_replicate hb]
    decide
  obtain ⟨s, hrun, hnames⟩ := @run_registrations heroEnv (List.replicate 15 65) hletters (by decide)
    (by decide) ((List.range 64).map (· + 4)) serverInit
  have hregistered := server_names heroEnv hrun
  have hsize : wireSize (playerNames true s) = 1032 := by
    rw [hnames, List.length_map, List.length_range]
    decide
  obtain ⟨payload, hpayload⟩ := listResponse_sent hregistered (by rw [hsize]; decide) (fun _ => 0) 1
  refine ⟨s, hrun, payload, hpayload, ?_⟩
  rw [listResponse_fits_iff hregistered hpayload, hsize]
  decide

end TetrisMint
