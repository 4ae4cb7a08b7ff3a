import TetrisMint.MergedChunk

/-! What a client can do before it registers: read_from_client notices that it has
no player and handles the messages all the same. -/
namespace TetrisMint

open CStrings FallibleRun

/-- LIST is answered for anybody, and an unknown type is only logged. -/
def HarmlessType (messageType : UInt8) : Prop :=
  messageType = msgTypeList ∨ messageType ∉ clientMessageTypes

instance (messageType : UInt8) : Decidable (HarmlessType messageType) :=
  inferInstanceAs (Decidable (_ ∨ _))

/-- The end of file, or a chunk that starts with the header of a harmless message. -/
def HarmlessRead (read : Fresh × Bytes) : Prop :=
  read.2 = [] ∨ ∃ header, readHeader (recvBuffer read.1 read.2) 0 = some header ∧
    HarmlessType header.messageType

/-- One call of read_from_client, given what the buffer held and what recv returns. -/
def readStep (env : ServerEnv) (fd : ℕ) (s : Server) (read : Fresh × Bytes) : Except Fault Server :=
  readFromClient env fd read.1 read.2 s

/-- All calls return, and each leaves the players, their games and the parties as they were. -/
def LeavesAlone (env : ServerEnv) (fd : ℕ) (s : Server) (reads : List (Fresh × Bytes)) : Prop :=
  (∃ t, run (readStep env fd) s reads = .ok t) ∧
    ∀ t, Visits (readStep env fd) s reads t → t.unshadowed = s.unshadowed

/-- A chunk of whole messages is as harmless as the first of them. -/
theorem harmlessRead_messages {msg : Message} (hmsg : msg.Fits) (stale : Fresh)
    (msgs : List Message) :
    HarmlessRead (stale, encodeAll (msg :: msgs)) ↔ HarmlessType msg.messageType := by
  have hne : encodeAll (msg :: msgs) ≠ [] := by
    apply List.ne_nil_of_length_pos
    have hsplit : encodeAll (msg :: msgs) = msg.encode ++ encodeAll msgs := rfl
    rw [hsplit, List.length_append, length_encode, Message.size, messageHeaderSize]
    omega
  have hheader : readHeader (recvBuffer stale (encodeAll (msg :: msgs))) 0 = some msg.header := by
    have hbuffer : recvBuffer stale (encodeAll (msg :: msgs)) = msg.encode ++ (encodeAll msgs ++
        (malloc stale maxMsg).drop (encodeAll (msg :: msgs)).length) := List.append_assoc ..
    rw [hbuffer]
    exact readHeader_encode hmsg _
  constructor
  · rintro (hnil | ⟨header, hread, htype⟩)
    · exact absurd hnil hne
    · rw [hheader, Option.some_inj] at hread
      rwa [← hread, msg.header_messageType] at htype
  · intro htype
    exact Or.inr ⟨msg.header, hheader, htype⟩

section Handling

variable (env : ServerEnv) {header : MessageHeader} {cursor : Bytes}

/-- The types that ask the engine for something. -/
theorem engineOp_eq_none {messageType : UInt8} : engineOp messageType cursor = .ok none ↔
    messageType ∉ [msgTypeRotate, msgTypeTranslate, msgTypeLower, msgTypeDrop, msgTypeSwapHold] := by
  have hsome {x : Option UInt8} {f : UInt8 → Op} :
      (do let b ← access x; (.ok (some (f b)) : Except Fault (Option Op))) ≠ .ok none := by
    cases x with
    | none => exact fun h => by cases h
    | some b => exact fun h => by cases h
  simp only [List.mem_cons, List.not_mem_nil, or_false, not_or]
  unfold engineOp
  split_ifs with hrotate htranslate hlower hdrop hswap
  · exact ⟨fun h => absurd h hsome, fun h => absurd hrotate h.1⟩
  · exact ⟨fun h => absurd h hsome, fun h => absurd htranslate h.2.1⟩
  · exact ⟨fun h => (by cases h), fun h => absurd hlower h.2.2.1⟩
  · exact ⟨fun h => (by cases h), fun h => absurd hdrop h.2.2.2.1⟩
  · exact ⟨fun h => (by cases h), fun h => absurd hswap h.2.2.2.2⟩
  · exact ⟨fun _ => ⟨hrotate, htranslate, hlower, hdrop, hswap⟩, fun _ => rfl⟩

theorem harmlessType_iff (messageType : UInt8) : HarmlessType messageType ↔
    messageType ≠ msgTypeRegister ∧ messageType ≠ msgTypeStartGame ∧
      messageType ≠ msgTypeOpponent ∧ messageType ∉
        [msgTypeRotate, msgTypeTranslate, msgTypeLower, msgTypeDrop, msgTypeSwapHold] := by
  constructor
  · rintro (rfl | hunknown)
    · decide
    · simp only [clientMessageTypes, List.mem_cons, List.not_mem_nil, or_false, not_or] at hunknown ⊢
      tauto
  · intro h
    simp only [List.mem_cons, List.not_mem_nil, or_false, not_or] at h
    by_cases hlist : messageType = msgTypeList
    · exact Or.inl hlist
    · refine Or.inr ?_
      simp only [clientMessageTypes, List.mem_cons, List.not_mem_nil, or_false, not_or]
      tauto

/-- A harmless message leaves everything as it is, with a player or without. -/
theorem handleMessage_harmless (htype : HarmlessType header.messageType) (fd : ℤ) (rs : ReadState) :
    handleMessage env fd header rs cursor = .ok rs := by
  obtain ⟨hregister, hstart, hopponent, hengine⟩ := (harmlessType_iff _).mp htype
  rw [handleMessage, if_neg hregister, serverSwitch, if_neg hstart, if_neg hopponent,
    engineOp_eq_none.mpr hengine]
  rfl

/-- Every other message of a client without a player follows a null pointer, or registers. -/
theorem handleMessage_no_player (htype : ¬HarmlessType header.messageType) {fd : ℤ}
    {s : Server} {name : Option Bytes} {rs : ReadState}
    (h : handleMessage env fd header ⟨s, none, name⟩ cursor = .ok rs) :
    s.players.length < rs.server.players.length := by
  rcases handleMessage_cases env h with ⟨-, hregister⟩ | ⟨hregister, -, -, hswitch⟩
  · -- a registration appends a player
    obtain ⟨word, name', -, -, rfl⟩ := (registerPlayer_eq_ok env).mp hregister
    rw [playerCreate, List.length_append, List.length_singleton]
    exact Nat.lt_succ_self _
  · -- what starts a game, invites or plays looks at the player first
    exfalso
    rw [serverSwitch] at hswitch
    split_ifs at hswitch with hstart hopponent
    · obtain ⟨i, -, hi, -⟩ := startGame_eq_ok.mp hswitch
      exact absurd hi (by simp)
    · obtain ⟨-, i, -, -, hi, -⟩ := inviteOpponents_eq_ok.mp hswitch
      exact absurd hi (by simp)
    · obtain ⟨op, hop, hcall⟩ := bind_eq_ok.mp hswitch
      cases op with
      | none => exact htype ((harmlessType_iff _).mpr ⟨hregister, hstart, hopponent,
          engineOp_eq_none.mp hop⟩)
      | some op =>
        obtain ⟨i, hi, -⟩ := bind_eq_ok.mp hcall
        exact absurd hi (by simp [deref])

theorem handleMessage_length {fd : ℤ} {rs rs' : ReadState}
    (h : handleMessage env fd header rs cursor = .ok rs') :
    rs.server.players.length ≤ rs'.server.players.length := by
  rcases handleMessage_cases env h with ⟨-, hregister⟩ | ⟨-, -, -, hswitch⟩
  · obtain ⟨word, name, -, -, rfl⟩ := (registerPlayer_eq_ok env).mp hregister
    rw [playerCreate, List.length_append]
    exact Nat.le_add_right _ _
  · have hlen := congrArg List.length (serverSwitch_fds env hswitch)
    rw [List.length_map, List.length_map] at hlen
    exact hlen.ge

end Handling

section Reads

variable (env : ServerEnv) {fd : ℕ} {s t : Server} {read : Fresh × Bytes}

/-- One call as a run over the bodies that its loop finds, the first right behind the header. -/
theorem readStep_eq {header : MessageHeader} (hne : read.2 ≠ [])
    (hheader : readHeader (recvBuffer read.1 read.2) 0 = some header) : ∃ cursors,
    readStep env fd s read = (do
      let rs ← run (fun rs cursor => handleMessage env fd header rs
        ((recvBuffer read.1 read.2).drop cursor)) ⟨s, getPlayerFromFd fd s, none⟩
        (messageHeaderSize :: cursors)
      finishRead env rs) := by
  have hpos : 0 < read.2.length := List.length_pos_of_ne_nil hne
  have hloop := readFromClient_eq_run env fd hne hheader s
  rw [bodyCursors, if_pos hpos, Nat.zero_add] at hloop
  exact ⟨_, hloop⟩

/-- A harmless chunk changes nothing but shadow blocks, whatever player it is read for. -/
theorem readStep_harmless (hs : ServerInv s) (h : HarmlessRead read) :
    ∃ t, readStep env fd s read = .ok t ∧ t.unshadowed = s.unshadowed := by
  by_cases hne : read.2 = []
  · exact ⟨s, by rw [readStep, readFromClient, if_pos hne], rfl⟩
  · obtain ⟨header, hheader, htype⟩ := h.resolve_left hne
    obtain ⟨cursors, heq⟩ := @readStep_eq env fd s read header hne hheader
    obtain ⟨t, ht⟩ := finishRead_returns env (readInv_start hs fd)
    refine ⟨t, ?_, finishRead_unshadowed env ht⟩
    have hloop : run (fun rs cursor => handleMessage env fd header rs
        ((recvBuffer read.1 read.2).drop cursor)) ⟨s, getPlayerFromFd fd s, none⟩
        (messageHeaderSize :: cursors) = .ok ⟨s, getPlayerFromFd fd s, none⟩ :=
      run_fixed _ fun _ _ => handleMessage_harmless env htype fd _
    rw [heq, hloop, ok_bind, ht]

/-- For a client without a player every other chunk faults, or registers. -/
theorem readStep_no_player (hplayer : getPlayerFromFd fd s = none)
    (h : readStep env fd s read = .ok t) (hkept : t.unshadowed = s.unshadowed) :
    HarmlessRead read := by
  by_cases hne : read.2 = []
  · exact Or.inl hne
  · obtain ⟨header, hheader⟩ := readHeader_recvBuffer read.1 read.2
    refine Or.inr ⟨header, hheader, ?_⟩
    by_contra htype
    obtain ⟨cursors, heq⟩ := @readStep_eq env fd s read header hne hheader
    rw [heq, hplayer] at h
    obtain ⟨rs, hrs, hfinish⟩ := bind_eq_ok.mp h
    obtain ⟨first, hfirst, hrest⟩ := (run_cons_eq_ok _).mp hrs
    -- the first message registers a player, and no message removes one
    have hgrown := handleMessage_no_player env htype hfirst
    have hlater : s.players.length < rs.server.players.length :=
      invariant_run _ (fun _ _ _ hI hstep => lt_of_lt_of_le hI (handleMessage_length env hstep))
        hgrown hrest
    have hlen := (sameSeats_of_unshadowed (hkept.symm.trans (finishRead_unshadowed env hfinish))).length
    omega

end Reads

/-- Chunks that start with LIST or with a message of unknown type are harmless,
whoever sends them. From a client whose socket no player has, no others are: every
other message makes read_from_client follow a null pointer, and REGISTER registers. -/
theorem unregistered_harmless_iff (env : ServerEnv) (events : List ServerEvent) (s : Server)
    (hrun : run (serverStep env) serverInit events = .ok s) (fd : ℕ) (reads : List (Fresh × Bytes)) :
    ((∀ read ∈ reads, HarmlessRead read) → LeavesAlone env fd s reads) ∧
      (getPlayerFromFd fd s = none →
        (LeavesAlone env fd s reads ↔ ∀ read ∈ reads, HarmlessRead read)) := by
  have hs := server_invariant env hrun
  -- what stays while all reads are harmless: everything but the shadow blocks
  let I : Server → Prop := fun u => u.unshadowed = s.unshadowed
  have hharmless (u : Server) (read : Fresh × Bytes) (hu : I u) (h : HarmlessRead read) :
      ∃ t, readStep env fd u read = .ok t ∧ I t := by
    obtain ⟨t, ht, hkept⟩ := @readStep_harmless env fd u read (serverInv_of_unshadowed hu hs) h
    exact ⟨t, ht, hkept.trans hu⟩
  have hstep (u : Server) (read : Fresh × Bytes) (v : Server) (hu : I u) (h : HarmlessRead read)
      (hv : readStep env fd u read = .ok v) : I v := by
    obtain ⟨w, hw, hkept⟩ := hharmless u read hu h
    rw [hv, Except.ok.injEq] at hw
    exact hw ▸ hkept
  have hkeeps (h : ∀ read ∈ reads, HarmlessRead read) : LeavesAlone env fd s reads := by
    obtain ⟨t, ht, -⟩ := @run_returns _ _ _ (readStep env fd) I reads
      (fun u read hmem hu => hharmless u read hu (h read hmem)) s rfl
    have halong := (along_iff_forall (readStep env fd) ht).mpr h
    exact ⟨⟨t, ht⟩, fun u hu => invariant_along (readStep env fd) hstep (rfl : I s) halong hu⟩
  refine ⟨hkeeps, fun hplayer => ⟨?_, hkeeps⟩⟩
  rintro ⟨⟨t, ht⟩, hall⟩
  have hiff (u : Server) (read : Fresh × Bytes) (v : Server) (hu : I u)
      (hv : readStep env fd u read = .ok v) : I v ↔ HarmlessRead read := by
    refine ⟨fun hkept => ?_, fun h => hstep u read v hu h hv⟩
    have hnone : getPlayerFromFd fd u = none := by
      rw [← getPlayerFromFd_unshadowed, hu, getPlayerFromFd_unshadowed, hplayer]
    exact readStep_no_player env hnone hv (hkept.trans hu.symm)
  exact (along_iff_forall (readStep env fd) ht).mp
    ((visits_iff_along (readStep env fd) hiff (rfl : I s) ht).mp hall)

/-- A client asks twice for the list of players before anybody registers. -/
theorem unregistered_list_harmless :
    LeavesAlone heroEnv 4 serverInit
      [(fun _ => 0, (bareMessage msgTypeList 1).encode),
        (fun _ => 0, (bareMessage msgTypeList 2).encode)] := by
  apply (unregistered_harmless_iff heroEnv [] serverInit rfl 4 _).1
  intro read hread
  have hlist (id : ℕ) (hid : id < 2 ^ 16) :
      HarmlessRead (fun _ => 0, (bareMessage msgTypeList id).encode) := by
    have hone : encodeAll [bareMessage msgTypeList id] = (bareMessage msgTypeList id).encode :=
      List.append_nil _
    rw [← hone]
    apply (harmlessRead_messages (bareMessage_wellFormed hid (by decide)).fits _ []).mpr
    exact Or.inl rfl
  rcases List.mem_pair.mp hread with rfl | rfl
  · exact hlist 1 (by decide)
  · exact hlist 2 (by decide)

/-- A client that asks to start the game before it registers takes the server down. -/
theorem start_game_unregistered_faults :
    ClientMessage (bareMessage msgTypeStartGame 1) ∧
      (bareMessage msgTypeStartGame 1).messageType ≠ msgTypeRegister ∧
      readFromClient heroEnv 4 (fun _ => 0) (bareMessage msgTypeStartGame 1).encode serverInit =
        .error .nullDereference := by
  refine ⟨bareMessage_wellFormed (by decide) (by decide), by decide, ?_⟩
  rw [readFromClient_single heroEnv (bareMessage_wellFormed (by decide) (by decide))]
  rfl

end TetrisMint
