import TetrisMint.IdleCalls
import TetrisMint.MergedChunk

/-! What read_from_client reads of its buffer, and what it makes of a message that the
received bytes do not hold whole. -/
namespace TetrisMint

open CStrings FallibleRun

section Reads

/-- A word ends: after fifteen characters, or at white space or a NUL. -/
def WordEnds (body : Bytes) : Prop :=
  15 ≤ (body.dropWhile isSpace).length ∨ ∃ b ∈ body.dropWhile isSpace, b = 0 ∨ isSpace b = true

/-- Where the string after `i` others starts, when the first one starts at `start`. -/
def stringStart (bound : ℕ) (bytes : Bytes) : ℕ → ℕ → ℕ
  | start, 0 => start
  | start, i + 1 => stringStart bound bytes (start + (strnlen (bytes.drop start) bound).getD 0 + 1) i

/-- The array has its header, and as many strings as it counts, each with a NUL behind its start. -/
def StringsFit (body : Bytes) : Prop :=
  ∃ maxStringLength count, intField body 0 = some maxStringLength ∧ intField body 4 = some count ∧
    ∀ i < count.toNat, 0 ∈ body.drop (stringStart (sizeOfInt maxStringLength) body wireHeaderSize i)

theorem deserializeStrings_returns_iff (heap : ℕ → Fresh) {maxStringLength : ℤ} {bytes : Bytes}
    (hsize : bytes.length ≤ intMax) {count index start : ℕ} {arr : StringArray}
    (hcount : index + count ≤ arr.strings.length) :
    (∃ arr', deserializeStrings heap maxStringLength bytes count index start arr = .ok arr') ↔
      ∀ i < count, 0 ∈ bytes.drop (stringStart (sizeOfInt maxStringLength) bytes start i) := by
  induction count generalizing index start arr with
  | zero => simp [deserializeStrings]
  | succ count ih =>
    -- the first string is read exactly when a NUL stands behind its start
    by_cases hnul : 0 ∈ bytes.drop start
    · obtain ⟨len, hlen⟩ := strnlen_of_mem hnul (sizeOfInt maxStringLength)
      obtain ⟨s, rest, hsplit, hs⟩ := List.eq_append_cons_of_mem hnul
      have hshort : s.length < intMax := by
        have hall := congrArg List.length hsplit
        rw [List.length_drop, List.length_append, List.length_cons] at hall
        omega
      have hindex : index < arr.strings.length := by omega
      let arr₁ : StringArray :=
        { arr with
          strings := arr.strings.set index (some (s ++ [heap index s.length]))
          sized := List.length_set.trans arr.sized }
      have hset : stringArraySetItem (heap index) arr index (bytes.drop start) = .ok arr₁ :=
        stringArraySetItem_eq_ok.mpr ⟨s, rest, hsplit, hs, hshort, hindex, rfl, rfl, rfl⟩
      have hcount₁ : index + 1 + count ≤ arr₁.strings.length := by
        rw [List.length_set]
        omega
      have hnext : stringStart (sizeOfInt maxStringLength) bytes start 1 = start + len + 1 := by
        rw [stringStart, stringStart, hlen, Option.getD_some]
      have hlater := @ih (index + 1) (start + len + 1) arr₁ hcount₁
      have hturn : deserializeStrings heap maxStringLength bytes (count + 1) index start arr =
          deserializeStrings heap maxStringLength bytes count (index + 1) (start + len + 1) arr₁ := by
        rw [deserializeStrings, hlen, access_some, ok_bind, hset, ok_bind]
      rw [hturn, hlater]
      constructor
      · intro h i hi
        cases i with
        | zero => exact hnul
        | succ i =>
          rw [stringStart, hlen, Option.getD_some]
          exact h i (by omega)
      · intro h i hi
        have hi' := h (i + 1) (by omega)
        rwa [stringStart, hlen, Option.getD_some] at hi'
    · constructor
      · rintro ⟨arr', h⟩
        obtain ⟨len, arr₁, -, hset, -⟩ := deserializeStrings_succ_eq_ok.mp h
        obtain ⟨s, rest, hsplit, -⟩ := stringArraySetItem_eq_ok.mp hset
        exact absurd (hsplit ▸ List.mem_append_right s (List.mem_cons_self ..)) hnul
      · intro h
        exact absurd (h 0 (Nat.succ_pos count)) hnul

/-- The decoder stays within the bytes exactly when the strings fit them. -/
theorem stringArrayDeserialize_returns_iff (heap : ℕ → Fresh) {body : Bytes}
    (hsize : body.length ≤ intMax) (length : ℕ) :
    (∃ names, stringArrayDeserialize heap ⟨length, body⟩ = .ok names) ↔ StringsFit body := by
  have hstart (maxStringLength count : ℤ) :
      0 + count.toNat ≤ (stringArrayCreate count maxStringLength).strings.length := by
    rw [stringArrayCreate, List.length_replicate, Nat.zero_add]
  simp only [stringArrayDeserialize, bind_eq_ok, access_eq_ok]
  constructor
  · rintro ⟨names, maxStringLength, hmax, count, hcount, h⟩
    exact ⟨maxStringLength, count, hmax, hcount,
      (deserializeStrings_returns_iff heap hsize (hstart maxStringLength count)).mp ⟨names, h⟩⟩
  · rintro ⟨maxStringLength, count, hmax, hcount, hfit⟩
    obtain ⟨names, h⟩ :=
      (deserializeStrings_returns_iff heap hsize (hstart maxStringLength count)).mpr hfit
    exact ⟨names, maxStringLength, hmax, count, hcount, h⟩

/-- What each case needs of the bytes from the cursor on. -/
theorem bodyRead_returns_iff (heap : ℕ → Fresh) (header : MessageHeader) {body : Bytes}
    (hsize : body.length ≤ intMax) : (∃ u, bodyRead heap header body = .ok u) ↔
      (header.messageType = msgTypeRegister → WordEnds body) ∧
      (header.messageType = msgTypeOpponent → StringsFit body) ∧
      (header.messageType = msgTypeRotate ∨ header.messageType = msgTypeTranslate → body ≠ []) := by
  have hread {α : Type} {x : Except Fault α} :
      (∃ u : Unit, (do let _ ← x; .ok ()) = Except.ok u) ↔ ∃ a, x = .ok a := by
    cases x with
    | error e => simp [bind, Except.bind]
    | ok a => simp [bind, Except.bind]
  rw [bodyRead]
  by_cases hregister : header.messageType = msgTypeRegister
  · have hother : msgTypeRegister ≠ msgTypeOpponent ∧
        ¬(msgTypeRegister = msgTypeRotate ∨ msgTypeRegister = msgTypeTranslate) := by decide
    rw [if_pos hregister, hread, hregister]
    simp only [access_eq_ok]
    rw [show (∃ word, sscanfWord 15 body = some word) ↔ WordEnds body from scanWord_returns_iff 15 _]
    constructor
    · exact fun h => ⟨fun _ => h, fun h' => absurd h' hother.1, fun h' => absurd h' hother.2⟩
    · exact fun h => h.1 trivial
  · rw [if_neg hregister]
    by_cases hopponent : header.messageType = msgTypeOpponent
    · -- an OPPONENT message is decoded as a whole
      have hother : ¬(msgTypeOpponent = msgTypeRotate ∨ msgTypeOpponent = msgTypeTranslate) := by decide
      rw [if_pos hopponent, hread, stringArrayDeserialize_returns_iff heap hsize]
      constructor
      · intro h
        exact ⟨fun h' => absurd h' hregister, fun _ => h, fun h' => absurd (hopponent ▸ h') hother⟩
      · exact fun h => h.2.1 hopponent
    · rw [if_neg hopponent, hread, engineOp_returns_iff]
      constructor
      · exact fun h => ⟨fun h' => absurd h' hregister, fun h' => absurd h' hopponent, h⟩
      · exact fun h => h.2.2

end Reads

section Messages

variable (env : ServerEnv)

/-- The player's game and the clocks have nothing to do for the message: a party that starts is
empty, and the engine's tests on the game refuse the call. -/
def Idle (messageType : UInt8) (body : Bytes) (rs : ReadState) : Prop :=
  ∀ i p, rs.player = some i → rs.server.players[i]? = some p →
    (messageType = msgTypeStartGame →
      ∀ party, p.party = some party → ttetrisPartyGetPlayers party rs.server = []) ∧
    ∀ op, engineOp messageType body = .ok (some op) → EngineIdle p.contents op

/-- The message whose body starts at `cursor` declares more than the received bytes hold. -/
def Misfit (header : MessageHeader) (chunk : Bytes) (cursor : ℕ) : Prop :=
  chunk.length < cursor + header.contentLength ∨
    header.messageType = msgTypeOpponent ∧ ¬StringsFit (chunk.drop cursor)

/-- One turn of the loop, for the body that starts at `cursor`. -/
def bodyStep (fd : ℤ) (header : MessageHeader) (buffer : Bytes) (rs : ReadState) (cursor : ℕ) :
    Except Fault ReadState := handleMessage env fd header rs (buffer.drop cursor)

/-- The header and the body are read from the received bytes alone, and a message that does not
fit them does nothing. -/
def MessageConfined (fd : ℤ) (header : MessageHeader) (stale : Fresh) (chunk : Bytes) (rs : ReadState)
    (cursor : ℕ) : Prop :=
  readHeader chunk 0 = some header ∧
    (∃ u, bodyRead (env.heap rs.server.parties.length) header (chunk.drop cursor) = .ok u) ∧
    (Misfit header chunk cursor → bodyStep env fd header (recvBuffer stale chunk) rs cursor = .ok rs)

/-- A name that ends and an array that fits, a direction that was received, and whole bodies
but for idle messages. -/
def MessageHeld (header : MessageHeader) (chunk : Bytes) (rs : ReadState) (cursor : ℕ) : Prop :=
  (header.messageType = msgTypeRegister → WordEnds (chunk.drop cursor)) ∧
    (header.messageType = msgTypeOpponent → StringsFit (chunk.drop cursor)) ∧
    (header.messageType = msgTypeRotate ∨ header.messageType = msgTypeTranslate →
      cursor < chunk.length) ∧
    (cursor + header.contentLength ≤ chunk.length ∨ header.messageType ≠ msgTypeRegister ∧
      header.messageType ≠ msgTypeOpponent ∧ Idle header.messageType (chunk.drop cursor) rs)

variable {env} {header : MessageHeader} {rs : ReadState}

/-- REGISTER and OPPONENT always do something. -/
theorem handleMessage_acts {fd : ℤ} {body : Bytes} (htype : header.messageType = msgTypeRegister ∨
    header.messageType = msgTypeOpponent) : handleMessage env fd header rs body ≠ .ok rs := by
  intro h
  rcases handleMessage_cases env h with ⟨-, hregister⟩ | ⟨hregister, -, -, hswitch⟩
  · -- a player more
    obtain ⟨word, name, -, -, hrs⟩ := (registerPlayer_eq_ok env).mp hregister
    have hlen := congrArg (fun rs : ReadState => rs.server.players.length) hrs
    simp only [playerCreate, List.length_append, List.length_singleton] at hlen
    omega
  · have hopponent := htype.resolve_left hregister
    rcases serverSwitch_cases env hswitch with ⟨hstart, -⟩ | ⟨-, hinvite⟩ | ⟨-, hno, -⟩
    · exact absurd (hopponent.symm.trans hstart) (by decide)
    · -- a party more
      obtain ⟨names, i, l, -, -, -, hserver⟩ := inviteOpponents_eq_ok.mp hinvite
      have hlen := congrArg (fun s : Server => s.parties.length) hserver
      simp only [formParty_parties, List.length_append, List.length_singleton] at hlen
      omega
    · exact hno hopponent

/-- A party that starts leaves the clocks alone only when it has no members. -/
theorem startGame_idle_iff {i : ℕ} {p : Player} {s : Server} (hp : s.players[i]? = some p) :
    startGame (some i) s = .ok s ↔
      ∀ party, p.party = some party → ttetrisPartyGetPlayers party s = [] := by
  rw [startGame_eq_ok]
  -- each member gets a clock, so only a party without members adds none
  have hclocks (l : List ℕ) : s = { s with clocks := s.clocks ++ l } ↔ l = [] := by
    constructor
    · intro h
      have hlen := congrArg (fun s : Server => s.clocks.length) h
      simp only [List.length_append] at hlen
      exact List.eq_nil_of_length_eq_zero (by omega)
    · rintro rfl
      rw [List.append_nil]
  constructor
  · rintro ⟨i', p', hi, hp', h⟩ party hparty
    rw [← Option.some.inj hi, hp, Option.some_inj] at hp'
    rw [← hp', hparty, Option.elim_some] at h
    exact (hclocks _).mp h
  · intro hidle
    refine ⟨i, p, rfl, hp, (hclocks _).mpr ?_⟩
    cases hparty : p.party with
    | none => rfl
    | some party => exact hidle party hparty

/-- An engine call leaves the server as it is when it leaves the game as it is. -/
theorem callEngine_idle_iff {op : Op} {i : ℕ} {p : Player} {s : Server}
    (hp : s.players[i]? = some p) (hi : EngineInv p.contents) :
    callEngine env op i s = .ok s ↔ EngineIdle p.contents op := by
  rw [← engineStep_idle_iff env.randR hi]
  have hlt := (List.getElem?_eq_some_iff.mp hp).1
  rw [callEngine_eq_ok]
  constructor
  · rintro ⟨p', contents, hp', hstep, h⟩
    rw [hp, Option.some_inj] at hp'
    subst hp'
    have hget := congrArg (fun s : Server => s.players[i]?) h
    simp only [List.getElem?_set_self hlt] at hget
    rw [hp, Option.some_inj] at hget
    rw [hstep, hget]
  · intro hstep
    refine ⟨p, p.contents, hp, hstep, ?_⟩
    have hset : s.players.set i p = s.players := by
      rw [← (List.getElem?_eq_some_iff.mp hp).2]
      exact List.set_getElem_self hlt
    rw [hset]

theorem idle_iff {messageType : UInt8} {body : Bytes} {i : ℕ} {p : Player}
    (hplayer : rs.player = some i) (hp : rs.server.players[i]? = some p) :
    Idle messageType body rs ↔
      (messageType = msgTypeStartGame →
        ∀ party, p.party = some party → ttetrisPartyGetPlayers party rs.server = []) ∧
      ∀ op, engineOp messageType body = .ok (some op) → EngineIdle p.contents op := by
  constructor
  · exact fun h => h i p hplayer hp
  · intro h i' p' hi' hp'
    rw [hplayer, Option.some_inj] at hi'
    rw [← hi', hp, Option.some_inj] at hp'
    exact hp' ▸ h

/-- But for REGISTER the local variables stay. -/
theorem handleMessage_same_iff {fd : ℤ} {body : Bytes} (hregister : header.messageType ≠ msgTypeRegister) :
    handleMessage env fd header rs body = .ok rs ↔
      serverSwitch env header body rs.player rs.server = .ok rs.server := by
  rw [handleMessage, if_neg hregister]
  cases serverSwitch env header body rs.player rs.server with
  | error e => simp [bind, Except.bind]
  | ok server =>
    rw [ok_bind, Except.ok.injEq, Except.ok.injEq]
    constructor
    · exact fun h => congrArg ReadState.server h
    · intro h
      rw [h]

/-- The messages but REGISTER and OPPONENT leave everything as it is exactly when they are idle. -/
theorem handleMessage_idle_iff {fd : ℤ} {body : Bytes} {i : ℕ} {p : Player}
    (hplayer : rs.player = some i) (hp : rs.server.players[i]? = some p)
    (hi : EngineInv p.contents) (hregister : header.messageType ≠ msgTypeRegister)
    (hopponent : header.messageType ≠ msgTypeOpponent)
    (hbody : header.messageType = msgTypeRotate ∨ header.messageType = msgTypeTranslate → body ≠ []) :
    handleMessage env fd header rs body = .ok rs ↔ Idle header.messageType body rs := by
  rw [handleMessage_same_iff hregister, idle_iff hplayer hp, hplayer, serverSwitch]
  by_cases hstart : header.messageType = msgTypeStartGame
  · -- the engine has no call for a start
    have hnone : engineOp msgTypeStartGame body = .ok none := rfl
    rw [if_pos hstart, startGame_idle_iff hp, hstart, hnone]
    constructor
    · exact fun h => ⟨fun _ => h, fun op hop => absurd (Except.ok.inj hop) (by simp)⟩
    · exact fun h => h.1 rfl
  · rw [if_neg hstart, if_neg hopponent]
    obtain ⟨op, hop⟩ := (engineOp_returns_iff header.messageType body).mpr hbody
    rw [hop, ok_bind]
    cases op with
    | none =>
      -- nor has it one for the list, or for a type that the server does not know
      constructor
      · exact fun _ => ⟨fun h => absurd h hstart, fun op h => absurd (Except.ok.inj h) (by simp)⟩
      · exact fun _ => rfl
    | some op =>
      dsimp only
      rw [deref_some, ok_bind, callEngine_idle_iff hp hi]
      constructor
      · intro h
        refine ⟨fun h' => absurd h' hstart, ?_⟩
        intro op' hop'
        rw [← Option.some.inj (Except.ok.inj hop')]
        exact h
      · exact fun h => h.2 op rfl

theorem idle_congr {messageType : UInt8} {body body' : Bytes}
    (h : engineOp messageType body = engineOp messageType body') :
    Idle messageType body rs ↔ Idle messageType body' rs := by
  rw [Idle, Idle, h]

theorem drop_ne_nil_iff {chunk : Bytes} {cursor : ℕ} :
    chunk.drop cursor ≠ [] ↔ cursor < chunk.length := by
  rw [ne_eq, List.drop_eq_nil_iff, not_le]

/-- The buffer from a cursor on starts with what was received from there on. -/
theorem drop_recvBuffer (stale : Fresh) (chunk : Bytes) (cursor : ℕ) :
    ∃ rest, (recvBuffer stale chunk).drop cursor = chunk.drop cursor ++ rest :=
  ⟨_, List.drop_append⟩

theorem messageConfined_iff {fd : ℤ} {stale : Fresh} {chunk : Bytes} {cursor i : ℕ} (hinv : ReadInv rs)
    (hplayer : rs.player = some i) (hsize : chunk.length ≤ intMax) :
    MessageConfined env fd header stale chunk rs cursor ↔
      readHeader chunk 0 = some header ∧ MessageHeld header chunk rs cursor := by
  have hlt := hinv.player i hplayer
  have hp := List.getElem?_eq_getElem hlt
  have hi := hinv.server.games _ (List.getElem_mem hlt)
  have hbody : (chunk.drop cursor).length ≤ intMax := by
    rw [List.length_drop]
    omega
  rw [MessageConfined, MessageHeld, bodyRead_returns_iff _ header hbody, drop_ne_nil_iff]
  obtain ⟨rest, hrest⟩ := drop_recvBuffer stale chunk cursor
  -- a direction that was received is the one that the engine is called with
  have hengine (hdir : header.messageType = msgTypeRotate ∨ header.messageType = msgTypeTranslate →
      cursor < chunk.length) : Idle header.messageType ((recvBuffer stale chunk).drop cursor) rs ↔
        Idle header.messageType (chunk.drop cursor) rs := by
    apply idle_congr
    rw [hrest]
    exact engineOp_append rest fun htype => drop_ne_nil_iff.mpr (hdir htype)
  have hbuffer (hdir : header.messageType = msgTypeRotate ∨ header.messageType = msgTypeTranslate →
      cursor < chunk.length) : header.messageType = msgTypeRotate ∨
        header.messageType = msgTypeTranslate → (recvBuffer stale chunk).drop cursor ≠ [] := by
    intro htype
    exact drop_ne_nil_iff.mpr (lt_of_lt_of_le (hdir htype) (length_recvBuffer stale chunk))
  constructor
  · -- what is read is held, and a body that is not whole leaves the idle messages
    rintro ⟨hheader, ⟨hword, hfit, hdir⟩, hstill⟩
    refine ⟨hheader, hword, hfit, hdir, ?_⟩
    by_cases hwhole : cursor + header.contentLength ≤ chunk.length
    · exact Or.inl hwhole
    · have hsame := hstill (Or.inl (not_le.mp hwhole))
      have hregister : header.messageType ≠ msgTypeRegister :=
        fun htype => handleMessage_acts (Or.inl htype) hsame
      have hopponent : header.messageType ≠ msgTypeOpponent :=
        fun htype => handleMessage_acts (Or.inr htype) hsame
      refine Or.inr ⟨hregister, hopponent, (hengine hdir).mp ?_⟩
      exact (handleMessage_idle_iff hplayer hp hi hregister hopponent (hbuffer hdir)).mp hsame
  · rintro ⟨hheader, hword, hfit, hdir, hwhole⟩
    refine ⟨hheader, ⟨hword, hfit, hdir⟩, ?_⟩
    rintro (hlong | ⟨htype, hmisfit⟩)
    · obtain ⟨hregister, hopponent, hidle⟩ := hwhole.resolve_left (not_le.mpr hlong)
      apply (handleMessage_idle_iff hplayer hp hi hregister hopponent (hbuffer hdir)).mpr
      exact (hengine hdir).mpr hidle
    · exact absurd (hfit htype) hmisfit

/-- A message that is held is handled alike with any bytes behind the received ones. -/
theorem bodyStep_held {fd : ℤ} {stale : Fresh} {chunk : Bytes} {cursor : ℕ}
    (hsize : chunk.length ≤ intMax) (h : MessageHeld header chunk rs cursor) :
    bodyStep env fd header (recvBuffer stale chunk) rs cursor =
      bodyStep env fd header chunk rs cursor := by
  have hbody : (chunk.drop cursor).length ≤ intMax := by
    rw [List.length_drop]
    omega
  obtain ⟨hword, hfit, hdir, -⟩ := h
  obtain ⟨u, hread⟩ := (bodyRead_returns_iff (env.heap rs.server.parties.length) header hbody).mpr
    ⟨hword, hfit, fun htype => drop_ne_nil_iff.mpr (hdir htype)⟩
  obtain ⟨rest, hrest⟩ := drop_recvBuffer stale chunk cursor
  rw [bodyStep, bodyStep, hrest]
  exact handleMessage_append_of_read env hread fd rest

theorem handleMessage_keeps_player {fd : ℤ} {body : Bytes} {rs' : ReadState}
    (hplayer : ∃ i, rs.player = some i) (h : handleMessage env fd header rs body = .ok rs') :
    ∃ i, rs'.player = some i := by
  rcases handleMessage_cases env h with ⟨-, hregister⟩ | ⟨-, hsame, -⟩
  · obtain ⟨word, name, -, -, rfl⟩ := (registerPlayer_eq_ok env).mp hregister
    exact ⟨_, rfl⟩
  · rw [hsame]
    exact hplayer

end Messages

section Chunks

variable (env : ServerEnv) (fd : ℕ) {s : Server} {stale : Fresh} {chunk : Bytes}

/-- The bodies that the loop finds in the chunk. -/
def chunkCursors (header : MessageHeader) (chunk : Bytes) : List ℕ :=
  (bodyCursors header.contentLength chunk.length (chunk.length + 1) 0).1

/-- The call for which recv returns the chunk reads no byte behind it, and leaves the server alone
at each message that does not fit. -/
def ChunkConfined (stale : Fresh) (chunk : Bytes) (s : Server) : Prop :=
  ∀ header, readHeader (recvBuffer stale chunk) 0 = some header →
    Along (bodyStep env fd header (recvBuffer stale chunk)) (MessageConfined env fd header stale chunk)
      ⟨s, getPlayerFromFd fd s, none⟩ (chunkCursors header chunk)

/-- The chunk has a whole header, and holds every message that the loop comes to. -/
def ChunkHeld (chunk : Bytes) (s : Server) : Prop :=
  ∃ header, readHeader chunk 0 = some header ∧
    Along (bodyStep env fd header chunk) (MessageHeld header chunk)
      ⟨s, getPlayerFromFd fd s, none⟩ (chunkCursors header chunk)

theorem chunkCursors_cons {header : MessageHeader} (hne : chunk ≠ []) :
    ∃ cursors, chunkCursors header chunk = messageHeaderSize :: cursors := by
  rw [chunkCursors, bodyCursors, if_pos (List.length_pos_of_ne_nil hne), Nat.zero_add]
  exact ⟨_, rfl⟩

/-- The call is the run over these bodies, and then the boards go out. -/
theorem readFromClient_bodies {header : MessageHeader} (hne : chunk ≠ [])
    (hheader : readHeader (recvBuffer stale chunk) 0 = some header) :
    readFromClient env fd stale chunk s = (do
      let rs ← run (bodyStep env fd header (recvBuffer stale chunk)) ⟨s, getPlayerFromFd fd s, none⟩
        (chunkCursors header chunk)
      finishRead env rs) :=
  readFromClient_eq_run env fd hne hheader s

/-- Over held messages the bytes behind the chunk make no difference. -/
theorem run_held {header : MessageHeader} (hsize : chunk.length ≤ intMax) {rs : ReadState}
    {cursors : List ℕ}
    (h : Along (bodyStep env fd header chunk) (MessageHeld header chunk) rs cursors)
    (stale : Fresh) :
    Along (bodyStep env fd header (recvBuffer stale chunk)) (MessageHeld header chunk) rs cursors ∧
      run (bodyStep env fd header (recvBuffer stale chunk)) rs cursors =
        run (bodyStep env fd header chunk) rs cursors :=
  along_congr _ (fun _ _ hheld => bodyStep_held hsize hheld) h

/-- What a held chunk does is read from its own bytes. -/
theorem readFromClient_held (hne : chunk ≠ []) (hsize : chunk.length ≤ intMax)
    (h : ChunkHeld env fd chunk s) (stale stale' : Fresh) :
    readFromClient env fd stale chunk s = readFromClient env fd stale' chunk s := by
  obtain ⟨header, hheader, halong⟩ := h
  have hrun (behind : Fresh) : readFromClient env fd behind chunk s = (do
      let rs ← run (bodyStep env fd header chunk) ⟨s, getPlayerFromFd fd s, none⟩
        (chunkCursors header chunk)
      finishRead env rs) := by
    rw [readFromClient_bodies env fd hne (readHeader_append hheader _),
      (run_held env fd hsize halong behind).2]
  rw [hrun, hrun]

/-- A registered client has a player before each message, so the loop is confined exactly when
its messages are held. -/
theorem loop_confined_iff {header : MessageHeader} (hsize : chunk.length ≤ intMax) {rs : ReadState}
    {cursors : List ℕ} (hinv : ReadInv rs) (hplayer : ∃ i, rs.player = some i) :
    Along (bodyStep env fd header (recvBuffer stale chunk)) (MessageConfined env fd header stale chunk)
        rs cursors ↔
      Along (bodyStep env fd header (recvBuffer stale chunk))
        (fun rs cursor => readHeader chunk 0 = some header ∧ MessageHeld header chunk rs cursor)
        rs cursors := by
  let I : ReadState → Prop := fun rs => ReadInv rs ∧ ∃ i, rs.player = some i
  have hkeep (rs : ReadState) (cursor : ℕ) (rs' : ReadState) (hI : I rs)
      (h : bodyStep env fd header (recvBuffer stale chunk) rs cursor = .ok rs') : I rs' :=
    ⟨handleMessage_inv env hI.1 h, handleMessage_keeps_player hI.2 h⟩
  have hiff (rs : ReadState) (cursor : ℕ) (hI : I rs) :
      MessageConfined env fd header stale chunk rs cursor ↔
        readHeader chunk 0 = some header ∧ MessageHeld header chunk rs cursor := by
    obtain ⟨i, hi⟩ := hI.2
    exact messageConfined_iff hI.1 hi hsize
  constructor
  · apply along_mono _ (fun rs cursor rs' hI _ h => hkeep rs cursor rs' hI h)
    · exact fun rs cursor hI => (hiff rs cursor hI).mp
    · exact ⟨hinv, hplayer⟩
  · apply along_mono _ (fun rs cursor rs' hI _ h => hkeep rs cursor rs' hI h)
    · exact fun rs cursor hI => (hiff rs cursor hI).mpr
    · exact ⟨hinv, hplayer⟩

/-- For a registered client read_from_client keeps to the received bytes, and drops what does not
fit them, exactly when the chunk holds its messages. -/
theorem chunk_confined_iff {events : List ServerEvent}
    (hrun : run (serverStep env) serverInit events = .ok s) {i : ℕ}
    (hplayer : getPlayerFromFd fd s = some i) (stale : Fresh) (hne : chunk ≠ [])
    (hsize : chunk.length ≤ maxMsg) :
    ChunkConfined env fd stale chunk s ↔ ChunkHeld env fd chunk s := by
  have hinv : ReadInv ⟨s, getPlayerFromFd fd s, none⟩ := readInv_start (server_invariant env hrun) fd
  have hint : chunk.length ≤ intMax := le_trans hsize (by decide)
  have hiff (header : MessageHeader) := @loop_confined_iff env fd stale chunk header hint _
    (chunkCursors header chunk) hinv ⟨i, hplayer⟩
  constructor
  · intro h
    obtain ⟨header, hbuffer⟩ := readHeader_recvBuffer stale chunk
    have halong := (hiff header).mp (h header hbuffer)
    -- the loop is entered, so the header was received
    have hheader : readHeader chunk 0 = some header := by
      obtain ⟨cursors, hcursors⟩ := @chunkCursors_cons chunk header hne
      rw [hcursors] at halong
      exact halong.1.1
    have hheld : Along (bodyStep env fd header (recvBuffer stale chunk)) (MessageHeld header chunk)
        ⟨s, getPlayerFromFd fd s, none⟩ (chunkCursors header chunk) :=
      along_imp _ (fun _ _ hboth => hboth.2) halong
    exact ⟨header, hheader,
      (along_congr _ (fun _ _ hheld => (bodyStep_held hint hheld).symm) hheld).1⟩
  · rintro ⟨header, hheader, halong⟩ header' hbuffer
    have hsame : header = header' := by
      rw [recvBuffer, readHeader_append hheader, Option.some_inj] at hbuffer
      exact hbuffer
    rw [← hsame, hiff]
    apply along_imp _ (fun _ _ hheld => ⟨hheader, hheld⟩)
    exact (run_held env fd hint halong stale).1

end Chunks

/-- An invitation that arrives whole. -/
theorem chunk_confined_invitation : ∃ s,
    run (serverStep heroEnv) serverInit (registerBoth.map Delivery.event) = .ok s ∧
      ChunkConfined heroEnv 4 (fun _ => 0) (opponentMessage 3 15 [[66]] []).encode s := by
  obtain ⟨s, hs, hplayer⟩ : ∃ s, run (serverStep heroEnv) serverInit
      (registerBoth.map Delivery.event) = .ok s ∧ getPlayerFromFd 4 s = some 0 := by
    apply exists_ok_of_map (getPlayerFromFd 4)
    decide +kernel
  have hne : (opponentMessage 3 15 [[66]] []).encode ≠ [] := by decide
  refine ⟨s, hs, (chunk_confined_iff heroEnv 4 hs hplayer (fun _ => 0) hne (by decide)).mpr ?_⟩
  refine ⟨⟨msgMagicNumber, 3, 10, msgTypeOpponent⟩, rfl, ⟨?_, ?_, ?_, ?_⟩, fun _ _ => trivial⟩
  · exact fun htype => absurd htype (by decide)
  · refine fun _ => ⟨15, 1, rfl, rfl, ?_⟩
    intro i hi
    obtain rfl : i = 0 := Nat.lt_one_iff.mp hi
    decide
  · exact fun htype => absurd htype (by decide)
  · exact Or.inl (by decide)

/-- One byte alone is taken for a header, and a LOWER that declares five bytes more than the chunk
has lowers the block. -/
theorem chunk_not_confined : ∃ s,
    run (serverStep heroEnv) serverInit (registerBoth.map Delivery.event) = .ok s ∧
      getPlayerFromFd 4 s = some 0 ∧ ¬ChunkConfined heroEnv 4 (fun _ => 0) [76] s ∧
      ¬ChunkConfined heroEnv 4 (fun _ => 0)
        (headerFields 1 5 msgTypeLower ++ headerPadding) s := by
  let lower := headerFields 1 5 msgTypeLower ++ headerPadding
  let header : MessageHeader := ⟨msgMagicNumber, 1, 5, msgTypeLower⟩
  obtain ⟨s, hs, hfacts⟩ : ∃ s, run (serverStep heroEnv) serverInit
      (registerBoth.map Delivery.event) = .ok s ∧
        (getPlayerFromFd 4 s, decide (bodyStep heroEnv 4 header (recvBuffer (fun _ => 0) lower)
          ⟨s, getPlayerFromFd 4 s, none⟩ 12 = .ok ⟨s, getPlayerFromFd 4 s, none⟩)) =
            (some 0, false) := by
    apply exists_ok_of_map fun s => (getPlayerFromFd 4 s, decide (bodyStep heroEnv 4 header
      (recvBuffer (fun _ => 0) lower) ⟨s, getPlayerFromFd 4 s, none⟩ 12 =
        .ok ⟨s, getPlayerFromFd 4 s, none⟩))
    decide +kernel
  rw [Prod.mk.injEq, decide_eq_false_iff_not] at hfacts
  obtain ⟨hplayer, hlowered⟩ := hfacts
  refine ⟨s, hs, hplayer, ?_, ?_⟩
  · intro h
    obtain ⟨header, hbuffer⟩ := readHeader_recvBuffer (fun _ => 0) [76]
    -- there is no header to read in one byte
    exact absurd (h header hbuffer).1.1 (by simp [readHeader, leField])
  · intro h
    have hfirst := (h header (readHeader_append rfl _)).1
    exact hlowered (hfirst.2.2 (Or.inl (by decide)))

end TetrisMint
