import TetrisMint.Connections
import TetrisMint.PlayerKeys

/-! The registry of players over the life of the server: connections come and go on
descriptors that are reused, players are only ever appended. -/
namespace TetrisMint

open CStrings FallibleRun FirstMatch SlotTable

/-- The whole server: its main loop, its players, and the connection that registered each. -/
structure GameServer where
  loop : MainLoop
  server : Server
  registeredBy : List ℕ

def gameStart (inherited : ℕ) : GameServer := ⟨mainStart inherited, serverInit, []⟩

inductive GameEvent
  /-- The answer to the next system call of the main loop. -/
  | main (reply : Reply)
  /-- The clock at an index of the running ones wakes up. -/
  | tick (clock : ℕ) (fails : ℕ → Bool)

/-- The data that the main loop receives in this step: the descriptor, the
connection, what the buffer held before and the chunk. -/
def MainLoop.dataAt (s : MainLoop) (reply : Reply) : Option (ℕ × ℕ × Fresh × Bytes) :=
  match s.point with
  | .slot i => do
    let c ← s.reading i
    let read ← reply.received
    if s.atEof reply c then none else some (s.clientSocket.getD i 0, c, read)
  | _ => none

/-- The players that a call appends were registered by the connection it reads from. A call and a
turn of a clock are one step each, as in `serverStep`. -/
def gameStep (env : ServerEnv) (g : GameServer) (event : GameEvent) : Except Fault GameServer :=
  match event with
  | .main reply =>
    match g.loop.dataAt reply with
    | none => .ok { g with loop := mainStep g.loop reply }
    | some (fd, c, stale, chunk) => do
      let server ← readFromClient env fd stale chunk g.server
      let appended := server.players.length - g.server.players.length
      .ok ⟨mainStep g.loop reply, server, g.registeredBy ++ List.replicate appended c⟩
  | .tick clock fails =>
    -- the threads end with main
    if g.loop.point = .exited then .ok g
    else do
      let server ← serverStep env g.server (.tick clock fails)
      .ok { g with server := server }

/-- Descriptors and names identify the players that are online. -/
structure RegistryOk (g : GameServer) : Prop where
  fds : ∀ (i j : ℕ) (p q : Player), g.server.players[i]? = some p →
    g.server.players[j]? = some q → p.fd ≠ -1 → q.fd ≠ -1 → p.fd = q.fd → i = j
  names : ∀ (i j : ℕ) (p q : Player), g.server.players[i]? = some p →
    g.server.players[j]? = some q → p.fd ≠ -1 → q.fd ≠ -1 → p.name = q.name → i = j
  /-- A descriptor finds the player that the connection now on it registered. -/
  fromFd : ∀ d c, g.loop.On d (.connection c) → ∀ i, getPlayerFromFd d g.server = some i ↔
    g.registeredBy[i]? = some c ∧ ∃ p : Player, g.server.players[i]? = some p ∧ p.fd ≠ -1
  byName : ∀ (i : ℕ) (p : Player), g.server.players[i]? = some p → p.fd ≠ -1 →
    playerGetByName (p.name ++ [0]) 0 g.server.players = .ok (some i)
  /-- The player of an ended connection is found no more. -/
  gone : ∀ (i : ℕ) (p : Player) (c : ℕ), g.server.players[i]? = some p →
    g.registeredBy[i]? = some c → c ∈ g.loop.ended →
    (∀ fd : ℕ, getPlayerFromFd fd g.server ≠ some i) ∧
      ∀ excludeInGame, p.name ∉ playerNames excludeInGame g.server

/-- A chunk with a REGISTER holds no second message, and no player has the descriptor or the name. -/
def RegistersFresh (s : Server) (fd : ℕ) (stale : Fresh) (chunk : Bytes) : Prop :=
  ∀ header name, readHeader (recvBuffer stale chunk) 0 = some header →
    header.messageType = msgTypeRegister →
    sscanfWord 15 ((recvBuffer stale chunk).drop messageHeaderSize) = some name →
    chunk.length ≤ messageHeaderSize + header.contentLength ∧
      ∀ p ∈ s.players, p.fd ≠ fd ∧ p.name ≠ name

/-- No connection is accepted on a descriptor that a player still has, no REGISTER takes
the descriptor or the name of a player, and the players of a connection are offline
when its end of file is received. -/
structure RegistryReply (g : GameServer) (reply : Reply) : Prop where
  accepted : Accepting g.loop reply → ∀ p ∈ g.server.players,
    p.fd ≠ lowest Option.isNone g.loop.descriptors
  registered : ∀ fd c stale chunk, g.loop.dataAt reply = some (fd, c, stale, chunk) →
    RegistersFresh g.server fd stale chunk
  ended : ∀ i c, EofAt g.loop reply i c → ∀ (j : ℕ) (p : Player),
    g.registeredBy[j]? = some c → g.server.players[j]? = some p → p.fd = -1

def RegistryStep (g : GameServer) : GameEvent → Prop
  | .main reply => RegistryReply g reply
  | .tick _ _ => True

instance (s : Server) (fd : ℕ) (stale : Fresh) (chunk : Bytes) :
    Decidable (RegistersFresh s fd stale chunk) :=
  decidable_of_iff (∀ header ∈ readHeader (recvBuffer stale chunk) 0,
      header.messageType = msgTypeRegister →
      ∀ name ∈ sscanfWord 15 ((recvBuffer stale chunk).drop messageHeaderSize),
        chunk.length ≤ messageHeaderSize + header.contentLength ∧
          ∀ p ∈ s.players, p.fd ≠ fd ∧ p.name ≠ name)
    ⟨fun h header name hheader htype hname => h header hheader htype name hname,
      fun h header hheader htype name hname => h header name hheader htype hname⟩

/-- The connection whose end of file is received in this step. -/
def eofOf (s : MainLoop) (reply : Reply) : Option ℕ :=
  match s.point with
  | .slot i => (s.reading i).filter (s.atEof reply ·)
  | _ => none

theorem eofOf_eq_some {s : MainLoop} {reply : Reply} {c : ℕ} :
    eofOf s reply = some c ↔ ∃ i, EofAt s reply i c := by
  unfold eofOf EofAt
  cases s.point <;> simp [Option.filter_eq_some_iff]

/-- The condition, with its quantifiers over what the step has at hand. -/
theorem registryReply_iff {g : GameServer} {reply : Reply} : RegistryReply g reply ↔
    (g.loop.point = .accept ∧ g.loop.sock ∈ g.loop.activeFdSet ∧ reply.accepts = true →
      ∀ p ∈ g.server.players, p.fd ≠ lowest Option.isNone g.loop.descriptors) ∧
    (∀ data ∈ g.loop.dataAt reply, RegistersFresh g.server data.1 data.2.2.1 data.2.2.2) ∧
    ∀ c ∈ eofOf g.loop reply, ∀ owned ∈ g.registeredBy.zip g.server.players,
      owned.1 = c → owned.2.fd = -1 := by
  constructor
  · intro h
    refine ⟨h.accepted, fun data hdata => h.registered _ _ _ _ hdata, ?_⟩
    rintro c hc ⟨c', p⟩ howned rfl
    obtain ⟨i, heof⟩ := eofOf_eq_some.mp hc
    obtain ⟨j, hj⟩ := List.mem_iff_getElem?.mp howned
    obtain ⟨hby, hp⟩ := List.getElem?_zip_eq_some.mp hj
    exact h.ended i _ heof j p hby hp
  · rintro ⟨haccepted, hregistered, hended⟩
    refine ⟨haccepted, fun fd c stale chunk hdata => hregistered _ hdata, ?_⟩
    intro i c heof j p hby hp
    have howned : (c, p) ∈ g.registeredBy.zip g.server.players :=
      List.mem_iff_getElem?.mpr ⟨j, List.getElem?_zip_eq_some.mpr ⟨hby, hp⟩⟩
    exact hended c (eofOf_eq_some.mpr ⟨i, heof⟩) (c, p) howned rfl

instance (g : GameServer) (reply : Reply) : Decidable (RegistryReply g reply) :=
  decidable_of_iff _ registryReply_iff.symm

instance (g : GameServer) : (event : GameEvent) → Decidable (RegistryStep g event)
  | .main reply => inferInstanceAs (Decidable (RegistryReply g reply))
  | .tick _ _ => isTrue trivial

/-- What the keys satisfy in a run whose steps meet the condition. -/
structure RegistryInv (g : GameServer) : Prop extends Numbered g.loop where
  fds : KeysUnique Prod.fst (fun x => x.1 ≠ -1) g.server.keys
  names : KeysUnique Prod.snd (fun _ => True) g.server.keys
  owners : ∀ d c, g.loop.On d (.connection c) → ∀ (i : ℕ) (x : ℤ × Bytes),
    g.server.keys[i]? = some x → (x.1 = d ↔ g.registeredBy[i]? = some c ∧ x.1 ≠ -1)
  offline : ∀ (i : ℕ) (x : ℤ × Bytes) (c : ℕ), g.server.keys[i]? = some x →
    g.registeredBy[i]? = some c → c ∈ g.loop.ended → x.1 = -1
  length : g.registeredBy.length = g.server.keys.length
  accepted : ∀ c ∈ g.registeredBy, c < g.loop.accepted
  texts : ∀ x ∈ g.server.keys, 0 ∉ x.2

section Registry

variable {g g' : GameServer}

/-- The invariant says what the lookups find. -/
theorem RegistryInv.ok (hi : RegistryInv g) : RegistryOk g := by
  have htexts (p : Player) (hp : p ∈ g.server.players) : 0 ∉ p.name := hi.texts p.key (mem_keys hp)
  constructor
  case fds =>
    intro i j p q hp hq honline _ hfd
    exact hi.fds i j p.key q.key (keys_getElem? hp) (keys_getElem? hq) honline hfd
  case names =>
    intro i j p q hp hq _ _ hname
    exact hi.names i j p.key q.key (keys_getElem? hp) (keys_getElem? hq) trivial hname
  case fromFd =>
    intro d c hon i
    rw [getPlayerFromFd_keys]
    constructor
    · intro h
      obtain ⟨⟨x, hx, hfd⟩, -⟩ := (lookup_eq_some_iff Prod.fst).mp h
      obtain ⟨hby, honline⟩ := (hi.owners d c hon i x hx).mp hfd
      obtain ⟨p, hp, rfl⟩ := List.getElem?_map .. ▸ hx |> Option.map_eq_some_iff.mp
      exact ⟨hby, p, hp, honline⟩
    · rintro ⟨hby, p, hp, honline⟩
      have hfd : p.key.1 = d := (hi.owners d c hon i p.key (keys_getElem? hp)).mpr ⟨hby, honline⟩
      rw [← hfd]
      exact hi.fds.lookup Prod.fst (keys_getElem? hp) honline
  case byName =>
    intro i p hp _
    have hunique : KeysUnique Player.name (fun _ => True) g.server.players :=
      fun i j p q hp hq => hi.names i j p.key q.key (keys_getElem? hp) (keys_getElem? hq)
    have hlookup := hunique.lookup Player.name hp trivial
    rw [playerGetByName_eq (htexts p (List.mem_of_getElem? hp)) htexts, hlookup]
    rfl
  case gone =>
    intro i p c hp hby hended
    have hoffline : p.fd = -1 := hi.offline i p.key c (keys_getElem? hp) hby hended
    constructor
    · intro fd h
      rw [getPlayerFromFd_keys] at h
      obtain ⟨⟨x, hx, hfd⟩, -⟩ := (lookup_eq_some_iff Prod.fst).mp h
      rw [keys_getElem? hp, Option.some_inj] at hx
      rw [← hx] at hfd
      have hneg : (-1 : ℤ) = fd := hoffline.symm.trans hfd
      omega
    · intro excludeInGame hmem
      obtain ⟨q, hq, hlisted, hname⟩ := mem_playerNames.mp hmem
      obtain ⟨j, hj⟩ := List.mem_iff_getElem?.mp hq
      -- a player that is listed under this name would be this one
      have hij : j = i := hi.names j i q.key p.key (keys_getElem? hj) (keys_getElem? hp) trivial
        hname
      rw [hij, hp, Option.some_inj] at hj
      rw [← hj, Player.listed, hoffline] at hlisted
      exact absurd hlisted (by simp)

/-- The steps that register nobody. A connection that is new comes on a descriptor
without players, one that ends has no player online. -/
theorem RegistryInv.resets (hi : RegistryInv g) (hloop : Numbered g'.loop)
    (hkeys : Resets g.server.keys g'.server.keys) (hby : g'.registeredBy = g.registeredBy)
    (haccepted : g.loop.accepted ≤ g'.loop.accepted)
    (hon : ∀ d c, g'.loop.On d (.connection c) → g.loop.On d (.connection c) ∨
      g.loop.accepted ≤ c ∧ ∀ x ∈ g.server.keys, x.1 ≠ d)
    (hended : ∀ c ∈ g'.loop.ended, c ∈ g.loop.ended ∨ ∀ (i : ℕ) (x : ℤ × Bytes),
      g.server.keys[i]? = some x → g.registeredBy[i]? = some c → x.1 = -1) :
    RegistryInv g' := by
  have hold {i : ℕ} {y : ℤ × Bytes} (hy : g'.server.keys[i]? = some y) (honline : y.1 ≠ -1) :
      ∃ x, g.server.keys[i]? = some x ∧ x.1 = y.1 := by
    obtain ⟨x, hx, -, hfd⟩ := hkeys.entry i y hy
    exact ⟨x, hx, (hfd.resolve_right honline).symm⟩
  constructor
  case toNumbered => exact hloop
  case fds =>
    intro i j y z hy hz honline hfd
    have hy₁ : y.1 ≠ -1 := honline
    obtain ⟨x, hx, hxy⟩ := hold hy hy₁
    obtain ⟨w, hw, hwz⟩ := hold hz (hfd ▸ hy₁)
    apply hi.fds i j x w hx hw
    · show x.1 ≠ -1
      rw [hxy]
      exact hy₁
    · calc x.1 = y.1 := hxy
        _ = z.1 := hfd
        _ = w.1 := hwz.symm
  case names =>
    intro i j y z hy hz _ hname
    obtain ⟨x, hx, hxy, -⟩ := hkeys.entry i y hy
    obtain ⟨w, hw, hwz, -⟩ := hkeys.entry j z hz
    exact hi.names i j x w hx hw trivial (hxy.symm.trans (hname.trans hwz))
  case owners =>
    intro d c hconnection i y hy
    rw [hby]
    by_cases honline : y.1 = -1
    · -- an offline player has no descriptor
      constructor
      · intro hd
        exact absurd (honline.symm.trans hd) (by omega)
      · exact fun h => absurd honline h.2
    · obtain ⟨x, hx, hxy⟩ := hold hy honline
      -- a new connection owns no player, and its descriptor is nobody's
      rcases hon d c hconnection with hconnection | ⟨hnew, hfree⟩
      · rw [← hxy]
        exact hi.owners d c hconnection i x hx
      · constructor
        · exact fun hd => absurd (hxy.trans hd) (hfree x (List.mem_of_getElem? hx))
        · rintro ⟨howner, -⟩
          have hlt := hi.accepted c (List.mem_of_getElem? howner)
          omega
  case offline =>
    intro i y c hy howner hc
    rw [hby] at howner
    by_contra honline
    obtain ⟨x, hx, hxy⟩ := hold hy honline
    apply honline
    rw [← hxy]
    rcases hended c hc with hc | hoffline
    · exact hi.offline i x c hx howner hc
    · exact hoffline i x hx howner
  case length =>
    rw [hby, hkeys.length, hi.length]
  case accepted =>
    rw [hby]
    exact fun c hc => (hi.accepted c hc).trans_le haccepted
  case texts =>
    intro y hy
    obtain ⟨i, hget⟩ := List.mem_iff_getElem?.mp hy
    obtain ⟨x, hx, hname, -⟩ := hkeys.entry i y hget
    rw [hname]
    exact hi.texts x (List.mem_of_getElem? hx)

/-- The step that registers the name of a connection, both new. -/
theorem RegistryInv.register {fd c : ℕ} {name : Bytes} {active : List ℕ} {point : Point}
    (hi : RegistryInv g)
    (hloop : g'.loop = { g.loop with activeFdSet := active, point := point })
    (hkeys : g'.server.keys = g.server.keys ++ [((fd : ℤ), name)])
    (hby : g'.registeredBy = g.registeredBy ++ [c]) (hon : g.loop.On fd (.connection c))
    (hended : c ∉ g.loop.ended) (hfresh : ∀ x ∈ g.server.keys, x.1 ≠ fd ∧ x.2 ≠ name)
    (htext : 0 ∉ name) : RegistryInv g' := by
  -- the new player comes last, and the others keep their indices
  have hentry {i : ℕ} {x : ℤ × Bytes} (hx : g'.server.keys[i]? = some x) :
      g.server.keys[i]? = some x ∨ i = g.server.keys.length ∧ x = ((fd : ℤ), name) := by
    rw [hkeys] at hx
    exact getElem?_concat_eq_some.mp hx
  have howner {i c' : ℕ} : g'.registeredBy[i]? = some c' ↔
      g.registeredBy[i]? = some c' ∨ i = g.server.keys.length ∧ c' = c := by
    rw [hby, getElem?_concat_eq_some, hi.length]
  have hlt {i : ℕ} {x : ℤ × Bytes} (hx : g.server.keys[i]? = some x) :
      i < g.server.keys.length := (List.getElem?_eq_some_iff.mp hx).1
  have hlt' {i c' : ℕ} (h : g.registeredBy[i]? = some c') : i < g.server.keys.length :=
    hi.length ▸ (List.getElem?_eq_some_iff.mp h).1
  have hon' {d : ℕ} {e : Endpoint} : g'.loop.On d e ↔ g.loop.On d e := by
    rw [hloop]
    rfl
  have hfd : ((fd : ℤ)) ≠ -1 := by omega
  constructor
  case toNumbered =>
    rw [hloop]
    exact ⟨hi.numbered, hi.once⟩
  case fds =>
    rw [hkeys]
    exact hi.fds.concat Prod.fst fun x hx => (hfresh x hx).1
  case names =>
    rw [hkeys]
    exact hi.names.concat Prod.snd fun x hx => (hfresh x hx).2
  case owners =>
    intro d c' hd i x hx
    rw [hon'] at hd
    rcases hentry hx with hx | ⟨hi', rfl⟩
    · rw [hi.owners d c' hd i x hx, howner]
      have hne : i ≠ g.server.keys.length := (hlt hx).ne
      exact ⟨fun h => ⟨Or.inl h.1, h.2⟩, fun h => ⟨h.1.resolve_right fun h => hne h.1, h.2⟩⟩
    · rw [howner]
      constructor
      · -- only the registering connection is on the descriptor of the new player
        intro hsame
        have hfdd : fd = d := Int.ofNat.inj hsame
        rw [← hfdd] at hd
        exact ⟨Or.inr ⟨hi', (Endpoint.connection.inj (Option.some.inj (hd.eq hon)))⟩, hfd⟩
      · rintro ⟨howned | ⟨-, rfl⟩, -⟩
        · exact absurd hi' (hlt' howned).ne
        · exact congrArg Int.ofNat (hi.once c' fd d hon hd)
  case offline =>
    intro i x c' hx howned hc'
    rw [hloop] at hc'
    rcases hentry hx with hx | ⟨hi', rfl⟩
    · rcases howner.mp howned with howned | ⟨hi', -⟩
      · exact hi.offline i x c' hx howned hc'
      · exact absurd hi' (hlt hx).ne
    · rcases howner.mp howned with howned | ⟨-, rfl⟩
      · exact absurd hi' (hlt' howned).ne
      · exact absurd hc' hended
  case length =>
    rw [hby, hkeys, List.length_append, List.length_append, hi.length]
    rfl
  case accepted =>
    intro c' hc'
    rw [hloop]
    rw [hby] at hc'
    rcases List.mem_append.mp hc' with hc' | hc'
    · exact hi.accepted c' hc'
    · rw [List.mem_singleton.mp hc']
      exact hi.numbered fd c hon
  case texts =>
    rw [hkeys]
    intro x hx
    rcases List.mem_append.mp hx with hx | hx
    · exact hi.texts x hx
    · rw [List.mem_singleton.mp hx]
      exact htext

end Registry

section Steps

variable {env : ServerEnv} {g g' : GameServer}

theorem dataAt_eq_some {s : MainLoop} {reply : Reply} {fd c : ℕ} {stale : Fresh} {chunk : Bytes}
    (h : s.dataAt reply = some (fd, c, stale, chunk)) :
    s.On fd (.connection c) ∧ c ∉ s.ended ∧ chunk ≠ [] ∧ ¬Accepting s reply ∧
      ∀ i c', ¬EofAt s reply i c' := by
  unfold MainLoop.dataAt at h
  cases hpoint : s.point with
  | slot i =>
    simp only [hpoint, Option.bind_eq_bind, Option.bind_eq_some_iff] at h
    obtain ⟨c', hreading, read, hread, h⟩ := h
    split_ifs at h with heof
    simp only [Option.some.injEq, Prod.mk.injEq] at h
    obtain ⟨rfl, rfl, rfl⟩ := h
    have hnot := heof
    simp only [MainLoop.atEof, hread, Option.any_some, Bool.or_eq_true, decide_eq_true_eq,
      not_or] at hnot
    refine ⟨reading_eq_some hreading, hnot.1, hnot.2, not_accepting (by simp [hpoint]), ?_⟩
    rintro j c'' ⟨hj, hreading', heof'⟩
    rw [hpoint, Point.slot.injEq] at hj
    rw [← hj, hreading, Option.some_inj] at hreading'
    exact heof (hreading' ▸ heof')
  | select => exact absurd h (by simp [hpoint])
  | accept => exact absurd h (by simp [hpoint])
  | exited => exact absurd h (by simp [hpoint])

/-- A step of the main loop that hands no data to the server. -/
theorem RegistryInv.mainLoop (hi : RegistryInv g) {reply : Reply} (hP : RegistryReply g reply) :
    RegistryInv { g with loop := mainStep g.loop reply } := by
  have hnumbered := mainStep_numbered hi.toNumbered reply
  rcases mainStep_cases g.loop reply with ⟨haccepting, -, hmain⟩ | ⟨i, c, heof, -, hmain⟩ |
    ⟨-, -, active, point, hmain⟩
  · -- a connection is accepted, on a descriptor that no player has
    refine hi.resets hnumbered (resets_refl _) rfl ?_ ?_ ?_
    · rw [hmain]
      exact Nat.le_succ _
    · intro d c hon
      rw [hmain] at hon
      rcases acceptConnection_on.mp hon with ⟨rfl, hc⟩ | hon
      · refine Or.inr ⟨(Endpoint.connection.inj hc).ge, ?_⟩
        intro x hx
        obtain ⟨p, hp, rfl⟩ := List.mem_map.mp hx
        exact hP.accepted haccepting p hp
      · exact Or.inl hon
    · intro c hc
      rw [hmain] at hc
      exact Or.inl hc
  · -- a connection ends, and the players that it registered are offline by then
    refine hi.resets hnumbered (resets_refl _) rfl ?_ ?_ ?_
    · rw [hmain]
      exact le_rfl
    · intro d c' hon
      rw [hmain] at hon
      exact Or.inl (closeSlot_on.mp hon).2
    · intro c' hc'
      rw [hmain] at hc'
      rcases List.mem_append.mp hc' with hc' | hc'
      · exact Or.inl hc'
      · refine Or.inr ?_
        intro j x hx hby
        rw [Server.keys, List.getElem?_map] at hx
        obtain ⟨p, hp, rfl⟩ := Option.map_eq_some_iff.mp hx
        rw [List.mem_singleton.mp hc'] at hby
        exact hP.ended i c heof j p hby hp
  · -- no other call changes what the descriptors stand for
    refine hi.resets hnumbered (resets_refl _) rfl ?_ ?_ ?_
    · rw [hmain]
    · intro d c hon
      rw [hmain] at hon
      exact Or.inl hon
    · intro c hc
      rw [hmain] at hc
      exact Or.inl hc

/-- A step that hands data to the server only moves the main loop on. -/
theorem mainStep_of_data {s : MainLoop} {reply : Reply} {fd c : ℕ} {stale : Fresh} {chunk : Bytes}
    (h : s.dataAt reply = some (fd, c, stale, chunk)) :
    ∃ active point, mainStep s reply = { s with activeFdSet := active, point := point } := by
  obtain ⟨-, -, -, hnot, hnot'⟩ := dataAt_eq_some h
  rcases mainStep_cases s reply with ⟨haccepting, -⟩ | ⟨i, c', heof, -⟩ | ⟨-, -, hframe⟩
  · exact absurd haccepting hnot
  · exact absurd heof (hnot' i c')
  · exact hframe

/-- A step that hands data to the server. -/
theorem RegistryInv.receive (hi : RegistryInv g) {reply : Reply} {fd c : ℕ} {stale : Fresh}
    {chunk : Bytes} (hdata : g.loop.dataAt reply = some (fd, c, stale, chunk)) {server : Server}
    (hserver : readFromClient env fd stale chunk g.server = .ok server)
    (hfresh : RegistersFresh g.server fd stale chunk) :
    RegistryInv ⟨mainStep g.loop reply, server, g.registeredBy ++
      List.replicate (server.players.length - g.server.players.length) c⟩ := by
  obtain ⟨hon, hended, hchunk, -⟩ := dataAt_eq_some hdata
  obtain ⟨active, point, hmain⟩ := mainStep_of_data hdata
  have hlength (s : Server) : s.players.length = s.keys.length := (List.length_map ..).symm
  rw [hlength server, hlength g.server]
  obtain ⟨header, hheader, ⟨-, hkeys⟩ | ⟨htype, name, names, hname, hkeys, htext, hone⟩⟩ :=
    readFromClient_keys env hchunk hserver
  · -- nobody is registered
    rw [hkeys, Nat.sub_self, List.replicate_zero, List.append_nil]
    refine hi.resets (mainStep_numbered hi.toNumbered reply) (hkeys ▸ resets_refl _) rfl ?_ ?_ ?_
    · rw [hmain]
    · intro d c' hd
      rw [hmain] at hd
      exact Or.inl hd
    · intro c' hc'
      rw [hmain] at hc'
      exact Or.inl hc'
  · -- one player is, since the chunk holds no second message
    obtain ⟨hsingle, hnew⟩ := hfresh header name hheader htype hname
    rw [hone.mpr hsingle] at hkeys
    have hcount : server.keys.length - g.server.keys.length = 1 := by
      rw [hkeys, List.length_append, Nat.add_sub_cancel_left]
      rfl
    rw [hcount]
    apply hi.register hmain hkeys rfl hon hended
    · intro x hx
      obtain ⟨p, hp, rfl⟩ := List.mem_map.mp hx
      exact hnew p hp
    · exact (htext name (List.mem_cons_self ..)).1

/-- The step lemma of the registry. -/
theorem gameStep_inv {event : GameEvent} (hi : RegistryInv g) (hP : RegistryStep g event)
    (h : gameStep env g event = .ok g') : RegistryInv g' := by
  cases event with
  | tick clock fails =>
    simp only [gameStep] at h
    split_ifs at h
    · exact Except.ok.inj h ▸ hi
    · obtain ⟨server, hserver, h⟩ := bind_eq_ok.mp h
      rw [← Except.ok.inj h]
      refine hi.resets hi.toNumbered (serverStep_tick_resets env hserver) rfl le_rfl ?_ ?_
      · exact fun _ _ hon => Or.inl hon
      · exact fun _ hc => Or.inl hc
  | main reply =>
    simp only [gameStep] at h
    cases hdata : g.loop.dataAt reply with
    | none =>
      rw [hdata] at h
      rw [← Except.ok.inj h]
      exact hi.mainLoop hP
    | some data =>
      obtain ⟨fd, c, stale, chunk⟩ := data
      rw [hdata] at h
      obtain ⟨server, hserver, h⟩ := bind_eq_ok.mp h
      rw [← Except.ok.inj h]
      exact hi.receive hdata hserver (hP.registered fd c stale chunk hdata)

/-- A connection on the descriptor of a player finds a player that it did not register. -/
theorem accepted_of_ok (hi : RegistryInv g) {reply : Reply} (haccepting : Accepting g.loop reply)
    (hok : RegistryOk { g with loop := mainStep g.loop reply }) :
    ∀ p ∈ g.server.players, p.fd ≠ lowest Option.isNone g.loop.descriptors := by
  intro p hp hfd
  rw [mainStep_of_accepting haccepting] at hok
  obtain ⟨i, hlookup⟩ := exists_lookup Prod.fst (mem_keys hp)
  have hfound : getPlayerFromFd (lowest Option.isNone g.loop.descriptors : ℕ) g.server = some i := by
    rw [getPlayerFromFd_keys, ← hfd]
    exact hlookup
  have hnew : g.loop.acceptConnection.On (lowest Option.isNone g.loop.descriptors)
      (.connection g.loop.accepted) := acceptConnection_on.mpr (Or.inl ⟨rfl, rfl⟩)
  obtain ⟨hby, -⟩ := (hok.fromFd _ _ hnew i).mp hfound
  exact (hi.accepted _ (List.mem_of_getElem? hby)).false

/-- A player that stays online when its connection ends is still listed. -/
theorem ended_of_ok {reply : Reply} {i c : ℕ} (heof : EofAt g.loop reply i c)
    (hok : RegistryOk { g with loop := mainStep g.loop reply }) {j : ℕ} {p : Player}
    (hby : g.registeredBy[j]? = some c) (hp : g.server.players[j]? = some p) : p.fd = -1 := by
  have hended : c ∈ (mainStep g.loop reply).ended := by
    rw [mainStep_of_eof heof]
    exact List.mem_append_right _ (List.mem_singleton_self c)
  by_contra honline
  apply (hok.gone j p c hp hby hended).2 false
  apply mem_playerNames.mpr
  refine ⟨p, List.mem_of_getElem? hp, ?_, rfl⟩
  simp [Player.listed, honline]

/-- A second registration in the chunk, or one with a descriptor or a name that a
player has, breaks a lookup. -/
theorem registered_of_ok (hi : RegistryInv g) {fd : ℕ} {header : MessageHeader}
    {name : Bytes} {names : List Bytes} {chunk : Bytes}
    (hkeys : g'.server.keys = g.server.keys ++ (name :: names).map (Prod.mk (fd : ℤ)))
    (htext : ∀ n ∈ name :: names, IsName n)
    (hone : names = [] ↔ chunk.length ≤ messageHeaderSize + header.contentLength)
    (hok : RegistryOk g') : chunk.length ≤ messageHeaderSize + header.contentLength ∧
      ∀ p ∈ g.server.players, p.fd ≠ fd ∧ p.name ≠ name := by
  have hfd : (fd : ℤ) ≠ -1 := by omega
  have hnew (k : ℕ) : g'.server.keys[g.server.keys.length + k]? =
      ((name :: names).map (Prod.mk (fd : ℤ)))[k]? := by
    rw [hkeys, List.getElem?_append_right (Nat.le_add_right _ _), Nat.add_sub_cancel_left]
  obtain ⟨q, hq, hqkey⟩ := exists_player (hnew 0)
  have hqfd : q.fd = fd := congrArg Prod.fst hqkey
  have hqname : q.name = name := congrArg Prod.snd hqkey
  constructor
  · apply hone.mp
    cases names with
    | nil => rfl
    | cons other names =>
      obtain ⟨r, hr, hrkey⟩ := exists_player (hnew 1)
      have hrfd : r.fd = fd := congrArg Prod.fst hrkey
      have hsame := hok.fds _ _ q r hq hr (hqfd ▸ hfd) (hrfd ▸ hfd) (hqfd.trans hrfd.symm)
      omega
  · intro p hp
    obtain ⟨j, hj⟩ := List.mem_iff_getElem?.mp (mem_keys hp)
    have hlt : j < g.server.keys.length := (List.getElem?_eq_some_iff.mp hj).1
    have hj' : g'.server.keys[j]? = some p.key := by
      rw [hkeys, List.getElem?_append_left hlt, hj]
    obtain ⟨r, hr, hrkey⟩ := exists_player hj'
    constructor
    · intro hsame
      have hrfd : r.fd = fd := (congrArg Prod.fst hrkey).trans hsame
      have heq := hok.fds _ _ r q hr hq (hrfd ▸ hfd) (hqfd ▸ hfd) (hrfd.trans hqfd.symm)
      omega
    · intro hsame
      -- the search by name stops at the earlier player
      have hname : r.name = name := (congrArg Prod.snd hrkey).trans hsame
      have htexts : ∀ u ∈ g'.server.players, 0 ∉ u.name := by
        intro u hu
        have hmem := mem_keys hu
        rw [hkeys] at hmem
        rcases List.mem_append.mp hmem with hold | hnew
        · exact hi.texts u.key hold
        · obtain ⟨n, hn, hkey⟩ := List.mem_map.mp hnew
          have huname : n = u.name := congrArg Prod.snd hkey
          exact huname ▸ (htext n hn).1
      have hfound := hok.byName _ q hq (hqfd ▸ hfd)
      rw [playerGetByName_eq (htexts q (List.mem_of_getElem? hq)) htexts, Except.ok.injEq,
        Option.map_eq_some_iff] at hfound
      obtain ⟨k, hlookup, hk⟩ := hfound
      have hjk : j < k := by omega
      exact ((lookup_eq_some_iff Player.name).mp hlookup).2 j hjk r hr (hname.trans hqname.symm)

theorem gameStep_of_ok {event : GameEvent} (hi : RegistryInv g)
    (h : gameStep env g event = .ok g') (hok : RegistryOk g') : RegistryStep g event := by
  cases event with
  | tick clock fails => exact trivial
  | main reply =>
    simp only [gameStep] at h
    cases hdata : g.loop.dataAt reply with
    | none =>
      rw [hdata] at h
      rw [← Except.ok.inj h] at hok
      constructor
      · exact fun haccepting => accepted_of_ok hi haccepting hok
      · intro fd c stale chunk hsome
        rw [hdata] at hsome
        exact absurd hsome (by simp)
      · exact fun i c heof j p hby hp => ended_of_ok heof hok hby hp
    | some data =>
      obtain ⟨fd, c, stale, chunk⟩ := data
      rw [hdata] at h
      obtain ⟨server, hserver, h⟩ := bind_eq_ok.mp h
      obtain ⟨-, -, hchunk, hnot, hnot'⟩ := dataAt_eq_some hdata
      constructor
      · exact fun haccepting => absurd haccepting hnot
      · intro fd' c' stale' chunk' hsome header name hheader htype hname
        rw [hdata, Option.some_inj, Prod.mk.injEq, Prod.mk.injEq, Prod.mk.injEq] at hsome
        obtain ⟨rfl, rfl, rfl, rfl⟩ := hsome
        obtain ⟨header', hheader', ⟨hother, -⟩ | ⟨-, name', names, hname', hkeys, htext, hone⟩⟩ :=
          readFromClient_keys env hchunk hserver
        · rw [hheader, Option.some_inj] at hheader'
          exact absurd htype (hheader' ▸ hother)
        · -- the name that was scanned is the one that is registered, and the registry is still right
          rw [hheader, Option.some_inj] at hheader'
          rw [hname, Option.some_inj] at hname'
          subst hheader' hname'
          have hserver' : g'.server = server := by rw [← Except.ok.inj h]
          exact registered_of_ok hi (hserver' ▸ hkeys) htext hone hok
      · exact fun i c' heof => absurd heof (hnot' i c')

theorem gameStart_inv (inherited : ℕ) : RegistryInv (gameStart inherited) := by
  have hempty {i : ℕ} {x : ℤ × Bytes} : ¬(gameStart inherited).server.keys[i]? = some x := by
    simp [gameStart, serverInit, Server.keys]
  constructor
  case toNumbered => exact (mainStart_kept inherited).toNumbered
  case fds => exact fun i j x y hx => absurd hx hempty
  case names => exact fun i j x y hx => absurd hx hempty
  case owners => exact fun d c _ i x hx => absurd hx hempty
  case offline => exact fun i x c hx => absurd hx hempty
  case length =>
    rfl
  case accepted => exact fun c hc => absurd hc List.not_mem_nil
  case texts => exact fun x hx => absurd hx List.not_mem_nil

end Steps

/-- In every run of the server with its clocks, descriptors and names identify the
players that are online exactly when no connection comes on the descriptor of a
player, no REGISTER takes the descriptor or the name of one, and no connection ends
while its player is online. -/
theorem registry_ok_iff (env : ServerEnv) (inherited : ℕ) (events : List GameEvent) {u : GameServer}
    (h : run (gameStep env) (gameStart inherited) events = .ok u) :
    (∀ t, Visits (gameStep env) (gameStart inherited) events t → RegistryOk t) ↔
      Along (gameStep env) RegistryStep (gameStart inherited) events := by
  apply visits_iff_along_of (gameStep env) (fun _ hi => RegistryInv.ok hi)
  · exact fun s event t hi ht hP => gameStep_inv hi hP ht
  · exact fun s event t hi ht hok => gameStep_of_ok hi ht hok
  · exact gameStart_inv inherited
  · exact h

/-- A client connects and registers. -/
def firstRegistration : List GameEvent :=
  [.main ⟨[3], true, none⟩, .main ⟨[], true, none⟩,
    .main ⟨[], true, some (fun _ => 0, (registerMessage 1 [65]).encode)⟩]

/-- A turn of the main loop: the ready descriptors, and what recv returns in the first slots. -/
def mainTurn (ready : List ℕ) (received : List (Option Bytes)) : List GameEvent :=
  [.main ⟨ready, true, none⟩, .main ⟨[], true, none⟩] ++
    (received ++ List.replicate (maxSockets - received.length) none).map fun read : Option Bytes =>
      .main ⟨[], true, read.map fun chunk => (fun _ => 0, chunk)⟩

/-- Two clients connect and register. The first one invites the other and starts the party. -/
def partyStarted : List GameEvent :=
  mainTurn [3] [some (registerMessage 1 [65]).encode] ++
  mainTurn [3] [none, some (registerMessage 1 [66]).encode] ++
  mainTurn [4] [some (opponentMessage 3 15 [[66]] []).encode] ++
  mainTurn [4] [some (bareMessage msgTypeStartGame 0).encode]

/-- Then the clock of the first one finds its socket closed, and its end of file is received. -/
def partyAndLeave : List GameEvent :=
  partyStarted ++ [.tick 0 fun player => player = 0] ++ mainTurn [4] [some []]

theorem registry_ok_two_players : ∃ u,
    run (gameStep heroEnv) (gameStart 3) partyAndLeave = .ok u ∧
      u.registeredBy = [0, 1] ∧ u.loop.ended = [0] ∧
      u.server.players.map (fun p => (p.fd, p.name)) = [(-1, [65]), (5, [66])] ∧
      ∀ t, Visits (gameStep heroEnv) (gameStart 3) partyAndLeave t → RegistryOk t := by
  obtain ⟨u, hu, hfacts⟩ : ∃ u, run (gameStep heroEnv) (gameStart 3) partyAndLeave = .ok u ∧
      (u.registeredBy, u.loop.ended, u.server.players.map fun p => (p.fd, p.name)) =
        ([0, 1], [0], [(-1, [65]), (5, [66])]) := by
    apply exists_ok_of_map fun u : GameServer =>
      (u.registeredBy, u.loop.ended, u.server.players.map fun p => (p.fd, p.name))
    decide +kernel
  simp only [Prod.mk.injEq] at hfacts
  obtain ⟨hby, hended, hkeys⟩ := hfacts
  have halong : Along (gameStep heroEnv) RegistryStep (gameStart 3) partyAndLeave := by
    decide +kernel
  exact ⟨u, hu, hby, hended, hkeys, (registry_ok_iff heroEnv 3 partyAndLeave hu).mpr halong⟩

/-- The client leaves: its player keeps the descriptor and is still found. -/
theorem ended_player_found : ∃ t, Visits (gameStep heroEnv) (gameStart 3)
    (firstRegistration ++ List.replicate 49 (.main ⟨[], true, none⟩) ++
      [.main ⟨[4], true, none⟩, .main ⟨[], true, none⟩, .main ⟨[], true, some (fun _ => 0, [])⟩]) t ∧
      ¬RegistryOk t := by
  obtain ⟨t, ht, hfacts⟩ : ∃ t, run (gameStep heroEnv) (gameStart 3)
      (firstRegistration ++ List.replicate 49 (.main ⟨[], true, none⟩) ++
        [.main ⟨[4], true, none⟩, .main ⟨[], true, none⟩,
          .main ⟨[], true, some (fun _ => 0, [])⟩]) = .ok t ∧
        (getPlayerFromFd 4 t.server, t.registeredBy, t.loop.ended, t.server.players.length) =
          (some 0, [0], [0], 1) := by
    apply exists_ok_of_map fun t : GameServer =>
      (getPlayerFromFd 4 t.server, t.registeredBy, t.loop.ended, t.server.players.length)
    decide +kernel
  simp only [Prod.mk.injEq] at hfacts
  obtain ⟨hfound, hby, hended, hplayers⟩ := hfacts
  refine ⟨t, ⟨_, List.prefix_rfl, ht⟩, fun hok => ?_⟩
  have hp : t.server.players[0]? = some t.server.players[0] := List.getElem?_eq_getElem (by omega)
  apply (hok.gone 0 _ 0 hp ?_ ?_).1 4 hfound
  · rw [hby]
    rfl
  · rw [hended]
    decide

end TetrisMint
