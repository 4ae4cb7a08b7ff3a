import TetrisMint.ReplyFaults
import TetrisMint.Unregistered

/-! Where the messages of clients and the turns of clocks bring the server down, when each message
is received alone and each of them is done before the next. -/
namespace TetrisMint

open CStrings FallibleRun

/-- A call into the engine that fills the top row of the game never returns. -/
def gameFault (player : ℕ) (op : Op) (s : Server) : Option Fault :=
  if s.players[player]?.any fun p => decide (TopRowFills p.contents op) then some .nonterminating
  else none

/-- The lookups of an invitation come to a copy without its NUL that a registered name starts with. -/
def overruns (players : List Player) : List (Option Bytes) → Bool
  | [] => false
  | item :: items =>
    if item ∈ players.map fun p => some (p.name ++ [0]) then overruns players items
    else players.any fun p => decide (item.getD [] <+: p.name)

section Faults

variable (env : ServerEnv)

/-- The fault of a message of a registered client that neither registers nor asks for the list. -/
def playerFault (s : Server) (player : ℕ) (msg : Message) : Option Fault :=
  if msg.messageType = msgTypeOpponent then
    match stringArrayDeserialize (env.heap s.parties.length) ⟨msg.body.length, msg.body⟩ with
    | .ok names => if overruns s.players names.strings then some .outOfBounds else none
    | .error e => some e
  else
    match engineOp msg.messageType msg.body with
    | .ok (some op) => gameFault player op s
    | _ => none

def messageFault (s : Server) (fd : ℕ) (msg : Message) : Option Fault :=
  if msg.messageType = msgTypeRegister then
    -- a name of spaces leaves the buffer as it is, and nothing has been stored there
    if sscanfWord 15 msg.body = some [] then some .uninitialised else none
  else if msg.messageType = msgTypeList then none
  else
    match getPlayerFromFd fd s with
    | none => some .nullDereference
    | some player => playerFault env s player msg

/-- A delivery to the server with its payloads. -/
def Traffic.deliver (mem : WireMemory) (w : Traffic) (d : Delivery) : Except Fault Traffic :=
  Traffic.serverStep env mem w d.event

/-- The fault of a delivery, `none` where the server withstands it: what the message does comes
first, then its answer. -/
def faultOf (mem : WireMemory) (w : Traffic) : Delivery → Option Fault
  | .message fd _ msg _ =>
    (messageFault env w.server fd msg).or (replyFault mem w.sent.length w.server fd msg)
  | .tick clock _ =>
    match w.server.clocks[clock]? with
    | none => none
    | some player => gameFault player (.lower 1) w.server

end Faults

section Lookups

variable {players : List Player} (htexts : ∀ p ∈ players, 0 ∉ p.name) {u : Bytes} (hu : 0 ∉ u)

include hu in
/-- strcmp of a name with a copy that may have lost its NUL. -/
theorem strEq_copied {name : Bytes} (hname : 0 ∉ name) (g : UInt8) : strEq (name ++ [0]) (u ++ [g]) =
    if u ++ [g] <+: name then none else some (decide (u ++ [g] = name ++ [0])) := by
  induction name generalizing u with
  | nil =>
    have hno : ¬u ++ [g] <+: [] := by simp
    rw [if_neg hno]
    cases u with
    | nil =>
      by_cases hg : g = 0
      · simp [strEq, hg]
      · simp [strEq, hg, Ne.symm hg]
    | cons c u =>
      have hc : (0 : UInt8) ≠ c := fun h => hu (h ▸ List.mem_cons_self ..)
      simp [strEq, hc]
  | cons a name ih =>
    have ha : a ≠ 0 := fun h => hname (h ▸ List.mem_cons_self ..)
    have hrest : 0 ∉ name := fun h => hname (List.mem_cons_of_mem _ h)
    cases u with
    | nil =>
      by_cases hg : a = g
      · -- the copy ends inside the name
        simp [strEq, ← hg, ha]
      · simp [strEq, hg, Ne.symm hg]
    | cons c u =>
      by_cases hc : a = c
      · have hlater := ih (fun h => hu (List.mem_cons_of_mem _ h)) hrest
        simp [strEq, ← hc, ha, hlater, List.cons_prefix_cons]
      · simp [strEq, hc, Ne.symm hc, List.cons_prefix_cons]

include htexts hu in
/-- A copy that is no player's name is compared with all of them, and may be left behind. -/
theorem playerGetByName_unknown {g : UInt8} (hno : ∀ p ∈ players, u ++ [g] ≠ p.name ++ [0]) (index : ℕ) :
    playerGetByName (u ++ [g]) index players =
      if players.any fun p => decide (u ++ [g] <+: p.name) then .error .outOfBounds else .ok none := by
  induction players generalizing index with
  | nil => rfl
  | cons p players ih =>
    rw [List.forall_mem_cons] at htexts hno
    rw [playerGetByName, strEq_copied hu htexts.1, List.any_cons]
    by_cases hprefix : u ++ [g] <+: p.name
    · rw [if_pos hprefix, decide_eq_true hprefix, Bool.true_or, if_pos rfl]
      rfl
    · rw [if_neg hprefix, decide_eq_false hno.1, access_some, ok_bind, decide_eq_false hprefix,
        Bool.false_or]
      exact ih htexts.2 hno.2 (index + 1)

include htexts in
/-- The only fault of the lookups. -/
theorem errorOf_invitedPlayers {items : List (Option Bytes)}
    (hitems : ∀ item ∈ items, ∃ u g, item = some (u ++ [g]) ∧ 0 ∉ u) :
    errorOf (invitedPlayers players items) = if overruns players items then some .outOfBounds else none := by
  induction items with
  | nil => rfl
  | cons item items ih =>
    rw [List.forall_mem_cons] at hitems
    obtain ⟨⟨u, g, rfl, hu⟩, hlater⟩ := hitems
    rw [invitedPlayers, deref_some, ok_bind, overruns]
    by_cases hknown : some (u ++ [g]) ∈ players.map fun p => some (p.name ++ [0])
    · -- the player with this name is found, and the loop goes on
      obtain ⟨p, hp, hname⟩ := List.mem_map.mp hknown
      obtain ⟨j, hj⟩ := FirstMatch.exists_lookup Player.name hp
      rw [if_pos hknown]
      rw [Option.some.injEq] at hname
      rw [← hname, playerGetByName_eq (htexts p hp) htexts, hj, ok_bind]
      simp only [Option.map_some]
      rw [errorOf_bind fun a _ => ⟨_, rfl⟩]
      exact ih hlater
    · have hno : ∀ p ∈ players, u ++ [g] ≠ p.name ++ [0] := by
        intro p hp hname
        exact hknown (List.mem_map.mpr ⟨p, hp, by rw [hname]⟩)
      rw [if_neg hknown, playerGetByName_unknown htexts hu hno, Option.getD_some]
      split_ifs
      · rfl
      · rfl

end Lookups

section Messages

variable (env : ServerEnv) {s : Server} (hs : ServerInv s) (htexts : ∀ p ∈ s.players, 0 ∉ p.name)

include hs in
theorem errorOf_callEngine {player : ℕ} (hp : player < s.players.length) (op : Op) :
    errorOf (callEngine env op player s) = gameFault player op s := by
  have hget := List.getElem?_eq_getElem hp
  rw [callEngine, gameFault, hget, deref_some, ok_bind, errorOf_bind fun a _ => ⟨_, rfl⟩,
    errorOf_engineStep env.randR (hs.games _ (List.mem_of_getElem? hget)), Option.any_some]
  simp only [decide_eq_true_eq]

include hs htexts in
theorem errorOf_playerMessage {msg : Message} (hmsg : ClientMessage msg) {player : ℕ}
    (hp : player < s.players.length) :
    errorOf (serverSwitch env msg.header msg.body (some player) s) = playerFault env s player msg := by
  have hdistinct : msgTypeOpponent ≠ msgTypeStartGame := by decide
  rw [serverSwitch, playerFault, msg.header_messageType]
  by_cases hopponent : msg.messageType = msgTypeOpponent
  · rw [if_neg (hopponent ▸ hdistinct), if_pos hopponent, if_pos hopponent, inviteOpponents_eq,
      msg.header_contentLength]
    obtain ⟨names, hnames⟩ := hmsg.opponent hopponent (env.heap s.parties.length)
    rw [hnames, ok_bind, deref_some, ok_bind, errorOf_bind fun a _ => ⟨_, rfl⟩]
    exact errorOf_invitedPlayers htexts (stringArrayDeserialize_items hnames)
  · rw [if_neg hopponent, if_neg hopponent]
    by_cases hstart : msg.messageType = msgTypeStartGame
    · have hnone : engineOp msgTypeStartGame msg.body = .ok none := rfl
      rw [if_pos hstart, hstart, hnone]
      exact errorOf_eq_none.mpr ⟨_, startGame_eq_ok.mpr ⟨player, _, rfl, List.getElem?_eq_getElem hp, rfl⟩⟩
    · obtain ⟨op, hop⟩ := (engineOp_returns_iff msg.messageType msg.body).mpr hmsg.direction
      rw [if_neg hstart, hop, ok_bind]
      cases op with
      | none => rfl
      | some op => exact errorOf_callEngine env hs hp op

/-- Without a player, a message that neither registers nor asks for the list follows a null pointer. -/
theorem errorOf_noPlayer {msg : Message} (hmsg : ClientMessage msg)
    (hregister : msg.messageType ≠ msgTypeRegister) (hlist : msg.messageType ≠ msgTypeList) :
    errorOf (serverSwitch env msg.header msg.body none s) = some .nullDereference := by
  have hdistinct : msgTypeOpponent ≠ msgTypeStartGame := by decide
  rw [serverSwitch, msg.header_messageType]
  by_cases hopponent : msg.messageType = msgTypeOpponent
  · obtain ⟨names, hnames⟩ := hmsg.opponent hopponent (env.heap s.parties.length)
    rw [if_neg (hopponent ▸ hdistinct), if_pos hopponent, inviteOpponents_eq, msg.header_contentLength,
      hnames]
    rfl
  · rw [if_neg hopponent]
    by_cases hstart : msg.messageType = msgTypeStartGame
    · rw [if_pos hstart]
      rfl
    · obtain ⟨op, hop⟩ := (engineOp_returns_iff msg.messageType msg.body).mpr hmsg.direction
      rw [if_neg hstart, hop, ok_bind]
      cases op with
      | none =>
        -- all other types that clients send ask the engine for something
        have hengine := engineOp_eq_none.mp hop
        have hknown := hmsg.known
        simp only [clientMessageTypes, List.mem_cons, List.not_mem_nil, or_false] at hknown hengine
        tauto
      | some op => rfl

include hs htexts in
/-- The one fault that a message can meet while it is handled. -/
theorem errorOf_handleMessage {msg : Message} (hmsg : ClientMessage msg) (fd : ℕ) :
    errorOf (handleMessage env fd msg.header ⟨s, getPlayerFromFd fd s, none⟩ msg.body) =
      messageFault env s fd msg := by
  rw [handleMessage, messageFault, msg.header_messageType]
  split_ifs with hregister hblank hlist
  · -- the name is scanned, and it may be blank
    rw [registerPlayer, hblank]
    rfl
  · obtain ⟨word, hword⟩ := sscanfWord_of_mem (hmsg.register hregister) 15
    have hne : word ≠ [] := fun hnil => hblank (hnil ▸ hword)
    rw [registerPlayer, hword, access_some, ok_bind, if_neg hne]
    rfl
  · have hnone : engineOp msgTypeList msg.body = .ok none := rfl
    have hother : msgTypeList ≠ msgTypeStartGame ∧ msgTypeList ≠ msgTypeOpponent := by decide
    rw [errorOf_bind fun a _ => ⟨_, rfl⟩, serverSwitch, msg.header_messageType, hlist, if_neg hother.1,
      if_neg hother.2, hnone]
    rfl
  · rw [errorOf_bind fun a _ => ⟨_, rfl⟩]
    cases hplayer : getPlayerFromFd fd s with
    | none => exact errorOf_noPlayer env hmsg hregister hlist
    | some player =>
      apply errorOf_playerMessage env hs htexts hmsg
      exact (readInv_start hs fd).player player hplayer

end Messages

section Traffic

variable (env : ServerEnv) {mem : WireMemory} {w : Traffic} {players : ℕ}
  (h : Traffic.Ready players w)

include h in
/-- A message leaves the server ready for its boards. -/
theorem handled_ready {fd : ℕ} {msg : Message} {rs : ReadState} (sent : List (ℤ × Bytes))
    (hrs : handleMessage env fd msg.header ⟨w.server, getPlayerFromFd fd w.server, none⟩ msg.body =
      .ok rs) : Traffic.Ready rs.server.players.length ⟨rs.server, sent⟩ := by
  refine ⟨(handleMessage_inv env (readInv_start h.1 fd) hrs).server, ?_, rfl⟩
  rcases handleMessage_cases env hrs with ⟨-, hregister⟩ | ⟨-, -, -, hswitch⟩
  · obtain ⟨word, name, hword, hname, rfl⟩ := (registerPlayer_eq_ok env).mp hregister
    rw [playerCreate_keys]
    intro x hx
    rcases List.mem_append.mp hx with hx | hx
    · exact h.2.1 x hx
    · rw [List.mem_singleton.mp hx]
      exact isName_registered (by simp) hword hname
  · rw [serverSwitch_keys env hswitch]
    exact h.2.1

include h in
theorem errorOf_playerClock {player : ℕ} (hp : player < players) (fails : ℕ → Bool) :
    errorOf (Traffic.playerClock env mem fails player w) = gameFault player (.lower 1) w.server := by
  rw [Traffic.playerClock, errorOf_bind, errorOf_callEngine env h.1 (h.2.2.symm ▸ hp)]
  intro t ht
  have hlen := (callEngine_seats env ht).1.length
  have hready : Traffic.Ready players { w with server := t } := by
    refine ⟨callEngine_inv env h.1 ht, ?_, hlen.trans h.2.2⟩
    rw [callEngine_keys env ht]
    exact h.2.1
  have hlt : player < t.players.length := by
    rw [hlen, h.2.2]
    exact hp
  have hget := List.getElem?_eq_getElem hlt
  have hreceivers : ∀ receiver ∈ (boardReceivers player t.players[player] t).zipIdx,
      receiver.1 < players := by
    intro receiver hmem
    rw [← h.2.2, ← hlen]
    exact boardReceivers_lt hready.1 hget _ (List.fst_mem_of_mem_zipIdx hmem)
  obtain ⟨u, hu, hkept⟩ := Traffic.clockSendBoards_return env hready hp fails hreceivers
  have hlast : player < u.server.players.length := by
    rw [hkept.2.2]
    exact hp
  rw [hget, deref_some, ok_bind, hu, ok_bind, List.getElem?_eq_getElem hlast, deref_some, ok_bind]
  exact ⟨_, rfl⟩

include h in
/-- Deliveries fail as foretold. -/
theorem errorOf_delivery (d : Delivery) :
    errorOf (Traffic.deliver env mem w d) = faultOf env mem w d := by
  cases d with
  | message fd stale msg hmsg =>
    have hread : Traffic.deliver env mem w (.message fd stale msg hmsg) =
        Traffic.readFromClient env mem fd stale msg.encode w := rfl
    have hhandled := errorOf_handleMessage env h.1 h.texts hmsg fd
    rw [hread, Traffic.readFromClient_single env hmsg, faultOf, ← hhandled]
    cases hrs : handleMessage env fd msg.header ⟨w.server, getPlayerFromFd fd w.server, none⟩
        msg.body with
    | error e => rfl
    | ok rs =>
      -- the message is handled, so it is the answer that may fail
      have hnames : ∀ p ∈ w.server.players, IsName p.name :=
        fun p hp => h.2.1 p.key (mem_keys hp)
      rw [ok_bind, errorOf_ok, Option.none_or, ← errorOf_replies hnames h.1 hrs]
      apply errorOf_bind
      intro answers _
      have hready := handled_ready env h (w.sent ++ answers) hrs
      rw [Traffic.finishRead]
      cases hplayer : rs.player with
      | none => exact ⟨_, rfl⟩
      | some player =>
        have hinv := handleMessage_inv env (readInv_start h.1 fd) hrs
        exact Traffic.sendBoards_return env hready (hinv.player player hplayer)
  | tick clock fails =>
    have htick : Traffic.deliver env mem w (.tick clock fails) =
        Traffic.serverStep env mem w (.tick clock fails) := rfl
    rw [htick, Traffic.serverStep, faultOf]
    cases hclock : w.server.clocks[clock]? with
    | none => rfl
    | some player =>
      have hp := h.1.threads player (List.mem_of_getElem? hclock)
      simp only []
      rw [errorOf_bind fun a _ => ⟨_, rfl⟩, errorOf_playerClock env h (h.2.2 ▸ hp)]

end Traffic

/-- The second of two players asks who is online where set_item finds no zero: his name is copied
without its NUL, and the encoder reads past the copy. -/
example : errorOf (run (Traffic.deliver heroEnv ⟨fun _ _ _ => 1, fun _ _ => 0⟩) ⟨serverInit, []⟩
    (registerBoth ++ [.message 5 (fun _ => 0) (bareMessage msgTypeList 2)
      (bareMessage_wellFormed (by decide) (by decide))])) = some .outOfBounds := by
  decide +kernel

end TetrisMint
