import TetrisMint.TextFieldEditor
import TetrisMint.Controls

/-! The way of a player's name: from the text field of `widgets.c` through the buffers of
`client.c` and `client_conn.c` to the server. -/
namespace TetrisMint

open CStrings FallibleRun LineEditor

/-- The size of the buffers `username` and `message` of the client. -/
def usernameSize : ℕ := 32
def registerSize : ℕ := 16

/-- The keys up to the newline go to the field, then its value is copied out. `entry` is the
field that was created for `maxLength`; drawing is not part of the state. -/
def ttvizEntry (userInput : Bytes) (entry : CursesTextEntry) (maxLength : ℕ) (chs : List ℤ) :
    Except Fault Bytes := do
  let entry ← run cursesTextFieldFeed entry (chs.takeWhile (· ≠ 10))
  access (strncpy userInput 0 (cursesTextFieldValue entry) maxLength)

/-- `stack` is what the array `message` held before. -/
def tetrisRegister (stack : Fresh) (client : NetClient) (username : Bytes) :
    Except Fault (NetClient × Bytes) := do
  let message ← access (strncpy (malloc stack registerSize) 0 username registerSize)
  .ok (ttetrisNetRequest client message msgTypeRegister)

/-- The name with which player_create makes the local player, and the registration that
run_online sends. `stack` and `messageStack` are what the two arrays held before. -/
def runOnline (stack messageStack : Fresh) (entry : CursesTextEntry) (chs : List ℤ)
    (client : NetClient) : Except Fault (Bytes × NetClient × Bytes) := do
  let username ← ttvizEntry (malloc stack usernameSize) entry playerNameMaxChars chs
  let name ← access (cString username)
  let (client, payload) ← tetrisRegister messageStack client username
  .ok (name, client, payload)

/-- Both players are named `t`: the local one and the one that the server appends when recv
returns the registration alone. -/
def NameKept (env : ServerEnv) (fd : ℕ) (s : Server) (entry : CursesTextEntry) (chs : List ℤ)
    (client : NetClient) (t : Bytes) (stack messageStack stale : Fresh) : Prop :=
  ∃ client' payload server, runOnline stack messageStack entry chs client = .ok (t, client', payload) ∧
    readFromClient env fd stale payload s = .ok server ∧
    server.players.map Player.name = s.players.map Player.name ++ [t]

section Client

variable {entry shown : CursesTextEntry} {chs : List ℤ} {t rest : Bytes}
  (henter : run cursesTextFieldFeed entry (chs.takeWhile (· ≠ 10)) = .ok shown)
  (htext : cursesTextFieldValue shown = t ++ 0 :: rest) (h0 : 0 ∉ t)

include henter htext h0 in
/-- What the array holds after the field: the text, zeros up to the maximum length, and
behind them what it held before. -/
theorem ttvizEntry_eq (hlen : t.length ≤ playerNameMaxChars) (stack : Fresh) :
    ttvizEntry (malloc stack usernameSize) entry playerNameMaxChars chs =
      .ok (t ++ List.replicate (playerNameMaxChars - t.length) 0 ++
        (malloc stack usernameSize).drop playerNameMaxChars) := by
  have hroom : playerNameMaxChars ≤ (malloc stack usernameSize).length := by
    rw [length_malloc]
    decide
  rw [ttvizEntry, henter, ok_bind, htext, strncpy_start h0 rest hlen hroom, access_some]

include henter htext h0 in
/-- A text that leaves room for its NUL below the maximum length arrives in the message. -/
theorem runOnline_eq (hlen : t.length < playerNameMaxChars) (client : NetClient)
    (stack messageStack : Fresh) : ∃ id < 2 ^ 16, ∃ client',
      runOnline stack messageStack entry chs client = .ok (t, client', (registerMessage id t).encode) := by
  -- the array username: the text, its NUL, and what lies behind
  have hfield : t ++ List.replicate (playerNameMaxChars - t.length) 0 ++
      (malloc stack usernameSize).drop playerNameMaxChars =
        t ++ 0 :: (List.replicate (playerNameMaxChars - t.length - 1) 0 ++
          (malloc stack usernameSize).drop playerNameMaxChars) := by
    rw [show playerNameMaxChars - t.length = playerNameMaxChars - t.length - 1 + 1 by omega,
      List.replicate_succ, List.append_assoc]
    rfl
  -- strncpy fills all of the message, so nothing old is left in it
  have hfits : t.length ≤ registerSize := hlen.le.trans (by decide)
  have hmessage : (malloc messageStack registerSize).drop registerSize = [] := by
    apply List.drop_of_length_le
    rw [length_malloc]
  obtain ⟨id, hid, hsent⟩ := ttetrisNetRequest_encode client
    (t ++ List.replicate (registerSize - t.length) 0) msgTypeRegister
  refine ⟨id, hid, (ttetrisNetRequest client (t ++ List.replicate (registerSize - t.length) 0)
    msgTypeRegister).1, ?_⟩
  rw [runOnline, ttvizEntry_eq henter htext h0 hlen.le, ok_bind, hfield, cString_terminated h0,
    access_some, ok_bind, tetrisRegister,
    strncpy_start h0 _ hfits (by rw [length_malloc]), hmessage, List.append_nil, access_some, ok_bind,
    ok_bind]
  change Except.ok (t, _, (ttetrisNetRequest client
    (t ++ List.replicate (registerSize - t.length) 0) msgTypeRegister).2) = _
  rw [hsent]
  rfl

include henter htext h0 in
/-- The longest text has no NUL of its own: it goes on into what the array held before. -/
theorem runOnline_unterminated (hlen : t.length = playerNameMaxChars) (client : NetClient)
    (messageStack : Fresh) :
    runOnline (fun _ => 65) messageStack entry chs client = .error .outOfBounds := by
  have hnone : 0 ∉ t ++ (malloc (fun _ => 65) usernameSize).drop playerNameMaxChars := by
    rw [List.mem_append, not_or]
    exact ⟨h0, by decide⟩
  rw [runOnline, ttvizEntry_eq henter htext h0 hlen.le, ok_bind, hlen, Nat.sub_self,
    List.replicate_zero, List.append_nil, cString, strlen_unterminated hnone]
  rfl

end Client

section Server

variable (env : ServerEnv) {fd id : ℕ} (hid : id < 2 ^ 16) (stale : Fresh) (s : Server)

/-- The boards of a player who has just been created go to that player alone. -/
theorem finishRead_created (fd : ℕ) (name : Bytes) : ∃ t,
    finishRead env ⟨(playerCreate env fd name s).1, some s.players.length, some name⟩ = .ok t := by
  let created := (playerCreate env fd name s).1
  have hget : created.players[s.players.length]? = some
      ⟨name, none, fd, newSeededGame env.randR (env.time s.players.length)⟩ :=
    List.getElem?_concat_length
  obtain ⟨r, hr⟩ := view_returns (newSeededGame_inv env.randR (env.time s.players.length))
  have hview : engineStep env.randR (newSeededGame env.randR (env.time s.players.length)) .view =
      .ok r.1 := by
    rw [engineStep, Op.call, hr]
    rfl
  obtain ⟨t, ht⟩ : ∃ t, callEngine env .view s.players.length created = .ok t :=
    ⟨_, (callEngine_eq_ok env).mpr ⟨_, _, hget, hview, rfl⟩⟩
  have hsend : sendBoard env s.players.length created s.players.length = .ok t := by
    rw [sendBoard, hget, deref_some, ok_bind, sendPlayer, if_neg (by simp)]
    exact ht
  refine ⟨t, ?_⟩
  change sendBoards env s.players.length created = .ok t
  rw [sendBoards, hget, deref_some, ok_bind]
  exact run_cons_ok _ [] hsend

include hid in
/-- A registration that recv returns alone creates one player, with the name of the message. -/
theorem register_text {t : Bytes} (ht : ∀ b ∈ t, b ≠ 0 ∧ isSpace b = false) (hne : t ≠ [])
    (hlen : t.length ≤ playerNameMaxChars) :
    ∃ server, readFromClient env fd stale (registerMessage id t).encode s = .ok server ∧
      server.unshadowed = (playerCreate env fd t s).1.unshadowed := by
  -- at least one zero follows the text in the sixteen bytes
  have hword : sscanfWord 15 (registerMessage id t).body = some t := by
    rw [playerNameMaxChars] at hlen
    rw [registerMessage, show 16 - t.length = 15 - t.length + 1 by omega, List.replicate_succ]
    exact sscanfWord_text ht hlen
  obtain ⟨server, hsent⟩ := finishRead_created env s fd t
  refine ⟨server, ?_, finishRead_unshadowed env hsent⟩
  have hregister : handleMessage env fd (registerMessage id t).header
      ⟨s, getPlayerFromFd fd s, none⟩ (registerMessage id t).body =
        .ok ⟨(playerCreate env fd t s).1, some s.players.length, some t⟩ :=
    (registerPlayer_eq_ok env).mpr ⟨t, t, hword, if_neg hne, rfl⟩
  rw [readFromClient_single env (registerMessage_wellFormed hid hlen), hregister, ok_bind]
  exact hsent

include hid in
/-- The server scans no word from the empty text, and its buffer has no name yet. -/
theorem register_empty :
    readFromClient env fd stale (registerMessage id []).encode s = .error .uninitialised := by
  rw [readFromClient_single env (registerMessage_wellFormed hid (by decide))]
  rfl

end Server

section Texts

variable {capacity : ℕ} {e : Editor UInt8 capacity} {t : Bytes}

/-- The characters that the field takes make one word. -/
theorem alphanumeric_text {b : UInt8} (h : isAlphanumeric b.toNat = true) :
    b ≠ 0 ∧ isSpace b = false := by
  obtain ⟨hlow, -⟩ := alphanumeric_range h
  constructor
  · rintro rfl
    exact absurd hlow (by decide)
  · apply Bool.eq_false_of_not_eq_true
    intro hspace
    simp only [isSpace, Bool.or_eq_true, beq_iff_eq, Bool.and_eq_true, decide_eq_true_eq,
      UInt8.le_iff_toNat_le] at hspace
    rcases hspace with rfl | ⟨-, hhigh⟩
    · exact absurd hlow (by decide)
    · have hbound : b.toNat ≤ 13 := hhigh
      omega

theorem editKey_alphanumeric {b : UInt8} (h : isAlphanumeric b.toNat = true) :
    editKey b.toNat e = e.insert b := by
  have hrange := alphanumeric_range h
  have hother : (b.toNat : ℤ) ≠ 1 ∧ ¬((b.toNat : ℤ) = 2 ∨ (b.toNat : ℤ) = keyLeft) ∧
      (b.toNat : ℤ) ≠ 5 ∧ ¬((b.toNat : ℤ) = 6 ∨ (b.toNat : ℤ) = keyRight) ∧
      ¬((b.toNat : ℤ) = 8 ∨ (b.toNat : ℤ) = keyBackspace) := by
    simp only [keyBackspace, keyLeft, keyRight]
    omega
  obtain ⟨h1, h2, h5, h6, h8⟩ := hother
  rw [editKey, if_neg h1, if_neg h2, if_neg h5, if_neg h6, if_neg h8, if_pos h, Int.toNat_natCast,
    UInt8.ofNat_toNat]

/-- Typing at the end of the line makes it longer. -/
theorem typed_text (ht : ∀ b ∈ t, isAlphanumeric b.toNat = true) (hend : e.cursor = e.text.length)
    (hlen : e.text.length + t.length ≤ capacity) :
    ((t.map fun b => (b.toNat : ℤ)).foldl (fun e input => editKey input e) e).text = e.text ++ t := by
  induction t generalizing e with
  | nil => rw [List.append_nil]; rfl
  | cons b t ih =>
    obtain ⟨hb, htail⟩ := List.forall_mem_cons.mp ht
    rw [List.length_cons] at hlen
    -- the cursor is at the end, so the character is appended
    have hroom : e.cursor ≠ capacity := by omega
    have htext : (e.insert b).text = e.text ++ [b] := by
      rw [Editor.insert_text hroom, hend, List.take_length, List.drop_length]
      apply List.take_of_length_le
      rw [List.length_append, List.length_singleton]
      omega
    have hlast : (e.text ++ [b]).length = e.text.length + 1 := by
      rw [List.length_append, List.length_singleton]
    rw [List.map_cons, List.foldl_cons, editKey_alphanumeric hb,
      ih htail (by rw [Editor.insert_cursor hroom, htext, hlast, hend]) (by rw [htext, hlast]; omega),
      htext, List.append_assoc]
    rfl

/-- Every text that fits can be entered: by its characters as keys. -/
theorem enter_text (ht : ∀ b ∈ t, isAlphanumeric b.toNat = true) (hlen : t.length ≤ capacity) :
    ∃ shown rest, run cursesTextFieldFeed (roomyField 3 20 3 1 capacity)
        ((t.map (fun b : UInt8 => (b.toNat : ℤ)) ++ [10]).takeWhile (· ≠ 10)) = .ok shown ∧
      cursesTextFieldValue shown = t ++ 0 :: rest := by
  -- none of the characters is the key that ends the loop
  have hkeys : (t.map (fun b : UInt8 => (b.toNat : ℤ)) ++ [10]).takeWhile (· ≠ 10) =
      t.map fun b : UInt8 => (b.toNat : ℤ) := by
    rw [List.takeWhile_append_of_pos]
    · exact List.append_nil _
    · intro key hkey
      obtain ⟨b, hb, rfl⟩ := List.mem_map.mp hkey
      have hrange := alphanumeric_range (ht b hb)
      simp only [decide_eq_true_eq]
      omega
  have hstart : ShowsLine (roomyField 3 20 3 1 capacity) (Editor.empty : Editor UInt8 capacity) :=
    ⟨rfl, rfl, rfl, List.not_mem_nil⟩
  obtain ⟨shown, hrun, h⟩ := run_shows hstart (t.map fun b : UInt8 => (b.toNat : ℤ))
  have htext := @typed_text capacity Editor.empty t ht rfl (by simpa [Editor.empty] using hlen)
  refine ⟨shown, List.replicate (capacity - t.length) 0, by rw [hkeys, hrun], ?_⟩
  rw [cursesTextFieldValue, h.enteredText, htext]
  change zeroFilled capacity t = _
  rw [zeroFilled, show capacity + 1 - t.length = capacity - t.length + 1 by omega,
    List.replicate_succ]

end Texts

section Kept

variable (env : ServerEnv) (fd : ℕ) (s : Server) (client : NetClient)
  {entry shown : CursesTextEntry} {chs : List ℤ} {t rest : Bytes}
  (henter : run cursesTextFieldFeed entry (chs.takeWhile (· ≠ 10)) = .ok shown)

include henter in
theorem empty_name_lost (htext : cursesTextFieldValue shown = 0 :: rest)
    (stack messageStack stale : Fresh) :
    ¬NameKept env fd s entry chs client [] stack messageStack stale := by
  rintro ⟨client', payload, server, hrun, hread, -⟩
  obtain ⟨id, hid, client₂, hrun₂⟩ := @runOnline_eq entry shown chs [] rest henter htext
    List.not_mem_nil (by decide) client stack messageStack
  rw [hrun₂, Except.ok.injEq, Prod.mk.injEq, Prod.mk.injEq] at hrun
  rw [← hrun.2.2, register_empty env hid] at hread
  exact absurd hread (by simp)

include henter in
theorem longest_name_lost (htext : cursesTextFieldValue shown = t ++ 0 :: rest) (h0 : 0 ∉ t)
    (hfull : t.length = playerNameMaxChars) (messageStack stale : Fresh) :
    ¬NameKept env fd s entry chs client t (fun _ => 65) messageStack stale := by
  rintro ⟨client', payload, server, hrun, -⟩
  rw [runOnline_unterminated henter htext h0 hfull] at hrun
  exact absurd hrun (by simp)

end Kept

/-- Whatever the arrays of the client and the buffer of the server held before, an alphanumeric
text in the field, of at most the maximum length, names the local player and the player that
the server creates exactly when it is neither empty nor of the maximum length. -/
theorem name_kept_iff (env : ServerEnv) (fd : ℕ) (s : Server) (client : NetClient)
    {entry shown : CursesTextEntry} {chs : List ℤ} {t rest : Bytes}
    (henter : run cursesTextFieldFeed entry (chs.takeWhile (· ≠ 10)) = .ok shown)
    (htext : cursesTextFieldValue shown = t ++ 0 :: rest)
    (halpha : ∀ b ∈ t, isAlphanumeric b.toNat = true) (hlen : t.length ≤ playerNameMaxChars) :
    (∀ stack messageStack stale, NameKept env fd s entry chs client t stack messageStack stale) ↔
      t ≠ [] ∧ t.length < playerNameMaxChars := by
  have hchars : ∀ b ∈ t, b ≠ 0 ∧ isSpace b = false := fun b hb => alphanumeric_text (halpha b hb)
  have h0 : 0 ∉ t := fun h => (hchars 0 h).1 rfl
  constructor
  · intro hkept
    constructor
    · -- sscanf finds no word
      rintro rfl
      exact empty_name_lost env fd s client henter htext _ _ _
        (hkept (fun _ => 0) (fun _ => 0) fun _ => 0)
    · -- strncpy copies no NUL
      apply lt_of_le_of_ne hlen
      intro hfull
      exact longest_name_lost env fd s client henter htext h0 hfull _ _
        (hkept (fun _ => 65) (fun _ => 0) fun _ => 0)
  · rintro ⟨hne, hroom⟩ stack messageStack stale
    obtain ⟨id, hid, client', hrun⟩ := runOnline_eq henter htext h0 hroom client stack messageStack
    obtain ⟨server, hread, hcreated⟩ := register_text env hid stale s hchars hne hlen
    refine ⟨client', _, server, hrun, hread, ?_⟩
    calc server.players.map Player.name
        = (playerCreate env fd t s).1.players.map Player.name := (sameSeats_of_unshadowed hcreated).names
      _ = s.players.map Player.name ++ [t] := List.map_append

/-- A player who types a name of three letters. -/
theorem name_kept_three_letters : ∃ shown,
    run cursesTextFieldFeed (roomyField 3 20 3 1 15) [66, 111, 98] = .ok shown ∧
      ∀ stack messageStack stale, NameKept heroEnv 4 serverInit (roomyField 3 20 3 1 15)
        [66, 111, 98, 10] netClientInit [66, 111, 98] stack messageStack stale := by
  have halpha : ∀ b ∈ ([66, 111, 98] : Bytes), isAlphanumeric b.toNat = true :=
    List.all_eq_true.mp (by decide)
  obtain ⟨shown, rest, henter, htext⟩ := @enter_text 15 [66, 111, 98] halpha (by decide)
  refine ⟨shown, henter, ?_⟩
  exact (name_kept_iff heroEnv 4 serverInit netClientInit henter htext halpha (by decide)).mpr
    (by decide)

/-- A player who enters nothing, and one whose name has fifteen letters. -/
theorem name_lost :
    (¬∀ stack messageStack stale, NameKept heroEnv 4 serverInit (roomyField 3 20 3 1 15) [10]
        netClientInit [] stack messageStack stale) ∧
      ¬∀ stack messageStack stale, NameKept heroEnv 4 serverInit (roomyField 3 20 3 1 15)
        (List.replicate 15 97 ++ [10]) netClientInit (List.replicate 15 97) stack messageStack stale := by
  constructor
  · intro hkept
    obtain ⟨shown, rest, henter, htext⟩ := @enter_text 15 [] (List.forall_mem_nil _) (by decide)
    exact empty_name_lost heroEnv 4 serverInit netClientInit henter htext (fun _ => 0)
      (fun _ => 0) (fun _ => 0) (hkept (fun _ => 0) (fun _ => 0) fun _ => 0)
  · intro hkept
    have halpha : ∀ b ∈ List.replicate 15 (97 : UInt8), isAlphanumeric b.toNat = true :=
      List.all_eq_true.mp (by decide)
    obtain ⟨shown, rest, henter, htext⟩ := @enter_text 15 (List.replicate 15 97) halpha (by decide)
    exact longest_name_lost heroEnv 4 serverInit netClientInit henter htext (by decide) (by decide)
      (fun _ => 0) (fun _ => 0) (hkept (fun _ => 65) (fun _ => 0) fun _ => 0)

end TetrisMint
