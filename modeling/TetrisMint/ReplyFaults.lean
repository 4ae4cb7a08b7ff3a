import TetrisMint.ServerAnswers

/-! Where the answers of the server and its boards can fail: only the encoder can, in a copy of a
name that has lost its NUL or in a blob too large for an int. -/
namespace TetrisMint

open CStrings FallibleRun

instance (maxStringLength : ℤ) (item : Item) : Decidable (Readable maxStringLength item) :=
  inferInstanceAs (Decidable (_ ∨ _))

/-- The first fault of the encoder in a list of copies, when it has written `used` bytes. -/
def encoderFault (maxStringLength : ℤ) : ℕ → List Item → Option Fault
  | _, [] => none
  | used, item :: items =>
    if Readable maxStringLength item then
      if used + (item.1.length + 1) < 2 ^ 30 then
        encoderFault maxStringLength (used + (item.1.length + 1)) items
      else some .overflow
    -- strnlen's bound may stop in the byte behind the text, and then the blob grows first
    else if item.1.length + 1 = sizeOfInt maxStringLength ∧ 2 ^ 30 ≤ used + (item.1.length + 2) then
      some .overflow
    else some .outOfBounds

/-- The fault of an answer that lists names. -/
def namesFault (heap : ℕ → Fresh) (names : List Bytes) : Option Fault :=
  encoderFault playerNameMaxChars wireHeaderSize (storedItems heap 0 names)

/-- The fault of the answer to a message. `n` payloads were sent before. -/
def replyFault (mem : WireMemory) (n : ℕ) (s : Server) (fd : ℕ) (msg : Message) : Option Fault :=
  if msg.messageType = msgTypeStartGame then
    match (getPlayerFromFd fd s).bind (partyOf · s) with
    | none => none
    | some party => namesFault (mem.items n) (partyNames party s)
  else if msg.messageType = msgTypeList then namesFault (mem.items n) (playerNames true s)
  else none

section Encoder

variable {fresh : Fresh} {maxStringLength : ℤ}

theorem errorOf_serializeStrings {items : List Item} {front : Bytes} (hfront : front.length < 2 ^ 30)
    (hitems : ∀ item ∈ items, 0 ∉ item.1 ∧ item.1.length ≤ sizeOfInt maxStringLength) :
    errorOf (serializeStrings fresh maxStringLength (items.map fun p => some p.bytes)
      (writtenBlob fresh (blobSize front.length) front) front.length) =
        encoderFault maxStringLength front.length items := by
  induction items generalizing front with
  | nil => rfl
  | cons item items ih =>
    obtain ⟨⟨h0, hn⟩, hrest⟩ := List.forall_mem_cons.mp hitems
    have hgrow (len : ℕ) := @growBlob_written fresh front front.length (front.length + (len + 1))
      hfront (by omega) (le_refl _)
    rw [List.map_cons, serializeStrings, encoderFault]
    obtain ⟨hread, hlen, hcopy⟩ | ⟨hread, hfail⟩ := strncpy_item h0 hn
    · -- the copy is appended, and the loop goes on behind it
      have hreadable : Readable maxStringLength item := hread
      rw [if_pos hreadable, hlen, access_some, ok_bind]
      simp only [hgrow]
      split_ifs with hfit
      · obtain ⟨hlength, hwritten⟩ := strncpy_grown fresh front hcopy
        rw [ok_bind, hwritten, access_some, ok_bind, ← hlength]
        exact ih (hlength ▸ hfit) hrest
      · rfl
    · -- the copy has lost its NUL
      have hunreadable : ¬Readable maxStringLength item := hread
      rw [if_neg hunreadable]
      have hopen : 0 ∉ item.bytes := by
        simp only [Item.bytes, List.mem_append, List.mem_singleton, not_or]
        exact ⟨h0, fun h => hread (Or.inl h.symm)⟩
      have hlen := strnlen_unterminated hopen (sizeOfInt maxStringLength)
      have hsize : item.bytes.length = item.1.length + 1 := by
        rw [Item.bytes, List.length_append, List.length_singleton]
      -- strnlen stops at its bound inside of the copy, or reads on behind it
      by_cases hstop : sizeOfInt maxStringLength ≤ item.bytes.length
      · have hbound : item.1.length + 1 = sizeOfInt maxStringLength := by
          have hne : item.1.length ≠ sizeOfInt maxStringLength := fun h => hread (Or.inr h)
          omega
        rw [if_pos hstop] at hlen
        rw [hlen, access_some, ok_bind, ← hbound]
        simp only [hgrow]
        by_cases hfit : front.length + (item.1.length + 1 + 1) < 2 ^ 30
        · rw [if_pos hfit, if_neg (by omega), ok_bind, strncpy, hbound, hfail _ hlen]
          rfl
        · rw [if_neg hfit, if_pos ⟨trivial, by omega⟩]
          rfl
      · rw [if_neg hstop] at hlen
        rw [hlen, if_neg (by omega)]
        rfl

theorem errorOf_sendStringArray {arr : StringArray} {items : List Item} {requestId : ℤ}
    {messageType : UInt8}
    (hitems : ∀ item ∈ items, 0 ∉ item.1 ∧ item.1.length ≤ sizeOfInt arr.maxStringLength)
    (harr : arr.strings = items.map fun p => some p.bytes) :
    errorOf (sendStringArray fresh arr requestId messageType) =
      encoderFault arr.maxStringLength wireHeaderSize items := by
  have hsize : blobSize (wireHeader arr).length = 128 := by
    rw [length_wireHeader]
    rfl
  have hheader : store (createBlob fresh 128).bytes 0 (wireHeader arr) =
      some (writtenBlob fresh 128 (wireHeader arr)).bytes := by
    apply @store_written fresh [] 128
    rw [length_wireHeader]
    decide
  have hfront : (wireHeader arr).length < 2 ^ 30 := by
    rw [length_wireHeader]
    decide
  have hserialize : errorOf (stringArraySerialize fresh arr) =
      encoderFault arr.maxStringLength wireHeaderSize items := by
    have herror := @errorOf_serializeStrings fresh _ items _ hfront hitems
    rw [hsize, length_wireHeader, ← harr] at herror
    rw [stringArraySerialize, hheader]
    exact herror
  -- a blob that is written is sent
  rw [sendStringArray, errorOf_bind, hserialize]
  intro blob hblob
  obtain ⟨-, rfl⟩ := (serializeItems_eq_ok fresh hitems harr).mp hblob
  refine ⟨_, messageBlob_written fresh ?_ requestId messageType⟩
  rw [List.length_append, length_wireHeader]
  exact (@Doubling.lt_capacity 128 _ (by decide)).le

theorem errorOf_sendNames {heap : ℕ → Fresh} {arr : StringArray} {names : List Bytes}
    {requestId : ℤ} {messageType : UInt8} (hnames : ∀ name ∈ names, IsName name)
    (hmax : arr.maxStringLength = playerNameMaxChars)
    (harr : arr.strings = (storedItems heap 0 names).map fun p => some p.bytes) :
    errorOf (sendStringArray fresh arr requestId messageType) = namesFault heap names := by
  rw [errorOf_sendStringArray (by rw [hmax]; exact storedNames_bound hnames) harr, hmax, namesFault]

end Encoder

section Replies

variable {s : Server} (hnames : ∀ p ∈ s.players, IsName p.name)

include hnames in
theorem errorOf_sendOnlineUsers (heap : ℕ → Fresh) (fresh : Fresh) (requestId : ℤ) :
    errorOf (sendOnlineUsers heap fresh requestId s) = namesFault heap (playerNames true s) := by
  obtain ⟨⟨arr, harr⟩, hbuilt⟩ := @playerNamesArray_eq_ok heap s hnames true
  obtain ⟨hmax, hstrings⟩ := hbuilt arr harr
  rw [sendOnlineUsers, harr, ok_bind]
  exact errorOf_sendNames (listed_names hnames true) hmax hstrings

include hnames in
theorem errorOf_tellParty (hi : ServerInv s) (heap : ℕ → Fresh) (fresh : Fresh) (party : ℕ) :
    errorOf (tellPartyThatTheGameStarted heap fresh party s) =
      namesFault heap (partyNames party s) := by
  have hmembers := member_names hnames party
  obtain ⟨hreturns, hbuilt⟩ := @buildStringArray_eq_ok heap playerNameMaxChars
    (partyNames party s) fun n hn => (hmembers n hn).1
  obtain ⟨arr, harr⟩ := hreturns fun n hn => lt_of_le_of_lt (hmembers n hn).2 (by decide)
  obtain ⟨hmax, -, hstrings⟩ := hbuilt arr harr
  rw [tellPartyThatTheGameStarted, memberNames_eq_build hi, harr, ok_bind,
    errorOf_bind fun a _ => ⟨_, rfl⟩]
  exact errorOf_sendNames hmembers hmax hstrings

include hnames in
/-- The answer fails as the names in it do, and the others never do. -/
theorem errorOf_replies {env : ServerEnv} {mem : WireMemory} {fd n : ℕ} {msg : Message}
    {rs : ReadState} (hi : ServerInv s)
    (hrs : handleMessage env fd msg.header ⟨s, getPlayerFromFd fd s, none⟩ msg.body = .ok rs) :
    errorOf (Traffic.replies mem fd msg.header n rs) = replyFault mem n s fd msg := by
  have hdistinct : msgTypeStartGame ≠ msgTypeRegister ∧ msgTypeList ≠ msgTypeRegister := by decide
  rw [Traffic.replies, replyFault, msg.header_messageType]
  by_cases hstart : msg.messageType = msgTypeStartGame
  · rw [if_pos hstart, if_pos hstart]
    rcases handleMessage_cases env hrs with ⟨hregister, -⟩ | ⟨-, hplayer, -, hswitch⟩
    · exact absurd (hstart.symm.trans hregister) hdistinct.1
    · rw [serverSwitch, msg.header_messageType, if_pos hstart] at hswitch
      obtain ⟨i, p, hplayer', hp, hstarted⟩ := startGame_eq_ok.mp hswitch
      -- a start only adds clocks, so that the party and its names are those before the message
      have hplayers : rs.server.players = s.players := by rw [hstarted]
      have hparties : rs.server.parties = s.parties := by rw [hstarted]
      have hparty : partyOf i s = p.party := by
        have hp' : s.players[i]? = some p := hp
        rw [partyOf, hp', Option.bind_some]
      have hpartyNames (party : ℕ) : partyNames party rs.server = partyNames party s := by
        rw [partyNames, partyNames, ttetrisPartyGetPlayers, ttetrisPartyGetPlayers, hplayers, hparties]
      have hget : rs.server.players[i]? = some p := by
        rw [hplayers]
        exact hp
      have hsender : getPlayerFromFd fd s = some i := hplayer'
      rw [hplayer, hsender, deref_some, ok_bind, hget, deref_some, ok_bind, Option.bind_some, hparty]
      cases p.party with
      | none => rfl
      | some party =>
        simp only
        rw [errorOf_tellParty (hplayers.symm ▸ hnames) (startGame_inv hi hswitch), hpartyNames]
  · rw [if_neg hstart, if_neg hstart]
    by_cases hlist : msg.messageType = msgTypeList
    · have hsame : rs.server = s := handleMessage_list env hlist hrs
      rw [if_neg (hlist.symm ▸ hdistinct.2), if_pos hlist, if_pos hlist,
        errorOf_bind fun a _ => ⟨_, rfl⟩, hsame]
      exact errorOf_sendOnlineUsers hnames _ _ _
    · rw [if_neg hlist, if_neg hlist]
      split_ifs
      · rfl
      · rfl

end Replies

namespace Traffic

section Boards

variable {mem : WireMemory} {w : Traffic} {player : ℕ} (env : ServerEnv)

/-- A board always goes out. -/
theorem sendPlayer_returns (hs : ServerInv w.server) (htexts : ∀ p ∈ w.server.players, 0 ∉ p.name)
    (hp : player < w.server.players.length) (fd : ℤ) : ∃ w', sendPlayer mem fd player w = .ok w' := by
  rw [sendPlayer]
  split_ifs with hclosed
  · exact ⟨w, rfl⟩
  · have hget := List.getElem?_eq_getElem hp
    have hmem := List.mem_of_getElem? hget
    obtain ⟨⟨contents, view⟩, hview⟩ := view_returns (hs.games _ hmem)
    obtain ⟨payload, hpayload, -⟩ := board_fits (hs.games _ hmem) (htexts _ hmem) (mem.blob w.sent.length)
    obtain ⟨⟨p, blob⟩, hblob, hsend⟩ := bind_eq_ok.mp hpayload
    have hsent : messageBlob blob 0 msgTypeBoard = .ok payload := hsend
    rw [hget, deref_some, ok_bind, hblob, ok_bind]
    simp only [hsent, ok_bind]
    exact ⟨_, rfl⟩

/-- What the boards leave alone. -/
def Ready (players : ℕ) (w : Traffic) : Prop :=
  ServerInv w.server ∧ (∀ x ∈ w.server.keys, IsName x.2) ∧ w.server.players.length = players

theorem Ready.texts {players : ℕ} (h : Ready players w) : ∀ p ∈ w.server.players, 0 ∉ p.name :=
  fun p hp => (h.2.1 p.key (mem_keys hp)).1

theorem ready_of_unshadowed {players : ℕ} {w' : Traffic} (h : Ready players w)
    (hsame : w'.server.unshadowed = w.server.unshadowed) : Ready players w' := by
  refine ⟨serverInv_of_unshadowed hsame h.1, ?_, ?_⟩
  · rw [keys_of_unshadowed hsame]
    exact h.2.1
  · rw [(sameSeats_of_unshadowed hsame).length]
    exact h.2.2

include env in
theorem sendBoards_return {players : ℕ} (h : Ready players w) (hp : player < players) :
    ∃ w', sendBoards mem player w = .ok w' := by
  have hget := List.getElem?_eq_getElem (h.2.2.symm ▸ hp : player < w.server.players.length)
  have hreceivers := boardReceivers_lt h.1 hget
  obtain ⟨w', hw', -⟩ := @run_returns _ _ _ (sendBoard mem player) (Ready players)
    (boardReceivers player _ w.server) (by
      intro u receiver hmem hu
      have hr : receiver < u.server.players.length := by
        rw [hu.2.2, ← h.2.2]
        exact hreceivers receiver hmem
      obtain ⟨v, hv⟩ := @sendPlayer_returns mem u player hu.1 hu.texts (hu.2.2.symm ▸ hp)
        u.server.players[receiver].fd
      refine ⟨v, ?_, ready_of_unshadowed hu (sendPlayer_unshadowed env hv)⟩
      rw [sendBoard, List.getElem?_eq_getElem hr, deref_some, ok_bind, hv])
    w h
  exact ⟨w', by rw [sendBoards, hget, deref_some, ok_bind, hw']⟩

include env in
theorem clockSendBoards_return {players : ℕ} (h : Ready players w) (hp : player < players)
    (fails : ℕ → Bool) {receivers : List (ℕ × ℕ)} (hreceivers : ∀ r ∈ receivers, r.1 < players) :
    ∃ w', run (clockSendBoard mem fails player) w receivers = .ok w' ∧ Ready players w' := by
  apply @run_returns _ _ _ (clockSendBoard mem fails player) (Ready players) receivers _ w h
  intro u receiver hmem hu
  have hr : receiver.1 < u.server.players.length := by
    rw [hu.2.2]
    exact hreceivers receiver hmem
  obtain ⟨v, hv⟩ := @sendPlayer_returns mem u player hu.1 hu.texts (hu.2.2.symm ▸ hp)
    u.server.players[receiver.1].fd
  obtain ⟨w', hw'⟩ : ∃ w', clockSendBoard mem fails player u receiver = .ok w' := by
    rw [clockSendBoard, List.getElem?_eq_getElem hr, deref_some, ok_bind, hv, ok_bind]
    split_ifs
    · exact ⟨_, rfl⟩
    · exact ⟨_, rfl⟩
  have hserver := clockSendBoard_server env hw'
  refine ⟨w', hw', clockSendBoard_inv env hu.1 hserver, ?_, ?_⟩
  · -- a socket may be closed, but nobody is renamed
    intro y hy
    obtain ⟨j, hj⟩ := List.mem_iff_getElem?.mp hy
    obtain ⟨x, hx, hname, -⟩ := (clockSendBoard_resets env hserver).entry j y hj
    rw [hname]
    exact hu.2.1 x (List.mem_of_getElem? hx)
  · rw [(clockSendBoard_seats env hserver).length]
    exact hu.2.2

end Boards

end Traffic

end TetrisMint
