import TetrisMint.OptionSelection
import TetrisMint.ServerAnswers

/-! The lobby of `client.c`: the list of players from the server, the choice of the user, the
invitation and the start of the game. -/
namespace TetrisMint

open Chooser CStrings FallibleRun FirstMatch

section Client

/-- The request for the list of players. -/
def tetrisList (client : NetClient) : NetClient × Bytes := ttetrisNetRequest client [] msgTypeList

/-- What `tetris_list` returns once the request is complete. The header that it looks at is not
there: `cursor` is a copy of the body alone. -/
def tetrisListResponse (heap : ℕ → Fresh) (request : NetRequest) : Except Fault StringArray := do
  let cursor ← deref request.cursor
  let contentLength ← access (leField cursor 6 2)
  stringArrayDeserialize heap ⟨contentLength, cursor⟩

def optionAt (options : List Bytes) (index : ℤ) : Except Fault Bytes :=
  if index < 0 then .error .outOfBounds else access options[index.toNat]?

/-- The body of the loop that copies the selected options. -/
def setSelected (heap : ℕ → Fresh) (selection : WidgetSelection) (arr : StringArray) (i : ℕ) :
    Except Fault StringArray := do
  let index ← access selection.indices[i]?
  let option ← optionAt selection.options index
  stringArraySetItem (heap i) arr i option

def selectionToStringArray (heap : ℕ → Fresh) (selection : WidgetSelection) :
    Except Fault StringArray :=
  run (setSelected heap selection) (stringArrayCreate selection.numSelected playerNameMaxChars)
    (List.range selection.numSelected)

/-- The invitation. The length of the blob is passed as a uint16_t. -/
def tetrisOpponent (fresh : Fresh) (client : NetClient) (usernames : StringArray) :
    Except Fault (NetClient × Bytes) := do
  let message ← stringArraySerialize fresh usernames
  let bytes ← access (bytesAt message.bytes (message.length % 2 ^ 16))
  .ok (ttetrisNetRequest client bytes msgTypeOpponent)

/-- This message is not a request. -/
def tetrisTellServerToStart : Bytes := messageNbytes [] 0 msgTypeStartGame

/-- What the allocations of the lobby find in their memory. -/
structure LobbyMemory where
  listed : ℕ → Fresh
  opponents : ℕ → Fresh
  message : Fresh

/-- How the lobby goes on when the list has come: it asks again while nobody is listed, the
program ends where the widget cannot be made, and otherwise two messages are sent. -/
inductive LobbyTurn
  | askAgain
  | exit
  | invite (client : NetClient) (invitation start : Bytes)

def playerLobby (mem : LobbyMemory) (chs : List ℤ) (request : NetRequest) (client : NetClient) :
    Except Fault LobbyTurn := do
  let onlineUsernames ← tetrisListResponse mem.listed request
  if onlineUsernames.length = 0 then .ok .askAgain
  else do
    let options ← onlineUsernames.strings.mapM deref
    match ← ttvizSelect options onlineUsernames.length false chs with
    | none => .ok .exit
    | some selection => do
      let opponents ← selectionToStringArray mem.opponents selection
      let (client, invitation) ← tetrisOpponent mem.message client opponents
      .ok (.invite client invitation tetrisTellServerToStart)

end Client

/-- The names on which the space bar was pressed an odd number of times, in the order of the list. -/
def pickedNames (entry : CursesCombobox) (listed : List Bytes) (chs : List ℤ) : List Bytes :=
  ((List.range listed.length).filter fun k =>
    Odd (timesToggled k entry (chs.takeWhile (· ≠ 10)))).filterMap (listed[·]?)

section Listing

variable {client : NetClient} (hfew : client.openRequests.length < 32767)

include hfew in
/-- The number of a request that still fits a short. -/
theorem tetrisList_eq : tetrisList client =
    ({ client with openRequests := client.openRequests ++
        [⟨client.openRequests.length + 1, none, false⟩] },
      (bareMessage msgTypeList (client.openRequests.length + 1)).encode) := by
  have hid : shortOfInt ((client.openRequests.length : ℤ) + 1) = client.openRequests.length + 1 := by
    rw [shortOfInt]
    split_ifs <;> omega
  rw [tetrisList, ttetrisNetRequest, hid]
  rfl

/-- The client after an answer to its last request. -/
def listedClient (client : NetClient) (body : Bytes) : NetClient :=
  { (tetrisList client).1 with
    openRequests := answeredRequests (client.openRequests.length + 1) body
      (tetrisList client).1.openRequests }

include hfew in
/-- The answer completes the request with a copy of its body. -/
theorem list_received {body : Bytes} (hsize : messageHeaderSize + body.length ≤ maxMsg) (heap : ℕ → Fresh)
    (stale : Fresh) :
    readFromServer heap stale (tetrisList client).1
        (Message.encode ⟨msgTypeListResponse, client.openRequests.length + 1, body⟩) =
      .ok (listedClient client body,
        [(0, ⟨msgTypeListResponse, client.openRequests.length + 1, body⟩)]) ∧
    (listedClient client body).openRequests.getLast? =
      some ⟨client.openRequests.length + 1, some body, true⟩ := by
  let msg : Message := ⟨msgTypeListResponse, client.openRequests.length + 1, body⟩
  have hfits : msg.Fits := by
    rw [messageHeaderSize, maxMsg] at hsize
    constructor
    · change client.openRequests.length + 1 < 2 ^ 16
      omega
    · change body.length < 2 ^ 16
      omega
  have hswitch (rest : Bytes) : clientSwitch heap msg.header (msg.body ++ rest) (tetrisList client).1 =
      .ok (some (tetrisList client).1) := by
    have htype : msg.header.messageType = msgTypeListResponse := rfl
    rw [clientSwitch, htype, if_neg (by decide), if_neg (by decide), if_pos (Or.inr rfl)]
  refine ⟨readFromServer_message hfits stale (hswitch _), ?_⟩
  rw [listedClient, tetrisList_eq hfew, answeredRequests, if_neg (Nat.succ_ne_zero _), List.map_append,
    List.map_singleton, List.getLast?_concat, NetRequest.answered, if_pos (Nat.cast_succ _).symm]

/-- The list that is read from the copy of the body. -/
theorem tetrisListResponse_eq {listed : List Bytes} (hnames : ∀ name ∈ listed, IsName name)
    (hsize : wireSize listed < 2 ^ 30) {heap : ℕ → Fresh} (hheap : NulsZero heap listed)
    (fresh : Fresh) (id : ℤ) :
    ∃ names, tetrisListResponse heap ⟨id, some (nameBlob fresh listed).bytes, true⟩ =
      .ok names ∧ HoldsNames names listed := by
  obtain ⟨contentLength, hlength⟩ : ∃ v, leField (nameBlob fresh listed).bytes 6 2 = some v := by
    have hheader : 8 ≤ (nameBlob fresh listed).bytes.length := by
      have hused := (@Doubling.lt_capacity 128 (wireSize listed) (by decide)).le
      have hlen := length_nameBlob fresh listed
      rw [blobSize] at hlen
      rw [hlen]
      apply le_trans _ hused
      rw [wireSize, wireHeaderSize]
      exact Nat.le_add_right _ _
    rw [leField, if_pos (by omega)]
    exact ⟨_, rfl⟩
  obtain ⟨names, hdecoded, hholds⟩ := deserialize_names hnames hsize hheap contentLength
    ((malloc fresh (blobSize (wireSize listed))).drop (nameBytes listed).length)
  refine ⟨names, ?_, hholds⟩
  rw [tetrisListResponse, deref_some, ok_bind, hlength, access_some, ok_bind]
  exact hdecoded

end Listing

section Choosing

variable {listed : List Bytes} {names : StringArray}

theorem mapM_deref (l : List Bytes) : (l.map some).mapM deref = Except.ok (ε := Fault) l := by
  induction l with
  | nil => rfl
  | cons a l ih =>
    rw [List.map_cons, List.mapM_cons, deref_some, ih]
    rfl

theorem isName_picked (hnames : ∀ name ∈ listed, IsName name) (entry : CursesCombobox) (chs : List ℤ) :
    ∀ name ∈ pickedNames entry listed chs, IsName name := by
  intro name hname
  obtain ⟨k, -, hk⟩ := List.mem_filterMap.mp hname
  exact hnames name (List.mem_of_getElem? hk)

/-- The selected names stand in the list in the same order. -/
theorem picked_sublist (entry : CursesCombobox) (listed : List Bytes) (chs : List ℤ) :
    (pickedNames entry listed chs).Sublist listed := by
  have hget : (List.range listed.length).map (listed[·]?) = listed.map some := by
    apply List.ext_getElem
    · rw [List.length_map, List.length_map, List.length_range]
    · intro i hi hi'
      rw [List.length_map] at hi'
      rw [List.getElem_map, List.getElem_map, List.getElem_range, List.getElem?_eq_getElem hi']
  have hall : (List.range listed.length).filterMap (listed[·]?) = listed := by
    calc (List.range listed.length).filterMap (listed[·]?)
        = ((List.range listed.length).map (listed[·]?)).filterMap id := by
          rw [List.filterMap_map, Function.id_comp]
      _ = (listed.map some).filterMap id := by rw [hget]
      _ = listed := by rw [List.filterMap_map, Function.id_comp, List.filterMap_some]
  rw [pickedNames]
  conv_rhs => rw [← hall]
  exact List.filter_sublist.filterMap _

theorem wireSize_sublist {l m : List Bytes} (h : l.Sublist m) : wireSize l ≤ wireSize m := by
  rw [wireSize, wireSize]
  have hsum := (h.map fun s : Bytes => s.length + 1).sum_le_sum (fun _ _ => Nat.zero_le _)
  omega

/-- From the option `k` on, the loop sets what is left of the selection. -/
theorem run_setSelected {heap : ℕ → Fresh} {selection : WidgetSelection} {picked : List Bytes}
    (h : ∀ (i : ℕ) (name : Bytes), picked[i]? = some name → ∃ index : ℤ, selection.indices[i]? = some index ∧
      optionAt selection.options index = .ok (name ++ [0])) (m k : ℕ) (hk : k + m = picked.length)
    (arr : StringArray) : run (setSelected heap selection) arr (List.range' k m) =
      setItems heap (picked.drop k) k arr := by
  induction m generalizing k arr with
  | zero =>
    rw [List.drop_of_length_le (by omega)]
    rfl
  | succ m ih =>
    have hlt : k < picked.length := by omega
    obtain ⟨index, hindex, hoption⟩ := h k _ (List.getElem?_eq_getElem hlt)
    have hstep : setSelected heap selection arr k = stringArraySetItem (heap k) arr k (picked[k] ++ [0]) := by
      rw [setSelected, hindex, access_some, ok_bind, hoption, ok_bind]
    rw [List.range'_succ, List.drop_eq_getElem_cons hlt, setItems]
    cases harr : stringArraySetItem (heap k) arr k (picked[k] ++ [0]) with
    | error e => rw [run, hstep, harr]; rfl
    | ok arr' => rw [run_cons_ok _ _ (hstep.trans harr), ih (k + 1) (by omega), ok_bind]

/-- The array of the selected options. -/
theorem selectionToStringArray_eq (hnames : ∀ name ∈ listed, IsName name) {indices : List ℕ}
    (hindices : ∀ k ∈ indices, k < listed.length) {heap : ℕ → Fresh}
    (hheap : NulsZero heap (indices.filterMap (listed[·]?))) (numOptions : ℤ) : ∃ arr,
      selectionToStringArray heap ⟨listed.map (· ++ [0]), numOptions, indices.length,
        indices.map Nat.cast⟩ = .ok arr ∧ HoldsNames arr (indices.filterMap (listed[·]?)) := by
  let picked := indices.map fun k => listed.getD k []
  -- all indices are in the list, so each stands for a name
  have hentry (k : ℕ) (hk : k ∈ indices) : listed[k]? = some (listed.getD k []) := by
    rw [List.getD_eq_getElem?_getD, List.getElem?_eq_getElem (hindices k hk), Option.getD_some]
  have hpicked : indices.filterMap (listed[·]?) = picked := by
    calc indices.filterMap (listed[·]?)
        = indices.filterMap (some ∘ fun k => listed.getD k []) := List.filterMap_congr hentry
      _ = picked := by rw [List.filterMap_eq_map]
  have hmem : ∀ name ∈ picked, IsName name := by
    intro name hname
    obtain ⟨k, hk, rfl⟩ := List.mem_map.mp hname
    exact hnames _ (List.mem_of_getElem? (hentry k hk))
  have hlen : picked.length = indices.length := List.length_map _
  let selection : WidgetSelection :=
    ⟨listed.map (· ++ [0]), numOptions, indices.length, indices.map Nat.cast⟩
  have hoptions (i : ℕ) (name : Bytes) (hname : picked[i]? = some name) :
      ∃ index : ℤ, selection.indices[i]? = some index ∧
        optionAt selection.options index = .ok (name ++ [0]) := by
    rw [List.getElem?_map] at hname
    obtain ⟨k, hk, rfl⟩ := Option.map_eq_some_iff.mp hname
    refine ⟨k, by rw [List.getElem?_map, hk, Option.map_some], ?_⟩
    rw [optionAt, if_neg (by omega), Int.toNat_natCast, List.getElem?_map,
      hentry k (List.mem_of_getElem? hk), Option.map_some, access_some]
  have hrun := @run_setSelected heap _ _ hoptions indices.length 0 (by rw [Nat.zero_add, hlen])
  obtain ⟨hreturns, hbuilt⟩ := @buildStringArray_eq_ok heap playerNameMaxChars picked
    fun name hname => (hmem name hname).1
  obtain ⟨arr, harr⟩ := hreturns fun name hname => lt_of_le_of_lt (hmem name hname).2 (by decide)
  obtain ⟨hmax, hlength, hstrings⟩ := hbuilt arr harr
  rw [hpicked] at hheap ⊢
  refine ⟨arr, ?_, hmax, hlength, ?_⟩
  · rw [buildStringArray, hlen] at harr
    rw [selectionToStringArray, List.range_eq_range', hrun, List.drop_zero, harr]
  · rw [hstrings, storedItems_of_nulsZero hheap, List.map_map]
    rfl

/-- One turn of the lobby with somebody on the list: an invitation of the names that are picked,
and the message to start. -/
theorem playerLobby_invites (hnames : ∀ name ∈ listed, IsName name) (hne : listed ≠ [])
    (hsize : wireSize listed < 1024) {lobby : LobbyMemory} (hlisted : NulsZero lobby.listed listed)
    (fresh : Fresh) (id : ℤ) (chs : List ℤ) (client : NetClient) : ∃ entry,
      cursesComboboxCreate 7 20 5 1 (listed.map (· ++ [0])) (BitVec.ofNat 32 listed.length) = some entry ∧
      (NulsZero lobby.opponents (pickedNames entry listed chs) → ∃ client' gap, ∃ id' < 2 ^ 16,
        playerLobby lobby chs ⟨id, some (nameBlob fresh listed).bytes, true⟩ client =
          .ok (.invite client'
            (opponentMessage id' playerNameMaxChars (pickedNames entry listed chs) gap).encode
            tetrisTellServerToStart) ∧
        ClientMessage (opponentMessage id' playerNameMaxChars (pickedNames entry listed chs) gap)) := by
  obtain ⟨names, hlist, hholds⟩ :=
    tetrisListResponse_eq hnames (hsize.trans (by decide)) hlisted fresh id
  have hcount : (listed.map (· ++ [0])).length = listed.length := List.length_map _
  have hpos : 0 < (listed.map (· ++ [0])).length := by
    rw [hcount]
    exact List.length_pos_of_ne_nil hne
  have hint : (listed.map (· ++ [0])).length < 2 ^ 31 := by
    have hle := length_le_wireSize listed
    omega
  obtain ⟨entry, hcreate, hchoice, hselect⟩ := ttvizSelect_eq hpos hint chs
  obtain ⟨marks, hmarks, hselect⟩ : ∃ marks : ℕ → Bool,
      (∀ k < (listed.map (· ++ [0])).length,
        marks k = true ↔ Odd (timesToggled k entry (chs.takeWhile (· ≠ 10)))) ∧
      ttvizSelect (listed.map (· ++ [0])) (listed.map (· ++ [0])).length false chs =
        .ok (some ⟨listed.map (· ++ [0]), (listed.map (· ++ [0])).length,
          (chosen marks (listed.map (· ++ [0])).length).length,
          (chosen marks (listed.map (· ++ [0])).length).map Nat.cast⟩) :=
    ⟨_, fun k hk => isMarked_foldl hchoice _ hk, hselect⟩
  rw [hcount] at hcreate hmarks hselect
  -- the marks at the end are those of an odd number of times
  have hchosen : chosen marks listed.length = (List.range listed.length).filter fun k =>
      Odd (timesToggled k entry (chs.takeWhile (· ≠ 10))) := by
    apply List.filter_congr
    intro k hk
    rw [Bool.eq_iff_iff, hmarks k (List.mem_range.mp hk), decide_eq_true_iff]
  refine ⟨entry, hcreate, fun hzero => ?_⟩
  have hpicked := isName_picked hnames entry chs
  have hzeros : NulsZero lobby.opponents ((chosen marks listed.length).filterMap (listed[·]?)) := by
    rw [hchosen, ← pickedNames]
    exact hzero
  obtain ⟨opponents, hopponents, hpickedHolds⟩ := @selectionToStringArray_eq listed hnames
    (chosen marks listed.length) (fun k hk => (mem_chosen.mp hk).1) _ hzeros listed.length
  rw [hchosen, ← pickedNames] at hpickedHolds
  have hless := (wireSize_sublist (picked_sublist entry listed chs)).trans_lt hsize
  let blob := nameBlob lobby.message (pickedNames entry listed chs)
  have hblob : stringArraySerialize lobby.message opponents = .ok blob :=
    (serialize_names lobby.message hpicked hpickedHolds).mpr ⟨hless.trans (by decide), rfl⟩
  have hlen : blob.bytes.length = blob.length := length_nameBlob lobby.message _
  have hfits := (blobSize_fits _).mpr hless
  rw [messageHeaderSize, maxMsg] at hfits
  have hword : blob.length % 2 ^ 16 = blob.length := by
    apply Nat.mod_eq_of_lt
    change blobSize (wireSize (pickedNames entry listed chs)) < 2 ^ 16
    omega
  have hopponent : tetrisOpponent lobby.message client opponents =
      .ok (ttetrisNetRequest client blob.bytes msgTypeOpponent) := by
    rw [tetrisOpponent, hblob, ok_bind, hword, bytesAt, if_pos hlen.ge, ← hlen, List.take_length,
      access_some, ok_bind]
  obtain ⟨id', hid', hencode⟩ := ttetrisNetRequest_encode client blob.bytes msgTypeOpponent
  refine ⟨(ttetrisNetRequest client blob.bytes msgTypeOpponent).1,
    (malloc lobby.message (blobSize (wireSize (pickedNames entry listed chs)))).drop
      (nameBytes (pickedNames entry listed chs)).length, id', hid', ?_, ?_⟩
  · have hsome : ¬names.length = 0 := by
      rw [hholds.length]
      exact_mod_cast (List.length_pos_of_ne_nil hne).ne'
    have hoptions : names.strings.mapM deref = .ok (listed.map (· ++ [0])) := by
      rw [hholds.strings, ← mapM_deref, List.map_map]
      rfl
    rw [playerLobby, hlist, ok_bind, if_neg hsome, hoptions, ok_bind, hholds.length, hselect]
    simp only [ok_bind, hopponents, hopponent, hencode]
    rfl
  · apply opponentMessage_wellFormed hid' (by decide)
    · intro name hname
      obtain ⟨h0, hletters⟩ := hpicked name hname
      exact ⟨h0, by exact_mod_cast hletters⟩
    · change messageHeaderSize + blob.bytes.length ≤ maxMsg
      rw [hlen]
      exact (blobSize_fits _).mpr hless

theorem playerLobby_asksAgain (lobby : LobbyMemory) (fresh : Fresh) (id : ℤ) (chs : List ℤ)
    (client : NetClient) :
    playerLobby lobby chs ⟨id, some (nameBlob fresh []).bytes, true⟩ client = .ok .askAgain := by
  obtain ⟨names, hlist, hholds⟩ :=
    @tetrisListResponse_eq [] (by simp) (by decide) _ (nulsZero_nil lobby.listed) fresh id
  have hnone : names.length = 0 := hholds.length
  rw [playerLobby, hlist, ok_bind, if_pos hnone]

end Choosing

end TetrisMint
