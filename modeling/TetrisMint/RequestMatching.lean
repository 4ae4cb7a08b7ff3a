import TetrisMint.ClientSpec

namespace TetrisMint

open CStrings

/-- A client, and the payloads of the requests that it has sent. -/
structure RequestLink where
  client : NetClient
  sent : List Bytes

def RequestLink.request (link : RequestLink) (bytes : Bytes) (messageType : UInt8) : RequestLink :=
  let (client, payload) := ttetrisNetRequest link.client bytes messageType
  ⟨client, link.sent ++ [payload]⟩

/-- The server's answer to a request, with the id of the request's header. Only
REGISTER and LIST are answered. -/
def serverAnswer (payload names : Bytes) : Option Message := do
  let header ← readHeader payload 0
  if header.messageType = msgTypeRegister then
    some ⟨msgTypeRegisterSuccess, header.requestId, []⟩
  else if header.messageType = msgTypeList then
    some ⟨msgTypeListResponse, header.requestId, names⟩
  else none

/-- The links that are reached by sending these requests, of the given type and
body each. In between, answers to earlier requests and other messages of the
server arrive in any order, and a player may be set. -/
inductive Reaches (heap : ℕ → Fresh) : List (UInt8 × Bytes) → RequestLink → Prop
  | start : Reaches heap [] ⟨netClientInit, []⟩
  | setPlayer {requests link} (player : LocalPlayer) : Reaches heap requests link →
      Reaches heap requests { link with client := { link.client with player := some player } }
  | request {requests link} (messageType : UInt8) (bytes : Bytes) : Reaches heap requests link →
      Reaches heap (requests ++ [(messageType, bytes)]) (link.request bytes messageType)
  | answer {requests link payload names answer stale client' handled} {k : ℕ} :
      Reaches heap requests link → link.sent[k]? = some payload →
      serverAnswer payload names = some answer → answer.size ≤ maxMsg →
      readFromServer heap stale link.client answer.encode = .ok (client', handled) →
      Reaches heap requests { link with client := client' }
  | notice {requests link msg stale client' handled} :
      Reaches heap requests link → ServerMessage heap msg → msg.requestId = 0 →
      PlayerReady link.client msg → msg.size ≤ maxMsg →
      readFromServer heap stale link.client msg.encode = .ok (client', handled) →
      Reaches heap requests { link with client := client' }

/-- No two requests share an id, and no id is 0. -/
def IdsDistinct (requests : List NetRequest) : Prop :=
  (requests.map NetRequest.id).Nodup ∧ ∀ request ∈ requests, request.id ≠ 0

/-- The answer to each request that the server answers completes this request with
the body of the answer, and changes no other. -/
def MatchesAnswers (heap : ℕ → Fresh) (link : RequestLink) : Prop :=
  ∀ (k : ℕ) payload names answer stale, link.sent[k]? = some payload →
    serverAnswer payload names = some answer → answer.size ≤ maxMsg →
    ∃ client' handled,
      readFromServer heap stale link.client answer.encode = .ok (client', handled) ∧
      client'.openRequests = link.client.openRequests.modify k fun request =>
        { request with cursor := some answer.body, complete := true }

/-- What holds after any exchange: the ids count the requests, and so do the payloads. -/
structure RequestsInv (requests : List (UInt8 × Bytes)) (link : RequestLink) : Prop where
  ids : link.client.openRequests.map NetRequest.id =
    (List.range requests.length).map fun k : ℕ => shortOfInt (k + 1)
  payloads : link.sent = requests.mapIdx fun k p =>
    messageNbytes p.2 (shortOfInt ((k : ℤ) + 1)) p.1

theorem shortOfInt_spec (v : ℤ) : -2 ^ 15 ≤ shortOfInt v ∧ shortOfInt v < 2 ^ 15 ∧
    (shortOfInt v % 2 ^ 16) = v % 2 ^ 16 := by
  rw [shortOfInt]
  split_ifs with hsign
  · omega
  · omega

theorem readHeader_messageNbytes {bytes : Bytes} (hbytes : bytes.length < 2 ^ 16) (id : ℤ)
    (messageType : UInt8) : readHeader (messageNbytes bytes id messageType) 0 =
      some ⟨msgMagicNumber, (id % 2 ^ 16).toNat, bytes.length, messageType⟩ := by
  have hid : (id % 2 ^ 16).toNat < 2 ^ 16 := by omega
  apply (readHeader_eq_some_iff hid hbytes).mpr
  rw [List.drop_zero, messageNbytes, List.append_assoc]
  exact List.take_left' (length_headerFields ..)

section Inv

variable {heap : ℕ → Fresh} {requests : List (UInt8 × Bytes)} {link : RequestLink}

theorem map_id_answeredRequests (requestId : ℕ) (copy : Bytes) (open' : List NetRequest) :
    (answeredRequests requestId copy open').map NetRequest.id = open'.map NetRequest.id := by
  rw [answeredRequests]
  split_ifs with hid
  · rfl
  · rw [List.map_map]
    apply List.map_congr_left
    intro request _
    rw [Function.comp_apply, NetRequest.answered]
    split_ifs with hmatch
    · rfl
    · rfl

/-- What the server sends back for the request at `k`. -/
theorem serverAnswer_spec (hbytes : ∀ p ∈ requests, p.2.length < 2 ^ 16)
    (hinv : RequestsInv requests link) {k : ℕ} {payload names : Bytes} {answer : Message}
    (hsent : link.sent[k]? = some payload) (hanswer : serverAnswer payload names = some answer)
    (hsize : answer.size ≤ maxMsg) :
    (∃ messageType bytes, requests[k]? = some (messageType, bytes) ∧
      (messageType = msgTypeRegister ∨ messageType = msgTypeList)) ∧
    answer.requestId = (k + 1) % 2 ^ 16 ∧ ServerMessage heap answer ∧
      ∀ client, PlayerReady client answer := by
  rw [hinv.payloads, List.getElem?_mapIdx] at hsent
  obtain ⟨⟨messageType, bytes⟩, hk, rfl⟩ := Option.map_eq_some_iff.mp hsent
  have hlen := hbytes _ (List.mem_of_getElem? hk)
  -- the wire carries the id as an unsigned short
  have hwire : (shortOfInt ((k : ℤ) + 1) % 2 ^ 16).toNat = (k + 1) % 2 ^ 16 := by
    rw [(shortOfInt_spec _).2.2]
    omega
  have hid : (k + 1) % 2 ^ 16 < 2 ^ 16 := Nat.mod_lt _ (by decide)
  rw [serverAnswer, readHeader_messageNbytes hlen, hwire] at hanswer
  simp only [bind, Option.bind_some] at hanswer
  rw [Message.size, messageHeaderSize, maxMsg] at hsize
  have hbody : answer.body.length < 2 ^ 16 := by omega
  split_ifs at hanswer with hregister hlist
  · rw [Option.some.injEq] at hanswer
    subst hanswer
    exact ⟨⟨_, _, hk, Or.inl hregister⟩, rfl, answer_serverMessage ⟨hid, hbody⟩ (Or.inl rfl)⟩
  · rw [Option.some.injEq] at hanswer
    subst hanswer
    exact ⟨⟨_, _, hk, Or.inr hlist⟩, rfl, answer_serverMessage ⟨hid, hbody⟩ (Or.inr rfl)⟩

theorem request_inv (hinv : RequestsInv requests link) (messageType : UInt8) (bytes : Bytes) :
    RequestsInv (requests ++ [(messageType, bytes)]) (link.request bytes messageType) := by
  -- the id of a request is its place in the list, so the invariant fixes it
  have hcount : link.client.openRequests.length = requests.length := by
    have hlen := congrArg List.length hinv.ids
    rw [List.length_map, List.length_map, List.length_range] at hlen
    exact hlen
  constructor
  · change (link.client.openRequests ++ [_]).map NetRequest.id = _
    rw [List.map_append, hinv.ids, List.length_append, List.length_singleton, List.range_succ,
      List.map_append, List.map_singleton, List.map_singleton, hcount]
  · change link.sent ++ [_] = _
    rw [hinv.payloads, List.mapIdx_concat, hcount]

theorem reaches_inv (hreach : Reaches heap requests link)
    (hbytes : ∀ p ∈ requests, p.2.length < 2 ^ 16) : RequestsInv requests link := by
  induction hreach with
  | start => exact ⟨rfl, rfl⟩
  | setPlayer player _ ih => exact ⟨(ih hbytes).ids, (ih hbytes).payloads⟩
  | request messageType bytes _ ih =>
    exact request_inv (ih fun p hp => hbytes p (List.mem_append_left _ hp)) messageType bytes
  | @answer requests link payload names answer stale client' handled k _ hsent hanswer hsize hread
      ih =>
    have hinv := ih hbytes
    obtain ⟨-, -, hmsg, hready⟩ := serverAnswer_spec hbytes hinv hsent hanswer hsize
    obtain ⟨client'', hread', hopen⟩ := readFromServer_single hmsg (hready link.client) stale
    rw [hread, Except.ok.injEq, Prod.mk.injEq] at hread'
    refine ⟨?_, hinv.payloads⟩
    rw [hread'.1, hopen, map_id_answeredRequests]
    exact hinv.ids
  | @notice requests link msg stale client' handled _ hmsg hid hready hsize hread ih =>
    have hinv := ih hbytes
    obtain ⟨client'', hread', hopen⟩ := readFromServer_single hmsg hready stale
    rw [hread, Except.ok.injEq, Prod.mk.injEq] at hread'
    refine ⟨?_, hinv.payloads⟩
    rw [hread'.1, hopen, map_id_answeredRequests]
    exact hinv.ids

/-- Sent one after the other with nothing in between, all requests stay incomplete. -/
theorem exists_reaches_incomplete (heap : ℕ → Fresh) (requests : List (UInt8 × Bytes)) :
    ∃ link, Reaches heap requests link ∧
      ∀ request ∈ link.client.openRequests, request.complete = false := by
  induction requests using List.reverseRecOn with
  | nil => exact ⟨_, .start, fun request h => absurd h (by simp [netClientInit])⟩
  | append_singleton requests p ih =>
    obtain ⟨link, hreach, hincomplete⟩ := ih
    refine ⟨link.request p.2 p.1, .request p.1 p.2 hreach, ?_⟩
    intro request hmem
    change request ∈ link.client.openRequests ++ [_] at hmem
    rw [List.mem_append, List.mem_singleton] at hmem
    obtain h | rfl := hmem
    · exact hincomplete request h
    · rfl

theorem idsDistinct_iff (hinv : RequestsInv requests link) :
    IdsDistinct link.client.openRequests ↔ requests.length ≤ 65535 := by
  have hmem (v : ℤ) : (∃ request ∈ link.client.openRequests, request.id = v) ↔
      ∃ k < requests.length, shortOfInt ((k : ℤ) + 1) = v := by
    rw [← List.mem_map, hinv.ids, List.mem_map]
    simp only [List.mem_range]
  constructor
  · rintro ⟨-, hzero⟩
    by_contra hmany
    -- request number 65536 gets the id 0
    obtain ⟨request, hr, hid⟩ := (hmem 0).mpr ⟨65535, by omega, by decide⟩
    exact hzero request hr hid
  · intro hfew
    constructor
    · rw [hinv.ids]
      -- fewer numbers than 2 ^ 16 stay apart as shorts
      apply List.Nodup.map_on _ List.nodup_range
      intro i hi j hj hij
      rw [List.mem_range] at hi hj
      have hsi := (shortOfInt_spec ((i : ℤ) + 1)).2.2
      have hsj := (shortOfInt_spec ((j : ℤ) + 1)).2.2
      rw [hij] at hsi
      omega
    · intro request hr hid
      obtain ⟨k, hk, hshort⟩ := (hmem 0).mp ⟨request, hr, hid⟩
      have hsk := (shortOfInt_spec ((k : ℤ) + 1)).2.2
      rw [hshort] at hsk
      omega

/-- The request at `k` and its id. -/
theorem request_at (hinv : RequestsInv requests link) {k : ℕ} (hk : k < requests.length) :
    ∃ request, link.client.openRequests[k]? = some request ∧
      request.id = shortOfInt ((k : ℤ) + 1) := by
  have hids := congrArg (fun l : List ℤ => l[k]?) hinv.ids
  simp only [List.getElem?_map, List.getElem?_range hk, Option.map_some] at hids
  exact Option.map_eq_some_iff.mp hids

/-- The id of the answer is the id of one request when the ids do not wrap. -/
theorem answeredRequests_eq_modify (hinv : RequestsInv requests link)
    (hfew : requests.length ≤ 65535) {k : ℕ} (hk : k < 32767) (copy : Bytes) :
    answeredRequests (k + 1) copy link.client.openRequests =
      link.client.openRequests.modify k fun request =>
        { request with cursor := some copy, complete := true } := by
  rw [answeredRequests, if_neg (Nat.succ_ne_zero k)]
  apply List.ext_getElem?
  intro i
  rw [List.getElem?_map, List.getElem?_modify]
  by_cases hi : i < requests.length
  · obtain ⟨request, hrequest, hid⟩ := request_at hinv hi
    obtain ⟨hlow, hhigh, hmod⟩ := shortOfInt_spec ((i : ℤ) + 1)
    -- up to number 32767 the id of the answer is positive and names one request
    have hsame : request.id = ((k + 1 : ℕ) : ℤ) ↔ k = i := by
      rw [hid]
      constructor
      · intro heq
        rw [heq] at hmod
        push_cast at hmod
        omega
      · intro heq
        push_cast
        omega
    rw [hrequest, Option.map_some, NetRequest.answered]
    simp only [hsame, Option.map_eq_map, Option.map_some]
  · have hnone : link.client.openRequests[i]? = none := by
      have hids := congrArg List.length hinv.ids
      rw [List.length_map, List.length_map, List.length_range] at hids
      rw [List.getElem?_eq_none_iff]
      omega
    rw [hnone]
    rfl

theorem matchesAnswers_of_few (hinv : RequestsInv requests link)
    (hbytes : ∀ p ∈ requests, p.2.length < 2 ^ 16) (hfew : requests.length ≤ 65535)
    (hlate : ∀ (k : ℕ) messageType bytes, requests[k]? = some (messageType, bytes) → 32767 ≤ k →
      messageType ≠ msgTypeRegister ∧ messageType ≠ msgTypeList) :
    MatchesAnswers heap link := by
  intro k payload names answer stale hsent hanswer hsize
  obtain ⟨⟨messageType, bytes, hk, htype⟩, hid, hmsg, hready⟩ :=
    serverAnswer_spec hbytes hinv hsent hanswer hsize
  have hearly : k < 32767 := by
    by_contra hge
    obtain ⟨hregister, hlist⟩ := hlate k messageType bytes hk (by omega)
    exact htype.elim hregister hlist
  obtain ⟨client', hread, hopen⟩ := readFromServer_single hmsg (hready link.client) stale
  refine ⟨client', _, hread, ?_⟩
  have hwire : (k + 1) % 2 ^ 16 = k + 1 := Nat.mod_eq_of_lt (by omega)
  rw [hopen, hid, hwire, answeredRequests_eq_modify hinv hfew hearly]

/-- From the request with number 32768 on, the id that the client remembers is
negative and the id on the wire is not, so an answer completes nothing. -/
theorem answered_late_missed (hinv : RequestsInv requests link)
    (hbytes : ∀ p ∈ requests, p.2.length < 2 ^ 16) (hfew : requests.length ≤ 65535)
    (hincomplete : ∀ request ∈ link.client.openRequests, request.complete = false)
    (h : MatchesAnswers heap link) {k : ℕ} {messageType : UInt8} {bytes : Bytes}
    (hk : requests[k]? = some (messageType, bytes)) (hlate : 32767 ≤ k) :
    messageType ≠ msgTypeRegister ∧ messageType ≠ msgTypeList := by
  by_contra htype
  have hcount := (List.getElem?_eq_some_iff.mp hk).1
  have hsent : link.sent[k]? = some (messageNbytes bytes (shortOfInt ((k : ℤ) + 1)) messageType) := by
    rw [hinv.payloads, List.getElem?_mapIdx, hk]
    rfl
  have hlen := hbytes _ (List.mem_of_getElem? hk)
  obtain ⟨answer, hanswer, hbody⟩ : ∃ answer, serverAnswer
      (messageNbytes bytes (shortOfInt ((k : ℤ) + 1)) messageType) [] = some answer ∧
      answer.body = [] := by
    rw [serverAnswer, readHeader_messageNbytes hlen]
    simp only [bind, Option.bind_some]
    split_ifs with hregister hlist
    · exact ⟨_, rfl, rfl⟩
    · exact ⟨_, rfl, rfl⟩
    · exact absurd ⟨hregister, hlist⟩ htype
  have hsize : answer.size ≤ maxMsg := by
    rw [Message.size, hbody]
    decide
  obtain ⟨-, hid, hmsg, hready⟩ := serverAnswer_spec hbytes hinv hsent hanswer hsize
  obtain ⟨client', handled, hread, hmodify⟩ := h k _ _ answer (fun _ => 0) hsent hanswer hsize
  obtain ⟨client'', hread', hopen⟩ := readFromServer_single hmsg (hready link.client) fun _ => 0
  rw [hread, Except.ok.injEq, Prod.mk.injEq] at hread'
  rw [hread'.1, hopen] at hmodify
  obtain ⟨request, hrequest, hshort⟩ := request_at hinv hcount
  -- the short that was stored is negative, the id of the answer is not
  have hother : ¬request.id = (answer.requestId : ℤ) := by
    obtain ⟨hlow, hhigh, hmod⟩ := shortOfInt_spec ((k : ℤ) + 1)
    rw [hshort, hid]
    push_cast
    omega
  have hat := congrArg (fun l : List NetRequest => l[k]?) hmodify
  have hnot : request.complete = false := hincomplete request (List.mem_of_getElem? hrequest)
  have hzero : answer.requestId ≠ 0 := by
    rw [hid]
    omega
  simp only [answeredRequests, if_neg hzero, List.getElem?_map, List.getElem?_modify_eq, hrequest,
    Option.map_some, Option.map_eq_map, NetRequest.answered, if_neg hother,
    Option.some.injEq] at hat
  rw [hat] at hnot
  exact absurd hnot (by simp)

end Inv

/-- In every exchange of these requests the ids are distinct and every answer
completes exactly its request, if and only if there are at most 65535 requests and
none from number 32768 on is of a type that the server answers. -/
theorem request_matching_iff (heap : ℕ → Fresh) {requests : List (UInt8 × Bytes)}
    (hbytes : ∀ p ∈ requests, p.2.length < 2 ^ 16) :
    (∀ link, Reaches heap requests link →
      IdsDistinct link.client.openRequests ∧ MatchesAnswers heap link) ↔
    requests.length ≤ 65535 ∧
      ∀ (k : ℕ) messageType bytes, requests[k]? = some (messageType, bytes) → 32767 ≤ k →
        messageType ≠ msgTypeRegister ∧ messageType ≠ msgTypeList := by
  constructor
  · intro h
    obtain ⟨link, hreach, hincomplete⟩ := exists_reaches_incomplete heap requests
    have hinv := reaches_inv hreach hbytes
    obtain ⟨hids, hmatches⟩ := h link hreach
    have hfew := (idsDistinct_iff hinv).mp hids
    refine ⟨hfew, fun k messageType bytes hk hlate => ?_⟩
    exact answered_late_missed hinv hbytes hfew hincomplete hmatches hk hlate
  · rintro ⟨hfew, hlate⟩ link hreach
    have hinv := reaches_inv hreach hbytes
    exact ⟨(idsDistinct_iff hinv).mpr hfew, matchesAnswers_of_few hinv hbytes hfew hlate⟩

/-- A REGISTER and a LIST request, answered in any order. -/
theorem request_matching_register_list :
    (∀ p ∈ ([(msgTypeRegister, [65, 0]), (msgTypeList, [])] : List (UInt8 × Bytes)),
        p.2.length < 2 ^ 16) ∧
      ∀ link, Reaches (fun _ _ => 0) [(msgTypeRegister, [65, 0]), (msgTypeList, [])] link →
        IdsDistinct link.client.openRequests ∧ MatchesAnswers (fun _ _ => 0) link := by
  refine ⟨by decide, (request_matching_iff (fun _ _ => 0) (by decide)).mpr ?_⟩
  refine ⟨by decide, fun k messageType bytes hk hlate => ?_⟩
  rw [List.getElem?_eq_none_iff.mpr (le_trans (by decide) hlate)] at hk
  exact absurd hk (by simp)

/-- A client that has asked 32768 times for the list of players: the last answer
completes no request. -/
theorem request_32768_never_completed :
    ¬∀ link, Reaches (fun _ _ => 0) (List.replicate 32768 (msgTypeList, [])) link →
      IdsDistinct link.client.openRequests ∧ MatchesAnswers (fun _ _ => 0) link := by
  intro h
  have hbytes (p : UInt8 × Bytes) (hp : p ∈ List.replicate 32768 (msgTypeList, ([] : Bytes))) :
      p.2.length < 2 ^ 16 := by
    rw [List.eq_of_mem_replicate hp]
    decide
  obtain ⟨link, hreach, hincomplete⟩ :=
    exists_reaches_incomplete (fun _ _ => 0) (List.replicate 32768 (msgTypeList, []))
  have hfew : (List.replicate 32768 (msgTypeList, ([] : Bytes))).length ≤ 65535 := by
    rw [List.length_replicate]
    decide
  have hlast : (List.replicate 32768 (msgTypeList, ([] : Bytes)))[32767]? =
      some (msgTypeList, []) := by
    rw [List.getElem?_replicate, if_pos (by decide)]
  exact (answered_late_missed (reaches_inv hreach hbytes) hbytes hfew hincomplete (h link hreach).2
    hlast (le_refl _)).2 rfl

end TetrisMint
