import TetrisMint.ClientSpec

namespace TetrisMint

open CStrings FallibleRun Segments

/-- Whatever lies behind each chunk in the buffer, exactly the messages that were
sent are handled, each where it stands in the stream. -/
def HandlesStream (heap : ℕ → Fresh) (client : NetClient) (msgs : List Message)
    (chunks : List Bytes) : Prop :=
  ∀ stale : ℕ → Fresh, ∃ client',
    tetrisThread heap stale 0 client chunks = .ok (client', placed Message.size 0 msgs)

/-- The chunk that holds the first byte of a message starts with a message, and
it holds the message's header fields and body. -/
def KeptWhole (msgs : List Message) (chunks : List Bytes) : Prop :=
  ∀ s msg a chunk, (s, msg) ∈ placed Message.size 0 msgs → (a, chunk) ∈ placed List.length 0 chunks →
    a ≤ s → s < a + chunk.length →
      (∃ first, (a, first) ∈ placed Message.size 0 msgs) ∧ s + msg.needed ≤ a + chunk.length

theorem length_encodeAll (msgs : List Message) :
    (encodeAll msgs).length = total Message.size msgs := by
  induction msgs with
  | nil => rfl
  | cons msg msgs ih =>
    rw [total_cons, ← ih, ← length_encode, encodeAll, List.map_cons, List.flatten_cons,
      List.length_append]
    rfl

theorem length_flatten_chunks (chunks : List Bytes) :
    chunks.flatten.length = total List.length chunks := by
  rw [List.length_flatten, total]

theorem size_pos (msg : Message) : 0 < msg.size := by
  rw [Message.size, messageHeaderSize]
  omega

theorem needed_le_size (msg : Message) : headerFieldsSize ≤ msg.needed ∧ msg.needed ≤ msg.size := by
  rw [Message.needed]
  split_ifs with hbody
  · simp only [Message.size, messageHeaderSize, headerFieldsSize]
    omega
  · simp only [Message.size, messageHeaderSize, headerFieldsSize]
    omega

/-- What stands in the stream from the start of a message on. -/
theorem drop_encodeAll {s : ℕ} {msg : Message} {msgs : List Message}
    (h : (s, msg) ∈ placed Message.size 0 msgs) :
    ∃ before after, msgs = before ++ msg :: after ∧ s = total Message.size before ∧
      (encodeAll msgs).drop s = msg.encode ++ encodeAll after := by
  obtain ⟨before, after, rfl, hs⟩ := (mem_placed_iff _).mp h
  rw [Nat.zero_add] at hs
  refine ⟨before, after, rfl, hs, ?_⟩
  rw [encodeAll_append, hs, ← length_encodeAll, List.drop_left]
  rfl

section Good

variable {heap : ℕ → Fresh} {buffer : Bytes} {nbytes : ℕ}

/-- Where the buffer agrees with the stream on what is needed of a message, its
header fields and its body can be read. -/
theorem message_in_buffer {msg : Message} (hfits : msg.Fits) {behind : Bytes} {cursor : ℕ}
    (hagree : (buffer.drop cursor).take (nbytes - cursor) =
      (msg.encode ++ behind).take (nbytes - cursor))
    (hneed : cursor + msg.needed ≤ nbytes) :
    (buffer.drop cursor).take headerFieldsSize =
        headerFields msg.requestId msg.body.length msg.messageType ∧
      ∃ rest, buffer.drop (cursor + messageHeaderSize) = msg.body ++ rest := by
  have hbounds := needed_le_size msg
  have hfront (k : ℕ) (hk : k ≤ nbytes - cursor) :
      (buffer.drop cursor).take k = (msg.encode ++ behind).take k := by
    have htake := congrArg (List.take k) hagree
    rw [List.take_take, List.take_take, Nat.min_eq_left hk] at htake
    exact htake
  constructor
  · rw [hfront _ (by omega), take_encode hfits]
  · by_cases hempty : msg.body = []
    · rw [hempty]
      exact ⟨_, rfl⟩
    · -- a body is needed to its end, so the whole message is in the buffer
      rw [Message.needed, if_neg hempty] at hneed
      have hall : (buffer.drop cursor).take msg.size = msg.encode := by
        rw [hfront _ (by omega)]
        exact List.take_left' (length_encode msg)
      have hsplit : buffer.drop cursor = msg.encode ++ (buffer.drop cursor).drop msg.size := by
        rw [← hall, List.take_append_drop]
      refine ⟨(buffer.drop cursor).drop msg.size, ?_⟩
      calc buffer.drop (cursor + messageHeaderSize)
          = (buffer.drop cursor).drop messageHeaderSize := (List.drop_drop ..).symm
        _ = (msg.encode ++ (buffer.drop cursor).drop msg.size).drop messageHeaderSize :=
            congrArg _ hsplit
        _ = msg.body ++ (buffer.drop cursor).drop msg.size := drop_encode hfits _

/-- From the start of a message the loop handles every message that starts in the
chunk, provided that the chunk holds what it needs of each of them. -/
theorem readLoop_good {after : List Message} {fuel cursor : ℕ} {client : NetClient}
    (hmsgs : ∀ msg ∈ after, ServerMessage heap msg ∧ PlayerReady client msg)
    (hbuffer : nbytes ≤ buffer.length)
    (hagree : (buffer.drop cursor).take (nbytes - cursor) =
      (encodeAll after).take (nbytes - cursor))
    (hwhole : ∀ s msg, (s, msg) ∈ placed Message.size cursor after → s < nbytes →
      s + msg.needed ≤ nbytes)
    (hpos : 0 < fuel) (hfuel : nbytes < cursor + fuel) :
    ∃ client', client'.player.isSome = client.player.isSome ∧
      readLoop heap buffer nbytes fuel cursor client =
        .ok (client', (placed Message.size cursor after).filter fun p => decide (p.1 < nbytes)) := by
  induction after generalizing fuel cursor client with
  | nil =>
    -- the stream ends here, so the chunk does as well
    have hend : nbytes ≤ cursor := by
      have hlen := congrArg List.length hagree
      simp only [encodeAll, List.map_nil, List.flatten_nil, List.take_nil, List.length_nil,
        List.length_take, List.length_drop] at hlen
      omega
    obtain ⟨fuel, rfl⟩ := Nat.exists_eq_add_of_lt hpos
    refine ⟨client, rfl, ?_⟩
    rw [Nat.zero_add, readLoop, if_neg (by omega)]
    rfl
  | cons msg after ih =>
    obtain ⟨fuel, rfl⟩ := Nat.exists_eq_add_of_lt hpos
    rw [Nat.zero_add] at hfuel ⊢
    by_cases hcursor : cursor < nbytes
    · obtain ⟨hmsg, hready⟩ := hmsgs msg (List.mem_cons_self ..)
      have hneed := hwhole cursor msg (List.mem_cons_self ..) hcursor
      have hstream : encodeAll (msg :: after) = msg.encode ++ encodeAll after := rfl
      rw [hstream] at hagree
      obtain ⟨hfields, rest, hbody⟩ := message_in_buffer hmsg.fits hagree hneed
      obtain ⟨client₁, hplayer₁, -, hstep⟩ := readLoop_message hmsg hready hcursor hfields hbody fuel
      have hmsgs₁ (m : Message) (hm : m ∈ after) :
          ServerMessage heap m ∧ PlayerReady client₁ m := by
        obtain ⟨hserver, hplayer⟩ := hmsgs m (List.mem_cons_of_mem _ hm)
        refine ⟨hserver, fun h => ?_⟩
        rw [hplayer₁]
        exact hplayer h
      -- behind the message the buffer agrees with the rest of the stream
      have hagree₁ : (buffer.drop (cursor + msg.size)).take (nbytes - (cursor + msg.size)) =
          (encodeAll after).take (nbytes - (cursor + msg.size)) := by
        have hdrop := congrArg (List.drop msg.size) hagree
        rw [List.drop_take, List.drop_take, List.drop_drop, ← length_encode, List.drop_left,
          length_encode, Nat.sub_sub] at hdrop
        exact hdrop
      have hsize := size_pos msg
      obtain ⟨client', hplayer', hloop⟩ := @ih fuel (cursor + msg.size) client₁ hmsgs₁ hagree₁
        (fun s m hm => hwhole s m (List.mem_cons_of_mem _ hm)) (by omega) (by omega)
      refine ⟨client', hplayer'.trans hplayer₁, ?_⟩
      rw [hstep, hloop, placed, List.filter_cons, if_pos (decide_eq_true hcursor)]
      rfl
    · refine ⟨client, rfl, ?_⟩
      -- the chunk ends before this message, which the next chunk holds
      have hnone : (placed Message.size cursor (msg :: after)).filter
          (fun p => decide (p.1 < nbytes)) = [] := by
        rw [List.filter_eq_nil_iff]
        rintro ⟨s, m⟩ hm
        have hbound := (placed_bounds _ hm).1
        rw [decide_eq_true_eq]
        omega
      rw [readLoop, if_neg hcursor, hnone]

/-- A chunk whose first byte is zero is given up before anything is handled. -/
theorem readFromServer_zero (stale : Fresh) (client : NetClient) {chunk tail : Bytes}
    (hchunk : chunk = 0 :: tail) (hlen : chunk.length ≤ maxMsg) :
    readFromServer heap stale client chunk = .ok (client, []) := by
  have hlong : (recvBuffer stale chunk).length = maxMsg := by
    rw [recvBuffer, List.length_append, List.length_drop, length_malloc]
    omega
  have hfirst : recvBuffer stale chunk = 0 :: (tail ++ (malloc stale maxMsg).drop chunk.length) := by
    rw [recvBuffer, hchunk, List.cons_append]
  obtain ⟨magicNumber, hmagic⟩ : ∃ v, leField (recvBuffer stale chunk) 0 4 = some v := by
    rw [leField, if_pos (by rw [hlong]; decide)]
    exact ⟨_, rfl⟩
  -- the magic number is odd, and its low byte comes first
  have heven : magicNumber % 256 = 0 := by
    rw [leField] at hmagic
    split_ifs at hmagic
    rw [← Option.some.inj hmagic, hfirst, List.drop_zero, List.take_succ_cons, leNat]
    change (0 + 256 * _) % 256 = 0
    rw [Nat.zero_add, Nat.mul_mod_right]
  have hwrong : magicNumber ≠ msgMagicNumber := by
    rintro rfl
    exact absurd heven (by decide)
  have hpos : 0 < chunk.length := by
    rw [hchunk]
    exact Nat.succ_pos _
  rw [readFromServer, readLoop, if_pos hpos]
  simp only [hmagic, access_some, bind, Except.bind, ne_eq, hwrong, not_false_eq_true, ↓reduceIte]

end Good

section Chunks

variable {heap : ℕ → Fresh} {msgs : List Message} {chunks : List Bytes}

/-- What stands in the stream from the start of a chunk on. -/
theorem drop_stream (hstream : chunks.flatten = encodeAll msgs) {off : ℕ} {chunk : Bytes}
    (hchunk : (off, chunk) ∈ placed List.length 0 chunks) :
    ∃ behind, (encodeAll msgs).drop off = chunk ++ behind := by
  obtain ⟨pre, post, hpieces, hoff⟩ := (mem_placed_iff _).mp hchunk
  rw [Nat.zero_add] at hoff
  refine ⟨post.flatten, ?_⟩
  rw [← hstream, hpieces, List.flatten_append, hoff, ← length_flatten_chunks, List.drop_left,
    List.flatten_cons]

/-- A chunk that starts with a message: its call handles the messages that start in it. -/
theorem readFromServer_at_message (hkept : KeptWhole msgs chunks) {client : NetClient}
    (hmsgs : ∀ msg ∈ msgs, ServerMessage heap msg ∧ PlayerReady client msg)
    (hstream : chunks.flatten = encodeAll msgs) {off : ℕ} {chunk : Bytes}
    (hchunk : (off, chunk) ∈ placed List.length 0 chunks) {first : Message}
    (hfirst : (off, first) ∈ placed Message.size 0 msgs) (stale : Fresh) :
    ∃ client' handled, readFromServer heap stale client chunk = .ok (client', handled) ∧
      client'.player.isSome = client.player.isSome ∧
      handled.map (fun p => (off + p.1, p.2)) = (placed Message.size 0 msgs).filter
        fun p => decide (p.1 < off + chunk.length) && decide (off ≤ p.1) := by
  obtain ⟨behind, hdrop⟩ := drop_stream hstream hchunk
  obtain ⟨before, after, hsplit, hbefore, -⟩ := drop_encodeAll hfirst
  have hafter : (encodeAll msgs).drop off = encodeAll (first :: after) := by
    rw [hsplit, encodeAll_append, hbefore, ← length_encodeAll, List.drop_left]
  have hagree : ((recvBuffer stale chunk).drop 0).take (chunk.length - 0) =
      (encodeAll (first :: after)).take (chunk.length - 0) := by
    rw [← hafter, hdrop, List.drop_zero, Nat.sub_zero, List.take_left, recvBuffer, List.take_left]
  have hshift := placed_shift Message.size off 0 (first :: after)
  rw [Nat.add_zero] at hshift
  -- offsets in the chunk are offsets in the stream, shifted
  have hwhole (s : ℕ) (msg : Message) (hmem : (s, msg) ∈ placed Message.size 0 (first :: after))
      (hs : s < chunk.length) : s + msg.needed ≤ chunk.length := by
    have hplaced : (off + s, msg) ∈ placed Message.size 0 msgs := by
      rw [hsplit, placed_append, Nat.zero_add, ← hbefore]
      apply List.mem_append_right
      rw [hshift]
      exact List.mem_map.mpr ⟨(s, msg), hmem, rfl⟩
    have hneed := (hkept _ _ _ _ hplaced hchunk (by omega) (by omega)).2
    omega
  have hready (msg : Message) (hmem : msg ∈ first :: after) :
      ServerMessage heap msg ∧ PlayerReady client msg :=
    hmsgs msg (hsplit ▸ List.mem_append_right _ hmem)
  have hbuffer : chunk.length ≤ (recvBuffer stale chunk).length := by
    rw [recvBuffer, List.length_append]
    exact Nat.le_add_right ..
  obtain ⟨client', hplayer, hloop⟩ :=
    @readLoop_good heap _ _ _ (chunk.length + 1) 0 client hready hbuffer hagree hwhole
      (by omega) (by omega)
  refine ⟨client', _, hloop, hplayer, ?_⟩
  -- the messages before the chunk start outside of its window
  have hwindow := filter_placed_append Message.size before (first :: after)
    (hbefore.trans (Nat.zero_add _).symm) fun msg _ => size_pos msg
  rw [← hsplit] at hwindow
  rw [← List.filter_filter, hwindow, hshift, List.filter_map]
  congr 1
  apply List.filter_congr
  rintro ⟨s, msg⟩ -
  simp only [Function.comp_apply, Nat.add_lt_add_iff_left]

/-- A chunk that no message starts with lies in the padding of a message without a body. -/
theorem chunk_in_padding (hkept : KeptWhole msgs chunks) (hfits : ∀ msg ∈ msgs, msg.Fits)
    (hstream : chunks.flatten = encodeAll msgs) {off : ℕ} {chunk : Bytes}
    (hchunk : (off, chunk) ∈ placed List.length 0 chunks) (hpos : 1 ≤ chunk.length)
    (hstart : ¬∃ first, (off, first) ∈ placed Message.size 0 msgs) :
    ∃ rest, chunk = 0 :: rest := by
  obtain ⟨behind, hdrop⟩ := drop_stream hstream hchunk
  have htotal : off < 0 + total Message.size msgs := by
    have hdroplen := congrArg List.length hdrop
    rw [List.length_drop, length_encodeAll, List.length_append] at hdroplen
    omega
  obtain ⟨s, msg, hmem, hs, hoffs⟩ := exists_placed Message.size (Nat.zero_le off) htotal
  have hne : s ≠ off := by
    rintro rfl
    exact hstart ⟨msg, hmem⟩
  have hsub : s < 0 + total List.length chunks := by
    have hbound := (placed_bounds _ hchunk).2
    omega
  -- the chunk with the first byte of that message comes earlier and holds what is needed of it
  obtain ⟨a, piece, hpiece, ha, hsa⟩ := exists_placed List.length (Nat.zero_le s) hsub
  have hbefore : a + piece.length ≤ off := by
    by_contra hover
    have hsame := (@placed_start_unique _ List.length 0 a off off piece chunk chunks hpiece hchunk
      (by omega) (by omega) (le_refl _) (by omega)).1
    omega
  have hneed := (hkept s msg a piece hmem hpiece ha hsa).2
  obtain ⟨front, back, hsplit, hfront, hs'⟩ := drop_encodeAll hmem
  have hmsg : msg.Fits := hfits msg (by rw [hsplit]; simp)
  -- with a body all of the message would be needed, and the chunk would not start in it
  have hempty : msg.body = [] := by
    by_contra hbody
    rw [Message.needed, if_neg hbody] at hneed
    omega
  -- so the chunk starts in one of the three bytes of padding
  obtain ⟨k, hk, hk3⟩ : ∃ k, off = s + (headerFieldsSize + k) ∧ k < 3 := by
    rw [Message.needed, if_pos hempty] at hneed
    rw [Message.size, hempty, List.length_nil, messageHeaderSize] at hoffs
    refine ⟨off - s - headerFieldsSize, ?_, ?_⟩
    · omega
    · rw [headerFieldsSize] at hneed ⊢
      omega
  obtain ⟨tail, htail⟩ : ∃ tail, (encodeAll msgs).drop off = 0 :: tail := by
    have hpad : headerPadding.drop k = 0 :: headerPadding.drop (k + 1) := by
      interval_cases k <;> rfl
    rw [hk, ← List.drop_drop, hs', encode_eq hmsg, List.append_assoc, ← List.drop_drop,
      List.drop_left' (length_headerFields ..), hempty, List.append_nil,
      List.drop_append_of_le_length (by rw [headerPadding, List.length_cons]; simp; omega), hpad]
    exact ⟨_, rfl⟩
  cases chunk with
  | nil => exact absurd hpos (by simp)
  | cons b rest =>
    rw [htail, List.cons_append, List.cons.injEq] at hdrop
    exact ⟨rest, by rw [hdrop.1]⟩

/-- What one chunk of the stream does when every message is kept whole. -/
theorem readFromServer_kept (hkept : KeptWhole msgs chunks) {client : NetClient}
    (hmsgs : ∀ msg ∈ msgs, ServerMessage heap msg ∧ PlayerReady client msg)
    (hstream : chunks.flatten = encodeAll msgs) {off : ℕ} {chunk : Bytes}
    (hchunk : (off, chunk) ∈ placed List.length 0 chunks)
    (hlen : 1 ≤ chunk.length ∧ chunk.length ≤ maxMsg) (stale : Fresh) :
    ∃ client' handled, readFromServer heap stale client chunk = .ok (client', handled) ∧
      client'.player.isSome = client.player.isSome ∧
      handled.map (fun p => (off + p.1, p.2)) = (placed Message.size 0 msgs).filter
        fun p => decide (p.1 < off + chunk.length) && decide (off ≤ p.1) := by
  by_cases hstart : ∃ first, (off, first) ∈ placed Message.size 0 msgs
  · obtain ⟨first, hfirst⟩ := hstart
    exact readFromServer_at_message hkept hmsgs hstream hchunk hfirst stale
  · -- no message starts with the chunk, so none starts inside of it
    have hwindow : (placed Message.size 0 msgs).filter
        (fun p => decide (p.1 < off + chunk.length) && decide (off ≤ p.1)) = [] := by
      rw [List.filter_eq_nil_iff]
      rintro ⟨s, msg⟩ hmem
      simp only [Bool.and_eq_true, decide_eq_true_eq, not_and]
      intro hhigh hlow
      exact hstart (hkept s msg off chunk hmem hchunk hlow hhigh).1
    obtain ⟨rest, hzero⟩ := chunk_in_padding hkept (fun msg hmem => (hmsgs msg hmem).1.fits) hstream
      hchunk hlen.1 hstart
    exact ⟨client, [], readFromServer_zero stale client hzero hlen.2, rfl, hwindow.symm⟩

/-- The calls from some chunk on handle the messages from its offset on. -/
theorem tetrisThread_kept (hkept : KeptWhole msgs chunks) (hstream : chunks.flatten = encodeAll msgs)
    (hlens : ∀ chunk ∈ chunks, 1 ≤ chunk.length ∧ chunk.length ≤ maxMsg) (stale : ℕ → Fresh)
    {pre post : List Bytes} (hsplit : chunks = pre ++ post) {client : NetClient}
    (hmsgs : ∀ msg ∈ msgs, ServerMessage heap msg ∧ PlayerReady client msg) :
    ∃ client', tetrisThread heap stale (total List.length pre) client post = .ok (client',
      (placed Message.size 0 msgs).filter fun p => decide (total List.length pre ≤ p.1)) := by
  induction post generalizing pre client with
  | nil =>
    refine ⟨client, ?_⟩
    have hnone : (placed Message.size 0 msgs).filter
        (fun p => decide (total List.length pre ≤ p.1)) = [] := by
      rw [List.filter_eq_nil_iff]
      rintro ⟨s, msg⟩ hmem
      have hbound := (placed_bounds _ hmem).2
      have hsize := size_pos msg
      have hlen := congrArg List.length hstream
      rw [hsplit, List.append_nil, length_flatten_chunks, length_encodeAll] at hlen
      rw [decide_eq_true_eq]
      omega
    rw [hnone, tetrisThread]
  | cons chunk post ih =>
    have hchunk : (total List.length pre, chunk) ∈ placed List.length 0 chunks := by
      apply (mem_placed_iff _).mpr
      exact ⟨pre, post, hsplit, (Nat.zero_add _).symm⟩
    have hlen := hlens chunk (by rw [hsplit]; simp)
    obtain ⟨client₁, handled, hread, hplayer, hwindow⟩ :=
      readFromServer_kept hkept hmsgs hstream hchunk hlen (stale (total List.length pre))
    have hmsgs₁ (msg : Message) (hmem : msg ∈ msgs) :
        ServerMessage heap msg ∧ PlayerReady client₁ msg := by
      obtain ⟨hserver, hready⟩ := hmsgs msg hmem
      refine ⟨hserver, fun h => ?_⟩
      rw [hplayer]
      exact hready h
    -- the calls after this one start at the end of its chunk
    have hsplit₁ : chunks = (pre ++ [chunk]) ++ post := by
      rw [hsplit, List.append_assoc, List.singleton_append]
    have hoff : total List.length (pre ++ [chunk]) = total List.length pre + chunk.length := by
      rw [total_append, total_cons, total_nil, Nat.add_zero]
    obtain ⟨client', hthread⟩ := ih hsplit₁ hmsgs₁
    refine ⟨client', ?_⟩
    rw [hoff] at hthread
    rw [tetrisThread, filter_placed_split Message.size 0 _
      (total List.length pre + chunk.length) msgs (Nat.le_add_right ..), ← hwindow]
    simp only [hread, hthread, bind, Except.bind]

theorem handlesStream_of_kept (hkept : KeptWhole msgs chunks) {client : NetClient}
    (hmsgs : ∀ msg ∈ msgs, ServerMessage heap msg ∧ PlayerReady client msg)
    (hstream : chunks.flatten = encodeAll msgs)
    (hlens : ∀ chunk ∈ chunks, 1 ≤ chunk.length ∧ chunk.length ≤ maxMsg) :
    HandlesStream heap client msgs chunks := by
  intro stale
  obtain ⟨client', hthread⟩ :=
    tetrisThread_kept hkept hstream hlens stale (List.nil_append chunks).symm hmsgs
  refine ⟨client', ?_⟩
  have hall : (placed Message.size 0 msgs).filter (fun p => decide (0 ≤ p.1)) =
      placed Message.size 0 msgs := by
    rw [List.filter_eq_self]
    exact fun p _ => decide_eq_true (Nat.zero_le p.1)
  rw [total_nil, hall] at hthread
  exact hthread

/-- What is handled in the window of a chunk, that chunk's call has handled. -/
theorem tetrisThread_window {stale : ℕ → Fresh} {off : ℕ} {client client' : NetClient}
    {handled : List (ℕ × Message)}
    (h : tetrisThread heap stale off client chunks = .ok (client', handled)) :
    (∀ s msg, (s, msg) ∈ handled → off ≤ s) ∧
    ∀ a chunk, (a, chunk) ∈ placed List.length off chunks →
      ∃ before after own, readFromServer heap (stale a) before chunk = .ok (after, own) ∧
        ∀ s msg, a ≤ s → s < a + chunk.length →
          ((s, msg) ∈ handled ↔ (s - a, msg) ∈ own) := by
  induction chunks generalizing off client client' handled with
  | nil =>
    rw [tetrisThread, Except.ok.injEq, Prod.mk.injEq] at h
    rw [← h.2]
    refine ⟨fun s msg hmem => absurd hmem (by simp), fun a chunk hmem => ?_⟩
    exact absurd hmem (by simp [placed])
  | cons first chunks ih =>
    simp only [tetrisThread, bind_eq_ok, Except.ok.injEq, Prod.mk.injEq] at h
    obtain ⟨p, hread, q, hthread, -, hhandled⟩ := h
    obtain ⟨hlate, hothers⟩ := ih hthread
    -- what is handled comes from the first call or from the later ones, which start behind it
    have hown (s : ℕ) (msg : Message) (hmem : (s, msg) ∈ p.2) : s < first.length :=
      ((readLoop_handled hread).1 s msg hmem).2.1
    have hmem (s : ℕ) (msg : Message) :
        (s, msg) ∈ handled ↔ (off ≤ s ∧ (s - off, msg) ∈ p.2) ∨ (s, msg) ∈ q.2 := by
      rw [← hhandled, List.mem_append]
      apply or_congr_left
      rw [List.mem_map]
      constructor
      · rintro ⟨⟨t, m⟩, htm, heq⟩
        rw [Prod.mk.injEq] at heq
        obtain ⟨rfl, rfl⟩ := heq
        rw [Nat.add_sub_cancel_left]
        exact ⟨Nat.le_add_right .., htm⟩
      · rintro ⟨hle, htm⟩
        refine ⟨_, htm, ?_⟩
        rw [Prod.mk.injEq]
        exact ⟨by omega, rfl⟩
    constructor
    · intro s msg hs
      obtain ⟨hle, -⟩ | hlater := (hmem s msg).mp hs
      · exact hle
      · have := hlate s msg hlater
        omega
    · intro a chunk hplaced
      rw [placed, List.mem_cons, Prod.mk.injEq] at hplaced
      obtain ⟨rfl, rfl⟩ | hrest := hplaced
      · refine ⟨client, p.1, p.2, hread, ?_⟩
        intro s msg hlow hhigh
        rw [hmem]
        constructor
        · rintro (⟨-, hs⟩ | hs)
          · exact hs
          · have := hlate s msg hs
            omega
        · exact fun hs => Or.inl ⟨hlow, hs⟩
      · obtain ⟨before, after, own, hcall, hwindow⟩ := hothers a chunk hrest
        refine ⟨before, after, own, hcall, ?_⟩
        intro s msg hlow hhigh
        have hbound := (placed_bounds _ hrest).1
        rw [hmem, ← hwindow s msg hlow hhigh]
        constructor
        · rintro (⟨hle, hs⟩ | hs)
          · have := hown _ msg hs
            omega
          · exact hs
        · exact Or.inr

/-- Memory in which every byte behind a chunk differs from the byte that the stream has there. -/
def adverseStale (stream : Bytes) (off : ℕ) : Fresh := fun i => stream.getD (off + i) 0 + 1

/-- In front of adverse memory a byte that agrees with the stream lies in the chunk. -/
theorem adverse_agree {stream chunk : Bytes} {a q : ℕ} (hq : a ≤ q) (hqs : q < stream.length)
    (hagree : (recvBuffer (adverseStale stream a) chunk)[q - a]? = stream[q]?) :
    q < a + chunk.length := by
  by_contra hbehind
  have hindex : chunk.length + (q - a - chunk.length) = q - a := by omega
  rw [List.getElem?_eq_getElem hqs, recvBuffer, List.getElem?_append_right (by omega),
    List.getElem?_drop, hindex, malloc, List.getElem?_map] at hagree
  obtain ⟨i, hi, hvalue⟩ := Option.map_eq_some_iff.mp hagree
  -- the byte comes from the memory behind the chunk, which differs from the stream there
  have hiq : i = q - a := by
    obtain ⟨hlt, hget⟩ := List.getElem?_eq_some_iff.mp hi
    rw [List.getElem_range] at hget
    exact hget.symm
  have hstream : stream.getD (a + i) 0 = stream[q] := by
    have hsum : a + i = q := by omega
    rw [hsum, List.getD_eq_getElem?_getD, List.getElem?_eq_getElem hqs, Option.getD_some]
  rw [adverseStale, hstream] at hvalue
  have hnat := congrArg UInt8.toNat hvalue
  have hlt := stream[q].toNat_lt
  change (stream[q].toNat + 1) % 256 = stream[q].toNat at hnat
  omega

/-- The byte of the stream that holds a message's type. -/
theorem type_in_stream {s : ℕ} {msg : Message} (hmem : (s, msg) ∈ placed Message.size 0 msgs)
    (hfits : msg.Fits) : (encodeAll msgs)[s + 8]? = some msg.messageType := by
  obtain ⟨front, back, -, -, hdrop⟩ := drop_encodeAll hmem
  rw [← List.getElem?_drop, hdrop, encode_eq hfits]
  rfl

/-- The bytes of the stream that hold a message's body. -/
theorem body_in_stream {s j : ℕ} {msg : Message} (hmem : (s, msg) ∈ placed Message.size 0 msgs)
    (hfits : msg.Fits) (hj : j < msg.body.length) :
    (encodeAll msgs)[s + (messageHeaderSize + j)]? = msg.body[j]? := by
  obtain ⟨front, back, -, -, hdrop⟩ := drop_encodeAll hmem
  rw [← List.getElem?_drop, hdrop, ← List.getElem?_drop, drop_encode hfits,
    List.getElem?_append_left hj]

theorem kept_of_handlesStream {client : NetClient} (hmsgs : ∀ msg ∈ msgs, msg.Fits)
    (h : HandlesStream heap client msgs chunks) : KeptWhole msgs chunks := by
  -- run the reader in memory that differs from the stream behind every chunk
  obtain ⟨client', hthread⟩ := h (adverseStale (encodeAll msgs))
  obtain ⟨-, hwindows⟩ := tetrisThread_window hthread
  intro s msg a chunk hmem hchunk ha hs
  obtain ⟨before, after, own, hcall, hwindow⟩ := hwindows a chunk hchunk
  obtain ⟨hfound, hfirst⟩ := readLoop_handled hcall
  have hown := (hwindow s msg ha hs).mp hmem
  constructor
  · -- the call handles something, so it handles what stands at the start of the chunk
    obtain ⟨first, hstart⟩ := hfirst (List.ne_nil_of_mem hown)
    refine ⟨first, ?_⟩
    rw [hwindow a first (le_refl a) (by omega), Nat.sub_self]
    exact hstart
  · have hfits : msg.Fits := by
      obtain ⟨front, back, hsplit, -⟩ := (mem_placed_iff _).mp hmem
      exact hmsgs msg (by rw [hsplit]; simp)
    have hend : s + msg.size ≤ (encodeAll msgs).length := by
      have hbound := (placed_bounds _ hmem).2
      rw [length_encodeAll]
      omega
    obtain ⟨-, -, len, hread, hbody⟩ := hfound _ msg hown
    rw [Message.size, messageHeaderSize] at hend
    rw [Message.needed]
    split_ifs with hempty
    · -- the type is the last field that is read of a message without a body
      have htype := (readHeader_eq_some.mp hread).2.2.2
      have hindex : s + 8 - a = s - a + 8 := by omega
      have hinside : s + 8 < (encodeAll msgs).length := by omega
      have hlast : s + 8 < a + chunk.length := by
        apply adverse_agree (by omega) hinside
        rw [hindex, htype, type_in_stream hmem hfits]
      rw [headerFieldsSize]
      omega
    · have hpos := List.length_pos_of_ne_nil hempty
      -- the last byte of the body is copied, so it agrees with the stream
      let j := msg.body.length - 1
      have hj : j < msg.body.length := by omega
      have hindex : s + (messageHeaderSize + j) - a = s - a + messageHeaderSize + j := by omega
      have hinside : s + (messageHeaderSize + j) < (encodeAll msgs).length := by
        rw [messageHeaderSize]
        omega
      have hlast : s + (messageHeaderSize + j) < a + chunk.length := by
        apply adverse_agree (by omega) hinside
        rw [hindex, body_in_stream hmem hfits hj, hbody, List.getElem?_take_of_lt,
          List.getElem?_drop]
        have hlen := congrArg List.length hbody
        rw [List.length_take] at hlen
        omega
      rw [Message.size]
      omega

end Chunks

/-- The reader handles the stream of the server exactly when every message is kept whole. -/
theorem segmentation_independent_iff (heap : ℕ → Fresh) (client : NetClient)
    {msgs : List Message} {chunks : List Bytes}
    (hmsgs : ∀ msg ∈ msgs, ServerMessage heap msg ∧ PlayerReady client msg)
    (hstream : chunks.flatten = encodeAll msgs)
    (hlens : ∀ chunk ∈ chunks, 1 ≤ chunk.length ∧ chunk.length ≤ maxMsg) :
    HandlesStream heap client msgs chunks ↔ KeptWhole msgs chunks := by
  constructor
  · exact kept_of_handlesStream fun msg hmem => (hmsgs msg hmem).1.fits
  · exact fun hkept => handlesStream_of_kept hkept hmsgs hstream hlens

/-- Two answers that arrive in one chunk are both handled. -/
theorem segmentation_two_answers_at_once :
    HandlesStream (fun _ _ => 0) netClientInit
      [⟨msgTypeRegisterSuccess, 1, []⟩, ⟨msgTypeListResponse, 2, [7, 8, 9]⟩]
      [encodeAll [⟨msgTypeRegisterSuccess, 1, []⟩, ⟨msgTypeListResponse, 2, [7, 8, 9]⟩]] := by
  have hserver (msg : Message) (hmem : msg ∈ ([⟨msgTypeRegisterSuccess, 1, []⟩,
      ⟨msgTypeListResponse, 2, [7, 8, 9]⟩] : List Message)) :
      ServerMessage (fun _ _ => 0) msg ∧ PlayerReady netClientInit msg := by
    simp only [List.mem_cons, List.not_mem_nil, or_false] at hmem
    obtain rfl | rfl := hmem
    · exact (answer_serverMessage (by decide) (by decide)).imp_right fun h => h _
    · exact (answer_serverMessage (by decide) (by decide)).imp_right fun h => h _
  apply (segmentation_independent_iff _ _ hserver (by simp) (by decide)).mpr
  intro s msg a chunk hmem hchunk _ _
  have hbound := (placed_bounds _ hmem).2
  simp only [placed, List.mem_singleton, Prod.mk.injEq] at hchunk
  obtain ⟨rfl, rfl⟩ := hchunk
  refine ⟨⟨_, List.mem_cons_self ..⟩, ?_⟩
  rw [length_encodeAll]
  exact le_trans (Nat.add_le_add_left (needed_le_size msg).2 s) hbound

/-- An answer that is cut after its first byte is lost: neither chunk starts with the magic number. -/
theorem answer_cut_in_header_lost :
    encodeAll [⟨msgTypeRegisterSuccess, 1, []⟩] = [237, 254, 0, 0, 1, 0, 0, 0, 86, 0, 0, 0] ∧
      ¬HandlesStream (fun _ _ => 0) netClientInit [⟨msgTypeRegisterSuccess, 1, []⟩]
        [[237], [254, 0, 0, 1, 0, 0, 0, 86, 0, 0, 0]] := by
  refine ⟨by decide, ?_⟩
  intro h
  obtain ⟨client', hthread⟩ := h fun _ _ => 0
  have hlost : (tetrisThread (fun _ _ => 0) (fun _ _ => 0) 0 netClientInit
      [[237], [254, 0, 0, 1, 0, 0, 0, 86, 0, 0, 0]]).toOption = some (netClientInit, []) := by
    decide +kernel
  rw [hthread] at hlost
  exact absurd hlost (by simp [Except.toOption, placed])

end TetrisMint
