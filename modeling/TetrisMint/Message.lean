import TetrisMint.StringArray

namespace TetrisMint

open CStrings

def msgMagicNumber : ℕ := 0xfeed

/-- The size of the buffers that both sides pass to recv. -/
def maxMsg : ℕ := 2048

/-- Does not count the NUL. -/
def playerNameMaxChars : ℕ := 15

def msgTypeRegister : UInt8 := 85
def msgTypeRegisterSuccess : UInt8 := 86
def msgTypeOpponent : UInt8 := 79
def msgTypeRotate : UInt8 := 82
def msgTypeTranslate : UInt8 := 84
def msgTypeLower : UInt8 := 76
def msgTypeDrop : UInt8 := 68
def msgTypeSwapHold : UInt8 := 83
def msgTypeList : UInt8 := 80
def msgTypeBoard : UInt8 := 66
def msgTypeListResponse : UInt8 := 89
def msgTypeStartGame : UInt8 := 65
def msgTypeGameStarted : UInt8 := 67

structure MessageHeader where
  magicNumber : ℕ
  requestId : ℕ
  contentLength : ℕ
  messageType : UInt8
deriving DecidableEq

/-- The size of the header structure. Its fields end after nine bytes. -/
def messageHeaderSize : ℕ := 12

def headerFieldsSize : ℕ := 9

/-- The header that a pointer to `off` shows. -/
def readHeader (m : Bytes) (off : ℕ) : Option MessageHeader := do
  let magicNumber ← leField m off 4
  let requestId ← leField m (off + 4) 2
  let contentLength ← leField m (off + 6) 2
  let messageType ← m[off + 8]?
  some ⟨magicNumber, requestId, contentLength, messageType⟩

/-- The bytes of the fields; the three bytes of padding after them stay zero. -/
def headerFields (requestId contentLength : ℕ) (messageType : UInt8) : Bytes :=
  leBytes 4 msgMagicNumber ++ (leBytes 2 requestId ++ (leBytes 2 contentLength ++ [messageType]))

def headerPadding : Bytes := [0, 0, 0]

/-- The payload that one call hands to send. -/
def messageNbytes (bytes : Bytes) (requestId : ℤ) (messageType : UInt8) : Bytes :=
  headerFields (requestId % 2 ^ 16).toNat bytes.length messageType ++ headerPadding ++ bytes

def messageBlob (blob : Blob) (requestId : ℤ) (messageType : UInt8) : Except Fault Bytes := do
  let bytes ← access (bytesAt blob.bytes blob.length)
  .ok (messageNbytes bytes requestId messageType)

/-- A message as its receiver should see it. -/
structure Message where
  messageType : UInt8
  requestId : ℕ
  body : Bytes
deriving DecidableEq

/-- The request id and the length of the body fit their fields. -/
def Message.Fits (msg : Message) : Prop :=
  msg.requestId < 2 ^ 16 ∧ msg.body.length < 2 ^ 16

instance instDecidableMessageFits (msg : Message) : Decidable msg.Fits := inferInstanceAs (Decidable (_ ∧ _))

def Message.header (msg : Message) : MessageHeader :=
  ⟨msgMagicNumber, msg.requestId, msg.body.length, msg.messageType⟩

@[simp] theorem Message.header_messageType (msg : Message) :
    msg.header.messageType = msg.messageType := rfl

@[simp] theorem Message.header_contentLength (msg : Message) :
    msg.header.contentLength = msg.body.length := rfl

def Message.encode (msg : Message) : Bytes :=
  messageNbytes msg.body msg.requestId msg.messageType

def Message.size (msg : Message) : ℕ := messageHeaderSize + msg.body.length

/-- The stream of some messages that are sent one after the other. -/
def encodeAll (msgs : List Message) : Bytes := (msgs.map Message.encode).flatten

/-- The buffer after recv: the chunk, and behind it what the stack held before. -/
def recvBuffer (stale : Fresh) (chunk : Bytes) : Bytes :=
  chunk ++ (malloc stale maxMsg).drop chunk.length

@[simp] theorem length_headerFields (requestId contentLength : ℕ) (messageType : UInt8) :
    (headerFields requestId contentLength messageType).length = headerFieldsSize := by
  simp only [headerFields, List.length_append, length_leBytes, List.length_singleton]
  rfl

theorem length_encode (msg : Message) : msg.encode.length = msg.size := by
  simp only [Message.encode, messageNbytes, List.length_append, length_headerFields]
  rfl

theorem encodeAll_append (front back : List Message) :
    encodeAll (front ++ back) = encodeAll front ++ encodeAll back := by
  rw [encodeAll, List.map_append, List.flatten_append]
  rfl

theorem encode_eq {msg : Message} (h : msg.Fits) :
    msg.encode = headerFields msg.requestId msg.body.length msg.messageType ++
      (headerPadding ++ msg.body) := by
  have hid : ((msg.requestId : ℤ) % 2 ^ 16).toNat = msg.requestId := by
    have := h.1
    omega
  rw [Message.encode, messageNbytes, hid, List.append_assoc]

theorem readHeader_eq_some {m : Bytes} {off : ℕ} {header : MessageHeader} :
    readHeader m off = some header ↔
      leField m off 4 = some header.magicNumber ∧ leField m (off + 4) 2 = some header.requestId ∧
        leField m (off + 6) 2 = some header.contentLength ∧
        m[off + 8]? = some header.messageType := by
  simp only [readHeader, bind, Option.bind_eq_some_iff, Option.some.injEq]
  constructor
  · rintro ⟨magic, hm, id, hid, len, hlen, type, htype, rfl⟩
    exact ⟨hm, hid, hlen, htype⟩
  · rintro ⟨hm, hid, hlen, htype⟩
    exact ⟨_, hm, _, hid, _, hlen, _, htype, rfl⟩

/-- A header that lies within the bytes is the header of a longer buffer. -/
theorem readHeader_append {m : Bytes} {off : ℕ} {header : MessageHeader}
    (h : readHeader m off = some header) (rest : Bytes) : readHeader (m ++ rest) off = some header := by
  obtain ⟨hmagic, hid, hlen, htype⟩ := readHeader_eq_some.mp h
  have hinside : off + 8 < m.length := (List.getElem?_eq_some_iff.mp htype).1
  rw [readHeader_eq_some, List.getElem?_append_left hinside]
  exact ⟨leField_append hmagic rest, leField_append hid rest,
    leField_append hlen rest, htype⟩

/-- A header is read where the nine bytes of its fields stand, and nowhere else. -/
theorem readHeader_eq_some_iff {m : Bytes} {off requestId contentLength : ℕ}
    {messageType : UInt8} (hid : requestId < 2 ^ 16) (hlen : contentLength < 2 ^ 16) :
    readHeader m off = some ⟨msgMagicNumber, requestId, contentLength, messageType⟩ ↔
      (m.drop off).take headerFieldsSize = headerFields requestId contentLength messageType := by
  -- the nine bytes are the four fields one after the other
  have hsplit : (m.drop off).take headerFieldsSize =
      (m.drop off).take 4 ++ ((m.drop (off + 4)).take 2 ++
        ((m.drop (off + 6)).take 2 ++ (m.drop (off + 8)).take 1)) := by
    have h₁ := @List.take_add UInt8 (m.drop off) 4 5
    have h₂ := @List.take_add UInt8 (m.drop (off + 4)) 2 3
    have h₃ := @List.take_add UInt8 (m.drop (off + 6)) 2 1
    rw [List.drop_drop] at h₁ h₂ h₃
    rw [← h₃, ← h₂, ← h₁]
    rfl
  have hlast : m[off + 8]? = some messageType ↔ (m.drop (off + 8)).take 1 = [messageType] := by
    rw [List.take_one, List.head?_drop]
    cases m[off + 8]? with
    | none => simp
    | some b => simp
  have hmagic : msgMagicNumber < 256 ^ 4 := by decide
  rw [readHeader_eq_some]
  change leField m off 4 = some msgMagicNumber ∧ leField m (off + 4) 2 = some requestId ∧
    leField m (off + 6) 2 = some contentLength ∧ m[off + 8]? = some messageType ↔ _
  rw [leField_eq_some_iff (by decide) hmagic, leField_eq_some_iff (by decide) hid,
    leField_eq_some_iff (by decide) hlen, hlast, hsplit, headerFields]
  constructor
  · rintro ⟨h₁, h₂, h₃, h₄⟩
    rw [h₁, h₂, h₃, h₄]
  · intro h
    -- nine bytes in all leave no piece short
    have hnine := congrArg List.length h
    simp only [List.length_append, List.length_take, List.length_drop, length_leBytes,
      List.length_singleton] at hnine
    have hlen₁ : ((m.drop off).take 4).length = (leBytes 4 msgMagicNumber).length := by
      rw [List.length_take, List.length_drop, length_leBytes]
      omega
    have hlen₂ : ((m.drop (off + 4)).take 2).length = (leBytes 2 requestId).length := by
      rw [List.length_take, List.length_drop, length_leBytes]
      omega
    have hlen₃ : ((m.drop (off + 6)).take 2).length = (leBytes 2 contentLength).length := by
      rw [List.length_take, List.length_drop, length_leBytes]
      omega
    obtain ⟨h₁, h⟩ := List.append_inj h hlen₁
    obtain ⟨h₂, h⟩ := List.append_inj h hlen₂
    obtain ⟨h₃, h₄⟩ := List.append_inj h hlen₃
    exact ⟨h₁, h₂, h₃, h₄⟩

section Encoded

variable {msg : Message} (h : msg.Fits) (rest : Bytes)

include h in
theorem take_encode : (msg.encode ++ rest).take headerFieldsSize =
    headerFields msg.requestId msg.body.length msg.messageType := by
  rw [encode_eq h, List.append_assoc]
  exact List.take_left' (length_headerFields ..)

include h in
theorem drop_encode : (msg.encode ++ rest).drop messageHeaderSize = msg.body ++ rest := by
  rw [encode_eq h, ← List.append_assoc, List.append_assoc]
  apply List.drop_left'
  rw [List.length_append, length_headerFields]
  rfl

include h in
theorem readHeader_encode : readHeader (msg.encode ++ rest) 0 = some msg.header := by
  apply (readHeader_eq_some_iff h.1 h.2).mpr
  rw [List.drop_zero, take_encode h]

end Encoded

end TetrisMint
