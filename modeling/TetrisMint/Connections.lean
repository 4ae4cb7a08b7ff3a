import TetrisMint.SlotTable
import TetrisMint.StringArray

/-! The main loop of the server: the slots of `client_socket`, the descriptors of
the process, and which connections each of them holds. -/
namespace TetrisMint

open FallibleRun SlotTable

/-- What a descriptor refers to. Connections are numbered as they are accepted. -/
inductive Endpoint
  | inherited
  | listener
  | connection (id : ℕ)
deriving DecidableEq

/-- Where the main loop is. -/
inductive Point
  | select
  | accept
  /-- The turn of the slot `i` in the loop over `client_socket`. -/
  | slot (i : ℕ)
  /-- main has returned. -/
  | exited
deriving DecidableEq

def maxSockets : ℕ := 50

/-- The variables of main and the descriptors of the process; with them, of the
connections numbered below `accepted`, those whose end of file was received and
those that found no slot. -/
structure MainLoop where
  descriptors : List (Option Endpoint)
  sock : ℕ
  clientSocket : List ℕ
  activeFdSet : List ℕ
  point : Point
  accepted : ℕ
  ended : List ℕ
  turnedAway : List ℕ
deriving DecidableEq

/-- What the next system call answers: the ready descriptors, whether accept
succeeds, and what recv returns, if it does not fail. The empty chunk is the end of file. -/
structure Reply where
  ready : List ℕ
  accepts : Bool
  received : Option (Fresh × Bytes)

/-- The state before the first turn, in a process that inherits the first descriptors. -/
def mainStart (inherited : ℕ) : MainLoop where
  descriptors := List.replicate inherited (some .inherited) ++ [some .listener]
  sock := inherited
  clientSocket := List.replicate maxSockets 0
  activeFdSet := []
  point := .select
  accepted := 0
  ended := []
  turnedAway := []

/-- select fails when one of the descriptors is closed. -/
def mainSelect (reply : Reply) (s : MainLoop) : MainLoop :=
  let watched := s.sock :: s.clientSocket.filter (0 < ·)
  if watched.all fun d => (s.descriptors[d]?.join).isSome then
    { s with activeFdSet := watched.filter (· ∈ reply.ready), point := .accept }
  else { s with point := .exited }

/-- A new connection gets the lowest unused descriptor. 0 marks the empty slots. -/
def MainLoop.acceptConnection (s : MainLoop) : MainLoop :=
  let new := lowest Option.isNone s.descriptors
  { s with
    descriptors := alloc Option.isNone (some (.connection s.accepted)) s.descriptors
    activeFdSet := new :: s.activeFdSet
    clientSocket := put (· = 0) new s.clientSocket
    point := .slot 0
    accepted := s.accepted + 1
    turnedAway := if 0 ∈ s.clientSocket then s.turnedAway else s.turnedAway ++ [s.accepted] }

def mainAccept (reply : Reply) (s : MainLoop) : MainLoop :=
  if s.sock ∈ s.activeFdSet then
    if reply.accepts then s.acceptConnection else { s with point := .select }
  else { s with point := .slot 0 }

/-- The connection from which read_from_client receives in the turn of the slot `i`. On
any other descriptor recv fails, which read_from_client does not tell from success. -/
def MainLoop.reading (s : MainLoop) (i : ℕ) : Option ℕ :=
  let fd := s.clientSocket.getD i 0
  if fd ∈ s.activeFdSet then
    match s.descriptors[fd]? with
    | some (some (.connection c)) => some c
    | _ => none
  else none

/-- recv finds the end of file of the connection `c`, behind which there is nothing else. -/
def MainLoop.atEof (s : MainLoop) (reply : Reply) (c : ℕ) : Bool :=
  c ∈ s.ended || reply.received.any fun read => read.2 = []

def nextSlot (i : ℕ) : Point := if i + 1 < maxSockets then .slot (i + 1) else .select

/-- What follows the end of file. The descriptor that is closed is the number of the slot. -/
def MainLoop.closeSlot (s : MainLoop) (i c : ℕ) : MainLoop :=
  { s with
    descriptors := s.descriptors.set i none
    clientSocket := s.clientSocket.set i 0
    point := nextSlot i
    ended := s.ended ++ [c] }

def mainSlot (i : ℕ) (reply : Reply) (s : MainLoop) : MainLoop :=
  match s.reading i with
  | some c => if s.atEof reply c then s.closeSlot i c else { s with point := nextSlot i }
  | none => { s with point := nextSlot i }

/-- The main loop up to its next system call, which answers with `reply`. -/
def mainStep (s : MainLoop) (reply : Reply) : MainLoop :=
  match s.point with
  | .select => mainSelect reply s
  | .accept => mainAccept reply s
  | .slot i => mainSlot i reply s
  | .exited => s

/-- The main loop as a step of a run; what becomes of the data is left out. -/
def loopStep (s : MainLoop) (reply : Reply) : Except Fault MainLoop := .ok (mainStep s reply)

/-- The descriptor `d` is open and refers to `e`. -/
def MainLoop.On (s : MainLoop) (d : ℕ) (e : Endpoint) : Prop :=
  Holds Option.isNone s.descriptors d (some e)

/-- The slot `i` of `client_socket` holds the descriptor `d`. -/
def MainLoop.Slot (s : MainLoop) (i d : ℕ) : Prop := Holds (· = 0) s.clientSocket i d

/-- The slot `i` holds the descriptor of the connection `c`. -/
def MainLoop.Serves (s : MainLoop) (i c : ℕ) : Prop := ∃ d, s.Slot i d ∧ s.On d (.connection c)

/-- In this step a connection is accepted. -/
def Accepting (s : MainLoop) (reply : Reply) : Prop :=
  s.point = .accept ∧ s.sock ∈ s.activeFdSet ∧ reply.accepts = true

/-- In this turn of the slot `i` the end of file of the connection `c` is received. -/
def EofAt (s : MainLoop) (reply : Reply) (i c : ℕ) : Prop :=
  s.point = .slot i ∧ s.reading i = some c ∧ s.atEof reply c = true

/-- The numbers of the connections are theirs alone. -/
structure Numbered (s : MainLoop) : Prop where
  numbered : ∀ d c, s.On d (.connection c) → c < s.accepted
  once : ∀ c, HeldOnce Option.isNone s.descriptors (some (.connection c))

/-- The connections that have not ended are in one slot each, and nothing else is. -/
structure Kept (s : MainLoop) : Prop extends Numbered s where
  listening : s.On s.sock .listener
  inherited : ∀ d < s.sock, s.On d .inherited
  served : ∀ c < s.accepted, c ∉ s.ended → c ∉ s.turnedAway → ∃! i, s.Serves i c
  clients : ∀ i d, s.Slot i d → ∃ c, s.On d (.connection c)
  distinct : ∀ d, HeldOnce (· = 0) s.clientSocket d
  /-- What ended or found no slot is closed. -/
  closed : ∀ d c, s.On d (.connection c) → c ∉ s.ended ∧ c ∉ s.turnedAway
  past : ∀ c, c ∈ s.ended ∨ c ∈ s.turnedAway → c < s.accepted

/-- An end of file empties the slot of its connection and closes its descriptor, and
changes no other slot or descriptor. -/
def EofExact (s : MainLoop) (reply : Reply) : Prop :=
  ∀ i c, EofAt s reply i c →
    (∀ j d, (mainStep s reply).Slot j d ↔ s.Slot j d ∧ ¬s.On d (.connection c)) ∧
      ∀ d e, (mainStep s reply).On d e ↔ s.On d e ∧ e ≠ .connection c

/-- An accepted connection finds a slot, and an end of file is received in a slot
whose number is the descriptor of the connection. -/
structure TableStep (s : MainLoop) (reply : Reply) : Prop where
  room : Accepting s reply → 0 ∈ s.clientSocket
  sameNumber : ∀ i c, EofAt s reply i c → s.clientSocket.getD i 0 = i

theorem not_accepting {s : MainLoop} {reply : Reply} (h : s.point ≠ .accept) :
    ¬Accepting s reply := fun haccepting => h haccepting.1

theorem not_eofAt {s : MainLoop} {reply : Reply} (h : ∀ i, s.point ≠ .slot i) (i c : ℕ) :
    ¬EofAt s reply i c := fun heof => h i heof.1

/-- What a step does: it accepts a connection, it receives an end of file, or only
the variables that direct the loop change. -/
theorem mainStep_cases (s : MainLoop) (reply : Reply) :
    Accepting s reply ∧ (∀ i c, ¬EofAt s reply i c) ∧ mainStep s reply = s.acceptConnection ∨
      (∃ i c, EofAt s reply i c ∧ ¬Accepting s reply ∧ mainStep s reply = s.closeSlot i c) ∨
      ¬Accepting s reply ∧ (∀ i c, ¬EofAt s reply i c) ∧
        ∃ active point, mainStep s reply = { s with activeFdSet := active, point := point } := by
  unfold mainStep
  cases hpoint : s.point with
  | select =>
    -- select only says which descriptors are ready
    refine Or.inr (Or.inr ⟨not_accepting (by simp [hpoint]), not_eofAt (by simp [hpoint]), ?_⟩)
    dsimp only [mainSelect]
    split_ifs
    · exact ⟨_, _, rfl⟩
    · exact ⟨s.activeFdSet, _, rfl⟩
  | accept =>
    have hnot := @not_eofAt s reply (by simp [hpoint])
    dsimp only [mainAccept]
    split_ifs with hready haccepts
    · exact Or.inl ⟨⟨hpoint, hready, haccepts⟩, hnot, rfl⟩
    · exact Or.inr (Or.inr ⟨fun h => haccepts h.2.2, hnot, s.activeFdSet, _, rfl⟩)
    · exact Or.inr (Or.inr ⟨fun h => hready h.2.1, hnot, s.activeFdSet, _, rfl⟩)
  | slot i =>
    have hnot := @not_accepting s reply (by simp [hpoint])
    -- only the slot whose turn it is can receive an end of file
    have hturn {j c : ℕ} (h : EofAt s reply j c) : s.reading i = some c := by
      rw [Point.slot.inj (hpoint.symm.trans h.1)]
      exact h.2.1
    dsimp only [mainSlot]
    cases hreading : s.reading i with
    | none =>
      refine Or.inr (Or.inr ⟨hnot, fun j c h => ?_, s.activeFdSet, _, rfl⟩)
      rw [hreading] at hturn
      exact absurd (hturn h) (by simp)
    | some c =>
      dsimp only
      split_ifs with heof
      · exact Or.inr (Or.inl ⟨i, c, ⟨hpoint, hreading, heof⟩, hnot, rfl⟩)
      · refine Or.inr (Or.inr ⟨hnot, fun j c' h => ?_, s.activeFdSet, _, rfl⟩)
        have hsame : c = c' := Option.some.inj (hreading.symm.trans (hturn h))
        exact heof (hsame ▸ h.2.2)
  | exited =>
    exact Or.inr (Or.inr ⟨not_accepting (by simp [hpoint]), not_eofAt (by simp [hpoint]),
      s.activeFdSet, s.point, rfl⟩)

theorem mainStep_of_accepting {s : MainLoop} {reply : Reply} (h : Accepting s reply) :
    mainStep s reply = s.acceptConnection := by
  rcases mainStep_cases s reply with ⟨-, -, hmain⟩ | ⟨i, c, -, hnot, -⟩ | ⟨hnot, -⟩
  · exact hmain
  · exact absurd h hnot
  · exact absurd h hnot

/-- One end of file a step. -/
theorem EofAt.unique {s : MainLoop} {reply : Reply} {i j c c' : ℕ} (h : EofAt s reply i c)
    (h' : EofAt s reply j c') : i = j ∧ c = c' := by
  have hij : i = j := Point.slot.inj (h.1.symm.trans h'.1)
  refine ⟨hij, ?_⟩
  apply Option.some.inj
  calc some c = s.reading i := h.2.1.symm
    _ = s.reading j := by rw [hij]
    _ = some c' := h'.2.1

theorem mainStep_of_eof {s : MainLoop} {reply : Reply} {i c : ℕ} (h : EofAt s reply i c) :
    mainStep s reply = s.closeSlot i c := by
  rcases mainStep_cases s reply with ⟨-, hnot, -⟩ | ⟨j, c', h', -, hmain⟩ | ⟨-, hnot, -⟩
  · exact absurd h (hnot i c)
  · obtain ⟨rfl, rfl⟩ := h.unique h'
    exact hmain
  · exact absurd h (hnot i c)

section Steps

variable {s : MainLoop} {reply : Reply}

/-- The variables that only direct the loop do not matter. -/
theorem Kept.frame (hk : Kept s) (active : List ℕ) (point : Point) :
    Kept { s with activeFdSet := active, point := point } :=
  ⟨⟨hk.numbered, hk.once⟩, hk.listening, hk.inherited, hk.served, hk.clients, hk.distinct, hk.closed,
    hk.past⟩

/-- One slot at most serves a connection, so one slot does when some slot does. -/
theorem existsUnique_serves {c i : ℕ} (hdistinct : ∀ d, HeldOnce (· = 0) s.clientSocket d)
    (honce : HeldOnce Option.isNone s.descriptors (some (.connection c))) (hi : s.Serves i c) :
    ∃! i, s.Serves i c := by
  refine ⟨i, hi, ?_⟩
  rintro j ⟨d', hslot', hon'⟩
  obtain ⟨d, hslot, hon⟩ := hi
  rw [honce d' d hon' hon] at hslot'
  exact hdistinct d j i hslot' hslot

/-- Descriptor 0 is never a connection, so that it can mark the empty slots. -/
theorem Kept.zero (hk : Kept s) : ∃ e, s.On 0 e ∧ ∀ c, e ≠ .connection c := by
  rcases Nat.eq_zero_or_pos s.sock with hsock | hsock
  · exact ⟨.listener, hsock ▸ hk.listening, fun c => by simp⟩
  · exact ⟨.inherited, hk.inherited 0 hsock, fun c => by simp⟩

theorem reading_eq_some {i c : ℕ} (h : s.reading i = some c) :
    s.On (s.clientSocket.getD i 0) (.connection c) := by
  dsimp only [MainLoop.reading] at h
  split_ifs at h with hactive
  split at h
  · rename_i c' hget
    rw [← Option.some.inj h]
    exact ⟨hget, rfl⟩
  · exact absurd h (by simp)

/-- The turn that receives from a connection is the turn of its slot. -/
theorem Kept.slot_of_reading (hk : Kept s) {i c : ℕ} (h : s.reading i = some c) :
    s.Slot i (s.clientSocket.getD i 0) := by
  have hon := reading_eq_some h
  have hne : s.clientSocket.getD i 0 ≠ 0 := by
    intro hzero
    rw [hzero] at hon
    obtain ⟨e, he, hother⟩ := hk.zero
    exact hother c (Option.some.inj (he.eq hon))
  apply holds_getD
  · exact decide_eq_false hne
  · rfl

theorem mainStart_kept (inherited : ℕ) : Kept (mainStart inherited) := by
  -- all slots are empty, and of the descriptors only the last is a socket
  have hslot (i d : ℕ) : ¬(mainStart inherited).Slot i d := by
    rintro ⟨hget, hd⟩
    have hzero := List.eq_of_mem_replicate (List.mem_of_getElem? hget)
    rw [hzero] at hd
    exact absurd hd (by simp)
  have hconnection (d c : ℕ) : ¬(mainStart inherited).On d (.connection c) := by
    rintro ⟨hget, -⟩
    rcases List.mem_append.mp (List.mem_of_getElem? hget) with hinherited | hlistener
    · exact absurd (List.eq_of_mem_replicate hinherited) (by simp)
    · exact absurd (List.mem_singleton.mp hlistener) (by simp)
  constructor
  case toNumbered =>
    constructor
    · exact fun d c h => absurd h (hconnection d c)
    · exact fun c i j h => absurd h (hconnection i c)
  case listening =>
    refine ⟨?_, rfl⟩
    have hlast := @List.getElem?_concat_length _ (List.replicate inherited (some Endpoint.inherited))
      (some .listener)
    rwa [List.length_replicate] at hlast
  case inherited =>
    intro d hd
    refine ⟨?_, rfl⟩
    rw [mainStart, List.getElem?_append_left (by rwa [List.length_replicate])]
    exact List.getElem?_replicate_of_lt hd
  case served => exact fun c hc => absurd hc (Nat.not_lt_zero c)
  case clients => exact fun i d h => absurd h (hslot i d)
  case distinct => exact fun d i j h => absurd h (hslot i d)
  case closed => exact fun d c h => absurd h (hconnection d c)
  case past => exact fun c h => absurd h (by simp [mainStart])

theorem acceptConnection_on {d : ℕ} {e : Endpoint} : s.acceptConnection.On d e ↔
    d = lowest Option.isNone s.descriptors ∧ e = .connection s.accepted ∨ s.On d e := by
  rw [← @Option.some_inj _ e]
  exact @holds_alloc _ Option.isNone _ (some (.connection s.accepted)) rfl d (some e)

/-- The descriptor of a new connection was not in use. -/
theorem Kept.new_pos (hk : Kept s) : 0 < lowest Option.isNone s.descriptors := by
  apply Nat.pos_of_ne_zero
  intro hzero
  obtain ⟨e, he, -⟩ := hk.zero
  rw [← hzero] at he
  exact not_holds_lowest _ he

theorem acceptConnection_slot (hk : Kept s) (hroom : 0 ∈ s.clientSocket) {i d : ℕ} :
    s.acceptConnection.Slot i d ↔
      i = lowest (· = 0) s.clientSocket ∧ d = lowest Option.isNone s.descriptors ∨ s.Slot i d := by
  apply holds_put
  · exact List.findIdx_lt_length_of_exists ⟨0, hroom, rfl⟩
  · exact decide_eq_false hk.new_pos.ne'

theorem acceptConnection_numbered (hn : Numbered s) : Numbered s.acceptConnection := by
  have hfresh (d : ℕ) : ¬s.On d (.connection s.accepted) := fun h => (hn.numbered d _ h).false
  constructor
  · intro d c hon
    rcases acceptConnection_on.mp hon with ⟨-, hc⟩ | hon
    · rw [Endpoint.connection.injEq] at hc
      exact hc ▸ Nat.lt_succ_self _
    · exact (hn.numbered d c hon).trans (Nat.lt_succ_self _)
  · exact fun c => (hn.once c).insert hfresh fun _ _ => holds_alloc rfl

/-- A connection that finds an empty slot is served from there. -/
theorem acceptConnection_kept (hk : Kept s) (hroom : 0 ∈ s.clientSocket) :
    Kept s.acceptConnection := by
  have haway : s.acceptConnection.turnedAway = s.turnedAway := if_pos hroom
  have hnumbered := acceptConnection_numbered hk.toNumbered
  -- a slot with the new descriptor would hold a connection of that number already
  have hdistinct (d : ℕ) : HeldOnce (· = 0) s.acceptConnection.clientSocket d := by
    apply (hk.distinct d).insert _ fun _ _ => acceptConnection_slot hk hroom
    intro i hslot
    obtain ⟨c, hc⟩ := hk.clients i _ hslot
    exact not_holds_lowest _ hc
  constructor
  case toNumbered => exact hnumbered
  case listening => exact acceptConnection_on.mpr (Or.inr hk.listening)
  case inherited => exact fun d hd => acceptConnection_on.mpr (Or.inr (hk.inherited d hd))
  case served =>
    intro c hc hended haway'
    rw [haway] at haway'
    rcases Nat.lt_succ_iff_lt_or_eq.mp hc with hold | rfl
    · -- the other connections stay where they are
      obtain ⟨i, ⟨d, hslot, hon⟩, -⟩ := hk.served c hold hended haway'
      exact existsUnique_serves hdistinct (hnumbered.once c)
        ⟨d, (acceptConnection_slot hk hroom).mpr (Or.inr hslot), acceptConnection_on.mpr (Or.inr hon)⟩
    · exact existsUnique_serves hdistinct (hnumbered.once s.accepted)
        ⟨_, (acceptConnection_slot hk hroom).mpr (Or.inl ⟨rfl, rfl⟩),
          acceptConnection_on.mpr (Or.inl ⟨rfl, rfl⟩)⟩
  case clients =>
    intro i d hslot
    rcases (acceptConnection_slot hk hroom).mp hslot with ⟨-, rfl⟩ | hslot
    · exact ⟨s.accepted, acceptConnection_on.mpr (Or.inl ⟨rfl, rfl⟩)⟩
    · obtain ⟨c, hc⟩ := hk.clients i d hslot
      exact ⟨c, acceptConnection_on.mpr (Or.inr hc)⟩
  case distinct => exact hdistinct
  case closed =>
    intro d c hon
    rw [haway]
    rcases acceptConnection_on.mp hon with ⟨-, hc⟩ | hon
    · rw [Endpoint.connection.injEq] at hc
      rw [hc]
      exact ⟨fun h => (hk.past _ (Or.inl h)).false, fun h => (hk.past _ (Or.inr h)).false⟩
    · exact hk.closed d c hon
  case past =>
    intro c hc
    rw [haway] at hc
    exact (hk.past c hc).trans (Nat.lt_succ_self _)

/-- In a full table the new connection is neither served nor closed. -/
theorem acceptConnection_full (hfull : 0 ∉ s.clientSocket) : ¬Kept s.acceptConnection := by
  intro hk
  have hon : s.acceptConnection.On (lowest Option.isNone s.descriptors) (.connection s.accepted) :=
    acceptConnection_on.mpr (Or.inl ⟨rfl, rfl⟩)
  have haway : s.acceptConnection.turnedAway = s.turnedAway ++ [s.accepted] := if_neg hfull
  apply (hk.closed _ _ hon).2
  rw [haway]
  exact List.mem_append_right _ (List.mem_singleton_self _)

variable {i c : ℕ}

theorem closeSlot_on {d : ℕ} {e : Endpoint} : (s.closeSlot i c).On d e ↔ d ≠ i ∧ s.On d e :=
  holds_set_vacant rfl

theorem closeSlot_slot {j d : ℕ} : (s.closeSlot i c).Slot j d ↔ j ≠ i ∧ s.Slot j d :=
  holds_set_vacant rfl

theorem closeSlot_numbered (hn : Numbered s) : Numbered (s.closeSlot i c) := by
  constructor
  · exact fun d c' hd => hn.numbered d c' (closeSlot_on.mp hd).2
  · exact fun c' => (hn.once c').set_vacant rfl i

/-- When the slot and the descriptor have one number, the right slot is emptied. -/
theorem closeSlot_slot_exact (hk : Kept s) (hslot : s.Slot i i) (hon : s.On i (.connection c))
    {j d : ℕ} : (s.closeSlot i c).Slot j d ↔ s.Slot j d ∧ ¬s.On d (.connection c) := by
  rw [closeSlot_slot]
  constructor
  · rintro ⟨hne, hj⟩
    refine ⟨hj, fun hd => hne ?_⟩
    rw [hk.once c d i hd hon] at hj
    exact hk.distinct i j i hj hslot
  · rintro ⟨hj, hd⟩
    refine ⟨?_, hj⟩
    rintro rfl
    rw [hj.eq hslot] at hd
    exact hd hon

/-- And the right descriptor is closed. -/
theorem closeSlot_on_exact (hk : Kept s) (hon : s.On i (.connection c)) {d : ℕ} {e : Endpoint} :
    (s.closeSlot i c).On d e ↔ s.On d e ∧ e ≠ .connection c := by
  rw [closeSlot_on]
  constructor
  · rintro ⟨hne, hd⟩
    refine ⟨hd, ?_⟩
    rintro rfl
    exact hne (hk.once c d i hd hon)
  · rintro ⟨hd, he⟩
    refine ⟨?_, hd⟩
    rintro rfl
    exact he (Option.some.inj (hd.eq hon))

theorem closeSlot_kept (hk : Kept s) (hslot : s.Slot i i) (hon : s.On i (.connection c)) :
    Kept (s.closeSlot i c) := by
  have hopen {d : ℕ} {e : Endpoint} (he : e ≠ .connection c) (hd : s.On d e) :
      (s.closeSlot i c).On d e := (closeSlot_on_exact hk hon).mpr ⟨hd, he⟩
  have hdistinct (d : ℕ) : HeldOnce (· = 0) (s.closeSlot i c).clientSocket d :=
    (hk.distinct d).set_vacant rfl i
  have hnumbered : Numbered (s.closeSlot i c) := closeSlot_numbered hk.toNumbered
  constructor
  case toNumbered => exact hnumbered
  case listening => exact hopen (by simp) hk.listening
  case inherited => exact fun d hd => hopen (by simp) (hk.inherited d hd)
  case served =>
    intro c' hc' hended haway
    -- the connections that have not ended are other ones, in other slots
    have hne : Endpoint.connection c' ≠ .connection c := by
      intro heq
      rw [Endpoint.connection.injEq] at heq
      exact hended (heq ▸ List.mem_append_right _ (List.mem_singleton_self _))
    obtain ⟨j, ⟨d, hj, hd⟩, -⟩ :=
      hk.served c' hc' (fun h => hended (List.mem_append_left _ h)) haway
    apply existsUnique_serves hdistinct (hnumbered.once c')
    refine ⟨d, (closeSlot_slot_exact hk hslot hon).mpr ⟨hj, fun h => ?_⟩, hopen hne hd⟩
    exact hne (Option.some.inj (hd.eq h))
  case clients =>
    intro j d hj
    obtain ⟨hj, hd⟩ := (closeSlot_slot_exact hk hslot hon).mp hj
    obtain ⟨c', hc'⟩ := hk.clients j d hj
    refine ⟨c', hopen ?_ hc'⟩
    intro heq
    exact hd (heq ▸ hc')
  case distinct => exact hdistinct
  case closed =>
    intro d c' hd
    obtain ⟨hd, hne⟩ := (closeSlot_on_exact hk hon).mp hd
    obtain ⟨hended, haway⟩ := hk.closed d c' hd
    refine ⟨?_, haway⟩
    intro hmem
    rcases List.mem_append.mp hmem with hold | hnew
    · exact hended hold
    · exact hne (congrArg _ (List.mem_singleton.mp hnew))
  case past =>
    rintro c' (hended | haway)
    · rcases List.mem_append.mp hended with hold | hnew
      · exact hk.past c' (Or.inl hold)
      · rw [List.mem_singleton.mp hnew]
        exact hk.numbered i c hon
    · exact hk.past c' (Or.inr haway)

/-- Otherwise the descriptor of the ended connection stays open. -/
theorem closeSlot_other {d : ℕ} (hon : s.On d (.connection c)) (hne : d ≠ i) :
    ¬Kept (s.closeSlot i c) := by
  intro hk
  apply (hk.closed d c (closeSlot_on.mpr ⟨hne, hon⟩)).1
  exact List.mem_append_right _ (List.mem_singleton_self _)

theorem mainStep_numbered (hn : Numbered s) (reply : Reply) : Numbered (mainStep s reply) := by
  rcases mainStep_cases s reply with ⟨-, -, hmain⟩ | ⟨i, c, -, -, hmain⟩ | ⟨-, -, active, point, hmain⟩
  · rw [hmain]
    exact acceptConnection_numbered hn
  · rw [hmain]
    exact closeSlot_numbered hn
  · rw [hmain]
    exact ⟨hn.numbered, hn.once⟩

/-- The step lemma: the condition is exactly what keeps the table. -/
theorem mainStep_kept (hk : Kept s) : Kept (mainStep s reply) ↔ TableStep s reply := by
  rcases mainStep_cases s reply with ⟨haccepting, hnot, hmain⟩ | ⟨i, c, heof, hnot, hmain⟩ |
    ⟨hnot, hnot', active, point, hmain⟩
  · rw [hmain]
    constructor
    · refine fun h => ⟨fun _ => ?_, fun i c heof => absurd heof (hnot i c)⟩
      by_contra hfull
      exact acceptConnection_full hfull h
    · exact fun h => acceptConnection_kept hk (h.room haccepting)
  · have hslot := hk.slot_of_reading heof.2.1
    have hon := reading_eq_some heof.2.1
    rw [hmain]
    constructor
    · refine fun h => ⟨fun haccepting => absurd haccepting hnot, fun j c' heof' => ?_⟩
      obtain ⟨rfl, rfl⟩ := heof.unique heof'
      by_contra hne
      exact closeSlot_other hon hne h
    · intro h
      rw [h.sameNumber i c heof] at hslot hon
      exact closeSlot_kept hk hslot hon
  · rw [hmain]
    refine ⟨fun _ => ⟨fun haccepting => absurd haccepting hnot, fun i c heof => ?_⟩, fun _ => ?_⟩
    · exact absurd heof (hnot' i c)
    · exact hk.frame active point

theorem eofExact_of_tableStep (hk : Kept s) (hstep : TableStep s reply) : EofExact s reply := by
  intro i c heof
  have hslot := hk.slot_of_reading heof.2.1
  have hon := reading_eq_some heof.2.1
  rw [hstep.sameNumber i c heof] at hslot hon
  rw [mainStep_of_eof heof]
  constructor
  · exact fun j d => closeSlot_slot_exact hk hslot hon
  · exact fun d e => closeSlot_on_exact hk hon

end Steps

/-- Over every order of connections and ends of file: each connection is in one slot
until its end of file, which empties that slot and closes that descriptor and no
other, exactly when no connection finds the table full and the slot of each end of
file has the number of the descriptor. -/
theorem connections_kept_iff (inherited : ℕ) (replies : List Reply) :
    ((∀ t, Visits loopStep (mainStart inherited) replies t → Kept t) ∧
        Along loopStep EofExact (mainStart inherited) replies) ↔
      Along loopStep TableStep (mainStart inherited) replies := by
  have hstep (s : MainLoop) (reply : Reply) (t : MainLoop) (hk : Kept s)
      (ht : loopStep s reply = .ok t) : Kept t ↔ TableStep s reply := by
    rw [← Except.ok.inj ht]
    exact mainStep_kept hk
  obtain ⟨u, hu, -⟩ := @run_returns _ _ _ loopStep (fun _ => True) replies
    (fun s reply _ _ => ⟨mainStep s reply, rfl, trivial⟩) (mainStart inherited) trivial
  have hvisits := visits_iff_along loopStep hstep (mainStart_kept inherited) hu
  refine ⟨fun h => hvisits.mp h.1, fun h => ⟨hvisits.mpr h, ?_⟩⟩
  apply along_mono loopStep (fun s reply t hk hP ht => (hstep s reply t hk ht).mpr hP)
  · exact fun s reply => eofExact_of_tableStep
  · exact mainStart_kept inherited
  · exact h

/-- The connections are numbered as their slots are, and their descriptors follow that
of the listener. -/
structure Packed (s : MainLoop) : Prop where
  descriptors : s.descriptors = List.replicate s.sock (some .inherited) ++ some .listener ::
    (List.range s.accepted).map fun c => some (.connection c)
  clientSocket : s.clientSocket = (List.range s.accepted).map (s.sock + 1 + ·) ++
    List.replicate (maxSockets - s.accepted) 0

section Packing

variable {s : MainLoop} {reply : Reply}

/-- A slot has a smaller number than the descriptor it holds. -/
theorem Packed.slot_lt (hp : Packed s) {i d : ℕ} (h : s.Slot i d) : i < d := by
  obtain ⟨hget, hd⟩ := h
  have hne : d ≠ 0 := of_decide_eq_false hd
  rw [hp.clientSocket] at hget
  by_cases hi : i < s.accepted
  · rw [List.getElem?_append_left (by simpa using hi), List.getElem?_map,
      List.getElem?_range hi, Option.map_some, Option.some_inj] at hget
    omega
  · rw [List.getElem?_append_right (by simpa using hi)] at hget
    exact absurd (List.eq_of_mem_replicate (List.mem_of_getElem? hget)) hne

theorem no_eof_of_tableStep (hk : Kept s) (hp : Packed s) (hstep : TableStep s reply) (i c : ℕ) :
    ¬EofAt s reply i c := by
  intro heof
  have hlt := hp.slot_lt (hk.slot_of_reading heof.2.1)
  rw [hstep.sameNumber i c heof] at hlt
  exact hlt.false

/-- The new connection gets the next descriptor and the next slot. -/
theorem acceptConnection_packed (hp : Packed s) (hvacant : 0 ∈ s.clientSocket) :
    Packed s.acceptConnection := by
  -- no descriptor has been closed, so the next one is behind the last
  have hopen : ∀ e ∈ s.descriptors, Option.isNone e = false := by
    rw [hp.descriptors]
    intro e he
    rcases List.mem_append.mp he with he | he
    · rw [List.eq_of_mem_replicate he]
      rfl
    · rcases List.mem_cons.mp he with rfl | he
      · rfl
      · obtain ⟨c, -, rfl⟩ := List.mem_map.mp he
        rfl
  obtain ⟨hnew, halloc⟩ := @alloc_full _ _ _ (some (.connection s.accepted)) hopen
  have hlength : s.descriptors.length = s.sock + 1 + s.accepted := by
    rw [hp.descriptors]
    simp only [List.length_append, List.length_replicate, List.length_cons, List.length_map,
      List.length_range]
    omega
  have htaken : ∀ d ∈ (List.range s.accepted).map (s.sock + 1 + ·), decide (d = 0) = false := by
    simp
  -- all slots in use would leave no vacant one
  have hroom : s.accepted < maxSockets := by
    by_contra hfull
    rw [hp.clientSocket, Nat.sub_eq_zero_of_le (not_lt.mp hfull), List.replicate_zero,
      List.append_nil] at hvacant
    exact absurd (htaken 0 hvacant) (by simp)
  have hsucc : s.acceptConnection.accepted = s.accepted + 1 := rfl
  constructor
  case descriptors =>
    have hdescriptors : s.acceptConnection.descriptors =
        s.descriptors ++ [some (.connection s.accepted)] := halloc
    rw [hdescriptors, hsucc, List.range_succ, List.map_append, hp.descriptors]
    exact List.append_assoc ..
  case clientSocket =>
    have hslots : s.acceptConnection.clientSocket =
        put (· = 0) (s.sock + 1 + s.accepted) s.clientSocket := by
      rw [← hlength, ← hnew]
      rfl
    obtain ⟨n, hn⟩ := Nat.exists_eq_add_of_lt hroom
    have hleft : maxSockets - s.accepted = n + 1 := by omega
    have hleft' : maxSockets - (s.accepted + 1) = n := by omega
    rw [hslots, hsucc, hp.clientSocket, hleft, hleft', List.replicate_succ, put_append htaken rfl,
      List.range_succ, List.map_append, List.append_assoc]
    rfl

theorem mainStep_packed (hk : Kept s) (hp : Packed s) (hstep : TableStep s reply) :
    Packed (mainStep s reply) := by
  rcases mainStep_cases s reply with ⟨haccepting, -, hmain⟩ | ⟨i, c, heof, -⟩ |
    ⟨-, -, active, point, hmain⟩
  · -- a connection is accepted
    rw [hmain]
    exact acceptConnection_packed hp (hstep.room haccepting)
  · exact absurd heof (no_eof_of_tableStep hk hp hstep i c)
  · rw [hmain]
    exact ⟨hp.descriptors, hp.clientSocket⟩

end Packing

/-- The condition of `connections_kept_iff` is met only as long as nobody leaves. -/
theorem along_tableStep_iff (inherited : ℕ) (replies : List Reply) :
    Along loopStep TableStep (mainStart inherited) replies ↔
      Along loopStep (fun s reply => (Accepting s reply → 0 ∈ s.clientSocket) ∧
        ∀ i c, ¬EofAt s reply i c) (mainStart inherited) replies := by
  have hstart : Packed (mainStart inherited) := ⟨rfl, rfl⟩
  have hstep (s : MainLoop) (reply : Reply) (t : MainLoop) (hs : Kept s ∧ Packed s)
      (hP : TableStep s reply) (ht : loopStep s reply = .ok t) : Kept t ∧ Packed t := by
    rw [← Except.ok.inj ht]
    exact ⟨(mainStep_kept hs.1).mpr hP, mainStep_packed hs.1 hs.2 hP⟩
  constructor
  · apply along_mono loopStep hstep
    · exact fun s reply hs hP => ⟨hP.room, no_eof_of_tableStep hs.1 hs.2 hP⟩
    · exact ⟨mainStart_kept inherited, hstart⟩
  · apply @along_mono _ _ _ loopStep (fun _ => True)
    · exact fun _ _ _ _ _ _ => trivial
    · exact fun s reply _ hP => ⟨hP.1, fun i c heof => absurd heof (hP.2 i c)⟩
    · exact trivial

/-- The first client connects and leaves: its descriptor 4 stays open, and the
standard input is closed. -/
theorem first_eof_leaks : ∃ t, Visits loopStep (mainStart 3) [⟨[3], true, none⟩, ⟨[], true, none⟩,
      ⟨[], true, some (fun _ => 0, [])⟩] t ∧ ¬Kept t := by
  refine ⟨_, ⟨_, List.prefix_rfl, rfl⟩, ?_⟩
  intro hk
  apply (hk.closed 4 0 ⟨rfl, rfl⟩).1
  decide

end TetrisMint
