import TetrisMint.Board
import TetrisMint.CStrings
import TetrisMint.FallibleRun

/-! The boards of `render.c` over the life of a client: who allocates, walks and
frees them, and what a resized terminal does to a client between two games. -/
namespace TetrisMint

open CStrings FallibleRun

/-- An array that `render_init` has allocated: the names of its entries, each of them the text that
strcmp reads from its pointer on. The copy of a name that came without a NUL byte goes on with what
lies behind it, which is taken to stay there. -/
structure BoardArray where
  names : List (List UInt8)
  freed : Bool
deriving DecidableEq

/-- The pointer, the count and the arrays when the boards are walked. -/
structure Walk where
  boards : Option ℕ
  nboards : ℕ
  arrays : List BoardArray
deriving DecidableEq

/-- The static variables of `render.c`. The pointer `boards` is NULL or the index of
an array; the walks over the boards are recorded. -/
structure Renderer where
  boards : Option ℕ
  nboards : ℕ
  dirty : Bool
  tooNarrow : Bool
  tooShort : Bool
  /-- Whether SIGWINCH and SIGTSTP reach the handlers that `render_init` installs. -/
  handlers : Bool
  arrays : List BoardArray
  walks : List Walk
deriving DecidableEq

structure TerminalSize where
  rows : ℕ
  columns : ℕ
deriving DecidableEq

def rendererStart : Renderer := ⟨none, 0, false, false, false, false, [], []⟩

def cellWidth : ℕ := 2

def boardChWidth : ℕ := cellWidth * boardWidth

def terminalTooNarrow (size : TerminalSize) (nboards : ℕ) : Bool :=
  size.columns / nboards < boardChWidth + 10

def terminalTooShort (size : TerminalSize) : Bool := size.rows < boardHeight + 2

/-- The loop over `boards[0..nboards)`, which reads its entries through the pointer. -/
def walkBoards (r : Renderer) : Except Fault Unit :=
  if r.nboards = 0 then .ok ()
  else
    match r.boards with
    | none => .error .nullDereference
    | some i =>
      match r.arrays[i]? with
      | none => .error .outOfBounds
      | some array =>
        if array.freed = false ∧ r.nboards ≤ array.names.length then .ok () else .error .outOfBounds

def recordWalk (r : Renderer) : Renderer :=
  { r with walks := r.walks ++ [⟨r.boards, r.nboards, r.arrays⟩] }

/-- `_render_refresh_layout` for a terminal of this size. -/
def renderRefreshLayout (size : TerminalSize) (r : Renderer) : Except Fault Renderer :=
  if r.nboards = 0 then .ok r
  else
    let r := { r with
      tooNarrow := terminalTooNarrow size r.nboards
      tooShort := terminalTooShort size }
    -- in a small terminal the layout stays dirty
    if r.tooNarrow || r.tooShort then .ok r
    else do
      walkBoards r
      .ok { recordWalk r with dirty := false }

/-- The entry with this name, looked for only when there are boards. Two texts are equal exactly when
strcmp finds them so. -/
def boardFromName (name : List UInt8) (r : Renderer) : Except Fault (Renderer × Option ℕ) :=
  match r.boards with
  | none => .ok (r, none)
  | some i => do
    walkBoards r
    .ok (recordWalk r, (r.arrays[i]?).bind fun array => array.names.findIdx? (· = name))

/-- What is drawn on the board that is found is not part of the state. -/
def renderGameViewData (name : List UInt8) (size : TerminalSize) (r : Renderer) :
    Except Fault Renderer := do
  let r ← if r.dirty then renderRefreshLayout size r else .ok r
  if r.tooNarrow then .ok r
  else if r.tooShort then .ok r
  else do
    let (r, _) ← boardFromName name r
    .ok r

def renderInit (names : List (List UInt8)) (size : TerminalSize) (r : Renderer) :
    Except Fault Renderer := do
  let r ← renderRefreshLayout size { r with
    nboards := names.length
    boards := some r.arrays.length
    arrays := r.arrays ++ [⟨names, false⟩] }
  .ok { r with handlers := true }

/-- The windows of every board are deleted and the array is freed; `nboards` keeps its value. -/
def renderIngameCleanup (r : Renderer) : Except Fault Renderer := do
  walkBoards r
  .ok { r with
    arrays := r.boards.elim r.arrays fun i => r.arrays.modify i fun array => { array with freed := true }
    boards := none }

def renderClose (r : Renderer) : Except Fault Renderer := renderIngameCleanup r

/-- SIGWINCH or SIGTSTP. -/
def renderHandleSig (r : Renderer) : Renderer := if r.handlers then { r with dirty := true } else r

/-- Where the main thread of the client is. -/
inductive Phase
  | menu
  | offline
  | lobby
  | playing
deriving DecidableEq

/-- The client program. The other threads that render are not waited for when a
game ends: the local clock is cancelled and the connection closed, no more. -/
structure ClientProgram where
  renderer : Renderer
  phase : Phase
  /-- A local player was created, whose clock and keys render. -/
  localPlayer : Bool
  /-- A connection was made, whose thread handles the messages of the server. -/
  listening : Bool
deriving DecidableEq

def clientStart : ClientProgram := ⟨rendererStart, .menu, false, false⟩

/-- "You". -/
def offlineName : List UInt8 := [89, 111, 117]

inductive ClientEvent
  /-- Single: `run_offline` up to its keyboard loop. -/
  | runOffline (size : TerminalSize)
  /-- `renderish`, after a key or from the clock. -/
  | renderish (size : TerminalSize)
  /-- Multi: `run_online` up to the registration. -/
  | runOnline
  | board (name : List UInt8) (size : TerminalSize)
  | gameStarted (names : List (List UInt8)) (size : TerminalSize)
  | quit
  | signal

/-- The views that an event renders: the name and the size of the terminal. -/
def ClientEvent.view (c : ClientProgram) : ClientEvent → Option (List UInt8 × TerminalSize)
  | .renderish size => if c.localPlayer then some (offlineName, size) else none
  | .board name size => if c.listening then some (name, size) else none
  | _ => none

/-- An event that cannot occur where the client is has no effect. -/
def clientStep (c : ClientProgram) (event : ClientEvent) : Except Fault ClientProgram :=
  match event with
  | .runOffline size =>
    if c.phase = .menu then do
      let r ← renderInit [offlineName] size c.renderer
      .ok { c with renderer := r, phase := .offline, localPlayer := true }
    else .ok c
  | .runOnline =>
    if c.phase = .menu then .ok { c with phase := .lobby, listening := true } else .ok c
  | .gameStarted names size =>
    if c.listening then do
      let r ← renderInit names size c.renderer
      -- the main thread waits in the lobby for this message
      .ok { c with renderer := r, phase := if c.phase = .lobby then .playing else c.phase }
    else .ok c
  | .quit =>
    if c.phase = .offline ∨ c.phase = .playing then do
      let r ← renderClose c.renderer
      .ok { c with renderer := r, phase := .menu }
    else .ok c
  | .signal => .ok { c with renderer := renderHandleSig c.renderer }
  | event =>
    match event.view c with
    | some (name, size) => do
      let r ← renderGameViewData name size c.renderer
      .ok { c with renderer := r }
    | none => .ok c

/-- The pointer is the array that the latest `render_init` allocated, with `nboards`
entries and not yet freed. -/
def Current (arrays : List BoardArray) (boards : Option ℕ) (nboards : ℕ) : Prop :=
  ∃ i array, boards = some i ∧ i + 1 = arrays.length ∧ arrays[i]? = some array ∧
    array.names.length = nboards ∧ array.freed = false

def Walk.Latest (w : Walk) : Prop := Current w.arrays w.boards w.nboards

/-- A view is rendered between two games: the boards of the last game are freed,
`nboards` still counts them, and the layout is refreshed for a large enough terminal. -/
def StaleLayout (r : Renderer) (size : TerminalSize) : Prop :=
  r.dirty = true ∧ r.nboards ≠ 0 ∧ r.boards = none ∧
    (terminalTooNarrow size r.nboards || terminalTooShort size) = false

instance (r : Renderer) (size : TerminalSize) : Decidable (StaleLayout r size) :=
  inferInstanceAs (Decidable (_ ∧ _))

/-- The event renders no view while the layout is stale. -/
def NoStaleView (c : ClientProgram) (event : ClientEvent) : Prop :=
  ∀ v ∈ event.view c, ¬StaleLayout c.renderer v.2

instance (c : ClientProgram) (event : ClientEvent) : Decidable (NoStaleView c event) :=
  inferInstanceAs (Decidable (∀ v ∈ event.view c, ¬StaleLayout c.renderer v.2))

structure RendererInv (r : Renderer) : Prop where
  current : r.boards = none ∨ Current r.arrays r.boards r.nboards
  walks : ∀ w ∈ r.walks, w.Latest

section Walking

variable {r : Renderer}

theorem walkBoards_current (h : Current r.arrays r.boards r.nboards) : walkBoards r = .ok () := by
  obtain ⟨i, array, hboards, -, harray, hnames, hfreed⟩ := h
  unfold walkBoards
  rw [hboards]
  simp only [harray, hfreed, hnames, le_refl, and_self, ↓reduceIte, ite_self]

theorem recordWalk_inv (hi : RendererInv r) (h : Current r.arrays r.boards r.nboards) :
    RendererInv (recordWalk r) := by
  refine ⟨hi.current, ?_⟩
  intro w hw
  rcases List.mem_append.mp hw with hold | hnew
  · exact hi.walks w hold
  · rw [List.mem_singleton.mp hnew]
    exact h

/-- The layout walks the boards without looking at the pointer first. -/
theorem renderRefreshLayout_cases (size : TerminalSize) (hi : RendererInv r) :
    (r.nboards ≠ 0 ∧ r.boards = none ∧
        (terminalTooNarrow size r.nboards || terminalTooShort size) = false ∧
        renderRefreshLayout size r = .error .nullDereference) ∨
      ¬(r.nboards ≠ 0 ∧ r.boards = none ∧
        (terminalTooNarrow size r.nboards || terminalTooShort size) = false) ∧
        ∃ t, renderRefreshLayout size r = .ok t ∧ RendererInv t ∧ t.boards = r.boards := by
  by_cases hn : r.nboards = 0
  · refine Or.inr ⟨fun h => h.1 hn, r, ?_, hi, rfl⟩
    rw [renderRefreshLayout, if_pos hn]
  · cases hsmall : terminalTooNarrow size r.nboards || terminalTooShort size with
    | true =>
      refine Or.inr ⟨fun h => absurd h.2.2 (by simp), { r with
        tooNarrow := terminalTooNarrow size r.nboards
        tooShort := terminalTooShort size }, ?_, ⟨hi.current, hi.walks⟩, rfl⟩
      simp only [renderRefreshLayout, if_neg hn, hsmall, ↓reduceIte]
    | false =>
      -- the terminal is large enough, and only the pointer decides
      rcases hi.current with hnull | hcurrent
      · refine Or.inl ⟨hn, hnull, rfl, ?_⟩
        simp only [renderRefreshLayout, if_neg hn, hsmall, Bool.false_eq_true, ↓reduceIte, walkBoards,
          hnull, error_bind]
      · obtain ⟨i, -, hboards, -⟩ := id hcurrent
        refine Or.inr ⟨fun h => ?_, ?_⟩
        · rw [hboards] at h
          exact absurd h.2.1 (by simp)
        · let sized : Renderer := { r with
            tooNarrow := terminalTooNarrow size r.nboards
            tooShort := terminalTooShort size }
          have hsized : RendererInv sized := ⟨hi.current, hi.walks⟩
          have hwalk := @walkBoards_current sized hcurrent
          have hrecord := recordWalk_inv hsized hcurrent
          refine ⟨{ recordWalk sized with dirty := false }, ?_, ⟨hrecord.current, hrecord.walks⟩, rfl⟩
          rw [renderRefreshLayout, if_neg hn]
          change (if (terminalTooNarrow size r.nboards || terminalTooShort size) = true then _
            else (walkBoards sized >>= _)) = _
          rw [hsmall, hwalk]
          rfl

/-- The lookup guards against NULL. -/
theorem boardFromName_returns (name : List UInt8) (hi : RendererInv r) :
    ∃ t found, boardFromName name r = .ok (t, found) ∧ RendererInv t ∧ t.boards = r.boards := by
  cases hboards : r.boards with
  | none => exact ⟨r, none, by rw [boardFromName, hboards], hi, hboards⟩
  | some i =>
    have hcurrent : Current r.arrays r.boards r.nboards := by
      rcases hi.current with hnull | hcurrent
      · rw [hboards] at hnull
        exact absurd hnull (by simp)
      · exact hcurrent
    refine ⟨recordWalk r, (r.arrays[i]?).bind fun array => array.names.findIdx? (· = name), ?_,
      recordWalk_inv hi hcurrent, hboards⟩
    rw [boardFromName, hboards]
    simp only [walkBoards_current hcurrent, ok_bind]

/-- Rendering a view returns unless the layout is stale. -/
theorem renderGameViewData_cases (name : List UInt8) (size : TerminalSize) (hi : RendererInv r) :
    (StaleLayout r size ∧ renderGameViewData name size r = .error .nullDereference) ∨
      ¬StaleLayout r size ∧ ∃ t, renderGameViewData name size r = .ok t ∧ RendererInv t ∧
        t.boards = r.boards := by
  -- what follows the layout
  have hlookup {u : Renderer} (hu : RendererInv u) : ∃ t, (if u.tooNarrow then .ok u
      else if u.tooShort then .ok u
      else do
        let (r, _) ← boardFromName name u
        .ok r : Except Fault Renderer) = .ok t ∧ RendererInv t ∧ t.boards = u.boards := by
    obtain ⟨t, found, ht, hinv, hboards⟩ := boardFromName_returns name hu
    split_ifs
    · exact ⟨u, rfl, hu, rfl⟩
    · exact ⟨u, rfl, hu, rfl⟩
    · exact ⟨t, by rw [ht]; rfl, hinv, hboards⟩
  unfold renderGameViewData
  by_cases hdirty : r.dirty = true
  · rw [if_pos hdirty]
    rcases renderRefreshLayout_cases size hi with ⟨hn, hnull, hroom, herr⟩ | ⟨hroom, u, hu, hinv, hboards⟩
    · exact Or.inl ⟨⟨hdirty, hn, hnull, hroom⟩, by rw [herr]; rfl⟩
    · obtain ⟨t, ht, htinv, htboards⟩ := hlookup hinv
      refine Or.inr ⟨fun h => hroom h.2, t, ?_, htinv, htboards.trans hboards⟩
      rw [hu, ok_bind]
      exact ht
  · rw [if_neg hdirty, ok_bind]
    exact Or.inr ⟨fun h => hdirty h.1, hlookup hi⟩

theorem renderInit_returns (names : List (List UInt8)) (size : TerminalSize) (hi : RendererInv r) :
    ∃ t, renderInit names size r = .ok t ∧ RendererInv t ∧ t.boards ≠ none := by
  let fresh : Renderer := { r with
    nboards := names.length
    boards := some r.arrays.length
    arrays := r.arrays ++ [⟨names, false⟩] }
  have hfresh : RendererInv fresh := by
    refine ⟨Or.inr ⟨r.arrays.length, ⟨names, false⟩, rfl, ?_, ?_, rfl, rfl⟩, hi.walks⟩
    · rw [List.length_append, List.length_singleton]
    · exact List.getElem?_concat_length
  rcases renderRefreshLayout_cases size hfresh with ⟨-, hnull, -⟩ | ⟨-, t, ht, hinv, hboards⟩
  · exact absurd hnull (by simp [fresh])
  · refine ⟨{ t with handlers := true }, ?_, ⟨hinv.current, hinv.walks⟩, ?_⟩
    · rw [renderInit]
      exact congrArg (· >>= _) ht
    · simp only [hboards, fresh]
      exact Option.some_ne_none _

theorem renderClose_returns (hi : RendererInv r) (hboards : r.boards ≠ none) :
    ∃ t, renderClose r = .ok t ∧ RendererInv t ∧ t.boards = none := by
  have hwalk := walkBoards_current (hi.current.resolve_left hboards)
  refine ⟨{ r with
    arrays := r.boards.elim r.arrays fun i => r.arrays.modify i fun array => { array with freed := true }
    boards := none }, ?_, ⟨Or.inl rfl, hi.walks⟩, rfl⟩
  rw [renderClose, renderIngameCleanup, hwalk]
  rfl

theorem renderHandleSig_inv (hi : RendererInv r) :
    RendererInv (renderHandleSig r) ∧ (renderHandleSig r).boards = r.boards := by
  unfold renderHandleSig
  split_ifs
  · exact ⟨⟨hi.current, hi.walks⟩, rfl⟩
  · exact ⟨hi, rfl⟩

end Walking

/-- While a game is played its boards are there. -/
structure ProgramInv (c : ClientProgram) : Prop where
  renderer : RendererInv c.renderer
  inGame : c.phase = .offline ∨ c.phase = .playing → c.renderer.boards ≠ none

section Steps

variable {c : ClientProgram}

/-- A view is the only thing that can go wrong. -/
theorem clientStep_view {event : ClientEvent} {v : List UInt8 × TerminalSize}
    (hi : ProgramInv c) (hview : event.view c = some v) :
    (StaleLayout c.renderer v.2 ∧ clientStep c event = .error .nullDereference) ∨
      ¬StaleLayout c.renderer v.2 ∧ ∃ d, clientStep c event = .ok d ∧ ProgramInv d := by
  have hstep : clientStep c event = (do
      let r ← renderGameViewData v.1 v.2 c.renderer
      .ok { c with renderer := r }) := by
    cases event with
    | renderish size => simp only [clientStep, hview]
    | board name size => simp only [clientStep, hview]
    | _ => exact absurd hview (by simp [ClientEvent.view])
  rw [hstep]
  rcases renderGameViewData_cases v.1 v.2 hi.renderer with ⟨hstale, herr⟩ | ⟨hfine, t, ht, hinv, hboards⟩
  · exact Or.inl ⟨hstale, by rw [herr]; rfl⟩
  · refine Or.inr ⟨hfine, _, by rw [ht]; rfl, hinv, ?_⟩
    intro hgame
    rw [hboards]
    exact hi.inGame hgame

theorem clientStep_other {event : ClientEvent} (hi : ProgramInv c) (hview : event.view c = none) :
    ∃ d, clientStep c event = .ok d ∧ ProgramInv d := by
  cases event with
  | runOffline size =>
    obtain ⟨t, ht, hinv, hboards⟩ := renderInit_returns [offlineName] size hi.renderer
    simp only [clientStep, ht, ok_bind]
    split_ifs
    · exact ⟨_, rfl, hinv, fun _ => hboards⟩
    · exact ⟨c, rfl, hi⟩
  | runOnline =>
    simp only [clientStep]
    split_ifs
    · exact ⟨_, rfl, hi.renderer, fun h => absurd h (by simp)⟩
    · exact ⟨c, rfl, hi⟩
  | gameStarted names size =>
    obtain ⟨t, ht, hinv, hboards⟩ := renderInit_returns names size hi.renderer
    simp only [clientStep, ht, ok_bind]
    split_ifs
    · exact ⟨_, rfl, hinv, fun _ => hboards⟩
    · exact ⟨_, rfl, hinv, fun _ => hboards⟩
    · exact ⟨c, rfl, hi⟩
  | quit =>
    simp only [clientStep]
    split_ifs with hgame
    · obtain ⟨t, ht, hinv, -⟩ := renderClose_returns hi.renderer (hi.inGame hgame)
      exact ⟨_, by rw [ht]; rfl, hinv, fun h => absurd h (by simp)⟩
    · exact ⟨c, rfl, hi⟩
  | signal =>
    obtain ⟨hinv, hboards⟩ := renderHandleSig_inv hi.renderer
    refine ⟨_, rfl, hinv, ?_⟩
    intro hgame
    rw [hboards]
    exact hi.inGame hgame
  | renderish size =>
    simp only [clientStep, hview]
    exact ⟨c, rfl, hi⟩
  | board name size =>
    simp only [clientStep, hview]
    exact ⟨c, rfl, hi⟩

theorem clientStep_inv {d : ClientProgram} {event : ClientEvent} (hi : ProgramInv c)
    (h : clientStep c event = .ok d) : ProgramInv d := by
  cases hview : event.view c with
  | none =>
    obtain ⟨d', hd, hinv⟩ := clientStep_other hi hview
    rw [h, Except.ok.injEq] at hd
    exact hd ▸ hinv
  | some v =>
    rcases clientStep_view hi hview with ⟨-, herr⟩ | ⟨-, d', hd, hinv⟩
    · rw [h] at herr
      exact absurd herr (by simp)
    · rw [h, Except.ok.injEq] at hd
      exact hd ▸ hinv

theorem clientStep_returns_iff (event : ClientEvent) (hi : ProgramInv c) :
    (∃ d, clientStep c event = .ok d) ↔ NoStaleView c event := by
  unfold NoStaleView
  cases hview : event.view c with
  | none =>
    obtain ⟨d, hd, -⟩ := clientStep_other hi hview
    exact ⟨fun _ => by simp, fun _ => ⟨d, hd⟩⟩
  | some v =>
    simp only [Option.mem_def, Option.some.injEq, forall_eq']
    rcases clientStep_view hi hview with ⟨hstale, herr⟩ | ⟨hfine, d, hd, -⟩
    · refine ⟨?_, fun h => absurd hstale h⟩
      rintro ⟨d, hd⟩
      rw [herr] at hd
      exact absurd hd (by simp)
    · exact ⟨fun _ => hfine, fun _ => ⟨d, hd⟩⟩

theorem clientStart_inv : ProgramInv clientStart :=
  ⟨⟨Or.inl rfl, by simp [clientStart, rendererStart]⟩, fun h => absurd h (by decide)⟩

end Steps

/-- Over every life of a client: each walk over the boards finds the array of the
latest `render_init`, unfreed and with `nboards` entries, exactly when no view is
rendered while the layout is stale. -/
theorem walks_latest_iff (events : List ClientEvent) :
    (∃ c, run clientStep clientStart events = .ok c ∧ ∀ w ∈ c.renderer.walks, w.Latest) ↔
      Along clientStep NoStaleView clientStart events := by
  have hreturns : (∃ c, run clientStep clientStart events = .ok c) ↔
      Along clientStep NoStaleView clientStart events := by
    apply run_returns_iff_along clientStep
    · exact fun _ _ _ hi h => clientStep_inv hi h
    · exact fun _ event hi => clientStep_returns_iff event hi
    · exact clientStart_inv
  rw [← hreturns]
  constructor
  · rintro ⟨c, hc, -⟩
    exact ⟨c, hc⟩
  · rintro ⟨c, hc⟩
    exact ⟨c, hc, (invariant_run clientStep (fun _ _ _ hi h => clientStep_inv hi h)
      clientStart_inv hc).renderer.walks⟩

/-- After an offline game the terminal is resized in the menu; the BOARD that
answers the registration for an online game is rendered before GAME_STARTED. -/
theorem board_before_game_started_faults :
    run clientStep clientStart [.runOffline ⟨40, 120⟩, .renderish ⟨40, 120⟩, .quit, .signal,
      .runOnline, .board [65] ⟨50, 120⟩] = .error .nullDereference := by
  decide

end TetrisMint
