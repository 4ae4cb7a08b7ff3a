import TetrisMint.BoardTraffic
import TetrisMint.OfflineSession

/-! What a session of the client without a server comes to: a choice in each list, a key for each
control, a game, and the game that is seen on the board. -/
namespace TetrisMint

open Chooser FallibleRun

inductive PlanMode
  | menu (c : Choice 4)
  | controls (c : Choice 8)
  /-- The next key is bound to the control under the cursor. -/
  | binding (c : Choice 8)
  | playing (game : GameContents) (clock : Bool)
  | exited

/-- A session as the user knows it. The games are without their shadow blocks; `seen` is the game
that was last drawn on the board, as long as there is one and the terminal is large enough, and
`resized` says that nothing has been drawn in the terminal of this size. -/
structure Plan where
  keys : Keymap
  size : TerminalSize
  resized : Bool
  created : ℕ
  cancelled : List GameContents
  seen : Option GameContents
  mode : PlanMode

/-- What a control asks the engine for. Going left takes a unit off the column, which is what
`translate_block_right` does. -/
def Control.op : Control → Option Op
  | left => some .translateRight
  | right => some .translateLeft
  | counterClockwise => some (.rotate 0)
  | clockwise => some (.rotate 1)
  | softDrop => some (.lower 0)
  | hardDrop => some .hardDrop
  | swap => some .swapHold
  | stopGame => none

def PlanMode.inGame : PlanMode → Bool
  | .playing .. => true
  | _ => false

def PlanMode.isExited : PlanMode → Bool
  | .exited => true
  | _ => false

namespace Plan

/-- The terminal is too small for a board. -/
def small (p : Plan) : Bool := terminalTooSmall p.size 1

def openMenu (p : Plan) : Plan := { p with mode := .menu (Choice.start (by decide)) }

/-- The only board shows the game from now on, when there is room for it. -/
def draw (game : GameContents) (p : Plan) : Plan := { p with
  resized := p.resized && p.small
  seen := if p.small then none else some game }

def stop (game : GameContents) (clock : Bool) (p : Plan) : Plan :=
  openMenu { p with
    cancelled := if clock then p.cancelled ++ [game] else p.cancelled
    seen := none }

section

variable (randR : RandR)

def start (seed : BitVec 32) (p : Plan) : Plan := { p with
  resized := p.resized && p.small
  created := p.created + 1
  seen := none
  mode := .playing (newSeededGame randR seed).unshadowed true }

def choose (seed : BitVec 32) (c : Choice 4) (p : Plan) : Plan :=
  ![p.start randR seed, p.openMenu, { p with mode := .controls (Choice.start (by decide)) },
    { p with mode := .exited }] c.cursor

/-- A call for the game that is played, and the drawing that follows it. -/
def play (op : Op) (game : GameContents) (p : Plan) : Except Fault (GameContents × Plan) := do
  let game ← engineStep randR game op
  .ok (game, p.draw game)

def key (time : ℕ → BitVec 32) (ch : ℤ) (p : Plan) : Except Fault Plan :=
  match p.mode with
  | .menu c =>
    if ch = 10 then .ok (p.choose randR (time p.created) c)
    else .ok { p with mode := .menu (if ch = 32 then c else chooseKey c ch) }
  | .controls c =>
    if ch = 27 then .ok p.openMenu
    else if ch = 10 then .ok { p with mode := .binding c }
    else .ok { p with mode := .controls (if ch = 32 then c else chooseKey c ch) }
  | .binding c => .ok { p with
      keys := Function.update p.keys (Control.ofChoice c.cursor) ch
      mode := .controls c }
  | .playing game clock =>
    match p.keys.control ch with
    | none => .ok p
    | some c =>
      match c.op with
      | none => .ok (p.stop game clock)
      | some op => do
        let (game, p) ← p.play randR op game
        .ok { p with mode := .playing game clock }
  | .exited => .ok p

/-- The last turn of a clock whose game has been stopped is drawn on the board of the next game; with
no board to be drawn on it is lost, unless the terminal has been resized: then the client crashes. -/
def lastTurn (game : GameContents) (p : Plan) : Except Fault Plan := do
  let (_, drawn) ← p.play randR (.lower 1) game
  if p.mode.inGame then .ok drawn
  else if p.resized && !p.small then .error .nullDereference
  else .ok p

def step (time : ℕ → BitVec 32) (p : Plan) (event : SessionEvent) : Except Fault Plan :=
  if p.mode.isExited then .ok p
  else match event with
  | .key ch => p.key randR time ch
  | .signal size => .ok { p with
      size := size
      resized := p.resized || decide (0 < p.created) }
  | .turn =>
    match p.mode with
    | .playing game true => do
      let (game, p) ← p.play randR (.lower 1) game
      .ok { p with mode := .playing game (gameOver game.board = 0) }
    | _ => .ok p
  | .lastTurn clock =>
    match p.cancelled[clock]? with
    | none => .ok p
    | some game => do
      let p ← p.lastTurn randR game
      .ok { p with cancelled := p.cancelled.eraseIdx clock }

end

end Plan

def planStart (size : TerminalSize) : Plan :=
  Plan.openMenu ⟨defaultKeybindings.keymap, size, false, 0, [], none, .exited⟩

/-- What the main thread waits for is what the plan waits for. -/
inductive SessionMode.Follows (keys : Keymap) : SessionMode → PlanMode → Prop
  | menu {entry : CursesCombobox × List DrawnOption} {c : Choice 4} (h : ListShows 7 entry c) :
    Follows keys (.menu entry) (.menu c)
  | controls {editor : KeyEditor} {c : Choice 8} (h : editor.Shows keys c) :
    Follows keys (.controls editor) (.controls c)
  | binding {editor : KeyEditor} {c : Choice 8} (h : editor.Asks c) :
    Follows keys (.controls editor) (.binding c)
  | playing {contents : GameContents} {clock : Bool} (hi : EngineInv contents) :
    Follows keys (.playing contents clock) (.playing contents.unshadowed clock)
  | exited : Follows keys .exited .exited

/-- The board shows the game. -/
def Screen.Sees (s : Screen) (game : GameContents) : Prop :=
  ∃ board view, s.boards[0]? = some (some board) ∧ Draws game view ∧ board.Shows view

/-- The session is as the plan has it. -/
structure Session.Presents (s : Session) (p : Plan) : Prop where
  keys : s.keybindings.keymap = p.keys
  mode : s.mode.Follows p.keys p.mode
  seen : ∀ game, p.seen = some game → s.screen.Sees game

/-- The screen is the one of the plan: its boards are there in a game and at no other time. -/
structure Screen.Follows (s : Screen) (p : Plan) : Prop where
  size : s.size = p.size
  resized : s.renderer.dirty = p.resized
  handlers : s.renderer.handlers = decide (0 < p.created)
  renderer : RendererInv s.renderer
  nboards : 0 < p.created → s.renderer.nboards = 1
  inGame : p.mode.inGame = true → ScreenInv [offlineName] s
  closed : p.mode.inGame = false → s.renderer.boards = none ∧ p.seen = none
  seen : ∀ game, p.seen = some game → s.Sees game

/-- The rest of the session is the one of the plan, whatever the main thread waits for. -/
structure Session.Behind (s : Session) (p : Plan) : Prop where
  keys : s.keybindings.keymap = p.keys
  created : s.created = p.created
  cancelled : s.cancelled.map GameContents.unshadowed = p.cancelled
  games : ∀ gc ∈ s.cancelled, EngineInv gc
  played : p.cancelled ≠ [] → 0 < p.created

structure Implements (s : Session) (p : Plan) : Prop extends s.Behind p where
  screen : s.screen.Follows p
  mode : s.mode.Follows p.keys p.mode

theorem Implements.presents {s : Session} {p : Plan} (h : Implements s p) : s.Presents p :=
  ⟨h.keys, h.mode, h.screen.seen⟩

section Rendering

variable {name : List UInt8} {size : TerminalSize} {r t : Renderer}

/-- What a layout or a view leaves of the flags of the renderer when it returns. -/
structure Renderer.Kept (size : TerminalSize) (r t : Renderer) : Prop where
  dirty : t.dirty = (r.dirty && terminalTooSmall size r.nboards)
  handlers : t.handlers = r.handlers
  nboards : t.nboards = r.nboards
  boards : t.boards = r.boards

theorem renderRefreshLayout_kept (hn : r.nboards ≠ 0) (h : renderRefreshLayout size r = .ok t) :
    r.Kept size t := by
  have hflags : (terminalTooNarrow size r.nboards || terminalTooShort size) =
      terminalTooSmall size r.nboards := rfl
  rw [renderRefreshLayout, if_neg hn] at h
  simp only [hflags] at h
  cases hsmall : terminalTooSmall size r.nboards with
  | true =>
    rw [hsmall, if_pos rfl, Except.ok.injEq] at h
    subst h
    exact ⟨by rw [hsmall, Bool.and_true], rfl, rfl, rfl⟩
  | false =>
    rw [hsmall, if_neg Bool.false_ne_true] at h
    obtain ⟨-, -, h⟩ := bind_eq_ok.mp h
    rw [← Except.ok.inj h]
    exact ⟨by rw [hsmall, Bool.and_false], rfl, rfl, rfl⟩

/-- Looking for a board changes none of them. -/
theorem boardFromName_kept {found : Option ℕ} (h : boardFromName name r = .ok (t, found)) :
    t.dirty = r.dirty ∧ t.handlers = r.handlers ∧ t.nboards = r.nboards ∧ t.boards = r.boards := by
  unfold boardFromName at h
  split at h
  · obtain ⟨rfl, -⟩ := Prod.mk.inj (Except.ok.inj h)
    exact ⟨rfl, rfl, rfl, rfl⟩
  · obtain ⟨-, -, h⟩ := bind_eq_ok.mp h
    obtain ⟨rfl, -⟩ := Prod.mk.inj (Except.ok.inj h)
    exact ⟨rfl, rfl, rfl, rfl⟩

theorem renderGameViewData_kept (hn : r.nboards ≠ 0) (h : renderGameViewData name size r = .ok t) :
    r.Kept size t := by
  have hlookup {u : Renderer} (hlayout : r.Kept size u) (h : (if u.tooNarrow then .ok u
      else if u.tooShort then .ok u
      else (boardFromName name u).map Prod.fst : Except Fault Renderer) = .ok t) : r.Kept size t := by
    split_ifs at h
    · rwa [← Except.ok.inj h]
    · rwa [← Except.ok.inj h]
    · obtain ⟨⟨v, found⟩, hv, rfl⟩ := map_eq_ok.mp h
      obtain ⟨hdirty, hhandlers, hnboards, hboards⟩ := boardFromName_kept hv
      exact ⟨hdirty.trans hlayout.dirty, hhandlers.trans hlayout.handlers, hnboards.trans hlayout.nboards,
        hboards.trans hlayout.boards⟩
  rw [renderGameViewData] at h
  cases hdirty : r.dirty with
  | false =>
    rw [if_neg (Bool.eq_false_iff.mp hdirty)] at h
    apply hlookup ⟨_, rfl, rfl, rfl⟩ h
    rw [hdirty, Bool.false_and]
  | true =>
    rw [if_pos hdirty] at h
    obtain ⟨u, hu, h⟩ := bind_eq_ok.mp h
    exact hlookup (renderRefreshLayout_kept hn hu) h

variable (resizeTerm : TerminalSize → Canvas → ℤ × ℤ) {s : Screen}

theorem renderRefreshLayout_map (s : Screen) :
    (Screen.renderRefreshLayout resizeTerm s).map Screen.renderer =
      renderRefreshLayout s.size s.renderer := by
  rw [Screen.renderRefreshLayout]
  cases renderRefreshLayout s.size s.renderer with
  | error e => rfl
  | ok r =>
    rw [ok_bind]
    split_ifs <;> rfl

/-- With no boards a view comes to what it does without the windows. -/
theorem renderGameViewData_closed (name : List UInt8) (view : GameViewData)
    (hclosed : s.renderer.boards = none) :
    (Screen.renderGameViewData resizeTerm name view s).map Screen.renderer =
      renderGameViewData name s.size s.renderer := by
  have hlookup (u : Screen) (hu : u.renderer.boards = none) :
      Except.map Screen.renderer (if u.renderer.tooNarrow then .ok u
        else if u.renderer.tooShort then .ok u
        else Screen.drawView name view u) =
      (if u.renderer.tooNarrow then .ok u.renderer
        else if u.renderer.tooShort then .ok u.renderer
        else (boardFromName name u.renderer).map Prod.fst) := by
    split_ifs
    · rfl
    · rfl
    · have hnone : boardFromName name u.renderer = .ok (u.renderer, none) := by rw [boardFromName, hu]
      rw [Screen.drawView, hnone]
      rfl
  rw [Screen.renderGameViewData, Screen.refreshed, renderGameViewData]
  cases hdirty : s.renderer.dirty with
  | false =>
    rw [if_neg Bool.false_ne_true, if_neg Bool.false_ne_true, ok_bind, ok_bind]
    exact hlookup s hclosed
  | true =>
    have hmap := renderRefreshLayout_map resizeTerm s
    rw [if_pos rfl, if_pos rfl, ← hmap]
    cases hu : Screen.renderRefreshLayout resizeTerm s with
    | error e => rfl
    | ok u =>
      rw [hu] at hmap
      have hboards : u.renderer.boards = none := by
        by_cases hn : s.renderer.nboards = 0
        · -- without players there is no layout
          rw [renderRefreshLayout, if_pos hn] at hmap
          rw [Except.ok.inj hmap, hclosed]
        · exact (renderRefreshLayout_kept hn hmap.symm).boards.trans hclosed
      exact hlookup u hboards

/-- Nothing has to be known of the board of a game. -/
theorem nothing_matches (s : Screen) : (⟨s.size, true, [none]⟩ : Shown).Matches [offlineName] s :=
  ⟨rfl, fun _ => rfl, rfl, fun i v hv => absurd hv (nothing_shown [offlineName] i v)⟩

/-- In a game a view is drawn on the board, unless the terminal is too small for it. -/
theorem renderGameViewData_inGame (h : ScreenInv [offlineName] s) (view : GameViewData) :
    ∃ t, Screen.renderGameViewData resizeTerm offlineName view s = .ok t ∧ ScreenInv [offlineName] t ∧
      t.size = s.size ∧ s.renderer.Kept s.size t.renderer ∧
      (terminalTooSmall s.size 1 = false →
        ∃ board : BoardCanvas, t.boards[0]? = some (some board) ∧ board.Shows view) := by
  obtain ⟨t, ht, hinv, hshown⟩ := renderGameViewData_screen resizeTerm offlineName view h (nothing_matches s)
  obtain ⟨hr, hsize⟩ := renderGameViewData_renderer resizeTerm ht
  have hn : s.renderer.nboards ≠ 0 := by
    rw [h.count]
    decide
  refine ⟨t, ht, hinv, hsize, renderGameViewData_kept hn hr, ?_⟩
  intro hlarge
  apply hshown.views 0 view
  have hlarge' : terminalTooSmall s.size [offlineName].length = false := hlarge
  rw [shownStep, hlarge']
  rfl

end Rendering

section Playing

variable (resizeTerm : TerminalSize → Canvas → ℤ × ℤ) (randR : RandR) {s : Screen} {p : Plan} {op : Op}
  {gc : GameContents}

theorem Screen.Follows.small (h : s.Follows p) : terminalTooSmall s.size 1 = p.small := by
  rw [h.size, Plan.small]

/-- The contents and the screen after a call are the game and the plan after it. -/
structure Played (p : Plan) (a : GameContents × Screen) (b : GameContents × Plan) : Prop where
  game : b = (a.1.unshadowed, p.draw a.1.unshadowed)
  inv : EngineInv a.1
  screen : a.2.Follows (p.draw a.1.unshadowed)

/-- A call for a game is drawn on the board that is there. -/
theorem play_inGame (hop : op ≠ .view) (hi : EngineInv gc) (hs : s.Follows p) (hgame : p.mode.inGame = true) :
    Agree (Played p) (Screen.offlineCall resizeTerm randR op (gc, s)) (p.play randR op gc.unshadowed) := by
  rw [Plan.play, engineStep_unshadowed randR gc hop, Screen.offlineCall]
  cases hstep : engineStep randR gc op with
  | error e => exact .error e
  | ok gc' =>
    have hi' := engineStep_inv randR hi hstep
    obtain ⟨⟨drawn, view⟩, hview⟩ := view_returns hi'
    have hcall : engineStep randR gc' .view = .ok drawn := by
      rw [engineStep, Op.call, hview]
      rfl
    have hinGame := hs.inGame hgame
    -- the view is drawn from the contents that the call has left
    obtain ⟨t, ht, hinv, hsize, hkept, hshown⟩ := renderGameViewData_inGame resizeTerm hinGame view
    have hrender : Screen.renderish resizeTerm (gc', s) = .ok (drawn, t) := by
      simp only [Screen.renderish, hview, ok_bind, ht]
    have hn : s.renderer.nboards = 1 := hinGame.count
    rw [ok_bind, hrender]
    apply Agree.ok
    refine ⟨?_, engineStep_inv randR hi' hcall, ⟨hsize.trans hs.size, ?_, hkept.handlers.trans hs.handlers,
      hinv.renderer, fun _ => hkept.nboards.trans hn, fun _ => hinv, ?_, ?_⟩⟩
    · rw [view_unshadowed hcall]
    · rw [hkept.dirty, hn, hs.small, hs.resized]
      rfl
    · intro hclosed
      exact absurd (hgame.symm.trans hclosed) (by decide)
    · intro game hseen
      rw [Plan.draw, view_unshadowed hcall] at hseen
      simp only at hseen
      split_ifs at hseen with hsmall
      rw [hs.small, Bool.eq_false_iff.mpr hsmall] at hshown
      obtain ⟨board, hboard, hshows⟩ := hshown rfl
      rw [← Option.some.inj hseen]
      exact ⟨board, view, hboard, draws_unshadowed.mpr ⟨drawn, hview⟩, hshows⟩

/-- Between two games the layout is stale exactly when the plan knows of a resize. -/
theorem stale_iff (hs : s.Follows p) (hgame : p.mode.inGame = false) (hplayed : 0 < p.created) :
    StaleLayout s.renderer s.size ↔ (p.resized && !p.small) = true := by
  rw [StaleLayout, (hs.closed hgame).1, hs.nboards hplayed, hs.resized, hs.size, Bool.and_eq_true,
    Bool.not_eq_true', Plan.small, terminalTooSmall]
  simp

/-- A view between two games is lost, or fails where the layout goes through the boards. -/
theorem renderGameViewData_between (hs : s.Follows p) (hgame : p.mode.inGame = false)
    (hplayed : 0 < p.created) (view : GameViewData) :
    if p.resized && !p.small then
      Screen.renderGameViewData resizeTerm offlineName view s = .error .nullDereference
    else ∃ t, Screen.renderGameViewData resizeTerm offlineName view s = .ok t ∧ t.Follows p := by
  obtain ⟨hclosed, hnone⟩ := hs.closed hgame
  have hn := hs.nboards hplayed
  have hmap := renderGameViewData_closed resizeTerm offlineName view hclosed
  have hstale := stale_iff hs hgame hplayed
  rcases renderGameViewData_cases offlineName s.size hs.renderer with
    ⟨hbad, herr⟩ | ⟨hfine, r, hr, hinv, hboards⟩
  · rw [if_pos (hstale.mp hbad)]
    apply errorOf_eq_some.mp
    rw [← errorOf_map _ Screen.renderer, hmap, herr, errorOf_error]
  · have hlaid : ¬(p.resized && !p.small) = true := fun h => hfine (hstale.mpr h)
    rw [if_neg hlaid]
    rw [hr] at hmap
    obtain ⟨t, ht, rfl⟩ := map_eq_ok.mp hmap
    have hsize := (renderGameViewData_renderer resizeTerm ht).2
    have hkept := renderGameViewData_kept (by rw [hn]; exact one_ne_zero) hr
    refine ⟨t, ht, hsize.trans hs.size, ?_, hkept.handlers.trans hs.handlers, hinv,
      fun _ => hkept.nboards.trans hn, ?_, fun _ => ⟨hboards.trans hclosed, hnone⟩, ?_⟩
    · -- the layout is clean already, or stays dirty in a small terminal
      rw [hkept.dirty, hn, hs.small, hs.resized]
      cases hresized : p.resized with
      | false => rfl
      | true =>
        rw [hresized, Bool.true_and, Bool.not_eq_true', Bool.not_eq_false] at hlaid
        rw [hlaid]
        rfl
    · intro hin
      exact absurd (hin.symm.trans hgame) (by decide)
    · rw [hnone]
      exact fun game h => absurd h (by simp)

/-- The last turn of a clock, in the next game or between two games. -/
theorem lastTurn_follows (hi : EngineInv gc) (hs : s.Follows p) (hplayed : 0 < p.created) :
    Agree (fun a p' => a.2.Follows p' ∧ (p' = p ∨ ∃ game, p' = p.draw game))
      (clockTurn resizeTerm randR (gc, s)) (p.lastTurn randR gc.unshadowed) := by
  rw [clockTurn, Plan.lastTurn]
  cases hgame : p.mode.inGame with
  | true =>
    have hplay := @play_inGame resizeTerm randR s p (.lower 1) gc (by decide) hi hs hgame
    rcases hplay.error_or_ok with ⟨e, hx, hy⟩ | ⟨a, b, hx, hy, h⟩
    · rw [hx, hy]
      exact .error e
    · rw [hx, hy, h.game, ok_bind]
      exact .ok ⟨h.screen, Or.inr ⟨_, rfl⟩⟩
  | false =>
    -- between two games the call is made all the same, and only its view is lost
    rw [Plan.play, engineStep_unshadowed randR gc (by decide), Screen.offlineCall]
    cases hstep : engineStep randR gc (.lower 1) with
    | error e => exact .error e
    | ok gc' =>
      obtain ⟨⟨drawn, view⟩, hview⟩ := view_returns (engineStep_inv randR hi hstep)
      have hbetween := renderGameViewData_between resizeTerm hs hgame hplayed view
      simp only [Except.map, ok_bind, Screen.renderish, hview, Bool.false_eq_true, if_false]
      split_ifs at hbetween ⊢
      · rw [hbetween]
        exact .error _
      · obtain ⟨t, ht, hfollows⟩ := hbetween
        rw [ht]
        exact .ok ⟨hfollows, Or.inl rfl⟩

end Playing

section Modes

variable (resizeTerm : TerminalSize → Canvas → ℤ × ℤ) (randR : RandR) {s : Session} {p q : Plan}

/-- The screen follows every plan with the same terminal, the same board and as many games. -/
theorem Screen.Follows.congr {s : Screen} (h : s.Follows p) (hsize : q.size = p.size)
    (hresized : q.resized = p.resized) (hcreated : q.created = p.created) (hseen : q.seen = p.seen)
    (hgame : q.mode.inGame = p.mode.inGame) : s.Follows q where
  size := h.size.trans hsize.symm
  resized := h.resized.trans hresized.symm
  handlers := by rw [h.handlers, hcreated]
  renderer := h.renderer
  nboards := by rw [hcreated]; exact h.nboards
  inGame := by rw [hgame]; exact h.inGame
  closed := by rw [hgame, hseen]; exact h.closed
  seen := by rw [hseen]; exact h.seen

theorem enterMenu_implements (h : s.Behind p) (hs : s.screen.Follows p.openMenu) :
    ∃ t, enterMenu s = .ok t ∧ Implements t p.openMenu := by
  obtain ⟨entry, list, hentry, hlist, hshows⟩ := @openList 4 7 20 5 1 modeChoices 4 (by decide) (by decide)
    (by decide) rfl rfl (by decide)
  refine ⟨{ s with mode := .menu list }, ?_,
    ⟨⟨h.keys, h.created, h.cancelled, h.games, h.played⟩, hs, .menu hshows⟩⟩
  rw [enterMenu, hentry]
  simp only [hlist, ok_bind]

/-- The client starts in the menu, with nothing drawn. -/
theorem sessionStart_implements (size : TerminalSize) :
    ∃ s, sessionStart size = .ok s ∧ Implements s (planStart size) := by
  apply enterMenu_implements
  · exact ⟨rfl, rfl, rfl, by simp, by simp⟩
  · refine ⟨rfl, rfl, rfl, ⟨Or.inl rfl, by simp [rendererStart]⟩, by simp [Plan.openMenu], ?_,
      fun _ => ⟨rfl, rfl⟩, by simp [Plan.openMenu]⟩
    exact fun hgame => absurd hgame (by simp [Plan.openMenu, PlanMode.inGame])

theorem enterControls_implements (h : Implements s p) (hgame : p.mode.inGame = false) :
    ∃ t, enterControls s = .ok t ∧
      Implements t { p with mode := .controls (Choice.start (by decide)) } := by
  obtain ⟨editor, heditor, hshows⟩ := editKeybindings_shows s.keybindings
  rw [h.keys] at hshows
  refine ⟨{ s with mode := .controls editor }, ?_, ⟨⟨h.keys, h.created, h.cancelled, h.games, h.played⟩,
    h.screen.congr rfl rfl rfl rfl hgame.symm, .controls hshows⟩⟩
  rw [enterControls, heditor]
  rfl

/-- A new game, with its board. -/
theorem runOffline_implements (seed : BitVec 32) (h : Implements s p) :
    ∃ t, runOffline resizeTerm randR seed s = .ok t ∧ Implements t (p.start randR seed) := by
  obtain ⟨screen, hscreen, hinv, -⟩ :=
    renderInit_screen resizeTerm [offlineName] s.screen.size h.screen.renderer
  obtain ⟨hrenderer, hsize⟩ := renderInit_renderer resizeTerm hscreen
  obtain ⟨r, hr, hhandlers⟩ := bind_eq_ok.mp hrenderer
  have hkept := renderRefreshLayout_kept one_ne_zero hr
  -- the layout of the new board counts as drawn when there is room for it
  have hresized : screen.renderer.dirty = (p.resized && p.small) := by
    rw [← Except.ok.inj hhandlers, ← h.screen.resized, ← h.screen.small]
    exact hkept.dirty
  refine ⟨_, congrArg (· >>= _) hscreen, ⟨⟨h.keys, congrArg (· + 1) h.created, h.cancelled, h.games,
    fun _ => Nat.succ_pos _⟩, ?_, .playing (newSeededGame_inv randR seed)⟩⟩
  refine ⟨hsize.trans h.screen.size, hresized, hinv.handlers, hinv.renderer, fun _ => hinv.count,
    fun _ => hinv, ?_, ?_⟩
  · exact fun hclosed => absurd hclosed (by simp [Plan.start, PlanMode.inGame])
  · exact fun game hseen => absurd hseen (by simp [Plan.start])

theorem renderClose_kept {r t : Renderer} (h : renderClose r = .ok t) :
    t.dirty = r.dirty ∧ t.handlers = r.handlers ∧ t.nboards = r.nboards := by
  obtain ⟨-, -, h⟩ := bind_eq_ok.mp h
  rw [← Except.ok.inj h]
  exact ⟨rfl, rfl, rfl⟩

/-- The board goes, and the clock is left to itself. -/
theorem stopOffline_implements {contents : GameContents} {clock : Bool} (h : Implements s p)
    (hi : EngineInv contents) (hgame : p.mode.inGame = true) :
    ∃ t, stopOffline contents clock s = .ok t ∧ Implements t (p.stop contents.unshadowed clock) := by
  have hinv := h.screen.inGame hgame
  have hboards : s.screen.renderer.boards ≠ none := by
    obtain ⟨i, hi, -⟩ := hinv.array
    rw [hi]
    exact Option.some_ne_none i
  obtain ⟨r, hr, hrInv, hnone⟩ := renderClose_returns h.screen.renderer hboards
  obtain ⟨hdirty, hhandlers, hnboards⟩ := renderClose_kept hr
  have hn : s.screen.renderer.nboards = 1 := hinv.count
  -- the handlers of the signals are those of a game
  have hcreated : 0 < p.created := by
    have hhandled := h.screen.handlers
    rw [hinv.handlers] at hhandled
    exact of_decide_eq_true hhandled.symm
  let closed : Session := { s with
    screen := ⟨r, s.screen.size, []⟩
    cancelled := if clock then s.cancelled ++ [contents] else s.cancelled }
  let stopped : Plan := { p with
    cancelled := if clock then p.cancelled ++ [contents.unshadowed] else p.cancelled
    seen := none }
  have hbehind : closed.Behind stopped := by
    refine ⟨h.keys, h.created, ?_, ?_, fun _ => hcreated⟩
    · cases clock with
      | false => exact h.cancelled
      | true => exact (List.map_append ..).trans (congrArg (· ++ _) h.cancelled)
    · intro gc hgc
      cases clock with
      | false => exact h.games gc hgc
      | true =>
        rcases List.mem_append.mp hgc with hold | hnew
        · exact h.games gc hold
        · rw [List.mem_singleton.mp hnew]
          exact hi
  have hscreen : closed.screen.Follows stopped.openMenu := by
    refine ⟨h.screen.size, hdirty.trans h.screen.resized, hhandlers.trans h.screen.handlers, hrInv,
      fun _ => hnboards.trans hn, ?_, fun _ => ⟨hnone, rfl⟩, ?_⟩
    · exact fun hin => absurd hin (by simp [Plan.openMenu, PlanMode.inGame])
    · exact fun game hseen => absurd hseen (by simp [Plan.openMenu, stopped])
  obtain ⟨t, ht, himplements⟩ := enterMenu_implements hbehind hscreen
  refine ⟨t, ?_, himplements⟩
  rw [stopOffline, Screen.renderClose, hr]
  exact ht

/-- The index of an option is small enough to stay what it is. -/
theorem uintToInt_cursor {n : BitVec 32} {c : Fin 4} (h : n.toNat = c) : uintToInt n = (c : ℕ) := by
  have hlt := c.isLt
  have hsmall : n < 32767 := by bv_omega
  rw [uintToInt, if_pos hsmall, BitVec.toInt_eq_toNat_of_lt (by omega), h]

theorem runChoice_implements (seed : BitVec 32) {c : Choice 4} (h : Implements s p)
    (hgame : p.mode.inGame = false) {n : BitVec 32} (hn : n.toNat = c.cursor) :
    ∃ t, runChoice resizeTerm randR seed (uintToInt n) s = .ok t ∧ Implements t (p.choose randR seed c) := by
  have hmenu : s.screen.Follows p.openMenu := h.screen.congr rfl rfl rfl rfl hgame.symm
  rw [runChoice, uintToInt_cursor hn, Plan.choose]
  generalize c.cursor = i
  fin_cases i
  · exact runOffline_implements resizeTerm randR seed h
  · exact enterMenu_implements h.toBehind hmenu
  · exact enterControls_implements h hgame
  · exact ⟨_, rfl, ⟨h.keys, h.created, h.cancelled, h.games, h.played⟩,
      h.screen.congr rfl rfl rfl rfl hgame.symm, .exited⟩

/-- Another choice on the same screen. -/
theorem Implements.moved {mode : SessionMode} {planned : PlanMode} (h : Implements s p)
    (hmode : mode.Follows p.keys planned) (hgame : planned.inGame = p.mode.inGame) :
    Implements { s with mode := mode } { p with mode := planned } :=
  ⟨⟨h.keys, h.created, h.cancelled, h.games, h.played⟩, h.screen.congr rfl rfl rfl rfl hgame, hmode⟩

/-- A call and its drawing. -/
theorem Implements.drawn {a : GameContents × Screen} {b : GameContents × Plan} (h : Implements s p)
    (hplayed : Played p a b) (hgame : p.mode.inGame = true) {clock clock' : Bool} (hclock : clock = clock') :
    Implements { s with
      screen := a.2
      mode := .playing a.1 clock } { b.2 with mode := .playing b.1 clock' } := by
  rw [hplayed.game, hclock]
  exact ⟨⟨h.keys, h.created, h.cancelled, h.games, h.played⟩,
    hplayed.screen.congr rfl rfl rfl rfl hgame.symm, .playing hplayed.inv⟩

variable (time : ℕ → BitVec 32) (ch : ℤ)

theorem menuKey_implements {entry : CursesCombobox × List DrawnOption} {c : Choice 4} (h : Implements s p)
    (hs : s.mode = .menu entry) (hp : p.mode = .menu c) (hlist : ListShows 7 entry c) :
    Agree Implements (sessionKey resizeTerm randR time ch s) (p.key randR time ch) := by
  have hgame : p.mode.inGame = false := by
    rw [hp]
    rfl
  simp only [sessionKey, hs, Plan.key, hp]
  by_cases hnewline : ch = 10
  · obtain ⟨t, ht, himplements⟩ := runChoice_implements resizeTerm randR (time p.created) h hgame
      hlist.choice.cursorPosition
    rw [if_pos hnewline, if_pos hnewline, h.created, ht]
    exact .ok himplements
  rw [if_neg hnewline, if_neg hnewline]
  by_cases hspace : ch = 32
  · rw [selectKey, if_pos ⟨rfl, hspace⟩, if_pos hspace]
    exact .ok (h.moved (.menu hlist) hgame.symm)
  · obtain ⟨t, ht, hshows⟩ := hlist.feed (by decide) (by decide) ch
    rw [selectKey, if_neg fun hboth => hspace hboth.2, if_neg hspace, ht]
    exact .ok (h.moved (.menu hshows) hgame.symm)

theorem controlsKey_implements {editor : KeyEditor} {c : Choice 8} (h : Implements s p)
    (hs : s.mode = .controls editor) (hp : p.mode = .controls c) (hshows : editor.Shows p.keys c) :
    Agree Implements (sessionKey resizeTerm randR time ch s) (p.key randR time ch) := by
  have hgame : p.mode.inGame = false := by
    rw [hp]
    rfl
  rw [← h.keys] at hshows
  obtain ⟨t, ht, hnext⟩ := editKeybindingsKey_shows hshows ch
  simp only [sessionKey, hs, ht, ok_bind, Plan.key, hp]
  by_cases hescape : ch = 27
  · rw [if_pos hescape] at hnext ⊢
    subst hnext
    obtain ⟨u, hu, himplements⟩ := enterMenu_implements h.toBehind
      (h.screen.congr (q := p.openMenu) rfl rfl rfl rfl hgame.symm)
    exact hu ▸ .ok himplements
  rw [if_neg hescape] at hnext ⊢
  by_cases hnewline : ch = 10
  · rw [if_pos hnewline] at hnext ⊢
    obtain ⟨e, rfl, hasks⟩ := hnext
    exact .ok (h.moved (.binding hasks) hgame.symm)
  · rw [if_neg hnewline] at hnext ⊢
    obtain ⟨e, rfl, hshown⟩ := hnext
    rw [h.keys] at hshown
    exact .ok (h.moved (.controls hshown) hgame.symm)

/-- The key becomes the one of the control under the cursor. -/
theorem bindingKey_implements {editor : KeyEditor} {c : Choice 8} (h : Implements s p)
    (hs : s.mode = .controls editor) (hp : p.mode = .binding c) (hasks : editor.Asks c) :
    Agree Implements (sessionKey resizeTerm randR time ch s) (p.key randR time ch) := by
  have hgame : p.mode.inGame = false := by
    rw [hp]
    rfl
  obtain ⟨e, b, he, hkeys, hshows⟩ := editKeybindingsKey_asks hasks s.keybindings ch
  rw [h.keys] at hkeys
  rw [hkeys] at hshows
  simp only [sessionKey, hs, he, ok_bind, Plan.key, hp]
  exact .ok ⟨⟨hkeys, h.created, h.cancelled, h.games, h.played⟩,
    h.screen.congr rfl rfl rfl rfl hgame.symm, .controls hshows⟩

/-- A control other than stopping is a call into the engine. -/
theorem press_op (c : Control) (a : GameContents × Screen) :
    c.press (Screen.offlineControlSet resizeTerm randR) a =
      c.op.elim (.ok a) fun op => Screen.offlineCall resizeTerm randR op a := by
  cases c <;> rfl

theorem op_ne_view {c : Control} {op : Op} (h : c.op = some op) : op ≠ .view := by
  rintro rfl
  cases c <;> exact absurd h (by decide)

theorem playingKey_implements {contents : GameContents} {clock : Bool} (h : Implements s p)
    (hs : s.mode = .playing contents clock) (hp : p.mode = .playing contents.unshadowed clock)
    (hi : EngineInv contents) :
    Agree Implements (sessionKey resizeTerm randR time ch s) (p.key randR time ch) := by
  have hgame : p.mode.inGame = true := by
    rw [hp]
    rfl
  simp only [sessionKey, hs, Plan.key, hp]
  by_cases hquit : ch = s.keybindings.quit
  · have hstop : p.keys.control ch = some .stopGame := by
      rw [control_eq_stopGame, ← h.keys]
      exact hquit
    obtain ⟨t, ht, himplements⟩ := @stopOffline_implements s p contents clock h hi hgame
    simp only [if_pos hquit, hstop, Control.op, ht]
    exact .ok himplements
  rw [if_neg hquit, pressKey_eq _ hquit, h.keys]
  cases hcontrol : p.keys.control ch with
  | none =>
    have hmode : (SessionMode.playing contents clock).Follows p.keys p.mode := by
      rw [hp]
      exact .playing hi
    exact .ok (h.moved hmode rfl)
  | some c =>
    simp only [Option.elim_some, press_op]
    cases hop : c.op with
    | none =>
      -- stopping is the only control without a call, and has been compared before
      have hstop : c = .stopGame := by
        cases c <;> first | rfl | exact absurd hop (by decide)
      rw [hstop, control_eq_stopGame, ← h.keys] at hcontrol
      exact absurd hcontrol hquit
    | some op =>
      apply (play_inGame resizeTerm randR (op_ne_view hop) hi h.screen hgame).bind
      intro a b hplayed
      exact .ok (h.drawn hplayed hgame rfl)

theorem key_implements (h : Implements s p) :
    Agree Implements (sessionKey resizeTerm randR time ch s) (p.key randR time ch) := by
  have hmode := h.mode
  generalize hs : s.mode = m at hmode
  generalize hp : p.mode = planned at hmode
  cases hmode with
  | menu hlist => exact menuKey_implements resizeTerm randR time ch h hs hp hlist
  | controls hshows => exact controlsKey_implements resizeTerm randR time ch h hs hp hshows
  | binding hasks => exact bindingKey_implements resizeTerm randR time ch h hs hp hasks
  | playing hi => exact playingKey_implements resizeTerm randR time ch h hs hp hi
  | exited =>
    simp only [sessionKey, hs, Plan.key, hp]
    exact .ok h

/-- The clock of the game lowers its block, until the game is over. -/
theorem turn_implements (h : Implements s p) :
    Agree Implements (sessionStep resizeTerm randR time s .turn) (p.step randR time .turn) := by
  have hmode := h.mode
  generalize hs : s.mode = m at hmode
  generalize hp : p.mode = planned at hmode
  cases hmode with
  | @playing contents clock hi =>
    have hgame : p.mode.inGame = true := by
      rw [hp]
      rfl
    simp only [sessionStep, hs, SessionMode.isExited, Plan.step, hp, PlanMode.isExited]
    cases clock with
    | false => exact .ok h
    | true =>
      apply (play_inGame resizeTerm randR (by decide) hi h.screen hgame).bind
      intro a b hplayed
      -- game_over looks at the board, which the view leaves alone
      have hover : decide (gameOver a.1.board = 0) = decide (gameOver b.1.board = 0) := by
        rw [hplayed.game]
        rfl
      exact .ok (h.drawn hplayed hgame hover)
  | _ =>
    simp only [sessionStep, hs, SessionMode.isExited, Plan.step, hp, PlanMode.isExited]
    exact .ok h

/-- The signal is noticed once a game has installed its handlers. -/
theorem signal_follows {s : Screen} (h : s.Follows p) (size : TerminalSize) :
    (⟨renderHandleSig s.renderer, size, s.boards⟩ : Screen).Follows { p with
      size := size
      resized := p.resized || decide (0 < p.created) } := by
  obtain ⟨hrenderer, hboards⟩ := renderHandleSig_inv h.renderer
  have hkept : (renderHandleSig s.renderer).handlers = s.renderer.handlers ∧
      (renderHandleSig s.renderer).nboards = s.renderer.nboards ∧
      (renderHandleSig s.renderer).dirty = (s.renderer.dirty || s.renderer.handlers) := by
    unfold renderHandleSig
    cases hhandlers : s.renderer.handlers <;> simp [hhandlers]
  obtain ⟨hhandlers, hnboards, hdirty⟩ := hkept
  refine ⟨rfl, ?_, hhandlers.trans h.handlers, hrenderer, fun hp => hnboards.trans (h.nboards hp), ?_, ?_,
    h.seen⟩
  · rw [hdirty, h.resized, h.handlers]
  · intro hgame
    have hinv := h.inGame hgame
    obtain ⟨t, ht, htInv, -⟩ := screenStep_shows keepSize hinv (nothing_matches s) (.signal size)
    rw [Screen.screenStep, Except.ok.injEq] at ht
    rwa [ht]
  · intro hgame
    exact ⟨hboards.trans (h.closed hgame).1, (h.closed hgame).2⟩

theorem SessionMode.Follows.isExited {keys : Keymap} {mode : SessionMode} {planned : PlanMode}
    (h : mode.Follows keys planned) : mode.isExited = planned.isExited := by
  cases h <;> rfl

/-- One event leaves the session as the plan has it, or both fail alike. -/
theorem sessionStep_implements (h : Implements s p) (event : SessionEvent) :
    Agree Implements (sessionStep resizeTerm randR time s event) (p.step randR time event) := by
  cases hexited : p.mode.isExited with
  | true =>
    simp only [sessionStep, h.mode.isExited, Plan.step, hexited]
    exact .ok h
  | false =>
    cases event with
    | turn => exact turn_implements resizeTerm randR time h
    | key ch =>
      simp only [sessionStep, h.mode.isExited, Plan.step, hexited]
      exact key_implements resizeTerm randR time ch h
    | signal size =>
      simp only [sessionStep, h.mode.isExited, Plan.step, hexited]
      exact .ok ⟨⟨h.keys, h.created, h.cancelled, h.games, h.played⟩, signal_follows h.screen size, h.mode⟩
    | lastTurn clock =>
      have hget : p.cancelled[clock]? = s.cancelled[clock]?.map GameContents.unshadowed := by
        rw [← h.cancelled, List.getElem?_map]
      simp only [sessionStep, h.mode.isExited, Plan.step, hexited, hget]
      cases hclock : s.cancelled[clock]? with
      | none => exact .ok h
      | some contents =>
        have hmem := List.mem_of_getElem? hclock
        -- there is a clock to cancel only after a game
        have hplayed : 0 < p.created := by
          apply h.played
          rw [← h.cancelled]
          exact List.ne_nil_of_mem (List.mem_map_of_mem hmem)
        have hrest : ∀ gc ∈ s.cancelled.eraseIdx clock, EngineInv gc :=
          fun gc hgc => h.games gc (List.mem_of_mem_eraseIdx hgc)
        have herase : (s.cancelled.eraseIdx clock).map GameContents.unshadowed =
            p.cancelled.eraseIdx clock := by
          rw [← h.cancelled, List.eraseIdx_map]
        apply (lastTurn_follows resizeTerm randR (h.games contents hmem) h.screen hplayed).bind
        rintro ⟨gc, screen⟩ p' ⟨hscreen, rfl | ⟨game, rfl⟩⟩
        · exact .ok ⟨⟨h.keys, h.created, herase, hrest, fun _ => hplayed⟩,
            hscreen.congr rfl rfl rfl rfl rfl, h.mode⟩
        · exact .ok ⟨⟨h.keys, h.created, herase, hrest, fun _ => hplayed⟩,
            hscreen.congr rfl rfl rfl rfl rfl, h.mode⟩

end Modes

/-- A client without a server does what the plan says: whatever keys are pressed in its lists, its
key editor and its games, however the turns of its clocks come between them, also the last ones of
clocks that have been cancelled, and however the terminal is resized, the lists have the cursor on the
planned option, the keys are bound as planned, the games are the planned ones, and the board shows the
game that the plan has drawn last; and the client fails where the plan does. A key and a turn that
overlap are not among the events. -/
theorem session_follows_plan (resizeTerm : TerminalSize → Canvas → ℤ × ℤ) (randR : RandR)
    (time : ℕ → BitVec 32) (size : TerminalSize) :
    ∃ s, sessionStart size = .ok s ∧ ∀ events : List SessionEvent,
      Agree Session.Presents (run (sessionStep resizeTerm randR time) s events)
        (run (Plan.step randR time) (planStart size) events) := by
  obtain ⟨s, hs, hstart⟩ := sessionStart_implements size
  refine ⟨s, hs, ?_⟩
  intro events
  have hrun := Agree.run (sessionStep resizeTerm randR time)
    (fun s p event h => sessionStep_implements resizeTerm randR time h event) hstart events
  exact hrun.mono fun t p h => h.presents

/-- The user goes to the controls, binds x to going left and starts a game. -/
example : (run (Plan.step glibcRandR fun _ => 0) (planStart ⟨40, 120⟩)
    ([keyDown, keyDown, 10, 10, 120, 27, 10].map SessionEvent.key)).toOption.map
      (fun p => (p.keys .left, p.keys.control 97, p.mode.inGame)) = some (120, none, true) := by
  decide +kernel

end TetrisMint
