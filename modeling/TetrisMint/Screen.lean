import TetrisMint.Looks

/-! The screen of a client over a game in `render.c`: whose view each of the boards shows. -/
namespace TetrisMint

open FallibleRun

/-- The windows of an entry of `boards`. -/
structure BoardCanvas where
  tetrisWindow : Canvas
  nextBlockWindow : Canvas
  holdBlockWindow : Canvas
  pointsWindow : Canvas
  linesWindow : Canvas

/-- The renderer in a terminal of this size, with the windows of its boards, which are NULL
until the first layout. -/
structure Screen where
  renderer : Renderer
  size : TerminalSize
  boards : List (Option BoardCanvas)

inductive ScreenEvent
  | view (name : List UInt8) (view : GameViewData)
  /-- The terminal may have another size now, and SIGWINCH or SIGTSTP says so. -/
  | signal (size : TerminalSize)

/-- "NEXT". -/
def nextLabel : List UInt8 := [78, 69, 88, 84]

/-- "HOLD". -/
def holdLabel : List UInt8 := [72, 79, 76, 68]

/-- What lies within both sizes is kept, and the rest is blank. -/
def wresize (win : Canvas) (height width : ℤ) : Canvas :=
  ⟨height, width, fun p => if win.Inside p.1 p.2 then win.glyphs p else ⟨.char 32, 0⟩⟩

namespace Screen

/-- A window that is there is moved and gets its size back. -/
def setWindow (win : Option Canvas) (height width : ℤ) : Canvas :=
  match win with
  | none => createNewwin height width
  | some win => wresize win height width

def setWindows (board : Option BoardCanvas) : BoardCanvas where
  tetrisWindow := setWindow (board.map BoardCanvas.tetrisWindow) (boardHeight + 2) (boardChWidth + 2)
  nextBlockWindow := setWindow (board.map BoardCanvas.nextBlockWindow) 6 8
  holdBlockWindow := setWindow (board.map BoardCanvas.holdBlockWindow) 6 8
  pointsWindow := werase (setWindow (board.map BoardCanvas.pointsWindow) 4 8)
  linesWindow := werase (setWindow (board.map BoardCanvas.linesWindow) 4 8)

/-- The windows of a board that a view has been drawn in. -/
def drawBoard (size : TerminalSize) (view : GameViewData) (board : BoardCanvas) : BoardCanvas where
  tetrisWindow := renderTetrisWindow view.board board.tetrisWindow
  nextBlockWindow := renderBlockWindow size nextLabel view.nextBlock board.nextBlockWindow
  holdBlockWindow := renderBlockWindow size holdLabel view.holdBlock board.holdBlockWindow
  pointsWindow := renderNumberWindow pointsLabel view.points board.pointsWindow
  linesWindow := renderNumberWindow linesLabel view.linesCleared board.linesWindow

section

-- the height and the width that `resize_term` gives a window in a terminal of this size
variable (resizeTerm : TerminalSize → Canvas → ℤ × ℤ)

def resizeWindow (size : TerminalSize) (win : Canvas) : Canvas :=
  wresize win (resizeTerm size win).1 (resizeTerm size win).2

def resizeBoard (size : TerminalSize) (board : BoardCanvas) : BoardCanvas where
  tetrisWindow := resizeWindow resizeTerm size board.tetrisWindow
  nextBlockWindow := resizeWindow resizeTerm size board.nextBlockWindow
  holdBlockWindow := resizeWindow resizeTerm size board.holdBlockWindow
  pointsWindow := resizeWindow resizeTerm size board.pointsWindow
  linesWindow := resizeWindow resizeTerm size board.linesWindow

/-- `_render_refresh_layout` with the windows. -/
def renderRefreshLayout (s : Screen) : Except Fault Screen := do
  let r ← TetrisMint.renderRefreshLayout s.size s.renderer
  if s.renderer.nboards = 0 then .ok { s with renderer := r }
  else
    let boards := s.boards.map (Option.map (resizeBoard resizeTerm s.size))
    if r.tooNarrow || r.tooShort then .ok ⟨r, s.size, boards⟩
    else .ok ⟨r, s.size, boards.map fun board => some (setWindows board)⟩

/-- `render_game_view_data` in a large enough terminal. -/
def drawView (name : List UInt8) (view : GameViewData) (s : Screen) : Except Fault Screen := do
  let (r, found) ← boardFromName name s.renderer
  match found with
  | none => .ok { s with renderer := r }
  | some i =>
    match s.boards[i]? with
    | some (some board) => .ok { s with
        renderer := r
        boards := s.boards.set i (some (drawBoard s.size view board)) }
    | _ => .error .nullDereference

def refreshed (s : Screen) : Except Fault Screen :=
  if s.renderer.dirty then renderRefreshLayout resizeTerm s else .ok s

def renderGameViewData (name : List UInt8) (view : GameViewData) (s : Screen) : Except Fault Screen := do
  let s ← refreshed resizeTerm s
  if s.renderer.tooNarrow then .ok s
  else if s.renderer.tooShort then .ok s
  else drawView name view s

/-- The boards of a new game. -/
def renderInit (names : List (List UInt8)) (size : TerminalSize) (r : Renderer) : Except Fault Screen := do
  let s ← renderRefreshLayout resizeTerm ⟨{ r with
    nboards := names.length
    boards := some r.arrays.length
    arrays := r.arrays ++ [⟨names, false⟩] }, size, names.map fun _ => none⟩
  .ok { s with renderer := { s.renderer with handlers := true } }

def screenStep (s : Screen) : ScreenEvent → Except Fault Screen
  | .view name view => renderGameViewData resizeTerm name view s
  | .signal size => .ok { s with renderer := renderHandleSig s.renderer, size := size }

end

end Screen

/-- The views that the boards of a game show: each the latest under its name, as long as the
terminal is large enough and has not been resized. -/
structure Shown where
  size : TerminalSize
  resized : Bool
  views : List (Option GameViewData)

def terminalTooSmall (size : TerminalSize) (nboards : ℕ) : Bool :=
  terminalTooNarrow size nboards || terminalTooShort size

def shownStart (names : List (List UInt8)) (size : TerminalSize) : Shown :=
  ⟨size, true, names.map fun _ => none⟩

/-- The view is shown by the first board with the name. -/
def shownView (names : List (List UInt8)) (name : List UInt8) (view : GameViewData)
    (views : List (Option GameViewData)) : List (Option GameViewData) :=
  match names.findIdx? (· = name) with
  | some i => views.set i (some view)
  | none => views

def shownStep (names : List (List UInt8)) (a : Shown) : ScreenEvent → Shown
  | .signal size => { a with size := size, resized := true }
  | .view name view =>
    if terminalTooSmall a.size names.length then { a with views := names.map fun _ => none }
    else ⟨a.size, false, shownView names name view (if a.resized then names.map fun _ => none else a.views)⟩

/-- The number stands under the label, and behind it what is left of longer ones. -/
def ShowsNumber (win : Canvas) (label : List UInt8) (n : ℤ) : Prop :=
  ∃ rest, Pictured win 4 8 (numberPicture label (decimal n ++ rest))

/-- The view stands in the windows. -/
structure BoardCanvas.Shows (board : BoardCanvas) (view : GameViewData) : Prop where
  tetris : Pictured board.tetrisWindow 26 22 (boardPicture view.board)
  next : Pictured board.nextBlockWindow 6 8 (blockPicture nextLabel view.nextBlock)
  hold : Pictured board.holdBlockWindow 6 8 (blockPicture holdLabel view.holdBlock)
  points : ShowsNumber board.pointsWindow pointsLabel view.points
  lines : ShowsNumber board.linesWindow linesLabel view.linesCleared

section Windows

variable {board board' : BoardCanvas}

/-- Nothing but frames, labels and numbers stands in the small windows. -/
structure BoardCanvas.Clean (board : BoardCanvas) : Prop where
  next : BlankBehind nextLabel board.nextBlockWindow
  hold : BlankBehind holdLabel board.holdBlockWindow
  points : ∃ row, HoldsRow board.pointsWindow row
  lines : ∃ row, HoldsRow board.linesWindow row

/-- The windows have the sizes that the layout gives them. -/
structure BoardCanvas.Sized (board : BoardCanvas) : Prop where
  tetris : board.tetrisWindow.height = 26 ∧ board.tetrisWindow.width = 22
  next : board.nextBlockWindow.height = 6 ∧ board.nextBlockWindow.width = 8
  hold : board.holdBlockWindow.height = 6 ∧ board.holdBlockWindow.width = 8
  points : board.pointsWindow.height = 4 ∧ board.pointsWindow.width = 8
  lines : board.linesWindow.height = 4 ∧ board.linesWindow.width = 8

theorem wresize_blank {label : List UInt8} {win : Canvas} (h : BlankBehind label win) (height width : ℤ) :
    BlankBehind label (wresize win height width) := by
  intro p hframe _ hl
  simp only [wresize]
  split_ifs with hp
  · exact h p hframe hp hl
  · rfl

/-- What lies outside of a window is lost when its size changes. -/
theorem wresize_row {win : Canvas} (h : ∃ row, HoldsRow win row) (height width : ℤ) :
    ∃ row, HoldsRow (wresize win height width) row := by
  obtain ⟨row, hrow⟩ := h
  refine ⟨(List.range 6).map fun k : ℕ => if win.Inside 2 (1 + k) then row.getD k 32 else 32, ?_⟩
  intro k hk
  have hget : ((List.range 6).map fun k : ℕ => if win.Inside 2 (1 + k) then row.getD k 32 else 32).getD k 32 =
      if win.Inside 2 (1 + k) then row.getD k 32 else 32 := by
    rw [List.getD_eq_getElem?_getD, List.getElem?_map, List.getElem?_range hk]
    rfl
  rw [hget]
  simp only [wresize]
  split_ifs
  · exact hrow k hk
  · rfl

theorem resizeBoard_clean (resizeTerm : TerminalSize → Canvas → ℤ × ℤ) (size : TerminalSize)
    (h : board.Clean) : (Screen.resizeBoard resizeTerm size board).Clean where
  next := wresize_blank h.next _ _
  hold := wresize_blank h.hold _ _
  points := wresize_row h.points _ _
  lines := wresize_row h.lines _ _

theorem setWindows_clean {board : Option BoardCanvas} (h : ∀ b, board = some b → b.Clean) :
    (Screen.setWindows board).Clean where
  next := by
    cases board with
    | none => exact createNewwin_blank _
    | some b => exact wresize_blank (h b rfl).next _ _
  hold := by
    cases board with
    | none => exact createNewwin_blank _
    | some b => exact wresize_blank (h b rfl).hold _ _
  points := ⟨[], werase_holdsRow _⟩
  lines := ⟨[], werase_holdsRow _⟩

theorem setWindows_sized (board : Option BoardCanvas) : (Screen.setWindows board).Sized := by
  cases board <;> exact ⟨⟨rfl, rfl⟩, ⟨rfl, rfl⟩, ⟨rfl, rfl⟩, ⟨rfl, rfl⟩, ⟨rfl, rfl⟩⟩

/-- The number is printed over what stood there, and what it does not reach stays. -/
theorem renderNumberWindow_shows {win : Canvas} {label : List UInt8} (hlabel : label.length ≤ 6)
    (hnewline : 10 ∉ label) (hsize : win.height = 4 ∧ win.width = 8)
    (hrow : ∃ row, HoldsRow win row) (n : ℤ) : ShowsNumber (renderNumberWindow label n win) label n := by
  obtain ⟨row, hrow⟩ := hrow
  exact ⟨row.drop (decimal n).length, renderNumberWindow_eq hlabel hnewline hsize.1 hsize.2 hrow n⟩

theorem drawBoard_shows {size : TerminalSize} (hrows : 6 ≤ size.rows) (hcolumns : 8 ≤ size.columns)
    (view : GameViewData) (hsized : board.Sized) (hclean : board.Clean) :
    (Screen.drawBoard size view board).Shows view where
  tetris := renderTetrisWindow_eq view.board hsized.tetris.1 hsized.tetris.2
  next := renderBlockWindow_eq (by decide) (by decide) hrows hcolumns _ hsized.next.1 hsized.next.2
    hclean.next
  hold := renderBlockWindow_eq (by decide) (by decide) hrows hcolumns _ hsized.hold.1 hsized.hold.2
    hclean.hold
  points := renderNumberWindow_shows (by decide) (by decide) hsized.points hclean.points view.points
  lines := renderNumberWindow_shows (by decide) (by decide) hsized.lines hclean.lines view.linesCleared

theorem ShowsNumber.row {win : Canvas} {label : List UInt8} {n : ℤ} (h : ShowsNumber win label n) :
    ∃ row, HoldsRow win row := by
  obtain ⟨rest, h⟩ := h
  exact ⟨_, h.holdsRow⟩

theorem ShowsNumber.size {win : Canvas} {label : List UInt8} {n : ℤ} (h : ShowsNumber win label n) :
    win.height = 4 ∧ win.width = 8 := by
  obtain ⟨rest, h⟩ := h
  exact ⟨h.height, h.width⟩

theorem BoardCanvas.Shows.clean {view : GameViewData} (h : board.Shows view) : board.Clean :=
  ⟨h.next.blank, h.hold.blank, h.points.row, h.lines.row⟩

theorem BoardCanvas.Shows.sized {view : GameViewData} (h : board.Shows view) : board.Sized :=
  ⟨⟨h.tetris.height, h.tetris.width⟩, ⟨h.next.height, h.next.width⟩, ⟨h.hold.height, h.hold.width⟩,
    h.points.size, h.lines.size⟩

/-- Two windows with pictures in them look the same where the pictures do. -/
theorem Pictured.looksLike_iff {win win' : Canvas} {height width : ℤ} {picture picture' : ℤ × ℤ → Glyph}
    (h : Pictured win height width picture) (h' : Pictured win' height width picture') :
    win.LooksLike win' ↔ ∀ p : ℤ × ℤ, 0 ≤ p.1 → p.1 < height → 0 ≤ p.2 → p.2 < width →
      (picture p).look = (picture' p).look := by
  have hinside (p : ℤ × ℤ) : win.Inside p.1 p.2 ↔ 0 ≤ p.1 ∧ p.1 < height ∧ 0 ≤ p.2 ∧ p.2 < width := by
    rw [Canvas.Inside, h.height, h.width]
  have hinside' (p : ℤ × ℤ) (hp : win.Inside p.1 p.2) : win'.Inside p.1 p.2 :=
    inside_congr (h'.height.trans h.height.symm) (h'.width.trans h.width.symm) hp
  constructor
  · intro hlook p hy hy' hx hx'
    have hp : win.Inside p.1 p.2 := (hinside p).mpr ⟨hy, hy', hx, hx'⟩
    rw [← h.glyphs p hp, ← h'.glyphs p (hinside' p hp)]
    exact hlook p hp
  · intro hlook p hp
    obtain ⟨hy, hy', hx, hx'⟩ := (hinside p).mp hp
    rw [h.glyphs p hp, h'.glyphs p (hinside' p hp)]
    exact hlook p hy hy' hx hx'

/-- What is in the windows tells which board and which blocks are shown, as far as the colors can be
told apart. -/
theorem BoardCanvas.Shows.looksLike_iff {view view' : GameViewData} (h : board.Shows view)
    (h' : board'.Shows view') (htyped : TypedBoard view.board) (htyped' : TypedBoard view'.board) :
    (board.tetrisWindow.LooksLike board'.tetrisWindow ↔ SameCells view.board view'.board) ∧
      (board.nextBlockWindow.LooksLike board'.nextBlockWindow ↔
        seenBlock view.nextBlock = seenBlock view'.nextBlock) ∧
      (board.holdBlockWindow.LooksLike board'.holdBlockWindow ↔
        seenBlock view.holdBlock = seenBlock view'.holdBlock) := by
  refine ⟨?_, ?_, ?_⟩
  · rw [h.tetris.looksLike_iff h'.tetris, boardPicture_look_iff htyped htyped']
  · rw [h.next.looksLike_iff h'.next, blockPicture_look_iff]
  · rw [h.hold.looksLike_iff h'.hold, blockPicture_look_iff]

end Windows

section Runs

variable {names : List (List UInt8)} {s : Screen}

/-- The renderer holds the boards of a game for these names. -/
structure Screen.Playing (names : List (List UInt8)) (s : Screen) : Prop where
  renderer : RendererInv s.renderer
  array : ∃ i, s.renderer.boards = some i ∧ s.renderer.arrays[i]? = some ⟨names, false⟩
  count : s.renderer.nboards = names.length
  length : s.boards.length = names.length
  clean : ∀ board, some board ∈ s.boards → board.Clean

/-- The layout is that of the terminal, and has placed the windows of a large enough one. -/
structure Screen.LaidOut (names : List (List UInt8)) (s : Screen) : Prop where
  tooNarrow : s.renderer.tooNarrow = terminalTooNarrow s.size names.length
  tooShort : s.renderer.tooShort = terminalTooShort s.size
  placed : terminalTooSmall s.size names.length = false →
    ∀ board ∈ s.boards, ∃ b, board = some b ∧ b.Sized

structure ScreenInv (names : List (List UInt8)) (s : Screen) : Prop extends s.Playing names where
  laidOut : names ≠ [] → s.renderer.dirty = false → s.LaidOut names
  handlers : s.renderer.handlers = true

/-- The windows show the views, and nothing is thought to be shown in a layout that is to change. -/
structure Shown.Matches (names : List (List UInt8)) (a : Shown) (s : Screen) : Prop where
  size : a.size = s.size
  resized : s.renderer.dirty = true → a.resized = true
  length : a.views.length = names.length
  views : ∀ (i : ℕ) (view : GameViewData), a.views[i]? = some (some view) →
    ∃ board : BoardCanvas, s.boards[i]? = some (some board) ∧ board.Shows view

/-- The boards that are there are those of the array made last. -/
theorem Screen.Playing.current (h : s.Playing names) :
    Current s.renderer.arrays s.renderer.boards s.renderer.nboards := by
  obtain ⟨i, hboards, -⟩ := h.array
  apply h.renderer.current.resolve_left
  rw [hboards]
  exact Option.some_ne_none i

/-- The layout while the boards are there: the flags are those of the terminal. -/
theorem renderRefreshLayout_playing {r : Renderer} (size : TerminalSize) (hi : RendererInv r)
    (hboards : r.boards ≠ none) (hn : r.nboards ≠ 0) :
    ∃ walks dirty, let t : Renderer := { r with
        tooNarrow := terminalTooNarrow size r.nboards
        tooShort := terminalTooShort size
        dirty := dirty
        walks := walks }
      renderRefreshLayout size r = .ok t ∧ RendererInv t ∧
        dirty = (terminalTooSmall size r.nboards && r.dirty) := by
  have hcurrent := hi.current.resolve_left hboards
  let sized : Renderer := { r with
    tooNarrow := terminalTooNarrow size r.nboards
    tooShort := terminalTooShort size }
  have hsized : RendererInv sized := ⟨hi.current, hi.walks⟩
  rw [renderRefreshLayout, if_neg hn]
  cases hsmall : terminalTooSmall size r.nboards with
  | true =>
    exact ⟨r.walks, r.dirty, if_pos hsmall, hsized, (Bool.true_and _).symm⟩
  | false =>
    have hrecord := recordWalk_inv hsized hcurrent
    refine ⟨(recordWalk sized).walks, false, ?_, ⟨hrecord.current, hrecord.walks⟩, rfl⟩
    apply (if_neg (Bool.eq_false_iff.mp hsmall)).trans
    rw [@walkBoards_current sized hcurrent, ok_bind]
    rfl

variable (resizeTerm : TerminalSize → Canvas → ℤ × ℤ)

/-- The layout of a large enough terminal, and of a small one. -/
theorem renderRefreshLayout_screen (h : s.Playing names) (hnames : names ≠ []) :
    ∃ t, Screen.renderRefreshLayout resizeTerm s = .ok t ∧ t.Playing names ∧ t.LaidOut names ∧
      t.size = s.size ∧ t.renderer.handlers = s.renderer.handlers ∧
      t.renderer.dirty = (terminalTooSmall s.size names.length && s.renderer.dirty) := by
  obtain ⟨i, hboards, harray⟩ := h.array
  have hn : s.renderer.nboards ≠ 0 := by
    rw [h.count]
    exact fun hzero => hnames (List.length_eq_zero_iff.mp hzero)
  obtain ⟨walks, dirty, hlayout, hinv, hdirty⟩ := renderRefreshLayout_playing s.size h.renderer
    (by rw [hboards]; exact Option.some_ne_none i) hn
  rw [Screen.renderRefreshLayout, hlayout, ok_bind, if_neg hn, h.count]
  rw [h.count] at hinv hdirty
  have hresized (board : BoardCanvas)
      (hmem : some board ∈ s.boards.map (Option.map (Screen.resizeBoard resizeTerm s.size))) :
      board.Clean := by
    obtain ⟨old, hold, heq⟩ := List.mem_map.mp hmem
    obtain ⟨b, rfl, rfl⟩ := Option.map_eq_some_iff.mp heq
    exact resizeBoard_clean resizeTerm s.size (h.clean b hold)
  cases hsmall : terminalTooSmall s.size names.length with
  | true =>
    -- the boards are resized, but no window is placed and the flag is left as it is
    have hflags : (terminalTooNarrow s.size names.length || terminalTooShort s.size) = true := hsmall
    simp only [hflags, if_true]
    refine ⟨_, rfl, ⟨hinv, ⟨i, hboards, harray⟩, rfl, ?_, hresized⟩, ?_, rfl, rfl, ?_⟩
    · exact (List.length_map _).trans h.length
    · refine ⟨rfl, rfl, ?_⟩
      intro hlarge
      exact absurd (hsmall.symm.trans hlarge) (by decide)
    · rw [hdirty, hsmall]
  | false =>
    have hflags : (terminalTooNarrow s.size names.length || terminalTooShort s.size) = false := hsmall
    simp only [hflags, Bool.false_eq_true, if_false]
    refine ⟨_, rfl, ⟨hinv, ⟨i, hboards, harray⟩, rfl, ?_, ?_⟩, ?_, rfl, rfl, ?_⟩
    · exact (List.length_map _).trans ((List.length_map _).trans h.length)
    · intro board hmem
      obtain ⟨old, hold, heq⟩ := List.mem_map.mp hmem
      rw [← Option.some.inj heq]
      apply setWindows_clean
      rintro b rfl
      exact hresized b hold
    · refine ⟨rfl, rfl, ?_⟩
      intro _ board hmem
      obtain ⟨old, -, rfl⟩ := List.mem_map.mp hmem
      exact ⟨_, rfl, setWindows_sized old⟩
    · rw [hdirty, hsmall]

/-- The first half of a view: the layout is done when it is dirty. -/
theorem refreshed_screen (h : ScreenInv names s) (hnames : names ≠ []) :
    ∃ u, Screen.refreshed resizeTerm s = .ok u ∧
      ScreenInv names u ∧ u.LaidOut names ∧ u.size = s.size ∧ (s.renderer.dirty = false → u = s) ∧
      (u.renderer.dirty = true → terminalTooSmall s.size names.length = true ∧ s.renderer.dirty = true) := by
  rw [Screen.refreshed]
  cases hdirty : s.renderer.dirty with
  | false =>
    refine ⟨s, if_neg Bool.false_ne_true, h, h.laidOut hnames hdirty, rfl, fun _ => rfl, ?_⟩
    intro hd
    exact absurd (hdirty.symm.trans hd) (by decide)
  | true =>
    obtain ⟨u, hu, hplaying, hlaid, hsize, hhandlers, hleft⟩ :=
      renderRefreshLayout_screen resizeTerm h.toPlaying hnames
    refine ⟨u, (if_pos rfl).trans hu, ⟨hplaying, fun _ _ => hlaid, hhandlers.trans h.handlers⟩, hlaid, hsize,
      fun hd => absurd hd (by decide), ?_⟩
    intro hd
    rw [hd, hdirty, Bool.and_true] at hleft
    exact ⟨hleft.symm, rfl⟩

theorem nothing_shown (l : List (List UInt8)) (i : ℕ) (view : GameViewData) :
    (l.map fun _ => (none : Option GameViewData))[i]? ≠ some (some view) := by
  intro h
  obtain ⟨name, -, hview⟩ := Option.map_eq_some_iff.mp (List.getElem?_map.symm.trans h)
  exact absurd hview (Option.some_ne_none view).symm

/-- A board of the game is found by its name. -/
theorem boardFromName_playing (name : List UInt8) (h : s.Playing names) :
    boardFromName name s.renderer = .ok (recordWalk s.renderer, names.findIdx? (· = name)) := by
  obtain ⟨i, hboards, harray⟩ := h.array
  simp only [boardFromName, hboards, walkBoards_current h.current, ok_bind, harray, Option.bind_some]

/-- A terminal that is large enough for the boards is so for the windows of a block. -/
theorem large_enough {size : TerminalSize} {nboards : ℕ} (h : terminalTooSmall size nboards = false) :
    6 ≤ size.rows ∧ 8 ≤ size.columns := by
  obtain ⟨hnarrow, hshort⟩ := Bool.or_eq_false_iff.mp h
  have hpanel : ¬size.columns / nboards < 30 := of_decide_eq_false hnarrow
  have hrows : ¬size.rows < 26 := of_decide_eq_false hshort
  have hcolumns : size.columns / nboards ≤ size.columns := Nat.div_le_self _ _
  omega

/-- The second half: the view is drawn on the first board with the name. -/
theorem drawView_screen {views : List (Option GameViewData)} (name : List UInt8)
    (view : GameViewData) (h : ScreenInv names s) (hlaid : s.LaidOut names)
    (hlarge : terminalTooSmall s.size names.length = false)
    (hshown : (⟨s.size, false, views⟩ : Shown).Matches names s) :
    ∃ t, Screen.drawView name view s = .ok t ∧ ScreenInv names t ∧
      (⟨s.size, false, shownView names name view views⟩ : Shown).Matches names t := by
  have hwalked := recordWalk_inv h.renderer h.current
  rw [Screen.drawView, boardFromName_playing name h.toPlaying, ok_bind, shownView]
  cases hfound : names.findIdx? (· = name) with
  | none =>
    -- nobody of this name plays, so nothing is drawn
    refine ⟨_, rfl, ⟨⟨hwalked, h.array, h.count, h.length, h.clean⟩, fun _ _ => ?_, h.handlers⟩, ?_⟩
    · exact ⟨hlaid.tooNarrow, hlaid.tooShort, hlaid.placed⟩
    · exact ⟨hshown.size, hshown.resized, hshown.length, hshown.views⟩
  | some i =>
    obtain ⟨hi, -⟩ := List.findIdx?_eq_some_iff_getElem.mp hfound
    have hi' : i < s.boards.length := h.length ▸ hi
    obtain ⟨board, hboard, hsized⟩ := hlaid.placed hlarge s.boards[i] (List.getElem_mem hi')
    have hget : s.boards[i]? = some (some board) := by rw [List.getElem?_eq_getElem hi', hboard]
    have hsize := large_enough hlarge
    have hshows := drawBoard_shows hsize.1 hsize.2 view hsized (h.clean board (List.mem_of_getElem? hget))
    simp only [hget]
    refine ⟨_, rfl, ⟨⟨hwalked, h.array, h.count, ?_, ?_⟩, fun _ _ => ?_, h.handlers⟩, ?_⟩
    · exact (List.length_set ..).trans h.length
    · intro b hb
      rcases List.mem_or_eq_of_mem_set hb with hold | hnew
      · exact h.clean b hold
      · rw [Option.some.inj hnew]
        exact hshows.clean
    · refine ⟨hlaid.tooNarrow, hlaid.tooShort, ?_⟩
      intro _ b hb
      rcases List.mem_or_eq_of_mem_set hb with hold | hnew
      · exact hlaid.placed hlarge b hold
      · exact ⟨_, hnew, hshows.sized⟩
    · refine ⟨hshown.size, hshown.resized, (List.length_set ..).trans hshown.length, ?_⟩
      intro j v hv
      simp only [List.getElem?_set] at hv ⊢
      -- the other boards keep what they have shown
      by_cases hij : i = j
      · subst hij
        rw [if_pos rfl, if_pos (hshown.length.symm ▸ hi)] at hv
        rw [if_pos rfl, if_pos hi', ← Option.some.inj (Option.some.inj hv)]
        exact ⟨_, rfl, hshows⟩
      · rw [if_neg hij] at hv ⊢
        exact hshown.views j v hv

variable {a : Shown}

theorem renderRefreshLayout_nobody (hn : s.renderer.nboards = 0) :
    Screen.renderRefreshLayout resizeTerm s = .ok s := by
  rw [Screen.renderRefreshLayout, renderRefreshLayout, if_pos hn, ok_bind, if_pos hn]

/-- With nobody to play there is nothing to draw. -/
theorem renderGameViewData_nobody (name : List UInt8) (view : GameViewData) (h : ScreenInv [] s) :
    ∃ t, Screen.renderGameViewData resizeTerm name view s = .ok t ∧ ScreenInv [] t ∧ t.size = s.size ∧
      t.renderer.dirty = s.renderer.dirty := by
  have hn : s.renderer.nboards = 0 := h.count
  have hrefresh : Screen.refreshed resizeTerm s = .ok s := by
    rw [Screen.refreshed]
    split_ifs
    · exact renderRefreshLayout_nobody resizeTerm hn
    · rfl
  rw [Screen.renderGameViewData, hrefresh, ok_bind]
  split_ifs
  · exact ⟨s, rfl, h, rfl, rfl⟩
  · exact ⟨s, rfl, h, rfl, rfl⟩
  · rw [Screen.drawView, boardFromName_playing name h.toPlaying]
    exact ⟨_, rfl, ⟨⟨recordWalk_inv h.renderer h.current, h.array, h.count, h.length, h.clean⟩,
      fun hne => absurd rfl hne, h.handlers⟩, rfl, rfl⟩

theorem renderGameViewData_screen (name : List UInt8) (view : GameViewData) (h : ScreenInv names s)
    (hshown : a.Matches names s) :
    ∃ t, Screen.renderGameViewData resizeTerm name view s = .ok t ∧ ScreenInv names t ∧
      (shownStep names a (.view name view)).Matches names t := by
  rcases eq_or_ne names [] with rfl | hnames
  · obtain ⟨t, ht, hinv, hsize, hdirty⟩ := renderGameViewData_nobody resizeTerm name view h
    have hsmall : terminalTooSmall a.size 0 = true := by
      simp [terminalTooSmall, terminalTooNarrow]
    refine ⟨t, ht, hinv, ?_⟩
    rw [shownStep, List.length_nil, if_pos hsmall]
    exact ⟨hshown.size.trans hsize.symm, fun hd => hshown.resized (hdirty ▸ hd), rfl, by simp⟩
  · obtain ⟨u, hu, hinv, hlaid, hsize, hsame, hleft⟩ := refreshed_screen resizeTerm h hnames
    rw [Screen.renderGameViewData, hu, ok_bind, hlaid.tooNarrow, hlaid.tooShort, shownStep, hshown.size,
      hsize]
    cases hsmall : terminalTooSmall s.size names.length with
    | true =>
      -- the view is lost, and nothing is said of the boards any more
      have hreturns : (if terminalTooNarrow s.size names.length then .ok u
          else if terminalTooShort s.size then .ok u
          else Screen.drawView name view u : Except Fault Screen) = .ok u := by
        rcases (Bool.or_eq_true _ _).mp hsmall with hnarrow | hshort
        · exact if_pos hnarrow
        · rw [if_pos hshort, ite_self]
      refine ⟨u, hreturns, hinv, ?_⟩
      rw [if_pos rfl]
      refine ⟨hsize.symm, fun hd => hshown.resized (hleft hd).2, List.length_map _, ?_⟩
      exact fun i v hv => absurd hv (nothing_shown names i v)
    | false =>
      obtain ⟨hnarrow, hshort⟩ := Bool.or_eq_false_iff.mp hsmall
      rw [hnarrow, hshort, if_neg Bool.false_ne_true, if_neg Bool.false_ne_true, if_neg Bool.false_ne_true,
        ← hsize]
      apply drawView_screen name view hinv hlaid (hsize ▸ hsmall)
      refine ⟨rfl, ?_, ?_, ?_⟩
      · intro hd
        rw [(hleft hd).1] at hsmall
        exact absurd hsmall (by decide)
      · split_ifs
        · exact List.length_map _
        · exact hshown.length
      · intro i v hv
        split_ifs at hv with hresized
        · exact absurd hv (nothing_shown names i v)
        · -- the layout has been left as it was
          have hclean : s.renderer.dirty = false := by
            apply Bool.eq_false_iff.mpr
            exact fun hd => hresized (hshown.resized hd)
          rw [hsame hclean]
          exact hshown.views i v hv

theorem screenStep_shows (h : ScreenInv names s) (hshown : a.Matches names s) (event : ScreenEvent) :
    ∃ t, Screen.screenStep resizeTerm s event = .ok t ∧ ScreenInv names t ∧
      (shownStep names a event).Matches names t := by
  cases event with
  | view name view => exact renderGameViewData_screen resizeTerm name view h hshown
  | signal size =>
    have hsignal : renderHandleSig s.renderer = { s.renderer with dirty := true } := by
      rw [renderHandleSig, if_pos h.handlers]
    refine ⟨_, rfl, ?_, ⟨rfl, fun _ => rfl, hshown.length, hshown.views⟩⟩
    rw [hsignal]
    exact ⟨⟨⟨h.renderer.current, h.renderer.walks⟩, h.array, h.count, h.length, h.clean⟩,
      fun _ hd => absurd hd Bool.true_eq_false.mp, h.handlers⟩

/-- The boards of a new game are there, and show nothing yet. -/
theorem renderInit_screen (names : List (List UInt8)) (size : TerminalSize) {r : Renderer}
    (hr : RendererInv r) :
    ∃ s, Screen.renderInit resizeTerm names size r = .ok s ∧ ScreenInv names s ∧
      (shownStart names size).Matches names s := by
  let fresh : Screen := ⟨{ r with
    nboards := names.length
    boards := some r.arrays.length
    arrays := r.arrays ++ [⟨names, false⟩] }, size, names.map fun _ => none⟩
  have harray : fresh.renderer.arrays[r.arrays.length]? = some ⟨names, false⟩ :=
    List.getElem?_concat_length
  have hfresh : fresh.Playing names := by
    refine ⟨⟨Or.inr ⟨r.arrays.length, ⟨names, false⟩, rfl, ?_, harray, rfl, rfl⟩, hr.walks⟩,
      ⟨r.arrays.length, rfl, harray⟩, rfl, List.length_map _, ?_⟩
    · rw [List.length_append, List.length_singleton]
    · intro board hmem
      obtain ⟨name, -, hnone⟩ := List.mem_map.mp hmem
      exact absurd hnone (Option.some_ne_none board).symm
  -- without a board the layout has nothing to lay out
  have hlayout : ∃ t, Screen.renderRefreshLayout resizeTerm fresh = .ok t ∧ t.Playing names ∧
      (names ≠ [] → t.LaidOut names) ∧ t.size = size := by
    rcases eq_or_ne names [] with rfl | hnames
    · exact ⟨fresh, renderRefreshLayout_nobody resizeTerm rfl, hfresh, fun hne => absurd rfl hne, rfl⟩
    · obtain ⟨t, ht, hplaying, hlaid, hsize, -⟩ := renderRefreshLayout_screen resizeTerm hfresh hnames
      exact ⟨t, ht, hplaying, fun _ => hlaid, hsize⟩
  obtain ⟨t, ht, hplaying, hlaid, hsize⟩ := hlayout
  have hstart : Screen.renderInit resizeTerm names size r =
      .ok { t with renderer := { t.renderer with handlers := true } } := by
    rw [Screen.renderInit, ht, ok_bind]
  refine ⟨_, hstart, ⟨⟨⟨hplaying.renderer.current, hplaying.renderer.walks⟩, hplaying.array, hplaying.count,
    hplaying.length, hplaying.clean⟩, fun hnames _ => ?_, rfl⟩, hsize.symm, fun _ => rfl,
    List.length_map _, ?_⟩
  · exact ⟨(hlaid hnames).tooNarrow, (hlaid hnames).tooShort, (hlaid hnames).placed⟩
  · exact fun i v hv => absurd hv (nothing_shown names i v)

theorem screenRun_shows (h : ScreenInv names s) (hshown : a.Matches names s) (events : List ScreenEvent) :
    ∃ t, run (Screen.screenStep resizeTerm) s events = .ok t ∧ ScreenInv names t ∧
      (events.foldl (shownStep names) a).Matches names t := by
  induction events generalizing s a with
  | nil => exact ⟨s, rfl, h, hshown⟩
  | cons event events ih =>
    obtain ⟨u, hu, hinv, hmatches⟩ := screenStep_shows resizeTerm h hshown event
    obtain ⟨t, ht, hlast⟩ := ih hinv hmatches
    exact ⟨t, (run_cons_ok _ _ hu).trans ht, hlast⟩

end Runs

section Lives

variable (resizeTerm : TerminalSize → Canvas → ℤ × ℤ) {s t : Screen}

/-- The renderer of a screen goes the way of the renderer without the windows. -/
theorem renderRefreshLayout_renderer (h : Screen.renderRefreshLayout resizeTerm s = .ok t) :
    renderRefreshLayout s.size s.renderer = .ok t.renderer ∧ t.size = s.size := by
  rw [Screen.renderRefreshLayout] at h
  obtain ⟨r, hr, h⟩ := bind_eq_ok.mp h
  rw [hr]
  split_ifs at h
  · rw [← Except.ok.inj h]
    exact ⟨rfl, rfl⟩
  · rw [← Except.ok.inj h]
    exact ⟨rfl, rfl⟩
  · rw [← Except.ok.inj h]
    exact ⟨rfl, rfl⟩

theorem drawView_renderer {name : List UInt8} {view : GameViewData}
    (h : Screen.drawView name view s = .ok t) :
    (boardFromName name s.renderer).map Prod.fst = .ok t.renderer ∧ t.size = s.size := by
  obtain ⟨⟨r, found⟩, hr, h⟩ := bind_eq_ok.mp h
  rw [hr]
  cases found with
  | none =>
    rw [← Except.ok.inj h]
    exact ⟨rfl, rfl⟩
  | some i =>
    simp only at h
    split at h
    · rw [← Except.ok.inj h]
      exact ⟨rfl, rfl⟩
    · exact absurd h (by simp)

theorem renderGameViewData_renderer {name : List UInt8} {view : GameViewData}
    (h : Screen.renderGameViewData resizeTerm name view s = .ok t) :
    renderGameViewData name s.size s.renderer = .ok t.renderer ∧ t.size = s.size := by
  obtain ⟨u, hu, h⟩ := bind_eq_ok.mp h
  -- what follows the layout
  have hlookup : (if u.renderer.tooNarrow then .ok u.renderer
      else if u.renderer.tooShort then .ok u.renderer
      else do
        let (r, _) ← boardFromName name u.renderer
        .ok r : Except Fault Renderer) = .ok t.renderer ∧ t.size = u.size := by
    split_ifs at h ⊢
    · rw [Except.ok.inj h]
      exact ⟨rfl, rfl⟩
    · rw [Except.ok.inj h]
      exact ⟨rfl, rfl⟩
    · obtain ⟨hr, hsize⟩ := drawView_renderer h
      obtain ⟨⟨r, found⟩, hfound, hr⟩ := map_eq_ok.mp hr
      rw [hfound, ← hr]
      exact ⟨rfl, hsize⟩
  rw [Screen.refreshed] at hu
  unfold renderGameViewData
  by_cases hdirty : s.renderer.dirty = true
  · rw [if_pos hdirty] at hu ⊢
    obtain ⟨hlayout, hsize⟩ := renderRefreshLayout_renderer resizeTerm hu
    rw [hlayout, ok_bind]
    exact ⟨hlookup.1, hlookup.2.trans hsize⟩
  · rw [if_neg hdirty] at hu ⊢
    rw [Except.ok.inj hu, ok_bind]
    exact hlookup

theorem renderInit_renderer {names : List (List UInt8)} {size : TerminalSize} {r : Renderer}
    (h : Screen.renderInit resizeTerm names size r = .ok s) :
    renderInit names size r = .ok s.renderer ∧ s.size = size := by
  obtain ⟨u, hu, h⟩ := bind_eq_ok.mp h
  obtain ⟨hlayout, hsize⟩ := renderRefreshLayout_renderer resizeTerm hu
  rw [renderInit, ← Except.ok.inj h]
  refine ⟨?_, hsize⟩
  exact (congrArg (· >>= _) hlayout).trans (ok_bind _ _)

/-- What the events of the screen are in the life of the client. -/
def clientEvents : TerminalSize → List ScreenEvent → List ClientEvent
  | _, [] => []
  | size, .view name _ :: events => .board name size :: clientEvents size events
  | _, .signal size :: events => .signal :: clientEvents size events

theorem clientEvents_run {c : ClientProgram} (hlistening : c.listening = true) (events : List ScreenEvent)
    (hs : c.renderer = s.renderer) (h : run (Screen.screenStep resizeTerm) s events = .ok t) :
    ∃ d, run clientStep c (clientEvents s.size events) = .ok d ∧ d.renderer = t.renderer := by
  induction events generalizing s c with
  | nil =>
    rw [run_nil, Except.ok.injEq] at h
    exact ⟨c, rfl, h ▸ hs⟩
  | cons event events ih =>
    obtain ⟨u, hu, hlater⟩ := (run_cons_eq_ok _).mp h
    cases event with
    | view name view =>
      obtain ⟨hr, hsize⟩ := renderGameViewData_renderer resizeTerm hu
      -- the client program walks the array as the screen does
      have hstep : clientStep c (.board name s.size) = .ok { c with renderer := u.renderer } := by
        have hview : ClientEvent.view c (.board name s.size) = some (name, s.size) := if_pos hlistening
        simp only [clientStep, hview]
        rw [hs, hr, ok_bind]
      obtain ⟨d, hd, hlast⟩ := ih (c := { c with renderer := u.renderer }) hlistening rfl hlater
      rw [clientEvents, run_cons_ok _ _ hstep, ← hsize]
      exact ⟨d, hd, hlast⟩
    | signal size =>
      rw [Screen.screenStep, Except.ok.injEq] at hu
      subst hu
      have hstep : clientStep c .signal = .ok { c with renderer := renderHandleSig s.renderer } := by
        rw [clientStep, hs]
      obtain ⟨d, hd, hlast⟩ :=
        ih (c := { c with renderer := renderHandleSig s.renderer }) hlistening rfl hlater
      rw [clientEvents, run_cons_ok _ _ hstep]
      exact ⟨d, hd, hlast⟩

end Lives

section Games

variable (resizeTerm : TerminalSize → Canvas → ℤ × ℤ) {c : ClientProgram}

end Games

/-- A window that fits keeps its size. -/
def keepSize (_ : TerminalSize) (win : Canvas) : ℤ × ℤ := (win.height, win.width)

end TetrisMint
