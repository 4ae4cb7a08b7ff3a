import TetrisMint.Rectangles
import TetrisMint.Renderer

/-! The windows of the boards in `render.c`, and where `_render_refresh_layout` puts them. -/
namespace TetrisMint

open FallibleRun Rectangles

/-- A window, by its place on the screen and its size. -/
abbrev Window := Rect

/-- The windows of one entry of `boards`, NULL until the first layout. -/
structure BoardDisplay where
  tetrisWindow : Option Window
  nextBlockWindow : Option Window
  holdBlockWindow : Option Window
  pointsWindow : Option Window
  linesWindow : Option Window
deriving DecidableEq

/-- What the layout calls of curses. `none` is a NULL window or ERR; `resizeTerm` is what
`resize_term` makes of a window that is there. -/
structure Curses where
  resizeTerm : TerminalSize → Window → Window
  newwin : (height width starty startx : ℤ) → Option Window
  wresize : Window → (height width : ℤ) → Option Window
  mvwin : TerminalSize → Window → (starty startx : ℤ) → Option Window

def secondaryWinWidth : ℕ := 8

def BoardDisplay.windows (board : BoardDisplay) : List (Option Window) :=
  [board.tetrisWindow, board.nextBlockWindow, board.holdBlockWindow, board.pointsWindow,
    board.linesWindow]

/-- The cells of the terminal, rows 0..LINES-1 and columns 0..COLS-1. -/
def screen (size : TerminalSize) : Rect := ⟨0, 0, size.rows, size.columns⟩

/-- The window of a successful call; `none` is `exit(EXIT_FAILURE)`. -/
def setWindow (curses : Curses) (size : TerminalSize) (win : Option Window)
    (height width starty startx : ℤ) : Option (Option Window) :=
  match win with
  | none => some (curses.newwin height width starty startx)
  | some win => do
    let win ← curses.wresize win height width
    let win ← curses.mvwin size win starty startx
    some (some win)

def boardMinY (size : TerminalSize) : ℤ :=
  let boardMinY := ((size.rows : ℤ) - boardHeight).tdiv 2
  if boardMinY < 1 then 1 else boardMinY

def windowLowx (panelWidth : ℤ) (i : ℕ) : ℤ :=
  let panelLowx := panelWidth * i
  panelLowx + (panelWidth - boardChWidth - secondaryWinWidth).tdiv 2

/-- The body of the loop for the board `i`. -/
def layoutBoard (curses : Curses) (size : TerminalSize) (panelWidth : ℤ) (i : ℕ)
    (board : BoardDisplay) : Option BoardDisplay := do
  let boardMinY := boardMinY size
  let windowLowx := windowLowx panelWidth i
  let tetrisWindow ← setWindow curses size board.tetrisWindow (boardHeight + 2)
    (boardChWidth + 2) (boardMinY - 1) (windowLowx - 1)
  let secondaryStartX := windowLowx + boardChWidth + 1
  let nextBlockWindow ← setWindow curses size board.nextBlockWindow 6 secondaryWinWidth
    (boardMinY - 1) secondaryStartX
  let holdBlockWindow ← setWindow curses size board.holdBlockWindow 6 secondaryWinWidth
    (boardMinY + 5) secondaryStartX
  let pointsWindow ← setWindow curses size board.pointsWindow 4 secondaryWinWidth
    (boardMinY + 11) secondaryStartX
  let linesWindow ← setWindow curses size board.linesWindow 4 secondaryWinWidth
    (boardMinY + 15) secondaryStartX
  some ⟨tetrisWindow, nextBlockWindow, holdBlockWindow, pointsWindow, linesWindow⟩

/-- The loop over the boards from `i` on. -/
def layoutBoards (curses : Curses) (size : TerminalSize) (panelWidth : ℤ) :
    ℕ → List BoardDisplay → Option (List BoardDisplay)
  | _, [] => some []
  | i, board :: boards => do
    let board ← layoutBoard curses size panelWidth i board
    let boards ← layoutBoards curses size panelWidth (i + 1) boards
    some (board :: boards)

def BoardDisplay.resizeTerm (curses : Curses) (size : TerminalSize) (board : BoardDisplay) :
    BoardDisplay where
  tetrisWindow := board.tetrisWindow.map (curses.resizeTerm size)
  nextBlockWindow := board.nextBlockWindow.map (curses.resizeTerm size)
  holdBlockWindow := board.holdBlockWindow.map (curses.resizeTerm size)
  pointsWindow := board.pointsWindow.map (curses.resizeTerm size)
  linesWindow := board.linesWindow.map (curses.resizeTerm size)

/-- `_render_refresh_layout` with the windows of the boards; `none` where it exits. -/
def renderRefreshWindows (curses : Curses) (size : TerminalSize) (r : Renderer)
    (boards : List BoardDisplay) : Except Fault (Option (Renderer × List BoardDisplay)) := do
  let t ← renderRefreshLayout size r
  if r.nboards = 0 then .ok (some (t, boards))
  else
    -- the windows that are there follow the size of the terminal before they are placed
    let boards := boards.map (BoardDisplay.resizeTerm curses size)
    if t.tooNarrow || t.tooShort then .ok (some (t, boards))
    else
      let panelWidth := size.columns / r.nboards
      .ok ((layoutBoards curses size panelWidth 0 boards).map fun boards => (t, boards))

/-- What curses documents of these calls: a new window is where it was asked for, a
window can be given any size, and it can be moved to where it fits on the screen. -/
structure Curses.Documented (curses : Curses) : Prop where
  newwin : ∀ win : Window, 0 ≤ win.top → 0 ≤ win.left → 0 < win.height → 0 < win.width →
    curses.newwin win.height win.width win.top win.left = some win
  wresize : ∀ (win : Window) (height width : ℤ), 0 < height → 0 < width →
    curses.wresize win height width = some { win with
      height := height
      width := width }
  mvwin : ∀ (size : TerminalSize) (win : Window) (starty startx : ℤ),
    Rect.Within { win with
      top := starty
      left := startx } (screen size) →
    curses.mvwin size win starty startx = some { win with
      top := starty
      left := startx }

/-- The windows of the board `i` of a large enough terminal: the board itself, and to
the right of it a column of four windows. -/
def placedWindows (size : TerminalSize) (panelWidth : ℤ) (i : ℕ) : List Window :=
  let top := boardMinY size
  let left := windowLowx panelWidth i
  let right := left + boardChWidth + 1
  [⟨top - 1, left - 1, boardHeight + 2, boardChWidth + 2⟩, ⟨top - 1, right, 6, secondaryWinWidth⟩,
    ⟨top + 5, right, 6, secondaryWinWidth⟩, ⟨top + 11, right, 4, secondaryWinWidth⟩,
    ⟨top + 15, right, 4, secondaryWinWidth⟩]

section Placement

variable {size : TerminalSize} {panelWidth : ℤ}

/-- The board with its border fits below the first row of the window. -/
theorem boardMinY_bounds (h : terminalTooShort size = false) :
    1 ≤ boardMinY size ∧ boardMinY size + boardHeight + 1 ≤ size.rows := by
  -- the guard for the height, which asks for two rows more than the board has
  have hrows : boardHeight + 2 ≤ size.rows := by
    simpa only [terminalTooShort, decide_eq_false_iff_not, not_lt] using h
  simp only [boardHeight] at hrows
  have hhalf : ((size.rows : ℤ) - boardHeight).tdiv 2 = (size.rows - boardHeight) / 2 := by
    apply Int.tdiv_eq_ediv_of_nonneg
    simp only [boardHeight]
    omega
  simp only [boardMinY, hhalf, boardHeight]
  split_ifs
  · -- too few rows to centre the board: it starts right below the border
    omega
  · omega

/-- Half of what is left of a panel leaves a column on its left for the border of the
board; the border on the right is the first column of the other windows. -/
theorem windowLowx_bounds (h : 30 ≤ panelWidth) (i : ℕ) :
    panelWidth * i + 1 ≤ windowLowx panelWidth i ∧
      windowLowx panelWidth i + boardChWidth + 1 + secondaryWinWidth ≤
        panelWidth * i + panelWidth := by
  -- with ten columns more than the board nothing negative is halved
  have hhalf : (panelWidth - 28).tdiv 2 = (panelWidth - 28) / 2 := by
    apply Int.tdiv_eq_ediv_of_nonneg
    omega
  have hlowx : windowLowx panelWidth i = panelWidth * i + (panelWidth - 28) / 2 := by
    rw [← hhalf, windowLowx]
    congr 2
    show panelWidth - 20 - 8 = panelWidth - 28
    omega
  show _ ∧ windowLowx panelWidth i + 20 + 1 + 8 ≤ _
  rw [hlowx]
  omega

theorem placedWindows_within (hshort : terminalTooShort size = false) (hwidth : 30 ≤ panelWidth)
    (i : ℕ) : ∀ w ∈ placedWindows size panelWidth i, w.Within (strip size.rows panelWidth i) := by
  obtain ⟨htop, hbottom⟩ := boardMinY_bounds hshort
  obtain ⟨hleft, hright⟩ := windowLowx_bounds hwidth i
  simp only [boardHeight, boardChWidth, cellWidth, boardWidth, secondaryWinWidth] at hbottom hright
  simp only [placedWindows, List.forall_mem_cons, List.not_mem_nil, false_imp_iff, implies_true,
    and_true, Rect.Within, strip, boardHeight, boardChWidth, cellWidth, boardWidth, secondaryWinWidth]
  omega

theorem placedWindows_apart (size : TerminalSize) (panelWidth : ℤ) (i : ℕ) :
    (placedWindows size panelWidth i).Pairwise Rect.Apart := by
  simp only [placedWindows, List.pairwise_cons, List.forall_mem_cons, List.not_mem_nil,
    false_imp_iff, implies_true, and_true, List.Pairwise.nil, Rect.Apart, boardHeight, boardChWidth,
    cellWidth, boardWidth, secondaryWinWidth]
  omega

theorem placedWindows_positive (size : TerminalSize) (panelWidth : ℤ) (i : ℕ) :
    ∀ w ∈ placedWindows size panelWidth i, 0 < w.height ∧ 0 < w.width := by
  simp only [placedWindows, List.forall_mem_cons, List.not_mem_nil, false_imp_iff, implies_true,
    and_true, boardHeight, boardChWidth, cellWidth, boardWidth, secondaryWinWidth]
  omega

end Placement

section Layout

variable {curses : Curses} {size : TerminalSize}

/-- A window of the screen is set whether or not it was there before. -/
theorem setWindow_eq (hc : curses.Documented) (win : Option Window) {w : Window}
    (hpos : 0 < w.height ∧ 0 < w.width) (hin : w.Within (screen size)) :
    setWindow curses size win w.height w.width w.top w.left = some (some w) := by
  cases win with
  | none =>
    -- the first layout makes the window
    rw [setWindow, hc.newwin w hin.1.1 hin.2.1 hpos.1 hpos.2]
  | some win =>
    -- later ones give it its size where it is, and then move it
    have hmove := hc.mvwin size { win with
      height := w.height
      width := w.width } w.top w.left hin
    simp only [setWindow, hc.wresize win _ _ hpos.1 hpos.2, hmove, Option.bind_eq_bind,
      Option.bind_some]

theorem layoutBoard_eq (hc : curses.Documented) {panelWidth : ℤ} {i : ℕ} (board : BoardDisplay)
    (hin : ∀ w ∈ placedWindows size panelWidth i, w.Within (screen size)) :
    ∃ placed, layoutBoard curses size panelWidth i board = some placed ∧
      placed.windows = (placedWindows size panelWidth i).map some := by
  -- the five calls, each for the window that is placed there
  have hset : ∀ w ∈ placedWindows size panelWidth i, ∀ win,
      setWindow curses size win w.height w.width w.top w.left = some (some w) := by
    intro w hw win
    exact setWindow_eq hc win (placedWindows_positive size panelWidth i w hw) (hin w hw)
  simp only [placedWindows, List.forall_mem_cons] at hset
  obtain ⟨htetris, hnext, hhold, hpoints, hlines, -⟩ := hset
  refine ⟨⟨some _, some _, some _, some _, some _⟩, ?_, rfl⟩
  simp only [layoutBoard, htetris, hnext, hhold, hpoints, hlines, Option.bind_eq_bind,
    Option.bind_some]

/-- The loop: board by board, from the one with index `i` on. -/
theorem layoutBoards_eq (hc : curses.Documented) {panelWidth : ℤ} {n : ℕ}
    (hin : ∀ i < n, ∀ w ∈ placedWindows size panelWidth i, w.Within (screen size))
    (boards : List BoardDisplay) (i : ℕ) (hi : i + boards.length ≤ n) :
    ∃ placed, layoutBoards curses size panelWidth i boards = some placed ∧
      placed.length = boards.length ∧ placed.flatMap BoardDisplay.windows =
        ((List.range' i boards.length).flatMap (placedWindows size panelWidth)).map some := by
  induction boards generalizing i with
  | nil => exact ⟨[], rfl, rfl, rfl⟩
  | cons board boards ih =>
    rw [List.length_cons] at hi
    obtain ⟨placed, hplaced, hwindows⟩ := layoutBoard_eq hc board (hin i (by omega))
    obtain ⟨rest, hrest, hlength, htail⟩ := ih (i + 1) (by omega)
    refine ⟨placed :: rest, ?_, ?_, ?_⟩
    · rw [layoutBoards, hplaced, Option.bind_eq_bind, Option.bind_some, hrest, Option.bind_eq_bind,
        Option.bind_some]
    · rw [List.length_cons, List.length_cons, hlength]
    · rw [List.length_cons, List.range'_succ, List.flatMap_cons, List.flatMap_cons, List.map_append,
        hwindows, htail]

end Layout

section Refresh

variable {size : TerminalSize} {r t : Renderer}

theorem renderRefreshLayout_flags (hn : r.nboards ≠ 0) (h : renderRefreshLayout size r = .ok t) :
    t.tooNarrow = terminalTooNarrow size r.nboards ∧ t.tooShort = terminalTooShort size := by
  simp only [renderRefreshLayout, if_neg hn] at h
  split_ifs at h
  · rw [← Except.ok.inj h]
    exact ⟨rfl, rfl⟩
  · obtain ⟨_, -, h⟩ := bind_eq_ok.mp h
    rw [← Except.ok.inj h]
    exact ⟨rfl, rfl⟩

theorem renderRefreshLayout_returns (size : TerminalSize)
    (h : Current r.arrays r.boards r.nboards) : ∃ t, renderRefreshLayout size r = .ok t := by
  have hwalk := @walkBoards_current { r with
    tooNarrow := terminalTooNarrow size r.nboards
    tooShort := terminalTooShort size } h
  simp only [renderRefreshLayout, hwalk, ok_bind]
  split_ifs
  · exact ⟨_, rfl⟩
  · exact ⟨_, rfl⟩
  · exact ⟨_, rfl⟩

/-- In a terminal that is wide and high enough all windows lie within the screen. -/
theorem placedWindows_within_screen {n : ℕ} (hnarrow : terminalTooNarrow size n = false)
    (hshort : terminalTooShort size = false) :
    30 ≤ ((size.columns / n : ℕ) : ℤ) ∧ ∀ i < n, ∀ w ∈ placedWindows size (size.columns / n : ℕ) i,
      w.Within (screen size) := by
  have hwidth : boardChWidth + 10 ≤ size.columns / n := by
    simpa only [terminalTooNarrow, decide_eq_false_iff_not, not_lt] using hnarrow
  refine ⟨by exact_mod_cast hwidth, ?_⟩
  intro i hi w hw
  -- within its panel, and the panels divide the width
  apply (placedWindows_within hshort (by exact_mod_cast hwidth) i w hw).trans
  apply strip_within (Nat.cast_nonneg _) hi
  exact_mod_cast Nat.div_mul_le_self size.columns n

/-- Where the part that the renderer keeps returns, so does the whole, and with room for
the windows they are those computed for the boards. -/
theorem renderRefreshWindows_eq {curses : Curses} (hc : curses.Documented) {boards : List BoardDisplay}
    (hboards : boards.length = r.nboards) (hn : r.nboards ≠ 0)
    (ht : renderRefreshLayout size r = .ok t) :
    ∃ placed, renderRefreshWindows curses size r boards = .ok (some (t, placed)) ∧
      (t.tooNarrow = false → t.tooShort = false →
        placed.length = r.nboards ∧ placed.flatMap BoardDisplay.windows =
          ((List.range r.nboards).flatMap
            (placedWindows size (size.columns / r.nboards : ℕ))).map some) := by
  by_cases hsmall : (t.tooNarrow || t.tooShort) = true
  · -- nothing is placed in a small terminal
    refine ⟨boards.map (BoardDisplay.resizeTerm curses size), ?_, ?_⟩
    · simp only [renderRefreshWindows, ht, ok_bind, if_neg hn, hsmall, ↓reduceIte]
    · intro hnarrow hshort
      rw [hnarrow, hshort] at hsmall
      exact absurd hsmall (by decide)
  · obtain ⟨hnarrow, hshort⟩ : t.tooNarrow = false ∧ t.tooShort = false := by
      simpa only [Bool.not_eq_true, Bool.or_eq_false_iff] using hsmall
    obtain ⟨hflag, hflag'⟩ := renderRefreshLayout_flags hn ht
    have hin := (placedWindows_within_screen (hflag ▸ hnarrow) (hflag' ▸ hshort)).2
    obtain ⟨placed, hplaced, hlength, hwindows⟩ := layoutBoards_eq hc hin
      (boards.map (BoardDisplay.resizeTerm curses size)) 0 (by rw [List.length_map]; omega)
    rw [List.length_map, hboards] at hlength hwindows
    refine ⟨placed, ?_, fun _ _ => ⟨hlength, ?_⟩⟩
    · simp only [renderRefreshWindows, ht, ok_bind, if_neg hn, if_neg hsmall, hplaced,
        Option.map_some]
    · rw [hwindows, List.range_eq_range']

/-- Whenever the layout finds the terminal neither too narrow nor too short, all five
windows of every board are there, lie inside of the terminal and share no cell. It does
not exit, and returns unless the pointer to the boards is stale. -/
theorem layout_windows_disjoint {curses : Curses} (hc : curses.Documented) (size : TerminalSize)
    (r : Renderer) (boards : List BoardDisplay) (hboards : boards.length = r.nboards)
    (hn : 1 ≤ r.nboards) :
    (Current r.arrays r.boards r.nboards →
      ∃ t, renderRefreshWindows curses size r boards = .ok (some t)) ∧
    ∀ t, renderRefreshWindows curses size r boards = .ok t →
      ∃ t' placed, t = some (t', placed) ∧ (t'.tooNarrow = false → t'.tooShort = false →
        placed.length = r.nboards ∧
        ∃ windows : List Window, placed.flatMap BoardDisplay.windows = windows.map some ∧
          windows.length = 5 * r.nboards ∧
          (∀ w ∈ windows, w.cells.Nonempty ∧ w.cells ⊆ (screen size).cells) ∧
          windows.Pairwise fun v w => v.cells ∩ w.cells = ∅) := by
  have hn' : r.nboards ≠ 0 := Nat.one_le_iff_ne_zero.mp hn
  constructor
  · intro hcurrent
    obtain ⟨t, ht⟩ := renderRefreshLayout_returns size hcurrent
    obtain ⟨placed, hplaced, -⟩ := renderRefreshWindows_eq hc hboards hn' ht
    exact ⟨(t, placed), hplaced⟩
  · intro t ht
    obtain ⟨t', ht', -⟩ := bind_eq_ok.mp ht
    obtain ⟨placed, hplaced, hwindows⟩ := renderRefreshWindows_eq hc hboards hn' ht'
    refine ⟨t', placed, ?_, ?_⟩
    · rw [ht] at hplaced
      exact Except.ok.inj hplaced
    intro hnarrow hshort
    obtain ⟨hflag, hflag'⟩ := renderRefreshLayout_flags hn' ht'
    -- the flags are those of this terminal, so its size has room for the windows
    obtain ⟨hwidth, hin⟩ := placedWindows_within_screen (hflag ▸ hnarrow) (hflag' ▸ hshort)
    obtain ⟨hlength, hflat⟩ := hwindows hnarrow hshort
    refine ⟨hlength, (List.range r.nboards).flatMap
      (placedWindows size (size.columns / r.nboards : ℕ)), hflat, ?_, ?_, ?_⟩
    · rw [List.length_flatMap]
      simp [placedWindows, Nat.mul_comm]
    · intro w hw
      obtain ⟨i, hi, hw⟩ := List.mem_flatMap.mp hw
      obtain ⟨hheight, hwidth⟩ := placedWindows_positive _ _ i w hw
      exact ⟨Rect.cells_nonempty hheight hwidth, (hin i (List.mem_range.mp hi) w hw).cells_subset⟩
    · -- each board has a strip of the screen for itself
      apply (pairwise_apart_strips r.nboards (Nat.cast_nonneg _)
        (placedWindows_within (hflag' ▸ hshort) hwidth) (placedWindows_apart size _)).imp
      exact Rect.Apart.inter_eq_empty

end Refresh

/-- These calls as they act on the windows of one terminal. -/
def manualCurses : Curses where
  resizeTerm _ win := win
  newwin height width starty startx :=
    if 0 ≤ starty ∧ 0 ≤ startx ∧ 0 < height ∧ 0 < width then some ⟨starty, startx, height, width⟩
    else none
  wresize win height width :=
    if 0 < height ∧ 0 < width then
      some { win with
        height := height
        width := width }
    else none
  mvwin size win starty startx :=
    let moved : Window := { win with
      top := starty
      left := startx }
    if moved.Within (screen size) then some moved else none

theorem manualCurses_documented : manualCurses.Documented where
  newwin _ htop hleft hheight hwidth := if_pos ⟨htop, hleft, hheight, hwidth⟩
  wresize _ _ _ hheight hwidth := if_pos ⟨hheight, hwidth⟩
  mvwin _ _ _ _ hin := if_pos hin

/-- The renderer of a game of two, before its first layout. -/
def gameOfTwo : Renderer :=
  ⟨some 0, 2, true, false, false, false, [⟨[[65], [66]], false⟩], []⟩

/-- The first layout of a game of two in a terminal of 30 rows and 80 columns. -/
theorem layout_game_of_two : ∃ t placed, ∃ windows : List Window,
    renderRefreshWindows manualCurses ⟨30, 80⟩ gameOfTwo
        (List.replicate 2 ⟨none, none, none, none, none⟩) = .ok (some (t, placed)) ∧
      placed.flatMap BoardDisplay.windows = windows.map some ∧ windows.length = 10 ∧
      (∀ w ∈ windows, w.cells ⊆ (screen ⟨30, 80⟩).cells) ∧
      windows.Pairwise fun v w => v.cells ∩ w.cells = ∅ := by
  obtain ⟨t, placed, ht, hnarrow, hshort⟩ : ∃ t placed,
      renderRefreshWindows manualCurses ⟨30, 80⟩ gameOfTwo
          (List.replicate 2 ⟨none, none, none, none, none⟩) = .ok (some (t, placed)) ∧
        t.tooNarrow = false ∧ t.tooShort = false := ⟨_, _, rfl, rfl, rfl⟩
  obtain ⟨t', placed', heq, hwindows⟩ := (layout_windows_disjoint manualCurses_documented ⟨30, 80⟩
    gameOfTwo (List.replicate 2 ⟨none, none, none, none, none⟩) rfl (by decide)).2 _ ht
  obtain ⟨rfl, rfl⟩ := Prod.mk.inj (Option.some.inj heq)
  obtain ⟨-, windows, hflat, hlength, hin, hshared⟩ := hwindows hnarrow hshort
  exact ⟨t, placed, windows, ht, hflat, hlength, fun w hw => (hin w hw).2, hshared⟩

end TetrisMint
