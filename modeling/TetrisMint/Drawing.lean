import TetrisMint.BoardMessages
import TetrisMint.Painting
import TetrisMint.Renderer

/-! The drawing of a view in `render.c`: what stands in the windows of a board afterwards,
whatever stood there before. -/
namespace TetrisMint

open FallibleRun Painting

/-- A character, or a part of the frame that box draws. -/
inductive Ink
  | char (c : UInt8)
  | hline
  | vline
  | ulcorner
  | urcorner
  | llcorner
  | lrcorner
deriving DecidableEq

/-- What stands at a place of a window: its ink and its color pair. -/
structure Glyph where
  ink : Ink
  pair : ℤ
deriving DecidableEq

/-- A curses window with what stands in it, by row and column. -/
@[ext] structure Canvas where
  height : ℤ
  width : ℤ
  glyphs : ℤ × ℤ → Glyph

section Curses

/-- The place lies in the window. -/
def Canvas.Inside (win : Canvas) (y x : ℤ) : Prop :=
  0 ≤ y ∧ y < win.height ∧ 0 ≤ x ∧ x < win.width

instance (win : Canvas) (y x : ℤ) : Decidable (win.Inside y x) :=
  inferInstanceAs (Decidable (_ ∧ _))

/-- Outside of the window the call fails and has no effect. -/
def mvwaddch (win : Canvas) (y x : ℤ) (c : UInt8) : Canvas :=
  if win.Inside y x then
    { win with glyphs := fun p => if p = (y, x) then ⟨.char c, 0⟩ else win.glyphs p }
  else win

/-- Change the color pair of `n` places, up to the end of the line. -/
def mvwchgat (win : Canvas) (y x n : ℤ) (color : ℤ) : Canvas :=
  if win.Inside y x then
    { win with glyphs := fun p =>
        if p.1 = y ∧ x ≤ p.2 ∧ p.2 < x + n then ⟨(win.glyphs p).ink, color⟩ else win.glyphs p }
  else win

/-- Blank the places from this one to the end of its line. -/
def wclrtoeol (win : Canvas) (y x : ℤ) : Canvas :=
  { win with glyphs := fun p => if p.1 = y ∧ x ≤ p.2 then ⟨.char 32, 0⟩ else win.glyphs p }

/-- A character at the cursor. A newline clears what is left of its line, but the end of a line does
not. -/
def waddch (s : Canvas × ℤ × ℤ) (c : UInt8) : Canvas × ℤ × ℤ :=
  let (win, y, x) := s
  if c = 10 then (wclrtoeol win y x, y + 1, 0)
  else (mvwaddch win y x c, if x + 1 < win.width then (y, x + 1) else (y + 1, 0))

/-- A text from a place of the window on. -/
def mvwprintw (win : Canvas) (y x : ℤ) (text : List UInt8) : Canvas :=
  if win.Inside y x then (text.foldl waddch (win, y, x)).1 else win

/-- The frame around a window of this size. -/
def frame (height width : ℤ) (p : ℤ × ℤ) : Option Ink :=
  if p.1 = 0 then
    some (if p.2 = 0 then .ulcorner else if p.2 = width - 1 then .urcorner else .hline)
  else if p.1 = height - 1 then
    some (if p.2 = 0 then .llcorner else if p.2 = width - 1 then .lrcorner else .hline)
  else if p.2 = 0 ∨ p.2 = width - 1 then some .vline
  else none

/-- `box(win, 0, 0)`. -/
def box (win : Canvas) : Canvas :=
  { win with glyphs := fun p =>
      match frame win.height win.width p with
      | some ink => ⟨ink, 0⟩
      | none => win.glyphs p }

/-- A new window is blank but for its frame. -/
def createNewwin (height width : ℤ) : Canvas := box ⟨height, width, fun _ => ⟨.char 32, 0⟩⟩

end Curses

section Rendering

def renderCell (win : Canvas) (row col : ℤ) (color : ℤ) (isDeathLine : Bool) : Canvas :=
  if color = BlockType.shadow.toInt then
    let win := mvwchgat win (1 + row) (1 + col * cellWidth) cellWidth (-1)
    if cellWidth = 1 then mvwaddch win (1 + row) (1 + col * cellWidth) 35
    else
      let win := mvwaddch win (1 + row) (1 + col * cellWidth) 91
      let win := (List.range' 2 (cellWidth - 2)).foldl
        (fun win (i : ℕ) => mvwaddch win (1 + row) (i + col * cellWidth) 32) win
      mvwaddch win (1 + row) (cellWidth + col * cellWidth) 93
  else
    let win := (List.range' 1 cellWidth).foldl
      (fun win (i : ℕ) => mvwaddch win (1 + row) (i + col * cellWidth) (if isDeathLine then 95 else 32)) win
    mvwchgat win (1 + row) (1 + col * cellWidth) cellWidth color

/-- The size that is looked up is that of the terminal, not of the window. -/
def fillWindow (size : TerminalSize) (win : Canvas) (color : ℤ) : Canvas :=
  (List.range size.rows).foldl (fun win (row : ℕ) => mvwchgat win row 0 size.columns color) win

def getTetrisBlockOffsets (type : BlockType) : Option (List Position) :=
  (availableBlocks.find? fun b => b.type = type).map TetrisBlock.positionOffsets

def rotatePosition (pos : Position) : Rotation → Position
  | .right => ⟨pos.y, -pos.x⟩
  | .invert => ⟨-pos.x, -pos.y⟩
  | .left => ⟨-pos.y, pos.x⟩
  | .none => pos

def renderTetrisPiece (win : Canvas) (piece : BlockType) (rot : Rotation) (pos : Position) : Canvas :=
  match getTetrisBlockOffsets piece with
  | none => win
  | some offsets => offsets.foldl (fun win offset =>
      let cellOffset := rotatePosition offset rot
      renderCell win (pos.y - cellOffset.y) (pos.x + cellOffset.x) piece.toInt false) win

/-- The loops over the cells of the board, and the frame. -/
def renderTetrisWindow (board : Board) (win : Canvas) : Canvas :=
  box ((List.range boardHeight).foldl (fun win (r : ℕ) =>
    (List.range boardWidth).foldl (fun win (c : ℕ) =>
      renderCell win (boardHeight - r - 1) c (board.cell r c) (r = boardPlayHeight)) win) win)

/-- The window of the next block or of the hold block, with its label. -/
def renderBlockWindow (size : TerminalSize) (label : List UInt8) (piece : BlockType) (win : Canvas) :
    Canvas :=
  let win := fillWindow size win 0
  let win := mvwprintw win 1 2 label
  box (renderTetrisPiece win piece .right ⟨1, 2⟩)

end Rendering

section Pictures

/-- What stands in the left or in the right half of a cell. -/
def cellGlyph (color : ℤ) (isDeathLine left : Bool) : Glyph :=
  if color = BlockType.shadow.toInt then ⟨.char (if left then 91 else 93), 0⟩
  else ⟨.char (if isDeathLine then 95 else 32), color⟩

/-- The row and the column in cells of a place of a window. -/
def cellAt (p : ℤ × ℤ) : ℤ × ℤ := (p.1 - 1, (p.2 - 1) / 2)

/-- The place is the left half of its cell. -/
def leftHalf (p : ℤ × ℤ) : Bool := (p.2 - 1) % 2 = 0

/-- The color and the death line of a cell of the window of a board, the bottom row at the bottom. -/
def boardCell (board : Board) (k : ℤ × ℤ) (p : ℤ × ℤ) : Glyph :=
  cellGlyph (board.cell (23 - k.1).toNat k.2.toNat) ((23 - k.1).toNat = boardPlayHeight) (leftHalf p)

/-- The frame of a window of this size, and in it the picture. -/
def framed (height width : ℤ) (picture : ℤ × ℤ → Glyph) (p : ℤ × ℤ) : Glyph :=
  match frame height width p with
  | some ink => ⟨ink, 0⟩
  | none => picture p

def boardPicture (board : Board) : ℤ × ℤ → Glyph := framed 26 22 fun p => boardCell board (cellAt p) p

/-- The character at a place of a text that starts at another. -/
def textAt (text : List UInt8) (y x : ℤ) (p : ℤ × ℤ) : Option UInt8 :=
  if p.1 = y ∧ x ≤ p.2 then text[(p.2 - x).toNat]? else none

/-- The letter of the label at a place. -/
def labelAt (label : List UInt8) : ℤ × ℤ → Option UInt8 := textAt label 1 2

/-- The cells of a window that the piece is drawn in. -/
def pieceCells (piece : BlockType) : List (ℤ × ℤ) :=
  ((getTetrisBlockOffsets piece).getD []).map fun offset =>
    (2 - (rotatePosition offset .right).y, 1 + (rotatePosition offset .right).x)

/-- The picture of the next block or of the hold block. -/
def blockPicture (label : List UInt8) (piece : BlockType) : ℤ × ℤ → Glyph := framed 6 8 fun p =>
  if cellAt p ∈ pieceCells piece then ⟨.char 32, piece.toInt⟩
  else ⟨.char ((labelAt label p).getD 32), 0⟩

/-- The window has this size, and the picture stands in it. -/
structure Pictured (win : Canvas) (height width : ℤ) (picture : ℤ × ℤ → Glyph) : Prop where
  height : win.height = height
  width : win.width = width
  glyphs : ∀ p, win.Inside p.1 p.2 → win.glyphs p = picture p

end Pictures

section Cells

variable {win : Canvas}

@[simp] theorem mvwaddch_height (win : Canvas) (y x : ℤ) (c : UInt8) :
    (mvwaddch win y x c).height = win.height := by
  rw [mvwaddch]
  split_ifs <;> rfl

@[simp] theorem mvwaddch_width (win : Canvas) (y x : ℤ) (c : UInt8) :
    (mvwaddch win y x c).width = win.width := by
  rw [mvwaddch]
  split_ifs <;> rfl

@[simp] theorem mvwchgat_height (win : Canvas) (y x n color : ℤ) :
    (mvwchgat win y x n color).height = win.height := by
  rw [mvwchgat]
  split_ifs <;> rfl

@[simp] theorem mvwchgat_width (win : Canvas) (y x n color : ℤ) :
    (mvwchgat win y x n color).width = win.width := by
  rw [mvwchgat]
  split_ifs <;> rfl

theorem inside_congr {win' : Canvas} (hheight : win'.height = win.height) (hwidth : win'.width = win.width)
    {y x : ℤ} (h : win.Inside y x) : win'.Inside y x := by
  rwa [Canvas.Inside, hheight, hwidth]

theorem mvwaddch_glyphs {y x : ℤ} (h : win.Inside y x) (c : UInt8) (p : ℤ × ℤ) :
    (mvwaddch win y x c).glyphs p = if p = (y, x) then ⟨.char c, 0⟩ else win.glyphs p := by
  rw [mvwaddch, if_pos h]

theorem mvwchgat_glyphs {y x : ℤ} (h : win.Inside y x) (n color : ℤ) (p : ℤ × ℤ) :
    (mvwchgat win y x n color).glyphs p =
      if p.1 = y ∧ x ≤ p.2 ∧ p.2 < x + n then ⟨(win.glyphs p).ink, color⟩ else win.glyphs p := by
  rw [mvwchgat, if_pos h]

/-- The cell lies in the window. -/
def CellInside (win : Canvas) (row col : ℤ) : Prop :=
  0 ≤ row ∧ 1 + row < win.height ∧ 0 ≤ col ∧ 2 + col * 2 < win.width

/-- The two places of a cell. -/
theorem cellAt_eq_iff {p : ℤ × ℤ} {row col : ℤ} : cellAt p = (row, col) ↔
    p = (1 + row, 1 + col * 2) ∨ p = (1 + row, 2 + col * 2) := by
  obtain ⟨y, x⟩ := p
  rw [cellAt, Prod.mk.injEq, Prod.mk.injEq, Prod.mk.injEq]
  omega

theorem leftHalf_left (row col : ℤ) : leftHalf (1 + row, 1 + col * 2) = true := by
  rw [leftHalf, decide_eq_true_iff]
  omega

theorem leftHalf_right (row col : ℤ) : leftHalf (1 + row, 2 + col * 2) = false := by
  rw [leftHalf, decide_eq_false_iff_not]
  omega

/-- A picture of which only the two places of a cell have changed. -/
theorem paint_cell {f g : ℤ × ℤ → Glyph} {row col color : ℤ} {isDeathLine : Bool}
    (hleft : f (1 + row, 1 + col * 2) = cellGlyph color isDeathLine true)
    (hright : f (1 + row, 2 + col * 2) = cellGlyph color isDeathLine false)
    (hother : ∀ p, p ≠ (1 + row, 1 + col * 2) → p ≠ (1 + row, 2 + col * 2) → f p = g p) :
    f = paint (fun p => some (cellAt p)) (fun _ p => cellGlyph color isDeathLine (leftHalf p)) g
      (row, col) := by
  funext p
  by_cases hp : cellAt p = (row, col)
  · rw [paint, if_pos (congrArg some hp)]
    rcases cellAt_eq_iff.mp hp with rfl | rfl
    · rw [hleft, leftHalf_left]
    · rw [hright, leftHalf_right]
  · rw [paint, if_neg fun h => hp (Option.some.inj h)]
    exact hother p (fun h => hp (cellAt_eq_iff.mpr (Or.inl h))) fun h => hp (cellAt_eq_iff.mpr (Or.inr h))

/-- A cell is painted over its own two places. -/
theorem renderCell_eq {row col : ℤ} (h : CellInside win row col) (color : ℤ) (isDeathLine : Bool) :
    renderCell win row col color isDeathLine = { win with
      glyphs := paint (fun p => some (cellAt p))
        (fun _ p => cellGlyph color isDeathLine (leftHalf p)) win.glyphs (row, col) } := by
  obtain ⟨hrow, hheight, hcol, hwidth⟩ := h
  have hcell : cellWidth = 2 := rfl
  have hnone : List.range' 2 (2 - 2) = [] := rfl
  have htwo : List.range' 1 2 = [1, 2] := rfl
  have hleft : win.Inside (1 + row) (1 + col * 2) := ⟨by omega, hheight, by omega, by omega⟩
  have hright : win.Inside (1 + row) (2 + col * 2) := ⟨by omega, hheight, by omega, by omega⟩
  have hne : (1 + row, 1 + col * 2) ≠ (1 + row, 2 + col * 2) := by
    intro heq
    have hx := congrArg Prod.snd heq
    simp only at hx
    omega
  -- the places whose color is changed are the two that get a character
  have hspan (p : ℤ × ℤ) (hl : p ≠ (1 + row, 1 + col * 2)) (hr : p ≠ (1 + row, 2 + col * 2)) :
      ¬(p.1 = 1 + row ∧ 1 + col * 2 ≤ p.2 ∧ p.2 < 1 + col * 2 + 2) := by
    rintro ⟨hy, hx, hx'⟩
    have hplace : p.2 = 1 + col * 2 ∨ p.2 = 2 + col * 2 := by omega
    rcases hplace with hx | hx
    · exact hl (Prod.ext hy hx)
    · exact hr (Prod.ext hy hx)
  by_cases hshadow : color = BlockType.shadow.toInt
  · rw [renderCell, if_pos hshadow, hcell, if_neg (by decide), hnone]
    apply Canvas.ext
    · simp
    · simp
    · simp only [List.foldl_nil, Nat.cast_ofNat]
      apply paint_cell
      · rw [mvwaddch_glyphs (inside_congr (by simp) (by simp) hright), if_neg hne,
          mvwaddch_glyphs (inside_congr (by simp) (by simp) hleft), if_pos rfl, cellGlyph, if_pos hshadow,
          if_pos rfl]
      · rw [mvwaddch_glyphs (inside_congr (by simp) (by simp) hright), if_pos rfl, cellGlyph,
          if_pos hshadow, if_neg Bool.false_ne_true]
      · intro p hl hr
        rw [mvwaddch_glyphs (inside_congr (by simp) (by simp) hright), if_neg hr,
          mvwaddch_glyphs (inside_congr (by simp) (by simp) hleft), if_neg hl, mvwchgat_glyphs hleft,
          if_neg (hspan p hl hr)]
  · have hspanLeft : 1 + row = 1 + row ∧ 1 + col * 2 ≤ 1 + col * 2 ∧ 1 + col * 2 < 1 + col * 2 + 2 := by omega
    have hspanRight : 1 + row = 1 + row ∧ 1 + col * 2 ≤ 2 + col * 2 ∧ 2 + col * 2 < 1 + col * 2 + 2 := by
      omega
    rw [renderCell, if_neg hshadow, hcell, htwo]
    apply Canvas.ext
    · simp
    · simp
    · simp only [List.foldl_cons, List.foldl_nil, Nat.cast_ofNat, Nat.cast_one]
      apply paint_cell
      · rw [mvwchgat_glyphs (inside_congr (by simp) (by simp) hleft), if_pos hspanLeft,
          mvwaddch_glyphs (inside_congr (by simp) (by simp) hright), if_neg hne, mvwaddch_glyphs hleft,
          if_pos rfl, cellGlyph, if_neg hshadow]
      · rw [mvwchgat_glyphs (inside_congr (by simp) (by simp) hleft), if_pos hspanRight,
          mvwaddch_glyphs (inside_congr (by simp) (by simp) hright), if_pos rfl, cellGlyph,
          if_neg hshadow]
      · intro p hl hr
        rw [mvwchgat_glyphs (inside_congr (by simp) (by simp) hleft), if_neg (hspan p hl hr),
          mvwaddch_glyphs (inside_congr (by simp) (by simp) hright), if_neg hr, mvwaddch_glyphs hleft,
          if_neg hl]

/-- Calls that each paint their own part of a window, one after the other. -/
theorem foldl_paints {κ : Type} [DecidableEq κ] {owner : ℤ × ℤ → Option κ} {value : κ → ℤ × ℤ → Glyph}
    {op : Canvas → κ → Canvas} {ks : List κ}
    (hop : ∀ k ∈ ks, ∀ glyphs, op { win with glyphs := glyphs } k =
      { win with glyphs := paint owner value glyphs k }) :
    ks.foldl op win = { win with glyphs := ks.foldl (paint owner value) win.glyphs } := by
  induction ks generalizing win with
  | nil => rfl
  | cons k ks ih =>
    rw [List.forall_mem_cons] at hop
    rw [List.foldl_cons, hop.1 win.glyphs]
    exact ih hop.2

theorem foldl_renderCell (ks : List (ℤ × ℤ)) (color : ℤ × ℤ → ℤ) (isDeathLine : ℤ × ℤ → Bool)
    (hin : ∀ k ∈ ks, CellInside win k.1 k.2) :
    ks.foldl (fun win k => renderCell win k.1 k.2 (color k) (isDeathLine k)) win = { win with
      glyphs := ks.foldl (paint (fun p => some (cellAt p))
        fun k p => cellGlyph (color k) (isDeathLine k) (leftHalf p)) win.glyphs } := by
  apply foldl_paints
  intro k hk glyphs
  have hinside : CellInside { win with glyphs := glyphs } k.1 k.2 := hin k hk
  exact renderCell_eq hinside (color k) (isDeathLine k)

end Cells

section BoardWindow

/-- The cells of the board, in the order in which they are drawn. -/
def boardCells : List (ℤ × ℤ) :=
  (List.range boardHeight).flatMap fun (r : ℕ) =>
    (List.range boardWidth).map fun (c : ℕ) => (23 - (r : ℤ), (c : ℤ))

theorem mem_boardCells {k : ℤ × ℤ} : k ∈ boardCells ↔ 0 ≤ k.1 ∧ k.1 < 24 ∧ 0 ≤ k.2 ∧ k.2 < 10 := by
  rw [boardCells, List.mem_flatMap]
  constructor
  · rintro ⟨r, hr, hk⟩
    obtain ⟨c, hc, rfl⟩ := List.mem_map.mp hk
    have hheight : r < 24 := List.mem_range.mp hr
    have hwidth : c < 10 := List.mem_range.mp hc
    simp only
    omega
  · rintro ⟨hrow, hrow', hcol, hcol'⟩
    have hr : (23 - k.1).toNat < 24 := by omega
    have hc : k.2.toNat < 10 := by omega
    refine ⟨(23 - k.1).toNat, List.mem_range.mpr hr, List.mem_map.mpr ⟨k.2.toNat, List.mem_range.mpr hc, ?_⟩⟩
    apply Prod.ext
    · simp only
      omega
    · exact Int.toNat_of_nonneg hcol

/-- The two loops over the board. -/
theorem renderTetrisWindow_cells (board : Board) (win : Canvas) :
    renderTetrisWindow board win = box (boardCells.foldl (fun win k => renderCell win k.1 k.2
      (board.cell (23 - k.1).toNat k.2.toNat) ((23 - k.1).toNat = boardPlayHeight)) win) := by
  rw [renderTetrisWindow, boardCells, List.foldl_flatMap]
  refine congrArg box (List.foldl_ext _ _ _ ?_)
  intro win r hr
  rw [List.foldl_map]
  have hheight : r < 24 := List.mem_range.mp hr
  have hrow : (boardHeight : ℤ) - r - 1 = 23 - r := by
    change (24 : ℤ) - r - 1 = 23 - r
    ring
  have hback : (23 - (23 - (r : ℤ))).toNat = r := by omega
  simp only [hrow, hback, Int.toNat_natCast]

/-- The places within the frame. -/
theorem frame_eq_none {height width : ℤ} {p : ℤ × ℤ} (h : frame height width p = none) :
    p.1 ≠ 0 ∧ p.1 ≠ height - 1 ∧ p.2 ≠ 0 ∧ p.2 ≠ width - 1 := by
  unfold frame at h
  split_ifs at h with htop hbottom hside
  exact ⟨htop, hbottom, fun h => hside (Or.inl h), fun h => hside (Or.inr h)⟩

/-- Whatever stood in the window, it is the picture of the board now. -/
theorem renderTetrisWindow_eq (board : Board) {win : Canvas} (hheight : win.height = 26)
    (hwidth : win.width = 22) :
    Pictured (renderTetrisWindow board win) 26 22 (boardPicture board) := by
  have hin (k : ℤ × ℤ) (hk : k ∈ boardCells) : CellInside win k.1 k.2 := by
    obtain ⟨hrow, hrow', hcol, hcol'⟩ := mem_boardCells.mp hk
    exact ⟨hrow, by omega, hcol, by omega⟩
  rw [renderTetrisWindow_cells, foldl_renderCell _ _ _ hin]
  refine ⟨hheight, hwidth, ?_⟩
  rintro p ⟨hy, hy', hx, hx'⟩
  simp only [box, hheight, hwidth] at hy' hx'
  simp only [box, boardPicture, framed, hheight, hwidth]
  cases hframe : frame 26 22 p with
  | some ink => rfl
  | none =>
    obtain ⟨htop, hbottom, hleft, hright⟩ := frame_eq_none hframe
    have hmem : cellAt p ∈ boardCells := by
      rw [mem_boardCells, cellAt]
      omega
    exact foldl_paint_of_mem hmem _ rfl

end BoardWindow

section BlockWindows

variable {win : Canvas}

/-- The rows of a window that have been filled. -/
theorem fillRows {columns : ℕ} (hwidth : win.width ≤ columns) (color : ℤ) (n : ℕ) :
    let filled := (List.range n).foldl (fun win (row : ℕ) => mvwchgat win row 0 columns color) win
    filled.height = win.height ∧ filled.width = win.width ∧
      ∀ p, win.Inside p.1 p.2 → filled.glyphs p =
        if p.1 < n then ⟨(win.glyphs p).ink, color⟩ else win.glyphs p := by
  induction n with
  | zero =>
    refine ⟨rfl, rfl, ?_⟩
    rintro p ⟨hy, -⟩
    exact (if_neg (by omega)).symm
  | succ n ih =>
    obtain ⟨hheight, hwidth', hglyphs⟩ := ih
    rw [List.range_succ, List.foldl_append, List.foldl_cons, List.foldl_nil]
    refine ⟨(mvwchgat_height _ _ _ _ _).trans hheight, (mvwchgat_width _ _ _ _ _).trans hwidth', ?_⟩
    rintro p ⟨hy, hy', hx, hx'⟩
    have hold := hglyphs p ⟨hy, hy', hx, hx'⟩
    by_cases hrow : p.1 = n
    · -- the row that is filled now
      have hinside : win.Inside n 0 := ⟨by omega, by omega, le_rfl, by omega⟩
      rw [mvwchgat_glyphs (inside_congr hheight hwidth' hinside), if_pos ⟨hrow, hx, by omega⟩, hold,
        if_neg (by omega), if_pos (by omega)]
    · rw [mvwchgat]
      split_ifs with hinside hlt
      · simp only [hrow, false_and, if_false]
        rw [hold, if_pos (by omega)]
      · simp only [hrow, false_and, if_false]
        rw [hold, if_neg (by omega)]
      · rw [hold, if_pos (by omega)]
      · rw [hold, if_neg (by omega)]

/-- A window in a terminal that is as large is filled as a whole, with what stands in it kept. -/
theorem fillWindow_glyphs {size : TerminalSize} (hheight : win.height ≤ size.rows)
    (hwidth : win.width ≤ size.columns) (color : ℤ) {p : ℤ × ℤ} (hp : win.Inside p.1 p.2) :
    (fillWindow size win color).glyphs p = ⟨(win.glyphs p).ink, color⟩ := by
  obtain ⟨hy, hy', hx, hx'⟩ := hp
  rw [fillWindow, (fillRows hwidth color size.rows).2.2 p ⟨hy, hy', hx, hx'⟩, if_pos (by omega)]

/-- The window with a text over what stands there. -/
def Canvas.printed (win : Canvas) (text : List UInt8) (y x : ℤ) : Canvas :=
  { win with glyphs := fun p =>
      match textAt text y x p with
      | some c => ⟨.char c, 0⟩
      | none => win.glyphs p }

/-- A text that fits in its line is written over whatever stands there. -/
theorem foldl_waddch {text : List UInt8} {y x : ℤ} (hnewline : 10 ∉ text)
    (hinside : win.Inside y x) (hfit : x + text.length ≤ win.width) :
    text.foldl waddch (win, y, x) = (win.printed text y x,
      if x + text.length < win.width then (y, x + text.length) else (y + 1, 0)) := by
  induction text generalizing win x with
  | nil =>
    rw [List.foldl_nil, List.length_nil, Nat.cast_zero, add_zero, if_pos hinside.2.2.2]
    congr 1
    refine Canvas.ext rfl rfl ?_
    funext p
    simp only [Canvas.printed, textAt, List.getElem?_nil, ite_self]
  | cons c text ih =>
    obtain ⟨hy, hy', hx, hx'⟩ := hinside
    rw [List.mem_cons, not_or] at hnewline
    rw [List.length_cons, Nat.cast_add, Nat.cast_one] at hfit
    -- what has been written lies in front of the rest
    have hprinted : (mvwaddch win y x c).printed text y (x + 1) = win.printed (c :: text) y x := by
      refine Canvas.ext (mvwaddch_height ..) (mvwaddch_width ..) ?_
      funext p
      simp only [Canvas.printed, textAt, mvwaddch_glyphs ⟨hy, hy', hx, hx'⟩]
      by_cases hrow : p.1 = y ∧ x + 1 ≤ p.2
      · have hindex : (p.2 - x).toNat = (p.2 - (x + 1)).toNat + 1 := by omega
        have hne : p ≠ (y, x) := by
          intro hp
          rw [hp] at hrow
          omega
        have hlater : p.1 = y ∧ x ≤ p.2 := ⟨hrow.1, by omega⟩
        rw [if_pos hrow, if_pos hlater, hindex, List.getElem?_cons_succ, if_neg hne]
      · rw [if_neg hrow]
        by_cases hp : p = (y, x)
        · subst hp
          simp
        · have hother : ¬(p.1 = y ∧ x ≤ p.2) := by
            rintro ⟨hpy, hpx⟩
            exact hp (Prod.ext hpy (by simp only; omega))
          rw [if_neg hother, if_neg hp]
    rw [List.foldl_cons, waddch, if_neg (Ne.symm hnewline.1)]
    by_cases hmore : x + 1 < win.width
    · rw [if_pos hmore, ih hnewline.2 ⟨hy, by rwa [mvwaddch_height], by omega, by rwa [mvwaddch_width]⟩
        (by rw [mvwaddch_width]; omega), hprinted, mvwaddch_width, List.length_cons, Nat.cast_add,
        Nat.cast_one, add_assoc, add_comm (1 : ℤ)]
    · -- the line ends with this character
      have hnil : text = [] := List.eq_nil_of_length_eq_zero (by omega)
      subst hnil
      rw [if_neg hmore, List.foldl_nil, List.length_singleton, Nat.cast_one, if_neg hmore, ← hprinted]
      congr 1
      refine Canvas.ext rfl rfl ?_
      funext p
      simp only [Canvas.printed, textAt, List.getElem?_nil, ite_self]

/-- A text leaves the lines above its place alone. -/
theorem foldl_waddch_above (text : List UInt8) (y x : ℤ) :
    let printed := (text.foldl waddch (win, y, x)).1
    printed.height = win.height ∧ printed.width = win.width ∧
      ∀ p : ℤ × ℤ, p.1 < y → printed.glyphs p = win.glyphs p := by
  induction text generalizing win y x with
  | nil => exact ⟨rfl, rfl, fun _ _ => rfl⟩
  | cons c text ih =>
    have hstep (p : ℤ × ℤ) (hp : p.1 < y) : (mvwaddch win y x c).glyphs p = win.glyphs p := by
      have hne : p ≠ (y, x) := by
        intro heq
        rw [heq] at hp
        exact lt_irrefl _ hp
      rw [mvwaddch]
      split_ifs
      · exact if_neg hne
      · rfl
    rw [List.foldl_cons, waddch]
    -- a newline clears the rest of its line, and a character fills one place of it
    split_ifs with hnewline hmore
    · obtain ⟨hheight, hwidth, hglyphs⟩ := @ih (wclrtoeol win y x) (y + 1) 0
      refine ⟨hheight, hwidth, ?_⟩
      intro p hp
      rw [hglyphs p (by omega)]
      exact if_neg (by omega)
    · obtain ⟨hheight, hwidth, hglyphs⟩ := @ih (mvwaddch win y x c) y (x + 1)
      refine ⟨hheight.trans (mvwaddch_height ..), hwidth.trans (mvwaddch_width ..), ?_⟩
      exact fun p hp => (hglyphs p hp).trans (hstep p hp)
    · obtain ⟨hheight, hwidth, hglyphs⟩ := @ih (mvwaddch win y x c) (y + 1) 0
      refine ⟨hheight.trans (mvwaddch_height ..), hwidth.trans (mvwaddch_width ..), ?_⟩
      exact fun p hp => (hglyphs p (by omega)).trans (hstep p hp)

/-- A label that fits is written over whatever stands there. -/
theorem mvwprintw_eq {label : List UInt8} (hnewline : 10 ∉ label) (hheight : 1 < win.height)
    (hwidth : 2 + label.length ≤ win.width) (hroom : 2 < win.width) :
    mvwprintw win 1 2 label = win.printed label 1 2 := by
  have hinside : win.Inside 1 2 := ⟨by omega, hheight, by omega, hroom⟩
  rw [mvwprintw, if_pos hinside, foldl_waddch hnewline hinside hwidth]

/-- Nothing stands in the window of a block but its frame and its label, apart from colors. -/
def BlankBehind (label : List UInt8) (win : Canvas) : Prop :=
  ∀ p, frame 6 8 p = none → win.Inside p.1 p.2 → labelAt label p = none → (win.glyphs p).ink = .char 32

theorem createNewwin_blank (label : List UInt8) : BlankBehind label (createNewwin 6 8) := by
  intro p hframe _ _
  simp only [createNewwin, box, hframe]

theorem Pictured.blank {label : List UInt8} {piece : BlockType}
    (h : Pictured win 6 8 (blockPicture label piece)) : BlankBehind label win := by
  intro p hframe hp hl
  rw [h.glyphs p hp, blockPicture, framed, hframe]
  split_ifs
  · rfl
  · simp only [hl, Option.getD_none]

/-- The four cells of every piece are in the window. -/
theorem pieceCells_inside (piece : BlockType) : ∀ k ∈ pieceCells piece,
    0 ≤ k.1 ∧ 1 + k.1 < 6 ∧ 0 ≤ k.2 ∧ 2 + k.2 * 2 < 8 := by
  cases piece <;> decide

theorem renderTetrisPiece_cells (win : Canvas) (piece : BlockType) :
    renderTetrisPiece win piece .right ⟨1, 2⟩ =
      (pieceCells piece).foldl (fun win k => renderCell win k.1 k.2 piece.toInt false) win := by
  rw [renderTetrisPiece, pieceCells]
  cases getTetrisBlockOffsets piece with
  | none => rfl
  | some offsets => rw [Option.getD_some, List.foldl_map]

theorem pieceCells_shadow {piece : BlockType} (h : piece.toInt = BlockType.shadow.toInt) :
    pieceCells piece = [] := by
  cases piece <;> first | rfl | exact absurd h (by decide)

/-- Whatever block the window has shown, it is the picture of this one now. -/
theorem renderBlockWindow_eq {size : TerminalSize} {label : List UInt8} (hlabel : label.length ≤ 6)
    (hnewline : 10 ∉ label) (hrows : 6 ≤ size.rows) (hcolumns : 8 ≤ size.columns)
    (piece : BlockType) (hheight : win.height = 6) (hwidth : win.width = 8)
    (hblank : BlankBehind label win) :
    Pictured (renderBlockWindow size label piece win) 6 8 (blockPicture label piece) := by
  have hfit : win.height ≤ size.rows ∧ win.width ≤ size.columns := by omega
  let filled := fillWindow size win 0
  have hfilled : filled.height = 6 ∧ filled.width = 8 := by
    obtain ⟨hheight', hwidth', -⟩ := @fillRows win size.columns hfit.2 0 size.rows
    exact ⟨hheight'.trans hheight, hwidth'.trans hwidth⟩
  let labelled : Canvas := filled.printed label 1 2
  have hin (k : ℤ × ℤ) (hk : k ∈ pieceCells piece) : CellInside labelled k.1 k.2 := by
    unfold CellInside
    simp only [labelled, Canvas.printed, hfilled.1, hfilled.2]
    exact pieceCells_inside piece k hk
  -- the fill, the label and the cells are painted over one another, and the frame over all
  have hshown : renderBlockWindow size label piece win = box { labelled with
      glyphs := (pieceCells piece).foldl (paint (fun p => some (cellAt p))
        fun _ p => cellGlyph piece.toInt false (leftHalf p)) labelled.glyphs } := by
    rw [renderBlockWindow, mvwprintw_eq hnewline (by rw [hfilled.1]; decide) (by rw [hfilled.2]; omega)
        (by rw [hfilled.2]; decide),
      renderTetrisPiece_cells]
    exact congrArg box (foldl_renderCell _ _ _ hin)
  rw [hshown]
  refine ⟨hfilled.1, hfilled.2, ?_⟩
  intro p hp
  have hold : win.Inside p.1 p.2 :=
    inside_congr (hheight.trans hfilled.1.symm) (hwidth.trans hfilled.2.symm) hp
  simp only [box, blockPicture, framed, labelled, Canvas.printed, hfilled.1, hfilled.2]
  cases hframe : frame 6 8 p with
  | some ink => rfl
  | none =>
    simp only [foldl_paint]
    -- behind the frame a cell of the piece hides the label, and the label what was filled
    by_cases hcell : cellAt p ∈ pieceCells piece
    · have hcolor : piece.toInt ≠ BlockType.shadow.toInt := by
        intro hshadow
        rw [pieceCells_shadow hshadow] at hcell
        exact absurd hcell List.not_mem_nil
      rw [if_pos hcell, if_pos hcell, cellGlyph, if_neg hcolor, if_neg Bool.false_ne_true]
    · rw [if_neg hcell, if_neg hcell]
      have hlabelled : labelAt label p = textAt label 1 2 p := rfl
      rw [hlabelled]
      cases hl : textAt label 1 2 p with
      | some c => rfl
      | none =>
        simp only [Option.getD_none]
        rw [fillWindow_glyphs hfit.1 hfit.2 0 hold, hblank p hframe hold hl]

end BlockWindows

end TetrisMint
