import TetrisMint.NumberWindows

/-! What can be told apart on the screen in the colors of `render_init`: blue and cleve have one
background, so that cells of the two look the same wherever they are blank. -/
namespace TetrisMint

inductive Color
  | red
  | green
  | yellow
  | blue
  | magenta
  | cyan
  | white
deriving DecidableEq

/-- The foreground and the background of the color pairs of `render_init`. Pair 0 is not one that
init_pair can change, so it keeps the colors of the terminal. -/
def initPairs : BlockType → Option (Color × Color)
  | .noType => none
  | .shadow => some (.cyan, .cyan)
  | .orange => some (.red, .red)
  | .blue => some (.blue, .green)
  | .cleve => some (.green, .green)
  | .rhode => some (.yellow, .yellow)
  | .teewee => some (.magenta, .magenta)
  | .hero => some (.cyan, .cyan)
  | .smashboy => some (.white, .white)

/-- What is seen at a place. No color stands for one of the terminal, which is taken to be none of
these. -/
structure Look where
  mark : Option (Ink × Option Color)
  background : Option Color
deriving DecidableEq

/-- Ink in the color of its background is not seen. -/
def Glyph.look (g : Glyph) : Look :=
  match (blockTypeOfInt g.pair).bind initPairs with
  | none => ⟨if g.ink = .char 32 then none else some (g.ink, none), none⟩
  | some (foreground, background) =>
    ⟨if g.ink = .char 32 ∨ foreground = background then none else some (g.ink, some foreground),
      some background⟩

/-- Two windows of one size in which the same is seen. -/
def Canvas.LooksLike (win win' : Canvas) : Prop :=
  ∀ p : ℤ × ℤ, win.Inside p.1 p.2 → (win.glyphs p).look = (win'.glyphs p).look

/-- The color of a cell as it is seen: a blank one is only its background. -/
def seenColor (isDeathLine : Bool) (t : BlockType) : BlockType :=
  if isDeathLine = false ∧ t = .blue then .cleve else t

/-- The block as it is seen in its window, where no shadow is drawn. -/
def seenBlock (piece : BlockType) : BlockType := if piece = .shadow then .noType else piece

/-- The cells of the board hold enumerators, for which there are color pairs. -/
def TypedBoard (board : Board) : Prop :=
  ∀ y < boardHeight, ∀ x < boardWidth, ∃ t : BlockType, board.cell y x = t.toInt

/-- The same colors are seen in all cells. -/
def SameCells (board board' : Board) : Prop :=
  ∀ y < boardHeight, ∀ x < boardWidth, ∀ t t' : BlockType, board.cell y x = t.toInt →
    board'.cell y x = t'.toInt →
      seenColor (y = boardPlayHeight) t = seenColor (y = boardPlayHeight) t'

section Boards

/-- Blue and cleve cells look the same off the death line, and no other two colors do. -/
theorem cellGlyph_look_iff (t t' : BlockType) (isDeathLine left : Bool) :
    (cellGlyph t.toInt isDeathLine left).look = (cellGlyph t'.toInt isDeathLine left).look ↔
      seenColor isDeathLine t = seenColor isDeathLine t' := by
  cases t <;> cases t' <;> cases isDeathLine <;> cases left <;> decide

variable {board board' : Board}

/-- The board can be read off what is seen of its picture, as far as the colors can be told apart. -/
theorem boardPicture_look_iff (h : TypedBoard board) (h' : TypedBoard board') :
    (∀ p : ℤ × ℤ, 0 ≤ p.1 → p.1 < 26 → 0 ≤ p.2 → p.2 < 22 →
      (boardPicture board p).look = (boardPicture board' p).look) ↔ SameCells board board' := by
  constructor
  · intro hlook y hy x hx t t' ht ht'
    have hy' : y < 24 := hy
    have hx' : x < 10 := hx
    -- the left half of the cell tells its color
    have hp := hlook (24 - y, 1 + x * 2) (by simp only; omega) (by simp only; omega)
      (by simp only; omega) (by simp only; omega)
    have hframe : frame 26 22 (24 - (y : ℤ), 1 + (x : ℤ) * 2) = none := by
      unfold frame
      simp only
      rw [if_neg (by omega), if_neg (by omega), if_neg (by omega)]
    have hcell : cellAt (24 - (y : ℤ), 1 + (x : ℤ) * 2) = (23 - (y : ℤ), (x : ℤ)) := by
      apply Prod.ext
      · simp only [cellAt]
        omega
      · simp only [cellAt]
        omega
    have hback : (23 - (23 - (y : ℤ))).toNat = y := by omega
    simp only [boardPicture, framed, hframe, boardCell, hcell, hback, Int.toNat_natCast, ht, ht'] at hp
    exact (cellGlyph_look_iff t t' _ _).mp hp
  · intro hsame p hy hy' hx hx'
    rw [boardPicture, boardPicture, framed, framed]
    cases hframe : frame 26 22 p with
    | some ink => rfl
    | none =>
      -- inside of the frame every place lies in a cell of the board
      obtain ⟨htop, hbottom, hleft, hright⟩ := frame_eq_none hframe
      have hrow : (23 - (cellAt p).1).toNat < boardHeight := by
        change (23 - (p.1 - 1)).toNat < 24
        omega
      have hcolumn : (cellAt p).2.toNat < boardWidth := by
        change ((p.2 - 1) / 2).toNat < 10
        omega
      obtain ⟨t, ht⟩ := h _ hrow _ hcolumn
      obtain ⟨t', ht'⟩ := h' _ hrow _ hcolumn
      simp only [boardCell, ht, ht']
      exact (cellGlyph_look_iff t t' _ _).mpr (hsame _ hrow _ hcolumn t t' ht ht')

end Boards

section Blocks

variable {label : List UInt8}

/-- The background of the block's color, at a place that all blocks have and at one that blue and
cleve differ in. -/
theorem blockPicture_background (label : List UInt8) (t : BlockType) :
    (blockPicture label t (3, 3)).look.background = (initPairs (seenBlock t)).map Prod.snd ∧
      (blockPicture label t (3, 5)).look.background =
        if (2, 2) ∈ pieceCells t then (initPairs (seenBlock t)).map Prod.snd else none := by
  cases t <;> exact ⟨rfl, rfl⟩

theorem seenBlock_eq_of_background (t t' : BlockType)
    (hmiddle : (initPairs (seenBlock t)).map Prod.snd = (initPairs (seenBlock t')).map Prod.snd)
    (hright : (if (2, 2) ∈ pieceCells t then (initPairs (seenBlock t)).map Prod.snd else none) =
      if (2, 2) ∈ pieceCells t' then (initPairs (seenBlock t')).map Prod.snd else none) :
    seenBlock t = seenBlock t' := by
  revert hmiddle hright
  cases t <;> cases t' <;> decide

/-- The block can be read off what is seen of its picture. -/
theorem blockPicture_look_iff (piece piece' : BlockType) :
    (∀ p : ℤ × ℤ, 0 ≤ p.1 → p.1 < 6 → 0 ≤ p.2 → p.2 < 8 →
      (blockPicture label piece p).look = (blockPicture label piece' p).look) ↔
      seenBlock piece = seenBlock piece' := by
  constructor
  · intro h
    obtain ⟨hmiddle, hright⟩ := blockPicture_background label piece
    obtain ⟨hmiddle', hright'⟩ := blockPicture_background label piece'
    have hsame := congrArg Look.background (h (3, 3) (by decide) (by decide) (by decide) (by decide))
    have hother := congrArg Look.background (h (3, 5) (by decide) (by decide) (by decide) (by decide))
    rw [hmiddle, hmiddle'] at hsame
    rw [hright, hright'] at hother
    exact seenBlock_eq_of_background piece piece' hsame hother
  · intro hsame p _ _ _ _
    rcases eq_or_ne piece piece' with rfl | hne
    · rfl
    · -- neither of the two is drawn
      have hnone : pieceCells piece = [] ∧ pieceCells piece' = [] := by
        revert hsame hne
        cases piece <;> cases piece' <;> decide
      simp only [blockPicture, hnone.1, hnone.2, List.not_mem_nil, if_false]

end Blocks

end TetrisMint
