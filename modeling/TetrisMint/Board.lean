import TetrisMint.Pieces

/-! The playing field of `tetris_game.c`: reading, the unit test of `test_block`,
merging a piece and the game-over test. -/
namespace TetrisMint

@[simp] abbrev boardHeight : ℕ := 24

@[simp] abbrev boardPlayHeight : ℕ := 20

@[simp] abbrev boardWidth : ℕ := 10

abbrev Row := Vector ℤ boardWidth

/-- `int board[BOARD_HEIGHT][BOARD_WIDTH]`. -/
abbrev Board := Vector Row boardHeight

/-- What a call can do besides returning: undefined behaviour of the source, or
a loop that never ends. -/
inductive Fault
  | nonterminating
  | outOfBounds
  | nullDereference
  | uninitialised
  | overflow
deriving DecidableEq, Repr

def emptyRow : Row := Vector.replicate boardWidth 0

def emptyBoard : Board := Vector.replicate boardHeight emptyRow

/-- The position lies inside the board. -/
def Position.inside (p : Position) : Prop :=
  0 ≤ p.x ∧ p.x < boardWidth ∧ 0 ≤ p.y ∧ p.y < boardHeight

instance (p : Position) : Decidable p.inside :=
  inferInstanceAs (Decidable (0 ≤ p.x ∧ p.x < boardWidth ∧ 0 ≤ p.y ∧ p.y < boardHeight))

/-- `board[y]`, an empty row outside of the board. -/
def Board.row (b : Board) (y : ℕ) : Row := b.toList.getD y emptyRow

/-- `board[y][x]`, with 0 outside of the board. -/
def Board.cell (b : Board) (y x : ℕ) : ℤ := (b.row y).toList.getD x 0

/-- The cell a position names. -/
def Board.at (b : Board) (p : Position) : ℤ := b.cell p.y.toNat p.x.toNat

/-- The assignment `board[p.y][p.x] = v`, which the source does not guard. -/
def Board.write (b : Board) (p : Position) (v : ℤ) : Except Fault Board :=
  -- outside of the array the assignment is undefined behaviour
  if h : p.inside then
    have hy : p.y.toNat < boardHeight := by
      have := h.2.2
      omega
    have hx : p.x.toNat < boardWidth := by
      have := h.1
      have := h.2.1
      omega
    .ok (b.set p.y.toNat ((b.row p.y.toNat).set p.x.toNat v))
  else .error .outOfBounds

/-- The test of one unit in `test_block`. -/
def Board.unitFree (b : Board) (p : Position) : Bool :=
  decide (0 ≤ p.x) && decide (p.x < boardWidth) && decide (0 ≤ p.y) && decide (p.y < boardHeight) &&
    b.at p == 0

/-- The merge loop of `place_block`. -/
def Board.mergeUnits (b : Board) (v : ℤ) : List Position → Except Fault Board
  | [] => .ok b
  | p :: ps =>
    match b.write p v with
    | .ok b => b.mergeUnits v ps
    | .error e => .error e

/-- `game_over`: 1 when a cell above the playable area is filled. -/
def gameOver (b : Board) : ℤ :=
  if (b.toList.drop boardPlayHeight).any fun r => r.toList.any (· ≠ 0) then 1 else 0

theorem row_eq_getElem (b : Board) {y : ℕ} (hy : y < boardHeight) : b.row y = b[y] := by
  simp [Board.row, List.getD_eq_getElem?_getD, hy]

theorem row_of_ge (b : Board) {y : ℕ} (hy : boardHeight ≤ y) : b.row y = emptyRow := by
  simp only [Board.row, List.getD_eq_getElem?_getD]
  rw [List.getElem?_eq_none (by simpa using hy)]
  rfl

theorem toList_eq_map_row (b : Board) : b.toList = (List.range boardHeight).map b.row := by
  apply List.ext_getElem
  · simp
  · intro y hy _
    have hy' : y < boardHeight := by simpa using hy
    simp [row_eq_getElem b hy']

theorem cell_emptyRow (x : ℕ) : emptyRow.toList.getD x 0 = 0 := by
  simp only [emptyRow, Vector.toList_replicate, List.getD_eq_getElem?_getD, List.getElem?_replicate]
  split <;> rfl

theorem cell_of_width_le (b : Board) (y : ℕ) {x : ℕ} (hx : boardWidth ≤ x) : b.cell y x = 0 := by
  simp only [Board.cell, List.getD_eq_getElem?_getD]
  rw [List.getElem?_eq_none (by simpa using hx)]
  rfl

theorem cell_of_height_le (b : Board) {y : ℕ} (hy : boardHeight ≤ y) (x : ℕ) : b.cell y x = 0 := by
  rw [Board.cell, row_of_ge b hy, cell_emptyRow]

@[simp] theorem cell_emptyBoard (y x : ℕ) : emptyBoard.cell y x = 0 := by
  rcases Nat.lt_or_ge y boardHeight with hy | hy
  · rw [Board.cell, row_eq_getElem _ hy]
    simp only [emptyBoard, Vector.getElem_replicate]
    exact cell_emptyRow x
  · exact cell_of_height_le _ hy x

/-- Boards with the same cells are the same. -/
theorem board_ext {b b' : Board} (h : ∀ y x, y < boardHeight → x < boardWidth →
    b.cell y x = b'.cell y x) : b = b' := by
  apply Vector.ext
  intro y hy
  apply Vector.ext
  intro x hx
  have hh := h y x hy hx
  rw [Board.cell, Board.cell, row_eq_getElem b hy, row_eq_getElem b' hy] at hh
  simpa [List.getD_eq_getElem?_getD, hx] using hh

theorem inside_toNat {p : Position} (h : p.inside) :
    p.y.toNat < boardHeight ∧ p.x.toNat < boardWidth ∧ (p.y.toNat : ℤ) = p.y ∧ (p.x.toNat : ℤ) = p.x := by
  obtain ⟨hx0, hx, hy0, hy⟩ := h
  omega

theorem unitFree_iff (b : Board) (p : Position) : b.unitFree p = true ↔ p.inside ∧ b.at p = 0 := by
  simp [Board.unitFree, Position.inside, and_assoc]

/-- The effect of one assignment: the named cell and no other. -/
theorem cell_write {b b' : Board} {p : Position} {v : ℤ} (h : b.write p v = .ok b') (y x : ℕ) :
    p.inside ∧ b'.cell y x = if p = ⟨x, y⟩ then v else b.cell y x := by
  unfold Board.write at h
  split at h
  case isFalse => exact absurd h (by simp)
  case isTrue hp =>
    refine ⟨hp, ?_⟩
    obtain ⟨hy, hx, hyc, hxc⟩ := inside_toNat hp
    rw [Except.ok.injEq] at h
    subst h
    -- only row `p.y` is written
    have hrow (z : ℕ) : Board.row (b.set p.y.toNat ((b.row p.y.toNat).set p.x.toNat v)) z =
        if p.y.toNat = z then (b.row p.y.toNat).set p.x.toNat v else b.row z := by
      rcases Nat.lt_or_ge z boardHeight with hz | hz
      · rw [row_eq_getElem _ hz, Vector.getElem_set]
        split
        · rfl
        · rw [row_eq_getElem b hz]
      · rw [row_of_ge _ hz, row_of_ge b hz, if_neg (by omega)]
    rw [Board.cell, hrow]
    by_cases hyz : p.y.toNat = y
    · rw [if_pos hyz]
      subst hyz
      simp only [Vector.toList_set, List.getD_eq_getElem?_getD, List.getElem?_set,
        Vector.length_toList]
      by_cases hxz : p.x.toNat = x
      · -- inside the board a position is known by its two indices
        have hpe : p = ⟨(x : ℤ), (p.y.toNat : ℤ)⟩ := by
          cases p
          simp only [Position.mk.injEq] at *
          omega
        rw [if_pos hxz, if_pos hx, if_pos hpe]
        rfl
      · have hpe : p ≠ ⟨(x : ℤ), (p.y.toNat : ℤ)⟩ := by
          intro hh
          have := congrArg Position.x hh
          simp only at this
          omega
        rw [if_neg hxz, if_neg hpe, Board.cell, List.getD_eq_getElem?_getD]
    · have hpe : p ≠ ⟨(x : ℤ), (y : ℤ)⟩ := by
        intro hh
        have := congrArg Position.y hh
        simp only at this
        omega
      rw [if_neg hyz, if_neg hpe, Board.cell]

theorem write_of_inside (b : Board) {p : Position} (v : ℤ) (hp : p.inside) :
    ∃ b', b.write p v = .ok b' := by
  unfold Board.write
  rw [dif_pos hp]
  exact ⟨_, rfl⟩

theorem mergeUnits_of_inside (b : Board) (v : ℤ) {ps : List Position} (hp : ∀ p ∈ ps, p.inside) :
    ∃ b', b.mergeUnits v ps = .ok b' := by
  induction ps generalizing b with
  | nil => exact ⟨b, rfl⟩
  | cons p ps ih =>
    obtain ⟨b', hb'⟩ := write_of_inside b v (hp p (List.mem_cons_self ..))
    obtain ⟨b'', hb''⟩ := ih b' (fun q hq => hp q (List.mem_cons_of_mem p hq))
    exact ⟨b'', by simp only [Board.mergeUnits, hb', hb'']⟩

/-- Merging writes the listed cells, all inside the board, and no others. -/
theorem cell_mergeUnits {b b' : Board} {v : ℤ} {ps : List Position}
    (h : b.mergeUnits v ps = .ok b') :
    (∀ p ∈ ps, p.inside) ∧
      ∀ y x : ℕ, b'.cell y x = if (⟨x, y⟩ : Position) ∈ ps then v else b.cell y x := by
  induction ps generalizing b with
  | nil =>
    rw [Board.mergeUnits, Except.ok.injEq] at h
    simp [h]
  | cons p ps ih =>
    cases hw : b.write p v with
    | error e => simp [Board.mergeUnits, hw] at h
    | ok b₁ =>
      rw [Board.mergeUnits, hw] at h
      obtain ⟨hin, hcell⟩ := ih h
      refine ⟨?_, ?_⟩
      · intro q hq
        rcases List.mem_cons.mp hq with rfl | hq
        · exact (cell_write hw 0 0).1
        · exact hin q hq
      · intro y x
        -- a cell that is written twice gets the same value both times
        rw [hcell y x, (cell_write hw y x).2]
        by_cases hmem : (⟨x, y⟩ : Position) ∈ ps
        · simp [hmem]
        · by_cases hpe : p = ⟨x, y⟩
          · simp [hpe]
          · simp [hmem, hpe, Ne.symm hpe]

/-- The game goes on exactly when the rows above the playable area are empty. -/
theorem gameOver_eq_zero_iff (b : Board) :
    gameOver b = 0 ↔ ∀ y x, boardPlayHeight ≤ y → b.cell y x = 0 := by
  unfold gameOver
  constructor
  · intro h y x hy
    split at h
    case isTrue => exact absurd h (by decide)
    case isFalse hany =>
      rcases Nat.lt_or_ge y boardHeight with hyh | hyh
      · rcases Nat.lt_or_ge x boardWidth with hxw | hxw
        · -- a filled cell of the upper rows would be found by the test
          by_contra hne
          apply hany
          rw [List.any_eq_true]
          refine ⟨b[y], ?_, ?_⟩
          · rw [List.mem_drop_iff_getElem]
            refine ⟨y - boardPlayHeight, by simp only [Vector.length_toList]; omega, ?_⟩
            have hyy : boardPlayHeight + (y - boardPlayHeight) = y := by omega
            simp only [hyy, Vector.getElem_toList]
          · rw [List.any_eq_true]
            refine ⟨b[y][x], by simp, ?_⟩
            rw [Board.cell, row_eq_getElem b hyh] at hne
            simpa [List.getD_eq_getElem?_getD, hxw] using hne
        · exact cell_of_width_le b y hxw
      · exact cell_of_height_le b hyh x
  · intro h
    rw [if_neg]
    intro hany
    obtain ⟨r, hr, hany⟩ := List.any_eq_true.mp hany
    obtain ⟨c, hc, hne⟩ := List.any_eq_true.mp hany
    obtain ⟨i, hi, rfl⟩ := List.mem_drop_iff_getElem.mp hr
    obtain ⟨x, hx, rfl⟩ := List.getElem_of_mem hc
    simp only [Vector.length_toList] at hi hx
    have hcell := h (boardPlayHeight + i) x (by omega)
    rw [Board.cell, row_eq_getElem b (by omega)] at hcell
    simp only [Vector.getElem_toList, ne_eq, decide_eq_true_eq] at hne
    apply hne
    simpa [List.getD_eq_getElem?_getD, hx] using hcell

end TetrisMint
