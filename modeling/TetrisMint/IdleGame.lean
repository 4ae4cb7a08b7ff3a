import TetrisMint.GameView
import TetrisMint.LockDelay
import TetrisMint.ScoreLedger

/-! A game that is left to its clock: forced lower_block calls alone end it. -/
namespace TetrisMint

open FallibleRun

/-- 1 when the row is filled at the wall, in its leftmost column. -/
def wallCell (r : Row) : ℕ := if r.toList.getD 0 0 = 0 then 0 else 1

def wallCells (b : Board) : ℕ := (b.toList.map wallCell).sum

/-- What a placement away from the wall takes four of. Only rows that are filled at the wall
can be cleared, and clearing them does not change the number. -/
def room (b : Board) : ℕ :=
  boardHeight * (boardWidth - 1) + boardWidth * wallCells b - filledCells b

def AwayFromWall (block : ActiveBlock) : Prop := ∀ p ∈ getBlockPositions block, p.x ≠ 0

instance (block : ActiveBlock) : Decidable (AwayFromWall block) :=
  inferInstanceAs (Decidable (∀ p ∈ getBlockPositions block, p.x ≠ 0))

section Rows

/-- A row without its leftmost cell has nine cells. -/
theorem unitsInRow_bounds (r : Row) :
    wallCell r ≤ 1 ∧ wallCell r ≤ unitsInRow r ∧ unitsInRow r ≤ boardWidth - 1 + wallCell r := by
  have hlen : r.toList.length = boardWidth := Vector.length_toList
  rw [unitsInRow, wallCell]
  cases hr : r.toList with
  | nil => exact absurd (hr ▸ hlen) (by decide)
  | cons c cs =>
    rw [hr, List.length_cons] at hlen
    have hcs : cs.countP (fun c => decide (c ≠ 0)) ≤ cs.length := List.countP_le_length
    rw [List.countP_cons, List.getD_cons_zero]
    by_cases hc : c = 0
    · rw [if_pos hc, if_neg (by simp [hc])]
      omega
    · rw [if_neg hc, if_pos (by simp [hc])]
      omega

/-- The bounds of all rows together. -/
theorem filledCells_bounds (b : Board) : wallCells b ≤ boardHeight ∧ wallCells b ≤ filledCells b ∧
    filledCells b ≤ boardHeight * (boardWidth - 1) + wallCells b := by
  have hrows (rows : List Row) : (rows.map wallCell).sum ≤ rows.length ∧
      (rows.map wallCell).sum ≤ (rows.map unitsInRow).sum ∧
      (rows.map unitsInRow).sum ≤ rows.length * (boardWidth - 1) + (rows.map wallCell).sum := by
    induction rows with
    | nil => exact ⟨le_refl _, le_refl _, le_refl _⟩
    | cons r rows ih =>
      have hr := unitsInRow_bounds r
      rw [List.map_cons, List.map_cons, List.sum_cons, List.sum_cons, List.length_cons, Nat.succ_mul]
      omega
  have hb := hrows b.toList
  rwa [Vector.length_toList] at hb

/-- Room for eighteen more cells in each row at most. -/
theorem room_le (b : Board) : room b ≤ 2 * (boardHeight * (boardWidth - 1)) := by
  have hcells := filledCells_bounds b
  simp only [room, boardHeight, boardWidth] at hcells ⊢
  omega

/-- A piece away from the wall leaves the leftmost column alone. -/
theorem wallCells_merge {b b' : Board} {v : ℤ} {ps : List Position} (h : b.mergeUnits v ps = .ok b')
    (haway : ∀ p ∈ ps, p.x ≠ 0) : wallCells b' = wallCells b := by
  have hrow (y : ℕ) : wallCell (b'.row y) = wallCell (b.row y) := by
    have hcell : b'.cell y 0 = b.cell y 0 := by
      rw [(cell_mergeUnits h).2 y 0, if_neg]
      intro hp
      exact haway _ hp rfl
    rw [Board.cell, Board.cell] at hcell
    rw [wallCell, wallCell, hcell]
  rw [wallCells, wallCells, toList_eq_map_row, toList_eq_map_row, List.map_map, List.map_map]
  congr 1
  apply List.map_congr_left
  intro y _
  exact hrow y

/-- A full row is filled at the wall as well. -/
theorem wallCells_cull {b b' : Board} {k : ℕ} (hrows : b'.toList =
    b.toList.filter (fun r => !rowFull r) ++ List.replicate k emptyRow) :
    wallCells b' + b.toList.countP rowFull = wallCells b := by
  have hfull {r : Row} (h : rowFull r = true) : wallCell r = 1 := by
    rw [wallCell, if_neg ((rowFull_iff r).mp h 0 (by decide))]
  have hlist (rows : List Row) : ((rows.filter fun r => !rowFull r).map wallCell).sum +
      rows.countP rowFull = (rows.map wallCell).sum := by
    induction rows with
    | nil => rfl
    | cons r rows ih =>
      rw [List.map_cons, List.sum_cons, ← ih]
      by_cases hr : rowFull r = true
      · rw [List.countP_cons_of_pos hr, List.filter_cons_of_neg (by simp [hr]), hfull hr]
        omega
      · rw [List.countP_cons_of_neg hr, List.filter_cons_of_pos (by simp [hr]), List.map_cons,
          List.sum_cons, Nat.add_assoc]
  have hempty : wallCell emptyRow = 0 := by decide
  rw [wallCells, wallCells, ← hlist b.toList, hrows, List.map_append, List.sum_append,
    List.map_replicate, hempty, List.sum_replicate, smul_zero, Nat.add_zero]

/-- A placement away from the wall takes four cells of room, whatever it clears. -/
theorem room_placement {b B b' : Board} {v : ℤ} {ps : List Position} (hv : v ≠ 0) (hnodup : ps.Nodup)
    (hfour : ps.length = 4) (hfree : ∀ p ∈ ps, b.unitFree p = true) (haway : ∀ p ∈ ps, p.x ≠ 0)
    (hm : b.mergeUnits v ps = .ok B) (hrows : b'.toList = B.toList.filter (fun r => !rowFull r) ++
      List.replicate (B.toList.countP rowFull) emptyRow) : room b' + 4 = room b := by
  have hfilled := filledCells_merge hv hnodup hfree hm
  have hwall := wallCells_merge hm haway
  have hculled := filledCells_cull hrows
  have hwall' := wallCells_cull hrows
  have hbounds := filledCells_bounds b'
  simp only [room, boardHeight, boardWidth] at hculled hbounds ⊢
  omega

end Rows

section Ticks

/-- How many forced calls the active piece can take at most before it is placed: it comes down
from its row, and then it may still rest. -/
def ticksLeft (gc : GameContents) : ℕ :=
  gc.activeBlock.position.y.toNat + (maxAutoLower - gc.autoLowerCount).toNat

/-- A piece away from the wall takes four cells of the room, and comes after at most 27 calls.
The first one may lie anywhere, and counts as if all the room was left behind it. -/
def idleMeasure (gc : GameContents) : ℕ :=
  (if AwayFromWall gc.activeBlock then 7 * room gc.board
    else 7 * (2 * (boardHeight * (boardWidth - 1)) + 4)) + ticksLeft gc

/-- Enough forced calls to end any game. -/
def idleBound : ℕ := 3079

/-- The middle of a piece is one of its units. -/
theorem position_mem {block : ActiveBlock} (h : block.tetrisBlock ∈ availableBlocks) :
    block.position ∈ getBlockPositions block := by
  have horigin : ⟨0, 0⟩ ∈ block.tetrisBlock.positionOffsets := by
    revert h
    generalize block.tetrisBlock = b
    revert b
    decide
  apply List.mem_map.mpr
  refine ⟨⟨0, 0⟩, horigin, ?_⟩
  have hrotate : block.rotation.rotate ⟨0, 0⟩ = ⟨0, 0⟩ := by
    cases block.rotation <;> rfl
  simp only [hrotate, add_zero]

/-- A block that comes straight down is as far from the wall as it was. -/
theorem awayFromWall_moved (block : ActiveBlock) (y : ℤ) :
    AwayFromWall { block with position := ⟨block.position.x, y⟩ } ↔ AwayFromWall block := by
  simp only [AwayFromWall, getBlockPositions, List.forall_mem_map]

theorem awayFromWall_placed {gc : GameContents} {op : Op} {block : ActiveBlock} (hi : EngineInv gc)
    (h : placedBlock gc op = some block) : AwayFromWall block ↔ AwayFromWall gc.activeBlock := by
  cases op with
  | lower forced =>
    simp only [placedBlock] at h
    split_ifs at h
    rw [Option.some.inj h]
  | hardDrop =>
    obtain ⟨b, d, hd, ⟨hb, -⟩, -⟩ := dropBlock_spec gc gc.activeBlock rfl hi.activePiece
    simp only [placedBlock, hd, Except.toOption, Option.some_inj] at h
    rw [← h, hb]
    exact awayFromWall_moved gc.activeBlock _
  | _ => exact absurd h (by simp [placedBlock])

/-- New pieces appear in the middle of the board. -/
theorem awayFromWall_spawn {b : TetrisBlock} (h : b ∈ availableBlocks) :
    AwayFromWall (spawnActiveBlock b) := by
  revert b
  decide

theorem idleMeasure_lt {gc : GameContents} (hi : EngineInv gc) (hcount : 0 ≤ gc.autoLowerCount) :
    idleMeasure gc < idleBound := by
  have hroom := room_le gc.board
  obtain ⟨-, -, -, hy⟩ := hi.unitsInside _ (position_mem hi.activePiece)
  simp only [idleMeasure, ticksLeft, idleBound, maxAutoLower, boardHeight, boardWidth] at hroom hy ⊢
  split_ifs
  · omega
  · omega

section Randomness

variable (randR : RandR)

/-- A call that draws changes nothing that the measure looks at. -/
theorem view_idle {gc : GameContents} (hi : EngineInv gc) :
    ∃ gc', engineStep randR gc .view = .ok gc' ∧ EngineInv gc' ∧ idleMeasure gc' = idleMeasure gc := by
  obtain ⟨r, hr⟩ := view_returns hi
  have hstep : engineStep randR gc .view = .ok r.1 := by
    rw [engineStep, Op.call, hr]
    rfl
  have hsame := view_unshadowed hstep
  refine ⟨r.1, hstep, engineStep_inv randR hi hstep, ?_⟩
  have hmeasure (gc : GameContents) : idleMeasure gc.unshadowed = idleMeasure gc := rfl
  rw [← hmeasure, hsame, hmeasure]

/-- The piece after a placement has less room than the placed one had, or than all of it. -/
theorem respawn_idle {gc : GameContents} {op : Op} {block : ActiveBlock} {B : Board} {s : CullState}
    (hi : EngineInv gc) (hlive : gameOver gc.board = 0) (hblock : placedBlock gc op = some block)
    (hm : gc.board.mergeUnits block.tetrisBlock.type.toInt (getBlockPositions block) = .ok B)
    (hrows : s.board.toList = B.toList.filter (fun r => !rowFull r) ++
      List.replicate (B.toList.countP rowFull) emptyRow) :
    idleMeasure (respawn randR (afterCull (enterPlace gc op block) s)) + 1 ≤ idleMeasure gc := by
  obtain ⟨hpiece, -, hfits⟩ := placed_fits hi hblock
  let spawned := respawn randR (afterCull (enterPlace gc op block) s)
  have haway : AwayFromWall spawned.activeBlock := awayFromWall_spawn hi.nextPiece
  have hticks : ticksLeft spawned = 24 := rfl
  have hmeasure : idleMeasure spawned = 7 * room s.board + 24 := by
    rw [idleMeasure, if_pos haway, hticks]
    rfl
  change idleMeasure spawned + 1 ≤ idleMeasure gc
  rw [hmeasure, idleMeasure]
  split_ifs with hold
  · have hfour : (getBlockPositions block).length = 4 := by
      rw [length_getBlockPositions, cellCount_eq_four hpiece]
    have hroom := room_placement (toInt_ne_zero hpiece) (unitsNodup hpiece) hfour (hfits hlive)
      ((awayFromWall_placed hi hblock).mpr hold) hm hrows
    omega
  · have hroom := room_le s.board
    omega

/-- A call that places the piece ends the game or leaves four cells less for the next ones. -/
theorem placement_idle {gc : GameContents} {op : Op} {block : ActiveBlock} (hi : EngineInv gc)
    (hlive : gameOver gc.board = 0) (hblock : placedBlock gc op = some block) :
    ∃ gc', engineStep randR gc op = .ok gc' ∧
      (gameOver gc'.board ≠ 0 ∨ EngineInv gc' ∧ idleMeasure gc' + 1 ≤ idleMeasure gc) := by
  obtain ⟨B, s, hm, hs, -, -, hrows⟩ := live_placement hi hlive hblock
  have hcall := call_of_placed randR hblock
  rw [placeBlock_eq randR (enterPlace gc op block) hm hs] at hcall
  by_cases hover : gameOver s.board = 0
  · rw [if_neg (not_not.mpr hover)] at hcall
    have hstep := (engineStep_eq_ok randR).mpr ⟨0, hcall⟩
    exact ⟨_, hstep, Or.inr ⟨engineStep_inv randR hi hstep, respawn_idle randR hi hlive hblock hm hrows⟩⟩
  · rw [if_pos hover] at hcall
    exact ⟨_, (engineStep_eq_ok randR).mpr ⟨2, hcall⟩, Or.inl hover⟩

/-- A call to lower_block that places nothing lets the piece fall or rest once more. -/
theorem lower_idle {gc : GameContents} {forced : ℤ} (hi : EngineInv gc)
    (hblock : placedBlock gc (.lower forced) = none) :
    ∃ gc', engineStep randR gc (.lower forced) = .ok gc' ∧
      EngineInv gc' ∧ idleMeasure gc' + 1 ≤ idleMeasure gc := by
  have hlower := lowerBlock_eq randR gc forced
  rw [placedBlock] at hblock
  split_ifs at hblock with hfit hwait
  · -- the piece comes down one row
    rw [if_pos hfit] at hlower
    have hstep : engineStep randR gc (.lower forced) = .ok _ := (engineStep_eq_ok randR).mpr ⟨_, hlower⟩
    have hinv := engineStep_inv randR hi hstep
    refine ⟨_, hstep, hinv, ?_⟩
    obtain ⟨-, -, hy, -⟩ := fits_inside hfit _ (position_mem hinv.activePiece)
    have haway := awayFromWall_moved gc.activeBlock (gc.activeBlock.position.y - 1)
    simp only [loweredBlock] at hy
    simp only [idleMeasure, ticksLeft, loweredBlock, haway]
    omega
  · -- it rests, and there are fewer rests left
    rw [if_neg hfit, if_pos hwait] at hlower
    have hstep : engineStep randR gc (.lower forced) = .ok _ := (engineStep_eq_ok randR).mpr ⟨_, hlower⟩
    refine ⟨_, hstep, engineStep_inv randR hi hstep, ?_⟩
    have hleft := hwait.2
    simp only [idleMeasure, ticksLeft]
    omega

/-- In a game that is on, every call that lowers or drops the piece ends it or takes something
off the measure. -/
theorem straight_idle {gc : GameContents} {op : Op} (hi : EngineInv gc) (hlive : gameOver gc.board = 0)
    (hop : op = .hardDrop ∨ ∃ forced, op = .lower forced) :
    ∃ gc', engineStep randR gc op = .ok gc' ∧
      (gameOver gc'.board ≠ 0 ∨ EngineInv gc' ∧ idleMeasure gc' + 1 ≤ idleMeasure gc) := by
  cases hblock : placedBlock gc op with
  | some block => exact placement_idle randR hi hlive hblock
  | none =>
    rcases hop with rfl | ⟨forced, rfl⟩
    · -- a hard drop always places the piece
      obtain ⟨b, d, hd, -⟩ := dropBlock_spec gc gc.activeBlock rfl hi.activePiece
      exact absurd hblock (by simp [placedBlock, hd, Except.toOption])
    · obtain ⟨gc', hstep, hless⟩ := lower_idle randR hi hblock
      exact ⟨gc', hstep, Or.inr hless⟩

/-- In every state of a run the counter of the rests is not negative. -/
theorem autoLowerCount_nonneg {seed : BitVec 32} {ops : List Op} {gc : GameContents}
    (hrun : run (engineStep randR) (newSeededGame randR seed) ops = .ok gc) :
    0 ≤ gc.autoLowerCount := by
  have hstep (gc : GameContents) (op : Op) (gc' : GameContents) (h : 0 ≤ gc.autoLowerCount)
      (ht : engineStep randR gc op = .ok gc') : 0 ≤ gc'.autoLowerCount := by
    obtain ⟨ret, hcall⟩ := (engineStep_eq_ok randR).mp ht
    rw [(call_counted randR hcall).counter]
    split_ifs <;> omega
  exact @invariant_run _ _ _ (engineStep randR) (fun gc => 0 ≤ gc.autoLowerCount) hstep
    (newSeededGame randR seed) gc ops (le_refl (0 : ℤ)) hrun

end Randomness

end Ticks

variable (randR : RandR)

/-- The loop of player_clock ends: whatever state a game has been played to, as long as it is on,
3079 calls that lower or drop the piece straight down, forced or not, with the game drawn any
number of times between them, lead to a state in which it is over. -/
theorem idle_game_ends (seed : BitVec 32) (ops : List Op) (gc : GameContents)
    (hrun : run (engineStep randR) (newSeededGame randR seed) ops = .ok gc) (more : List Op)
    (hidle : ∀ op ∈ more, op = .view ∨ op = .hardDrop ∨ ∃ forced, op = .lower forced)
    (henough : idleBound ≤ more.countP fun op => !isView op) :
    ∃ gc', Visits (engineStep randR) gc more gc' ∧ gameOver gc'.board ≠ 0 := by
  have hi := reachable_inv randR ⟨seed, ops, hrun⟩
  have hmeasure := idleMeasure_lt hi (autoLowerCount_nonneg randR hrun)
  apply visits_of_measure (engineStep randR) (I := EngineInv) idleMeasure (fun op => !isView op) _ hi
    (lt_of_lt_of_le hmeasure henough)
  intro gc op hop hi hlive
  rw [not_not] at hlive
  by_cases hview : op = .view
  · subst hview
    obtain ⟨gc', hstep, hinv, hsame⟩ := view_idle randR hi
    exact ⟨gc', hstep, Or.inr ⟨hinv, hsame.le⟩⟩
  · obtain ⟨gc', hstep, hless⟩ := straight_idle randR hi hlive ((hidle op hop).resolve_left hview)
    refine ⟨gc', hstep, hless.imp_right fun h => ⟨h.1, ?_⟩⟩
    have hcounts : (!isView op) = true := by simp [isView, hview]
    rw [if_pos hcounts]
    exact h.2

/-- The clock of a new game that nobody plays. -/
theorem idle_game_ends_unplayed : ∃ gc, Visits (engineStep glibcRandR) (newSeededGame glibcRandR 0)
    (List.replicate idleBound (.lower 1)) gc ∧ gameOver gc.board ≠ 0 := by
  apply idle_game_ends glibcRandR 0 [] _ rfl
  · intro op hop
    exact Or.inr (Or.inr ⟨1, List.eq_of_mem_replicate hop⟩)
  · rw [List.countP_replicate, if_pos (by decide)]

end TetrisMint
