import TetrisMint.EngineSpec

/-! The invariant of the engine over all runs, game over or not. -/
namespace TetrisMint

def playableCell (c : ℤ) : Prop := c = 0 ∨ ∃ t ∈ availableBlocks, c = t.type.toInt

/-- What holds of a game between any two engine calls. -/
structure EngineInv (gc : GameContents) : Prop where
  activePiece : gc.activeBlock.tetrisBlock ∈ availableBlocks
  nextPiece : gc.nextBlock ∈ availableBlocks
  holdPiece : gc.holdBlock = tetrisBlockNull ∨ gc.holdBlock ∈ availableBlocks
  unitsInside : UnitsInside gc.activeBlock
  cells : ∀ y x, playableCell (gc.board.cell y x)
  noFullRow : ∀ r ∈ gc.board.toList, rowFull r = false
  liveFits : gameOver gc.board = 0 → Fits gc.board gc.activeBlock

theorem playableCell_ne_shadow {c : ℤ} (h : playableCell c) : c ≠ BlockType.shadow.toInt := by
  rcases h with rfl | ⟨t, ht, rfl⟩
  · decide
  · revert t
    decide

theorem toInt_ne_zero {b : TetrisBlock} (hb : b ∈ availableBlocks) : b.type.toInt ≠ 0 := by
  revert b
  decide

/-- A spawned piece lies inside the board, above the playable area. -/
theorem spawn_above {b : TetrisBlock} (hb : b ∈ availableBlocks) :
    ∀ p ∈ getBlockPositions (spawnActiveBlock b), p.inside ∧ boardPlayHeight ≤ p.y := by
  revert b
  decide

theorem spawn_inside {b : TetrisBlock} (hb : b ∈ availableBlocks) : UnitsInside (spawnActiveBlock b) :=
  fun p hp => (spawn_above hb p hp).1

/-- While the game is on, the rows a piece spawns in are empty. -/
theorem spawn_fits {b : TetrisBlock} (hb : b ∈ availableBlocks) {board : Board}
    (hlive : gameOver board = 0) : Fits board (spawnActiveBlock b) := by
  intro p hp
  obtain ⟨hin, hy⟩ := spawn_above hb p hp
  rw [unitFree_iff]
  refine ⟨hin, (gameOver_eq_zero_iff board).mp hlive _ _ ?_⟩
  obtain ⟨-, -, hyc, -⟩ := inside_toNat hin
  omega

theorem noFullRow_iff (b : Board) : (∀ r ∈ b.toList, rowFull r = false) ↔
    ∀ y, y < boardHeight → ∃ x, x < boardWidth ∧ b.cell y x = 0 := by
  have hrow (y : ℕ) : rowFull (b.row y) = false ↔ ∃ x, x < boardWidth ∧ b.cell y x = 0 := by
    rw [← Bool.not_eq_true, rowFull_iff]
    simp only [not_forall, not_not, exists_prop]
    rfl
  constructor
  · intro h y hy
    exact (hrow y).mp (h _ (by rw [row_eq_getElem b hy]; simp))
  · intro h r hr
    rw [toList_eq_map_row, List.mem_map] at hr
    obtain ⟨y, hy, rfl⟩ := hr
    exact (hrow y).mpr (h y (List.mem_range.mp hy))

/-- Culling only moves rows, so it keeps what holds of every cell. -/
theorem cells_of_cull {b : Board} {s : CullState} {P : ℤ → Prop} (hs : cullLoop b = some s)
    (h0 : P 0) (h : ∀ y x, P (b.cell y x)) (y x : ℕ) : P (s.board.cell y x) := by
  rcases Nat.lt_or_ge y boardHeight with hy | hy
  · have hmem : Board.row s.board y ∈ s.board.toList := by
      rw [row_eq_getElem _ hy]
      simp
    -- a row of the culled board is a row of the board before
    have hb := (cullLoop_rows hs _ hmem).1
    rw [toList_eq_map_row, List.mem_map] at hb
    obtain ⟨z, -, hz⟩ := hb
    have hcell : s.board.cell y x = b.cell z x := by rw [Board.cell, Board.cell, hz]
    exact hcell ▸ h z x
  · rw [cell_of_height_le _ hy]
    exact h0

theorem cells_of_merge {b b' : Board} {v : ℤ} {ps : List Position} {P : ℤ → Prop}
    (hm : b.mergeUnits v ps = .ok b') (hv : P v) (h : ∀ y x, P (b.cell y x)) (y x : ℕ) :
    P (b'.cell y x) := by
  rw [(cell_mergeUnits hm).2 y x]
  split_ifs
  · exact hv
  · exact h y x

theorem enterPlace_inv {gc : GameContents} {op : Op} {block : ActiveBlock}
    (hi : EngineInv gc) (h : placedBlock gc op = some block) :
    block.tetrisBlock = gc.activeBlock.tetrisBlock ∧
      (block = gc.activeBlock ∨ Fits gc.board block) := by
  cases op with
  | lower forced =>
    simp only [placedBlock] at h
    split_ifs at h
    rw [Option.some_inj] at h
    exact ⟨h ▸ rfl, Or.inl h.symm⟩
  | hardDrop =>
    obtain ⟨b, d, hd, ⟨hb, hfit⟩, -⟩ := dropBlock_spec gc gc.activeBlock rfl hi.activePiece
    simp only [placedBlock, hd, Except.toOption, Option.some_inj] at h
    subst h
    refine ⟨by rw [hb], ?_⟩
    -- a block that did not move at all is the active one, which may lie on filled cells
    rcases Nat.eq_zero_or_pos d with rfl | hpos
    · left
      rw [hb]
      simp
    · exact Or.inr (hfit hpos)
  | _ => simp [placedBlock] at h

/-- Inside the board in every state, free while the game is on. -/
theorem placed_fits {gc : GameContents} {op : Op} {block : ActiveBlock} (hi : EngineInv gc)
    (h : placedBlock gc op = some block) :
    block.tetrisBlock ∈ availableBlocks ∧ UnitsInside block ∧
      (gameOver gc.board = 0 → Fits gc.board block) := by
  obtain ⟨hp, hb⟩ := enterPlace_inv hi h
  refine ⟨hp ▸ hi.activePiece, ?_, ?_⟩
  · rcases hb with rfl | hfit
    · exact hi.unitsInside
    · exact fits_inside hfit
  · intro hlive
    rcases hb with rfl | hfit
    · exact hi.liveFits hlive
    · exact hfit

section Randomness
variable (randR : RandR)

theorem moved_inv {gc gc' : GameContents} (hi : EngineInv gc) (h : Moved gc gc') : EngineInv gc' where
  activePiece := by
    rcases h.activeBlock with hb | ⟨hb, -⟩
    · rw [hb]
      exact hi.activePiece
    · rw [hb]
      exact hi.activePiece
  nextPiece := h.nextBlock ▸ hi.nextPiece
  holdPiece := h.holdBlock ▸ hi.holdPiece
  unitsInside := by
    rcases h.activeBlock with hb | ⟨-, hfit⟩
    · rw [hb]
      exact hi.unitsInside
    · exact fits_inside hfit
  cells := h.board ▸ hi.cells
  noFullRow := h.board ▸ hi.noFullRow
  liveFits := by
    intro hlive
    rw [h.board] at hlive ⊢
    rcases h.activeBlock with hb | ⟨-, hfit⟩
    · rw [hb]
      exact hi.liveFits hlive
    · exact hfit

theorem swap_inv {gc : GameContents} (hi : EngineInv gc) : EngineInv (swapHoldBlock randR gc).1 := by
  unfold swapHoldBlock
  split_ifs with hlimit hhold
  · exact hi
  · exact ⟨hi.nextPiece, drawBlock_mem _, Or.inr hi.activePiece, spawn_inside hi.nextPiece,
      hi.cells, hi.noFullRow, fun hlive => spawn_fits hi.nextPiece hlive⟩
  · have hheld : gc.holdBlock ∈ availableBlocks := by
      rcases hi.holdPiece with hnull | hmem
      · exact absurd (by rw [hnull]; rfl) hhold
      · exact hmem
    exact ⟨hheld, hi.nextPiece, Or.inr hi.activePiece, spawn_inside hheld,
      hi.cells, hi.noFullRow, fun hlive => spawn_fits hheld hlive⟩

/-- `place_block` keeps the invariant: culling leaves no full row, and a piece
is spawned only when the spawn rows are empty. -/
theorem place_inv {gc gc' : GameContents} {op : Op} {block : ActiveBlock} {ret : ℤ}
    (hi : EngineInv gc) (hblock : placedBlock gc op = some block)
    (h : placeBlock randR (enterPlace gc op block) = .ok (gc', ret)) : EngineInv gc' := by
  obtain ⟨hpiece, hin, -⟩ := placed_fits hi hblock
  obtain ⟨merged, s, hm, hs, hcase⟩ := placeBlock_returns randR h
  have hplay : ∀ y x, playableCell (s.board.cell y x) :=
    cells_of_cull hs (Or.inl rfl)
      (cells_of_merge hm (Or.inr ⟨block.tetrisBlock, hpiece, rfl⟩) hi.cells)
  have hrows : ∀ r ∈ s.board.toList, rowFull r = false := fun r hr => (cullLoop_rows hs r hr).2
  -- after game over no piece is spawned and the placed one stays active
  rcases hcase with ⟨hover, rfl, -⟩ | ⟨hlive, rfl, -⟩
  · exact ⟨hpiece, hi.nextPiece, hi.holdPiece, hin, hplay, hrows, fun hlive => absurd hlive hover⟩
  · exact ⟨hi.nextPiece, drawBlock_mem _, hi.holdPiece, spawn_inside hi.nextPiece, hplay, hrows,
      fun _ => spawn_fits hi.nextPiece hlive⟩

theorem engineStep_inv {gc gc' : GameContents} {op : Op} (hi : EngineInv gc)
    (h : engineStep randR gc op = .ok gc') : EngineInv gc' := by
  obtain ⟨ret, hcall⟩ := (engineStep_eq_ok randR).mp h
  rcases call_cases randR hi.activePiece hcall with
    ⟨-, hmoved⟩ | ⟨-, -, hswap⟩ | ⟨block, hblock, hplace⟩
  · exact moved_inv hi hmoved
  · have hinv := swap_inv randR hi
    rwa [hswap] at hinv
  · exact place_inv randR hi hblock hplace

theorem newSeededGame_inv (seed : BitVec 32) : EngineInv (newSeededGame randR seed) where
  activePiece := drawBlock_mem _
  nextPiece := drawBlock_mem _
  holdPiece := Or.inl rfl
  unitsInside := spawn_inside (drawBlock_mem _)
  cells := fun y x => Or.inl (cell_emptyBoard y x)
  noFullRow := by
    change ∀ r ∈ emptyBoard.toList, rowFull r = false
    decide
  liveFits := fun hlive => spawn_fits (drawBlock_mem _) hlive

theorem reachable_inv {gc : GameContents} (h : Reachable randR gc) : EngineInv gc := by
  obtain ⟨seed, ops, hrun⟩ := h
  exact FallibleRun.invariant_run _ (fun s op t hi ht => engineStep_inv randR hi ht)
    (newSeededGame_inv randR seed) hrun

theorem unitsNodup {block : ActiveBlock} (h : block.tetrisBlock ∈ availableBlocks) :
    (getBlockPositions block).Nodup := by
  have hn := (rotated_offsets_facts h block.rotation).1
  have heq : getBlockPositions block = (block.tetrisBlock.positionOffsets.map block.rotation.rotate).map
      fun r => ⟨block.position.x + r.x, block.position.y + r.y⟩ := by
    simp [getBlockPositions]
  rw [heq]
  refine hn.map ?_
  -- moving all offsets by one position keeps them apart
  rintro ⟨x, y⟩ ⟨x', y'⟩ hxy
  simp only [Position.mk.injEq] at hxy ⊢
  omega

/-- The engine invariant in every state that a run of calls leads to, calls
after game over included. -/
theorem engine_invariant (seed : BitVec 32) (ops : List Op) (gc : GameContents)
    (h : FallibleRun.run (engineStep randR) (newSeededGame randR seed) ops = .ok gc) :
    (gc.activeBlock.tetrisBlock ∈ availableBlocks ∧ (getBlockPositions gc.activeBlock).length = 4 ∧
      ∀ p ∈ getBlockPositions gc.activeBlock, p.inside) ∧
    (∀ y x, y < boardHeight → x < boardWidth →
      (gc.board.cell y x = 0 ∨ ∃ t ∈ availableBlocks, gc.board.cell y x = t.type.toInt) ∧
        gc.board.cell y x ≠ BlockType.shadow.toInt) ∧
    (∀ y, y < boardHeight → ∃ x, x < boardWidth ∧ gc.board.cell y x = 0) ∧
    (gameOver gc.board = 0 →
      (∀ p ∈ getBlockPositions gc.activeBlock, gc.board.at p = 0) ∧
      ∀ op block, placedBlock gc op = some block →
        (getBlockPositions block).length = 4 ∧ (getBlockPositions block).Nodup ∧
          ∀ p ∈ getBlockPositions block, p.inside ∧ gc.board.at p = 0) := by
  have hi := reachable_inv randR ⟨seed, ops, h⟩
  refine ⟨⟨hi.activePiece, ?_, hi.unitsInside⟩, ?_, (noFullRow_iff gc.board).mp hi.noFullRow, ?_⟩
  · rw [length_getBlockPositions, cellCount_eq_four hi.activePiece]
  · intro y x _ _
    exact ⟨hi.cells y x, playableCell_ne_shadow (hi.cells y x)⟩
  · intro hlive
    -- a piece is only ever placed where it fits, as long as the game is on
    refine ⟨fun p hp => ((unitFree_iff _ p).mp (hi.liveFits hlive p hp)).2, ?_⟩
    intro op block hblock
    obtain ⟨hpiece, -, hfits⟩ := placed_fits hi hblock
    refine ⟨?_, unitsNodup hpiece, fun p hp => (unitFree_iff _ p).mp (hfits hlive p hp)⟩
    rw [length_getBlockPositions, cellCount_eq_four hpiece]

end Randomness

theorem engine_invariant_hero_game :
    ∃ gc, FallibleRun.run (engineStep fun seed => (5, seed))
        (newSeededGame (fun seed => (5, seed)) 0) [.rotate 1, .hardDrop, .swapHold] = .ok gc ∧
      gameOver gc.board = 0 ∧ ∀ p ∈ getBlockPositions gc.activeBlock, p.inside := by
  have hrun : ((FallibleRun.run (engineStep fun seed => (5, seed))
      (newSeededGame (fun seed => (5, seed)) 0) [.rotate 1, .hardDrop, .swapHold]).toOption.any
        fun gc => gameOver gc.board == 0) = true := by decide +kernel
  cases h : FallibleRun.run (engineStep fun seed => (5, seed))
      (newSeededGame (fun seed => (5, seed)) 0) [.rotate 1, .hardDrop, .swapHold] with
  | error e =>
    rw [h] at hrun
    exact absurd hrun (by simp [Except.toOption])
  | ok gc =>
    rw [h] at hrun
    exact ⟨gc, rfl, by simpa [Except.toOption] using hrun, (engine_invariant _ 0 _ gc h).1.2.2⟩

end TetrisMint
