import TetrisMint.IntCounters

/-! Line clearing while the game is on: what a placement leaves of the board. -/
namespace TetrisMint

open FallibleRun

/-- A merged row is filled by the old row and the block together. -/
theorem merged_cell_ne_zero {b b' : Board} {v : ℤ} {ps : List Position}
    (hm : b.mergeUnits v ps = .ok b') {y x : ℕ} (h : b'.cell y x ≠ 0) :
    b.cell y x ≠ 0 ∨ (⟨x, y⟩ : Position) ∈ ps := by
  rw [(cell_mergeUnits hm).2] at h
  split_ifs at h with hmem
  · exact Or.inr hmem
  · exact Or.inl h

/-- Four units cannot fill an empty row. -/
theorem not_row_of_four {ps : List Position} (hlen : ps.length = 4) (y : ℕ) :
    ∃ x : ℕ, x < boardWidth ∧ (⟨x, y⟩ : Position) ∉ ps := by
  by_contra hall
  push Not at hall
  let row : List Position := (List.range boardWidth).map fun x : ℕ => ⟨x, y⟩
  have hnodup : row.Nodup := by
    refine List.nodup_range.map ?_
    intro x x' h
    have := congrArg Position.x h
    simp only at this
    omega
  have hsub : row ⊆ ps := by
    intro p hp
    obtain ⟨x, hx, rfl⟩ := List.mem_map.mp hp
    exact hall x (List.mem_range.mp hx)
  -- ten different positions do not fit among four
  have hle := (hnodup.subperm hsub).length_le
  simp only [row, List.length_map, List.length_range, boardWidth] at hle
  omega

theorem rowFull_row_iff (b : Board) (y : ℕ) :
    rowFull (b.row y) = true ↔ ∀ x, x < boardWidth → b.cell y x ≠ 0 := rowFull_iff (b.row y)

/-- Units of one piece are at most three rows apart. -/
theorem units_span {block : ActiveBlock} (hpiece : block.tetrisBlock ∈ availableBlocks)
    {p p' : Position} (hp : p ∈ getBlockPositions block) (hp' : p' ∈ getBlockPositions block) :
    p.y - p'.y ≤ 3 := by
  obtain ⟨o, ho, rfl⟩ := List.mem_map.mp hp
  obtain ⟨o', ho', rfl⟩ := List.mem_map.mp hp'
  have := (rotated_offsets_facts hpiece block.rotation).2 _ (List.mem_map_of_mem ho)
    _ (List.mem_map_of_mem ho')
  simp only
  omega

section Merged
variable {gc : GameContents} {block : ActiveBlock} {merged : Board}

/-- A row that a placement fills holds a unit of the placed block. -/
theorem unit_in_full_row (hi : EngineInv gc)
    (hm : gc.board.mergeUnits block.tetrisBlock.type.toInt (getBlockPositions block) = .ok merged)
    {y : ℕ} (hy : y < boardHeight) (hfull : rowFull (merged.row y) = true) :
    ∃ p ∈ getBlockPositions block, p.y = y := by
  -- before the placement the row had an empty cell, so the block has filled it
  obtain ⟨x, hx, hzero⟩ := (noFullRow_iff gc.board).mp hi.noFullRow y hy
  have hne := (rowFull_row_iff merged y).mp hfull x hx
  exact ⟨_, (merged_cell_ne_zero hm hne).resolve_left (fun h => h hzero), rfl⟩

/-- While the game is on no placement fills a row above the playable area. -/
theorem full_row_below (hpiece : block.tetrisBlock ∈ availableBlocks) (hlive : gameOver gc.board = 0)
    (hm : gc.board.mergeUnits block.tetrisBlock.type.toInt (getBlockPositions block) = .ok merged)
    {y : ℕ} (hfull : rowFull (merged.row y) = true) : y < boardPlayHeight := by
  by_contra hge
  have hlen : (getBlockPositions block).length = 4 := by
    rw [length_getBlockPositions, cellCount_eq_four hpiece]
  obtain ⟨x, hx, hout⟩ := not_row_of_four hlen y
  have hne := (rowFull_row_iff merged y).mp hfull x hx
  have hzero := (gameOver_eq_zero_iff gc.board).mp hlive y x (by omega)
  exact hout ((merged_cell_ne_zero hm hne).resolve_left (fun h => h hzero))

/-- A piece that completes a row below the top does not reach the top row. -/
theorem top_row_empty (hi : EngineInv gc) (hpiece : block.tetrisBlock ∈ availableBlocks)
    (hlive : gameOver gc.board = 0)
    (hm : gc.board.mergeUnits block.tetrisBlock.type.toInt (getBlockPositions block) = .ok merged)
    {y : ℕ} (hy : y < boardHeight) (hfull : rowFull (merged.row y) = true) :
    Board.row merged (boardHeight - 1) = emptyRow := by
  obtain ⟨p, hp, hpy⟩ := unit_in_full_row hi hm hy hfull
  have hyplay := full_row_below hpiece hlive hm hfull
  have hzero (x : ℕ) : merged.cell (boardHeight - 1) x = 0 := by
    by_contra hne
    have hold := (gameOver_eq_zero_iff gc.board).mp hlive (boardHeight - 1) x (by decide)
    have hmem := (merged_cell_ne_zero hm hne).resolve_left (fun h => h hold)
    -- a unit in the top row would be more than three rows above the one in the full row
    have hspan := units_span hpiece hmem hp
    simp only [boardHeight, boardPlayHeight] at hspan hyplay
    omega
  apply Vector.ext
  intro x hx
  have hcell := hzero x
  simp only [Board.cell, List.getD_eq_getElem?_getD] at hcell
  rw [List.getElem?_eq_getElem (by simpa using hx)] at hcell
  simpa [emptyRow] using hcell

theorem countP_rows (b : Board) :
    b.toList.countP rowFull = ((List.range boardHeight).filter fun y => rowFull (b.row y)).length := by
  rw [toList_eq_map_row, List.countP_map, List.countP_eq_length_filter]
  rfl

/-- One placement completes at most four rows. -/
theorem full_rows_le_four (hi : EngineInv gc) (hpiece : block.tetrisBlock ∈ availableBlocks)
    (hm : gc.board.mergeUnits block.tetrisBlock.type.toInt (getBlockPositions block) = .ok merged) :
    merged.toList.countP rowFull ≤ 4 := by
  -- each full row holds one of the four units
  let ys := (List.range boardHeight).filter fun y => rowFull (merged.row y)
  have hnodup : ys.Nodup := List.nodup_range.filter _
  have hsub : ys ⊆ (getBlockPositions block).map fun p => p.y.toNat := by
    intro y hy
    obtain ⟨hrange, hfull⟩ := List.mem_filter.mp hy
    obtain ⟨p, hp, hpy⟩ := unit_in_full_row hi hm (List.mem_range.mp hrange) hfull
    exact List.mem_map.mpr ⟨p, hp, by omega⟩
  have hle := (hnodup.subperm hsub).length_le
  rw [List.length_map, length_getBlockPositions, cellCount_eq_four hpiece] at hle
  rw [countP_rows]
  exact hle

/-- What culling leaves of a placement in a game that is on: the rows that are
not full under as many empty rows as were full, at most four. -/
theorem live_placement {op : Op} (hi : EngineInv gc) (hlive : gameOver gc.board = 0)
    (hblock : placedBlock gc op = some block) :
    ∃ (B : Board) (s : CullState),
      gc.board.mergeUnits block.tetrisBlock.type.toInt (getBlockPositions block) = .ok B ∧
      cullLoop B = some s ∧ s.linesCulled = B.toList.countP rowFull ∧ s.linesCulled ≤ 4 ∧
      s.board.toList = B.toList.filter (fun r => !rowFull r) ++
        List.replicate (B.toList.countP rowFull) emptyRow := by
  obtain ⟨hpiece, hin, -⟩ := placed_fits hi hblock
  obtain ⟨B, hm⟩ := mergeUnits_of_inside gc.board block.tetrisBlock.type.toInt hin
  have htop : rowFull (Board.row B (boardHeight - 1)) = false := by
    by_contra hfull
    have := full_row_below hpiece hlive hm (by simpa using hfull)
    simp only [boardPlayHeight] at this
    omega
  obtain ⟨s, hs, hrows, hk⟩ := cullLoop_result B htop
  -- the copies of the top row are empty rows, for otherwise nothing was culled
  have hrefill : List.replicate (B.toList.countP rowFull) (Board.row B (boardHeight - 1)) =
      List.replicate (B.toList.countP rowFull) emptyRow := by
    rcases Nat.eq_zero_or_pos (B.toList.countP rowFull) with hz | hpos
    · rw [hz, List.replicate_zero, List.replicate_zero]
    · obtain ⟨r, hr, hfull⟩ := List.countP_pos_iff.mp hpos
      rw [toList_eq_map_row, List.mem_map] at hr
      obtain ⟨y, hy, rfl⟩ := hr
      rw [top_row_empty hi hpiece hlive hm (List.mem_range.mp hy) hfull]
  rw [hrefill] at hrows
  exact ⟨B, s, hm, hs, hk, hk ▸ full_rows_le_four hi hpiece hm, hrows⟩

theorem cullPoints_of_le {k : ℕ} (h : k ≤ 4) : cullPoints k = [0, 100, 250, 500, 1000].getD k 0 := by
  interval_cases k <;> rfl

end Merged

section Randomness
variable (randR : RandR)

/-- A placement in a game that is on, points and lines over the integers. -/
theorem line_clearing_call {gc : GameContents} {op : Op} {block : ActiveBlock} (hi : EngineInv gc)
    (hlive : gameOver gc.board = 0) (hblock : placedBlock gc op = some block) :
    ∃ (B : Board) (k : ℕ) (gc' : GameContents) (ret : ℤ),
      gc.board.mergeUnits block.tetrisBlock.type.toInt (getBlockPositions block) = .ok B ∧
      k = B.toList.countP rowFull ∧ op.call randR gc = .ok (gc', ret) ∧
      gc'.board.toList = B.toList.filter (fun r => !rowFull r) ++ List.replicate k emptyRow ∧
      gc'.linesCleared = gc.linesCleared + k ∧ k ≤ 4 ∧
      gc'.points = gc.points + [0, 100, 250, 500, 1000].getD k 0 ∧
      (ret = 2 ↔ ∃ y x, boardPlayHeight ≤ y ∧ gc'.board.cell y x ≠ 0) ∧
      (ret ≠ 2 → ret = 0 ∧ gc'.activeBlock = spawnActiveBlock gc.nextBlock ∧
        gc'.nextBlock = drawBlock (randR gc.seed).1 ∧ gc'.seed = (randR gc.seed).2 ∧
        gc'.swapHBlockCount = 0 ∧ gc'.autoLowerCount = 0) := by
  obtain ⟨B, s, hm, hs, hk, hfour, hrows⟩ := live_placement hi hlive hblock
  have hpoints := cullPoints_of_le hfour
  have hover : gameOver s.board ≠ 0 ↔ ∃ y x, boardPlayHeight ≤ y ∧ s.board.cell y x ≠ 0 := by
    rw [ne_eq, gameOver_eq_zero_iff]
    push Not
    rfl
  have hcall := call_of_placed randR hblock
  rw [placeBlock_eq randR (enterPlace gc op block) hm hs] at hcall
  refine ⟨B, B.toList.countP rowFull, ?_⟩
  rw [hk] at hpoints hfour
  -- game over, or the next piece is spawned
  split_ifs at hcall with hend
  · refine ⟨_, _, hm, rfl, hcall, hrows, ?_, hfour, ?_, ?_, fun h => absurd rfl h⟩
    · simp only [afterCull, enterPlace, hk]
    · simp only [afterCull, enterPlace, hk, hpoints]
    · exact ⟨fun _ => hover.mp hend, fun _ => rfl⟩
  · refine ⟨_, _, hm, rfl, hcall, hrows, ?_, hfour, ?_, ?_, fun _ => ⟨rfl, rfl, rfl, rfl, rfl, rfl⟩⟩
    · simp only [respawn, generateNewBlock, afterCull, enterPlace, hk]
    · simp only [respawn, generateNewBlock, afterCull, enterPlace, hk, hpoints]
    · exact ⟨fun h => absurd h (by decide), fun h => absurd (hover.mpr h) hend⟩

/-- Whenever `lower_block` or `hard_drop` places a piece in a game that is on, with `B` the merged
board and `k` its number of full rows: if the new points and lines are ints, the call returns, the
board becomes the rows of `B` that are not full, in their order, under `k` empty rows, and the
score and the counters follow. Otherwise an addition overflows. -/
theorem line_clearing_exact (seed : BitVec 32) (ops : List Op) (gc : GameContents)
    (hrun : run (engineStepInt randR) (newSeededGame randR seed) ops = .ok gc)
    (hlive : gameOver gc.board = 0) (op : Op) (block : ActiveBlock)
    (hblock : placedBlock gc op = some block) :
    ∃ (B : Board) (k : ℕ),
      gc.board.mergeUnits block.tetrisBlock.type.toInt (getBlockPositions block) = .ok B ∧
      k = B.toList.countP rowFull ∧ k ≤ 4 ∧
      (¬(IsInt (gc.points + [0, 100, 250, 500, 1000].getD k 0) ∧ IsInt (gc.linesCleared + k)) →
        op.callInt randR gc = .error .overflow) ∧
      (IsInt (gc.points + [0, 100, 250, 500, 1000].getD k 0) → IsInt (gc.linesCleared + k) →
        ∃ (gc' : GameContents) (ret : ℤ), op.callInt randR gc = .ok (gc', ret) ∧
          gc'.board.toList = B.toList.filter (fun r => !rowFull r) ++ List.replicate k emptyRow ∧
          gc'.linesCleared = gc.linesCleared + k ∧
          gc'.points = gc.points + [0, 100, 250, 500, 1000].getD k 0 ∧
          (ret = 2 ↔ ∃ y x, boardPlayHeight ≤ y ∧ gc'.board.cell y x ≠ 0) ∧
          (ret ≠ 2 → ret = 0 ∧ gc'.activeBlock = spawnActiveBlock gc.nextBlock ∧
            gc'.nextBlock = drawBlock (randR gc.seed).1 ∧ gc'.seed = (randR gc.seed).2 ∧
            gc'.swapHBlockCount = 0 ∧ gc'.autoLowerCount = 0)) := by
  have hints := (runInt_eq_ok_iff randR (newSeededGame_inv randR seed)
    (newSeededGame_countersFit randR seed)).mp hrun
  have hi := reachable_inv randR ⟨seed, ops, hints.1⟩
  obtain ⟨B, k, gc', ret, hm, hk, hcall, hrows, hlines, hfour, hpoints, hret, hspawn⟩ :=
    line_clearing_call randR hi hlive hblock
  refine ⟨B, k, hm, hk, hfour, ?_, ?_⟩
  -- the call with ints is the one with integers, followed by the check of the two sums
  · intro hover
    have hnot : ¬gc'.CountersFit := by
      rw [GameContents.CountersFit, hpoints, hlines]
      exact hover
    rw [Op.callInt, hcall, ok_bind, if_neg hnot]
  · intro hfitPoints hfitLines
    have hfit : gc'.CountersFit := by
      rw [GameContents.CountersFit, hpoints, hlines]
      exact ⟨hfitPoints, hfitLines⟩
    refine ⟨gc', ret, ?_, hrows, hlines, hpoints, hret, hspawn⟩
    rw [Op.callInt, hcall, ok_bind, if_pos hfit]

end Randomness

/-- A `rand_r` that draws the long piece each time. -/
def heroRandR : RandR := fun s => (5, s)

/-- A long piece stood upright, moved and dropped. -/
def uprightDrop (right left : ℕ) : List Op :=
  .rotate 1 :: List.replicate right .translateRight ++ List.replicate left .translateLeft ++
    [.hardDrop]

/-- Two flat pieces and two upright ones, the last of which is yet to be dropped. -/
def stackOps : List Op :=
  [.translateRight, .translateRight, .translateRight, .hardDrop, .translateLeft, .hardDrop] ++
    uprightDrop 0 3 ++ (uprightDrop 0 4).dropLast

/-- The last of four pieces completes the bottom row and stands on in the rows above. -/
theorem line_clearing_over_stack :
    ∃ (gc gc' : GameContents) (ret : ℤ),
      run (engineStepInt heroRandR) (newSeededGame heroRandR 0) stackOps = .ok gc ∧
      gc.board.toList = #v[7, 7, 7, 7, 7, 7, 7, 7, 7, 0] ::
        List.replicate 3 #v[0, 0, 0, 0, 0, 0, 0, 0, 7, 0] ++ List.replicate 20 emptyRow ∧
      Op.hardDrop.callInt heroRandR gc = .ok (gc', ret) ∧
      gc'.board.toList = List.replicate 3 #v[0, 0, 0, 0, 0, 0, 0, 0, 7, 7] ++
        List.replicate 21 emptyRow ∧
      gc'.linesCleared = gc.linesCleared + 1 ∧ gc'.points = gc.points + 100 ∧
      gc'.activeBlock = spawnActiveBlock gc.nextBlock := by
  obtain ⟨gc, block, B, hrun, hblock, hm, hlive, hboard, hfull, hrows, hpoints, hlines⟩ :
      ∃ gc block B, run (engineStepInt heroRandR) (newSeededGame heroRandR 0) stackOps = .ok gc ∧
        placedBlock gc .hardDrop = some block ∧
        gc.board.mergeUnits block.tetrisBlock.type.toInt (getBlockPositions block) = .ok B ∧
        gameOver gc.board = 0 ∧
        gc.board.toList = #v[7, 7, 7, 7, 7, 7, 7, 7, 7, 0] ::
          List.replicate 3 #v[0, 0, 0, 0, 0, 0, 0, 0, 7, 0] ++ List.replicate 20 emptyRow ∧
        B.toList.countP rowFull = 1 ∧
        B.toList.filter (fun r => !rowFull r) =
          List.replicate 3 #v[0, 0, 0, 0, 0, 0, 0, 0, 7, 7] ++ List.replicate 20 emptyRow ∧
        gc.points = 0 ∧ gc.linesCleared = 0 :=
    ⟨_, _, _, rfl, rfl, rfl, by decide +kernel, by decide +kernel, by decide +kernel,
      by decide +kernel, by decide +kernel, by decide +kernel⟩
  obtain ⟨B', k, hm', hk, -, -, hfits⟩ :=
    line_clearing_exact heroRandR 0 stackOps gc hrun hlive .hardDrop block hblock
  obtain rfl := Except.ok.inj (hm.symm.trans hm')
  rw [hfull] at hk
  subst hk
  obtain ⟨gc', ret, hcall, hrows', hlines', hpoints', hret, hspawn⟩ :=
    hfits (by rw [hpoints]; decide) (by rw [hlines]; decide)
  rw [hrows, List.append_assoc, List.replicate_append_replicate] at hrows'
  -- what is left of the last piece stays far below the top rows
  have hlive' : ret ≠ 2 := by
    rw [ne_eq, hret]
    rintro ⟨y, x, hy, hne⟩
    simp only [boardPlayHeight] at hy
    apply hne
    have hrow : Board.row gc'.board y = emptyRow := by
      rw [Board.row, hrows', List.getD_eq_getElem?_getD, List.getElem?_append_right (by simp; omega),
        List.getElem?_replicate]
      split_ifs <;> rfl
    rw [Board.cell, hrow, emptyRow, Vector.toList_replicate, List.getD_eq_getElem?_getD,
      List.getElem?_replicate]
    split_ifs <;> rfl
  exact ⟨gc, gc', ret, hrun, hboard, hcall, hrows', hlines', hpoints', (hspawn hlive').2.1⟩

/-- Ten long pieces, one in each column. -/
def clearingRound : List Op := (List.range 10).flatMap fun x => uprightDrop (5 - x) (x - 5)

/-- The round completes four rows and leaves the board empty. -/
theorem clearingRound_run :
    run (engineStep heroRandR) (newSeededGame heroRandR 0) clearingRound =
      .ok ((newSeededGame heroRandR 0).credited 1000 4) := by
  decide +kernel

theorem clearingRound_live :
    Along (engineStep heroRandR) (fun gc _ => gameOver gc.board = 0) (newSeededGame heroRandR 0)
      clearingRound := by
  decide +kernel

/-- Points and lines after any number of rounds. -/
theorem clearingRounds_run (n : ℕ) :
    run (engineStep heroRandR) (newSeededGame heroRandR 0)
        (List.replicate n clearingRound).flatten =
      .ok ((newSeededGame heroRandR 0).credited (1000 * n) (4 * n)) := by
  induction n with
  | zero =>
    simp only [List.replicate_zero, List.flatten_nil, run_nil, GameContents.credited, Nat.cast_zero,
      mul_zero, add_zero]
  | succ n ih =>
    rw [List.replicate_succ', List.flatten_append, run_append_ok _ _ ih, List.flatten_singleton,
      run_credited, clearingRound_run]
    simp only [Except.map, credited_credited]
    push_cast
    ring_nf

theorem clearingRounds_live (n : ℕ) :
    Along (engineStep heroRandR) (fun gc _ => gameOver gc.board = 0) (newSeededGame heroRandR 0)
      (List.replicate n clearingRound).flatten := by
  induction n with
  | zero => exact trivial
  | succ n ih =>
    rw [List.replicate_succ', List.flatten_append, along_append _ _ (clearingRounds_run n),
      List.flatten_singleton]
    refine ⟨ih, ?_⟩
    exact along_abs _ (GameContents.credited · (1000 * n) (4 * n))
      (fun gc op => (engineStep_credited heroRandR gc _ _ op).symm) (fun _ _ h => h)
      clearingRound_live

/-- After enough rounds the points are near the greatest int, and the next four rows would take
them beyond it. -/
theorem line_clearing_overflows :
    ∃ (ops : List Op) (gc : GameContents) (block : ActiveBlock) (B : Board),
      Along (engineStep heroRandR) (fun gc _ => gameOver gc.board = 0) (newSeededGame heroRandR 0)
        (ops ++ [.hardDrop]) ∧
      run (engineStepInt heroRandR) (newSeededGame heroRandR 0) ops = .ok gc ∧
      placedBlock gc .hardDrop = some block ∧
      gc.board.mergeUnits block.tetrisBlock.type.toInt (getBlockPositions block) = .ok B ∧
      B.toList.countP rowFull = 4 ∧ gc.points = 2147483000 ∧
      Op.hardDrop.callInt heroRandR gc = .error .overflow := by
  obtain ⟨last, block, B, hlast, hblock, hm, hfull, hpoints, hlines, hdrop⟩ :
      ∃ gc block B, run (engineStep heroRandR) (newSeededGame heroRandR 0) clearingRound.dropLast =
          .ok gc ∧ placedBlock gc .hardDrop = some block ∧
        gc.board.mergeUnits block.tetrisBlock.type.toInt (getBlockPositions block) = .ok B ∧
        B.toList.countP rowFull = 4 ∧ gc.points = 0 ∧ gc.linesCleared = 0 ∧
        (hardDrop heroRandR gc).map (fun r => r.1.points) = .ok 1000 :=
    ⟨_, _, _, rfl, rfl, rfl, by decide +kernel, by decide +kernel, by decide +kernel,
      by decide +kernel⟩
  -- the number of rounds that still fit
  obtain ⟨n, hn⟩ : ∃ n : ℕ, n = 2147483 := ⟨_, rfl⟩
  have hround : clearingRound.dropLast ++ [.hardDrop] = clearingRound := by decide
  have hrun : run (engineStep heroRandR) (newSeededGame heroRandR 0)
      ((List.replicate n clearingRound).flatten ++ clearingRound.dropLast) =
        .ok (last.credited (1000 * n) (4 * n)) := by
    rw [run_append_ok _ _ (clearingRounds_run n), run_credited, hlast]
    rfl
  refine ⟨(List.replicate n clearingRound).flatten ++ clearingRound.dropLast,
    last.credited (1000 * n) (4 * n), block, B, ?_, ?_, hblock, hm, hfull, ?_, ?_⟩
  · have hlive := clearingRounds_live (n + 1)
    rw [List.replicate_succ', List.flatten_append, List.flatten_singleton] at hlive
    rw [List.append_assoc, hround]
    exact hlive
  · refine (runInt_eq_ok_iff heroRandR (newSeededGame_inv heroRandR 0)
      (newSeededGame_countersFit heroRandR 0)).mpr ⟨hrun, ?_⟩
    simp only [GameContents.CountersFit, GameContents.credited, IsInt, hpoints, hlines]
    omega
  · simp only [GameContents.credited, hpoints]
    omega
  · obtain ⟨r, hr, hrpoints⟩ := map_eq_ok.mp hdrop
    rw [Op.callInt, Op.call, hardDrop_credited, hr]
    refine if_neg ?_
    simp only [GameContents.CountersFit, GameContents.credited, IsInt, hrpoints]
    omega

end TetrisMint
