import TetrisMint.PieceLog

/-! The cells and the score of a game: every placement fills four cells, every
cleared line frees ten of them and is paid once. -/
namespace TetrisMint

def filledCells (b : Board) : ℕ := (b.toList.map unitsInRow).sum

def placements (log : List LogEntry) : ℕ := (placedPieces log).length

/-- The placements that completed `k` rows. -/
def clears (k : ℕ) (log : List LogEntry) : ℕ :=
  log.countP fun
    | .placed _ fullRows => fullRows = k
    | _ => false

theorem sum_set_add {l : List ℕ} {i : ℕ} (hi : i < l.length) (a : ℕ) :
    (l.set i a).sum + l.get ⟨i, hi⟩ = l.sum + a := by
  induction l generalizing i with
  | nil => exact absurd hi (Nat.not_lt_zero i)
  | cons n l ih =>
    cases i with
    | zero =>
      have hhead : (n :: l).get ⟨0, hi⟩ = n := rfl
      rw [hhead, List.set_cons_zero, List.sum_cons, List.sum_cons]
      omega
    | succ i =>
      have htail := ih (Nat.lt_of_succ_lt_succ hi)
      simp only [List.set_cons_succ, List.sum_cons, List.get_cons_succ]
      omega

theorem unitsInRow_set {r : Row} {x : ℕ} (hx : x < boardWidth) {v : ℤ} (hzero : r[x] = 0)
    (hv : v ≠ 0) : unitsInRow (r.set x v) = unitsInRow r + 1 := by
  have hlen : x < r.toList.length := by simpa using hx
  simp only [unitsInRow, Vector.toList_set]
  rw [List.countP_set hlen]
  simp [hzero, hv]

/-- Filling a free cell adds one. -/
theorem filledCells_write {b b' : Board} {p : Position} {v : ℤ} (h : b.write p v = .ok b')
    (hfree : b.at p = 0) (hv : v ≠ 0) : filledCells b' = filledCells b + 1 := by
  unfold Board.write at h
  split at h
  case isFalse => exact absurd h (by simp)
  case isTrue hp =>
    obtain ⟨hy, hx, -, -⟩ := inside_toNat hp
    rw [Except.ok.injEq] at h
    subst h
    have hcell : (b.row p.y.toNat)[p.x.toNat] = 0 := by
      simpa [Board.at, Board.cell, List.getD_eq_getElem?_getD, hx] using hfree
    have hrow := unitsInRow_set hx hcell hv
    have hlen : p.y.toNat < (b.toList.map unitsInRow).length := by simpa using hy
    have hget : (b.toList.map unitsInRow).get ⟨p.y.toNat, hlen⟩ = unitsInRow (b.row p.y.toNat) := by
      rw [row_eq_getElem b hy]
      simp
    have hsum := sum_set_add hlen (unitsInRow ((b.row p.y.toNat).set p.x.toNat v))
    rw [hget, hrow] at hsum
    simp only [filledCells, Vector.toList_set, List.map_set, hrow]
    omega

/-- Merging different free cells adds one for each of them. -/
theorem filledCells_merge {b b' : Board} {v : ℤ} {ps : List Position} (hv : v ≠ 0)
    (hnodup : ps.Nodup) (hfree : ∀ p ∈ ps, b.unitFree p = true)
    (h : b.mergeUnits v ps = .ok b') : filledCells b' = filledCells b + ps.length := by
  induction ps generalizing b with
  | nil =>
    rw [Board.mergeUnits, Except.ok.injEq] at h
    simp [h]
  | cons p ps ih =>
    obtain ⟨hp, hps⟩ := List.nodup_cons.mp hnodup
    cases hw : b.write p v with
    | error e => simp [Board.mergeUnits, hw] at h
    | ok b₁ =>
      rw [Board.mergeUnits, hw] at h
      have hone := filledCells_write hw ((unitFree_iff b p).mp (hfree p (List.mem_cons_self ..))).2 hv
      -- the cells still to be written are free as before
      have hrest : ∀ q ∈ ps, b₁.unitFree q = true := by
        intro q hq
        obtain ⟨hin, hzero⟩ := (unitFree_iff b q).mp (hfree q (List.mem_cons_of_mem p hq))
        obtain ⟨-, -, hy, hx⟩ := inside_toNat hin
        refine (unitFree_iff b₁ q).mpr ⟨hin, ?_⟩
        rw [Board.at, (cell_write hw _ _).2, if_neg]
        · exact hzero
        · intro hpq
          apply hp
          rw [hpq, hx, hy]
          exact hq
      rw [ih hps hrest h, hone, List.length_cons]
      omega

theorem unitsInRow_of_full {r : Row} (h : rowFull r = true) : unitsInRow r = boardWidth := by
  have hle : unitsInRow r ≤ r.toList.length := List.countP_le_length
  rw [rowFull, decide_eq_true_iff] at h
  rw [Vector.length_toList] at hle
  exact le_antisymm hle h

theorem unitsInRow_emptyRow : unitsInRow emptyRow = 0 := by decide

/-- Dropping the full rows of a board takes ten cells for each of them. -/
theorem filledCells_cull {b b' : Board} {k : ℕ} (hrows : b'.toList =
    b.toList.filter (fun r => !rowFull r) ++ List.replicate k emptyRow) :
    filledCells b' + boardWidth * b.toList.countP rowFull = filledCells b := by
  have hlist (rows : List Row) : ((rows.filter fun r => !rowFull r).map unitsInRow).sum +
      boardWidth * rows.countP rowFull = (rows.map unitsInRow).sum := by
    induction rows with
    | nil => rfl
    | cons r rows ih =>
      rw [List.map_cons, List.sum_cons, ← ih]
      by_cases hfull : rowFull r = true
      · rw [List.countP_cons_of_pos hfull, List.filter_cons_of_neg (by simp [hfull]),
          unitsInRow_of_full hfull]
        ring
      · rw [List.countP_cons_of_neg hfull, List.filter_cons_of_pos (by simp [hfull]), List.map_cons,
          List.sum_cons, add_assoc]
  rw [filledCells, filledCells, ← hlist b.toList, hrows, List.map_append, List.sum_append,
    List.map_replicate, unitsInRow_emptyRow, List.sum_replicate, smul_zero, add_zero]

@[simp] theorem placements_append (log log' : List LogEntry) :
    placements (log ++ log') = placements log + placements log' := by
  simp [placements, placedPieces]

@[simp] theorem clears_append (k : ℕ) (log log' : List LogEntry) :
    clears k (log ++ log') = clears k log + clears k log' := by
  simp [clears]

@[simp] theorem placements_generated (piece : TetrisBlock) : placements [.generated piece] = 0 := rfl

@[simp] theorem placements_swapped : placements [.swapped] = 0 := rfl

@[simp] theorem placements_placed (piece : TetrisBlock) (n : ℕ) :
    placements [.placed piece n] = 1 := rfl

@[simp] theorem clears_generated (k : ℕ) (piece : TetrisBlock) :
    clears k [.generated piece] = 0 := rfl

@[simp] theorem clears_swapped (k : ℕ) : clears k [.swapped] = 0 := rfl

@[simp] theorem clears_placed (k : ℕ) (piece : TetrisBlock) (n : ℕ) :
    clears k [.placed piece n] = if n = k then 1 else 0 := by
  simp [clears, List.countP_cons]

/-- The accounts of cells, lines and points. -/
structure ScoreLedger (l : Logged) : Prop where
  cells : (filledCells l.gc.board : ℤ) + 10 * l.gc.linesCleared = 4 * placements l.log
  lines : l.gc.linesCleared = clears 1 l.log + 2 * clears 2 l.log + 3 * clears 3 l.log +
    4 * clears 4 l.log
  points : l.gc.points = 100 * clears 1 l.log + 250 * clears 2 l.log + 500 * clears 3 l.log +
    1000 * clears 4 l.log

/-- An entry for a placement in the accounts of lines and points. -/
theorem lines_points_placed {k : ℕ} (hk : k ≤ 4) (piece : TetrisBlock) :
    let entry := [LogEntry.placed piece k]
    (k : ℤ) = clears 1 entry + 2 * clears 2 entry + 3 * clears 3 entry + 4 * clears 4 entry ∧
      cullPoints k = 100 * clears 1 entry + 250 * clears 2 entry + 500 * clears 3 entry +
        1000 * clears 4 entry := by
  simp only [clears_placed]
  interval_cases k <;> exact ⟨rfl, rfl⟩

section Randomness
variable (randR : RandR)

/-- A placement keeps the accounts. -/
theorem scoreLedger_place {l : Logged} {op : Op} {block : ActiveBlock} {B : Board} {s : CullState}
    (hi : EngineInv l.gc) (hlive : gameOver l.gc.board = 0)
    (hblock : placedBlock l.gc op = some block)
    (hm : l.gc.board.mergeUnits block.tetrisBlock.type.toInt (getBlockPositions block) = .ok B)
    (hs : cullLoop B = some s) (hl : ScoreLedger l) :
    ScoreLedger ⟨afterCull (enterPlace l.gc op block) s,
      l.log ++ [.placed block.tetrisBlock (B.toList.countP rowFull)]⟩ := by
  obtain ⟨hpiece, -, hfits⟩ := placed_fits hi hblock
  obtain ⟨B', s', hm', hs', hk, hfour, hrows⟩ := live_placement hi hlive hblock
  rw [hm, Except.ok.injEq] at hm'
  subst hm'
  rw [hs, Option.some_inj] at hs'
  subst hs'
  -- the placement fills four cells, and every full row takes away ten
  have hmerge := filledCells_merge (toInt_ne_zero hpiece) (unitsNodup hpiece) (hfits hlive) hm
  rw [length_getBlockPositions, cellCount_eq_four hpiece] at hmerge
  have hcull := filledCells_cull hrows
  rw [hk] at hfour
  obtain ⟨hline, hpoint⟩ := lines_points_placed hfour block.tetrisBlock
  have hcells := hl.cells
  have hlines := hl.lines
  have hpoints := hl.points
  refine ⟨?_, ?_, ?_⟩
  · simp only [afterCull, enterPlace, placements_append, placements_placed, hk, boardWidth] at hcull ⊢
    push_cast
    omega
  · simp only [afterCull, enterPlace, clears_append, hk]
    push_cast
    linarith
  · simp only [afterCull, enterPlace, clears_append, hk]
    push_cast
    linarith

/-- The accounts look at the board, the lines, the points and the placements only. -/
theorem scoreLedger_congr {l l' : Logged} (hl : ScoreLedger l) (hboard : l'.gc.board = l.gc.board)
    (hlines : l'.gc.linesCleared = l.gc.linesCleared) (hpoints : l'.gc.points = l.gc.points)
    (hplacements : placements l'.log = placements l.log)
    (hclears : ∀ k, clears k l'.log = clears k l.log) : ScoreLedger l' := by
  refine ⟨?_, ?_, ?_⟩
  · rw [hboard, hlines, hplacements]
    exact hl.cells
  · rw [hlines, hclears, hclears, hclears, hclears]
    exact hl.lines
  · rw [hpoints, hclears, hclears, hclears, hclears]
    exact hl.points

theorem scoreLedger_step {l l' : Logged} (hi : EngineInv l.gc) (hlive : gameOver l.gc.board = 0)
    (hcall : LoggedCall randR l l') (hl : ScoreLedger l) : ScoreLedger l' := by
  cases hcall with
  | moved gc h => exact scoreLedger_congr hl h.board h.linesCleared h.points rfl fun _ => rfl
  | held hcount hhold =>
    refine scoreLedger_congr hl rfl rfl rfl ?_ ?_
    · simp only [placements_append, placements_generated, placements_swapped, add_zero]
    · intro k
      simp only [clears_append, clears_generated, clears_swapped, add_zero]
  | exchanged hcount hhold =>
    refine scoreLedger_congr hl rfl rfl rfl ?_ ?_
    · simp only [placements_append, placements_swapped, add_zero]
    · intro k
      simp only [clears_append, clears_swapped, add_zero]
  | ended op block B s hblock hm hs hover => exact scoreLedger_place hi hlive hblock hm hs hl
  | placed op block B s hblock hm hs hlive' =>
    -- spawning the next piece touches neither the board nor the score
    refine scoreLedger_congr (scoreLedger_place hi hlive hblock hm hs hl) rfl rfl rfl ?_ ?_
    · simp only [placements_append, placements_generated, add_zero]
    · intro k
      simp only [clears_append, clears_generated, add_zero]

theorem newSeededGame_scoreLedger (seed : BitVec 32) : ScoreLedger (newSeededGameLogged randR seed) := by
  have hempty : filledCells emptyBoard = 0 := by decide
  refine ⟨?_, rfl, rfl⟩
  have hboard : (newSeededGameLogged randR seed).gc.board = emptyBoard := rfl
  rw [hboard, hempty]
  rfl

/-- The score and cell ledger over every run from a new game that makes no call
once the game is over: such a run returns; four cells for each placement, the one
that ends the game included, are on the board or were cleared in lines of ten;
and the lines and the points are those of the placements that completed one to
four rows. -/
theorem score_and_cell_ledger (seed : BitVec 32) (ops : List Op)
    (hlive : FallibleRun.Along (engineStep randR) (fun gc _ => gameOver gc.board = 0)
      (newSeededGame randR seed) ops) :
    ∃ l, FallibleRun.run (loggedStep randR) (newSeededGameLogged randR seed) ops = .ok l ∧
      FallibleRun.run (engineStep randR) (newSeededGame randR seed) ops = .ok l.gc ∧
      (filledCells l.gc.board : ℤ) + 10 * l.gc.linesCleared = 4 * placements l.log ∧
      ∃ a b c d : ℕ, a = clears 1 l.log ∧ b = clears 2 l.log ∧ c = clears 3 l.log ∧
        d = clears 4 l.log ∧ l.gc.linesCleared = a + 2 * b + 3 * c + 4 * d ∧
        l.gc.points = 100 * a + 250 * b + 500 * c + 1000 * d := by
  obtain ⟨l, hrun, hengine, hl⟩ := live_run randR
    (fun _ _ hi hlive hcall hl => scoreLedger_step randR hi hlive hcall hl)
    (newSeededGame_inv randR seed) (newSeededGame_scoreLedger randR seed) hlive
  exact ⟨l, hrun, hengine, hl.cells, _, _, _, _, rfl, rfl, rfl, rfl, hl.lines, hl.points⟩

end Randomness

/-- Four long pieces of which the last one completes a row: six cells are left on the board. -/
theorem score_and_cell_ledger_one_line :
    ∃ l : Logged, FallibleRun.run (engineStep heroRandR) (newSeededGame heroRandR 0)
        (stackOps ++ [.hardDrop]) = .ok l.gc ∧
      placements l.log = 4 ∧ clears 1 l.log = 1 ∧ l.gc.linesCleared = 1 ∧ l.gc.points = 100 ∧
      filledCells l.gc.board = 6 := by
  obtain ⟨l, hlogged, hrun, hcells, a, b, c, d, ha, hb, hc, hd, hlines, hpoints⟩ :=
    score_and_cell_ledger heroRandR 0 (stackOps ++ [.hardDrop]) (by decide +kernel)
  obtain ⟨l', hlogged', hfacts⟩ : ∃ l, FallibleRun.run (loggedStep heroRandR)
      (newSeededGameLogged heroRandR 0) (stackOps ++ [.hardDrop]) = .ok l ∧
        (placements l.log, [1, 2, 3, 4].map fun k => clears k l.log) = (4, [1, 0, 0, 0]) := by
    apply FallibleRun.exists_ok_of_map fun l : Logged =>
      (placements l.log, [1, 2, 3, 4].map fun k => clears k l.log)
    decide +kernel
  obtain rfl := Except.ok.inj (hlogged.symm.trans hlogged')
  simp only [List.map_cons, List.map_nil, Prod.mk.injEq, List.cons.injEq, and_true] at hfacts
  obtain ⟨hplaced, hone, htwo, hthree, hfour⟩ := hfacts
  exact ⟨l, hrun, hplaced, hone, by omega, by omega, by omega⟩

end TetrisMint
