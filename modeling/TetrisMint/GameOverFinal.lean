import TetrisMint.CullTermination

/-! Play after game over: the engine does not look at `game_over` before a call,
so the outcome of a finished game stands only as long as every further placement
puts a block onto cells that already hold it. -/
namespace TetrisMint

/-- The part of the state that a finished game should keep. -/
structure SameOutcome (gc gc' : GameContents) : Prop where
  gameOver : gameOver gc'.board = gameOver gc.board
  board : gc'.board = gc.board
  points : gc'.points = gc.points
  linesCleared : gc'.linesCleared = gc.linesCleared

/-- Whatever the call places lands on cells that already hold that piece. -/
def PlacesOntoItself (gc : GameContents) (op : Op) : Prop :=
  ∀ block, placedBlock gc op = some block →
    ∀ p ∈ getBlockPositions block, gc.board.at p = block.tetrisBlock.type.toInt

theorem sameOutcome_refl (gc : GameContents) : SameOutcome gc gc := ⟨rfl, rfl, rfl, rfl⟩

theorem sameOutcome_trans {a b c : GameContents} (h : SameOutcome a b) :
    SameOutcome a c ↔ SameOutcome b c := by
  constructor
  · intro hc
    exact ⟨hc.gameOver.trans h.gameOver.symm, hc.board.trans h.board.symm,
      hc.points.trans h.points.symm, hc.linesCleared.trans h.linesCleared.symm⟩
  · intro hc
    exact ⟨hc.gameOver.trans h.gameOver, hc.board.trans h.board, hc.points.trans h.points,
      hc.linesCleared.trans h.linesCleared⟩

/-- Merging changes nothing exactly when the cells already hold the value. -/
theorem merge_self_iff {b b' : Board} {v : ℤ} {ps : List Position}
    (hm : b.mergeUnits v ps = .ok b') : b' = b ↔ ∀ p ∈ ps, b.at p = v := by
  obtain ⟨hin, hcell⟩ := cell_mergeUnits hm
  constructor
  · rintro rfl p hp
    obtain ⟨-, -, hy, hx⟩ := inside_toNat (hin p hp)
    have hpe : (⟨(p.x.toNat : ℤ), (p.y.toNat : ℤ)⟩ : Position) = p := by rw [hy, hx]
    rw [Board.at, hcell, hpe, if_pos hp]
  · intro h
    apply board_ext
    intro y x _ _
    -- a cell keeps its value when it is not listed, or holds the value already
    rw [hcell]
    split_ifs with hmem
    · have := h _ hmem
      simpa [Board.at] using this.symm
    · rfl

/-- Without a culled line culling changes nothing. -/
theorem cullLoop_zero {b : Board} {s : CullState} (hs : cullLoop b = some s) (hz : s.linesCulled = 0) :
    s.board = b := by
  have htop : rowFull (b.row (boardHeight - 1)) = false := by
    by_contra hne
    rw [(cullLoop_eq_none_iff b).mpr (by simpa using hne)] at hs
    exact absurd hs (by simp)
  obtain ⟨s', hs', -, hn⟩ := cullLoop_result b htop
  rw [hs, Option.some_inj] at hs'
  subst hs'
  have hnone : ∀ r ∈ b.toList, rowFull r = false := by
    have hcount := List.countP_eq_zero.mp (hn.symm.trans hz)
    exact fun r hr => by simpa using hcount r hr
  obtain ⟨s', hs', hb, -⟩ := cullLoop_of_no_full hnone
  rw [hs, Option.some_inj] at hs'
  exact hs' ▸ hb

section Randomness
variable (randR : RandR)

/-- A call that returns keeps the outcome exactly when what it places lands onto itself. -/
theorem sameOutcome_iff {gc gc' : GameContents} {op : Op} (hi : EngineInv gc)
    (h : engineStep randR gc op = .ok gc') :
    SameOutcome gc gc' ↔ PlacesOntoItself gc op := by
  obtain ⟨ret, hcall⟩ := (engineStep_eq_ok randR).mp h
  rcases call_cases randR hi.activePiece hcall with ⟨hnone, hmoved⟩ | ⟨rfl, hlimit, hswap⟩ |
      ⟨block, hblock, hplace⟩
  · have hvac : PlacesOntoItself gc op := by
      intro block hblock
      rw [hnone] at hblock
      exact absurd hblock (by simp)
    exact ⟨fun _ => hvac, fun _ =>
      ⟨by rw [hmoved.board], hmoved.board, hmoved.points, hmoved.linesCleared⟩⟩
  · have hvac : PlacesOntoItself gc .swapHold := by
      intro block hblock
      simp [placedBlock] at hblock
    refine ⟨fun _ => hvac, fun _ => ?_⟩
    rw [swapHoldBlock, if_neg (not_le.mpr hlimit)] at hswap
    split_ifs at hswap
    · rw [Prod.mk.injEq] at hswap
      exact hswap.1 ▸ ⟨rfl, rfl, rfl, rfl⟩
    · rw [Prod.mk.injEq] at hswap
      exact hswap.1 ▸ ⟨rfl, rfl, rfl, rfl⟩
  · obtain ⟨merged, s, hm, hs, hcase⟩ := placeBlock_returns randR hplace
    change gc.board.mergeUnits block.tetrisBlock.type.toInt (getBlockPositions block) = .ok merged at hm
    -- a placement: the block lands onto itself when the merge changes nothing
    have honto : PlacesOntoItself gc op ↔ merged = gc.board := by
      rw [merge_self_iff hm]
      constructor
      · exact fun hp => hp block hblock
      · intro hp block' hblock'
        rw [hblock, Option.some_inj] at hblock'
        exact hblock' ▸ hp
    have hledger : gc'.board = s.board ∧ gc'.linesCleared = gc.linesCleared + s.linesCulled ∧
        gc'.points = gc.points + cullPoints s.linesCulled := by
      rcases hcase with ⟨-, rfl, -⟩ | ⟨-, rfl, -⟩
      · exact ⟨rfl, rfl, rfl⟩
      · exact ⟨rfl, rfl, rfl⟩
    rw [honto]
    constructor
    · -- no line was culled, so the merge itself changed nothing
      intro hsame
      have hz : s.linesCulled = 0 := by
        have := hsame.linesCleared.symm.trans hledger.2.1
        omega
      rw [← cullLoop_zero hs hz, ← hledger.1, hsame.board]
    · -- a board without full rows stays as it is when it is culled
      rintro rfl
      obtain ⟨s', hs', hb, hz⟩ := cullLoop_of_no_full hi.noFullRow
      rw [hs, Option.some_inj] at hs'
      subst hs'
      have hboard := hledger.1.trans hb
      refine ⟨by rw [hboard], hboard, ?_, ?_⟩
      · rw [hledger.2.2, hz]
        exact add_zero _
      · rw [hledger.2.1, hz]
        exact add_zero _

/-- Once a game is over, the calls that follow and return keep it over with the
same board, points and lines in every state they lead to exactly when every
placement among them lands onto itself. -/
theorem game_over_final_iff (seed : BitVec 32) (ops more : List Op) (gc u : GameContents)
    (hrun : FallibleRun.run (engineStep randR) (newSeededGame randR seed) ops = .ok gc)
    (hover : gameOver gc.board = 1) (hmore : FallibleRun.run (engineStep randR) gc more = .ok u) :
    (∀ t, FallibleRun.Visits (engineStep randR) gc more t →
      gameOver t.board = 1 ∧ t.board = gc.board ∧ t.points = gc.points ∧
        t.linesCleared = gc.linesCleared) ↔
    FallibleRun.Along (engineStep randR) PlacesOntoItself gc more := by
  have hi := reachable_inv randR ⟨seed, ops, hrun⟩
  -- one step keeps the outcome exactly when it meets the condition, so the run rule applies
  have hexact (s : GameContents) (op : Op) (t : GameContents)
      (hs : EngineInv s ∧ SameOutcome gc s) (ht : engineStep randR s op = .ok t) :
      (EngineInv t ∧ SameOutcome gc t) ↔ PlacesOntoItself s op := by
    rw [← sameOutcome_iff randR hs.1 ht, sameOutcome_trans hs.2]
    exact and_iff_right (engineStep_inv randR hs.1 ht)
  rw [← FallibleRun.visits_iff_along _ hexact ⟨hi, sameOutcome_refl gc⟩ hmore]
  refine forall_congr' fun t => forall_congr' fun hv => ?_
  have hit : EngineInv t := by
    obtain ⟨pre, -, hpre⟩ := hv
    exact FallibleRun.invariant_run _ (fun _ _ _ hi ht => engineStep_inv randR hi ht) hi hpre
  constructor
  · rintro ⟨ho, hb, hp, hl⟩
    exact ⟨hit, ho.trans hover.symm, hb, hp, hl⟩
  · rintro ⟨-, hsame⟩
    exact ⟨hsame.gameOver.trans hover, hsame.board, hsame.points, hsame.linesCleared⟩

end Randomness

/-- The game of seed 0 in which every piece is dropped where it spawns. -/
def stackedGame (more : List Op) : Except Fault GameContents :=
  FallibleRun.run (engineStep glibcRandR) (newSeededGame glibcRandR 0)
    (List.replicate 10 .hardDrop ++ more)

/-- Swapping after game over and dropping puts four new cells on the board. -/
theorem swap_after_game_over_changes_board :
    ∃ gc gc' : GameContents, stackedGame [] = .ok gc ∧ stackedGame [.swapHold, .hardDrop] = .ok gc' ∧
      gameOver gc.board = 1 ∧ gc'.board ≠ gc.board := by
  have hcell : ((stackedGame []).toOption.any fun gc =>
      gameOver gc.board == 1 && gc.board.cell 21 4 == 0) = true := by decide +kernel
  have hcell' : ((stackedGame [.swapHold, .hardDrop]).toOption.any fun gc =>
      gc.board.cell 21 4 != 0) = true := by decide +kernel
  cases hgc : stackedGame [] with
  | error e =>
    rw [hgc] at hcell
    exact absurd hcell (by simp [Except.toOption])
  | ok gc =>
    cases hgc' : stackedGame [.swapHold, .hardDrop] with
    | error e =>
      rw [hgc'] at hcell'
      exact absurd hcell' (by simp [Except.toOption])
    | ok gc' =>
      simp only [hgc, Except.toOption, Option.any_some, Bool.and_eq_true, beq_iff_eq] at hcell
      simp only [hgc', Except.toOption, Option.any_some, bne_iff_ne, ne_eq] at hcell'
      refine ⟨gc, gc', rfl, rfl, hcell.1, ?_⟩
      intro hb
      rw [hb] at hcell'
      exact hcell' hcell.2

/-- Dropping on after the stacked game is over places the last piece onto itself. -/
theorem game_over_final_stacked :
    ∃ gc : GameContents, stackedGame [] = .ok gc ∧ ∀ t,
      FallibleRun.Visits (engineStep glibcRandR) gc [.hardDrop] t →
      gameOver t.board = 1 ∧ t.board = gc.board ∧ t.points = gc.points ∧
        t.linesCleared = gc.linesCleared := by
  -- the cells that the piece would write hold its own number already
  have hover : ((stackedGame []).toOption.any fun gc => gameOver gc.board == 1 &&
      ((placedBlock gc .hardDrop).any fun block => (getBlockPositions block).all fun p =>
        gc.board.at p == block.tetrisBlock.type.toInt) &&
      (engineStep glibcRandR gc .hardDrop).toOption.isSome) = true := by decide +kernel
  cases hgc : stackedGame [] with
  | error e =>
    rw [hgc] at hover
    exact absurd hover (by simp [Except.toOption])
  | ok gc =>
    rw [hgc] at hover
    simp only [Except.toOption, Option.any_some, Bool.and_eq_true, beq_iff_eq] at hover
    obtain ⟨⟨hone, honto⟩, hret⟩ := hover
    cases hstep : engineStep glibcRandR gc .hardDrop with
    | error e =>
      rw [hstep] at hret
      exact absurd hret (by simp)
    | ok u =>
      have hrun : FallibleRun.run (engineStep glibcRandR) gc [.hardDrop] = .ok u := by
        rw [FallibleRun.run_cons_ok _ _ hstep, FallibleRun.run_nil]
      refine ⟨gc, rfl, (game_over_final_iff glibcRandR 0 _ [.hardDrop] gc u hgc hone hrun).mpr ?_⟩
      refine ⟨?_, fun _ _ => trivial⟩
      intro block hblock p hp
      rw [hblock] at honto
      simpa using List.all_eq_true.mp honto p hp

end TetrisMint
