import TetrisMint.EngineInvariant

/-! When the line-clearing loop of `cull_lines` ends: `delete_line` never clears
the top row, so a placement that fills it keeps the loop running for ever. -/
namespace TetrisMint
open FueledLoop

/-- The block that the call places covers whatever is still free of the top row. -/
def TopRowFills (gc : GameContents) (op : Op) : Prop :=
  match placedBlock gc op with
  | none => False
  | some block => ∀ x < boardWidth, gc.board.cell (boardHeight - 1) x ≠ 0 ∨
      (⟨(x : ℕ), ((boardHeight - 1 : ℕ) : ℤ)⟩ : Position) ∈ getBlockPositions block

instance (gc : GameContents) (op : Op) : Decidable (TopRowFills gc op) := by
  unfold TopRowFills
  split <;> infer_instance

/-- The merged top row is full exactly when the placement fills it. -/
theorem rowFull_merged_iff {gc : GameContents} {op : Op} {block : ActiveBlock} {merged : Board}
    (hpiece : block.tetrisBlock ∈ availableBlocks) (hblock : placedBlock gc op = some block)
    (hm : gc.board.mergeUnits block.tetrisBlock.type.toInt (getBlockPositions block) = .ok merged) :
    rowFull (Board.row merged (boardHeight - 1)) = true ↔ TopRowFills gc op := by
  have hcell := (cell_mergeUnits hm).2
  rw [rowFull_iff]
  simp only [TopRowFills, hblock]
  refine forall_congr' fun x => forall_congr' fun _ => ?_
  change merged.cell (boardHeight - 1) x ≠ 0 ↔ _
  rw [hcell]
  split_ifs with hmem
  · exact ⟨fun _ => Or.inr hmem, fun _ => toInt_ne_zero hpiece⟩
  · exact ⟨Or.inl, fun h => h.resolve_right hmem⟩

section Randomness
variable (randR : RandR)

theorem view_returns {gc : GameContents} (hi : EngineInv gc) :
    ∃ r, generateGameViewData gc = .ok r := by
  obtain ⟨block, d, hd, ⟨hb, hfit⟩, -⟩ := dropBlock_spec gc gc.activeBlock rfl hi.activePiece
  have hin : UnitsInside block := by
    rcases Nat.eq_zero_or_pos d with rfl | hpos
    · rw [hb]
      simpa using hi.unitsInside
    · exact fits_inside (hfit hpos)
  -- both blocks lie inside the board, so both merges of the view stay in the array
  obtain ⟨shadowed, hs⟩ := mergeUnits_of_inside gc.board BlockType.shadow.toInt
    fun p (hp : p ∈ (getBlockPositions block).take maxBlockUnits) => hin p (List.mem_of_mem_take hp)
  obtain ⟨drawn, hdrawn⟩ := mergeUnits_of_inside shadowed gc.activeBlock.tetrisBlock.type.toInt
    fun p (hp : p ∈ (getBlockPositions gc.activeBlock).take maxBlockUnits) =>
      hi.unitsInside p (List.mem_of_mem_take hp)
  simp only [generateGameViewData, generateShadowBlock, hd, hs, hdrawn]
  exact ⟨_, rfl⟩

/-- A call that places nothing returns. -/
theorem call_of_not_placed {gc : GameContents} {op : Op} (hi : EngineInv gc)
    (h : placedBlock gc op = none) : ∃ r, op.call randR gc = .ok r := by
  cases op with
  | lower forced =>
    simp only [placedBlock] at h
    simp only [Op.call, lowerBlock_eq]
    split_ifs at h ⊢
    · exact ⟨_, rfl⟩
    · exact ⟨_, rfl⟩
  | hardDrop =>
    obtain ⟨block, d, hd, -⟩ := dropBlock_spec gc gc.activeBlock rfl hi.activePiece
    simp [placedBlock, hd, Except.toOption] at h
  | view =>
    obtain ⟨r, hr⟩ := view_returns hi
    exact ⟨_, by rw [Op.call, hr, Except.map]⟩
  | _ => exact ⟨_, rfl⟩

/-- The loop of `cull_lines` as the call enters it ends exactly when the
placement leaves the top row unfilled. -/
theorem cull_terminates_iff {gc : GameContents} {op : Op} {block : ActiveBlock} {merged : Board}
    (hpiece : block.tetrisBlock ∈ availableBlocks) (hblock : placedBlock gc op = some block)
    (hm : gc.board.mergeUnits block.tetrisBlock.type.toInt (getBlockPositions block) = .ok merged) :
    Terminates cullGuard cullStep ⟨merged, 0, 0⟩ ↔ ¬TopRowFills gc op := by
  rw [← rowFull_merged_iff hpiece hblock hm]
  constructor
  · rintro ⟨n, t, ht⟩ hfull
    rw [cullLoop_diverges merged hfull n] at ht
    exact absurd ht (by simp)
  · intro hfull
    obtain ⟨s, hs, -⟩ := cullLoop_result merged (by simpa using hfull)
    exact ⟨cullBound, s, hs⟩

/-- From a state of the invariant a call returns unless it fills the top row,
and then it runs for ever. -/
theorem call_returns_iff {gc : GameContents} (op : Op) (hi : EngineInv gc) :
    ((∃ r, op.call randR gc = .ok r) ↔ ¬TopRowFills gc op) ∧
      ∀ e, op.call randR gc = .error e → e = .nonterminating := by
  cases hblock : placedBlock gc op with
  | none =>
    obtain ⟨r, hr⟩ := call_of_not_placed randR hi hblock
    refine ⟨⟨fun _ => by simp [TopRowFills, hblock], fun _ => ⟨r, hr⟩⟩, ?_⟩
    intro e he
    rw [hr] at he
    exact absurd he (by simp)
  | some block =>
    obtain ⟨hpiece, hin, -⟩ := placed_fits hi hblock
    obtain ⟨merged, hm⟩ := mergeUnits_of_inside gc.board block.tetrisBlock.type.toInt hin
    -- a placement inside the board can only fail in the loop of `cull_lines`
    rw [call_of_placed randR hblock, ← rowFull_merged_iff hpiece hblock hm]
    cases hs : cullLoop merged with
    | none =>
      have herr : placeBlock randR (enterPlace gc op block) = .error .nonterminating := by
        simp only [placeBlock, enterPlace, hm, cullLines, hs]
      have hfull := (cullLoop_eq_none_iff merged).mp hs
      refine ⟨⟨?_, fun h => absurd hfull h⟩, ?_⟩
      · rintro ⟨r, hr⟩
        rw [herr] at hr
        exact absurd hr (by simp)
      · intro e he
        rw [herr, Except.error.injEq] at he
        exact he.symm
    | some s =>
      have hok := placeBlock_eq randR (enterPlace gc op block) hm hs
      have hfull : ¬rowFull (Board.row merged (boardHeight - 1)) = true := by
        rw [← cullLoop_eq_none_iff, hs]
        simp
      refine ⟨⟨fun _ => hfull, fun _ => ?_⟩, ?_⟩
      · rw [hok]
        split_ifs
        · exact ⟨_, rfl⟩
        · exact ⟨_, rfl⟩
      · intro e he
        rw [hok] at he
        split_ifs at he

theorem engineStep_returns_iff {gc : GameContents} {op : Op} (hi : EngineInv gc) :
    (∃ gc', engineStep randR gc op = .ok gc') ↔ ¬TopRowFills gc op := by
  rw [← (call_returns_iff randR _ hi).1]
  constructor
  · rintro ⟨gc', h⟩
    obtain ⟨ret, hcall⟩ := (engineStep_eq_ok randR).mp h
    exact ⟨(gc', ret), hcall⟩
  · rintro ⟨⟨gc', ret⟩, hcall⟩
    exact ⟨gc', (engineStep_eq_ok randR).mpr ⟨ret, hcall⟩⟩

theorem errorOf_engineStep {gc : GameContents} (hi : EngineInv gc) (op : Op) :
    FallibleRun.errorOf (engineStep randR gc op) =
      if TopRowFills gc op then some .nonterminating else none := by
  obtain ⟨hreturns, herror⟩ := call_returns_iff randR op hi
  rw [engineStep, FallibleRun.errorOf_map]
  split_ifs with hfills
  · cases hcall : op.call randR gc with
    | ok r => exact absurd hfills (hreturns.mp ⟨r, hcall⟩)
    | error e => rw [FallibleRun.errorOf_error, herror e hcall]
  · exact FallibleRun.errorOf_eq_none.mpr (hreturns.mpr hfills)

/-- A run from a new game returns exactly when none of its placements fills the
top row; each placement's culling loop ends exactly when it does not. -/
theorem run_returns_iff_top_row (seed : BitVec 32) (ops : List Op) :
    ((∃ gc, FallibleRun.run (engineStep randR) (newSeededGame randR seed) ops = .ok gc) ↔
      FallibleRun.Along (engineStep randR) (fun gc op => ¬TopRowFills gc op)
        (newSeededGame randR seed) ops) ∧
    ∀ gc op block merged,
      FallibleRun.Visits (engineStep randR) (newSeededGame randR seed) ops gc →
      placedBlock gc op = some block →
      gc.board.mergeUnits block.tetrisBlock.type.toInt (getBlockPositions block) = .ok merged →
      (Terminates cullGuard cullStep ⟨merged, 0, 0⟩ ↔ ¬TopRowFills gc op) := by
  -- each step returns exactly when it leaves the top row unfilled
  refine ⟨FallibleRun.run_returns_iff_along _ (fun _ _ _ hi ht => engineStep_inv randR hi ht)
    (fun _ _ hi => engineStep_returns_iff randR hi) (newSeededGame_inv randR seed), ?_⟩
  rintro gc op block merged ⟨pre, -, hrun⟩ hblock hm
  exact cull_terminates_iff (placed_fits (reachable_inv randR ⟨seed, pre, hrun⟩) hblock).1 hblock hm

end Randomness

/-- The `rand_r` of the C library on Linux. -/
def glibcRandR (seed : BitVec 32) : ℕ × BitVec 32 :=
  let next₁ := seed * 1103515245#32 + 12345#32
  let next₂ := next₁ * 1103515245#32 + 12345#32
  let next₃ := next₂ * 1103515245#32 + 12345#32
  let r₁ := next₁.toNat / 65536 % 2048
  let r₂ := (r₁ * 1024) ^^^ (next₂.toNat / 65536 % 1024)
  ((r₂ * 1024) ^^^ (next₃.toNat / 65536 % 1024), next₃)

/-- Calls, each with the number of times it is repeated, of a game that stacks up
to the top, goes on after game over and fills the top row with heroes. -/
def hangingRun : List (Op × ℕ) :=
  [(.translateLeft, 1), (.hardDrop, 1), (.rotate 0, 1), (.hardDrop, 1), (.translateLeft, 4),
  (.hardDrop, 1), (.rotate 0, 1), (.translateLeft, 5), (.hardDrop, 1), (.rotate 0, 1),
  (.translateLeft, 1), (.hardDrop, 1), (.translateLeft, 2), (.hardDrop, 1), (.rotate 1, 2),
  (.translateLeft, 3), (.hardDrop, 1), (.translateLeft, 2), (.hardDrop, 1), (.rotate 1, 2),
  (.translateLeft, 4), (.hardDrop, 2), (.rotate 0, 1), (.translateLeft, 2), (.hardDrop, 1),
  (.translateLeft, 3), (.hardDrop, 2), (.rotate 1, 2), (.translateLeft, 2), (.hardDrop, 1),
  (.rotate 1, 1), (.hardDrop, 1), (.translateLeft, 2), (.hardDrop, 1), (.rotate 0, 1),
  (.translateLeft, 1), (.hardDrop, 1), (.rotate 1, 1), (.translateLeft, 1), (.hardDrop, 1),
  (.rotate 0, 1), (.translateLeft, 1), (.hardDrop, 1), (.translateLeft, 3), (.hardDrop, 1),
  (.rotate 1, 1), (.translateLeft, 3), (.hardDrop, 1), (.rotate 0, 1), (.translateRight, 2),
  (.hardDrop, 1), (.rotate 1, 1), (.translateRight, 2), (.hardDrop, 1), (.translateRight, 1),
  (.hardDrop, 1), (.rotate 1, 2), (.translateRight, 1), (.hardDrop, 1), (.rotate 0, 1),
  (.translateRight, 1), (.hardDrop, 1), (.translateRight, 2), (.hardDrop, 1), (.rotate 0, 1),
  (.translateRight, 1), (.hardDrop, 1), (.rotate 0, 1), (.translateLeft, 4), (.hardDrop, 1),
  (.rotate 1, 2), (.translateRight, 1), (.hardDrop, 1), (.rotate 1, 2), (.translateRight, 3),
  (.hardDrop, 1), (.rotate 1, 1), (.translateRight, 3), (.hardDrop, 1), (.translateLeft, 1),
  (.lower 0, 1), (.rotate 1, 1), (.translateLeft, 2), (.hardDrop, 1), (.translateRight, 1),
  (.hardDrop, 1), (.translateRight, 1), (.hardDrop, 1), (.translateRight, 1), (.hardDrop, 1),
  (.translateRight, 1), (.rotate 1, 1), (.translateRight, 1), (.rotate 1, 1), (.lower 0, 1),
  (.rotate 1, 2), (.hardDrop, 1), (.translateLeft, 1), (.lower 0, 1), (.rotate 0, 4),
  (.translateLeft, 1), (.hardDrop, 1), (.translateRight, 1), (.hardDrop, 1),
  (.translateRight, 1), (.rotate 1, 1), (.hardDrop, 1)]

theorem hanging_run_never_returns :
    ∃ gc, FallibleRun.run (engineStep glibcRandR) (newSeededGame glibcRandR 0)
        (hangingRun.dropLast.flatMap fun r => List.replicate r.2 r.1) = .ok gc ∧
      hangingRun.getLast? = some (.hardDrop, 1) ∧
      hardDrop glibcRandR gc = .error .nonterminating ∧
      ∃ block merged, placedBlock gc .hardDrop = some block ∧
        gc.board.mergeUnits block.tetrisBlock.type.toInt (getBlockPositions block) = .ok merged ∧
        ¬Terminates cullGuard cullStep ⟨merged, 0, 0⟩ := by
  -- only the condition is evaluated; that the loop never ends follows from the theorem
  have hfills : ((FallibleRun.run (engineStep glibcRandR) (newSeededGame glibcRandR 0)
      (hangingRun.dropLast.flatMap fun r => List.replicate r.2 r.1)).toOption.any
        fun gc => decide (TopRowFills gc .hardDrop)) = true := by decide +kernel
  cases hrun : FallibleRun.run (engineStep glibcRandR) (newSeededGame glibcRandR 0)
      (hangingRun.dropLast.flatMap fun r => List.replicate r.2 r.1) with
  | error e =>
    rw [hrun] at hfills
    exact absurd hfills (by simp [Except.toOption])
  | ok gc =>
    rw [hrun] at hfills
    have htop : TopRowFills gc .hardDrop := by simpa [Except.toOption] using hfills
    have hi := reachable_inv glibcRandR ⟨0, _, hrun⟩
    obtain ⟨block, -, hd, -⟩ := dropBlock_spec gc gc.activeBlock rfl hi.activePiece
    have hblock : placedBlock gc .hardDrop = some block := by simp [placedBlock, hd, Except.toOption]
    obtain ⟨hpiece, hin, -⟩ := placed_fits hi hblock
    obtain ⟨merged, hm⟩ := mergeUnits_of_inside gc.board block.tetrisBlock.type.toInt hin
    have hret := call_returns_iff glibcRandR .hardDrop hi
    refine ⟨gc, rfl, rfl, ?_, block, merged, hblock, hm, ?_⟩
    · cases hc : Op.call glibcRandR .hardDrop gc with
      | error e => exact (hret.2 e hc) ▸ hc
      | ok r => exact absurd htop (hret.1.mp ⟨r, hc⟩)
    · rw [cull_terminates_iff hpiece hblock hm]
      exact not_not.mpr htop

end TetrisMint
