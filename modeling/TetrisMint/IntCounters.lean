import TetrisMint.CullTermination
import TetrisMint.StringArray

/-! Points and lines are ints in the source. The engine adds to them and never reads them, so it
runs as it does over the integers until one of the sums overflows. -/
namespace TetrisMint

open FallibleRun

/-- Ints can hold the points and the lines. -/
def GameContents.CountersFit (gc : GameContents) : Prop := IsInt gc.points ∧ IsInt gc.linesCleared

instance (gc : GameContents) : Decidable gc.CountersFit := inferInstanceAs (Decidable (_ ∧ _))

/-- The game with more points and lines on its counters. -/
def GameContents.credited (gc : GameContents) (points lines : ℤ) : GameContents :=
  { gc with
    points := gc.points + points
    linesCleared := gc.linesCleared + lines }

theorem credited_credited (gc : GameContents) (p l p' l' : ℤ) :
    (gc.credited p l).credited p' l' = gc.credited (p + p') (l + l') := by
  simp only [GameContents.credited, add_assoc]

section Randomness

variable (randR : RandR)

/-- The call with points and lines as ints. What a sum that overflows comes to is undefined. -/
def Op.callInt (op : Op) (gc : GameContents) : Except Fault (GameContents × ℤ) := do
  let r ← op.call randR gc
  if r.1.CountersFit then .ok r else .error .overflow

def engineStepInt (gc : GameContents) (op : Op) : Except Fault GameContents :=
  (op.callInt randR gc).map Prod.fst

theorem engineStepInt_eq_ok {gc gc' : GameContents} {op : Op} :
    engineStepInt randR gc op = .ok gc' ↔ engineStep randR gc op = .ok gc' ∧ gc'.CountersFit := by
  rw [engineStepInt, engineStep, Op.callInt]
  cases op.call randR gc with
  | error e => simp [Except.map]
  | ok r =>
    rw [ok_bind]
    split_ifs with hfit
    · simp only [Except.map, Except.ok.injEq]
      constructor
      · rintro rfl
        exact ⟨rfl, hfit⟩
      · exact And.left
    · simp only [Except.map, Except.ok.injEq, reduceCtorEq, false_iff, not_and]
      rintro rfl
      exact hfit

theorem cullPoints_nonneg (k : ℕ) : 0 ≤ cullPoints k := by
  unfold cullPoints
  split <;> decide

/-- No call takes points or lines away. -/
theorem counters_mono {gc gc' : GameContents} {op : Op} (hi : EngineInv gc)
    (h : engineStep randR gc op = .ok gc') :
    gc.points ≤ gc'.points ∧ gc.linesCleared ≤ gc'.linesCleared := by
  obtain ⟨ret, hcall⟩ := (engineStep_eq_ok randR).mp h
  rcases call_cases randR hi.activePiece hcall with ⟨-, hmoved⟩ | ⟨-, -, hswap⟩ | ⟨block, -, hplace⟩
  · exact ⟨hmoved.points.ge, hmoved.linesCleared.ge⟩
  · rw [swapHoldBlock] at hswap
    -- a refused swap, the first one of the game, and a later one
    split_ifs at hswap
    · obtain ⟨rfl, -⟩ := Prod.mk.inj hswap
      exact ⟨le_rfl, le_rfl⟩
    · obtain ⟨rfl, -⟩ := Prod.mk.inj hswap
      exact ⟨le_rfl, le_rfl⟩
    · obtain ⟨rfl, -⟩ := Prod.mk.inj hswap
      exact ⟨le_rfl, le_rfl⟩
  · obtain ⟨merged, s, -, -, hcase⟩ := placeBlock_returns randR hplace
    have hpoints := cullPoints_nonneg s.linesCulled
    rcases hcase with ⟨-, rfl, -⟩ | ⟨-, rfl, -⟩
    · simp only [afterCull, enterPlace]
      omega
    · simp only [respawn, generateNewBlock, afterCull, enterPlace]
      omega

theorem counters_run_mono {gc gc' : GameContents} {ops : List Op} (hi : EngineInv gc)
    (h : run (engineStep randR) gc ops = .ok gc') :
    gc.points ≤ gc'.points ∧ gc.linesCleared ≤ gc'.linesCleared := by
  induction ops generalizing gc with
  | nil =>
    rw [run_nil, Except.ok.injEq] at h
    rw [h]
    exact ⟨le_rfl, le_rfl⟩
  | cons op ops ih =>
    obtain ⟨t, ht, hrest⟩ := (run_cons_eq_ok _).mp h
    have hstep := counters_mono randR hi ht
    have hlater := ih (engineStep_inv randR hi ht) hrest
    omega

/-- With ints a run returns what it returns over the integers, as long as the totals at its end
are ints. -/
theorem runInt_eq_ok_iff {gc gc' : GameContents} {ops : List Op} (hi : EngineInv gc)
    (hfit : gc.CountersFit) : run (engineStepInt randR) gc ops = .ok gc' ↔
      run (engineStep randR) gc ops = .ok gc' ∧ gc'.CountersFit := by
  induction ops generalizing gc with
  | nil =>
    rw [run_nil, run_nil, Except.ok.injEq]
    constructor
    · rintro rfl
      exact ⟨rfl, hfit⟩
    · exact And.left
  | cons op ops ih =>
    rw [run_cons_eq_ok, run_cons_eq_ok]
    constructor
    · rintro ⟨t, ht, hrest⟩
      obtain ⟨hstep, hfit'⟩ := (engineStepInt_eq_ok randR).mp ht
      obtain ⟨hrun, hend⟩ := (ih (engineStep_inv randR hi hstep) hfit').mp hrest
      exact ⟨⟨t, hstep, hrun⟩, hend⟩
    · rintro ⟨⟨t, hstep, hrun⟩, hend⟩
      have hinv := engineStep_inv randR hi hstep
      have hgrown := counters_mono randR hi hstep
      have hgrows := counters_run_mono randR hinv hrun
      -- between two states whose counters are ints the counters are ints
      have hfit' : t.CountersFit := by
        simp only [GameContents.CountersFit, IsInt] at hfit hend ⊢
        omega
      exact ⟨t, (engineStepInt_eq_ok randR).mpr ⟨hstep, hfit'⟩, (ih hinv hfit').mpr ⟨hrun, hend⟩⟩

theorem newSeededGame_countersFit (seed : BitVec 32) : (newSeededGame randR seed).CountersFit := by
  refine ⟨?_, ?_⟩
  · exact (by decide : IsInt 0)
  · exact (by decide : IsInt 0)

end Randomness

section Credit

variable (randR : RandR) (gc : GameContents) (p l : ℤ)

theorem cullLines_credited :
    cullLines (gc.credited p l) = (cullLines gc).map (GameContents.credited · p l) := by
  have hboard : (gc.credited p l).board = gc.board := rfl
  rw [cullLines, cullLines, hboard]
  cases cullLoop gc.board with
  | none => rfl
  | some s =>
    simp only [Except.map, GameContents.credited, Except.ok.injEq, GameContents.mk.injEq, and_true]
    constructor
    · ring
    · ring

theorem placeBlock_credited : placeBlock randR (gc.credited p l) =
    (placeBlock randR gc).map fun r => (r.1.credited p l, r.2) := by
  have hmerge : (gc.credited p l).board.mergeUnits
      (gc.credited p l).activeBlock.tetrisBlock.type.toInt
      (getBlockPositions (gc.credited p l).activeBlock) =
        gc.board.mergeUnits gc.activeBlock.tetrisBlock.type.toInt
          (getBlockPositions gc.activeBlock) := rfl
  rw [placeBlock, placeBlock, hmerge]
  cases gc.board.mergeUnits gc.activeBlock.tetrisBlock.type.toInt
      (getBlockPositions gc.activeBlock) with
  | error e => rfl
  | ok board =>
    have hcull := cullLines_credited { gc with board := board } p l
    simp only [GameContents.credited] at hcull ⊢
    rw [hcull]
    cases cullLines { gc with board := board } with
    | error e => rfl
    | ok culled =>
      simp only [Except.map]
      -- the game ends or a new block is made, and neither reads the counters
      split_ifs <;> rfl

theorem lowerBlock_credited (forced : ℤ) : lowerBlock randR (gc.credited p l) forced =
    (lowerBlock randR gc forced).map fun r => (r.1.credited p l, r.2) := by
  rw [lowerBlock, lowerBlock]
  have hlower : lowerBlockHelper (gc.credited p l) (gc.credited p l).activeBlock =
      lowerBlockHelper gc gc.activeBlock := rfl
  have hcount : (gc.credited p l).autoLowerCount = gc.autoLowerCount := rfl
  simp only [hlower, hcount]
  split_ifs
  · rfl
  · exact placeBlock_credited randR gc p l
  · exact placeBlock_credited randR { gc with autoLowerCount := gc.autoLowerCount + 1 } p l
  · rfl

theorem hardDrop_credited : hardDrop randR (gc.credited p l) =
    (hardDrop randR gc).map fun r => (r.1.credited p l, r.2) := by
  have hdrop : dropBlock (gc.credited p l) (gc.credited p l).activeBlock =
      dropBlock gc gc.activeBlock := rfl
  rw [hardDrop, hardDrop, hdrop]
  cases dropBlock gc gc.activeBlock with
  | error e => rfl
  | ok block => exact placeBlock_credited randR { gc with activeBlock := block } p l

theorem rotateBlock_credited (clockwise : ℤ) : rotateBlock (gc.credited p l) clockwise =
    ((rotateBlock gc clockwise).1.credited p l, (rotateBlock gc clockwise).2) := by
  rw [rotateBlock, rotateBlock]
  have hblock : (gc.credited p l).activeBlock = gc.activeBlock := rfl
  have htest (endRot : Rotation) (t : Position) :
      testBlock (gc.credited p l) (kickedBlock (gc.credited p l) endRot t) =
        testBlock gc (kickedBlock gc endRot t) := rfl
  simp only [hblock, htest]
  cases gc.activeBlock.tetrisBlock.srsMode with
  | none => rfl
  | some srsMode =>
    simp only
    cases srsMode.descriptorArr.find? _ with
    | none => rfl
    | some srsDesc =>
      simp only
      cases srsDesc.testArr.find? _ with
      | none => rfl
      | some srsTest => rfl

theorem translateBlockHelper_credited (distance : ℤ) :
    translateBlockHelper (gc.credited p l) distance =
      ((translateBlockHelper gc distance).1.credited p l, (translateBlockHelper gc distance).2) := by
  rw [translateBlockHelper, translateBlockHelper]
  have hblock : (gc.credited p l).activeBlock = gc.activeBlock := rfl
  have htest (b : ActiveBlock) : testBlock (gc.credited p l) b = testBlock gc b := rfl
  simp only [hblock, htest]
  split_ifs <;> rfl

theorem swapHoldBlock_credited : swapHoldBlock randR (gc.credited p l) =
    ((swapHoldBlock randR gc).1.credited p l, (swapHoldBlock randR gc).2) := by
  rw [swapHoldBlock, swapHoldBlock]
  have hcount : (gc.credited p l).swapHBlockCount = gc.swapHBlockCount := rfl
  have hhold : (gc.credited p l).holdBlock = gc.holdBlock := rfl
  simp only [hcount, hhold]
  split_ifs <;> rfl

theorem view_credited : (generateGameViewData (gc.credited p l)).map Prod.fst =
    ((generateGameViewData gc).map Prod.fst).map (GameContents.credited · p l) := by
  have hdrop : dropBlock (gc.credited p l) (gc.credited p l).activeBlock =
      dropBlock gc gc.activeBlock := rfl
  rw [generateGameViewData, generateGameViewData, generateShadowBlock, generateShadowBlock, hdrop]
  cases dropBlock gc gc.activeBlock with
  | error e => rfl
  | ok block =>
    simp only [GameContents.credited]
    cases gc.board.mergeUnits BlockType.shadow.toInt ((getBlockPositions block).take maxBlockUnits) with
    | error e => rfl
    | ok board =>
      simp only
      cases board.mergeUnits gc.activeBlock.tetrisBlock.type.toInt
          ((getBlockPositions gc.activeBlock).take maxBlockUnits) with
      | error e => rfl
      | ok drawn => rfl

/-- The engine never reads the counters. -/
theorem engineStep_credited (op : Op) : engineStep randR (gc.credited p l) op =
    (engineStep randR gc op).map (GameContents.credited · p l) := by
  have hpair {x : Except Fault (GameContents × ℤ)} :
      (x.map fun r => (r.1.credited p l, r.2)).map Prod.fst =
        (x.map Prod.fst).map (GameContents.credited · p l) := by
    cases x with
    | error e => rfl
    | ok r => rfl
  have hview {x : Except Fault (GameContents × GameViewData)} :
      (x.map fun r => (r.1, (0 : ℤ))).map Prod.fst = x.map Prod.fst := by
    cases x with
    | error e => rfl
    | ok r => rfl
  -- the moves always return, and the other calls fail alike
  cases op with
  | translateLeft => exact congrArg (Except.ok ∘ Prod.fst) (translateBlockHelper_credited gc p l 1)
  | translateRight => exact congrArg (Except.ok ∘ Prod.fst) (translateBlockHelper_credited gc p l (-1))
  | rotate clockwise => exact congrArg (Except.ok ∘ Prod.fst) (rotateBlock_credited gc p l clockwise)
  | lower forced =>
    rw [engineStep, engineStep, Op.call, Op.call, lowerBlock_credited]
    exact hpair
  | hardDrop =>
    rw [engineStep, engineStep, Op.call, Op.call, hardDrop_credited]
    exact hpair
  | swapHold => exact congrArg (Except.ok ∘ Prod.fst) (swapHoldBlock_credited randR gc p l)
  | view => rw [engineStep, engineStep, Op.call, Op.call, hview, hview, view_credited]

theorem run_credited (ops : List Op) : run (engineStep randR) (gc.credited p l) ops =
    (run (engineStep randR) gc ops).map (GameContents.credited · p l) := by
  exact (@run_map _ _ _ (engineStep randR) _ (engineStep randR) (GameContents.credited · p l)
    (fun _ => True) ops (fun gc op _ _ => (engineStep_credited randR gc p l op).symm)
    (fun _ _ _ _ _ _ => trivial) gc trivial).symm

end Credit

end TetrisMint
