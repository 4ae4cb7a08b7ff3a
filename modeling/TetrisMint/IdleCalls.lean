import TetrisMint.GameOverFinal
import TetrisMint.Moves

/-! The calls that leave a game as it is, told from the state before them. -/
namespace TetrisMint

open FueledLoop

/-- The active block cannot be lowered, and the cells under its units hold its value already. -/
def RestsOnItself (gc : GameContents) : Prop :=
  ¬Fits gc.board (loweredBlock gc.activeBlock) ∧
    ∀ p ∈ getBlockPositions gc.activeBlock, gc.board.at p = gc.activeBlock.tetrisBlock.type.toInt

/-- A step aside without room, a turn without a table or an offset that fits, a swap too many, a
block that would be placed where it stands, a shadow that is drawn already. -/
def EngineIdle (gc : GameContents) : Op → Prop
  | .translateLeft => ¬Fits gc.board (shiftedBlock gc 1)
  | .translateRight => ¬Fits gc.board (shiftedBlock gc (-1))
  | .rotate clockwise =>
    ∀ m kicks, gc.activeBlock.tetrisBlock.srsMode = some m →
      IsKickList m gc.activeBlock.rotation (turnedRotation gc.activeBlock.rotation clockwise) kicks →
      ∀ t ∈ kicks,
        ¬Fits gc.board (kickedBlock gc (turnedRotation gc.activeBlock.rotation clockwise) t)
  | .lower forced => forced = 0 ∧ RestsOnItself gc
  | .hardDrop => RestsOnItself gc
  | .swapHold => maxSwapH ≤ gc.swapHBlockCount
  | .view => dropBlock gc gc.activeBlock = .ok gc.shadowBlock

theorem activeBlock_eq_of_eq {gc : GameContents} {block : ActiveBlock}
    (h : { gc with activeBlock := block } = gc) : block = gc.activeBlock :=
  congrArg GameContents.activeBlock h

theorem translate_idle_iff (gc : GameContents) {d : ℤ} (hd : d ≠ 0) :
    (translateBlockHelper gc d).1 = gc ↔ ¬Fits gc.board (shiftedBlock gc d) := by
  rw [translateBlockHelper_eq]
  split_ifs with hfit
  · refine iff_of_false ?_ (not_not.mpr hfit)
    -- the block would be in another column
    intro h
    have hx := congrArg (fun b => b.position.x) (activeBlock_eq_of_eq h)
    simp only [shiftedBlock] at hx
    omega
  · exact iff_of_true rfl hfit

theorem turnedRotation_ne (r : Rotation) (clockwise : ℤ) : turnedRotation r clockwise ≠ r := by
  by_cases hc : clockwise = 0
  · cases r <;> simp [turnedRotation, hc, Rotation.toNat, Rotation.ofRemainder, rotCount]
  · cases r <;> simp [turnedRotation, hc, Rotation.toNat, Rotation.ofRemainder, rotCount]

theorem rotate_idle_iff {gc : GameContents} (hi : EngineInv gc) (clockwise : ℤ) :
    (rotateBlock gc clockwise).1 = gc ↔ EngineIdle gc (.rotate clockwise) := by
  rw [EngineIdle]
  cases hm : gc.activeBlock.tetrisBlock.srsMode with
  | none =>
    -- the square block has no table of kicks and is never turned
    refine iff_of_true ?_ fun m _ h => absurd h (by simp)
    rw [rotateBlock, hm]
  | some m =>
    have hmode : m = srsModeStandard ∨ m = srsModeHero := by
      rcases srsMode_of_available hi.activePiece with h | h | h
      · exact absurd (hm.symm.trans h) (by simp)
      · exact Or.inl (Option.some.inj (hm.symm.trans h))
      · exact Or.inr (Option.some.inj (hm.symm.trans h))
    obtain ⟨kicks, hkicks, hfind⟩ := find_kickList hmode gc.activeBlock.rotation clockwise
    obtain ⟨hrefused, hturned⟩ := rotateBlock_kicks hm hfind
    constructor
    · -- a block that was turned has another rotation
      intro h m' kicks' hm' hkicks'
      obtain rfl := Option.some.inj hm'
      rw [← hkicks'.unique _ hkicks.listed rfl rfl]
      apply hrefused.mp
      intro hzero
      obtain ⟨pre, t, post, -, -, -, heq⟩ := hturned hzero
      rw [heq] at h
      exact turnedRotation_ne _ clockwise
        (congrArg ActiveBlock.rotation (activeBlock_eq_of_eq h))
    · exact fun h => rotateBlock_refused (hrefused.mpr (h m kicks rfl hkicks))

theorem swap_idle_iff (randR : RandR) (gc : GameContents) :
    (swapHoldBlock randR gc).1 = gc ↔ maxSwapH ≤ gc.swapHBlockCount := by
  have hcount (gc' : GameContents) (h : gc' = gc)
      (hmore : gc'.swapHBlockCount = gc.swapHBlockCount + 1) : False := by
    rw [h] at hmore
    omega
  rw [swapHoldBlock]
  split_ifs with hlimit hnone
  · exact iff_of_true rfl hlimit
  · exact iff_of_false (fun h => hcount _ h rfl) hlimit
  · exact iff_of_false (fun h => hcount _ h rfl) hlimit

section Randomness
variable (randR : RandR) {gc : GameContents}

/-- A block that lands onto itself does so in a game that is over. -/
theorem over_of_onto_itself {op : Op} {block : ActiveBlock} (hi : EngineInv gc)
    (hblock : placedBlock gc op = some block) (honto : PlacesOntoItself gc op) :
    gameOver gc.board ≠ 0 := by
  intro hlive
  obtain ⟨hpiece, -, hfits⟩ := placed_fits hi hblock
  obtain ⟨p, hp⟩ := List.exists_mem_of_ne_nil _ (getBlockPositions_ne_nil hpiece)
  -- in a game that is on the units are over empty cells
  have hfree := ((unitFree_iff _ _).mp (hfits hlive p hp)).2
  have hvalue := honto block hblock p hp
  exact toInt_ne_zero hpiece (hvalue.symm.trans hfree)

/-- What placing a block onto itself leaves of the game. -/
theorem engineStep_onto_itself {op : Op} {block : ActiveBlock} (hi : EngineInv gc)
    (hblock : placedBlock gc op = some block) (honto : PlacesOntoItself gc op) :
    engineStep randR gc op = .ok (enterPlace gc op block) := by
  obtain ⟨hpiece, hin, -⟩ := placed_fits hi hblock
  obtain ⟨merged, hm⟩ := mergeUnits_of_inside gc.board block.tetrisBlock.type.toInt hin
  obtain rfl := (merge_self_iff hm).mpr (honto block hblock)
  obtain ⟨s, hs, hboard, hculled⟩ := cullLoop_of_no_full hi.noFullRow
  have hover : gameOver s.board ≠ 0 := by
    rw [hboard]
    exact over_of_onto_itself hi hblock honto
  rw [engineStep, call_of_placed randR hblock, placeBlock_eq randR (enterPlace gc op block) hm hs,
    if_pos hover]
  simp only [Except.map, afterCull, enterPlace, hboard, hculled, cullPoints, Nat.cast_zero, add_zero]

/-- A placement changes nothing exactly when the block stands there already. -/
theorem placement_idle_iff {op : Op} {block : ActiveBlock} (hi : EngineInv gc)
    (hblock : placedBlock gc op = some block) : engineStep randR gc op = .ok gc ↔
      PlacesOntoItself gc op ∧ enterPlace gc op block = gc := by
  constructor
  · intro h
    have honto := (sameOutcome_iff randR hi h).mp (sameOutcome_refl gc)
    rw [engineStep_onto_itself randR hi hblock honto] at h
    exact ⟨honto, Except.ok.inj h⟩
  · rintro ⟨honto, hsame⟩
    rw [engineStep_onto_itself randR hi hblock honto, hsame]

theorem lower_idle_iff (hi : EngineInv gc) (forced : ℤ) :
    engineStep randR gc (.lower forced) = .ok gc ↔ forced = 0 ∧ RestsOnItself gc := by
  by_cases hfit : Fits gc.board (loweredBlock gc.activeBlock)
  · refine iff_of_false ?_ (fun h => h.2.1 hfit)
    rw [engineStep, Op.call, lowerBlock_eq, if_pos hfit]
    intro h
    have hy := congrArg (fun b => b.position.y) (activeBlock_eq_of_eq (Except.ok.inj h))
    simp only [loweredBlock] at hy
    omega
  · by_cases hwait : forced ≠ 0 ∧ gc.autoLowerCount < maxAutoLower
    · refine iff_of_false ?_ (fun h => hwait.1 h.1)
      rw [engineStep, Op.call, lowerBlock_eq, if_neg hfit, if_pos hwait]
      intro h
      have hcount := congrArg GameContents.autoLowerCount (Except.ok.inj h)
      simp only at hcount
      omega
    · have hblock : placedBlock gc (.lower forced) = some gc.activeBlock := by
        rw [placedBlock, if_neg hfit, if_neg hwait]
      rw [placement_idle_iff randR hi hblock, RestsOnItself, PlacesOntoItself, hblock]
      simp only [Option.some.injEq, forall_eq']
      by_cases hforced : forced = 0
      · have hsame : enterPlace gc (.lower forced) gc.activeBlock = gc := by
          simp only [enterPlace, hforced, ↓reduceIte]
        exact ⟨fun h => ⟨hforced, hfit, h.1⟩, fun h => ⟨h.2.2, hsame⟩⟩
      · refine iff_of_false ?_ (fun h => hforced h.1)
        -- gravity counts the rest, and only a new piece sets the counter back
        rintro ⟨-, h⟩
        have hcount := congrArg GameContents.autoLowerCount h
        simp only [enterPlace, if_neg hforced] at hcount
        omega

/-- A block that rests is not moved by the drop. -/
theorem dropBlock_resting (h : ¬Fits gc.board (loweredBlock gc.activeBlock)) :
    dropBlock gc gc.activeBlock = .ok gc.activeBlock := by
  let c : ActiveBlock → Bool := fun b => (lowerBlockHelper gc b).2 ≠ 0
  have hstop : c gc.activeBlock = false := by
    simp only [c, lowerBlockHelper_eq gc gc.activeBlock rfl, if_neg h, ne_eq, not_true_eq_false,
      decide_false]
  rw [dropBlock, iterate_exit c _ _ _ hstop]

theorem hardDrop_idle_iff (hi : EngineInv gc) :
    engineStep randR gc .hardDrop = .ok gc ↔ RestsOnItself gc := by
  obtain ⟨block, d, hdrop, -, hrest⟩ := dropBlock_spec gc gc.activeBlock rfl hi.activePiece
  have hblock : placedBlock gc .hardDrop = some block := by
    rw [placedBlock, hdrop]
    rfl
  rw [placement_idle_iff randR hi hblock, RestsOnItself, PlacesOntoItself, hblock]
  simp only [Option.some.injEq, forall_eq']
  constructor
  · rintro ⟨honto, hsame⟩
    obtain rfl : block = gc.activeBlock := activeBlock_eq_of_eq hsame
    exact ⟨hrest, honto⟩
  · rintro ⟨hresting, honto⟩
    rw [dropBlock_resting hresting, Except.ok.injEq] at hdrop
    exact hdrop ▸ ⟨honto, rfl⟩

/-- Drawing writes the shadow block and nothing else. -/
theorem engineStep_view (hi : EngineInv gc) {block : ActiveBlock}
    (hdrop : dropBlock gc gc.activeBlock = .ok block) :
    engineStep randR gc .view = .ok { gc with shadowBlock := block } := by
  have hnone : ¬TopRowFills gc .view := by
    simp only [TopRowFills, placedBlock, not_false_eq_true]
  obtain ⟨gc', h⟩ := (engineStep_returns_iff randR hi).mpr hnone
  rw [h]
  simp only [engineStep, Op.call, generateGameViewData, generateShadowBlock, hdrop] at h
  split at h
  · simp [Except.map] at h
  · split at h
    · simp [Except.map] at h
    · exact h.symm

/-- A call leaves a game as it is exactly when the state before it says so. -/
theorem engineStep_idle_iff (hi : EngineInv gc) (op : Op) :
    engineStep randR gc op = .ok gc ↔ EngineIdle gc op := by
  cases op with
  | translateLeft =>
    rw [engineStep, Op.call, Except.map, Except.ok.injEq]
    exact translate_idle_iff gc (by decide)
  | translateRight =>
    rw [engineStep, Op.call, Except.map, Except.ok.injEq]
    exact translate_idle_iff gc (by decide)
  | rotate clockwise =>
    rw [engineStep, Op.call, Except.map, Except.ok.injEq]
    exact rotate_idle_iff hi clockwise
  | lower forced => exact lower_idle_iff randR hi forced
  | hardDrop => exact hardDrop_idle_iff randR hi
  | swapHold =>
    rw [engineStep, Op.call, Except.map, Except.ok.injEq]
    exact swap_idle_iff randR gc
  | view =>
    obtain ⟨block, -, hdrop, -, -⟩ := dropBlock_spec gc gc.activeBlock rfl hi.activePiece
    rw [engineStep_view randR hi hdrop, EngineIdle, hdrop, Except.ok.injEq, Except.ok.injEq]
    constructor
    · exact fun h => congrArg GameContents.shadowBlock h
    · rintro rfl
      rfl

end Randomness

end TetrisMint
