import TetrisMint.Engine

/-! What one engine call can do: it moves the active block, swaps it, or places a block. -/
namespace TetrisMint
open FueledLoop

/-- All units of the block lie inside the board on empty cells. -/
def Fits (b : Board) (block : ActiveBlock) : Prop := ∀ p ∈ getBlockPositions block, b.unitFree p = true

instance (b : Board) (block : ActiveBlock) : Decidable (Fits b block) :=
  inferInstanceAs (Decidable (∀ p ∈ getBlockPositions block, b.unitFree p = true))

def UnitsInside (block : ActiveBlock) : Prop := ∀ p ∈ getBlockPositions block, p.inside

def loweredBlock (block : ActiveBlock) : ActiveBlock :=
  { block with position := ⟨block.position.x, block.position.y - 1⟩ }

theorem fits_inside {b : Board} {block : ActiveBlock} (h : Fits b block) : UnitsInside block :=
  fun p hp => ((unitFree_iff b p).mp (h p hp)).1

theorem testBlock_eq_zero_iff (gc : GameContents) (newBlock : ActiveBlock)
    (h : newBlock.tetrisBlock = gc.activeBlock.tetrisBlock) :
    testBlock gc newBlock = 0 ↔ Fits gc.board newBlock := by
  -- the loop looks at as many units as the active piece has
  have hlen : (getBlockPositions newBlock).length ≤ gc.activeBlock.tetrisBlock.cellCount := by
    rw [length_getBlockPositions, h]
  unfold testBlock
  rw [List.take_of_length_le hlen]
  split_ifs with hall
  · exact ⟨fun _ => List.all_eq_true.mp hall, fun _ => rfl⟩
  · exact ⟨fun hne => absurd hne (by decide), fun hf => absurd (List.all_eq_true.mpr hf) hall⟩

theorem lowerBlockHelper_eq (gc : GameContents) (block : ActiveBlock)
    (h : block.tetrisBlock = gc.activeBlock.tetrisBlock) :
    lowerBlockHelper gc block =
      if Fits gc.board (loweredBlock block) then (loweredBlock block, -1) else (block, 0) := by
  have htest := testBlock_eq_zero_iff gc (loweredBlock block) h
  simp only [← htest]
  rfl

theorem translateBlockHelper_cases (gc : GameContents) (d : ℤ) :
    translateBlockHelper gc d = (gc, -1) ∨
      ∃ block, translateBlockHelper gc d = ({ gc with activeBlock := block }, 0) ∧
        block.tetrisBlock = gc.activeBlock.tetrisBlock ∧ Fits gc.board block := by
  unfold translateBlockHelper
  dsimp only
  split_ifs with h
  · refine Or.inr ⟨_, rfl, ?_, (testBlock_eq_zero_iff gc _ ?_).mp h⟩ <;> rfl
  · exact Or.inl rfl

theorem rotateBlock_cases (gc : GameContents) (clockwise : ℤ) :
    (rotateBlock gc clockwise).1 = gc ∨
      ∃ block, rotateBlock gc clockwise = ({ gc with activeBlock := block }, 0) ∧
        block.tetrisBlock = gc.activeBlock.tetrisBlock ∧ Fits gc.board block := by
  unfold rotateBlock
  split
  · exact Or.inl rfl
  · dsimp only
    split
    · exact Or.inl rfl
    · split
      case h_1 srsTest hfind =>
        have htest := List.find?_some hfind
        rw [decide_eq_true_iff] at htest
        refine Or.inr ⟨_, rfl, ?_, (testBlock_eq_zero_iff gc _ ?_).mp htest⟩ <;> rfl
      case h_2 => exact Or.inl rfl

/-- A block that came down `d` rows through free cells. -/
def DropsBy (b : Board) (block block' : ActiveBlock) (d : ℕ) : Prop :=
  block' = { block with position := ⟨block.position.x, block.position.y - d⟩ } ∧
    (0 < d → Fits b block')

theorem getBlockPositions_ne_nil {block : ActiveBlock} (h : block.tetrisBlock ∈ availableBlocks) :
    getBlockPositions block ≠ [] := by
  apply List.ne_nil_of_length_pos
  rw [length_getBlockPositions, cellCount_eq_four h]
  decide

/-- The drop loop always ends: it lowers the block through free cells to where
it cannot be lowered. -/
theorem dropBlock_spec (gc : GameContents) (block : ActiveBlock)
    (hp : block.tetrisBlock = gc.activeBlock.tetrisBlock)
    (ha : gc.activeBlock.tetrisBlock ∈ availableBlocks) :
    ∃ block' d, dropBlock gc block = .ok block' ∧ DropsBy gc.board block block' d ∧
      ¬Fits gc.board (loweredBlock block') := by
  let c : ActiveBlock → Bool := fun b => (lowerBlockHelper gc b).2 ≠ 0
  let f : ActiveBlock → ActiveBlock := fun b => (lowerBlockHelper gc b).1
  -- the invariant: so far the block came straight down through free cells
  let I : ActiveBlock → Prop := fun b => ∃ d, DropsBy gc.board block b d
  have hpiece (b : ActiveBlock) (hb : I b) : b.tetrisBlock = gc.activeBlock.tetrisBlock := by
    obtain ⟨d, rfl, _⟩ := hb
    exact hp
  have hguard (b : ActiveBlock) (hb : I b) : c b = true ↔ Fits gc.board (loweredBlock b) := by
    simp only [c, lowerBlockHelper_eq gc b (hpiece b hb)]
    split_ifs with h <;> simp [h]
  have hbody (b : ActiveBlock) (hb : I b) (hc : c b = true) : f b = loweredBlock b := by
    simp only [f, lowerBlockHelper_eq gc b (hpiece b hb), (hguard b hb).mp hc, ↓reduceIte]
  have hstep (b : ActiveBlock) (hb : I b) (hc : c b = true) : I (f b) := by
    rw [hbody b hb hc]
    have hfit := (hguard b hb).mp hc
    obtain ⟨d, rfl, _⟩ := hb
    refine ⟨d + 1, ?_, fun _ => hfit⟩
    simp only [loweredBlock, ActiveBlock.mk.injEq, Position.mk.injEq, true_and]
    push_cast
    ring
  -- the lowest unit that a lowered block has bounds the number of rows left
  obtain ⟨o, os, ho⟩ := List.exists_cons_of_ne_nil
    (getBlockPositions_ne_nil (hp ▸ ha : block.tetrisBlock ∈ availableBlocks))
  let height : ActiveBlock → ℤ := fun b => o.y + (b.position.y - block.position.y)
  have hunit (b : ActiveBlock) (hb : I b) :
      (⟨o.x, height (loweredBlock b)⟩ : Position) ∈ getBlockPositions (loweredBlock b) := by
    obtain ⟨d, rfl, _⟩ := hb
    have hmem : o ∈ getBlockPositions block := ho ▸ List.mem_cons_self ..
    obtain ⟨off, hoff, rfl⟩ := List.mem_map.mp hmem
    refine List.mem_map.mpr ⟨off, hoff, ?_⟩
    simp only [loweredBlock, height, Position.mk.injEq, true_and]
    ring
  have hheight (b : ActiveBlock) (hb : I b) (hc : c b = true) :
      1 ≤ height b ∧ height b ≤ boardHeight ∧ height (f b) = height b - 1 := by
    have hfit := (hguard b hb).mp hc
    have hin := ((unitFree_iff _ _).mp (hfit _ (hunit b hb))).1
    rw [hbody b hb hc]
    simp only [Position.inside, height, loweredBlock] at hin ⊢
    omega
  -- above the board nothing fits, so the measure starts at the top of the board at most
  have hμ (b : ActiveBlock) (hb : I b) (hc : c b = true) :
      (min (height (f b)) boardHeight).toNat < (min (height b) boardHeight).toNat := by
    have := hheight b hb hc
    omega
  have hstart : I block := by
    refine ⟨0, ?_, fun h => absurd h (by decide)⟩
    simp
  have hbound : (min (height block) boardHeight).toNat ≤ dropBound := by
    simp only [dropBound, boardHeight]
    omega
  obtain ⟨block', hrun⟩ := iterate_of_measure c f I (fun b => (min (height b) boardHeight).toNat)
    hstep hμ hstart hbound
  obtain ⟨hI, hexit⟩ := iterate_invariant c f I hstep hstart hrun
  obtain ⟨d, hd⟩ := id hI
  refine ⟨block', d, ?_, hd, ?_⟩
  · simp only [c, f] at hrun
    simp only [dropBlock, hrun]
  · intro hfit
    rw [(hguard block' hI).mpr hfit] at hexit
    exact absurd hexit (by decide)

/-- The state after the merge and the culling of a placement. -/
def afterCull (gc : GameContents) (s : CullState) : GameContents :=
  { gc with
    board := s.board
    linesCleared := gc.linesCleared + s.linesCulled
    points := gc.points + cullPoints s.linesCulled }

section Randomness
variable (randR : RandR)

/-- The next block made active, with both counters reset. -/
def respawn (gc : GameContents) : GameContents :=
  { generateNewBlock randR gc with swapHBlockCount := 0, autoLowerCount := 0 }

theorem placeBlock_eq (gc : GameContents) {merged : Board} {s : CullState}
    (hm : gc.board.mergeUnits gc.activeBlock.tetrisBlock.type.toInt
      (getBlockPositions gc.activeBlock) = .ok merged)
    (hs : cullLoop merged = some s) :
    placeBlock randR gc =
      if gameOver s.board ≠ 0 then .ok (afterCull gc s, 2)
      else .ok (respawn randR (afterCull gc s), 0) := by
  simp only [placeBlock, hm, cullLines, hs]
  rfl

/-- What a placement that returns has done: merged the block, culled, and ended the game or spawned. -/
theorem placeBlock_returns {gc gc' : GameContents} {ret : ℤ}
    (h : placeBlock randR gc = .ok (gc', ret)) :
    ∃ merged s, gc.board.mergeUnits gc.activeBlock.tetrisBlock.type.toInt
      (getBlockPositions gc.activeBlock) = .ok merged ∧ cullLoop merged = some s ∧
      ((gameOver s.board ≠ 0 ∧ gc' = afterCull gc s ∧ ret = 2) ∨
        (gameOver s.board = 0 ∧ gc' = respawn randR (afterCull gc s) ∧ ret = 0)) := by
  cases hm : gc.board.mergeUnits gc.activeBlock.tetrisBlock.type.toInt
      (getBlockPositions gc.activeBlock) with
  | error e => simp [placeBlock, hm] at h
  | ok merged =>
    cases hs : cullLoop merged with
    | none => simp [placeBlock, hm, cullLines, hs] at h
    | some s =>
      refine ⟨merged, s, rfl, hs, ?_⟩
      rw [placeBlock_eq randR gc hm hs] at h
      split_ifs at h with hover
      · rw [Except.ok.injEq, Prod.mk.injEq] at h
        exact Or.inl ⟨hover, h.1.symm, h.2.symm⟩
      · rw [Except.ok.injEq, Prod.mk.injEq] at h
        exact Or.inr ⟨not_ne_iff.mp hover, h.1.symm, h.2.symm⟩

/-- The block that a call places: a block that `lower_block` finds resting and
does not let rest any longer, or the one `hard_drop` has brought down. -/
def placedBlock (gc : GameContents) : Op → Option ActiveBlock
  | .lower forced =>
    if Fits gc.board (loweredBlock gc.activeBlock) then none
    else if forced ≠ 0 ∧ gc.autoLowerCount < maxAutoLower then none
    else some gc.activeBlock
  | .hardDrop => (dropBlock gc gc.activeBlock).toOption
  | _ => none

/-- The state in which a call that places a block enters `place_block`. -/
def enterPlace (gc : GameContents) (op : Op) (block : ActiveBlock) : GameContents :=
  { gc with
    activeBlock := block
    autoLowerCount :=
      match op with
      | .lower forced => if forced = 0 then gc.autoLowerCount else gc.autoLowerCount + 1
      | _ => gc.autoLowerCount }

/-- The call left everything but the pose, the rest counter and the shadow alone. -/
structure Moved (gc gc' : GameContents) : Prop where
  board : gc'.board = gc.board
  points : gc'.points = gc.points
  linesCleared : gc'.linesCleared = gc.linesCleared
  swapHBlockCount : gc'.swapHBlockCount = gc.swapHBlockCount
  seed : gc'.seed = gc.seed
  nextBlock : gc'.nextBlock = gc.nextBlock
  holdBlock : gc'.holdBlock = gc.holdBlock
  activeBlock : gc'.activeBlock = gc.activeBlock ∨
    gc'.activeBlock.tetrisBlock = gc.activeBlock.tetrisBlock ∧ Fits gc.board gc'.activeBlock

theorem moved_refl (gc : GameContents) : Moved gc gc :=
  ⟨rfl, rfl, rfl, rfl, rfl, rfl, rfl, Or.inl rfl⟩

theorem lowerBlock_eq (gc : GameContents) (forced : ℤ) :
    lowerBlock randR gc forced =
      if Fits gc.board (loweredBlock gc.activeBlock) then
        .ok ({ gc with activeBlock := loweredBlock gc.activeBlock }, -1)
      else if forced ≠ 0 ∧ gc.autoLowerCount < maxAutoLower then
        .ok ({ gc with autoLowerCount := gc.autoLowerCount + 1 }, -1)
      else placeBlock randR (enterPlace gc (.lower forced) gc.activeBlock) := by
  unfold lowerBlock
  rw [lowerBlockHelper_eq gc gc.activeBlock rfl]
  by_cases hfit : Fits gc.board (loweredBlock gc.activeBlock)
  · simp [hfit]
  · by_cases hforced : forced = 0
    · simp [hfit, hforced, enterPlace]
    · by_cases hcount : gc.autoLowerCount < maxAutoLower
      · simp [hfit, hforced, hcount]
      · simp [hfit, hforced, hcount, enterPlace, not_lt.mp hcount]

/-- A call that places a block ends as `place_block` does. -/
theorem call_of_placed {gc : GameContents} {op : Op} {block : ActiveBlock}
    (h : placedBlock gc op = some block) : op.call randR gc = placeBlock randR (enterPlace gc op block) := by
  cases op with
  | lower forced =>
    simp only [placedBlock] at h
    split_ifs at h with hfit hrest
    rw [Option.some_inj] at h
    subst h
    simp only [Op.call, lowerBlock_eq, hfit, hrest, ↓reduceIte]
  | hardDrop =>
    cases hd : dropBlock gc gc.activeBlock with
    | error e => simp [placedBlock, hd, Except.toOption] at h
    | ok b =>
      simp only [placedBlock, hd, Except.toOption, Option.some_inj] at h
      simp only [Op.call, hardDrop, hd, h, enterPlace]
  | _ => simp [placedBlock] at h

/-- What a call that returns has done: a move, a swap, or a placement. -/
theorem call_cases {gc gc' : GameContents} {op : Op} {ret : ℤ}
    (ha : gc.activeBlock.tetrisBlock ∈ availableBlocks) (h : op.call randR gc = .ok (gc', ret)) :
    placedBlock gc op = none ∧ Moved gc gc' ∨
      op = .swapHold ∧ gc.swapHBlockCount < maxSwapH ∧ swapHoldBlock randR gc = (gc', ret) ∨
      ∃ block, placedBlock gc op = some block ∧
        placeBlock randR (enterPlace gc op block) = .ok (gc', ret) := by
  -- translating and rotating either fail or move the block to free cells
  have hpose (r : GameContents × ℤ) (hr : r.1 = gc ∨ ∃ block,
      r = ({ gc with activeBlock := block }, 0) ∧
        block.tetrisBlock = gc.activeBlock.tetrisBlock ∧ Fits gc.board block) : Moved gc r.1 := by
    rcases hr with hr | ⟨block, rfl, hp, hfit⟩
    · exact hr ▸ moved_refl gc
    · exact ⟨rfl, rfl, rfl, rfl, rfl, rfl, rfl, Or.inr ⟨hp, hfit⟩⟩
  cases op with
  | translateLeft =>
    rw [Op.call, Except.ok.injEq] at h
    refine Or.inl ⟨rfl, ?_⟩
    have := hpose _ ((translateBlockHelper_cases gc 1).imp (congrArg Prod.fst) id)
    rwa [← translateBlockLeft, h] at this
  | translateRight =>
    rw [Op.call, Except.ok.injEq] at h
    refine Or.inl ⟨rfl, ?_⟩
    have := hpose _ ((translateBlockHelper_cases gc (-1)).imp (congrArg Prod.fst) id)
    rwa [← translateBlockRight, h] at this
  | rotate clockwise =>
    rw [Op.call, Except.ok.injEq] at h
    refine Or.inl ⟨rfl, ?_⟩
    have := hpose _ (rotateBlock_cases gc clockwise)
    rwa [h] at this
  | lower forced =>
    rw [Op.call, lowerBlock_eq] at h
    simp only [placedBlock]
    split_ifs at h ⊢ with hfit hrest
    · rw [Except.ok.injEq, Prod.mk.injEq] at h
      refine Or.inl ⟨rfl, h.1 ▸ ⟨rfl, rfl, rfl, rfl, rfl, rfl, rfl, Or.inr ⟨rfl, hfit⟩⟩⟩
    · rw [Except.ok.injEq, Prod.mk.injEq] at h
      exact Or.inl ⟨rfl, h.1 ▸ ⟨rfl, rfl, rfl, rfl, rfl, rfl, rfl, Or.inl rfl⟩⟩
    · exact Or.inr (Or.inr ⟨_, rfl, h⟩)
  | hardDrop =>
    obtain ⟨block, d, hd, -, -⟩ := dropBlock_spec gc gc.activeBlock rfl ha
    refine Or.inr (Or.inr ⟨block, by simp [placedBlock, hd, Except.toOption], ?_⟩)
    simpa only [Op.call, hardDrop, hd, enterPlace] using h
  | swapHold =>
    rw [Op.call, Except.ok.injEq] at h
    -- a swap that is refused changes nothing
    by_cases hlimit : maxSwapH ≤ gc.swapHBlockCount
    · simp only [swapHoldBlock, hlimit, ↓reduceIte, Prod.mk.injEq] at h
      exact Or.inl ⟨rfl, h.1 ▸ moved_refl gc⟩
    · exact Or.inr (Or.inl ⟨rfl, not_le.mp hlimit, h⟩)
  | view =>
    refine Or.inl ⟨rfl, ?_⟩
    obtain ⟨block, d, hd, -, -⟩ := dropBlock_spec gc gc.activeBlock rfl ha
    -- drawing writes the shadow block and nothing else
    simp only [Op.call, generateGameViewData, generateShadowBlock, hd] at h
    split at h
    · simp [Except.map] at h
    · split at h
      · simp [Except.map] at h
      · simp only [Except.map, Except.ok.injEq, Prod.mk.injEq] at h
        exact h.1 ▸ ⟨rfl, rfl, rfl, rfl, rfl, rfl, rfl, Or.inl rfl⟩

end Randomness

end TetrisMint
