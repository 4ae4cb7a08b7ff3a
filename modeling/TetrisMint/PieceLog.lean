import TetrisMint.LineClearing

/-! The engine with a log of the pieces it generates and places and of the swaps
that succeed. The log is written only, so that leaving it out gives the engine. -/
namespace TetrisMint

inductive LogEntry
  | generated (piece : TetrisBlock)
  /-- A placement and the number of rows that are full once the piece is merged. -/
  | placed (piece : TetrisBlock) (fullRows : ℕ)
  | swapped
deriving DecidableEq

structure Logged where
  gc : GameContents
  log : List LogEntry

def generatedPieces (log : List LogEntry) : List TetrisBlock :=
  log.filterMap fun
    | .generated piece => some piece
    | _ => none

def placedPieces (log : List LogEntry) : List TetrisBlock :=
  log.filterMap fun
    | .placed piece _ => some piece
    | _ => none

section Randomness
variable (randR : RandR)

/-- The log with the piece that `rand_r` has drawn for `next_block`. -/
def generateNewBlockLogged (l : Logged) : Logged :=
  let gc := generateNewBlock randR l.gc
  ⟨gc, l.log ++ [.generated gc.nextBlock]⟩

/-- Two pieces are drawn: the one that becomes active and the next one. -/
def newSeededGameLogged (seed : BitVec 32) : Logged :=
  let gc := newSeededGame randR seed
  ⟨gc, [.generated gc.activeBlock.tetrisBlock, .generated gc.nextBlock]⟩

def placeBlockLogged (l : Logged) : Except Fault (Logged × ℤ) :=
  match l.gc.board.mergeUnits l.gc.activeBlock.tetrisBlock.type.toInt
    (getBlockPositions l.gc.activeBlock) with
  | .error e => .error e
  | .ok board =>
    match cullLines { l.gc with board := board } with
    | .error e => .error e
    | .ok gc =>
      let placed : Logged :=
        ⟨gc, l.log ++ [.placed l.gc.activeBlock.tetrisBlock (board.toList.countP rowFull)]⟩
      if gameOver gc.board ≠ 0 then .ok (placed, 2)
      else
        let next := generateNewBlockLogged randR placed
        .ok (⟨{ next.gc with swapHBlockCount := 0, autoLowerCount := 0 }, next.log⟩, 0)

def lowerBlockLogged (l : Logged) (forced : ℤ) : Except Fault (Logged × ℤ) :=
  let r := lowerBlockHelper l.gc l.gc.activeBlock
  if r.2 ≠ 0 then .ok (⟨{ l.gc with activeBlock := r.1 }, l.log⟩, r.2)
  else if forced = 0 then placeBlockLogged randR l
  else
    let counted : Logged := ⟨{ l.gc with autoLowerCount := l.gc.autoLowerCount + 1 }, l.log⟩
    if maxAutoLower ≤ l.gc.autoLowerCount then placeBlockLogged randR counted else .ok (counted, -1)

def hardDropLogged (l : Logged) : Except Fault (Logged × ℤ) :=
  match dropBlock l.gc l.gc.activeBlock with
  | .error e => .error e
  | .ok block => placeBlockLogged randR ⟨{ l.gc with activeBlock := block }, l.log⟩

def swapHoldBlockLogged (l : Logged) : Logged × ℤ :=
  if maxSwapH ≤ l.gc.swapHBlockCount then (l, -1)
  else if l.gc.holdBlock.type = .noType then
    let next := generateNewBlockLogged randR
      ⟨{ l.gc with holdBlock := l.gc.activeBlock.tetrisBlock }, l.log⟩
    (⟨{ next.gc with swapHBlockCount := l.gc.swapHBlockCount + 1 }, next.log ++ [.swapped]⟩, 0)
  else
    (⟨{ l.gc with
        holdBlock := l.gc.activeBlock.tetrisBlock
        activeBlock := spawnActiveBlock l.gc.holdBlock
        swapHBlockCount := l.gc.swapHBlockCount + 1 }, l.log ++ [.swapped]⟩, 0)

/-- A call with its log; the calls left over neither generate, place nor swap. -/
def Op.callLogged (op : Op) (l : Logged) : Except Fault (Logged × ℤ) :=
  match op with
  | .lower forced => lowerBlockLogged randR l forced
  | .hardDrop => hardDropLogged randR l
  | .swapHold => .ok (swapHoldBlockLogged randR l)
  | op => (op.call randR l.gc).map fun r => (⟨r.1, l.log⟩, r.2)

def loggedStep (l : Logged) (op : Op) : Except Fault Logged :=
  (op.callLogged randR l).map Prod.fst

/-- The call without its log. -/
def unlogged (r : Logged × ℤ) : GameContents × ℤ := (r.1.gc, r.2)

theorem placeBlockLogged_unlogged (l : Logged) :
    (placeBlockLogged randR l).map unlogged = placeBlock randR l.gc := by
  unfold placeBlockLogged placeBlock
  cases l.gc.board.mergeUnits l.gc.activeBlock.tetrisBlock.type.toInt
    (getBlockPositions l.gc.activeBlock) with
  | error e => rfl
  | ok board =>
    dsimp only
    cases cullLines { l.gc with board := board } with
    | error e => rfl
    | ok gc =>
      dsimp only
      split_ifs
      · rfl
      · rfl

/-- The log changes no state and no return value. -/
theorem callLogged_unlogged (op : Op) (l : Logged) :
    (op.callLogged randR l).map unlogged = op.call randR l.gc := by
  cases op with
  | lower forced =>
    simp only [Op.callLogged, Op.call, lowerBlockLogged, lowerBlock]
    split_ifs
    · rfl
    · exact placeBlockLogged_unlogged randR l
    · apply placeBlockLogged_unlogged
    · rfl
  | hardDrop =>
    simp only [Op.callLogged, Op.call, hardDropLogged, hardDrop]
    cases dropBlock l.gc l.gc.activeBlock with
    | error e => rfl
    | ok block => apply placeBlockLogged_unlogged
  | swapHold =>
    simp only [Op.callLogged, Op.call, swapHoldBlockLogged, swapHoldBlock]
    split_ifs
    · rfl
    · rfl
    · rfl
  | view =>
    simp only [Op.callLogged]
    cases Op.call randR .view l.gc with
    | error e => rfl
    | ok r => rfl
  | _ => rfl

theorem loggedStep_unlogged (l : Logged) (op : Op) :
    (loggedStep randR l op).map Logged.gc = engineStep randR l.gc op := by
  rw [loggedStep, engineStep, ← callLogged_unlogged]
  cases op.callLogged randR l with
  | error e => rfl
  | ok r => rfl

/-- What one call does in a game that is on, with the log it leaves. -/
inductive LoggedCall (l : Logged) : Logged → Prop
  | moved (gc : GameContents) (h : Moved l.gc gc) : LoggedCall l ⟨gc, l.log⟩
  | held (hcount : l.gc.swapHBlockCount < maxSwapH) (hhold : l.gc.holdBlock.type = .noType) :
    LoggedCall l
      ⟨{ generateNewBlock randR { l.gc with holdBlock := l.gc.activeBlock.tetrisBlock } with
          swapHBlockCount := l.gc.swapHBlockCount + 1 },
        l.log ++ [.generated (drawBlock (randR l.gc.seed).1)] ++ [.swapped]⟩
  | exchanged (hcount : l.gc.swapHBlockCount < maxSwapH) (hhold : l.gc.holdBlock.type ≠ .noType) :
    LoggedCall l
      ⟨{ l.gc with
          holdBlock := l.gc.activeBlock.tetrisBlock
          activeBlock := spawnActiveBlock l.gc.holdBlock
          swapHBlockCount := l.gc.swapHBlockCount + 1 }, l.log ++ [.swapped]⟩
  | ended (op : Op) (block : ActiveBlock) (B : Board) (s : CullState)
    (hblock : placedBlock l.gc op = some block)
    (hm : l.gc.board.mergeUnits block.tetrisBlock.type.toInt (getBlockPositions block) = .ok B)
    (hs : cullLoop B = some s) (hover : gameOver s.board ≠ 0) :
    LoggedCall l
      ⟨afterCull (enterPlace l.gc op block) s,
        l.log ++ [.placed block.tetrisBlock (B.toList.countP rowFull)]⟩
  | placed (op : Op) (block : ActiveBlock) (B : Board) (s : CullState)
    (hblock : placedBlock l.gc op = some block)
    (hm : l.gc.board.mergeUnits block.tetrisBlock.type.toInt (getBlockPositions block) = .ok B)
    (hs : cullLoop B = some s) (hlive : gameOver s.board = 0) :
    LoggedCall l
      ⟨respawn randR (afterCull (enterPlace l.gc op block) s),
        l.log ++ [.placed block.tetrisBlock (B.toList.countP rowFull)] ++
          [.generated (drawBlock (randR l.gc.seed).1)]⟩

theorem placeBlockLogged_eq (l : Logged) {B : Board} {s : CullState}
    (hm : l.gc.board.mergeUnits l.gc.activeBlock.tetrisBlock.type.toInt
      (getBlockPositions l.gc.activeBlock) = .ok B)
    (hs : cullLoop B = some s) :
    placeBlockLogged randR l =
      if gameOver s.board ≠ 0 then
        .ok (⟨afterCull l.gc s,
          l.log ++ [.placed l.gc.activeBlock.tetrisBlock (B.toList.countP rowFull)]⟩, 2)
      else
        .ok (⟨respawn randR (afterCull l.gc s),
          l.log ++ [.placed l.gc.activeBlock.tetrisBlock (B.toList.countP rowFull)] ++
            [.generated (drawBlock (randR l.gc.seed).1)]⟩, 0) := by
  simp only [placeBlockLogged, hm, cullLines, hs]
  rfl

/-- The logged call that places a block ends as the logged `place_block` does. -/
theorem callLogged_of_placed {l : Logged} {op : Op} {block : ActiveBlock}
    (h : placedBlock l.gc op = some block) :
    op.callLogged randR l = placeBlockLogged randR ⟨enterPlace l.gc op block, l.log⟩ := by
  cases op with
  | lower forced =>
    -- the block rests on something, and the call is forced or the delay is used up
    simp only [placedBlock] at h
    split_ifs at h with hfit hrest
    rw [Option.some_inj] at h
    subst h
    rw [not_and_or, not_not, not_lt] at hrest
    simp only [Op.callLogged, lowerBlockLogged, lowerBlockHelper_eq l.gc l.gc.activeBlock rfl, hfit,
      ↓reduceIte, ne_eq, not_true_eq_false]
    by_cases hforced : forced = 0
    · simp only [hforced, enterPlace, ↓reduceIte]
    · have hcount := hrest.resolve_left hforced
      simp only [hforced, hcount, enterPlace, ↓reduceIte]
  | hardDrop =>
    cases hd : dropBlock l.gc l.gc.activeBlock with
    | error e => simp [placedBlock, hd, Except.toOption] at h
    | ok b =>
      simp only [placedBlock, hd, Except.toOption, Option.some_inj] at h
      simp only [Op.callLogged, hardDropLogged, hd, h, enterPlace]
  | _ => simp [placedBlock] at h

/-- Only swaps and placements write to the log. -/
theorem callLogged_of_not_placed {l : Logged} {op : Op} (hblock : placedBlock l.gc op = none)
    (hswap : op ≠ .swapHold) :
    op.callLogged randR l = (op.call randR l.gc).map fun r => (⟨r.1, l.log⟩, r.2) := by
  cases op with
  | lower forced =>
    simp only [placedBlock] at hblock
    simp only [Op.callLogged, Op.call, lowerBlockLogged, lowerBlock,
      lowerBlockHelper_eq l.gc l.gc.activeBlock rfl]
    split_ifs at hblock ⊢ with hfit hrest <;> first | rfl | omega
  | hardDrop =>
    cases hd : dropBlock l.gc l.gc.activeBlock with
    | error e => simp only [Op.callLogged, Op.call, hardDropLogged, hardDrop, hd, Except.map]
    | ok b => simp [placedBlock, hd, Except.toOption] at hblock
  | swapHold => exact absurd rfl hswap
  | _ => rfl

/-- In a game that is on every call returns. -/
theorem loggedStep_live {l : Logged} (op : Op) (hi : EngineInv l.gc) (hlive : gameOver l.gc.board = 0) :
    ∃ l', loggedStep randR l op = .ok l' ∧ LoggedCall randR l l' := by
  cases hblock : placedBlock l.gc op with
  | some block =>
    obtain ⟨B, s, hm, hs, -⟩ := live_placement hi hlive hblock
    have hcall := callLogged_of_placed randR hblock
    rw [placeBlockLogged_eq randR ⟨enterPlace l.gc op block, l.log⟩ hm hs] at hcall
    simp only [loggedStep, hcall]
    split_ifs with hover
    · exact ⟨_, rfl, .ended op block B s hblock hm hs hover⟩
    · exact ⟨_, rfl, .placed op block B s hblock hm hs (not_ne_iff.mp hover)⟩
  | none =>
    obtain ⟨⟨gc', ret⟩, hr⟩ := call_of_not_placed randR hi hblock
    -- what is not placed is a swap or a move
    by_cases hswap : op = .swapHold
    · subst hswap
      simp only [loggedStep, Op.callLogged, swapHoldBlockLogged]
      split_ifs with hlimit hhold
      · exact ⟨_, rfl, .moved l.gc (moved_refl l.gc)⟩
      · exact ⟨_, rfl, .held (not_le.mp hlimit) hhold⟩
      · exact ⟨_, rfl, .exchanged (not_le.mp hlimit) hhold⟩
    · refine ⟨⟨gc', l.log⟩, ?_, .moved gc' ?_⟩
      · rw [loggedStep, callLogged_of_not_placed randR hblock hswap, hr]
        rfl
      · rcases call_cases randR hi.activePiece hr with ⟨-, hmoved⟩ | ⟨hop, -⟩ | ⟨block, hsome, -⟩
        · exact hmoved
        · exact absurd hop hswap
        · rw [hblock] at hsome
          exact absurd hsome (by simp)

theorem loggedStep_inv {l l' : Logged} {op : Op} (hi : EngineInv l.gc)
    (h : loggedStep randR l op = .ok l') : EngineInv l'.gc ∧ engineStep randR l.gc op = .ok l'.gc := by
  have hstep : engineStep randR l.gc op = .ok l'.gc := by
    rw [← loggedStep_unlogged, h]
    rfl
  exact ⟨engineStep_inv randR hi hstep, hstep⟩

/-- The run rule: a run that makes no call once the game is over returns, and
what each of its calls keeps holds at its end. -/
theorem live_run {I : Logged → Prop}
    (hstep : ∀ l l', EngineInv l.gc → gameOver l.gc.board = 0 → LoggedCall randR l l' → I l → I l')
    {l : Logged} {ops : List Op} (hi : EngineInv l.gc) (h : I l)
    (hlive : FallibleRun.Along (engineStep randR) (fun gc _ => gameOver gc.board = 0) l.gc ops) :
    ∃ l', FallibleRun.run (loggedStep randR) l ops = .ok l' ∧
      FallibleRun.run (engineStep randR) l.gc ops = .ok l'.gc ∧ I l' := by
  -- the run of the engine goes along, since the condition is one on its states
  induction ops generalizing l with
  | nil => exact ⟨l, rfl, rfl, h⟩
  | cons op ops ih =>
    obtain ⟨t, ht, hcall⟩ := loggedStep_live randR op hi hlive.1
    obtain ⟨hinv, hengine⟩ := loggedStep_inv randR hi ht
    have hI : I t := hstep l t hi hlive.1 hcall h
    obtain ⟨l', hrun, hrun', hI'⟩ := ih hinv hI (hlive.2 t.gc hengine)
    refine ⟨l', ?_, ?_, hI'⟩
    · rw [FallibleRun.run_cons_ok _ _ ht, hrun]
    · rw [FallibleRun.run_cons_ok _ _ hengine, hrun']

end Randomness

end TetrisMint
