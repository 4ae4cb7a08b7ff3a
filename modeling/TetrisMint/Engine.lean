import TetrisMint.CullLines
import TetrisMint.FallibleRun

/-! The engine of `tetris_game.c`: the game state and the operations on it. -/
namespace TetrisMint
open FueledLoop

def maxBlockUnits : ℕ := 4

def maxAutoLower : ℤ := 3

def maxSwapH : ℤ := 1

/-- `rand_r`: the drawn number and the seed it leaves behind. -/
abbrev RandR := BitVec 32 → ℕ × BitVec 32

structure GameContents where
  points : ℤ
  linesCleared : ℤ
  autoLowerCount : ℤ
  swapHBlockCount : ℤ
  board : Board
  seed : BitVec 32
  nextBlock : TetrisBlock
  holdBlock : TetrisBlock
  activeBlock : ActiveBlock
  shadowBlock : ActiveBlock
deriving DecidableEq

structure GameViewData where
  points : ℤ
  linesCleared : ℤ
  nextBlock : BlockType
  holdBlock : BlockType
  board : Board
deriving DecidableEq

/-- The zeroed block that `calloc` hands out. -/
def callocBlock : ActiveBlock := ⟨tetrisBlockNull, .none, ⟨0, 0⟩⟩

/-- 0 when the block can be placed where it is. As in the source the number of
units looked at is that of the active block. -/
def testBlock (gc : GameContents) (newBlock : ActiveBlock) : ℤ :=
  if ((getBlockPositions newBlock).take gc.activeBlock.tetrisBlock.cellCount).all gc.board.unitFree
  then 0 else -2

def translateBlockHelper (gc : GameContents) (distance : ℤ) : GameContents × ℤ :=
  let newBlock := { gc.activeBlock with
    position := ⟨gc.activeBlock.position.x + distance, gc.activeBlock.position.y⟩ }
  if testBlock gc newBlock = 0 then
    ({ gc with activeBlock := { gc.activeBlock with position := newBlock.position } }, 0)
  else (gc, -1)

def translateBlockRight (gc : GameContents) : GameContents × ℤ := translateBlockHelper gc (-1)

def translateBlockLeft (gc : GameContents) : GameContents × ℤ := translateBlockHelper gc 1

/-- The turned block moved by one test position of the kick list. -/
def kickedBlock (gc : GameContents) (endRot : Rotation) (srsTest : Position) : ActiveBlock :=
  { gc.activeBlock with
    rotation := endRot
    position := ⟨gc.activeBlock.position.x + srsTest.x, gc.activeBlock.position.y + srsTest.y⟩ }

def turnedRotation (startRot : Rotation) (clockwise : ℤ) : Rotation :=
  let d := if clockwise ≠ 0 then 1 else rotCount - 1
  Rotation.ofRemainder ((startRot.toNat + d) % rotCount)

def rotateBlock (gc : GameContents) (clockwise : ℤ) : GameContents × ℤ :=
  match gc.activeBlock.tetrisBlock.srsMode with
  | none => (gc, 0)
  | some srsMode =>
    let startRot := gc.activeBlock.rotation
    let endRot := turnedRotation startRot clockwise
    match srsMode.descriptorArr.find? fun d => d.startRot = startRot && d.endRot = endRot with
    | none => (gc, -2)
    | some srsDesc =>
      match srsDesc.testArr.find? fun t => testBlock gc (kickedBlock gc endRot t) = 0 with
      | some srsTest => ({ gc with activeBlock := kickedBlock gc endRot srsTest }, 0)
      | none => (gc, -1)

/-- The block one row lower and -1, or the block as it was and 0. -/
def lowerBlockHelper (gc : GameContents) (block : ActiveBlock) : ActiveBlock × ℤ :=
  let newBlock := { block with position := ⟨block.position.x, block.position.y - 1⟩ }
  if testBlock gc newBlock = 0 then (newBlock, -1) else (block, 0)

/-- A block can be lowered at most once for each row of the board. -/
def dropBound : ℕ := boardHeight + 1

/-- `while (lower_block_helper(gc, block));`, which leaves everything but the
position of `block` alone. -/
def dropBlock (gc : GameContents) (block : ActiveBlock) : Except Fault ActiveBlock :=
  match iterate (fun b => (lowerBlockHelper gc b).2 ≠ 0) (fun b => (lowerBlockHelper gc b).1)
    dropBound block with
  | some b => .ok b
  | none => .error .nonterminating

def cullLines (gc : GameContents) : Except Fault GameContents :=
  match cullLoop gc.board with
  | some s => .ok { gc with
      board := s.board
      linesCleared := gc.linesCleared + s.linesCulled
      points := gc.points + cullPoints s.linesCulled }
  | none => .error .nonterminating

section Randomness
variable (randR : RandR)

def generateNewBlock (gc : GameContents) : GameContents :=
  let r := randR gc.seed
  { gc with
    seed := r.2
    activeBlock := spawnActiveBlock gc.nextBlock
    nextBlock := drawBlock r.1 }

def newSeededGame (seed : BitVec 32) : GameContents :=
  let r := randR seed
  generateNewBlock randR
    { points := 0
      linesCleared := 0
      autoLowerCount := 0
      swapHBlockCount := 0
      board := emptyBoard
      seed := r.2
      nextBlock := drawBlock r.1
      holdBlock := tetrisBlockNull
      activeBlock := callocBlock
      shadowBlock := callocBlock }

def placeBlock (gc : GameContents) : Except Fault (GameContents × ℤ) :=
  match gc.board.mergeUnits gc.activeBlock.tetrisBlock.type.toInt
    (getBlockPositions gc.activeBlock) with
  | .error e => .error e
  | .ok board =>
    match cullLines { gc with board := board } with
    | .error e => .error e
    | .ok gc =>
      -- a game that is over gets no new piece, and both counters stay
      if gameOver gc.board ≠ 0 then .ok (gc, 2)
      else .ok ({ generateNewBlock randR gc with swapHBlockCount := 0, autoLowerCount := 0 }, 0)

def lowerBlock (gc : GameContents) (forced : ℤ) : Except Fault (GameContents × ℤ) :=
  let r := lowerBlockHelper gc gc.activeBlock
  if r.2 ≠ 0 then .ok ({ gc with activeBlock := r.1 }, r.2)
  -- a player who lowers a resting block places it, gravity lets it rest three times first
  else if forced = 0 then placeBlock randR gc
  else
    let counted := { gc with autoLowerCount := gc.autoLowerCount + 1 }
    if maxAutoLower ≤ gc.autoLowerCount then placeBlock randR counted else .ok (counted, -1)

def hardDrop (gc : GameContents) : Except Fault (GameContents × ℤ) :=
  match dropBlock gc gc.activeBlock with
  | .error e => .error e
  | .ok block => placeBlock randR { gc with activeBlock := block }

def swapHoldBlock (gc : GameContents) : GameContents × ℤ :=
  if maxSwapH ≤ gc.swapHBlockCount then (gc, -1)
  -- the first swap finds nothing held, so the next piece comes into play
  else if gc.holdBlock.type = .noType then
    let held := { gc with holdBlock := gc.activeBlock.tetrisBlock }
    ({ generateNewBlock randR held with swapHBlockCount := gc.swapHBlockCount + 1 }, 0)
  else
    ({ gc with
        holdBlock := gc.activeBlock.tetrisBlock
        activeBlock := spawnActiveBlock gc.holdBlock
        swapHBlockCount := gc.swapHBlockCount + 1 }, 0)

def generateShadowBlock (gc : GameContents) : Except Fault GameContents :=
  match dropBlock gc gc.activeBlock with
  | .error e => .error e
  | .ok block => .ok { gc with shadowBlock := block }

def generateGameViewData (gc : GameContents) : Except Fault (GameContents × GameViewData) :=
  match generateShadowBlock gc with
  | .error e => .error e
  | .ok gc =>
    match gc.board.mergeUnits BlockType.shadow.toInt
      ((getBlockPositions gc.shadowBlock).take maxBlockUnits) with
    | .error e => .error e
    | .ok board =>
      match board.mergeUnits gc.activeBlock.tetrisBlock.type.toInt
        ((getBlockPositions gc.activeBlock).take maxBlockUnits) with
      | .error e => .error e
      | .ok board =>
        .ok (gc,
          { points := gc.points
            linesCleared := gc.linesCleared
            nextBlock := gc.nextBlock.type
            holdBlock := gc.holdBlock.type
            board := board })

/-- A call into the engine. -/
inductive Op
  | translateLeft
  | translateRight
  | rotate (clockwise : ℤ)
  | lower (forced : ℤ)
  | hardDrop
  | swapHold
  | view
deriving DecidableEq, Repr

/-- The state after a call and its return value. -/
def Op.call (op : Op) (gc : GameContents) : Except Fault (GameContents × ℤ) :=
  match op with
  | .translateLeft => .ok (translateBlockLeft gc)
  | .translateRight => .ok (translateBlockRight gc)
  | .rotate clockwise => .ok (rotateBlock gc clockwise)
  | .lower forced => lowerBlock randR gc forced
  | .hardDrop => TetrisMint.hardDrop randR gc
  | .swapHold => .ok (swapHoldBlock randR gc)
  | .view => (generateGameViewData gc).map fun r => (r.1, 0)

def engineStep (gc : GameContents) (op : Op) : Except Fault GameContents :=
  (op.call randR gc).map Prod.fst

theorem engineStep_eq_ok {gc gc' : GameContents} {op : Op} :
    engineStep randR gc op = .ok gc' ↔ ∃ ret, op.call randR gc = .ok (gc', ret) := by
  rw [engineStep, FallibleRun.map_eq_ok]
  constructor
  · rintro ⟨⟨gc'', ret⟩, hcall, rfl⟩
    exact ⟨ret, hcall⟩
  · rintro ⟨ret, hcall⟩
    exact ⟨(gc', ret), hcall, rfl⟩

/-- The states a game can be in after calls that all returned. -/
def Reachable (gc : GameContents) : Prop :=
  ∃ seed ops, FallibleRun.run (engineStep randR) (newSeededGame randR seed) ops = .ok gc

end Randomness

end TetrisMint
