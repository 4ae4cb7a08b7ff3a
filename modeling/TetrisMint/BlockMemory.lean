import TetrisMint.EngineInvariant
import TetrisMint.LinkedList

/-! The engine of `tetris_game.c` with its blocks where the source has them: behind
pointers, in memory that it allocates and frees. -/
namespace TetrisMint

open FallibleRun ObjectHeap

/-- `struct active_block`, with the units that get_block_positions has stored last. -/
structure BlockRecord where
  block : ActiveBlock
  boardUnits : Vector Position maxBlockUnits
deriving DecidableEq

/-- `struct game_contents`, which points to its two blocks, with the blocks that are live and the
number of those that have been allocated. -/
structure GameMemory where
  points : ℤ
  linesCleared : ℤ
  autoLowerCount : ℤ
  swapHBlockCount : ℤ
  board : Board
  seed : BitVec 32
  nextBlock : TetrisBlock
  holdBlock : TetrisBlock
  activeBlock : ℕ
  shadowBlock : ℕ
  blocks : Heap BlockRecord
  allocated : ℕ

def callocRecord : BlockRecord := ⟨callocBlock, Vector.replicate maxBlockUnits ⟨0, 0⟩⟩

/-- An assignment to the object that a pointer leads to. -/
def update {α : Type} (objects : Heap α) (p : ℕ) (f : α → α) : Except Fault (Heap α) := do
  let a ← load objects p
  .ok (objects.insert p (f a))

/-- free: null is let through, anything else has to be live. -/
def release {α : Type} (objects : Heap α) (p : ℕ) : Except Fault (Heap α) :=
  if p = 0 then .ok objects
  else do
    let _ ← load objects p
    .ok (objects.erase p)

/-- The loop of get_block_positions from unit `i` on, given the positions still to store. -/
def storeUnits : ℕ → List Position → Vector Position maxBlockUnits →
    Except Fault (Vector Position maxBlockUnits)
  | _, [], units => .ok units
  | i, p :: ps, units =>
    if h : i < maxBlockUnits then storeUnits (i + 1) ps (units.set i p) else .error .outOfBounds

/-- get_block_positions stores the units in the block itself. -/
def storeBlockPositions (blocks : Heap BlockRecord) (block : ℕ) : Except Fault (Heap BlockRecord) := do
  let r ← load blocks block
  let units ← storeUnits 0 (getBlockPositions r.block) r.boardUnits
  .ok (blocks.insert block { r with boardUnits := units })

/-- The loop of test_block over the next `n` of the units. -/
def testUnits (board : Board) : ℕ → List Position → Except Fault ℤ
  | 0, _ => .ok 0
  | _ + 1, [] => .error .outOfBounds
  | n + 1, p :: ps => if board.unitFree p then testUnits board n ps else .ok (-2)

def testBlockAt (gm : GameMemory) (newBlock : ℕ) : Except Fault (GameMemory × ℤ) :=
  if newBlock = 0 then .ok (gm, -1)
  else do
    let blocks ← storeBlockPositions gm.blocks newBlock
    let active ← load blocks gm.activeBlock
    let r ← load blocks newBlock
    let result ← testUnits gm.board active.block.tetrisBlock.cellCount r.boardUnits.toList
    .ok ({ gm with blocks := blocks }, result)

/-- The first `n` units of a block. -/
def readUnits (r : BlockRecord) (n : ℕ) : Except Fault (List Position) :=
  if n ≤ maxBlockUnits then .ok (r.boardUnits.toList.take n) else .error .outOfBounds

/-- Move a block by one of the assignments to its position. -/
def moveBlock (blocks : Heap BlockRecord) (block : ℕ) (f : Position → Position) :
    Except Fault (Heap BlockRecord) :=
  update blocks block fun r => { r with block := { r.block with position := f r.block.position } }

def cullLinesAt (gm : GameMemory) : Except Fault GameMemory :=
  match cullLoop gm.board with
  | some s => .ok { gm with
      board := s.board
      linesCleared := gm.linesCleared + s.linesCulled
      points := gm.points + cullPoints s.linesCulled }
  | none => .error .nonterminating

/-- spawn_active_block overwrites the block that the pointer leads to. -/
def spawnActiveBlockAt (blocks : Heap BlockRecord) (block : ℕ) (tetrisBlock : TetrisBlock) :
    Except Fault (Heap BlockRecord) :=
  update blocks block fun r => { r with block := spawnActiveBlock tetrisBlock }

section Functions

-- what each call of malloc does, in the order of the calls
variable (malloc : ℕ → Allocator)

/-- clone_block; the new pointer stays null when there is nothing to clone. -/
def cloneBlock (gm : GameMemory) (oldBlock : ℕ) : Except Fault (GameMemory × ℕ) :=
  if oldBlock = 0 then .ok (gm, 0)
  else do
    let newBlock := (malloc gm.allocated).address gm.blocks.keys
    let r ← load gm.blocks oldBlock
    .ok ({ gm with
      blocks := gm.blocks.insert newBlock r
      allocated := gm.allocated + 1 }, newBlock)

/-- What translate_block_helper and lower_block_helper have in common: a clone of the block
is moved and tested, the block follows it when that is possible, and the clone is freed. -/
def shiftBlockAt (gm : GameMemory) (block : ℕ) (f : Position → Position) (moved kept : ℤ) :
    Except Fault (GameMemory × ℤ) := do
  let (gm, newBlock) ← cloneBlock malloc gm block
  let blocks ← moveBlock gm.blocks newBlock f
  let (gm, result) ← testBlockAt { gm with blocks := blocks } newBlock
  if result = 0 then do
    let r ← load gm.blocks newBlock
    let blocks ← moveBlock gm.blocks block fun _ => r.block.position
    .ok ({ gm with blocks := ← release blocks newBlock }, moved)
  else .ok ({ gm with blocks := ← release gm.blocks newBlock }, kept)

def translateBlockHelperAt (gm : GameMemory) (distance : ℤ) : Except Fault (GameMemory × ℤ) :=
  shiftBlockAt malloc gm gm.activeBlock (fun p => ⟨p.x + distance, p.y⟩) 0 (-1)

def lowerBlockHelperAt (gm : GameMemory) (block : ℕ) : Except Fault (GameMemory × ℤ) :=
  shiftBlockAt malloc gm block (fun p => ⟨p.x, p.y - 1⟩) (-1) 0

/-- The loop over the test positions of a kick list. The block that is turned away from is
freed; the new one is not when no position is left. -/
def tryKicks (newBlock : ℕ) : List Position → GameMemory → Except Fault (GameMemory × ℤ)
  | [], gm => .ok (gm, -1)
  | srsTest :: tests, gm => do
    let active ← load gm.blocks gm.activeBlock
    let blocks ← moveBlock gm.blocks newBlock fun _ =>
      ⟨active.block.position.x + srsTest.x, active.block.position.y + srsTest.y⟩
    let (gm, result) ← testBlockAt { gm with blocks := blocks } newBlock
    if result = 0 then
      .ok ({ gm with activeBlock := newBlock, blocks := ← release gm.blocks gm.activeBlock }, 0)
    else tryKicks newBlock tests gm

def rotateBlockAt (gm : GameMemory) (clockwise : ℤ) : Except Fault (GameMemory × ℤ) := do
  let active ← load gm.blocks gm.activeBlock
  match active.block.tetrisBlock.srsMode with
  | none => .ok (gm, 0)
  | some srsMode =>
    let startRot := active.block.rotation
    let endRot := turnedRotation startRot clockwise
    match srsMode.descriptorArr.find? fun d => d.startRot = startRot && d.endRot = endRot with
    | none => .ok (gm, -2)
    | some srsDesc => do
      let (gm, newBlock) ← cloneBlock malloc gm gm.activeBlock
      let blocks ← update gm.blocks newBlock fun r => { r with block := { r.block with rotation := endRot } }
      tryKicks newBlock srsDesc.testArr { gm with blocks := blocks }

/-- `while (lower_block_helper(gc, block));`, with a bound on the number of turns. -/
def dropBlockAt (block : ℕ) : ℕ → GameMemory → Except Fault GameMemory
  | 0, gm => do
    let (gm, result) ← lowerBlockHelperAt malloc gm block
    if result ≠ 0 then .error .nonterminating else .ok gm
  | n + 1, gm => do
    let (gm, result) ← lowerBlockHelperAt malloc gm block
    if result ≠ 0 then dropBlockAt block n gm else .ok gm

section Randomness

variable (randR : RandR)

def generateNewBlockAt (gm : GameMemory) : Except Fault GameMemory := do
  let r := randR gm.seed
  let blocks ← spawnActiveBlockAt gm.blocks gm.activeBlock gm.nextBlock
  .ok { gm with
    seed := r.2
    blocks := blocks
    nextBlock := drawBlock r.1 }

/-- new_seeded_game for a null pointer: there is no game to destroy before. -/
def newSeededGameAt (seed : BitVec 32) : Except Fault GameMemory :=
  let activeBlock := (malloc 0).address ∅
  let blocks := Finmap.insert activeBlock callocRecord ∅
  let shadowBlock := (malloc 1).address blocks.keys
  let r := randR seed
  generateNewBlockAt randR
    { points := 0
      linesCleared := 0
      autoLowerCount := 0
      swapHBlockCount := 0
      board := emptyBoard
      seed := r.2
      nextBlock := drawBlock r.1
      holdBlock := tetrisBlockNull
      activeBlock := activeBlock
      shadowBlock := shadowBlock
      blocks := blocks.insert shadowBlock callocRecord
      allocated := 2 }

/-- destroy_game frees the active block with the game, and leaves the other blocks. -/
def destroyGameAt (gm : GameMemory) : Except Fault (Heap BlockRecord) :=
  release gm.blocks gm.activeBlock

def placeBlockAt (gm : GameMemory) : Except Fault (GameMemory × ℤ) := do
  let blocks ← storeBlockPositions gm.blocks gm.activeBlock
  let active ← load blocks gm.activeBlock
  let units ← readUnits active active.block.tetrisBlock.cellCount
  let board ← gm.board.mergeUnits active.block.tetrisBlock.type.toInt units
  let gm ← cullLinesAt { gm with board := board, blocks := blocks }
  if gameOver gm.board ≠ 0 then .ok (gm, 2)
  else do
    let gm ← generateNewBlockAt randR gm
    .ok ({ gm with swapHBlockCount := 0, autoLowerCount := 0 }, 0)

def lowerBlockAt (gm : GameMemory) (forced : ℤ) : Except Fault (GameMemory × ℤ) := do
  let (gm, ret) ← lowerBlockHelperAt malloc gm gm.activeBlock
  if ret ≠ 0 then .ok (gm, ret)
  else if forced = 0 then placeBlockAt randR gm
  else
    let counted := { gm with autoLowerCount := gm.autoLowerCount + 1 }
    if maxAutoLower ≤ gm.autoLowerCount then placeBlockAt randR counted else .ok (counted, -1)

def hardDropAt (gm : GameMemory) : Except Fault (GameMemory × ℤ) := do
  let gm ← dropBlockAt malloc gm.activeBlock dropBound gm
  placeBlockAt randR gm

def swapHoldBlockAt (gm : GameMemory) : Except Fault (GameMemory × ℤ) :=
  if maxSwapH ≤ gm.swapHBlockCount then .ok (gm, -1)
  else do
    let active ← load gm.blocks gm.activeBlock
    if gm.holdBlock.type = .noType then do
      let gm ← generateNewBlockAt randR { gm with holdBlock := active.block.tetrisBlock }
      .ok ({ gm with swapHBlockCount := gm.swapHBlockCount + 1 }, 0)
    else do
      let blocks ← spawnActiveBlockAt gm.blocks gm.activeBlock gm.holdBlock
      .ok ({ gm with
        holdBlock := active.block.tetrisBlock
        blocks := blocks
        swapHBlockCount := gm.swapHBlockCount + 1 }, 0)

end Randomness

def generateShadowBlockAt (gm : GameMemory) : Except Fault GameMemory := do
  let blocks ← release gm.blocks gm.shadowBlock
  let (gm, shadowBlock) ← cloneBlock malloc { gm with blocks := blocks } gm.activeBlock
  dropBlockAt malloc shadowBlock dropBound { gm with shadowBlock := shadowBlock }

def generateGameViewDataAt (gm : GameMemory) : Except Fault (GameMemory × GameViewData) := do
  let gm ← generateShadowBlockAt malloc gm
  let blocks ← storeBlockPositions gm.blocks gm.activeBlock
  let blocks ← storeBlockPositions blocks gm.shadowBlock
  let shadow ← load blocks gm.shadowBlock
  let board ← gm.board.mergeUnits BlockType.shadow.toInt (← readUnits shadow maxBlockUnits)
  let active ← load blocks gm.activeBlock
  let board ← board.mergeUnits active.block.tetrisBlock.type.toInt (← readUnits active maxBlockUnits)
  .ok ({ gm with blocks := blocks },
    { points := gm.points
      linesCleared := gm.linesCleared
      nextBlock := gm.nextBlock.type
      holdBlock := gm.holdBlock.type
      board := board })

/-- A call into the engine, on its memory. -/
def Op.callAt (randR : RandR) (gm : GameMemory) (op : Op) : Except Fault (GameMemory × ℤ) :=
  match op with
  | .translateLeft => translateBlockHelperAt malloc gm 1
  | .translateRight => translateBlockHelperAt malloc gm (-1)
  | .rotate clockwise => rotateBlockAt malloc gm clockwise
  | .lower forced => lowerBlockAt malloc randR gm forced
  | .hardDrop => hardDropAt malloc randR gm
  | .swapHold => swapHoldBlockAt randR gm
  | .view => (generateGameViewDataAt malloc gm).map fun r => (r.1, 0)

end Functions

end TetrisMint
