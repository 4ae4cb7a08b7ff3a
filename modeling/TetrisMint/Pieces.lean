import Mathlib.Tactic

/-! The pieces of `tetris_game_priv.h`: cell offsets, rotation states and the SRS kick tables. -/
namespace TetrisMint

/-- `enum rotation`. -/
inductive Rotation
  | none
  | right
  | invert
  | left
deriving DecidableEq, Repr

def rotCount : ℕ := 4

def Rotation.toNat : Rotation → ℕ
  | .none => 0
  | .right => 1
  | .invert => 2
  | .left => 3

/-- The conversion of an integer below `ROT_COUNT` to `enum rotation`. -/
def Rotation.ofRemainder : ℕ → Rotation
  | 0 => .none
  | 1 => .right
  | 2 => .invert
  | _ => .left

/-- `enum block_type`. -/
inductive BlockType
  | noType
  | shadow
  | orange
  | blue
  | cleve
  | rhode
  | teewee
  | hero
  | smashboy
deriving DecidableEq, Repr

/-- The cast `(int)type` written into board cells. -/
def BlockType.toInt : BlockType → ℤ
  | .noType => 0
  | .shadow => 1
  | .orange => 2
  | .blue => 3
  | .cleve => 4
  | .rhode => 5
  | .teewee => 6
  | .hero => 7
  | .smashboy => 8

structure Position where
  x : ℤ
  y : ℤ
deriving DecidableEq, Repr

/-- `test_count` is the length of `testArr`. -/
structure SrsMovementDescriptor where
  startRot : Rotation
  endRot : Rotation
  testArr : List Position
deriving DecidableEq, Repr

/-- `descriptor_count` is the length of `descriptorArr`. -/
structure SrsMovementMode where
  descriptorArr : List SrsMovementDescriptor
deriving DecidableEq, Repr

/-- `cell_count` is the length of `positionOffsets`; a null `srs_mode` is `none`. -/
structure TetrisBlock where
  type : BlockType
  positionOffsets : List Position
  srsMode : Option SrsMovementMode
deriving DecidableEq, Repr

def TetrisBlock.cellCount (b : TetrisBlock) : ℕ := b.positionOffsets.length

def tetrisBlockNull : TetrisBlock := ⟨.noType, [], Option.none⟩

def srsModeStandardDes0Arr : List Position := [⟨0, 0⟩, ⟨-1, 0⟩, ⟨-1, 1⟩, ⟨0, -2⟩, ⟨-1, -2⟩]

def srsModeStandardDes1Arr : List Position := [⟨0, 0⟩, ⟨1, 0⟩, ⟨1, -1⟩, ⟨0, 2⟩, ⟨1, 2⟩]

def srsModeStandardDes2Arr : List Position := [⟨0, 0⟩, ⟨1, 0⟩, ⟨1, 1⟩, ⟨0, -2⟩, ⟨1, -2⟩]

def srsModeStandardDes3Arr : List Position := [⟨0, 0⟩, ⟨-1, 0⟩, ⟨-1, -1⟩, ⟨0, 2⟩, ⟨-1, 2⟩]

def srsModeHeroDes0Arr : List Position := [⟨1, 0⟩, ⟨-1, 0⟩, ⟨2, 0⟩, ⟨-1, -1⟩, ⟨2, 2⟩]

def srsModeHeroDes1Arr : List Position := [⟨0, -1⟩, ⟨-1, -1⟩, ⟨2, -1⟩, ⟨-1, 1⟩, ⟨2, -2⟩]

def srsModeHeroDes2Arr : List Position := [⟨-1, 0⟩, ⟨1, 0⟩, ⟨-2, 0⟩, ⟨1, 1⟩, ⟨-2, -2⟩]

def srsModeHeroDes3Arr : List Position := [⟨0, 1⟩, ⟨1, 1⟩, ⟨-2, 1⟩, ⟨1, -1⟩, ⟨-2, 2⟩]

def srsModeStandard : SrsMovementMode := ⟨[
  ⟨.none, .right, srsModeStandardDes0Arr⟩,
  ⟨.right, .none, srsModeStandardDes1Arr⟩,
  ⟨.right, .invert, srsModeStandardDes1Arr⟩,
  ⟨.invert, .right, srsModeStandardDes0Arr⟩,
  ⟨.invert, .left, srsModeStandardDes2Arr⟩,
  ⟨.left, .invert, srsModeStandardDes3Arr⟩,
  ⟨.left, .none, srsModeStandardDes3Arr⟩,
  ⟨.none, .left, srsModeStandardDes2Arr⟩]⟩

def srsModeHero : SrsMovementMode := ⟨[
  ⟨.none, .right, srsModeHeroDes0Arr⟩,
  ⟨.right, .none, srsModeHeroDes2Arr⟩,
  ⟨.right, .invert, srsModeHeroDes1Arr⟩,
  ⟨.invert, .right, srsModeHeroDes3Arr⟩,
  ⟨.invert, .left, srsModeHeroDes2Arr⟩,
  ⟨.left, .invert, srsModeHeroDes0Arr⟩,
  ⟨.left, .none, srsModeHeroDes3Arr⟩,
  ⟨.none, .left, srsModeHeroDes1Arr⟩]⟩

def availableBlocks : List TetrisBlock := [
  ⟨.orange, [⟨0, 0⟩, ⟨0, -1⟩, ⟨1, -1⟩, ⟨0, 1⟩], some srsModeStandard⟩,
  ⟨.blue, [⟨0, 0⟩, ⟨0, -1⟩, ⟨-1, -1⟩, ⟨0, 1⟩], some srsModeStandard⟩,
  ⟨.cleve, [⟨0, 0⟩, ⟨-1, 0⟩, ⟨-1, 1⟩, ⟨0, -1⟩], some srsModeStandard⟩,
  ⟨.rhode, [⟨0, 0⟩, ⟨-1, 0⟩, ⟨-1, -1⟩, ⟨0, 1⟩], some srsModeStandard⟩,
  ⟨.teewee, [⟨0, 0⟩, ⟨1, 0⟩, ⟨0, 1⟩, ⟨-1, 0⟩], some srsModeStandard⟩,
  ⟨.hero, [⟨-1, 0⟩, ⟨0, 0⟩, ⟨1, 0⟩, ⟨2, 0⟩], some srsModeHero⟩,
  ⟨.smashboy, [⟨0, 0⟩, ⟨0, 1⟩, ⟨1, 0⟩, ⟨1, 1⟩], Option.none⟩]

/-- `available_blocks[rng]` for the index `rand_r(..) % ARRAY_SIZE(available_blocks)`. -/
def drawBlock (r : ℕ) : TetrisBlock :=
  availableBlocks.getD (r % availableBlocks.length) tetrisBlockNull

/-- The rotated offset of `get_block_positions`. -/
def Rotation.rotate : Rotation → Position → Position
  | .none, p => ⟨p.x, p.y⟩
  | .right, p => ⟨p.y, (-1) * p.x⟩
  | .invert, p => ⟨(-1) * p.x, (-1) * p.y⟩
  | .left, p => ⟨(-1) * p.y, p.x⟩

/-- `struct active_block`. The array `board_units` is recomputed by
`get_block_positions` before every read, so it is the value of that function here. -/
structure ActiveBlock where
  tetrisBlock : TetrisBlock
  rotation : Rotation
  position : Position
deriving DecidableEq, Repr

def blockStartPosition : Position := ⟨4, 21⟩

def spawnActiveBlock (b : TetrisBlock) : ActiveBlock := ⟨b, .none, blockStartPosition⟩

def getBlockPositions (block : ActiveBlock) : List Position :=
  block.tetrisBlock.positionOffsets.map fun o =>
    let r := block.rotation.rotate o
    ⟨block.position.x + r.x, block.position.y + r.y⟩

theorem drawBlock_mem (r : ℕ) : drawBlock r ∈ availableBlocks := by
  have h : r % availableBlocks.length < availableBlocks.length := Nat.mod_lt _ (by decide)
  rw [drawBlock, List.getD_eq_getElem?_getD, List.getElem?_eq_getElem h]
  exact List.getElem_mem h

@[simp] theorem length_getBlockPositions (block : ActiveBlock) :
    (getBlockPositions block).length = block.tetrisBlock.cellCount := by
  simp [getBlockPositions, TetrisBlock.cellCount]

theorem cellCount_eq_four {b : TetrisBlock} (hb : b ∈ availableBlocks) : b.cellCount = 4 := by
  revert b
  decide

/-- A rotated piece has four different cells within a 4 by 4 frame, spanning at
most four consecutive rows. -/
theorem rotated_offsets_facts {b : TetrisBlock} (hb : b ∈ availableBlocks) (r : Rotation) :
    (b.positionOffsets.map r.rotate).Nodup ∧
      ∀ p ∈ b.positionOffsets.map r.rotate, ∀ p' ∈ b.positionOffsets.map r.rotate,
        p.y - p'.y ≤ 3 := by
  revert b
  cases r <;> decide

end TetrisMint
