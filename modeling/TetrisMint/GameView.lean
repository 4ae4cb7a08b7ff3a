import TetrisMint.LineClearing
import TetrisMint.ShadowBlocks

/-! What `generate_game_view_data` shows of a game, and that drawing a game does
not change how it goes on. -/
namespace TetrisMint
open FallibleRun

theorem view_eq {gc : GameContents} {block : ActiveBlock} (hi : EngineInv gc)
    (hd : dropBlock gc gc.activeBlock = .ok block) :
    ∃ view shadowed, generateGameViewData gc = .ok ({ gc with shadowBlock := block }, view) ∧
      gc.board.mergeUnits BlockType.shadow.toInt (getBlockPositions block) = .ok shadowed ∧
      shadowed.mergeUnits gc.activeBlock.tetrisBlock.type.toInt
        (getBlockPositions gc.activeBlock) = .ok view.board ∧
      view.points = gc.points ∧ view.linesCleared = gc.linesCleared ∧
      view.nextBlock = gc.nextBlock.type ∧ view.holdBlock = gc.holdBlock.type := by
  obtain ⟨block', d, hd', ⟨hb, hfit⟩, -⟩ := dropBlock_spec gc gc.activeBlock rfl hi.activePiece
  rw [hd, Except.ok.injEq] at hd'
  subst hd'
  -- four units each, so the loops of the view draw both blocks whole
  have htake (b : ActiveBlock) (h : b.tetrisBlock = gc.activeBlock.tetrisBlock) :
      (getBlockPositions b).take maxBlockUnits = getBlockPositions b := by
    apply List.take_of_length_le
    rw [length_getBlockPositions, h, cellCount_eq_four hi.activePiece]
    exact le_refl _
  have hblock : (getBlockPositions block).take maxBlockUnits = getBlockPositions block :=
    htake block (by rw [hb])
  have hactive := htake gc.activeBlock rfl
  obtain ⟨⟨gc', view⟩, hview⟩ := view_returns hi
  simp only [generateGameViewData, generateShadowBlock, hd, hblock, hactive] at hview
  cases hs : gc.board.mergeUnits BlockType.shadow.toInt (getBlockPositions block) with
  | error e =>
    rw [hs] at hview
    exact absurd hview (by simp)
  | ok shadowed =>
    rw [hs] at hview
    cases hv : shadowed.mergeUnits gc.activeBlock.tetrisBlock.type.toInt
        (getBlockPositions gc.activeBlock) with
    | error e => simp [hv] at hview
    | ok drawn =>
      refine ⟨⟨gc.points, gc.linesCleared, gc.nextBlock.type, gc.holdBlock.type, drawn⟩, shadowed,
        ?_, rfl, hv, rfl, rfl, rfl, rfl⟩
      simp only [generateGameViewData, generateShadowBlock, hd, hblock, hactive, hs, hv]

section Randomness
variable (randR : RandR)

/-- A call of a game that is played: its state and the values returned so far,
those of the calls that draw left out. -/
def playStep (s : GameContents × List ℤ) (op : Op) : Except Fault (GameContents × List ℤ) :=
  (op.call randR s.1).map fun r => (r.1, if op = .view then s.2 else s.2 ++ [r.2])

def isView (op : Op) : Bool := op = .view

/-- What is left of a played game without the shadow block. -/
def seen (s : GameContents × List ℤ) : GameContents × List ℤ := (s.1.unshadowed, s.2)

theorem playStep_inv {s t : GameContents × List ℤ} {op : Op} (hi : EngineInv s.1)
    (h : playStep randR s op = .ok t) : EngineInv t.1 := by
  obtain ⟨⟨gc, ret⟩, hcall, rfl⟩ := FallibleRun.map_eq_ok.mp h
  apply engineStep_inv randR hi
  exact (engineStep_eq_ok randR).mpr ⟨ret, hcall⟩

theorem playStep_view {s : GameContents × List ℤ} {op : Op} (hi : EngineInv s.1)
    (hop : isView op = true) : ∃ t, playStep randR s op = .ok t ∧ seen t = seen s := by
  rw [isView, decide_eq_true_iff] at hop
  subst hop
  obtain ⟨r, hr⟩ := view_returns hi
  have hcall : Op.call randR .view s.1 = .ok (r.1, 0) := by rw [Op.call, hr, Except.map]
  refine ⟨(r.1, s.2), by rw [playStep, hcall]; rfl, ?_⟩
  have hstep : engineStep randR s.1 .view = .ok r.1 := (engineStep_eq_ok randR).mpr ⟨0, hcall⟩
  exact Prod.ext (view_unshadowed hstep) rfl

theorem playStep_seen {s : GameContents × List ℤ} {op : Op} (hop : isView op = false) :
    (playStep randR s op).map seen = playStep randR (seen s) op := by
  have hne : op ≠ .view := by simpa [isView] using hop
  have hcall := call_unshadowed randR s.1 hne
  rw [playStep, playStep]
  simp only [seen, hcall]
  cases op.call randR s.1 with
  | error e => rfl
  | ok r => rfl

/-- The calls that draw can be left out of a game. -/
theorem play_without_views {s : GameContents × List ℤ} (hi : EngineInv s.1) (ops : List Op) :
    (run (playStep randR) s ops).map seen =
      run (playStep randR) (seen s) (ops.filter fun op => !isView op) :=
  run_map_filter (playStep randR) seen isView (fun _ _ hi hop => playStep_view randR hi hop)
    (fun _ _ _ hop => playStep_seen randR hop) (fun _ _ _ hi h => playStep_inv randR hi h) hi ops

/-- In a game that is on the view is the board with the active piece over its
shadow, which lies where `hard_drop` places the piece next; nothing that is
filled is hidden, and score, lines, next and held piece are copied. Games that
differ in the number and places of the views drawn go on alike: they return the
same values and reach the same state, or get stuck alike, the shadow block apart. -/
theorem view_faithful (seed : BitVec 32) :
    (∀ ops gc, run (engineStep randR) (newSeededGame randR seed) ops = .ok gc →
      gameOver gc.board = 0 →
      ∃ gc' view block, generateGameViewData gc = .ok (gc', view) ∧
        gc' = { gc with shadowBlock := block } ∧
        hardDrop randR gc' = placeBlock randR { gc' with activeBlock := block } ∧
        (getBlockPositions gc.activeBlock).length = 4 ∧ (getBlockPositions block).length = 4 ∧
        (∀ p ∈ getBlockPositions gc.activeBlock, p.inside ∧ gc.board.at p = 0 ∧
          view.board.at p = gc.activeBlock.tetrisBlock.type.toInt) ∧
        (∀ p ∈ getBlockPositions block, p ∉ getBlockPositions gc.activeBlock →
          p.inside ∧ gc.board.at p = 0 ∧ view.board.at p = BlockType.shadow.toInt) ∧
        (∀ y x : ℕ, (⟨x, y⟩ : Position) ∉ getBlockPositions gc.activeBlock →
          (⟨x, y⟩ : Position) ∉ getBlockPositions block → view.board.cell y x = gc.board.cell y x) ∧
        (∀ y x : ℕ, gc.board.cell y x ≠ 0 → view.board.cell y x = gc.board.cell y x) ∧
        view.points = gc.points ∧ view.linesCleared = gc.linesCleared ∧
        view.nextBlock = gc.nextBlock.type ∧ view.holdBlock = gc.holdBlock.type) ∧
    ∀ ops ops' : List Op, ops.filter (fun op => !isView op) = ops'.filter (fun op => !isView op) →
      (run (playStep randR) (newSeededGame randR seed, []) ops).map seen =
        (run (playStep randR) (newSeededGame randR seed, []) ops').map seen := by
  constructor
  · intro ops gc hrun hlive
    have hi := reachable_inv randR ⟨seed, ops, hrun⟩
    obtain ⟨block, d, hd, ⟨hb, -⟩, -⟩ := dropBlock_spec gc gc.activeBlock rfl hi.activePiece
    obtain ⟨view, shadowed, hview, hs, hv, hpoints, hlines, hnext, hhold⟩ := view_eq hi hd
    have hplaced : placedBlock gc .hardDrop = some block := by
      simp [placedBlock, hd, Except.toOption]
    have hblock : Fits gc.board block := (placed_fits hi hplaced).2.2 hlive
    have hactive := hi.liveFits hlive
    have hcell (y x : ℕ) : view.board.cell y x =
        if (⟨x, y⟩ : Position) ∈ getBlockPositions gc.activeBlock then
          gc.activeBlock.tetrisBlock.type.toInt
        else if (⟨x, y⟩ : Position) ∈ getBlockPositions block then BlockType.shadow.toInt
        else gc.board.cell y x := by
      rw [(cell_mergeUnits hv).2 y x, (cell_mergeUnits hs).2 y x]
    -- a position inside the board is the one of its two indices
    have hat (p : Position) (hp : p.inside) : (⟨(p.x.toNat : ℤ), (p.y.toNat : ℤ)⟩ : Position) = p := by
      obtain ⟨-, -, hy, hx⟩ := inside_toNat hp
      rw [hx, hy]
    have hfree {b : ActiveBlock} (hfit : Fits gc.board b) {p : Position}
        (hp : p ∈ getBlockPositions b) : p.inside ∧ gc.board.at p = 0 :=
      (unitFree_iff gc.board p).mp (hfit p hp)
    refine ⟨_, view, block, hview, rfl, ?_, ?_, ?_, ?_, ?_, ?_, ?_, hpoints, hlines, hnext, hhold⟩
    · have hsame : dropBlock { gc with shadowBlock := block } gc.activeBlock = .ok block := hd
      simp only [hardDrop, hsame]
    · rw [length_getBlockPositions, cellCount_eq_four hi.activePiece]
    · rw [length_getBlockPositions, hb, cellCount_eq_four hi.activePiece]
    · intro p hp
      obtain ⟨hin, hzero⟩ := hfree hactive hp
      refine ⟨hin, hzero, ?_⟩
      rw [Board.at, hcell, hat p hin, if_pos hp]
    · intro p hp hnot
      obtain ⟨hin, hzero⟩ := hfree hblock hp
      refine ⟨hin, hzero, ?_⟩
      rw [Board.at, hcell, hat p hin, if_neg hnot, if_pos hp]
    · intro y x hnot hnot'
      rw [hcell, if_neg hnot, if_neg hnot']
    · intro y x hne
      have hout {b : ActiveBlock} (hfit : Fits gc.board b) :
          (⟨x, y⟩ : Position) ∉ getBlockPositions b := fun hp => hne (hfree hfit hp).2
      rw [hcell, if_neg (hout hactive), if_neg (hout hblock)]
  · intro ops ops' hops
    have hi := newSeededGame_inv randR seed
    rw [play_without_views randR hi, play_without_views randR hi, hops]

end Randomness

/-- The new game of seed 0, and a game with three views drawn between two drops. -/
theorem view_faithful_seed_zero :
    (∃ gc' view, generateGameViewData (newSeededGame glibcRandR 0) = .ok (gc', view) ∧
      view.points = 0) ∧
    (run (playStep glibcRandR) (newSeededGame glibcRandR 0, []) [.hardDrop, .hardDrop]).map seen =
      (run (playStep glibcRandR) (newSeededGame glibcRandR 0, [])
        [.hardDrop, .view, .view, .view, .hardDrop]).map seen := by
  obtain ⟨hview, hinsert⟩ := view_faithful glibcRandR 0
  obtain ⟨gc', view, -, hret, -, -, -, -, -, -, -, -, hpoints, -⟩ := hview [] _ rfl (by decide +kernel)
  exact ⟨⟨gc', view, hret, hpoints⟩, hinsert _ _ (by decide)⟩

end TetrisMint
