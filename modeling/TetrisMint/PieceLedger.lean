import TetrisMint.PieceLog

/-! The pieces of a game: every piece that was generated has been placed or is the
active, the next or the held one. -/
namespace TetrisMint

/-- The successful swaps since the last placement. -/
def swapsSince (log : List LogEntry) : ℕ :=
  log.foldl (fun n e =>
    match e with
    | .generated _ => n
    | .placed _ _ => 0
    | .swapped => n + 1) 0

/-- The held piece, if there is one. -/
def heldPieces (gc : GameContents) : Multiset TetrisBlock :=
  if gc.holdBlock.type = .noType then 0 else {gc.holdBlock}

@[simp] theorem generatedPieces_append (log log' : List LogEntry) :
    generatedPieces (log ++ log') = generatedPieces log ++ generatedPieces log' := by
  simp [generatedPieces]

@[simp] theorem placedPieces_append (log log' : List LogEntry) :
    placedPieces (log ++ log') = placedPieces log ++ placedPieces log' := by
  simp [placedPieces]

@[simp] theorem generatedPieces_generated (piece : TetrisBlock) :
    generatedPieces [.generated piece] = [piece] := rfl

@[simp] theorem generatedPieces_placed (piece : TetrisBlock) (n : ℕ) :
    generatedPieces [.placed piece n] = [] := rfl

@[simp] theorem generatedPieces_swapped : generatedPieces [.swapped] = [] := rfl

@[simp] theorem placedPieces_generated (piece : TetrisBlock) :
    placedPieces [.generated piece] = [] := rfl

@[simp] theorem placedPieces_placed (piece : TetrisBlock) (n : ℕ) :
    placedPieces [.placed piece n] = [piece] := rfl

@[simp] theorem placedPieces_swapped : placedPieces [.swapped] = [] := rfl

@[simp] theorem swapsSince_generated (log : List LogEntry) (piece : TetrisBlock) :
    swapsSince (log ++ [.generated piece]) = swapsSince log := by
  simp [swapsSince]

@[simp] theorem swapsSince_placed (log : List LogEntry) (piece : TetrisBlock) (n : ℕ) :
    swapsSince (log ++ [.placed piece n]) = 0 := by
  simp [swapsSince]

@[simp] theorem swapsSince_swapped (log : List LogEntry) :
    swapsSince (log ++ [.swapped]) = swapsSince log + 1 := by
  simp [swapsSince]

/-- Without a placement in between no swap is forgotten. -/
theorem count_swapped_le {pre mid : List LogEntry} (h : ∀ piece n, LogEntry.placed piece n ∉ mid) :
    mid.count .swapped ≤ swapsSince (pre ++ mid) := by
  induction mid using List.reverseRecOn with
  | nil => exact Nat.zero_le _
  | append_singleton mid e ih =>
    have hle := ih fun piece n hmem => h piece n (List.mem_append_left _ hmem)
    rw [← List.append_assoc, List.count_append]
    cases e with
    | generated piece =>
      rw [swapsSince_generated]
      exact hle
    | placed piece n => exact absurd (by simp) (h piece n)
    | swapped =>
      rw [swapsSince_swapped]
      exact Nat.succ_le_succ hle

section Randomness
variable (randR : RandR)

/-- The seed that `rand_r` leaves after `k` draws. -/
def seedAfter (seed : BitVec 32) (k : ℕ) : BitVec 32 := (fun s => (randR s).2)^[k] seed

def drawnPiece (seed : BitVec 32) (k : ℕ) : TetrisBlock := drawBlock (randR (seedAfter randR seed k)).1

/-- The accounts of pieces and swaps in a game with this seed. -/
structure PieceLedger (seed : BitVec 32) (l : Logged) : Prop where
  balance : gameOver l.gc.board = 0 → (generatedPieces l.log : Multiset TetrisBlock) =
    placedPieces l.log + {l.gc.activeBlock.tetrisBlock} + {l.gc.nextBlock} + heldPieces l.gc
  drawn : generatedPieces l.log =
    (List.range (generatedPieces l.log).length).map (drawnPiece randR seed)
  seedNow : l.gc.seed = seedAfter randR seed (generatedPieces l.log).length
  swapsNow : gameOver l.gc.board = 0 → (swapsSince l.log : ℤ) = l.gc.swapHBlockCount
  swaps : ∀ p, p <+: l.log → swapsSince p ≤ 1

variable {randR} in
/-- A log that draws one piece more. -/
theorem drawn_snoc {seed : BitVec 32} {pieces : List TetrisBlock}
    (h : pieces = (List.range pieces.length).map (drawnPiece randR seed)) :
    pieces ++ [drawnPiece randR seed pieces.length] =
      (List.range (pieces.length + 1)).map (drawnPiece randR seed) := by
  rw [List.range_succ, List.map_append, ← h]
  rfl

theorem seedAfter_succ (seed : BitVec 32) (k : ℕ) :
    (randR (seedAfter randR seed k)).2 = seedAfter randR seed (k + 1) := by
  rw [seedAfter, seedAfter, Function.iterate_succ_apply']

theorem swaps_snoc {log : List LogEntry} {e : LogEntry} (h : ∀ p, p <+: log → swapsSince p ≤ 1)
    (he : swapsSince (log ++ [e]) ≤ 1) (p : List LogEntry) (hp : p <+: log ++ [e]) :
    swapsSince p ≤ 1 := by
  rcases List.prefix_concat_iff.mp hp with rfl | hp
  · exact he
  · exact h p hp

theorem type_ne_noType {b : TetrisBlock} (hb : b ∈ availableBlocks) : b.type ≠ .noType := by
  revert b
  decide

@[simp] theorem coe_snoc (pieces : List TetrisBlock) (piece : TetrisBlock) :
    ((pieces ++ [piece] : List TetrisBlock) : Multiset TetrisBlock) = pieces + {piece} := rfl

/-- A step that generates one piece draws it from the seed. -/
theorem ledger_generated {seed : BitVec 32} {l : Logged} (hl : PieceLedger randR seed l)
    {log : List LogEntry}
    (hgen : generatedPieces log = generatedPieces l.log ++ [drawBlock (randR l.gc.seed).1]) :
    generatedPieces log =
        (List.range (generatedPieces log).length).map (drawnPiece randR seed) ∧
      (randR l.gc.seed).2 = seedAfter randR seed (generatedPieces log).length := by
  have hlength : (generatedPieces log).length = (generatedPieces l.log).length + 1 := by
    rw [hgen, List.length_append, List.length_singleton]
  have hdraw : drawBlock (randR l.gc.seed).1 =
      drawnPiece randR seed (generatedPieces l.log).length := by
    rw [hl.seedNow, drawnPiece]
  rw [hlength]
  constructor
  · rw [hgen, hdraw]
    exact drawn_snoc hl.drawn
  · rw [hl.seedNow, seedAfter_succ]

section Calls

variable {randR} {seed : BitVec 32} {l : Logged} (hl : PieceLedger randR seed l)

include hl in
theorem ledger_moved (hlive : gameOver l.gc.board = 0) {gc : GameContents} (h : Moved l.gc gc) :
    PieceLedger randR seed ⟨gc, l.log⟩ := by
  -- a move shifts or rotates the active piece and changes no other
  have hpiece : gc.activeBlock.tetrisBlock = l.gc.activeBlock.tetrisBlock := by
    rcases h.activeBlock with hb | hb
    · rw [hb]
    · exact hb.1
  constructor
  case balance =>
    intro _
    rw [hl.balance hlive, hpiece, h.nextBlock, heldPieces, heldPieces, h.holdBlock]
  case drawn => exact hl.drawn
  case seedNow => exact h.seed.trans hl.seedNow
  case swapsNow =>
    intro _
    exact (hl.swapsNow hlive).trans h.swapHBlockCount.symm
  case swaps => exact hl.swaps

include hl in
/-- The first swap of all puts the active piece into the empty hold and draws another. -/
theorem ledger_held (hi : EngineInv l.gc) (hlive : gameOver l.gc.board = 0)
    (hcount : l.gc.swapHBlockCount < maxSwapH) (hhold : l.gc.holdBlock.type = .noType) :
    PieceLedger randR seed
      ⟨{ generateNewBlock randR { l.gc with holdBlock := l.gc.activeBlock.tetrisBlock } with
          swapHBlockCount := l.gc.swapHBlockCount + 1 },
        l.log ++ [.generated (drawBlock (randR l.gc.seed).1)] ++ [.swapped]⟩ := by
  have hgen : generatedPieces (l.log ++ [.generated (drawBlock (randR l.gc.seed).1)] ++ [.swapped]) =
      generatedPieces l.log ++ [drawBlock (randR l.gc.seed).1] := by
    simp only [generatedPieces_append, generatedPieces_generated, generatedPieces_swapped,
      List.append_nil]
  have hheld : heldPieces l.gc = 0 := if_pos hhold
  have hswaps : swapsSince (l.log ++ [.generated (drawBlock (randR l.gc.seed).1)]) = swapsSince l.log :=
    swapsSince_generated _ _
  have hnow := hl.swapsNow hlive
  constructor
  case balance =>
    -- the active piece is held now, the next one active and the new one next
    intro _
    rw [hgen, coe_snoc, hl.balance hlive, hheld]
    simp only [placedPieces_append, placedPieces_generated, placedPieces_swapped, List.append_nil,
      generateNewBlock, spawnActiveBlock, heldPieces, type_ne_noType hi.activePiece, ↓reduceIte]
    abel
  case drawn => exact (ledger_generated randR hl hgen).1
  case seedNow => exact (ledger_generated randR hl hgen).2
  case swapsNow =>
    intro _
    rw [swapsSince_swapped, hswaps]
    push_cast
    rw [hnow]
  case swaps =>
    apply swaps_snoc
    · exact swaps_snoc hl.swaps (hswaps ▸ hl.swaps l.log (List.prefix_refl _))
    · -- the swap was allowed, so there was none since the last placement
      rw [swapsSince_swapped, hswaps]
      simp only [maxSwapH] at hcount
      omega

include hl in
/-- A later swap exchanges the active piece and the held one. -/
theorem ledger_exchanged (hi : EngineInv l.gc) (hlive : gameOver l.gc.board = 0)
    (hcount : l.gc.swapHBlockCount < maxSwapH) (hhold : l.gc.holdBlock.type ≠ .noType) :
    PieceLedger randR seed
      ⟨{ l.gc with
          holdBlock := l.gc.activeBlock.tetrisBlock
          activeBlock := spawnActiveBlock l.gc.holdBlock
          swapHBlockCount := l.gc.swapHBlockCount + 1 }, l.log ++ [.swapped]⟩ := by
  have hgen : generatedPieces (l.log ++ [.swapped]) = generatedPieces l.log := by
    rw [generatedPieces_append, generatedPieces_swapped, List.append_nil]
  have hheld : heldPieces l.gc = {l.gc.holdBlock} := if_neg hhold
  have hnow := hl.swapsNow hlive
  constructor
  case balance =>
    -- two of the summands change places
    intro _
    rw [hgen, hl.balance hlive, hheld]
    simp only [placedPieces_append, placedPieces_swapped, List.append_nil, spawnActiveBlock,
      heldPieces, type_ne_noType hi.activePiece, ↓reduceIte]
    abel
  case drawn =>
    rw [hgen]
    exact hl.drawn
  case seedNow =>
    rw [hgen]
    exact hl.seedNow
  case swapsNow =>
    intro _
    rw [swapsSince_swapped]
    push_cast
    rw [hnow]
  case swaps =>
    apply swaps_snoc hl.swaps
    rw [swapsSince_swapped]
    simp only [maxSwapH] at hcount
    omega

include hl in
/-- A placement that ends the game is the last entry of the log. -/
theorem ledger_ended {piece : TetrisBlock} {n : ℕ} {gc : GameContents} (hseed : gc.seed = l.gc.seed)
    (hover : gameOver gc.board ≠ 0) : PieceLedger randR seed ⟨gc, l.log ++ [.placed piece n]⟩ := by
  have hgen : generatedPieces (l.log ++ [.placed piece n]) = generatedPieces l.log := by
    rw [generatedPieces_append, generatedPieces_placed, List.append_nil]
  constructor
  case balance => exact fun h => absurd h hover
  case drawn =>
    rw [hgen]
    exact hl.drawn
  case seedNow =>
    rw [hgen]
    exact hseed.trans hl.seedNow
  case swapsNow => exact fun h => absurd h hover
  case swaps =>
    apply swaps_snoc hl.swaps
    rw [swapsSince_placed]
    exact Nat.zero_le _

include hl in
/-- A placement takes the active piece, brings in the next one and draws another. -/
theorem ledger_placed (hi : EngineInv l.gc) (hlive : gameOver l.gc.board = 0) {op : Op}
    {block : ActiveBlock} (hblock : placedBlock l.gc op = some block) (n : ℕ) (s : CullState) :
    PieceLedger randR seed
      ⟨respawn randR (afterCull (enterPlace l.gc op block) s),
        l.log ++ [.placed block.tetrisBlock n] ++ [.generated (drawBlock (randR l.gc.seed).1)]⟩ := by
  have hpiece : block.tetrisBlock = l.gc.activeBlock.tetrisBlock := (enterPlace_inv hi hblock).1
  have hgen : generatedPieces (l.log ++ [.placed block.tetrisBlock n] ++
      [.generated (drawBlock (randR l.gc.seed).1)]) =
        generatedPieces l.log ++ [drawBlock (randR l.gc.seed).1] := by
    simp only [generatedPieces_append, generatedPieces_generated, generatedPieces_placed,
      List.append_nil]
  have hheld : heldPieces (respawn randR (afterCull (enterPlace l.gc op block) s)) =
      heldPieces l.gc := rfl
  constructor
  case balance =>
    -- the active piece counts as placed, the next one is active and the new one next
    intro _
    rw [hgen, coe_snoc, hl.balance hlive, hheld]
    simp only [placedPieces_append, placedPieces_generated, placedPieces_placed, List.append_nil,
      coe_snoc, hpiece]
    simp only [respawn, generateNewBlock, spawnActiveBlock, afterCull, enterPlace]
    abel
  case drawn => exact (ledger_generated randR hl hgen).1
  case seedNow => exact (ledger_generated randR hl hgen).2
  case swapsNow =>
    -- the swaps are counted from the placement on
    intro _
    rw [swapsSince_generated, swapsSince_placed]
    rfl
  case swaps =>
    apply swaps_snoc
    · apply swaps_snoc hl.swaps
      rw [swapsSince_placed]
      exact Nat.zero_le _
    · rw [swapsSince_generated, swapsSince_placed]
      exact Nat.zero_le _

end Calls

theorem pieceLedger_step {seed : BitVec 32} {l l' : Logged} (hi : EngineInv l.gc)
    (hlive : gameOver l.gc.board = 0) (hcall : LoggedCall randR l l')
    (hl : PieceLedger randR seed l) : PieceLedger randR seed l' := by
  cases hcall with
  | moved gc h => exact ledger_moved hl hlive h
  | held hcount hhold => exact ledger_held hl hi hlive hcount hhold
  | exchanged hcount hhold => exact ledger_exchanged hl hi hlive hcount hhold
  | ended op block B s hblock hm hs hover => exact ledger_ended hl rfl hover
  | placed op block B s hblock hm hs hlive' => exact ledger_placed hl hi hlive hblock _ s

theorem newSeededGame_pieceLedger (seed : BitVec 32) :
    PieceLedger randR seed (newSeededGameLogged randR seed) := by
  let gc := newSeededGame randR seed
  refine ⟨fun _ => rfl, rfl, rfl, fun _ => rfl, ?_⟩
  -- the log begins with the two pieces that a new game draws
  have hnil : ∀ p, p <+: [] → swapsSince p ≤ 1 := by
    intro p hp
    rw [List.prefix_nil.mp hp]
    exact Nat.zero_le _
  have hactive := @swaps_snoc [] (.generated gc.activeBlock.tetrisBlock) hnil (Nat.zero_le _)
  exact @swaps_snoc [.generated gc.activeBlock.tetrisBlock] (.generated gc.nextBlock) hactive
    (Nat.zero_le _)

/-- The piece ledger over every run from a new game that makes no call once the
game is over: such a run returns, and while the game is on the pieces generated
are those placed together with the active, the next and the held one; the `k`-th
of them is that of the seed's `k`-th draw; at most one swap succeeds between two
placements. -/
theorem piece_ledger (seed : BitVec 32) (ops : List Op)
    (hlive : FallibleRun.Along (engineStep randR) (fun gc _ => gameOver gc.board = 0)
      (newSeededGame randR seed) ops) :
    ∃ l, FallibleRun.run (loggedStep randR) (newSeededGameLogged randR seed) ops = .ok l ∧
      FallibleRun.run (engineStep randR) (newSeededGame randR seed) ops = .ok l.gc ∧
      (gameOver l.gc.board = 0 → (generatedPieces l.log : Multiset TetrisBlock) =
        placedPieces l.log + {l.gc.activeBlock.tetrisBlock} + {l.gc.nextBlock} + heldPieces l.gc) ∧
      (∀ k piece, (generatedPieces l.log)[k]? = some piece → piece = drawnPiece randR seed k) ∧
      ∀ pre mid post, l.log = pre ++ mid ++ post → (∀ piece n, LogEntry.placed piece n ∉ mid) →
        mid.count .swapped ≤ 1 := by
  obtain ⟨l, hrun, hengine, hl⟩ := live_run randR
    (fun _ _ hi hlive hcall hl => pieceLedger_step randR hi hlive hcall hl)
    (newSeededGame_inv randR seed) (newSeededGame_pieceLedger randR seed) hlive
  refine ⟨l, hrun, hengine, hl.balance, ?_, ?_⟩
  · intro k piece hk
    rw [hl.drawn] at hk
    obtain ⟨hlt, rfl⟩ := List.getElem?_eq_some_iff.mp hk
    rw [List.getElem_map, List.getElem_range]
  · intro pre mid post hlog hmid
    -- all swaps of `mid` came after the last placement of what was logged by then
    have hprefix : pre ++ mid <+: l.log := ⟨post, hlog.symm⟩
    exact (count_swapped_le hmid).trans (hl.swaps _ hprefix)

end Randomness

/-- A game of seed 0 with a held piece, two placements and a second swap. -/
theorem piece_ledger_seed_zero :
    ∃ l : Logged, FallibleRun.run (engineStep glibcRandR) (newSeededGame glibcRandR 0)
        [.swapHold, .hardDrop, .swapHold, .hardDrop] = .ok l.gc ∧
      (∀ k piece, (generatedPieces l.log)[k]? = some piece → piece = drawnPiece glibcRandR 0 k) := by
  obtain ⟨l, -, hrun, -, hdrawn, -⟩ := piece_ledger glibcRandR 0
    [.swapHold, .hardDrop, .swapHold, .hardDrop] (by decide +kernel)
  exact ⟨l, hrun, hdrawn⟩

end TetrisMint
