import TetrisMint.Moves

/-! Undoing moves: a turn with the first offset of its kick list is undone by the
turn back, four of them close a circle, and a step aside is undone by the step back. -/
namespace TetrisMint

/-- `rotate_block` turns the piece with the first offset of the turn's kick list. -/
def TurnsFirst (gc : GameContents) (clockwise : ℤ) (gc' : GameContents) : Prop :=
  ∃ m t kicks, gc.activeBlock.tetrisBlock.srsMode = some m ∧
    IsKickList m gc.activeBlock.rotation (turnedRotation gc.activeBlock.rotation clockwise)
      (t :: kicks) ∧
    rotateBlock gc clockwise = (gc', 0) ∧
    gc'.activeBlock = kickedBlock gc (turnedRotation gc.activeBlock.rotation clockwise) t

/-- Successive turns, each with the first offset of its kick list. -/
inductive FirstTurns : GameContents → List ℤ → GameContents → Prop
  | nil (gc : GameContents) : FirstTurns gc [] gc
  | cons {gc gc₁ gc' : GameContents} {clockwise : ℤ} {turns : List ℤ}
    (first : TurnsFirst gc clockwise gc₁) (rest : FirstTurns gc₁ turns gc') :
    FirstTurns gc (clockwise :: turns) gc'

/-- The first offset of every turn is the way between the places that `center`
gives to the two rotations. -/
def IsCenter (m : SrsMovementMode) (center : Rotation → Position) : Prop :=
  ∀ startRot clockwise t kicks,
    IsKickList m startRot (turnedRotation startRot clockwise) (t :: kicks) →
      t.x = (center (turnedRotation startRot clockwise)).x - (center startRot).x ∧
        t.y = (center (turnedRotation startRot clockwise)).y - (center startRot).y

/-- The hero turns around a corner of its cells, so its middle cell goes round a square. -/
def heroCenter : Rotation → Position
  | .none => ⟨0, 0⟩
  | .right => ⟨1, 0⟩
  | .invert => ⟨1, -1⟩
  | .left => ⟨0, -1⟩

theorem turnedRotation_eq (startRot : Rotation) (clockwise : ℤ) :
    turnedRotation startRot clockwise = turnedRotation startRot 1 ∧ clockwise ≠ 0 ∨
      turnedRotation startRot clockwise = turnedRotation startRot 0 ∧ clockwise = 0 := by
  by_cases hc : clockwise = 0
  · exact Or.inr ⟨by rw [hc], hc⟩
  · exact Or.inl ⟨by simp [turnedRotation, hc], hc⟩

theorem turnedRotation_back (startRot : Rotation) {clockwise back : ℤ}
    (h : back = 0 ↔ clockwise ≠ 0) :
    turnedRotation (turnedRotation startRot clockwise) back = startRot := by
  rcases turnedRotation_eq startRot clockwise with ⟨hturn, hc⟩ | ⟨hturn, hc⟩
  · rw [hturn, h.mpr hc]
    cases startRot <;> rfl
  · have hback : back ≠ 0 := fun h0 => h.mp h0 hc
    have hsame : turnedRotation (turnedRotation startRot 0) back =
        turnedRotation (turnedRotation startRot 0) 1 := by simp [turnedRotation, hback]
    rw [hturn, hsame]
    cases startRot <;> rfl

/-- The tables of opposite turns match, and those of four turns in one direction close. -/
theorem exists_center {m : SrsMovementMode} (hm : m = srsModeStandard ∨ m = srsModeHero) :
    ∃ center, IsCenter m center := by
  -- a kick list is determined by its turn, so the one that is found is compared
  suffices h : ∃ center : Rotation → Position, ∀ startRot, ∀ clockwise ∈ [(1 : ℤ), 0],
      ∀ d ∈ m.descriptorArr, d.startRot = startRot →
        d.endRot = turnedRotation startRot clockwise → ∀ t ∈ d.testArr.head?,
          t.x = (center (turnedRotation startRot clockwise)).x - (center startRot).x ∧
            t.y = (center (turnedRotation startRot clockwise)).y - (center startRot).y by
    obtain ⟨center, hcenter⟩ := h
    refine ⟨center, ?_⟩
    intro startRot clockwise t kicks hkicks
    rcases turnedRotation_eq startRot clockwise with ⟨hturn, -⟩ | ⟨hturn, -⟩
    · rw [hturn] at hkicks ⊢
      exact hcenter startRot 1 (by simp) _ hkicks.listed rfl rfl t rfl
    · rw [hturn] at hkicks ⊢
      exact hcenter startRot 0 (by simp) _ hkicks.listed rfl rfl t rfl
  rcases hm with rfl | rfl
  · refine ⟨fun _ => ⟨0, 0⟩, fun startRot => ?_⟩
    cases startRot <;> decide
  · refine ⟨heroCenter, fun startRot => ?_⟩
    cases startRot <;> decide

theorem mode_of_available {b : TetrisBlock} {m : SrsMovementMode} (hb : b ∈ availableBlocks)
    (hm : b.srsMode = some m) : m = srsModeStandard ∨ m = srsModeHero := by
  rcases srsMode_of_available hb with h | h | h
  · exact absurd (hm.symm.trans h) (by simp)
  · exact Or.inl (Option.some.inj (hm.symm.trans h))
  · exact Or.inr (Option.some.inj (hm.symm.trans h))

section Turns

variable {gc gc' : GameContents}

/-- A first-offset turn changes the pose and nothing else. -/
theorem turnsFirst_eq {clockwise : ℤ} (h : TurnsFirst gc clockwise gc') :
    gc' = { gc with activeBlock := gc'.activeBlock } := by
  obtain ⟨m, t, kicks, -, -, hret, -⟩ := h
  rcases rotateBlock_cases gc clockwise with heq | ⟨block, heq, -⟩
  · rw [hret] at heq
    rw [show gc' = gc from heq]
  · rw [hret, Prod.mk.injEq] at heq
    rw [heq.1]

/-- One first-offset turn: the piece stays, its rotation advances, and its place
relative to the center of the rotation stays. -/
theorem turnsFirst_step {m : SrsMovementMode} {center : Rotation → Position} {clockwise : ℤ}
    (hm : gc.activeBlock.tetrisBlock.srsMode = some m) (hcenter : IsCenter m center)
    (h : TurnsFirst gc clockwise gc') :
    gc'.activeBlock.tetrisBlock = gc.activeBlock.tetrisBlock ∧
      gc'.activeBlock.rotation = turnedRotation gc.activeBlock.rotation clockwise ∧
      gc'.activeBlock.position.x - (center gc'.activeBlock.rotation).x =
        gc.activeBlock.position.x - (center gc.activeBlock.rotation).x ∧
      gc'.activeBlock.position.y - (center gc'.activeBlock.rotation).y =
        gc.activeBlock.position.y - (center gc.activeBlock.rotation).y := by
  obtain ⟨m', t, kicks, hm', hkicks, -, hblock⟩ := h
  rw [hm, Option.some.injEq] at hm'
  obtain ⟨hx, hy⟩ := hcenter _ _ t kicks (hm' ▸ hkicks)
  rw [hblock]
  refine ⟨rfl, rfl, ?_, ?_⟩
  · show gc.activeBlock.position.x + t.x - _ = _
    rw [hx, kickedBlock]
    ring
  · show gc.activeBlock.position.y + t.y - _ = _
    rw [hy, kickedBlock]
    ring

/-- Any number of first-offset turns leaves the place relative to the center. -/
theorem firstTurns_run {m : SrsMovementMode} {center : Rotation → Position} {turns : List ℤ}
    (hm : gc.activeBlock.tetrisBlock.srsMode = some m) (hcenter : IsCenter m center)
    (h : FirstTurns gc turns gc') :
    gc' = { gc with activeBlock := gc'.activeBlock } ∧
      gc'.activeBlock.tetrisBlock = gc.activeBlock.tetrisBlock ∧
      gc'.activeBlock.rotation = turns.foldl turnedRotation gc.activeBlock.rotation ∧
      gc'.activeBlock.position.x - (center gc'.activeBlock.rotation).x =
        gc.activeBlock.position.x - (center gc.activeBlock.rotation).x ∧
      gc'.activeBlock.position.y - (center gc'.activeBlock.rotation).y =
        gc.activeBlock.position.y - (center gc.activeBlock.rotation).y := by
  induction h with
  | nil gc => exact ⟨rfl, rfl, rfl, rfl, rfl⟩
  | cons first rest ih =>
    obtain ⟨hpiece, hrot, hx, hy⟩ := turnsFirst_step hm hcenter first
    obtain ⟨hothers, hpiece', hrot', hx', hy'⟩ := ih (hpiece ▸ hm)
    refine ⟨?_, hpiece'.trans hpiece, ?_, hx'.trans hx, hy'.trans hy⟩
    · rw [hothers, turnsFirst_eq first]
    · rw [hrot', hrot, List.foldl_cons]

/-- First-offset turns that come back to the rotation they started from restore the state. -/
theorem firstTurns_closed {turns : List ℤ} (ha : gc.activeBlock.tetrisBlock ∈ availableBlocks)
    (hturns : turns.foldl turnedRotation gc.activeBlock.rotation = gc.activeBlock.rotation)
    (h : FirstTurns gc turns gc') : gc' = gc := by
  cases hm : gc.activeBlock.tetrisBlock.srsMode with
  | none =>
    -- a piece without kick lists makes no such turn
    cases h with
    | nil => rfl
    | cons first rest =>
      obtain ⟨m, -, -, hm', -⟩ := first
      exact absurd (hm.symm.trans hm') (by simp)
  | some m =>
    obtain ⟨center, hcenter⟩ := exists_center (mode_of_available ha hm)
    obtain ⟨hothers, hpiece, hrot, hx, hy⟩ := firstTurns_run hm hcenter h
    have hrotation : gc'.activeBlock.rotation = gc.activeBlock.rotation := hrot.trans hturns
    rw [hrotation] at hx hy
    have hposition : gc'.activeBlock.position = gc.activeBlock.position := by
      rw [Position.mk.injEq]
      exact ⟨by linarith, by linarith⟩
    have hblock : gc'.activeBlock = gc.activeBlock := by
      rw [ActiveBlock.mk.injEq]
      exact ⟨hpiece, hrotation, hposition⟩
    rw [hothers, hblock]

/-- The first offset of the turn back leads to the pose the piece came from. -/
theorem kickedBlock_back {m : SrsMovementMode} {center : Rotation → Position} {clockwise back : ℤ}
    {t : Position} {kicks : List Position}
    (hm : gc.activeBlock.tetrisBlock.srsMode = some m) (hcenter : IsCenter m center)
    (hdir : back = 0 ↔ clockwise ≠ 0) (h : TurnsFirst gc clockwise gc')
    (hkicks : IsKickList m gc'.activeBlock.rotation
      (turnedRotation gc'.activeBlock.rotation back) (t :: kicks)) :
    kickedBlock gc' (turnedRotation gc'.activeBlock.rotation back) t = gc.activeBlock := by
  obtain ⟨hpiece, hrot, hx, hy⟩ := turnsFirst_step hm hcenter h
  obtain ⟨htx, hty⟩ := hcenter _ _ t kicks hkicks
  have hback : turnedRotation gc'.activeBlock.rotation back = gc.activeBlock.rotation := by
    rw [hrot]
    exact turnedRotation_back gc.activeBlock.rotation hdir
  rw [hback] at htx hty ⊢
  have hposition : (⟨gc'.activeBlock.position.x + t.x, gc'.activeBlock.position.y + t.y⟩ : Position) =
      gc.activeBlock.position := by
    rw [Position.mk.injEq]
    exact ⟨by linarith, by linarith⟩
  rw [kickedBlock, hposition, hpiece]

theorem rotateBlock_back {clockwise back : ℤ} (ha : gc.activeBlock.tetrisBlock ∈ availableBlocks)
    (hfit : Fits gc.board gc.activeBlock) (hdir : back = 0 ↔ clockwise ≠ 0)
    (h : TurnsFirst gc clockwise gc') : rotateBlock gc' back = (gc, 0) := by
  obtain ⟨m, -, -, hm, -⟩ := id h
  have hmode := mode_of_available ha hm
  obtain ⟨center, hcenter⟩ := exists_center hmode
  have hothers := turnsFirst_eq h
  have hm' : gc'.activeBlock.tetrisBlock.srsMode = some m := by
    rw [(turnsFirst_step hm hcenter h).1, hm]
  obtain ⟨kicks, hkicks, hfind⟩ := find_kickList hmode gc'.activeBlock.rotation back
  cases kicks with
  | nil => exact absurd hkicks.five (by simp)
  | cons t kicks =>
    have hblock := kickedBlock_back hm hcenter hdir h hkicks
    have hboard : gc'.board = gc.board := by rw [hothers]
    -- the cells the piece came from are free still, so the first offset is taken
    have hfirst : Fits gc'.board
        (kickedBlock gc' (turnedRotation gc'.activeBlock.rotation back) t) := by
      rw [hblock, hboard]
      exact hfit
    rw [rotateBlock_eq hm' hfind, List.find?_cons_of_pos (by simpa using hfirst), Option.map_some,
      Option.getD_some, hblock]
    rw [hothers]

/-- A successful step aside is undone by the step back. -/
theorem translateBlockHelper_back {d : ℤ} (hfit : Fits gc.board gc.activeBlock)
    (h : (translateBlockHelper gc d).2 = 0) :
    translateBlockHelper (translateBlockHelper gc d).1 (-d) = (gc, 0) := by
  rw [((translateBlockHelper_facts gc d).2 h).2, translateBlockHelper_eq]
  have hblock : shiftedBlock { gc with activeBlock := shiftedBlock gc d } (-d) = gc.activeBlock := by
    have hposition : (⟨gc.activeBlock.position.x + d + -d, gc.activeBlock.position.y⟩ : Position) =
        gc.activeBlock.position := by
      rw [Position.mk.injEq]
      exact ⟨by ring, rfl⟩
    show ({ gc.activeBlock with
      position := ⟨gc.activeBlock.position.x + d + -d, gc.activeBlock.position.y⟩ } : ActiveBlock) = _
    rw [hposition]
  rw [hblock, if_pos hfit]

end Turns

/-- Four quarter turns in one direction. -/
theorem fourTurns_rotation (startRot : Rotation) {turns : List ℤ} (hfour : turns.length = 4)
    (hdir : (∀ c ∈ turns, c = 0) ∨ ∀ c ∈ turns, c ≠ 0) :
    turns.foldl turnedRotation startRot = startRot := by
  -- only whether a direction is zero matters
  have hfold (c₀ : ℤ) (hsame : ∀ c ∈ turns, ∀ r, turnedRotation r c = turnedRotation r c₀) :
      turns.foldl turnedRotation startRot = (List.replicate 4 c₀).foldl turnedRotation startRot := by
    rw [← hfour]
    clear hfour hdir
    induction turns generalizing startRot with
    | nil => rfl
    | cons c turns ih =>
      rw [List.forall_mem_cons] at hsame
      rw [List.foldl_cons, List.length_cons, List.replicate_succ, List.foldl_cons, hsame.1,
        ih _ hsame.2]
  rcases hdir with hzero | hone
  · rw [hfold 0 fun c hc r => by rw [hzero c hc]]
    cases startRot <;> rfl
  · rw [hfold 1 fun c hc r => by simp [turnedRotation, hone c hc]]
    cases startRot <;> rfl

section Randomness
variable (randR : RandR)

/-- In every state of a run in which the game is on: a turn with the first offset
of its kick list is undone by the turn back, which succeeds at once; four turns in
one direction, each with its first offset, restore the pose; a piece without kick
lists keeps its pose when it is turned; a step to the left is undone by one to the
right, and the other way round. -/
theorem moves_reversible (seed : BitVec 32) (ops : List Op) (gc : GameContents)
    (hrun : FallibleRun.run (engineStep randR) (newSeededGame randR seed) ops = .ok gc)
    (hlive : gameOver gc.board = 0) :
    (∀ clockwise back gc', TurnsFirst gc clockwise gc' → (back = 0 ↔ clockwise ≠ 0) →
      rotateBlock gc' back = (gc, 0)) ∧
    (∀ turns gc', turns.length = 4 → ((∀ c ∈ turns, c = 0) ∨ ∀ c ∈ turns, c ≠ 0) →
      FirstTurns gc turns gc' → gc' = gc) ∧
    (gc.activeBlock.tetrisBlock.srsMode = none → ∀ clockwise, rotateBlock gc clockwise = (gc, 0)) ∧
    ((translateBlockLeft gc).2 = 0 → translateBlockRight (translateBlockLeft gc).1 = (gc, 0)) ∧
    ((translateBlockRight gc).2 = 0 → translateBlockLeft (translateBlockRight gc).1 = (gc, 0)) := by
  have hi := reachable_inv randR ⟨seed, ops, hrun⟩
  have hfit := hi.liveFits hlive
  refine ⟨?_, ?_, ?_, ?_, ?_⟩
  · intro clockwise back gc' hturn hdir
    exact rotateBlock_back hi.activePiece hfit hdir hturn
  · intro turns gc' hfour hdir hturns
    apply firstTurns_closed hi.activePiece _ hturns
    exact fourTurns_rotation _ hfour hdir
  · intro hmode clockwise
    rw [rotateBlock, hmode]
  · exact translateBlockHelper_back hfit
  · intro h
    exact translateBlockHelper_back hfit h

end Randomness

/-- The first piece of a game of heroes is turned where it spawns and back: the
first offset moves it one column, and the turn back undoes that too. -/
theorem moves_reversible_first_hero :
    (rotateBlock (newSeededGame (fun seed => (5, seed)) 0) 1).1.activeBlock.position = ⟨5, 21⟩ ∧
      rotateBlock (rotateBlock (newSeededGame (fun seed => (5, seed)) 0) 1).1 0 =
        (newSeededGame (fun seed => (5, seed)) 0, 0) := by
  have hturn : TurnsFirst (newSeededGame (fun seed => (5, seed)) 0) 1
      (rotateBlock (newSeededGame (fun seed => (5, seed)) 0) 1).1 :=
    ⟨srsModeHero, ⟨1, 0⟩, srsModeHeroDes0Arr.tail, rfl, ⟨by decide, by decide, by decide⟩,
      by decide +kernel, by decide +kernel⟩
  refine ⟨by decide +kernel, ?_⟩
  apply (moves_reversible (fun seed => (5, seed)) 0 [] _ rfl (by decide +kernel)).1 1 0
  · exact hturn
  · decide

end TetrisMint
