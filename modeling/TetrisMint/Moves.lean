import TetrisMint.CullTermination

/-! Moving and turning the active piece: a refused move changes nothing, a move
that succeeds changes only the pose. -/
namespace TetrisMint

/-- A quarter turn in board coordinates, whose origin is bottom left. -/
def quarterTurn (clockwise : ℤ) (p : Position) : Position :=
  if clockwise ≠ 0 then ⟨p.y, -p.x⟩ else ⟨-p.y, p.x⟩

/-- The active block `d` columns further. -/
def shiftedBlock (gc : GameContents) (d : ℤ) : ActiveBlock :=
  { gc.activeBlock with position := ⟨gc.activeBlock.position.x + d, gc.activeBlock.position.y⟩ }

/-- The kick list of the turn from `startRot` to `endRot`. -/
structure IsKickList (m : SrsMovementMode) (startRot endRot : Rotation) (kicks : List Position) :
    Prop where
  listed : ⟨startRot, endRot, kicks⟩ ∈ m.descriptorArr
  unique : ∀ d ∈ m.descriptorArr, d.startRot = startRot → d.endRot = endRot → d.testArr = kicks
  five : kicks.length = 5

theorem rotate_turnedRotation (startRot : Rotation) (clockwise : ℤ) (p : Position) :
    (turnedRotation startRot clockwise).rotate p = quarterTurn clockwise (startRot.rotate p) := by
  by_cases hc : clockwise = 0
  · cases startRot <;>
      simp [turnedRotation, quarterTurn, hc, Rotation.toNat, Rotation.ofRemainder, rotCount,
        Rotation.rotate]
  · cases startRot <;>
      simp [turnedRotation, quarterTurn, hc, Rotation.toNat, Rotation.ofRemainder, rotCount,
        Rotation.rotate]

theorem srsMode_of_available {b : TetrisBlock} (hb : b ∈ availableBlocks) :
    b.srsMode = none ∨ b.srsMode = some srsModeStandard ∨ b.srsMode = some srsModeHero := by
  revert b
  decide

/-- Both kick tables list every quarter turn once, with five offsets. -/
theorem find_kickList {m : SrsMovementMode} (hm : m = srsModeStandard ∨ m = srsModeHero)
    (startRot : Rotation) (clockwise : ℤ) :
    ∃ kicks, IsKickList m startRot (turnedRotation startRot clockwise) kicks ∧
      m.descriptorArr.find? (fun d => d.startRot = startRot &&
        d.endRot = turnedRotation startRot clockwise) =
          some ⟨startRot, turnedRotation startRot clockwise, kicks⟩ := by
  have hturn : turnedRotation startRot clockwise = turnedRotation startRot 1 ∨
      turnedRotation startRot clockwise = turnedRotation startRot 0 := by
    by_cases hc : clockwise = 0
    · exact Or.inr (by rw [hc])
    · exact Or.inl (by simp [turnedRotation, hc])
  rcases hturn with h | h <;> rw [h] <;> rcases hm with rfl | rfl <;> cases startRot <;>
    exact ⟨_, ⟨by decide, by decide, by decide⟩, rfl⟩

theorem translateBlockHelper_eq (gc : GameContents) (d : ℤ) :
    translateBlockHelper gc d =
      if Fits gc.board (shiftedBlock gc d) then ({ gc with activeBlock := shiftedBlock gc d }, 0)
      else (gc, -1) := by
  have htest := testBlock_eq_zero_iff gc (shiftedBlock gc d) rfl
  simp only [← htest]
  rfl

/-- A piece with a kick table is turned by the first offset that fits, or not at all. -/
theorem rotateBlock_eq {gc : GameContents} {m : SrsMovementMode} {clockwise : ℤ}
    {kicks : List Position} (hm : gc.activeBlock.tetrisBlock.srsMode = some m)
    (hfind : m.descriptorArr.find? (fun d => d.startRot = gc.activeBlock.rotation &&
      d.endRot = turnedRotation gc.activeBlock.rotation clockwise) =
        some ⟨gc.activeBlock.rotation, turnedRotation gc.activeBlock.rotation clockwise, kicks⟩) :
    rotateBlock gc clockwise =
      ((kicks.find? fun t =>
          Fits gc.board (kickedBlock gc (turnedRotation gc.activeBlock.rotation clockwise) t)).map
        fun t => ({ gc with
          activeBlock := kickedBlock gc (turnedRotation gc.activeBlock.rotation clockwise) t }, (0 : ℤ))).getD
        (gc, -1) := by
  have htest (t : Position) := testBlock_eq_zero_iff gc
    (kickedBlock gc (turnedRotation gc.activeBlock.rotation clockwise) t) rfl
  simp only [← htest]
  simp only [rotateBlock, hm, hfind]
  cases kicks.find? fun t => decide (testBlock gc
      (kickedBlock gc (turnedRotation gc.activeBlock.rotation clockwise) t) = 0) with
  | none => rfl
  | some t => rfl

/-- What the turn does with the offsets: the first that fits is taken. -/
theorem rotateBlock_kicks {gc : GameContents} {m : SrsMovementMode} {clockwise : ℤ}
    {kicks : List Position} (hm : gc.activeBlock.tetrisBlock.srsMode = some m)
    (hfind : m.descriptorArr.find? (fun d => d.startRot = gc.activeBlock.rotation &&
      d.endRot = turnedRotation gc.activeBlock.rotation clockwise) =
        some ⟨gc.activeBlock.rotation, turnedRotation gc.activeBlock.rotation clockwise, kicks⟩) :
    ((rotateBlock gc clockwise).2 ≠ 0 ↔ ∀ t ∈ kicks,
        ¬Fits gc.board (kickedBlock gc (turnedRotation gc.activeBlock.rotation clockwise) t)) ∧
      ((rotateBlock gc clockwise).2 = 0 → ∃ pre t post, kicks = pre ++ t :: post ∧
        (∀ u ∈ pre,
          ¬Fits gc.board (kickedBlock gc (turnedRotation gc.activeBlock.rotation clockwise) u)) ∧
        Fits gc.board (kickedBlock gc (turnedRotation gc.activeBlock.rotation clockwise) t) ∧
        (rotateBlock gc clockwise).1 = { gc with
          activeBlock := kickedBlock gc (turnedRotation gc.activeBlock.rotation clockwise) t }) := by
  rw [rotateBlock_eq hm hfind]
  cases hfirst : kicks.find? fun t =>
      Fits gc.board (kickedBlock gc (turnedRotation gc.activeBlock.rotation clockwise) t) with
  | none =>
    -- the turn fails
    have hnone := List.find?_eq_none.mp hfirst
    simp only [decide_eq_true_eq] at hnone
    have hne : (-1 : ℤ) ≠ 0 := by decide
    exact ⟨⟨fun _ => hnone, fun _ => hne⟩, fun h => absurd h hne⟩
  | some t =>
    obtain ⟨hfit, pre, post, hkick, hpre⟩ := List.find?_eq_some_iff_append.mp hfirst
    rw [decide_eq_true_iff] at hfit
    refine ⟨⟨fun h => absurd rfl h, ?_⟩, fun _ => ⟨pre, t, post, hkick, ?_, hfit, rfl⟩⟩
    · intro h
      exact absurd hfit (h t (List.mem_of_find?_eq_some hfirst))
    · simpa using hpre

section Randomness
variable (randR : RandR)

theorem swapHoldBlock_refused {gc : GameContents} (h : (swapHoldBlock randR gc).2 ≠ 0) :
    (swapHoldBlock randR gc).1 = gc := by
  unfold swapHoldBlock at h ⊢
  split_ifs at h ⊢
  · rfl
  · exact absurd rfl h
  · exact absurd rfl h

end Randomness

theorem translateBlockHelper_facts (gc : GameContents) (d : ℤ) :
    ((translateBlockHelper gc d).2 ≠ 0 → (translateBlockHelper gc d).1 = gc) ∧
      ((translateBlockHelper gc d).2 = 0 → Fits gc.board (shiftedBlock gc d) ∧
        (translateBlockHelper gc d).1 = { gc with activeBlock := shiftedBlock gc d }) := by
  rw [translateBlockHelper_eq]
  split_ifs with hfit
  · exact ⟨fun h => absurd rfl h, fun _ => ⟨hfit, rfl⟩⟩
  · exact ⟨fun _ => rfl, fun h => absurd h (by simp)⟩

theorem rotateBlock_refused {gc : GameContents} {clockwise : ℤ}
    (h : (rotateBlock gc clockwise).2 ≠ 0) : (rotateBlock gc clockwise).1 = gc := by
  rcases rotateBlock_cases gc clockwise with heq | ⟨block, heq, -⟩
  · exact heq
  · rw [heq] at h
    exact absurd rfl h

section Randomness
variable (randR : RandR)

/-- In every state of a run, after game over too: a call that moves, turns or
swaps and does not return 0 changes nothing; a move that returns 0 shifts the
active piece by one column to free cells; a turn of a piece with a kick table is
a quarter turn with the first offset of the turn's five that fits, and it fails
exactly when none does. -/
theorem moves_all_or_nothing (seed : BitVec 32) (ops : List Op) (gc : GameContents)
    (hrun : FallibleRun.run (engineStep randR) (newSeededGame randR seed) ops = .ok gc) :
    ((translateBlockLeft gc).2 ≠ 0 → (translateBlockLeft gc).1 = gc) ∧
    ((translateBlockRight gc).2 ≠ 0 → (translateBlockRight gc).1 = gc) ∧
    (∀ clockwise, (rotateBlock gc clockwise).2 ≠ 0 → (rotateBlock gc clockwise).1 = gc) ∧
    ((swapHoldBlock randR gc).2 ≠ 0 → (swapHoldBlock randR gc).1 = gc) ∧
    ((translateBlockLeft gc).2 = 0 → Fits gc.board (shiftedBlock gc 1) ∧
      (translateBlockLeft gc).1 = { gc with activeBlock := shiftedBlock gc 1 }) ∧
    ((translateBlockRight gc).2 = 0 → Fits gc.board (shiftedBlock gc (-1)) ∧
      (translateBlockRight gc).1 = { gc with activeBlock := shiftedBlock gc (-1) }) ∧
    ∀ clockwise m, gc.activeBlock.tetrisBlock.srsMode = some m →
      ∃ endRot kicks, IsKickList m gc.activeBlock.rotation endRot kicks ∧
        (∀ p, endRot.rotate p = quarterTurn clockwise (gc.activeBlock.rotation.rotate p)) ∧
        ((rotateBlock gc clockwise).2 ≠ 0 ↔ ∀ t ∈ kicks, ¬Fits gc.board (kickedBlock gc endRot t)) ∧
        ((rotateBlock gc clockwise).2 = 0 → ∃ pre t post, kicks = pre ++ t :: post ∧
          (∀ u ∈ pre, ¬Fits gc.board (kickedBlock gc endRot u)) ∧
          Fits gc.board (kickedBlock gc endRot t) ∧
          (rotateBlock gc clockwise).1 = { gc with activeBlock := kickedBlock gc endRot t }) := by
  have hi := reachable_inv randR ⟨seed, ops, hrun⟩
  have hleft := translateBlockHelper_facts gc 1
  have hright := translateBlockHelper_facts gc (-1)
  refine ⟨hleft.1, hright.1, fun _ => rotateBlock_refused, swapHoldBlock_refused randR, hleft.2,
    hright.2, ?_⟩
  intro clockwise m hm
  -- only the two kick tables of the source turn a piece
  have hmode : m = srsModeStandard ∨ m = srsModeHero := by
    rcases srsMode_of_available hi.activePiece with h | h | h
    · rw [h] at hm
      exact absurd hm (by simp)
    · exact Or.inl (Option.some.inj (hm.symm.trans h))
    · exact Or.inr (Option.some.inj (hm.symm.trans h))
  obtain ⟨kicks, hkicks, hfind⟩ := find_kickList hmode gc.activeBlock.rotation clockwise
  exact ⟨_, kicks, hkicks, rotate_turnedRotation gc.activeBlock.rotation clockwise,
    rotateBlock_kicks hm hfind⟩

end Randomness

/-- The first piece of the game of seed 0, moved and turned where it spawns. -/
theorem moves_all_or_nothing_first_piece :
    (translateBlockLeft (newSeededGame glibcRandR 0)).2 = 0 ∧
      (translateBlockLeft (newSeededGame glibcRandR 0)).1 = { newSeededGame glibcRandR 0 with
        activeBlock := shiftedBlock (newSeededGame glibcRandR 0) 1 } ∧
      (rotateBlock (newSeededGame glibcRandR 0) 1).2 = 0 ∧
      ∃ endRot kicks t, IsKickList srsModeStandard
          (newSeededGame glibcRandR 0).activeBlock.rotation endRot kicks ∧ t ∈ kicks ∧
        (rotateBlock (newSeededGame glibcRandR 0) 1).1 = { newSeededGame glibcRandR 0 with
          activeBlock := kickedBlock (newSeededGame glibcRandR 0) endRot t } := by
  have hmoved : (translateBlockLeft (newSeededGame glibcRandR 0)).2 = 0 := by decide +kernel
  have hturned : (rotateBlock (newSeededGame glibcRandR 0) 1).2 = 0 := by decide +kernel
  obtain ⟨-, -, -, -, hleft, -, hturn⟩ := moves_all_or_nothing glibcRandR 0 [] _ rfl
  obtain ⟨endRot, kicks, hkicks, -, -, hkick⟩ := hturn 1 srsModeStandard (by decide +kernel)
  obtain ⟨pre, t, post, hsplit, -, -, hstate⟩ := hkick hturned
  have ht : t ∈ kicks := hsplit ▸ List.mem_append_right pre (List.mem_cons_self ..)
  exact ⟨hmoved, (hleft hmoved).2, hturned, endRot, kicks, t, hkicks, ht, hstate⟩

end TetrisMint
