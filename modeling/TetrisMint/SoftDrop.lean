import TetrisMint.LineClearing

/-! Lowering a piece step by step, by the player or by gravity, against `hard_drop`. -/
namespace TetrisMint
open FueledLoop

/-- The state after a placement whose rest counter stood at `n`. -/
def withAutoLowerCount (n : ℤ) (r : GameContents × ℤ) : GameContents × ℤ :=
  if r.2 = 2 then ({ r.1 with autoLowerCount := n }, 2) else r

section Randomness
variable (randR : RandR)

/-- At most `n` calls of `lower_block`, up to the first that does not return -1. -/
def lowerUntil (forced : ℤ) : ℕ → GameContents → Except Fault (GameContents × ℤ)
  | 0, _ => .error .nonterminating
  | n + 1, gc =>
    match lowerBlock randR gc forced with
    | .error e => .error e
    | .ok r => if r.2 = -1 then lowerUntil forced n r.1 else .ok r

theorem lowerUntil_again {gc gc' : GameContents} {forced : ℤ} (n : ℕ)
    (h : lowerBlock randR gc forced = .ok (gc', -1)) :
    lowerUntil randR forced (n + 1) gc = lowerUntil randR forced n gc' := by
  simp [lowerUntil, h]

theorem lowerUntil_done {gc : GameContents} {r : GameContents × ℤ} {forced : ℤ} (n : ℕ)
    (h : lowerBlock randR gc forced = .ok r) (hret : r.2 ≠ -1) :
    lowerUntil randR forced (n + 1) gc = .ok r := by
  simp [lowerUntil, h, hret]

/-- The loop of `hard_drop` lowers the block as repeated calls of `lower_block` do. -/
theorem lowerUntil_drop (gc : GameContents) (forced : ℤ) {block : ActiveBlock}
    (h : dropBlock gc gc.activeBlock = .ok block) :
    ∃ k, ∀ m, lowerUntil randR forced (k + m) gc =
      lowerUntil randR forced m { gc with activeBlock := block } := by
  let c : ActiveBlock → Bool := fun b => (lowerBlockHelper gc b).2 ≠ 0
  let f : ActiveBlock → ActiveBlock := fun b => (lowerBlockHelper gc b).1
  -- the invariant: some number of calls leads to the block where it is now
  let I : ActiveBlock → Prop := fun b => b.tetrisBlock = gc.activeBlock.tetrisBlock ∧
    ∃ k, ∀ m, lowerUntil randR forced (k + m) gc =
      lowerUntil randR forced m { gc with activeBlock := b }
  have hstep (b : ActiveBlock) (hb : I b) (hc : c b = true) : I (f b) := by
    obtain ⟨hp, k, hk⟩ := hb
    have hfit : Fits gc.board (loweredBlock b) := by
      by_contra hfit
      simp [c, lowerBlockHelper_eq gc b hp, hfit] at hc
    have hf : f b = loweredBlock b := by
      simp only [f, lowerBlockHelper_eq gc b hp, hfit, ↓reduceIte]
    have hcall : lowerBlock randR { gc with activeBlock := b } forced =
        .ok ({ gc with activeBlock := f b }, -1) := by
      rw [lowerBlock_eq, hf]
      exact if_pos hfit
    refine ⟨by rw [hf]; exact hp, k + 1, fun m => ?_⟩
    calc lowerUntil randR forced (k + 1 + m) gc
        = lowerUntil randR forced (k + (m + 1)) gc := by rw [add_assoc, add_comm 1 m]
      _ = lowerUntil randR forced (m + 1) { gc with activeBlock := b } := hk (m + 1)
      _ = lowerUntil randR forced m { gc with activeBlock := f b } := lowerUntil_again randR m hcall
  have hstart : I gc.activeBlock := ⟨rfl, 0, fun m => by rw [zero_add]⟩
  have hrun : iterate c f dropBound gc.activeBlock = some block := by
    unfold dropBlock at h
    split at h
    · rename_i b hb
      rw [Except.ok.injEq] at h
      exact h ▸ hb
    · exact absurd h (by simp)
  exact (iterate_invariant c f I hstep hstart hrun).1.2

/-- `place_block` reads the rest counter nowhere: it resets it, or leaves it when the game ends. -/
theorem placeBlock_autoLowerCount (gc : GameContents) (n : ℤ) :
    placeBlock randR { gc with autoLowerCount := n } =
      (placeBlock randR gc).map (withAutoLowerCount n) := by
  unfold placeBlock
  cases gc.board.mergeUnits gc.activeBlock.tetrisBlock.type.toInt
    (getBlockPositions gc.activeBlock) with
  | error e => rfl
  | ok board =>
    dsimp only [cullLines]
    cases cullLoop board with
    | none => rfl
    | some s =>
      dsimp only
      split_ifs
      · rfl
      · rfl

theorem placeBlock_ret {gc gc' : GameContents} {ret : ℤ} (h : placeBlock randR gc = .ok (gc', ret)) :
    ret = 2 ∨ ret = 0 := by
  obtain ⟨_, _, _, _, hcase⟩ := placeBlock_returns randR h
  exact hcase.imp (fun h => h.2.2) fun h => h.2.2

/-- Gravity lets a resting block rest until the counter is used up and places it then. -/
theorem lowerUntil_rest {gc : GameContents} {r : GameContents × ℤ} {forced : ℤ}
    (hforced : forced ≠ 0) (hfit : ¬Fits gc.board (loweredBlock gc.activeBlock))
    (h : placeBlock randR gc = .ok r) :
    ∃ n count, lowerUntil randR forced n gc = .ok (withAutoLowerCount count r) := by
  -- induction on the number of rests that are left
  induction hleft : (maxAutoLower - gc.autoLowerCount).toNat generalizing gc r with
  | zero =>
    have hcount : ¬(forced ≠ 0 ∧ gc.autoLowerCount < maxAutoLower) := by
      omega
    have hcall : lowerBlock randR gc forced =
        .ok (withAutoLowerCount (gc.autoLowerCount + 1) r) := by
      rw [lowerBlock_eq, if_neg hfit, if_neg hcount]
      simp only [enterPlace, hforced, ↓reduceIte]
      rw [placeBlock_autoLowerCount, h]
      rfl
    refine ⟨1, gc.autoLowerCount + 1, lowerUntil_done randR 0 hcall ?_⟩
    rcases placeBlock_ret randR h with hret | hret
    · simp [withAutoLowerCount, hret]
    · simp [withAutoLowerCount, hret]
  | succ left ih =>
    have hcount : forced ≠ 0 ∧ gc.autoLowerCount < maxAutoLower := ⟨hforced, by omega⟩
    let rested : GameContents := { gc with autoLowerCount := gc.autoLowerCount + 1 }
    have hcall : lowerBlock randR gc forced = .ok (rested, -1) := by
      rw [lowerBlock_eq, if_neg hfit, if_pos hcount]
    have hplace : placeBlock randR rested =
        .ok (withAutoLowerCount (gc.autoLowerCount + 1) r) := by
      rw [placeBlock_autoLowerCount, h]
      rfl
    obtain ⟨n, count, hn⟩ := @ih rested _ hfit hplace (by simp only [rested]; omega)
    refine ⟨n + 1, count, ?_⟩
    rw [lowerUntil_again randR n hcall, hn]
    unfold withAutoLowerCount
    split_ifs <;> simp_all

/-- In a game that is on, lowering the piece step by step ends and comes to what
`hard_drop` comes to, whether the player or gravity lowers it; gravity leaves its
own rest counter behind when the placement ends the game. -/
theorem step_by_step_eq_hard_drop (seed : BitVec 32) (ops : List Op) (gc : GameContents)
    (hrun : FallibleRun.run (engineStep randR) (newSeededGame randR seed) ops = .ok gc)
    (hlive : gameOver gc.board = 0) :
    ∃ gc' ret, hardDrop randR gc = .ok (gc', ret) ∧
      (∃ n, lowerUntil randR 0 n gc = .ok (gc', ret)) ∧
      ∃ n count, lowerUntil randR 1 n gc =
        .ok (if ret = 2 then { gc' with autoLowerCount := count } else gc', ret) := by
  have hi := reachable_inv randR ⟨seed, ops, hrun⟩
  obtain ⟨block, d, hd, ⟨hb, -⟩, hrest⟩ := dropBlock_spec gc gc.activeBlock rfl hi.activePiece
  have hblock : placedBlock gc .hardDrop = some block := by simp [placedBlock, hd, Except.toOption]
  -- the placement of the dropped block returns
  obtain ⟨B, s, hm, hs, -⟩ := live_placement hi hlive hblock
  obtain ⟨⟨gc', ret⟩, hplace⟩ : ∃ r, placeBlock randR { gc with activeBlock := block } = .ok r := by
    rw [placeBlock_eq randR { gc with activeBlock := block } hm hs]
    split_ifs
    · exact ⟨_, rfl⟩
    · exact ⟨_, rfl⟩
  refine ⟨gc', ret, ?_, ?_, ?_⟩
  · simp only [hardDrop, hd, hplace]
  · obtain ⟨k, hk⟩ := lowerUntil_drop randR gc 0 hd
    refine ⟨k + 1, ?_⟩
    rw [hk]
    apply lowerUntil_done
    · rw [lowerBlock_eq, if_neg hrest, if_neg (by simp)]
      simpa only [enterPlace, ↓reduceIte] using hplace
    · rcases placeBlock_ret randR hplace with hret | hret
      · simp [hret]
      · simp [hret]
  · obtain ⟨k, hk⟩ := lowerUntil_drop randR gc 1 hd
    obtain ⟨n, count, hn⟩ := lowerUntil_rest randR (by decide : (1 : ℤ) ≠ 0) hrest hplace
    refine ⟨k + n, count, ?_⟩
    rw [hk, hn, withAutoLowerCount]
    split_ifs with hret
    · exact congrArg (fun ret => Except.ok (_, ret)) hret.symm
    · rfl

end Randomness

/-- The first piece of the game of seed 0. -/
theorem step_by_step_first_piece :
    ∃ gc' ret, hardDrop glibcRandR (newSeededGame glibcRandR 0) = .ok (gc', ret) ∧
      ∃ n, lowerUntil glibcRandR 0 n (newSeededGame glibcRandR 0) = .ok (gc', ret) := by
  obtain ⟨gc', ret, hdrop, hlower, -⟩ :=
    step_by_step_eq_hard_drop glibcRandR 0 [] _ rfl (by decide +kernel)
  exact ⟨gc', ret, hdrop, hlower⟩

end TetrisMint
