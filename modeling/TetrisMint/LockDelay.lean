import TetrisMint.CallRecord
import TetrisMint.EngineInvariant
import TetrisMint.ShadowBlocks

/-! The lock delay: how often gravity finds the active piece resting before it is
placed, and the counter that all pieces share for it. -/
namespace TetrisMint

open FallibleRun CallRecord

abbrev EngineCall := Call GameContents Op ℤ

/-- A forced lower_block that found the active piece resting. -/
def findsResting (c : EngineCall) : Bool :=
  match c.op with
  | .lower forced => forced ≠ 0 && (lowerBlockHelper c.before c.before.activeBlock).2 = 0
  | _ => false

/-- A call that made another piece active: place_block and swap_hold_block return 0
when they do, and the calls that only move the piece return 0 or -1 from elsewhere. -/
def activates (c : EngineCall) : Bool :=
  match c.op with
  | .lower _ => c.ret = 0
  | .hardDrop => c.ret = 0
  | .swapHold => c.ret = 0
  | _ => false

/-- A forced lower_block that placed the active piece, which the return value
tells: place_block returns 0 or 2, and every other way out returns -1. -/
def forcedPlacement (c : EngineCall) : Bool :=
  match c.op with
  | .lower forced => forced ≠ 0 && c.ret ≠ -1
  | _ => false

/-- How many forced lower_block calls found the active piece resting since it was made active. -/
def restsSince : List EngineCall → ℕ
  | [] => 0
  | c :: past => if activates c then 0 else restsSince past + if findsResting c then 1 else 0

/-- What the counter held when the active piece was made active: a placement resets
it, and a swap hands on the count of the piece before. -/
def carriedRests : List EngineCall → ℤ
  | [] => 0
  | c :: past =>
    if activates c then (if c.op = .swapHold then c.before.autoLowerCount else 0)
    else carriedRests past

/-- A forced lower_block places the piece only after it rested often enough. -/
def DelayKept (c : EngineCall) (past : List EngineCall) : Prop :=
  forcedPlacement c → maxAutoLower ≤ restsSince past

/-- A forced lower_block that meets a resting piece with the counter used up meets
one that no swap has made active with a counter other than 0. -/
def CounterFresh (c : EngineCall) (past : List EngineCall) : Prop :=
  findsResting c → maxAutoLower ≤ c.before.autoLowerCount → carriedRests past = 0

instance (c : EngineCall) (past : List EngineCall) : Decidable (DelayKept c past) :=
  inferInstanceAs (Decidable (_ → _))

instance (c : EngineCall) (past : List EngineCall) : Decidable (CounterFresh c past) :=
  inferInstanceAs (Decidable (_ → _ → _))

theorem findsResting_lower (gc : GameContents) (forced ret : ℤ) :
    findsResting ⟨gc, .lower forced, ret⟩ = true ↔
      forced ≠ 0 ∧ ¬Fits gc.board (loweredBlock gc.activeBlock) := by
  simp only [findsResting, lowerBlockHelper_eq gc gc.activeBlock rfl, Bool.and_eq_true,
    decide_eq_true_eq]
  split_ifs with hfit
  · simp [hfit]
  · simp [hfit]

section Randomness
variable (randR : RandR)

/-- What place_block does to the counter. -/
theorem placeBlock_counter {gc gc' : GameContents} {ret : ℤ}
    (h : placeBlock randR gc = .ok (gc', ret)) :
    ret = 0 ∧ gc'.autoLowerCount = 0 ∨ ret = 2 ∧ gc'.autoLowerCount = gc.autoLowerCount := by
  obtain ⟨merged, s, -, -, ⟨-, rfl, hret⟩ | ⟨-, rfl, hret⟩⟩ := placeBlock_returns randR h
  · exact Or.inr ⟨hret, rfl⟩
  · exact Or.inl ⟨hret, rfl⟩

/-- The counter after one call: that of a placement is 0, a swap keeps it, and
otherwise it counts the forced calls that find the piece resting. -/
structure Counted (gc gc' : GameContents) (c : EngineCall) : Prop where
  counter : gc'.autoLowerCount =
    if activates c then (if c.op = .swapHold then gc.autoLowerCount else 0)
    else gc.autoLowerCount + if findsResting c then 1 else 0
  placement : forcedPlacement c = true ↔
    findsResting c = true ∧ maxAutoLower ≤ gc.autoLowerCount

theorem lower_counted {gc gc' : GameContents} {forced ret : ℤ}
    (h : lowerBlock randR gc forced = .ok (gc', ret)) : Counted gc gc' ⟨gc, .lower forced, ret⟩ := by
  have hrest := findsResting_lower gc forced ret
  rw [lowerBlock_eq] at h
  split_ifs at h with hfit hwait
  · -- the piece moves down
    rw [Except.ok.injEq, Prod.mk.injEq] at h
    obtain ⟨rfl, rfl⟩ := h
    have hno : ¬findsResting ⟨gc, .lower forced, -1⟩ = true := fun h => (hrest.mp h).2 hfit
    exact ⟨by simp [activates, hno], by simp [forcedPlacement, hno]⟩
  · -- it rests and is left to
    rw [Except.ok.injEq, Prod.mk.injEq] at h
    obtain ⟨rfl, rfl⟩ := h
    have hyes := hrest.mpr ⟨hwait.1, hfit⟩
    refine ⟨by simp [activates, hyes], ?_⟩
    have hcount : ¬maxAutoLower ≤ gc.autoLowerCount := not_le.mpr hwait.2
    simp [forcedPlacement, hcount]
  · -- the piece is placed: the call was not forced, or the counter is used up
    have hplaced := placeBlock_counter randR h
    have hret : ret ≠ -1 := by
      rcases hplaced with ⟨h0, -⟩ | ⟨h2, -⟩
      · rw [h0]
        decide
      · rw [h2]
        decide
    rw [not_and_or, not_not, not_lt] at hwait
    by_cases hforced : forced = 0
    · -- only forced calls count as rests
      subst hforced
      have hno : findsResting ⟨gc, .lower 0, ret⟩ = false := by simp [findsResting]
      refine ⟨?_, by simp [forcedPlacement, hno]⟩
      rcases hplaced with ⟨rfl, hcount⟩ | ⟨rfl, hcount⟩
      · simp [activates, hcount]
      · simp [activates, hno, hcount, enterPlace]
    · have hyes := hrest.mpr ⟨hforced, hfit⟩
      have hspent := hwait.resolve_left hforced
      refine ⟨?_, by simp [forcedPlacement, hyes, hforced, hret, hspent]⟩
      rcases hplaced with ⟨rfl, hcount⟩ | ⟨rfl, hcount⟩
      · simp [activates, hcount]
      · simp [activates, hyes, hcount, enterPlace, hforced]

theorem translateBlockHelper_counter (gc : GameContents) (d : ℤ) :
    (translateBlockHelper gc d).1.autoLowerCount = gc.autoLowerCount := by
  rcases translateBlockHelper_cases gc d with heq | ⟨block, heq, -⟩
  · rw [heq]
  · rw [heq]

theorem rotateBlock_counter (gc : GameContents) (clockwise : ℤ) :
    (rotateBlock gc clockwise).1.autoLowerCount = gc.autoLowerCount := by
  rcases rotateBlock_cases gc clockwise with heq | ⟨block, heq, -⟩
  · rw [heq]
  · rw [heq]

/-- A hard drop places the piece whatever the counter is. -/
theorem hardDrop_counted {gc gc' : GameContents} {ret : ℤ}
    (h : hardDrop randR gc = .ok (gc', ret)) : Counted gc gc' ⟨gc, .hardDrop, ret⟩ := by
  rw [hardDrop] at h
  cases hdrop : dropBlock gc gc.activeBlock with
  | error e =>
    rw [hdrop] at h
    exact absurd h (by simp)
  | ok block =>
    rw [hdrop] at h
    rcases placeBlock_counter randR h with ⟨rfl, hcount⟩ | ⟨rfl, hcount⟩
    · exact ⟨by simp [activates, hcount], by simp [forcedPlacement, findsResting]⟩
    · exact ⟨by simp [activates, findsResting, hcount], by simp [forcedPlacement, findsResting]⟩

/-- A swap brings another piece into play and leaves it the counter. -/
theorem swapHoldBlock_counted {gc gc' : GameContents} {ret : ℤ}
    (h : swapHoldBlock randR gc = (gc', ret)) : Counted gc gc' ⟨gc, .swapHold, ret⟩ := by
  unfold swapHoldBlock at h
  split_ifs at h
  · -- no swap is left
    rw [Prod.mk.injEq] at h
    obtain ⟨rfl, rfl⟩ := h
    exact ⟨by simp [activates, findsResting], by simp [forcedPlacement, findsResting]⟩
  · -- the hold is empty
    rw [Prod.mk.injEq] at h
    obtain ⟨rfl, rfl⟩ := h
    exact ⟨by simp [activates, generateNewBlock], by simp [forcedPlacement, findsResting]⟩
  · rw [Prod.mk.injEq] at h
    obtain ⟨rfl, rfl⟩ := h
    exact ⟨by simp [activates], by simp [forcedPlacement, findsResting]⟩

theorem call_counted {gc gc' : GameContents} {op : Op} {ret : ℤ}
    (h : op.call randR gc = .ok (gc', ret)) : Counted gc gc' ⟨gc, op, ret⟩ := by
  -- a call that neither lowers nor activates leaves the counter alone
  have hother (hcount : gc'.autoLowerCount = gc.autoLowerCount)
      (hop : activates ⟨gc, op, ret⟩ = false ∧ findsResting ⟨gc, op, ret⟩ = false ∧
        forcedPlacement ⟨gc, op, ret⟩ = false) : Counted gc gc' ⟨gc, op, ret⟩ :=
    ⟨by simp [hop, hcount], by simp [hop]⟩
  cases op with
  | translateLeft =>
    apply hother _ ⟨rfl, rfl, rfl⟩
    have hgc : (translateBlockLeft gc).1 = gc' := congrArg Prod.fst (Except.ok.inj h)
    rw [← hgc]
    exact translateBlockHelper_counter gc 1
  | translateRight =>
    apply hother _ ⟨rfl, rfl, rfl⟩
    have hgc : (translateBlockRight gc).1 = gc' := congrArg Prod.fst (Except.ok.inj h)
    rw [← hgc]
    exact translateBlockHelper_counter gc (-1)
  | rotate clockwise =>
    apply hother _ ⟨rfl, rfl, rfl⟩
    have hgc : (rotateBlock gc clockwise).1 = gc' := congrArg Prod.fst (Except.ok.inj h)
    rw [← hgc]
    exact rotateBlock_counter gc clockwise
  | lower forced => exact lower_counted randR h
  | hardDrop => exact hardDrop_counted randR h
  | swapHold => exact swapHoldBlock_counted randR (Except.ok.inj h)
  | view =>
    apply hother _ ⟨rfl, rfl, rfl⟩
    have hstep : engineStep randR gc .view = .ok gc' := (engineStep_eq_ok randR).mpr ⟨_, h⟩
    have hseen := view_unshadowed hstep
    rw [GameContents.unshadowed, GameContents.unshadowed, GameContents.mk.injEq] at hseen
    exact hseen.2.2.1

/-- What holds of a game and its record while the delay is kept: the counter is what
the active piece brought with it and its own rests, and a piece that brought
something along has rested at most so often that the sum still fits the delay. -/
structure DelayInv (gc : GameContents) (past : List EngineCall) : Prop where
  counter : gc.autoLowerCount = carriedRests past + restsSince past
  carried : 0 ≤ carriedRests past
  bounded : 0 < carriedRests past → 0 < restsSince past →
    carriedRests past + restsSince past ≤ maxAutoLower

theorem newSeededGame_delayInv (seed : BitVec 32) : DelayInv (newSeededGame randR seed) [] :=
  ⟨rfl, le_refl _, fun h => absurd h (by decide)⟩

variable {randR} {gc gc' : GameContents} {past : List EngineCall} {op : Op} {ret : ℤ}

/-- A forced call meets a piece whose counter is used up: it rested often enough
exactly when nothing was carried over to it. -/
theorem spent_iff (hinv : DelayInv gc past) (hspent : maxAutoLower ≤ gc.autoLowerCount) :
    maxAutoLower ≤ restsSince past ↔ carriedRests past = 0 := by
  have hcarried := hinv.carried
  rw [hinv.counter] at hspent
  constructor
  · intro hrests
    by_contra hne
    have hpos : 0 < restsSince past := by
      rw [maxAutoLower] at hrests
      omega
    -- both parts are positive, so their sum is at most the delay
    have := hinv.bounded (by omega) hpos
    omega
  · intro h0
    omega

theorem delayKept_iff (h : op.call randR gc = .ok (gc', ret)) (hinv : DelayInv gc past) :
    DelayKept ⟨gc, op, ret⟩ past ↔ CounterFresh ⟨gc, op, ret⟩ past := by
  have hplacement := (call_counted randR h).placement
  constructor
  · intro hkept hrest hspent
    apply (spent_iff hinv hspent).mp
    exact hkept (hplacement.mpr ⟨hrest, hspent⟩)
  · intro hfresh hplaced
    obtain ⟨hrest, hspent⟩ := hplacement.mp hplaced
    exact (spent_iff hinv hspent).mpr (hfresh hrest hspent)

/-- One call that keeps the delay keeps the invariant. -/
theorem delayInv_step (h : op.call randR gc = .ok (gc', ret)) (hinv : DelayInv gc past)
    (hkept : DelayKept ⟨gc, op, ret⟩ past) : DelayInv gc' (⟨gc, op, ret⟩ :: past) := by
  have hcounted := call_counted randR h
  have hcounter := hcounted.counter
  by_cases hactive : activates ⟨gc, op, ret⟩ = true
  · -- another piece: it has not rested yet
    rw [if_pos hactive] at hcounter
    refine ⟨?_, ?_, ?_⟩
    · rw [hcounter, carriedRests, restsSince, if_pos hactive, if_pos hactive]
      simp
    · rw [carriedRests, if_pos hactive]
      split_ifs
      · have := hinv.carried
        have := hinv.counter
        show 0 ≤ gc.autoLowerCount
        omega
      · exact le_refl _
    · intro _ hpos
      rw [restsSince, if_pos hactive] at hpos
      exact absurd hpos (by decide)
  · rw [if_neg hactive] at hcounter
    have hcarried : carriedRests (⟨gc, op, ret⟩ :: past) = carriedRests past := by
      rw [carriedRests, if_neg hactive]
    have hrests : restsSince (⟨gc, op, ret⟩ :: past) =
        restsSince past + if findsResting ⟨gc, op, ret⟩ then 1 else 0 := by
      rw [restsSince, if_neg hactive]
    refine ⟨?_, hcarried ▸ hinv.carried, ?_⟩
    · rw [hcounter, hinv.counter, hcarried, hrests]
      push_cast
      ring
    · rw [hcarried, hrests]
      intro hpos hsome
      split_ifs at hsome ⊢ with hrest
      · -- the piece rests once more, and it is not placed with the counter used up
        have hwait : gc.autoLowerCount < maxAutoLower := by
          by_contra hspent
          rw [not_lt] at hspent
          have := (spent_iff hinv hspent).mp (hkept (hcounted.placement.mpr ⟨hrest, hspent⟩))
          omega
        rw [hinv.counter] at hwait
        push_cast
        omega
      · exact hinv.bounded hpos hsome

variable (randR)

/-- In every run of a new game the delay belongs to the piece, that is every forced
lower_block that places a piece was preceded by MAX_AUTO_LOWER forced ones that
found this piece resting, exactly when no forced lower_block that finds the counter
used up meets a resting piece that a swap brought into play with a counter other
than 0. -/
theorem lock_delay_iff (seed : BitVec 32) (ops : List Op) (gc : GameContents)
    (hrun : run (engineStep randR) (newSeededGame randR seed) ops = .ok gc) :
    ∃ record, run (recordStep (fun gc op => Op.call randR op gc)) (newSeededGame randR seed, []) ops =
        .ok (gc, record) ∧
      (Throughout DelayKept record ↔ Throughout CounterFresh record) := by
  obtain ⟨record, hrecord⟩ := exists_record (fun gc op => Op.call randR op gc) hrun []
  refine ⟨record, hrecord, ?_⟩
  apply throughout_iff (fun gc op => Op.call randR op gc) _ _ (newSeededGame_delayInv randR seed)
    hrecord
  · intro gc past op r hr hinv hkept
    exact delayInv_step hr (hinv hkept.2) hkept.1
  · intro gc past op r hr _ hinv
    exact delayKept_iff hr hinv

end Randomness

/-- A game of heroes. -/
def heroGame : GameContents := newSeededGame (fun seed => (5, seed)) 0

/-- The first piece falls to the floor, rests three times and is placed. -/
theorem lock_delay_first_piece : ∃ gc record,
    run (recordStep fun gc op => Op.call (fun seed => (5, seed)) op gc) (heroGame, [])
      (List.replicate 25 (.lower 1)) = .ok (gc, record) ∧ Throughout DelayKept record := by
  obtain ⟨gc, hrun, -⟩ : ∃ gc, run (engineStep fun seed => (5, seed)) heroGame
      (List.replicate 25 (.lower 1)) = .ok gc ∧ gc.autoLowerCount = 0 := by
    apply exists_ok_of_map GameContents.autoLowerCount
    decide +kernel
  obtain ⟨record, hrecord, hiff⟩ := lock_delay_iff (fun seed => (5, seed)) 0 _ gc hrun
  refine ⟨gc, record, hrecord, hiff.mpr ?_⟩
  obtain ⟨t, ht, hfresh⟩ : ∃ t, run (recordStep fun gc op => Op.call (fun seed => (5, seed)) op gc)
      (heroGame, []) (List.replicate 25 (.lower 1)) = .ok t ∧
        decide (Throughout CounterFresh t.2) = true := by
    apply exists_ok_of_map fun t : GameContents × List EngineCall =>
      decide (Throughout CounterFresh t.2)
    decide +kernel
  have hsame : t = (gc, record) := Except.ok.inj (ht.symm.trans hrecord)
  rw [hsame] at hfresh
  exact of_decide_eq_true hfresh

/-- The first piece rests three times and is swapped for a second one, which the
first forced lower_block that finds it resting places. -/
theorem lock_delay_carried_over : ∃ gc record,
    run (recordStep fun gc op => Op.call (fun seed => (5, seed)) op gc) (heroGame, [])
      (List.replicate 24 (.lower 1) ++ .swapHold :: List.replicate 22 (.lower 1)) =
        .ok (gc, record) ∧ ¬Throughout DelayKept record := by
  obtain ⟨t, ht, hkept⟩ : ∃ t, run (recordStep fun gc op => Op.call (fun seed => (5, seed)) op gc)
      (heroGame, []) (List.replicate 24 (.lower 1) ++ .swapHold :: List.replicate 22 (.lower 1)) =
        .ok t ∧ decide (Throughout DelayKept t.2) = false := by
    apply exists_ok_of_map fun t : GameContents × List EngineCall =>
      decide (Throughout DelayKept t.2)
    decide +kernel
  exact ⟨t.1, t.2, ht, of_decide_eq_false hkept⟩

end TetrisMint
