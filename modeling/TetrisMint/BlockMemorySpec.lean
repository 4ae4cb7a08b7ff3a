import TetrisMint.BlockMemory
import TetrisMint.CullTermination

/-! What the functions of the engine do to its memory: every block that is read or freed is
live, and the calls do to the blocks what the engine does to their values. -/
namespace TetrisMint

open FallibleRun FueledLoop ObjectHeap

section Units

/-- The loop replaces the units from `i` on. -/
theorem storeUnits_eq {i : ℕ} {ps : List Position} (units : Vector Position maxBlockUnits)
    (h : i + ps.length ≤ maxBlockUnits) : ∃ units', storeUnits i ps units = .ok units' ∧
      units'.toList = units.toList.take i ++ ps ++ units.toList.drop (i + ps.length) := by
  induction ps generalizing i units with
  | nil =>
    refine ⟨units, rfl, ?_⟩
    rw [List.append_nil, List.length_nil, Nat.add_zero, List.take_append_drop]
  | cons p ps ih =>
    rw [List.length_cons] at h
    have hi : i < maxBlockUnits := by omega
    obtain ⟨units', hstore, hlist⟩ := @ih (i + 1) (units.set i p) (by omega)
    refine ⟨units', by rw [storeUnits, dif_pos hi, hstore], ?_⟩
    have hlen : i < units.toList.length := by rwa [Vector.length_toList]
    have hfront : (units.toList.set i p).take (i + 1) = units.toList.take i ++ [p] := by
      rw [List.take_add_one, List.take_set_of_le le_rfl, List.getElem?_set_self hlen]
      rfl
    have hback : (units.toList.set i p).drop (i + 1 + ps.length) =
        units.toList.drop (i + 1 + ps.length) := List.drop_set_of_lt (by omega)
    rw [hlist, Vector.toList_set, hfront, hback, List.length_cons, List.append_assoc _ [p],
      List.singleton_append, Nat.add_right_comm i 1, Nat.add_assoc i]

theorem testUnits_eq (board : Board) {n : ℕ} {ps : List Position} (h : n ≤ ps.length) :
    testUnits board n ps = .ok (if (ps.take n).all board.unitFree then 0 else -2) := by
  induction n generalizing ps with
  | zero => simp [testUnits]
  | succ n ih =>
    cases ps with
    | nil => exact absurd h (by simp)
    | cons p ps =>
      rw [testUnits, List.take_succ_cons, List.all_cons]
      cases board.unitFree p with
      | true =>
        rw [if_pos rfl, Bool.true_and]
        exact ih (Nat.le_of_succ_le_succ h)
      | false => rw [if_neg Bool.false_ne_true, Bool.false_and, if_neg Bool.false_ne_true]

end Units

section Blocks

variable {blocks : Heap BlockRecord} {p : ℕ} {r : BlockRecord}

theorem load_of_lookup (hnull : p ≠ 0) (h : blocks.lookup p = some r) : load blocks p = .ok r :=
  load_eq_ok.mpr ⟨hnull, h⟩

theorem update_eq (f : BlockRecord → BlockRecord) (hnull : p ≠ 0) (h : blocks.lookup p = some r) :
    update blocks p f = .ok (blocks.insert p (f r)) := by
  rw [update, load_of_lookup hnull h, ok_bind]

theorem release_eq (hnull : p ≠ 0) (h : blocks.lookup p = some r) :
    release blocks p = .ok (blocks.erase p) := by
  rw [release, if_neg hnull, load_of_lookup hnull h, ok_bind]

theorem cloneBlock_eq (malloc : ℕ → Allocator) {gm : GameMemory} (hnull : p ≠ 0)
    (h : gm.blocks.lookup p = some r) :
    let q := (malloc gm.allocated).address gm.blocks.keys
    cloneBlock malloc gm p = .ok ({ gm with
      blocks := gm.blocks.insert q r
      allocated := gm.allocated + 1 }, q) := by
  intro q
  rw [cloneBlock, if_neg hnull, load_of_lookup hnull h, ok_bind]

/-- A block of four cells has all its units stored. -/
theorem storeBlockPositions_eq (hnull : p ≠ 0) (h : blocks.lookup p = some r)
    (hfour : r.block.tetrisBlock.cellCount = 4) :
    ∃ units, units.toList = getBlockPositions r.block ∧
      storeBlockPositions blocks p = .ok (blocks.insert p ⟨r.block, units⟩) := by
  have hlen : (getBlockPositions r.block).length = 4 := by rw [length_getBlockPositions, hfour]
  obtain ⟨units, hstore, hlist⟩ := @storeUnits_eq 0 (getBlockPositions r.block) r.boardUnits
    (by rw [hlen]; decide)
  refine ⟨units, ?_, ?_⟩
  · have hrest : r.boardUnits.toList.drop (0 + 4) = [] := by
      apply List.drop_eq_nil_of_le
      rw [Vector.length_toList]
      decide
    rw [hlist, List.take_zero, List.nil_append, hlen, hrest, List.append_nil]
  · rw [storeBlockPositions, load_of_lookup hnull h, ok_bind, hstore, ok_bind]

end Blocks

section Probes

variable {gm : GameMemory} {active r : BlockRecord} {p : ℕ}

/-- Testing a block stores its units and finds out whether it fits. -/
theorem testBlockAt_eq (hnull : p ≠ 0) (hp : gm.blocks.lookup p = some r)
    (hactiveNull : gm.activeBlock ≠ 0) (hactive : gm.blocks.lookup gm.activeBlock = some active)
    (hpiece : active.block.tetrisBlock = r.block.tetrisBlock)
    (hfour : r.block.tetrisBlock.cellCount = 4) :
    ∃ units, testBlockAt gm p = .ok ({ gm with blocks := gm.blocks.insert p ⟨r.block, units⟩ },
      if Fits gm.board r.block then 0 else -2) := by
  obtain ⟨units, hlist, hstore⟩ := storeBlockPositions_eq hnull hp hfour
  -- the active block may be the tested one, whose piece stays what it is
  have hload : ∃ a, load (gm.blocks.insert p ⟨r.block, units⟩) gm.activeBlock = .ok a ∧
      a.block.tetrisBlock = r.block.tetrisBlock := by
    by_cases hsame : gm.activeBlock = p
    · refine ⟨⟨r.block, units⟩, ?_, rfl⟩
      rw [hsame]
      exact load_of_lookup hnull (Finmap.lookup_insert _)
    · refine ⟨active, load_of_lookup hactiveNull ?_, hpiece⟩
      rw [Finmap.lookup_insert_of_ne _ hsame, hactive]
  obtain ⟨a, hload, hapiece⟩ := hload
  have hlen : (getBlockPositions r.block).length = 4 := by rw [length_getBlockPositions, hfour]
  have hall : (getBlockPositions r.block).all gm.board.unitFree = true ↔ Fits gm.board r.block :=
    List.all_eq_true
  refine ⟨units, ?_⟩
  rw [testBlockAt, if_neg hnull, hstore, ok_bind, hload, ok_bind,
    load_of_lookup hnull (Finmap.lookup_insert _), ok_bind, hapiece, hfour, hlist,
    testUnits_eq gm.board hlen.ge, ok_bind, List.take_of_length_le hlen.le]
  by_cases hfit : Fits gm.board r.block
  · rw [if_pos hfit, if_pos (hall.mpr hfit)]
  · rw [if_neg hfit, if_neg fun h => hfit (hall.mp h)]

variable (malloc : ℕ → Allocator)

/-- The clone leaves nothing behind, and the block is moved where it fits. -/
theorem shiftBlockAt_eq (f : Position → Position) (moved kept : ℤ) (hnull : p ≠ 0)
    (hp : gm.blocks.lookup p = some r) (hactiveNull : gm.activeBlock ≠ 0)
    (hactive : gm.blocks.lookup gm.activeBlock = some active)
    (hpiece : active.block.tetrisBlock = r.block.tetrisBlock)
    (hfour : r.block.tetrisBlock.cellCount = 4) :
    let block := { r.block with position := f r.block.position }
    shiftBlockAt malloc gm p f moved kept =
      .ok (if Fits gm.board block then ({ gm with
          blocks := gm.blocks.insert p ⟨block, r.boardUnits⟩
          allocated := gm.allocated + 1 }, moved)
      else ({ gm with allocated := gm.allocated + 1 }, kept)) := by
  have hfresh : (malloc gm.allocated).address gm.blocks.keys ∉ gm.blocks :=
    (malloc gm.allocated).not_mem _
  have hfreshNull : (malloc gm.allocated).address gm.blocks.keys ≠ 0 := (malloc gm.allocated).ne_null _
  intro block
  unfold shiftBlockAt
  rw [cloneBlock_eq malloc hnull hp, ok_bind]
  -- all that counts of the address of the clone is that it is new
  generalize (malloc gm.allocated).address gm.blocks.keys = q at *
  have hne {a : ℕ} {b : BlockRecord} (ha : gm.blocks.lookup a = some b) : a ≠ q := by
    rintro rfl
    exact hfresh (Finmap.mem_of_lookup_eq_some ha)
  have hmove : moveBlock (gm.blocks.insert q r) q f =
      .ok (gm.blocks.insert q ⟨block, r.boardUnits⟩) := by
    rw [moveBlock, update_eq _ hfreshNull (Finmap.lookup_insert _), Finmap.insert_insert]
  obtain ⟨units, htest⟩ := @testBlockAt_eq { gm with
      blocks := gm.blocks.insert q ⟨block, r.boardUnits⟩
      allocated := gm.allocated + 1 }
    active ⟨block, r.boardUnits⟩ q hfreshNull (Finmap.lookup_insert _) hactiveNull
    ((Finmap.lookup_insert_of_ne _ (hne hactive)).trans hactive) hpiece hfour
  dsimp only at htest ⊢
  rw [hmove, ok_bind, htest, ok_bind, Finmap.insert_insert]
  dsimp only
  by_cases hfit : Fits gm.board block
  · have hclone : (gm.blocks.insert q ⟨block, units⟩).lookup p = some r :=
      (Finmap.lookup_insert_of_ne _ (hne hp)).trans hp
    have hkept : ((gm.blocks.insert q ⟨block, units⟩).insert p ⟨block, r.boardUnits⟩).lookup q =
        some ⟨block, units⟩ :=
      (Finmap.lookup_insert_of_ne _ (hne hp).symm).trans (Finmap.lookup_insert _)
    rw [if_pos hfit, if_pos rfl, if_pos hfit, load_of_lookup hfreshNull (Finmap.lookup_insert _),
      ok_bind, moveBlock, update_eq _ hnull hclone, ok_bind, release_eq hfreshNull hkept, ok_bind,
      erase_insert_insert _ _ hfresh (hne hp)]
  · rw [if_neg hfit, if_neg (by decide), if_neg hfit,
      release_eq hfreshNull (Finmap.lookup_insert _), ok_bind, erase_insert _ hfresh]

theorem lowerBlockHelperAt_eq (hnull : p ≠ 0) (hp : gm.blocks.lookup p = some r)
    (hactiveNull : gm.activeBlock ≠ 0) (hactive : gm.blocks.lookup gm.activeBlock = some active)
    (hpiece : active.block.tetrisBlock = r.block.tetrisBlock)
    (hfour : r.block.tetrisBlock.cellCount = 4) :
    lowerBlockHelperAt malloc gm p =
      .ok (if Fits gm.board (loweredBlock r.block) then ({ gm with
          blocks := gm.blocks.insert p ⟨loweredBlock r.block, r.boardUnits⟩
          allocated := gm.allocated + 1 }, -1)
      else ({ gm with allocated := gm.allocated + 1 }, 0)) :=
  shiftBlockAt_eq malloc (fun p => ⟨p.x, p.y - 1⟩) (-1) 0 hnull hp hactiveNull hactive hpiece hfour

/-- The loop moves the block as the engine's loop moves its value. -/
theorem dropBlockAt_eq {gc : GameContents} (hboard : gm.board = gc.board) (n : ℕ) (hnull : p ≠ 0)
    (hp : gm.blocks.lookup p = some r) (hactiveNull : gm.activeBlock ≠ 0)
    (hactive : gm.blocks.lookup gm.activeBlock = some active)
    (hpiece : active.block.tetrisBlock = r.block.tetrisBlock)
    (hgc : r.block.tetrisBlock = gc.activeBlock.tetrisBlock)
    (hfour : r.block.tetrisBlock.cellCount = 4) :
    ∃ allocated, dropBlockAt malloc p n gm =
      match iterate (fun b => (lowerBlockHelper gc b).2 ≠ 0) (fun b => (lowerBlockHelper gc b).1)
        n r.block with
      | some b => .ok { gm with
          blocks := gm.blocks.insert p ⟨b, r.boardUnits⟩
          allocated := allocated }
      | none => .error .nonterminating := by
  induction n generalizing gm r active with
  | zero =>
    rw [dropBlockAt, lowerBlockHelperAt_eq malloc hnull hp hactiveNull hactive hpiece hfour, ok_bind,
      iterate, lowerBlockHelper_eq gc r.block hgc, ← hboard]
    refine ⟨gm.allocated + 1, ?_⟩
    by_cases hfit : Fits gm.board (loweredBlock r.block)
    · simp [hfit]
    · simp [hfit, insert_of_lookup hp]
  | succ n ih =>
    rw [dropBlockAt, lowerBlockHelperAt_eq malloc hnull hp hactiveNull hactive hpiece hfour, ok_bind,
      iterate, lowerBlockHelper_eq gc r.block hgc, ← hboard]
    by_cases hfit : Fits gm.board (loweredBlock r.block)
    · -- the block is one row lower; when it is the active one, that one is too
      let lowered : BlockRecord := ⟨loweredBlock r.block, r.boardUnits⟩
      have hactive' : ∃ active', (gm.blocks.insert p lowered).lookup gm.activeBlock = some active' ∧
          active'.block.tetrisBlock = lowered.block.tetrisBlock := by
        by_cases hsame : gm.activeBlock = p
        · exact ⟨lowered, by rw [hsame, Finmap.lookup_insert], rfl⟩
        · exact ⟨active, by rw [Finmap.lookup_insert_of_ne _ hsame, hactive], hpiece⟩
      obtain ⟨active', hactive', hpiece'⟩ := hactive'
      obtain ⟨allocated, hrest⟩ := @ih { gm with
          blocks := gm.blocks.insert p lowered
          allocated := gm.allocated + 1 } active' lowered hboard
        (Finmap.lookup_insert _) hactiveNull hactive' hpiece' hgc hfour
      simp only [Finmap.insert_insert] at hrest
      simp only [hfit, ↓reduceIte]
      exact ⟨allocated, hrest⟩
    · refine ⟨gm.allocated + 1, ?_⟩
      simp [hfit, insert_of_lookup hp]

/-- Where the engine drops a block to, the block in memory goes. -/
theorem dropBlockAt_ok {gc : GameContents} {block : ActiveBlock} (hboard : gm.board = gc.board)
    (hnull : p ≠ 0) (hp : gm.blocks.lookup p = some r) (hactiveNull : gm.activeBlock ≠ 0)
    (hactive : gm.blocks.lookup gm.activeBlock = some active)
    (hpiece : active.block.tetrisBlock = r.block.tetrisBlock)
    (hgc : r.block.tetrisBlock = gc.activeBlock.tetrisBlock)
    (hfour : r.block.tetrisBlock.cellCount = 4) (hd : dropBlock gc r.block = .ok block) :
    ∃ allocated, dropBlockAt malloc p dropBound gm = .ok { gm with
      blocks := gm.blocks.insert p ⟨block, r.boardUnits⟩
      allocated := allocated } := by
  obtain ⟨allocated, hdrop⟩ :=
    dropBlockAt_eq malloc hboard dropBound hnull hp hactiveNull hactive hpiece hgc hfour
  refine ⟨allocated, hdrop.trans ?_⟩
  rw [dropBlock] at hd
  cases hrun : iterate (fun b => (lowerBlockHelper gc b).2 ≠ 0) (fun b => (lowerBlockHelper gc b).1) dropBound
    r.block with
  | none =>
    rw [hrun] at hd
    exact absurd hd (by simp)
  | some b =>
    rw [hrun] at hd
    obtain rfl : b = block := Except.ok.inj hd
    rfl

end Probes

/-- The memory of a game: its pointers lead to the two blocks that the game has, each to
its own. -/
structure Stores (gm : GameMemory) (gc : GameContents) : Prop where
  points : gm.points = gc.points
  linesCleared : gm.linesCleared = gc.linesCleared
  autoLowerCount : gm.autoLowerCount = gc.autoLowerCount
  swapHBlockCount : gm.swapHBlockCount = gc.swapHBlockCount
  board : gm.board = gc.board
  seed : gm.seed = gc.seed
  nextBlock : gm.nextBlock = gc.nextBlock
  holdBlock : gm.holdBlock = gc.holdBlock
  active : ∃ units, gm.blocks.lookup gm.activeBlock = some ⟨gc.activeBlock, units⟩
  shadow : ∃ units, gm.blocks.lookup gm.shadowBlock = some ⟨gc.shadowBlock, units⟩
  activeNull : gm.activeBlock ≠ 0
  shadowNull : gm.shadowBlock ≠ 0
  apart : gm.activeBlock ≠ gm.shadowBlock

/-- A call on the memory did what the call on the game did, and `n` blocks are live then. -/
structure SameCall (n : ℕ) (r : GameMemory × ℤ) (s : GameContents × ℤ) : Prop where
  stores : Stores r.1 s.1
  ret : r.2 = s.2
  live : r.1.blocks.keys.card = n

/-- The calls of a record that turned nothing because every kick failed. -/
def refusedRotations (record : List (Op × ℤ)) : ℕ :=
  record.countP fun c =>
    match c.1 with
    | .rotate _ => c.2 = -1
    | _ => false

section Calls

variable {gm : GameMemory} {gc : GameContents}

theorem Stores.withActive (h : Stores gm gc) (block : ActiveBlock)
    (units : Vector Position maxBlockUnits) :
    Stores { gm with blocks := gm.blocks.insert gm.activeBlock ⟨block, units⟩ }
      { gc with activeBlock := block } := by
  obtain ⟨shadowUnits, hshadow⟩ := h.shadow
  exact { h with
    active := ⟨units, Finmap.lookup_insert _⟩
    shadow := ⟨shadowUnits, (Finmap.lookup_insert_of_ne _ h.apart.symm).trans hshadow⟩ }

theorem Stores.withShadow (h : Stores gm gc) (block : ActiveBlock)
    (units : Vector Position maxBlockUnits) :
    Stores { gm with blocks := gm.blocks.insert gm.shadowBlock ⟨block, units⟩ }
      { gc with shadowBlock := block } := by
  obtain ⟨activeUnits, hactive⟩ := h.active
  exact { h with
    active := ⟨activeUnits, (Finmap.lookup_insert_of_ne _ h.apart).trans hactive⟩
    shadow := ⟨units, Finmap.lookup_insert _⟩ }

/-- How much has been allocated is no matter of the game. -/
theorem Stores.counted (h : Stores gm gc) (allocated : ℕ) :
    Stores { gm with allocated := allocated } gc := { h with }

theorem Stores.active_mem (h : Stores gm gc) : gm.activeBlock ∈ gm.blocks := by
  obtain ⟨units, hactive⟩ := h.active
  exact Finmap.mem_of_lookup_eq_some hactive

theorem Stores.shadow_mem (h : Stores gm gc) : gm.shadowBlock ∈ gm.blocks := by
  obtain ⟨units, hshadow⟩ := h.shadow
  exact Finmap.mem_of_lookup_eq_some hshadow

/-- Moving a block that is live allocates nothing. -/
theorem card_insert_active (h : Stores gm gc) (r : BlockRecord) :
    (gm.blocks.insert gm.activeBlock r).keys.card = gm.blocks.keys.card := by
  rw [keys_insert_of_mem _ h.active_mem]

variable (malloc : ℕ → Allocator)

theorem translateBlockHelperAt_refines (h : Stores gm gc) (hi : EngineInv gc) (distance : ℤ) :
    ∃ r, translateBlockHelperAt malloc gm distance = .ok r ∧
      SameCall gm.blocks.keys.card r (translateBlockHelper gc distance) := by
  obtain ⟨units, hactive⟩ := h.active
  have hshift := shiftBlockAt_eq malloc (fun p => ⟨p.x + distance, p.y⟩) 0 (-1) h.activeNull hactive
    h.activeNull hactive rfl (cellCount_eq_four hi.activePiece)
  refine ⟨_, hshift, ?_⟩
  have hiff := testBlock_eq_zero_iff gc { gc.activeBlock with
    position := ⟨gc.activeBlock.position.x + distance, gc.activeBlock.position.y⟩ } rfl
  by_cases hfit : testBlock gc { gc.activeBlock with
      position := ⟨gc.activeBlock.position.x + distance, gc.activeBlock.position.y⟩ } = 0
  · rw [if_pos (h.board ▸ hiff.mp hfit), translateBlockHelper, if_pos hfit]
    exact ⟨(h.withActive _ _).counted _, rfl, card_insert_active h _⟩
  · rw [if_neg (h.board ▸ fun hf => hfit (hiff.mpr hf)), translateBlockHelper, if_neg hfit]
    exact ⟨h.counted _, rfl, rfl⟩

/-- The new block follows the kick list: it takes the first place that fits and becomes the
active one, and otherwise it is left where it was tried last. -/
theorem tryKicks_eq (h : Stores gm gc) (hi : EngineInv gc) {p : ℕ} (hnull : p ≠ 0)
    (hfresh : p ∉ gm.blocks) (endRot : Rotation) (tests : List Position) {r : BlockRecord}
    (hpiece : r.block.tetrisBlock = gc.activeBlock.tetrisBlock) (hrot : r.block.rotation = endRot) :
    ∃ r', tryKicks p tests { gm with blocks := gm.blocks.insert p r } =
        (match tests.find? fun t => testBlock gc (kickedBlock gc endRot t) = 0 with
        | some _ => .ok ({ gm with
            activeBlock := p
            blocks := (gm.blocks.insert p r').erase gm.activeBlock }, 0)
        | none => .ok ({ gm with blocks := gm.blocks.insert p r' }, -1)) ∧
      ∀ t, (tests.find? fun t => testBlock gc (kickedBlock gc endRot t) = 0) = some t →
        r'.block = kickedBlock gc endRot t := by
  obtain ⟨units, hactive⟩ := h.active
  have hne : gm.activeBlock ≠ p := by
    intro hp
    exact hfresh (hp ▸ h.active_mem)
  induction tests generalizing r with
  | nil => exact ⟨r, rfl, fun t ht => absurd ht (by simp)⟩
  | cons t tests ih =>
    -- the kicks are added to the place of the active block, which stays where it is meanwhile
    have hload : load (gm.blocks.insert p r) gm.activeBlock = .ok ⟨gc.activeBlock, units⟩ :=
      load_of_lookup h.activeNull ((Finmap.lookup_insert_of_ne _ hne).trans hactive)
    have hkicked : (⟨r.block.tetrisBlock, r.block.rotation,
        ⟨gc.activeBlock.position.x + t.x, gc.activeBlock.position.y + t.y⟩⟩ : ActiveBlock) =
        kickedBlock gc endRot t := by
      rw [hpiece, hrot]
      rfl
    have hmove : moveBlock (gm.blocks.insert p r) p (fun _ =>
        ⟨gc.activeBlock.position.x + t.x, gc.activeBlock.position.y + t.y⟩) =
        .ok (gm.blocks.insert p ⟨kickedBlock gc endRot t, r.boardUnits⟩) := by
      rw [moveBlock, update_eq _ hnull (Finmap.lookup_insert _), Finmap.insert_insert, ← hkicked]
    obtain ⟨units', htest⟩ := @testBlockAt_eq { gm with
        blocks := gm.blocks.insert p ⟨kickedBlock gc endRot t, r.boardUnits⟩ }
      ⟨gc.activeBlock, units⟩ ⟨kickedBlock gc endRot t, r.boardUnits⟩ p hnull
      (Finmap.lookup_insert _) h.activeNull ((Finmap.lookup_insert_of_ne _ hne).trans hactive) rfl
      (cellCount_eq_four hi.activePiece)
    have hiff := testBlock_eq_zero_iff gc (kickedBlock gc endRot t) rfl
    dsimp only at htest
    rw [tryKicks, hload, ok_bind, hmove, ok_bind, htest, ok_bind, Finmap.insert_insert]
    dsimp only
    by_cases hfit : testBlock gc (kickedBlock gc endRot t) = 0
    · have hfind : (t :: tests).find? (fun t => testBlock gc (kickedBlock gc endRot t) = 0) = some t :=
        List.find?_cons_of_pos (by simpa using hfit)
      have hold : (gm.blocks.insert p ⟨kickedBlock gc endRot t, units'⟩).lookup gm.activeBlock =
          some ⟨gc.activeBlock, units⟩ := (Finmap.lookup_insert_of_ne _ hne).trans hactive
      have hfits : Fits gm.board (kickedBlock gc endRot t) := h.board ▸ hiff.mp hfit
      refine ⟨⟨kickedBlock gc endRot t, units'⟩, ?_, ?_⟩
      · rw [hfind, if_pos hfits, if_pos rfl, release_eq h.activeNull hold, ok_bind]
      · intro t' ht'
        rw [hfind, Option.some.injEq] at ht'
        rw [ht']
    · -- the new block is left where it was tried, and the next test starts from there
      have hfind : (t :: tests).find? (fun t => testBlock gc (kickedBlock gc endRot t) = 0) =
          tests.find? fun t => testBlock gc (kickedBlock gc endRot t) = 0 :=
        List.find?_cons_of_neg (by simpa using hfit)
      have hfits : ¬Fits gm.board (kickedBlock gc endRot t) := by
        rw [h.board, ← hiff]
        exact hfit
      rw [hfind, if_neg hfits, if_neg (by decide)]
      exact ih rfl rfl

/-- A rotation whose kicks all fail leaves the clone behind; every other one leaves as many
blocks as there were. -/
theorem rotateBlockAt_refines (h : Stores gm gc) (hi : EngineInv gc) (clockwise : ℤ) :
    ∃ r, rotateBlockAt malloc gm clockwise = .ok r ∧
      SameCall (gm.blocks.keys.card + if (rotateBlock gc clockwise).2 = -1 then 1 else 0) r
        (rotateBlock gc clockwise) := by
  obtain ⟨units, hactive⟩ := h.active
  obtain ⟨shadowUnits, hshadow⟩ := h.shadow
  rw [rotateBlockAt, load_of_lookup h.activeNull hactive, ok_bind, rotateBlock]
  dsimp only
  rcases Option.eq_none_or_eq_some gc.activeBlock.tetrisBlock.srsMode with hmode | ⟨srsMode, hmode⟩
  · simp only [hmode]
    exact ⟨_, rfl, h, rfl, rfl⟩
  simp only [hmode]
  rcases Option.eq_none_or_eq_some (srsMode.descriptorArr.find? fun d =>
    d.startRot = gc.activeBlock.rotation && d.endRot = turnedRotation gc.activeBlock.rotation clockwise) with
    hdesc | ⟨srsDesc, hdesc⟩
  · simp only [hdesc]
    exact ⟨_, rfl, h, rfl, rfl⟩
  simp only [hdesc]
  have hfresh : (malloc gm.allocated).address gm.blocks.keys ∉ gm.blocks :=
    (malloc gm.allocated).not_mem _
  have hnull : (malloc gm.allocated).address gm.blocks.keys ≠ 0 := (malloc gm.allocated).ne_null _
  rw [cloneBlock_eq malloc h.activeNull hactive, ok_bind]
  dsimp only
  generalize (malloc gm.allocated).address gm.blocks.keys = p at *
  rw [update_eq _ hnull (Finmap.lookup_insert _), ok_bind, Finmap.insert_insert]
  obtain ⟨r', hkicks, hplace⟩ := tryKicks_eq (h.counted (gm.allocated + 1)) hi hnull hfresh
    (turnedRotation gc.activeBlock.rotation clockwise) srsDesc.testArr
    (r := ⟨{ gc.activeBlock with
      rotation := turnedRotation gc.activeBlock.rotation clockwise }, units⟩) rfl rfl
  -- whatever the kicks do, they only write to the new block
  have hkept {a : ℕ} (ha : a ∈ gm.blocks) : a ≠ p ∧
      (gm.blocks.insert p r').lookup a = gm.blocks.lookup a := by
    have hne : a ≠ p := by
      intro hp
      exact hfresh (hp ▸ ha)
    exact ⟨hne, Finmap.lookup_insert_of_ne _ hne⟩
  obtain ⟨hpActive, hactiveKept⟩ := hkept h.active_mem
  obtain ⟨hpShadow, hshadowKept⟩ := hkept h.shadow_mem
  rcases Option.eq_none_or_eq_some (srsDesc.testArr.find? fun t =>
    testBlock gc (kickedBlock gc (turnedRotation gc.activeBlock.rotation clockwise) t) = 0) with
    hfind | ⟨srsTest, hfind⟩
  · rw [hfind] at hkicks
    simp only [hfind, ↓reduceIte]
    refine ⟨_, hkicks, ?_, rfl, card_insert _ hfresh⟩
    exact { h with
      active := ⟨units, hactiveKept.trans hactive⟩
      shadow := ⟨shadowUnits, hshadowKept.trans hshadow⟩ }
  · -- the clone is the new active block, and the old one is freed
    rw [hfind] at hkicks
    simp only [hfind]
    refine ⟨_, hkicks, ?_, rfl, ?_⟩
    · exact { h with
        active := ⟨r'.boardUnits, by
          rw [Finmap.lookup_erase_ne hpActive.symm, Finmap.lookup_insert, ← hplace _ hfind]⟩
        shadow := ⟨shadowUnits, by
          rw [Finmap.lookup_erase_ne h.apart.symm, hshadowKept, hshadow]⟩
        activeNull := hnull
        apart := hpShadow.symm }
    · have herase := @card_erase _ (gm.blocks.insert p r') gm.activeBlock
        (Finmap.mem_insert.mpr (Or.inr h.active_mem))
      rw [card_insert _ hfresh] at herase
      exact Nat.succ.inj herase

/-- Four units are all that the block has stored. -/
theorem readUnits_four (r : BlockRecord) : readUnits r 4 = .ok r.boardUnits.toList := by
  rw [readUnits, if_pos (by decide), List.take_of_length_le (by rw [Vector.length_toList]; decide)]

theorem storeBlockPositions_active (h : Stores gm gc) (ha : gc.activeBlock.tetrisBlock ∈ availableBlocks) :
    ∃ units, units.toList = getBlockPositions gc.activeBlock ∧
      storeBlockPositions gm.blocks gm.activeBlock =
        .ok (gm.blocks.insert gm.activeBlock ⟨gc.activeBlock, units⟩) := by
  obtain ⟨units, hactive⟩ := h.active
  exact storeBlockPositions_eq h.activeNull hactive (cellCount_eq_four ha)

section Randomness

variable (randR : RandR)

theorem generateNewBlockAt_refines (h : Stores gm gc) :
    ∃ gm', generateNewBlockAt randR gm = .ok gm' ∧ Stores gm' (generateNewBlock randR gc) ∧
      gm'.blocks.keys.card = gm.blocks.keys.card := by
  obtain ⟨units, hactive⟩ := h.active
  rw [generateNewBlockAt, spawnActiveBlockAt, update_eq _ h.activeNull hactive, ok_bind]
  refine ⟨_, rfl, ?_, card_insert_active h _⟩
  have hstores := h.withActive (spawnActiveBlock gm.nextBlock) units
  rw [generateNewBlock, ← h.nextBlock, ← h.seed]
  exact { hstores with seed := rfl, nextBlock := rfl }

theorem cullLinesAt_refines (h : Stores gm gc) :
    Agree (fun gm' gc' => Stores gm' gc' ∧ gm'.blocks = gm.blocks) (cullLinesAt gm) (cullLines gc) := by
  rw [cullLinesAt, cullLines, h.board]
  cases cullLoop gc.board with
  | none => exact .error _
  | some s =>
    refine .ok ⟨?_, rfl⟩
    exact { h with
      board := rfl
      linesCleared := by rw [h.linesCleared]
      points := by rw [h.points] }

theorem placeBlockAt_refines (h : Stores gm gc) (ha : gc.activeBlock.tetrisBlock ∈ availableBlocks) :
    Agree (SameCall gm.blocks.keys.card) (placeBlockAt randR gm) (placeBlock randR gc) := by
  obtain ⟨units, hlist, hstore⟩ := storeBlockPositions_active h ha
  have hload := load_of_lookup h.activeNull
    (@Finmap.lookup_insert _ _ _ gm.activeBlock (⟨gc.activeBlock, units⟩ : BlockRecord) gm.blocks)
  rw [placeBlockAt, hstore, ok_bind, hload, ok_bind, cellCount_eq_four ha, readUnits_four, ok_bind,
    placeBlock, hlist, h.board]
  cases hmerge : gc.board.mergeUnits gc.activeBlock.tetrisBlock.type.toInt
      (getBlockPositions gc.activeBlock) with
  | error e => exact .error e
  | ok board =>
    -- the lines are culled, and the game ends or gets a new block
    rw [ok_bind]
    have hstores : Stores { gm with
          board := board, blocks := gm.blocks.insert gm.activeBlock ⟨gc.activeBlock, units⟩ }
        { gc with board := board } := { h.withActive gc.activeBlock units with board := rfl }
    have hcull := cullLinesAt_refines hstores
    dsimp only
    rcases hcull.error_or_ok with ⟨e, hx, hy⟩ | ⟨gm', gc', hx, hy, hstores', hblocks⟩
    · rw [hx, hy]
      exact .error e
    · have hcard : gm'.blocks.keys.card = gm.blocks.keys.card := by
        rw [hblocks]
        exact card_insert_active h _
      rw [hx, hy, ok_bind]
      dsimp only
      rw [hstores'.board]
      split_ifs with hover
      · exact .ok ⟨hstores', rfl, hcard⟩
      · obtain ⟨gm'', hnew, hspawned, hcard'⟩ := generateNewBlockAt_refines randR hstores'
        rw [hnew, ok_bind]
        refine .ok ⟨?_, rfl, hcard'.trans hcard⟩
        exact { hspawned with swapHBlockCount := rfl, autoLowerCount := rfl }

/-- Lowering the active block, with its return value. -/
theorem lowerActiveAt_refines (h : Stores gm gc) (ha : gc.activeBlock.tetrisBlock ∈ availableBlocks) :
    ∃ r, lowerBlockHelperAt malloc gm gm.activeBlock = .ok r ∧
      SameCall gm.blocks.keys.card r ({ gc with activeBlock := (lowerBlockHelper gc gc.activeBlock).1 },
        (lowerBlockHelper gc gc.activeBlock).2) := by
  obtain ⟨units, hactive⟩ := h.active
  refine ⟨_, lowerBlockHelperAt_eq malloc h.activeNull hactive h.activeNull hactive rfl
    (cellCount_eq_four ha), ?_⟩
  rw [lowerBlockHelper_eq gc gc.activeBlock rfl]
  have hiff : Fits gm.board (loweredBlock gc.activeBlock) ↔
      Fits gc.board (loweredBlock gc.activeBlock) := by rw [h.board]
  by_cases hfit : Fits gc.board (loweredBlock gc.activeBlock)
  · rw [if_pos hfit, if_pos (hiff.mpr hfit)]
    exact ⟨(h.withActive _ _).counted _, rfl, card_insert_active h _⟩
  · rw [if_neg hfit, if_neg fun hf => hfit (hiff.mp hf)]
    exact ⟨h.counted _, rfl, rfl⟩

theorem lowerBlockAt_refines (h : Stores gm gc) (hi : EngineInv gc) (forced : ℤ) :
    Agree (SameCall gm.blocks.keys.card) (lowerBlockAt malloc randR gm forced)
      (lowerBlock randR gc forced) := by
  obtain ⟨⟨gm', ret⟩, hlower, hsame⟩ := lowerActiveAt_refines malloc h hi.activePiece
  obtain ⟨hstores, rfl, hcard⟩ := hsame
  rw [lowerBlockAt, hlower, ok_bind, lowerBlock]
  dsimp only at hstores hcard ⊢
  by_cases hrest : (lowerBlockHelper gc gc.activeBlock).2 = 0
  · -- a block that cannot be lowered is still where it was
    have hstill : (lowerBlockHelper gc gc.activeBlock).1 = gc.activeBlock := by
      rw [lowerBlockHelper_eq gc gc.activeBlock rfl] at hrest ⊢
      split_ifs at hrest ⊢ with hfit
      · exact absurd hrest (by simp)
      · rfl
    rw [hstill] at hstores
    rw [if_neg (not_not.mpr hrest), if_neg (not_not.mpr hrest)]
    have hcount := hstores.autoLowerCount
    dsimp only at hcount
    -- a forced call counts up whether it places the block or not
    have hcounted : Stores { gm' with autoLowerCount := gm'.autoLowerCount + 1 }
        { gc with autoLowerCount := gc.autoLowerCount + 1 } :=
      { hstores with autoLowerCount := by rw [hcount] }
    by_cases hforced : forced = 0
    · rw [if_pos hforced, if_pos hforced]
      exact hcard ▸ placeBlockAt_refines randR hstores hi.activePiece
    · rw [if_neg hforced, if_neg hforced]
      by_cases hlimit : maxAutoLower ≤ gc.autoLowerCount
      · rw [if_pos (hcount ▸ hlimit), if_pos hlimit]
        exact hcard ▸ placeBlockAt_refines randR hcounted hi.activePiece
      · rw [if_neg (hcount ▸ hlimit), if_neg hlimit]
        exact .ok ⟨hcounted, rfl, hcard⟩
  · rw [if_pos hrest, if_pos hrest]
    exact .ok ⟨hstores, rfl, hcard⟩

theorem hardDropAt_refines (h : Stores gm gc) (hi : EngineInv gc) :
    Agree (SameCall gm.blocks.keys.card) (hardDropAt malloc randR gm) (hardDrop randR gc) := by
  obtain ⟨units, hactive⟩ := h.active
  obtain ⟨block, d, hd, ⟨hblock, -⟩, -⟩ := dropBlock_spec gc gc.activeBlock rfl hi.activePiece
  obtain ⟨allocated, hdrop⟩ := dropBlockAt_ok malloc h.board h.activeNull hactive h.activeNull hactive rfl
    rfl (cellCount_eq_four hi.activePiece) hd
  have hpiece : block.tetrisBlock ∈ availableBlocks := by
    rw [hblock]
    exact hi.activePiece
  rw [hardDropAt, hdrop, ok_bind, hardDrop, hd]
  rw [← card_insert_active h ⟨block, units⟩]
  exact placeBlockAt_refines randR ((h.withActive block units).counted allocated) hpiece

theorem swapHoldBlockAt_refines (h : Stores gm gc) :
    ∃ r, swapHoldBlockAt randR gm = .ok r ∧
      SameCall gm.blocks.keys.card r (swapHoldBlock randR gc) := by
  obtain ⟨units, hactive⟩ := h.active
  rw [swapHoldBlockAt, swapHoldBlock]
  by_cases hlimit : maxSwapH ≤ gc.swapHBlockCount
  · rw [if_pos (h.swapHBlockCount ▸ hlimit), if_pos hlimit]
    exact ⟨_, rfl, h, rfl, rfl⟩
  · rw [if_neg (h.swapHBlockCount ▸ hlimit), if_neg hlimit, load_of_lookup h.activeNull hactive, ok_bind]
    by_cases hempty : gc.holdBlock.type = .noType
    · have hheld : Stores { gm with holdBlock := gc.activeBlock.tetrisBlock }
          { gc with holdBlock := gc.activeBlock.tetrisBlock } := { h with holdBlock := rfl }
      obtain ⟨gm', hnew, hspawned, hcard⟩ := generateNewBlockAt_refines randR hheld
      rw [if_pos (h.holdBlock ▸ hempty), if_pos hempty, hnew, ok_bind]
      refine ⟨_, rfl, ?_, rfl, hcard⟩
      exact { hspawned with swapHBlockCount := by rw [hspawned.swapHBlockCount]; rfl }
    · rw [if_neg (h.holdBlock ▸ hempty), if_neg hempty, spawnActiveBlockAt,
        update_eq _ h.activeNull hactive, ok_bind, h.holdBlock]
      refine ⟨_, rfl, ?_, rfl, card_insert_active h _⟩
      have hstores := h.withActive (spawnActiveBlock gc.holdBlock) units
      exact { hstores with holdBlock := rfl, swapHBlockCount := by rw [h.swapHBlockCount] }

end Randomness

/-- The old shadow block is freed before the new one is made. -/
theorem generateShadowBlockAt_refines (h : Stores gm gc) (hi : EngineInv gc) :
    ∃ gm' block, dropBlock gc gc.activeBlock = .ok block ∧
      block.tetrisBlock = gc.activeBlock.tetrisBlock ∧
      generateShadowBlockAt malloc gm = .ok gm' ∧ Stores gm' { gc with shadowBlock := block } ∧
      gm'.blocks.keys.card = gm.blocks.keys.card := by
  obtain ⟨units, hactive⟩ := h.active
  obtain ⟨shadowUnits, hshadow⟩ := h.shadow
  obtain ⟨block, d, hd, ⟨hblock, -⟩, -⟩ := dropBlock_spec gc gc.activeBlock rfl hi.activePiece
  have hkept : (gm.blocks.erase gm.shadowBlock).lookup gm.activeBlock = some ⟨gc.activeBlock, units⟩ :=
    (Finmap.lookup_erase_ne h.apart).trans hactive
  have hcard := card_erase h.shadow_mem
  rw [generateShadowBlockAt, release_eq h.shadowNull hshadow, ok_bind,
    @cloneBlock_eq _ _ malloc { gm with blocks := gm.blocks.erase gm.shadowBlock } h.activeNull hkept,
    ok_bind]
  have hfresh : (malloc gm.allocated).address (gm.blocks.erase gm.shadowBlock).keys ∉
      gm.blocks.erase gm.shadowBlock := (malloc gm.allocated).not_mem _
  have hnull : (malloc gm.allocated).address (gm.blocks.erase gm.shadowBlock).keys ≠ 0 :=
    (malloc gm.allocated).ne_null _
  dsimp only
  generalize (malloc gm.allocated).address (gm.blocks.erase gm.shadowBlock).keys = p at *
  generalize gm.blocks.erase gm.shadowBlock = blocks at *
  have hne : gm.activeBlock ≠ p := by
    intro hp
    exact hfresh (hp ▸ Finmap.mem_of_lookup_eq_some hkept)
  -- the clone is a shadow block in the place of the piece, from which it is dropped
  let cloned : GameMemory := { gm with
    blocks := blocks.insert p ⟨gc.activeBlock, units⟩
    shadowBlock := p
    allocated := gm.allocated + 1 }
  have hcloned : Stores cloned { gc with shadowBlock := gc.activeBlock } :=
    { h with
      active := ⟨units, (Finmap.lookup_insert_of_ne _ hne).trans hkept⟩
      shadow := ⟨units, Finmap.lookup_insert _⟩
      shadowNull := hnull
      apart := hne }
  obtain ⟨allocated, hdrop⟩ := @dropBlockAt_ok cloned
    ⟨gc.activeBlock, units⟩ ⟨gc.activeBlock, units⟩ p malloc gc block h.board hnull
    (Finmap.lookup_insert _) h.activeNull ((Finmap.lookup_insert_of_ne _ hne).trans hkept) rfl rfl
    (cellCount_eq_four hi.activePiece) hd
  refine ⟨_, block, hd, by rw [hblock], hdrop, (hcloned.withShadow block units).counted allocated, ?_⟩
  rw [Finmap.insert_insert, card_insert _ hfresh, hcard]

/-- The view that the memory gives is the view of the game. -/
theorem generateGameViewDataAt_refines (h : Stores gm gc) (hi : EngineInv gc) :
    Agree (fun r s => Stores r.1 s.1 ∧ r.2 = s.2 ∧ r.1.blocks.keys.card = gm.blocks.keys.card)
      (generateGameViewDataAt malloc gm) (generateGameViewData gc) := by
  obtain ⟨gm₁, block, hd, hpiece, hshadowed, hstores, hcard⟩ := generateShadowBlockAt_refines malloc h hi
  obtain ⟨units, hlist, hstore⟩ := storeBlockPositions_active hstores hi.activePiece
  have hactive := hstores.withActive gc.activeBlock units
  obtain ⟨oldUnits, hshadow⟩ := hactive.shadow
  obtain ⟨shadowUnits, hshadowList, hshadowStore⟩ := storeBlockPositions_eq hactive.shadowNull hshadow
    (by rw [hpiece]; exact cellCount_eq_four hi.activePiece)
  -- both blocks have their units stored now, each in its own place
  have hboth := hactive.withShadow block shadowUnits
  let blocks := gm₁.blocks.insert gm₁.activeBlock ⟨gc.activeBlock, units⟩
  let stored := blocks.insert gm₁.shadowBlock ⟨block, shadowUnits⟩
  have hshadowStore' : storeBlockPositions blocks gm₁.shadowBlock = .ok stored := hshadowStore
  have hloadShadow : load stored gm₁.shadowBlock = .ok ⟨block, shadowUnits⟩ :=
    load_of_lookup hstores.shadowNull (Finmap.lookup_insert _)
  have hloadActive : load stored gm₁.activeBlock = .ok ⟨gc.activeBlock, units⟩ :=
    load_of_lookup hstores.activeNull
      ((Finmap.lookup_insert_of_ne _ hstores.apart).trans (Finmap.lookup_insert _))
  have hread (r : BlockRecord) : readUnits r maxBlockUnits = .ok r.boardUnits.toList := readUnits_four r
  have htake (b : ActiveBlock) (hb : b.tetrisBlock = gc.activeBlock.tetrisBlock) :
      (getBlockPositions b).take maxBlockUnits = getBlockPositions b := by
    apply List.take_of_length_le
    rw [length_getBlockPositions, hb, cellCount_eq_four hi.activePiece]
    exact le_refl _
  have hlive : stored.keys.card = gm.blocks.keys.card := by
    rw [← hcard, ← card_insert_active hstores ⟨gc.activeBlock, units⟩]
    exact congrArg Finset.card (keys_insert_of_mem _ hactive.shadow_mem)
  rw [generateGameViewDataAt, hshadowed, ok_bind, hstore, ok_bind, hshadowStore', ok_bind, hloadShadow,
    ok_bind, hread, ok_bind, generateGameViewData, generateShadowBlock, hd]
  dsimp only at hshadowList ⊢
  rw [htake block hpiece, htake gc.activeBlock rfl, hshadowList, hstores.board]
  dsimp only
  cases gc.board.mergeUnits BlockType.shadow.toInt (getBlockPositions block) with
  | error e => exact .error e
  | ok shadowed =>
    rw [ok_bind, hloadActive, ok_bind, hread, ok_bind, hlist]
    dsimp only
    cases shadowed.mergeUnits gc.activeBlock.tetrisBlock.type.toInt
        (getBlockPositions gc.activeBlock) with
    | error e => exact .error e
    | ok drawn =>
      rw [ok_bind]
      refine .ok ⟨{ hboth with board := rfl }, ?_, hlive⟩
      dsimp only
      rw [hstores.points, hstores.linesCleared, hstores.nextBlock, hstores.holdBlock]

section Randomness

variable (randR : RandR)

/-- A call on the memory does what the call on the game does, with the same return value and
the same faults; only a refused rotation leaves one more block behind. -/
theorem callAt_refines (h : Stores gm gc) (hi : EngineInv gc) (op : Op) :
    Agree (fun r s => Stores r.1 s.1 ∧ r.2 = s.2 ∧
        r.1.blocks.keys.card = gm.blocks.keys.card + refusedRotations [(op, s.2)])
      (op.callAt malloc randR gm) (op.call randR gc) := by
  -- all calls but the rotations keep the number of blocks
  have hsame {x : Except Fault (GameMemory × ℤ)} {y : Except Fault (GameContents × ℤ)}
      (hxy : Agree (SameCall gm.blocks.keys.card) x y) (hop : ∀ ret, refusedRotations [(op, ret)] = 0) :
      Agree (fun r s => Stores r.1 s.1 ∧ r.2 = s.2 ∧
        r.1.blocks.keys.card = gm.blocks.keys.card + refusedRotations [(op, s.2)]) x y := by
    apply hxy.mono
    intro r s hrs
    exact ⟨hrs.stores, hrs.ret, by rw [hop, hrs.live, Nat.add_zero]⟩
  cases op with
  | translateLeft =>
    obtain ⟨r, hr, hrs⟩ := translateBlockHelperAt_refines malloc h hi 1
    rw [Op.callAt, hr]
    exact hsame (.ok hrs) fun _ => rfl
  | translateRight =>
    obtain ⟨r, hr, hrs⟩ := translateBlockHelperAt_refines malloc h hi (-1)
    rw [Op.callAt, hr]
    exact hsame (.ok hrs) fun _ => rfl
  | rotate clockwise =>
    obtain ⟨r, hr, hrs⟩ := rotateBlockAt_refines malloc h hi clockwise
    rw [Op.callAt, hr, Op.call]
    refine .ok ⟨hrs.stores, hrs.ret, ?_⟩
    rw [hrs.live]
    simp [refusedRotations, List.countP_cons]
  | lower forced => exact hsame (lowerBlockAt_refines malloc randR h hi forced) fun _ => rfl
  | hardDrop => exact hsame (hardDropAt_refines malloc randR h hi) fun _ => rfl
  | swapHold =>
    obtain ⟨r, hr, hrs⟩ := swapHoldBlockAt_refines randR h
    rw [Op.callAt, hr]
    exact hsame (.ok hrs) fun _ => rfl
  | view =>
    apply (generateGameViewDataAt_refines malloc h hi).map
    rintro r s ⟨hstores, -, hcard⟩
    exact ⟨hstores, rfl, hcard⟩

end Randomness

end Calls

section Games

variable (malloc : ℕ → Allocator) (randR : RandR)

/-- A call, put on the record with its return value. -/
def recorded {σ : Type} (call : σ → Op → Except Fault (σ × ℤ)) (s : σ × List (Op × ℤ)) (op : Op) :
    Except Fault (σ × List (Op × ℤ)) :=
  (call s.1 op).map fun r => (r.1, (op, r.2) :: s.2)

theorem refusedRotations_cons (c : Op × ℤ) (record : List (Op × ℤ)) :
    refusedRotations (c :: record) = refusedRotations record + refusedRotations [c] := by
  rw [refusedRotations, List.countP_cons, refusedRotations, refusedRotations, List.countP_singleton]

/-- A new game has two blocks of its own. -/
theorem newSeededGameAt_refines (seed : BitVec 32) :
    ∃ gm, newSeededGameAt malloc randR seed = .ok gm ∧ Stores gm (newSeededGame randR seed) ∧
      gm.blocks.keys.card = 2 := by
  rw [newSeededGameAt, newSeededGame]
  have hone := (malloc 1).not_mem
    (Finmap.insert ((malloc 0).address ∅) callocRecord ∅ : Heap BlockRecord)
  have hnull := (malloc 0).ne_null ∅
  have hnull' := (malloc 1).ne_null
    (Finmap.insert ((malloc 0).address ∅) callocRecord ∅ : Heap BlockRecord).keys
  generalize (malloc 0).address ∅ = a at *
  generalize (malloc 1).address (Finmap.insert a callocRecord ∅ : Heap BlockRecord).keys = b at *
  have hne : a ≠ b := by
    intro hab
    exact hone (Finmap.mem_insert.mpr (Or.inl hab.symm))
  let blocks : Heap BlockRecord := (Finmap.insert a callocRecord ∅).insert b callocRecord
  have hlive : blocks.keys.card = 2 := by
    rw [card_insert _ hone, card_insert _ Finmap.notMem_empty, Finmap.keys_empty, Finset.card_empty]
  have hactive : blocks.lookup a = some callocRecord :=
    (Finmap.lookup_insert_of_ne _ hne).trans (Finmap.lookup_insert _)
  let gc : GameContents :=
    { points := 0, linesCleared := 0, autoLowerCount := 0, swapHBlockCount := 0, board := emptyBoard
      seed := (randR seed).2, nextBlock := drawBlock (randR seed).1, holdBlock := tetrisBlockNull
      activeBlock := callocBlock, shadowBlock := callocBlock }
  have hstores : Stores ⟨0, 0, 0, 0, emptyBoard, (randR seed).2, drawBlock (randR seed).1,
      tetrisBlockNull, a, b, blocks, 2⟩ gc :=
    ⟨rfl, rfl, rfl, rfl, rfl, rfl, rfl, rfl, ⟨_, hactive⟩, ⟨_, Finmap.lookup_insert _⟩, hnull, hnull',
      hne⟩
  obtain ⟨gm, hnew, hstores', hcard⟩ := generateNewBlockAt_refines randR hstores
  exact ⟨gm, hnew, hstores', hcard.trans hlive⟩

/-- What the memory of a game has in common with the game after the same calls. -/
structure SameCalls (s : GameMemory × List (Op × ℤ)) (t : GameContents × List (Op × ℤ)) : Prop where
  stores : Stores s.1 t.1
  inv : EngineInv t.1
  record : s.2 = t.2
  live : s.1.blocks.keys.card = 2 + refusedRotations s.2

theorem recorded_refines {s : GameMemory × List (Op × ℤ)} {t : GameContents × List (Op × ℤ)} (op : Op)
    (h : SameCalls s t) :
    Agree SameCalls (recorded (fun gm op => op.callAt malloc randR gm) s op)
      (recorded (fun gc op => op.call randR gc) t op) := by
  rw [recorded, recorded]
  rcases (callAt_refines malloc randR h.stores h.inv op).error_or_ok with
    ⟨e, hat, hcall⟩ | ⟨r', r, hat, hcall, hstores, hret, hlive⟩
  · rw [hat, hcall]
    exact .error e
  · rw [hat, hcall]
    have hrecord : (op, r'.2) :: s.2 = (op, r.2) :: t.2 := by rw [h.record, hret]
    have hinv : EngineInv r.1 :=
      engineStep_inv randR h.inv ((engineStep_eq_ok randR).mpr ⟨r.2, hcall⟩)
    refine .ok ⟨hstores, hinv, hrecord, ?_⟩
    rw [refusedRotations_cons, hret, hlive, h.live, Nat.add_assoc]

/-- What is left when a game is destroyed: the shadow block, and the blocks that refused
rotations have left behind. -/
theorem destroyGameAt_leaks {s : GameMemory × List (Op × ℤ)} {t : GameContents × List (Op × ℤ)}
    (h : SameCalls s t) :
    ∃ rest, destroyGameAt s.1 = .ok rest ∧ rest.keys.card = 1 + refusedRotations s.2 := by
  obtain ⟨units, hactive⟩ := h.stores.active
  refine ⟨_, release_eq h.stores.activeNull hactive, ?_⟩
  have hcard := card_erase h.stores.active_mem
  rw [h.live] at hcard
  omega

/-- Calls of a new game in memory, wherever malloc puts the blocks: they do what the calls do to the
value of the game, return the same, show the same view and never touch a block that is not live;
all that can go wrong is that a placement hangs. The game has two live blocks and one for each
rotation that was refused, and destroying it frees one of them. -/
theorem game_memory (seed : BitVec 32) (ops : List Op) :
    Agree (fun s t => Stores s.1 t.1 ∧ s.2 = t.2 ∧
        s.1.blocks.keys.card = 2 + refusedRotations s.2 ∧
        (∃ rest, destroyGameAt s.1 = .ok rest ∧ rest.keys.card = 1 + refusedRotations s.2) ∧
        ∃ gm gc view, generateGameViewDataAt malloc s.1 = .ok (gm, view) ∧
          generateGameViewData t.1 = .ok (gc, view))
      (newSeededGameAt malloc randR seed >>= fun gm =>
        run (recorded fun gm op => op.callAt malloc randR gm) (gm, []) ops)
      (run (recorded fun gc op => op.call randR gc) (newSeededGame randR seed, []) ops) ∧
    ∀ e, (newSeededGameAt malloc randR seed >>= fun gm =>
      run (recorded fun gm op => op.callAt malloc randR gm) (gm, []) ops) = .error e →
        e = .nonterminating := by
  obtain ⟨gm, hnew, hstores, hlive⟩ := newSeededGameAt_refines malloc randR seed
  have hstart : SameCalls (gm, []) (newSeededGame randR seed, []) :=
    ⟨hstores, newSeededGame_inv randR seed, rfl, hlive⟩
  have hrun := Agree.run _ (fun _ _ op h => recorded_refines malloc randR op h) hstart ops
  rw [hnew, ok_bind]
  constructor
  · apply hrun.mono
    intro s t h
    refine ⟨h.stores, h.record, h.live, destroyGameAt_leaks h, ?_⟩
    obtain ⟨⟨gc, view⟩, hview⟩ := view_returns h.inv
    rcases (generateGameViewDataAt_refines malloc h.stores h.inv).error_or_ok with
      ⟨e, -, herr⟩ | ⟨r, r', hat, hcall, -, hsame, -⟩
    · exact absurd (hview.symm.trans herr) (by simp)
    · rw [hview, Except.ok.injEq] at hcall
      subst hcall
      exact ⟨r.1, gc, view, hat.trans (congrArg Except.ok (Prod.ext rfl hsame)), hview⟩
  · intro e he
    rw [he] at hrun
    -- the game gets stuck as well, and that is where a placement hangs
    have hgame : run (recorded fun gc op => op.call randR gc) (newSeededGame randR seed, []) ops =
        .error e := by
      apply errorOf_eq_some.mp
      rw [← hrun.errorOf_eq, errorOf_error]
    apply run_error (I := fun t => EngineInv t.1) _ _ _ (newSeededGame_inv randR seed) hgame
    · intro t op t' hi ht
      obtain ⟨r, hr, rfl⟩ := map_eq_ok.mp ht
      exact engineStep_inv randR hi ((engineStep_eq_ok randR).mpr ⟨r.2, hr⟩)
    · intro t op e hi ht
      cases hcall : op.call randR t.1 with
      | error e' =>
        rw [recorded, hcall] at ht
        exact Except.error.inj ht ▸ (call_returns_iff randR op hi).2 e' hcall
      | ok r =>
        rw [recorded, hcall] at ht
        exact absurd ht (by simp [Except.map])

end Games

end TetrisMint
