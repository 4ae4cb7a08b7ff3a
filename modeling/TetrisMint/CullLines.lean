import TetrisMint.Board
import TetrisMint.RowCompaction

/-! `delete_line` and the loop of `cull_lines`. -/
namespace TetrisMint
open FueledLoop

/-- The copy of row `j` into row `j - 1` by the inner loop of `delete_line`. -/
def copyRowDown (b : Board) (j : ℕ) : Board := b.setIfInBounds (j - 1) (b.row j)

def deleteLine (lineNumber : ℕ) (b : Board) : Board :=
  (List.range' (lineNumber + 1) (boardHeight - (lineNumber + 1))).foldl copyRowDown b

/-- The count of filled cells in a row that `cull_lines` makes. -/
def unitsInRow (r : Row) : ℕ := r.toList.countP (· ≠ 0)

def rowFull (r : Row) : Bool := boardWidth ≤ unitsInRow r

structure CullState where
  board : Board
  j : ℕ
  linesCulled : ℕ
deriving DecidableEq

def cullGuard (s : CullState) : Bool := s.j < boardHeight

/-- The body of the loop in `cull_lines` with the increment of `j`: after a
deletion `j--` and `j++` leave the index where it was. -/
def cullStep (s : CullState) : CullState :=
  if rowFull (s.board.row s.j) then ⟨deleteLine s.j s.board, s.j, s.linesCulled + 1⟩
  else ⟨s.board, s.j + 1, s.linesCulled⟩

/-- Every row once and every deletion once more: a loop that needs longer never ends. -/
def cullBound : ℕ := 2 * boardHeight

def cullLoop (b : Board) : Option CullState := iterate cullGuard cullStep cullBound ⟨b, 0, 0⟩

/-- The points that `cull_lines` adds for the lines of one placement. -/
def cullPoints : ℕ → ℤ
  | 0 => 0
  | 1 => 100
  | 2 => 250
  | 3 => 500
  | 4 => 1000
  | _ => 777

theorem rowFull_iff (r : Row) : rowFull r = true ↔ ∀ x, x < boardWidth → r.toList.getD x 0 ≠ 0 := by
  have hlen : r.toList.length = boardWidth := by simp
  have hle : r.toList.countP (· ≠ 0) ≤ r.toList.length := List.countP_le_length
  have hall : rowFull r = true ↔ ∀ c ∈ r.toList, c ≠ 0 := by
    rw [rowFull, unitsInRow, decide_eq_true_iff]
    constructor
    · intro h
      have hc : r.toList.countP (· ≠ 0) = r.toList.length := by omega
      simpa using List.countP_eq_length.mp hc
    · intro h
      have hc : r.toList.countP (· ≠ 0) = r.toList.length :=
        List.countP_eq_length.mpr (by simpa using h)
      omega
  rw [hall]
  constructor
  · intro h x hx
    rw [List.getD_eq_getElem?_getD, List.getElem?_eq_getElem (by omega)]
    exact h _ (List.getElem_mem _)
  · intro h c hc
    obtain ⟨x, hx, rfl⟩ := List.getElem_of_mem hc
    have hh := h x (by omega)
    rwa [List.getD_eq_getElem?_getD, List.getElem?_eq_getElem hx] at hh

theorem row_copyRowDown (b : Board) {j : ℕ} (hj : j < boardHeight) (y : ℕ) :
    Board.row (copyRowDown b j) y = if y = j - 1 then b.row j else b.row y := by
  rcases Nat.lt_or_ge y boardHeight with hy | hy
  · rw [row_eq_getElem _ hy, copyRowDown, Vector.getElem_setIfInBounds]
    by_cases hyj : y = j - 1
    · simp [hyj]
    · rw [if_neg hyj, if_neg (Ne.symm hyj), row_eq_getElem b hy]
  · rw [row_of_ge _ hy, row_of_ge b hy, if_neg (by omega)]

/-- Row `y` after a deletion: the rows from the deleted one on come from the row
above, and the top row stays. -/
theorem row_deleteLine (b : Board) (j y : ℕ) :
    Board.row (deleteLine j b) y = if j ≤ y ∧ y + 1 < boardHeight then b.row (y + 1) else b.row y := by
  -- after `n` copies the rows from `j` up to `j + n` hold what stood above them
  have hsteps (n : ℕ) (hn : j + 1 + n ≤ boardHeight) (y : ℕ) :
      Board.row ((List.range' (j + 1) n).foldl copyRowDown b) y =
        if j ≤ y ∧ y < j + n then b.row (y + 1) else b.row y := by
    induction n generalizing y with
    | zero => rw [List.range'_zero, List.foldl_nil, if_neg (by omega)]
    | succ n ih =>
      -- the last copy reads a row that no earlier copy has written
      rw [List.range'_1_concat, List.foldl_append, List.foldl_cons, List.foldl_nil,
        row_copyRowDown _ (by omega), ih (by omega), ih (by omega)]
      split_ifs <;> first | rfl | omega | (congr 1; omega)
  rcases Nat.lt_or_ge j boardHeight with hj | hj
  · rw [deleteLine, hsteps _ (by omega)]
    split_ifs <;> first | rfl | omega
  · have hz : boardHeight - (j + 1) = 0 := by omega
    rw [deleteLine, hz, List.range'_zero, List.foldl_nil, if_neg (by omega)]

theorem getLast?_toList (b : Board) : b.toList.getLast? = some (b.row (boardHeight - 1)) := by
  rw [toList_eq_map_row]
  rfl

/-- In the list of rows, `delete_line` is the deletion that keeps the last entry. -/
theorem toList_deleteLine (b : Board) {j : ℕ} (hj : j < boardHeight) :
    (deleteLine j b).toList = RowCompaction.deleteAt j b.toList := by
  have hlen := RowCompaction.length_deleteAt j b.toList (by simpa using hj)
  apply List.ext_getElem
  · rw [hlen]
    simp
  · intro y hy hy'
    have hyh : y < boardHeight := by simpa using hy
    have hl : (deleteLine j b).toList[y] = Board.row (deleteLine j b) y := by
      rw [row_eq_getElem _ hyh]
      simp
    rw [hl, row_deleteLine]
    simp only [RowCompaction.deleteAt, getLast?_toList, Option.toList_some]
    have hel : (b.toList.eraseIdx j).length = boardHeight - 1 := by
      rw [List.length_eraseIdx_of_lt (by simpa using hj)]
      simp
    -- the list keeps its length because the top row is there twice now
    by_cases hlast : y + 1 < boardHeight
    · rw [List.getElem_append_left (by omega), List.getElem_eraseIdx]
      split_ifs with h₁ h₂ h₂
      · omega
      · rw [row_eq_getElem b hlast]
        simp
      · rw [row_eq_getElem b hyh]
        simp
      · omega
    · rw [if_neg (by omega), List.getElem_append_right (by omega), List.getElem_singleton]
      congr 1
      omega

/-- The list of rows that the loop of `cull_lines` works on. -/
def CullState.scan (s : CullState) : RowCompaction.Scan Row := ⟨s.board.toList, s.j, s.linesCulled⟩

theorem cullLoop_scan (n : ℕ) (s : CullState) :
    (iterate cullGuard cullStep n s).map CullState.scan =
      iterate RowCompaction.scanGuard (RowCompaction.scanStep rowFull) n s.scan := by
  apply iterate_map
  · intro s
    simp [CullState.scan, RowCompaction.scanGuard, cullGuard]
  · intro s hs
    have hj : s.j < boardHeight := by simpa [cullGuard] using hs
    have hget : s.board.toList[s.j]? = some (s.board.row s.j) := by
      rw [row_eq_getElem _ hj, List.getElem?_eq_getElem (by simpa using hj)]
      simp
    simp only [cullStep, CullState.scan, RowCompaction.scanStep, hget, Option.any_some]
    split_ifs
    · simp only [toList_deleteLine _ hj]
    · rfl

/-- What the loop of `cull_lines` computes when the top row is not full: the
rows that are not full in their order, then one copy of the top row for each
full row. -/
theorem cullLoop_result (b : Board) (htop : rowFull (b.row (boardHeight - 1)) = false) :
    ∃ s, cullLoop b = some s ∧
      s.board.toList = b.toList.filter (fun r => !rowFull r) ++
        List.replicate (b.toList.countP rowFull) (b.row (boardHeight - 1)) ∧
      s.linesCulled = b.toList.countP rowFull := by
  have hlen : b.toList.length = boardHeight := by simp
  have hcount : b.toList.countP rowFull ≤ b.toList.length := List.countP_le_length
  -- the scan of the row list starts with nothing behind it
  have hscan := RowCompaction.scan_result rowFull [] b.toList _ 0 cullBound
    (fun _ => getLast?_toList b) htop (by simp only [cullBound]; omega)
  have hmap := cullLoop_scan cullBound ⟨b, 0, 0⟩
  change Option.map _ _ = iterate RowCompaction.scanGuard _ cullBound ⟨[] ++ b.toList, 0, 0⟩ at hmap
  rw [List.length_nil] at hscan
  rw [hscan] at hmap
  obtain ⟨s, hs, heq⟩ := Option.map_eq_some_iff.mp hmap
  refine ⟨s, hs, ?_, ?_⟩
  · exact congrArg RowCompaction.Scan.rows heq
  · have := congrArg RowCompaction.Scan.removed heq
    simpa [CullState.scan] using this

/-- A full top row keeps the loop of `cull_lines` running however long it runs. -/
theorem cullLoop_diverges (b : Board) (htop : rowFull (b.row (boardHeight - 1)) = true) (n : ℕ) :
    iterate cullGuard cullStep n ⟨b, 0, 0⟩ = none := by
  have hmap := cullLoop_scan n ⟨b, 0, 0⟩
  have hdiv := RowCompaction.scan_diverges rowFull b.toList _ (getLast?_toList b) htop n
  change Option.map _ _ = iterate RowCompaction.scanGuard _ n ⟨b.toList, 0, 0⟩ at hmap
  rw [hdiv] at hmap
  exact Option.map_eq_none_iff.mp hmap

theorem cullLoop_eq_none_iff (b : Board) :
    cullLoop b = none ↔ rowFull (b.row (boardHeight - 1)) = true := by
  constructor
  · intro h
    by_contra htop
    obtain ⟨s, hs, _⟩ := cullLoop_result b (by simpa using htop)
    rw [h] at hs
    exact absurd hs (by simp)
  · intro htop
    exact cullLoop_diverges b htop cullBound

/-- The rows after culling are rows of before, and none is full. -/
theorem cullLoop_rows {b : Board} {s : CullState} (h : cullLoop b = some s) :
    ∀ r ∈ s.board.toList, r ∈ b.toList ∧ rowFull r = false := by
  have htop : rowFull (b.row (boardHeight - 1)) = false := by
    by_contra hne
    rw [(cullLoop_eq_none_iff b).mpr (by simpa using hne)] at h
    exact absurd h (by simp)
  obtain ⟨s', hs', hrows, _⟩ := cullLoop_result b htop
  rw [h, Option.some_inj] at hs'
  subst hs'
  intro r hr
  rw [hrows, List.mem_append] at hr
  rcases hr with hr | hr
  · simpa using hr
  · obtain ⟨-, rfl⟩ := List.mem_replicate.mp hr
    exact ⟨List.mem_of_getLast? (getLast?_toList b), htop⟩

/-- Without a full row nothing is culled. -/
theorem cullLoop_of_no_full {b : Board} (h : ∀ r ∈ b.toList, rowFull r = false) :
    ∃ s, cullLoop b = some s ∧ s.board = b ∧ s.linesCulled = 0 := by
  have hcount : b.toList.countP rowFull = 0 :=
    List.countP_eq_zero.mpr (fun r hr => by simp [h r hr])
  obtain ⟨s, hs, hrows, hn⟩ := cullLoop_result b (h _ (List.mem_of_getLast? (getLast?_toList b)))
  rw [hcount, List.replicate_zero, List.append_nil,
    List.filter_eq_self.mpr (fun r hr => by simp [h r hr])] at hrows
  exact ⟨s, hs, Vector.toList_inj.mp hrows, hn.trans hcount⟩

end TetrisMint
