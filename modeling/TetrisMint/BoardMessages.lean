import TetrisMint.ClientConn
import TetrisMint.GameView
import TetrisMint.Server

/-! The BOARD message: how `message.c` lays out a name and a view, and that the client's
`read_game_view_data` finds both. -/
namespace TetrisMint

open CStrings FallibleRun

section Structs

/-- The value that an int holds when `v` is stored in it. -/
def storedInt (v : ℤ) : ℤ := v.bmod (2 ^ 32)

theorem storedInt_of_isInt {v : ℤ} (hv : IsInt v) : storedInt v = v := by
  obtain ⟨hlow, hhigh⟩ := hv
  apply Int.bmod_eq_of_le
  · omega
  · omega

/-- A structure that has only ints as members. -/
def intsBytes (vs : List ℤ) : Bytes := vs.flatMap intBytes

/-- The `i`-th member of such a structure. -/
def intMember (m : Bytes) (i : ℕ) : Option ℤ := intField m (4 * i)

@[simp] theorem length_intsBytes (vs : List ℤ) : (intsBytes vs).length = 4 * vs.length := by
  induction vs with
  | nil => rfl
  | cons v vs ih =>
    rw [intsBytes, List.flatMap_cons, List.length_append, length_intBytes, ← intsBytes, ih,
      List.length_cons]
    omega

theorem intBytes_storedInt (v : ℤ) : intBytes (storedInt v) = intBytes v := by
  have hmod : storedInt v % 2 ^ 32 = v % 2 ^ 32 := Int.bmod_emod
  rw [intBytes, hmod, ← intBytes]

theorem isInt_storedInt (v : ℤ) : IsInt (storedInt v) := by
  constructor
  · exact Int.le_bmod (by decide)
  · exact Int.bmod_lt (by decide)

/-- Every member reads back as the int that was stored. -/
theorem intMember_intsBytes {vs : List ℤ} {i : ℕ} {v : ℤ} (h : vs[i]? = some v) :
    intMember (intsBytes vs) i = some (storedInt v) := by
  obtain ⟨hi, hv⟩ := List.getElem?_eq_some_iff.mp h
  have hsplit : intsBytes vs = intsBytes (vs.take i) ++ (intBytes v ++ intsBytes (vs.drop (i + 1))) := by
    calc intsBytes vs = intsBytes (vs.take i ++ vs.drop i) := by rw [List.take_append_drop]
      _ = intsBytes (vs.take i ++ v :: vs.drop (i + 1)) := by rw [List.drop_eq_getElem_cons hi, hv]
      _ = _ := by simp only [intsBytes, List.flatMap_append, List.flatMap_cons]
  have hoff : (intsBytes (vs.take i)).length = 4 * i := by
    rw [length_intsBytes, List.length_take, Nat.min_eq_left hi.le]
  rw [intMember, hsplit, ← hoff, ← intBytes_storedInt]
  exact intField_intBytes _ _ (isInt_storedInt v)

/-- An entry of an array of rows. -/
theorem getElem?_flatten_rows {α : Type} {w : ℕ} {rows : List (List α)}
    (hrows : ∀ r ∈ rows, r.length = w) {x : ℕ} (hx : x < w) (y : ℕ) :
    rows.flatten[w * y + x]? = rows[y]?.bind (·[x]?) := by
  induction rows generalizing y with
  | nil => rfl
  | cons r rows ih =>
    rw [List.forall_mem_cons] at hrows
    rw [List.flatten_cons]
    cases y with
    | zero =>
      rw [Nat.mul_zero, Nat.zero_add, List.getElem?_append_left (by rw [hrows.1]; exact hx)]
      rfl
    | succ y =>
      have hbehind : w * (y + 1) + x = r.length + (w * y + x) := by
        rw [hrows.1]
        ring
      rw [hbehind, List.getElem?_append_right (by omega), Nat.add_sub_cancel_left, ih hrows.2]
      rfl

end Structs

section Views

/-- The members of `struct game_view_data` in their order, the board row by row. -/
def viewInts (view : GameViewData) : List ℤ :=
  [view.points, view.linesCleared, view.nextBlock.toInt, view.holdBlock.toInt] ++
    (view.board.toList.map Vector.toList).flatten

/-- What memcpy reads of a view. -/
def viewBytes (view : GameViewData) : Bytes := intsBytes (viewInts view)

/-- The enumerator with a value. -/
def blockTypeOfInt (v : ℤ) : Option BlockType :=
  [.noType, .shadow, .orange, .blue, .cleve, .rhode, .teewee, .hero, .smashboy].find? (·.toInt = v)

/-- The structure that stands in some bytes. -/
def gameViewDataOf (m : Bytes) : Option GameViewData := do
  let points ← intMember m 0
  let linesCleared ← intMember m 1
  let nextBlock ← (intMember m 2).bind blockTypeOfInt
  let holdBlock ← (intMember m 3).bind blockTypeOfInt
  some {
    points := points
    linesCleared := linesCleared
    nextBlock := nextBlock
    holdBlock := holdBlock
    board := Vector.ofFn fun y : Fin boardHeight => Vector.ofFn fun x : Fin boardWidth =>
      (intMember m (4 + (boardWidth * y + x))).getD 0 }

@[simp] theorem blockTypeOfInt_toInt (t : BlockType) : blockTypeOfInt t.toInt = some t := by
  cases t <;> rfl

theorem isInt_toInt (t : BlockType) : IsInt t.toInt := by
  cases t <;> decide

theorem length_viewBytes (view : GameViewData) : (viewBytes view).length = gameViewDataSize := by
  have hcells : ((view.board.toList.map Vector.toList).flatten).length = boardHeight * boardWidth := by
    rw [List.length_flatten, List.map_map]
    have hrow : (List.length ∘ Vector.toList : Row → ℕ) = fun _ => boardWidth := by
      funext r
      exact Vector.length_toList
    rw [hrow, List.map_const', List.sum_replicate, Vector.length_toList, smul_eq_mul]
  rw [viewBytes, length_intsBytes, viewInts, List.length_append, hcells, gameViewDataSize]
  rfl

theorem viewInts_cell (view : GameViewData) {y x : ℕ} (hy : y < boardHeight) (hx : x < boardWidth) :
    (viewInts view)[4 + (boardWidth * y + x)]? = some (view.board.cell y x) := by
  have hrows : ∀ r ∈ view.board.toList.map Vector.toList, r.length = boardWidth := by
    intro r hr
    obtain ⟨row, -, rfl⟩ := List.mem_map.mp hr
    exact Vector.length_toList
  have hrow : view.board.toList[y]? = some (view.board.row y) := by
    rw [row_eq_getElem _ hy]
    simp [hy]
  rw [viewInts, List.getElem?_append_right (by simp), List.length_cons, List.length_cons,
    List.length_cons, List.length_cons, List.length_nil, Nat.add_sub_cancel_left,
    getElem?_flatten_rows hrows hx, List.getElem?_map, hrow, Option.map_some, Option.bind_some,
    Board.cell, List.getD_eq_getElem?_getD, List.getElem?_eq_getElem (by simpa using hx),
    Option.getD_some]

/-- The score fields as the structure holds them. -/
def GameViewData.stored (view : GameViewData) : GameViewData :=
  { view with
    points := storedInt view.points
    linesCleared := storedInt view.linesCleared }

/-- A view whose cells are ints is found again in its bytes. -/
theorem gameViewDataOf_viewBytes {view : GameViewData} (hcells : ∀ y x, IsInt (view.board.cell y x)) :
    gameViewDataOf (viewBytes view) = some view.stored := by
  have hmember {i : ℕ} {v : ℤ} (h : (viewInts view)[i]? = some v) :
      intMember (viewBytes view) i = some (storedInt v) := intMember_intsBytes h
  have hboard : (Vector.ofFn fun y : Fin boardHeight => Vector.ofFn fun x : Fin boardWidth =>
      (intMember (viewBytes view) (4 + (boardWidth * y + x))).getD 0) = view.board := by
    apply board_ext
    intro y x hy hx
    have hcell := hmember (viewInts_cell view hy hx)
    rw [storedInt_of_isInt (hcells y x)] at hcell
    rw [Board.cell, row_eq_getElem _ hy, Vector.getElem_ofFn, List.getD_eq_getElem?_getD,
      Vector.getElem?_toList, Vector.getElem?_eq_getElem hx, Vector.getElem_ofFn, hcell]
    rfl
  have htype (t : BlockType) : storedInt t.toInt = t.toInt := storedInt_of_isInt (isInt_toInt t)
  have hnext : intMember (viewBytes view) 2 = some view.nextBlock.toInt := by
    rw [← htype]
    exact hmember rfl
  have hhold : intMember (viewBytes view) 3 = some view.holdBlock.toInt := by
    rw [← htype]
    exact hmember rfl
  rw [gameViewDataOf, hboard, @hmember 0 view.points rfl, @hmember 1 view.linesCleared rfl, hnext, hhold,
    Option.bind_some, Option.bind_some, blockTypeOfInt_toInt, blockTypeOfInt_toInt]
  rfl

end Views

section Serialize

/-- The blob of a BOARD message, and the player, whose shadow block is drawn anew.
`fresh` is what the memory of the blob held. -/
def serializeState (fresh : Fresh) (p : Player) : Except Fault (Player × Blob) := do
  let (contents, view) ← generateGameViewData p.contents
  let nameLength ← access (strnlen (p.name ++ [0]) playerNameMaxChars)
  let blob := createBlob fresh (gameViewDataSize + nameLength + 1)
  let bytes ← access (strncpy blob.bytes 0 (p.name ++ [0]) (nameLength + 1))
  -- the NUL for a name that strncpy has cut
  let bytes ← access (store bytes nameLength [0])
  let bytes ← access (store bytes (1 + nameLength) (viewBytes view))
  .ok ({ p with contents := contents }, { blob with bytes := bytes })

/-- The name that the client hands to the renderer together with a view. -/
def boardName (buffer : Bytes) : Except Fault Bytes := access (cString buffer)

variable {name : Bytes}

theorem strnlen_name (h0 : 0 ∉ name) (n : ℕ) :
    strnlen (name ++ [0]) n = some (name.take n).length := by
  rw [List.length_take]
  rcases Nat.le_total name.length n with hshort | hlong
  · rw [strnlen_terminated h0 [] n hshort, Nat.min_eq_right hshort]
  · -- the bound stops inside of the name
    have hprefix : 0 ∉ name.take n := fun h => h0 (List.mem_of_mem_take h)
    have hlen := strnlen_unterminated hprefix n
    rw [List.length_take, Nat.min_eq_left hlong, if_pos (le_refl n)] at hlen
    rw [← List.take_append_drop n name, List.append_assoc, Nat.min_eq_left]
    · exact strnlen_append _ hlen
    · rwa [List.take_append_drop]

/-- The name is copied, cut or whole, with one byte more. -/
theorem strncpyBytes_name (h0 : 0 ∉ name) (n : ℕ) : ∃ last,
    strncpyBytes (name ++ [0]) ((name.take n).length + 1) = some (name.take n ++ [last]) := by
  have hprefix : 0 ∉ name.take n := fun h => h0 (List.mem_of_mem_take h)
  obtain ⟨last, rest, hrest⟩ : ∃ last rest, name.drop n ++ [0] = last :: rest := by
    cases name.drop n with
    | nil => exact ⟨0, [], rfl⟩
    | cons b bs => exact ⟨b, bs ++ [0], rfl⟩
  refine ⟨last, ?_⟩
  have hcopy := strncpyBytes_succ hprefix rest last
  rwa [← hrest, ← List.append_assoc, List.take_append_drop] at hcopy

/-- The blob: the name, cut to the maximum length, its NUL, and the view. -/
theorem serializeState_eq {p : Player} (h0 : 0 ∉ p.name) {contents : GameContents}
    {view : GameViewData} (hview : generateGameViewData p.contents = .ok (contents, view))
    (fresh : Fresh) : serializeState fresh p = .ok ({ p with contents := contents },
      ⟨gameViewDataSize + (p.name.take playerNameMaxChars).length + 1,
        p.name.take playerNameMaxChars ++ 0 :: viewBytes view⟩) := by
  let text := p.name.take playerNameMaxChars
  let mem := malloc fresh (gameViewDataSize + text.length + 1)
  obtain ⟨last, hlast⟩ := strncpyBytes_name h0 playerNameMaxChars
  have hsize : mem.length = gameViewDataSize + text.length + 1 := length_malloc _ _
  have hbehind : (mem.drop (text.length + 1)).length = gameViewDataSize := by
    rw [List.length_drop, hsize]
    omega
  have hsnoc (b : UInt8) : (text ++ [b]).length = text.length + 1 := by
    rw [List.length_append, List.length_singleton]
  -- strncpy copies the text and the byte behind it
  have hname : strncpy mem 0 (p.name ++ [0]) (text.length + 1) =
      some (text ++ [last] ++ mem.drop (text.length + 1)) := by
    have hfit : (text ++ [last]).length ≤ mem.length := by
      rw [hsnoc, hsize]
      omega
    rw [strncpy, hlast, Option.bind_some, ← hsnoc last]
    exact store_after [] hfit
  -- then that byte becomes the NUL
  have hnul : store (text ++ [last] ++ mem.drop (text.length + 1)) text.length [0] =
      some (text ++ [0] ++ mem.drop (text.length + 1)) := by
    have hfit : ([0] : Bytes).length ≤ (last :: mem.drop (text.length + 1)).length := by simp
    rw [List.append_assoc]
    exact store_after text hfit
  -- and the view fills the rest of the blob
  have hcopied : store (text ++ [0] ++ mem.drop (text.length + 1)) (1 + text.length) (viewBytes view) =
      some (text ++ 0 :: viewBytes view) := by
    have hfit : (viewBytes view).length ≤ (mem.drop (text.length + 1)).length := by
      rw [hbehind, length_viewBytes]
    have hrest : (mem.drop (text.length + 1)).drop (viewBytes view).length = [] := by
      apply List.drop_of_length_le
      rw [hbehind, length_viewBytes]
    have hoff : 1 + text.length = (text ++ [0]).length := by rw [hsnoc, Nat.add_comm]
    rw [hoff, store_after _ hfit, hrest, List.append_nil, List.append_assoc]
    rfl
  rw [serializeState, hview, ok_bind]
  simp only [strnlen_name h0, access_some, ok_bind, createBlob]
  rw [hname, access_some, ok_bind, hnul, access_some, ok_bind, hcopied, access_some, ok_bind]

/-- What the client finds in the blob, all of it within the blob's length. -/
theorem readGameViewData_eq {text : Bytes} (h0 : 0 ∉ text) (hlen : text.length ≤ playerNameMaxChars)
    {view : GameViewData} : boardName (text ++ 0 :: viewBytes view) = .ok text ∧
      readGameViewData (text ++ 0 :: viewBytes view) = .ok (viewBytes view) := by
  have hbehind : (text ++ 0 :: viewBytes view).drop (text.length + 1) = viewBytes view := by
    rw [List.drop_append, List.drop_of_length_le (by omega), Nat.add_sub_cancel_left]
    rfl
  constructor
  · rw [boardName, cString_terminated h0, access_some]
  · rw [readGameViewData, strnlen_terminated h0 _ _ hlen, access_some, ok_bind, hbehind, bytesAt,
      if_pos (length_viewBytes view).ge, ← length_viewBytes view, List.take_length, access_some]

end Serialize

section Reachable

variable (randR : RandR)

theorem isInt_playable {c : ℤ} (h : playableCell c) : IsInt c := by
  rcases h with rfl | ⟨t, -, rfl⟩
  · decide
  · exact isInt_toInt t.type

/-- A drawn cell holds a block type. -/
theorem view_cells {gc : GameContents} (hi : EngineInv gc) {r : GameContents × GameViewData}
    (h : generateGameViewData gc = .ok r) (y x : ℕ) : IsInt (r.2.board.cell y x) := by
  obtain ⟨block, hd⟩ : ∃ block, dropBlock gc gc.activeBlock = .ok block := by
    obtain ⟨block, d, hd, -⟩ := dropBlock_spec gc gc.activeBlock rfl hi.activePiece
    exact ⟨block, hd⟩
  obtain ⟨view, shadowed, hview, hshadow, hactive, -⟩ := view_eq hi hd
  rw [h, Except.ok.injEq] at hview
  rw [hview]
  apply cells_of_merge hactive (isInt_toInt _)
  apply cells_of_merge hshadow (isInt_toInt _)
  intro y x
  exact isInt_playable (hi.cells y x)

/-- Of any player in a reachable game state the client reads, without leaving the blob, the
name cut to the maximum length and the view that the server has drawn: every cell and block
type, and the scores as the ints of the structure hold them. -/
theorem board_message_decodes {p : Player} (hreach : Reachable randR p.contents) (h0 : 0 ∉ p.name)
    (fresh : Fresh) : ∃ contents view blob bytes,
      generateGameViewData p.contents = .ok (contents, view) ∧
      serializeState fresh p = .ok ({ p with contents := contents }, blob) ∧
      blob.bytes.length = blob.length ∧
      boardName blob.bytes = .ok (p.name.take playerNameMaxChars) ∧
      readGameViewData blob.bytes = .ok bytes ∧ gameViewDataOf bytes = some view.stored ∧
      (IsInt view.points → IsInt view.linesCleared → gameViewDataOf bytes = some view) := by
  have hi := reachable_inv randR hreach
  obtain ⟨⟨contents, view⟩, hview⟩ := view_returns hi
  have hprefix : 0 ∉ p.name.take playerNameMaxChars := fun h => h0 (List.mem_of_mem_take h)
  obtain ⟨hname, hread⟩ := @readGameViewData_eq _ hprefix (List.length_take_le _ _) view
  have hdecoded := gameViewDataOf_viewBytes (view_cells hi hview)
  refine ⟨contents, view, _, _, hview, serializeState_eq h0 hview fresh, ?_, hname, hread, hdecoded, ?_⟩
  · simp only [List.length_append, List.length_cons, length_viewBytes]
    omega
  · intro hpoints hlines
    rw [hdecoded, GameViewData.stored, storedInt_of_isInt hpoints, storedInt_of_isInt hlines]

end Reachable

/-- The player of a new game, with a name of twenty characters. -/
def longNamed : Player := ⟨List.replicate 20 65, none, 4, newSeededGame (fun seed => (5, seed)) 0⟩

theorem board_message_decodes_long_name : ∃ contents view blob bytes,
    generateGameViewData longNamed.contents = .ok (contents, view) ∧
      serializeState (fun _ => 85) longNamed = .ok ({ longNamed with contents := contents }, blob) ∧
      boardName blob.bytes = .ok (List.replicate 15 65) ∧
      readGameViewData blob.bytes = .ok bytes ∧ gameViewDataOf bytes = some view.stored := by
  have hreach : Reachable (fun seed => (5, seed)) longNamed.contents := ⟨0, [], rfl⟩
  obtain ⟨contents, view, blob, bytes, hview, hblob, -, hname, hread, hdecoded, -⟩ :=
    board_message_decodes (fun seed => (5, seed)) hreach (by decide) (fun _ => 85)
  exact ⟨contents, view, blob, bytes, hview, hblob, hname, hread, hdecoded⟩

end TetrisMint
