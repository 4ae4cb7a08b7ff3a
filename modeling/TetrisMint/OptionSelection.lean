import TetrisMint.ComboBox

/-! `ttviz_select`, which lets the user choose from a list of options. -/
namespace TetrisMint

open Chooser FallibleRun

structure WidgetSelection where
  options : List Bytes
  numOptions : ℤ
  numSelected : ℕ
  indices : List ℤ
deriving DecidableEq

/-- The macro `UINT_TO_INT`. -/
def uintToInt (n : BitVec 32) : ℤ :=
  if n < 32767 then n.toInt else if 32768 < n then -(-n).toInt else -32768

/-- The body of the loop that counts the selected options. -/
def countOption (selected : List ℤ) (count i : ℕ) : Except Fault ℕ := do
  let value ← access selected[i]?
  .ok (if value = 1 then count + 1 else count)

/-- The body of the loop that stores their indices, `j` so far. -/
def storeOption (selected : List ℤ) (stored : ℕ × List ℤ) (i : ℕ) :
    Except Fault (ℕ × List ℤ) := do
  let (j, indices) := stored
  let value ← access selected[i]?
  if value = 1 then
    if j < indices.length then .ok (j + 1, indices.set j i) else .error .outOfBounds
  else .ok (j, indices)

/-- One turn of the key loop of `ttviz_select`. -/
def selectKey (isSingleSelection : Bool) (s : CursesCombobox × List DrawnOption) (ch : ℤ) :
    Except Fault (CursesCombobox × List DrawnOption) :=
  if isSingleSelection ∧ ch = 32 then .ok s else feedAndDraw s ch

/-- The selection once the user has confirmed it with a newline; `none` where the
program exits. -/
def ttvizSelect (options : List Bytes) (numOptions : ℤ) (isSingleSelection : Bool)
    (chs : List ℤ) : Except Fault (Option WidgetSelection) :=
  match cursesComboboxCreate 7 20 5 1 options (BitVec.ofInt 32 numOptions) with
  | none => .ok none
  | some entry => do
    let s ← cursesComboboxVirtualRefresh entry
    let (entry, _) ← run (selectKey isSingleSelection) s (chs.takeWhile (· ≠ 10))
    if isSingleSelection then
      .ok (some ⟨options, numOptions, 1, [uintToInt entry.cursorPosition]⟩)
    else do
      let numSelected ← run (countOption entry.isOptionSelected) 0 (List.range numOptions.toNat)
      let (_, indices) ← run (storeOption entry.isOptionSelected)
        (0, List.replicate numSelected 0) (List.range numOptions.toNat)
      .ok (some ⟨options, numOptions, numSelected, indices⟩)

/-- How often the option `i` is toggled: the space bar is pressed with the cursor on it. -/
def timesToggled (i : ℕ) : CursesCombobox → List ℤ → ℕ
  | _, [] => 0
  | entry, input :: inputs =>
    (if input = 32 ∧ entry.cursorPosition.toNat = i then 1 else 0) +
      match cursesComboboxFeed entry input with
      | .ok entry => timesToggled i entry inputs
      | .error _ => 0

section Passes

variable {selected : List ℤ} {p : ℕ → Bool} {n : ℕ}

/-- The first `n` options that are selected, in order. -/
def chosen (p : ℕ → Bool) (n : ℕ) : List ℕ := (List.range n).filter p

theorem chosen_succ (p : ℕ → Bool) (i : ℕ) :
    chosen p (i + 1) = chosen p i ++ if p i then [i] else [] := by
  rw [chosen, chosen, List.range_succ, List.filter_append]
  cases hp : p i
  · rw [List.filter_singleton, hp]
    rfl
  · rw [List.filter_singleton, hp]
    rfl

theorem mem_chosen {i : ℕ} : i ∈ chosen p n ↔ i < n ∧ p i = true := by
  rw [chosen, List.mem_filter, List.mem_range]

theorem pairwise_chosen (p : ℕ → Bool) (n : ℕ) : (chosen p n).Pairwise (· < ·) :=
  List.pairwise_lt_range.filter p

theorem length_chosen_le {i : ℕ} (hi : i ≤ n) : (chosen p i).length ≤ (chosen p n).length :=
  ((List.range_sublist.mpr hi).filter p).length_le

theorem flag_eq_one (b : Bool) : flag b = 1 ↔ b = true := by
  cases b
  · simp [flag]
  · simp [flag]

theorem run_countOption (h : ∀ i < n, selected[i]? = some (flag (p i))) :
    run (countOption selected) 0 (List.range n) = .ok (chosen p n).length := by
  obtain ⟨t, ht, rfl⟩ : ∃ t, run (countOption selected) 0 (List.range n) = .ok t ∧
      t = (chosen p n).length := by
    -- after `i` turns the selected ones among the first `i` options are counted
    apply @run_range _ _ _ (fun i count => count = (chosen p i).length)
    · intro i hi count hcount
      refine ⟨_, by rw [countOption, h i hi, access_some, ok_bind], ?_⟩
      simp only [flag_eq_one]
      rw [hcount, chosen_succ, List.length_append]
      cases p i
      · rfl
      · rfl
    · rfl
  exact ht

/-- The array of the second pass after `i` turns: the indices found so far, then zeros. -/
def storedIndices (p : ℕ → Bool) (n i : ℕ) : List ℤ :=
  (chosen p i).map Nat.cast ++ List.replicate ((chosen p n).length - (chosen p i).length) 0

theorem length_storedIndices {i : ℕ} (hi : i ≤ n) :
    (storedIndices p n i).length = (chosen p n).length := by
  have hle := @length_chosen_le p n i hi
  rw [storedIndices, List.length_append, List.length_map, List.length_replicate]
  omega

theorem storeOption_eq (h : ∀ i < n, selected[i]? = some (flag (p i))) {i : ℕ} (hi : i < n) :
    storeOption selected ((chosen p i).length, storedIndices p n i) i =
      .ok ((chosen p (i + 1)).length, storedIndices p n (i + 1)) := by
  have hle := @length_chosen_le p n (i + 1) hi
  have hlength := @length_storedIndices p n i hi.le
  simp only [storeOption, h i hi, access_some, ok_bind, flag_eq_one]
  cases hp : p i with
  | false =>
    rw [if_neg Bool.false_ne_true, storedIndices, storedIndices, chosen_succ, hp,
      if_neg Bool.false_ne_true, List.append_nil]
  | true =>
    have hsucc : chosen p (i + 1) = chosen p i ++ [i] := by rw [chosen_succ, hp, if_pos rfl]
    rw [hsucc, List.length_append, List.length_singleton] at hle
    -- the array has room for one more index, and it goes in behind the others
    have hgap : (chosen p n).length - (chosen p i).length =
        (chosen p n).length - ((chosen p i).length + 1) + 1 := by
      omega
    rw [if_pos rfl, if_pos (by omega), storedIndices, storedIndices, hsucc, hgap,
      List.replicate_succ, List.set_append_right _ _ (by rw [List.length_map]), List.length_map,
      Nat.sub_self, List.set_cons_zero, List.length_append, List.length_singleton, List.map_append,
      List.append_assoc]
    rfl

/-- The second pass fills the array that the first one has measured. -/
theorem run_storeOption (h : ∀ i < n, selected[i]? = some (flag (p i))) :
    run (storeOption selected) (0, List.replicate (chosen p n).length 0) (List.range n) =
      .ok ((chosen p n).length, (chosen p n).map Nat.cast) := by
  have hfull : storedIndices p n n = (chosen p n).map Nat.cast := by
    rw [storedIndices, Nat.sub_self, List.replicate_zero, List.append_nil]
  obtain ⟨t, ht, rfl⟩ : ∃ t, run (storeOption selected) (0, storedIndices p n 0) (List.range n) =
      .ok t ∧ t = ((chosen p n).length, storedIndices p n n) := by
    apply @run_range _ _ _ (fun i t => t = ((chosen p i).length, storedIndices p n i))
    · intro i hi t ht
      rw [ht]
      exact ⟨_, storeOption_eq h hi, rfl⟩
    · rfl
  rw [hfull] at ht
  exact ht

end Passes

section Selection

variable {n : ℕ}

/-- The marks of a choice by the index of the option. -/
def isMarked (c : Choice n) (i : ℕ) : Bool := if h : i < n then c.marked ⟨i, h⟩ else false

theorem moveOf_eq_toggle (input : ℤ) : moveOf input = some .toggle ↔ input = 32 := by
  unfold moveOf keyLeft keyUp keyRight keyDown
  -- the key codes of the cursor keys are other numbers
  split_ifs with hback hforward htoggle
  · simp only [Option.some.injEq, reduceCtorEq, false_iff]
    omega
  · simp only [Option.some.injEq, reduceCtorEq, false_iff]
    omega
  · exact ⟨fun _ => htoggle, fun _ => rfl⟩
  · exact ⟨fun h => absurd h (by simp), fun h => absurd h htoggle⟩

/-- The code toggles an option as often as the choice does. -/
theorem timesToggled_eq {entry : CursesCombobox} {c : Choice n} (h : ShowsChoice entry c)
    (inputs : List ℤ) {i : ℕ} (hi : i < n) :
    timesToggled i entry inputs = Choice.toggles ⟨i, hi⟩ c (inputs.filterMap moveOf) := by
  induction inputs generalizing entry c with
  | nil => rfl
  | cons input inputs ih =>
    obtain ⟨fed, hfed, hchoice, -⟩ := feed_choice h input
    have hunder : entry.cursorPosition.toNat = i ↔ c.cursor = ⟨i, hi⟩ := by
      rw [h.cursorPosition, Fin.ext_iff]
    simp only [timesToggled, hfed, ih hchoice, hunder, List.filterMap_cons, chooseKey,
      ← moveOf_eq_toggle]
    cases moveOf input with
    | none => simp
    | some m => simp [Choice.toggles]

/-- From no mark at all, an option ends up marked when it is toggled an odd number of times. -/
theorem isMarked_foldl {entry : CursesCombobox} {hn : 0 < n}
    (h : ShowsChoice entry (Choice.start hn)) (inputs : List ℤ) {k : ℕ} (hk : k < n) :
    isMarked (inputs.foldl chooseKey (Choice.start hn)) k = true ↔
      Odd (timesToggled k entry inputs) := by
  rw [isMarked, dif_pos hk, foldl_chooseKey, Choice.marked_moves, timesToggled_eq h inputs hk]
  show (false ^^ decide _) = true ↔ _
  rw [Bool.false_xor, decide_eq_true_iff]

theorem ttvizSelect_eq {options : List Bytes} (hn : 0 < options.length)
    (hint : options.length < 2 ^ 31) (chs : List ℤ) :
    ∃ entry, cursesComboboxCreate 7 20 5 1 options (BitVec.ofNat 32 options.length) = some entry ∧
      ShowsChoice entry (Choice.start hn) ∧
      ttvizSelect options options.length false chs =
        let c := (chs.takeWhile (· ≠ 10)).foldl chooseKey (Choice.start hn)
        .ok (some ⟨options, options.length, (chosen (isMarked c) options.length).length,
          (chosen (isMarked c) options.length).map Nat.cast⟩) := by
  have hsize : (BitVec.ofNat 32 options.length).toNat = options.length := by
    rw [BitVec.toNat_ofNat]
    omega
  have hkeys : selectKey false = feedAndDraw := by
    funext s ch
    rw [selectKey, if_neg fun h => Bool.false_ne_true h.1]
  obtain ⟨entry, hcreate, hchoice, hheight⟩ :=
    @create_choice options.length 7 20 5 1 options _ (by decide) (by decide) hsize rfl hn
  have hlines : IsInt entry.height ∧ 3 ≤ entry.height := by
    rw [hheight]
    decide
  obtain ⟨s, hs, hsChoice, hsHeight, hsShown, -⟩ := refresh_shows hchoice hlines.1 hlines.2
  obtain ⟨t, ht, htChoice, -⟩ := run_feedAndDraw hsChoice (hsHeight ▸ hlines.1)
    (hsHeight ▸ hlines.2) hsShown (chs.takeWhile (· ≠ 10))
  -- the flags of the widget are the marks of the choice
  have hflags : ∀ i < options.length, t.1.isOptionSelected[i]? = some (flag (isMarked
      ((chs.takeWhile (· ≠ 10)).foldl chooseKey (Choice.start hn)) i)) := by
    intro i hi
    rw [htChoice.selected hi, isMarked, dif_pos hi]
  refine ⟨entry, hcreate, hchoice, ?_⟩
  rw [ttvizSelect, BitVec.ofInt_natCast, hcreate]
  simp only [hs, ok_bind, hkeys, ht, Bool.false_eq_true, ↓reduceIte, Int.toNat_natCast,
    run_countOption hflags, run_storeOption hflags]

end Selection

/-- From the first refresh on the cursor is on an option that is drawn, and a selection of
several options returns those that were toggled an odd number of times, in order. -/
theorem combobox_selection (options : List Bytes) (hcount : 1 ≤ options.length) :
    (∀ (height width starty startx : ℤ) (inputs : List ℤ),
      options.length < 2 ^ 32 → IsInt height → 3 ≤ height → 3 ≤ width →
      ∃ entry start, cursesComboboxCreate height width starty startx options
          (BitVec.ofNat 32 options.length) = some entry ∧
        cursesComboboxVirtualRefresh entry = .ok start ∧
        (∃ t, run feedAndDraw start inputs = .ok t) ∧
        ∀ t, Visits feedAndDraw start inputs t →
          t.1.optionCount.toNat = options.length ∧ t.1.height = height ∧ CursorShown t) ∧
    (options.length < 2 ^ 31 → ∀ chs : List ℤ, ∃ entry selection,
      cursesComboboxCreate 7 20 5 1 options (BitVec.ofNat 32 options.length) = some entry ∧
      ttvizSelect options options.length false chs = .ok (some selection) ∧
      selection.numSelected = selection.indices.length ∧ selection.indices.Pairwise (· < ·) ∧
      ∀ i : ℤ, i ∈ selection.indices ↔ ∃ k < options.length, i = k ∧
        Odd (timesToggled k entry (chs.takeWhile (· ≠ 10)))) := by
  constructor
  · intro height width starty startx inputs hmax hint hheight hwidth
    have hsize : (BitVec.ofNat 32 options.length).toNat = options.length := by
      rw [BitVec.toNat_ofNat]
      exact Nat.mod_eq_of_lt hmax
    obtain ⟨entry, hcreate, hchoice, rfl⟩ :=
      @create_choice options.length height width starty startx options _ hheight hwidth hsize rfl
        hcount
    obtain ⟨start, hstart, hsChoice, hsHeight, hsShown, -⟩ := refresh_shows hchoice hint hheight
    have hrun := run_feedAndDraw hsChoice (hsHeight ▸ hint) (hsHeight ▸ hheight) hsShown
    -- a state that is visited is the end of a shorter run
    refine ⟨entry, start, hcreate, hstart, ?_, ?_⟩
    · obtain ⟨t, ht, -⟩ := hrun inputs
      exact ⟨t, ht⟩
    · rintro t ⟨pre, -, hpre⟩
      obtain ⟨t', ht', htChoice, htHeight, htShown⟩ := hrun pre
      rw [hpre, Except.ok.injEq] at ht'
      subst ht'
      exact ⟨htChoice.optionCount, htHeight.trans hsHeight, htShown⟩
  · intro hmax chs
    obtain ⟨entry, hcreate, hchoice, hselect⟩ := ttvizSelect_eq hcount hmax chs
    refine ⟨entry, _, hcreate, hselect, (List.length_map _).symm, ?_, ?_⟩
    · apply List.pairwise_map.mpr
      exact (pairwise_chosen _ _).imp Nat.cast_lt.mpr
    · intro i
      simp only [List.mem_map, mem_chosen]
      constructor
      · rintro ⟨k, ⟨hk, hmarked⟩, rfl⟩
        exact ⟨k, hk, rfl, (isMarked_foldl hchoice _ hk).mp hmarked⟩
      · rintro ⟨k, hk, rfl, hodd⟩
        exact ⟨k, ⟨hk, (isMarked_foldl hchoice _ hk).mpr hodd⟩, rfl⟩

/-- Three options, of which the third is toggled once and the second twice. -/
theorem combobox_selection_third :
    (∃ entry start, cursesComboboxCreate 3 8 0 0 [[65], [66], [67]] 3 = some entry ∧
      cursesComboboxVirtualRefresh entry = .ok start ∧
      ∀ t, Visits feedAndDraw start [keyDown, keyDown, keyDown] t → CursorShown t) ∧
    ∃ selection, ttvizSelect [[65], [66], [67]] 3 false
        [keyDown, 32, keyDown, 32, keyUp, 32, 10] = .ok (some selection) ∧
      selection.indices.Pairwise (· < ·) := by
  obtain ⟨hscroll, hselect⟩ := combobox_selection [[65], [66], [67]] (by decide)
  obtain ⟨entry, start, hcreate, hstart, -, hvisits⟩ := hscroll 3 8 0 0
    [keyDown, keyDown, keyDown] (by decide) (by decide) (by decide) (by decide)
  obtain ⟨-, selection, -, hselection, -, hsorted, -⟩ := hselect (by decide)
    [keyDown, 32, keyDown, 32, keyUp, 32, 10]
  exact ⟨⟨entry, start, hcreate, hstart, fun t ht => (hvisits t ht).2.2⟩, selection, hselection,
    hsorted⟩

end TetrisMint
