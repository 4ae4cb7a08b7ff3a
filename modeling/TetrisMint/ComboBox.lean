import TetrisMint.Chooser
import TetrisMint.TextField

/-! The list of options of `curses_combobox.c`. The cursor and the first option that is
shown are unsigned, the height of the widget is not. -/
namespace TetrisMint

open Chooser FallibleRun

/-- The key codes of curses. -/
def keyDown : ℤ := 258
def keyUp : ℤ := 259

/-- `window` tells whether the window of the widget exists. -/
structure CursesCombobox where
  window : Bool
  height : ℤ
  width : ℤ
  starty : ℤ
  startx : ℤ
  firstShownOption : BitVec 32
  cursorPosition : BitVec 32
  options : List Bytes
  optionCount : BitVec 32
  isOptionSelected : List ℤ
deriving DecidableEq

/-- One line of the widget: the option `index` with its mark, at a row of the window. -/
structure DrawnOption where
  row : ℤ
  index : BitVec 32
  mark : UInt8
  text : Bytes
  standout : Bool
deriving DecidableEq

/-- The widget that a successful call leaves. -/
def cursesComboboxCreate (height width starty startx : ℤ) (options : List Bytes)
    (optionCount : BitVec 32) : Option CursesCombobox :=
  if height < 3 ∨ width < 3 then none
  else some {
    window := false
    height := height
    width := width
    starty := starty
    startx := startx
    firstShownOption := 0
    cursorPosition := 0
    options := options
    optionCount := optionCount
    isOptionSelected := List.replicate optionCount.toNat 0 }

/-- The first option shown by a refresh. The height is converted for these sums. -/
def scrollToCursor (entry : CursesCombobox) : BitVec 32 :=
  let height := BitVec.ofInt 32 entry.height
  -- the sum may wrap, and then the cursor is taken to be behind the last line
  if entry.cursorPosition < entry.firstShownOption then entry.cursorPosition
  else if entry.firstShownOption + height - 3 < entry.cursorPosition then
    entry.cursorPosition - height + 3
  else entry.firstShownOption

/-- The body of the loop that draws: option `j` at row `i` inside of the border. -/
def drawOption (entry : CursesCombobox) (i : ℤ) (j : BitVec 32) : Except Fault DrawnOption := do
  let selected ← access entry.isOptionSelected[j.toNat]?
  let text ← access entry.options[j.toNat]?
  .ok {
    row := 1 + i
    index := j
    mark := if selected ≠ 0 then 42 else 32
    text := text
    standout := entry.cursorPosition = j }

/-- The loop, from option `j` and row `i` on. -/
def drawOptions (entry : CursesCombobox) : ℕ → ℤ → BitVec 32 → Except Fault (List DrawnOption)
  | 0, _, _ => .error .nonterminating
  | fuel + 1, i, j =>
    if j < entry.optionCount ∧ i < entry.height - 2 then do
      let drawn ← drawOption entry i j
      let below ← drawOptions entry fuel (i + 1) (j + 1)
      .ok (drawn :: below)
    else .ok []

/-- The widget with its window, and the options that it shows. -/
def cursesComboboxVirtualRefresh (entry : CursesCombobox) :
    Except Fault (CursesCombobox × List DrawnOption) := do
  let entry := { entry with
    window := true
    firstShownOption := scrollToCursor entry }
  let drawn ← drawOptions entry entry.height.toNat 0 entry.firstShownOption
  .ok (entry, drawn)

def cursesComboboxFeed (entry : CursesCombobox) (input : ℤ) : Except Fault CursesCombobox :=
  if input = keyLeft ∨ input = keyUp then
    .ok { entry with
      cursorPosition :=
        if entry.cursorPosition = 0 then entry.cursorPosition else entry.cursorPosition - 1 }
  else if input = keyRight ∨ input = keyDown then
    .ok { entry with
      cursorPosition :=
        if entry.cursorPosition < entry.optionCount - 1 then entry.cursorPosition + 1
        else entry.cursorPosition }
  else if input = 32 then do
    -- FALSE becomes TRUE, and everything else FALSE
    let selected ← access entry.isOptionSelected[entry.cursorPosition.toNat]?
    .ok { entry with
      isOptionSelected := entry.isOptionSelected.set entry.cursorPosition.toNat
        (if selected = 0 then 1 else 0) }
  else .ok entry

/-- One key and the refresh that follows it, for the widget and what it shows. -/
def feedAndDraw (s : CursesCombobox × List DrawnOption) (input : ℤ) :
    Except Fault (CursesCombobox × List DrawnOption) := do
  let entry ← cursesComboboxFeed s.1 input
  cursesComboboxVirtualRefresh entry

section Scrolling

variable {entry : CursesCombobox}

/-- The height as an unsigned summand. -/
theorem toNat_ofInt_height {height : ℤ} (hint : IsInt height) (hpos : 0 ≤ height) :
    (BitVec.ofInt 32 height).toNat = height.toNat := by
  rw [BitVec.toNat_ofInt]
  have hmod : height % (2 ^ 32 : ℕ) = height := by
    apply Int.emod_eq_of_lt hpos
    have := hint.2
    omega
  rw [hmod]

/-- After a refresh the cursor is one of the `height - 2` options from the first shown one
on. Where the sum of the comparison wraps, the cursor counts as below the window; it is
then larger than any height, so the difference does not wrap. -/
theorem scrollToCursor_bounds (hint : IsInt entry.height) (hheight : 3 ≤ entry.height) :
    (scrollToCursor entry).toNat ≤ entry.cursorPosition.toNat ∧
      entry.cursorPosition.toNat < (scrollToCursor entry).toNat + (entry.height - 2).toNat := by
  have hlt := hint.2
  have hofInt := toNat_ofInt_height hint (by omega)
  simp only [scrollToCursor]
  generalize BitVec.ofInt 32 entry.height = height at *
  split_ifs with habove hbelow
  · -- the cursor is on the first line
    omega
  · -- the cursor is on the last line, also where the sum has wrapped
    have hlast : (entry.cursorPosition - height + 3).toNat =
        entry.cursorPosition.toNat - (entry.height.toNat - 3) := by
      bv_omega
    rw [hlast]
    omega
  · -- nothing has wrapped and the cursor is between the two
    bv_omega

end Scrolling

/-- TRUE and FALSE. -/
def flag (b : Bool) : ℤ := if b then 1 else 0

/-- The widget shows a choice: the cursor is the same, and the marked options are selected. -/
structure ShowsChoice {n : ℕ} (entry : CursesCombobox) (c : Choice n) : Prop where
  cursorPosition : entry.cursorPosition.toNat = c.cursor
  optionCount : entry.optionCount.toNat = n
  options : entry.options.length = n
  isOptionSelected : entry.isOptionSelected = List.ofFn fun i => flag (c.marked i)

/-- What a key does to the choice. -/
def moveOf (input : ℤ) : Option Move :=
  if input = keyLeft ∨ input = keyUp then some .back
  else if input = keyRight ∨ input = keyDown then some .forward
  else if input = 32 then some .toggle
  else none

def chooseKey {n : ℕ} (c : Choice n) (input : ℤ) : Choice n := (moveOf input).elim c c.move

section Keys

variable {n : ℕ} {entry : CursesCombobox} {c : Choice n}

theorem ShowsChoice.selected (h : ShowsChoice entry c) {i : ℕ} (hi : i < n) :
    entry.isOptionSelected[i]? = some (flag (c.marked ⟨i, hi⟩)) := by
  rw [h.isOptionSelected, List.getElem?_ofFn, dif_pos hi]

theorem ShowsChoice.under (h : ShowsChoice entry c) :
    entry.isOptionSelected[entry.cursorPosition.toNat]? = some (flag (c.marked c.cursor)) := by
  rw [h.cursorPosition]
  exact h.selected c.cursor.isLt

/-- Toggling the selected value under the cursor toggles the mark. -/
theorem ShowsChoice.toggle (h : ShowsChoice entry c) {selected : ℤ}
    (hselected : entry.isOptionSelected[entry.cursorPosition.toNat]? = some selected) :
    ShowsChoice { entry with
      isOptionSelected := entry.isOptionSelected.set entry.cursorPosition.toNat
        (if selected = 0 then 1 else 0) } (c.move .toggle) := by
  refine ⟨h.cursorPosition, h.optionCount, h.options, ?_⟩
  rw [h.under, Option.some.injEq] at hselected
  have hflip : (if selected = 0 then (1 : ℤ) else 0) = flag (!c.marked c.cursor) := by
    rw [← hselected]
    cases c.marked c.cursor
    · rfl
    · rfl
  -- flag by flag: the one under the cursor, and the others
  apply List.ext_getElem?
  intro i
  simp only [h.cursorPosition, h.isOptionSelected, hflip, List.getElem?_set, List.length_ofFn,
    List.getElem?_ofFn, Choice.marked_move]
  by_cases hi : (c.cursor : ℕ) = i
  · subst hi
    simp only [↓reduceIte, c.cursor.isLt, ↓reduceDIte, Fin.eta, and_self, decide_true,
      Bool.xor_true]
  · have hne (hlt : i < n) : ¬c.cursor = ⟨i, hlt⟩ := fun heq => hi (congrArg Fin.val heq)
    simp only [if_neg hi, hne, and_false, decide_false, Bool.xor_false]

/-- The cursor stops at the first option. -/
theorem ShowsChoice.back (h : ShowsChoice entry c) :
    ShowsChoice { entry with
      cursorPosition :=
        if entry.cursorPosition = 0 then entry.cursorPosition else entry.cursorPosition - 1 }
      (c.move .back) := by
  have hcursor := h.cursorPosition
  refine ⟨?_, h.optionCount, h.options, h.isOptionSelected⟩
  show (ite _ _ _ : BitVec 32).toNat = (c.cursor : ℕ) - 1
  split_ifs
  · bv_omega
  · bv_omega

/-- The cursor stops at the last option: with at least one option `option_count - 1` does
not wrap. -/
theorem ShowsChoice.forward (h : ShowsChoice entry c) :
    ShowsChoice { entry with
      cursorPosition :=
        if entry.cursorPosition < entry.optionCount - 1 then entry.cursorPosition + 1
        else entry.cursorPosition } (c.move .forward) := by
  have hcursor := h.cursorPosition
  have hcount := h.optionCount
  have hlt := c.cursor.isLt
  have hlast : entry.cursorPosition < entry.optionCount - 1 ↔ (c.cursor : ℕ) + 1 < n := by bv_omega
  -- in unsigned terms the test is the one for a next option
  by_cases hend : (c.cursor : ℕ) + 1 < n
  · rw [show c.move .forward = { c with cursor := ⟨c.cursor + 1, hend⟩ } from dif_pos hend]
    refine ⟨?_, hcount, h.options, h.isOptionSelected⟩
    show (ite _ _ _ : BitVec 32).toNat = (c.cursor : ℕ) + 1
    rw [if_pos (hlast.mpr hend)]
    bv_omega
  · rw [show c.move .forward = c from dif_neg hend]
    refine ⟨?_, hcount, h.options, h.isOptionSelected⟩
    show (ite _ _ _ : BitVec 32).toNat = c.cursor
    rw [if_neg (hlast.not.mpr hend), hcursor]

/-- Every key is one move of the choice, or none. -/
theorem feed_choice (h : ShowsChoice entry c) (input : ℤ) :
    ∃ fed, cursesComboboxFeed entry input = .ok fed ∧ ShowsChoice fed (chooseKey c input) ∧
      fed.height = entry.height := by
  unfold cursesComboboxFeed chooseKey moveOf
  by_cases hback : input = keyLeft ∨ input = keyUp
  · rw [if_pos hback, if_pos hback]
    exact ⟨_, rfl, h.back, rfl⟩
  rw [if_neg hback, if_neg hback]
  by_cases hforward : input = keyRight ∨ input = keyDown
  · rw [if_pos hforward, if_pos hforward]
    exact ⟨_, rfl, h.forward, rfl⟩
  rw [if_neg hforward, if_neg hforward]
  by_cases htoggle : input = 32
  · rw [if_pos htoggle, if_pos htoggle]
    exact ⟨_, by rw [h.under, access_some, ok_bind], h.toggle h.under, rfl⟩
  · rw [if_neg htoggle, if_neg htoggle]
    exact ⟨entry, rfl, h, rfl⟩

end Keys

/-- A line shows its option as it is in the choice. -/
structure DrawnOption.Shows {n : ℕ} (o : DrawnOption) (entry : CursesCombobox) (c : Choice n) :
    Prop where
  index_lt : o.index.toNat < n
  mark : o.mark = if c.marked ⟨o.index.toNat, index_lt⟩ then 42 else 32
  text : entry.options[o.index.toNat]? = some o.text
  standout : o.standout = true ↔ o.index = entry.cursorPosition

/-- After a refresh: the cursor is on an option, the option is among those that are drawn,
where it is highlighted, and nothing else is drawn than options. -/
structure CursorShown (s : CursesCombobox × List DrawnOption) : Prop where
  cursor_lt : s.1.cursorPosition < s.1.optionCount
  first_le : s.1.firstShownOption ≤ s.1.cursorPosition
  cursor_le : (s.1.cursorPosition.toNat : ℤ) ≤ s.1.firstShownOption.toNat + s.1.height - 3
  highlighted : ∃ o ∈ s.2, o.index = s.1.cursorPosition ∧ o.standout = true
  drawn_lt : ∀ o ∈ s.2, o.index < s.1.optionCount

section Drawing

variable {n : ℕ} {entry : CursesCombobox} {c : Choice n}

theorem drawOption_shows (h : ShowsChoice entry c) (i : ℤ) {j : BitVec 32} (hj : j.toNat < n) :
    ∃ o, drawOption entry i j = .ok o ∧ o.index = j ∧ o.Shows entry c := by
  obtain ⟨text, htext⟩ : ∃ text, entry.options[j.toNat]? = some text := by
    rw [← h.options] at hj
    exact ⟨_, List.getElem?_eq_getElem hj⟩
  refine ⟨_, by rw [drawOption, h.selected hj, access_some, ok_bind, htext, access_some, ok_bind],
    rfl, hj, ?_, htext, ?_⟩
  · cases c.marked ⟨j.toNat, hj⟩
    · rfl
    · rfl
  · rw [decide_eq_true_iff]
    exact eq_comm

/-- The loop draws one option after the other, until the options or the lines are used up. -/
theorem drawOptions_eq (h : ShowsChoice entry c) {fuel : ℕ} {i : ℤ} {j : BitVec 32}
    (hfuel : (entry.height - 2 - i).toNat < fuel) :
    ∃ drawn, drawOptions entry fuel i j = .ok drawn ∧
      drawn.map (fun o => o.index.toNat) =
        List.range' j.toNat (min (n - j.toNat) (entry.height - 2 - i).toNat) ∧
      ∀ o ∈ drawn, o.Shows entry c := by
  -- the fuel is above the number of lines that are left
  induction fuel generalizing i j with
  | zero => exact absurd hfuel (Nat.not_lt_zero _)
  | succ fuel ih =>
    have hcount := h.optionCount
    by_cases hmore : j < entry.optionCount ∧ i < entry.height - 2
    · have hj : j.toNat < n := by bv_omega
      have hnext : (j + 1).toNat = j.toNat + 1 := by bv_omega
      have hlines : min (n - j.toNat) (entry.height - 2 - i).toNat =
          min (n - (j.toNat + 1)) (entry.height - 2 - (i + 1)).toNat + 1 := by
        omega
      obtain ⟨o, ho, hindex, hshow⟩ := drawOption_shows h i hj
      obtain ⟨below, hbelow, hindices, hshows⟩ := @ih (i + 1) (j + 1) (by omega)
      refine ⟨o :: below, ?_, ?_, List.forall_mem_cons.mpr ⟨hshow, hshows⟩⟩
      · rw [drawOptions, if_pos hmore, ho, ok_bind, hbelow, ok_bind]
      · rw [List.map_cons, hindices, hnext, hindex, hlines, List.range'_succ]
    · have hnone : min (n - j.toNat) (entry.height - 2 - i).toNat = 0 := by
        rcases not_and_or.mp hmore with hj | hi
        · bv_omega
        · omega
      refine ⟨[], ?_, ?_, ?_⟩
      · rw [drawOptions, if_neg hmore]
      · rw [hnone]
        rfl
      · exact fun o ho => absurd ho List.not_mem_nil

/-- The refresh repairs the scroll offset and leaves the choice as it is. -/
theorem refresh_shows (h : ShowsChoice entry c) (hint : IsInt entry.height)
    (hheight : 3 ≤ entry.height) :
    ∃ t, cursesComboboxVirtualRefresh entry = .ok t ∧ ShowsChoice t.1 c ∧
      t.1.height = entry.height ∧ CursorShown t ∧ ∀ o ∈ t.2, o.Shows t.1 c := by
  let scrolled : CursesCombobox := { entry with
    window := true
    firstShownOption := scrollToCursor entry }
  have hscrolled : ShowsChoice scrolled c :=
    ⟨h.cursorPosition, h.optionCount, h.options, h.isOptionSelected⟩
  obtain ⟨hfirst, hlast⟩ := scrollToCursor_bounds hint hheight
  have hcursor := h.cursorPosition
  have hcount := h.optionCount
  have hlt := c.cursor.isLt
  -- the options are drawn from the scroll offset on, down to the lower border
  obtain ⟨drawn, hdrawn, hindices, hshows⟩ := @drawOptions_eq n scrolled c hscrolled
    entry.height.toNat 0 (scrollToCursor entry) (by show (entry.height - 2 - 0).toNat < _; omega)
  refine ⟨(scrolled, drawn), ?_, hscrolled, rfl, ⟨?_, hfirst, ?_, ?_, ?_⟩, hshows⟩
  · rw [cursesComboboxVirtualRefresh]
    exact congrArg (· >>= _) hdrawn
  · -- the refresh does not touch the cursor
    show entry.cursorPosition < entry.optionCount
    bv_omega
  · show (entry.cursorPosition.toNat : ℤ) ≤ (scrollToCursor entry).toNat + entry.height - 3
    omega
  · -- the cursor is one of the indices that the loop went through
    have hmem : entry.cursorPosition.toNat ∈ drawn.map fun o => o.index.toNat := by
      rw [hindices, List.mem_range'_1]
      show _ ∧ _ < _ + min _ (entry.height - 2 - 0).toNat
      omega
    obtain ⟨o, ho, hindex⟩ := List.mem_map.mp hmem
    have heq : o.index = entry.cursorPosition := BitVec.eq_of_toNat_eq hindex
    exact ⟨o, ho, heq, (hshows o ho).standout.mpr heq⟩
  · intro o ho
    have hlt := (hshows o ho).index_lt
    show o.index < entry.optionCount
    bv_omega

end Drawing

section Runs

variable {n : ℕ} {c : Choice n}

theorem create_choice {height width starty startx : ℤ} {options : List Bytes}
    {optionCount : BitVec 32} (hheight : 3 ≤ height) (hwidth : 3 ≤ width)
    (hcount : optionCount.toNat = n) (hoptions : options.length = n) (hn : 0 < n) :
    ∃ entry, cursesComboboxCreate height width starty startx options optionCount = some entry ∧
      ShowsChoice entry (Choice.start hn) ∧ entry.height = height := by
  refine ⟨_, if_neg (by omega), ⟨rfl, hcount, hoptions, ?_⟩, rfl⟩
  show List.replicate optionCount.toNat 0 = List.ofFn fun _ => flag false
  rw [List.ofFn_const, hcount]
  rfl

theorem feedAndDraw_shows {s : CursesCombobox × List DrawnOption} (h : ShowsChoice s.1 c)
    (hint : IsInt s.1.height) (hheight : 3 ≤ s.1.height) (input : ℤ) :
    ∃ t, feedAndDraw s input = .ok t ∧ ShowsChoice t.1 (chooseKey c input) ∧
      t.1.height = s.1.height ∧ CursorShown t := by
  obtain ⟨fed, hfed, hchoice, hfedHeight⟩ := feed_choice h input
  rw [← hfedHeight] at hint hheight
  obtain ⟨t, ht, hshows, htHeight, hcursor, -⟩ := refresh_shows hchoice hint hheight
  refine ⟨t, ?_, hshows, htHeight.trans hfedHeight, hcursor⟩
  rw [feedAndDraw, hfed, ok_bind, ht]

/-- The keys are the moves of the choice, one after the other. -/
theorem foldl_chooseKey (c : Choice n) (inputs : List ℤ) :
    inputs.foldl chooseKey c = (inputs.filterMap moveOf).foldl Choice.move c := by
  induction inputs generalizing c with
  | nil => rfl
  | cons input inputs ih =>
    rw [List.foldl_cons, ih, chooseKey, List.filterMap_cons]
    cases moveOf input with
    | none => rfl
    | some m => rfl

theorem run_feedAndDraw {s : CursesCombobox × List DrawnOption} (h : ShowsChoice s.1 c)
    (hint : IsInt s.1.height) (hheight : 3 ≤ s.1.height) (hcursor : CursorShown s)
    (inputs : List ℤ) :
    ∃ t, run feedAndDraw s inputs = .ok t ∧ ShowsChoice t.1 (inputs.foldl chooseKey c) ∧
      t.1.height = s.1.height ∧ CursorShown t := by
  induction inputs generalizing s c with
  | nil => exact ⟨s, rfl, h, rfl, hcursor⟩
  | cons input inputs ih =>
    obtain ⟨u, hu, hchoice, hfed, hshown⟩ := feedAndDraw_shows h hint hheight input
    obtain ⟨t, ht, hfinal, hkept, htshown⟩ := ih hchoice (hfed ▸ hint) (hfed ▸ hheight) hshown
    exact ⟨t, by rw [run_cons_ok _ _ hu, ht], hfinal, hkept.trans hfed, htshown⟩

end Runs

end TetrisMint
