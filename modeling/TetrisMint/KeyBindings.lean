import TetrisMint.ComboBox
import TetrisMint.Controls

/-! The key bindings of a game: `edit_keybindings` of `widgets.c`, where the user changes them, and
what a key that is pressed in a game stands for. -/
namespace TetrisMint

open Chooser FallibleRun

def defaultKeybindings : ControlKeybindings where
  hardDrop := 119
  softDrop := 115
  translateLeft := 97
  translateRight := 100
  rotateClockwise := 101
  rotateCounterclockwise := 113
  swap := 99
  quit := 27

/-- A field of the bindings that the array `bindings` points to. -/
structure Binding where
  get : ControlKeybindings → ℤ
  set : ℤ → ControlKeybindings → ControlKeybindings

def bindings : List Binding :=
  [⟨ControlKeybindings.translateLeft, fun ch b => { b with translateLeft := ch }⟩,
    ⟨ControlKeybindings.translateRight, fun ch b => { b with translateRight := ch }⟩,
    ⟨ControlKeybindings.rotateCounterclockwise, fun ch b => { b with rotateCounterclockwise := ch }⟩,
    ⟨ControlKeybindings.rotateClockwise, fun ch b => { b with rotateClockwise := ch }⟩,
    ⟨ControlKeybindings.softDrop, fun ch b => { b with softDrop := ch }⟩,
    ⟨ControlKeybindings.hardDrop, fun ch b => { b with hardDrop := ch }⟩,
    ⟨ControlKeybindings.swap, fun ch b => { b with swap := ch }⟩,
    ⟨ControlKeybindings.quit, fun ch b => { b with quit := ch }⟩]

/-- The characters of a string literal. -/
def literal (s : String) : Bytes := s.toList.map Char.toUInt8

/-- The array `choices` of `edit_keybindings`. -/
def controlChoices : List Bytes :=
  [literal "Left", literal "Right", literal "Counter Clockwise", literal "Clockwise", literal "Soft Drop",
    literal "Hard Drop", literal "Swap", literal "Stop Game"]

/-- What the line under the instructions says. -/
inductive BindingLine
  | pressAnyKey
  /-- "Binding for" the choice, and the name of the key. -/
  | binding (choice : Bytes) (key : ℤ)
deriving DecidableEq

/-- `edit_keybindings` in one of its two calls of getch. -/
structure KeyEditor where
  entry : CursesCombobox × List DrawnOption
  line : BindingLine

/-- The loop of `edit_keybindings` up to its first getch. -/
def showBinding (entry : CursesCombobox × List DrawnOption) (keybindings : ControlKeybindings) :
    Except Fault KeyEditor := do
  let i := entry.1.cursorPosition.toNat
  let currentBinding ← access bindings[i]?
  let choice ← access controlChoices[i]?
  .ok ⟨entry, .binding choice (currentBinding.get keybindings)⟩

/-- `edit_keybindings` up to the loop; `none` where the program exits. -/
def editKeybindings (keybindings : ControlKeybindings) : Except Fault (Option KeyEditor) :=
  match cursesComboboxCreate 10 20 4 1 controlChoices 8 with
  | none => .ok none
  | some entry => do
    let entry ← cursesComboboxVirtualRefresh entry
    let editor ← showBinding entry keybindings
    .ok (some editor)

/-- What follows the getch up to the next one; `none` when the loop is left. -/
def editKeybindingsKey (editor : KeyEditor) (keybindings : ControlKeybindings) (ch : ℤ) :
    Except Fault (Option KeyEditor × ControlKeybindings) :=
  match editor.line with
  | .pressAnyKey => do
    let binding ← access bindings[editor.entry.1.cursorPosition.toNat]?
    let keybindings := binding.set ch keybindings
    -- the list is fed the newline, not the key
    let entry ← feedAndDraw editor.entry 10
    let editor ← showBinding entry keybindings
    .ok (some editor, keybindings)
  | .binding .. =>
    if ch = 27 then .ok (none, keybindings)
    else if ch = 32 then do
      let editor ← showBinding editor.entry keybindings
      .ok (some editor, keybindings)
    else if ch = 10 then .ok (some { editor with line := .pressAnyKey }, keybindings)
    else do
      let entry ← feedAndDraw editor.entry ch
      let editor ← showBinding entry keybindings
      .ok (some editor, keybindings)

/-- What a key can be bound to, in the order of the list. -/
inductive Control
  | left
  | right
  | counterClockwise
  | clockwise
  | softDrop
  | hardDrop
  | swap
  | stopGame
deriving DecidableEq

/-- The keys that the controls are bound to. -/
abbrev Keymap := Control → ℤ

namespace Control

def ofChoice : Fin 8 → Control :=
  ![left, right, counterClockwise, clockwise, softDrop, hardDrop, swap, stopGame]

def text : Control → Bytes
  | left => literal "Left"
  | right => literal "Right"
  | counterClockwise => literal "Counter Clockwise"
  | clockwise => literal "Clockwise"
  | softDrop => literal "Soft Drop"
  | hardDrop => literal "Hard Drop"
  | swap => literal "Swap"
  | stopGame => literal "Stop Game"

/-- The order in which a key is compared: the first control that it is bound to is the one it is for. -/
def precedence : List Control :=
  [stopGame, left, right, counterClockwise, clockwise, softDrop, hardDrop, swap]

/-- The method of a control set that the control calls; stopping is not one of them. -/
def press {σ : Type} (controls : TetrisControlSet σ) : Control → σ → Except Fault σ
  | left => controls.translate 0
  | right => controls.translate 1
  | counterClockwise => controls.rotate 0
  | clockwise => controls.rotate 1
  | softDrop => controls.lower
  | hardDrop => controls.drop
  | swap => controls.swapHold
  | stopGame => .ok

end Control

def ControlKeybindings.keymap (b : ControlKeybindings) : Keymap
  | .left => b.translateLeft
  | .right => b.translateRight
  | .counterClockwise => b.rotateCounterclockwise
  | .clockwise => b.rotateClockwise
  | .softDrop => b.softDrop
  | .hardDrop => b.hardDrop
  | .swap => b.swap
  | .stopGame => b.quit

/-- The control that a key is for. -/
def Keymap.control (keys : Keymap) (ch : ℤ) : Option Control :=
  Control.precedence.find? fun c => ch = keys c

section Keys

variable {keys : Keymap} {ch : ℤ}

/-- Stopping comes before everything else. -/
theorem control_eq_stopGame : keys.control ch = some .stopGame ↔ ch = keys .stopGame := by
  constructor
  · intro h
    exact of_decide_eq_true (@List.find?_some _ (fun c => decide (ch = keys c)) _ _ h)
  · intro h
    exact List.find?_cons_of_pos (decide_eq_true h)

theorem find?_cons_elim {α β : Type*} (p : α → Bool) (a : α) (l : List α) (x : β) (f : α → β) :
    ((a :: l).find? p).elim x f = if p a then f a else (l.find? p).elim x f := by
  rw [List.find?_cons]
  cases p a <;> rfl

/-- The comparisons of the keyboard loop look for the control. -/
theorem pressKey_eq {σ : Type} (controls : TetrisControlSet σ) {b : ControlKeybindings} (hch : ch ≠ b.quit)
    (s : σ) : pressKey controls b ch s = (b.keymap.control ch).elim (.ok s) fun c => c.press controls s := by
  have hstop : ¬ch = b.keymap .stopGame := hch
  rw [Keymap.control, Control.precedence]
  simp only [find?_cons_elim, decide_eq_true_eq, if_neg hstop]
  rfl

end Keys

section Editing

variable {b : ControlKeybindings} {c : Choice 8}

/-- The pointers are to the fields that the controls of the list are bound by. -/
theorem bindings_get (i : Fin 8) : ∃ binding, bindings[(i : ℕ)]? = some binding ∧
    (∀ b, binding.get b = b.keymap (Control.ofChoice i)) ∧
    ∀ ch b, (binding.set ch b).keymap = Function.update b.keymap (Control.ofChoice i) ch := by
  fin_cases i <;>
    refine ⟨_, rfl, fun b => rfl, fun ch b => ?_⟩ <;>
    funext c <;> cases c <;> rfl

theorem controlChoices_get (i : Fin 8) : controlChoices[(i : ℕ)]? = some (Control.ofChoice i).text := by
  fin_cases i <;> rfl

/-- The list shows the choice, with the cursor in sight. -/
structure ListShows {n : ℕ} (height : ℤ) (entry : CursesCombobox × List DrawnOption) (c : Choice n) :
    Prop where
  choice : ShowsChoice entry.1 c
  height : entry.1.height = height
  cursor : CursorShown entry

/-- The editor shows the choice, and the key of the control under the cursor. -/
structure KeyEditor.Shows (editor : KeyEditor) (keys : Keymap) (c : Choice 8) : Prop where
  list : ListShows 10 editor.entry c
  line : editor.line = .binding (Control.ofChoice c.cursor).text (keys (Control.ofChoice c.cursor))

/-- The editor waits for the new key of the control under the cursor. -/
structure KeyEditor.Asks (editor : KeyEditor) (c : Choice 8) : Prop where
  list : ListShows 10 editor.entry c
  line : editor.line = .pressAnyKey

theorem ListShows.feed {n : ℕ} {height : ℤ} {entry : CursesCombobox × List DrawnOption} {c : Choice n}
    (h : ListShows height entry c) (hint : IsInt height) (hheight : 3 ≤ height) (ch : ℤ) :
    ∃ t, feedAndDraw entry ch = .ok t ∧ ListShows height t (chooseKey c ch) := by
  obtain ⟨t, ht, hchoice, hkept, hcursor⟩ :=
    feedAndDraw_shows h.choice (h.height ▸ hint) (h.height ▸ hheight) ch
  exact ⟨t, ht, hchoice, hkept.trans h.height, hcursor⟩

/-- A list that is opened has the cursor on its first option. -/
theorem openList {n : ℕ} {height width starty startx : ℤ} {options : List Bytes} {optionCount : BitVec 32}
    (hint : IsInt height) (hheight : 3 ≤ height) (hwidth : 3 ≤ width) (hcount : optionCount.toNat = n)
    (hoptions : options.length = n) (hn : 0 < n) :
    ∃ entry t, cursesComboboxCreate height width starty startx options optionCount = some entry ∧
      cursesComboboxVirtualRefresh entry = .ok t ∧ ListShows height t (Choice.start hn) := by
  obtain ⟨entry, hentry, hchoice, hkept⟩ :=
    @create_choice n height width starty startx options optionCount hheight hwidth hcount hoptions hn
  obtain ⟨t, ht, hshown, htHeight, hcursor, -⟩ :=
    refresh_shows hchoice (hkept ▸ hint) (hkept ▸ hheight)
  exact ⟨entry, t, hentry, ht, hshown, htHeight.trans hkept, hcursor⟩

theorem showBinding_shows {entry : CursesCombobox × List DrawnOption} (h : ListShows 10 entry c)
    (b : ControlKeybindings) :
    ∃ editor, showBinding entry b = .ok editor ∧ editor.Shows b.keymap c := by
  obtain ⟨binding, hbinding, hget, -⟩ := bindings_get c.cursor
  refine ⟨⟨entry, .binding (Control.ofChoice c.cursor).text (binding.get b)⟩, ?_, h, ?_⟩
  · rw [showBinding, h.choice.cursorPosition, hbinding, controlChoices_get]
    rfl
  · rw [hget]

theorem editKeybindings_shows (b : ControlKeybindings) : ∃ editor, editKeybindings b = .ok (some editor) ∧
    editor.Shows b.keymap (Choice.start (by decide)) := by
  obtain ⟨entry, t, hentry, ht, hlist⟩ := @openList 8 10 20 4 1 controlChoices 8 (by decide) (by decide)
    (by decide) rfl rfl (by decide)
  obtain ⟨editor, heditor, hshows⟩ := showBinding_shows hlist b
  refine ⟨editor, ?_, hshows⟩
  rw [editKeybindings, hentry]
  simp only [ht, heditor, ok_bind]

/-- A key in the list: ESC leaves it, a newline asks for a key, and the cursor keys move. -/
theorem editKeybindingsKey_shows {editor : KeyEditor} (h : editor.Shows b.keymap c) (ch : ℤ) :
    ∃ t, editKeybindingsKey editor b ch = .ok (t, b) ∧
      if ch = 27 then t = none
      else if ch = 10 then ∃ e, t = some e ∧ e.Asks c
      else ∃ e, t = some e ∧ e.Shows b.keymap (if ch = 32 then c else chooseKey c ch) := by
  simp only [editKeybindingsKey, h.line]
  by_cases hescape : ch = 27
  · simp only [if_pos hescape]
    exact ⟨none, rfl, rfl⟩
  simp only [if_neg hescape]
  by_cases hspace : ch = 32
  · obtain ⟨e, he, hshows⟩ := showBinding_shows h.list b
    have hnewline : ch ≠ 10 := by omega
    simp only [if_pos hspace, if_neg hnewline, he, ok_bind]
    exact ⟨_, rfl, e, rfl, hshows⟩
  simp only [if_neg hspace]
  by_cases hnewline : ch = 10
  · simp only [if_pos hnewline]
    exact ⟨_, rfl, _, rfl, h.list, rfl⟩
  · obtain ⟨t, ht, hlist⟩ := h.list.feed (by decide) (by decide) ch
    obtain ⟨e, he, hshows⟩ := showBinding_shows hlist b
    simp only [if_neg hnewline, ht, he, ok_bind]
    exact ⟨_, rfl, e, rfl, hshows⟩

/-- The key that is asked for is bound to the control under the cursor, be it one of the keys
that mean something to the list. -/
theorem editKeybindingsKey_asks {editor : KeyEditor} (h : editor.Asks c) (b : ControlKeybindings) (ch : ℤ) :
    ∃ e b', editKeybindingsKey editor b ch = .ok (some e, b') ∧
      b'.keymap = Function.update b.keymap (Control.ofChoice c.cursor) ch ∧ e.Shows b'.keymap c := by
  obtain ⟨binding, hbinding, -, hset⟩ := bindings_get c.cursor
  obtain ⟨t, ht, hlist⟩ := h.list.feed (by decide) (by decide) 10
  obtain ⟨e, he, hshows⟩ := showBinding_shows hlist (binding.set ch b)
  refine ⟨e, binding.set ch b, ?_, hset ch b, hshows⟩
  simp only [editKeybindingsKey, h.line, h.list.choice.cursorPosition, hbinding, access_some, ok_bind, ht, he]

end Editing

end TetrisMint
