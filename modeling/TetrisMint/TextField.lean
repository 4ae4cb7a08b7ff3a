import TetrisMint.StringArray

/-! The text field of `curses_text_entry.c`. Every access of its buffers is checked,
so a run that returns has stayed within what was allocated. -/
namespace TetrisMint

open CStrings FallibleRun

/-- The key codes of curses. -/
def keyLeft : ℤ := 260
def keyRight : ℤ := 261
def keyBackspace : ℤ := 263

/-- `window` tells whether the window of the field exists. -/
structure CursesTextEntry where
  window : Bool
  height : ℤ
  width : ℤ
  starty : ℤ
  startx : ℤ
  enteredText : Bytes
  cursorPosition : ℕ
  maxLength : ℕ
deriving DecidableEq

/-- Store one byte of the text. -/
def storeByte (text : Bytes) (i : ℕ) (b : UInt8) : Except Fault Bytes :=
  if i < text.length then .ok (text.set i b) else .error .outOfBounds

/-- The field that a successful call leaves. The structure is zeroed when its field
`max_length` is read for the size of the text, and set only afterwards. -/
def cursesTextFieldCreate (height width starty startx : ℤ) (maxLength : ℕ) :
    Option CursesTextEntry :=
  if height < 3 ∨ width < 3 then none
  else
    let entry : CursesTextEntry := ⟨false, 0, 0, 0, 0, [], 0, 0⟩
    some { entry with
      height := height
      width := width
      starty := starty
      startx := startx
      enteredText := List.replicate (entry.maxLength + 1) 0
      maxLength := maxLength }

/-- The array that the refresh shows, and the field with its window. The array has one
byte for each column inside of the border and one more; `stack` is what it held before. -/
def cursesTextFieldVirtualRefresh (stack : Fresh) (entry : CursesTextEntry) :
    Except Fault (CursesTextEntry × Bytes) := do
  let outputString := malloc stack (entry.width - 1).toNat
  let outputString ←
    access (strncpy outputString 0 entry.enteredText (sizeOfInt (entry.width - 1)))
  let outputString ← storeByte outputString entry.width.toNat 0
  .ok ({ entry with window := true }, outputString)

/-- The do-while loop of the insertion, which shifts the text by one place from `i` on. -/
def shiftText (maxLength : ℕ) : ℕ → Bytes → ℕ → UInt8 → Except Fault Bytes
  | 0, _, _, _ => .error .nonterminating
  | fuel + 1, text, i, carry => do
    let tmp ← access text[i]?
    let text ← storeByte text i carry
    if tmp ≠ 0 ∧ i + 1 < maxLength then shiftText maxLength fuel text (i + 1) tmp else .ok text

/-- The text once there is room for a character at the cursor. -/
def makeRoom (entry : CursesTextEntry) : Except Fault Bytes := do
  let under ← access entry.enteredText[entry.cursorPosition]?
  if under ≠ 0 then
    shiftText entry.maxLength (entry.enteredText.length + 1) entry.enteredText
      entry.cursorPosition 0
  else storeByte entry.enteredText (entry.cursorPosition + 1) 0

def cursesTextFieldInsert (entry : CursesTextEntry) (input : UInt8) :
    Except Fault CursesTextEntry :=
  if entry.cursorPosition = entry.maxLength then .ok entry
  else do
    let text ← makeRoom entry
    let text ← storeByte text entry.cursorPosition input
    .ok { entry with enteredText := text, cursorPosition := entry.cursorPosition + 1 }

/-- The loop of the deletion, which moves the text behind `i` up to it. -/
def pullText : ℕ → Bytes → ℕ → Except Fault Bytes
  | 0, _, _ => .error .nonterminating
  | fuel + 1, text, i => do
    let b ← access text[i]?
    if b ≠ 0 then
      let next ← access text[i + 1]?
      let text ← storeByte text i next
      pullText fuel text (i + 1)
    else .ok text

def cursesTextFieldDelete (entry : CursesTextEntry) : Except Fault CursesTextEntry :=
  if entry.cursorPosition = 0 then .ok entry
  else do
    let cursor := entry.cursorPosition - 1
    let text ← pullText (entry.enteredText.length + 1) entry.enteredText cursor
    .ok { entry with enteredText := text, cursorPosition := cursor }

/-- The loop of CTRL-E. -/
def seekEnd (text : Bytes) : ℕ → ℕ → Except Fault ℕ
  | 0, _ => .error .nonterminating
  | fuel + 1, cursor => do
    let b ← access text[cursor]?
    if b ≠ 0 then seekEnd text fuel (cursor + 1) else .ok cursor

/-- The cursor one place further, unless it is at the end of the text. -/
def stepForward (entry : CursesTextEntry) : Except Fault CursesTextEntry := do
  let under ← access entry.enteredText[entry.cursorPosition]?
  .ok (if under ≠ 0 then { entry with cursorPosition := entry.cursorPosition + 1 } else entry)

def stepBack (entry : CursesTextEntry) : CursesTextEntry :=
  if 0 < entry.cursorPosition then { entry with cursorPosition := entry.cursorPosition - 1 }
  else entry

/-- The keys that enter a character. -/
def isAlphanumeric (input : ℤ) : Bool :=
  (97 ≤ input && input ≤ 122) || (65 ≤ input && input ≤ 90) || (48 ≤ input && input ≤ 57)

def cursesTextFieldFeed (entry : CursesTextEntry) (input : ℤ) : Except Fault CursesTextEntry :=
  if input = 1 then .ok { entry with cursorPosition := 0 }
  else if input = 2 then .ok (stepBack entry)
  else if input = 5 then do
    let cursor ← seekEnd entry.enteredText (entry.enteredText.length + 1) entry.cursorPosition
    .ok { entry with cursorPosition := cursor }
  else if input = 6 then stepForward entry
  else if input = 8 ∨ input = keyBackspace then cursesTextFieldDelete entry
  else if input = keyLeft then .ok (stepBack entry)
  else if input = keyRight then stepForward entry
  else if isAlphanumeric input then cursesTextFieldInsert entry (UInt8.ofNat input.toNat)
  else .ok entry

def cursesTextFieldValue (entry : CursesTextEntry) : Bytes := entry.enteredText

/-- One key, and the refresh that follows it. -/
def feedAndRefresh (entry : CursesTextEntry) (key : Fresh × ℤ) : Except Fault CursesTextEntry := do
  let entry ← cursesTextFieldFeed entry key.2
  let (entry, _) ← cursesTextFieldVirtualRefresh key.1 entry
  .ok entry

/-- One key, and of the refresh only what it reads of the entered text. -/
def feedAndRead (entry : CursesTextEntry) (input : ℤ) : Except Fault CursesTextEntry := do
  let entry ← cursesTextFieldFeed entry input
  let _ ← access (strncpyBytes entry.enteredText (sizeOfInt (entry.width - 1)))
  .ok entry

section Bounds

theorem length_of_strncpy {dst src dst' : Bytes} {off n : ℕ}
    (h : strncpy dst off src n = some dst') : dst'.length = dst.length := by
  rw [strncpy, Option.bind_eq_some_iff] at h
  obtain ⟨bytes, -, h⟩ := h
  rw [store] at h
  split_ifs at h with hfit
  rw [← Option.some.inj h]
  simp only [List.length_append, List.length_take, List.length_drop]
  omega

/-- The byte that should end the shown string lies two places behind the array. -/
theorem refresh_fails (stack : Fresh) (entry : CursesTextEntry) (t : CursesTextEntry × Bytes) :
    cursesTextFieldVirtualRefresh stack entry ≠ .ok t := by
  intro h
  simp only [cursesTextFieldVirtualRefresh, bind_eq_ok, access_eq_ok] at h
  obtain ⟨shown, hcopy, stored, hstore, -⟩ := h
  have hlen := length_of_strncpy hcopy
  rw [length_malloc] at hlen
  rw [storeByte, if_neg (by omega)] at hstore
  exact absurd hstore (by simp)

/-- An untouched field: one zero byte, with the cursor on it. -/
structure Untouched (maxLength : ℕ) (entry : CursesTextEntry) : Prop where
  enteredText : entry.enteredText = [0]
  cursorPosition : entry.cursorPosition = 0
  maxLength : entry.maxLength = maxLength

variable {maxLength : ℕ} {entry entry' : CursesTextEntry}

theorem create_untouched {height width starty startx : ℤ}
    (h : cursesTextFieldCreate height width starty startx maxLength = some entry) :
    Untouched maxLength entry := by
  rw [cursesTextFieldCreate] at h
  split_ifs at h
  rw [← Option.some.inj h]
  exact ⟨rfl, rfl, rfl⟩

/-- Without room for more than the NUL only a field of maximum length 0 takes a character. -/
theorem insert_untouched (h : Untouched maxLength entry) (c : UInt8) :
    cursesTextFieldInsert entry c = if maxLength = 0 then .ok entry else .error .outOfBounds := by
  rw [cursesTextFieldInsert, h.cursorPosition, h.maxLength]
  by_cases hzero : maxLength = 0
  · rw [if_pos hzero.symm, if_pos hzero]
  · have hroom : makeRoom entry = .error .outOfBounds := by
      rw [makeRoom, h.enteredText, h.cursorPosition]
      rfl
    rw [if_neg fun h0 => hzero h0.symm, if_neg hzero, hroom, error_bind]

theorem alphanumeric_range {input : ℤ} (h : isAlphanumeric input = true) :
    48 ≤ input ∧ input ≤ 122 := by
  simp only [isAlphanumeric, Bool.or_eq_true, Bool.and_eq_true, decide_eq_true_eq] at h
  omega

theorem feed_alphanumeric {input : ℤ} (h : isAlphanumeric input = true) :
    cursesTextFieldFeed entry input = cursesTextFieldInsert entry (UInt8.ofNat input.toNat) := by
  have hrange := alphanumeric_range h
  have hother : input ≠ 1 ∧ input ≠ 2 ∧ input ≠ 5 ∧ input ≠ 6 ∧ ¬(input = 8 ∨ input = keyBackspace) ∧
      input ≠ keyLeft ∧ input ≠ keyRight := by
    simp only [keyBackspace, keyLeft, keyRight]
    omega
  obtain ⟨h1, h2, h5, h6, h8, hl, hr⟩ := hother
  rw [cursesTextFieldFeed, if_neg h1, if_neg h2, if_neg h5, if_neg h6, if_neg h8, if_neg hl,
    if_neg hr, if_pos h]

/-- No other key moves anything in an untouched field. -/
theorem feed_untouched (h : Untouched maxLength entry) (input : ℤ) :
    cursesTextFieldFeed entry input =
      if maxLength ≠ 0 ∧ isAlphanumeric input = true then .error .outOfBounds else .ok entry := by
  by_cases halpha : isAlphanumeric input = true
  · rw [feed_alphanumeric halpha, insert_untouched h]
    by_cases hzero : maxLength = 0
    · rw [if_pos hzero, if_neg fun h => h.1 hzero]
    · rw [if_neg hzero, if_pos ⟨hzero, halpha⟩]
  · rw [if_neg fun h => halpha h.2]
    obtain ⟨window, height, width, starty, startx, text, cursor, max⟩ := entry
    obtain ⟨htext, hcursor, hmax⟩ := h
    simp only at htext hcursor hmax
    subst htext hcursor hmax
    -- the cursor is at 0, which is the end of the text
    rw [cursesTextFieldFeed, if_neg halpha]
    split_ifs
    · rfl
    · rfl
    · rfl
    · rfl
    · rfl
    · rfl
    · rfl
    · rfl

/-- No key gets past its refresh. -/
theorem run_refresh_iff (entry : CursesTextEntry) (keys : List (Fresh × ℤ)) :
    (∃ t, run feedAndRefresh entry keys = .ok t) ↔ keys = [] := by
  constructor
  · rintro ⟨t, ht⟩
    cases keys with
    | nil => rfl
    | cons key keys =>
      obtain ⟨u, hu, -⟩ := (run_cons_eq_ok _).mp ht
      simp only [feedAndRefresh, bind_eq_ok] at hu
      obtain ⟨fed, -, shown, hshown, -⟩ := hu
      exact absurd hshown (refresh_fails key.1 fed shown)
  · rintro rfl
    exact ⟨entry, rfl⟩

/-- What the refresh reads of an untouched field is there. -/
theorem feedAndRead_untouched (h : Untouched maxLength entry) (input : ℤ) :
    feedAndRead entry input =
      if maxLength ≠ 0 ∧ isAlphanumeric input = true then .error .outOfBounds else .ok entry := by
  have hread (n : ℕ) : ∃ bytes, strncpyBytes entry.enteredText n = some bytes := by
    rw [h.enteredText]
    cases n with
    | zero => exact ⟨[], rfl⟩
    | succ n => exact ⟨List.replicate (n + 1) 0, rfl⟩
  obtain ⟨bytes, hbytes⟩ := hread (sizeOfInt (entry.width - 1))
  rw [feedAndRead, feed_untouched h]
  split_ifs
  · rfl
  · rw [ok_bind, hbytes, access_some, ok_bind]

theorem run_read_iff (h : Untouched maxLength entry) (inputs : List ℤ) :
    (∃ t, run feedAndRead entry inputs = .ok t) ↔
      maxLength = 0 ∨ ∀ input ∈ inputs, isAlphanumeric input = false := by
  constructor
  · rintro ⟨t, ht⟩
    by_contra hnot
    rw [not_or] at hnot
    obtain ⟨hroom, hkeys⟩ := hnot
    apply hkeys
    -- a step that returns leaves the field as it is
    clear hkeys
    induction inputs with
    | nil => simp
    | cons input inputs ih =>
      obtain ⟨u, hu, hrest⟩ := (run_cons_eq_ok _).mp ht
      rw [feedAndRead_untouched h] at hu
      split_ifs at hu with halpha
      rw [Except.ok.injEq] at hu
      rw [List.forall_mem_cons]
      refine ⟨?_, ih (hu ▸ hrest)⟩
      exact Bool.eq_false_of_not_eq_true fun h => halpha ⟨hroom, h⟩
  · intro hkeys
    refine ⟨entry, run_fixed _ ?_⟩
    intro input hinput
    rw [feedAndRead_untouched h, if_neg]
    rintro ⟨hroom, halpha⟩
    rcases hkeys with h0 | hall
    · exact hroom h0
    · rw [hall input hinput] at halpha
      exact absurd halpha (by simp)

/-- From create on, every index of entered_text that a run of keys with their refreshes
uses is below the one byte that create allocates exactly when the maximum length is 0 or
no key of the run enters a character; of output_string the first refresh already
writes out of bounds, so all indices are in bounds exactly when no key is fed. -/
theorem text_field_bounds_iff {height width starty startx : ℤ} {maxLength : ℕ}
    {entry : CursesTextEntry}
    (hcreate : cursesTextFieldCreate height width starty startx maxLength = some entry)
    (keys : List (Fresh × ℤ)) :
    ((∃ t, run feedAndRefresh entry keys = .ok t) ↔ keys = []) ∧
    ((∃ t, run feedAndRead entry (keys.map Prod.snd) = .ok t) ↔
      maxLength = 0 ∨ ∀ key ∈ keys, isAlphanumeric key.2 = false) := by
  refine ⟨run_refresh_iff entry keys, ?_⟩
  rw [run_read_iff (create_untouched hcreate), List.forall_mem_map]

end Bounds

/-- The field that asks for the name of a player, with no key, and with cursor keys only. -/
theorem text_field_bounds_unused : ∃ entry, cursesTextFieldCreate 3 20 3 1 15 = some entry ∧
    (∃ t, run feedAndRefresh entry [] = .ok t) ∧
    ∃ t, run feedAndRead entry [keyLeft, keyRight, 5, keyBackspace] = .ok t := by
  obtain ⟨entry, hcreate⟩ : ∃ entry, cursesTextFieldCreate 3 20 3 1 15 = some entry := ⟨_, rfl⟩
  refine ⟨entry, hcreate, ?_, ?_⟩
  · exact (text_field_bounds_iff hcreate []).1.mpr rfl
  · apply (text_field_bounds_iff hcreate [(fun _ => 0, keyLeft), (fun _ => 0, keyRight),
      (fun _ => 0, 5), (fun _ => 0, keyBackspace)]).2.mpr
    decide

/-- The first letter of a name is stored behind the end of the text, and already the
refresh after a cursor key writes behind the string that is shown. -/
theorem text_field_out_of_bounds : ∃ entry, cursesTextFieldCreate 3 20 3 1 15 = some entry ∧
    cursesTextFieldFeed entry 97 = .error .outOfBounds ∧
    feedAndRefresh entry (fun _ => 0, keyLeft) = .error .outOfBounds := by
  refine ⟨_, rfl, ?_, ?_⟩
  · rfl
  · rfl

end TetrisMint
