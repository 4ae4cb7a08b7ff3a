import Mathlib.Data.UInt
import TetrisMint.LineEditor
import TetrisMint.TextField

/-! The text field is a line editor, when its text has the room that its maximum length
asks for. -/
namespace TetrisMint

open FallibleRun LineEditor

/-- What a key does to the line. -/
def editKey {capacity : ℕ} (input : ℤ) (e : Editor UInt8 capacity) : Editor UInt8 capacity :=
  if input = 1 then e.home
  else if input = 2 ∨ input = keyLeft then e.left
  else if input = 5 then e.toEnd
  else if input = 6 ∨ input = keyRight then e.right
  else if input = 8 ∨ input = keyBackspace then e.backspace
  else if isAlphanumeric input then e.insert (UInt8.ofNat input.toNat)
  else e

/-- The field shows the line: its text, then zeros up to the end, and the cursor. -/
structure ShowsLine {capacity : ℕ} (entry : CursesTextEntry) (e : Editor UInt8 capacity) : Prop where
  enteredText : entry.enteredText = zeroFilled capacity e.text
  cursorPosition : entry.cursorPosition = e.cursor
  maxLength : entry.maxLength = capacity
  noNul : 0 ∉ e.text

theorem storeByte_of_lt {text : Bytes} {i : ℕ} (h : i < text.length) (b : UInt8) :
    storeByte text i b = .ok (text.set i b) := if_pos h

section Loops

variable {capacity fuel : ℕ} {front u : Bytes} {b : UInt8}

/-- The character at the end of `front`, or the zero behind the text. -/
theorem getElem?_behind_front (h : front.length + u.length ≤ capacity)
    (hfront : front.length ≤ capacity) :
    (zeroFilled capacity (front ++ u))[front.length]? = some (u.head?.getD 0) := by
  rw [getElem?_zeroFilled (by rwa [List.length_append]) hfront,
    List.getElem?_append_right (le_refl _), Nat.sub_self, ← List.head?_eq_getElem?]

/-- The loop of the insertion makes room for one character: the carry goes in at `i`
and what is behind moves on, up to the maximum length. -/
theorem shiftText_eq (c : UInt8) (hroom : front.length < capacity)
    (hlen : front.length + u.length ≤ capacity) (hu : 0 ∉ u) (hfuel : u.length < fuel) :
    shiftText capacity fuel (zeroFilled capacity (front ++ u)) front.length c =
      .ok (zeroFilled capacity ((front ++ c :: u).take capacity)) := by
  induction u generalizing front c fuel with
  | nil =>
    cases fuel with
    | zero => exact absurd hfuel (by simp)
    | succ fuel =>
      have hsize : front.length < (zeroFilled capacity (front ++ ([] : Bytes))).length := by
        rw [length_zeroFilled (by rwa [List.length_append])]
        omega
      have htake : (front ++ [c]).take capacity = front ++ [c] := by
        apply List.take_of_length_le
        rw [List.length_append, List.length_singleton]
        omega
      -- the zero behind the text ends the loop
      rw [shiftText, getElem?_behind_front hlen hroom.le, access_some, ok_bind,
        storeByte_of_lt hsize, ok_bind, if_neg (by simp), htake, List.append_nil,
        set_zeroFilled_end hroom.le]
  | cons b u ih =>
    rw [List.mem_cons, not_or] at hu
    cases fuel with
    | zero => exact absurd hfuel (by simp)
    | succ fuel =>
      have hsize : front.length < (zeroFilled capacity (front ++ b :: u)).length := by
        rw [length_zeroFilled (by rwa [List.length_append])]
        omega
      have hnext : front ++ c :: u = (front ++ [c]) ++ u := by rw [List.append_assoc]; rfl
      have hlast : (front ++ [c]).length = front.length + 1 := by
        rw [List.length_append, List.length_singleton]
      rw [List.length_cons] at hlen hfuel
      rw [shiftText, getElem?_behind_front (by rwa [List.length_cons]) hroom.le, access_some, ok_bind,
        storeByte_of_lt hsize, ok_bind, set_zeroFilled, List.head?_cons, Option.getD_some]
      by_cases hmore : front.length + 1 < capacity
      · rw [if_pos ⟨fun h => hu.1 h.symm, hmore⟩, hnext, ← hlast,
          ih b (by omega) (by omega) hu.2 (by omega), List.append_assoc]
        rfl
      · -- the last place is written and the carry is lost
        have hempty : u = [] := by
          apply List.eq_nil_of_length_eq_zero
          omega
        have htake : (front ++ [c, b]).take capacity = front ++ [c] := by
          rw [show capacity = (front ++ [c]).length by omega,
            show front ++ [c, b] = (front ++ [c]) ++ [b] by simp]
          exact List.take_left
        rw [if_neg fun h => hmore h.2, hempty, htake]

/-- One turn of the loop of the deletion. -/
theorem pullText_turn (hlen : front.length + 1 + u.length ≤ capacity) (hb : b ≠ 0) :
    pullText (fuel + 1) (zeroFilled capacity (front ++ b :: u)) front.length =
      pullText fuel (zeroFilled capacity (front ++ u.head?.getD 0 :: u)) (front.length + 1) := by
  have hlast : (front ++ [b]).length = front.length + 1 := by
    rw [List.length_append, List.length_singleton]
  have hfull : (front ++ b :: u).length ≤ capacity := by
    rw [List.length_append, List.length_cons]
    omega
  have hsize : front.length < (zeroFilled capacity (front ++ b :: u)).length := by
    rw [length_zeroFilled hfull]
    omega
  have hunder : (zeroFilled capacity (front ++ b :: u))[front.length]? = some b := by
    rw [getElem?_behind_front (by rw [List.length_cons]; omega) (by omega)]
    rfl
  have hnext : (zeroFilled capacity (front ++ b :: u))[front.length + 1]? = some (u.head?.getD 0) := by
    rw [show front ++ b :: u = (front ++ [b]) ++ u by simp, ← hlast]
    exact getElem?_behind_front (by rwa [hlast]) (by omega)
  rw [pullText, hunder, access_some, ok_bind, if_pos hb, hnext, access_some, ok_bind,
    storeByte_of_lt hsize, ok_bind, set_zeroFilled]

/-- The loop of the deletion closes the gap of one character. -/
theorem pullText_eq (hlen : front.length + 1 + u.length ≤ capacity) (hb : b ≠ 0) (hu : 0 ∉ u)
    (hfuel : u.length + 1 < fuel) :
    pullText fuel (zeroFilled capacity (front ++ b :: u)) front.length =
      .ok (zeroFilled capacity (front ++ u)) := by
  induction u generalizing front b fuel with
  | nil =>
    obtain ⟨fuel, rfl⟩ : ∃ n, fuel = n + 1 + 1 := ⟨fuel - 2, by rw [List.length_nil] at hfuel; omega⟩
    rw [List.length_nil] at hlen
    have hend : (zeroFilled capacity front)[front.length + 1]? = some 0 := by
      rw [getElem?_zeroFilled (by omega) (by omega), List.getElem?_eq_none (by omega),
        Option.getD_none]
    -- the zero that is pulled up ends the text and the loop
    rw [pullText_turn hlen hb, List.head?_nil, Option.getD_none, zeroFilled_concat_zero (by omega),
      pullText, hend, access_some, ok_bind, if_neg (by simp), List.append_nil]
  | cons c u ih =>
    obtain ⟨fuel, rfl⟩ : ∃ n, fuel = n + 1 := ⟨fuel - 1, by omega⟩
    rw [List.mem_cons, not_or] at hu
    rw [List.length_cons] at hlen hfuel
    have hlast : (front ++ [c]).length = front.length + 1 := by
      rw [List.length_append, List.length_singleton]
    have hsplit (v : Bytes) : front ++ c :: v = (front ++ [c]) ++ v := by
      rw [List.append_assoc]
      rfl
    rw [pullText_turn (by rw [List.length_cons]; omega) hb, List.head?_cons, Option.getD_some,
      hsplit (c :: u), ← hlast, ih (by omega) (fun h => hu.1 h.symm) hu.2 (by omega), hsplit u]

theorem seekEnd_eq {text : Bytes} {cursor : ℕ} (hlen : text.length ≤ capacity) (h0 : 0 ∉ text)
    (hcursor : cursor ≤ text.length) (hfuel : text.length - cursor < fuel) :
    seekEnd (zeroFilled capacity text) fuel cursor = .ok text.length := by
  induction fuel generalizing cursor with
  | zero => exact absurd hfuel (by simp)
  | succ fuel ih =>
    rw [seekEnd, getElem?_zeroFilled hlen (hcursor.trans hlen), access_some, ok_bind]
    rcases Nat.lt_or_ge cursor text.length with hin | hend
    · have hne : text[cursor] ≠ 0 := fun h => h0 (h ▸ List.getElem_mem hin)
      rw [List.getElem?_eq_getElem hin, Option.getD_some, if_pos hne]
      exact ih (by omega) (by omega)
    · rw [List.getElem?_eq_none hend, Option.getD_none, if_neg (by simp)]
      rw [Nat.le_antisymm hcursor hend]

end Loops

section Keys

variable {capacity : ℕ} {entry : CursesTextEntry} {e : Editor UInt8 capacity}

/-- What stands under the cursor: a character, or a zero at the end of the text. -/
theorem ShowsLine.under (h : ShowsLine entry e) :
    entry.enteredText[entry.cursorPosition]? = some ((e.text[e.cursor]?).getD 0) := by
  rw [h.enteredText, h.cursorPosition, getElem?_zeroFilled e.length_le (e.cursor_le.trans e.length_le)]

theorem ShowsLine.under_eq_zero_iff (h : ShowsLine entry e) :
    (e.text[e.cursor]?).getD 0 = 0 ↔ e.cursor = e.text.length := by
  have hle := e.cursor_le
  rcases Nat.lt_or_ge e.cursor e.text.length with hin | hend
  · rw [List.getElem?_eq_getElem hin, Option.getD_some]
    constructor
    · intro h0
      exact absurd (h0 ▸ List.getElem_mem hin) h.noNul
    · intro heq
      omega
  · rw [List.getElem?_eq_none hend, Option.getD_none]
    exact ⟨fun _ => by omega, fun _ => rfl⟩

/-- Making room at the end stores a zero over a zero, and elsewhere the text behind
the cursor moves on; the character then goes in behind what is before the cursor. -/
theorem makeRoom_store (h : ShowsLine entry e) (hfull : e.cursor ≠ capacity) (c : UInt8) :
    ∃ text, makeRoom entry = .ok text ∧
      storeByte text entry.cursorPosition c = .ok (zeroFilled capacity (e.insert c).text) := by
  have hroom : e.cursor < capacity := lt_of_le_of_ne (e.cursor_le.trans e.length_le) hfull
  have hfront := e.length_front
  have hline : e.text = e.text.take e.cursor ++ e.text.drop e.cursor :=
    (List.take_append_drop _ _).symm
  have hsize : entry.enteredText.length = capacity + 1 := by
    rw [h.enteredText, length_zeroFilled e.length_le]
  have hstore {text : Bytes} (htext : text.length = capacity + 1) :
      storeByte text entry.cursorPosition c = .ok (text.set (e.text.take e.cursor).length c) := by
    rw [h.cursorPosition, hfront]
    exact storeByte_of_lt (by omega) c
  rw [makeRoom, h.under, access_some, ok_bind, Editor.insert_text hfull,
    take_insert (by rwa [hfront])]
  by_cases hend : e.cursor = e.text.length
  · -- at the end there is nothing to move
    have hwhole : e.text.take e.cursor = e.text := List.take_of_length_le (by omega)
    have hnone : e.text.drop e.cursor = [] := List.drop_of_length_le (by omega)
    refine ⟨entry.enteredText, ?_, ?_⟩
    · rw [if_neg (not_not.mpr (h.under_eq_zero_iff.mpr hend)), storeByte_of_lt, h.enteredText,
        set_zeroFilled_zero]
      · rw [h.cursorPosition]
        omega
      · rw [h.cursorPosition, hsize]
        omega
    · rw [hstore hsize, hwhole, hnone, h.enteredText, set_zeroFilled_end e.length_le, List.take_nil]
  · -- the loop moves the text behind the cursor and leaves a zero there
    have hlen : (e.text.take e.cursor).length + (e.text.drop e.cursor).length ≤ capacity := by
      rw [← List.length_append, ← hline]
      exact e.length_le
    have hbehind : 0 ∉ e.text.drop e.cursor := fun h0 => h.noNul (List.mem_of_mem_drop h0)
    have hfuel : (e.text.drop e.cursor).length < capacity + 1 + 1 := by omega
    have hshift := shiftText_eq 0 (by rwa [hfront]) hlen hbehind hfuel
    have hmade : shiftText capacity (capacity + 1 + 1) entry.enteredText entry.cursorPosition 0 =
        .ok (zeroFilled capacity
          ((e.text.take e.cursor ++ 0 :: e.text.drop e.cursor).take capacity)) := by
      rw [← hline, hfront] at hshift
      rw [h.enteredText, h.cursorPosition]
      exact hshift
    refine ⟨zeroFilled capacity
      ((e.text.take e.cursor ++ 0 :: e.text.drop e.cursor).take capacity), ?_, ?_⟩
    · rw [if_pos fun h0 => hend (h.under_eq_zero_iff.mp h0), h.maxLength, hsize, hmade]
    · rw [hstore (length_zeroFilled (List.length_take_le _ _)), take_insert (by rwa [hfront]),
        set_zeroFilled]

theorem insert_shows (h : ShowsLine entry e) {c : UInt8} (hc : c ≠ 0) :
    ∃ entry', cursesTextFieldInsert entry c = .ok entry' ∧ ShowsLine entry' (e.insert c) := by
  by_cases hfull : e.cursor = capacity
  · refine ⟨entry, ?_, ?_⟩
    · rw [cursesTextFieldInsert, if_pos (by rw [h.cursorPosition, h.maxLength, hfull])]
    · rw [Editor.insert_full hfull]
      exact h
  · obtain ⟨text, hmade, hstore⟩ := makeRoom_store h hfull c
    refine ⟨{ entry with
      enteredText := zeroFilled capacity (e.insert c).text
      cursorPosition := entry.cursorPosition + 1 }, ?_, ?_⟩
    · rw [cursesTextFieldInsert, if_neg (by rwa [h.cursorPosition, h.maxLength]), hmade, ok_bind,
        hstore, ok_bind]
    · refine ⟨rfl, ?_, h.maxLength, ?_⟩
      · rw [Editor.insert_cursor hfull, ← h.cursorPosition]
      · rw [Editor.insert_text hfull]
        intro hmem
        rcases List.mem_append.mp (List.mem_of_mem_take hmem) with hmem | hmem
        · exact h.noNul (List.mem_of_mem_take hmem)
        · rcases List.mem_cons.mp hmem with h0 | hmem
          · exact hc h0.symm
          · exact h.noNul (List.mem_of_mem_drop hmem)

theorem delete_shows (h : ShowsLine entry e) :
    ∃ entry', cursesTextFieldDelete entry = .ok entry' ∧ ShowsLine entry' e.backspace := by
  by_cases hstart : e.cursor = 0
  · refine ⟨entry, ?_, ?_⟩
    · rw [cursesTextFieldDelete, if_pos (by rw [h.cursorPosition, hstart])]
    · rw [Editor.backspace_start hstart]
      exact h
  · have hcursor := e.cursor_le
    have hlength := e.length_le
    have hin : e.cursor - 1 < e.text.length := by omega
    -- the text before the character, the character, and the text behind it
    have hline : e.text = e.text.take (e.cursor - 1) ++
        e.text[e.cursor - 1] :: e.text.drop e.cursor := by
      have hdrop := List.drop_eq_getElem_cons hin
      rw [show e.cursor - 1 + 1 = e.cursor by omega] at hdrop
      rw [← hdrop, List.take_append_drop]
    have hfront : (e.text.take (e.cursor - 1)).length = e.cursor - 1 := by
      rw [List.length_take, Nat.min_eq_left hin.le]
    have hbehind : (e.text.drop e.cursor).length = e.text.length - e.cursor := List.length_drop
    have hne : e.text[e.cursor - 1] ≠ 0 := fun h0 => h.noNul (h0 ▸ List.getElem_mem hin)
    have hnul : 0 ∉ e.text.drop e.cursor := fun h0 => h.noNul (List.mem_of_mem_drop h0)
    have hpull : pullText (entry.enteredText.length + 1) entry.enteredText (entry.cursorPosition - 1) =
        .ok (zeroFilled capacity e.backspace.text) := by
      have hloop := @pullText_eq capacity (capacity + 1 + 1) (e.text.take (e.cursor - 1))
        (e.text.drop e.cursor) e.text[e.cursor - 1] (by omega) hne hnul (by omega)
      rw [← hline, hfront] at hloop
      rw [h.enteredText, h.cursorPosition, length_zeroFilled hlength]
      exact hloop
    refine ⟨{ entry with
      enteredText := zeroFilled capacity e.backspace.text
      cursorPosition := entry.cursorPosition - 1 }, ?_, rfl, ?_, h.maxLength, ?_⟩
    · rw [cursesTextFieldDelete, if_neg (by rwa [h.cursorPosition])]
      dsimp only
      rw [hpull, ok_bind]
    · show entry.cursorPosition - 1 = e.cursor - 1
      rw [h.cursorPosition]
    · intro hmem
      rcases List.mem_append.mp hmem with hmem | hmem
      · exact h.noNul (List.mem_of_mem_take hmem)
      · exact hnul hmem

theorem stepForward_shows (h : ShowsLine entry e) :
    ∃ entry', stepForward entry = .ok entry' ∧ ShowsLine entry' e.right := by
  have hcursor := e.cursor_le
  refine ⟨_, by rw [stepForward, h.under, access_some, ok_bind], ?_⟩
  by_cases hend : e.cursor = e.text.length
  · rw [if_neg (not_not.mpr (h.under_eq_zero_iff.mpr hend))]
    refine ⟨h.enteredText, ?_, h.maxLength, h.noNul⟩
    show entry.cursorPosition = min (e.cursor + 1) e.text.length
    rw [h.cursorPosition]
    omega
  · rw [if_pos fun h0 => hend (h.under_eq_zero_iff.mp h0)]
    refine ⟨h.enteredText, ?_, h.maxLength, h.noNul⟩
    show entry.cursorPosition + 1 = min (e.cursor + 1) e.text.length
    rw [h.cursorPosition]
    omega

theorem stepBack_shows (h : ShowsLine entry e) : ShowsLine (stepBack entry) e.left := by
  have hcursor : (stepBack entry).cursorPosition = e.cursor - 1 := by
    rw [stepBack, h.cursorPosition]
    split_ifs with hpos
    · rfl
    · rw [h.cursorPosition]
      omega
  have hothers : (stepBack entry).enteredText = entry.enteredText ∧
      (stepBack entry).maxLength = entry.maxLength := by
    rw [stepBack]
    split_ifs
    · exact ⟨rfl, rfl⟩
    · exact ⟨rfl, rfl⟩
  exact ⟨hothers.1.trans h.enteredText, hcursor, hothers.2.trans h.maxLength, h.noNul⟩

/-- The character of an alphanumeric key is not the NUL. -/
theorem char_ne_zero {input : ℤ} (h : isAlphanumeric input = true) :
    UInt8.ofNat input.toNat ≠ 0 := by
  have hrange := alphanumeric_range h
  intro h0
  have hzero : input.toNat % 256 = 0 := congrArg UInt8.toNat h0
  omega

/-- One key: the field does to what it shows what the editor does. -/
theorem feed_shows (h : ShowsLine entry e) (input : ℤ) :
    ∃ entry', cursesTextFieldFeed entry input = .ok entry' ∧ ShowsLine entry' (editKey input e) := by
  by_cases hhome : input = 1
  · subst hhome
    exact ⟨_, rfl, h.enteredText, rfl, h.maxLength, h.noNul⟩
  by_cases hb : input = 2
  · subst hb
    exact ⟨_, rfl, stepBack_shows h⟩
  by_cases hend : input = 5
  · subst hend
    have hseek : seekEnd entry.enteredText (entry.enteredText.length + 1) entry.cursorPosition =
        .ok e.text.length := by
      rw [h.enteredText, h.cursorPosition]
      apply seekEnd_eq e.length_le h.noNul e.cursor_le
      rw [length_zeroFilled e.length_le]
      have := e.length_le
      omega
    refine ⟨{ entry with cursorPosition := e.text.length }, ?_, h.enteredText, rfl, h.maxLength,
      h.noNul⟩
    rw [cursesTextFieldFeed, if_neg hhome, if_neg hb, if_pos rfl, hseek, ok_bind]
  by_cases hf : input = 6
  · subst hf
    exact stepForward_shows h
  by_cases hdelete : input = 8 ∨ input = keyBackspace
  · have hfeed : cursesTextFieldFeed entry input = cursesTextFieldDelete entry := by
      rw [cursesTextFieldFeed, if_neg hhome, if_neg hb, if_neg hend, if_neg hf, if_pos hdelete]
    have hedit : editKey input e = e.backspace := by
      rcases hdelete with rfl | rfl <;> rfl
    rw [hfeed, hedit]
    exact delete_shows h
  by_cases hleft : input = keyLeft
  · subst hleft
    exact ⟨_, rfl, stepBack_shows h⟩
  by_cases hright : input = keyRight
  · subst hright
    exact stepForward_shows h
  -- the keys that are left enter a character or do nothing
  rw [cursesTextFieldFeed, if_neg hhome, if_neg hb, if_neg hend, if_neg hf, if_neg hdelete,
    if_neg hleft, if_neg hright, editKey, if_neg hhome, if_neg (not_or.mpr ⟨hb, hleft⟩), if_neg hend,
    if_neg (not_or.mpr ⟨hf, hright⟩), if_neg hdelete]
  split_ifs with halpha
  · exact insert_shows h (char_ne_zero halpha)
  · exact ⟨entry, rfl, h⟩

/-- Any sequence of keys. -/
theorem run_shows (h : ShowsLine entry e) (keys : List ℤ) :
    ∃ entry', run cursesTextFieldFeed entry keys = .ok entry' ∧
      ShowsLine entry' (keys.foldl (fun e input => editKey input e) e) := by
  induction keys generalizing entry e with
  | nil => exact ⟨entry, rfl, h⟩
  | cons input keys ih =>
    obtain ⟨entry₁, hfeed, h₁⟩ := feed_shows h input
    obtain ⟨entry', hrun, h'⟩ := ih h₁
    exact ⟨entry', by rw [run_cons_ok _ _ hfeed, hrun], h'⟩

end Keys

/-- A field that create has made, but with the text that its comment asks for. -/
def roomyField (height width starty startx : ℤ) (maxLength : ℕ) : CursesTextEntry :=
  ⟨false, height, width, starty, startx, List.replicate (maxLength + 1) 0, 0, maxLength⟩

theorem roomyField_of_create {height width starty startx : ℤ} {maxLength : ℕ}
    {entry : CursesTextEntry}
    (h : cursesTextFieldCreate height width starty startx maxLength = some entry) :
    roomyField height width starty startx maxLength =
      { entry with enteredText := List.replicate (maxLength + 1) 0 } := by
  rw [cursesTextFieldCreate] at h
  split_ifs at h
  rw [← Option.some.inj h]
  rfl

/-- A field with room for its maximum length and a NUL is a line editor: whatever keys
are fed, no access leaves the text, the text and the cursor are those of the editor,
and every byte behind the text is zero. -/
theorem text_field_is_line_editor (height width starty startx : ℤ) (maxLength : ℕ)
    (keys : List ℤ) : ∃ entry e,
      run cursesTextFieldFeed (roomyField height width starty startx maxLength) keys = .ok entry ∧
      e = keys.foldl (fun e input => editKey input e) (Editor.empty : Editor UInt8 maxLength) ∧
      entry.enteredText = e.text ++ List.replicate (maxLength + 1 - e.text.length) 0 ∧
      0 ∉ e.text ∧ entry.cursorPosition = e.cursor ∧ e.cursor ≤ e.text.length ∧
      e.text.length ≤ maxLength := by
  have hstart : ShowsLine (roomyField height width starty startx maxLength)
      (Editor.empty : Editor UInt8 maxLength) := ⟨rfl, rfl, rfl, List.not_mem_nil⟩
  obtain ⟨entry, hrun, h⟩ := run_shows hstart keys
  exact ⟨entry, _, hrun, rfl, h.enteredText, h.noNul, h.cursorPosition, Editor.cursor_le _,
    Editor.length_le _⟩

end TetrisMint
