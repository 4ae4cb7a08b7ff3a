import Mathlib.Tactic

/-! A line editor of bounded capacity: a text, a position in it, and what the usual
keys do. The text can be laid out in a buffer that is filled up with zeros. -/
namespace LineEditor

/-- A text of at most `capacity` characters and a cursor within it. -/
@[ext] structure Editor (α : Type*) (capacity : ℕ) where
  text : List α
  cursor : ℕ
  cursor_le : cursor ≤ text.length
  length_le : text.length ≤ capacity

section ZeroFilled

variable {α : Type*} [Zero α]

/-- A text in a buffer of one place more than its capacity, filled up with zeros. -/
def zeroFilled (capacity : ℕ) (l : List α) : List α := l ++ List.replicate (capacity + 1 - l.length) 0

variable {capacity : ℕ} {l front back : List α}

theorem length_zeroFilled (h : l.length ≤ capacity) : (zeroFilled capacity l).length = capacity + 1 := by
  rw [zeroFilled, List.length_append, List.length_replicate]
  omega

/-- Behind the text the buffer shows zeros. -/
theorem getElem?_zeroFilled (hl : l.length ≤ capacity) {i : ℕ} (hi : i ≤ capacity) :
    (zeroFilled capacity l)[i]? = some (l[i]?.getD 0) := by
  rw [zeroFilled]
  rcases Nat.lt_or_ge i l.length with hin | hend
  · rw [List.getElem?_append_left hin, List.getElem?_eq_getElem hin, Option.getD_some]
  · rw [List.getElem?_append_right hend, List.getElem?_replicate, List.getElem?_eq_none hend,
      if_pos (by omega), Option.getD_none]

theorem set_zeroFilled (b c : α) : (zeroFilled capacity (front ++ b :: back)).set front.length c =
    zeroFilled capacity (front ++ c :: back) := by
  rw [zeroFilled, zeroFilled, List.append_assoc, List.append_assoc,
    List.set_append_right _ _ (le_refl _), Nat.sub_self]
  simp only [List.cons_append, List.set_cons_zero, List.length_append, List.length_cons]

/-- Writing behind the text makes it longer. -/
theorem set_zeroFilled_end (h : l.length ≤ capacity) (c : α) :
    (zeroFilled capacity l).set l.length c = zeroFilled capacity (l ++ [c]) := by
  have hgap : capacity + 1 - l.length = capacity + 1 - (l ++ [c]).length + 1 := by
    rw [List.length_append, List.length_singleton]
    omega
  rw [zeroFilled, zeroFilled, List.set_append_right _ _ (le_refl _), Nat.sub_self, hgap,
    List.replicate_succ, List.set_cons_zero, List.append_assoc]
  rfl

/-- Writing a zero behind the text changes nothing. -/
theorem set_zeroFilled_zero {i : ℕ} (h : l.length ≤ i) :
    (zeroFilled capacity l).set i 0 = zeroFilled capacity l := by
  rw [zeroFilled, List.set_append_right _ _ h, List.set_replicate_self]

/-- A zero at its end does not belong to the text. -/
theorem zeroFilled_concat_zero (h : l.length ≤ capacity) :
    zeroFilled capacity (l ++ [0]) = zeroFilled capacity l := by
  have hgap : capacity + 1 - l.length = capacity + 1 - (l ++ [0]).length + 1 := by
    rw [List.length_append, List.length_singleton]
    omega
  rw [zeroFilled, zeroFilled, hgap, List.replicate_succ, List.append_assoc]
  rfl

omit [Zero α] in
/-- A character inserted below the capacity stays when the rest is cut to fit. -/
theorem take_insert (h : front.length < capacity) (c : α) :
    (front ++ c :: back).take capacity = front ++ c :: back.take (capacity - front.length - 1) := by
  rw [List.take_append, List.take_of_length_le h.le,
    show capacity - front.length = capacity - front.length - 1 + 1 by omega, List.take_succ_cons]
  rfl

end ZeroFilled

namespace Editor

variable {α : Type*} {capacity : ℕ}

def empty : Editor α capacity := ⟨[], 0, le_refl _, Nat.zero_le _⟩

/-- Put a character before the cursor. What no longer fits falls off the end, and
behind the last place there is nothing to insert. -/
def insert (c : α) (e : Editor α capacity) : Editor α capacity :=
  if h : e.cursor = capacity then e
  else
    { text := (e.text.take e.cursor ++ c :: e.text.drop e.cursor).take capacity
      cursor := e.cursor + 1
      cursor_le := by
        have := e.cursor_le
        have := e.length_le
        simp only [List.length_take, List.length_append, List.length_cons, List.length_drop]
        omega
      length_le := List.length_take_le _ _ }

/-- Remove the character before the cursor. -/
def backspace (e : Editor α capacity) : Editor α capacity where
  text := e.text.take (e.cursor - 1) ++ e.text.drop e.cursor
  cursor := e.cursor - 1
  cursor_le := by
    have := e.cursor_le
    simp only [List.length_append, List.length_take, List.length_drop]
    omega
  length_le := by
    have := e.length_le
    simp only [List.length_append, List.length_take, List.length_drop]
    omega

def home (e : Editor α capacity) : Editor α capacity := { e with
  cursor := 0
  cursor_le := Nat.zero_le _ }

def toEnd (e : Editor α capacity) : Editor α capacity := { e with
  cursor := e.text.length
  cursor_le := le_refl _ }

def left (e : Editor α capacity) : Editor α capacity := { e with
  cursor := e.cursor - 1
  cursor_le := (Nat.sub_le _ _).trans e.cursor_le }

def right (e : Editor α capacity) : Editor α capacity := { e with
  cursor := min (e.cursor + 1) e.text.length
  cursor_le := Nat.min_le_right _ _ }

theorem backspace_start {e : Editor α capacity} (h : e.cursor = 0) : e.backspace = e := by
  ext1
  · simp [backspace, h]
  · simp [backspace, h]

theorem insert_full {e : Editor α capacity} (h : e.cursor = capacity) (c : α) : e.insert c = e :=
  dif_pos h

theorem insert_text {e : Editor α capacity} (h : e.cursor ≠ capacity) (c : α) :
    (e.insert c).text = (e.text.take e.cursor ++ c :: e.text.drop e.cursor).take capacity := by
  rw [insert, dif_neg h]

theorem insert_cursor {e : Editor α capacity} (h : e.cursor ≠ capacity) (c : α) :
    (e.insert c).cursor = e.cursor + 1 := by
  rw [insert, dif_neg h]

theorem length_front (e : Editor α capacity) : (e.text.take e.cursor).length = e.cursor := by
  rw [List.length_take, Nat.min_eq_left e.cursor_le]

end Editor

end LineEditor
