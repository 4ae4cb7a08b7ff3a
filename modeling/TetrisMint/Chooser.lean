import Mathlib.Tactic

/-! A choice among finitely many options: a cursor that moves over them and stops at
both ends, and marks that are toggled under it. -/
namespace Chooser

inductive Move
  | back
  | forward
  | toggle
deriving DecidableEq

/-- The cursor and the marked options, out of `n`. -/
@[ext] structure Choice (n : ℕ) where
  cursor : Fin n
  marked : Fin n → Bool

namespace Choice

variable {n : ℕ}

/-- The cursor on the first option, and none marked. -/
def start (h : 0 < n) : Choice n := ⟨⟨0, h⟩, fun _ => false⟩

def move (c : Choice n) : Move → Choice n
  | .back => { c with cursor := ⟨c.cursor - 1, (Nat.sub_le _ _).trans_lt c.cursor.isLt⟩ }
  | .forward =>
    if h : c.cursor + 1 < n then { c with cursor := ⟨c.cursor + 1, h⟩ } else c
  | .toggle => { c with marked := Function.update c.marked c.cursor (!c.marked c.cursor) }

/-- How often the option `i` is toggled. -/
def toggles (i : Fin n) : Choice n → List Move → ℕ
  | _, [] => 0
  | c, m :: ms => (if m = .toggle ∧ c.cursor = i then 1 else 0) + toggles i (c.move m) ms

/-- One move changes the mark of an option exactly when it toggles it. -/
theorem marked_move (c : Choice n) (m : Move) (i : Fin n) :
    (c.move m).marked i = (c.marked i ^^ decide (m = .toggle ∧ c.cursor = i)) := by
  cases m with
  -- only a toggle touches the marks, and only the one under the cursor
  | back => simp [move]
  | forward =>
    rw [move]
    split_ifs
    · simp
    · simp
  | toggle =>
    by_cases hi : c.cursor = i
    · subst hi
      simp [move]
    · simp [move, Function.update_of_ne (Ne.symm hi), hi]

/-- An option that was toggled an odd number of times has changed its mark. -/
theorem marked_moves (c : Choice n) (ms : List Move) (i : Fin n) :
    (ms.foldl move c).marked i = (c.marked i ^^ decide (Odd (toggles i c ms))) := by
  induction ms generalizing c with
  | nil => simp [toggles]
  | cons m ms ih =>
    -- the mark after the first move, changed as often as the rest toggles it
    rw [List.foldl_cons, ih, marked_move, toggles, Bool.xor_assoc]
    congr 1
    by_cases hm : m = .toggle ∧ c.cursor = i
    · -- one more time turns odd into even and even into odd
      rw [if_pos hm, decide_eq_true hm, Bool.true_xor]
      simp only [Nat.add_comm 1, Nat.odd_add_one, decide_not]
    · rw [if_neg hm, decide_eq_false hm, Bool.false_xor]
      simp only [Nat.zero_add]

end Choice

end Chooser
