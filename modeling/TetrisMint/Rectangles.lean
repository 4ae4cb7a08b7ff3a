import Mathlib.Tactic

/-! Rectangles of cells on a grid: when one lies within another and when two lie apart,
and rectangles that are dealt out to the strips of a screen. -/
namespace Rectangles

/-- A rectangle by its upper left corner. The first coordinate of a cell is its row. -/
structure Rect where
  top : ℤ
  left : ℤ
  height : ℤ
  width : ℤ
deriving DecidableEq

namespace Rect

variable {r s t : Rect}

def cells (r : Rect) : Set (ℤ × ℤ) :=
  Set.Ico r.top (r.top + r.height) ×ˢ Set.Ico r.left (r.left + r.width)

def Within (r s : Rect) : Prop :=
  (s.top ≤ r.top ∧ r.top + r.height ≤ s.top + s.height) ∧
    (s.left ≤ r.left ∧ r.left + r.width ≤ s.left + s.width)

/-- One of the two lies above the other, or beside it. -/
def Apart (r s : Rect) : Prop :=
  (r.top + r.height ≤ s.top ∨ s.top + s.height ≤ r.top) ∨
    (r.left + r.width ≤ s.left ∨ s.left + s.width ≤ r.left)

instance (r s : Rect) : Decidable (r.Within s) := inferInstanceAs (Decidable (_ ∧ _))

instance (r s : Rect) : Decidable (r.Apart s) := inferInstanceAs (Decidable (_ ∨ _))

theorem cells_nonempty (hheight : 0 < r.height) (hwidth : 0 < r.width) : r.cells.Nonempty := by
  apply Set.Nonempty.prod
  · apply Set.nonempty_Ico.mpr
    omega
  · apply Set.nonempty_Ico.mpr
    omega

theorem Within.cells_subset (h : r.Within s) : r.cells ⊆ s.cells := by
  apply Set.prod_mono
  · exact Set.Ico_subset_Ico h.1.1 h.1.2
  · exact Set.Ico_subset_Ico h.2.1 h.2.2

theorem Within.trans (h : r.Within s) (h' : s.Within t) : r.Within t := by
  simp only [Within] at *
  omega

/-- Two rectangles that lie apart share no cell: a common one would be on both sides. -/
theorem Apart.inter_eq_empty (h : r.Apart s) : r.cells ∩ s.cells = ∅ := by
  apply Set.eq_empty_of_forall_notMem
  intro p hp
  obtain ⟨⟨hrow, hcolumn⟩, ⟨hrow', hcolumn'⟩⟩ := hp
  rw [Set.mem_Ico] at hrow hcolumn hrow' hcolumn'
  rcases h with h | h
  · -- one is above the other, so the row is in only one of them
    omega
  · omega

/-- What lies within two envelopes is apart when the envelopes are. -/
theorem Apart.within {r' s' : Rect} (h : r.Apart s) (hr : r'.Within r) (hs : s'.Within s) :
    r'.Apart s' := by
  simp only [Apart, Within] at *
  omega

end Rect

section Strips

variable {height width : ℤ}

/-- The strip `i` of a screen that is cut into strips of one width. -/
def strip (height width : ℤ) (i : ℕ) : Rect := ⟨0, width * i, height, width⟩

/-- The right end of a strip is the left end of the next one. -/
theorem strip_end_le (hwidth : 0 ≤ width) {i j : ℕ} (hij : i < j) :
    width * i + width ≤ width * j := by
  calc width * i + width = width * (i + 1 : ℕ) := by rw [Nat.cast_succ, mul_add, mul_one]
    _ ≤ width * j := by
      apply mul_le_mul_of_nonneg_left _ hwidth
      exact_mod_cast hij

theorem strip_apart (hwidth : 0 ≤ width) {i j : ℕ} (hij : i < j) :
    (strip height width i).Apart (strip height width j) :=
  Or.inr (Or.inl (strip_end_le hwidth hij))

theorem strip_within {total : ℤ} {i n : ℕ} (hwidth : 0 ≤ width) (hi : i < n)
    (htotal : width * n ≤ total) : (strip height width i).Within ⟨0, 0, height, total⟩ := by
  refine ⟨⟨le_refl _, le_refl _⟩, mul_nonneg hwidth (Nat.cast_nonneg i), ?_⟩
  show width * i + width ≤ 0 + total
  calc width * i + width ≤ width * n := strip_end_le hwidth hi
    _ ≤ 0 + total := by rwa [zero_add]

/-- Rectangles dealt out to the strips are apart when they are so within each strip. -/
theorem pairwise_apart_strips {f : ℕ → List Rect} (n : ℕ) (hwidth : 0 ≤ width)
    (hwithin : ∀ i, ∀ r ∈ f i, r.Within (strip height width i))
    (hapart : ∀ i, (f i).Pairwise Rect.Apart) :
    ((List.range n).flatMap f).Pairwise Rect.Apart := by
  apply List.pairwise_flatMap.mpr
  refine ⟨fun i _ => hapart i, ?_⟩
  -- two different strips, the first one further left
  apply List.pairwise_lt_range.imp
  intro i j hij r hr s hs
  exact (strip_apart hwidth hij).within (hwithin i r hr) (hwithin j s hs)

end Strips

end Rectangles
