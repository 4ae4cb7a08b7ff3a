import Mathlib.Tactic

/-! Consecutive pieces of a stream, each with the offset at which it starts. -/

namespace Segments

variable {α : Type} (size : α → ℕ)

/-- The pieces of a list laid out one after the other from `off` on. -/
def placed : ℕ → List α → List (ℕ × α)
  | _, [] => []
  | off, x :: xs => (off, x) :: placed (off + size x) xs

def total (xs : List α) : ℕ := (xs.map size).sum

@[simp] theorem total_nil : total size ([] : List α) = 0 := rfl

@[simp] theorem total_cons (x : α) (xs : List α) :
    total size (x :: xs) = size x + total size xs := by
  rw [total, List.map_cons, List.sum_cons, total]

theorem total_append (xs ys : List α) :
    total size (xs ++ ys) = total size xs + total size ys := by
  rw [total, total, total, List.map_append, List.sum_append]

theorem placed_append (off : ℕ) (xs ys : List α) :
    placed size off (xs ++ ys) = placed size off xs ++ placed size (off + total size xs) ys := by
  induction xs generalizing off with
  | nil => rfl
  | cons x xs ih =>
    rw [List.cons_append, placed, ih, placed, List.cons_append, total_cons, Nat.add_assoc]

theorem placed_shift (base off : ℕ) (xs : List α) :
    placed size (base + off) xs = (placed size off xs).map fun p => (base + p.1, p.2) := by
  induction xs generalizing off with
  | nil => rfl
  | cons x xs ih => rw [placed, Nat.add_assoc, ih, placed, List.map_cons]

/-- A piece splits the list into what starts before it and what starts after it. -/
theorem mem_placed_iff {off s : ℕ} {x : α} {xs : List α} :
    (s, x) ∈ placed size off xs ↔
      ∃ before after, xs = before ++ x :: after ∧ s = off + total size before := by
  constructor
  · intro h
    induction xs generalizing off with
    | nil => exact absurd h (by simp [placed])
    | cons y xs ih =>
      rw [placed, List.mem_cons] at h
      cases h with
      | inl heq =>
        rw [Prod.mk.injEq] at heq
        obtain ⟨rfl, rfl⟩ := heq
        exact ⟨[], xs, rfl, rfl⟩
      | inr hmem =>
        obtain ⟨before, after, rfl, rfl⟩ := ih hmem
        refine ⟨y :: before, after, rfl, ?_⟩
        rw [total_cons, Nat.add_assoc]
  · rintro ⟨before, after, rfl, rfl⟩
    rw [placed_append, placed]
    exact List.mem_append_right _ (List.mem_cons_self ..)

theorem placed_bounds {off s : ℕ} {x : α} {xs : List α} (h : (s, x) ∈ placed size off xs) :
    off ≤ s ∧ s + size x ≤ off + total size xs := by
  obtain ⟨before, after, rfl, rfl⟩ := (mem_placed_iff size).mp h
  rw [total_append, total_cons]
  omega

/-- Every position of the stream lies in some piece. -/
theorem exists_placed {off p : ℕ} {xs : List α} (hlow : off ≤ p)
    (hhigh : p < off + total size xs) :
    ∃ s x, (s, x) ∈ placed size off xs ∧ s ≤ p ∧ p < s + size x := by
  induction xs generalizing off with
  | nil =>
    rw [total_nil] at hhigh
    omega
  | cons x xs ih =>
    rw [total_cons] at hhigh
    by_cases hx : p < off + size x
    · exact ⟨off, x, List.mem_cons_self .., hlow, hx⟩
    · obtain ⟨s, y, hmem, hs, hp⟩ := @ih (off + size x) (by omega) (by omega)
      exact ⟨s, y, List.mem_cons_of_mem _ hmem, hs, hp⟩

/-- Two pieces that share a position start at the same offset. -/
theorem placed_start_unique {off s t p : ℕ} {x y : α} {xs : List α}
    (hx : (s, x) ∈ placed size off xs) (hy : (t, y) ∈ placed size off xs)
    (hs : s ≤ p) (hps : p < s + size x) (ht : t ≤ p) (hpt : p < t + size y) :
    s = t ∧ x = y := by
  induction xs generalizing off with
  | nil => exact absurd hx (by simp [placed])
  | cons z xs ih =>
    rw [placed, List.mem_cons, Prod.mk.injEq] at hx hy
    obtain ⟨rfl, rfl⟩ | hx := hx
    · obtain ⟨rfl, rfl⟩ | hy := hy
      · exact ⟨rfl, rfl⟩
      · have hbound := (placed_bounds size hy).1
        omega
    · obtain ⟨rfl, rfl⟩ | hy := hy
      · have hbound := (placed_bounds size hx).1
        omega
      · exact ih hx hy

/-- The pieces that start in a window, cut off at its end. -/
theorem filter_placed_append {off lo : ℕ} (before after : List α)
    (hlo : lo = off + total size before) (hpos : ∀ x ∈ before, 0 < size x) :
    (placed size off (before ++ after)).filter (fun p => decide (lo ≤ p.1)) =
      placed size lo after := by
  have hfirst : (placed size off before).filter (fun p => decide (lo ≤ p.1)) = [] := by
    rw [List.filter_eq_nil_iff]
    rintro ⟨s, x⟩ hmem
    have hbound := (placed_bounds size hmem).2
    obtain ⟨front, back, rfl, -⟩ := (mem_placed_iff size).mp hmem
    have := hpos x (by simp)
    simp only [decide_eq_true_eq]
    omega
  have hlast : (placed size lo after).filter (fun p => decide (lo ≤ p.1)) =
      placed size lo after := by
    rw [List.filter_eq_self]
    rintro ⟨s, x⟩ hmem
    exact decide_eq_true (placed_bounds size hmem).1
  -- what lies before the window drops out, and the rest stays whole
  rw [placed_append, List.filter_append, hfirst, ← hlo, hlast, List.nil_append]

/-- From an offset on, the pieces are those of a window followed by those after it. -/
theorem filter_placed_split (off lo hi : ℕ) (xs : List α) (hlh : lo ≤ hi) :
    (placed size off xs).filter (fun p => decide (lo ≤ p.1)) =
      (placed size off xs).filter (fun p => decide (p.1 < hi) && decide (lo ≤ p.1)) ++
        (placed size off xs).filter (fun p => decide (hi ≤ p.1)) := by
  induction xs generalizing off with
  | nil => rfl
  | cons x xs ih =>
    rw [placed, List.filter_cons, List.filter_cons, List.filter_cons, ih]
    by_cases hlow : lo ≤ off
    · by_cases hhigh : off < hi
      · have hnot : ¬hi ≤ off := by omega
        simp [hlow, hhigh, hnot]
      · -- the window ends before this piece, so it ends before every later one
        have hge : hi ≤ off := by omega
        have hempty : (placed size (off + size x) xs).filter
            (fun p => decide (p.1 < hi) && decide (lo ≤ p.1)) = [] := by
          rw [List.filter_eq_nil_iff]
          rintro ⟨s, y⟩ hmem
          have hbound := (placed_bounds size hmem).1
          simp only [Bool.and_eq_true, decide_eq_true_eq]
          omega
        simp [hlow, hhigh, hge, hempty]
    · have hnot : ¬hi ≤ off := by omega
      simp [hlow, hnot]

end Segments
