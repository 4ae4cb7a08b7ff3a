import TetrisMint.FueledLoop

/-! In-place removal of the marked entries of a list of fixed length. Removing
an entry moves the later ones down by one and leaves the last one where it is. -/
namespace RowCompaction
open FueledLoop

variable {α : Type*} (full : α → Bool)

/-- Entry `j` is dropped, later entries move down, the last entry is kept twice. -/
def deleteAt (j : ℕ) (rows : List α) : List α := rows.eraseIdx j ++ rows.getLast?.toList

structure Scan (α : Type*) where
  rows : List α
  index : ℕ
  removed : ℕ

def scanGuard (s : Scan α) : Bool := s.index < s.rows.length

/-- One turn of the scan: a marked entry is removed and its index looked at again. -/
def scanStep (s : Scan α) : Scan α :=
  if s.rows[s.index]?.any full then ⟨deleteAt s.index s.rows, s.index, s.removed + 1⟩
  else ⟨s.rows, s.index + 1, s.removed⟩

theorem deleteAt_append (done todo : List α) (c e : α) (he : (c :: todo).getLast? = some e) :
    deleteAt done.length (done ++ c :: todo) = done ++ todo ++ [e] := by
  have hl : (done ++ c :: todo).getLast? = some e := by
    rw [List.getLast?_append, he]
    rfl
  rw [deleteAt, hl, List.eraseIdx_append_of_length_le le_rfl, Nat.sub_self, List.eraseIdx_cons_zero]
  rfl

theorem length_deleteAt (j : ℕ) (rows : List α) (hj : j < rows.length) :
    (deleteAt j rows).length = rows.length := by
  have hne : rows ≠ [] := List.ne_nil_of_length_pos (by omega)
  rw [deleteAt, List.length_append, List.length_eraseIdx_of_lt hj,
    List.getLast?_eq_getLast_of_ne_nil hne]
  simp only [Option.toList_some, List.length_singleton]
  omega

/-- Removal by scanning keeps the unmarked entries in order and refills from the
end with copies of the last entry, one for each marked entry, when that last
entry is itself unmarked. The bound counts every entry once and every marked
entry once more. -/
theorem scan_result (done todo : List α) (e : α) (k n : ℕ) (hne : todo ≠ [] → todo.getLast? = some e)
    (he : full e = false) (hn : todo.length + todo.countP full ≤ n) :
    iterate scanGuard (scanStep full) n ⟨done ++ todo, done.length, k⟩ =
      some ⟨done ++ todo.filter (fun r => !full r) ++ List.replicate (todo.countP full) e,
        done.length + todo.length, k + todo.countP full⟩ := by
  induction n generalizing done todo k with
  | zero =>
    have hz : todo = [] := List.length_eq_zero_iff.mp (by omega)
    subst hz
    simp [iterate, scanGuard]
  | succ n ih =>
    cases todo with
    | nil =>
      rw [iterate_exit _ _ _ _ (by simp [scanGuard])]
      simp
    | cons c todo =>
      -- the scan has passed `done`, and `c` is the next entry it looks at
      have hlast : (c :: todo).getLast? = some e := hne (by simp)
      rw [iterate_continue _ _ _ _ (by simp [scanGuard])]
      by_cases hc : full c = true
      · -- a marked entry is not the last one, so the copy of `e` ends up after the rest
        have htodo : todo ≠ [] := by
          rintro rfl
          simp only [List.getLast?_singleton, Option.some.injEq] at hlast
          rw [hlast, he] at hc
          exact absurd hc (by decide)
        have hstep : scanStep full ⟨done ++ c :: todo, done.length, k⟩ =
            ⟨done ++ (todo ++ [e]), done.length, k + 1⟩ := by
          simp [scanStep, hc, deleteAt_append done todo c e hlast]
        have hcount : (todo ++ [e]).countP full = todo.countP full := by
          simp [List.countP_append, he]
        have hlen : (todo ++ [e]).length + (todo ++ [e]).countP full ≤ n := by
          simp only [hcount, List.length_append, List.length_singleton]
          simp only [List.length_cons, List.countP_cons_of_pos hc] at hn
          omega
        rw [hstep, ih done (todo ++ [e]) (k + 1) (by simp) hlen, hcount]
        simp only [List.filter_append, List.filter_cons, hc, he, List.countP_cons_of_pos,
          Bool.not_true, Bool.not_false, Bool.false_eq_true, ↓reduceIte, List.filter_nil,
          List.length_append, List.length_cons, List.length_nil, List.replicate_succ,
          List.append_assoc, List.singleton_append, Option.some.injEq, Scan.mk.injEq, true_and]
        omega
      · have hstep : scanStep full ⟨done ++ c :: todo, done.length, k⟩ =
            ⟨(done ++ [c]) ++ todo, (done ++ [c]).length, k⟩ := by
          simp [scanStep, hc]
        -- an unmarked entry joins those that the scan has passed
        have hne' : todo ≠ [] → todo.getLast? = some e := by
          intro h
          rwa [List.getLast?_cons_of_ne_nil h] at hlast
        have hcount : (c :: todo).countP full = todo.countP full := List.countP_cons_of_neg hc
        have hfilter : (c :: todo).filter (fun r => !full r) =
            c :: todo.filter (fun r => !full r) := List.filter_cons_of_pos (by simpa using hc)
        have hlen : todo.length + todo.countP full ≤ n := by
          simp only [List.length_cons, hcount] at hn
          omega
        rw [hstep, ih (done ++ [c]) todo k hne' hlen, hcount, hfilter]
        simp only [List.length_append, List.length_cons, List.length_nil, List.append_assoc,
          List.cons_append, List.nil_append, Option.some.injEq, Scan.mk.injEq, true_and, and_true]
        omega

/-- A marked last entry is never removed, so the scan never gets past it. -/
theorem scan_diverges (rows : List α) (e : α) (hl : rows.getLast? = some e) (he : full e = true)
    (n : ℕ) : iterate scanGuard (scanStep full) n ⟨rows, 0, 0⟩ = none := by
  -- the last entry stays marked, and the index stays in front of the end
  let I (s : Scan α) : Prop := s.rows.getLast? = some e ∧ s.index < s.rows.length
  have hne : ∀ rows : List α, rows.getLast? = some e → rows ≠ [] := by
    rintro _ h rfl
    simp at h
  apply iterate_diverges _ _ I
  · rintro ⟨rows, j, k⟩ ⟨hlast, hj⟩
    have hlast' : rows.getLast (hne rows hlast) = e := by
      rw [List.getLast?_eq_getLast_of_ne_nil (hne rows hlast)] at hlast
      exact Option.some.inj hlast
    change j < rows.length at hj
    by_cases hfull : full rows[j] = true
    · have hs : scanStep full ⟨rows, j, k⟩ = ⟨deleteAt j rows, j, k + 1⟩ := by
        simp [scanStep, List.getElem?_eq_getElem hj, hfull]
      rw [hs]
      refine ⟨?_, by simpa only [length_deleteAt j rows hj] using hj⟩
      change (deleteAt j rows).getLast? = some e
      simp only [deleteAt]
      rw [hlast]
      simp
    · have hs : scanStep full ⟨rows, j, k⟩ = ⟨rows, j + 1, k⟩ := by
        simp [scanStep, List.getElem?_eq_getElem hj, hfull]
      rw [hs]
      refine ⟨hlast, ?_⟩
      -- the unmarked entry at `j` is not the last one
      change j + 1 < rows.length
      by_contra hge
      have hjl : j = rows.length - 1 := by omega
      subst hjl
      rw [← List.getLast_eq_getElem (hne rows hlast), hlast', he] at hfull
      exact hfull rfl
  · rintro s ⟨_, hj⟩
    simpa [scanGuard] using hj
  · exact ⟨hl, List.length_pos_of_ne_nil (hne rows hl)⟩

end RowCompaction
