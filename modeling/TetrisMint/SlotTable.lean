import Mathlib.Tactic

/-! Tables whose entries are stored in the lowest vacant place: what they hold
after an entry is stored or a place is vacated. -/
namespace SlotTable

variable {β : Type*} (vacant : β → Bool)

/-- The place `i` holds the entry `b`. -/
def Holds (t : List β) (i : ℕ) (b : β) : Prop := t[i]? = some b ∧ vacant b = false

/-- No two places hold the entry `b`. -/
def HeldOnce (t : List β) (b : β) : Prop := ∀ i j, Holds vacant t i b → Holds vacant t j b → i = j

/-- The lowest vacant place; in a full table the one behind the last. -/
def lowest (t : List β) : ℕ := t.findIdx vacant

/-- Store an entry in the lowest vacant place. A full table stays as it is. -/
def put (b : β) (t : List β) : List β := t.set (lowest vacant t) b

/-- Store an entry in the lowest vacant place. A full table grows by one place. -/
def alloc (b : β) (t : List β) : List β :=
  if lowest vacant t < t.length then put vacant b t else t ++ [b]

variable {vacant} {t t' : List β} {b : β}

theorem Holds.eq {i : ℕ} {x y : β} (hx : Holds vacant t i x) (hy : Holds vacant t i y) : x = y := by
  apply Option.some.inj
  rw [← hx.1, ← hy.1]

theorem holds_getD {i : ℕ} {e : β} (h : vacant (t.getD i e) = false) (he : vacant e = true) :
    Holds vacant t i (t.getD i e) := by
  rw [List.getD_eq_getElem?_getD] at h ⊢
  cases hi : t[i]? with
  | none =>
    rw [hi, Option.getD_none, he] at h
    exact absurd h (by simp)
  | some x =>
    rw [hi, Option.getD_some] at h
    exact ⟨hi, h⟩

theorem not_holds_lowest (b : β) : ¬Holds vacant t (lowest vacant t) b := by
  rintro ⟨hget, hb⟩
  obtain ⟨hlt, heq⟩ := List.getElem?_eq_some_iff.mp hget
  have hvacant : vacant (t.get ⟨lowest vacant t, hlt⟩) = true := List.findIdx_getElem
  rw [List.get_eq_getElem, heq, hb] at hvacant
  exact absurd hvacant (by simp)

theorem holds_put (hroom : lowest vacant t < t.length) (hb : vacant b = false) {i : ℕ} {x : β} :
    Holds vacant (put vacant b t) i x ↔ i = lowest vacant t ∧ x = b ∨ Holds vacant t i x := by
  by_cases hi : i = lowest vacant t
  · subst hi
    have hget : (put vacant b t)[lowest vacant t]? = some b := by
      rw [put, List.getElem?_set_self hroom]
    constructor
    · intro h
      exact Or.inl ⟨rfl, h.eq ⟨hget, hb⟩⟩
    · rintro (⟨-, rfl⟩ | h)
      · exact ⟨hget, hb⟩
      · exact absurd h (not_holds_lowest x)
  · have hget : (put vacant b t)[i]? = t[i]? := by
      rw [put, List.getElem?_set_ne (Ne.symm hi)]
    rw [Holds, hget]
    exact ⟨Or.inr, fun h => h.resolve_left fun h => hi h.1⟩

theorem lowest_le_length : lowest vacant t ≤ t.length := List.findIdx_le_length

theorem holds_alloc (hb : vacant b = false) {i : ℕ} {x : β} :
    Holds vacant (alloc vacant b t) i x ↔ i = lowest vacant t ∧ x = b ∨ Holds vacant t i x := by
  by_cases hroom : lowest vacant t < t.length
  · rw [alloc, if_pos hroom]
    exact holds_put hroom hb
  · have hlast : lowest vacant t = t.length := le_antisymm lowest_le_length (not_lt.mp hroom)
    rw [alloc, if_neg hroom, hlast]
    rcases lt_trichotomy i t.length with hi | rfl | hi
    · rw [Holds, List.getElem?_append_left hi]
      exact ⟨Or.inr, fun h => h.resolve_left fun h => hi.ne h.1⟩
    · rw [Holds, List.getElem?_concat_length, Holds, List.getElem?_eq_none le_rfl]
      constructor
      · rintro ⟨hx, -⟩
        exact Or.inl ⟨rfl, (Option.some.inj hx).symm⟩
      · rintro (⟨-, rfl⟩ | ⟨hx, -⟩)
        · exact ⟨rfl, hb⟩
        · exact absurd hx (by simp)
    · have hnone : (t ++ [b])[i]? = none :=
        List.getElem?_eq_none (by rw [List.length_append, List.length_singleton]; omega)
      rw [Holds, hnone, Holds, List.getElem?_eq_none hi.le]
      exact ⟨fun h => absurd h.1 (by simp), fun h => h.elim (fun h => absurd h.1 hi.ne') fun h =>
        absurd h.1 (by simp)⟩

/-- A vacated place, and no other, no longer holds its entry. -/
theorem holds_set_vacant {e : β} (he : vacant e = true) {i j : ℕ} {x : β} :
    Holds vacant (t.set i e) j x ↔ j ≠ i ∧ Holds vacant t j x := by
  by_cases hij : j = i
  · subst hij
    refine ⟨?_, fun h => absurd rfl h.1⟩
    rintro ⟨hget, hx⟩
    rw [List.getElem?_set_self'] at hget
    obtain ⟨y, -, hy⟩ := Option.map_eq_some_iff.mp hget
    rw [← hy, Function.const_apply, he] at hx
    exact absurd hx (by simp)
  · rw [Holds, List.getElem?_set_ne (Ne.symm hij)]
    exact ⟨fun h => ⟨hij, h⟩, fun h => h.2⟩

/-- Storing an entry that the table does not hold. -/
theorem HeldOnce.insert {k : ℕ} {x : β} (hx : HeldOnce vacant t x)
    (hfresh : ∀ i, ¬Holds vacant t i b)
    (hholds : ∀ i x, Holds vacant t' i x ↔ i = k ∧ x = b ∨ Holds vacant t i x) :
    HeldOnce vacant t' x := by
  intro i j hi hj
  rcases (hholds i x).mp hi with ⟨hik, rfl⟩ | hi
  · rcases (hholds j x).mp hj with ⟨hjk, -⟩ | hj
    · rw [hik, hjk]
    · exact absurd hj (hfresh j)
  · rcases (hholds j x).mp hj with ⟨-, rfl⟩ | hj
    · exact absurd hi (hfresh i)
    · exact hx i j hi hj

theorem HeldOnce.set_vacant {e x : β} (he : vacant e = true) (hx : HeldOnce vacant t x) (k : ℕ) :
    HeldOnce vacant (t.set k e) x := by
  intro i j hi hj
  exact hx i j ((holds_set_vacant he).mp hi).2 ((holds_set_vacant he).mp hj).2

theorem lowest_append {front back : List β} {e : β} (hfront : ∀ x ∈ front, vacant x = false)
    (he : vacant e = true) : lowest vacant (front ++ e :: back) = front.length := by
  have hfull : front.findIdx vacant = front.length := List.findIdx_eq_length.mpr hfront
  rw [lowest, List.findIdx_append, if_neg (by omega), List.findIdx_cons, he]
  exact Nat.zero_add _

/-- A table whose first places are taken is filled in order. -/
theorem put_append {front back : List β} {e : β} (hfront : ∀ x ∈ front, vacant x = false)
    (he : vacant e = true) : put vacant b (front ++ e :: back) = front ++ b :: back := by
  rw [put, lowest_append hfront he, List.set_append_right _ _ le_rfl, Nat.sub_self]
  rfl

theorem alloc_full (h : ∀ x ∈ t, vacant x = false) :
    lowest vacant t = t.length ∧ alloc vacant b t = t ++ [b] := by
  have hfull : lowest vacant t = t.length := List.findIdx_eq_length.mpr h
  refine ⟨hfull, ?_⟩
  rw [alloc, hfull, if_neg (lt_irrefl _)]

end SlotTable
