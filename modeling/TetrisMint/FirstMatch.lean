import Mathlib.Tactic

/-! Lists that are searched from the front for an entry with a given key. -/
namespace FirstMatch

variable {ε κ : Type*} (key : ε → κ) {l : List ε} {k : κ} {i : ℕ}

/-- An entry with `P` shares its key with no other entry. -/
def KeysUnique (P : ε → Prop) (l : List ε) : Prop :=
  ∀ (i j : ℕ) (x y : ε), l[i]? = some x → l[j]? = some y → P x → key x = key y → i = j

theorem getElem?_concat_eq_some {e x : ε} : (l ++ [x])[i]? = some e ↔
    l[i]? = some e ∨ i = l.length ∧ e = x := by
  rcases lt_trichotomy i l.length with hi | rfl | hi
  · rw [List.getElem?_append_left hi]
    exact ⟨Or.inl, fun h => h.resolve_right fun h => hi.ne h.1⟩
  · rw [List.getElem?_concat_length, List.getElem?_eq_none le_rfl, Option.some_inj]
    exact ⟨fun h => Or.inr ⟨rfl, h.symm⟩, fun h => (h.resolve_left (by simp)).2.symm⟩
  · have hnone : (l ++ [x])[i]? = none :=
      List.getElem?_eq_none (by rw [List.length_append, List.length_singleton]; omega)
    rw [hnone, List.getElem?_eq_none hi.le]
    exact ⟨fun h => absurd h (by simp), fun h => h.elim (fun h => absurd h (by simp)) fun h =>
      absurd h.1 hi.ne'⟩

theorem KeysUnique.concat {P : ε → Prop} (h : KeysUnique key P l) {e : ε}
    (hfresh : ∀ x ∈ l, key x ≠ key e) : KeysUnique key P (l ++ [e]) := by
  intro i j x y hx hy hP hkey
  rcases getElem?_concat_eq_some.mp hx with hxl | ⟨hi, hxe⟩
  · rcases getElem?_concat_eq_some.mp hy with hyl | ⟨-, hye⟩
    · exact h i j x y hxl hyl hP hkey
    · rw [hye] at hkey
      exact absurd hkey (hfresh x (List.mem_of_getElem? hxl))
  · rcases getElem?_concat_eq_some.mp hy with hyl | ⟨hj, -⟩
    · rw [hxe] at hkey
      exact absurd hkey.symm (hfresh y (List.mem_of_getElem? hyl))
    · rw [hi, hj]

variable [DecidableEq κ]

/-- The place of the first entry with the key `k`. -/
def lookup (k : κ) (l : List ε) : Option ℕ := l.findIdx? fun e => key e = k

theorem lookup_eq_some_iff : lookup key k l = some i ↔
    (∃ e, l[i]? = some e ∧ key e = k) ∧ ∀ j < i, ∀ e, l[j]? = some e → key e ≠ k := by
  rw [lookup, List.findIdx?_eq_some_iff_getElem]
  constructor
  · rintro ⟨hi, hkey, hfirst⟩
    refine ⟨⟨_, List.getElem?_eq_getElem hi, of_decide_eq_true hkey⟩, ?_⟩
    intro j hj e he
    obtain ⟨hlt, rfl⟩ := List.getElem?_eq_some_iff.mp he
    exact fun h => hfirst j hj (decide_eq_true h)
  · rintro ⟨⟨e, he, hkey⟩, hfirst⟩
    obtain ⟨hi, rfl⟩ := List.getElem?_eq_some_iff.mp he
    refine ⟨hi, decide_eq_true hkey, ?_⟩
    intro j hj h
    exact hfirst j hj _ (List.getElem?_eq_getElem (hj.trans hi)) (of_decide_eq_true h)

theorem exists_lookup {e : ε} (he : e ∈ l) : ∃ i, lookup key (key e) l = some i :=
  ⟨_, List.findIdx?_eq_some_of_exists ⟨e, he, decide_eq_true rfl⟩⟩

/-- Where the keys are unique each entry is found by its own. -/
theorem KeysUnique.lookup {P : ε → Prop} (h : KeysUnique key P l) {e : ε} (he : l[i]? = some e)
    (hP : P e) : lookup key (key e) l = some i := by
  apply (lookup_eq_some_iff key).mpr
  refine ⟨⟨e, he, rfl⟩, ?_⟩
  intro j hj e' he' hkey
  exact hj.ne (h i j e e' he he' hP hkey.symm).symm

theorem lookup_cons (e : ε) (l : List ε) :
    lookup key k (e :: l) = if key e = k then some 0 else (lookup key k l).map (· + 1) := by
  rw [lookup, List.findIdx?_cons]
  by_cases h : key e = k
  · rw [if_pos h, decide_eq_true h]
    rfl
  · rw [if_neg h, decide_eq_false h]
    rfl

end FirstMatch
