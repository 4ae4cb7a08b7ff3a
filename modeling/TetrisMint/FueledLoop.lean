import Mathlib.Tactic

/-! While loops with a bound on the number of iterations. A loop that is still
running when the bound is used up has no result. -/
namespace FueledLoop

variable {σ τ : Type*} (c : σ → Bool) (f : σ → σ)

/-- At most `n` iterations of `while (c s) s = f s;`. -/
def iterate : ℕ → σ → Option σ
  | 0, s => if c s then none else some s
  | n + 1, s => if c s then iterate n (f s) else some s

def Terminates (s : σ) : Prop := ∃ n t, iterate c f n s = some t

@[simp] theorem iterate_exit (n : ℕ) (s : σ) (h : c s = false) : iterate c f n s = some s := by
  cases n <;> simp [iterate, h]

theorem iterate_continue (n : ℕ) (s : σ) (h : c s = true) :
    iterate c f (n + 1) s = iterate c f n (f s) := by
  simp [iterate, h]

/-- The invariant rule: what the body preserves holds at the exit, together
with the negated guard. -/
theorem iterate_invariant (I : σ → Prop) (hf : ∀ s, I s → c s = true → I (f s))
    {n : ℕ} {s t : σ} (hs : I s) (h : iterate c f n s = some t) : I t ∧ c t = false := by
  induction n generalizing s with
  | zero =>
    by_cases hc : c s = true
    · simp [iterate, hc] at h
    · rw [iterate_exit c f _ s (by simpa using hc), Option.some_inj] at h
      exact h ▸ ⟨hs, by simpa using hc⟩
  | succ n ih =>
    by_cases hc : c s = true
    · rw [iterate_continue c f _ s hc] at h
      exact ih (hf s hs hc) h
    · rw [iterate_exit c f _ s (by simpa using hc), Option.some_inj] at h
      exact h ▸ ⟨hs, by simpa using hc⟩

/-- The measure rule: a measure that the body decreases bounds the iterations. -/
theorem iterate_of_measure (I : σ → Prop) (μ : σ → ℕ) (hf : ∀ s, I s → c s = true → I (f s))
    (hμ : ∀ s, I s → c s = true → μ (f s) < μ s) {n : ℕ} {s : σ} (hs : I s) (hn : μ s ≤ n) :
    ∃ t, iterate c f n s = some t := by
  induction n generalizing s with
  | zero =>
    by_cases hc : c s = true
    · have := hμ s hs hc
      omega
    · exact ⟨s, iterate_exit c f _ s (by simpa using hc)⟩
  | succ n ih =>
    by_cases hc : c s = true
    · have := hμ s hs hc
      obtain ⟨t, ht⟩ := ih (hf s hs hc) (by omega)
      exact ⟨t, by rw [iterate_continue c f _ s hc, ht]⟩
    · exact ⟨s, iterate_exit c f _ s (by simpa using hc)⟩

/-- An invariant that keeps the guard true leaves the loop without a result. -/
theorem iterate_diverges (I : σ → Prop) (hf : ∀ s, I s → I (f s))
    (hc : ∀ s, I s → c s = true) (n : ℕ) {s : σ} (hs : I s) : iterate c f n s = none := by
  induction n generalizing s with
  | zero => simp [iterate, hc s hs]
  | succ n ih => rw [iterate_continue c f _ s (hc s hs), ih (hf s hs)]

/-- The simulation rule: a map that commutes with guard and body maps results. -/
theorem iterate_map (d : τ → Bool) (g : τ → τ) (abs : σ → τ) (hc : ∀ s, d (abs s) = c s)
    (hf : ∀ s, c s = true → abs (f s) = g (abs s)) (n : ℕ) (s : σ) :
    (iterate c f n s).map abs = iterate d g n (abs s) := by
  induction n generalizing s with
  | zero =>
    simp only [iterate, hc]
    split <;> rfl
  | succ n ih =>
    by_cases h : c s = true
    · rw [iterate_continue c f _ s h, iterate_continue d g _ _ (by rw [hc, h]), ih, hf s h]
    · rw [iterate_exit c f _ s (by simpa using h),
        iterate_exit d g _ _ (by rw [hc]; simpa using h), Option.map_some]

end FueledLoop
