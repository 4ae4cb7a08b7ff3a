import TetrisMint.FallibleRun

/-! Runs that keep a record of the calls made so far, the latest first, and what
holds of every call on such a record, given the calls before it. -/
namespace CallRecord

open FallibleRun

/-- A call that returned: the state it was made in, its arguments and its result. -/
structure Call (σ α ρ : Type*) where
  before : σ
  op : α
  ret : ρ

section Records

variable {σ α ρ : Type*}

/-- Every call on the record has the property `P`, which may look at the calls before it. -/
def Throughout (P : Call σ α ρ → List (Call σ α ρ) → Prop) : List (Call σ α ρ) → Prop
  | [] => True
  | c :: past => P c past ∧ Throughout P past

instance decidableThroughout (P : Call σ α ρ → List (Call σ α ρ) → Prop)
    [∀ c past, Decidable (P c past)] : (record : List (Call σ α ρ)) → Decidable (Throughout P record)
  | [] => isTrue trivial
  | c :: past =>
    have := decidableThroughout P past
    inferInstanceAs (Decidable (P c past ∧ Throughout P past))

theorem throughout_cons {P : Call σ α ρ → List (Call σ α ρ) → Prop} {c : Call σ α ρ}
    {past : List (Call σ α ρ)} : Throughout P (c :: past) ↔ P c past ∧ Throughout P past := Iff.rfl

end Records

section Runs

variable {σ α ρ ε : Type*} (call : σ → α → Except ε (σ × ρ))

/-- The call, put on the record. -/
def recordStep (s : σ × List (Call σ α ρ)) (a : α) : Except ε (σ × List (Call σ α ρ)) :=
  (call s.1 a).map fun r => (r.1, ⟨s.1, a, r.2⟩ :: s.2)

theorem recordStep_eq_ok {s t : σ × List (Call σ α ρ)} {a : α} : recordStep call s a = .ok t ↔
    ∃ r, call s.1 a = .ok r ∧ t = (r.1, ⟨s.1, a, r.2⟩ :: s.2) := by
  rw [recordStep]
  cases call s.1 a with
  | error e => simp [Except.map]
  | ok r => simp [Except.map, eq_comm]

/-- The record is written only: leaving it out gives the run without it. -/
theorem run_recordStep_fst (s : σ × List (Call σ α ρ)) (as : List α) :
    (run (recordStep call) s as).map Prod.fst =
      run (fun s a => (call s a).map Prod.fst) s.1 as := by
  have hstep (s : σ × List (Call σ α ρ)) (a : α) :
      (recordStep call s a).map Prod.fst = (call s.1 a).map Prod.fst := by
    rw [recordStep]
    cases call s.1 a with
    | error e => rfl
    | ok r => rfl
  exact @run_map _ _ _ (recordStep call) _ _ Prod.fst (fun _ => True) as
    (fun s a _ _ => hstep s a) (fun _ _ _ _ _ _ => trivial) s trivial

/-- Every run that returns has a record. -/
theorem exists_record {s u : σ} {as : List α}
    (h : run (fun s a => (call s a).map Prod.fst) s as = .ok u) (past : List (Call σ α ρ)) :
    ∃ record, run (recordStep call) (s, past) as = .ok (u, record) := by
  have hmap := run_recordStep_fst call (s, past) as
  rw [h] at hmap
  cases hrun : run (recordStep call) (s, past) as with
  | error e => exact absurd (hrun ▸ hmap) (by simp [Except.map])
  | ok v =>
    rw [hrun] at hmap
    obtain ⟨u', record⟩ := v
    exact ⟨record, by rw [show u' = u from Except.ok.inj hmap]⟩

/-- Two properties of the calls on a record agree when they agree on every new call:
`I` is what holds of a state and a record on which `P` has held so far. -/
theorem throughout_iff {P Q : Call σ α ρ → List (Call σ α ρ) → Prop}
    {I : σ → List (Call σ α ρ) → Prop}
    (hstep : ∀ s past a r, call s a = .ok r → (Throughout P past → I s past) →
      Throughout P (⟨s, a, r.2⟩ :: past) → I r.1 (⟨s, a, r.2⟩ :: past))
    (hPQ : ∀ s past a r, call s a = .ok r → Throughout P past → I s past →
      (P ⟨s, a, r.2⟩ past ↔ Q ⟨s, a, r.2⟩ past))
    {s : σ} (hs : I s []) {as : List α} {t : σ × List (Call σ α ρ)}
    (h : run (recordStep call) (s, []) as = .ok t) :
    Throughout P t.2 ↔ Throughout Q t.2 := by
  -- along the run the two agree on the record, and `I` holds where `P` has held
  have hinv : (Throughout P t.2 → I t.1 t.2) ∧ (Throughout P t.2 ↔ Throughout Q t.2) := by
    have hkeep : ∀ s a t,
        (Throughout P s.2 → I s.1 s.2) ∧ (Throughout P s.2 ↔ Throughout Q s.2) →
          recordStep call s a = .ok t →
            (Throughout P t.2 → I t.1 t.2) ∧ (Throughout P t.2 ↔ Throughout Q t.2) := by
      rintro ⟨s, past⟩ a t ⟨hI, hiff⟩ ht
      obtain ⟨r, hr, rfl⟩ := (recordStep_eq_ok call).mp ht
      refine ⟨hstep s past a r hr hI, ?_⟩
      rw [throughout_cons, throughout_cons, ← hiff]
      constructor
      · rintro ⟨hP, hpast⟩
        exact ⟨(hPQ s past a r hr hpast (hI hpast)).mp hP, hpast⟩
      · rintro ⟨hQ, hpast⟩
        exact ⟨(hPQ s past a r hr hpast (hI hpast)).mpr hQ, hpast⟩
    exact invariant_run (recordStep call) hkeep ⟨fun _ => hs, Iff.rfl⟩ h
  exact hinv.2

end Runs

end CallRecord
