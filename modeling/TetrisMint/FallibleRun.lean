import Mathlib.Tactic

/-! Runs of a step function that may fail, the states they visit, and the
induction rules for what holds along them. -/
namespace FallibleRun

section Sequence

universe u v w
variable {ε : Type u} {α β : Type v}

@[simp] theorem ok_bind (a : α) (f : α → Except ε β) : Except.ok a >>= f = f a := rfl

@[simp] theorem error_bind (e : ε) (f : α → Except ε β) :
    Except.error e >>= f = Except.error e := rfl

theorem bind_eq_ok {x : Except ε α} {f : α → Except ε β} {b : β} :
    x >>= f = .ok b ↔ ∃ a, x = .ok a ∧ f a = .ok b := by
  cases x <;> simp

theorem map_eq_ok {α : Type v} {β : Type w} {x : Except ε α} {f : α → β} {b : β} :
    x.map f = .ok b ↔ ∃ a, x = .ok a ∧ f a = b := by
  cases x <;> simp [Except.map]

/-- A result that can be computed from a returned value tells that there is one. -/
theorem exists_ok_of_map {x : Except ε α} (f : α → β) {b : β}
    (h : x.toOption.map f = some b) : ∃ a, x = .ok a ∧ f a = b := by
  cases x with
  | error e => exact absurd h (by simp [Except.toOption])
  | ok a => exact ⟨a, rfl, Option.some.inj h⟩

/-- The error of a result that is one. -/
def errorOf : Except ε α → Option ε
  | .error e => some e
  | .ok _ => none

@[simp] theorem errorOf_ok (a : α) : errorOf (.ok a : Except ε α) = none := rfl

@[simp] theorem errorOf_error (e : ε) : errorOf (.error e : Except ε α) = some e := rfl

theorem errorOf_eq_some {x : Except ε α} {e : ε} : errorOf x = some e ↔ x = .error e := by
  cases x <;> simp

theorem errorOf_eq_none {x : Except ε α} : errorOf x = none ↔ ∃ a, x = .ok a := by
  cases x <;> simp

theorem errorOf_map (x : Except ε α) (f : α → β) : errorOf (x.map f) = errorOf x := by
  cases x <;> rfl

/-- What comes after adds no error when it always returns. -/
theorem errorOf_bind {x : Except ε α} {f : α → Except ε β} (h : ∀ a, x = .ok a → ∃ b, f a = .ok b) :
    errorOf (x >>= f) = errorOf x := by
  cases x with
  | error e => rfl
  | ok a =>
    obtain ⟨b, hb⟩ := h a rfl
    rw [ok_bind, hb]
    rfl

/-- Two results are related: values that `R` relates, or the same error. -/
inductive Agree {α β : Type*} (R : α → β → Prop) : Except ε α → Except ε β → Prop
  | ok {a : α} {b : β} (h : R a b) : Agree R (.ok a) (.ok b)
  | error (e : ε) : Agree R (.error e) (.error e)

/-- The relational rule for a sequence of two computations. -/
theorem Agree.bind {α α' : Type v} {β β' : Type w} {R : α → β → Prop} {R' : α' → β' → Prop}
    {x : Except ε α} {y : Except ε β} {f : α → Except ε α'} {g : β → Except ε β'} (h : Agree R x y)
    (hf : ∀ a b, R a b → Agree R' (f a) (g b)) : Agree R' (x >>= f) (y >>= g) := by
  cases h with
  | ok h => exact hf _ _ h
  | error e => exact .error e

/-- The two ways in which results are related, for results that are given by equations. -/
theorem Agree.error_or_ok {R : α → β → Prop} {x : Except ε α} {y : Except ε β} (h : Agree R x y) :
    (∃ e, x = .error e ∧ y = .error e) ∨ ∃ a b, x = .ok a ∧ y = .ok b ∧ R a b := by
  cases h with
  | ok h => exact Or.inr ⟨_, _, rfl, rfl, h⟩
  | error e => exact Or.inl ⟨e, rfl, rfl⟩

theorem Agree.exists_ok {R : α → β → Prop} {a : α} {y : Except ε β} (h : Agree R (.ok a) y) :
    ∃ b, y = .ok b ∧ R a b := by
  rcases h.error_or_ok with ⟨e, hx, -⟩ | ⟨a', b, hx, hy, hR⟩
  · exact absurd hx (by simp)
  · rw [Except.ok.inj hx]
    exact ⟨b, hy, hR⟩

theorem Agree.errorOf_eq {R : α → β → Prop} {x : Except ε α} {y : Except ε β} (h : Agree R x y) :
    errorOf x = errorOf y := by
  cases h with
  | ok h => rfl
  | error e => rfl

theorem Agree.mono {R R' : α → β → Prop} {x : Except ε α} {y : Except ε β} (h : Agree R x y)
    (hR : ∀ a b, R a b → R' a b) : Agree R' x y := by
  cases h with
  | ok h => exact .ok (hR _ _ h)
  | error e => exact .error e

theorem Agree.map {α' β' : Type*} {R : α → β → Prop} {R' : α' → β' → Prop} {x : Except ε α}
    {y : Except ε β} {f : α → α'} {g : β → β'} (h : Agree R x y)
    (hf : ∀ a b, R a b → R' (f a) (g b)) : Agree R' (x.map f) (y.map g) := by
  cases h with
  | ok h => exact .ok (hf _ _ h)
  | error e => exact .error e

/-- Results with the same images are related by having them. -/
theorem Agree.of_map {γ : Type v} {f : α → γ} {g : β → γ} {x : Except ε α} {y : Except ε β}
    (h : x.map f = y.map g) : Agree (fun a b => f a = g b) x y := by
  cases x with
  | error e =>
    cases y with
    | error e' =>
      rw [Except.error.inj h]
      exact .error e'
    | ok b => exact absurd h (by simp [Except.map])
  | ok a =>
    cases y with
    | error e' => exact absurd h (by simp [Except.map])
    | ok b => exact .ok (Except.ok.inj h)

end Sequence

variable {σ α ε : Type*} (step : σ → α → Except ε σ)

/-- The steps `as` in order, up to the first one that fails. -/
def run : σ → List α → Except ε σ
  | s, [] => .ok s
  | s, a :: as =>
    match step s a with
    | .ok t => run t as
    | .error e => .error e

/-- A state that some prefix of `as` leads to. -/
def Visits (s : σ) (as : List α) (t : σ) : Prop := ∃ pre, pre <+: as ∧ run step s pre = .ok t

/-- Every step of the run that is reached meets the condition `P`. -/
def Along (P : σ → α → Prop) : σ → List α → Prop
  | _, [] => True
  | s, a :: as => P s a ∧ ∀ t, step s a = .ok t → Along P t as

instance decidableAlong (P : σ → α → Prop) [∀ s a, Decidable (P s a)] :
    (s : σ) → (as : List α) → Decidable (Along step P s as)
  | _, [] => isTrue trivial
  | s, a :: as =>
    match h : step s a with
    | .ok t =>
      have := decidableAlong P t as
      decidable_of_iff (P s a ∧ Along step P t as) (by simp [Along, h])
    | .error e => decidable_of_iff (P s a) (by simp [Along, h])

@[simp] theorem run_nil (s : σ) : run step s [] = .ok s := rfl

theorem run_cons (s : σ) (a : α) (as : List α) :
    run step s (a :: as) = step s a >>= fun t => run step t as := by
  rw [run]
  cases step s a with
  | error e => rfl
  | ok t => rfl

theorem run_cons_ok {s t : σ} {a : α} (as : List α) (h : step s a = .ok t) :
    run step s (a :: as) = run step t as := by
  simp [run, h]

theorem run_cons_eq_ok {s u : σ} {a : α} {as : List α} :
    run step s (a :: as) = .ok u ↔ ∃ t, step s a = .ok t ∧ run step t as = .ok u := by
  cases h : step s a <;> simp [run, h]

theorem run_append_ok {s t : σ} {as : List α} (bs : List α) (h : run step s as = .ok t) :
    run step s (as ++ bs) = run step t bs := by
  induction as generalizing s with
  | nil =>
    rw [run_nil, Except.ok.injEq] at h
    rw [List.nil_append, h]
  | cons a as ih =>
    obtain ⟨u, hu, hr⟩ := (run_cons_eq_ok step).mp h
    rw [List.cons_append, run_cons_ok step _ hu, ih hr]

theorem visits_start (s : σ) (as : List α) : Visits step s as s :=
  ⟨[], List.nil_prefix, rfl⟩

theorem visits_nil {s t : σ} : Visits step s [] t ↔ t = s := by
  constructor
  · rintro ⟨pre, hpre, hrun⟩
    rw [List.prefix_nil.mp hpre, run_nil, Except.ok.injEq] at hrun
    exact hrun.symm
  · rintro rfl
    exact visits_start step t []

theorem visits_cons {s t : σ} {a : α} {as : List α} :
    Visits step s (a :: as) t ↔ t = s ∨ ∃ u, step s a = .ok u ∧ Visits step u as t := by
  constructor
  · rintro ⟨pre, hpre, hrun⟩
    cases pre with
    | nil =>
      rw [run_nil, Except.ok.injEq] at hrun
      exact Or.inl hrun.symm
    | cons b pre =>
      obtain ⟨rfl, htail⟩ := List.cons_prefix_cons.mp hpre
      obtain ⟨u, hu, hrun⟩ := (run_cons_eq_ok step).mp hrun
      exact Or.inr ⟨u, hu, pre, htail, hrun⟩
  · rintro (rfl | ⟨u, hu, pre, hpre, hrun⟩)
    · exact visits_start step t _
    · exact ⟨a :: pre, List.cons_prefix_cons.mpr ⟨rfl, hpre⟩, by rw [run_cons_ok step _ hu, hrun]⟩

/-- The guarded invariant rule: what each step meeting `P` preserves holds in
every state visited by a run whose steps all meet `P`. -/
theorem invariant_along {I : σ → Prop} {P : σ → α → Prop}
    (hstep : ∀ s a t, I s → P s a → step s a = .ok t → I t)
    {s t : σ} {as : List α} (hs : I s) (ha : Along step P s as) (hv : Visits step s as t) : I t := by
  induction as generalizing s with
  | nil =>
    rw [visits_nil] at hv
    exact hv ▸ hs
  | cons a as ih =>
    rcases (visits_cons step).mp hv with rfl | ⟨u, hu, hv⟩
    · exact hs
    · exact ih (hstep s a u hs ha.1 hu) (ha.2 u hu) hv

/-- The invariant rule without a guard. -/
theorem invariant_run {I : σ → Prop} (hstep : ∀ s a t, I s → step s a = .ok t → I t)
    {s t : σ} {as : List α} (hs : I s) (h : run step s as = .ok t) : I t := by
  induction as generalizing s with
  | nil =>
    rw [run_nil, Except.ok.injEq] at h
    exact h ▸ hs
  | cons a as ih =>
    obtain ⟨u, hu, hr⟩ := (run_cons_eq_ok step).mp h
    exact ih (hstep s a u hs hu) hr

/-- A property `Q` of the states that an invariant `I` implies: when the steps that
meet `P` keep `I` and the others break `Q`, a run that returns has `Q` in all the
states it visits exactly when all its steps meet `P`. -/
theorem visits_iff_along_of {I Q : σ → Prop} {P : σ → α → Prop} (hIQ : ∀ s, I s → Q s)
    (hstep : ∀ s a t, I s → step s a = .ok t → P s a → I t)
    (hbreak : ∀ s a t, I s → step s a = .ok t → Q t → P s a)
    {s u : σ} {as : List α} (hs : I s) (h : run step s as = .ok u) :
    (∀ t, Visits step s as t → Q t) ↔ Along step P s as := by
  constructor
  · intro hall
    induction as generalizing s with
    | nil => exact trivial
    | cons a as ih =>
      obtain ⟨t, ht, hr⟩ := (run_cons_eq_ok step).mp h
      -- the states visited later are visited by the whole run too
      have hvis (v : σ) (hv : Visits step t as v) : Q v :=
        hall v ((visits_cons step).mpr (Or.inr ⟨t, ht, hv⟩))
      have hP : P s a := hbreak s a t hs ht (hvis t (visits_start step t as))
      refine ⟨hP, ?_⟩
      intro t' ht'
      rw [ht, Except.ok.injEq] at ht'
      exact ht' ▸ ih (hstep s a t hs ht hP) hr hvis
  · intro ha t hv
    exact hIQ t (invariant_along step (fun s a t hI hP ht => hstep s a t hI ht hP) hs ha hv)

/-- When `P` says exactly which steps keep `I`, a run that returns keeps `I` in
all the states it visits exactly when all its steps meet `P`. -/
theorem visits_iff_along {I : σ → Prop} {P : σ → α → Prop}
    (hstep : ∀ s a t, I s → step s a = .ok t → (I t ↔ P s a))
    {s u : σ} {as : List α} (hs : I s) (h : run step s as = .ok u) :
    (∀ t, Visits step s as t → I t) ↔ Along step P s as := by
  apply visits_iff_along_of step (fun _ hI => hI)
  · exact fun s a t hI ht => (hstep s a t hI ht).mpr
  · exact fun s a t hI ht => (hstep s a t hI ht).mp
  · exact hs
  · exact h

/-- What the condition `P` implies in the states of the invariant holds along the run too. -/
theorem along_mono {I : σ → Prop} {P Q : σ → α → Prop}
    (hstep : ∀ s a t, I s → P s a → step s a = .ok t → I t) (hPQ : ∀ s a, I s → P s a → Q s a)
    {s : σ} {as : List α} (hs : I s) (ha : Along step P s as) : Along step Q s as := by
  induction as generalizing s with
  | nil => exact trivial
  | cons a as ih => exact ⟨hPQ s a hs ha.1, fun t ht => ih (hstep s a t hs ha.1 ht) (ha.2 t ht)⟩

theorem along_imp {P Q : σ → α → Prop} (hPQ : ∀ s a, P s a → Q s a) {s : σ} {as : List α}
    (ha : Along step P s as) : Along step Q s as :=
  @along_mono _ _ _ step (fun _ => True) P Q (fun _ _ _ _ _ _ => trivial)
    (fun s a _ => hPQ s a) s as trivial ha

/-- A condition along a run that goes on. -/
theorem along_append {P : σ → α → Prop} {s t : σ} {as : List α} (bs : List α)
    (h : run step s as = .ok t) :
    Along step P s (as ++ bs) ↔ Along step P s as ∧ Along step P t bs := by
  induction as generalizing s with
  | nil =>
    rw [run_nil, Except.ok.injEq] at h
    rw [h, List.nil_append, Along, true_and]
  | cons a as ih =>
    obtain ⟨u, hu, hr⟩ := (run_cons_eq_ok step).mp h
    rw [List.cons_append, Along, Along, hu, and_assoc]
    simp only [Except.ok.injEq, forall_eq']
    rw [ih hr]

/-- An abstraction that every step follows carries a condition along a run over. -/
theorem along_abs {τ : Type*} {step' : τ → α → Except ε τ} {P : σ → α → Prop} {Q : τ → α → Prop}
    (abs : σ → τ) (habs : ∀ s a, (step s a).map abs = step' (abs s) a)
    (hPQ : ∀ s a, P s a → Q (abs s) a) {s : σ} {as : List α} (ha : Along step P s as) :
    Along step' Q (abs s) as := by
  induction as generalizing s with
  | nil => exact trivial
  | cons a as ih =>
    refine ⟨hPQ s a ha.1, ?_⟩
    intro t ht
    rw [← habs] at ht
    obtain ⟨u, hu, rfl⟩ := map_eq_ok.mp ht
    exact ih (ha.2 u hu)

/-- While a condition holds along a run, a step function that agrees wherever it holds
makes the same run. -/
theorem along_congr {step' : σ → α → Except ε σ} {P : σ → α → Prop}
    (h : ∀ s a, P s a → step' s a = step s a) {s : σ} {as : List α} (ha : Along step P s as) :
    Along step' P s as ∧ run step' s as = run step s as := by
  induction as generalizing s with
  | nil => exact ⟨trivial, rfl⟩
  | cons a as ih =>
    obtain ⟨hP, htail⟩ := ha
    rw [Along, run, run, h s a hP]
    cases hstep : step s a with
    | error e => exact ⟨⟨hP, fun t ht => absurd ht (by simp)⟩, rfl⟩
    | ok t =>
      obtain ⟨halong, hrun⟩ := ih (htail t hstep)
      refine ⟨⟨hP, ?_⟩, hrun⟩
      intro t' ht'
      rw [← Except.ok.inj ht']
      exact halong

/-- A condition on the inputs alone, for a run that returns. -/
theorem along_iff_forall {P : α → Prop} {s u : σ} {as : List α} (h : run step s as = .ok u) :
    Along step (fun _ a => P a) s as ↔ ∀ a ∈ as, P a := by
  induction as generalizing s with
  | nil => exact ⟨fun _ => by simp, fun _ => trivial⟩
  | cons a as ih =>
    obtain ⟨t, ht, hr⟩ := (run_cons_eq_ok step).mp h
    rw [List.forall_mem_cons, ← ih hr]
    constructor
    · rintro ⟨hP, htail⟩
      exact ⟨hP, htail t ht⟩
    · rintro ⟨hP, htail⟩
      refine ⟨hP, ?_⟩
      intro t' ht'
      rw [ht, Except.ok.injEq] at ht'
      exact ht' ▸ htail

/-- When `P` says exactly which steps return in a state of the invariant, a run
returns exactly when all its steps meet `P`. -/
theorem run_returns_iff_along {I : σ → Prop} {P : σ → α → Prop}
    (hstep : ∀ s a t, I s → step s a = .ok t → I t)
    (hret : ∀ s a, I s → ((∃ t, step s a = .ok t) ↔ P s a)) {s : σ} {as : List α} (hs : I s) :
    (∃ u, run step s as = .ok u) ↔ Along step P s as := by
  induction as generalizing s with
  | nil => exact ⟨fun _ => trivial, fun _ => ⟨s, rfl⟩⟩
  | cons a as ih =>
    constructor
    · rintro ⟨u, hu⟩
      obtain ⟨t, ht, hr⟩ := (run_cons_eq_ok step).mp hu
      refine ⟨(hret s a hs).mp ⟨t, ht⟩, ?_⟩
      intro t' ht'
      rw [ht, Except.ok.injEq] at ht'
      exact ht' ▸ (ih (hstep s a t hs ht)).mp ⟨u, hr⟩
    · rintro ⟨hP, htail⟩
      obtain ⟨t, ht⟩ := (hret s a hs).mpr hP
      obtain ⟨u, hu⟩ := (ih (hstep s a t hs ht)).mpr (htail t ht)
      exact ⟨u, by rw [run_cons_ok step _ ht, hu]⟩

/-- The simulation rule: an abstraction that commutes with every step of the
invariant's states commutes with the run. -/
theorem run_map {τ : Type*} {step' : τ → α → Except ε τ} (abs : σ → τ) {I : σ → Prop}
    {as : List α} (habs : ∀ s, ∀ a ∈ as, I s → (step s a).map abs = step' (abs s) a)
    (hstep : ∀ s, ∀ a ∈ as, ∀ t, I s → step s a = .ok t → I t) {s : σ} (hs : I s) :
    (run step s as).map abs = run step' (abs s) as := by
  induction as generalizing s with
  | nil => rfl
  | cons a as ih =>
    have hhead := habs s a (List.mem_cons_self ..) hs
    have htail := @ih (fun s b hb => habs s b (List.mem_cons_of_mem _ hb))
      fun s b hb => hstep s b (List.mem_cons_of_mem _ hb)
    rw [run_cons, run_cons, ← hhead]
    cases ha : step s a with
    | error e => rfl
    | ok t => exact htail (hstep s a (List.mem_cons_self ..) t hs ha)

/-- The simulation rule for the runs that return: an abstraction that follows every step that
returns follows the run. -/
theorem run_abs {τ : Type*} {step' : τ → α → Except ε τ} (abs : σ → τ)
    (hstep : ∀ s a t, step s a = .ok t → step' (abs s) a = .ok (abs t)) {s t : σ} {as : List α}
    (h : run step s as = .ok t) : run step' (abs s) as = .ok (abs t) := by
  induction as generalizing s with
  | nil =>
    rw [run_nil, Except.ok.injEq] at h
    rw [run_nil, h]
  | cons a as ih =>
    obtain ⟨u, hu, hr⟩ := (run_cons_eq_ok step).mp h
    rw [run_cons_ok step' as (hstep s a u hu), ih hr]

/-- The relational rule of a run: a relation that every step keeps is kept by the run, and
the two runs fail alike. -/
theorem Agree.run {τ : Type*} {step' : τ → α → Except ε τ} {R : σ → τ → Prop}
    (hstep : ∀ s t a, R s t → Agree R (step s a) (step' t a)) {s : σ} {t : τ} (h : R s t)
    (as : List α) : Agree R (run step s as) (run step' t as) := by
  induction as generalizing s t with
  | nil => exact .ok h
  | cons a as ih =>
    rw [run_cons, run_cons]
    exact (hstep s t a h).bind fun _ _ hR => ih hR

/-- The simulation rule with silent steps: inputs that `silent` names return and
are not seen by the abstraction, so the run can do without them. -/
theorem run_map_filter {τ : Type*} {step' : τ → α → Except ε τ} (abs : σ → τ) {I : σ → Prop}
    (silent : α → Bool)
    (hsilent : ∀ s a, I s → silent a = true → ∃ t, step s a = .ok t ∧ abs t = abs s)
    (habs : ∀ s a, I s → silent a = false → (step s a).map abs = step' (abs s) a)
    (hstep : ∀ s a t, I s → step s a = .ok t → I t) {s : σ} (hs : I s) (as : List α) :
    (run step s as).map abs = run step' (abs s) (as.filter fun a => !silent a) := by
  induction as generalizing s with
  | nil => rfl
  | cons a as ih =>
    by_cases ha : silent a = true
    · obtain ⟨t, ht, htabs⟩ := hsilent s a hs ha
      rw [List.filter_cons_of_neg (by simp [ha]), run_cons_ok step as ht, ih (hstep s a t hs ht), htabs]
    · rw [Bool.not_eq_true] at ha
      rw [List.filter_cons_of_pos (by simp [ha]), run_cons, run_cons, ← habs s a hs ha]
      cases hc : step s a with
      | error e => rfl
      | ok t => exact ih (hstep s a t hs hc)

/-- Inputs that leave a state as it is can come in any number. -/
theorem run_fixed {s : σ} {as : List α} (h : ∀ a ∈ as, step s a = .ok s) :
    run step s as = .ok s := by
  induction as with
  | nil => rfl
  | cons a as ih =>
    rw [List.forall_mem_cons] at h
    rw [run_cons_ok step as h.1, ih h.2]

/-- A run whose steps all return from the states of the invariant returns. -/
theorem run_returns {I : σ → Prop} {as : List α}
    (hstep : ∀ s, ∀ a ∈ as, I s → ∃ t, step s a = .ok t ∧ I t) {s : σ} (hs : I s) :
    ∃ t, run step s as = .ok t ∧ I t := by
  induction as generalizing s with
  | nil => exact ⟨s, rfl, hs⟩
  | cons a as ih =>
    obtain ⟨t, ht, hI⟩ := hstep s a (List.mem_cons_self ..) hs
    obtain ⟨u, hu, hIu⟩ := ih (fun s b hb => hstep s b (List.mem_cons_of_mem _ hb)) hI
    exact ⟨u, by rw [run_cons_ok step as ht, hu], hIu⟩

/-- A run fails as one of the steps from the states of the invariant does. -/
theorem run_error {I : σ → Prop} {P : ε → Prop} (hstep : ∀ s a t, I s → step s a = .ok t → I t)
    (hfault : ∀ s a e, I s → step s a = .error e → P e) {s : σ} {as : List α} {e : ε} (hs : I s)
    (h : run step s as = .error e) : P e := by
  induction as generalizing s with
  | nil => exact absurd h (by simp)
  | cons a as ih =>
    cases ha : step s a with
    | error e' =>
      rw [run, ha] at h
      exact Except.error.inj h ▸ hfault s a e' hs ha
    | ok t =>
      rw [run_cons_ok step as ha] at h
      exact ih (hstep s a t hs ha) h

/-- A run fails at the first step that fails, with its error. -/
theorem run_eq_error {s : σ} {as : List α} {e : ε} : run step s as = .error e ↔
    ∃ pre a post t, as = pre ++ a :: post ∧ run step s pre = .ok t ∧ step t a = .error e := by
  constructor
  · intro h
    induction as generalizing s with
    | nil => exact absurd h (by simp)
    | cons a as ih =>
      cases ha : step s a with
      | error e' =>
        rw [run, ha, Except.error.injEq] at h
        exact ⟨[], a, as, s, rfl, rfl, h ▸ ha⟩
      | ok t =>
        rw [run_cons_ok step as ha] at h
        obtain ⟨pre, b, post, u, rfl, hpre, hb⟩ := ih h
        exact ⟨a :: pre, b, post, u, rfl, by rw [run_cons_ok step _ ha, hpre], hb⟩
  · rintro ⟨pre, a, post, t, rfl, hpre, ha⟩
    rw [run_append_ok step _ hpre, run, ha]

/-- The rule of a run that may fail: when `fault` tells the error of every step from the states of
the invariant, a run fails at the first step with a fault, with this fault. -/
theorem run_fails_iff {I : σ → Prop} {fault : σ → α → Option ε}
    (hstep : ∀ s a t, I s → step s a = .ok t → I t)
    (hfault : ∀ s a, I s → errorOf (step s a) = fault s a) {s : σ} (hs : I s) (as : List α) :
    ((∃ t, run step s as = .ok t) ↔ Along step (fun s a => fault s a = none) s as) ∧
    ∀ e, run step s as = .error e ↔ ∃ pre a post t, as = pre ++ a :: post ∧
      run step s pre = .ok t ∧ fault t a = some e := by
  constructor
  · apply run_returns_iff_along step hstep _ hs
    intro s a hs
    rw [← hfault s a hs, errorOf_eq_none]
  · intro e
    have hsame (pre : List α) (a : α) (t : σ) (hpre : run step s pre = .ok t) :
        step t a = .error e ↔ fault t a = some e := by
      rw [← hfault t a (invariant_run step hstep hs hpre), errorOf_eq_some]
    rw [run_eq_error]
    constructor
    · rintro ⟨pre, a, post, t, hsplit, hpre, ha⟩
      exact ⟨pre, a, post, t, hsplit, hpre, (hsame pre a t hpre).mp ha⟩
    · rintro ⟨pre, a, post, t, hsplit, hpre, ha⟩
      exact ⟨pre, a, post, t, hsplit, hpre, (hsame pre a t hpre).mpr ha⟩

/-- The ranking rule: while `Q` does not hold, every input returns and keeps the invariant, and
the inputs that `counts` names take something off a measure; so enough of them lead to `Q`. -/
theorem visits_of_measure {I Q : σ → Prop} (μ : σ → ℕ) (counts : α → Bool) {as : List α}
    (hstep : ∀ s, ∀ a ∈ as, I s → ¬Q s → ∃ t, step s a = .ok t ∧
      (Q t ∨ I t ∧ μ t + (if counts a then 1 else 0) ≤ μ s))
    {s : σ} (hs : I s) (h : μ s < as.countP counts) : ∃ t, Visits step s as t ∧ Q t := by
  induction as generalizing s with
  | nil => exact absurd h (Nat.not_lt_zero _)
  | cons a as ih =>
    by_cases hQ : Q s
    · exact ⟨s, visits_start step s _, hQ⟩
    · obtain ⟨t, ht, hdone | ⟨hI, hμ⟩⟩ := hstep s a (List.mem_cons_self ..) hs hQ
      · exact ⟨t, (visits_cons step).mpr (Or.inr ⟨t, ht, visits_start step t as⟩), hdone⟩
      · have hless : μ t < as.countP counts := by
          rw [List.countP_cons] at h
          omega
        obtain ⟨u, hu, hQu⟩ := ih (fun s b hb => hstep s b (List.mem_cons_of_mem _ hb)) hI hless
        exact ⟨u, (visits_cons step).mpr (Or.inr ⟨t, ht, hu⟩), hQu⟩

/-- The rule of the counted loop: an invariant that depends on the number of turns. -/
theorem run_range {step : σ → ℕ → Except ε σ} {I : ℕ → σ → Prop} {n : ℕ}
    (hstep : ∀ i < n, ∀ s, I i s → ∃ t, step s i = .ok t ∧ I (i + 1) t) {s : σ} (hs : I 0 s) :
    ∃ t, run step s (List.range n) = .ok t ∧ I n t := by
  -- from turn `i` on there are `m` turns left
  have hrest (m i : ℕ) (hi : i + m = n) (s : σ) (hs : I i s) :
      ∃ t, run step s (List.range' i m) = .ok t ∧ I n t := by
    induction m generalizing i s with
    | zero => exact ⟨s, rfl, by rwa [← hi]⟩
    | succ m ih =>
      obtain ⟨t, ht, hI⟩ := hstep i (by omega) s hs
      obtain ⟨u, hu, hIu⟩ := ih (i + 1) (by omega) t hI
      exact ⟨u, by rw [List.range'_succ, run_cons_ok step _ ht, hu], hIu⟩
  rw [List.range_eq_range']
  exact hrest n 0 (Nat.zero_add n) s hs

theorem step_returns_of_run {s u : σ} {as : List α} (h : run step s as = .ok u) {a : α}
    (ha : a ∈ as) : ∃ s' t, step s' a = .ok t := by
  induction as generalizing s with
  | nil => exact absurd ha (by simp)
  | cons b as ih =>
    obtain ⟨t, ht, hr⟩ := (run_cons_eq_ok step).mp h
    rcases List.mem_cons.mp ha with rfl | hmem
    · exact ⟨s, t, ht⟩
    · exact ih hr hmem

/-- Inputs that every state treats alike give the same run. -/
theorem run_congr {β : Type*} {step' : σ → β → Except ε σ} {as : List α} {bs : List β}
    (h : List.Forall₂ (fun a b => ∀ s, step s a = step' s b) as bs) (s : σ) :
    run step s as = run step' s bs := by
  induction h generalizing s with
  | nil => rfl
  | cons hab _ ih =>
    rw [run, run, hab s]
    cases step' s _ with
    | error e => rfl
    | ok t => exact ih t

/-- What the steps of a run note down, in their order. -/
def collect {β : Type*} (note : σ → α → List β) : σ → List α → List β
  | _, [] => []
  | s, a :: as => note s a ++ (step s a).toOption.elim [] fun t => collect note t as

section Notes

variable {β γ τ : Type*} {note : σ → α → List β} {step' : τ → β → Except ε τ}

theorem collect_cons {s t : σ} {a : α} (as : List α) (h : step s a = .ok t) :
    collect step note s (a :: as) = note s a ++ collect step note t as := by
  rw [collect, h]
  rfl

theorem collect_append {s t : σ} {as : List α} (bs : List α) (h : run step s as = .ok t) :
    collect step note s (as ++ bs) = collect step note s as ++ collect step note t bs := by
  induction as generalizing s with
  | nil =>
    rw [run_nil, Except.ok.injEq] at h
    rw [h, List.nil_append, collect, List.nil_append]
  | cons a as ih =>
    obtain ⟨u, hu, hr⟩ := (run_cons_eq_ok step).mp h
    rw [List.cons_append, collect_cons step _ hu, collect_cons step _ hu, ih hr, List.append_assoc]

/-- Two notes that are the same in every state of a guarded invariant. -/
theorem collect_congr {I : σ → Prop} {P : σ → α → Prop} {note' : σ → α → List β}
    (hstep : ∀ s a t, I s → P s a → step s a = .ok t → I t)
    (h : ∀ s a t, I s → step s a = .ok t → note s a = note' s a) {s u : σ} {as : List α}
    (hs : I s) (ha : Along step P s as) (hrun : run step s as = .ok u) :
    collect step note s as = collect step note' s as := by
  induction as generalizing s with
  | nil => rfl
  | cons a as ih =>
    obtain ⟨t, ht, hr⟩ := (run_cons_eq_ok step).mp hrun
    rw [collect_cons step _ ht, collect_cons step _ ht, h s a t hs ht,
      ih (hstep s a t hs ha.1 ht) (ha.2 t ht) hr]

/-- Where the notes of each step are the inputs of another run, so are those of a whole run. -/
theorem run_collect (abs : σ → τ)
    (habs : ∀ s a t, step s a = .ok t → run step' (abs s) (note s a) = .ok (abs t))
    {s u : σ} {as : List α} (h : run step s as = .ok u) :
    run step' (abs s) (collect step note s as) = .ok (abs u) := by
  induction as generalizing s with
  | nil =>
    rw [run_nil, Except.ok.injEq] at h
    rw [collect, run_nil, h]
  | cons a as ih =>
    obtain ⟨t, ht, hr⟩ := (run_cons_eq_ok step).mp h
    rw [collect_cons step _ ht, run_append_ok step' _ (habs s a t ht), ih hr]

/-- What the other run notes down is noted down step by step. -/
theorem collect_collect (abs : σ → τ) {note' : τ → β → List γ}
    (habs : ∀ s a t, step s a = .ok t → run step' (abs s) (note s a) = .ok (abs t))
    {s u : σ} {as : List α} (h : run step s as = .ok u) :
    collect step' note' (abs s) (collect step note s as) =
      collect step (fun s a => collect step' note' (abs s) (note s a)) s as := by
  induction as generalizing s with
  | nil => rfl
  | cons a as ih =>
    obtain ⟨t, ht, hr⟩ := (run_cons_eq_ok step).mp h
    rw [collect_cons step _ ht, collect_cons step _ ht,
      collect_append step' _ (habs s a t ht), ih hr]

/-- Steps that note down one input at most skip no state of the other run. -/
theorem visits_collect (abs : σ → τ) (hone : ∀ s a, (note s a).length ≤ 1)
    (habs : ∀ s a t, step s a = .ok t → run step' (abs s) (note s a) = .ok (abs t))
    {s u : σ} {as : List α} (h : run step s as = .ok u) {v : τ}
    (hv : Visits step' (abs s) (collect step note s as) v) : ∃ t, Visits step s as t ∧ abs t = v := by
  induction as generalizing s with
  | nil =>
    rw [collect, visits_nil] at hv
    exact ⟨s, visits_start step s [], hv.symm⟩
  | cons a as ih =>
    obtain ⟨t, ht, hr⟩ := (run_cons_eq_ok step).mp h
    have hlater (hv : Visits step' (abs t) (collect step note t as) v) :
        ∃ w, Visits step s (a :: as) w ∧ abs w = v := by
      obtain ⟨w, hw, hwv⟩ := ih hr hv
      exact ⟨w, (visits_cons step).mpr (Or.inr ⟨t, ht, hw⟩), hwv⟩
    have hnote := habs s a t ht
    rw [collect_cons step _ ht] at hv
    cases hb : note s a with
    | nil =>
      -- the other run stays where it is
      rw [hb, run_nil, Except.ok.injEq] at hnote
      rw [hb, List.nil_append, hnote] at hv
      exact hlater hv
    | cons b bs =>
      -- the other run takes this one step
      have hbs : bs = [] := by
        have hlen := hone s a
        rw [hb, List.length_cons] at hlen
        exact List.eq_nil_of_length_eq_zero (by omega)
      subst hbs
      rw [hb, List.singleton_append] at hv
      obtain ⟨w, hw, hdone⟩ := (run_cons_eq_ok step').mp (hb ▸ hnote)
      rw [run_nil, Except.ok.injEq] at hdone
      rcases (visits_cons step').mp hv with rfl | ⟨w', hw', hv⟩
      · exact ⟨s, visits_start step s _, rfl⟩
      · rw [hw, Except.ok.injEq] at hw'
        exact hlater (hdone ▸ hw' ▸ hv)

end Notes

end FallibleRun
