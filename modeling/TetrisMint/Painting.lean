import Mathlib.Tactic

/-! Pictures that are painted piece by piece, each piece over the places that belong to it. -/
namespace Painting

variable {κ π γ : Type*} [DecidableEq κ] (owner : π → Option κ) (value : κ → π → γ)

/-- Paint the piece `k` over whatever is there. -/
def paint (picture : π → γ) (k : κ) : π → γ :=
  fun p => if owner p = some k then value k p else picture p

/-- A place shows its own piece once that has been painted, in whatever order. -/
theorem foldl_paint (ks : List κ) (picture : π → γ) (p : π) :
    ks.foldl (paint owner value) picture p =
      match owner p with
      | some k => if k ∈ ks then value k p else picture p
      | none => picture p := by
  induction ks generalizing picture with
  | nil => cases owner p <;> simp
  | cons k ks ih =>
    rw [List.foldl_cons, ih, paint]
    cases hp : owner p with
    | none => simp
    | some l =>
      simp only [Option.some.injEq, List.mem_cons]
      by_cases hl : l = k
      · subst hl
        simp
      · simp [hl]

variable {owner value}

/-- All pieces together are the whole picture where every place belongs to one of them. -/
theorem foldl_paint_of_mem {ks : List κ} {k : κ} (hk : k ∈ ks) (picture : π → γ) {p : π}
    (hp : owner p = some k) : ks.foldl (paint owner value) picture p = value k p := by
  simp only [foldl_paint, hp, if_pos hk]

end Painting
