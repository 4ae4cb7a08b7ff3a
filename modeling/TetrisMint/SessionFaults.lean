import TetrisMint.SessionPlan

/-! What brings the client without a server down. -/
namespace TetrisMint

open FallibleRun

/-- A call that fills the top row of the game never comes back from the loop of `cull_lines`. -/
def callFault (gc : GameContents) (op : Op) : Option Fault :=
  if TopRowFills gc op then some .nonterminating else none

/-- The fault of an event of the client, as far as it has one: a key or a clock whose call does not
come back, or the late turn of a clock whose view finds a layout to be done and no boards. -/
def sessionFault (s : Session) (event : SessionEvent) : Option Fault :=
  if s.mode.isExited then none
  else match event with
  | .signal _ => none
  | .key ch =>
    match s.mode with
    | .playing contents _ => ((s.keybindings.keymap.control ch).bind Control.op).bind (callFault contents)
    | _ => none
  | .turn =>
    match s.mode with
    | .playing contents true => callFault contents (.lower 1)
    | _ => none
  | .lastTurn clock =>
    s.cancelled[clock]?.bind fun contents =>
      (callFault contents (.lower 1)).or
        (if StaleLayout s.screen.renderer s.screen.size then some .nullDereference else none)

section Faults

variable (resizeTerm : TerminalSize → Canvas → ℤ × ℤ) (randR : RandR) (time : ℕ → BitVec 32)
  {s : Session} {p : Plan} {gc : GameContents} {op : Op}

theorem errorOf_play (hop : op ≠ .view) (hi : EngineInv gc) (p : Plan) :
    errorOf (p.play randR op gc.unshadowed) = callFault gc op := by
  rw [Plan.play, errorOf_bind fun game _ => ⟨_, rfl⟩, engineStep_unshadowed randR gc hop, errorOf_map,
    errorOf_engineStep randR hi, callFault]

theorem errorOf_key (h : Implements s p) (hexited : p.mode.isExited = false) (ch : ℤ) :
    errorOf (p.key randR time ch) = sessionFault s (.key ch) := by
  have hmode := h.mode
  rw [sessionFault, h.mode.isExited, hexited, if_neg Bool.false_ne_true]
  generalize hs : s.mode = m at hmode
  generalize hp : p.mode = planned at hmode
  cases hmode with
  | menu hlist =>
    simp only [Plan.key, hp]
    split_ifs <;> rfl
  | controls hshows =>
    simp only [Plan.key, hp]
    split_ifs <;> rfl
  | binding hasks => simp only [Plan.key, hp, errorOf_ok]
  | playing hi =>
    simp only [Plan.key, hp, h.keys]
    cases p.keys.control ch with
    | none => rfl
    | some c =>
      simp only [Option.bind_some]
      cases hop : c.op with
      | none => rfl
      | some op => exact (errorOf_bind fun a _ => ⟨_, rfl⟩).trans (errorOf_play randR (op_ne_view hop) hi p)
  | exited => simp only [Plan.key, hp, errorOf_ok]

/-- A late turn between two games fails where the layout is stale, and in a game as any other turn. -/
theorem errorOf_lastTurn (h : s.screen.Follows p) (hplayed : 0 < p.created) (hi : EngineInv gc) :
    errorOf (p.lastTurn randR gc.unshadowed) = (callFault gc (.lower 1)).or
      (if StaleLayout s.screen.renderer s.screen.size then some .nullDereference else none) := by
  have hplay := @errorOf_play randR gc (.lower 1) (by decide) hi p
  rw [Plan.lastTurn, ← hplay]
  cases hgame : p.mode.inGame with
  | true =>
    -- in a game the boards are there
    have hfine : ¬StaleLayout s.screen.renderer s.screen.size := by
      rintro ⟨-, -, hnone, -⟩
      obtain ⟨i, hi, -⟩ := (h.inGame hgame).array
      exact absurd (hi.symm.trans hnone) (Option.some_ne_none i)
    rw [if_neg hfine, Option.or_none]
    exact errorOf_bind fun a _ => ⟨_, rfl⟩
  | false =>
    simp only [stale_iff h hgame hplayed, Bool.false_eq_true, if_false]
    cases p.play randR (.lower 1) gc.unshadowed with
    | error e => rfl
    | ok b =>
      rw [ok_bind]
      split_ifs <;> rfl

theorem errorOf_turn (h : Implements s p) (hexited : p.mode.isExited = false) :
    errorOf (p.step randR time .turn) = sessionFault s .turn := by
  have hmode := h.mode
  simp only [Plan.step, sessionFault, h.mode.isExited, hexited]
  generalize hs : s.mode = m at hmode
  generalize hp : p.mode = planned at hmode
  cases hmode with
  | @playing contents clock hi =>
    cases clock with
    | false => rfl
    | true => exact (errorOf_bind fun a _ => ⟨_, rfl⟩).trans (errorOf_play randR (by decide) hi p)
  | _ => rfl

theorem errorOf_sessionStep (h : Implements s p) (event : SessionEvent) :
    errorOf (sessionStep resizeTerm randR time s event) = sessionFault s event := by
  rw [(sessionStep_implements resizeTerm randR time h event).errorOf_eq]
  cases hexited : p.mode.isExited with
  | true => simp only [Plan.step, sessionFault, h.mode.isExited, hexited, if_true, errorOf_ok]
  | false =>
    cases event with
    | turn => exact errorOf_turn randR time h hexited
    | key ch =>
      rw [← errorOf_key randR time h hexited ch]
      simp only [Plan.step, hexited]
      rfl
    | signal size =>
      simp only [Plan.step, sessionFault, h.mode.isExited, hexited]
      rfl
    | lastTurn clock =>
      have hget : p.cancelled[clock]? = s.cancelled[clock]?.map GameContents.unshadowed := by
        rw [← h.cancelled, List.getElem?_map]
      simp only [Plan.step, sessionFault, h.mode.isExited, hexited, hget]
      cases hclock : s.cancelled[clock]? with
      | none => rfl
      | some contents =>
        -- a clock that has been cancelled was one of a game, so there has been a game
        have hmem := List.mem_of_getElem? hclock
        have hplayed : 0 < p.created := by
          apply h.played
          rw [← h.cancelled]
          exact List.ne_nil_of_mem (List.mem_map_of_mem hmem)
        exact (errorOf_bind fun a _ => ⟨_, rfl⟩).trans
          (errorOf_lastTurn randR h.screen hplayed (h.games contents hmem))

end Faults

end TetrisMint
