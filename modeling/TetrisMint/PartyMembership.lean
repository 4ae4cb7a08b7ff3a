import TetrisMint.ClientMessages

/-! Party membership is stored twice, in the list of a party and in the back
pointer of a player. When the two stay in step. -/
namespace TetrisMint

open FallibleRun

/-- The back pointer of a player. -/
def partyOf (i : ℕ) (s : Server) : Option ℕ := s.players[i]?.bind Player.party

/-- Every player is in at most one party, at most once there, and in a party
exactly when the player points to it. -/
structure PartyConsistent (s : Server) : Prop where
  once : ∀ l ∈ s.parties, l.Nodup
  one : ∀ i k k', i ∈ ttetrisPartyGetPlayers k s → i ∈ ttetrisPartyGetPlayers k' s → k = k'
  agrees : ∀ i k, i ∈ ttetrisPartyGetPlayers k s ↔ partyOf i s = some k

theorem partyOf_congr {s t : Server} (h : t.players.map Player.party = s.players.map Player.party)
    (i : ℕ) : partyOf i t = partyOf i s := by
  have hget (u : Server) : partyOf i u = (u.players.map Player.party)[i]?.join := by
    rw [List.getElem?_map, partyOf]
    cases u.players[i]? <;> rfl
  rw [hget, hget, h]

/-- Consistency is about the party lists and the back pointers only. -/
theorem PartyConsistent.congr {s t : Server}
    (hback : ∀ i, partyOf i t = partyOf i s) (hparties : t.parties = s.parties) :
    PartyConsistent t ↔ PartyConsistent s := by
  have hmembers (k : ℕ) : ttetrisPartyGetPlayers k t = ttetrisPartyGetPlayers k s := by
    rw [ttetrisPartyGetPlayers, ttetrisPartyGetPlayers, hparties]
  constructor
  · rintro ⟨honce, hone, hagrees⟩
    simp only [hmembers, hback, hparties] at honce hone hagrees
    exact ⟨honce, hone, hagrees⟩
  · rintro ⟨honce, hone, hagrees⟩
    refine ⟨hparties ▸ honce, ?_, ?_⟩
    · simpa only [hmembers] using hone
    · simpa only [hmembers, hback] using hagrees

section Forming

variable {s : Server} {l : List ℕ}

theorem partyOf_formParty (hl : ∀ i ∈ l, i < s.players.length) (i : ℕ) :
    partyOf i (formParty l s) = if i ∈ l then some s.parties.length else partyOf i s := by
  rw [partyOf, formParty_players, partyOf]
  split_ifs with hi
  · rw [List.getElem?_eq_getElem (hl i hi)]
    rfl
  · cases s.players[i]? <;> rfl

theorem members_formParty (k : ℕ) : ttetrisPartyGetPlayers k (formParty l s) =
    if k = s.parties.length then l else ttetrisPartyGetPlayers k s := by
  rw [ttetrisPartyGetPlayers, ttetrisPartyGetPlayers, formParty_parties,
    List.getD_eq_getElem?_getD, List.getD_eq_getElem?_getD]
  split_ifs with hk
  · rw [hk, List.getElem?_concat_length, Option.getD_some]
  · rcases Nat.lt_or_gt_of_ne hk with hlt | hgt
    · rw [List.getElem?_append_left hlt]
    · rw [List.getElem?_eq_none, List.getElem?_eq_none (by omega)]
      rw [List.length_append, List.length_singleton]
      omega

theorem members_new (k : ℕ) (hk : s.parties.length ≤ k) : ttetrisPartyGetPlayers k s = [] := by
  rw [ttetrisPartyGetPlayers, List.getD_eq_getElem?_getD, List.getElem?_eq_none hk, Option.getD_none]

/-- A new party keeps membership consistent exactly when it is formed of
different players that are in no party yet. -/
theorem formParty_consistent_iff (hs : PartyConsistent s) (hl : ∀ i ∈ l, i < s.players.length) :
    PartyConsistent (formParty l s) ↔ l.Nodup ∧ ∀ i ∈ l, partyOf i s = none := by
  constructor
  · intro ht
    refine ⟨ht.once l (by simp), ?_⟩
    intro i hi
    by_contra hsome
    obtain ⟨k, hk⟩ := Option.ne_none_iff_exists'.mp hsome
    have hold : i ∈ ttetrisPartyGetPlayers k s := (hs.agrees i k).mpr hk
    have hne : k ≠ s.parties.length := by
      rintro rfl
      rw [members_new _ (le_refl _)] at hold
      exact absurd hold (by simp)
    -- the old list still holds the player, and so does the new one
    apply hne
    apply ht.one i
    · rw [members_formParty, if_neg hne]
      exact hold
    · rw [members_formParty, if_pos rfl]
      exact hi
  · rintro ⟨hnodup, hfree⟩
    -- who joins points to the new party now, and pointed nowhere before
    have hagrees (i k : ℕ) : i ∈ ttetrisPartyGetPlayers k (formParty l s) ↔
        partyOf i (formParty l s) = some k := by
      rw [members_formParty, partyOf_formParty hl]
      have hold := hs.agrees i k
      by_cases hk : k = s.parties.length
      · rw [members_new k (by omega)] at hold
        rw [if_pos hk]
        split_ifs with hi
        · exact ⟨fun _ => by rw [hk], fun _ => hi⟩
        · rw [← hold]
          exact ⟨fun h => absurd h hi, fun h => absurd h (by simp)⟩
      · rw [if_neg hk, hold]
        split_ifs with hi
        · rw [hfree i hi, Option.some.injEq]
          exact ⟨fun h => absurd h (by simp), fun h => absurd h.symm hk⟩
        · exact Iff.rfl
    refine ⟨?_, ?_, hagrees⟩
    · intro l' hl'
      rw [formParty_parties] at hl'
      rcases List.mem_append.mp hl' with hold | hnew
      · exact hs.once l' hold
      · exact List.mem_singleton.mp hnew ▸ hnodup
    · intro i k k' hk hk'
      -- a player points to one party only
      rw [hagrees] at hk hk'
      exact Option.some.inj (hk.symm.trans hk')

end Forming

/-- The players of the party that an OPPONENT message forms: the sender, and the
players with the given names up to the first name that is not found. -/
def joiningPlayers (env : ServerEnv) (fd : ℕ) (msg : Message) (s : Server) :
    Except Fault (List ℕ) := do
  let names ← stringArrayDeserialize (env.heap s.parties.length) ⟨msg.body.length, msg.body⟩
  let sender ← deref (getPlayerFromFd fd s)
  let opponents ← invitedPlayers s.players names.strings
  .ok (sender :: opponents)

/-- An OPPONENT message brings together different players that are in no party. -/
def JoinsFree (env : ServerEnv) (s : Server) : Delivery → Prop
  | .message fd _ msg _ => msg.messageType = msgTypeOpponent →
      ∀ l, joiningPlayers env fd msg s = .ok l → l.Nodup ∧ ∀ i ∈ l, partyOf i s = none
  | .tick _ _ => True

section Deliveries

variable {env : ServerEnv} {s t : Server} {fd : ℕ} {stale : Fresh} {msg : Message}
  {wf : ClientMessage msg}

theorem deliver_opponent (htype : msg.messageType = msgTypeOpponent)
    (h : deliver env s (.message fd stale msg wf) = .ok t) :
    ∃ l, joiningPlayers env fd msg s = .ok l ∧ (∀ i ∈ l, i < s.players.length) ∧
      SameSeats (formParty l s) t := by
  obtain ⟨u, hseats, ⟨hother, -⟩ | ⟨hother, -⟩ | ⟨-, hinvite⟩ | ⟨-, hother, -⟩⟩ :=
    deliver_message_cases h
  · exact absurd (htype.symm.trans hother) (by decide)
  · exact absurd (htype.symm.trans hother) (by decide)
  · obtain ⟨names, i, l, hnames, hi, hl, rfl⟩ := inviteOpponents_eq_ok.mp hinvite
    refine ⟨i :: l, ?_, ?_, hseats⟩
    · simp only [joiningPlayers, bind_eq_ok, deref_eq_ok]
      exact ⟨names, hnames, i, hi, l, hl, rfl⟩
    · rw [List.forall_mem_cons]
      exact ⟨(List.findIdx?_eq_some_iff_getElem.mp hi).1, invitedPlayers_lt hl⟩
  · exact absurd htype hother

/-- A player who has just registered has no party. -/
theorem partyOf_playerCreate (fd : ℤ) (name : Bytes) (i : ℕ) :
    partyOf i (playerCreate env fd name s).1 = partyOf i s := by
  rw [partyOf, partyOf, playerCreate, List.getElem?_append]
  split_ifs with hi
  · rfl
  · rw [List.getElem?_eq_none (not_lt.mp hi)]
    cases i - s.players.length <;> rfl

/-- Only OPPONENT touches parties. -/
theorem deliver_other (htype : msg.messageType ≠ msgTypeOpponent)
    (h : deliver env s (.message fd stale msg wf) = .ok t) :
    (∀ i, partyOf i t = partyOf i s) ∧ t.parties = s.parties := by
  obtain ⟨u, hseats, hcases⟩ := deliver_message_cases h
  -- the boards that follow change nothing of this
  suffices hhandled : (∀ i, partyOf i u = partyOf i s) ∧ u.parties = s.parties from
    ⟨fun i => (partyOf_congr hseats.backPointers i).trans (hhandled.1 i),
      hseats.parties.trans hhandled.2⟩
  obtain ⟨-, name, rfl⟩ | ⟨-, hstart⟩ | ⟨hopponent, -⟩ | ⟨-, -, hsame⟩ := hcases
  · exact ⟨fun i => partyOf_playerCreate fd name i, rfl⟩
  · obtain ⟨i, p, -, -, rfl⟩ := startGame_eq_ok.mp hstart
    exact ⟨fun _ => rfl, rfl⟩
  · exact absurd hopponent htype
  · exact ⟨partyOf_congr hsame.backPointers, hsame.parties⟩

end Deliveries

theorem deliver_consistent_iff {env : ServerEnv} {s t : Server} {d : Delivery}
    (hs : PartyConsistent s) (h : deliver env s d = .ok t) :
    PartyConsistent t ↔ JoinsFree env s d := by
  cases d with
  | message fd stale msg wf =>
    by_cases htype : msg.messageType = msgTypeOpponent
    · obtain ⟨l, hl, hvalid, hseats⟩ := deliver_opponent htype h
      rw [PartyConsistent.congr (partyOf_congr hseats.backPointers) hseats.parties,
        formParty_consistent_iff hs hvalid]
      constructor
      · intro hfree _ l' hl'
        rw [hl, Except.ok.injEq] at hl'
        exact hl' ▸ hfree
      · exact fun hfree => hfree htype l hl
    · obtain ⟨hback, hparties⟩ := deliver_other htype h
      rw [PartyConsistent.congr hback hparties]
      exact ⟨fun _ hopponent => absurd hopponent htype, fun _ => hs⟩
  | tick clock fails =>
    obtain ⟨hback, hparties, -⟩ := deliver_tick h
    rw [PartyConsistent.congr (partyOf_congr hback) hparties]
    exact ⟨fun _ => trivial, fun _ => hs⟩

theorem serverInit_consistent : PartyConsistent serverInit where
  once := by simp [serverInit]
  one := by simp [serverInit, ttetrisPartyGetPlayers]
  agrees := by simp [serverInit, ttetrisPartyGetPlayers, partyOf]

/-- From the start of the server, party membership is consistent in every state
of a run exactly when every OPPONENT message joins different players that are in
no party. -/
theorem party_membership_consistent_iff (env : ServerEnv) {ds : List Delivery} {u : Server}
    (h : run (deliver env) serverInit ds = .ok u) :
    (∀ t, Visits (deliver env) serverInit ds t → PartyConsistent t) ↔
      Along (deliver env) (JoinsFree env) serverInit ds :=
  visits_iff_along (deliver env) (fun _ _ _ hs ht => deliver_consistent_iff hs ht)
    serverInit_consistent h

/-- One player invites another, and both were in no party. -/
theorem party_membership_consistent_invitation : ∃ u,
    run (deliver heroEnv) serverInit (registerBoth ++ [invitation 4 66 (by decide)]) = .ok u ∧
      ∀ t, Visits (deliver heroEnv) serverInit (registerBoth ++ [invitation 4 66 (by decide)]) t →
        PartyConsistent t := by
  obtain ⟨u, hu, -⟩ : ∃ u, run (deliver heroEnv) serverInit
      (registerBoth ++ [invitation 4 66 (by decide)]) = .ok u ∧ u.parties = [[0, 1]] := by
    apply exists_ok_of_map Server.parties
    decide +kernel
  refine ⟨u, hu, (party_membership_consistent_iff heroEnv hu).mpr ?_⟩
  -- what the third step finds after the two registrations
  obtain ⟨s, hs, hfacts⟩ : ∃ s, run (deliver heroEnv) serverInit registerBoth = .ok s ∧
      ((joiningPlayers heroEnv 4 (opponentMessage 3 15 [[66]] []) s).toOption, partyOf 0 s,
        partyOf 1 s) = (some [0, 1], none, none) := by
    apply exists_ok_of_map (fun s => ((joiningPlayers heroEnv 4 (opponentMessage 3 15 [[66]] [])
      s).toOption, partyOf 0 s, partyOf 1 s))
    decide +kernel
  simp only [Prod.mk.injEq] at hfacts
  obtain ⟨hjoin, hfirst, hsecond⟩ := hfacts
  refine ⟨fun h => absurd h (by decide), fun s₁ h₁ => ⟨fun h => absurd h (by decide), fun s₂ h₂ =>
    ⟨fun _ l hl => ?_, fun _ _ => trivial⟩⟩⟩
  have hsame : s₂ = s := by
    rw [registerBoth, run_cons_ok _ _ h₁, run_cons_ok _ _ h₂, run_nil, Except.ok.injEq] at hs
    exact hs
  rw [hsame] at hl ⊢
  have hlist : l = [0, 1] := by
    rw [hl] at hjoin
    exact Option.some.inj hjoin
  rw [hlist]
  exact ⟨by decide, by simp [hfirst, hsecond]⟩

/-- Two players invite each other: the first party keeps both, but they point to
the second. -/
theorem mutual_invitation_inconsistent : ∃ s,
    run (deliver heroEnv) serverInit
        (registerBoth ++ [invitation 4 66 (by decide), invitation 5 65 (by decide)]) = .ok s ∧
      ¬PartyConsistent s := by
  obtain ⟨s, hs, hfacts⟩ : ∃ s, run (deliver heroEnv) serverInit
      (registerBoth ++ [invitation 4 66 (by decide), invitation 5 65 (by decide)]) = .ok s ∧
        (s.parties, partyOf 0 s) = ([[0, 1], [1, 0]], some 1) := by
    apply exists_ok_of_map (fun s => (s.parties, partyOf 0 s))
    decide +kernel
  simp only [Prod.mk.injEq] at hfacts
  obtain ⟨hparties, hback⟩ := hfacts
  refine ⟨s, hs, fun hcons => ?_⟩
  -- the first party still lists player 0
  have hmember : 0 ∈ ttetrisPartyGetPlayers 0 s := by
    rw [ttetrisPartyGetPlayers, hparties]
    decide
  rw [hcons.agrees, hback] at hmember
  exact absurd hmember (by decide)

end TetrisMint
