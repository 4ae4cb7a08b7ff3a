import TetrisMint.PartyMembership

/-! An OPPONENT message with names that nobody has registered: the party is formed
of the sender and the players that are named before the first name that is not found. -/
namespace TetrisMint

open CStrings FallibleRun

/-- The text that a decoded name was copied from. The copy has one byte more,
which holds what malloc left there. -/
def copiedText (item : Option Bytes) : Bytes := (item.getD []).dropLast

/-- The decoder fills the items from `index` on with texts and one more byte each. -/
theorem deserializeStrings_items {heap : ℕ → Fresh} {maxStringLength : ℤ} {bytes : Bytes}
    {count index messageIndex : ℕ} {arr arr' : StringArray}
    (hsize : arr.strings.length = index + count)
    (hfront : ∀ item ∈ arr.strings.take index, ∃ u g, item = some (u ++ [g]) ∧ 0 ∉ u)
    (h : deserializeStrings heap maxStringLength bytes count index messageIndex arr = .ok arr') :
    ∀ item ∈ arr'.strings, ∃ u g, item = some (u ++ [g]) ∧ 0 ∉ u := by
  induction count generalizing index messageIndex arr with
  | zero =>
    rw [deserializeStrings, Except.ok.injEq] at h
    rw [← h]
    rwa [List.take_of_length_le (by omega)] at hfront
  | succ count ih =>
    obtain ⟨len, arr₁, -, hcall, hlater⟩ := deserializeStrings_succ_eq_ok.mp h
    obtain ⟨u, rest, -, hu, -, hindex, -, -, hstr⟩ := stringArraySetItem_eq_ok.mp hcall
    apply ih _ _ hlater
    · rw [hstr, List.length_set]
      omega
    · -- the item at `index` is new, those before it are as they were
      intro item hitem
      rw [hstr, List.take_add_one, List.take_set_of_le (le_refl _),
        List.getElem?_set_self hindex] at hitem
      rcases List.mem_append.mp hitem with hold | hnew
      · exact hfront item hold
      · exact ⟨u, _, by simpa using hnew, hu⟩

theorem stringArrayDeserialize_items {heap : ℕ → Fresh} {blob : Blob} {arr : StringArray}
    (h : stringArrayDeserialize heap blob = .ok arr) :
    ∀ item ∈ arr.strings, ∃ u g, item = some (u ++ [g]) ∧ 0 ∉ u := by
  simp only [stringArrayDeserialize, bind_eq_ok] at h
  obtain ⟨maxStringLength, -, length, -, h⟩ := h
  apply deserializeStrings_items _ _ h
  · simp [stringArrayCreate]
  · simp

section Lookups

variable {players : List Player}

/-- strcmp finds the name of a player only in a copy that ends with its NUL. -/
theorem strEq_copy {name u : Bytes} {g : UInt8} (hname : 0 ∉ name) (hu : 0 ∉ u)
    (h : strEq (name ++ [0]) (u ++ [g]) = some true) : u = name ∧ g = 0 := by
  obtain ⟨rest, hrest⟩ := strEq_eq_true h hname
  apply cString_snoc hu
  rw [hrest]
  exact cString_terminated hname rest

/-- A player that is found stands in the list and compares equal. -/
theorem playerGetByName_found {name : Bytes} {index i : ℕ}
    (h : playerGetByName name index players = .ok (some i)) :
    ∃ p, players[i - index]? = some p ∧ index ≤ i ∧ strEq (p.name ++ [0]) name = some true := by
  induction players generalizing index with
  | nil => exact absurd h (by simp [playerGetByName])
  | cons p players ih =>
    simp only [playerGetByName, bind_eq_ok, access_eq_ok] at h
    obtain ⟨equal, hequal, h⟩ := h
    split_ifs at h with he
    · rw [Except.ok.injEq, Option.some.injEq] at h
      subst h
      exact ⟨p, by simp, le_refl _, by rw [hequal, he]⟩
    · obtain ⟨q, hq, hle, hqe⟩ := ih h
      refine ⟨q, ?_, by omega, hqe⟩
      rw [show i - index = i - (index + 1) + 1 by omega, List.getElem?_cons_succ]
      exact hq

/-- A name that is not found compares equal with no player's. -/
theorem playerGetByName_missing {name : Bytes} {index : ℕ}
    (h : playerGetByName name index players = .ok none) :
    ∀ p ∈ players, strEq (p.name ++ [0]) name = some false := by
  induction players generalizing index with
  | nil => simp
  | cons p players ih =>
    simp only [playerGetByName, bind_eq_ok, access_eq_ok] at h
    obtain ⟨equal, hequal, h⟩ := h
    split_ifs at h with he
    · exact absurd h (by simp)
    · rw [List.forall_mem_cons]
      exact ⟨by rw [hequal, Bool.eq_false_of_not_eq_true he], ih h⟩

end Lookups

/-- The player whom a name in the message stands for. -/
structure NamesPlayer (s : Server) (item : Option Bytes) (i : ℕ) : Prop where
  found : playerGetByName (item.getD []) 0 s.players = .ok (some i)
  registered : s.players[i]?.map Player.name = some (copiedText item)

section Registered

variable {s : Server} (htexts : ∀ p ∈ s.players, 0 ∉ p.name) {item : Option Bytes}
  (hitem : ∃ u g, item = some (u ++ [g]) ∧ 0 ∉ u)

include htexts hitem in
/-- Who is found has the name that the message gives. -/
theorem namesPlayer_of_found {name : Bytes} {i : ℕ} (hname : item = some name)
    (h : playerGetByName name 0 s.players = .ok (some i)) : NamesPlayer s item i := by
  obtain ⟨u, g, hcopy, hu⟩ := hitem
  obtain ⟨p, hp, -, hequal⟩ := playerGetByName_found h
  rw [hcopy, Option.some.injEq] at hname
  rw [Nat.sub_zero] at hp
  have hnul : 0 ∉ p.name := htexts p (List.mem_of_getElem? hp)
  rw [← hname] at h hequal
  obtain ⟨hu', -⟩ := strEq_copy hnul hu hequal
  refine ⟨by rw [hcopy]; exact h, ?_⟩
  rw [hp, hcopy, copiedText, Option.getD_some, List.dropLast_concat, hu']
  rfl

include htexts hitem in
/-- A name that is not found is not registered, unless its copy lost the NUL. -/
theorem copy_of_missing {name : Bytes} (hname : item = some name)
    (h : playerGetByName name 0 s.players = .ok none)
    (hregistered : copiedText item ∈ s.players.map Player.name) :
    item ≠ some (copiedText item ++ [0]) := by
  obtain ⟨u, g, hcopy, hu⟩ := hitem
  obtain ⟨p, hp, hu'⟩ := List.mem_map.mp hregistered
  have hdiffers := playerGetByName_missing h p hp
  intro hterminated
  rw [← hu', hname, Option.some.injEq] at hterminated
  rw [hterminated, strEq_terminated (htexts p hp) (htexts p hp)] at hdiffers
  exact absurd hdiffers (by simp)

include htexts in
/-- The names are looked up one after the other, up to the first that is not found. -/
theorem invitedPlayers_split {names : List (Option Bytes)} {found : List ℕ}
    (hitems : ∀ item ∈ names, ∃ u g, item = some (u ++ [g]) ∧ 0 ∉ u)
    (h : invitedPlayers s.players names = .ok found) : ∃ front back, names = front ++ back ∧
      List.Forall₂ (NamesPlayer s) front found ∧
      (∀ item ∈ front, copiedText item ∈ s.players.map Player.name) ∧
      (back = [] ∨ ∃ name later, back = some name :: later ∧
        playerGetByName name 0 s.players = .ok none) := by
  induction names generalizing found with
  | nil =>
    rw [← Except.ok.inj h]
    exact ⟨[], [], rfl, .nil, by simp, Or.inl rfl⟩
  | cons item names ih =>
    rw [List.forall_mem_cons] at hitems
    simp only [invitedPlayers, bind_eq_ok, deref_eq_ok] at h
    obtain ⟨name, hname, o, ho, h⟩ := h
    cases o with
    | none =>
      -- the first name that is not found ends the loop
      rw [← Except.ok.inj h, hname]
      exact ⟨[], some name :: names, rfl, .nil, by simp, Or.inr ⟨name, names, rfl, ho⟩⟩
    | some i =>
      obtain ⟨later, hlater, h⟩ := bind_eq_ok.mp h
      rw [← Except.ok.inj h]
      obtain ⟨front, back, rfl, hfound, hfront, hback⟩ := ih hitems.2 hlater
      have hfirst := namesPlayer_of_found htexts hitems.1 hname ho
      obtain ⟨p, hp, hpname⟩ := Option.map_eq_some_iff.mp hfirst.registered
      refine ⟨item :: front, back, rfl, .cons hfirst hfound, ?_, hback⟩
      rw [List.forall_mem_cons]
      exact ⟨List.mem_map.mpr ⟨p, List.mem_of_getElem? hp, hpname⟩, hfront⟩

end Registered

/-- When a name of an OPPONENT message is not registered, the sender and the players
named before the first name that is not found move to one new party, and its list
holds just them; all other players stay where they are and no other list changes.
Every registered name is found whose copy the decoder has terminated. -/
theorem opponents_up_to_missing (env : ServerEnv) {s t : Server} {fd : ℕ} {stale : Fresh}
    {msg : Message} {names : StringArray} (hmsg : ClientMessage msg)
    (htype : msg.messageType = msgTypeOpponent) (htexts : ∀ p ∈ s.players, 0 ∉ p.name)
    (hnames : stringArrayDeserialize (env.heap s.parties.length) ⟨msg.body.length, msg.body⟩ =
      .ok names)
    (hmissing : ∃ item ∈ names.strings, copiedText item ∉ s.players.map Player.name)
    (h : readFromClient env fd stale msg.encode s = .ok t) :
    ∃ sender found front item back, getPlayerFromFd fd s = some sender ∧
      names.strings = front ++ item :: back ∧ List.Forall₂ (NamesPlayer s) front found ∧
      (copiedText item ∈ s.players.map Player.name → item ≠ some (copiedText item ++ [0])) ∧
      t.parties = s.parties ++ [sender :: found] ∧
      ∀ i, partyOf i t = if i ∈ sender :: found then some s.parties.length else partyOf i s := by
  have hdeliver : deliver env s (.message fd stale msg hmsg) = .ok t := h
  obtain ⟨l, hl, hvalid, hseats⟩ := deliver_opponent htype hdeliver
  simp only [joiningPlayers, hnames, ok_bind, bind_eq_ok, deref_eq_ok] at hl
  obtain ⟨sender, hsender, found, hinvited, hl⟩ := hl
  rw [Except.ok.injEq] at hl
  subst hl
  have hitems := stringArrayDeserialize_items hnames
  obtain ⟨front, back, hsplit, hfound, hfront, hback⟩ :=
    invitedPlayers_split htexts hitems hinvited
  obtain rfl | ⟨name, later, rfl, hnone⟩ := hback
  · -- all names would be registered
    obtain ⟨item, hin, hout⟩ := hmissing
    rw [hsplit, List.append_nil] at hin
    exact absurd (hfront item hin) hout
  · refine ⟨sender, found, front, some name, later, hsender, hsplit, hfound, ?_, ?_, ?_⟩
    · exact copy_of_missing htexts (hitems _ (by rw [hsplit]; simp)) rfl hnone
    · rw [hseats.parties, formParty_parties]
    · intro i
      rw [partyOf_congr hseats.backPointers, partyOf_formParty hvalid]

/-- The names B and C of an OPPONENT message. -/
theorem twoNames_wellFormed : ClientMessage (opponentMessage 3 15 [[66], [67]] []) :=
  opponentMessage_wellFormed (by decide) (by decide) (by decide) (by change 24 ≤ 2048; decide)

/-- The players A and B have registered, and A invites B and C. -/
theorem exists_twoNames : ∃ s t, run (deliver heroEnv) serverInit registerBoth = .ok s ∧
    readFromClient heroEnv 4 (fun _ => 0) (opponentMessage 3 15 [[66], [67]] []).encode s = .ok t ∧
    s.players.map Player.name = [[65], [66]] ∧ s.parties = [] ∧ partyOf 1 s = none ∧
    t.parties = [[0, 1]] ∧ partyOf 1 t = some 0 := by
  obtain ⟨s, hs, hbefore⟩ : ∃ s, run (deliver heroEnv) serverInit registerBoth = .ok s ∧
      (s.players.map Player.name, s.parties, partyOf 1 s) = ([[65], [66]], [], none) := by
    apply exists_ok_of_map (fun s => (s.players.map Player.name, s.parties, partyOf 1 s))
    decide +kernel
  obtain ⟨t, ht, hafter⟩ : ∃ t, run (deliver heroEnv) serverInit
      (registerBoth ++ [.message 4 (fun _ => 0) _ twoNames_wellFormed]) = .ok t ∧
        (t.parties, partyOf 1 t) = ([[0, 1]], some 0) := by
    apply exists_ok_of_map (fun t => (t.parties, partyOf 1 t))
    decide +kernel
  simp only [Prod.mk.injEq] at hbefore hafter
  obtain ⟨hnames, hparties, hfree⟩ := hbefore
  refine ⟨s, t, hs, ?_, hnames, hparties, hfree, hafter.1, hafter.2⟩
  -- the two registrations come first
  simp only [registerBoth, List.cons_append, List.nil_append, run_cons_eq_ok, run_nil,
    Except.ok.injEq] at hs ht
  obtain ⟨s₁, h₁, s₂, h₂, rfl⟩ := hs
  obtain ⟨t₁, k₁, t₂, k₂, t₃, k₃, rfl⟩ := ht
  rw [h₁, Except.ok.injEq] at k₁
  subst k₁
  rw [h₂, Except.ok.injEq] at k₂
  subst k₂
  exact k₃

/-- B is found and C is not: A and B are the new party. -/
theorem opponents_up_to_missing_two_names : ∃ s t found,
    run (deliver heroEnv) serverInit registerBoth = .ok s ∧
      readFromClient heroEnv 4 (fun _ => 0) (opponentMessage 3 15 [[66], [67]] []).encode s =
        .ok t ∧ t.parties = s.parties ++ [0 :: found] ∧ found = [1] := by
  obtain ⟨s, t, hs, ht, hplayers, hparties, -, hafter, -⟩ := exists_twoNames
  obtain ⟨names, hnames, hstrings⟩ : ∃ names, stringArrayDeserialize (fun _ _ => 0)
      ⟨24, (opponentMessage 3 15 [[66], [67]] []).body⟩ = .ok names ∧
        names.strings = [some [66, 0], some [67, 0]] := by
    apply exists_ok_of_map StringArray.strings
    decide +kernel
  have htexts : ∀ p ∈ s.players, 0 ∉ p.name := by
    have hall : ∀ name ∈ s.players.map Player.name, 0 ∉ name := by
      rw [hplayers]
      decide
    intro p hp
    exact hall p.name (List.mem_map.mpr ⟨p, hp, rfl⟩)
  obtain ⟨sender, found, front, item, back, hsender, -, -, -, hnew, -⟩ :=
    opponents_up_to_missing heroEnv twoNames_wellFormed rfl htexts hnames
      ⟨some [67, 0], by rw [hstrings]; simp, by rw [hplayers]; decide⟩ ht
  have hlist : [sender :: found] = [[0, 1]] := by
    rw [← hafter, hnew, hparties, List.nil_append]
  simp only [List.cons.injEq, and_true] at hlist
  exact ⟨s, t, found, hs, ht, hlist.1 ▸ hnew, hlist.2⟩

/-- C is not registered, and B has been moved to a new party all the same. -/
theorem invitation_not_atomic : ∃ s t, run (deliver heroEnv) serverInit registerBoth = .ok s ∧
    readFromClient heroEnv 4 (fun _ => 0) (opponentMessage 3 15 [[66], [67]] []).encode s = .ok t ∧
    [67] ∉ s.players.map Player.name ∧ partyOf 1 t ≠ partyOf 1 s ∧ t.parties ≠ s.parties := by
  obtain ⟨s, t, hs, ht, hplayers, hparties, hbefore, hafter, hparty⟩ := exists_twoNames
  refine ⟨s, t, hs, ht, ?_, ?_, ?_⟩
  · rw [hplayers]
    decide
  · rw [hbefore, hparty]
    simp
  · rw [hparties, hafter]
    simp

end TetrisMint
