import TetrisMint.ServerSpec

/-! The shadow block of a game. It is written anew before each use, so no other
operation depends on it and what draws a game changes nothing else. -/
namespace TetrisMint

open CStrings FallibleRun

section Games

/-- A game without its shadow block, which is written anew before each use. -/
def GameContents.unshadowed (gc : GameContents) : GameContents :=
  { gc with shadowBlock := callocBlock }

theorem view_unshadowed {randR : RandR} {gc gc' : GameContents}
    (h : engineStep randR gc .view = .ok gc') : gc'.unshadowed = gc.unshadowed := by
  simp only [engineStep, Op.call, generateGameViewData, generateShadowBlock] at h
  cases hdrop : dropBlock gc gc.activeBlock with
  | error e =>
    rw [hdrop] at h
    exact absurd h (by simp [Except.map])
  | ok block =>
    rw [hdrop] at h
    simp only at h
    split at h
    · exact absurd h (by simp [Except.map])
    · split at h
      · exact absurd h (by simp [Except.map])
      · simp only [Except.map, Except.ok.injEq] at h
        rw [← h]
        rfl

variable (randR : RandR) (gc : GameContents)

theorem cullLines_unshadowed :
    cullLines gc.unshadowed = (cullLines gc).map GameContents.unshadowed := by
  have hboard : gc.unshadowed.board = gc.board := rfl
  rw [cullLines, cullLines, hboard]
  cases cullLoop gc.board with
  | none => rfl
  | some s => rfl

theorem placeBlock_unshadowed : placeBlock randR gc.unshadowed =
    (placeBlock randR gc).map fun r => (r.1.unshadowed, r.2) := by
  -- what is merged comes from the board and the active block
  have hmerge : gc.unshadowed.board.mergeUnits gc.unshadowed.activeBlock.tetrisBlock.type.toInt
      (getBlockPositions gc.unshadowed.activeBlock) =
        gc.board.mergeUnits gc.activeBlock.tetrisBlock.type.toInt
          (getBlockPositions gc.activeBlock) := rfl
  rw [placeBlock, placeBlock, hmerge]
  cases gc.board.mergeUnits gc.activeBlock.tetrisBlock.type.toInt
      (getBlockPositions gc.activeBlock) with
  | error e => rfl
  | ok board =>
    simp only
    rw [show ({ gc.unshadowed with board := board } : GameContents) =
      ({ gc with board := board } : GameContents).unshadowed from rfl, cullLines_unshadowed]
    cases cullLines { gc with board := board } with
    | error e => rfl
    | ok culled =>
      have hculled : culled.unshadowed.board = culled.board := rfl
      simp only [Except.map, hculled]
      -- either the game ends here or a new block is made, and neither reads the shadow
      split_ifs <;> rfl

theorem lowerBlock_unshadowed (forced : ℤ) : lowerBlock randR gc.unshadowed forced =
    (lowerBlock randR gc forced).map fun r => (r.1.unshadowed, r.2) := by
  rw [lowerBlock, lowerBlock]
  have hlower : lowerBlockHelper gc.unshadowed gc.unshadowed.activeBlock =
      lowerBlockHelper gc gc.activeBlock := rfl
  have hcount : gc.unshadowed.autoLowerCount = gc.autoLowerCount := rfl
  simp only [hlower, hcount]
  split_ifs
  · rfl
  · exact placeBlock_unshadowed randR gc
  · exact placeBlock_unshadowed randR { gc with autoLowerCount := gc.autoLowerCount + 1 }
  · rfl

theorem hardDrop_unshadowed : hardDrop randR gc.unshadowed =
    (hardDrop randR gc).map fun r => (r.1.unshadowed, r.2) := by
  have hdrop : dropBlock gc.unshadowed gc.unshadowed.activeBlock = dropBlock gc gc.activeBlock := rfl
  rw [hardDrop, hardDrop, hdrop]
  cases dropBlock gc gc.activeBlock with
  | error e => rfl
  | ok block => exact placeBlock_unshadowed randR { gc with activeBlock := block }

theorem rotateBlock_unshadowed (clockwise : ℤ) : rotateBlock gc.unshadowed clockwise =
    ((rotateBlock gc clockwise).1.unshadowed, (rotateBlock gc clockwise).2) := by
  rw [rotateBlock, rotateBlock]
  have hblock : gc.unshadowed.activeBlock = gc.activeBlock := rfl
  have htest (endRot : Rotation) (t : Position) :
      testBlock gc.unshadowed (kickedBlock gc.unshadowed endRot t) =
        testBlock gc (kickedBlock gc endRot t) := rfl
  simp only [hblock, htest]
  cases gc.activeBlock.tetrisBlock.srsMode with
  | none => rfl
  | some srsMode =>
    simp only
    cases srsMode.descriptorArr.find? _ with
    | none => rfl
    | some srsDesc =>
      simp only
      cases srsDesc.testArr.find? _ with
      | none => rfl
      | some srsTest => rfl

theorem translateBlockHelper_unshadowed (distance : ℤ) :
    translateBlockHelper gc.unshadowed distance =
      ((translateBlockHelper gc distance).1.unshadowed, (translateBlockHelper gc distance).2) := by
  rw [translateBlockHelper, translateBlockHelper]
  have hblock : gc.unshadowed.activeBlock = gc.activeBlock := rfl
  have htest (b : ActiveBlock) : testBlock gc.unshadowed b = testBlock gc b := rfl
  simp only [hblock, htest]
  split_ifs <;> rfl

theorem swapHoldBlock_unshadowed : swapHoldBlock randR gc.unshadowed =
    ((swapHoldBlock randR gc).1.unshadowed, (swapHoldBlock randR gc).2) := by
  rw [swapHoldBlock, swapHoldBlock]
  have hcount : gc.unshadowed.swapHBlockCount = gc.swapHBlockCount := rfl
  have hhold : gc.unshadowed.holdBlock = gc.holdBlock := rfl
  simp only [hcount, hhold]
  split_ifs <;> rfl

/-- No call but the one that draws looks at the shadow block. -/
theorem call_unshadowed {op : Op} (hop : op ≠ .view) :
    op.call randR gc.unshadowed = (op.call randR gc).map fun r => (r.1.unshadowed, r.2) := by
  cases op with
  | translateLeft => exact congrArg Except.ok (translateBlockHelper_unshadowed gc 1)
  | translateRight => exact congrArg Except.ok (translateBlockHelper_unshadowed gc (-1))
  | rotate clockwise => exact congrArg Except.ok (rotateBlock_unshadowed gc clockwise)
  | lower forced => exact lowerBlock_unshadowed randR gc forced
  | hardDrop => exact hardDrop_unshadowed randR gc
  | swapHold => exact congrArg Except.ok (swapHoldBlock_unshadowed randR gc)
  | view => exact absurd rfl hop

theorem engineStep_unshadowed {op : Op} (hop : op ≠ .view) :
    engineStep randR gc.unshadowed op = (engineStep randR gc op).map GameContents.unshadowed := by
  rw [engineStep, engineStep, call_unshadowed randR gc hop]
  cases op.call randR gc with
  | error e => rfl
  | ok r => rfl

end Games

def Player.unshadowed (p : Player) : Player := { p with contents := p.contents.unshadowed }

/-- The server without the shadow blocks of its games. -/
def Server.unshadowed (s : Server) : Server :=
  { s with players := s.players.map Player.unshadowed }

section Engine

variable (env : ServerEnv) {s t : Server} {player : ℕ}

/-- Drawing changes nothing but a shadow block. -/
theorem callEngine_view (h : callEngine env .view player s = .ok t) :
    t.unshadowed = s.unshadowed := by
  obtain ⟨p, contents, hp, hc, rfl⟩ := (callEngine_eq_ok env).mp h
  have hplayer : Player.unshadowed { p with contents := contents } = p.unshadowed := by
    rw [Player.unshadowed, Player.unshadowed, view_unshadowed hc]
  rw [Server.unshadowed, Server.unshadowed]
  simp only [map_set_player Player.unshadowed hp hplayer]

theorem callEngine_unshadowed {op : Op} (hop : op ≠ .view) :
    callEngine env op player s.unshadowed = (callEngine env op player s).map Server.unshadowed := by
  have hget : s.unshadowed.players[player]? = s.players[player]?.map Player.unshadowed :=
    List.getElem?_map
  rw [callEngine, callEngine, hget]
  cases s.players[player]? with
  | none => rfl
  | some p =>
    have hstep : engineStep env.randR p.unshadowed.contents op = _ :=
      engineStep_unshadowed env.randR p.contents hop
    simp only [Option.map_some, deref_some, ok_bind, hstep]
    cases engineStep env.randR p.contents op with
    | error e => rfl
    | ok contents =>
      simp only [Except.map, ok_bind, Server.unshadowed, List.map_set]
      rfl

end Engine

theorem sameSeats_of_unshadowed {s t : Server} (h : t.unshadowed = s.unshadowed) : SameSeats s t := by
  have hplayers : t.players.map Player.unshadowed = s.players.map Player.unshadowed :=
    congrArg Server.players h
  have hmap {β : Type} (f : Player → β) (hf : ∀ p, f (Player.unshadowed p) = f p) :
      t.players.map f = s.players.map f := by
    have himage := congrArg (List.map f) hplayers
    rw [List.map_map, List.map_map] at himage
    -- names and back pointers can be read off a server without its shadow blocks
    have hcomp : f ∘ Player.unshadowed = f := funext hf
    rwa [hcomp] at himage
  have hparties : t.unshadowed.parties = s.unshadowed.parties := congrArg Server.parties h
  have hclocks : t.unshadowed.clocks = s.unshadowed.clocks := congrArg Server.clocks h
  exact ⟨hmap Player.name fun _ => rfl, hmap Player.party fun _ => rfl, hparties, hclocks⟩

section Sending

variable (env : ServerEnv) {s t : Server} {player : ℕ}

theorem sendPlayer_unshadowed {fd : ℤ} (h : sendPlayer env fd player s = .ok t) :
    t.unshadowed = s.unshadowed := by
  rw [sendPlayer] at h
  split_ifs at h with hclosed
  · rw [Except.ok.inj h]
  · exact callEngine_view env h

/-- Sending boards changes nothing but shadow blocks. -/
theorem sendBoards_unshadowed (h : sendBoards env player s = .ok t) :
    t.unshadowed = s.unshadowed := by
  simp only [sendBoards, bind_eq_ok] at h
  obtain ⟨p, -, hrun⟩ := h
  -- along the receivers: so far only shadow blocks have changed
  refine @invariant_run _ _ _ (sendBoard env player) (fun u => u.unshadowed = s.unshadowed)
    ?_ s t _ rfl hrun
  intro u receiver v hu hv
  simp only [sendBoard, bind_eq_ok] at hv
  obtain ⟨r, -, hv⟩ := hv
  exact (sendPlayer_unshadowed env hv).trans hu

theorem finishRead_unshadowed {rs : ReadState} (h : finishRead env rs = .ok t) :
    t.unshadowed = rs.server.unshadowed := by
  rw [finishRead] at h
  split at h
  · rw [Except.ok.inj h]
  · exact sendBoards_unshadowed env h

theorem clockSendBoard_seats {fails : ℕ → Bool} {receiver : ℕ × ℕ}
    (h : clockSendBoard env fails player s receiver = .ok t) : SameSeats s t := by
  simp only [clockSendBoard, bind_eq_ok] at h
  obtain ⟨r, -, u, hu, h⟩ := h
  have hsent := sameSeats_of_unshadowed (sendPlayer_unshadowed env hu)
  split_ifs at h with hlost
  · rw [← Except.ok.inj h]
    refine hsent.trans ⟨?_, ?_, rfl, rfl⟩
    · apply map_modify_player
      exact fun _ => rfl
    · apply map_modify_player
      exact fun _ => rfl
  · exact Except.ok.inj h ▸ hsent

/-- A turn of a clock changes games and sockets only. -/
theorem playerClock_seats {fails : ℕ → Bool} {running : Bool}
    (h : playerClock env fails player s = .ok (t, running)) : SameSeats s t := by
  simp only [playerClock, bind_eq_ok, Except.ok.injEq, Prod.mk.injEq] at h
  obtain ⟨u, hu, p, -, v, hv, q, -, rfl, -⟩ := h
  apply (callEngine_seats env hu).1.trans
  exact invariant_run (clockSendBoard env fails player)
    (fun _ _ _ hs ht => hs.trans (clockSendBoard_seats env ht)) (sameSeats_refl u) hv

end Sending

section Handling

variable (env : ServerEnv) (s : Server) (header : MessageHeader) (cursor : Bytes)

@[simp] theorem getElem?_unshadowed (i : ℕ) :
    s.unshadowed.players[i]? = s.players[i]?.map Player.unshadowed := List.getElem?_map

theorem getPlayerFromFd_unshadowed (fd : ℤ) :
    getPlayerFromFd fd s.unshadowed = getPlayerFromFd fd s := by
  apply getPlayerFromFd_congr
  rw [Server.unshadowed, List.map_map]
  rfl

theorem unshadowed_names : s.unshadowed.players.map Player.name = s.players.map Player.name := by
  rw [Server.unshadowed, List.map_map]
  rfl

theorem startGame_unshadowed (player : Option ℕ) :
    startGame player s.unshadowed = (startGame player s).map Server.unshadowed := by
  cases player with
  | none => rfl
  | some i =>
    simp only [startGame, deref_some, ok_bind, getElem?_unshadowed]
    cases s.players[i]? with
    | none => rfl
    | some p =>
      have hparty : p.unshadowed.party = p.party := rfl
      simp only [Option.map_some, deref_some, ok_bind, hparty]
      cases p.party with
      | none => rfl
      | some party =>
        simp only [ttetrisPartyStart_eq]
        rfl

theorem formParty_unshadowed (l : List ℕ) : formParty l s.unshadowed = (formParty l s).unshadowed := by
  have hplayers : (formParty l s.unshadowed).players = (formParty l s).unshadowed.players := by
    -- the new back pointer and the removal of the shadow touch different fields
    apply List.ext_getElem?
    intro j
    rw [formParty_players, getElem?_unshadowed, getElem?_unshadowed, formParty_players,
      Option.map_map, Option.map_map]
    congr 1
    funext p
    simp only [Function.comp_apply]
    split_ifs <;> rfl
  have hparties : (formParty l s.unshadowed).parties = (formParty l s).unshadowed.parties := by
    rw [formParty_parties]
    exact (formParty_parties l s).symm
  have hclocks : (formParty l s.unshadowed).clocks = (formParty l s).unshadowed.clocks := by
    rw [formParty_clocks]
    exact (formParty_clocks l s).symm
  cases hleft : formParty l s.unshadowed
  cases hright : (formParty l s).unshadowed
  rw [hleft, hright] at hplayers hparties hclocks
  rw [Server.mk.injEq]
  exact ⟨hplayers, hparties, hclocks⟩

theorem inviteOpponents_unshadowed (player : Option ℕ) :
    inviteOpponents env header cursor player s.unshadowed =
      (inviteOpponents env header cursor player s).map Server.unshadowed := by
  have hparties : s.unshadowed.parties = s.parties := rfl
  simp only [inviteOpponents_eq, hparties, formParty_unshadowed,
    invitedPlayers_congr _ (unshadowed_names s)]
  cases stringArrayDeserialize (env.heap s.parties.length) ⟨header.contentLength, cursor⟩ with
  | error e => rfl
  | ok names =>
    cases player with
    | none => rfl
    | some i =>
      simp only [deref_some, ok_bind]
      cases invitedPlayers s.players names.strings with
      | error e => rfl
      | ok l => rfl

theorem serverSwitch_unshadowed (player : Option ℕ) :
    serverSwitch env header cursor player s.unshadowed =
      (serverSwitch env header cursor player s).map Server.unshadowed := by
  rw [serverSwitch, serverSwitch]
  split_ifs with hstart hopponent
  · exact startGame_unshadowed s player
  · exact inviteOpponents_unshadowed env s header cursor player
  · cases hop : engineOp header.messageType cursor with
    | error e => rfl
    | ok op =>
      cases op with
      | none => rfl
      | some op =>
        cases player with
        | none => rfl
        | some i => exact callEngine_unshadowed env (engineOp_ne_view hop)

theorem playerCreate_unshadowed (fd : ℤ) (name : Bytes) :
    (playerCreate env fd name s.unshadowed).1 = (playerCreate env fd name s).1.unshadowed := by
  simp only [playerCreate, Server.unshadowed, List.map_append, List.length_map]
  rfl

def ReadState.unshadowed (rs : ReadState) : ReadState := { rs with server := rs.server.unshadowed }

/-- Handling a message never looks at a shadow block. -/
theorem handleMessage_unshadowed (fd : ℤ) (rs : ReadState) :
    handleMessage env fd header rs.unshadowed cursor =
      (handleMessage env fd header rs cursor).map ReadState.unshadowed := by
  rw [handleMessage, handleMessage]
  split_ifs with hregister
  · rw [registerPlayer, registerPlayer]
    cases access (sscanfWord 15 cursor) with
    | error e => rfl
    | ok word =>
      have hname : rs.unshadowed.name = rs.name := rfl
      simp only [ok_bind, hname]
      cases (if word = [] then rs.name else some word) with
      | none => rfl
      | some name =>
        have hcreate := playerCreate_unshadowed env rs.server fd name
        have hlen : rs.server.unshadowed.players.length = rs.server.players.length :=
          List.length_map _
        simp only [Except.map, ReadState.unshadowed, ← hcreate, Except.ok.injEq]
        rw [ReadState.mk.injEq]
        exact ⟨rfl, congrArg some hlen, rfl⟩
  · have hswitch := serverSwitch_unshadowed env rs.server header cursor rs.player
    change (serverSwitch env header cursor rs.player rs.server.unshadowed >>= _) = _
    rw [hswitch]
    cases serverSwitch env header cursor rs.player rs.server with
    | error e => rfl
    | ok server => rfl

end Handling

end TetrisMint
