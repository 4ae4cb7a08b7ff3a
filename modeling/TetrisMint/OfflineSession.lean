import TetrisMint.KeyBindings
import TetrisMint.OptionSelection
import TetrisMint.Screen

/-! The client from `main_menu` on, without a server: the menu, the editor of the key bindings, and
the games of `run_offline` with their keys, clocks and screens, as one machine that is driven by the
keys, the clocks and the terminal. -/
namespace TetrisMint

open FallibleRun

namespace Screen

/-- The windows and the boards are gone; what the layout was for is remembered. -/
def renderClose (s : Screen) : Except Fault Screen := do
  let r ← TetrisMint.renderClose s.renderer
  .ok ⟨r, s.size, []⟩

section

variable (resizeTerm : TerminalSize → Canvas → ℤ × ℤ) (randR : RandR)

/-- `renderish` for a local player and the screen that his game is drawn on. -/
def renderish (s : GameContents × Screen) : Except Fault (GameContents × Screen) := do
  let (gc, view) ← generateGameViewData s.1
  let screen ← renderGameViewData resizeTerm offlineName view s.2
  .ok (gc, screen)

def offlineCall (op : Op) (s : GameContents × Screen) : Except Fault (GameContents × Screen) := do
  let gc ← engineStep randR s.1 op
  renderish resizeTerm (gc, s.2)

/-- The control set of `offline.c`, the screen included. -/
def offlineControlSet : TetrisControlSet (GameContents × Screen) where
  translate := fun x =>
    if x ≠ 0 then offlineCall resizeTerm randR .translateLeft
    else offlineCall resizeTerm randR .translateRight
  lower := offlineCall resizeTerm randR (.lower 0)
  rotate := fun theta => offlineCall resizeTerm randR (.rotate theta)
  drop := offlineCall resizeTerm randR .hardDrop
  swapHold := offlineCall resizeTerm randR .swapHold

end

end Screen

/-- The array `choices` of `main_menu`, up to the NULL. -/
def modeChoices : List Bytes := [literal "Single", literal "Multi", literal "Controls", literal "Exit"]

/-- What the main thread is waiting in getch for. -/
inductive SessionMode
  | menu (entry : CursesCombobox × List DrawnOption)
  | controls (editor : KeyEditor)
  /-- The keyboard loop of a game; `clock` tells whether the thread of its clock is still there. -/
  | playing (contents : GameContents) (clock : Bool)
  | exited

def SessionMode.isExited : SessionMode → Bool
  | .exited => true
  | _ => false

/-- The client, with the players that it has created so far. A clock that is cancelled may make
one more turn, so the games of those that were cancelled are kept. -/
structure Session where
  screen : Screen
  keybindings : ControlKeybindings
  created : ℕ
  cancelled : List GameContents
  mode : SessionMode

inductive SessionEvent
  | key (ch : ℤ)
  /-- The clock of the game that is played wakes up. -/
  | turn
  /-- A clock that has been cancelled makes the one turn that it may still make. -/
  | lastTurn (clock : ℕ)
  /-- The terminal may have another size now, and SIGWINCH or SIGTSTP says so. -/
  | signal (size : TerminalSize)

/-- The loop of `main_menu` up to the first getch of `ttviz_select`. -/
def enterMenu (s : Session) : Except Fault Session :=
  match cursesComboboxCreate 7 20 5 1 modeChoices 4 with
  | none => .ok { s with mode := .exited }
  | some entry => do
    let entry ← cursesComboboxVirtualRefresh entry
    .ok { s with mode := .menu entry }

def enterControls (s : Session) : Except Fault Session := do
  match ← editKeybindings s.keybindings with
  | none => .ok { s with mode := .exited }
  | some editor => .ok { s with mode := .controls editor }

def sessionStart (size : TerminalSize) : Except Fault Session :=
  enterMenu ⟨⟨rendererStart, size, []⟩, defaultKeybindings, 0, [], .exited⟩

section Steps

variable (resizeTerm : TerminalSize → Canvas → ℤ × ℤ) (randR : RandR)

/-- `run_offline` up to its keyboard loop. -/
def runOffline (seed : BitVec 32) (s : Session) : Except Fault Session := do
  let contents := newSeededGame randR seed
  let screen ← Screen.renderInit resizeTerm [offlineName] s.screen.size s.screen.renderer
  .ok { s with
    screen := screen
    created := s.created + 1
    mode := .playing contents true }

/-- What follows the keyboard loop: the clock is cancelled, but nobody waits for it. -/
def stopOffline (contents : GameContents) (clock : Bool) (s : Session) : Except Fault Session := do
  let screen ← Screen.renderClose s.screen
  enterMenu { s with
    screen := screen
    cancelled := if clock then s.cancelled ++ [contents] else s.cancelled }

/-- The switch of `main_menu`. No server can be connected to. -/
def runChoice (seed : BitVec 32) (selectedChoice : ℤ) (s : Session) : Except Fault Session :=
  if selectedChoice = 0 then runOffline resizeTerm randR seed s
  else if selectedChoice = 1 then enterMenu s
  else if selectedChoice = 2 then enterControls s
  else .ok { s with mode := .exited }

def sessionKey (time : ℕ → BitVec 32) (ch : ℤ) (s : Session) : Except Fault Session :=
  match s.mode with
  | .menu entry =>
    if ch = 10 then runChoice resizeTerm randR (time s.created) (uintToInt entry.1.cursorPosition) s
    else do
      let entry ← selectKey true entry ch
      .ok { s with mode := .menu entry }
  | .controls editor => do
    let (editor, keybindings) ← editKeybindingsKey editor s.keybindings ch
    match editor with
    | some editor => .ok { s with
        keybindings := keybindings
        mode := .controls editor }
    | none => enterMenu { s with keybindings := keybindings }
  | .playing contents clock =>
    if ch = s.keybindings.quit then stopOffline contents clock s
    else do
      let (contents, screen) ← pressKey (Screen.offlineControlSet resizeTerm randR) s.keybindings ch
        (contents, s.screen)
      .ok { s with
        screen := screen
        mode := .playing contents clock }
  | .exited => .ok s

/-- A turn of the loop of `player_clock`. -/
def clockTurn (s : GameContents × Screen) : Except Fault (GameContents × Screen) :=
  Screen.offlineCall resizeTerm randR (.lower 1) s

/-- Nothing happens any more once the program has exited. What a key does and the turn of a clock,
the last one included, are one step each. The two threads share the game and the renderer, and
nothing locks them; what becomes of the client when a turn overlaps with a key is left open. -/
def sessionStep (time : ℕ → BitVec 32) (s : Session) (event : SessionEvent) : Except Fault Session :=
  if s.mode.isExited then .ok s
  else match event with
  | .key ch => sessionKey resizeTerm randR time ch s
  | .signal size => .ok { s with screen := ⟨renderHandleSig s.screen.renderer, size, s.screen.boards⟩ }
  | .turn =>
    match s.mode with
    | .playing contents true => do
      let (contents, screen) ← clockTurn resizeTerm randR (contents, s.screen)
      .ok { s with
        screen := screen
        mode := .playing contents (gameOver contents.board = 0) }
    | _ => .ok s
  | .lastTurn clock =>
    match s.cancelled[clock]? with
    | none => .ok s
    | some contents => do
      let (_, screen) ← clockTurn resizeTerm randR (contents, s.screen)
      .ok { s with
        screen := screen
        cancelled := s.cancelled.eraseIdx clock }

end Steps

end TetrisMint
