import Mathlib.Data.Finset.Basic

/-!
# The SDL application (`App.cpp`, `Player.hpp`, `Dialog.cpp`)

Key events go to the players as long as no dialog is open, and to the dialog otherwise. The G key
opens the dialog; Return and Escape close it.
-/

namespace Vjft

/-! ### Events -/

/-- `SDL_Keycode` -/
abbrev SdlKeycode := ℤ

def sdlkReturn : SdlKeycode := 0x0D
def sdlkEscape : SdlKeycode := 0x1B
def sdlkG : SdlKeycode := 0x67

/-- The events that `processEvents` takes from SDL. -/
inductive SdlEvent
  | quit
  | keyDown (sym : SdlKeycode)
  | keyUp (sym : SdlKeycode)
  | mouseButtonDown (x y : ℤ) (button : ℕ)
  | mouseButtonUp (x y : ℤ) (button : ℕ)
  | other
  deriving DecidableEq

/-- `KeyEvent::KeyCode` -/
inductive KeyCode
  | w | a | s | d | i | j | k | l
  deriving DecidableEq

structure KeyEvent where
  keyCode : KeyCode
  pressed : Bool

inductive MouseButton
  | left | middle | right

structure MouseEvent where
  x : ℤ
  y : ℤ
  button : MouseButton
  pressed : Bool

inductive Event
  | key (event : KeyEvent)
  | mouse (event : MouseEvent)

/-! ### Players -/

structure Player where
  controlKeys : List KeyCode
  activeKeys : Finset KeyCode

namespace Player

def handleKeyEvent (player : Player) (event : KeyEvent) : Player :=
  if event.keyCode ∈ player.controlKeys then
    if event.pressed then
      { player with activeKeys := insert event.keyCode player.activeKeys }
    else { player with activeKeys := player.activeKeys.erase event.keyCode }
  else player

/-- Mouse events are only reported. -/
def onEvent (player : Player) : Event → Player
  | .key event => player.handleKeyEvent event
  | .mouse _ => player

end Player

/-! ### The dialog -/

structure Dialog where
  active : Bool

namespace Dialog

def «show» (_ : Dialog) : Dialog := ⟨true⟩

/-- Together with the call of `closeCallback`. -/
def hide (_ : Dialog) : Dialog × Bool := (⟨false⟩, true)

/-- The text field, which gets the event too, does not act on the rest of the application. -/
def handleEvent (dialog : Dialog) (event : SdlEvent) : Dialog × Bool :=
  if !dialog.active then (dialog, false)
  else
    match event with
    | .keyDown sym => if sym = sdlkReturn ∨ sym = sdlkEscape then dialog.hide else (dialog, false)
    | _ => (dialog, false)

end Dialog

/-! ### The application -/

structure App where
  running : Bool
  /-- The listeners of `m_eventManager`: `m_player1` and `m_player2`. -/
  players : List Player
  dialogActive : Bool
  dialog : Dialog

namespace App

def init : App :=
  ⟨true, [⟨[.w, .a, .s, .d], ∅⟩, ⟨[.i, .j, .k, .l], ∅⟩], false, ⟨false⟩⟩

/-- `m_eventManager.sendEvent` -/
def sendEvent (app : App) (event : Event) : App :=
  { app with players := app.players.map (·.onEvent event) }

/-- The `switch` over the keys in `handleKeyPress` and `handleKeyRelease`. -/
def keyCodeOf : SdlKeycode → Option KeyCode
  | 0x77 => some .w
  | 0x61 => some .a
  | 0x73 => some .s
  | 0x64 => some .d
  | 0x69 => some .i
  | 0x6A => some .j
  | 0x6B => some .k
  | 0x6C => some .l
  | _ => none

def handleKeyPress (app : App) (key : SdlKeycode) : App :=
  if key = sdlkG then { app with dialog := app.dialog.show, dialogActive := true }
  else
    match keyCodeOf key with
    | some keyCode => app.sendEvent (.key ⟨keyCode, true⟩)
    | none => app

def handleKeyRelease (app : App) (key : SdlKeycode) : App :=
  match keyCodeOf key with
  | some keyCode => app.sendEvent (.key ⟨keyCode, false⟩)
  | none => app

/-- The `switch` over the buttons; `none` stands for `default`. -/
def mouseButtonOf : ℕ → Option MouseButton
  | 1 => some .left
  | 2 => some .middle
  | 3 => some .right
  | _ => none

def handleMousePress (app : App) (x y : ℤ) (button : MouseButton) : App :=
  app.sendEvent (.mouse ⟨x, y, button, true⟩)

def handleMouseRelease (app : App) (x y : ℤ) (button : MouseButton) : App :=
  app.sendEvent (.mouse ⟨x, y, button, false⟩)

def onDialogClose (app : App) : App := { app with dialogActive := false }

/-- `m_dialog->handleEvent` -/
def handleDialogEvent (app : App) (event : SdlEvent) : App :=
  let (dialog, closed) := app.dialog.handleEvent event
  let app := { app with dialog }
  if closed then app.onDialogClose else app

/-- What `processEvents` does with an event when no dialog is open. The rest of the events is still
there for the next call when the loop is left at an unknown mouse button. -/
def dispatch (app : App) : SdlEvent → App
  | .keyDown sym => app.handleKeyPress sym
  | .keyUp sym => app.handleKeyRelease sym
  | .mouseButtonDown x y button =>
    match mouseButtonOf button with
    | some button => app.handleMousePress x y button
    | none => app
  | .mouseButtonUp x y button =>
    match mouseButtonOf button with
    | some button => app.handleMouseRelease x y button
    | none => app
  | _ => app

/-- A round of the loop in `processEvents`. -/
def processEvent (app : App) (event : SdlEvent) : App :=
  if event = .quit then { app with running := false }
  else if app.dialogActive then app.handleDialogEvent event
  else app.dispatch event

/-- The application after the events since its start. -/
def run (events : List SdlEvent) : App := events.foldl processEvent init

end App

end Vjft
