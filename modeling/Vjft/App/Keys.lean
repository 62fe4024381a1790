import Vjft.App.Basic
import Mathlib.Algebra.Group.Nat.Even

/-!
# The keys that are held down

A key may go down while the players get the events and up while the dialog gets them, or the other
way round. The players then do not know what the keyboard knows, until the same key is moved again
with the dialog closed.
-/

namespace Vjft

/-! ### The keyboard -/

/-- What the events tell by themselves. -/
structure Keyboard where
  held : SdlKeycode → Bool
  dialogOpen : Bool
  /-- How often a key has gone down or up with the dialog open since it last did with the dialog
  closed. -/
  missed : SdlKeycode → ℕ

namespace Keyboard

def start : Keyboard := ⟨fun _ => false, false, fun _ => 0⟩

/-- A key goes down or up. -/
def move (kb : Keyboard) (sym : SdlKeycode) (down : Bool) : Keyboard :=
  { kb with
    held := Function.update kb.held sym down
    missed := Function.update kb.missed sym (if kb.dialogOpen then kb.missed sym + 1 else 0) }

def next (kb : Keyboard) : SdlEvent → Keyboard
  | .keyDown sym =>
    { kb.move sym true with
      dialogOpen :=
        if kb.dialogOpen then decide ¬ (sym = sdlkReturn ∨ sym = sdlkEscape)
        else decide (sym = sdlkG) }
  | .keyUp sym => kb.move sym false
  | _ => kb

/-- Each key goes down when it is up, and up when it is down. -/
def Allows (kb : Keyboard) : SdlEvent → Prop
  | .keyDown sym => kb.held sym = false
  | .keyUp sym => kb.held sym = true
  | _ => True

instance instDecidableAllows (kb : Keyboard) : ∀ event, Decidable (kb.Allows event)
  | .keyDown sym => inferInstanceAs (Decidable (kb.held sym = false))
  | .keyUp sym => inferInstanceAs (Decidable (kb.held sym = true))
  | .quit => isTrue trivial
  | .mouseButtonDown .. => isTrue trivial
  | .mouseButtonUp .. => isTrue trivial
  | .other => isTrue trivial

def AllowsAll : Keyboard → List SdlEvent → Prop
  | _, [] => True
  | kb, event :: events => kb.Allows event ∧ (kb.next event).AllowsAll events

instance instDecidableAllowsAll : ∀ (kb : Keyboard) (events : List SdlEvent),
    Decidable (kb.AllowsAll events)
  | _, [] => isTrue trivial
  | kb, event :: events =>
    have : Decidable ((kb.next event).AllowsAll events) :=
      instDecidableAllowsAll (kb.next event) events
    inferInstanceAs (Decidable (kb.Allows event ∧ (kb.next event).AllowsAll events))

def after (events : List SdlEvent) : Keyboard := events.foldl next start

end Keyboard

/-- Every key alternately goes down and up. -/
abbrev Alternates (events : List SdlEvent) : Prop := Keyboard.start.AllowsAll events

/-- The SDL key of a key code. -/
def KeyCode.sym : KeyCode → SdlKeycode
  | .w => 0x77
  | .a => 0x61
  | .s => 0x73
  | .d => 0x64
  | .i => 0x69
  | .j => 0x6A
  | .k => 0x6B
  | .l => 0x6C

lemma App.keyCodeOf_sym (code : KeyCode) : App.keyCodeOf code.sym = some code := by
  cases code <;> rfl

lemma App.sym_of_keyCodeOf {sym : SdlKeycode} {code : KeyCode}
    (h : App.keyCodeOf sym = some code) : code.sym = sym := by
  unfold App.keyCodeOf at h
  split at h <;> cases h <;> rfl

lemma KeyCode.sym_injective : Function.Injective KeyCode.sym := by
  intro code code' h
  have hcode := congrArg App.keyCodeOf h
  rw [App.keyCodeOf_sym, App.keyCodeOf_sym] at hcode
  exact Option.some.inj hcode

/-! ### A player and the keyboard -/

namespace Player

@[simp] lemma controlKeys_handleKeyEvent (player : Player) (event : KeyEvent) :
    (player.handleKeyEvent event).controlKeys = player.controlKeys := by
  rw [handleKeyEvent]
  split_ifs <;> rfl

/-- The key of the event is active from now on if it was pressed; the others stay as they are. -/
lemma mem_activeKeys_handleKeyEvent (player : Player) (event : KeyEvent) (code : KeyCode) :
    code ∈ (player.handleKeyEvent event).activeKeys ↔
      if event.keyCode ∈ player.controlKeys ∧ code = event.keyCode then event.pressed = true
      else code ∈ player.activeKeys := by
  rw [handleKeyEvent]
  by_cases hcontrol : event.keyCode ∈ player.controlKeys
  · rw [if_pos hcontrol]
    by_cases hcode : code = event.keyCode
    · cases hpressed : event.pressed <;> simp [hcode, hcontrol]
    · cases hpressed : event.pressed <;> simp [hcode]
  · simp [hcontrol]

/-- A control key is active exactly when it is down, unless the player has missed an odd number of
its moves. -/
structure Follows (player : Player) (kb : Keyboard) : Prop where
  controls : ∀ code ∈ player.activeKeys, code ∈ player.controlKeys
  active : ∀ code ∈ player.controlKeys,
    (code ∈ player.activeKeys ↔ kb.held code.sym = true) ↔ Even (kb.missed code.sym)

variable {player : Player} {kb : Keyboard} {sym : SdlKeycode} {down : Bool}

/-- A move that the dialog gets. -/
lemma Follows.move_of_open (h : player.Follows kb) (hopen : kb.dialogOpen = true)
    (hmoves : kb.held sym = !down) : player.Follows (kb.move sym down) := by
  constructor
  · exact h.controls
  · intro code hcode
    have hactive := h.active code hcode
    rw [Keyboard.move]
    by_cases hsym : code.sym = sym
    · subst hsym
      simp only [Function.update_self, hopen, if_true, Nat.even_add_one, ← hactive, hmoves]
      cases down <;> simp
    · simp only [Function.update_of_ne hsym]
      exact hactive

/-- A move that the players get. -/
lemma Follows.move_of_closed (h : player.Follows kb) (hopen : kb.dialogOpen = false)
    {code : KeyCode} (hsym : code.sym = sym) :
    (player.handleKeyEvent ⟨code, down⟩).Follows (kb.move sym down) := by
  subst hsym
  constructor
  · intro code' hcode'
    rw [mem_activeKeys_handleKeyEvent] at hcode'
    rw [controlKeys_handleKeyEvent]
    split_ifs at hcode' with hself
    · rw [hself.2]
      exact hself.1
    · exact h.controls code' hcode'
  · intro code' hcontrol
    rw [controlKeys_handleKeyEvent] at hcontrol
    rw [mem_activeKeys_handleKeyEvent, Keyboard.move]
    by_cases hself : code' = code
    · subst hself
      simp [hopen, hcontrol]
    · have hne : code'.sym ≠ code.sym := fun h => hself (KeyCode.sym_injective h)
      simp only [Function.update_of_ne hne, hself, and_false, if_false]
      exact h.active code' hcontrol

/-- A move of a key that is no control key of any player. -/
lemma Follows.move_of_keyCodeOf_eq_none (h : player.Follows kb)
    (hsym : App.keyCodeOf sym = none) : player.Follows (kb.move sym down) := by
  constructor
  · exact h.controls
  · intro code hcode
    have hne : code.sym ≠ sym := by
      rintro rfl
      rw [App.keyCodeOf_sym] at hsym
      cases hsym
    simp only [Keyboard.move, Function.update_of_ne hne]
    exact h.active code hcode

end Player

/-! ### The application and the keyboard -/

/-- What holds in every run. -/
structure App.Follows (app : App) (kb : Keyboard) : Prop where
  dialogActive : app.dialogActive = kb.dialogOpen
  dialog : app.dialog.active = kb.dialogOpen
  players : ∀ player ∈ app.players, player.Follows kb
  controlKeys : app.players.map Player.controlKeys = [[.w, .a, .s, .d], [.i, .j, .k, .l]]

namespace App

variable {app : App} {kb : Keyboard}

lemma follows_init : init.Follows Keyboard.start := by
  refine ⟨rfl, rfl, ?_, rfl⟩
  intro player hplayer
  have hempty : player.activeKeys = ∅ := by
    rcases List.mem_pair.mp hplayer with rfl | rfl <;> rfl
  constructor
  · simp [hempty]
  · simp [hempty, Keyboard.start]

lemma handleDialogEvent_keyDown (hactive : app.dialog.active = true) (sym : SdlKeycode) :
    app.handleDialogEvent (.keyDown sym) =
      if sym = sdlkReturn ∨ sym = sdlkEscape then
        { app with dialog := ⟨false⟩, dialogActive := false }
      else app := by
  have hnot : ¬ (!app.dialog.active) = true := by simp [hactive]
  rw [handleDialogEvent, Dialog.handleEvent, if_neg hnot]
  split_ifs <;> rfl

/-- No other event closes the dialog. -/
lemma handleDialogEvent_eq_self (hactive : app.dialog.active = true) {event : SdlEvent}
    (hevent : ∀ sym, event ≠ .keyDown sym) : app.handleDialogEvent event = app := by
  have hnot : ¬ (!app.dialog.active) = true := by simp [hactive]
  cases event with
  | keyDown sym => exact absurd rfl (hevent sym)
  | _ =>
    simp only [handleDialogEvent, Dialog.handleEvent]
    rw [if_neg hnot]
    rfl

/-- The dialog gets a key event, and may close. -/
lemma Follows.handleDialogEvent (h : app.Follows kb) (hopen : kb.dialogOpen = true)
    {event : SdlEvent} (hallows : kb.Allows event) :
    (app.handleDialogEvent event).Follows (kb.next event) := by
  have hactive : app.dialog.active = true := h.dialog.trans hopen
  cases event with
  | keyDown sym =>
    have hplayers : ∀ player ∈ app.players, player.Follows (kb.next (.keyDown sym)) := by
      intro player hplayer
      have hmoves : kb.held sym = !true := hallows
      have hmove := (h.players player hplayer).move_of_open hopen hmoves
      exact ⟨hmove.controls, hmove.active⟩
    rw [handleDialogEvent_keyDown hactive]
    by_cases hclose : sym = sdlkReturn ∨ sym = sdlkEscape
    · have hnext : (kb.next (.keyDown sym)).dialogOpen = false := by
        simp [Keyboard.next, hopen, hclose]
      rw [if_pos hclose]
      exact ⟨hnext.symm, hnext.symm, hplayers, h.controlKeys⟩
    · have hnext : (kb.next (.keyDown sym)).dialogOpen = kb.dialogOpen := by
        simp only [Keyboard.next, hopen, if_true, hclose, not_false_eq_true, decide_true]
      rw [if_neg hclose]
      exact ⟨h.dialogActive.trans hnext.symm, h.dialog.trans hnext.symm, hplayers, h.controlKeys⟩
  | keyUp sym =>
    have hmoves : kb.held sym = !false := hallows
    rw [handleDialogEvent_eq_self hactive (fun _ h => by cases h)]
    refine ⟨h.dialogActive, h.dialog, ?_, h.controlKeys⟩
    intro player hplayer
    exact (h.players player hplayer).move_of_open hopen hmoves
  | _ =>
    rw [handleDialogEvent_eq_self hactive (fun _ h => by cases h)]
    exact h

/-- The players get the event of a key. -/
lemma Follows.sendEvent (h : app.Follows kb) (hopen : kb.dialogOpen = false) (sym : SdlKeycode)
    (down : Bool) :
    (match keyCodeOf sym with
      | some code => app.sendEvent (.key ⟨code, down⟩)
      | none => app).Follows (kb.move sym down) := by
  cases hcode : keyCodeOf sym with
  | none =>
    refine ⟨h.dialogActive, h.dialog, ?_, h.controlKeys⟩
    intro player hplayer
    exact (h.players player hplayer).move_of_keyCodeOf_eq_none hcode
  | some code =>
    refine ⟨h.dialogActive, h.dialog, ?_, ?_⟩
    · intro player' hplayer'
      obtain ⟨player, hplayer, rfl⟩ := List.mem_map.mp hplayer'
      exact (h.players player hplayer).move_of_closed hopen (sym_of_keyCodeOf hcode)
    · refine Eq.trans ?_ h.controlKeys
      refine List.map_map.trans (List.map_congr_left ?_)
      intro player _
      exact Player.controlKeys_handleKeyEvent player _

/-- Mouse events leave the players as they are. -/
lemma sendEvent_mouse (app : App) (event : MouseEvent) : app.sendEvent (.mouse event) = app := by
  have hplayers : app.players.map (·.onEvent (.mouse event)) = app.players :=
    List.map_id app.players
  rw [App.sendEvent, hplayers]

lemma Follows.dispatch (h : app.Follows kb) (hopen : kb.dialogOpen = false) (event : SdlEvent) :
    (app.dispatch event).Follows (kb.next event) := by
  cases event with
  | keyDown sym =>
    by_cases hg : sym = sdlkG
    · subst hg
      have hnext : (kb.next (.keyDown sdlkG)).dialogOpen = true := by
        simp [Keyboard.next, hopen]
      rw [App.dispatch, handleKeyPress, if_pos rfl]
      refine ⟨hnext.symm, hnext.symm, ?_, h.controlKeys⟩
      intro player hplayer
      have hcode : keyCodeOf sdlkG = none := rfl
      have hmove : player.Follows (kb.move sdlkG true) :=
        (h.players player hplayer).move_of_keyCodeOf_eq_none hcode
      exact ⟨hmove.controls, hmove.active⟩
    · have hnext : (kb.next (.keyDown sym)).dialogOpen = kb.dialogOpen := by
        simp [Keyboard.next, hopen, hg]
      have hsend := h.sendEvent hopen sym true
      rw [App.dispatch, handleKeyPress, if_neg hg]
      refine ⟨hsend.dialogActive.trans hnext.symm, hsend.dialog.trans hnext.symm, ?_,
        hsend.controlKeys⟩
      intro player hplayer
      have hmove := hsend.players player hplayer
      exact ⟨hmove.controls, hmove.active⟩
  | keyUp sym => exact h.sendEvent hopen sym false
  | mouseButtonDown x y button =>
    rw [App.dispatch]
    split
    · rw [handleMousePress, sendEvent_mouse]
      exact h
    · exact h
  | mouseButtonUp x y button =>
    rw [App.dispatch]
    split
    · rw [handleMouseRelease, sendEvent_mouse]
      exact h
    · exact h
  | _ => exact h

/-- Every event keeps the players in step with the keyboard. -/
lemma Follows.processEvent (h : app.Follows kb) {event : SdlEvent} (hallows : kb.Allows event) :
    (app.processEvent event).Follows (kb.next event) := by
  rw [App.processEvent]
  split_ifs with hquit hactive
  · rw [hquit]
    exact ⟨h.dialogActive, h.dialog, h.players, h.controlKeys⟩
  · exact h.handleDialogEvent (h.dialogActive.symm.trans hactive) hallows
  · exact h.dispatch (h.dialogActive.symm.trans (Bool.not_eq_true _ ▸ hactive)) event

lemma Follows.foldl {events : List SdlEvent} (h : app.Follows kb) (hallows : kb.AllowsAll events) :
    (events.foldl App.processEvent app).Follows (events.foldl Keyboard.next kb) := by
  induction events generalizing app kb with
  | nil => exact h
  | cons event events ih => exact ih (h.processEvent hallows.1) hallows.2

lemma follows_run {events : List SdlEvent} (h : Alternates events) :
    (run events).Follows (Keyboard.after events) := follows_init.foldl h

end App

/-- Every key that the players know is a control key of one of them. -/
lemma App.Follows.exists_controls {app : App} {kb : Keyboard} (h : app.Follows kb)
    (code : KeyCode) : ∃ player ∈ app.players, code ∈ player.controlKeys := by
  have hcode : ∃ keys ∈ app.players.map Player.controlKeys, code ∈ keys := by
    rw [h.controlKeys]
    cases code <;> decide
  obtain ⟨keys, hkeys, hcode⟩ := hcode
  obtain ⟨player, hplayer, rfl⟩ := List.mem_map.mp hkeys
  exact ⟨player, hplayer, hcode⟩

/-- In every state of a run whose keys alternately go down and up: the players hold exactly their
control keys that are down for active, if and only if each control key was moved an even number of
times in the dialog since it was last moved outside of it. -/
theorem App.activeKeys_eq_held_iff {events : List SdlEvent} (h : Alternates events) :
    (∀ player ∈ (App.run events).players, ∀ code,
      code ∈ player.activeKeys ↔
        code ∈ player.controlKeys ∧ (Keyboard.after events).held code.sym = true) ↔
      ∀ code : KeyCode, Even ((Keyboard.after events).missed code.sym) := by
  have hrun := App.follows_run h
  constructor
  · intro hactive code
    obtain ⟨player, hplayer, hcontrol⟩ := hrun.exists_controls code
    refine ((hrun.players player hplayer).active code hcontrol).mp ?_
    rw [hactive player hplayer code]
    exact and_iff_right hcontrol
  · intro heven player hplayer code
    have hfollows := hrun.players player hplayer
    constructor
    · intro hcode
      have hcontrol := hfollows.controls code hcode
      exact ⟨hcontrol, ((hfollows.active code hcontrol).mpr (heven code)).mp hcode⟩
    · rintro ⟨hcontrol, hheld⟩
      exact ((hfollows.active code hcontrol).mpr (heven code)).mpr hheld

/-- A key that goes down and up again in the dialog. -/
theorem App.activeKeys_eq_held_tapped :
    let events : List SdlEvent :=
      [.keyDown KeyCode.w.sym, .keyDown sdlkG, .keyDown KeyCode.a.sym, .keyUp KeyCode.a.sym,
        .keyDown sdlkReturn]
    ∀ player ∈ (App.run events).players, ∀ code,
      code ∈ player.activeKeys ↔
        code ∈ player.controlKeys ∧ (Keyboard.after events).held code.sym = true := by
  intro events
  refine (@App.activeKeys_eq_held_iff events (by decide)).mpr ?_
  intro code
  cases code <;> decide

/-- W goes up in the dialog: the player goes on moving. -/
theorem App.activeKeys_stuck :
    let events : List SdlEvent :=
      [.keyDown KeyCode.w.sym, .keyDown sdlkG, .keyUp KeyCode.w.sym, .keyDown sdlkReturn]
    Alternates events ∧ (App.run events).dialogActive = false ∧
      ∃ player ∈ (App.run events).players, .w ∈ player.activeKeys ∧
        (Keyboard.after events).held KeyCode.w.sym = false := by
  intro events
  exact ⟨by decide, rfl, ⟨[.w, .a, .s, .d], {.w}⟩, List.mem_cons_self, by decide, rfl⟩

end Vjft
