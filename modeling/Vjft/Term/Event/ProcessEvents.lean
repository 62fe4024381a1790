import Vjft.Term.Event.Commands
import Mathlib.Logic.Relation

/-!
# Undo, redo and the event loop (`term/event.c`)

`cmd_undo` calls the complementary command of the `Action` on top of the undo stack, `cmd_redo`
calls the command of the `Action` on top of the redo stack. Both go through the ordinary command
functions, which work on the undo stack too.

The events are those of type `CMD` with a command; an event of type `DBG` only pushes a message.
-/

namespace Vjft.Term

/-! ### Tables -/

/-- The pairs of `comp_cmds`, the command to be undone first. -/
def compCmds : List (CmdFunc × CmdFunc) :=
  [(.cmdInsert, .cmdUninsert),
   (.cmdBackspace, .cmdInsert),
   (.cmdForwardChar, .cmdBackwardChar),
   (.cmdBackwardChar, .cmdForwardChar),
   (.cmdToBeginningOfLine, .cmdGetBackToLinePos),
   (.cmdToEndOfLine, .cmdGetBackToLinePos),
   (.cmdBackwardWord, .cmdGetBackToLinePos),
   (.cmdForwardWord, .cmdGetBackToLinePos),
   (.cmdToggleCursor, .cmdToggleCursor),
   (.cmdSetMarker, .cmdUnsetMarker),
   (.cmdUnsetMarker, .cmdSetMarker)]

def getCompCmd (cmd : CmdFunc) : Option CmdFunc := compCmds.lookup cmd

def cmdFuncTable : List (CmdFunc × String) :=
  [(.cmdInsert, "cmd_insert"),
   (.cmdBackspace, "cmd_backspace"),
   (.cmdBackwardChar, "cmd_backward_char"),
   (.cmdForwardChar, "cmd_forward_char"),
   (.cmdUndo, "cmd_undo"),
   (.cmdRedo, "cmd_redo"),
   (.cmdToBeginningOfLine, "cmd_to_beginning_of_line"),
   (.cmdToEndOfLine, "cmd_to_end_of_line"),
   (.cmdBackwardWord, "cmd_backward_word"),
   (.cmdForwardWord, "cmd_forward_word"),
   (.cmdToggleCursor, "cmd_toggle_cursor"),
   (.cmdSetMarker, "cmd_set_marker"),
   (.cmdUnsetMarker, "cmd_unset_marker"),
   (.cmdEnter, "cmd_enter")]

def descrCmdFn (cmdFn : CmdFunc) : String := (cmdFuncTable.lookup cmdFn).getD "cmd_notfound"

/-- `"Undo: No complementary found for %s <%s>(%d) [%d]"`, cut off at `DBG_LOG_MSG_SIZE`. -/
def noComplementaryMsg (act : Action) : CStr :=
  let len := match act.seq with
    | some seq => utf8Strlen seq
    | none => 0
  let undoMsg := lit "Undo: No complementary found for " ++ lit (descrCmdFn act.cmdFn) ++
    lit " <" ++ act.seq.getD (lit "(null)") ++ lit ">(" ++ lit (toString len) ++ lit ") [" ++
    lit (toString act.cnt) ++ lit "]"
  undoMsg.take 254

/-! ### Undo and redo -/

section Rounds

variable [CLib]

/-- `for (int i = 0; i < cnt; i++) { cmd(node, &event); }`, the returned `Action`s are dropped. -/
def applyCmd (event : InputEvent) : ℕ → Editor → Option Editor
  | 0, s => some s
  | n + 1, s => do
    let (s, _) ← callCmd s event
    applyCmd event n s

def cmdUndo (s : Editor) : Option (Editor × Option Action) :=
  if s.undoStack = [] then some (pushMessage s (lit "No more actions to undo"), none)
  else
    let (prevAction, undoStack) := popAction s.undoStack
    let s := { s with undoStack }
    match prevAction with
    | none => some (pushMessage s (lit "Failed to pop Action from undoStack"), none)
    | some prevAction =>
      match getCompCmd prevAction.cmdFn with
      | none =>
        let s := pushMessage s (noComplementaryMsg prevAction)
        some ({ s with undoStack := pushAction s.undoStack (some prevAction) }, none)
      | some undoCmd => do
        let s ← applyCmd ⟨undoCmd, prevAction.seq⟩ prevAction.cnt s
        some ({ s with redoStack := pushAction s.redoStack (some prevAction) }, some prevAction)

def cmdRedo (s : Editor) : Option (Editor × Option Action) :=
  if s.redoStack = [] then some (pushMessage s (lit "No more actions to redo"), none)
  else
    let (nextAction, redoStack) := popAction s.redoStack
    let s := { s with redoStack }
    match nextAction with
    | none => some (pushMessage s (lit "Failed to pop Action from redoStack"), none)
    | some nextAction => do
      let s ← applyCmd ⟨nextAction.cmdFn, nextAction.seq⟩ nextAction.cnt s
      some ({ s with undoStack := pushAction s.undoStack (some nextAction) }, some nextAction)

/-! ### The event loop -/

/-- One round of `processEvents`, with the value it gives to `updated`. -/
def processEvent (s : Editor) (event : InputEvent) : Option (Editor × Bool) :=
  if event.cmdFn = .cmdUndo then do
    let (s, retAction) ← cmdUndo s
    some (s, retAction.isSome)
  else if event.cmdFn = .cmdRedo then do
    let (s, retAction) ← cmdRedo s
    some (s, retAction.isSome)
  else do
    let (s, retAction) ← callCmd s event
    match retAction with
    | none => some (s, false)
    | some retAction =>
      some ({ s with
        undoStack := pushAction s.undoStack (some retAction)
        redoStack := []
        freed := clearStack s.freed s.redoStack }, true)

/-- The loop over the queue; `none` when a command ended the program. -/
def processEvents (s : Editor) : List InputEvent → Option (Editor × Bool)
  | [] => some (s, false)
  | event :: eventQueue => do
    let (s, updated) ← processEvent s event
    let (s, updated') ← processEvents s eventQueue
    some (s, updated || updated')

end Rounds

/-! ### Runs -/

/-- The events `keyb` enqueues: a printable key comes with its bytes, a command bound to a key
comes with `NULL`, and `cmd_uninsert` and `cmd_get_back_to_line_pos` are bound to no key. -/
def KeyEvent (event : InputEvent) : Prop :=
  event.cmdFn ≠ .cmdUninsert ∧ event.cmdFn ≠ .cmdGetBackToLinePos ∧
  (event.cmdFn = .cmdInsert → ∃ ds, ds ≠ [] ∧ event.seq = some (utf8.encode ds)) ∧
  (event.cmdFn ≠ .cmdInsert → event.seq = none)

/-- The event of a printable key. -/
def typed (ds : List CodePoint) : InputEvent := ⟨.cmdInsert, some (utf8.encode ds)⟩

/-- The event of a key that a command is bound to. -/
def pressed (cmdFn : CmdFunc) : InputEvent := ⟨cmdFn, none⟩

lemma keyEvent_typed {ds : List CodePoint} (h : ds ≠ []) : KeyEvent (typed ds) :=
  ⟨by simp [typed], by simp [typed], fun _ => ⟨ds, h, rfl⟩, by simp [typed]⟩

lemma pressed_cmdFn (cmdFn : CmdFunc) : (pressed cmdFn).cmdFn = cmdFn := rfl

lemma keyEvent_pressed {cmdFn : CmdFunc}
    (h : cmdFn ∉ [CmdFunc.cmdInsert, .cmdUninsert, .cmdGetBackToLinePos]) :
    KeyEvent (pressed cmdFn) := by
  simp only [List.mem_cons, List.not_mem_nil, or_false, not_or] at h
  exact ⟨h.2.1, h.2.2, fun he => absurd he h.1, fun _ => rfl⟩

/-- The state in which the program starts. -/
structure Initial (s : Editor) : Prop where
  curr : s.curr = { text := [], cursorPos := 0, markerPos := -1 }
  undoStack : s.undoStack = []
  redoStack : s.redoStack = []
  created : s.created = 0
  freed : s.freed = []

section Runs

variable [CLib]

/-- One round of the loop, for an event that a key can cause. -/
def Step (s s' : Editor) : Prop :=
  ∃ event updated, KeyEvent event ∧ processEvent s event = some (s', updated)

def Reachable (s : Editor) : Prop := ∃ s₀, Initial s₀ ∧ Relation.ReflTransGen Step s₀ s

lemma Reachable.trans {s s' : Editor} (hs : Reachable s) (h : Relation.ReflTransGen Step s s') :
    Reachable s' := by
  obtain ⟨s₀, h0, hrun⟩ := hs
  exact ⟨s₀, h0, hrun.trans h⟩

/-- What every round keeps is kept by the loop. -/
lemma processEvents_preserves {P : Editor → Prop} {events : List InputEvent}
    (hround : ∀ event ∈ events, ∀ t t' u, P t → processEvent t event = some (t', u) → P t')
    {s s' : Editor} {updated : Bool} (hs : P s) (h : processEvents s events = some (s', updated)) :
    P s' := by
  induction events generalizing s updated with
  | nil =>
    cases h
    exact hs
  | cons event events ih =>
    rw [processEvents] at h
    obtain ⟨⟨t, u⟩, ht, h⟩ := Option.bind_eq_some_iff.mp h
    obtain ⟨⟨t', u'⟩, ht', h⟩ := Option.bind_eq_some_iff.mp h
    cases h
    have hP := hround event List.mem_cons_self s t u hs ht
    exact ih (fun e he => hround e (List.mem_cons_of_mem _ he)) hP ht'

lemma reflTransGen_of_processEvents {events : List InputEvent} (hk : ∀ e ∈ events, KeyEvent e)
    {s s' : Editor} {updated : Bool} (h : processEvents s events = some (s', updated)) :
    Relation.ReflTransGen Step s s' := by
  refine processEvents_preserves ?_ (Relation.ReflTransGen.refl (a := s)) h
  intro event he t t' u hrun hround
  exact hrun.tail ⟨event, u, hk event he, hround⟩

/-- The state a queue of key events leads to is reachable. -/
lemma Reachable.of_processEvents {events : List InputEvent} (hk : ∀ e ∈ events, KeyEvent e)
    {s s' : Editor} {updated : Bool} (hs : Initial s)
    (h : processEvents s events = some (s', updated)) : Reachable s' :=
  ⟨s, hs, reflTransGen_of_processEvents hk h⟩

end Runs

/-- The state in which the program starts, with no message and no connection yet. -/
def start : Editor where
  curr := { text := [], cursorPos := 0, markerPos := -1 }
  messages := []
  undoStack := []
  redoStack := []
  sockfd := -1
  outgoingQueue := []
  os := { socket := 3, connect := 0 }
  created := 0
  freed := []

lemma initial_start : Initial start := ⟨rfl, rfl, rfl, rfl, rfl⟩

variable [CLib]

/-- The state a queue of events leads to. -/
def after (events : List InputEvent) : Editor :=
  ((processEvents start events).map Prod.fst).getD start

lemma reachable_after {events : List InputEvent} (hk : ∀ e ∈ events, KeyEvent e)
    (h : (processEvents start events).isSome) : Reachable (after events) := by
  obtain ⟨⟨s, updated⟩, hs⟩ := Option.isSome_iff_exists.mp h
  rw [after, hs]
  exact .of_processEvents hk initial_start hs

end Vjft.Term
