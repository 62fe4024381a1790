import Vjft.Term.Event.ProcessEvents

/-!
# What a command does

Eleven commands record an `Action`. Each of them returns at once when it is stuck at the current
node, and an insertion needs an event that has bytes; otherwise it takes an `Action` with `mngAct`,
updates the node and adjusts the `Action`. So a call is described by three functions: the guard
`EditingCmd.Stuck`, the new node `EditingCmd.update`, and the `Action` it returns,
`EditingCmd.adjust`.

A round of `processEvents` is then one of the cases of `Moved`, which later modules work with
instead of the code of the commands.
-/

namespace Vjft.Term

/-- The commands that record an `Action`. -/
inductive EditingCmd where
  | insert
  | backspace
  | backwardChar
  | forwardChar
  | forwardWord
  | backwardWord
  | toBeginningOfLine
  | toEndOfLine
  | setMarker
  | unsetMarker
  | toggleCursor
  deriving DecidableEq

namespace EditingCmd

def fn : EditingCmd → CmdFunc
  | insert => .cmdInsert
  | backspace => .cmdBackspace
  | backwardChar => .cmdBackwardChar
  | forwardChar => .cmdForwardChar
  | forwardWord => .cmdForwardWord
  | backwardWord => .cmdBackwardWord
  | toBeginningOfLine => .cmdToBeginningOfLine
  | toEndOfLine => .cmdToEndOfLine
  | setMarker => .cmdSetMarker
  | unsetMarker => .cmdUnsetMarker
  | toggleCursor => .cmdToggleCursor

def ofFn : CmdFunc → Option EditingCmd
  | .cmdInsert => some insert
  | .cmdBackspace => some backspace
  | .cmdBackwardChar => some backwardChar
  | .cmdForwardChar => some forwardChar
  | .cmdForwardWord => some forwardWord
  | .cmdBackwardWord => some backwardWord
  | .cmdToBeginningOfLine => some toBeginningOfLine
  | .cmdToEndOfLine => some toEndOfLine
  | .cmdSetMarker => some setMarker
  | .cmdUnsetMarker => some unsetMarker
  | .cmdToggleCursor => some toggleCursor
  | _ => none

@[simp] lemma ofFn_fn (c : EditingCmd) : ofFn c.fn = some c := by cases c <;> rfl

lemma fn_of_ofFn {f : CmdFunc} {c : EditingCmd} (h : ofFn f = some c) : f = c.fn := by
  cases f <;> simp only [ofFn, Option.some.injEq, reduceCtorEq] at h <;> subst h <;> rfl

lemma fn_injective : Function.Injective fn := by
  intro c d h
  have h' := congrArg ofFn h
  simpa using h'

@[simp] lemma fn_ne_cmdUndo (c : EditingCmd) : c.fn ≠ .cmdUndo := by cases c <;> decide
@[simp] lemma fn_ne_cmdRedo (c : EditingCmd) : c.fn ≠ .cmdRedo := by cases c <;> decide
@[simp] lemma fn_ne_cmdEnter (c : EditingCmd) : c.fn ≠ .cmdEnter := by cases c <;> decide

/-- The complementary command. -/
def comp : EditingCmd → CmdFunc
  | insert => .cmdUninsert
  | backspace => .cmdInsert
  | backwardChar => .cmdForwardChar
  | forwardChar => .cmdBackwardChar
  | forwardWord | backwardWord | toBeginningOfLine | toEndOfLine => .cmdGetBackToLinePos
  | setMarker => .cmdUnsetMarker
  | unsetMarker => .cmdSetMarker
  | toggleCursor => .cmdToggleCursor

lemma getCompCmd_fn (c : EditingCmd) : getCompCmd c.fn = some c.comp := by cases c <;> rfl

lemma comp_ne_cmdEnter (c : EditingCmd) : c.comp ≠ .cmdEnter := by cases c <;> decide

/-- The event calls the command, with the bytes that it needs. -/
structure Calls (c : EditingCmd) (event : InputEvent) : Prop where
  cmdFn : event.cmdFn = c.fn
  seq : c = insert → event.seq ≠ none

lemma calls_of_ne_insert {c : EditingCmd} {event : InputEvent} (he : event.cmdFn = c.fn)
    (hc : c ≠ insert) : c.Calls event := ⟨he, fun h => absurd h hc⟩

lemma calls_of_seq {c : EditingCmd} {event : InputEvent} (he : event.cmdFn = c.fn) {seq : CStr}
    (hseq : event.seq = some seq) : c.Calls event := ⟨he, fun _ => by rw [hseq]; simp⟩

lemma calls_or_seq_eq_none {c : EditingCmd} {event : InputEvent} (he : event.cmdFn = c.fn) :
    c.Calls event ∨ event.cmdFn = .cmdInsert ∧ event.seq = none := by
  by_cases h : c = insert ∧ event.seq = none
  · exact .inr ⟨he.trans (congrArg fn h.1), h.2⟩
  · exact .inl ⟨he, fun hc hseq => h ⟨hc, hseq⟩⟩

/-- A key gives an insertion its bytes. -/
lemma calls_of_keyEvent {c : EditingCmd} {event : InputEvent} (hk : KeyEvent event)
    (he : event.cmdFn = c.fn) : c.Calls event := by
  refine ⟨he, ?_⟩
  rintro rfl
  obtain ⟨ds, -, hseq⟩ := hk.2.2.1 he
  rw [hseq]
  exact Option.some_ne_none _

/-- The command returns at once. -/
def Stuck (c : EditingCmd) (node : MsgNode) : Prop :=
  match c with
  | insert | toggleCursor => False
  | backspace | backwardChar | backwardWord | toBeginningOfLine => node.cursorPos = 0
  | forwardChar | toEndOfLine => geSize node.cursorPos (utf8Strlen node.text)
  | forwardWord => node.cursorPos = utf8Strlen node.text
  | setMarker => node.markerPos ≠ -1
  | unsetMarker => node.markerPos = -1

instance (c : EditingCmd) (node : MsgNode) : Decidable (c.Stuck node) := by
  cases c <;> unfold Stuck <;> infer_instance

end EditingCmd

/-! ### Deletion -/

/-- The number of characters `cmd_backspace` is to delete. -/
def cntDel (event : InputEvent) : ℤ :=
  match event.seq with
  | some seq => utf8Strlen seq
  | none => 1

/-- The cursor after `cmd_backspace`. -/
def backPos (node : MsgNode) (event : InputEvent) : ℤ :=
  if node.cursorPos - cntDel event < 0 then 0 else node.cursorPos - cntDel event

/-- The bytes `cmd_backspace` removes. -/
def deleted (node : MsgNode) (event : InputEvent) : CStr :=
  let byteOffsetPrev := utf8ByteOffset node.text (backPos node event)
  (node.text.drop byteOffsetPrev).take (utf8ByteOffset node.text node.cursorPos - byteOffsetPrev)

def updBackspace (node : MsgNode) (event : InputEvent) : MsgNode :=
  { text := node.text.take (utf8ByteOffset node.text (backPos node event)) ++
      node.text.drop (utf8ByteOffset node.text node.cursorPos)
    cursorPos := backPos node event
    markerPos := node.markerPos }

namespace EditingCmd

/-- The node after the command. -/
def update (c : EditingCmd) (node : MsgNode) (event : InputEvent) : MsgNode :=
  match c with
  | insert => updInsert node event
  | backspace => updBackspace node event
  | backwardChar => updBackwardChar node event
  | forwardChar => updForwardChar node event
  | forwardWord => updForwardWord node event
  | backwardWord => updBackwardWord node event
  | toBeginningOfLine => updToBeginningOfLine node event
  | toEndOfLine => updToEndOfLine node event
  | setMarker =>
    match event.seq with
    | some seq => { updSetMarker node event with markerPos := hexToInt (some seq) }
    | none => updSetMarker node event
  | unsetMarker => updUnsetMarker node event
  | toggleCursor => updToggleCursor node event

variable [CLib]

/-- The `Action` the command returns, made from the one `mngAct` gave it. -/
def adjust (c : EditingCmd) (node : MsgNode) (event : InputEvent) (act : Action) : Action :=
  match c with
  | insert =>
    if act.cnt > 1 then { act with cnt := 1, seq := some (deref act.seq ++ deref event.seq) }
    else act
  | backspace =>
    if act.cnt > 1 then
      { act with cnt := 1, seq := some (prependDeleted (deref act.seq) (deleted node event)) }
    else { act with seq := some (deleted node event) }
  | backwardWord => if act.cnt = 1 then { act with seq := some (intToHex node.cursorPos) } else act
  | toBeginningOfLine | toEndOfLine | setMarker =>
    { act with seq := some (intToHex node.cursorPos) }
  | unsetMarker => { act with seq := some (intToHex node.markerPos) }
  | backwardChar | forwardChar | forwardWord | toggleCursor => act

end EditingCmd

/-! ### The `Action` of `mngAct` -/

/-- The undo stack `mngAct` leaves behind. -/
def restOf (action : CmdFunc) : ActionStack → ActionStack
  | [] => [none]
  | none :: next => none :: next
  | some prev :: next => if prev.cmdFn = action then next else some prev :: next

/-- The `Action` that a command is merged into. -/
def mergeTarget (action : CmdFunc) : ActionStack → Option Action
  | some prev :: _ => if prev.cmdFn = action then some prev else none
  | _ => none

/-- The `Action` that `mngAct` returns. -/
def takenAction (s : Editor) (event : InputEvent) (action : CmdFunc) : Action :=
  match mergeTarget action s.undoStack with
  | some prev => { prev with cnt := prev.cnt + 1 }
  | none => { id := s.created, cmdFn := event.cmdFn, seq := event.seq, cnt := 1 }

/-- Everything `mngAct` does. -/
lemma mngAct_eq (s : Editor) (event : InputEvent) (action : CmdFunc)
    (updateFn : Option (MsgNode → InputEvent → MsgNode)) :
    mngAct s event action updateFn =
      ({ s with
          curr := match updateFn with
            | some updateFn => updateFn s.curr event
            | none => s.curr
          undoStack := restOf action s.undoStack
          created := match mergeTarget action s.undoStack with
            | some _ => s.created
            | none => s.created + 1 },
        takenAction s event action) := by
  cases updateFn <;>
  rcases hs : s.undoStack with - | ⟨- | prev, next⟩
  case none.nil | some.nil =>
    simp [mngAct, popAction, pushAction, createAction, restOf, mergeTarget, takenAction, hs]
  case none.cons.none | some.cons.none =>
    simp [mngAct, popAction, pushAction, createAction, restOf, mergeTarget, takenAction, hs]
  case none.cons.some | some.cons.some =>
    by_cases h : prev.cmdFn = action
    · simp [mngAct, popAction, restOf, mergeTarget, takenAction, hs, h]
    · simp [mngAct, popAction, pushAction, createAction, restOf, mergeTarget, takenAction, hs, h]

/-! ### Calling a command -/

namespace EditingCmd

/-- The editor after the command. -/
def performed (c : EditingCmd) (s : Editor) (event : InputEvent) : Editor :=
  { s with
    curr := c.update s.curr event
    undoStack := restOf c.fn s.undoStack
    created := match mergeTarget c.fn s.undoStack with
      | some _ => s.created
      | none => s.created + 1 }

variable [CLib]

/-- The `Action` the command returns. -/
def recorded (c : EditingCmd) (s : Editor) (event : InputEvent) : Action :=
  c.adjust s.curr event (takenAction s event c.fn)

lemma callCmd_eq (c : EditingCmd) (s : Editor) {event : InputEvent} (he : c.Calls event) :
    callCmd s event =
      some (if c.Stuck s.curr then (s, none)
        else (c.performed s event, some (c.recorded s event))) := by
  obtain ⟨he, hseq⟩ := he
  cases c <;> rw [callCmd, he]
  case insert =>
    simp only [fn, cmdInsert, if_neg (hseq rfl), mngAct_eq, Stuck, performed, recorded, update,
      adjust]
    by_cases h : (takenAction s event .cmdInsert).cnt > 1
    · simp [h]
    · simp [h]
  case backspace =>
    by_cases hp : s.curr.cursorPos = 0
    · simp [fn, cmdBackspace, Stuck, hp]
    · simp only [fn, cmdBackspace, hp, if_false, gt_iff_lt, lt_self_iff_false, mngAct_eq, Stuck,
        performed, recorded, update, adjust, updBackspace]
      rfl
  case backwardChar =>
    by_cases hp : s.curr.cursorPos = 0
    · simp [fn, cmdBackwardChar, Stuck, hp]
    · simp [fn, cmdBackwardChar, mngAct_eq, Stuck, hp, performed, recorded, update, adjust]
  case forwardChar =>
    by_cases hp : geSize s.curr.cursorPos (utf8Strlen s.curr.text)
    · simp [fn, cmdForwardChar, Stuck, hp]
    · simp [fn, cmdForwardChar, mngAct_eq, Stuck, hp, performed, recorded, update, adjust]
  case forwardWord =>
    by_cases hp : s.curr.cursorPos = utf8Strlen s.curr.text
    · simp [fn, cmdForwardWord, Stuck, hp]
    · simp [fn, cmdForwardWord, mngAct_eq, Stuck, hp, performed, recorded, update, adjust]
  case backwardWord =>
    by_cases hp : s.curr.cursorPos = 0
    · simp [fn, cmdBackwardWord, Stuck, hp]
    · simp only [fn, cmdBackwardWord, hp, mngAct_eq, Stuck, performed, recorded, update, adjust]
      by_cases h : (takenAction s event .cmdBackwardWord).cnt = 1
      · simp [h]
      · simp [h]
  case toBeginningOfLine =>
    by_cases hp : s.curr.cursorPos = 0
    · simp [fn, cmdToBeginningOfLine, Stuck, hp]
    · simp [fn, cmdToBeginningOfLine, mngAct_eq, Stuck, hp, performed, recorded, update, adjust]
  case toEndOfLine =>
    by_cases hp : geSize s.curr.cursorPos (utf8Strlen s.curr.text)
    · simp [fn, cmdToEndOfLine, Stuck, hp]
    · simp [fn, cmdToEndOfLine, mngAct_eq, Stuck, hp, performed, recorded, update, adjust]
  case setMarker =>
    by_cases hm : s.curr.markerPos = -1
    · cases hs : event.seq <;>
      simp [fn, cmdSetMarker, mngAct_eq, Stuck, hm, hs, performed, recorded, update, adjust,
        updSetMarker]
    · simp [fn, cmdSetMarker, Stuck, hm]
  case unsetMarker =>
    by_cases hm : s.curr.markerPos = -1
    · simp [fn, cmdUnsetMarker, Stuck, hm]
    · simp [fn, cmdUnsetMarker, mngAct_eq, Stuck, hm, performed, recorded, update, adjust]
  case toggleCursor =>
    simp [fn, cmdToggleCursor, mngAct_eq, Stuck, performed, recorded, update, adjust]

end EditingCmd

/-! ### The effect of a call on the undo stack and on the node -/

/-- A call, seen on the undo stack. -/
def stackEffect (event : InputEvent) (node : MsgNode) (undoStack : ActionStack) : ActionStack :=
  match EditingCmd.ofFn event.cmdFn with
  | some c => if c.Stuck node then undoStack else restOf event.cmdFn undoStack
  | none => undoStack

lemma stackEffect_of_fn (c : EditingCmd) {event : InputEvent} (he : event.cmdFn = c.fn)
    (node : MsgNode) (undoStack : ActionStack) :
    stackEffect event node undoStack =
      if c.Stuck node then undoStack else restOf c.fn undoStack := by
  simp only [stackEffect, he, EditingCmd.ofFn_fn]

section Effect

variable [CLib]

/-- `cmd_uninsert`, seen on the node. -/
def uninsertNode (node : MsgNode) (event : InputEvent) : Option MsgNode :=
  let seq := deref event.seq
  let byteOffset := utf8ByteOffset node.text node.cursorPos
  if event.seq = none ∨ byteOffset < seq.length then none
  else some { node with
    text := strcpyWithin node.text (byteOffset - seq.length) byteOffset
    cursorPos := node.cursorPos - utf8Strlen seq }

/-- `cmd_get_back_to_line_pos`, seen on the node. -/
def getBackNode (node : MsgNode) (event : InputEvent) : MsgNode :=
  let oldCursorPos := hexToInt event.seq
  if oldCursorPos < 0 ∨ oldCursorPos > utf8Strlen node.text then node
  else { node with cursorPos := oldCursorPos }

/-- An editing command, seen on the node. -/
def EditingCmd.act (c : EditingCmd) (node : MsgNode) (event : InputEvent) : MsgNode :=
  if c.Stuck node then node else c.update node event

/-- A call, seen on the node; `none` when it ends the program. -/
def effect (event : InputEvent) (node : MsgNode) : Option MsgNode :=
  match event.cmdFn with
  | .cmdUninsert => uninsertNode node event
  | .cmdGetBackToLinePos => some (getBackNode node event)
  | cmdFn =>
    match EditingCmd.ofFn cmdFn with
    | some c => if c = .insert ∧ event.seq = none then none else some (c.act node event)
    | none => some node

lemma effect_of_calls (c : EditingCmd) {event : InputEvent} (he : c.Calls event)
    (node : MsgNode) : effect event node = some (c.act node event) := by
  have hseq : ¬ (c = .insert ∧ event.seq = none) := fun h => he.seq h.1 h.2
  have heffect : effect event node =
      if c = .insert ∧ event.seq = none then none else some (c.act node event) := by
    cases c <;> simp only [effect, he.cmdFn, EditingCmd.fn, EditingCmd.ofFn]
  rw [heffect, if_neg hseq]

/-- An insertion without bytes ends the program. -/
lemma effect_of_seq_eq_none {event : InputEvent} (he : event.cmdFn = .cmdInsert)
    (hseq : event.seq = none) (node : MsgNode) : effect event node = none := by
  simp only [effect, he, EditingCmd.ofFn, hseq, and_self, if_true]

/-- What a call other than `cmd_enter` does to the node and to the stacks. -/
lemma callCmd_spec {event : InputEvent} (he : event.cmdFn ≠ .cmdEnter) (s : Editor) :
    match effect event s.curr with
    | none => callCmd s event = none
    | some node => ∃ t r, callCmd s event = some (t, r) ∧ t.curr = node ∧
        t.undoStack = stackEffect event s.curr s.undoStack ∧ t.redoStack = s.redoStack ∧
        t.freed = s.freed := by
  rcases hc : EditingCmd.ofFn event.cmdFn with - | c
  · cases hf : event.cmdFn <;> simp only [hf, EditingCmd.ofFn, reduceCtorEq] at hc
    case cmdEnter => exact absurd hf he
    case cmdUninsert =>
      simp only [effect, hf, uninsertNode, callCmd, cmdUninsert, stackEffect, EditingCmd.ofFn]
      by_cases hnull : event.seq = none
      · simp only [hnull, true_or, if_true]
      · simp only [hnull, false_or, if_false]
        split_ifs with h
        · rfl
        · exact ⟨_, _, rfl, rfl, rfl, rfl, rfl⟩
    case cmdGetBackToLinePos =>
      simp only [effect, hf, getBackNode, callCmd, cmdGetBackToLinePos, stackEffect,
        EditingCmd.ofFn]
      split_ifs with h
      · exact ⟨_, _, rfl, rfl, rfl, rfl, rfl⟩
      · exact ⟨_, _, rfl, rfl, rfl, rfl, rfl⟩
    case cmdConnect =>
      simp only [effect, hf, callCmd, stackEffect, EditingCmd.ofFn]
      refine ⟨_, _, rfl, ?_⟩
      simp only [connectToServer]
      split_ifs <;> simp [pushMessage]
    all_goals
      simp only [effect, hf, callCmd, stackEffect, EditingCmd.ofFn]
      exact ⟨_, _, rfl, rfl, rfl, rfl, rfl⟩
  · have hf := EditingCmd.fn_of_ofFn hc
    rcases EditingCmd.calls_or_seq_eq_none hf with hcalls | ⟨hins, hnull⟩
    · simp only [effect_of_calls c hcalls, stackEffect_of_fn c hf, c.callCmd_eq s hcalls,
        EditingCmd.act]
      split_ifs with h
      · exact ⟨_, _, rfl, rfl, rfl, rfl, rfl⟩
      · exact ⟨_, _, rfl, rfl, rfl, rfl, rfl⟩
    · simp only [effect_of_seq_eq_none hins hnull, callCmd, hins, cmdInsert, hnull, if_true]

end Effect

end Vjft.Term
