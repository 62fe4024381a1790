import Vjft.Term.Hex

/-!
# State of the editor (`term/event.h`, `term/event.c`)

The editor edits the node `msgList.curr`, which is the first node ever pushed and stays the
current one, and records what it did in two stacks of `Action`s. A stack may hold `NULL`:
`mngAct` pushes back whatever `popAction` gave it, also when the stack was empty.

`Action`s are heap objects. The field `id` names the object an `Action` lives in, `created` counts
the objects made so far and `freed` lists the ones `freeAction` has released.
-/

namespace Vjft.Term

structure MsgNode where
  text : CStr
  cursorPos : ℤ
  markerPos : ℤ
  deriving DecidableEq

/-- The functions a `CmdFunc` pointer of the program can point to. -/
inductive CmdFunc where
  | cmdInsert
  | cmdUninsert
  | cmdBackspace
  | cmdBackwardChar
  | cmdForwardChar
  | cmdForwardWord
  | cmdBackwardWord
  | cmdToBeginningOfLine
  | cmdToEndOfLine
  | cmdGetBackToLinePos
  | cmdSetMarker
  | cmdUnsetMarker
  | cmdToggleCursor
  | cmdUndo
  | cmdRedo
  | cmdEnter
  | cmdAltEnter
  | cmdConnect
  | cmdPrevMsg
  | cmdNextMsg
  | cmdCopy
  | cmdCut
  | cmdPaste
  | cmdStub
  deriving DecidableEq

structure InputEvent where
  cmdFn : CmdFunc
  seq : Option CStr
  deriving DecidableEq

structure Action where
  id : ℕ
  cmdFn : CmdFunc
  seq : Option CStr
  cnt : ℕ
  deriving DecidableEq

abbrev ActionStack := List (Option Action)

/-- What the operating system answers to the next calls of `socket` and `connect`. -/
structure Os where
  socket : ℤ
  connect : ℤ
  deriving DecidableEq

structure Editor where
  /-- `*msgList.curr` -/
  curr : MsgNode
  /-- The texts of the other nodes of `msgList`, from `msgList.head` on. -/
  messages : List CStr
  undoStack : ActionStack
  redoStack : ActionStack
  sockfd : ℤ
  outgoingQueue : List CStr
  os : Os
  created : ℕ
  freed : List ℕ
  deriving DecidableEq

/-- The bytes of a string literal. -/
def lit (s : String) : CStr := s.toUTF8.toList

def pushMessage (s : Editor) (text : CStr) : Editor := { s with messages := text :: s.messages }

/-! ### Actions and stacks -/

def createAction (s : Editor) (event : InputEvent) : Editor × Action :=
  ({ s with created := s.created + 1 },
    { id := s.created, cmdFn := event.cmdFn, seq := event.seq, cnt := 1 })

def pushAction (stack : ActionStack) (act : Option Action) : ActionStack := act :: stack

/-- The popped `Action`, `NULL` when the stack is empty, and the rest of the stack. -/
def popAction : ActionStack → Option Action × ActionStack
  | [] => (none, [])
  | topElt :: next => (topElt, next)

def freeAction (freed : List ℕ) : Option Action → List ℕ
  | none => freed
  | some act => act.id :: freed

/-- The objects released once the stack is empty. -/
def clearStack (freed : List ℕ) : ActionStack → List ℕ
  | [] => freed
  | act :: next => clearStack (freeAction freed act) next

/-- Take the previous `Action` of the same command or a fresh one, then update the node. -/
def mngAct (s : Editor) (event : InputEvent) (action : CmdFunc)
    (updateFn : Option (MsgNode → InputEvent → MsgNode)) : Editor × Action :=
  let (prevAction, undoStack) := popAction s.undoStack
  let (s, newAction) :=
    match prevAction with
    | some prev =>
      if prev.cmdFn = action then
        ({ s with undoStack }, { prev with cnt := prev.cnt + 1 })
      else createAction { s with undoStack := pushAction undoStack prevAction } event
    | none => createAction { s with undoStack := pushAction undoStack prevAction } event
  match updateFn with
  | some updateFn => ({ s with curr := updateFn s.curr event }, newAction)
  | none => (s, newAction)

end Vjft.Term
