import Vjft.Term.Event.Basic

/-!
# The commands of the editor (`term/event.c`)

A command gets the current node and an event, and returns the `Action` to be recorded, or `NULL`
when it changed nothing. A call that ends in `exit` or that follows a `NULL` has no result.

At two places the code relies on more than the C library promises: `cmd_uninsert` moves a part of
the text with `strcpy`, also where source and destination overlap, and `cmd_backspace` goes on
writing to a block that it has handed to `realloc`. What happens there is left to an instance of
`CLib`.
-/

namespace Vjft.Term

/-- `x >= n` for an `int` and a `size_t`: the `int` is converted, and a negative one becomes larger
than the length of any string. -/
def geSize (x : ℤ) (n : ℕ) : Prop := x < 0 ∨ n ≤ x

instance (x : ℤ) (n : ℕ) : Decidable (geSize x n) := inferInstanceAs (Decidable (_ ∨ _))

/-! ### Moving by one character -/

def updBackwardChar (node : MsgNode) (_event : InputEvent) : MsgNode :=
  if node.cursorPos > 0 then { node with cursorPos := node.cursorPos - 1 } else node

def cmdBackwardChar (s : Editor) (event : InputEvent) : Editor × Option Action :=
  if s.curr.cursorPos = 0 then (s, none)
  else
    let (s, newAction) := mngAct s event .cmdBackwardChar (some updBackwardChar)
    (s, some newAction)

def updForwardChar (node : MsgNode) (_event : InputEvent) : MsgNode :=
  let len : ℤ := utf8Strlen node.text
  if node.cursorPos + 1 ≥ len then { node with cursorPos := len }
  else { node with cursorPos := node.cursorPos + 1 }

def cmdForwardChar (s : Editor) (event : InputEvent) : Editor × Option Action :=
  if geSize s.curr.cursorPos (utf8Strlen s.curr.text) then (s, none)
  else
    let (s, newAction) := mngAct s event .cmdForwardChar (some updForwardChar)
    (s, some newAction)

/-! ### Moving by words -/

/-- One of the two loops of `upd_forward_word`: step over the characters whose lead byte passes
`test`. The loop ends at `textLength`, which bounds the number of rounds. -/
def skipForward (text : CStr) (textLength : ℤ) (test : UInt8 → Bool) :
    ℕ → ℤ → ℕ → ℤ × ℕ
  | 0, currentPos, byteOffset => (currentPos, byteOffset)
  | n + 1, currentPos, byteOffset =>
    if currentPos < textLength ∧ test (byteAt text byteOffset) = true then
      skipForward text textLength test n (currentPos + 1) (utf8NextChar text byteOffset)
    else (currentPos, byteOffset)

def updForwardWord (node : MsgNode) (_event : InputEvent) : MsgNode :=
  let textLength : ℤ := utf8Strlen node.text
  let byteOffset := utf8ByteOffset node.text node.cursorPos
  let rounds := (textLength - node.cursorPos).toNat
  let (currentPos, byteOffset) :=
    skipForward node.text textLength isspace rounds node.cursorPos byteOffset
  let (currentPos, _) :=
    skipForward node.text textLength (fun b => !isspace b) rounds currentPos byteOffset
  { node with cursorPos := currentPos }

def cmdForwardWord (s : Editor) (event : InputEvent) : Editor × Option Action :=
  if s.curr.cursorPos = utf8Strlen s.curr.text then (s, none)
  else
    let (s, newAction) := mngAct s event .cmdForwardWord (some updForwardWord)
    (s, some newAction)

/-- One of the two loops of `upd_backward_word`: step back over the characters whose last byte
passes `test`. Well-formed text has a byte before the offset as long as `currentPos` is positive. -/
def skipBackward (text : CStr) (test : UInt8 → Bool) : ℕ → ℤ → ℕ → ℤ × ℕ
  | 0, currentPos, byteOffset => (currentPos, byteOffset)
  | n + 1, currentPos, byteOffset =>
    if currentPos > 0 ∧ test (byteAt text (byteOffset - 1)) = true then
      skipBackward text test n (currentPos - 1) (utf8PrevChar text byteOffset)
    else (currentPos, byteOffset)

def updBackwardWord (node : MsgNode) (_event : InputEvent) : MsgNode :=
  let byteOffset := utf8ByteOffset node.text node.cursorPos
  let rounds := node.cursorPos.toNat
  let (currentPos, byteOffset) :=
    skipBackward node.text isspace rounds node.cursorPos byteOffset
  let (currentPos, _) :=
    skipBackward node.text (fun b => !isspace b) rounds currentPos byteOffset
  { node with cursorPos := currentPos }

def cmdBackwardWord (s : Editor) (event : InputEvent) : Editor × Option Action :=
  if s.curr.cursorPos = 0 then (s, none)
  else
    let oldCursorPos := s.curr.cursorPos
    let (s, newAction) := mngAct s event .cmdBackwardWord (some updBackwardWord)
    if newAction.cnt = 1 then (s, some { newAction with seq := some (intToHex oldCursorPos) })
    else (s, some newAction)

/-! ### Moving inside a line -/

/-- The loop of `upd_to_beginning_of_line`; a newline found on the way sets the cursor to the
length of the text. -/
def backToNewline (node : MsgNode) : ℕ → ℕ → MsgNode
  | 0, _ => { node with cursorPos := 0 }
  | n + 1, byteOffset =>
    if byteOffset > 0 then
      let prevOffset := utf8PrevChar node.text byteOffset
      if byteAt node.text prevOffset = 0x0A then
        { node with cursorPos := utf8Strlen node.text }
      else backToNewline node n prevOffset
    else { node with cursorPos := 0 }

def updToBeginningOfLine (node : MsgNode) (_event : InputEvent) : MsgNode :=
  let byteOffset := utf8ByteOffset node.text node.cursorPos
  backToNewline node byteOffset byteOffset

def cmdToBeginningOfLine (s : Editor) (event : InputEvent) : Editor × Option Action :=
  if s.curr.cursorPos = 0 then (s, none)
  else
    let seq := intToHex s.curr.cursorPos
    let (s, newAction) := mngAct s event .cmdToBeginningOfLine (some updToBeginningOfLine)
    (s, some { newAction with seq := some seq })

def cmdGetBackToLinePos (s : Editor) (event : InputEvent) : Editor × Option Action :=
  let oldCursorPos := hexToInt event.seq
  if oldCursorPos < 0 ∨ oldCursorPos > utf8Strlen s.curr.text then (s, none)
  else ({ s with curr := { s.curr with cursorPos := oldCursorPos } }, none)

/-- The loop of `upd_to_end_of_line`; its `cursor_pos++` is overwritten when it ends. -/
def forwardToNewline (node : MsgNode) : ℕ → ℕ → MsgNode
  | 0, _ => { node with cursorPos := utf8CharIndex node.text node.text.length }
  | n + 1, byteOffset =>
    if byteOffset < node.text.length then
      if byteAt node.text byteOffset = 0x0A then
        { node with cursorPos := utf8CharIndex node.text byteOffset }
      else
        forwardToNewline { node with cursorPos := node.cursorPos + 1 } n
          (utf8NextChar node.text byteOffset)
    else { node with cursorPos := utf8CharIndex node.text node.text.length }

def updToEndOfLine (node : MsgNode) (_event : InputEvent) : MsgNode :=
  forwardToNewline node node.text.length (utf8ByteOffset node.text node.cursorPos)

def cmdToEndOfLine (s : Editor) (event : InputEvent) : Editor × Option Action :=
  if geSize s.curr.cursorPos (utf8Strlen s.curr.text) then (s, none)
  else
    let seq := intToHex s.curr.cursorPos
    let (s, newAction) := mngAct s event .cmdToEndOfLine (some updToEndOfLine)
    (s, some { newAction with seq := some seq })

/-! ### Where the C library promises nothing -/

class CLib where
  /-- What `strcpy(text + dest, text + src)` leaves of the text if it reads where it writes. -/
  strcpyOverlap (text : CStr) (dest src : ℕ) : CStr
  /-- The bytes of an `Action` after `cmd_backspace` has put `del` in front of `seq`, if `realloc`
  had to move the block or `strncpy` did not copy from left to right; `none` otherwise. -/
  movedSeq (seq del : CStr) : Option CStr

/-- `strcpy` and `strncpy` copy from left to right, and `realloc` extends blocks in place. -/
instance (priority := low) CLib.inPlace : CLib where
  strcpyOverlap text dest src := text.take dest ++ text.drop src
  movedSeq _ _ := none

variable [CLib]

/-- `strcpy(text + dest, text + src)`, to the left. The bytes that are read and those that are
written overlap unless the part that is moved is shorter than the way it goes. -/
def strcpyWithin (text : CStr) (dest src : ℕ) : CStr :=
  if text.length - src < src - dest then text.take dest ++ text.drop src
  else CLib.strcpyOverlap text dest src

/-! ### Inserting and deleting -/

/-- The bytes of a string pointer that is not `NULL`. -/
def deref (seq : Option CStr) : CStr := seq.getD []

def updInsert (node : MsgNode) (event : InputEvent) : MsgNode :=
  let byteOffset := utf8ByteOffset node.text node.cursorPos
  let seq := deref event.seq
  let text := node.text.take byteOffset ++ seq ++ node.text.drop byteOffset
  let cursorOffset : ℤ := utf8Strlen seq
  let cursorPos := node.cursorPos + cursorOffset
  -- the marker is compared with the cursor that has already moved
  let markerPos :=
    if node.markerPos ≥ cursorPos then node.markerPos + cursorOffset else node.markerPos
  { text, cursorPos, markerPos }

/-- `upd_insert` takes the length of `event->seq`, whether or not there are any bytes. -/
def cmdInsert (s : Editor) (event : InputEvent) : Option (Editor × Option Action) :=
  if event.seq = none then none
  else
    let (s, newAction) := mngAct s event .cmdInsert (some updInsert)
    if newAction.cnt > 1 then
      some (s, some { newAction with
        cnt := 1
        seq := some (deref newAction.seq ++ deref event.seq) })
    else some (s, some newAction)

/-- Undoes an insertion; an offset before the start of the text ends the program. -/
def cmdUninsert (s : Editor) (event : InputEvent) : Option (Editor × Option Action) :=
  if event.seq = none then none
  else
    let seq := deref event.seq
    let cntDel : ℤ := utf8Strlen seq
    let insLen := seq.length
    let byteOffset := utf8ByteOffset s.curr.text s.curr.cursorPos
    if byteOffset < insLen then none
    else
      let text := strcpyWithin s.curr.text (byteOffset - insLen) byteOffset
      some ({ s with curr :=
        { s.curr with text, cursorPos := s.curr.cursorPos - cntDel } }, none)

/-- `strncpy(buf + dst, buf + src, n)` with no terminator among the bytes read: byte by byte in
increasing order, also where source and destination overlap. -/
def strncpyWithin (buf : List UInt8) (dst src n : ℕ) : List UInt8 :=
  (List.range n).foldl (fun buf i => buf.set (dst + i) (buf.getD (src + i) 0)) buf

/-- How `cmd_backspace` puts deleted bytes in front of the ones an `Action` holds already: extend
the buffer, shift its content to the right, copy `del` to its start, terminate it. The shift goes
through the pointer from before `realloc`, which is the buffer only if it was extended in place. -/
def prependDeleted (seq del : CStr) : CStr :=
  match CLib.movedSeq seq del with
  | some seq => seq
  | none =>
    let buf := seq ++ List.replicate (del.length + 1) 0
    let buf := strncpyWithin buf del.length 0 seq.length
    let buf := del ++ buf.drop del.length
    buf.take (seq.length + del.length)

def cmdBackspace (s : Editor) (event : InputEvent) : Editor × Option Action :=
  if s.curr.cursorPos = 0 then (s, none)
  else
    let text := s.curr.text
    let cntDel : ℤ :=
      match event.seq with
      | some seq => utf8Strlen seq
      | none => 1
    let byteOffset := utf8ByteOffset text s.curr.cursorPos
    let oldCursorPos := s.curr.cursorPos
    let oldMarkerPos := s.curr.markerPos
    let newCursorPos := if oldCursorPos - cntDel < 0 then 0 else oldCursorPos - cntDel
    let newMarkerPos := oldMarkerPos
    -- the source compares the two variables it has just made equal
    let newMarkerPos := if oldMarkerPos > newMarkerPos then oldMarkerPos - cntDel else newMarkerPos
    let byteOffsetPrev := utf8ByteOffset text newCursorPos
    let delLen := byteOffset - byteOffsetPrev
    let del := (text.drop byteOffsetPrev).take delLen
    let (s, newAction) := mngAct s event .cmdBackspace none
    let newAction :=
      if newAction.cnt > 1 then
        { newAction with cnt := 1, seq := some (prependDeleted (deref newAction.seq) del) }
      else { newAction with seq := some del }
    let text := text.take byteOffsetPrev ++ text.drop byteOffset
    ({ s with curr := { text, cursorPos := newCursorPos, markerPos := newMarkerPos } },
      some newAction)

/-! ### The marker -/

def updSetMarker (node : MsgNode) (_event : InputEvent) : MsgNode :=
  { node with markerPos := node.cursorPos }

def cmdSetMarker (s : Editor) (event : InputEvent) : Editor × Option Action :=
  if s.curr.markerPos ≠ -1 then (s, none)
  else
    let (s, newAction) := mngAct s event .cmdSetMarker (some updSetMarker)
    let s :=
      match event.seq with
      | some seq => { s with curr := { s.curr with markerPos := hexToInt (some seq) } }
      | none => s
    (s, some { newAction with seq := some (intToHex s.curr.cursorPos) })

def updUnsetMarker (node : MsgNode) (_event : InputEvent) : MsgNode :=
  { node with markerPos := -1 }

def cmdUnsetMarker (s : Editor) (event : InputEvent) : Editor × Option Action :=
  if s.curr.markerPos = -1 then (s, none)
  else
    let oldMarkerPos := s.curr.markerPos
    let (s, newAction) := mngAct s event .cmdUnsetMarker (some updUnsetMarker)
    (s, some { newAction with seq := some (intToHex oldMarkerPos) })

def updToggleCursor (node : MsgNode) (_event : InputEvent) : MsgNode :=
  { node with cursorPos := node.markerPos, markerPos := node.cursorPos }

def cmdToggleCursor (s : Editor) (event : InputEvent) : Editor × Option Action :=
  let (s, newAction) := mngAct s event .cmdToggleCursor (some updToggleCursor)
  (s, some newAction)

/-! ### Sending the text -/

/-- Queues the data; the result the caller tests is always success. -/
def clientSend (s : Editor) (data : CStr) : Editor :=
  { s with outgoingQueue := s.outgoingQueue ++ [data] }

def cmdEnter (s : Editor) (_event : InputEvent) : Editor × Option Action :=
  if s.curr.text.length = 0 then (s, none)
  else
    let s :=
      if s.sockfd ≠ -1 then clientSend s s.curr.text
      else pushMessage s (lit "Not connected to server")
    let s := pushMessage s s.curr.text
    ({ s with curr := { text := [], cursorPos := 0, markerPos := -1 } }, none)

def connectToServer (s : Editor) : Editor :=
  let s := { s with sockfd := s.os.socket }
  let s :=
    if s.sockfd < 0 then pushMessage s (lit "connect_to_server_err: Cannot create socket") else s
  if s.os.connect < 0 then
    { pushMessage s (lit "connect_to_server_err: Connect failed") with sockfd := -1 }
  else s

/-! ### Calling through a pointer -/

/-- The call `cmdFn(msgList.curr, event)` with the `cmdFn` of the event, for a command other than
`cmd_undo` and `cmd_redo`: these two are called by `processEvents` only and never stand in an
`Action`. -/
def callCmd (s : Editor) (event : InputEvent) : Option (Editor × Option Action) :=
  match event.cmdFn with
  | .cmdInsert => cmdInsert s event
  | .cmdUninsert => cmdUninsert s event
  | .cmdBackspace => some (cmdBackspace s event)
  | .cmdBackwardChar => some (cmdBackwardChar s event)
  | .cmdForwardChar => some (cmdForwardChar s event)
  | .cmdForwardWord => some (cmdForwardWord s event)
  | .cmdBackwardWord => some (cmdBackwardWord s event)
  | .cmdToBeginningOfLine => some (cmdToBeginningOfLine s event)
  | .cmdToEndOfLine => some (cmdToEndOfLine s event)
  | .cmdGetBackToLinePos => some (cmdGetBackToLinePos s event)
  | .cmdSetMarker => some (cmdSetMarker s event)
  | .cmdUnsetMarker => some (cmdUnsetMarker s event)
  | .cmdToggleCursor => some (cmdToggleCursor s event)
  | .cmdEnter => some (cmdEnter s event)
  | .cmdConnect => some (connectToServer s, none)
  | .cmdAltEnter | .cmdPrevMsg | .cmdNextMsg | .cmdCopy | .cmdCut | .cmdPaste | .cmdStub
  | .cmdUndo | .cmdRedo => some (s, none)

end Vjft.Term
