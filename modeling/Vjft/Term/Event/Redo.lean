import Vjft.Term.Event.Range
import Vjft.Term.Event.Positions

/-!
# Redoing what was undone

`cmd_redo` calls the command of an `Action` again, as often as it was called before and with the
bytes that the `Action` holds. Whether this leads back to the node from before the undo depends on
this node: the cursor has to be where the command takes it from the place that the undo goes back
to, an insertion has to find its bytes in front of the cursor, and the text behind them has to be
shorter than they are.
-/

namespace Vjft.Term

/-- The cursor after a return to the stored position. -/
def backTo (seq : Option CStr) (node : MsgNode) : ℤ :=
  if 0 ≤ hexToInt seq ∧ hexToInt seq ≤ utf8Strlen node.text then hexToInt seq else node.cursorPos

/-- To the end of the text if there is a newline in front of the cursor, and to its start if not. -/
def toLineStart (b : TextBuffer CodePoint) : TextBuffer CodePoint where
  chars := b.chars
  cursor := if newline ∈ b.before then b.chars.length else 0
  cursor_le := by split_ifs <;> omega

/-- The cursor is where `f`, applied as often as the `Action` says, takes it from the place that the
undo goes back to. -/
def LeadsBack (f : TextBuffer CodePoint → TextBuffer CodePoint) (a : Action) (node : MsgNode) :
    Prop :=
  ∃ b : TextBuffer CodePoint, node.text = utf8.encode b.chars ∧ backTo a.seq node = b.cursor ∧
    node.cursorPos = (f^[a.cnt] b).cursor

/-- The nodes to which an undo and a redo lead back, for an `Action` of the command. -/
def EditingCmd.Fits (c : EditingCmd) (a : Action) (node : MsgNode) : Prop :=
  let len : ℤ := utf8Strlen node.text
  match c with
  | insert =>
    (∃ cs, node.text = utf8.encode cs) ∧
      deref a.seq <:+ node.text.take (utf8ByteOffset node.text node.cursorPos) ∧
      node.markerPos < node.cursorPos ∧ node.behind.length < (deref a.seq).length
  | backspace =>
    (∃ cs, node.text = utf8.encode cs) ∧ (∃ ds, a.seq = some (utf8.encode ds)) ∧
      0 ≤ node.cursorPos ∧ (a.seq = some [] ∨ node.cursorPos ≤ len ∧
        node.markerPos < node.cursorPos + utf8Strlen (deref a.seq))
  | backwardChar => node.cursorPos ≤ 0 ∨ node.cursorPos + a.cnt ≤ len
  | forwardChar =>
    node.cursorPos < 0 ∨ node.cursorPos = len ∨ a.cnt ≤ node.cursorPos ∧ node.cursorPos ≤ len
  | forwardWord => LeadsBack (TextBuffer.forwardWord IsSpace) a node
  | backwardWord => backTo a.seq node < 0 ∨ LeadsBack (TextBuffer.backwardWord IsSpace) a node
  | toBeginningOfLine => LeadsBack toLineStart a node
  | toEndOfLine =>
    backTo a.seq node < 0 ∨ len < backTo a.seq node ∨ LeadsBack (·.toNext newline) a node
  | setMarker =>
    node.markerPos = match a.seq with
      | some seq => hexToInt (some seq)
      | none => node.cursorPos
  | unsetMarker => node.markerPos = -1
  | toggleCursor => True

section Repeated

variable [CLib] {c : EditingCmd} {a : Action} {node : MsgNode}

end Repeated

section Commands

variable [CLib] {a : Action} {node : MsgNode}

end Commands

/-! ### Insertions -/

section Insert

variable {cs ds : List CodePoint} {p m : ℤ}

end Insert

end Vjft.Term
