import Vjft.Term.Event.Buffer

/-!
# The editor refines a text buffer

Typing, deleting, moving the cursor and sending act on the current node as the operations of a text
buffer of code points act on the buffer. The history is not looked at: it has no influence on these
commands.
-/

namespace Vjft.Term

/-- The events whose commands are operations on the text buffer. -/
inductive BufferCmd where
  | insert (ds : List CodePoint) (h : ds ≠ [])
  | backspace
  | forwardChar
  | backwardChar
  | forwardWord
  | backwardWord
  | toEndOfLine
  | enter

namespace BufferCmd

/-- The event of the program. -/
def event : BufferCmd → InputEvent
  | insert ds _ => typed ds
  | backspace => pressed .cmdBackspace
  | forwardChar => pressed .cmdForwardChar
  | backwardChar => pressed .cmdBackwardChar
  | forwardWord => pressed .cmdForwardWord
  | backwardWord => pressed .cmdBackwardWord
  | toEndOfLine => pressed .cmdToEndOfLine
  | enter => pressed .cmdEnter

/-- The operation on the text buffer. -/
def apply : BufferCmd → TextBuffer CodePoint → TextBuffer CodePoint
  | insert ds _, b => b.insert ds
  | backspace, b => b.deleteBefore
  | forwardChar, b => b.forward
  | backwardChar, b => b.backward
  | forwardWord, b => b.forwardWord IsSpace
  | backwardWord, b => b.backwardWord IsSpace
  | toEndOfLine, b => b.toNext newline
  | enter, _ => .clear

end BufferCmd

/-! ### Simulation of one command -/

lemma Shows.eq_nodeOf {node : MsgNode} {b : TextBuffer CodePoint} (h : Shows node b) :
    node = nodeOf b.chars b.cursor node.markerPos := by
  obtain ⟨text, p, m⟩ := node
  obtain ⟨rfl, rfl⟩ := h
  rfl

section Step

variable (b : TextBuffer CodePoint) (m : ℤ) (event : InputEvent)

lemma shows_insert (ds : List CodePoint) :
    Shows (EditingCmd.insert.act (nodeOf b.chars b.cursor m) (typed ds)) (b.insert ds) := by
  have hstuck : ¬ EditingCmd.insert.Stuck (nodeOf b.chars b.cursor m) := id
  rw [← EditingCmd.update_eq_act hstuck, EditingCmd.update, typed, updInsert_nodeOf]
  exact ⟨rfl, by simp [nodeOf, TextBuffer.insert]⟩

lemma shows_backspace :
    Shows (EditingCmd.backspace.act (nodeOf b.chars b.cursor m) (pressed .cmdBackspace))
      b.deleteBefore := by
  by_cases h0 : b.cursor = 0
  · rw [EditingCmd.act, if_pos (by simp [EditingCmd.Stuck, nodeOf, h0])]
    simp [Shows, nodeOf, TextBuffer.deleteBefore, TextBuffer.behind, h0]
  · have hcnt : cntDel (pressed .cmdBackspace) = 1 := rfl
    have hback : max ((b.cursor : ℤ) - 1) 0 = ((b.cursor - 1 : ℕ) : ℤ) := by omega
    rw [EditingCmd.act, if_neg (by simpa [EditingCmd.Stuck, nodeOf] using h0), EditingCmd.update,
      updBackspace_nodeOf, hcnt, hback]
    exact ⟨rfl, rfl⟩

lemma shows_forwardChar :
    Shows (EditingCmd.forwardChar.act (nodeOf b.chars b.cursor m) event)
      b.forward := by
  have hle := b.cursor_le
  rw [EditingCmd.act_forwardChar]
  refine ⟨rfl, ?_⟩
  simp only [nodeOf, utf8Strlen_encode, TextBuffer.forward]
  split_ifs <;> omega

lemma shows_backwardChar :
    Shows (EditingCmd.backwardChar.act (nodeOf b.chars b.cursor m) event)
      b.backward := by
  rw [EditingCmd.act_backwardChar]
  refine ⟨rfl, ?_⟩
  simp only [nodeOf, TextBuffer.backward]
  split_ifs <;> omega

lemma shows_forwardWord :
    Shows (EditingCmd.forwardWord.act (nodeOf b.chars b.cursor m) event)
      (b.forwardWord IsSpace) := by
  have hle := b.cursor_le
  by_cases hend : b.cursor = b.chars.length
  · rw [EditingCmd.act, if_pos (by simp [EditingCmd.Stuck, nodeOf, utf8Strlen_encode, hend])]
    simp [Shows, nodeOf, TextBuffer.forwardWord, TextBuffer.skipForward, TextBuffer.behind, hend]
  · have hstuck : ¬ EditingCmd.forwardWord.Stuck (nodeOf b.chars b.cursor m) := by
      simpa [EditingCmd.Stuck, nodeOf, utf8Strlen_encode] using hend
    have hspace : ∀ i (h : i < b.chars.length),
        isspace (byteAt (utf8.encode b.chars) (utf8.offset b.chars i)) = true ↔
          IsSpace b.chars[i] := fun i h => isspace_byteAt_offset h
    have hother : ∀ i (h : i < b.chars.length),
        (!isspace (byteAt (utf8.encode b.chars) (utf8.offset b.chars i))) = true ↔
          ¬ IsSpace b.chars[i] := by
      intro i h
      rw [Bool.not_eq_true', ← hspace i h, Bool.not_eq_true]
    have hrun : b.cursor + ((b.chars.drop b.cursor).takeWhile IsSpace).length ≤ b.chars.length :=
      (b.skipForward IsSpace).cursor_le
    rw [← EditingCmd.update_eq_act hstuck]
    simp only [EditingCmd.update, updForwardWord, nodeOf, utf8Strlen_encode,
      utf8ByteOffset_encode, Int.toNat_natCast]
    rw [skipForward_encode hspace _ hle (by omega)]
    dsimp only
    rw [skipForward_encode (p := fun c => ¬ IsSpace c) hother _ hrun (by omega)]
    exact ⟨rfl, rfl⟩

lemma shows_backwardWord :
    Shows (EditingCmd.backwardWord.act (nodeOf b.chars b.cursor m) event)
      (b.backwardWord IsSpace) := by
  have hle := b.cursor_le
  by_cases h0 : b.cursor = 0
  · rw [EditingCmd.act, if_pos (by simp [EditingCmd.Stuck, nodeOf, h0])]
    simp [Shows, nodeOf, TextBuffer.backwardWord, TextBuffer.skipBackward, h0]
  · have hstuck : ¬ EditingCmd.backwardWord.Stuck (nodeOf b.chars b.cursor m) := by
      simpa [EditingCmd.Stuck, nodeOf] using h0
    have hspace : ∀ i (h : i < b.chars.length),
        isspace (byteAt (utf8.encode b.chars) (utf8.offset b.chars (i + 1) - 1)) = true ↔
          IsSpace b.chars[i] := fun i h => isspace_byteAt_pred_offset h
    have hother : ∀ i (h : i < b.chars.length),
        (!isspace (byteAt (utf8.encode b.chars) (utf8.offset b.chars (i + 1) - 1))) = true ↔
          ¬ IsSpace b.chars[i] := by
      intro i h
      rw [Bool.not_eq_true', ← hspace i h, Bool.not_eq_true]
    have hrun : b.cursor - ((b.chars.take b.cursor).rtakeWhile IsSpace).length ≤ b.chars.length :=
      (b.skipBackward IsSpace).cursor_le
    rw [← EditingCmd.update_eq_act hstuck]
    simp only [EditingCmd.update, updBackwardWord, nodeOf, utf8ByteOffset_encode,
      Int.toNat_natCast]
    rw [skipBackward_encode hspace _ hle le_rfl]
    dsimp only
    rw [skipBackward_encode (p := fun c => ¬ IsSpace c) hother _ hrun (Nat.sub_le _ _)]
    exact ⟨rfl, rfl⟩

lemma shows_toEndOfLine :
    Shows (EditingCmd.toEndOfLine.act (nodeOf b.chars b.cursor m) event)
      (b.toNext newline) := by
  have hle := b.cursor_le
  by_cases hend : b.cursor = b.chars.length
  · rw [EditingCmd.act, if_pos (by simp [EditingCmd.Stuck, geSize, nodeOf, utf8Strlen_encode,
      hend])]
    simp [Shows, nodeOf, TextBuffer.toNext, TextBuffer.skipForward, TextBuffer.behind, hend]
  · have hstuck : ¬ EditingCmd.toEndOfLine.Stuck (nodeOf b.chars b.cursor m) := by
      simp only [EditingCmd.Stuck, geSize, nodeOf, utf8Strlen_encode]
      omega
    have hoff : utf8ByteOffset (nodeOf b.chars b.cursor m).text
        (nodeOf b.chars b.cursor m).cursorPos = utf8.offset b.chars b.cursor := by
      simp [nodeOf, utf8ByteOffset_encode]
    rw [← EditingCmd.update_eq_act hstuck, EditingCmd.update, updToEndOfLine, hoff,
      forwardToNewline_encode _ _ hle _ (by simp [nodeOf])]
    exact ⟨rfl, by simp [nodeOf, TextBuffer.toNext, TextBuffer.skipForward, TextBuffer.behind]⟩

end Step

/-! ### Simulation of runs -/

section Runs

variable [CLib]

/-- An editing command acts on the current node, whether it is stuck or not. -/
lemma exists_processEvent_act {s : Editor} {event : InputEvent} (c : EditingCmd)
    (he : c.Calls event) :
    ∃ s' updated, processEvent s event = some (s', updated) ∧ s'.curr = c.act s.curr event := by
  by_cases hc : c.Stuck s.curr
  · exact ⟨s, false, processEvent_stuck he hc, by rw [EditingCmd.act, if_pos hc]⟩
  · exact ⟨_, true, processEvent_acted he hc, EditingCmd.update_eq_act hc event⟩

lemma exists_processEvent_shows {s : Editor} {b : TextBuffer CodePoint} (h : Shows s.curr b)
    (cmd : BufferCmd) :
    ∃ s' updated, processEvent s cmd.event = some (s', updated) ∧ Shows s'.curr (cmd.apply b) := by
  have hnode := h.eq_nodeOf
  have key : ∀ c : EditingCmd, c.Calls cmd.event →
      Shows (c.act (nodeOf b.chars b.cursor s.curr.markerPos) cmd.event) (cmd.apply b) →
      ∃ s' updated, processEvent s cmd.event = some (s', updated) ∧
        Shows s'.curr (cmd.apply b) := by
    intro c hc hshow
    obtain ⟨s', updated, hs', hcurr⟩ := exists_processEvent_act (s := s) c hc
    refine ⟨s', updated, hs', ?_⟩
    rwa [hcurr, hnode]
  have moves := @EditingCmd.calls_of_ne_insert
  cases cmd with
  | insert ds hds => exact key .insert (EditingCmd.calls_of_seq rfl rfl) (shows_insert b _ ds)
  | backspace => exact key .backspace (moves rfl (by decide)) (shows_backspace b _)
  | forwardChar => exact key .forwardChar (moves rfl (by decide)) (shows_forwardChar b _ _)
  | backwardChar => exact key .backwardChar (moves rfl (by decide)) (shows_backwardChar b _ _)
  | forwardWord => exact key .forwardWord (moves rfl (by decide)) (shows_forwardWord b _ _)
  | backwardWord => exact key .backwardWord (moves rfl (by decide)) (shows_backwardWord b _ _)
  | toEndOfLine => exact key .toEndOfLine (moves rfl (by decide)) (shows_toEndOfLine b _ _)
  | enter =>
    by_cases ht : s.curr.text.length = 0
    · refine ⟨s, false, by simp [processEvent, callCmd, BufferCmd.event, pressed, cmdEnter, ht], ?_⟩
      obtain ⟨htext, hcursor⟩ := h
      have hnil : b.chars = [] := by
        rw [htext, List.length_eq_zero_iff, utf8.encode_eq_nil_iff] at ht
        exact ht
      have hzero : b.cursor = 0 := by simpa [hnil] using b.cursor_le
      exact ⟨by rw [htext, hnil]; rfl, by rw [hcursor, hzero]; rfl⟩
    · simp only [processEvent, callCmd, BufferCmd.event, pressed, cmdEnter, if_neg ht]
      exact ⟨_, _, rfl, rfl, rfl⟩

lemma exists_processEvents_shows (cmds : List BufferCmd) {s : Editor} {b : TextBuffer CodePoint}
    (h : Shows s.curr b) :
    ∃ s' updated, processEvents s (cmds.map BufferCmd.event) = some (s', updated) ∧
      Shows s'.curr (cmds.foldl (fun b cmd => cmd.apply b) b) := by
  induction cmds generalizing s b with
  | nil => exact ⟨s, false, rfl, h⟩
  | cons cmd cmds ih =>
    obtain ⟨t, updated, ht, hshow⟩ := exists_processEvent_shows h cmd
    obtain ⟨s', updated', hs', hshow'⟩ := ih hshow
    refine ⟨s', updated || updated', ?_, hshow'⟩
    rw [List.map_cons, processEvents, ht]
    change (processEvents t (cmds.map BufferCmd.event) >>= _) = _
    rw [hs']
    rfl

/-- From the initial state, any sequence of these events is processed without ending the program,
and the text and the cursor are those of the text buffer after the same operations. -/
theorem processEvents_refines_textBuffer {s : Editor} (hs : Initial s) (cmds : List BufferCmd) :
    ∃ s' updated, processEvents s (cmds.map BufferCmd.event) = some (s', updated) ∧
      Shows s'.curr (cmds.foldl (fun b cmd => cmd.apply b) .clear) := by
  refine exists_processEvents_shows cmds ?_
  rw [hs.curr]
  exact ⟨rfl, rfl⟩

end Runs

/-- Two words, the second one deleted from its end. -/
theorem processEvents_refines_textBuffer_words :
    ∃ s' updated, processEvents start ([BufferCmd.insert [.ofChar 'ж', .ofChar ' ',
        .ofChar 'b'] (by simp), .backwardWord, .toEndOfLine, .backspace].map
          BufferCmd.event) = some (s', updated) ∧
      Shows s'.curr ⟨[.ofChar 'ж', .ofChar ' '], 2, by decide⟩ :=
  processEvents_refines_textBuffer initial_start _

end Vjft.Term
