import Vjft.Term.Event.ProcessEvents
import Vjft.Term.Kbd
import Vjft.Term.Key
import Mathlib.Data.List.GetD
import Mathlib.Data.List.TakeWhile

/-!
# The key bindings (`term/main.c`)

A keystroke is inserted, or it is pushed to the stack of keys, and when that holds the keys of a
binding, the command is put in the queue of events and the stack is emptied.
-/

namespace Vjft.Term

/-! ### Bindings -/

structure KeyMap where
  combo : List Key
  cmdName : String
  cmdFunc : CmdFunc
  param : Option CStr

/-- `KEY_COMMAND`, which does not put its `param` in the table. -/
def keyCommand (cmdName : String) (cmdFunc : CmdFunc) (_param : Option String) (combo : List Key) :
    KeyMap := ⟨combo, cmdName, cmdFunc, none⟩

def keyCommands : List KeyMap := [
  keyCommand "CMD_CONNECT" .cmdConnect none [key "KEY_CTRL_X", key "KEY_CTRL_O"],
  keyCommand "CMD_ENTER" .cmdEnter none [key "KEY_ENTER"],
  keyCommand "CMD_ALT_ENTER" .cmdAltEnter none [key "KEY_ALT_ENTER"],
  keyCommand "CMD_BACKSPACE" .cmdBackspace none [key "KEY_BACKSPACE"],
  keyCommand "CMD_BACKWARD_CHAR" .cmdBackwardChar none [key "KEY_CTRL_B"],
  keyCommand "CMD_FORWARD_CHAR" .cmdForwardChar none [key "KEY_CTRL_F"],
  keyCommand "CMD_FORWARD_WORD" .cmdForwardWord none [key "KEY_ALT_F"],
  keyCommand "CMD_BACKWARD_WORD" .cmdBackwardWord none [key "KEY_ALT_B"],
  keyCommand "CMD_PREV_MSG" .cmdPrevMsg none [key "KEY_CTRL_P"],
  keyCommand "CMD_NEXT_MSG" .cmdNextMsg none [key "KEY_CTRL_N"],
  keyCommand "CMD_INSERT_K" .cmdInsert (some "THE_K") [key "KEY_K"],
  keyCommand "CMD_INSERT_L" .cmdInsert (some "THE_L") [key "KEY_L"],
  keyCommand "CMD_TO_BEGINNING_OF_LINE" .cmdToBeginningOfLine none [key "KEY_CTRL_A"],
  keyCommand "CMD_TO_END_OF_LINE" .cmdToEndOfLine none [key "KEY_CTRL_E"],
  keyCommand "CMD_COPY" .cmdCopy none [key "KEY_ALT_W"],
  keyCommand "CMD_CUT" .cmdCut none [key "KEY_CTRL_W"],
  keyCommand "CMD_PASTE" .cmdPaste none [key "KEY_CTRL_Y"],
  keyCommand "CMD_TOGGLE_CURSOR" .cmdToggleCursor none [key "KEY_CTRL_T"],
  keyCommand "CMD_UNDO" .cmdUndo none [key "KEY_CTRL_BACKSPACE"],
  keyCommand "CMD_REDO" .cmdRedo none [key "KEY_ALT_BACKSPACE"],
  keyCommand "CMD_SET_MARKER" .cmdSetMarker none [key "KEY_CTRL_BACKTICK"],
  keyCommand "CMD_UNSET_MARKER" .cmdUnsetMarker none
    [key "KEY_SHIFT_ALT_CTRL_2_IS_ALT_CTRL_ATSIGN"]]

/-- The combination is compared from its end on, and the stack from its top on. -/
def matchesCombo (ctrlStack : CtrlStack) (combo : List Key) : Bool := loop combo.length ctrlStack
where
  loop : ℕ → CtrlStack → Bool
  | 0, current => current.isEmpty
  | _ + 1, [] => false
  | i + 1, k :: next => if k ≠ combo.getD i 0 then false else loop i next

def findCommandByKey (ctrlStack : CtrlStack) : Option KeyMap :=
  keyCommands.find? fun cmd => matchesCombo ctrlStack cmd.combo

lemma zero_notMem_combo : ∀ cmd ∈ keyCommands, 0 ∉ cmd.combo := by
  simp [keyCommands, keyCommand, @eq_comm ℕ 0, key_eq_zero_iff]

/-- The bindings of the two commands that take a text are one printable key each. -/
lemma keyCommands_spec : ∀ cmd ∈ keyCommands, cmd.param = none ∧
    cmd.cmdFunc ≠ .cmdUninsert ∧ cmd.cmdFunc ≠ .cmdGetBackToLinePos ∧
    (cmd.cmdFunc = .cmdInsert → cmd.combo.length = 1 ∧ ∀ k ∈ cmd.combo, keyPrintable k) := by
  decide +kernel

lemma matchesCombo.loop_iff {combo : List Key} {i : ℕ} (hi : i ≤ combo.length)
    (current : CtrlStack) : loop combo i current = true ↔ combo.take i = current.reverse := by
  induction i generalizing current with
  | zero => rw [loop, List.isEmpty_iff, List.take_zero, List.nil_eq, List.reverse_eq_nil_iff]
  | succ i ih =>
    have h : i < combo.length := hi
    rw [← List.take_append_getElem h]
    cases current with
    | nil =>
      refine iff_of_false Bool.false_ne_true ?_
      exact List.append_ne_nil_of_right_ne_nil _ (List.cons_ne_nil _ [])
    | cons k next =>
      rw [loop, List.reverse_cons, ← List.concat_eq_append, ← List.concat_eq_append,
        List.concat_inj, ← ih h.le, List.getD_eq_getElem _ _ h]
      split_ifs with hk
      · exact iff_of_false not_false (fun h' => hk h'.2.symm)
      · exact (and_iff_left (not_ne_iff.mp hk).symm).symm

lemma matchesCombo_iff {ctrlStack : CtrlStack} {combo : List Key} :
    matchesCombo ctrlStack combo = true ↔ combo = ctrlStack.reverse := by
  rw [matchesCombo, matchesCombo.loop_iff le_rfl, List.take_length]

/-- The first binding with the keys of the whole stack, the one pushed first in front. -/
lemma findCommandByKey_eq (ctrlStack : CtrlStack) :
    findCommandByKey ctrlStack = keyCommands.find? fun cmd => cmd.combo = ctrlStack.reverse := by
  rw [findCommandByKey]
  congr 1
  ext cmd
  rw [Bool.eq_iff_iff, matchesCombo_iff, decide_eq_true_iff]

lemma findCommandByKey_eq_some {ctrlStack : CtrlStack} {cmd : KeyMap}
    (h : findCommandByKey ctrlStack = some cmd) :
    cmd ∈ keyCommands ∧ cmd.combo = ctrlStack.reverse := by
  have hmatch := List.find?_some h
  exact ⟨List.mem_of_find?_eq_some h, matchesCombo_iff.mp hmatch⟩

/-! ### The handler of keystrokes -/

inductive EventType where
  | dbg
  | cmd
  deriving DecidableEq

/-- An element of `gInputEventQueue`; the events that get to a command are those of type `CMD`. -/
structure QueuedEvent where
  type : EventType
  cmdFn : Option CmdFunc
  seq : Option CStr
  deriving DecidableEq

structure Keyboard where
  /-- The bytes that can be read from the terminal. -/
  input : Bytes
  ctrlStack : CtrlStack
  eventQueue : List QueuedEvent
  messages : List CStr

/-- `strdup` of a buffer that ends with a NUL. -/
def strdup (buf : Bytes) : CStr := buf.takeWhile (· ≠ 0)

def enqueueEvent (eventQueue : List QueuedEvent) (type : EventType) (cmdFn : Option CmdFunc)
    (seq : Option Bytes) : List QueuedEvent :=
  eventQueue ++ [⟨type, cmdFn, seq.map strdup⟩]

def maxInputBuffer : ℕ := 40

/-- The keystroke that the next call of `keyb` reads. -/
def Keyboard.token (s : Keyboard) : Token := readUtf8CharOrEscSeq maxInputBuffer s.input

def Keyboard.nextKey (s : Keyboard) : Key := identifyKey s.token.buf s.token.len

/-- The state after the call, and whether the program is to terminate. -/
def keyb (s : Keyboard) : Keyboard × Bool :=
  let inputBuffer := s.token.buf
  let len := s.token.len
  let k := s.nextKey
  let s := { s with input := s.token.rest }
  if len = 0 then (s, false)
  else
    let s :=
      if keyPrintable k ∧ isCtrlStackEmpty s.ctrlStack = true then
        { s with eventQueue := enqueueEvent s.eventQueue .cmd (some .cmdInsert) (some inputBuffer) }
      else if k = key "KEY_CTRL_G" then { s with ctrlStack := clearCtrlStack s.ctrlStack }
      else
        let s := { s with ctrlStack := pushCtrlStack s.ctrlStack k }
        match findCommandByKey s.ctrlStack with
        | some cmd =>
          { s with
            eventQueue := enqueueEvent s.eventQueue .cmd (some cmd.cmdFunc) cmd.param
            ctrlStack := clearCtrlStack s.ctrlStack }
        | none =>
          { s with
            messages := lit "keyb: cmd not found" :: s.messages
            eventQueue := enqueueEvent s.eventQueue .dbg none (some inputBuffer) }
    (s, len == 1 && byteAt inputBuffer 0 == 0x04)

/-- What a call of `keyb` does. -/
inductive KeybRule (s : Keyboard) : Keyboard → Prop
  | nothing : s.token.len = 0 → KeybRule s { s with input := s.token.rest }
  | insert : s.token.len ≠ 0 → keyPrintable s.nextKey → s.ctrlStack = [] →
      KeybRule s { s with
        input := s.token.rest
        eventQueue :=
          enqueueEvent s.eventQueue .cmd (some .cmdInsert) (some s.token.buf) }
  | reset : s.token.len ≠ 0 → ¬ (keyPrintable s.nextKey ∧ s.ctrlStack = []) →
      s.nextKey = key "KEY_CTRL_G" →
      KeybRule s { s with
        input := s.token.rest
        ctrlStack := clearCtrlStack s.ctrlStack }
  | dispatch (cmd : KeyMap) : s.token.len ≠ 0 → ¬ (keyPrintable s.nextKey ∧ s.ctrlStack = []) →
      s.nextKey ≠ key "KEY_CTRL_G" →
      findCommandByKey (pushCtrlStack s.ctrlStack s.nextKey) = some cmd →
      KeybRule s { s with
        input := s.token.rest
        eventQueue := enqueueEvent s.eventQueue .cmd (some cmd.cmdFunc) cmd.param
        ctrlStack := clearCtrlStack (pushCtrlStack s.ctrlStack s.nextKey) }
  | unbound : s.token.len ≠ 0 → ¬ (keyPrintable s.nextKey ∧ s.ctrlStack = []) →
      s.nextKey ≠ key "KEY_CTRL_G" →
      findCommandByKey (pushCtrlStack s.ctrlStack s.nextKey) = none →
      KeybRule s { s with
        input := s.token.rest
        ctrlStack := pushCtrlStack s.ctrlStack s.nextKey
        messages := lit "keyb: cmd not found" :: s.messages
        eventQueue := enqueueEvent s.eventQueue .dbg none (some s.token.buf) }

lemma KeybRule.of_keyb (s : Keyboard) : KeybRule s (keyb s).1 := by
  rw [keyb]
  dsimp only
  by_cases hlen : s.token.len = 0
  · rw [if_pos hlen]
    exact .nothing hlen
  rw [if_neg hlen, isCtrlStackEmpty]
  simp only [List.isEmpty_iff]
  by_cases hinsert : keyPrintable s.nextKey ∧ s.ctrlStack = []
  · rw [if_pos hinsert]
    exact .insert hlen hinsert.1 hinsert.2
  rw [if_neg hinsert]
  by_cases hreset : s.nextKey = key "KEY_CTRL_G"
  · rw [if_pos hreset]
    exact .reset hlen hinsert hreset
  rw [if_neg hreset]
  cases hfind : findCommandByKey (pushCtrlStack s.ctrlStack s.nextKey) with
  | some cmd => exact .dispatch cmd hlen hinsert hreset hfind
  | none => exact .unbound hlen hinsert hreset hfind

/-! ### Runs -/

/-- Bytes arrive at the terminal, `keyb` is called, or the queue is processed. -/
inductive Keyboard.Step : Keyboard → Keyboard → Prop
  | arrive (s : Keyboard) (bytes : Bytes) : Step s { s with input := s.input ++ bytes }
  | keyb (s : Keyboard) : Step s (keyb s).1
  | processEvents (s : Keyboard) (messages : List CStr) :
      Step s { s with eventQueue := [], messages }

def Keyboard.Reachable (s : Keyboard) : Prop :=
  ∃ messages, Relation.ReflTransGen Keyboard.Step ⟨[], [], [], messages⟩ s

/-- The key at the bottom of the stack could not be inserted. -/
def Bottom (ctrlStack : CtrlStack) : Prop := ∀ k ∈ ctrlStack.getLast?, ¬ keyPrintable k

lemma Bottom.suffix {ctrlStack rest : CtrlStack} (h : Bottom ctrlStack) (hr : rest <:+ ctrlStack) :
    Bottom rest := by
  intro k hk
  obtain ⟨popped, rfl⟩ := hr
  refine h k ?_
  rw [List.getLast?_append, Option.mem_def.mp hk]
  rfl

lemma Bottom.push {ctrlStack : CtrlStack} {k : Key} (h : Bottom ctrlStack)
    (hk : ¬ (keyPrintable k ∧ ctrlStack = [])) : Bottom (pushCtrlStack ctrlStack k) := by
  intro k' hk'
  rw [pushCtrlStack] at hk'
  cases ctrlStack with
  | nil =>
    obtain rfl : k = k' := Option.some.inj hk'
    exact fun hp => hk ⟨hp, rfl⟩
  | cons k'' next =>
    rw [List.getLast?_cons_cons] at hk'
    exact h k' hk'

lemma Bottom.notMem_dropLast_iff {ctrlStack : CtrlStack} (h : Bottom ctrlStack) :
    0 ∉ ctrlStack.dropLast ↔ 0 ∉ ctrlStack := by
  refine not_congr ⟨fun h => List.dropLast_subset _ h, ?_⟩
  intro h0
  have hne : ctrlStack ≠ [] := List.ne_nil_of_mem h0
  rw [← List.dropLast_append_getLast hne, List.mem_append, List.mem_singleton] at h0
  refine h0.resolve_right ?_
  intro hlast
  refine h 0 ?_ key_unknown_pos
  rw [List.getLast?_eq_some_getLast hne, ← hlast]
  rfl

/-- The events of type `CMD` in the queue are those that the commands expect. -/
def QueuedEvent.Expected (e : QueuedEvent) : Prop :=
  e.cmdFn = none ∨ ∃ event, KeyEvent event ∧ e = ⟨.cmd, some event.cmdFn, event.seq⟩

structure Keyboard.Inv (s : Keyboard) : Prop where
  bottom : Bottom s.ctrlStack
  expected : ∀ e ∈ s.eventQueue, e.Expected

lemma strdup_eq {buf : Bytes} (h : 0 ∉ buf) : strdup buf = buf := by
  rw [strdup, List.takeWhile_eq_self_iff]
  intro b hb
  simpa using ne_of_mem_of_not_mem hb h

lemma Keyboard.token_len (s : Keyboard) (hlen : s.token.len ≠ 0) :
    s.token.len = s.token.buf.length :=
  (readUtf8CharOrEscSeq.loop_len _ _ _).resolve_left hlen

/-- The bytes of a printable key are a text, which is not empty. -/
lemma Keyboard.exists_encode {s : Keyboard} (hlen : s.token.len ≠ 0) (hk : keyPrintable s.nextKey) :
    ∃ ds, ds ≠ [] ∧ strdup s.token.buf = utf8.encode ds ∧ s.token.buf = utf8.encode ds := by
  rw [Keyboard.nextKey, s.token_len hlen] at hk
  obtain ⟨e, he, hbuf⟩ := literal_of_keyPrintable hk
  obtain ⟨hlit, h0, hpos⟩ := literal_of_printable e he
  obtain ⟨ds, hds⟩ := literal_eq_encode h0
  rw [← hbuf, strdup_eq h0]
  refine ⟨ds, ?_, hds, hds⟩
  rintro rfl
  rw [hds] at hlit
  exact hpos.ne hlit

/-- The commands that take a text are never found: their keys are inserted at an empty stack. -/
lemma Keyboard.cmdFunc_ne_cmdInsert {s : Keyboard} {cmd : KeyMap}
    (hinsert : ¬ (keyPrintable s.nextKey ∧ s.ctrlStack = []))
    (hfind : findCommandByKey (pushCtrlStack s.ctrlStack s.nextKey) = some cmd) :
    cmd.cmdFunc ≠ .cmdInsert := by
  intro h
  obtain ⟨hmem, hcombo⟩ := findCommandByKey_eq_some hfind
  obtain ⟨hlen, hk⟩ := (keyCommands_spec cmd hmem).2.2.2 h
  rw [hcombo, pushCtrlStack] at hlen hk
  rw [List.length_reverse, List.length_cons, Nat.add_eq_right, List.length_eq_zero_iff] at hlen
  exact hinsert ⟨hk _ (by simp), hlen⟩

lemma expected_enqueueEvent {eventQueue : List QueuedEvent} {type : EventType}
    {cmdFn : Option CmdFunc} {seq : Option Bytes} (h : ∀ e ∈ eventQueue, e.Expected)
    (he : QueuedEvent.Expected ⟨type, cmdFn, seq.map strdup⟩) :
    ∀ e ∈ enqueueEvent eventQueue type cmdFn seq, e.Expected := by
  rw [enqueueEvent, List.forall_mem_append, List.forall_mem_singleton]
  exact ⟨h, he⟩

lemma Keyboard.Inv.keyb {s : Keyboard} (h : s.Inv) : (keyb s).1.Inv := by
  have hrule := KeybRule.of_keyb s
  generalize (Term.keyb s).1 = s' at hrule ⊢
  cases hrule with
  | nothing _ => exact ⟨h.bottom, h.expected⟩
  | insert hlen hk hnil =>
    obtain ⟨ds, hne, hseq, -⟩ := Keyboard.exists_encode hlen hk
    refine ⟨h.bottom, expected_enqueueEvent h.expected (.inr ⟨typed ds, keyEvent_typed hne, ?_⟩)⟩
    rw [Option.map_some, hseq]
    rfl
  | reset _ _ _ => exact ⟨h.bottom.suffix (clearCtrlStack_suffix _), h.expected⟩
  | dispatch cmd hlen hinsert hreset hfind =>
    have hcmd := Keyboard.cmdFunc_ne_cmdInsert hinsert hfind
    obtain ⟨hparam, hun, hback, -⟩ := keyCommands_spec cmd (findCommandByKey_eq_some hfind).1
    have hkey : KeyEvent (pressed cmd.cmdFunc) := keyEvent_pressed (by simp [hcmd, hun, hback])
    refine ⟨(h.bottom.push hinsert).suffix (clearCtrlStack_suffix _), ?_⟩
    refine expected_enqueueEvent h.expected (.inr ⟨_, hkey, ?_⟩)
    rw [hparam]
    rfl
  | unbound _ hinsert _ _ =>
    exact ⟨h.bottom.push hinsert, expected_enqueueEvent h.expected (.inl rfl)⟩

lemma Keyboard.Reachable.inv {s : Keyboard} (h : s.Reachable) : s.Inv := by
  obtain ⟨messages, hrun⟩ := h
  induction hrun with
  | refl =>
    constructor
    · intro k hk
      cases hk
    · intro e he
      cases he
  | tail _ hstep ih =>
    cases hstep with
    | arrive bytes => exact ⟨ih.bottom, ih.expected⟩
    | keyb => exact ih.keyb
    | processEvents messages => exact ⟨ih.bottom, fun e he => absurd he List.not_mem_nil⟩

/-! ### Bindings fire on their own keys -/

/-- The keystroke that is read is a printable key. -/
def Keyboard.ReadsPrintable (s : Keyboard) : Prop := s.token.len ≠ 0 ∧ keyPrintable s.nextKey

/-- The event of the bytes that are read, as they are. -/
def Keyboard.insertion (s : Keyboard) : QueuedEvent := ⟨.cmd, some .cmdInsert, some s.token.buf⟩

lemma Keyboard.eventQueue_of_printable {s : Keyboard} (h : s.ReadsPrintable) :
    (s.ctrlStack = [] → (keyb s).1.eventQueue = s.eventQueue ++ [s.insertion]) ∧
      (s.ctrlStack ≠ [] → ∃ e : QueuedEvent, e.cmdFn ≠ some .cmdInsert ∧
        (keyb s).1.eventQueue = s.eventQueue ++ [e]) := by
  obtain ⟨hlen, hk⟩ := h
  have hrule := KeybRule.of_keyb s
  generalize (Term.keyb s).1 = s' at hrule ⊢
  cases hrule with
  | nothing h0 => exact absurd h0 hlen
  | insert _ _ hnil =>
    obtain ⟨ds, -, hseq, hbuf⟩ := Keyboard.exists_encode hlen hk
    refine ⟨fun _ => ?_, fun hne => absurd hnil hne⟩
    rw [enqueueEvent, insertion, Option.map_some, hseq, ← hbuf]
  | reset _ _ hreset =>
    rw [hreset] at hk
    exact absurd hk not_keyPrintable_ctrlG
  | dispatch cmd _ hinsert _ hfind =>
    refine ⟨fun hnil => absurd ⟨hk, hnil⟩ hinsert, fun _ => ⟨_, ?_, rfl⟩⟩
    exact fun h => Keyboard.cmdFunc_ne_cmdInsert hinsert hfind (Option.some.inj h)
  | unbound _ hinsert _ _ =>
    exact ⟨fun hnil => absurd ⟨hk, hnil⟩ hinsert,
      fun _ => ⟨_, Option.some_ne_none _ ∘ Eq.symm, rfl⟩⟩

/-- The command of a keystroke is the first one bound to the keys in the stack. A printable key is
inserted exactly when there are none, so that no command gets to insert a text that is missing. -/
theorem keyb_bindings {s : Keyboard} (hs : s.Reachable) :
    (∀ ctrlStack, findCommandByKey ctrlStack =
      keyCommands.find? fun cmd => cmd.combo = ctrlStack.reverse) ∧
    (s.ReadsPrintable →
      (s.ctrlStack = [] → (keyb s).1.eventQueue = s.eventQueue ++ [s.insertion]) ∧
      (s.ctrlStack ≠ [] → ∃ e : QueuedEvent, e.cmdFn ≠ some .cmdInsert ∧
        (keyb s).1.eventQueue = s.eventQueue ++ [e])) ∧
    ∀ e ∈ s.eventQueue, ¬ (e.cmdFn = some .cmdInsert ∧ e.seq = none) := by
  refine ⟨findCommandByKey_eq, Keyboard.eventQueue_of_printable, ?_⟩
  rintro e he ⟨hfn, hseq⟩
  rcases hs.inv.expected e he with hnone | ⟨event, hkey, rfl⟩
  · rw [hnone] at hfn
    cases hfn
  · obtain ⟨ds, -, hds⟩ := hkey.2.2.1 (Option.some.inj hfn)
    cases hds.symm.trans hseq

/-- The letter `k` is inserted, though a command is bound to it. -/
theorem keyb_bindings_k :
    let s : Keyboard := ⟨[0x6B], [], [], []⟩
    (keyb s).1.eventQueue = [⟨.cmd, some .cmdInsert, some [0x6B]⟩] := by
  intro s
  have hs : s.Reachable := ⟨[], .single (.arrive ⟨[], [], [], []⟩ [0x6B])⟩
  have hprintable : s.ReadsPrintable := ⟨by decide, by decide +kernel⟩
  exact ((keyb_bindings hs).2.1 hprintable).1 rfl

/-! ### Emptying the stack of keys -/

/-- The call of `keyb` calls `clearCtrlStack`. -/
def Keyboard.Clears (s : Keyboard) : Prop :=
  s.token.len ≠ 0 ∧ ¬ (keyPrintable s.nextKey ∧ s.ctrlStack = []) ∧
    (s.nextKey = key "KEY_CTRL_G" ∨ (findCommandByKey (pushCtrlStack s.ctrlStack s.nextKey)).isSome)

/-- The stack is emptied by a command, and by Ctrl-G unless there is a backtick in it. -/
lemma Keyboard.ctrlStack_eq_nil_iff {s : Keyboard} (hbottom : Bottom s.ctrlStack)
    (hclears : s.Clears) :
    (keyb s).1.ctrlStack = [] ↔ key "KEY_BACKTICK" ∉ s.ctrlStack := by
  obtain ⟨hlen, -, hcalls⟩ := hclears
  rw [key_backtick]
  have hrule := KeybRule.of_keyb s
  generalize (Term.keyb s).1 = s' at hrule ⊢
  cases hrule with
  | nothing h0 => exact absurd h0 hlen
  | insert _ _ hnil =>
    rw [hnil]
    exact iff_of_true rfl List.not_mem_nil
  | reset _ _ _ =>
    rw [clearCtrlStack_eq_nil_iff]
    exact hbottom.notMem_dropLast_iff
  | dispatch cmd _ _ _ hfind =>
    obtain ⟨hmem, hcombo⟩ := findCommandByKey_eq_some hfind
    have h0 := zero_notMem_combo cmd hmem
    rw [hcombo, List.mem_reverse] at h0
    refine iff_of_true ?_ (fun h => h0 (List.mem_cons_of_mem _ h))
    exact clearCtrlStack_eq_nil_iff.mpr fun h => h0 (List.dropLast_subset _ h)
  | unbound _ _ hreset hfind =>
    rw [hfind] at hcalls
    exact absurd hcalls (by simp [hreset])

/-- A keystroke that belongs to no binding stays in the stack. -/
lemma Keyboard.ctrlStack_of_unbound {s : Keyboard} (hlen : s.token.len ≠ 0)
    (hinsert : ¬ (keyPrintable s.nextKey ∧ s.ctrlStack = []))
    (hreset : s.nextKey ≠ key "KEY_CTRL_G")
    (hfind : findCommandByKey (pushCtrlStack s.ctrlStack s.nextKey) = none) :
    (keyb s).1.input = s.token.rest ∧
      (keyb s).1.ctrlStack = pushCtrlStack s.ctrlStack s.nextKey := by
  have hrule := KeybRule.of_keyb s
  generalize (Term.keyb s).1 = s' at hrule ⊢
  cases hrule with
  | nothing h0 => exact absurd h0 hlen
  | insert _ hk hnil => exact absurd ⟨hk, hnil⟩ hinsert
  | reset _ _ h => exact absurd h hreset
  | dispatch cmd _ _ _ h => cases hfind.symm.trans h
  | unbound _ _ _ _ => exact ⟨rfl, rfl⟩

lemma Keyboard.ctrlStack_of_reset {s : Keyboard} (hlen : s.token.len ≠ 0)
    (hreset : s.nextKey = key "KEY_CTRL_G") :
    s.Clears ∧ (keyb s).1.ctrlStack = clearCtrlStack s.ctrlStack := by
  have hinsert : ¬ (keyPrintable s.nextKey ∧ s.ctrlStack = []) := by
    rw [hreset]
    exact fun h => not_keyPrintable_ctrlG h.1
  refine ⟨⟨hlen, hinsert, .inl hreset⟩, ?_⟩
  have hrule := KeybRule.of_keyb s
  generalize (Term.keyb s).1 = s' at hrule ⊢
  cases hrule with
  | nothing h0 => exact absurd h0 hlen
  | insert _ hk hnil => exact absurd ⟨hk, hnil⟩ hinsert
  | reset _ _ _ => rfl
  | dispatch _ _ _ h _ => exact absurd hreset h
  | unbound _ _ h _ => exact absurd hreset h

/-- Behind a keystroke that empties the stack, the next printable key is inserted, unless that
keystroke is Ctrl-G and found a backtick in the stack. -/
theorem keyb_clears_iff {s : Keyboard} (hs : s.Reachable) (hclears : s.Clears) :
    ((keyb s).1.ctrlStack = [] ↔ key "KEY_BACKTICK" ∉ s.ctrlStack) ∧
    ∀ input, let next := { (keyb s).1 with input }
      next.ReadsPrintable →
        ((keyb next).1.eventQueue = next.eventQueue ++ [next.insertion] ↔
          key "KEY_BACKTICK" ∉ s.ctrlStack) := by
  have hiff := Keyboard.ctrlStack_eq_nil_iff hs.inv.bottom hclears
  refine ⟨hiff, ?_⟩
  intro input next hnext
  obtain ⟨hnil, hne⟩ := Keyboard.eventQueue_of_printable hnext
  rw [← hiff]
  constructor
  · intro hinsert
    by_contra hstack
    obtain ⟨e, he, hqueue⟩ := hne hstack
    rw [hqueue, List.append_right_inj, List.singleton_inj] at hinsert
    exact he (congrArg QueuedEvent.cmdFn hinsert)
  · exact hnil

/-- Ctrl-G and no other key. -/
theorem keyb_clears_ctrl_g : (keyb ⟨[0x07], [], [], []⟩).1.ctrlStack = [] := by
  have hs : Keyboard.Reachable ⟨[0x07], [], [], []⟩ :=
    ⟨[], .single (.arrive ⟨[], [], [], []⟩ [0x07])⟩
  have hk : Keyboard.nextKey ⟨[0x07], [], [], []⟩ = key "KEY_CTRL_G" := by
    decide +kernel
  have hclears := (Keyboard.ctrlStack_of_reset (by decide) hk).1
  exact (keyb_clears_iff hs hclears).1.mpr List.not_mem_nil

lemma ctrlX_spec : identifyKey [0x18] 1 = key "KEY_CTRL_X" ∧ key "KEY_CTRL_X" < keyMap.length ∧
    ¬ keyPrintable (key "KEY_CTRL_X") := by
  decide +kernel

/-- No binding is made up of Ctrl-X alone. -/
lemma exists_ne_ctrlX : ∀ cmd ∈ keyCommands, ∃ k ∈ cmd.combo, k ≠ key "KEY_CTRL_X" := by
  simp [keyCommands, keyCommand, @eq_comm ℕ _ (key "KEY_CTRL_X"), key_inj ctrlX_spec.2.1]

/-- Ctrl-X stays in a stack in which there is no other key. -/
lemma Keyboard.ctrlStack_of_ctrlX {s : Keyboard} {n : ℕ} {rest : Bytes}
    (htoken : s.token = ⟨1, [0x18], rest⟩)
    (hstack : s.ctrlStack = List.replicate n (key "KEY_CTRL_X")) :
    (keyb s).1.input = rest ∧
      (keyb s).1.ctrlStack = List.replicate (n + 1) (key "KEY_CTRL_X") := by
  have hkey : s.nextKey = key "KEY_CTRL_X" := by
    rw [Keyboard.nextKey, htoken, ctrlX_spec.1]
  have hpush : pushCtrlStack s.ctrlStack s.nextKey =
      List.replicate (n + 1) (key "KEY_CTRL_X") := by
    rw [hkey, hstack]
    rfl
  obtain ⟨hinput, hpushed⟩ : (keyb s).1.input = s.token.rest ∧
      (keyb s).1.ctrlStack = pushCtrlStack s.ctrlStack s.nextKey := by
    apply Keyboard.ctrlStack_of_unbound
    · rw [htoken]
      exact Nat.one_ne_zero
    · rw [hkey]
      exact fun h => ctrlX_spec.2.2 h.1
    · rw [hkey, Ne, key_inj ctrlX_spec.2.1]
      decide
    · rw [hpush, findCommandByKey_eq, List.find?_eq_none]
      intro cmd hcmd hcombo
      obtain ⟨k, hk, hne⟩ := exists_ne_ctrlX cmd hcmd
      rw [of_decide_eq_true hcombo, List.reverse_replicate] at hk
      exact hne (List.eq_of_mem_replicate hk)
  constructor
  · rw [hinput, htoken]
  · rw [hpushed, hpush]

/-- Ctrl-X, a backtick, and Ctrl-G: the Ctrl-X is still in the stack. -/
theorem ctrl_g_leaves_ctrl_x :
    let s : Keyboard := (keyb (keyb ⟨[0x18, 0x60, 0x07], [], [], []⟩).1).1
    s.Reachable ∧ s.Clears ∧ (keyb s).1.ctrlStack = [key "KEY_CTRL_X"] := by
  have hbacktick : identifyKey [0x60] 1 = 0 := by
    decide +kernel
  have hg : identifyKey [0x07] 1 = key "KEY_CTRL_G" := by
    decide +kernel
  generalize hs0 : (⟨[0x18, 0x60, 0x07], [], [], []⟩ : Keyboard) = s0
  have hreach : s0.Reachable := by
    rw [← hs0]
    exact ⟨[], .single (.arrive ⟨[], [], [], []⟩ _)⟩
  have htoken0 : s0.token = ⟨1, [0x18], [0x60, 0x07]⟩ := by
    rw [← hs0]
    decide
  have hstack0 : s0.ctrlStack = List.replicate 0 (key "KEY_CTRL_X") := by
    rw [← hs0]
    rfl
  obtain ⟨hinput1, hstack1⟩ := Keyboard.ctrlStack_of_ctrlX htoken0 hstack0
  -- no binding has a backtick
  have htoken1 : (keyb s0).1.token = ⟨1, [0x60], [0x07]⟩ := by
    rw [Keyboard.token, hinput1]
    decide
  have hkey1 : (keyb s0).1.nextKey = 0 := by
    rw [Keyboard.nextKey, htoken1, hbacktick]
  obtain ⟨hinput2, hstack2⟩ : (keyb (keyb s0).1).1.input = (keyb s0).1.token.rest ∧
      (keyb (keyb s0).1).1.ctrlStack =
        pushCtrlStack (keyb s0).1.ctrlStack (keyb s0).1.nextKey := by
    apply Keyboard.ctrlStack_of_unbound
    · rw [htoken1]
      decide
    · rw [hstack1]
      exact fun h => List.cons_ne_nil _ _ h.2
    · rw [hkey1, ne_comm, Ne, key_eq_zero_iff]
      decide
    · rw [hkey1, findCommandByKey_eq, List.find?_eq_none]
      intro cmd hcmd hcombo
      refine zero_notMem_combo cmd hcmd ?_
      rw [of_decide_eq_true hcombo, List.mem_reverse]
      exact List.mem_cons_self
  obtain ⟨hclears, hstack3⟩ :=
    Keyboard.ctrlStack_of_reset (s := (keyb (keyb s0).1).1)
      (by rw [Keyboard.token, hinput2, htoken1]; decide)
      (by rw [Keyboard.nextKey, Keyboard.token, hinput2, htoken1]; exact hg)
  refine ⟨?_, hclears, ?_⟩
  · obtain ⟨messages, hrun⟩ := hreach
    exact ⟨messages, (hrun.tail (.keyb _)).tail (.keyb _)⟩
  · rw [hstack3, hstack2, hkey1, hstack1]
    rfl

end Vjft.Term
