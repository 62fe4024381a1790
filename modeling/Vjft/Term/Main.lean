import Vjft.Term.Event.Queue
import Vjft.Term.Event.Refinement
import Vjft.Term.Network
import Vjft.Term.Outgoing

/-!
# From the keyboard to the socket (`term/main.c`)

A round of the main loop reads a key and processes its event, takes what the network brings, and
sends what waits for the socket, as far as the descriptors are ready. Keys that type, delete, move
the cursor and send a line work as on a text buffer, and the bytes that the socket accepts are those
of the lines that were sent, one after the other.
-/

namespace Vjft.Term

/-- The state between two rounds, in which no event waits. -/
structure Main where
  /-- The bytes that can be read from the terminal. -/
  input : Bytes
  ctrlStack : CtrlStack
  editor : Editor
  loop : MainLoop

/-- What is ready in a round and what the calls give. The events, the `Action`s and the messages get
their memory; a program without it is not followed. -/
structure Ready where
  keyboard : Bool
  /-- The address that `malloc` gives to a node of the outgoing queue. -/
  malloc : Heap MessageNode → Option ℕ
  /-- Whether the `strdup` of the outgoing queue gets memory. -/
  copied : Bool
  /-- The bytes of `read`, of which there are none at the end and after an error. -/
  network : Option Bytes
  writable : Bool
  /-- What becomes of the call of `reDraw`, if there is one: it looks at the state, and it may stop
  the program. -/
  reDraw : Main → Except Stop Unit
  fresh : ∀ {heap a}, malloc heap = some a → heap[a]? = none

namespace Main

section Code

variable [CLib]

/-- `keyb` and `processEvents`; `client_send` puts the messages of the commands into the queue. -/
def readKeyboard (s : Main) (ready : Ready) : Except Stop Main :=
  if ready.keyboard then do
    let (k, terminate) := keyb ⟨s.input, s.ctrlStack, [], s.editor.messages⟩
    let (editor, _) ←
      EventQueue.handleEvents { s.editor with messages := k.messages } k.eventQueue
    let msgs := editor.outgoingQueue.drop s.editor.outgoingQueue.length
    let loop ← msgs.foldlM
      (fun loop msg => loop.clientSend msg (ready.malloc loop.outgoingQueue.heap) ready.copied)
      { s.loop with terminate }
    pure { input := k.input, ctrlStack := k.ctrlStack, editor, loop }
  else pure s

/-- `FD_ISSET` looks at the bit of the socket. Without any bytes the loop is left by `goto exit`. -/
def readNetwork (s : Main) (ready : Ready) : Except Stop Main := do
  require (0 ≤ s.editor.sockfd) .outOfBounds
  match ready.network with
  | none => pure s
  | some nread => do
    require (nread ≠ []) .exit
    let editor ← networkRead s.editor nread
    pure { s with editor }

def writeSocket (socket : Socket) (s : Main) (ready : Ready) : Except Stop Main :=
  if ready.writable then do
    let loop ← s.loop.sendQueued socket
    pure { s with loop }
  else pure s

/-- The branches of the loop after `select`, and the drawing behind them. -/
def round (socket : Socket) (s : Main) (ready : Ready) : Except Stop Main := do
  let s ← s.readKeyboard ready
  let s ← s.readNetwork ready
  let s ← s.writeSocket socket ready
  ready.reDraw s
  pure s

end Code

end Main

/-! ### Strokes -/

/-- The keys of a text buffer. -/
inductive Stroke
  | letter (c : CodePoint) (h : keyPrintable (identifyKey (utf8.word c) (utf8.word c).length))
  | backspace
  | forwardChar
  | backwardChar
  | forwardWord
  | backwardWord
  | toEndOfLine
  | enter

namespace Stroke

/-- What the terminal sends for the key. -/
def bytes : Stroke → Bytes
  | letter c _ => utf8.word c
  | backspace => [0x7F]
  | forwardChar => [0x06]
  | backwardChar => [0x02]
  | forwardWord => [0x1B, 0x66]
  | backwardWord => [0x1B, 0x62]
  | toEndOfLine => [0x05]
  | enter => [0x0A]

def cmd : Stroke → BufferCmd
  | letter c _ => .insert [c] (List.cons_ne_nil c [])
  | backspace => .backspace
  | forwardChar => .forwardChar
  | backwardChar => .backwardChar
  | forwardWord => .forwardWord
  | backwardWord => .backwardWord
  | toEndOfLine => .toEndOfLine
  | enter => .enter

end Stroke

/-- Enter sends a line that is not empty. -/
def Stroke.line (k : Stroke) (b : TextBuffer CodePoint) : List (List CodePoint) :=
  match k with
  | .enter => if b.chars = [] then [] else [b.chars]
  | _ => []

/-- A text buffer with the lines that were sent from it. -/
structure Lines where
  buffer : TextBuffer CodePoint
  sent : List (List CodePoint)

def Lines.press (t : Lines) (k : Stroke) : Lines where
  buffer := k.cmd.apply t.buffer
  sent := t.sent ++ k.line t.buffer

/-- After some strokes from the empty buffer. -/
def Lines.after (ks : List Stroke) : Lines := ks.foldl press ⟨.clear, []⟩

/-! ### A stroke is one event -/

/-- The bytes, the names and the commands of the keys that are no letters. -/
def boundKeys : List (Bytes × String × CmdFunc) := [
  ([0x7F], "KEY_BACKSPACE", .cmdBackspace),
  ([0x06], "KEY_CTRL_F", .cmdForwardChar),
  ([0x02], "KEY_CTRL_B", .cmdBackwardChar),
  ([0x1B, 0x66], "KEY_ALT_F", .cmdForwardWord),
  ([0x1B, 0x62], "KEY_ALT_B", .cmdBackwardWord),
  ([0x05], "KEY_CTRL_E", .cmdToEndOfLine),
  ([0x0A], "KEY_ENTER", .cmdEnter)]

lemma identifyKey_boundKeys : ∀ e ∈ boundKeys, identifyKey e.1 e.1.length = key e.2.1 ∧
    key e.2.1 < keyMap.length ∧ ¬ keyPrintable (key e.2.1) := by
  decide +kernel

lemma isFrame_boundKeys : ∀ e ∈ boundKeys, IsFrame e.1 ∧ e.1.length ≤ 4 ∧
    e.2.1 ≠ "KEY_CTRL_G" := by
  decide +kernel

lemma findCommandByKey_boundKeys : ∀ e ∈ boundKeys, ∃ cmd,
    findCommandByKey [key e.2.1] = some cmd ∧ cmd.cmdFunc = e.2.2 ∧ cmd.param = none := by
  intro e he
  have hinj (val : String) : key val = key e.2.1 ↔ val = e.2.1 := by
    rw [eq_comm, key_inj (identifyKey_boundKeys e he).2.1, eq_comm]
  rw [findCommandByKey_eq]
  simp only [boundKeys, List.mem_cons, List.not_mem_nil, or_false] at he
  rcases he with rfl | rfl | rfl | rfl | rfl | rfl | rfl
  all_goals
    dsimp only at hinj
    simp [keyCommands, keyCommand, hinj]

namespace Stroke

lemma exists_mem_boundKeys {k : Stroke} (h : ∀ c hc, k ≠ letter c hc) :
    (∃ name, (k.bytes, name, k.cmd.event.cmdFn) ∈ boundKeys) ∧ k.cmd.event.seq = none := by
  cases k with
  | letter c hc => exact absurd rfl (h c hc)
  | _ => exact ⟨by simp [boundKeys, bytes, cmd, BufferCmd.event, pressed], rfl⟩

lemma isFrame_letter {c : CodePoint}
    (h : keyPrintable (identifyKey (utf8.word c) (utf8.word c).length)) :
    IsFrame (utf8.word c) ∧ (utf8.word c).length ≤ 4 ∧ 0 ∉ utf8.word c := by
  refine ⟨isFrame_word c fun hesc => ?_, ?_, fun h0 => Utf8.ne_zero_of_mem_word h0 rfl⟩
  · have hword : utf8.word c = [0x1B] := by
      rw [Utf8.word_of_lt c (by omega), hesc]
      rfl
    rw [hword] at h
    exact absurd h (by decide +kernel)
  · exact (String.length_utf8EncodeChar c.1).trans_le c.1.utf8Size_le_four

variable (k : Stroke) (rest : Bytes) (messages : List CStr)

lemma isFrame : IsFrame k.bytes ∧ k.bytes.length ≤ 4 := by
  by_cases hk : ∃ c hc, k = letter c hc
  · obtain ⟨c, hc, rfl⟩ := hk
    obtain ⟨hframe, hlen, -⟩ := isFrame_letter hc
    exact ⟨hframe, hlen⟩
  · push Not at hk
    obtain ⟨⟨name, hmem⟩, -⟩ := exists_mem_boundKeys hk
    obtain ⟨hframe, hlen, -⟩ := isFrame_boundKeys _ hmem
    exact ⟨hframe, hlen⟩

lemma token_eq : (Keyboard.mk (k.bytes ++ rest) [] [] messages).token =
    ⟨k.bytes.length, k.bytes, rest⟩ := by
  obtain ⟨hframe, hlen⟩ := k.isFrame
  exact readUtf8CharOrEscSeq_append hframe (hlen.trans_lt (by decide)) rest

/-- No stroke is the one that ends the program. -/
lemma keyb_snd : (keyb ⟨k.bytes ++ rest, [], [], messages⟩).2 = false := by
  have hne : k.bytes ≠ [0x04] := by
    cases k with
    | letter c hc =>
      intro hbytes
      have hword : utf8.word c = [0x04] := hbytes
      rw [hword] at hc
      exact absurd hc (by decide +kernel)
    | _ => decide
  have hends : (k.bytes.length == 1 && byteAt k.bytes 0 == 0x04) = false := by
    rw [Bool.and_eq_false_imp, beq_iff_eq, beq_eq_false_iff_ne]
    intro hlen h0
    obtain ⟨b, hb⟩ := List.length_eq_one_iff.1 hlen
    rw [hb] at h0 hne
    exact hne (congrArg (fun b => [b]) h0)
  rw [keyb]
  dsimp only
  rw [k.token_eq]
  by_cases hlen : k.bytes.length = 0
  · rw [if_pos hlen]
  · rw [if_neg hlen]
    exact hends

lemma keyb_fst :
    (keyb ⟨k.bytes ++ rest, [], [], messages⟩).1 =
      ⟨rest, [], [EventQueue.queued k.cmd.event], messages⟩ := by
  have htoken := k.token_eq rest messages
  have hkey : (Keyboard.mk (k.bytes ++ rest) [] [] messages).nextKey =
      identifyKey k.bytes k.bytes.length := by
    rw [Keyboard.nextKey, htoken]
  have hne : k.bytes.length ≠ 0 := fun h0 => k.isFrame.1.ne_nil (List.length_eq_zero_iff.1 h0)
  have hrule := KeybRule.of_keyb ⟨k.bytes ++ rest, [], [], messages⟩
  generalize (keyb ⟨k.bytes ++ rest, [], [], messages⟩).1 = s at hrule ⊢
  by_cases hk : ∃ c hc, k = letter c hc
  · obtain ⟨c, hc, rfl⟩ := hk
    have hprint : keyPrintable (identifyKey (letter c hc).bytes (letter c hc).bytes.length) := hc
    have hdup : strdup (letter c hc).bytes = utf8.encode [c] := by
      rw [utf8.encode_singleton]
      exact strdup_eq (isFrame_letter hc).2.2
    cases hrule with
    | nothing h0 =>
      rw [htoken] at h0
      exact absurd h0 hne
    | insert =>
      rw [htoken, enqueueEvent, Option.map_some, hdup]
      rfl
    | reset _ hno => exact absurd ⟨hkey ▸ hprint, rfl⟩ hno
    | dispatch _ _ hno => exact absurd ⟨hkey ▸ hprint, rfl⟩ hno
    | unbound _ hno => exact absurd ⟨hkey ▸ hprint, rfl⟩ hno
  · push Not at hk
    obtain ⟨⟨name, hmem⟩, hseq⟩ := exists_mem_boundKeys hk
    obtain ⟨hname, hlt, hprint⟩ := identifyKey_boundKeys _ hmem
    obtain ⟨cmd, hfind, hfn, hparam⟩ := findCommandByKey_boundKeys _ hmem
    dsimp only at hname hlt hprint hfind hfn
    rw [hname] at hkey
    cases hrule with
    | nothing h0 =>
      rw [htoken] at h0
      exact absurd h0 hne
    | insert _ hp => exact absurd (hkey ▸ hp) hprint
    | reset _ _ hreset =>
      rw [hkey, key_inj hlt] at hreset
      exact absurd hreset (isFrame_boundKeys _ hmem).2.2
    | dispatch cmd' _ _ _ hcmd =>
      rw [hkey, pushCtrlStack, hfind] at hcmd
      obtain rfl := Option.some.inj hcmd
      have hclear : clearCtrlStack [key name] = [] := by
        rw [clearCtrlStack_cons]
        split_ifs <;> rfl
      rw [hkey, htoken, pushCtrlStack, hclear, enqueueEvent, hfn, hparam, EventQueue.queued, hseq]
      rfl
    | unbound _ _ _ hnone =>
      rw [hkey, pushCtrlStack, hfind] at hnone
      cases hnone

lemma keyb_eq : keyb ⟨k.bytes ++ rest, [], [], messages⟩ =
    (⟨rest, [], [EventQueue.queued k.cmd.event], messages⟩, false) :=
  Prod.ext (k.keyb_fst rest messages) (k.keyb_snd rest messages)

end Stroke

/-! ### What the event does -/

section Event

variable [CLib] {s s' : Editor} {updated : Bool} {b : TextBuffer CodePoint}

/-- Editing commands do not touch the socket. -/
lemma sockfd_of_processEvent {event : InputEvent} {c : EditingCmd} (he : c.Calls event)
    (h : processEvent s event = some (s', updated)) :
    s'.sockfd = s.sockfd ∧ s'.outgoingQueue = s.outgoingQueue := by
  by_cases hstuck : c.Stuck s.curr
  · rw [processEvent_stuck he hstuck] at h
    cases h
    exact ⟨rfl, rfl⟩
  · rw [processEvent_acted he hstuck] at h
    cases h
    exact ⟨rfl, rfl⟩

lemma Stroke.sockfd_of_processEvent (k : Stroke) (hshows : Shows s.curr b)
    (hsockfd : s.sockfd ≠ -1) (h : processEvent s k.cmd.event = some (s', updated)) :
    s'.sockfd = s.sockfd ∧
      s'.outgoingQueue = s.outgoingQueue ++ (k.line b).map utf8.encode := by
  have hedits : ∀ c : EditingCmd, c.Calls k.cmd.event → k.line b = [] →
      s'.sockfd = s.sockfd ∧
        s'.outgoingQueue = s.outgoingQueue ++ (k.line b).map utf8.encode := by
    intro c he hline
    rw [hline, List.map_nil, List.append_nil]
    exact Term.sockfd_of_processEvent he h
  have moves := @EditingCmd.calls_of_ne_insert
  cases k with
  | letter c hc => exact hedits .insert (EditingCmd.calls_of_seq rfl rfl) rfl
  | backspace => exact hedits .backspace (moves rfl (by decide)) rfl
  | forwardChar => exact hedits .forwardChar (moves rfl (by decide)) rfl
  | backwardChar => exact hedits .backwardChar (moves rfl (by decide)) rfl
  | forwardWord => exact hedits .forwardWord (moves rfl (by decide)) rfl
  | backwardWord => exact hedits .backwardWord (moves rfl (by decide)) rfl
  | toEndOfLine => exact hedits .toEndOfLine (moves rfl (by decide)) rfl
  | enter =>
    obtain ⟨htext, -⟩ := hshows
    have hempty : s.curr.text.length = 0 ↔ b.chars = [] := by
      rw [htext, List.length_eq_zero_iff, utf8.encode_eq_nil_iff]
    have hcall : callCmd s enter.cmd.event = some (cmdEnter s enter.cmd.event) := rfl
    rw [processEvent, if_neg (by decide), if_neg (by decide), hcall, cmdEnter] at h
    rw [line]
    by_cases hchars : b.chars = []
    · rw [if_pos (hempty.2 hchars)] at h
      cases h
      rw [if_pos hchars]
      exact ⟨rfl, (List.append_nil _).symm⟩
    · rw [if_neg (mt hempty.1 hchars), if_pos hsockfd] at h
      cases h
      rw [if_neg hchars, List.map_singleton, ← htext]
      exact ⟨rfl, rfl⟩

lemma Stroke.exists_handleEvents_eq (k : Stroke) (hshows : Shows s.curr b)
    (hsockfd : s.sockfd ≠ -1) :
    ∃ s' updated, EventQueue.handleEvents s [EventQueue.queued k.cmd.event] = .ok (s', updated) ∧
      Shows s'.curr (k.cmd.apply b) ∧ s'.sockfd = s.sockfd ∧
      s'.outgoingQueue = s.outgoingQueue ++ (k.line b).map utf8.encode := by
  obtain ⟨s', updated, hevent, hshows'⟩ := exists_processEvent_shows hshows k.cmd
  refine ⟨s', updated || false, ?_, hshows', k.sockfd_of_processEvent hshows hsockfd hevent⟩
  have hevents := EventQueue.handleEvents_queued s [k.cmd.event]
  have hprocess : processEvents s [k.cmd.event] = some (s', updated || false) := by
    rw [processEvents, hevent]
    rfl
  rw [List.map_singleton, hprocess] at hevents
  cases hhandle : EventQueue.handleEvents s [EventQueue.queued k.cmd.event] with
  | error stop =>
    rw [hhandle] at hevents
    cases hevents
  | ok r =>
    rw [hhandle] at hevents
    exact congrArg Except.ok (Option.some.inj hevents)

end Event

/-! ### The queue of messages -/

/-- `malloc` and `strdup` get memory. -/
def Ready.Allocates (ready : Ready) : Prop :=
  (∀ heap, (ready.malloc heap).isSome) ∧ ready.copied

lemma MessageQueue.head_eq_none_of_dequeue {queue : MessageQueue} (h : queue.dequeue = .ok none) :
    queue.head = none := by
  rw [dequeue] at h
  split at h
  · assumption
  · rw [bind_eq_ok_iff] at h
    obtain ⟨node, -, h⟩ := h
    cases h

namespace MainLoop

variable {s s' : MainLoop} {socket : Socket}

/-- A message is lost when there is no memory for it. -/
lemma Inv.exists_clientSend_eq (h : s.Inv) (data : CStr) {node : Option ℕ} (copied : Bool)
    (hnew : ∀ a ∈ node, s.outgoingQueue.heap[a]? = none) :
    ∃ s', s.clientSend data node copied = .ok s' ∧ s'.Inv ∧ s'.terminate = s.terminate ∧
      s'.sends = s.sends ∧
      s'.enqueued = s.enqueued ++ if node.isSome ∧ copied then [data] else [] := by
  obtain ⟨s', hs', hinv⟩ := h.clientSend copied hnew
  refine ⟨s', hs', hinv, ?_⟩
  rw [MainLoop.clientSend, bind_eq_ok_iff] at hs'
  obtain ⟨⟨queue, queued⟩, hqueue, hs'⟩ := hs'
  cases hs'
  refine ⟨rfl, rfl, ?_⟩
  have hqueued : queued = (node.isSome && copied) := by
    cases node with
    | none =>
      cases hqueue
      rfl
    | some a =>
      cases copied with
      | false =>
        cases hqueue
        rfl
      | true =>
        obtain ⟨msgs, hholds, -⟩ := h.queue
        obtain ⟨queue', henqueue, -⟩ := hholds.enqueue (hnew a rfl) data
        rw [henqueue] at hqueue
        cases hqueue
        rfl
  subst hqueued
  cases hlost : node.isSome && copied <;> simp_all

lemma Inv.exists_clientSends_eq (h : s.Inv) (ready : Ready) (msgs : List CStr) :
    ∃ s' queued, msgs.foldlM (fun loop msg =>
        loop.clientSend msg (ready.malloc loop.outgoingQueue.heap) ready.copied) s = .ok s' ∧
      s'.Inv ∧ s'.terminate = s.terminate ∧ s'.sends = s.sends ∧
      s'.enqueued = s.enqueued ++ queued ∧
      queued.Sublist msgs ∧ (ready.Allocates → queued = msgs) := by
  induction msgs generalizing s with
  | nil =>
    exact ⟨s, [], rfl, h, rfl, rfl, (List.append_nil _).symm, List.Sublist.slnil, fun _ => rfl⟩
  | cons msg msgs ih =>
    obtain ⟨t, ht, hinv, hterminate, hsends, henqueued⟩ :=
      h.exists_clientSend_eq msg ready.copied fun _ => ready.fresh
    obtain ⟨s', queued, hs', hinv', hterminate', hsends', henqueued', hsub, hall⟩ := ih hinv
    refine ⟨s', (if (ready.malloc s.outgoingQueue.heap).isSome ∧ ready.copied then [msg] else []) ++
      queued, ?_, hinv', hterminate'.trans hterminate, hsends'.trans hsends, ?_, ?_, ?_⟩
    · rw [List.foldlM_cons, ht]
      exact hs'
    · rw [henqueued', henqueued, List.append_assoc]
    · split_ifs
      · exact hsub.cons_cons msg
      · exact hsub.cons msg
    · rintro ⟨hsome, hcopied⟩
      rw [if_pos ⟨hsome _, hcopied⟩, hall ⟨hsome, hcopied⟩]
      rfl

/-- Only an error of `send` ends the program. -/
def EndsIfFailed (s : MainLoop) : Prop := s.terminate = true ↔ s.SendFailed

/-- Sending takes messages out of the queue, all of them if `send` does not fail. -/
lemma sendQueued_spec (hends : s.EndsIfFailed) (hfailed : ¬ s.SendFailed)
    (h : s.sendQueued socket = .ok s') :
    s'.enqueued = s.enqueued ∧ s'.EndsIfFailed ∧
      (¬ s'.SendFailed → s'.outgoingQueue.head = none) := by
  fun_induction sendQueued socket s with
  | case1 s stop hstop => cases h
  | case2 s hnone =>
    cases h
    exact ⟨rfl, hends, fun _ => MessageQueue.head_eq_none_of_dequeue hnone⟩
  | case3 s msg queue hdequeue result t hterminate =>
    obtain rfl := Except.ok.inj h
    have hfailed' : t.SendFailed := by
      rcases sendMessage_spec socket msg 0 s.sends with ⟨hok, -, -⟩ | ⟨-, -, hfailed'⟩
      · rcases Bool.or_eq_true_iff.1 hterminate with hs | hfail
        · exact absurd (hends.1 hs) hfailed
        · exact absurd (hok.symm.trans hfail) Bool.false_ne_true
      · exact hfailed'
    exact ⟨rfl, iff_of_true hterminate hfailed', fun hnot => absurd hfailed' hnot⟩
  | case4 s msg queue hdequeue result t hterminate ih =>
    have hfailed' : ¬ t.SendFailed := by
      rcases sendMessage_spec socket msg 0 s.sends with ⟨-, -, hiff⟩ | ⟨hfail, -, -⟩
      · exact mt hiff.1 hfailed
      · exact absurd (Bool.or_eq_true_iff.2 (.inr hfail)) hterminate
    exact ih (iff_of_false hterminate hfailed') hfailed' h

lemma Inv.accepted_eq (h : s.Inv) (hfailed : ¬ s.SendFailed)
    (hempty : s.outgoingQueue.head = none) : accepted s.sends = s.enqueued.flatten := by
  obtain ⟨queued, ⟨nodes, hchain, -, rfl⟩, henqueued⟩ := h.queue
  rw [hempty] at hchain
  rw [h.sent hfailed, henqueued, hchain.eq_none_iff.1 rfl, List.map_nil, List.append_nil]

end MainLoop

/-! ### Rounds -/

lemma Lines.after_concat (ks : List Stroke) (k : Stroke) :
    Lines.after (ks ++ [k]) = (Lines.after ks).press k := by
  rw [after, List.foldl_append]
  rfl

/-- The strokes `done` were handled and `rest` waits in the terminal. -/
structure Main.Follows (s : Main) (lossless : Prop) (done rest : List Stroke) : Prop where
  input : s.input = rest.flatMap Stroke.bytes
  ctrlStack : s.ctrlStack = []
  sockfd : 0 ≤ s.editor.sockfd
  shows : Shows s.editor.curr (Lines.after done).buffer
  inv : s.loop.Inv
  endsIfFailed : s.loop.EndsIfFailed
  enqueued : s.loop.enqueued.Sublist ((Lines.after done).sent.map utf8.encode)
  lossless : lossless → s.loop.enqueued = (Lines.after done).sent.map utf8.encode

namespace Main.Follows

variable {s : Main} {lossless : Prop} {done rest : List Stroke}

lemma typed (h : s.Follows lossless done rest) (ks : List Stroke) :
    Follows { s with input := s.input ++ ks.flatMap Stroke.bytes } lossless done (rest ++ ks) := by
  refine { h with input := ?_ }
  rw [h.input, List.flatMap_append]

/-- A stroke that waits is handled. -/
lemma readKeyboard_cons [CLib] {k : Stroke} (h : s.Follows lossless done (k :: rest))
    {ready : Ready} (hready : ready.keyboard) (hfailed : ¬ s.loop.SendFailed)
    (hallocates : lossless → ready.Allocates) :
    ∃ s', s.readKeyboard ready = .ok s' ∧ s'.Follows lossless (done ++ [k]) rest ∧
      s'.loop.sends = s.loop.sends := by
  have hne : s.editor.sockfd ≠ -1 := by
    have hsockfd := h.sockfd
    omega
  have hinput : s.input = k.bytes ++ rest.flatMap Stroke.bytes := h.input
  have hkeyb := k.keyb_eq (rest.flatMap Stroke.bytes) s.editor.messages
  rw [← hinput] at hkeyb
  obtain ⟨editor, updated, hevent, hshows, hsockfd, hqueue⟩ :=
    k.exists_handleEvents_eq h.shows hne
  rw [Main.readKeyboard, if_pos hready, h.ctrlStack]
  obtain ⟨loop, queued, hloop, hinv, hterminate, hsends, henqueued, hsub, hall⟩ :=
    MainLoop.Inv.exists_clientSends_eq (s := { s.loop with terminate := false })
      ⟨h.inv.queue, h.inv.sent, h.inv.cut⟩ ready
      ((k.line (Lines.after done).buffer).map utf8.encode)
  refine ⟨⟨rest.flatMap Stroke.bytes, s.ctrlStack, editor, loop⟩, ?_,
    ⟨rfl, h.ctrlStack, ?_, ?_, hinv, ?_, ?_, ?_⟩, hsends⟩
  · rw [hkeyb]
    dsimp only
    rw [hevent, ok_bind]
    dsimp only
    rw [hqueue, List.drop_left, hloop, h.ctrlStack]
    rfl
  · exact hsockfd ▸ h.sockfd
  · rw [Lines.after_concat]
    exact hshows
  · rw [MainLoop.EndsIfFailed, MainLoop.SendFailed, hterminate, hsends]
    exact iff_of_false Bool.false_ne_true hfailed
  · rw [henqueued, Lines.after_concat, Lines.press, List.map_append]
    exact h.enqueued.append hsub
  · intro hlossless
    rw [henqueued, Lines.after_concat, Lines.press, List.map_append, ← h.lossless hlossless,
      hall (hallocates hlossless)]

lemma readKeyboard_nil [CLib] (h : s.Follows lossless done []) {ready : Ready}
    (hready : ready.keyboard) (hfailed : ¬ s.loop.SendFailed) :
    ∃ s', s.readKeyboard ready = .ok s' ∧ s'.Follows lossless done [] ∧
      s'.loop.sends = s.loop.sends := by
  obtain ⟨input, ctrlStack, editor, loop⟩ := s
  obtain ⟨hinput, hctrlStack, hsockfd, hshows, hinv, -, henqueued, hlossless⟩ := h
  obtain rfl : input = [] := hinput
  obtain rfl : ctrlStack = [] := hctrlStack
  refine ⟨⟨[], [], editor, { loop with terminate := false }⟩, ?_, ?_, rfl⟩
  · have hkeyb : keyb ⟨[], [], [], editor.messages⟩ = (⟨[], [], [], editor.messages⟩, false) := rfl
    rw [Main.readKeyboard, if_pos hready]
    dsimp only
    rw [hkeyb]
    simp only [EventQueue.handleEvents, ok_bind, List.drop_length, List.foldlM_nil]
    rfl
  · exact ⟨rfl, rfl, hsockfd, hshows, ⟨hinv.queue, hinv.sent, hinv.cut⟩,
      iff_of_false Bool.false_ne_true hfailed, henqueued, hlossless⟩

/-- When the terminal is ready, the first stroke that waits is handled. -/
lemma readKeyboard [CLib] (h : s.Follows lossless done rest) (hfailed : ¬ s.loop.SendFailed)
    {ready : Ready} (hallocates : lossless → ready.Allocates) :
    ∃ s' done' rest', s.readKeyboard ready = .ok s' ∧ s'.Follows lossless done' rest' ∧
      done' ++ rest' = done ++ rest ∧ rest' = rest.drop ready.keyboard.toNat ∧
      s'.loop.sends = s.loop.sends := by
  cases hready : ready.keyboard with
  | false => exact ⟨s, done, rest, by rw [Main.readKeyboard, hready]; rfl, h, rfl, rfl, rfl⟩
  | true =>
    cases rest with
    | nil =>
      obtain ⟨s', hs', hfollows, hsends⟩ := h.readKeyboard_nil hready hfailed
      exact ⟨s', done, [], hs', hfollows, rfl, rfl, hsends⟩
    | cons k rest =>
      obtain ⟨s', hs', hfollows, hsends⟩ := h.readKeyboard_cons hready hfailed hallocates
      exact ⟨s', done ++ [k], rest, hs', hfollows, (List.append_cons ..).symm, rfl, hsends⟩

lemma readNetwork (h : s.Follows lossless done rest) {ready : Ready}
    (hread : ready.network ≠ some []) :
    ∃ s', s.readNetwork ready = .ok s' ∧ s'.Follows lossless done rest ∧ s'.loop = s.loop := by
  rw [Main.readNetwork, require, if_pos h.sockfd, ok_bind]
  cases hnetwork : ready.network with
  | none => exact ⟨s, rfl, h, rfl⟩
  | some nread =>
    have hne : nread ≠ [] := by
      rintro rfl
      exact hread hnetwork
    refine ⟨{ s with editor := pushMessage s.editor (textOf nread) }, ?_, { h with }, rfl⟩
    dsimp only
    rw [require, if_pos hne, networkRead_eq]
    rfl

/-- All that waits is sent, if `send` does not fail. -/
lemma writeSocket (h : s.Follows lossless done rest) (hfailed : ¬ s.loop.SendFailed)
    (socket : Socket) (ready : Ready) :
    ∃ s', s.writeSocket socket ready = .ok s' ∧ s'.Follows lossless done rest ∧
      (ready.writable → ¬ s'.loop.SendFailed →
        accepted s'.loop.sends = s'.loop.enqueued.flatten) := by
  by_cases hwritable : ready.writable
  · obtain ⟨loop, hloop, hinv⟩ := h.inv.sendQueued hfailed socket
    obtain ⟨henqueued, hends, hhead⟩ := MainLoop.sendQueued_spec h.endsIfFailed hfailed hloop
    refine ⟨{ s with loop }, ?_,
      { h with inv := hinv, endsIfFailed := hends, enqueued := ?_, lossless := ?_ },
      fun _ hfailed' => hinv.accepted_eq hfailed' (hhead hfailed')⟩
    · rw [Main.writeSocket, if_pos hwritable, hloop]
      rfl
    · rw [henqueued]
      exact h.enqueued
    · rw [henqueued]
      exact h.lossless
  · refine ⟨s, ?_, h, fun hw => absurd hw hwritable⟩
    rw [Main.writeSocket, if_neg hwritable]
    rfl

/-- A round ends as `reDraw` does. -/
lemma round [CLib] (h : s.Follows lossless done rest) (hfailed : ¬ s.loop.SendFailed)
    {ready : Ready} (hallocates : lossless → ready.Allocates)
    (hread : ready.network ≠ some []) (socket : Socket) :
    ∃ s' done' rest', s.round socket ready = (ready.reDraw s').map (fun _ => s') ∧
      s'.Follows lossless done' rest' ∧
      done' ++ rest' = done ++ rest ∧ rest' = rest.drop ready.keyboard.toNat ∧
      (ready.writable → ¬ s'.loop.SendFailed →
        accepted s'.loop.sends = s'.loop.enqueued.flatten) := by
  obtain ⟨t, done', rest', ht, hfollows, hsplit, hrest, hsends⟩ :=
    h.readKeyboard hfailed hallocates
  obtain ⟨u, hu, hfollows', hloop⟩ := hfollows.readNetwork hread
  have hfailed' : ¬ u.loop.SendFailed := by
    rw [MainLoop.SendFailed, hloop, hsends]
    exact hfailed
  obtain ⟨s', hs', hfollows'', hsent⟩ := hfollows'.writeSocket hfailed' socket ready
  refine ⟨s', done', rest', ?_, hfollows'', hsplit, hrest, hsent⟩
  rw [Main.round, ht, ok_bind, hu, ok_bind, hs', ok_bind]
  cases ready.reDraw s' with
  | error stop => rfl
  | ok _ => rfl

end Main.Follows

/-! ### Runs -/

/-- Keys are pressed, or the loop goes round once. -/
inductive MainEvent
  | typed (ks : List Stroke)
  | round (ready : Ready)

/-- All that was typed. -/
def MainEvent.strokes (es : List MainEvent) : List Stroke :=
  es.flatMap fun
    | .typed ks => ks
    | .round _ => []

namespace Main

section Runs

variable [CLib]

/-- The states that some events lead to while the loop goes on. -/
inductive Runs [CLib] (socket : Socket) (s₀ : Main) : List MainEvent → Main → Prop
  | start : Runs socket s₀ [] s₀
  | typed {es : List MainEvent} {s : Main} (h : Runs socket s₀ es s) (ks : List Stroke) :
      Runs socket s₀ (es ++ [.typed ks]) { s with input := s.input ++ ks.flatMap Stroke.bytes }
  | round {es : List MainEvent} {s s' : Main} {ready : Ready} (h : Runs socket s₀ es s)
      (hterminate : s.loop.terminate = false) (hround : s.round socket ready = .ok s') :
      Runs socket s₀ (es ++ [.round ready]) s'

variable {socket : Socket} {s₀ s s' : Main} {es : List MainEvent}

/-- The program after it has got a connection. -/
def connected : Main := ⟨[], [], { Term.start with sockfd := 3 }, .start⟩

end Runs

end Main

end Vjft.Term
