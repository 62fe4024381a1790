import Vjft.Lib.Linked
import Vjft.Term.Event.Debug
import Vjft.Term.Event.Round

/-!
# The queues of events in memory (`term/event.c`)

An event that was put in the queue waits in a linked list, with a copy of its bytes. When it is
processed, it is put in a second list, the history, with one more copy, and what it had before is
freed. The lists are compared with the queues they stand for, in which an event is its values.
-/

namespace Vjft.Term

open Linked

/-! ### The code -/

/-- `InputEvent` in memory. -/
structure EventNode where
  type : EventType
  cmdFn : Option CmdFunc
  seq : Option ℕ
  next : Option ℕ

namespace EventQueue

/-- `malloc`, as far as it is called for events, and `strdup`. -/
structure Malloc where
  events : Allocator EventNode
  strings : Allocator CStr

/-- The events and their strings in memory, and how often `enqueueEvent` was called. -/
structure Memory where
  events : Heap EventNode
  strings : Heap CStr
  calls : ℕ

/-- The loop of `enqueueEvent`. -/
def lastEvent (events : Heap EventNode) (event : ℕ) : Except Stop ℕ :=
  match _h : events[event]? with
  | none => .error .outOfBounds
  | some node =>
    match node.next with
    | none => .ok event
    | some next => lastEvent (events.erase event) next
termination_by events.size
decreasing_by exact events.size_erase_lt _h

/-- `seq ? strdup(seq) : NULL` -/
def copySeq (malloc : Malloc) (m : Memory) : Option CStr → Heap CStr × Option ℕ
  | none => (m.strings, none)
  | some seq =>
    match malloc.strings.alloc m.calls m.strings with
    | none => (m.strings, none)
    | some copy => (m.strings.insert copy seq, some copy)

/-- The end of `enqueueEvent`: the new event goes behind the last one. -/
def linkEvent (events : Heap EventNode) (eventQueue : Option ℕ) (newEvent : ℕ) :
    Except Stop (Heap EventNode × Option ℕ) :=
  match eventQueue with
  | none => .ok (events, some newEvent)
  | some first => do
    let last ← lastEvent events first
    let node ← orStop events[last]? .outOfBounds
    pure (events.insert last { node with next := some newEvent }, eventQueue)

/-- The memory and the queue after the call. -/
def enqueueEvent (malloc : Malloc) (m : Memory) (eventQueue : Option ℕ) (type : EventType)
    (cmdFn : Option CmdFunc) (seq : Option CStr) : Except Stop (Memory × Option ℕ) :=
  match malloc.events.alloc m.calls m.events with
  | none => .error .exit
  | some newEvent => do
    let (strings, copy) := copySeq malloc m seq
    let events := m.events.insert newEvent ⟨type, cmdFn, copy, none⟩
    let (events, eventQueue) ← linkEvent events eventQueue newEvent
    pure (⟨events, strings, m.calls + 1⟩, eventQueue)

/-- `upd_insert` and `cmd_uninsert` take the length of the bytes, whether or not there are any. -/
def readsNull (cmdFn : CmdFunc) (seq : Option CStr) : Bool :=
  (cmdFn == .cmdInsert || cmdFn == .cmdUninsert) && seq.isNone

/-- The command of the event follows `NULL`, or the one that `cmd_undo` or `cmd_redo` calls. -/
def followsNull (s : Editor) (event : InputEvent) : Bool :=
  match event.cmdFn with
  | .cmdUndo =>
    match (popAction s.undoStack).1 with
    | none => false
    | some act =>
      match getCompCmd act.cmdFn with
      | none => false
      | some undoCmd => act.cnt != 0 && readsNull undoCmd act.seq
  | .cmdRedo =>
    match (popAction s.redoStack).1 with
    | none => false
    | some act => act.cnt != 0 && readsNull act.cmdFn act.seq
  | cmdFn => readsNull cmdFn event.seq

section Code

variable [CLib]

/-- The `switch` of `processEvents`, and whether something is to be drawn. -/
def handleEvent (s : Editor) (event : QueuedEvent) : Except Stop (Editor × Bool) :=
  match event.type with
  | .dbg =>
    match event.seq with
    | none => .ok (s, false)
    | some seq => do
      let logMsg ← dbgLogMsg seq
      pure (pushMessage s logMsg, true)
  | .cmd =>
    match event.cmdFn with
    | none =>
      let logMsg := snprintf dbgLogMsgSize (lit "case CMD: No command found for: " ++
        event.seq.getD (lit "(null)") ++ lit "\n")
      .ok (pushMessage s logMsg, false)
    | some cmdFn =>
      if followsNull s ⟨cmdFn, event.seq⟩ then .error .outOfBounds
      else orStop (processEvent s ⟨cmdFn, event.seq⟩) .exit

/-- The text a pointer leads to, unless it is `NULL`. -/
def readSeq (strings : Heap CStr) : Option ℕ → Except Stop (Option CStr)
  | none => .ok none
  | some seq => do
    let text ← orStop strings[seq]? .outOfBounds
    pure (some text)

/-- `if (event->seq != NULL) { free(event->seq); } free(event);` -/
def freeEvent (m : Memory) (event : ℕ) (seq : Option ℕ) : Except Stop Memory := do
  let strings ←
    match seq with
    | none => pure m.strings
    | some seq => do
      require (m.strings[seq]? ≠ none) .outOfBounds
      pure (m.strings.erase seq)
  require (m.events[event]? ≠ none) .outOfBounds
  pure ⟨m.events.erase event, strings, m.calls⟩

/-- The program, with `gInputEventQueue` and `gHistoryEventQueue`. -/
structure Queues where
  memory : Memory
  input : Option ℕ
  history : Option ℕ
  editor : Editor

/-- A round of the loop of `processEvents`. -/
def round (malloc : Malloc) (q : Queues) (event : ℕ) : Except Stop (Queues × Bool) := do
  let node ← orStop q.memory.events[event]? .outOfBounds
  let input := node.next
  let seq ← readSeq q.memory.strings node.seq
  let (editor, updated) ← handleEvent q.editor ⟨node.type, node.cmdFn, seq⟩
  let (memory, history) ← enqueueEvent malloc q.memory q.history node.type node.cmdFn seq
  let memory ← freeEvent memory event node.seq
  pure (⟨memory, input, history, editor⟩, updated)

/-- The first rounds of the loop. -/
def rounds (malloc : Malloc) : ℕ → Queues → Except Stop (Queues × Bool)
  | 0, q => .ok (q, false)
  | n + 1, q =>
    match q.input with
    | none => .ok (q, false)
    | some event => do
      let (q, updated) ← round malloc q event
      let (q, updated') ← rounds malloc n q
      pure (q, updated || updated')

/-- An event in the queue is an event in memory, so that there are no more rounds. -/
def processEvents (malloc : Malloc) (q : Queues) : Except Stop (Queues × Bool) :=
  rounds malloc q.memory.events.size q

end Code

/-! ### The queues as values -/

/-- An event is put in the queue, or the queue is processed. -/
inductive Call
  | enqueueEvent (event : QueuedEvent)
  | processEvents

def start (s : Editor) : Queues := ⟨⟨∅, ∅, 0⟩, none, none, s⟩

def call [CLib] (malloc : Malloc) (q : Queues) : Call → Except Stop Queues
  | .enqueueEvent event => do
    let (memory, input) ←
      enqueueEvent malloc q.memory q.input event.type event.cmdFn event.seq
    pure { q with memory, input }
  | .processEvents => do
    let (q, _) ← processEvents malloc q
    pure q

def run [CLib] (malloc : Malloc) : Queues → List Call → Except Stop Queues
  | q, [] => .ok q
  | q, c :: calls => do
    let q ← call malloc q c
    run malloc q calls

/-- The events that wait, and those that were processed. -/
structure Events where
  waiting : List QueuedEvent
  handled : List QueuedEvent

def Events.call (q : Events) : Call → Events
  | .enqueueEvent event => { q with waiting := q.waiting ++ [event] }
  | .processEvents => ⟨[], q.handled ++ q.waiting⟩

def Events.run (calls : List Call) : Events := calls.foldl Events.call ⟨[], []⟩

/-- Events are processed one after the other. -/
def handleEvents [CLib] (s : Editor) : List QueuedEvent → Except Stop (Editor × Bool)
  | [] => .ok (s, false)
  | event :: events => do
    let (s, updated) ← handleEvent s event
    let (s, updated') ← handleEvents s events
    pure (s, updated || updated')

/-! ### Memory -/

variable {malloc : Malloc}

/-- The strings of some events. -/
def seqs (nodes : List (ℕ × EventNode)) : List ℕ := nodes.filterMap fun node => node.2.seq

/-- The values that stand in memory for an event. -/
def value (strings : Heap CStr) (node : EventNode) : QueuedEvent :=
  ⟨node.type, node.cmdFn, node.seq.bind fun seq => strings[seq]?⟩

def values (strings : Heap CStr) (nodes : List (ℕ × EventNode)) : List QueuedEvent :=
  nodes.map fun node => value strings node.2

/-- A queue of events in memory. There are these and the others, each with a string of its own, and
nothing else. -/
structure Memory.Holds (m : Memory) (queue : Option ℕ) (nodes others : List (ℕ × EventNode)) :
    Prop where
  chain : Chain EventNode.next m.events queue nodes none
  events : Owns m.events (addrs (nodes ++ others))
  strings : Owns m.strings (seqs (nodes ++ others))

/-- The copy of an event, which has no bytes when there was no memory for them. -/
def Copied (malloc : Malloc) (event copy : QueuedEvent) : Prop :=
  copy = event ∨
    copy = { event with seq := none } ∧ ∃ calls strings, malloc.strings.alloc calls strings = none

@[simp] lemma addrs_append (nodes others : List (ℕ × EventNode)) :
    addrs (nodes ++ others) = addrs nodes ++ addrs others := List.map_append

@[simp] lemma seqs_append (nodes others : List (ℕ × EventNode)) :
    seqs (nodes ++ others) = seqs nodes ++ seqs others := List.filterMap_append

@[simp] lemma seqs_nil : seqs [] = [] := rfl

lemma seqs_cons (a : ℕ) (node : EventNode) (nodes : List (ℕ × EventNode)) :
    seqs ((a, node) :: nodes) = node.seq.toList ++ seqs nodes := by
  rw [seqs, List.filterMap_cons]
  cases node.seq with
  | none => rfl
  | some seq => rfl

/-- Events are the same as long as their strings are. -/
lemma values_congr {strings strings' : Heap CStr} {nodes : List (ℕ × EventNode)}
    (h : ∀ seq ∈ seqs nodes, strings'[seq]? = strings[seq]?) :
    values strings' nodes = values strings nodes := by
  apply List.map_congr_left
  intro node hnode
  cases hseq : node.2.seq with
  | none => rw [value, value, hseq, Option.bind_none, Option.bind_none]
  | some seq =>
    rw [value, value, hseq, Option.bind_some, Option.bind_some,
      h seq (List.mem_filterMap.mpr ⟨node, hnode, hseq⟩)]

lemma lastEvent_eq {events : Heap EventNode} {first last : ℕ} {node : EventNode}
    {nodes : List (ℕ × EventNode)}
    (h : Chain EventNode.next events (some first) (nodes ++ [(last, node)]) none) :
    lastEvent events first = .ok last := by
  induction nodes generalizing events first with
  | nil =>
    obtain ⟨hfirst, hnode, hnext⟩ := h
    obtain rfl := Option.some.inj hfirst
    rw [lastEvent]
    split
    · rename_i hnone
      cases hnone.symm.trans hnode
    · rename_i node' hnode'
      obtain rfl := Option.some.inj (hnode'.symm.trans hnode)
      rw [show node'.next = none from hnext]
  | cons head nodes ih =>
    obtain ⟨a, n⟩ := head
    rw [List.cons_append] at h
    have htail := h.tail
    obtain ⟨hfirst, hnode, hrest⟩ := h
    obtain rfl := Option.some.inj hfirst
    have hnext := hrest.head_eq
    obtain ⟨next, hn⟩ : ∃ next, n.next = some next := by
      rw [hnext, addrs_append]
      cases nodes with
      | nil => exact ⟨last, rfl⟩
      | cons node' nodes => exact ⟨node'.1, rfl⟩
    rw [hn] at htail
    rw [lastEvent]
    split
    · rename_i hnone
      cases hnone.symm.trans hnode
    · rename_i node' hnode'
      obtain rfl := Option.some.inj (hnode'.symm.trans hnode)
      rw [hn]
      exact ih htail

/-- A new event goes to the end of a queue. -/
lemma linkEvent_spec {events : Heap EventNode} {queue : Option ℕ} {nodes : List (ℕ × EventNode)}
    (h : Chain EventNode.next events queue nodes none) {newEvent : ℕ}
    (hnew : events[newEvent]? = none) (node : EventNode) (hnext : node.next = none) :
    ∃ events' queue' nodes', linkEvent (events.insert newEvent node) queue newEvent =
        .ok (events', queue') ∧
      Chain EventNode.next events' queue' nodes' none ∧
      addrs nodes' = addrs nodes ++ [newEvent] ∧ seqs nodes' = seqs nodes ++ node.seq.toList ∧
      (∀ strings, values strings nodes' = values strings nodes ++ [value strings node]) ∧
      (∀ b, b ∉ addrs nodes → b ≠ newEvent → events'[b]? = events[b]?) ∧
      ∀ owned, Owns events owned → addrs nodes ⊆ owned → Owns events' (newEvent :: owned) := by
  have hseqs : seqs [(newEvent, node)] = node.seq.toList := by
    rw [seqs_cons, seqs_nil, List.append_nil]
  rcases List.eq_nil_or_concat' nodes with rfl | ⟨before, ⟨last, n⟩, rfl⟩
  · have hnone : queue = none := h
    have hcons := h.cons hnew (hnext.trans hnone.symm)
    rw [hnone]
    refine ⟨_, _, [(newEvent, node)], rfl, hcons, rfl, hseqs, fun _ => rfl, ?_, ?_⟩
    · intro b _ hb
      exact events.getElem?_insert_of_ne hb node
    · intro owned howns _
      exact howns.insert hnew node
  · obtain ⟨first, rfl⟩ : ∃ first, queue = some first := by
      refine Option.ne_none_iff_exists'.mp fun hnone => ?_
      exact List.append_ne_nil_of_right_ne_nil _ (List.cons_ne_nil _ _) (h.eq_none_iff.1 hnone)
    have hold : ∀ b ∈ addrs (before ++ [(last, n)]), b ≠ newEvent := by
      rintro b hb rfl
      obtain ⟨n', hn', -⟩ := h.exists_mem hb
      cases hnew.symm.trans hn'
    have hmem : last ∈ addrs (before ++ [(last, n)]) := by
      rw [addrs_append]
      exact List.mem_append_right _ List.mem_cons_self
    have hinsert : Chain EventNode.next (events.insert newEvent node) (some first)
        (before ++ [(last, n)]) none :=
      h.congr fun b hb => events.getElem?_insert_of_ne (hold b hb) node
    have hlast : (events.insert newEvent node)[last]? = some n :=
      hinsert.getElem?_of_mem (List.mem_append_right _ List.mem_cons_self)
    have hsnoc : Chain EventNode.next
        ((events.insert newEvent node).insert last { n with next := some newEvent }) (some first)
        (before ++ [(last, { n with next := some newEvent }), (newEvent, node)]) none :=
      h.snoc hnew rfl hnext
    refine ⟨_, _, _, ?_, hsnoc, ?_, ?_, ?_, ?_, ?_⟩
    · rw [linkEvent, lastEvent_eq hinsert, ok_bind, hlast, orStop_some, ok_bind]
      rfl
    · simp [addrs]
    · simp only [seqs_append, seqs_cons, seqs_nil, List.append_nil, List.append_assoc]
    · intro strings
      simp [values, value]
    · intro b hb hbnew
      have hblast : b ≠ last := (ne_of_mem_of_not_mem hmem hb).symm
      rw [Heap.getElem?_insert_of_ne _ hblast, Heap.getElem?_insert_of_ne _ hbnew]
    · intro owned howns hsub
      exact (howns.insert hnew node).set (List.mem_cons_of_mem _ (hsub hmem)) _

/-- The copy of the bytes is a new string, or there is no memory for one. -/
lemma copySeq_spec (malloc : Malloc) (m : Memory) (seq : Option CStr) :
    (∀ owned, Owns m.strings owned →
      Owns (copySeq malloc m seq).1 ((copySeq malloc m seq).2.toList ++ owned) ∧
      ∀ a ∈ owned, (copySeq malloc m seq).1[a]? = m.strings[a]?) ∧
    ∀ type cmdFn next, Copied malloc ⟨type, cmdFn, seq⟩
      (value (copySeq malloc m seq).1 ⟨type, cmdFn, (copySeq malloc m seq).2, next⟩) := by
  cases seq with
  | none => exact ⟨fun owned howns => ⟨howns, fun a _ => rfl⟩, fun _ _ _ => .inl rfl⟩
  | some seq =>
    cases hcopy : malloc.strings.alloc m.calls m.strings with
    | none =>
      have hnone : copySeq malloc m (some seq) = (m.strings, none) := by
        simp only [copySeq, hcopy]
      rw [hnone]
      exact ⟨fun owned howns => ⟨howns, fun a _ => rfl⟩, fun _ _ _ => .inr ⟨rfl, _, _, hcopy⟩⟩
    | some copy =>
      have hsome : copySeq malloc m (some seq) = (m.strings.insert copy seq, some copy) := by
        simp only [copySeq, hcopy]
      have hnew := malloc.strings.fresh hcopy
      rw [hsome]
      refine ⟨fun owned howns => ⟨howns.insert hnew seq, fun a ha => ?_⟩, fun type cmdFn next => ?_⟩
      · apply m.strings.getElem?_insert_of_ne
        rintro rfl
        exact howns.notMem hnew ha
      · refine .inl (congrArg (QueuedEvent.mk type cmdFn) ?_)
        exact m.strings.getElem?_insert_self copy seq

variable {m : Memory} {queue : Option ℕ} {nodes others : List (ℕ × EventNode)}

/-- There is no memory for some event. -/
def NoMemory (malloc : Malloc) : Prop := ∃ calls events, malloc.events.alloc calls events = none

/-- What is not in the queue stays as it was. -/
structure Frame (m m' : Memory) (others : List (ℕ × EventNode)) : Prop where
  events : ∀ a ∈ addrs others, m'.events[a]? = m.events[a]?
  strings : ∀ a ∈ seqs others, m'.strings[a]? = m.strings[a]?

lemma Frame.trans {m m' m'' : Memory} (h : Frame m m' others) (h' : Frame m' m'' others) :
    Frame m m'' others :=
  ⟨fun a ha => (h'.events a ha).trans (h.events a ha),
    fun a ha => (h'.strings a ha).trans (h.strings a ha)⟩

lemma Frame.of_append {m m' : Memory} (h : Frame m m' (nodes ++ others)) :
    Frame m m' nodes ∧ Frame m m' others := by
  obtain ⟨hevents, hstrings⟩ := h
  rw [addrs_append] at hevents
  rw [seqs_append] at hstrings
  exact ⟨⟨fun a ha => hevents a (List.mem_append_left _ ha),
      fun a ha => hstrings a (List.mem_append_left _ ha)⟩,
    ⟨fun a ha => hevents a (List.mem_append_right _ ha),
      fun a ha => hstrings a (List.mem_append_right _ ha)⟩⟩

lemma Memory.Holds.enqueueEvent (malloc : Malloc) (h : m.Holds queue nodes others)
    (event : QueuedEvent) :
    EventQueue.enqueueEvent malloc m queue event.type event.cmdFn event.seq = .error .exit ∧
        NoMemory malloc ∨
      ∃ m' queue' nodes' copy,
        EventQueue.enqueueEvent malloc m queue event.type event.cmdFn event.seq =
          .ok (m', queue') ∧
        m'.Holds queue' nodes' others ∧ Frame m m' others ∧ Copied malloc event copy ∧
        values m'.strings nodes' = values m.strings nodes ++ [copy] := by
  rw [EventQueue.enqueueEvent]
  cases hnew : malloc.events.alloc m.calls m.events with
  | none => exact .inl ⟨rfl, _, _, hnew⟩
  | some newEvent =>
    right
    have hfree := malloc.events.fresh hnew
    obtain ⟨hcopy, hcopied⟩ := copySeq_spec malloc m event.seq
    obtain ⟨hstrings, hold⟩ := hcopy _ h.strings
    dsimp only
    generalize copySeq malloc m event.seq = copied at hcopied hstrings hold ⊢
    obtain ⟨strings, copy⟩ := copied
    dsimp only at hcopied hstrings hold ⊢
    obtain ⟨events, queue', nodes', hlink, hchain, haddrs, hseqs, hvalues, hevents, howns⟩ :=
      linkEvent_spec h.chain hfree ⟨event.type, event.cmdFn, copy, none⟩ rfl
    have howned := h.events
    rw [addrs_append] at howned
    rw [seqs_append] at hstrings hold
    rw [hlink, ok_bind]
    refine ⟨_, _, nodes', _, rfl, ⟨hchain, ?_, ?_⟩, ⟨?_, ?_⟩, hcopied _ _ none, ?_⟩
    · refine (howns _ howned (List.subset_append_left _ _)).perm ?_
      rw [addrs_append, haddrs, List.append_assoc]
      exact List.perm_middle.symm
    · refine hstrings.perm ?_
      rw [seqs_append, hseqs, List.append_assoc]
      exact List.perm_append_comm_assoc _ _ _
    · intro a ha
      refine hevents a (fun hmem => ?_) ?_
      · exact (List.nodup_append.1 howned.nodup).2.2 a hmem a ha rfl
      · rintro rfl
        exact howned.notMem hfree (List.mem_append_right _ ha)
    · exact fun a ha => hold a (List.mem_append_right _ ha)
    · rw [hvalues, values_congr fun a ha => hold a (List.mem_append_left _ ha)]

/-- An event that is in no queue is freed with its string. -/
lemma Memory.Holds.freeEvent {event : ℕ} {node : EventNode}
    (h : m.Holds queue nodes ((event, node) :: others)) :
    ∃ m', EventQueue.freeEvent m event node.seq = .ok m' ∧ m'.Holds queue nodes others ∧
      Frame m m' (nodes ++ others) := by
  have hevents : Owns m.events (event :: addrs (nodes ++ others)) := by
    refine h.events.perm ?_
    rw [addrs_append, addrs_append]
    exact List.perm_middle
  have hstrings : Owns m.strings (node.seq.toList ++ seqs (nodes ++ others)) := by
    refine h.strings.perm ?_
    rw [seqs_append, seqs_append, seqs_cons]
    exact List.perm_append_comm_assoc _ _ _
  have hevent : m.events[event]? ≠ none := (hevents.mem_iff event).1 List.mem_cons_self
  have hother : ∀ a ∈ addrs (nodes ++ others), (m.events.erase event)[a]? = m.events[a]? := by
    intro a ha
    apply m.events.getElem?_erase_of_ne
    rintro rfl
    exact (List.nodup_cons.1 hevents.nodup).1 ha
  have hchain : Chain EventNode.next (m.events.erase event) queue nodes none := by
    refine h.chain.congr fun a ha => hother a ?_
    rw [addrs_append]
    exact List.mem_append_left _ ha
  cases hseq : node.seq with
  | none =>
    rw [hseq] at hstrings
    refine ⟨⟨m.events.erase event, m.strings, m.calls⟩, ?_,
      ⟨hchain, hevents.erase, hstrings⟩, ⟨hother, fun a _ => rfl⟩⟩
    rw [EventQueue.freeEvent, pure_bind, require_of_pos hevent]
    rfl
  | some seq =>
    rw [hseq, Option.toList_some, List.singleton_append] at hstrings
    have hstring : m.strings[seq]? ≠ none := (hstrings.mem_iff seq).1 List.mem_cons_self
    refine ⟨⟨m.events.erase event, m.strings.erase seq, m.calls⟩, ?_,
      ⟨hchain, hevents.erase, hstrings.erase⟩, ⟨hother, fun a ha => ?_⟩⟩
    · rw [EventQueue.freeEvent, require_of_pos hstring, ok_bind, pure_bind,
        require_of_pos hevent]
      rfl
    · apply m.strings.getElem?_erase_of_ne
      rintro rfl
      exact (List.nodup_cons.1 hstrings.nodup).1 ha

/-! ### Rounds -/

/-- The bytes of an event in a queue can be read. -/
lemma Memory.Holds.readSeq (h : m.Holds queue nodes others) {event : ℕ} {node : EventNode}
    (hmem : (event, node) ∈ nodes) :
    EventQueue.readSeq m.strings node.seq = .ok (value m.strings node).seq := by
  cases hseq : node.seq with
  | none =>
    rw [value, hseq]
    rfl
  | some seq =>
    have howned : seq ∈ seqs (nodes ++ others) := by
      rw [seqs_append]
      exact List.mem_append_left _ (List.mem_filterMap.mpr ⟨_, hmem, hseq⟩)
    obtain ⟨text, htext⟩ := Option.ne_none_iff_exists'.mp ((h.strings.mem_iff seq).1 howned)
    rw [value, hseq, Option.bind_some, htext, EventQueue.readSeq, htext]
    rfl

/-- The two queues. -/
structure Queues.Holds (q : Queues) (input history : List (ℕ × EventNode)) : Prop where
  input : q.memory.Holds q.input input history
  history : Chain EventNode.next q.memory.events q.history history none

/-- The others may be a queue as well. -/
lemma Memory.Holds.swap (h : m.Holds queue nodes others) {queue' : Option ℕ}
    (hchain : Chain EventNode.next m.events queue' others none) : m.Holds queue' others nodes := by
  refine ⟨hchain, h.events.perm ?_, h.strings.perm ?_⟩
  · rw [addrs_append, addrs_append]
    exact List.perm_append_comm
  · rw [seqs_append, seqs_append]
    exact List.perm_append_comm

section Rounds

variable [CLib]

/-- An event is processed and goes to the history, or the program ends. -/
lemma Queues.Holds.round (malloc : Malloc) {q : Queues} {event : ℕ} {node : EventNode}
    {input history : List (ℕ × EventNode)} (h : q.Holds ((event, node) :: input) history) :
    (∃ stop, EventQueue.round malloc q event = .error stop ∧
        (stop = .exit ∧ NoMemory malloc ∨
          handleEvent q.editor (value q.memory.strings node) = .error stop)) ∨
      ∃ q' updated history' copy, EventQueue.round malloc q event = .ok (q', updated) ∧
        q'.Holds input history' ∧
        values q'.memory.strings input = values q.memory.strings input ∧
        values q'.memory.strings history' = values q.memory.strings history ++ [copy] ∧
        Copied malloc (value q.memory.strings node) copy ∧
        handleEvent q.editor (value q.memory.strings node) = .ok (q'.editor, updated) := by
  obtain ⟨hinput, hhistory⟩ := h
  obtain ⟨-, hnode, hchain⟩ := hinput.chain
  have hseq := hinput.readSeq List.mem_cons_self
  have hvalue : (⟨node.type, node.cmdFn, (value q.memory.strings node).seq⟩ : QueuedEvent) =
      value q.memory.strings node := rfl
  rw [EventQueue.round, hnode, orStop_some, ok_bind]
  dsimp only
  rw [hseq, ok_bind, hvalue]
  cases hhandle : handleEvent q.editor (value q.memory.strings node) with
  | error stop => exact .inl ⟨stop, rfl, .inr rfl⟩
  | ok handled =>
    obtain ⟨editor, updated⟩ := handled
    rw [ok_bind]
    dsimp only
    rcases (hinput.swap hhistory).enqueueEvent malloc
        ⟨node.type, node.cmdFn, (value q.memory.strings node).seq⟩ with
      ⟨hexit, hnone⟩ | ⟨m, history', nodes, copy, hok, hm, hframe, hcopy, hvalues⟩
    · rw [hexit]
      exact .inl ⟨.exit, rfl, .inl ⟨rfl, hnone⟩⟩
    · right
      obtain ⟨m', hfree, hm', hframe'⟩ := hm.freeEvent
      have hothers : Frame q.memory m ([(event, node)] ++ input) := hframe
      have hinputs : Frame q.memory m' input := hothers.of_append.2.trans hframe'.of_append.2
      refine ⟨⟨m', node.next, history', editor⟩, updated, nodes, copy, ?_, ⟨?_, hm'.chain⟩,
        values_congr hinputs.strings, ?_, hcopy, rfl⟩
      · rw [hok, ok_bind]
        dsimp only
        rw [hfree]
        rfl
      · exact hm'.swap (hchain.congr hinputs.events)
      · rw [values_congr hframe'.of_append.1.strings, hvalues]

lemma handleEvents_append (s : Editor) (events events' : List QueuedEvent) :
    handleEvents s (events ++ events') = (do
      let (s, updated) ← handleEvents s events
      let (s, updated') ← handleEvents s events'
      pure (s, updated || updated')) := by
  induction events generalizing s with
  | nil =>
    rw [List.nil_append, handleEvents, ok_bind]
    dsimp only
    cases handleEvents s events' with
    | error stop => rfl
    | ok handled => rfl
  | cons event events ih =>
    rw [List.cons_append, handleEvents, handleEvents]
    cases handleEvent s event with
    | error stop => rfl
    | ok handled =>
      rw [ok_bind, ok_bind]
      dsimp only
      rw [ih]
      cases handleEvents handled.1 events with
      | error stop => rfl
      | ok handled' =>
        simp only [ok_bind, pure_bind]
        cases handleEvents handled'.1 events' with
        | error stop => rfl
        | ok handled'' => simp only [ok_bind, pure_bind, Bool.or_assoc]

/-- All events in the queue are processed, from the first to the last one. -/
lemma Queues.Holds.rounds (malloc : Malloc) {input : List (ℕ × EventNode)} {n : ℕ}
    (hn : input.length ≤ n) {q : Queues} {history : List (ℕ × EventNode)}
    (h : q.Holds input history) :
    (∃ stop, EventQueue.rounds malloc n q = .error stop ∧ (stop = .exit ∧ NoMemory malloc ∨
        handleEvents q.editor (values q.memory.strings input) = .error stop)) ∨
      ∃ q' updated history' copies, EventQueue.rounds malloc n q = .ok (q', updated) ∧
        q'.Holds [] history' ∧
        values q'.memory.strings history' = values q.memory.strings history ++ copies ∧
        List.Forall₂ (Copied malloc) (values q.memory.strings input) copies ∧
        handleEvents q.editor (values q.memory.strings input) = .ok (q'.editor, updated) := by
  induction input generalizing n q history with
  | nil =>
    right
    have hnone : q.input = none := h.input.chain
    refine ⟨q, false, history, [], ?_, h, (List.append_nil _).symm, .nil, rfl⟩
    cases n with
    | zero => rfl
    | succ n => simp only [EventQueue.rounds, hnone]
  | cons head input ih =>
    obtain ⟨event, node⟩ := head
    obtain ⟨n, rfl⟩ := Nat.exists_eq_add_one_of_ne_zero (Nat.ne_of_gt (Nat.lt_of_lt_of_le
      (Nat.succ_pos _) hn))
    have hsome : q.input = some event := h.input.chain.1
    have hvalues : values q.memory.strings ((event, node) :: input) =
      value q.memory.strings node :: values q.memory.strings input := rfl
    rw [hvalues, handleEvents]
    simp only [EventQueue.rounds, hsome]
    rcases h.round malloc with ⟨stop, hstop, hwhy⟩ |
      ⟨q', updated, history', copy, hok, hq', hinput, hhistory, hcopy, hhandle⟩
    · left
      rw [hstop]
      refine ⟨stop, rfl, hwhy.imp_right fun hhandle => ?_⟩
      rw [hhandle]
      rfl
    · rw [hok, hhandle, ok_bind, ok_bind]
      dsimp only
      rcases ih (Nat.le_of_succ_le_succ hn) hq' with ⟨stop, hstop, hwhy⟩ |
        ⟨q'', updated', history'', copies, hok', hq'', hhistory', hcopies, hhandle'⟩
      · left
        rw [hstop]
        refine ⟨stop, rfl, hwhy.imp_right fun hhandle => ?_⟩
        rw [← hinput, hhandle]
        rfl
      · right
        rw [hinput] at hcopies hhandle'
        refine ⟨q'', updated || updated', history'', copy :: copies, ?_, hq'', ?_,
          .cons hcopy hcopies, ?_⟩
        · rw [hok']
          rfl
        · rw [hhistory', hhistory, List.append_assoc]
          rfl
        · rw [hhandle']
          rfl

end Rounds

/-! ### Runs -/

lemma Copied.refl (event : QueuedEvent) : Copied malloc event event := .inl rfl

lemma Events.exists_append (events : Events) (calls : List Call) :
    ∃ more, (calls.foldl Events.call events).handled = events.handled ++ more := by
  induction calls generalizing events with
  | nil => exact ⟨[], (List.append_nil _).symm⟩
  | cons c calls ih =>
    obtain ⟨more, hmore⟩ := ih (events.call c)
    rw [List.foldl_cons, hmore]
    cases c with
    | enqueueEvent event => exact ⟨more, rfl⟩
    | processEvents => exact ⟨events.waiting ++ more, List.append_assoc _ _ _⟩

/-- There is always memory. -/
structure Malloc.Total (malloc : Malloc) : Prop where
  events : ∀ calls events, malloc.events.alloc calls events ≠ none
  strings : ∀ calls strings, malloc.strings.alloc calls strings ≠ none

lemma eq_of_copied (h : ∀ calls strings, malloc.strings.alloc calls strings ≠ none)
    {events copies : List QueuedEvent} (hcopies : List.Forall₂ (Copied malloc) events copies) :
    copies = events := by
  rw [← List.forall₂_eq_eq_eq]
  refine hcopies.flip.imp fun copy event hcopy => ?_
  rcases hcopy with heq | ⟨-, calls, strings, hnone⟩
  · exact heq
  · exact absurd hnone (h calls strings)

/-- What is in the queues was put there. -/
lemma mem_of_mem_foldl_call (events : Events) (calls : List Call) {event : QueuedEvent}
    (h : event ∈ (calls.foldl Events.call events).handled ++
      (calls.foldl Events.call events).waiting) :
    event ∈ events.handled ++ events.waiting ∨ .enqueueEvent event ∈ calls := by
  induction calls generalizing events with
  | nil => exact .inl h
  | cons c calls ih =>
    rcases ih _ h with hmem | hmem
    · cases c with
      | enqueueEvent event' =>
        rw [Events.call, ← List.append_assoc, List.mem_append, List.mem_singleton] at hmem
        rcases hmem with hmem | rfl
        · exact .inl hmem
        · exact .inr List.mem_cons_self
      | processEvents =>
        rw [Events.call, List.append_nil] at hmem
        exact .inl hmem
    · exact .inr (List.mem_cons_of_mem c hmem)

/-- The event of a command as it stands in the queue. -/
def queued (event : InputEvent) : QueuedEvent := ⟨.cmd, some event.cmdFn, event.seq⟩

lemma readsNull_eq_false_iff (cmdFn : CmdFunc) (seq : Option CStr) :
    readsNull cmdFn seq = false ↔ cmdFn = .cmdInsert ∨ cmdFn = .cmdUninsert → seq ≠ none := by
  cases seq <;> simp [readsNull]

/-- The `Action`s that keys have recorded have the bytes that their commands read. -/
lemma readsNull_of_ok {act : Action} (h : act.Ok) :
    readsNull act.cmdFn act.seq = false ∧
      ∀ undoCmd, getCompCmd act.cmdFn = some undoCmd → readsNull undoCmd act.seq = false := by
  have hseq : act.cmdFn = .cmdInsert ∨ act.cmdFn = .cmdBackspace → act.seq ≠ none := by
    rintro (hfn | hfn)
    · obtain ⟨-, ds, -, hseq⟩ := h.insert hfn
      exact hseq ▸ Option.some_ne_none _
    · exact Option.isSome_iff_ne_none.mp (h.backspace hfn).2
  obtain ⟨c, hc⟩ := h.cmdFn
  rw [hc] at hseq ⊢
  constructor
  · rw [readsNull_eq_false_iff]
    cases c <;> simp_all [EditingCmd.fn]
  · intro undoCmd hcomp
    rw [readsNull_eq_false_iff]
    cases c <;> cases hcomp <;> simp [EditingCmd.fn] at hseq ⊢ <;> exact hseq

lemma followsNull_eq_false {s : Editor} (hs : HistoryOk s) {event : InputEvent}
    (hk : KeyEvent event) : followsNull s event = false := by
  obtain ⟨huninsert, -, hinsert, -⟩ := hk
  rw [followsNull]
  split
  · cases hstack : s.undoStack with
    | nil => rfl
    | cons top u =>
      cases top with
      | none => rfl
      | some act =>
        obtain ⟨-, hcomp⟩ := readsNull_of_ok (hs.undo act (by simp [hstack]))
        simp only [popAction]
        cases hundo : getCompCmd act.cmdFn with
        | none => rfl
        | some undoCmd => simp [hcomp undoCmd hundo]
  · cases hstack : s.redoStack with
    | nil => rfl
    | cons top r =>
      obtain ⟨act, rfl, hact⟩ := hs.redo top (by simp [hstack])
      simp [popAction, readsNull_of_ok hact]
  · rw [readsNull_eq_false_iff]
    rintro (hfn | hfn)
    · obtain ⟨ds, -, hseq⟩ := hinsert hfn
      exact hseq ▸ Option.some_ne_none _
    · exact absurd hfn huninsert

section Runs

variable [CLib] {s : Editor} {events : Events} {q : Queues}

/-- The queues in memory, as copies of the events, and the editor after the events in the
history. -/
def Refines (malloc : Malloc) (s : Editor) (events : Events) (q : Queues) : Prop :=
  ∃ input history done updated, q.Holds input history ∧
    List.Forall₂ (Copied malloc) events.waiting (values q.memory.strings input) ∧
    List.Forall₂ (Copied malloc) events.handled done ∧
    List.Forall₂ (Copied malloc) done (values q.memory.strings history) ∧
    handleEvents s done = .ok (q.editor, updated)

/-- There is no memory for an event, or one that is to be processed stops the program. -/
def Stops (malloc : Malloc) (s : Editor) (handled : List QueuedEvent) (stop : Stop) : Prop :=
  stop = .exit ∧ NoMemory malloc ∨ ∃ done, List.Forall₂ (Copied malloc) handled done ∧
    handleEvents s done = .error stop

lemma Stops.append {handled : List QueuedEvent} {stop : Stop} (h : Stops malloc s handled stop)
    (more : List QueuedEvent) : Stops malloc s (handled ++ more) stop := by
  refine h.imp_right fun ⟨done, hdone, hstop⟩ => ⟨done ++ more, ?_, ?_⟩
  · exact List.rel_append hdone (List.forall₂_same.mpr fun event _ => .refl event)
  · rw [handleEvents_append, hstop]
    rfl

lemma Refines.start (malloc : Malloc) (s : Editor) : Refines malloc s ⟨[], []⟩ (start s) :=
  ⟨[], [], [], false, ⟨⟨rfl, owns_empty, owns_empty⟩, rfl⟩, .nil, .nil, .nil, rfl⟩

lemma Refines.enqueueEvent (h : Refines malloc s events q) (event : QueuedEvent) :
    call malloc q (.enqueueEvent event) = .error .exit ∧ NoMemory malloc ∨
      ∃ q', call malloc q (.enqueueEvent event) = .ok q' ∧
        Refines malloc s (events.call (.enqueueEvent event)) q' := by
  obtain ⟨input, history, done, updated, ⟨hinput, hhistory⟩, hwaiting, hhandled, hdone,
    heditor⟩ := h
  rw [EventQueue.call]
  rcases hinput.enqueueEvent malloc event with
    ⟨hexit, hnone⟩ | ⟨m, queue, nodes, copy, hok, hm, hframe, hcopy, hvalues⟩
  · rw [hexit]
    exact .inl ⟨rfl, hnone⟩
  · right
    rw [hok]
    refine ⟨_, rfl, nodes, history, done, updated, ⟨hm, hhistory.congr hframe.events⟩, ?_,
      hhandled, ?_, heditor⟩
    · dsimp only
      rw [hvalues]
      exact List.rel_append hwaiting (.cons hcopy .nil)
    · dsimp only
      rwa [values_congr hframe.strings]

lemma Refines.processEvents (h : Refines malloc s events q) :
    (∃ stop, call malloc q .processEvents = .error stop ∧
        Stops malloc s (events.call .processEvents).handled stop) ∨
      ∃ q', call malloc q .processEvents = .ok q' ∧
        Refines malloc s (events.call .processEvents) q' := by
  obtain ⟨input, history, done, updated, hholds, hwaiting, hhandled, hdone, heditor⟩ := h
  have hlen : input.length ≤ q.memory.events.size := by
    refine Nat.le_trans ?_ hholds.input.events.length_le_size
    rw [addrs, List.length_map, List.length_append]
    exact Nat.le_add_right _ _
  have hall := List.rel_append hhandled hwaiting
  rw [EventQueue.call, EventQueue.processEvents]
  rcases hholds.rounds malloc hlen with
    ⟨stop, hstop, hwhy⟩ | ⟨q', updated', history', copies, hok, hq', hhistory, hcopies, heditor'⟩
  · rw [hstop]
    refine .inl ⟨stop, rfl, hwhy.imp_right fun hhandle => ⟨_, hall, ?_⟩⟩
    rw [handleEvents_append, heditor, ok_bind]
    dsimp only
    rw [hhandle]
    rfl
  · right
    rw [hok]
    refine ⟨q', rfl, [], history', _, updated || updated', hq', .nil, hall, ?_, ?_⟩
    · rw [hhistory]
      exact List.rel_append hdone hcopies
    · rw [handleEvents_append, heditor, ok_bind]
      dsimp only
      rw [heditor']
      rfl

lemma Refines.run (h : Refines malloc s events q) (calls : List Call) :
    (∃ stop, EventQueue.run malloc q calls = .error stop ∧
        Stops malloc s (calls.foldl Events.call events).handled stop) ∨
      ∃ q', EventQueue.run malloc q calls = .ok q' ∧
        Refines malloc s (calls.foldl Events.call events) q' := by
  induction calls generalizing q events with
  | nil => exact .inr ⟨q, rfl, h⟩
  | cons c calls ih =>
    rw [EventQueue.run, List.foldl_cons]
    have hcall : (∃ stop, EventQueue.call malloc q c = .error stop ∧
          Stops malloc s (events.call c).handled stop) ∨
        ∃ q', EventQueue.call malloc q c = .ok q' ∧ Refines malloc s (events.call c) q' := by
      cases c with
      | enqueueEvent event =>
        exact (h.enqueueEvent event).imp_left fun ⟨hexit, hnone⟩ =>
          ⟨.exit, hexit, .inl ⟨rfl, hnone⟩⟩
      | processEvents => exact h.processEvents
    rcases hcall with ⟨stop, hstop, hwhy⟩ | ⟨q', hok, hq'⟩
    · left
      obtain ⟨more, hmore⟩ := (events.call c).exists_append calls
      rw [hstop, hmore]
      exact ⟨stop, rfl, hwhy.append more⟩
    · rw [hok, ok_bind]
      exact ih hq'

lemma Refines.input_eq_none_iff (h : Refines malloc s events q) :
    q.input = none ↔ events.waiting = [] := by
  obtain ⟨input, history, done, updated, hholds, hwaiting, -⟩ := h
  rw [hholds.input.chain.eq_none_iff, ← List.length_eq_zero_iff, ← List.length_eq_zero_iff,
    hwaiting.length_eq, values, List.length_map]

/-! ### Commands as values -/

lemma callCmd_of_readsNull {event : InputEvent} (h : readsNull event.cmdFn event.seq = true) :
    callCmd s event = none := by
  obtain ⟨cmdFn, seq⟩ := event
  simp only [readsNull, Bool.and_eq_true, Bool.or_eq_true, beq_iff_eq,
    Option.isNone_iff_eq_none] at h
  obtain ⟨rfl | rfl, rfl⟩ := h
  · rfl
  · rfl

lemma applyCmd_of_readsNull {event : InputEvent} {cnt : ℕ} (hcnt : cnt ≠ 0)
    (h : readsNull event.cmdFn event.seq = true) : applyCmd event cnt s = none := by
  obtain ⟨n, rfl⟩ := Nat.exists_eq_succ_of_ne_zero hcnt
  rw [applyCmd, callCmd_of_readsNull h]
  rfl

/-- A command that follows `NULL` has no result. -/
lemma processEvent_of_followsNull {event : InputEvent} (h : followsNull s event = true) :
    processEvent s event = none := by
  rw [processEvent]
  by_cases hundo : event.cmdFn = .cmdUndo
  · rw [if_pos hundo, cmdUndo]
    rw [followsNull, hundo] at h
    dsimp only at h
    cases hstack : s.undoStack with
    | nil =>
      rw [hstack] at h
      cases h
    | cons top u =>
      rw [hstack] at h
      cases top with
      | none => cases h
      | some act =>
        simp only [popAction] at h ⊢
        cases hcomp : getCompCmd act.cmdFn with
        | none =>
          rw [hcomp] at h
          cases h
        | some undoCmd =>
          simp only [hcomp, Bool.and_eq_true, bne_iff_ne] at h
          rw [if_neg (List.cons_ne_nil _ _)]
          dsimp only
          rw [@applyCmd_of_readsNull _ _ ⟨undoCmd, act.seq⟩ _ h.1 h.2]
          rfl
  · by_cases hredo : event.cmdFn = .cmdRedo
    · rw [if_neg hundo, if_pos hredo, cmdRedo]
      rw [followsNull, hredo] at h
      dsimp only at h
      cases hstack : s.redoStack with
      | nil =>
        rw [hstack] at h
        cases h
      | cons top r =>
        rw [hstack] at h
        cases top with
        | none => cases h
        | some act =>
          simp only [popAction, Bool.and_eq_true, bne_iff_ne] at h ⊢
          rw [if_neg (List.cons_ne_nil _ _),
            @applyCmd_of_readsNull _ _ ⟨act.cmdFn, act.seq⟩ _ h.1 h.2]
          rfl
    · have hnull : readsNull event.cmdFn event.seq = true := by
        rw [followsNull] at h
        split at h
        · exact absurd ‹_› hundo
        · exact absurd ‹_› hredo
        · exact h
      rw [if_neg hundo, if_neg hredo, callCmd_of_readsNull hnull]
      rfl

lemma handleEvent_queued (s : Editor) (event : InputEvent) :
    (handleEvent s (queued event)).toOption = processEvent s event := by
  have hevent : handleEvent s (queued event) =
      if followsNull s event then .error .outOfBounds
      else orStop (processEvent s event) .exit := rfl
  rw [hevent]
  split_ifs with hnull
  · rw [processEvent_of_followsNull hnull]
    rfl
  · cases processEvent s event with
    | none => rfl
    | some r => rfl

lemma handleEvents_queued (s : Editor) (events : List InputEvent) :
    (handleEvents s (events.map queued)).toOption = Term.processEvents s events := by
  induction events generalizing s with
  | nil => rfl
  | cons event events ih =>
    rw [List.map_cons, handleEvents, Term.processEvents, ← handleEvent_queued]
    cases handleEvent s (queued event) with
    | error stop => rfl
    | ok r =>
      have hrest := ih r.1
      rw [ok_bind]
      dsimp only [Except.toOption, Option.bind_eq_bind, Option.bind_some]
      rw [← hrest]
      cases handleEvents r.1 (events.map queued) with
      | error stop => rfl
      | ok r' => rfl

/-! ### Events of keys -/

/-- The events of keys do not make a command follow `NULL`. -/
lemma handleEvent_of_expected (hs : HistoryOk s) {event : QueuedEvent} (he : event.Expected) :
    handleEvent s event ≠ .error .outOfBounds ∧
      ∀ s' updated, handleEvent s event = .ok (s', updated) → HistoryOk s' := by
  have hpush (msg : CStr) : HistoryOk (pushMessage s msg) := ⟨hs.undo, hs.redo⟩
  rcases he with hnone | ⟨event, hk, rfl⟩
  · obtain ⟨type, cmdFn, seq⟩ := event
    obtain rfl : cmdFn = none := hnone
    cases type with
    | dbg =>
      cases seq with
      | none =>
        refine ⟨(fun h => nomatch h), fun s' updated h => ?_⟩
        cases h
        exact hs
      | some seq =>
        simp only [handleEvent, dbgLogMsg_eq_snprintf, ok_bind]
        refine ⟨(fun h => nomatch h), fun s' updated h => ?_⟩
        cases h
        exact hpush _
    | cmd =>
      refine ⟨(fun h => nomatch h), fun s' updated h => ?_⟩
      cases h
      exact hpush _
  · simp only [handleEvent, followsNull_eq_false hs hk]
    cases hevent : processEvent s event with
    | none => exact ⟨(fun h => nomatch h), fun s' updated h => nomatch h⟩
    | some r =>
      refine ⟨(fun h => nomatch h), fun s' updated h => ?_⟩
      cases h
      exact (moved_of_processEvent hs hk hevent).historyOk hs hk

lemma handleEvents_of_expected (hs : HistoryOk s) {events : List QueuedEvent}
    (he : ∀ event ∈ events, event.Expected) : handleEvents s events ≠ .error .outOfBounds := by
  induction events generalizing s with
  | nil => exact fun h => nomatch h
  | cons event events ih =>
    obtain ⟨hevent, hevents⟩ := List.forall_mem_cons.mp he
    obtain ⟨hne, hnext⟩ := handleEvent_of_expected hs hevent
    rw [handleEvents]
    cases hhandle : handleEvent s event with
    | error stop => exact fun h => hne (hhandle.trans h)
    | ok r =>
      have hrest := ih (hnext r.1 r.2 hhandle) hevents
      rw [ok_bind]
      dsimp only
      cases hhandle' : handleEvents r.1 events with
      | error stop => exact fun h => hrest (hhandle'.trans h)
      | ok r' => exact fun h => nomatch h

/-- Whatever is put in the queue and whenever it is processed, no string and no event is read or
freed that is not there. Each event goes through the queue once and in order, the memory holds those
that wait and those in the history and nothing else, and the editor is as after the events in the
history. Only a failed allocation makes a copy differ from its event: without one, the events of
keys never make a command follow `NULL`. -/
theorem processEvents_in_memory (malloc : Malloc) (s : Editor) (calls : List Call) :
    ((∃ stop, run malloc (start s) calls = .error stop ∧
        Stops malloc s (Events.run calls).handled stop) ∨
      ∃ q, run malloc (start s) calls = .ok q ∧ Refines malloc s (Events.run calls) q ∧
        (q.input = none ↔ (Events.run calls).waiting = [])) ∧
    (malloc.Total →
      (run malloc (start s) calls).map Queues.editor =
        (handleEvents s (Events.run calls).handled).map Prod.fst ∧
      ∀ events, (Events.run calls).handled = events.map queued →
        ((run malloc (start s) calls).map Queues.editor).toOption =
          (Term.processEvents s events).map Prod.fst) ∧
    (Initial s → (∀ event, .enqueueEvent event ∈ calls → event.Expected) →
      run malloc (start s) calls = .error .outOfBounds →
        ∃ n strings, malloc.strings.alloc n strings = none) := by
  have hrun := (Refines.start malloc s).run calls
  have htotal : malloc.Total → (run malloc (start s) calls).map Queues.editor =
      (handleEvents s (Events.run calls).handled).map Prod.fst := by
    intro htotal
    rcases hrun with ⟨stop, hstop, ⟨-, hnone⟩ | ⟨done, hdone, hhandle⟩⟩ | ⟨q, hok, hq⟩
    · obtain ⟨calls, events, hnone⟩ := hnone
      exact absurd hnone (htotal.events calls events)
    · rw [hstop, Events.run, ← eq_of_copied htotal.strings hdone, hhandle]
      rfl
    · obtain ⟨input, history, done, updated, -, -, hhandled, -, heditor⟩ := hq
      rw [hok, Events.run, ← eq_of_copied htotal.strings hhandled, heditor]
      rfl
  refine ⟨?_, fun h => ⟨htotal h, fun events hevents => ?_⟩, ?_⟩
  · exact hrun.imp_right fun ⟨q, hok, hq⟩ => ⟨q, hok, hq, hq.input_eq_none_iff⟩
  · rw [htotal h, hevents, ← handleEvents_queued]
    cases handleEvents s (events.map queued) with
    | error stop => rfl
    | ok r => rfl
  · intro hs hkeys hstop
    by_contra hnone
    push Not at hnone
    rcases hrun with ⟨stop, hstop', ⟨rfl, -⟩ | ⟨done, hdone, hhandle⟩⟩ | ⟨q, hok, -⟩
    · cases hstop'.symm.trans hstop
    · obtain rfl := Except.error.inj (hstop'.symm.trans hstop)
      obtain rfl := eq_of_copied hnone hdone
      refine handleEvents_of_expected hs.historyOk (fun event hevent => ?_) hhandle
      have hmem := mem_of_mem_foldl_call ⟨[], []⟩ calls (List.mem_append_left _ hevent)
      exact hkeys event (hmem.resolve_left List.not_mem_nil)
    · cases hok.symm.trans hstop

end Runs

/-- A letter is put in the queue and processed. -/
theorem processEvents_in_memory_letter :
    ∃ s, (run ⟨.above EventNode, .above CStr⟩ (start Term.start)
        [.enqueueEvent (queued ⟨.cmdInsert, some [0x6B]⟩), .processEvents]).map Queues.editor =
      .ok s ∧ s.curr.text = [0x6B] := by
  have htotal : Malloc.Total ⟨.above EventNode, .above CStr⟩ :=
    ⟨fun _ _ => Option.some_ne_none _, fun _ _ => Option.some_ne_none _⟩
  have heditor := ((processEvents_in_memory ⟨.above EventNode, .above CStr⟩ Term.start
    [.enqueueEvent (queued ⟨.cmdInsert, some [0x6B]⟩), .processEvents]).2.1 htotal).2
    [⟨.cmdInsert, some [0x6B]⟩] rfl
  have htext : (Term.processEvents Term.start [⟨.cmdInsert, some [0x6B]⟩]).map
      (fun r => r.1.curr.text) = some [0x6B] := by
    decide
  obtain ⟨⟨s, updated⟩, hs, htext⟩ := Option.map_eq_some_iff.mp htext
  rw [hs] at heditor
  cases hrun : (run ⟨.above EventNode, .above CStr⟩ (start Term.start)
      [.enqueueEvent (queued ⟨.cmdInsert, some [0x6B]⟩), .processEvents]).map Queues.editor with
  | error stop =>
    rw [hrun] at heditor
    cases heditor
  | ok s' =>
    rw [hrun] at heditor
    obtain rfl : s' = s := Option.some.inj heditor
    exact ⟨s', rfl, htext⟩

end EventQueue

end Vjft.Term
