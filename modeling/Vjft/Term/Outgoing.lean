import Vjft.Lib.Linked
import Vjft.Memory
import Vjft.Term.Event.Commands

/-!
# The outgoing queue (`term/main.c`)

A message that is sent waits in a linked list with a head and a tail. When the socket can be written
to, the main loop takes one message after another out of the list and calls `send` until all of it
is accepted. Allocations may fail, `send` may accept any part of what it is given, and it may fail.
-/

namespace Vjft.Term

open Linked

structure MessageNode where
  message : CStr
  next : Option ℕ
  deriving DecidableEq

/-- `message_queue_t` and the nodes in memory. -/
structure MessageQueue where
  heap : Heap MessageNode
  head : Option ℕ
  tail : Option ℕ

namespace MessageQueue

def initQueue : MessageQueue := ⟨∅, none, none⟩

/-- `node` is what `malloc` gives, and `copied` is false when `strdup` gives `NULL`. -/
def enqueue (queue : MessageQueue) (msg : CStr) (node : Option ℕ) (copied : Bool) :
    Except Stop (MessageQueue × Bool) :=
  match node with
  | none => .ok (queue, false)
  | some node =>
    if copied then
      let heap := queue.heap.insert node ⟨msg, none⟩
      match queue.tail with
      | some tail => do
        let last ← orStop heap[tail]? .outOfBounds
        pure (⟨heap.insert tail { last with next := some node }, queue.head, some node⟩, true)
      | none => .ok (⟨heap, some node, some node⟩, true)
    else .ok (queue, false)

/-- The message and the rest of the queue, if there is one. -/
def dequeue (queue : MessageQueue) : Except Stop (Option (CStr × MessageQueue)) :=
  match queue.head with
  | none => .ok none
  | some address => do
    let node ← orStop queue.heap[address]? .outOfBounds
    let tail := if node.next = none then none else queue.tail
    pure (some (node.message, ⟨queue.heap.erase address, node.next, tail⟩))

/-- The messages in the queue, from the head on; the tail is the last node. -/
def Holds (queue : MessageQueue) (msgs : List CStr) : Prop :=
  ∃ nodes, Chain MessageNode.next queue.heap queue.head nodes none ∧
    queue.tail = (addrs nodes).getLast? ∧ nodes.map (·.2.message) = msgs

lemma holds_initQueue : initQueue.Holds [] := ⟨[], rfl, rfl, rfl⟩

variable {queue : MessageQueue} {msgs : List CStr}

lemma Holds.head_eq_none_iff (h : queue.Holds msgs) : queue.head = none ↔ queue.tail = none := by
  obtain ⟨nodes, hchain, htail, -⟩ := h
  rw [hchain.eq_none_iff, htail, List.getLast?_eq_none_iff, addrs, List.map_eq_nil_iff]

/-- A message goes to the end of the queue. -/
lemma Holds.enqueue (h : queue.Holds msgs) {node : ℕ} (hnew : queue.heap[node]? = none)
    (msg : CStr) :
    ∃ queue', queue.enqueue msg (some node) true = .ok (queue', true) ∧
      queue'.Holds (msgs ++ [msg]) := by
  obtain ⟨nodes, hchain, htail, rfl⟩ := h
  rcases List.eq_nil_or_concat' nodes with rfl | ⟨before, ⟨tail, last⟩, rfl⟩
  · refine ⟨⟨queue.heap.insert node ⟨msg, none⟩, some node, some node⟩, ?_, [(node, ⟨msg, none⟩)],
      hchain.cons hnew ?_, rfl, rfl⟩
    · have htail' : queue.tail = none := htail
      simp [MessageQueue.enqueue, htail']
    · exact hchain.symm
  · have htail' : queue.tail = some tail := by simpa [addrs] using htail
    have hlast : queue.heap[tail]? = some last := hchain.getElem?_of_mem (by simp)
    have hne : tail ≠ node := by
      rintro rfl
      rw [hlast] at hnew
      cases hnew
    have hread : (queue.heap.insert node ⟨msg, none⟩)[tail]? = some last := by
      rw [Heap.getElem?_insert_of_ne _ hne, hlast]
    refine ⟨⟨(queue.heap.insert node ⟨msg, none⟩).insert tail { last with next := some node },
      queue.head, some node⟩, ?_, _, hchain.snoc hnew rfl rfl, ?_, ?_⟩
    · simp only [MessageQueue.enqueue, htail', if_true]
      rw [hread]
      rfl
    · simp [addrs]
    · simp

lemma Holds.dequeue_nil (h : queue.Holds []) : queue.dequeue = .ok none := by
  obtain ⟨nodes, hchain, -, hnil⟩ := h
  have hhead : queue.head = none := hchain.eq_none_iff.2 (List.map_eq_nil_iff.1 hnil)
  rw [dequeue, hhead]

/-- The first message is taken out. -/
lemma Holds.dequeue_cons {msg : CStr} (h : queue.Holds (msg :: msgs)) :
    ∃ queue', queue.dequeue = .ok (some (msg, queue')) ∧ queue'.Holds msgs := by
  obtain ⟨nodes, hchain, htail, hmsgs⟩ := h
  obtain ⟨⟨address, node⟩, rest, rfl, rfl, rfl⟩ := List.map_eq_cons_iff.1 hmsgs
  have hhead : queue.head = some address := hchain.1
  have hrest := hchain.tail
  refine ⟨⟨queue.heap.erase address, node.next, if node.next = none then none else queue.tail⟩, ?_,
    rest, hrest, ?_, rfl⟩
  · rw [dequeue, hhead]
    dsimp only
    rw [hchain.2.1]
    rfl
  · dsimp only
    split_ifs with hnone
    · rw [hrest.eq_none_iff.1 hnone]
      rfl
    · have hne : addrs rest ≠ [] := by
        intro hnil
        exact hnone (hrest.eq_none_iff.2 (List.map_eq_nil_iff.1 hnil))
      rw [htail]
      exact List.getLast?_cons_of_ne_nil hne

lemma size_heap_of_dequeue {queue' : MessageQueue} {msg : CStr}
    (h : queue.dequeue = .ok (some (msg, queue'))) : queue'.heap.size < queue.heap.size := by
  rw [dequeue] at h
  split at h
  · cases h
  · rw [bind_eq_ok_iff] at h
    obtain ⟨node, hnode, h⟩ := h
    cases h
    exact queue.heap.size_erase_lt (orStop_eq_ok_iff.1 hnode)

end MessageQueue

/-! ### Sending -/

/-- A call of `send` and its result, where `none` is `-1`. -/
structure Send where
  data : Bytes
  sent : Option ℕ

/-- The socket: what `send` returns after the calls so far. If it does not fail, it accepts some of
the bytes. -/
structure Socket where
  send : List Send → Bytes → Option ℕ
  bounds : ∀ sends data n, send sends data = some n → 1 ≤ n ∧ n ≤ data.length

/-- The bytes that the socket has accepted. -/
def accepted (sends : List Send) : Bytes :=
  sends.flatMap fun call => call.data.take (call.sent.getD 0)

/-- The inner loop over the parts of a message. The result tells whether `send` has failed. -/
def sendMessage (socket : Socket) (msg : CStr) (totalSent : ℕ) (sends : List Send) :
    List Send × Bool :=
  if _h : totalSent < msg.length then
    let data := msg.drop totalSent
    match _hsent : socket.send sends data with
    | none => (sends ++ [⟨data, none⟩], true)
    | some sent => sendMessage socket msg (totalSent + sent) (sends ++ [⟨data, some sent⟩])
  else (sends, false)
termination_by msg.length - totalSent
decreasing_by
  have hbounds := socket.bounds _ _ _ _hsent
  omega

/-- The variables of the main loop, with the messages that were put into the queue and taken out of
it. -/
structure MainLoop where
  outgoingQueue : MessageQueue
  terminate : Bool
  sends : List Send
  enqueued : List CStr
  dequeued : List CStr

namespace MainLoop

def start : MainLoop := ⟨.initQueue, false, [], [], []⟩

def clientSend (s : MainLoop) (data : CStr) (node : Option ℕ) (copied : Bool) :
    Except Stop MainLoop := do
  let (queue, queued) ← s.outgoingQueue.enqueue data node copied
  pure { s with
    outgoingQueue := queue
    enqueued := if queued then s.enqueued ++ [data] else s.enqueued }

/-- The loop that runs when the socket can be written to. -/
def sendQueued (socket : Socket) (s : MainLoop) : Except Stop MainLoop :=
  match _h : s.outgoingQueue.dequeue with
  | .error stop => .error stop
  | .ok none => .ok s
  | .ok (some (msg, queue)) =>
    let result := sendMessage socket msg 0 s.sends
    let s' : MainLoop := { s with
      outgoingQueue := queue
      terminate := s.terminate || result.2
      sends := result.1
      dequeued := s.dequeued ++ [msg] }
    if s'.terminate then .ok s' else sendQueued socket s'
termination_by s.outgoingQueue.heap.size
decreasing_by exact MessageQueue.size_heap_of_dequeue _h

/-- What happens in the main loop. A message comes with the results of the allocations. -/
inductive QueueEvent
  | clientSend (data : CStr) (node : Option ℕ) (copied : Bool)
  | keyb (terminate : Bool)
  | writable

def handle (socket : Socket) (s : MainLoop) : QueueEvent → Except Stop MainLoop
  | .clientSend data node copied => s.clientSend data node copied
  | .keyb terminate => .ok { s with terminate }
  | .writable => s.sendQueued socket

/-- `send` has returned `-1`. -/
def SendFailed (s : MainLoop) : Prop := ∃ call ∈ s.sends, call.sent = none

/-- `malloc` gives an address that is not in use. -/
def CanHappen (s : MainLoop) : QueueEvent → Prop
  | .clientSend _ node _ => ¬ s.SendFailed ∧ ∀ a ∈ node, s.outgoingQueue.heap[a]? = none
  | .keyb _ | .writable => ¬ s.SendFailed

/-- The states of the main loop up to the one after the first error of `send`. -/
inductive Reachable (socket : Socket) : MainLoop → Prop
  | start : Reachable socket start
  | step {s s' : MainLoop} {e : QueueEvent} (h : Reachable socket s) (hcan : s.CanHappen e)
      (hhandle : s.handle socket e = .ok s') : Reachable socket s'

end MainLoop

/-! ### The bytes of a message -/

@[simp] lemma accepted_append (sends sends' : List Send) :
    accepted (sends ++ sends') = accepted sends ++ accepted sends' := List.flatMap_append

lemma accepted_singleton (call : Send) : accepted [call] = call.data.take (call.sent.getD 0) :=
  List.flatMap_singleton ..

/-- The rest of the message is accepted, or a part of it when `send` fails. -/
lemma sendMessage_spec (socket : Socket) (msg : CStr) (totalSent : ℕ) (sends : List Send) :
    ((sendMessage socket msg totalSent sends).2 = false ∧
      accepted (sendMessage socket msg totalSent sends).1 =
        accepted sends ++ msg.drop totalSent ∧
      ((∃ call ∈ (sendMessage socket msg totalSent sends).1, call.sent = none) ↔
        ∃ call ∈ sends, call.sent = none)) ∨
    ((sendMessage socket msg totalSent sends).2 = true ∧
      (∃ n, accepted (sendMessage socket msg totalSent sends).1 =
        accepted sends ++ (msg.drop totalSent).take n) ∧
      ∃ call ∈ (sendMessage socket msg totalSent sends).1, call.sent = none) := by
  fun_induction sendMessage socket msg totalSent sends with
  | case1 totalSent sends hlt data hnone =>
    right
    refine ⟨rfl, ⟨0, by simp [accepted_singleton]⟩, ⟨data, none⟩, by simp, rfl⟩
  | case2 totalSent sends hlt data sent hsent ih =>
    have hpart : accepted (sends ++ [⟨data, some sent⟩]) = accepted sends ++ data.take sent := by
      rw [accepted_append, accepted_singleton]
      rfl
    have hdrop : data.take sent ++ msg.drop (totalSent + sent) = msg.drop totalSent := by
      rw [← List.drop_drop]
      exact List.take_append_drop sent data
    rw [hpart] at ih
    rcases ih with ⟨hok, haccepted, hfailed⟩ | ⟨hfail, ⟨n, haccepted⟩, hfailed⟩
    · left
      refine ⟨hok, ?_, ?_⟩
      · rw [haccepted, List.append_assoc, hdrop]
      · rw [hfailed]
        simp
    · right
      refine ⟨hfail, ⟨sent + n, ?_⟩, hfailed⟩
      rw [haccepted, List.append_assoc, ← List.drop_drop]
      congr 1
      exact (List.take_add ..).symm
  | case3 totalSent sends hle =>
    left
    refine ⟨rfl, ?_, Iff.rfl⟩
    rw [List.drop_of_length_le (by omega), List.append_nil]

/-! ### The main loop -/

namespace MainLoop

/-- The queue holds the messages that were not taken out, and the socket has accepted the others;
of the last one a part only, if `send` has failed. -/
structure Inv (s : MainLoop) : Prop where
  queue : ∃ queued, s.outgoingQueue.Holds queued ∧ s.enqueued = s.dequeued ++ queued
  sent : ¬ s.SendFailed → accepted s.sends = s.dequeued.flatten
  cut : s.SendFailed → ∃ done msg n, s.dequeued = done ++ [msg] ∧
    accepted s.sends = done.flatten ++ msg.take n

lemma inv_start : start.Inv where
  queue := ⟨[], MessageQueue.holds_initQueue, rfl⟩
  sent := fun _ => rfl
  cut := fun ⟨_, hmem, _⟩ => by cases hmem

variable {s : MainLoop}

lemma Inv.clientSend (h : s.Inv) {data : CStr} {node : Option ℕ} (copied : Bool)
    (hnew : ∀ a ∈ node, s.outgoingQueue.heap[a]? = none) :
    ∃ s', s.clientSend data node copied = .ok s' ∧ s'.Inv := by
  obtain ⟨queued, hholds, henqueued⟩ := h.queue
  cases node with
  | none => exact ⟨s, rfl, h⟩
  | some a =>
    cases copied with
    | false => exact ⟨s, rfl, h⟩
    | true =>
      obtain ⟨queue', henqueue, hholds'⟩ := hholds.enqueue (hnew a rfl) data
      refine ⟨{ s with outgoingQueue := queue', enqueued := s.enqueued ++ [data] }, ?_, ?_⟩
      · rw [MainLoop.clientSend, henqueue]
        rfl
      · refine ⟨⟨queued ++ [data], hholds', ?_⟩, h.sent, h.cut⟩
        rw [henqueued, List.append_assoc]

/-- What sending one more message does. -/
lemma Inv.sendMessage (h : s.Inv) (hfailed : ¬ s.SendFailed) (socket : Socket) {msg : CStr}
    {msgs : List CStr} {queue' : MessageQueue} (hholds : queue'.Holds msgs)
    (henqueued : s.enqueued = s.dequeued ++ msg :: msgs) :
    Inv { s with
      outgoingQueue := queue'
      terminate := s.terminate || (sendMessage socket msg 0 s.sends).2
      sends := (sendMessage socket msg 0 s.sends).1
      dequeued := s.dequeued ++ [msg] } ∧
    ((sendMessage socket msg 0 s.sends).2 = false →
      ¬ ∃ call ∈ (sendMessage socket msg 0 s.sends).1, call.sent = none) := by
  have hqueue : s.enqueued = s.dequeued ++ [msg] ++ msgs := by simpa using henqueued
  rcases sendMessage_spec socket msg 0 s.sends with ⟨hok, hsent, hiff⟩ | ⟨hfail, ⟨n, hsent⟩, hiff⟩
  · have hnot := fun hcall => hfailed (hiff.1 hcall)
    refine ⟨⟨⟨msgs, hholds, hqueue⟩, ?_, fun hcall => (hnot hcall).elim⟩, fun _ => hnot⟩
    intro _
    simp [hsent, h.sent hfailed]
  · refine ⟨⟨⟨msgs, hholds, hqueue⟩, fun hcall => (hcall hiff).elim, ?_⟩, ?_⟩
    · intro _
      exact ⟨s.dequeued, msg, n, rfl, by simp [hsent, h.sent hfailed]⟩
    · intro hok
      rw [hfail] at hok
      cases hok

lemma Inv.sendQueued (h : s.Inv) (hfailed : ¬ s.SendFailed) (socket : Socket) :
    ∃ s', s.sendQueued socket = .ok s' ∧ s'.Inv := by
  obtain ⟨queued, hholds, henqueued⟩ := h.queue
  induction queued generalizing s with
  | nil =>
    refine ⟨s, ?_, h⟩
    rw [MainLoop.sendQueued]
    split
    · simp_all [hholds.dequeue_nil]
    · rfl
    · simp_all [hholds.dequeue_nil]
  | cons msg msgs ih =>
    obtain ⟨queue', hdequeue, hholds'⟩ := hholds.dequeue_cons
    obtain ⟨hinv, hnot⟩ := h.sendMessage hfailed socket hholds' henqueued
    rw [MainLoop.sendQueued]
    split
    · simp_all
    · simp_all
    · next msg'' queue'' hdequeue'' =>
      rw [hdequeue] at hdequeue''
      cases hdequeue''
      dsimp only
      split_ifs with hterminate
      · exact ⟨_, rfl, hinv⟩
      · rw [Bool.or_eq_true, not_or] at hterminate
        apply ih hinv (hnot (by simpa using hterminate.2)) hholds'
        simpa using henqueued

lemma Inv.handle (h : s.Inv) (socket : Socket) {e : QueueEvent} (hcan : s.CanHappen e) :
    ∃ s', s.handle socket e = .ok s' ∧ s'.Inv := by
  cases e with
  | clientSend data node copied => exact h.clientSend copied hcan.2
  | keyb terminate => exact ⟨_, rfl, h.queue, h.sent, h.cut⟩
  | writable => exact h.sendQueued hcan socket

lemma Reachable.inv {socket : Socket} (h : Reachable socket s) : s.Inv := by
  induction h with
  | start => exact inv_start
  | step _ hcan hhandle ih =>
    obtain ⟨s', hs', hinv⟩ := ih.handle socket hcan
    rw [hs'] at hhandle
    cases hhandle
    exact hinv

/-- The bytes that the socket has accepted are the first ones of the messages that were queued, in
their order, and as long as `send` has not failed they are those of all messages that were taken
out. The queue holds the other messages; its head is `NULL` exactly when its tail is, and the tail
is the last node. No event uses a pointer that leads nowhere. -/
theorem outgoing_in_order {socket : Socket} (h : Reachable socket s) :
    accepted s.sends <+: s.enqueued.flatten ∧
    (¬ s.SendFailed → accepted s.sends = s.dequeued.flatten) ∧
    (∃ queued, s.outgoingQueue.Holds queued ∧ s.enqueued = s.dequeued ++ queued) ∧
    (s.outgoingQueue.head = none ↔ s.outgoingQueue.tail = none) ∧
    ∀ e, s.CanHappen e → ∃ s', s.handle socket e = .ok s' := by
  obtain ⟨queued, hholds, henqueued⟩ := h.inv.queue
  refine ⟨?_, h.inv.sent, ⟨queued, hholds, henqueued⟩, hholds.head_eq_none_iff, ?_⟩
  · rw [henqueued, List.flatten_append]
    apply List.IsPrefix.trans _ (List.prefix_append _ _)
    by_cases hfailed : s.SendFailed
    · obtain ⟨done, msg, n, hdequeued, haccepted⟩ := h.inv.cut hfailed
      rw [haccepted, hdequeued, List.flatten_append, List.flatten_singleton]
      exact (List.prefix_append_right_inj _).2 (List.take_prefix n msg)
    · exact ⟨[], by rw [List.append_nil, h.inv.sent hfailed]⟩
  · intro e hcan
    obtain ⟨s', hs', -⟩ := h.inv.handle socket hcan
    exact ⟨s', hs'⟩

/-- A socket that accepts one byte at a time. -/
def oneByteSocket : Socket where
  send _ data := if data = [] then none else some 1
  bounds := by
    intro sends data n h
    split_ifs at h with hnil
    cases h
    exact ⟨le_rfl, List.length_pos_iff.2 hnil⟩

lemma sendMessage_hi : sendMessage oneByteSocket [0x48, 0x69] 0 []
    = ([⟨[0x48, 0x69], some 1⟩, ⟨[0x69], some 1⟩], false) := by
  simp [sendMessage, oneByteSocket]

/-- The main loop after `Hi` was put into the queue. -/
def queuedHi : MainLoop :=
  { start with
    outgoingQueue := ⟨(∅ : Heap MessageNode).insert 0 ⟨[0x48, 0x69], none⟩, some 0, some 0⟩
    enqueued := [[0x48, 0x69]] }

/-- The main loop after `Hi` was sent. -/
def sentHi : MainLoop :=
  { queuedHi with
    outgoingQueue := ⟨queuedHi.outgoingQueue.heap.erase 0, none, none⟩
    sends := [⟨[0x48, 0x69], some 1⟩, ⟨[0x69], some 1⟩]
    dequeued := [[0x48, 0x69]] }

lemma sendQueued_hi : queuedHi.sendQueued oneByteSocket = .ok sentHi := by
  have hdequeue : queuedHi.outgoingQueue.dequeue
      = .ok (some ([0x48, 0x69], sentHi.outgoingQueue)) := rfl
  have hempty : sentHi.outgoingQueue.dequeue = .ok none := rfl
  have hsend : sendMessage oneByteSocket [0x48, 0x69] 0 queuedHi.sends = _ := sendMessage_hi
  rw [sendQueued]
  split
  · simp_all
  · simp_all
  · next msg queue h =>
    rw [hdequeue] at h
    cases h
    rw [hsend]
    dsimp only
    rw [if_neg (by decide), sendQueued]
    split
    · simp_all
    · rfl
    · simp_all

lemma reachable_queuedHi : Reachable oneByteSocket queuedHi :=
  Reachable.start.step (e := .clientSend [0x48, 0x69] (some 0) true)
    ⟨(fun ⟨_, hmem, _⟩ => by cases hmem), fun _ _ => rfl⟩ rfl

lemma reachable_sentHi : Reachable oneByteSocket sentHi :=
  reachable_queuedHi.step (e := .writable) (fun ⟨_, hmem, _⟩ => by cases hmem) sendQueued_hi

theorem outgoing_in_order_hi :
    accepted sentHi.sends = [0x48, 0x69] ∧
      (sentHi.outgoingQueue.head = none ↔ sentHi.outgoingQueue.tail = none) := by
  obtain ⟨-, hsent, -, hhead, -⟩ := outgoing_in_order reachable_sentHi
  refine ⟨hsent ?_, hhead⟩
  rintro ⟨call, hmem, hnone⟩
  simp only [sentHi, List.mem_cons, List.not_mem_nil, or_false] at hmem
  rcases hmem with rfl | rfl
  · cases hnone
  · cases hnone

end MainLoop

end Vjft.Term
