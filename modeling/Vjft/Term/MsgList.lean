import Vjft.Lib.Linked
import Vjft.Memory
import Vjft.Term.Event.Basic

/-!
# The list of messages in memory (`term/msg.c`)

The messages are in a doubly linked list. A new one goes in front of the head, so the node that was
pushed first stays the tail.
-/

namespace Vjft.Term

open Linked

/-- `MsgNode` with its links. -/
structure ListNode extends MsgNode where
  prev : Option ℕ
  next : Option ℕ

/-- `MsgList` and the nodes in memory. -/
structure MsgList where
  heap : Heap ListNode
  head : Option ℕ
  tail : Option ℕ
  curr : Option ℕ
  size : ℤ

namespace MsgList

def initMsgList : MsgList := ⟨∅, none, none, none, 0⟩

/-- The node that `pushMessage` makes. -/
def newNode (text : CStr) (next : Option ℕ) : ListNode := ⟨⟨text, 0, -1⟩, none, next⟩

/-- `node` is what `malloc` gives, and `copied` is false when `strdup` gives `NULL`. -/
def pushMessage (list : MsgList) (text : CStr) (node : Option ℕ) (copied : Bool) :
    Except Stop MsgList :=
  match node with
  | none => .error .exit
  | some node =>
    if copied then do
      let heap := list.heap.insert node (newNode text list.head)
      let (heap, tail) ←
        match list.head with
        | some head => do
          let first ← orStop heap[head]? .outOfBounds
          pure (heap.insert head { first with prev := some node }, list.tail)
        | none => pure (heap, some node)
      let curr := if list.curr = none then some node else list.curr
      pure ⟨heap, some node, tail, curr, list.size + 1⟩
    else .ok list

/-- `list->curr` follows a link, unless the link is `NULL`. -/
def moveBy (link : ListNode → Option ℕ) (list : MsgList) : Except Stop MsgList :=
  match list.curr with
  | none => .ok list
  | some curr => do
    let node ← orStop list.heap[curr]? .outOfBounds
    match link node with
    | some node => pure { list with curr := some node }
    | none => pure list

def moveToNextMessage (list : MsgList) : Except Stop MsgList := list.moveBy ListNode.next

def moveToPreviousMessage (list : MsgList) : Except Stop MsgList := list.moveBy ListNode.prev

/-- The loop of `clearMsgList`. A node is freed with its text, after its link was read. -/
def freeNodes (heap : Heap ListNode) (current : Option ℕ) : Except Stop (Heap ListNode) :=
  match current with
  | none => .ok heap
  | some temp =>
    match _h : heap[temp]? with
    | none => .error .outOfBounds
    | some node => freeNodes (heap.erase temp) node.next
termination_by heap.size
decreasing_by exact heap.size_erase_lt _h

def clearMsgList (list : MsgList) : Except Stop MsgList := do
  let heap ← freeNodes list.heap list.head
  pure ⟨heap, none, none, none, 0⟩

/-- The nodes of the list from the head on, in both directions. -/
structure Holds (list : MsgList) (nodes : List (ℕ × ListNode)) : Prop where
  forward : Chain ListNode.next list.heap list.head nodes none
  backward : Chain ListNode.prev list.heap list.tail nodes.reverse none
  curr : ∀ a ∈ list.curr, a ∈ addrs nodes
  curr_none : list.curr = none ↔ nodes = []
  size : list.size = nodes.length

lemma holds_initMsgList : initMsgList.Holds [] := by
  refine ⟨rfl, rfl, ?_, ?_, rfl⟩
  · intro a ha
    cases ha
  · exact ⟨fun _ => rfl, fun _ => rfl⟩

/-- The nodes after a push: the former head gets a predecessor. -/
def pushNode (node : ℕ) (text : CStr) : List (ℕ × ListNode) → List (ℕ × ListNode)
  | [] => [(node, newNode text none)]
  | (head, first) :: rest =>
    (node, newNode text (some head)) :: (head, { first with prev := some node }) :: rest

@[simp] lemma addrs_pushNode (node : ℕ) (text : CStr) (nodes : List (ℕ × ListNode)) :
    addrs (pushNode node text nodes) = node :: addrs nodes := by
  cases nodes <;> rfl

variable {list : MsgList} {nodes : List (ℕ × ListNode)}

lemma Holds.curr_pushNode (h : list.Holds nodes) (node : ℕ) (text : CStr) :
    (∀ a ∈ (if list.curr = none then some node else list.curr),
      a ∈ addrs (pushNode node text nodes)) ∧
    ((if list.curr = none then some node else list.curr) = none ↔
      pushNode node text nodes = []) := by
  have hne : pushNode node text nodes ≠ [] := by
    cases nodes <;> exact List.cons_ne_nil _ _
  rw [addrs_pushNode]
  by_cases hnone : list.curr = none
  · rw [if_pos hnone]
    refine ⟨?_, iff_of_false (Option.some_ne_none node) hne⟩
    rintro _ ⟨⟩
    exact List.mem_cons_self
  · rw [if_neg hnone]
    exact ⟨fun a ha => List.mem_cons_of_mem _ (h.curr a ha), iff_of_false hnone hne⟩

/-- The first message is the head and the tail. -/
lemma Holds.pushMessage_nil (h : list.Holds []) {node : ℕ} (hnew : list.heap[node]? = none)
    (text : CStr) :
    ∃ list', list.pushMessage text (some node) true = .ok list' ∧
      list'.Holds (pushNode node text []) := by
  have hhead : list.head = none := h.forward
  have hcurr := h.curr_pushNode node text
  refine ⟨⟨list.heap.insert node (newNode text none), some node, some node,
    if list.curr = none then some node else list.curr, list.size + 1⟩, ?_, ?_⟩
  · simp only [MsgList.pushMessage, if_true, hhead]
    rfl
  · exact
      { forward := Chain.cons (p := none) rfl hnew rfl
        backward := Chain.cons (p := none) rfl hnew rfl
        curr := hcurr.1
        curr_none := hcurr.2
        size := by rw [h.size]; rfl }

/-- The links of a further message and of the former head are set to each other. -/
lemma Holds.pushMessage_cons {head : ℕ} {first : ListNode} {rest : List (ℕ × ListNode)}
    (h : list.Holds ((head, first) :: rest)) {node : ℕ} (hnew : list.heap[node]? = none)
    (text : CStr) :
    ∃ list', list.pushMessage text (some node) true = .ok list' ∧
      list'.Holds (pushNode node text ((head, first) :: rest)) := by
  have hhead : list.head = some head := h.forward.1
  have hfirst : list.heap[head]? = some first := h.forward.2.1
  have hne : head ≠ node := by
    rintro rfl
    rw [hfirst] at hnew
    cases hnew
  have hread : (list.heap.insert node (newNode text (some head)))[head]? = some first := by
    rw [Heap.getElem?_insert_of_ne _ hne, hfirst]
  have hcurr := h.curr_pushNode node text
  refine ⟨⟨(list.heap.insert node (newNode text (some head))).insert head
    { first with prev := some node }, some node, list.tail,
    if list.curr = none then some node else list.curr, list.size + 1⟩, ?_, ?_⟩
  · simp only [MsgList.pushMessage, if_true, hhead]
    rw [hread]
    rfl
  · have hforward := h.forward.cons (a := node) (n := newNode text (some head)) hnew hhead.symm
    have hbackward := h.backward
    rw [List.reverse_cons] at hbackward
    have hsnoc := hbackward.snoc hnew
      (show ({ first with prev := some node } : ListNode).prev = some node from rfl)
      (show (newNode text (some head)).prev = none from rfl)
    change Chain ListNode.next _ _
      ([(node, newNode text (some head))] ++ (head, first) :: rest) none at hforward
    exact
      { forward := hforward.set rfl
        backward := by simpa [pushNode] using hsnoc
        curr := hcurr.1
        curr_none := hcurr.2
        size := by rw [h.size]; rfl }

/-- A message goes in front of the others. -/
lemma Holds.pushMessage (h : list.Holds nodes) {node : ℕ} (hnew : list.heap[node]? = none)
    (text : CStr) :
    ∃ list', list.pushMessage text (some node) true = .ok list' ∧
      list'.Holds (pushNode node text nodes) := by
  cases nodes with
  | nil => exact h.pushMessage_nil hnew text
  | cons first rest => exact h.pushMessage_cons hnew text

/-! ### Many messages -/

/-- The list after the empty node for the input was pushed and then further messages. `pushed` has
the nodes of these messages, the oldest one first; a message that cannot be copied has none. -/
inductive Pushed : MsgList → (input : ℕ) → (pushed : List ℕ) → Prop
  | input {list : MsgList} {input : ℕ}
    (h : initMsgList.pushMessage [] (some input) true = .ok list) : Pushed list input []
  | push {list list' : MsgList} {input node : ℕ} {pushed : List ℕ} {text : CStr}
    (h : Pushed list input pushed) (hnew : list.heap[node]? = none)
    (hpush : list.pushMessage text (some node) true = .ok list') :
    Pushed list' input (pushed ++ [node])
  | lost {list list' : MsgList} {input node : ℕ} {pushed : List ℕ} {text : CStr}
    (h : Pushed list input pushed) (hpush : list.pushMessage text (some node) false = .ok list') :
    Pushed list' input pushed

/-- From the tail on there are the node for the input and the messages, the oldest one first. -/
lemma Pushed.exists_holds {input : ℕ} {pushed : List ℕ} (h : Pushed list input pushed) :
    ∃ nodes, list.Holds nodes ∧ addrs nodes.reverse = input :: pushed := by
  induction h with
  | @input list input h =>
    have hnew : initMsgList.heap[input]? = none := rfl
    obtain ⟨list', hlist', hholds⟩ := holds_initMsgList.pushMessage hnew []
    obtain rfl : list = list' := Except.ok.inj (h.symm.trans hlist')
    exact ⟨_, hholds, rfl⟩
  | @push list list' input node pushed text _ hnew hpush ih =>
    obtain ⟨nodes, hholds, haddrs⟩ := ih
    obtain ⟨list'', hlist'', hholds'⟩ := hholds.pushMessage hnew text
    obtain rfl : list' = list'' := Except.ok.inj (hpush.symm.trans hlist'')
    refine ⟨_, hholds', ?_⟩
    rw [addrs, List.map_reverse, ← addrs, addrs_pushNode, List.reverse_cons, ← List.cons_append,
      ← haddrs, addrs, addrs, List.map_reverse]
  | lost _ hpush ih =>
    cases hpush
    exact ih

/-- The first message of the list in the first node. -/
lemma exists_pushMessage_first (text : CStr) :
    ∃ list, initMsgList.pushMessage text (some 0) true = .ok list ∧
      list.Holds [(0, newNode text none)] ∧ ∀ a, a ≠ 0 → list.heap[a]? = none := by
  have hfirst : initMsgList.heap[0]? = none := rfl
  obtain ⟨list, hlist, hholds⟩ := holds_initMsgList.pushMessage hfirst text
  refine ⟨list, hlist, hholds, ?_⟩
  intro a ha
  cases hlist
  exact (Heap.getElem?_insert_of_ne _ ha _).trans rfl

/-- A list of two messages. -/
lemma exists_pushed_two (text text' : CStr) :
    ∃ list, Pushed list 0 [1, 2] ∧
      list.Holds (pushNode 2 text' (pushNode 1 text [(0, newNode [] none)])) := by
  obtain ⟨list₀, hlist₀, hholds₀, hnew⟩ := exists_pushMessage_first []
  have hnew₁ : list₀.heap[1]? = none := hnew 1 (by decide)
  obtain ⟨list₁, hlist₁, hholds₁⟩ := hholds₀.pushMessage hnew₁ text
  have hnew₂ : list₁.heap[2]? = none := by
    cases hlist₀
    cases hlist₁
    rfl
  obtain ⟨list₂, hlist₂, hholds₂⟩ := hholds₁.pushMessage hnew₂ text'
  exact ⟨list₂, ((Pushed.input hlist₀).push hnew₁ hlist₁).push hnew₂ hlist₂, hholds₂⟩

/-! ### Moving and clearing -/

/-- The current node stays one of the list. -/
lemma Holds.moveBy (h : list.Holds nodes) {link : ListNode → Option ℕ}
    (hlink : ∀ a n b, (a, n) ∈ nodes → link n = some b → b ∈ addrs nodes) :
    ∃ list', list.moveBy link = .ok list' ∧ list'.Holds nodes := by
  rw [MsgList.moveBy]
  cases hcurr : list.curr with
  | none => exact ⟨list, rfl, h⟩
  | some a =>
    obtain ⟨n, hn, hmem⟩ := h.forward.exists_mem (h.curr a hcurr)
    dsimp only
    rw [hn, orStop_some, ok_bind]
    cases hb : link n with
    | none => exact ⟨list, rfl, h⟩
    | some b =>
      refine ⟨{ list with curr := some b }, rfl, ?_⟩
      exact
        { forward := h.forward
          backward := h.backward
          curr := by
            rintro _ ⟨⟩
            exact hlink a n b hmem hb
          curr_none := by
            rw [← h.curr_none, hcurr]
            exact iff_of_false (Option.some_ne_none b) (Option.some_ne_none a)
          size := h.size }

lemma Holds.moveToNextMessage (h : list.Holds nodes) :
    ∃ list', list.moveToNextMessage = .ok list' ∧ list'.Holds nodes :=
  h.moveBy fun _ _ _ hmem hlink => h.forward.link_mem hmem hlink

lemma Holds.moveToPreviousMessage (h : list.Holds nodes) :
    ∃ list', list.moveToPreviousMessage = .ok list' ∧ list'.Holds nodes := by
  apply h.moveBy
  intro a n b hmem hlink
  have hb := h.backward.link_mem (List.mem_reverse.2 hmem) hlink
  rwa [addrs, List.map_reverse, List.mem_reverse] at hb

/-- Every node is still there when it is read. -/
lemma exists_freeNodes_eq_ok {heap : Heap ListNode} {p : Option ℕ}
    (h : Chain ListNode.next heap p nodes none) : ∃ heap', freeNodes heap p = .ok heap' := by
  induction nodes generalizing heap p with
  | nil =>
    obtain rfl : p = none := h
    rw [freeNodes]
    exact ⟨heap, rfl⟩
  | cons node nodes ih =>
    obtain ⟨a, n⟩ := node
    obtain ⟨heap', hheap'⟩ := ih h.tail
    obtain ⟨rfl, hn, -⟩ := h
    refine ⟨heap', ?_⟩
    rw [freeNodes]
    split
    · next hnone => cases hn.symm.trans hnone
    · next n' hn' =>
      obtain rfl : n = n' := Option.some.inj (hn.symm.trans hn')
      exact hheap'

lemma Holds.clearMsgList (h : list.Holds nodes) :
    ∃ list', list.clearMsgList = .ok list' ∧ list'.Holds [] := by
  obtain ⟨heap', hheap'⟩ := exists_freeNodes_eq_ok h.forward
  refine ⟨⟨heap', none, none, none, 0⟩, ?_, ?_⟩
  · rw [MsgList.clearMsgList, hheap']
    rfl
  · exact ⟨rfl, rfl, by simp, by simp, rfl⟩

/-! ### Any calls -/

/-- A call of one of the functions. A message comes with the results of the allocations. -/
inductive Call
  | pushMessage (text : CStr) (node : Option ℕ) (copied : Bool)
  | moveToNextMessage
  | moveToPreviousMessage
  | clearMsgList

def call (list : MsgList) : Call → Except Stop MsgList
  | .pushMessage text node copied => list.pushMessage text node copied
  | .moveToNextMessage => list.moveToNextMessage
  | .moveToPreviousMessage => list.moveToPreviousMessage
  | .clearMsgList => list.clearMsgList

/-- `malloc` gives an address that is not in use. -/
def CanHappen (list : MsgList) : Call → Prop
  | .pushMessage _ node _ => ∀ a ∈ node, list.heap[a]? = none
  | _ => True

/-- What a call does to the texts that were pushed since the list was cleared, the last one first.
A text that cannot be copied is not pushed. -/
def pushText (texts : List CStr) : Call → List CStr
  | .pushMessage text _ copied => if copied then text :: texts else texts
  | .clearMsgList => []
  | _ => texts

/-- The texts that were pushed since the last `clearMsgList`, in reverse order. -/
def pushedTexts (calls : List Call) : List CStr := calls.foldl pushText []

/-- The lists that the calls lead to. -/
inductive Runs : List Call → MsgList → Prop
  | init : Runs [] initMsgList
  | call {calls : List Call} {c : Call} {list list' : MsgList} (h : Runs calls list)
      (hcan : list.CanHappen c) (hcall : list.call c = .ok list') : Runs (calls ++ [c]) list'

lemma pushedTexts_append (calls : List Call) (c : Call) :
    pushedTexts (calls ++ [c]) = pushText (pushedTexts calls) c := by
  rw [pushedTexts, List.foldl_append]
  rfl

/-- The texts of the nodes. -/
def textsOf (nodes : List (ℕ × ListNode)) : List CStr := nodes.map fun node => node.2.text

lemma textsOf_pushNode (node : ℕ) (text : CStr) (nodes : List (ℕ × ListNode)) :
    textsOf (pushNode node text nodes) = text :: textsOf nodes := by
  cases nodes <;> rfl

/-- What a call does to a list that is in order. -/
lemma Holds.call (h : list.Holds nodes) {c : Call} (hcan : list.CanHappen c) :
    list.call c = .error .exit ∨
      ∃ list' nodes', list.call c = .ok list' ∧ list'.Holds nodes' ∧
        textsOf nodes' = pushText (textsOf nodes) c := by
  cases c with
  | pushMessage text node copied =>
    cases node with
    | none => exact .inl rfl
    | some node =>
      right
      cases copied with
      | false => exact ⟨list, nodes, rfl, h, rfl⟩
      | true =>
        obtain ⟨list', hlist', hholds⟩ := h.pushMessage (hcan node rfl) text
        exact ⟨list', _, hlist', hholds, textsOf_pushNode node text nodes⟩
  | moveToNextMessage =>
    right
    obtain ⟨list', hlist', hholds⟩ := h.moveToNextMessage
    exact ⟨list', nodes, hlist', hholds, rfl⟩
  | moveToPreviousMessage =>
    right
    obtain ⟨list', hlist', hholds⟩ := h.moveToPreviousMessage
    exact ⟨list', nodes, hlist', hholds, rfl⟩
  | clearMsgList =>
    right
    obtain ⟨list', hlist', hholds⟩ := h.clearMsgList
    exact ⟨list', [], hlist', hholds, rfl⟩

lemma Runs.exists_holds {calls : List Call} (h : Runs calls list) :
    ∃ nodes, list.Holds nodes ∧ textsOf nodes = pushedTexts calls := by
  induction h with
  | init => exact ⟨[], holds_initMsgList, rfl⟩
  | @call calls c list list' _ hcan hcall ih =>
    obtain ⟨nodes, hholds, htexts⟩ := ih
    rcases hholds.call hcan with hexit | ⟨list'', nodes', hlist'', hholds', htexts'⟩
    · cases hcall.symm.trans hexit
    · obtain rfl : list' = list'' := Except.ok.inj (hcall.symm.trans hlist'')
      refine ⟨nodes', hholds', ?_⟩
      rw [pushedTexts_append, ← htexts, htexts']

/-- The list as it is found when the links are followed: from the head on there are the nodes
`nodes`. -/
structure IsDoublyLinked (list : MsgList) (nodes : List (ℕ × ListNode)) : Prop where
  next : Chain ListNode.next list.heap list.head nodes none
  nodup : (addrs nodes).Nodup
  size : list.size = nodes.length
  tail : list.tail = (addrs nodes).getLast?
  prev_iff : ∀ b m, (b, m) ∈ nodes →
    ∀ a, m.prev = some a ↔ ∃ n, (a, n) ∈ nodes ∧ n.next = some b
  head_prev : ∀ a n, list.head = some a → list.heap[a]? = some n → n.prev = none
  tail_next : ∀ a n, list.tail = some a → list.heap[a]? = some n → n.next = none
  curr_none : list.curr = none ↔ nodes = []
  curr_mem : ∀ a ∈ list.curr, a ∈ addrs nodes

lemma Holds.tail_eq (h : list.Holds nodes) : list.tail = (addrs nodes).getLast? := by
  rw [h.backward.head_eq, addrs, List.map_reverse, List.head?_reverse, addrs]

lemma Holds.isDoublyLinked (h : list.Holds nodes) : list.IsDoublyLinked nodes where
  next := h.forward
  nodup := h.forward.nodup
  size := h.size
  tail := h.tail_eq
  prev_iff := by
    intro b m hb a
    constructor
    · intro hprev
      have ha := h.backward.link_mem (List.mem_reverse.2 hb) hprev
      obtain ⟨n, -, hmem⟩ := h.backward.exists_mem ha
      have hn := List.mem_reverse.1 hmem
      exact ⟨n, hn, (h.forward.link_iff h.backward hn hb).2 hprev⟩
    · rintro ⟨n, hn, hnext⟩
      exact (h.forward.link_iff h.backward hn hb).1 hnext
  head_prev := by
    intro a n ha hn
    apply h.backward.link_getLast _ hn
    rw [addrs, List.map_reverse, List.getLast?_reverse, ← addrs, ← h.forward.head_eq, ha]
  tail_next := by
    intro a n ha hn
    apply h.forward.link_getLast _ hn
    rw [← h.tail_eq, ha]
  curr_none := h.curr_none
  curr_mem := h.curr

lemma curr_of_pushMessage {list' : MsgList} {text : CStr} {node : Option ℕ} {copied : Bool}
    (hcurr : list.curr ≠ none) (h : list.pushMessage text node copied = .ok list') :
    list'.curr = list.curr := by
  cases node with
  | none => cases h
  | some node =>
    cases copied with
    | false =>
      cases h
      rfl
    | true =>
      simp only [MsgList.pushMessage, if_true, if_neg hcurr] at h
      split at h
      · obtain ⟨first, -, h⟩ := bind_eq_ok_iff.1 h
        cases h
        rfl
      · cases h
        rfl

/-- The calls keep a proper doubly linked list of the texts that were pushed, and no node is read
that is not there. -/
theorem isDoublyLinked_of_runs {calls : List Call} {list : MsgList} (h : Runs calls list) :
    (∃ nodes, list.IsDoublyLinked nodes ∧ textsOf nodes = pushedTexts calls) ∧
      (∀ text node copied list', list.head ≠ none →
        list.pushMessage text node copied = .ok list' → list'.curr = list.curr) ∧
      ∀ c, list.CanHappen c → list.call c ≠ .error .outOfBounds := by
  obtain ⟨nodes, hholds, htexts⟩ := h.exists_holds
  refine ⟨⟨nodes, hholds.isDoublyLinked, htexts⟩, ?_, ?_⟩
  · intro text node copied list' hhead
    apply curr_of_pushMessage
    rw [Ne, hholds.curr_none, ← hholds.forward.eq_none_iff]
    exact hhead
  · intro c hcan hstop
    rcases hholds.call hcan with hexit | ⟨list', nodes', hlist', -, -⟩
    · cases hstop.symm.trans hexit
    · cases hstop.symm.trans hlist'

/-- Two messages are pushed into the list that was cleared. -/
def twoCalls : List Call :=
  [.clearMsgList, .pushMessage [0x61] (some 0) true, .pushMessage [0x62] (some 1) true,
    .moveToPreviousMessage]

lemma exists_runs_twoCalls : ∃ list, Runs twoCalls list := by
  have hclear : initMsgList.call .clearMsgList = .ok initMsgList := by
    rw [MsgList.call, MsgList.clearMsgList, initMsgList, freeNodes]
    rfl
  obtain ⟨list₁, hlist₁, hholds₁, hnew⟩ := exists_pushMessage_first [0x61]
  have hnew₁ : list₁.heap[1]? = none := hnew 1 (by decide)
  obtain ⟨list₂, hlist₂, hholds₂⟩ := hholds₁.pushMessage hnew₁ [0x62]
  obtain ⟨list₃, hlist₃, -⟩ := hholds₂.moveToPreviousMessage
  have hrun₀ : Runs [.clearMsgList] initMsgList := Runs.init.call trivial hclear
  have hrun₁ := hrun₀.call (c := .pushMessage [0x61] (some 0) true)
    (by rintro _ ⟨⟩; rfl) hlist₁
  have hrun₂ := hrun₁.call (c := .pushMessage [0x62] (some 1) true)
    (by rintro _ ⟨⟩; exact hnew₁) hlist₂
  exact ⟨list₃, hrun₂.call (c := .moveToPreviousMessage) trivial hlist₃⟩

theorem isDoublyLinked_of_runs_twoCalls :
    ∃ list nodes, Runs twoCalls list ∧ list.IsDoublyLinked nodes ∧
      textsOf nodes = [[0x62], [0x61]] := by
  obtain ⟨list, hrun⟩ := exists_runs_twoCalls
  obtain ⟨⟨nodes, hnodes, htexts⟩, -⟩ := isDoublyLinked_of_runs hrun
  exact ⟨list, nodes, hrun, hnodes, htexts⟩

end MsgList

end Vjft.Term
